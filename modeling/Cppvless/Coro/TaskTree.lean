import Cppvless.Coro.Task

set_option autoImplicit false

/-! # Tasks run as their trees

A state of the machine of `Coro.Task` is a state of the pool of its trees: from each member coroutine a chain
of frames leads through those that are awaited, and what the chain stands for is the rest of the
tree. A call, a return and the unwinding of the C++ stack change the chains and not what they stand
for; every other step is a step of the pool. -/

namespace Cppvless

open Coroutine Relation

namespace Tasks

variable {O : Object} {heap heap' : Handle → Option (Frame O)}

/-! ## Chains of frames -/

/-- What a frame stands for that awaits no callee. -/
inductive Stands {α : Type} : Point O α → O.Prog α → Prop
  | running (c : Body O.Exn O.sig α) : Stands (.running c) c.tree
  | final (r : Except O.Exn α) : Stands (.final r) (.done r)

/-- `hs` are the callers of frame `h`, the innermost first, and `f` is what they do once it has ended. -/
inductive Callers (heap : Handle → Option (Frame O)) :
    Handle → List Handle → (β : Type) → (Except O.Exn β → O.Prog Unit) → Prop
  | none (h : Handle) : Callers heap h [] Unit .done
  | caller (h c : Handle) (hs : List Handle) {α β : Type} (k : Except O.Exn β → Body O.Exn O.sig α)
      (f : Except O.Exn α → O.Prog Unit)
      (hframe : heap c = some ⟨α, .awaiting h k, hs.head?⟩) (hrest : Callers heap c hs α f) :
      Callers heap h (c :: hs) β fun r => (k r).tree.andThen f

/-- The frames of a member coroutine, the innermost first, and what they stand for. -/
inductive Chain (heap : Handle → Option (Frame O)) : List Handle → O.Prog Unit → Prop
  | mk (h : Handle) (hs : List Handle) {β : Type} (pt : Point O β) (c : O.Prog β)
      (f : Except O.Exn β → O.Prog Unit) (hframe : heap h = some ⟨β, pt, hs.head?⟩)
      (hpt : Stands pt c) (hcallers : Callers heap h hs β f) : Chain heap (h :: hs) (c.andThen f)

/-- Where in a chain `resume` has been called: at the innermost frame, or at its caller once that has ended. -/
inductive Tip (heap : Handle → Option (Frame O)) : List Handle → Handle → Prop
  | running (h : Handle) (hs : List Handle) {β : Type} (c : Body O.Exn O.sig β) (q : Option Handle)
      (hframe : heap h = some ⟨β, .running c, q⟩) : Tip heap (h :: hs) h
  | resuming (h h' : Handle) (hs : List Handle) {β : Type} (r : Except O.Exn β) (q : Option Handle)
      (hframe : heap h = some ⟨β, .final r, q⟩) : Tip heap (h :: h' :: hs) h'

/-- The coroutines that are running, the innermost first, behind the calls on the C++ stack. -/
inductive Runs (heap : Handle → Option (Frame O)) (chain : O.Task → List Handle) :
    List Activation → List O.Task → Prop
  | nil : Runs heap chain [] []
  | body (h : Handle) (t : O.Task) (rest : List Activation) (ts : List O.Task)
      (htip : Tip heap (chain t) h) (hrest : Runs heap chain rest ts) :
      Runs heap chain (.body h :: rest) (t :: ts)
  | awaitSuspend (h : Handle) (rest : List Activation) (ts : List O.Task)
      (hrest : Runs heap chain rest ts) : Runs heap chain (.awaitSuspend h :: rest) ts
  | finalSuspend (h : Handle) (rest : List Activation) (ts : List O.Task)
      (hrest : Runs heap chain rest ts) : Runs heap chain (.finalSuspend h :: rest) ts

section

variable {h : Handle} {hs l : List Handle} {β : Type} {f : Except O.Exn β → O.Prog Unit}
  {c : O.Prog Unit}

theorem Callers.congr (hc : Callers heap h hs β f) (hsame : ∀ x ∈ hs, heap' x = heap x) :
    Callers heap' h hs β f := by
  induction hc with
  | none h => exact .none h
  | caller h c hs k f hframe _ ih =>
      refine .caller h c hs k f ?_ (ih fun x hx => hsame x (.tail _ hx))
      rw [hsame c (.head _)]
      exact hframe

/-- Every caller awaits. -/
theorem Callers.awaiting (hc : Callers heap h hs β f) {x : Handle} (hx : x ∈ hs) :
    ∃ (α γ : Type) (callee : Handle) (k : Except O.Exn γ → Body O.Exn O.sig α) (q : Option Handle),
      heap x = some ⟨α, .awaiting callee k, q⟩ := by
  induction hc with
  | none h => cases hx
  | caller h c hs k f hframe _ ih =>
      rcases List.mem_cons.1 hx with rfl | hx
      · exact ⟨_, _, h, k, _, hframe⟩
      · exact ih hx

theorem Chain.congr (hc : Chain heap l c) (hsame : ∀ x ∈ l, heap' x = heap x) : Chain heap' l c := by
  cases hc with
  | mk h hs pt c f hframe hpt hcallers =>
      refine .mk h hs pt c f ?_ hpt (hcallers.congr fun x hx => hsame x (.tail _ hx))
      rw [hsame h (.head _)]
      exact hframe

theorem Chain.alive (hc : Chain heap l c) {x : Handle} (hx : x ∈ l) : heap x ≠ none := by
  cases hc with
  | mk h hs pt c f hframe hpt hcallers =>
      rcases List.mem_cons.1 hx with rfl | hx
      · rw [hframe]
        exact Option.some_ne_none _
      · obtain ⟨_, _, _, _, _, hx⟩ := hcallers.awaiting hx
        rw [hx]
        exact Option.some_ne_none _

/-- A frame that is in its body is the innermost of its chain. -/
theorem Chain.of_running (hc : Chain heap l c) {b : Body O.Exn O.sig β} {q : Option Handle}
    (hframe : heap h = some ⟨β, .running b, q⟩) (hmem : h ∈ l) :
    ∃ hs f, l = h :: hs ∧ q = hs.head? ∧ Callers heap h hs β f ∧ c = b.tree.andThen f := by
  cases hc with
  | mk h₀ hs pt c f hframe₀ hpt hcallers =>
      rcases List.mem_cons.1 hmem with rfl | hmem
      · rw [hframe] at hframe₀
        cases hframe₀
        cases hpt
        exact ⟨hs, f, rfl, rfl, hcallers, rfl⟩
      · obtain ⟨_, _, _, _, _, hawaits⟩ := hcallers.awaiting hmem
        rw [hframe] at hawaits
        cases hawaits

theorem Tip.congr (ht : Tip heap l h) (hsame : ∀ x ∈ l, heap' x = heap x) : Tip heap' l h := by
  cases ht with
  | running h hs c q hframe =>
      refine .running h hs c q ?_
      rw [hsame h (.head _)]
      exact hframe
  | resuming h₀ h hs r q hframe =>
      refine .resuming h₀ h hs r q ?_
      rw [hsame h₀ (.head _)]
      exact hframe

theorem Tip.mem (ht : Tip heap l h) : h ∈ l := by
  cases ht with
  | running h hs c q hframe => exact .head _
  | resuming h₀ h hs r q hframe => exact .tail _ (.head _)

end

/-! ## Machine and pool -/

/-- A coroutine that is not running has ended and is alone, or awaits an operation. -/
def Parked (heap : Handle → Option (Frame O)) (l : List Handle) : Prop :=
  ∀ h hs, l = h :: hs →
    (∃ (β : Type) (o : O.Io.Op) (k : O.Io.Res o → Body O.Exn O.sig β) (q : Option Handle),
      heap h = some ⟨β, .running (.op (.io o) k), q⟩ ∧ O.suspends o = true) ∨
    hs = [] ∧ ∃ (β : Type) (r : Except O.Exn β) (q : Option Handle), heap h = some ⟨β, .final r, q⟩

/-- `p` is `m` with the frames of each member coroutine `t`, which are `chain t`, taken for what they stand
    for. Every frame that is alive belongs to one of the chains. -/
structure Represents (m : Machine O) (p : Pool O) (chain : O.Task → List Handle) : Prop where
  world : p.world = m.world
  fresh : ∀ t, m.root t = none → p.frames t = none ∧ chain t = []
  frames : ∀ t h, m.root t = some h →
    (chain t).getLast? = some h ∧ ∃ c, Chain m.heap (chain t) c ∧ p.frames t = some c
  runs : Runs m.heap chain m.stack p.stack
  alone : p.stack.Nodup
  owned : ∀ h, m.heap h ≠ none → ∃ t, h ∈ chain t
  apart : ∀ t t' h, h ∈ chain t → h ∈ chain t' → t = t'
  nodup : ∀ t, (chain t).Nodup
  parked : ∀ t, t ∉ p.stack → Parked m.heap (chain t)
  room : ∃ n, ∀ h, n ≤ h → m.heap h = none

theorem exists_bound (l : List Handle) : ∃ n, ∀ h ∈ l, h < n := by
  induction l with
  | nil => exact ⟨0, fun h hh => absurd hh List.not_mem_nil⟩
  | cons x l ih =>
      obtain ⟨n, hn⟩ := ih
      refine ⟨max (x + 1) n, fun h hh => ?_⟩
      rcases List.mem_cons.1 hh with rfl | hh
      · exact Nat.lt_of_lt_of_le (Nat.lt_succ_self h) (Nat.le_max_left _ _)
      · exact Nat.lt_of_lt_of_le (hn h hh) (Nat.le_max_right _ _)

theorem internal_tree {α : Type} {b b' : Body O.Exn O.sig α} {w w' : World O}
    (h : internal b w = some (b', w')) (f : Except O.Exn α → O.Prog Unit) :
    Coroutine.internal (b.tree.andThen f) w = some (b'.tree.andThen f, w') := by
  cases b with
  | done r => cases h
  | call c k => cases h
  | iter body b k =>
      cases h
      rw [Body.tree_unroll, Coro.unroll_andThen]
      rfl
  | op o k =>
      cases o with
      | get =>
          cases h
          rfl
      | member g =>
          cases h
          rfl
      | io o => cases h
      | spawn u => cases h

namespace Represents

variable {m : Machine O} {p : Pool O} {chain : O.Task → List Handle} {t u : O.Task}

theorem started (hR : Represents m p chain) {h : Handle} (hmem : h ∈ chain t) :
    ∃ root, m.root t = some root := by
  cases hroot : m.root t with
  | none =>
      rw [(hR.fresh t hroot).2] at hmem
      cases hmem
  | some root => exact ⟨root, rfl⟩

theorem alive (hR : Represents m p chain) {h : Handle} (hmem : h ∈ chain t) : m.heap h ≠ none := by
  obtain ⟨root, hroot⟩ := hR.started hmem
  obtain ⟨-, c, hchain, -⟩ := hR.frames t root hroot
  exact hchain.alive hmem

/-- The frames of another coroutine are left alone by a change of those of `t` into `l`. -/
theorem elsewhere (hR : Represents m p chain) {l : List Handle}
    (hsame : ∀ x, x ∉ chain t → x ∉ l → heap' x = m.heap x)
    (hnew : ∀ x ∈ l, x ∉ chain t → m.heap x = none) (hne : u ≠ t) {x : Handle} (hx : x ∈ chain u) :
    heap' x = m.heap x := by
  have hout : x ∉ chain t := fun h => hne (hR.apart u t x hx h)
  exact hsame x hout fun h => hR.alive hx (hnew x h hout)

/-- The coroutine that is running, when the innermost `resume` is in a body. -/
theorem running (hR : Represents m p chain) {h : Handle} {rest : List Activation} {β : Type}
    {b : Body O.Exn O.sig β} {q : Option Handle} (hstack : m.stack = .body h :: rest)
    (hframe : m.heap h = some ⟨β, .running b, q⟩) :
    ∃ t ts hs f, p.stack = t :: ts ∧ chain t = h :: hs ∧ q = hs.head? ∧ Callers m.heap h hs β f ∧
      p.frames t = some (b.tree.andThen f) ∧ Runs m.heap chain rest ts := by
  have hruns := hR.runs
  rw [hstack] at hruns
  generalize hp : p.stack = stack at hruns
  cases hruns with
  | body h t rest ts htip hrest =>
      obtain ⟨root, hroot⟩ := hR.started htip.mem
      obtain ⟨-, c, hchain, hframes⟩ := hR.frames t root hroot
      obtain ⟨hs, f, hl, hq, hcallers, rfl⟩ := hchain.of_running hframe htip.mem
      exact ⟨t, ts, hs, f, rfl, hl, hq, hcallers, hframes, hrest⟩

theorem stack_nil (hR : Represents m p chain) (hstack : m.stack = []) : p.stack = [] := by
  have hruns := hR.runs
  rw [hstack] at hruns
  generalize hp : p.stack = stack at hruns
  cases hruns
  rfl

variable [DecidableEq O.Task]

theorem runs_elsewhere (hR : Represents m p chain) {l : List Handle}
    (hsame : ∀ x, x ∉ chain t → x ∉ l → heap' x = m.heap x)
    (hnew : ∀ x ∈ l, x ∉ chain t → m.heap x = none) {acts : List Activation} {ts : List O.Task}
    (hruns : Runs m.heap chain acts ts) (ht : t ∉ ts) :
    Runs heap' (Function.update chain t l) acts ts := by
  induction hruns with
  | nil => exact .nil
  | body h u rest ts htip _ ih =>
      have hne : u ≠ t := fun h => ht (h ▸ .head _)
      refine .body h u rest ts ?_ (ih fun h => ht (.tail _ h))
      rw [Function.update_of_ne hne]
      exact htip.congr fun x hx => hR.elsewhere hsame hnew hne hx
  | awaitSuspend h rest ts _ ih => exact .awaitSuspend h rest ts (ih ht)
  | finalSuspend h rest ts _ ih => exact .finalSuspend h rest ts (ih ht)

/-- The frames of `t` become `l`. -/
theorem update (hR : Represents m p chain) {l : List Handle} {root' : O.Task → Option Handle}
    {stack' : List Activation} {ts' : List O.Task} {c' : O.Prog Unit} (w : World O)
    (hroot : ∀ u, u ≠ t → root' u = m.root u) (hlast : ∃ h, root' t = some h ∧ l.getLast? = some h)
    (hsame : ∀ x, x ∉ chain t → x ∉ l → heap' x = m.heap x)
    (hgone : ∀ x ∈ chain t, x ∉ l → heap' x = none)
    (hnew : ∀ x ∈ l, x ∉ chain t → m.heap x = none) (hchain : Chain heap' l c') (hnodup : l.Nodup)
    (hruns : Runs heap' (Function.update chain t l) stack' ts') (halone : ts'.Nodup)
    (hts : ∀ u, u ≠ t → u ∈ p.stack → u ∈ ts') (hparked : t ∉ ts' → Parked heap' l) :
    Represents ⟨w, heap', root', stack'⟩ ⟨w, Function.update p.frames t (some c'), ts'⟩
      (Function.update chain t l) := by
  have hother : ∀ {u}, u ≠ t → ∀ x ∈ chain u, heap' x = m.heap x :=
    fun hne x hx => hR.elsewhere hsame hnew hne hx
  have hdisjoint : ∀ {u x}, u ≠ t → x ∈ chain u → x ∉ l := by
    intro u x hne hx hmem
    have hout : x ∉ chain t := fun h => hne (hR.apart u t x hx h)
    exact hR.alive hx (hnew x hmem hout)
  obtain ⟨last, hlast, hl⟩ := hlast
  constructor
  case world => rfl
  case fresh =>
    intro u (hu : root' u = none)
    obtain rfl | hne := eq_or_ne u t
    · rw [hlast] at hu
      cases hu
    · rw [Function.update_of_ne hne]
      obtain ⟨hp, hl⟩ := hR.fresh u ((hroot u hne).symm.trans hu)
      exact ⟨(Function.update_of_ne hne _ _).trans hp, hl⟩
  case frames =>
    intro u h (hu : root' u = some h)
    obtain rfl | hne := eq_or_ne u t
    · rw [hlast] at hu
      cases hu
      rw [Function.update_self]
      exact ⟨hl, c', hchain, Function.update_self _ _ _⟩
    · rw [Function.update_of_ne hne]
      obtain ⟨hl, c, hc, hp⟩ := hR.frames u h ((hroot u hne).symm.trans hu)
      exact ⟨hl, c, hc.congr (hother hne), (Function.update_of_ne hne _ _).trans hp⟩
  case runs => exact hruns
  case alone => exact halone
  case owned =>
    intro x (hx : heap' x ≠ none)
    by_cases hmem : x ∈ l
    · exact ⟨t, by rwa [Function.update_self]⟩
    · by_cases hold : x ∈ chain t
      · exact absurd (hgone x hold hmem) hx
      · obtain ⟨u, hu⟩ := hR.owned x (hsame x hold hmem ▸ hx)
        have hne : u ≠ t := fun h => hold (h ▸ hu)
        exact ⟨u, by rwa [Function.update_of_ne hne]⟩
  case apart =>
    intro u v x hu hv
    obtain rfl | hne := eq_or_ne u t
    · obtain rfl | hne' := eq_or_ne v u
      · rfl
      · rw [Function.update_self] at hu
        rw [Function.update_of_ne hne'] at hv
        exact absurd hu (hdisjoint hne' hv)
    · rw [Function.update_of_ne hne] at hu
      obtain rfl | hne' := eq_or_ne v t
      · rw [Function.update_self] at hv
        exact absurd hv (hdisjoint hne hu)
      · rw [Function.update_of_ne hne'] at hv
        exact hR.apart u v x hu hv
  case nodup =>
    intro u
    obtain rfl | hne := eq_or_ne u t
    · rw [Function.update_self]
      exact hnodup
    · rw [Function.update_of_ne hne]
      exact hR.nodup u
  case parked =>
    intro u (hu : u ∉ ts')
    obtain rfl | hne := eq_or_ne u t
    · rw [Function.update_self]
      exact hparked hu
    · rw [Function.update_of_ne hne]
      have hpark := hR.parked u fun h => hu (hts u hne h)
      intro h hs hl
      have hframe : heap' h = m.heap h := hother hne h (hl ▸ .head _)
      show (∃ β o k q, heap' h = _ ∧ _) ∨ _ ∧ ∃ β r q, heap' h = _
      rw [hframe]
      exact hpark h hs hl
  case room =>
    obtain ⟨n, hn⟩ := hR.room
    obtain ⟨n', hn'⟩ := exists_bound l
    refine ⟨max n n', fun x hx => ?_⟩
    have hout : x ∉ l := fun hmem =>
      Nat.lt_irrefl x (Nat.lt_of_lt_of_le (hn' x hmem) (Nat.le_trans (Nat.le_max_right _ _) hx))
    by_cases hold : x ∈ chain t
    · exact hgone x hold hout
    · exact (hsame x hold hout).trans (hn x (Nat.le_trans (Nat.le_max_left _ _) hx))

theorem runs_frame (hR : Represents m p chain) {h : Handle} {hs : List Handle}
    (hl : chain t = h :: hs) {frame : Option (Frame O)} {acts : List Activation} {ts : List O.Task}
    (hruns : Runs m.heap chain acts ts) (ht : t ∉ ts) :
    Runs (Function.update m.heap h frame) chain acts ts := by
  have hmem : h ∈ chain t := hl ▸ .head _
  have hne : ∀ x, x ∉ chain t → x ≠ h := by
    rintro x hx rfl
    exact hx hmem
  have helse : Runs (Function.update m.heap h frame) (Function.update chain t (chain t)) acts ts :=
    hR.runs_elsewhere (fun x hx _ => Function.update_of_ne (hne x hx) _ _)
      (fun x hx hout => absurd hx hout) hruns ht
  rwa [Function.update_eq_self] at helse

/-- The innermost frame of `t` is replaced. -/
theorem advance (hR : Represents m p chain) {h : Handle} {hs : List Handle} {β : Type}
    {b : Body O.Exn O.sig β} {f : Except O.Exn β → O.Prog Unit} (hl : chain t = h :: hs)
    (hframe : m.heap h = some ⟨β, .running b, hs.head?⟩) (hcallers : Callers m.heap h hs β f)
    {pt : Point O β} {c' : O.Prog β} (hpt : Stands pt c') (w : World O) {stack' : List Activation}
    {ts' : List O.Task}
    (hruns : Runs (Function.update m.heap h (some ⟨β, pt, hs.head?⟩)) chain stack' ts')
    (halone : ts'.Nodup) (hts : ∀ u, u ≠ t → u ∈ p.stack → u ∈ ts')
    (hparked : t ∉ ts' → Parked (Function.update m.heap h (some ⟨β, pt, hs.head?⟩)) (h :: hs)) :
    Represents { m.setFrame h ⟨β, pt, hs.head?⟩ with world := w, stack := stack' }
      ⟨w, Function.update p.frames t (some (c'.andThen f)), ts'⟩ chain := by
  have hmem : h ∈ chain t := hl ▸ .head _
  have hnodup : (h :: hs).Nodup := hl ▸ hR.nodup t
  obtain ⟨root, hroot⟩ := hR.started hmem
  have hlast := (hR.frames t root hroot).1
  have hsame : ∀ x, x ≠ h → Function.update m.heap h (some ⟨β, pt, hs.head?⟩) x = m.heap x :=
    fun x hx => Function.update_of_ne hx _ _
  have hchain : Chain (Function.update m.heap h (some ⟨β, pt, hs.head?⟩)) (h :: hs) (c'.andThen f) := by
    refine .mk h hs pt c' f (Function.update_self _ _ _) hpt (hcallers.congr fun x hx => hsame x ?_)
    rintro rfl
    exact (List.nodup_cons.1 hnodup).1 hx
  have hupdate := hR.update w (fun _ _ => rfl) ⟨root, hroot, hl ▸ hlast⟩
    (fun x hx _ => hsame x fun h => hx (h ▸ hmem)) (fun x hx hout => absurd (hl ▸ hx) hout)
    (fun x hx hout => absurd (hl ▸ hx) hout) hchain hnodup
    (by rwa [← hl, Function.update_eq_self]) halone hts hparked
  rwa [← hl, Function.update_eq_self] at hupdate

/-- The running coroutine goes on. -/
theorem goOn (hR : Represents m p chain) {h : Handle} {rest : List Activation} {β : Type}
    {b : Body O.Exn O.sig β} {q : Option Handle} (hstack : m.stack = .body h :: rest)
    (hframe : m.heap h = some ⟨β, .running b, q⟩) (b' : Body O.Exn O.sig β) (w : World O) :
    ∃ t ts f, p.stack = t :: ts ∧ p.frames t = some (b.tree.andThen f) ∧
      Represents { m.setFrame h ⟨β, .running b', q⟩ with world := w }
        { p.setFrame t (b'.tree.andThen f) with world := w } chain := by
  obtain ⟨t, ts, hs, f, hp, hl, rfl, hcallers, hframes, hrest⟩ := hR.running hstack hframe
  have halone := hR.alone
  rw [hp] at halone
  refine ⟨t, ts, f, hp, hframes, ?_⟩
  refine hR.advance hl hframe hcallers (.running b') w ?_ hR.alone (fun _ _ hu => hu)
    fun ht => absurd (hp ▸ .head _) ht
  show Runs _ chain m.stack p.stack
  rw [hp, hstack]
  refine .body h t rest ts ?_ (hR.runs_frame hl hrest (List.nodup_cons.1 halone).1)
  rw [hl]
  exact .running h hs b' hs.head? (Function.update_self _ _ _)

/-- Calls of `resume` return. -/
theorem unwind (hR : Represents m p chain) {stack' : List Activation} {ts' : List O.Task}
    (hruns : Runs m.heap chain stack' ts') (halone : ts'.Nodup)
    (hparked : ∀ u ∈ p.stack, u ∉ ts' → Parked m.heap (chain u)) :
    Represents { m with stack := stack' } { p with stack := ts' } chain := by
  refine { hR with runs := hruns, alone := halone, parked := fun u hu => ?_ }
  by_cases hmem : u ∈ p.stack
  · exact hparked u hmem hu
  · exact hR.parked u hmem

/-- The pool has not moved. -/
theorem of_update {m' : Machine O} {chain' : O.Task → List Handle} {w : World O} {c' : O.Prog Unit}
    {ts' : List O.Task}
    (h : Represents m' ⟨w, Function.update p.frames t (some c'), ts'⟩ chain')
    (hc : p.frames t = some c') (hw : p.world = w) : Represents m' { p with stack := ts' } chain' := by
  rw [← hc, Function.update_eq_self, ← hw] at h
  exact h

end Represents

/-! ## Each step -/

theorem Callers.of_nil {h : Handle} {β : Type} {f : Except O.Exn β → O.Prog Unit}
    (hc : Callers heap h [] β f) (r : Except O.Exn β) : ∃ r', f r = .done r' := by
  cases hc with
  | none h => exact ⟨r, rfl⟩

theorem Runs.ne_nil {chain : O.Task → List Handle} {acts : List Activation} {ts : List O.Task}
    {u : O.Task} (hruns : Runs heap chain acts ts) (hu : u ∈ ts) : chain u ≠ [] := by
  induction hruns with
  | nil => cases hu
  | body h t rest ts htip _ ih =>
      rcases List.mem_cons.1 hu with rfl | hu
      · exact List.ne_nil_of_mem htip.mem
      · exact ih hu
  | awaitSuspend h rest ts _ ih => exact ih hu
  | finalSuspend h rest ts _ ih => exact ih hu

namespace Represents

variable {m : Machine O} {p : Pool O} {chain : O.Task → List Handle} [DecidableEq O.Task]

/-- A member coroutine is started. -/
theorem start (body : O.Task → Body O.Exn O.sig Unit) (hR : Represents m p chain) {h h' : Handle}
    {rest : List Activation} {α : Type} {u : O.Task} {k : Unit → Body O.Exn O.sig α}
    {q : Option Handle} (hstack : m.stack = .body h :: rest)
    (hframe : m.heap h = some ⟨α, .running (.op (.spawn u) k), q⟩) (hroot : m.root u = none)
    (hfresh : m.heap h' = none) :
    ∃ t ts f, p.stack = t :: ts ∧ p.frames t = some ((Body.op (S := O.sig) (.spawn u) k).tree.andThen f) ∧
      p.frames u = none ∧
      Represents
        { (m.setFrame h ⟨α, .running (k ()), q⟩).setFrame h' ⟨Unit, .running (body u), none⟩ with
          world := m.world.start u, root := Function.update m.root u (some h'),
          stack := .body h' :: m.stack }
        { (p.setFrame t ((k ()).tree.andThen f)).setFrame u (body u).tree with
          world := m.world.start u, stack := u :: p.stack } (Function.update chain u [h']) := by
  obtain ⟨t, ts, f, hp, hframes, hgo⟩ := hR.goOn hstack hframe (k ()) (m.world.start u)
  obtain ⟨hfreshFrame, hnil⟩ := hR.fresh u hroot
  have hne : h' ≠ h := by
    rintro rfl
    rw [hframe] at hfresh
    cases hfresh
  have hu : u ∉ p.stack := fun hu => hR.runs.ne_nil hu hnil
  have hdead : (m.setFrame h ⟨α, .running (k ()), q⟩).heap h' = none :=
    (Function.update_of_ne hne _ _).trans hfresh
  have hsame : ∀ x, x ∉ chain u → x ∉ [h'] →
      Function.update (m.setFrame h ⟨α, .running (k ()), q⟩).heap h'
        (some ⟨Unit, .running (body u), none⟩) x = (m.setFrame h ⟨α, .running (k ()), q⟩).heap x :=
    fun x _ hx => Function.update_of_ne (List.ne_of_not_mem_cons hx) _ _
  have hnew : ∀ x ∈ [h'], x ∉ chain u → (m.setFrame h ⟨α, .running (k ()), q⟩).heap x = none := by
    intro x hx _
    rw [List.mem_singleton.1 hx]
    exact hdead
  refine ⟨t, ts, f, hp, hframes, hfreshFrame, ?_⟩
  refine hgo.update (m.world.start u) (fun v hv => Function.update_of_ne hv _ _)
    ⟨h', Function.update_self _ _ _, rfl⟩ hsame ?_ hnew ?_ (by simp) ?_ ?_ ?_ ?_
  · intro x hx
    rw [hnil] at hx
    cases hx
  · have hborn : ((m.setFrame h ⟨α, .running (k ()), q⟩).setFrame h'
        ⟨Unit, .running (body u), none⟩).heap h' = some ⟨Unit, .running (body u), none⟩ :=
      Function.update_self _ _ _
    have hchain := Chain.mk h' [] (.running (body u)) _ .done hborn (.running (body u)) (.none h')
    rwa [Coro.andThen_done] at hchain
  · refine .body h' u _ _ ?_ (hgo.runs_elsewhere hsame hnew hgo.runs hu)
    rw [Function.update_self]
    exact .running h' [] _ _ (Function.update_self _ _ _)
  · exact List.nodup_cons.2 ⟨hu, hR.alone⟩
  · exact fun v _ hv => .tail _ hv
  · exact fun hout => absurd (List.Mem.head _) hout

/-- A callee is awaited. -/
theorem await (hR : Represents m p chain) {h h' : Handle} {rest : List Activation} {α β : Type}
    {c : Body O.Exn O.sig β} {k : Except O.Exn β → Body O.Exn O.sig α} {q : Option Handle}
    (hstack : m.stack = .body h :: rest) (hframe : m.heap h = some ⟨α, .running (.call c k), q⟩)
    (hfresh : m.heap h' = none) :
    ∃ t ts hs, p.stack = t :: ts ∧ chain t = h :: hs ∧ Represents
      { (m.setFrame h ⟨α, .awaiting h' k, q⟩).setFrame h' ⟨β, .running c, some h⟩ with
        stack := .body h' :: .awaitSuspend h :: rest } p
      (Function.update chain t (h' :: h :: hs)) := by
  obtain ⟨t, ts, hs, f, hp, hl, rfl, hcallers, hframes, hrest⟩ := hR.running hstack hframe
  have halone := hR.alone
  rw [hp] at halone
  have hnodup : (h :: hs).Nodup := hl ▸ hR.nodup t
  have hmem : h ∈ chain t := hl ▸ .head _
  have hout : h' ∉ h :: hs := fun hx => hR.alive (hl ▸ hx : h' ∈ chain t) hfresh
  have hne : h ≠ h' := fun heq => hout (heq ▸ .head _)
  obtain ⟨root, hroot⟩ := hR.started hmem
  have hlast := (hR.frames t root hroot).1
  let heap' : Handle → Option (Frame O) := Function.update
    (Function.update m.heap h (some ⟨α, .awaiting h' k, hs.head?⟩)) h' (some ⟨β, .running c, some h⟩)
  have hcallee : heap' h' = some ⟨β, .running c, some h⟩ := Function.update_self _ _ _
  have hcaller : heap' h = some ⟨α, .awaiting h' k, hs.head?⟩ :=
    (Function.update_of_ne hne _ _).trans (Function.update_self _ _ _)
  have hothers : ∀ x, x ≠ h → x ≠ h' → heap' x = m.heap x := fun x hx hx' =>
    (Function.update_of_ne hx' _ _).trans (Function.update_of_ne hx _ _)
  have hsame : ∀ x, x ∉ chain t → x ∉ h' :: h :: hs → heap' x = m.heap x := fun x hx hx' =>
    hothers x (fun heq => hx (heq ▸ hmem)) fun heq => hx' (heq ▸ .head _)
  have hnew : ∀ x ∈ h' :: h :: hs, x ∉ chain t → m.heap x = none := by
    intro x hx hxt
    rcases List.mem_cons.1 hx with rfl | hx
    · exact hfresh
    · exact absurd (hl ▸ hx) hxt
  have hrestCallers : Callers heap' h hs α f := by
    refine hcallers.congr fun x hx => hothers x ?_ ?_
    · rintro rfl
      exact (List.nodup_cons.1 hnodup).1 hx
    · rintro rfl
      exact hout (.tail _ hx)
  have hchain : Chain heap' (h' :: h :: hs) ((Body.call c k).tree.andThen f) := by
    rw [Body.tree, Coro.andThen_assoc]
    exact .mk h' (h :: hs) (.running c) c.tree _ hcallee (.running c)
      (.caller h' h hs k f hcaller hrestCallers)
  have hruns : Runs heap' (Function.update chain t (h' :: h :: hs))
      (.body h' :: .awaitSuspend h :: rest) p.stack := by
    rw [hp]
    refine .body h' t _ ts ?_ (.awaitSuspend h rest ts
      (hR.runs_elsewhere hsame hnew hrest (List.nodup_cons.1 halone).1))
    rw [Function.update_self]
    exact .running h' (h :: hs) c (some h) hcallee
  have hupdate := hR.update m.world (fun _ _ => rfl) ⟨root, hroot, ?_⟩ hsame ?_ hnew hchain
    (List.nodup_cons.2 ⟨hout, hnodup⟩) hruns hR.alone (fun _ _ hu => hu)
    fun ht => absurd (hp ▸ .head _) ht
  · exact ⟨t, ts, hs, hp, hl, hupdate.of_update hframes hR.world⟩
  · rw [hl] at hlast
    rw [List.getLast?_cons_cons]
    exact hlast
  · intro x hx hx'
    rw [hl] at hx
    exact absurd (.tail _ hx) hx'

/-- The running coroutine suspends on an operation. -/
theorem park (hR : Represents m p chain) {h : Handle} {rest : List Activation} {α : Type}
    {o : O.Io.Op} {k : O.Io.Res o → Body O.Exn O.sig α} {q : Option Handle}
    (hstack : m.stack = .body h :: rest)
    (hframe : m.heap h = some ⟨α, .running (.op (.io o) k), q⟩) (hsus : O.suspends o = true) :
    ∃ t ts f, p.stack = t :: ts ∧
      p.frames t = some ((Body.op (S := O.sig) (.io o) k).tree.andThen f) ∧
      Represents { m with stack := rest } { p with stack := ts } chain := by
  obtain ⟨t, ts, hs, f, hp, hl, rfl, hcallers, hframes, hrest⟩ := hR.running hstack hframe
  have halone := hR.alone
  rw [hp] at halone
  refine ⟨t, ts, f, hp, hframes, hR.unwind hrest (List.nodup_cons.1 halone).2 fun u hu hout => ?_⟩
  rw [hp] at hu
  obtain rfl := (List.mem_cons.1 hu).resolve_right hout
  intro h' hs' hl'
  rw [hl] at hl'
  cases hl'
  exact .inl ⟨_, o, k, _, hframe, hsus⟩

/-- The operation of a suspended coroutine completes. -/
theorem resume (hR : Represents m p chain) {t : O.Task} {h : Handle} {α : Type} {o : O.Io.Op}
    {k : O.Io.Res o → Body O.Exn O.sig α} {q : Option Handle} (r : O.Io.Res o)
    (hp : p.stack = []) (hmem : h ∈ chain t)
    (hframe : m.heap h = some ⟨α, .running (.op (.io o) k), q⟩) :
    ∃ f, p.frames t = some ((Body.op (S := O.sig) (.io o) k).tree.andThen f) ∧
      Represents { m.setFrame h ⟨α, .running (k r), q⟩ with
        world := m.world.answer o r, stack := [.body h] }
        { p.setFrame t ((k r).tree.andThen f) with
          world := m.world.answer o r, stack := [t] } chain := by
  obtain ⟨root, hroot⟩ := hR.started hmem
  obtain ⟨-, c, hchain, hframes⟩ := hR.frames t root hroot
  obtain ⟨hs, f, hl, rfl, hcallers, rfl⟩ := hchain.of_running hframe hmem
  refine ⟨f, hframes, hR.advance hl hframe hcallers (.running (k r)) (m.world.answer o r) ?_
    (by simp) (fun u _ hu => ?_) fun ht => absurd (List.Mem.head _) ht⟩
  · refine .body h t [] [] ?_ .nil
    rw [hl]
    exact .running h hs (k r) hs.head? (Function.update_self _ _ _)
  · rw [hp] at hu
    cases hu

/-- A member coroutine ends. -/
theorem finish_root (hR : Represents m p chain) {h : Handle} {rest : List Activation} {α : Type}
    {r : Except O.Exn α} (hstack : m.stack = .body h :: rest)
    (hframe : m.heap h = some ⟨α, .running (.done r), none⟩) :
    ∃ t ts r', p.stack = t :: ts ∧ p.frames t = some (.done r') ∧
      Represents { m.setFrame h ⟨α, .final r, none⟩ with stack := rest } { p with stack := ts } chain := by
  obtain ⟨t, ts, hs, f, hp, hl, hq, hcallers, hframes, hrest⟩ := hR.running hstack hframe
  obtain rfl : hs = [] := List.head?_eq_none_iff.1 hq.symm
  have halone := hR.alone
  rw [hp] at halone
  obtain ⟨r', hr'⟩ := hcallers.of_nil r
  refine ⟨t, ts, r', hp, hframes.trans (congrArg some hr'), ?_⟩
  have hadvance := hR.advance hl hframe hcallers (.final r) m.world
    (hR.runs_frame hl hrest (List.nodup_cons.1 halone).1) (List.nodup_cons.1 halone).2 ?_ ?_
  · exact hadvance.of_update hframes hR.world
  · intro u hu hmem
    rw [hp] at hmem
    exact (List.mem_cons.1 hmem).resolve_left hu
  · rintro _ h' hs' hl'
    cases hl'
    exact .inr ⟨rfl, α, r, none, Function.update_self _ _ _⟩

/-- A coroutine that is awaited ends. -/
theorem finish_callee (hR : Represents m p chain) {h c : Handle} {rest : List Activation} {α : Type}
    {r : Except O.Exn α} (hstack : m.stack = .body h :: rest)
    (hframe : m.heap h = some ⟨α, .running (.done r), some c⟩) :
    Represents
      { m.setFrame h ⟨α, .final r, some c⟩ with stack := .body c :: .finalSuspend h :: rest } p
      chain := by
  obtain ⟨t, ts, hs, f, hp, hl, hq, hcallers, hframes, hrest⟩ := hR.running hstack hframe
  obtain ⟨hs, rfl⟩ := List.head?_eq_some_iff.1 hq.symm
  have halone := hR.alone
  rw [hp] at halone
  have hruns : Runs (Function.update m.heap h (some ⟨α, .final r, some c⟩)) chain
      (.body c :: .finalSuspend h :: rest) p.stack := by
    rw [hp]
    refine .body c t _ ts ?_ (.finalSuspend h rest ts
      (hR.runs_frame hl hrest (List.nodup_cons.1 halone).1))
    rw [hl]
    exact .resuming h c hs r _ (Function.update_self _ _ _)
  have hadvance := hR.advance hl hframe hcallers (.final r) m.world hruns hR.alone (fun _ _ hu => hu)
    fun ht => absurd (hp ▸ .head _) ht
  exact hadvance.of_update hframes hR.world

/-- The innermost frame of `t` is destroyed, and its caller goes on. -/
theorem resumed (hR : Represents m p chain) {h h' root : Handle} {rest : List Activation}
    {α : Type} {b : Body O.Exn O.sig α} {hs : List Handle} {f : Except O.Exn α → O.Prog Unit}
    {t : O.Task} {ts : List O.Task} (hp : p.stack = t :: ts) (hstack : m.stack = .body h :: rest)
    (hl : chain t = h' :: h :: hs) (hroot : m.root t = some root)
    (hrest : Runs m.heap chain rest ts) (hcallers : Callers m.heap h hs α f)
    (hframes : p.frames t = some (b.tree.andThen f)) :
    Represents ((m.setFrame h ⟨α, .running b, hs.head?⟩).destroy h') p
      (Function.update chain t (h :: hs)) := by
  have halone := hR.alone
  rw [hp] at halone
  have hlast := (hR.frames t root hroot).1
  have hnodup := hR.nodup t
  rw [hl, List.getLast?_cons_cons] at hlast
  rw [hl] at hnodup
  obtain ⟨hout, hnodup⟩ := List.nodup_cons.1 hnodup
  have hne : h ≠ h' := (List.ne_of_not_mem_cons hout).symm
  let heap' : Handle → Option (Frame O) :=
    Function.update (Function.update m.heap h (some ⟨α, .running b, hs.head?⟩)) h' none
  have hframe : heap' h = some ⟨α, .running b, hs.head?⟩ :=
    (Function.update_of_ne hne _ _).trans (Function.update_self _ _ _)
  have hothers : ∀ x, x ≠ h → x ≠ h' → heap' x = m.heap x := fun x hx hx' =>
    (Function.update_of_ne hx' _ _).trans (Function.update_of_ne hx _ _)
  have hsame : ∀ x, x ∉ chain t → x ∉ h :: hs → heap' x = m.heap x := by
    intro x hx hx'
    rw [hl] at hx
    exact hothers x (List.ne_of_not_mem_cons hx') (List.ne_of_not_mem_cons hx)
  have hnew : ∀ x ∈ h :: hs, x ∉ chain t → m.heap x = none := by
    intro x hx hxt
    rw [hl] at hxt
    exact absurd (.tail _ hx) hxt
  have hrestCallers : Callers heap' h hs α f := by
    refine hcallers.congr fun x hx => hothers x ?_ ?_
    · rintro rfl
      exact (List.nodup_cons.1 hnodup).1 hx
    · rintro rfl
      exact hout (.tail _ hx)
  have hchain : Chain heap' (h :: hs) (b.tree.andThen f) :=
    .mk h hs (.running b) b.tree f hframe (.running b) hrestCallers
  have hruns : Runs heap' (Function.update chain t (h :: hs)) m.stack p.stack := by
    rw [hp, hstack]
    refine .body h t rest ts ?_ (hR.runs_elsewhere hsame hnew hrest (List.nodup_cons.1 halone).1)
    rw [Function.update_self]
    exact .running h hs b hs.head? hframe
  have hupdate := hR.update m.world (fun _ _ => rfl) ⟨root, hroot, hlast⟩ hsame ?_ hnew hchain hnodup
    hruns hR.alone (fun _ _ hu => hu) fun ht => absurd (hp ▸ .head _) ht
  · exact hupdate.of_update hframes hR.world
  · intro x hx hx'
    rw [hl] at hx
    rcases List.mem_cons.1 hx with rfl | hx
    · exact Function.update_self _ _ _
    · exact absurd hx hx'

/-- The caller takes what its callee ended with. -/
theorem awaitResume (hR : Represents m p chain) {h h' : Handle} {rest : List Activation}
    {α β : Type} {k : Except O.Exn β → Body O.Exn O.sig α} {r : Except O.Exn β}
    {q q' : Option Handle} (hstack : m.stack = .body h :: rest)
    (hframe : m.heap h = some ⟨α, .awaiting h' k, q⟩)
    (hcallee : m.heap h' = some ⟨β, .final r, q'⟩) :
    ∃ t ts hs, p.stack = t :: ts ∧ chain t = h' :: h :: hs ∧
      Represents ((m.setFrame h ⟨α, .running (k r), q⟩).destroy h') p
        (Function.update chain t (h :: hs)) := by
  have hruns := hR.runs
  rw [hstack] at hruns
  generalize hp : p.stack = stack at hruns
  cases hruns with
  | body _ t _ ts htip hrest =>
      obtain ⟨root, hroot⟩ := hR.started htip.mem
      obtain ⟨hlast, c, hchain, hframes⟩ := hR.frames t root hroot
      have hnodup := hR.nodup t
      generalize hl : chain t = l at htip hchain hlast hnodup
      cases htip with
      | running _ hs c' q'' hrunning =>
          rw [hframe] at hrunning
          cases hrunning
      | resuming h₀ _ hs r₀ q₀ hfinal =>
          cases hchain with
          | mk _ _ pt c' g hcalled hpt hcallers =>
              cases hcallers with
              | caller _ _ _ k' f hcaller hrestCallers =>
                  rw [hframe] at hcaller
                  cases hcaller
                  rw [hcallee] at hcalled
                  cases hcalled
                  cases hpt
                  exact ⟨t, ts, hs, rfl, hl, hR.resumed hp hstack hl hroot hrest hrestCallers hframes⟩

end Represents

/-- **Forward.** -/
theorem Represents.step (body : O.Task → Body O.Exn O.sig Unit) [DecidableEq O.Task] {m m' : Machine O}
    {p : Pool O} {chain : O.Task → List Handle} (hR : Represents m p chain) (hstep : Step body m m') :
    ∃ p' chain', ReflTransGen (Coroutine.Step fun t => (body t).tree) p p' ∧
      Represents m' p' chain' := by
  cases hstep with
  | internal h rest c c' q w hstack hframe hstep =>
      obtain ⟨t, ts, f, hp, hframes, hgo⟩ := hR.goOn hstack hframe c' w
      rw [← hR.world] at hstep
      exact ⟨_, chain, .single (.internal p t ts _ _ w hp hframes (internal_tree hstep f)), hgo⟩
  | answer h rest o k q r hstack hframe =>
      obtain ⟨t, ts, f, hp, hframes, hgo⟩ := hR.goOn hstack hframe (k r) (m.world.answer o r)
      have hanswer := @Coroutine.Step.answer O _ (fun t => (body t).tree) p t ts o _ r hp hframes
      rw [hR.world] at hanswer
      exact ⟨_, chain, .single hanswer, hgo⟩
  | park h rest o k q hstack hframe hsus =>
      obtain ⟨t, ts, f, hp, hframes, hR'⟩ := hR.park hstack hframe hsus
      exact ⟨_, chain, .single (.park p t ts o _ hp hframes hsus), hR'⟩
  | resume h o k q r hstack hframe hsus =>
      have hp : p.stack = [] := hR.stack_nil hstack
      obtain ⟨t, hmem⟩ := hR.owned h (by rw [hframe]; exact Option.some_ne_none _)
      obtain ⟨f, hframes, hR'⟩ := hR.resume r hp hmem hframe
      have hresume := @Coroutine.Step.resume O _ (fun t => (body t).tree) p t o _ r hp hframes hsus
      rw [hR.world] at hresume
      exact ⟨_, chain, .single hresume, hR'⟩
  | start h h' rest u k q hstack hframe hroot hfresh =>
      obtain ⟨t, ts, f, hp, hframes, hu, hR'⟩ := hR.start body hstack hframe hroot hfresh
      have hspawn := @Coroutine.Step.spawn O _ (fun t => (body t).tree) p t u ts _ hp hframes hu
      rw [hR.world] at hspawn
      exact ⟨_, _, .single hspawn, hR'⟩
  | await h h' rest c k q hstack hframe hfresh =>
      obtain ⟨t, ts, hs, -, -, hR'⟩ := hR.await hstack hframe hfresh
      exact ⟨p, _, .refl, hR'⟩
  | finish h rest r q hstack hframe =>
      cases q with
      | none =>
          obtain ⟨t, ts, r', hp, hframes, hR'⟩ := hR.finish_root hstack hframe
          exact ⟨_, chain, .single (.finish p t ts r' hp hframes), hR'⟩
      | some c => exact ⟨p, chain, .refl, hR.finish_callee hstack hframe⟩
  | awaitResume h h' rest k r q q' hstack hframe hcallee =>
      obtain ⟨t, ts, hs, -, -, hR'⟩ := hR.awaitResume hstack hframe hcallee
      exact ⟨p, _, .refl, hR'⟩
  | awaitSuspend h rest hstack =>
      have hruns := hR.runs
      rw [hstack] at hruns
      cases hruns with
      | awaitSuspend _ _ _ hrest =>
          exact ⟨p, chain, .refl, hR.unwind hrest hR.alone fun u hu hout => absurd hu hout⟩
  | finalSuspend h rest hstack =>
      have hruns := hR.runs
      rw [hstack] at hruns
      cases hruns with
      | finalSuspend _ _ _ hrest =>
          exact ⟨p, chain, .refl, hR.unwind hrest hR.alone fun u hu hout => absurd hu hout⟩

end Tasks

end Cppvless
