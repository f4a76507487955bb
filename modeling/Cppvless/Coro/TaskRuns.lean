import Cppvless.Coro.TaskTree

set_option autoImplicit false

/-! # The runs of tasks and of their trees

The converse of `Represents.step`: between two steps of a tree its frames come to the next one by calls
and returns alone (`Represents.settled`), so that whatever the pool can do the machine can. The number
of these steps is bounded by the bodies of the frames, over which the induction goes
(`Represents.descend`), and by the callers (`Represents.ascend`). -/

namespace Cppvless

open Coroutine Relation

namespace Tasks

variable {O : Object}

/-! ## The steps that the pool does not see -/

/-- A body whose next step is one of its tree. -/
inductive Body.Ready {ε : Type} {S : Sig} : {α : Type} → Body ε S α → Prop
  | op {α : Type} (o : S.Op) (k : S.Res o → Body ε S α) : Body.Ready (.op o k)
  | iter {α β γ : Type} (body : β → Body ε S (β ⊕ γ)) (b : β) (k : Except ε γ → Body ε S α) :
      Body.Ready (.iter body b k)

/-- `resume` has been called in frame `h`, the innermost of `t`, which has the callers `hs` and is at `b`. -/
structure At (m : Machine O) (chain : O.Task → List Handle) (t : O.Task) (h : Handle)
    (hs : List Handle) {α : Type} (b : Body O.Exn O.sig α) : Prop where
  stack : ∃ rest, m.stack = .body h :: rest
  chain : chain t = h :: hs
  frame : m.heap h = some ⟨α, .running b, hs.head?⟩

section Silent

variable [DecidableEq O.Task] (body : O.Task → Body O.Exn O.sig Unit) {m : Machine O} {p : Pool O}
  {chain : O.Task → List Handle} {t : O.Task} {h : Handle} {hs : List Handle}

omit [DecidableEq O.Task] in
theorem Represents.exists_fresh (hR : Represents m p chain) : ∃ h, m.heap h = none := by
  obtain ⟨n, hn⟩ := hR.room
  exact ⟨n, hn n (Nat.le_refl n)⟩

/-- A caller goes on once it has been resumed. -/
theorem Represents.resumes (hR : Represents m p chain) {c : Handle} {rest : List Activation} {α : Type}
    {r : Except O.Exn α} {q : Option Handle} (hstack : m.stack = .body c :: rest)
    (hl : chain t = h :: c :: hs) (hfinal : m.heap h = some ⟨α, .final r, q⟩) :
    ∃ (β : Type) (k : Except O.Exn α → Body O.Exn O.sig β),
      m.heap c = some ⟨β, .awaiting h k, hs.head?⟩ ∧ ∃ m', Step body m m' ∧
        Represents m' p (Function.update chain t (c :: hs)) ∧
        At m' (Function.update chain t (c :: hs)) t c hs (k r) ∧ ∀ x ∈ hs, m'.heap x = m.heap x := by
  have hmem : h ∈ chain t := hl ▸ .head _
  have hnodup := hR.nodup t
  rw [hl] at hnodup
  obtain ⟨hout, hnodup⟩ := List.nodup_cons.1 hnodup
  obtain ⟨root, hroot⟩ := hR.started hmem
  obtain ⟨-, c₀, hchain, -⟩ := hR.frames t root hroot
  rw [hl] at hchain
  cases hchain with
  | mk _ _ pt c' g hframe hpt hcallers =>
      rw [hfinal] at hframe
      cases hframe
      cases hcallers with
      | caller _ _ _ k g hcaller hrest =>
          obtain ⟨t', ts, hs', -, hl', hresume⟩ := hR.awaitResume hstack hcaller hfinal
          obtain rfl : t' = t := hR.apart t' t h (hl' ▸ .head _) hmem
          rw [hl] at hl'
          cases hl'
          refine ⟨_, k, hcaller, _, .awaitResume m c h rest k r _ _ hstack hcaller hfinal, hresume,
            ⟨⟨rest, hstack⟩, Function.update_self _ _ _, ?_⟩, fun x hx => ?_⟩
          · have hne : c ≠ h := (List.ne_of_not_mem_cons hout).symm
            exact (Function.update_of_ne hne _ _).trans (Function.update_self _ _ _)
          · have hxh : x ≠ h := by
              rintro rfl
              exact hout (.tail _ hx)
            have hxc : x ≠ c := by
              rintro rfl
              exact (List.nodup_cons.1 hnodup).1 hx
            exact (Function.update_of_ne hxh _ _).trans (Function.update_of_ne hxc _ _)

/-- A callee that has ended returns to its caller. -/
theorem Represents.returned (hR : Represents m p chain) {c : Handle} {α : Type} {r : Except O.Exn α}
    (hat : At m chain t h (c :: hs) (.done r : Body O.Exn O.sig α)) :
    ∃ (β : Type) (k : Except O.Exn α → Body O.Exn O.sig β),
      m.heap c = some ⟨β, .awaiting h k, hs.head?⟩ ∧ ∃ m', ReflTransGen (Step body) m m' ∧
        Represents m' p (Function.update chain t (c :: hs)) ∧
        At m' (Function.update chain t (c :: hs)) t c hs (k r) ∧ ∀ x ∈ hs, m'.heap x = m.heap x := by
  obtain ⟨⟨rest, hstack⟩, hl, hframe⟩ := hat
  have hnodup := hR.nodup t
  rw [hl] at hnodup
  have hothers : ∀ x ∈ c :: hs,
      (m.setFrame h ⟨α, .final r, some c⟩).heap x = m.heap x := by
    intro x hx
    refine Function.update_of_ne ?_ _ _
    rintro rfl
    exact (List.nodup_cons.1 hnodup).1 hx
  obtain ⟨β, k, hcaller, m', hstep, hR', hat', hsame⟩ :=
    (hR.finish_callee hstack hframe).resumes body rfl hl (Function.update_self _ _ _)
  refine ⟨β, k, (hothers c (.head _)).symm.trans hcaller, m',
    .tail (.single (.finish m h rest r (some c) hstack hframe)) hstep, hR', hat', fun x hx => ?_⟩
  exact (hsame x hx).trans (hothers x (.tail _ hx))

/-- A call resumes its callee. -/
theorem Represents.called (hR : Represents m p chain) {α β : Type} {c : Body O.Exn O.sig β}
    {k : Except O.Exn β → Body O.Exn O.sig α} (hat : At m chain t h hs (.call c k)) :
    ∃ h' m', ReflTransGen (Step body) m m' ∧
      Represents m' p (Function.update chain t (h' :: h :: hs)) ∧
      At m' (Function.update chain t (h' :: h :: hs)) t h' (h :: hs) c ∧
      m'.heap h = some ⟨α, .awaiting h' k, hs.head?⟩ ∧ ∀ x ∈ hs, m'.heap x = m.heap x := by
  obtain ⟨⟨rest, hstack⟩, hl, hframe⟩ := hat
  obtain ⟨h', hfresh⟩ := hR.exists_fresh
  have hmem : h ∈ chain t := hl ▸ .head _
  have hnodup := hR.nodup t
  rw [hl] at hnodup
  obtain ⟨t', ts, hs', -, hl', hawait⟩ := hR.await hstack hframe hfresh
  obtain rfl : t' = t := hR.apart t' t h (hl' ▸ .head _) hmem
  rw [hl] at hl'
  cases hl'
  have halive : ∀ x ∈ h :: hs, x ≠ h' := by
    rintro x hx rfl
    exact hR.alive (hl ▸ hx : x ∈ chain t') hfresh
  refine ⟨h', _, .single (.await m h h' rest c k hs.head? hstack hframe hfresh), hawait,
    ⟨⟨_, rfl⟩, Function.update_self _ _ _, Function.update_self _ _ _⟩, ?_, fun x hx => ?_⟩
  · exact (Function.update_of_ne (halive h (.head _)) _ _).trans (Function.update_self _ _ _)
  · have hxh : x ≠ h := by
      rintro rfl
      exact (List.nodup_cons.1 hnodup).1 hx
    exact (Function.update_of_ne (halive x (.tail _ hx)) _ _).trans (Function.update_of_ne hxh _ _)

/-- What a frame does up to the next step of its tree, or up to its end. -/
theorem Represents.descend {α : Type} (b : Body O.Exn O.sig α) :
    ∀ {m : Machine O} {chain : O.Task → List Handle} {h : Handle} {hs : List Handle},
      Represents m p chain → At m chain t h hs b →
      ∃ m' chain', ReflTransGen (Step body) m m' ∧ Represents m' p chain' ∧
        ((∃ (h' : Handle) (hs' : List Handle) (β : Type) (b' : Body O.Exn O.sig β),
            At m' chain' t h' hs' b' ∧ b'.Ready) ∨
          (∃ r : Except O.Exn α, At m' chain' t h hs (.done r : Body O.Exn O.sig α)) ∧
            ∀ x ∈ hs, m'.heap x = m.heap x) := by
  induction b with
  | done r =>
      intro m chain h hs hR hat
      exact ⟨m, chain, .refl, hR, .inr ⟨⟨r, hat⟩, fun _ _ => rfl⟩⟩
  | op o k _ =>
      intro m chain h hs hR hat
      exact ⟨m, chain, .refl, hR, .inl ⟨h, hs, _, _, hat, .op o k⟩⟩
  | iter body' b k _ _ =>
      intro m chain h hs hR hat
      exact ⟨m, chain, .refl, hR, .inl ⟨h, hs, _, _, hat, .iter body' b k⟩⟩
  | call c k ihc ihk =>
      intro m chain h hs hR hat
      obtain ⟨h', m₁, hrun₁, hR₁, hat₁, hcaller, hsame₁⟩ := hR.called body hat
      obtain ⟨m₂, chain₂, hrun₂, hR₂, hready | ⟨⟨r, hat₂⟩, hsame₂⟩⟩ := ihc hR₁ hat₁
      · exact ⟨m₂, chain₂, hrun₁.trans hrun₂, hR₂, .inl hready⟩
      · obtain ⟨β, k', hcaller', m₃, hrun₃, hR₃, hat₃, hsame₃⟩ := hR₂.returned body hat₂
        rw [hsame₂ h (.head _), hcaller] at hcaller'
        cases hcaller'
        obtain ⟨m₄, chain₄, hrun₄, hR₄, hend⟩ := ihk r hR₃ hat₃
        refine ⟨m₄, chain₄, ((hrun₁.trans hrun₂).trans hrun₃).trans hrun₄, hR₄, ?_⟩
        refine hend.imp_right fun hend => ⟨hend.1, fun x hx => ?_⟩
        rw [hend.2 x hx, hsame₃ x hx, hsame₂ x (.tail _ hx), hsame₁ x hx]

/-- What a coroutine does up to the next step of its tree, or up to its end. -/
theorem Represents.ascend (hs : List Handle) :
    ∀ {m : Machine O} {chain : O.Task → List Handle} {h : Handle} {α : Type}
      {b : Body O.Exn O.sig α}, Represents m p chain → At m chain t h hs b →
      ∃ m' chain', ReflTransGen (Step body) m m' ∧ Represents m' p chain' ∧
        ∃ (h' : Handle) (hs' : List Handle) (β : Type) (b' : Body O.Exn O.sig β),
          At m' chain' t h' hs' b' ∧ (b'.Ready ∨ hs' = [] ∧ ∃ r, b' = .done r) := by
  induction hs with
  | nil =>
      intro m chain h α b hR hat
      obtain ⟨m', chain', hrun, hR', hend⟩ := hR.descend body b hat
      refine ⟨m', chain', hrun, hR', ?_⟩
      rcases hend with ⟨h', hs', β, b', hat', hready⟩ | ⟨⟨r, hat'⟩, -⟩
      · exact ⟨h', hs', β, b', hat', .inl hready⟩
      · exact ⟨h, [], α, _, hat', .inr ⟨rfl, r, rfl⟩⟩
  | cons c hs ih =>
      intro m chain h α b hR hat
      obtain ⟨m', chain', hrun, hR', hend⟩ := hR.descend body b hat
      rcases hend with ⟨h', hs', β, b', hat', hready⟩ | ⟨⟨r, hat'⟩, -⟩
      · exact ⟨m', chain', hrun, hR', h', hs', β, b', hat', .inl hready⟩
      · obtain ⟨β, k, -, m₂, hrun₂, hR₂, hat₂, -⟩ := hR'.returned body hat'
        obtain ⟨m₃, chain₃, hrun₃, hR₃, hend⟩ := ih hR₂ hat₂
        exact ⟨m₃, chain₃, (hrun.trans hrun₂).trans hrun₃, hR₃, hend⟩

/-- Every call of `resume` that only has to return has returned. -/
theorem Represents.unwound (acts : List Activation) :
    ∀ {m : Machine O}, m.stack = acts → Represents m p chain →
      ∃ m', ReflTransGen (Step body) m m' ∧ Represents m' p chain ∧
        (m'.stack = [] ∨ ∃ h rest, m'.stack = .body h :: rest) := by
  induction acts with
  | nil =>
      intro m hstack hR
      exact ⟨m, .refl, hR, .inl hstack⟩
  | cons act rest ih =>
      intro m hstack hR
      have hruns := hR.runs
      rw [hstack] at hruns
      cases act with
      | body h => exact ⟨m, .refl, hR, .inr ⟨h, rest, hstack⟩⟩
      | awaitSuspend h =>
          cases hruns with
          | awaitSuspend _ _ _ hrest =>
              have hR' := hR.unwind hrest hR.alone fun u hu hout => absurd hu hout
              obtain ⟨m', hrun, hend⟩ := ih (by rfl) hR'
              exact ⟨m', .head (.awaitSuspend m h rest hstack) hrun, hend⟩
      | finalSuspend h =>
          cases hruns with
          | finalSuspend _ _ _ hrest =>
              have hR' := hR.unwind hrest hR.alone fun u hu hout => absurd hu hout
              obtain ⟨m', hrun, hend⟩ := ih (by rfl) hR'
              exact ⟨m', .head (.finalSuspend m h rest hstack) hrun, hend⟩

/-- Control comes back to the event loop. -/
theorem Represents.idle (hR : Represents m p chain) (hp : p.stack = []) :
    ∃ m', ReflTransGen (Step body) m m' ∧ Represents m' p chain ∧ m'.stack = [] := by
  obtain ⟨m', hrun, hR', hnil | ⟨h, rest, hstack⟩⟩ := hR.unwound body m.stack rfl
  · exact ⟨m', hrun, hR', hnil⟩
  · have hruns := hR'.runs
    rw [hstack, hp] at hruns
    cases hruns

/-- The coroutine that is running comes to the next step of its tree, or to its end. -/
theorem Represents.settled (hR : Represents m p chain) {ts : List O.Task} (hp : p.stack = t :: ts) :
    ∃ m' chain', ReflTransGen (Step body) m m' ∧ Represents m' p chain' ∧
      ∃ (h' : Handle) (hs' : List Handle) (β : Type) (b' : Body O.Exn O.sig β),
        At m' chain' t h' hs' b' ∧ (b'.Ready ∨ hs' = [] ∧ ∃ r, b' = .done r) := by
  obtain ⟨m₁, hrun₁, hR₁, hnil | ⟨h, rest, hstack⟩⟩ := hR.unwound body m.stack rfl
  · rw [hR₁.stack_nil hnil] at hp
    cases hp
  · have hruns := hR₁.runs
    rw [hstack, hp] at hruns
    cases hruns with
    | body _ _ _ _ htip hrest =>
        generalize hl : chain t = l at htip
        cases htip with
        | running _ hs b q hframe =>
            obtain ⟨root, hroot⟩ := hR₁.started (hl ▸ .head _ : h ∈ chain t)
            obtain ⟨-, c₀, hchain, -⟩ := hR₁.frames t root hroot
            obtain ⟨hs₀, f, hl₀, rfl, -, -⟩ := hchain.of_running hframe (hl ▸ .head _)
            obtain ⟨m', chain', hrun, hR', hend⟩ :=
              hR₁.ascend body hs₀ ⟨⟨rest, hstack⟩, hl₀, hframe⟩
            exact ⟨m', chain', hrun₁.trans hrun, hR', hend⟩
        | resuming h₀ _ hs r q hframe =>
            obtain ⟨β, k, -, m₂, hstep, hR₂, hat, -⟩ := hR₁.resumes body hstack hl hframe
            obtain ⟨m', chain', hrun, hR', hend⟩ := hR₂.ascend body hs hat
            exact ⟨m', chain', (hrun₁.tail hstep).trans hrun, hR', hend⟩

omit [DecidableEq O.Task] in
/-- What can stand at the next step of a tree. -/
theorem Body.Ready.cases {α : Type} {b : Body O.Exn O.sig α} (hb : b.Ready) (w : World O) :
    (∃ b' w', internal b w = some (b', w')) ∨
      (∃ (o : O.Io.Op) (k : O.Io.Res o → Body O.Exn O.sig α), b = .op (S := O.sig) (.io o) k) ∨
      ∃ (u : O.Task) (k : Unit → Body O.Exn O.sig α), b = .op (S := O.sig) (.spawn u) k := by
  cases hb with
  | iter body b k => exact .inl ⟨_, _, rfl⟩
  | op o k =>
      cases o with
      | get => exact .inl ⟨_, _, rfl⟩
      | member f => exact .inl ⟨_, _, rfl⟩
      | io o => exact .inr (.inl ⟨o, k, rfl⟩)
      | spawn u => exact .inr (.inr ⟨u, k, rfl⟩)

omit [DecidableEq O.Task] in
/-- Where the running coroutine is, in its tree. -/
theorem Represents.running_at (hR : Represents m p chain) {ts : List O.Task} (hp : p.stack = t :: ts)
    {α : Type} {b : Body O.Exn O.sig α} (hat : At m chain t h hs b) {c : O.Prog Unit}
    (hc : p.frames t = some c) :
    ∃ f, Callers m.heap h hs α f ∧ c = b.tree.andThen f := by
  obtain ⟨⟨rest, hstack⟩, hl, hframe⟩ := hat
  obtain ⟨t', ts', hs', f, hp', hl', hq, hcallers, hframes, -⟩ := hR.running hstack hframe
  rw [hp] at hp'
  cases hp'
  rw [hl] at hl'
  cases hl'
  rw [hc] at hframes
  exact ⟨f, hcallers, Option.some.inj hframes⟩

omit [DecidableEq O.Task] in
theorem Represents.at_op (hR : Represents m p chain) {ts : List O.Task} (hp : p.stack = t :: ts)
    {α : Type} {b : Body O.Exn O.sig α} (hat : At m chain t h hs b)
    (hb : b.Ready ∨ hs = [] ∧ ∃ r, b = .done r) {o : O.sig.Op} {k : O.sig.Res o → O.Prog Unit}
    (hframe : p.frames t = some (.op o k)) : ∃ k', b = .op o k' := by
  obtain ⟨f, hcallers, hc⟩ := hR.running_at hp hat hframe
  rcases hb with hready | ⟨rfl, r, rfl⟩
  · cases hready with
    | iter body b k => cases hc
    | op o' k' =>
        cases hc
        exact ⟨k', rfl⟩
  · obtain ⟨r', hr'⟩ := hcallers.of_nil r
    rw [Body.tree, Coro.done_andThen, hr'] at hc
    cases hc

omit [DecidableEq O.Task] in
/-- A coroutine that awaits an operation while the event loop has control is suspended on it. -/
theorem Represents.suspended (hR : Represents m p chain) (hp : p.stack = []) {o : O.Io.Op}
    {k : O.Io.Res o → O.Prog Unit} (hframe : p.frames t = some (.op (S := O.sig) (.io o) k)) :
    ∃ (h : Handle) (β : Type) (k' : O.Io.Res o → Body O.Exn O.sig β) (q : Option Handle),
      h ∈ chain t ∧ m.heap h = some ⟨β, .running (.op (S := O.sig) (.io o) k'), q⟩ := by
  cases hroot : m.root t with
  | none =>
      rw [(hR.fresh t hroot).1] at hframe
      cases hframe
  | some root =>
      obtain ⟨-, c, hchain, hc⟩ := hR.frames t root hroot
      rw [hframe] at hc
      cases hc
      have hpark := hR.parked t (by rw [hp]; exact List.not_mem_nil)
      generalize hl : chain t = l at hchain hpark
      generalize hk : Coro.op (S := O.sig) (.io o) k = c at hchain
      cases hchain with
      | mk h hs pt c f hfr hpt hcallers =>
          rcases hpark h hs rfl with ⟨_, o', k', q, hfr', -⟩ | ⟨rfl, _, r, q, hfr'⟩
          · rw [hfr] at hfr'
            cases hfr'
            cases hpt
            cases hk
            exact ⟨h, _, k', _, .head _, hfr⟩
          · rw [hfr] at hfr'
            cases hfr'
            cases hpt
            obtain ⟨r', hr'⟩ := hcallers.of_nil r
            rw [Coro.done_andThen, hr'] at hk
            cases hk

/-- **Backward.** -/
theorem Represents.step_back {p' : Pool O} (hR : Represents m p chain)
    (hstep : Coroutine.Step (fun t => (body t).tree) p p') :
    ∃ m' chain', ReflTransGen (Step body) m m' ∧ Represents m' p' chain' := by
  cases hstep with
  | internal t rest c c' w' hstack hframe hint =>
      obtain ⟨m₁, chain₁, hrun, hR₁, h, hs, β, b, hat, hb⟩ := hR.settled body hstack
      obtain ⟨f, hcallers, hc⟩ := hR₁.running_at hstack hat hframe
      rw [hR₁.world] at hint
      rcases hb with hready | ⟨rfl, r, rfl⟩
      · rcases hready.cases m₁.world with ⟨b', w, hb'⟩ | ⟨o, k, rfl⟩ | ⟨u, k, rfl⟩
        · obtain ⟨⟨acts, hacts⟩, hl, hfr⟩ := hat
          obtain ⟨t₁, ts₁, f₁, hp₁, hframes₁, hgo⟩ := hR₁.goOn hacts hfr b' w
          rw [hstack] at hp₁
          cases hp₁
          rw [hframe] at hframes₁
          cases hframes₁
          rw [internal_tree hb' f₁] at hint
          cases hint
          exact ⟨_, chain₁, hrun.tail (.internal m₁ h acts b b' _ _ hacts hfr hb'), hgo⟩
        · rw [hc] at hint
          cases hint
        · rw [hc] at hint
          cases hint
      · obtain ⟨r', hr'⟩ := hcallers.of_nil r
        rw [hc, Body.tree, Coro.done_andThen, hr'] at hint
        cases hint
  | answer t rest o k r hstack hframe =>
      obtain ⟨m₁, chain₁, hrun, hR₁, h, hs, β, b, hat, hb⟩ := hR.settled body hstack
      obtain ⟨k', rfl⟩ := hR₁.at_op hstack hat hb hframe
      obtain ⟨⟨acts, hacts⟩, hl, hfr⟩ := hat
      obtain ⟨t₁, ts₁, f₁, hp₁, hframes₁, hgo⟩ :=
        hR₁.goOn hacts hfr (k' r) (m₁.world.answer o r)
      rw [hstack] at hp₁
      cases hp₁
      rw [hframe] at hframes₁
      cases hframes₁
      rw [hR₁.world]
      exact ⟨_, chain₁, hrun.tail (.answer m₁ h acts o k' _ r hacts hfr), hgo⟩
  | park t rest o k hstack hframe hsus =>
      obtain ⟨m₁, chain₁, hrun, hR₁, h, hs, β, b, hat, hb⟩ := hR.settled body hstack
      obtain ⟨k', rfl⟩ := hR₁.at_op hstack hat hb hframe
      obtain ⟨⟨acts, hacts⟩, hl, hfr⟩ := hat
      obtain ⟨t₁, ts₁, f₁, hp₁, -, hpark⟩ := hR₁.park hacts hfr hsus
      rw [hstack] at hp₁
      cases hp₁
      exact ⟨_, chain₁, hrun.tail (.park m₁ h acts o k' _ hacts hfr hsus), hpark⟩
  | resume t o k r hstack hframe hsus =>
      obtain ⟨m₁, hrun, hR₁, hnil⟩ := hR.idle body hstack
      obtain ⟨h, β, k', q, hmem, hfr⟩ := hR₁.suspended hstack hframe
      obtain ⟨f, hframes, hresume⟩ := hR₁.resume r hstack hmem hfr
      rw [hframe] at hframes
      cases hframes
      rw [hR₁.world]
      exact ⟨_, chain, hrun.tail (.resume m₁ h o k' q r hnil hfr hsus), hresume⟩
  | spawn t u rest k hstack hframe hfresh =>
      obtain ⟨m₁, chain₁, hrun, hR₁, h, hs, β, b, hat, hb⟩ := hR.settled body hstack
      obtain ⟨k', rfl⟩ := hR₁.at_op hstack hat hb hframe
      obtain ⟨⟨acts, hacts⟩, hl, hfr⟩ := hat
      obtain ⟨h', hnone⟩ := hR₁.exists_fresh
      have hroot : m₁.root u = none := by
        refine Option.eq_none_iff_forall_ne_some.2 fun root hroot => ?_
        obtain ⟨-, c, -, hc⟩ := hR₁.frames u root hroot
        rw [hfresh] at hc
        cases hc
      obtain ⟨t₁, ts₁, f₁, hp₁, hframes₁, -, hstart⟩ := hR₁.start body hacts hfr hroot hnone
      rw [hstack] at hp₁
      cases hp₁
      rw [hframe] at hframes₁
      cases hframes₁
      rw [hR₁.world]
      exact ⟨_, _, hrun.tail (.start m₁ h h' acts u k' _ hacts hfr hroot hnone), hstart⟩
  | finish t rest r hstack hframe =>
      obtain ⟨m₁, chain₁, hrun, hR₁, h, hs, β, b, hat, hb⟩ := hR.settled body hstack
      obtain ⟨f, hcallers, hc⟩ := hR₁.running_at hstack hat hframe
      rcases hb with hready | ⟨rfl, r', rfl⟩
      · cases hready with
        | iter body b k => cases hc
        | op o k => cases hc
      · obtain ⟨⟨acts, hacts⟩, hl, hfr⟩ := hat
        obtain ⟨t₁, ts₁, r₁, hp₁, -, hfinish⟩ := hR₁.finish_root hacts hfr
        rw [hstack] at hp₁
        cases hp₁
        exact ⟨_, chain₁, hrun.tail (.finish m₁ h acts r' none hacts hfr), hfinish⟩

end Silent

/-! ## Runs -/

section Runs

variable [DecidableEq O.Task] {body : O.Task → Body O.Exn O.sig Unit} {main : O.Task} {mem : O.Mem}
  {m : Machine O} {p : Pool O}

theorem represents_start (body : O.Task → Body O.Exn O.sig Unit) (main : O.Task) (mem : O.Mem) :
    Represents (Machine.start body main mem) (Pool.start (fun t => (body t).tree) main mem)
      (Function.update (fun _ => []) main [0]) := by
  have hempty : Represents (O := O) ⟨⟨mem, []⟩, fun _ => none, fun _ => none, []⟩
      ⟨⟨mem, []⟩, fun _ => none, []⟩ fun _ => [] :=
    { world := rfl
      fresh := fun _ _ => ⟨rfl, rfl⟩
      frames := fun _ _ h => absurd h (by simp)
      runs := .nil
      alone := List.nodup_nil
      owned := fun _ h => absurd rfl h
      apart := fun _ _ _ h => absurd h List.not_mem_nil
      nodup := fun _ => List.nodup_nil
      parked := fun _ _ _ _ h => absurd h (by simp)
      room := ⟨0, fun _ _ => rfl⟩ }
  refine hempty.update ⟨mem, []⟩ (fun v hv => Function.update_of_ne hv _ _)
    ⟨0, Function.update_self _ _ _, rfl⟩
    (fun x _ hx => Function.update_of_ne (List.ne_of_not_mem_cons hx) _ _)
    (fun x hx => absurd hx List.not_mem_nil) (fun _ _ _ => rfl) ?_ (by simp) ?_ (by simp)
    (fun _ _ h => absurd h List.not_mem_nil) fun hout => absurd (List.Mem.head _) hout
  · have hframe : (Machine.start body main mem).heap 0 = some ⟨Unit, .running (body main), none⟩ := rfl
    have hchain := Chain.mk 0 [] (.running (body main)) _ .done hframe (.running (body main)) (.none 0)
    rwa [Coro.andThen_done] at hchain
  · refine .body 0 main [] [] ?_ .nil
    rw [Function.update_self]
    exact .running 0 [] _ _ (Function.update_self _ _ _)

theorem Machine.Reachable.represents (hm : Machine.Reachable body main mem m) :
    ∃ p chain, Coroutine.Reachable (fun t => (body t).tree) main mem p ∧ Represents m p chain := by
  induction hm with
  | refl => exact ⟨_, _, .refl, represents_start body main mem⟩
  | tail _ hstep ih =>
      obtain ⟨p, chain, hp, hR⟩ := ih
      obtain ⟨p', chain', hrun, hR'⟩ := hR.step body hstep
      exact ⟨p', chain', hp.trans hrun, hR'⟩

theorem represented_of_reachable
    (hp : Coroutine.Reachable (fun t => (body t).tree) main mem p) :
    ∃ m chain, Machine.Reachable body main mem m ∧ Represents m p chain := by
  induction hp with
  | refl => exact ⟨_, _, .refl, represents_start body main mem⟩
  | tail _ hstep ih =>
      obtain ⟨m, chain, hm, hR⟩ := ih
      obtain ⟨m', chain', hrun, hR'⟩ := hR.step_back body hstep
      exact ⟨m', chain', hm.trans hrun, hR'⟩

end Runs

/-- **Tasks run as their trees.** Whatever coroutines the member coroutines of an object are made of, the states
    that their frames reach are those that the pool of their trees reaches, with the same members and
    the same events in the same order: each state of the machine represents one of the pool, and each
    of the pool is represented. -/
theorem runs_as_trees [DecidableEq O.Task] (body : O.Task → Body O.Exn O.sig Unit) (main : O.Task)
    (mem : O.Mem) :
    (∀ m, Machine.Reachable body main mem m → ∃ p chain,
      Coroutine.Reachable (fun t => (body t).tree) main mem p ∧ Represents m p chain) ∧
    (∀ p, Coroutine.Reachable (fun t => (body t).tree) main mem p → ∃ m chain,
      Machine.Reachable body main mem m ∧ Represents m p chain) :=
  ⟨fun _ hm => hm.represents, fun _ hp => represented_of_reachable hp⟩

/-- How frame `h` stands while the event loop has control: suspended on an operation; awaiting a frame that has
    not ended and will resume it; or the frame of a member coroutine that has ended. -/
inductive AtRest (m : Machine O) (h : Handle) : {α : Type} → Point O α → Option Handle → Prop
  | suspended {α : Type} (o : O.Io.Op) (k : O.Io.Res o → Body O.Exn O.sig α) (q : Option Handle)
      (hsus : O.suspends o = true) : AtRest m h (.running (.op (S := O.sig) (.io o) k)) q
  | awaiting {α β : Type} (callee : Handle) (k : Except O.Exn β → Body O.Exn O.sig α)
      (pt : Point O β) (q : Option Handle) (hcallee : m.heap callee = some ⟨β, pt, some h⟩)
      (hpt : ∀ r, pt ≠ .final r) : AtRest m h (.awaiting callee k) q
  | ended {α : Type} (r : Except O.Exn α) (t : O.Task) (hroot : m.root t = some h) :
      AtRest m h (.final r) none

theorem Callers.atRest {m : Machine O} {h x : Handle} {hs : List Handle} {β : Type}
    {f : Except O.Exn β → O.Prog Unit} (hc : Callers m.heap h hs β f) {pt : Point O β}
    (hframe : m.heap h = some ⟨β, pt, hs.head?⟩) (hpt : ∀ r, pt ≠ .final r) (hx : x ∈ hs)
    {frame : Frame O} (hxframe : m.heap x = some frame) :
    AtRest m x frame.point frame.continuation := by
  induction hc with
  | none h => cases hx
  | caller h c hs k f hcaller _ ih =>
      rcases List.mem_cons.1 hx with rfl | hx
      · rw [hcaller] at hxframe
        cases hxframe
        exact .awaiting h k pt _ hframe hpt
      · exact ih hcaller (by simp) hx

/-- **No frame is lost or outlives its await.** Whenever the event loop has control, every frame that is alive is
    suspended on an operation, awaits a frame that is alive, has not ended and will resume it, or is
    that of a member coroutine that has ended. -/
theorem frames_at_rest [DecidableEq O.Task] {body : O.Task → Body O.Exn O.sig Unit} {main : O.Task}
    {mem : O.Mem} {m : Machine O} (hm : Machine.Reachable body main mem m) (hidle : m.stack = [])
    {h : Handle} {frame : Frame O} (hframe : m.heap h = some frame) :
    AtRest m h frame.point frame.continuation := by
  obtain ⟨p, chain, -, hR⟩ := hm.represents
  obtain ⟨t, hmem⟩ := hR.owned h (by rw [hframe]; exact Option.some_ne_none _)
  obtain ⟨root, hroot⟩ := hR.started hmem
  obtain ⟨hlast, c, hchain, -⟩ := hR.frames t root hroot
  have hpark := hR.parked t (by rw [hR.stack_nil hidle]; exact List.not_mem_nil)
  generalize hl : chain t = l at hmem hlast hchain hpark
  cases hchain with
  | mk h₀ hs pt c f hfr hpt hcallers =>
      rcases hpark h₀ hs rfl with ⟨_, o, k, q, hfr', hsus⟩ | ⟨rfl, _, r, q, hfr'⟩
      · rw [hfr] at hfr'
        cases hfr'
        rcases List.mem_cons.1 hmem with rfl | hmem
        · rw [hframe] at hfr
          cases hfr
          exact .suspended o k _ hsus
        · exact hcallers.atRest hfr (by simp) hmem hframe
      · rw [hfr] at hfr'
        cases hfr'
        obtain rfl := List.mem_singleton.1 hmem
        rw [hframe] at hfr
        cases hfr
        cases hlast
        exact .ended r t hroot

end Tasks

end Cppvless
