import Cppvless.Coroutine.Network
import Cppvless.Coroutine.Replay
import Cppvless.Net.Trace

set_option autoImplicit false

/-! # A connection between two programs

Two connections, one in each program, are the ends of a `Channel`: what one side has read is the beginning
of what the other has written, in both directions, and no write to either end succeeds after one that
failed. A write may have gone through, and may have been read at the other end, before its answer is
delivered to the coroutine that awaits it (`Written`). -/

namespace Cppvless

open Coroutine Relation

variable {K L : Kind} {fd : K.Fd} {fd' : L.Fd}

/-- A world in which `fd` may have been written to so far: the recorded one, or that with an answer to a write
    that a coroutine is at. -/
inductive Written (fd : K.Fd) (p : Pool K.object) : World K.object → Prop
  | recorded : Written fd p p.world
  | awaited (t : K.Task) (o : NetOp K.Fd) (k : o.Res → K.Prog Unit) (r : o.Res)
      (hframe : p.frames t = some (.op (.io (.inl o)) k)) (hwrites : o.Writes fd) :
      Written fd p (p.world.push (.io (.inl o) r))

section Written

variable {p : Pool K.object} {w : World K.object}

/-- A write reads nothing. -/
theorem Written.answers (h : Written fd p w) (fd' : K.Fd) :
    answers fd' w.trace = answers fd' p.world.trace := by
  cases h with
  | recorded => rfl
  | awaited t o k r hframe hwrites =>
      have hreads : ¬ o.Reads fd' := fun hreads => hreads.not_writes hwrites
      simp [Cppvless.answers, heard_eq_none hreads r]

theorem Written.readFrom (h : Written fd p w) (fd' : K.Fd) :
    readFrom fd' w.trace = readFrom fd' p.world.trace := by
  rw [Cppvless.readFrom, chunksFrom, h.answers, ← chunksFrom, ← Cppvless.readFrom]

/-- It goes to one end. -/
theorem Written.sticky_of (h : Written fd p w) (hw : Sticky fd w.trace) {fd' : K.Fd}
    (hp : Sticky fd' p.world.trace) : Sticky fd' w.trace := by
  by_cases hfd : fd' = fd
  · exact hfd ▸ hw
  · cases h with
    | recorded => exact hp
    | awaited t o k r hframe hwrites =>
        have hnone := wrote_eq_none (K := K) (fun h => hfd (h.unique hwrites)) r
        have hsame : writes fd' (p.world.push (.io (.inl o) r)).trace = writes fd' p.world.trace := by
          simp [writes, hnone]
        rw [Sticky, hsame]
        exact hp

theorem Written.sticky (h : Written fd p w) (hw : Sticky fd w.trace)
    (hp : ∀ fd', Sticky fd' p.world.trace) (fd' : K.Fd) : Sticky fd' w.trace :=
  h.sticky_of hw (hp fd')

variable [DecidableEq K.object.Task] {C : Contract K.object}

/-- What every guarantee keeps holds wherever `fd` may have been written to. -/
theorem Written.invariant {body : K.Task → K.Prog Unit} {main : K.Task} {mem : K.Mem}
    (hC : C.Stable)
    (hbody : ∀ t w, C.pre t w → C.env w.trace → wp C t (body t) (fun _ => C.post t) w)
    (hpre : C.pre main ⟨mem, []⟩) (Inv : World K.object → Prop) (hstart : Inv ⟨mem, []⟩)
    (hguar : ∀ t w w', C.guar t w w' → C.env w'.trace → Inv w → Inv w')
    (hp : Coroutine.Reachable (O := K.object) body main mem p) (hw : Written fd p w)
    (henv : C.env w.trace) (hall : ∀ w w', C.allowed w w' := by exact fun _ _ => trivial) :
    Inv w := by
  cases hw with
  | recorded => exact C.invariant hC hbody hpre Inv hstart hguar hp henv hall
  | awaited t o k r hframe hwrites =>
      exact C.invariant_awaited hC hbody hpre Inv hstart hguar hp hframe r henv hall

end Written

/-- What was read from `fd'` is the beginning of what may have been written to `fd`, where a failed write
    is the last to go through. -/
def Delivers (fd : K.Fd) (p : Pool K.object) (fd' : L.Fd) (q : Pool L.object) : Prop :=
  ∃ w, Written fd p w ∧ Sticky fd w.trace ∧
    readFrom fd' q.world.trace <+: wroteTo fd w.trace

/-- `fd` of the one side is connected to `fd'` of the other, both with writes that stay failed. -/
structure Channel (fd : K.Fd) (fd' : L.Fd) (n : Network K.object L.object) : Prop where
  forth : Delivers fd n.left fd' n.right
  back : Delivers fd' n.right fd n.left

/-! ## With nothing under way -/

/-- What was read is the beginning of what is known to be written. -/
def Delivered (fd : K.Fd) (p : Pool K.object) (fd' : L.Fd) (q : Pool L.object) : Prop :=
  Sticky fd p.world.trace ∧ readFrom fd' q.world.trace <+: wroteTo fd p.world.trace

instance (p : Pool K.object) (q : Pool L.object) : Decidable (Delivered fd p fd' q) :=
  inferInstanceAs (Decidable (_ ∧ _))

theorem Delivered.delivers {p : Pool K.object} {q : Pool L.object} (h : Delivered fd p fd' q) :
    Delivers fd p fd' q :=
  ⟨p.world, .recorded, h⟩

theorem wroteTo_mono {tr tr' : List (Event K.object)} (h : tr <+: tr') :
    wroteTo fd tr <+: wroteTo fd tr' := by
  obtain ⟨more, rfl⟩ := h
  rw [wroteTo_append]
  exact List.prefix_append _ _

/-- More may have been written, and less been read. -/
theorem Delivered.between {p p' p'' : Pool K.object} {q q' : Pool L.object}
    (h : Delivered fd p fd' q') (h' : Delivered fd p'' fd' q')
    (hp : p.world.trace <+: p'.world.trace) (hp' : p'.world.trace <+: p''.world.trace)
    (hq : q.world.trace <+: q'.world.trace) : Delivered fd p' fd' q := by
  obtain ⟨more, hmore⟩ := hp'
  refine ⟨Sticky.of_append (hmore.symm ▸ h'.1), ?_⟩
  exact (readFrom_mono _ hq).trans (h.2.trans (wroteTo_mono hp))

/-- Everything that was read is known to be written. -/
structure Channel.Settled (fd : K.Fd) (fd' : L.Fd) (n : Network K.object L.object) : Prop where
  forth : Delivered fd n.left fd' n.right
  back : Delivered fd' n.right fd n.left

instance (n : Network K.object L.object) : Decidable (Channel.Settled fd fd' n) :=
  decidable_of_iff (Delivered fd n.left fd' n.right ∧ Delivered fd' n.right fd n.left)
    ⟨fun h => ⟨h.1, h.2⟩, fun h => ⟨h.forth, h.back⟩⟩

theorem Channel.Settled.channel {n : Network K.object L.object} (h : Channel.Settled fd fd' n) :
    Channel fd fd' n :=
  ⟨h.forth.delivers, h.back.delivers⟩

section Runs

variable [DecidableEq K.object.Task] [DecidableEq L.object.Task] {body₁ : K.Task → K.Prog Unit}
  {body₂ : L.Task → L.Prog Unit} {main₁ : K.Task} {mem₁ : K.Mem} {main₂ : L.Task} {mem₂ : L.Mem}
  {n : Network K.object L.object}

/-- A channel that is settled before and after the left side runs is one all the time. -/
theorem Channel.runLeft
    (h : @Network.Reachable K.object L.object _ _ body₁ body₂ (Channel fd fd') main₁ mem₁ main₂ mem₂ n)
    {p : Pool K.object}
    (hrun : ReflTransGen (Coroutine.Step (O := K.object) body₁) n.left p)
    (hbefore : Channel.Settled fd fd' n) (hafter : Channel.Settled fd fd' { n with left := p }) :
    @Network.Reachable K.object L.object _ _ body₁ body₂ (Channel fd fd') main₁ mem₁ main₂ mem₂
      { n with left := p } := by
  refine h.runLeft hrun fun q hq hq' => Channel.Settled.channel ⟨?_, ?_⟩
  · exact hbefore.forth.between hafter.forth (trace_prefix_of_run hq) (trace_prefix_of_run hq')
      List.prefix_rfl
  · exact hafter.back.between hafter.back List.prefix_rfl List.prefix_rfl (trace_prefix_of_run hq')

/-- So is one before and after the right side runs. -/
theorem Channel.runRight
    (h : @Network.Reachable K.object L.object _ _ body₁ body₂ (Channel fd fd') main₁ mem₁ main₂ mem₂ n)
    {p : Pool L.object}
    (hrun : ReflTransGen (Coroutine.Step (O := L.object) body₂) n.right p)
    (hbefore : Channel.Settled fd fd' n) (hafter : Channel.Settled fd fd' { n with right := p }) :
    @Network.Reachable K.object L.object _ _ body₁ body₂ (Channel fd fd') main₁ mem₁ main₂ mem₂
      { n with right := p } := by
  refine h.runRight hrun fun q hq hq' => Channel.Settled.channel ⟨?_, ?_⟩
  · exact hafter.forth.between hafter.forth List.prefix_rfl List.prefix_rfl (trace_prefix_of_run hq')
  · exact hbefore.back.between hafter.back (trace_prefix_of_run hq) (trace_prefix_of_run hq')
      List.prefix_rfl

end Runs

/-! ## Taking turns -/

/-- One side runs, and these coroutines of it are resumed. -/
inductive Turn (K L : Kind)
  | left (ts : List K.Task)
  | right (ts : List L.Task)

section Turns

variable [DecidableEq K.object.Task] [DecidableEq L.object.Task] (body₁ : K.Task → K.Prog Unit)
  (body₂ : L.Task → L.Prog Unit) (env₁ : World K.object → (o : K.object.Io.Op) → K.object.Io.Res o)
  (env₂ : World L.object → (o : L.object.Io.Op) → L.object.Io.Res o) (steps : Nat) (fd : K.Fd) (fd' : L.Fd)

/-- The state after a turn. -/
def Turn.play : Turn K L → Network K.object L.object → Network K.object L.object
  | .left ts, n =>
      { n with left := replay (O := K.object) body₁ env₁ steps ts (settle body₁ env₁ steps n.left) }
  | .right ts, n =>
      { n with right := replay (O := L.object) body₂ env₂ steps ts (settle body₂ env₂ steps n.right) }

/-- The state after these turns, or after those up to the first that leaves something under way. -/
def playAll : List (Turn K L) → Network K.object L.object → Network K.object L.object
  | [], n => n
  | turn :: turns, n =>
      if Channel.Settled fd fd' (turn.play body₁ body₂ env₁ env₂ steps n) then
        playAll turns (turn.play body₁ body₂ env₁ env₂ steps n)
      else n

variable {body₁ body₂ env₁ env₂ steps fd fd'} {main₁ : K.Task} {mem₁ : K.Mem} {main₂ : L.Task}
  {mem₂ : L.Mem} {n : Network K.object L.object}

theorem Turn.play_reachable (turn : Turn K L)
    (hn : @Network.Reachable K.object L.object _ _ body₁ body₂ (Channel fd fd') main₁ mem₁ main₂ mem₂ n)
    (hbefore : Channel.Settled fd fd' n)
    (hafter : Channel.Settled fd fd' (turn.play body₁ body₂ env₁ env₂ steps n)) :
    @Network.Reachable K.object L.object _ _ body₁ body₂ (Channel fd fd') main₁ mem₁ main₂ mem₂
      (turn.play body₁ body₂ env₁ env₂ steps n) := by
  cases turn with
  | left ts =>
      refine Channel.runLeft hn ?_ hbefore hafter
      exact (settle_reaches (O := K.object) _ _ _ _).trans
        (replay_reaches (O := K.object) _ _ _ ts _)
  | right ts =>
      refine Channel.runRight hn ?_ hbefore hafter
      exact (settle_reaches (O := L.object) _ _ _ _).trans
        (replay_reaches (O := L.object) _ _ _ ts _)

theorem playAll_reachable (turns : List (Turn K L))
    (hn : @Network.Reachable K.object L.object _ _ body₁ body₂ (Channel fd fd') main₁ mem₁ main₂ mem₂ n)
    (hsettled : Channel.Settled fd fd' n) :
    @Network.Reachable K.object L.object _ _ body₁ body₂ (Channel fd fd') main₁ mem₁ main₂ mem₂
      (playAll body₁ body₂ env₁ env₂ steps fd fd' turns n) := by
  induction turns generalizing n with
  | nil => exact hn
  | cons turn turns ih =>
      rw [playAll]
      split
      · next hafter => exact ih (turn.play_reachable hn hsettled hafter) hafter
      · exact hn

end Turns

end Cppvless
