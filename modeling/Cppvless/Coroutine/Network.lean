import Cppvless.Coroutine.Logic

set_option autoImplicit false

/-! # Two programs side by side

The pools of two objects run at the same time, each at its own pace: a `Network` takes a step when one
of its sides does. What couples them is a condition on the pair of states, `link`, which every state of a
run must meet, so that a run is any interleaving of two runs that the link allows. An operation of one
side may have taken effect before its own event loop delivers the answer, and the other side may have
seen it; `Contract.invariant_awaited` says that what a contract makes true of a world is true of the
world with that answer as well. -/

namespace Coroutine

open Relation

section Awaited

variable {O : Object} [DecidableEq O.Task] {C : Contract O}

/-- What every guarantee keeps holds of every reachable world after any answer to an operation a coroutine is
    at, delivered or not. -/
theorem Contract.invariant_awaited {body : O.Task → O.Prog Unit} {main : O.Task} {mem : O.Mem}
    (hC : C.Stable)
    (hbody : ∀ t w, C.pre t w → C.env w.trace → wp C t (body t) (fun _ => C.post t) w)
    (hpre : C.pre main ⟨mem, []⟩) (Inv : World O → Prop) (hstart : Inv ⟨mem, []⟩)
    (hguar : ∀ t w w', C.guar t w w' → C.env w'.trace → Inv w → Inv w') {p : Pool O}
    (hp : Reachable body main mem p) {t : O.Task} {o : O.Io.Op} {k : O.Io.Res o → O.Prog Unit}
    (hframe : p.frames t = some (.op (.io o) k)) (r : O.Io.Res o)
    (henv : C.env (p.world.answer o r).trace)
    (hall : ∀ w w', C.allowed w w' := by exact fun _ _ => trivial) : Inv (p.world.answer o r) := by
  have hbefore : C.env p.world.trace := hC.env_prefix _ _ henv
  have hsound := C.sound hC hbody hpre hp hbefore hall
  have hanswer := wp_answer (hsound.meets t _ hframe).now ⟨henv, hall _ _⟩
  exact hguar t _ _ hanswer.1 henv (C.invariant hC hbody hpre Inv hstart hguar hp hbefore hall)

end Awaited

/-- The states of two pools. -/
structure Network (O₁ O₂ : Object) where
  left : Pool O₁
  right : Pool O₂

namespace Network

variable {O₁ O₂ : Object} [DecidableEq O₁.Task] [DecidableEq O₂.Task]
  (body₁ : O₁.Task → O₁.Prog Unit) (body₂ : O₂.Task → O₂.Prog Unit)

/-- One side takes a step. -/
inductive Step : Network O₁ O₂ → Network O₁ O₂ → Prop
  | left (n : Network O₁ O₂) (p : Pool O₁) (hstep : Coroutine.Step body₁ n.left p) :
      Step n { n with left := p }
  | right (n : Network O₁ O₂) (p : Pool O₂) (hstep : Coroutine.Step body₂ n.right p) :
      Step n { n with right := p }

/-- Both sides have just been started. -/
def start (main₁ : O₁.Task) (mem₁ : O₁.Mem) (main₂ : O₂.Task) (mem₂ : O₂.Mem) : Network O₁ O₂ where
  left := Pool.start body₁ main₁ mem₁
  right := Pool.start body₂ main₂ mem₂

variable (link : Network O₁ O₂ → Prop) (main₁ : O₁.Task) (mem₁ : O₁.Mem) (main₂ : O₂.Task)
  (mem₂ : O₂.Mem)

/-- The states the two sides reach together, every one of which the link allows. -/
def Reachable (n : Network O₁ O₂) : Prop :=
  link (start body₁ body₂ main₁ mem₁ main₂ mem₂) ∧
    ReflTransGen (fun n n' => Step body₁ body₂ n n' ∧ link n')
      (start body₁ body₂ main₁ mem₁ main₂ mem₂) n

variable {body₁ body₂ link main₁ mem₁ main₂ mem₂} {n : Network O₁ O₂}

theorem Reachable.linked (h : Reachable body₁ body₂ link main₁ mem₁ main₂ mem₂ n) : link n := by
  obtain ⟨hstart, hrun⟩ := h
  cases hrun with
  | refl => exact hstart
  | tail _ hstep => exact hstep.2

/-- Each side runs as it does alone. -/
theorem Reachable.left (h : Reachable body₁ body₂ link main₁ mem₁ main₂ mem₂ n) :
    Coroutine.Reachable body₁ main₁ mem₁ n.left := by
  obtain ⟨-, hrun⟩ := h
  induction hrun with
  | refl => exact .refl
  | tail _ hstep ih =>
      cases hstep.1 with
      | left p hleft => exact .tail ih hleft
      | right p hright => exact ih

theorem Reachable.right (h : Reachable body₁ body₂ link main₁ mem₁ main₂ mem₂ n) :
    Coroutine.Reachable body₂ main₂ mem₂ n.right := by
  obtain ⟨-, hrun⟩ := h
  induction hrun with
  | refl => exact .refl
  | tail _ hstep ih =>
      cases hstep.1 with
      | left p hleft => exact ih
      | right p hright => exact .tail ih hright

/-- The left side runs for a while, the link allowing every state on the way. -/
theorem Reachable.runLeft (h : Reachable body₁ body₂ link main₁ mem₁ main₂ mem₂ n) {p : Pool O₁}
    (hrun : ReflTransGen (Coroutine.Step body₁) n.left p)
    (hlink : ∀ q, ReflTransGen (Coroutine.Step body₁) n.left q →
      ReflTransGen (Coroutine.Step body₁) q p → link { n with left := q }) :
    Reachable body₁ body₂ link main₁ mem₁ main₂ mem₂ { n with left := p } := by
  induction hrun with
  | refl => exact h
  | tail hbefore hstep ih =>
      have hreached := ih fun q hq hq' => hlink q hq (.tail hq' hstep)
      exact ⟨hreached.1, .tail hreached.2 ⟨.left _ _ hstep, hlink _ (.tail hbefore hstep) .refl⟩⟩

/-- The right side runs for a while. -/
theorem Reachable.runRight (h : Reachable body₁ body₂ link main₁ mem₁ main₂ mem₂ n) {p : Pool O₂}
    (hrun : ReflTransGen (Coroutine.Step body₂) n.right p)
    (hlink : ∀ q, ReflTransGen (Coroutine.Step body₂) n.right q →
      ReflTransGen (Coroutine.Step body₂) q p → link { n with right := q }) :
    Reachable body₁ body₂ link main₁ mem₁ main₂ mem₂ { n with right := p } := by
  induction hrun with
  | refl => exact h
  | tail hbefore hstep ih =>
      have hreached := ih fun q hq hq' => hlink q hq (.tail hq' hstep)
      exact ⟨hreached.1, .tail hreached.2 ⟨.right _ _ hstep, hlink _ (.tail hbefore hstep) .refl⟩⟩

end Network

/-- A run only ever extends the trace. -/
theorem trace_prefix_of_run {O : Object} [DecidableEq O.Task] {body : O.Task → O.Prog Unit}
    {p p' : Pool O} (h : ReflTransGen (Step body) p p') : p.world.trace <+: p'.world.trace := by
  induction h with
  | refl => exact List.prefix_rfl
  | tail _ hstep ih => exact ih.trans hstep.trace_prefix

end Coroutine
