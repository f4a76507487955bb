import Cppvless.Coroutine.Pool

set_option autoImplicit false

/-! # The turns of a pool

The event loop does not see single steps of a pool. It starts the object, later it delivers a completion,
and each time it has control again when all coroutines are suspended or at their ends. -/

namespace Coroutine

open Relation

variable {O : Object} [DecidableEq O.Task]

/-- A step while a coroutine is running. -/
def Busy (ok : World O → World O → Prop) (body : O.Task → O.Prog Unit) (p p' : Pool O) : Prop :=
  p.stack ≠ [] ∧ Step body p p' ∧ ok p.world p'.world

/-- The coroutines run until the event loop has control. -/
def Settles (ok : World O → World O → Prop) (body : O.Task → O.Prog Unit) (p p' : Pool O) : Prop :=
  ReflTransGen (Busy ok body) p p' ∧ p'.stack = []

/-- The start of coroutine `t`. -/
def Starts (ok : World O → World O → Prop) (body : O.Task → O.Prog Unit) (t : O.Task) (mem : O.Mem)
    (p : Pool O) : Prop :=
  Settles ok body (Pool.start body t mem) p

/-- A completion. -/
def Completes (ok : World O → World O → Prop) (body : O.Task → O.Prog Unit) (p p' : Pool O) : Prop :=
  p.stack = [] ∧ ∃ p₁, Step body p p₁ ∧ ok p.world p₁.world ∧ Settles ok body p₁ p'

variable {ok : World O → World O → Prop} {body : O.Task → O.Prog Unit} {t : O.Task} {mem : O.Mem}
  {p p' : Pool O}

theorem Settles.reachableIn (h : Settles ok body p p') (hp : ReachableIn ok body t mem p) :
    ReachableIn ok body t mem p' := by
  obtain ⟨hruns, -⟩ := h
  induction hruns with
  | refl => exact hp
  | tail _ hbusy ih => exact .tail ih hbusy.2

theorem Starts.reachableIn (h : Starts ok body t mem p) : ReachableIn ok body t mem p :=
  Settles.reachableIn h .refl

theorem Completes.reachableIn (h : Completes ok body p p') (hp : ReachableIn ok body t mem p) :
    ReachableIn ok body t mem p' := by
  obtain ⟨-, p₁, hstep, hok, hsettles⟩ := h
  exact hsettles.reachableIn (.tail hp ⟨hstep, hok⟩)

/-! ## What happened stays in the trace -/

omit [DecidableEq O.Task] in
theorem internal_world {c c' : O.Prog Unit} {w w' : World O} (h : internal c w = some (c', w')) :
    w' = w ∨ ∃ f, w' = w.call f := by
  match c with
  | .done r => simp [internal] at h
  | .op .get k =>
      simp only [internal, Option.some.injEq, Prod.mk.injEq] at h
      exact .inl h.2.symm
  | .op (.member f) k =>
      simp only [internal, Option.some.injEq, Prod.mk.injEq] at h
      exact .inr ⟨f, h.2.symm⟩
  | .op (.io o) k => simp [internal] at h
  | .op (.spawn u) k => simp [internal] at h
  | .iter body b k =>
      simp only [internal, Option.some.injEq, Prod.mk.injEq] at h
      exact .inl h.2.symm

/-- How the world changes. -/
theorem Step.world (h : Step body p p') :
    p'.world = p.world ∨ (∃ f, p'.world = p.world.call f) ∨ (∃ o r, p'.world = p.world.answer o r) ∨
      ∃ t, p'.world = p.world.start t := by
  cases h with
  | internal t rest c c' w' hstack hframe hstep => exact (internal_world hstep).imp_right .inl
  | answer t rest o k r hstack hframe => exact .inr (.inr (.inl ⟨o, r, rfl⟩))
  | park t rest o k hstack hframe hsus => exact .inl rfl
  | resume t o k r hstack hframe hsus => exact .inr (.inr (.inl ⟨o, r, rfl⟩))
  | spawn t u rest k hstack hframe hfresh => exact .inr (.inr (.inr ⟨u, rfl⟩))
  | finish t rest r hstack hframe => exact .inl rfl

theorem Step.trace (h : Step body p p') : p.world.trace <+: p'.world.trace := by
  rcases h.world with h | ⟨f, h⟩ | ⟨o, r, h⟩ | ⟨t, h⟩
  · exact h ▸ List.prefix_rfl
  · exact h ▸ List.prefix_append _ _
  · exact h ▸ List.prefix_append _ _
  · exact h ▸ List.prefix_append _ _

theorem Settles.trace (h : Settles ok body p p') : p.world.trace <+: p'.world.trace := by
  obtain ⟨hruns, -⟩ := h
  induction hruns with
  | refl => exact List.prefix_rfl
  | tail _ hbusy ih => exact ih.trans hbusy.2.1.trace

theorem Completes.trace (h : Completes ok body p p') : p.world.trace <+: p'.world.trace := by
  obtain ⟨-, p₁, hstep, -, hsettles⟩ := h
  exact hstep.trace.trans hsettles.trace

end Coroutine
