import Cppvless.Coroutine.Logic

set_option autoImplicit false

/-! # A coroutine with nobody else there

`Alone c w r w'`: run from `w`, with any answers to its operations and no other coroutine, `c` ends
with `r` in `w'`. What the program logic shows of `c` under a contract that lets nobody else move
holds of every such run (`Alone.of_wp`). `runAlone` computes one. -/

namespace Coroutine

open Relation

variable {O : Object} {α : Type}

/-- `c`, run alone from a world, ends with a result in another. It starts no coroutine. -/
inductive Alone : {α : Type} → O.Prog α → World O → Except O.Exn α → World O → Prop
  | done {α : Type} (r : Except O.Exn α) (w : World O) : Alone (.done r) w r w
  | get {α : Type} (k : O.Mem → O.Prog α) (w : World O) (r : Except O.Exn α) (w' : World O)
      (hk : Alone (k w.mem) w r w') : Alone (.op .get k) w r w'
  | member {α : Type} (f : O.Mem → O.Mem × List O.Sys) (k : Unit → O.Prog α) (w : World O)
      (r : Except O.Exn α) (w' : World O) (hk : Alone (k ()) (w.call f) r w') :
      Alone (.op (.member f) k) w r w'
  | io {α : Type} (o : O.Io.Op) (k : O.Io.Res o → O.Prog α) (a : O.Io.Res o) (w : World O)
      (r : Except O.Exn α) (w' : World O) (hk : Alone (k a) (w.answer o a) r w') :
      Alone (.op (.io o) k) w r w'
  | iter {α β γ : Type} (body : β → O.Prog (β ⊕ γ)) (b : β) (k : Except O.Exn γ → O.Prog α)
      (w : World O) (r : Except O.Exn α) (w' : World O)
      (hu : Alone (Coro.unroll (S := O.sig) body b k) w r w') : Alone (.iter body b k) w r w'

/-- The contract of a coroutine that is alone, with an invariant of its worlds. -/
def lone (env : List (Event O) → Prop) (I : World O → Prop) (t : O.Task) : Contract O where
  env := env
  guar u _ w' := u = t ∧ I w'
  parked _ _ _ := True
  pre u w := u = t ∧ w.trace = []
  post _ _ := True

variable {env : List (Event O) → Prop} {I : World O → Prop} {t : O.Task} {w w' : World O}

theorem lone_rely : ¬ (lone env I t).rely t w w' := by
  intro ⟨u, hu, hg, _⟩
  exact hu hg.1

theorem stable_lone (hfirst : ∀ tr tr', env (tr ++ tr') → env tr) : (lone env I t).Stable :=
  ⟨hfirst, fun _ _ _ _ _ _ => trivial, fun _ _ _ _ _ => trivial⟩

theorem Alone.trace_prefix {c : O.Prog α} {r : Except O.Exn α} (h : Alone c w r w') :
    w.trace <+: w'.trace := by
  induction h with
  | done r w => exact List.prefix_rfl
  | get k w r w' _ ih => exact ih
  | member f k w r w' _ ih => exact (List.prefix_append _ _).trans ih
  | io o k a w r w' _ ih => exact (List.prefix_append _ _).trans ih
  | iter body b k w r w' _ ih => exact ih

/-- **What the logic shows of a lone coroutine holds of its runs.** -/
theorem Alone.of_wp (env : List (Event O) → Prop) (hfirst : ∀ tr tr', env (tr ++ tr') → env tr)
    {c : O.Prog α} {r : Except O.Exn α} (h : Alone c w r w') {Q : Except O.Exn α → World O → Prop}
    (hwp : wp (lone env I t) t c Q w) (henv : env w'.trace) : Q r w' := by
  have hbefore : ∀ {α : Type} {c : O.Prog α} {w : World O} {r : Except O.Exn α} {w' : World O},
      Alone c w r w' → env w'.trace → env w.trace := by
    intro α c w r w' h henv
    obtain ⟨more, hmore⟩ := h.trace_prefix
    exact hfirst _ more (hmore ▸ henv)
  induction h with
  | done r w => exact hwp
  | get k w r w' _ ih => exact ih hwp henv
  | member f k w r w' hk ih =>
      exact ih (hwp ⟨hbefore hk henv, trivial⟩).2 henv
  | io o k a w r w' hk ih =>
      exact ih (wp_answer hwp ⟨hbefore hk henv, trivial⟩).2 henv
  | iter body b k w r w' _ ih => exact ih (wp_unroll hwp) henv

/-- The lone run of a coroutine against a given environment, for at most `n` instructions. -/
def runAlone (answer : World O → (o : O.Io.Op) → O.Io.Res o) :
    Nat → O.Prog α → World O → Option (Except O.Exn α × World O)
  | _, .done r, w => some (r, w)
  | 0, _, _ => none
  | n + 1, .op .get k, w => runAlone answer n (k w.mem) w
  | n + 1, .op (.member f) k, w => runAlone answer n (k ()) (w.call f)
  | n + 1, .op (.io o) k, w => runAlone answer n (k (answer w o)) (w.answer o (answer w o))
  | _ + 1, .op (.spawn _) _, _ => none
  | n + 1, .iter body b k, w => runAlone answer n (Coro.unroll body b k) w

/-- A computed lone run is one. -/
theorem alone_of_runAlone {answer : World O → (o : O.Io.Op) → O.Io.Res o} {n : Nat}
    {c : O.Prog α} {r : Except O.Exn α} (h : runAlone answer n c w = some (r, w')) :
    Alone c w r w' := by
  fun_induction runAlone answer n c w with
  | case1 n r₁ w =>
      obtain ⟨rfl, rfl⟩ := Prod.mk.inj (Option.some.inj h)
      exact .done _ _
  | case2 c w hc => exact absurd h (by simp)
  | case3 n k w ih => exact .get k w _ _ (ih h)
  | case4 n f k w ih => exact .member f k w _ _ (ih h)
  | case5 n o k w ih => exact .io o k _ w _ _ (ih h)
  | case6 n u k w => exact absurd h (by simp)
  | case7 n _ _ body b k w ih => exact .iter body b k w _ _ (ih h)

theorem alone_getD {answer : World O → (o : O.Io.Op) → O.Io.Res o} {n : Nat} {c : O.Prog α}
    (h : (runAlone answer n c w).isSome = true) (d : Except O.Exn α × World O) :
    Alone c w ((runAlone answer n c w).getD d).1 ((runAlone answer n c w).getD d).2 := by
  obtain ⟨x, hx⟩ := Option.isSome_iff_exists.1 h
  have hgetD : (runAlone answer n c w).getD d = x := by rw [hx, Option.getD_some]
  rw [hgetD]
  exact alone_of_runAlone hx

end Coroutine
