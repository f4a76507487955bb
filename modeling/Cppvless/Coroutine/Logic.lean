import Cppvless.Coroutine.Pool

set_option autoImplicit false

/-! # Rely-guarantee reasoning about a pool

A `Contract` says of every coroutine which changes of the world it may make (`guar`), what it
leaves true whenever it suspends on an operation (`parked`), what it needs when it is started (`pre`) and what it
leaves true for ever once it has ended (`post`). `wp` is the weakest precondition of a coroutine's
code under a contract: at a suspension point the others may have changed the world in any way their
guarantees allow. `Contract.sound` is the one induction over the steps of a pool: every coroutine
of every reachable pool still meets its contract.

`env` is what the outside world promises of the whole trace, `allowed` what is assumed of every
single change of the world. -/

namespace Coroutine

open Relation

/-- What each coroutine of an object promises to the others. -/
structure Contract (O : Object) where
  env : List (Event O) → Prop
  allowed : World O → World O → Prop := fun _ _ => True
  guar : O.Task → World O → World O → Prop
  parked : O.Task → O.Io.Op → World O → Prop
  pre : O.Task → World O → Prop
  post : O.Task → World O → Prop

variable {O : Object} {α β : Type}

namespace Contract

/-- The changes of the world a contract is about. -/
def Ok (C : Contract O) (w w' : World O) : Prop := C.env w'.trace ∧ C.allowed w w'

/-- What the other coroutines may do while `t` is suspended. -/
def rely (C : Contract O) (t : O.Task) (w w' : World O) : Prop :=
  ∃ u, u ≠ t ∧ C.guar u w w' ∧ C.Ok w w'

/-- `w'` comes from `w` by any number of steps of the other coroutines. -/
abbrev Later (C : Contract O) (t : O.Task) : World O → World O → Prop :=
  ReflTransGen (C.rely t)

/-- The conditions a contract has to meet on its own: what the outside promises of a trace it
    promises of every prefix, and the others cannot falsify what a coroutine left true. -/
structure Stable (C : Contract O) : Prop where
  env_prefix : ∀ tr tr' : List (Event O), C.env (tr ++ tr') → C.env tr
  parked : ∀ t o w w', C.parked t o w → C.rely t w w' → C.parked t o w'
  post : ∀ t w w', C.post t w → C.rely t w w' → C.post t w'

end Contract

/-- Weakest precondition of `c`, as part of coroutine `t`, for ending in `Q`. A loop needs an
    invariant of its rounds. -/
def wp (C : Contract O) (t : O.Task) :
    {α : Type} → O.Prog α → (Except O.Exn α → World O → Prop) → World O → Prop
  | _, .done r, Q, w => Q r w
  | _, .op .get k, Q, w => wp C t (k w.mem) Q w
  | _, .op (.member f) k, Q, w =>
      C.Ok w (w.call f) → C.guar t w (w.call f) ∧ wp C t (k ()) Q (w.call f)
  | _, .op (.io o) k, Q, w =>
      if O.suspends o then
        C.parked t o w ∧ ∀ w₁, C.Later t w w₁ → ∀ r, C.Ok w₁ (w₁.answer o r) →
          C.guar t w₁ (w₁.answer o r) ∧ wp C t (k r) Q (w₁.answer o r)
      else
        ∀ r, C.Ok w (w.answer o r) →
          C.guar t w (w.answer o r) ∧ wp C t (k r) Q (w.answer o r)
  | _, .op (.spawn u) k, Q, w =>
      C.Ok w (w.start u) → C.guar t w (w.start u) ∧ C.pre u (w.start u) ∧
        ∀ w₁, C.Later t (w.start u) w₁ → wp C t (k ()) Q w₁
  | _, .iter (β := β) body b k, Q, w =>
      ∃ Inv : β → World O → Prop, Inv b w ∧ ∀ b' w', Inv b' w' →
        wp C t (body b') (fun
          | .ok (.inl b''), w'' => Inv b'' w''
          | .ok (.inr c), w'' => wp C t (k (.ok c)) Q w''
          | .error e, w'' => wp C t (k (.error e)) Q w'') w'

variable {C : Contract O} {t : O.Task} {Q Q' : Except O.Exn α → World O → Prop} {w : World O}

/-- The postcondition of a coroutine that does not throw. -/
def Returns (Q : α → World O → Prop) : Except O.Exn α → World O → Prop
  | .ok a, w => Q a w
  | .error _, _ => False

@[simp] theorem returns_ok {Q : α → World O → Prop} (a : α) (w : World O) :
    Returns Q (.ok a) w ↔ Q a w := Iff.rfl

/-- The postcondition of a coroutine that may throw. -/
def Ends (Q : α → World O → Prop) (E : World O → Prop) : Except O.Exn α → World O → Prop
  | .ok a, w => Q a w
  | .error _, w => E w

/-! ## Rules -/

@[simp] theorem wp_done (r : Except O.Exn α) : wp C t (.done r) Q w ↔ Q r w := Iff.rfl

@[simp] theorem wp_pure (a : α) : wp C t (pure a) Q w ↔ Q (.ok a) w := Iff.rfl

@[simp] theorem wp_throw (e : O.Exn) :
    wp C t (Coro.throw (S := O.sig) e : O.Prog α) Q w ↔ Q (.error e) w := Iff.rfl

theorem wp_mono {c : O.Prog α} (h : wp C t c Q w) (hQ : ∀ r w, Q r w → Q' r w) :
    wp C t c Q' w := by
  induction c generalizing w with
  | done r => exact hQ r w h
  | op o k ih =>
      cases o with
      | get => exact ih _ h hQ
      | member f => exact fun he => ⟨(h he).1, ih _ (h he).2 hQ⟩
      | io o =>
          by_cases hs : O.suspends o = true
          · simp only [wp, if_pos hs] at h ⊢
            exact ⟨h.1, fun w₁ hl r he => ⟨(h.2 w₁ hl r he).1, ih _ (h.2 w₁ hl r he).2 hQ⟩⟩
          · simp only [wp, if_neg hs] at h ⊢
            exact fun r he => ⟨(h r he).1, ih _ (h r he).2 hQ⟩
      | spawn u => exact fun he => ⟨(h he).1, (h he).2.1, fun w₁ hl => ih _ ((h he).2.2 w₁ hl) hQ⟩
  | iter body b k ihb ihk =>
      obtain ⟨Inv, hb, hbody⟩ := h
      refine ⟨Inv, hb, fun b' w' hw' => ihb b' (hbody b' w' hw') ?_⟩
      intro r w'' hr
      match r, hr with
      | .ok (.inl _), hr => exact hr
      | .ok (.inr c), hr => exact ihk (.ok c) hr hQ
      | .error e, hr => exact ihk (.error e) hr hQ

theorem Contract.Later.env {w w' : World O} (h : C.Later t w w') (hw : C.env w.trace) :
    C.env w'.trace := by
  induction h with
  | refl => exact hw
  | tail _ hr _ =>
      obtain ⟨_, -, -, hok⟩ := hr
      exact hok.1

/-- What the outside promised of the trace holds where a coroutine ends. -/
theorem wp_env {c : O.Prog α} (hw : C.env w.trace) (h : wp C t c Q w) :
    wp C t c (fun r w' => Q r w' ∧ C.env w'.trace) w := by
  induction c generalizing w with
  | done r => exact ⟨h, hw⟩
  | op o k ih =>
      cases o with
      | get => exact ih _ hw h
      | member f => exact fun he => ⟨(h he).1, ih _ he.1 (h he).2⟩
      | io o =>
          by_cases hs : O.suspends o = true
          · simp only [wp, if_pos hs] at h ⊢
            exact ⟨h.1, fun w₁ hl r he => ⟨(h.2 w₁ hl r he).1, ih _ he.1 (h.2 w₁ hl r he).2⟩⟩
          · simp only [wp, if_neg hs] at h ⊢
            exact fun r he => ⟨(h r he).1, ih _ he.1 (h r he).2⟩
      | spawn u =>
          exact fun he => ⟨(h he).1, (h he).2.1, fun w₁ hl => ih _ (hl.env he.1) ((h he).2.2 w₁ hl)⟩
  | iter body b k ihb ihk =>
      obtain ⟨Inv, hb, hbody⟩ := h
      refine ⟨fun b w => Inv b w ∧ C.env w.trace, ⟨hb, hw⟩, ?_⟩
      intro b' w' hw'
      refine wp_mono (ihb b' hw'.2 (hbody b' w' hw'.1)) ?_
      intro r w'' hr
      match r, hr with
      | .ok (.inl _), hr => exact hr
      | .ok (.inr c), hr => exact ihk (.ok c) hr.2 hr.1
      | .error e, hr => exact ihk (.error e) hr.2 hr.1

theorem wp_andThen {c : O.Prog β} {f : Except O.Exn β → O.Prog α}
    (h : wp C t c (fun r w' => wp C t (f r) Q w') w) : wp C t (c.andThen f) Q w := by
  induction c generalizing w with
  | done r => exact h
  | op o k ih =>
      cases o with
      | get => exact ih _ h
      | member g => exact fun he => ⟨(h he).1, ih _ (h he).2⟩
      | io o =>
          by_cases hs : O.suspends o = true
          · simp only [wp, Coro.op_andThen, if_pos hs] at h ⊢
            exact ⟨h.1, fun w₁ hl r he => ⟨(h.2 w₁ hl r he).1, ih _ (h.2 w₁ hl r he).2⟩⟩
          · simp only [wp, Coro.op_andThen, if_neg hs] at h ⊢
            exact fun r he => ⟨(h r he).1, ih _ (h r he).2⟩
      | spawn u => exact fun he => ⟨(h he).1, (h he).2.1, fun w₁ hl => ih _ ((h he).2.2 w₁ hl)⟩
  | iter body b k _ ihk =>
      obtain ⟨Inv, hb, hbody⟩ := h
      refine ⟨Inv, hb, fun b' w' hw' => wp_mono (hbody b' w' hw') ?_⟩
      intro r w'' hr
      match r, hr with
      | .ok (.inl _), hr => exact hr
      | .ok (.inr c), hr => exact ihk (.ok c) hr
      | .error e, hr => exact ihk (.error e) hr

/-- `co_await` on a coroutine. -/
theorem wp_bind {c : O.Prog β} {f : β → O.Prog α}
    (h : wp C t c (fun
      | .ok b, w' => wp C t (f b) Q w'
      | .error e, w' => Q (.error e) w') w) : wp C t (c >>= f) Q w := by
  rw [Coro.bind_eq]
  refine wp_andThen (wp_mono h ?_)
  intro r w' hr
  match r, hr with
  | .ok _, hr => exact hr
  | .error _, hr => exact hr

/-- `co_await` on a coroutine known by its postcondition. -/
theorem wp_seq {c : O.Prog β} {f : β → O.Prog α} {R : Except O.Exn β → World O → Prop}
    (hc : wp C t c R w) (hok : ∀ b w', R (.ok b) w' → wp C t (f b) Q w')
    (herror : ∀ e w', R (.error e) w' → Q (.error e) w') : wp C t (c >>= f) Q w := by
  refine wp_bind (wp_mono hc ?_)
  intro r w' hr
  cases r with
  | ok b => exact hok b w' hr
  | error e => exact herror e w' hr

/-- `co_await` on a coroutine that does not throw. -/
theorem wp_then {c : O.Prog β} {f : β → O.Prog α} {R : β → World O → Prop}
    (hc : wp C t c (Returns R) w) (hok : ∀ b w', R b w' → wp C t (f b) Q w') :
    wp C t (c >>= f) Q w :=
  wp_seq hc hok fun _ _ h => h.elim

theorem wp_returns {c : O.Prog α} {R : α → World O → Prop} (hc : wp C t c (Returns R) w)
    (h : ∀ a w', R a w' → Q (.ok a) w') : wp C t c Q w := by
  refine wp_mono hc ?_
  intro r w' hr
  cases r with
  | ok a => exact h a w' hr
  | error e => exact hr.elim

theorem wp_returns_env {c : O.Prog α} {R : α → World O → Prop} (hw : C.env w.trace)
    (hc : wp C t c (Returns R) w) : wp C t c (Returns fun a w' => R a w' ∧ C.env w'.trace) w := by
  refine wp_mono (wp_env hw hc) ?_
  intro r w' hr
  cases r with
  | ok a => exact hr
  | error e => exact hr.1

theorem wp_tryCatch {c : O.Prog α} {f : O.Exn → O.Prog α}
    (h : wp C t c (fun
      | .ok a, w' => Q (.ok a) w'
      | .error e, w' => wp C t (f e) Q w') w) :
    wp C t (Coro.tryCatch (S := O.sig) c f) Q w := by
  refine wp_andThen (wp_mono h ?_)
  intro r w' hr
  match r, hr with
  | .ok _, hr => exact hr
  | .error _, hr => exact hr

theorem wp_get_seq {f : O.Mem → O.Prog α} (h : wp C t (f w.mem) Q w) :
    wp C t (Prog.get >>= f) Q w := h

theorem wp_pure_seq {b : β} {f : β → O.Prog α} (h : wp C t (f b) Q w) :
    wp C t (pure b >>= f) Q w := h

/-- A member function, where what is allowed of single changes matters. -/
theorem wp_member_ok {f : O.Mem → O.Mem × List O.Sys} {Q : Except O.Exn Unit → World O → Prop}
    (h : C.Ok w (w.call f) → C.guar t w (w.call f) ∧ Q (.ok ()) (w.call f)) :
    wp C t (Prog.member f) Q w := h

theorem wp_member {f : O.Mem → O.Mem × List O.Sys} {Q : Except O.Exn Unit → World O → Prop}
    (h : C.env (w.call f).trace → C.guar t w (w.call f) ∧ Q (.ok ()) (w.call f)) :
    wp C t (Prog.member f) Q w := wp_member_ok fun hok => h hok.1

theorem wp_update {f : O.Mem → α × O.Mem}
    (h : C.env (w.call fun s => ((f s).2, [])).trace →
      C.guar t w (w.call fun s => ((f s).2, [])) ∧
        Q (.ok (f w.mem).1) (w.call fun s => ((f s).2, []))) :
    wp C t (Prog.update f) Q w :=
  wp_get_seq (wp_bind (wp_member h))

theorem wp_member_seq {f : O.Mem → O.Mem × List O.Sys} {g : Unit → O.Prog α}
    (h : C.env (w.call f).trace → C.guar t w (w.call f) ∧ wp C t (g ()) Q (w.call f)) :
    wp C t (Prog.member f >>= g) Q w := wp_bind (wp_member h)

theorem wp_update_seq {f : O.Mem → β × O.Mem} {g : β → O.Prog α}
    (h : C.env (w.call fun s => ((f s).2, [])).trace →
      C.guar t w (w.call fun s => ((f s).2, [])) ∧
        wp C t (g (f w.mem).1) Q (w.call fun s => ((f s).2, []))) :
    wp C t (Prog.update f >>= g) Q w := wp_bind (wp_update h)

/-- An operation that may suspend, where what is allowed of single changes matters. -/
theorem wp_await_ok {o : O.Io.Op} {Q : Except O.Exn (O.Io.Res o) → World O → Prop}
    (hs : O.suspends o = true) (hp : C.parked t o w)
    (h : ∀ w₁, C.Later t w w₁ → ∀ r, C.Ok w₁ (w₁.answer o r) →
      C.guar t w₁ (w₁.answer o r) ∧ Q (.ok r) (w₁.answer o r)) :
    wp C t (Prog.io o) Q w := by
  simp only [Prog.io, Coro.await, wp, if_pos hs]
  exact ⟨hp, h⟩

/-- An operation that may suspend. -/
theorem wp_await {o : O.Io.Op} {Q : Except O.Exn (O.Io.Res o) → World O → Prop}
    (hs : O.suspends o = true) (hp : C.parked t o w)
    (h : ∀ w₁, C.Later t w w₁ → ∀ r, C.env (w₁.answer o r).trace →
      C.guar t w₁ (w₁.answer o r) ∧ Q (.ok r) (w₁.answer o r)) :
    wp C t (Prog.io o) Q w :=
  wp_await_ok hs hp fun w₁ hl r hok => h w₁ hl r hok.1

/-- An operation answered on the spot, where what is allowed of single changes matters. -/
theorem wp_call_ok {o : O.Io.Op} {Q : Except O.Exn (O.Io.Res o) → World O → Prop}
    (hs : O.suspends o = false)
    (h : ∀ r, C.Ok w (w.answer o r) → C.guar t w (w.answer o r) ∧ Q (.ok r) (w.answer o r)) :
    wp C t (Prog.io o) Q w := by
  simp only [Prog.io, Coro.await, wp, hs, Bool.false_eq_true, if_false]
  exact h

/-- An operation answered on the spot. -/
theorem wp_call {o : O.Io.Op} {Q : Except O.Exn (O.Io.Res o) → World O → Prop}
    (hs : O.suspends o = false)
    (h : ∀ r, C.env (w.answer o r).trace →
      C.guar t w (w.answer o r) ∧ Q (.ok r) (w.answer o r)) :
    wp C t (Prog.io o) Q w :=
  wp_call_ok hs fun r hok => h r hok.1

theorem wp_spawn {u : O.Task} {Q : Except O.Exn Unit → World O → Prop}
    (h : C.env (w.start u).trace → C.guar t w (w.start u) ∧ C.pre u (w.start u) ∧
      ∀ w₁, C.Later t (w.start u) w₁ → Q (.ok ()) w₁) :
    wp C t (Prog.spawn u) Q w := fun hok => h hok.1

/-- The rule of `while`: `Inv` holds before every round. -/
theorem wp_loop {body : β → O.Prog (β ⊕ α)} {b : β} (Inv : β → World O → Prop) (hb : Inv b w)
    (hbody : ∀ b w, Inv b w → wp C t (body b) (fun
      | .ok (.inl b'), w' => Inv b' w'
      | .ok (.inr a), w' => Q (.ok a) w'
      | .error e, w' => Q (.error e) w') w) :
    wp C t (Coro.loop (S := O.sig) b body) Q w := by
  refine ⟨Inv, hb, fun b' w' hw' => wp_mono (hbody b' w' hw') ?_⟩
  intro r w'' hr
  match r, hr with
  | .ok (.inl _), hr => exact hr
  | .ok (.inr _), hr => exact hr
  | .error _, hr => exact hr

/-- Opening a round of a loop keeps its precondition. -/
theorem wp_unroll {γ : Type} {body : β → O.Prog (β ⊕ γ)} {b : β}
    {k : Except O.Exn γ → O.Prog α} (h : wp C t (.iter (S := O.sig) body b k) Q w) :
    wp C t (Coro.unroll (S := O.sig) body b k) Q w := by
  obtain ⟨Inv, hb, hbody⟩ := h
  refine wp_andThen (wp_mono (hbody b w hb) ?_)
  intro r w' hr
  match r, hr with
  | .ok (.inl b'), hr => exact ⟨Inv, hr, hbody⟩
  | .ok (.inr _), hr => exact hr
  | .error _, hr => exact hr

/-- The answer of the awaited operation, if nobody did anything meanwhile. -/
theorem wp_answer {o : O.Io.Op} {k : O.Io.Res o → O.Prog α} {r : O.Io.Res o}
    (h : wp C t (.op (.io o) k) Q w) (hok : C.Ok w (w.answer o r)) :
    C.guar t w (w.answer o r) ∧ wp C t (k r) Q (w.answer o r) := by
  by_cases hs : O.suspends o = true
  · simp only [wp, if_pos hs] at h
    exact h.2 _ .refl r hok
  · simp only [wp, if_neg hs] at h
    exact h r hok

/-- A coroutine suspended on an operation does not notice what the others do. -/
theorem wp_later (hC : C.Stable) {o : O.Io.Op} {k : O.Io.Res o → O.Prog α}
    (hs : O.suspends o = true) (h : wp C t (.op (.io o) k) Q w) {w' : World O}
    (hl : C.Later t w w') : wp C t (.op (.io o) k) Q w' := by
  simp only [wp, if_pos hs] at h ⊢
  refine ⟨?_, fun w₁ hl₁ r he => h.2 w₁ (hl.trans hl₁) r he⟩
  induction hl with
  | refl => exact h.1
  | tail _ hr ih => exact hC.parked t o _ _ ih hr

/-! ## Soundness -/

/-- A coroutine that is not on the stack has ended or is suspended. -/
def Resting (c : O.Prog Unit) : Prop :=
  (∃ r, c = .done r) ∨
    ∃ (o : O.Io.Op) (k : O.Io.Res o → O.Prog Unit), c = .op (.io o) k ∧ O.suspends o = true

/-- Coroutine `t`, of which `c` is left, meets its contract: now if it is the running one, and
    after whatever the others do if it is not. -/
def Meets (C : Contract O) (p : Pool O) (t : O.Task) (c : O.Prog Unit) : Prop :=
  (p.stack.head? = some t → wp C t c (fun _ => C.post t) p.world) ∧
  (p.stack.head? ≠ some t → ∀ w, C.Later t p.world w → wp C t c (fun _ => C.post t) w)

/-- The invariant of a pool whose coroutines meet their contracts. -/
structure Sound (C : Contract O) (p : Pool O) : Prop where
  nodup : p.stack.Nodup
  started : ∀ t ∈ p.stack, p.frames t ≠ none
  meets : ∀ t c, p.frames t = some c → Meets C p t c
  resting : ∀ t c, p.frames t = some c → t ∉ p.stack → Resting c

theorem Meets.now {p : Pool O} {t : O.Task} {c : O.Prog Unit} (h : Meets C p t c) :
    wp C t c (fun _ => C.post t) p.world := by
  by_cases ht : p.stack.head? = some t
  · exact h.1 ht
  · exact h.2 ht _ .refl

/-- Instructions that need nobody else stay within the guarantee. -/
theorem internal_sound {c c' : O.Prog Unit} {w w' : World O}
    {Q : Except O.Exn Unit → World O → Prop} (hstep : internal c w = some (c', w'))
    (hok : C.Ok w w') (h : wp C t c Q w) :
    (w' = w ∨ C.guar t w w' ∧ C.Ok w w') ∧ wp C t c' Q w' := by
  match c, h with
  | .done r, h => simp [internal] at hstep
  | .op .get k, h =>
      simp only [internal, Option.some.injEq, Prod.mk.injEq] at hstep
      obtain ⟨rfl, rfl⟩ := hstep
      exact ⟨.inl rfl, h⟩
  | .op (.member f) k, h =>
      simp only [internal, Option.some.injEq, Prod.mk.injEq] at hstep
      obtain ⟨rfl, rfl⟩ := hstep
      exact ⟨.inr ⟨(h hok).1, hok⟩, (h hok).2⟩
  | .op (.io o) k, h => simp [internal] at hstep
  | .op (.spawn u) k, h => simp [internal] at hstep
  | .iter body b k, h =>
      simp only [internal, Option.some.injEq, Prod.mk.injEq] at hstep
      obtain ⟨rfl, rfl⟩ := hstep
      exact ⟨.inl rfl, wp_unroll h⟩

/-- A suspended coroutine keeps what it promised to leave true. -/
theorem Sound.parked {p : Pool O} (hp : Sound C p) {o : O.Io.Op} {k : O.Io.Res o → O.Prog Unit}
    (hframe : p.frames t = some (.op (.io o) k)) (hs : O.suspends o = true) :
    C.parked t o p.world := by
  have h := (hp.meets t _ hframe).now
  simp only [wp, if_pos hs] at h
  exact h.1

/-- So does one that has ended. -/
theorem Sound.post {p : Pool O} (hp : Sound C p) (ht : p.Finished t) : C.post t p.world := by
  obtain ⟨_, r, hframe⟩ := ht
  exact (hp.meets t _ hframe).now

/-- With the event loop in control, a coroutine that was started is suspended or has ended. -/
theorem Sound.suspended_or_finished {p : Pool O} (hp : Sound C p) (hstack : p.stack = [])
    (ht : p.frames t ≠ none) : p.Suspended t ∨ p.Finished t := by
  obtain ⟨c, hc⟩ := Option.ne_none_iff_exists'.1 ht
  have hnot : t ∉ p.stack := by simp [hstack]
  rcases hp.resting t c hc hnot with ⟨r, rfl⟩ | ⟨o, k, rfl, hs⟩
  · exact .inr ⟨hnot, r, hc⟩
  · exact .inl ⟨hnot, o, k, hc, hs⟩

theorem internal_trace_prefix {c c' : O.Prog Unit} {w w' : World O}
    (hstep : internal c w = some (c', w')) : w.trace <+: w'.trace := by
  match c with
  | .done r => simp [internal] at hstep
  | .op .get k =>
      simp only [internal, Option.some.injEq, Prod.mk.injEq] at hstep
      exact hstep.2 ▸ List.prefix_rfl
  | .op (.member f) k =>
      simp only [internal, Option.some.injEq, Prod.mk.injEq] at hstep
      exact hstep.2 ▸ List.prefix_append _ _
  | .op (.io o) k => simp [internal] at hstep
  | .op (.spawn u) k => simp [internal] at hstep
  | .iter body b k =>
      simp only [internal, Option.some.injEq, Prod.mk.injEq] at hstep
      exact hstep.2 ▸ List.prefix_rfl

section Soundness

variable [DecidableEq O.Task]

/-- The running coroutine `t` went from `c` to `c'` and changed the world within its guarantee. -/
theorem Sound.advance {p : Pool O} {t : O.Task} {rest : List O.Task} {c' : O.Prog Unit}
    {w' : World O} (hp : Sound C p) (hstack : p.stack = t :: rest)
    (hw : w' = p.world ∨ C.guar t p.world w' ∧ C.Ok p.world w')
    (hc : wp C t c' (fun _ => C.post t) w') :
    Sound C { p.setFrame t c' with world := w' } := by
  have hlater : ∀ u, u ≠ t → ∀ w, C.Later u w' w → C.Later u p.world w := by
    intro u hu w hl
    rcases hw with rfl | ⟨hg, he⟩
    · exact hl
    · exact .head ⟨t, hu.symm, hg, he⟩ hl
  refine ⟨hp.nodup, ?_, ?_, ?_⟩
  · intro u hu
    by_cases hut : u = t
    · subst hut
      simp [Pool.setFrame]
    · simpa [Pool.setFrame, hut] using hp.started u hu
  · intro u c hu
    by_cases hut : u = t
    · subst hut
      obtain rfl : c' = c := by simpa [Pool.setFrame] using hu
      exact ⟨fun _ => hc, fun hne => absurd (by simp [Pool.setFrame, hstack]) hne⟩
    · have hu' : p.frames u = some c := by simpa [Pool.setFrame, hut] using hu
      have hhead : p.stack.head? ≠ some u := by simpa [hstack] using fun h => hut h.symm
      exact ⟨fun h => absurd h hhead, fun _ w hl => (hp.meets u c hu').2 hhead w (hlater u hut w hl)⟩
  · intro u c hu hnot
    by_cases hut : u = t
    · subst hut
      exact absurd (by simp [Pool.setFrame, hstack]) hnot
    · exact hp.resting u c (by simpa [Pool.setFrame, hut] using hu) hnot

/-- The running coroutine rests and the one below it goes on. -/
theorem Sound.pop {p : Pool O} {t : O.Task} {rest : List O.Task} {c : O.Prog Unit}
    (hp : Sound C p) (hstack : p.stack = t :: rest) (hframe : p.frames t = some c)
    (hrest : Resting c)
    (hlater : ∀ w, C.Later t p.world w → wp C t c (fun _ => C.post t) w) :
    Sound C { p with stack := rest } := by
  have hnodup := hp.nodup
  rw [hstack, List.nodup_cons] at hnodup
  refine ⟨hnodup.2, fun u hu => hp.started u (by simp [hstack, hu]), ?_, ?_⟩
  · intro u d hu
    by_cases hut : u = t
    · subst hut
      obtain rfl : c = d := Option.some.inj (hframe.symm.trans hu)
      exact ⟨fun _ => hlater _ .refl, fun _ => hlater⟩
    · have hhead : p.stack.head? ≠ some u := by simpa [hstack] using fun h => hut h.symm
      exact ⟨fun _ => (hp.meets u d hu).now, fun _ => (hp.meets u d hu).2 hhead⟩
  · intro u d hu hnot
    by_cases hut : u = t
    · subst hut
      exact Option.some.inj (hframe.symm.trans hu) ▸ hrest
    · exact hp.resting u d hu (by simp [hstack, hut]; exact hnot)

/-- **One step of the pool keeps every contract.** -/
theorem Sound.step {body : O.Task → O.Prog Unit} (hC : C.Stable)
    (hbody : ∀ t w, C.pre t w → C.env w.trace → wp C t (body t) (fun _ => C.post t) w)
    {p p' : Pool O} (hp : Sound C p) (hstep : Step body p p') (hok : C.Ok p.world p'.world) :
    Sound C p' := by
  cases hstep with
  | internal t rest c c' w' hstack hframe hstep =>
      obtain ⟨hw, hc⟩ := internal_sound hstep hok (hp.meets t c hframe).now
      exact hp.advance hstack hw hc
  | answer t rest o k r hstack hframe =>
      obtain ⟨hg, hk⟩ := wp_answer (hp.meets t _ hframe).now hok
      exact hp.advance hstack (.inr ⟨hg, hok⟩) hk
  | park t rest o k hstack hframe hsus =>
      refine hp.pop hstack hframe (.inr ⟨o, k, rfl, hsus⟩) fun w hl => ?_
      exact wp_later hC hsus (hp.meets t _ hframe).now hl
  | resume t o k r hstack hframe hsus =>
      obtain ⟨hg, hk⟩ := wp_answer (hp.meets t _ hframe).now hok
      -- resuming is running from a stack that holds `t` alone
      have hp₁ : Sound C { p with stack := [t] } := by
        refine ⟨by simp, by simp [hframe], ?_, ?_⟩
        · intro u d hu
          refine ⟨fun _ => (hp.meets u d hu).now, fun _ => (hp.meets u d hu).2 ?_⟩
          simp [hstack]
        · exact fun u d hu _ => hp.resting u d hu (by simp [hstack])
      exact Sound.advance hp₁ (show [t] = t :: [] from rfl) (.inr ⟨hg, hok⟩) hk
  | spawn t u rest k hstack hframe hfresh =>
      obtain ⟨hg, hpre, hk⟩ := (hp.meets t _ hframe).now hok
      have hut : u ≠ t := by
        rintro rfl
        simp [hframe] at hfresh
      have hu : u ∉ p.stack := fun h => hp.started u h hfresh
      refine ⟨?_, ?_, ?_, ?_⟩
      · simpa [Pool.setFrame] using ⟨hu, hp.nodup⟩
      · intro v hv
        by_cases hvu : v = u
        · subst hvu
          simp [Pool.setFrame]
        · by_cases hvt : v = t
          · subst hvt
            simp [Pool.setFrame, hvu]
          · simpa [Pool.setFrame, hvu, hvt] using hp.started v (by simpa [hvu] using hv)
      · intro v d hv
        by_cases hvu : v = u
        · subst hvu
          obtain rfl : body v = d := by simpa [Pool.setFrame] using hv
          exact ⟨fun _ => hbody v _ hpre hok.1, fun h => absurd (by simp) h⟩
        · refine ⟨fun h => absurd (by simpa using h.symm) hvu, fun _ w hl => ?_⟩
          by_cases hvt : v = t
          · subst hvt
            obtain rfl : k () = d := by simpa [Pool.setFrame, hvu] using hv
            exact hk w hl
          · have hv' : p.frames v = some d := by simpa [Pool.setFrame, hvu, hvt] using hv
            refine (hp.meets v d hv').2 ?_ w (.head ⟨t, Ne.symm hvt, hg, hok⟩ hl)
            simpa [hstack] using fun h => hvt h.symm
      · intro v d hv hnot
        by_cases hvu : v = u
        · exact absurd (by simp [hvu]) hnot
        · by_cases hvt : v = t
          · exact absurd (by simp [hvt, hstack]) hnot
          · refine hp.resting v d (by simpa [Pool.setFrame, hvu, hvt] using hv) fun h => hnot ?_
            simp [h]
  | finish t rest r hstack hframe =>
      refine hp.pop hstack hframe (.inl ⟨r, rfl⟩) fun w hl => ?_
      have h : C.post t p.world := (hp.meets t _ hframe).now
      induction hl with
      | refl => exact h
      | tail _ hr ih => exact hC.post t _ _ ih hr

/-- A step only ever extends the trace. -/
theorem Step.trace_prefix {body : O.Task → O.Prog Unit} {p p' : Pool O} (h : Step body p p') :
    p.world.trace <+: p'.world.trace := by
  cases h with
  | internal t rest c c' w' hstack hframe hstep => exact internal_trace_prefix hstep
  | answer t rest o k r hstack hframe => exact List.prefix_append _ _
  | park t rest o k hstack hframe hsus => exact List.prefix_rfl
  | resume t o k r hstack hframe hsus => exact List.prefix_append _ _
  | spawn t u rest k hstack hframe hfresh => exact List.prefix_append _ _
  | finish t rest r hstack hframe => exact List.prefix_rfl

/-- A step changes the world within the guarantee of the running coroutine, or of the one that is
    resumed, or not at all. -/
theorem Sound.step_by {body : O.Task → O.Prog Unit} {p p' : Pool O} (hp : Sound C p)
    (hstep : Step body p p') (hok : C.Ok p.world p'.world) :
    p'.world = p.world ∨
      ∃ t, (p.stack = [] ∨ ∃ rest, p.stack = t :: rest) ∧ C.guar t p.world p'.world := by
  cases hstep with
  | internal t rest c c' w' hstack hframe hstep =>
      rcases (internal_sound hstep hok (hp.meets t c hframe).now).1 with hw | hg
      · exact .inl hw
      · exact .inr ⟨t, .inr ⟨rest, hstack⟩, hg.1⟩
  | answer t rest o k r hstack hframe =>
      exact .inr ⟨t, .inr ⟨rest, hstack⟩, (wp_answer (hp.meets t _ hframe).now hok).1⟩
  | park t rest o k hstack hframe hsus => exact .inl rfl
  | resume t o k r hstack hframe hsus =>
      exact .inr ⟨t, .inl hstack, (wp_answer (hp.meets t _ hframe).now hok).1⟩
  | spawn t u rest k hstack hframe hfresh =>
      exact .inr ⟨t, .inr ⟨rest, hstack⟩, ((hp.meets t _ hframe).now hok).1⟩
  | finish t rest r hstack hframe => exact .inl rfl

/-- A step changes the world within somebody's guarantee, or not at all. -/
theorem Sound.step_world {body : O.Task → O.Prog Unit} {p p' : Pool O} (hp : Sound C p)
    (hstep : Step body p p') (hok : C.Ok p.world p'.world) :
    p'.world = p.world ∨ ∃ t, C.guar t p.world p'.world :=
  (hp.step_by hstep hok).imp_right fun ⟨t, _, hg⟩ => ⟨t, hg⟩

/-- **Soundness.** In every pool reached by changes a contract is about, every coroutine meets it. -/
theorem Contract.sound_in {body : O.Task → O.Prog Unit} {main : O.Task} {mem : O.Mem}
    (hC : C.Stable)
    (hbody : ∀ t w, C.pre t w → C.env w.trace → wp C t (body t) (fun _ => C.post t) w)
    (hpre : C.pre main ⟨mem, []⟩) (hinit : C.env []) {p : Pool O}
    (hp : ReachableIn C.Ok body main mem p) : Sound C p := by
  induction hp with
  | refl =>
      refine ⟨by simp [Pool.start], by simp [Pool.start], ?_, ?_⟩
      · intro t c ht
        by_cases htm : t = main
        · subst htm
          obtain rfl : body t = c := by simpa [Pool.start] using ht
          exact ⟨fun _ => hbody t _ hpre hinit, fun h => absurd (by simp [Pool.start]) h⟩
        · simp [Pool.start, htm] at ht
      · intro t c ht hnot
        have htm : t ≠ main := by simpa [Pool.start] using hnot
        simp [Pool.start, htm] at ht
  | tail _ hstep ih => exact Sound.step hC hbody ih hstep.1 hstep.2

/-- What every guarantee keeps holds of every world so reached. -/
theorem Contract.invariant_in {body : O.Task → O.Prog Unit} {main : O.Task} {mem : O.Mem}
    (hC : C.Stable)
    (hbody : ∀ t w, C.pre t w → C.env w.trace → wp C t (body t) (fun _ => C.post t) w)
    (hpre : C.pre main ⟨mem, []⟩) (hinit : C.env []) (Inv : World O → Prop) (hstart : Inv ⟨mem, []⟩)
    (hguar : ∀ t w w', C.guar t w w' → C.Ok w w' → Inv w → Inv w') {p : Pool O}
    (hp : ReachableIn C.Ok body main mem p) : Inv p.world := by
  induction hp with
  | refl => exact hstart
  | tail hreach hstep ih =>
      have hsound := C.sound_in hC hbody hpre hinit hreach
      rcases hsound.step_world hstep.1 hstep.2 with hw | ⟨t, hg⟩
      · exact hw ▸ ih
      · exact hguar t _ _ hg hstep.2 ih

/-- What the outside promised of the last trace it promised of all before. -/
theorem reachableIn_of_env {body : O.Task → O.Prog Unit} {main : O.Task} {mem : O.Mem}
    (hC : C.Stable) (hall : ∀ w w', C.allowed w w') {p : Pool O} (hp : Reachable body main mem p)
    (henv : C.env p.world.trace) : ReachableIn C.Ok body main mem p := by
  induction hp with
  | refl => exact .refl
  | tail _ hstep ih =>
      obtain ⟨tr, htr⟩ := hstep.trace_prefix
      exact .tail (ih (hC.env_prefix _ tr (htr.symm ▸ henv))) ⟨hstep, henv, hall _ _⟩

/-- **Soundness**, for a contract that says nothing about single changes: in every reachable pool
    whose trace is one the outside promised. -/
theorem Contract.sound {body : O.Task → O.Prog Unit} {main : O.Task} {mem : O.Mem}
    (hC : C.Stable)
    (hbody : ∀ t w, C.pre t w → C.env w.trace → wp C t (body t) (fun _ => C.post t) w)
    (hpre : C.pre main ⟨mem, []⟩) {p : Pool O} (hp : Reachable body main mem p)
    (henv : C.env p.world.trace) (hall : ∀ w w', C.allowed w w' := by exact fun _ _ => trivial) :
    Sound C p :=
  C.sound_in hC hbody hpre (hC.env_prefix [] _ henv) (reachableIn_of_env hC hall hp henv)

/-- The coroutines that were started are the first one and those the trace names. -/
theorem frames_ne_none_iff {body : O.Task → O.Prog Unit} {main : O.Task} {mem : O.Mem} {p : Pool O}
    (hp : Reachable body main mem p) (t : O.Task) :
    p.frames t ≠ none ↔ t = main ∨ Event.spawned t ∈ p.world.trace := by
  -- replacing what is left of a coroutine that was started starts none
  have hset : ∀ {p : Pool O} {u : O.Task} {c : O.Prog Unit}, p.frames u = some c →
      ∀ d, (p.setFrame u d).frames t ≠ none ↔ p.frames t ≠ none := by
    intro p u c hu d
    by_cases htu : t = u
    · subst htu
      simp [Pool.setFrame, hu]
    · simp [Pool.setFrame, htu]
  induction hp with
  | refl =>
      by_cases htm : t = main
      · simp [Pool.start, htm]
      · simp [Pool.start, htm]
  | tail _ hstep ih =>
      cases hstep with
      | internal u rest c c' w' hstack hframe hstep =>
          refine (hset hframe c').trans (ih.trans (or_congr_right ?_))
          match c with
          | .done r => simp [internal] at hstep
          | .op .get k =>
              simp only [internal, Option.some.injEq, Prod.mk.injEq] at hstep
              rw [← hstep.2]
          | .op (.member f) k =>
              simp only [internal, Option.some.injEq, Prod.mk.injEq] at hstep
              simp [← hstep.2]
          | .op (.io o) k => simp [internal] at hstep
          | .op (.spawn u) k => simp [internal] at hstep
          | .iter body b k =>
              simp only [internal, Option.some.injEq, Prod.mk.injEq] at hstep
              rw [← hstep.2]
      | answer u rest o k r hstack hframe =>
          exact (hset hframe (k r)).trans (ih.trans (by simp))
      | park u rest o k hstack hframe hsus => exact ih
      | resume u o k r hstack hframe hsus =>
          exact (hset hframe (k r)).trans (ih.trans (by simp))
      | spawn u v rest k hstack hframe hfresh =>
          by_cases htv : t = v
          · subst htv
            simp [Pool.setFrame]
          · have h := (hset hframe (k ())).trans ih
            simpa [Pool.setFrame, htv] using h
      | finish u rest r hstack hframe => exact ih

/-- Nobody starts the first coroutine again, so nothing is below it. -/
theorem stack_of_main {body : O.Task → O.Prog Unit} {main : O.Task} {mem : O.Mem} {p : Pool O}
    (hp : Reachable body main mem p) :
    ∀ above below : List O.Task, p.stack = above ++ main :: below → below = [] := by
  induction hp with
  | refl =>
      intro above below h
      cases above with
      | nil => exact (List.cons.inj h).2.symm
      | cons t above => simp [Pool.start] at h
  | tail hreach hstep ih =>
      cases hstep with
      | internal t rest c c' w' hstack hframe hstep => exact ih
      | answer t rest o k r hstack hframe => exact ih
      | park t rest o k hstack hframe hsus =>
          exact fun above below h => ih (t :: above) below (hstack.trans (congrArg (t :: ·) h))
      | resume t o k r hstack hframe hsus =>
          intro above below h
          cases above with
          | nil => exact (List.cons.inj h).2.symm
          | cons u above => simp at h
      | spawn t u rest k hstack hframe hfresh =>
          intro above below h
          cases above with
          | nil =>
              obtain rfl : u = main := (List.cons.inj h).1
              exact absurd hfresh ((frames_ne_none_iff hreach u).2 (.inl rfl))
          | cons v above => exact ih above below (List.cons.inj h).2
      | finish t rest r hstack hframe =>
          exact fun above below h => ih (t :: above) below (hstack.trans (congrArg (t :: ·) h))

/-- What no coroutine can tell of its own steps may follow from what those that are not running have left
    true. -/
theorem Contract.reachableIn_and {body : O.Task → O.Prog Unit} {main : O.Task} {mem : O.Mem}
    (hC : C.Stable)
    (hbody : ∀ t w, C.pre t w → C.env w.trace → wp C t (body t) (fun _ => C.post t) w)
    (hpre : C.pre main ⟨mem, []⟩) (hinit : C.env []) {ok : World O → World O → Prop}
    (hok : ∀ p p', Reachable body main mem p → Sound C p → Step body p p' →
      C.Ok p.world p'.world → ok p.world p'.world) {p : Pool O}
    (hp : ReachableIn C.Ok body main mem p) :
    ReachableIn (fun w w' => C.Ok w w' ∧ ok w w') body main mem p := by
  induction hp with
  | refl => exact .refl
  | tail hreach hstep ih =>
      have hsound := C.sound_in hC hbody hpre hinit hreach
      exact .tail ih ⟨hstep.1, hstep.2, hok _ _ (ReachableIn.reachable hreach) hsound hstep.1 hstep.2⟩

/-- What every guarantee keeps holds of every reachable world. -/
theorem Contract.invariant {body : O.Task → O.Prog Unit} {main : O.Task} {mem : O.Mem}
    (hC : C.Stable)
    (hbody : ∀ t w, C.pre t w → C.env w.trace → wp C t (body t) (fun _ => C.post t) w)
    (hpre : C.pre main ⟨mem, []⟩) (Inv : World O → Prop) (hstart : Inv ⟨mem, []⟩)
    (hguar : ∀ t w w', C.guar t w w' → C.env w'.trace → Inv w → Inv w') {p : Pool O}
    (hp : Reachable body main mem p) (henv : C.env p.world.trace)
    (hall : ∀ w w', C.allowed w w' := by exact fun _ _ => trivial) : Inv p.world :=
  C.invariant_in hC hbody hpre (hC.env_prefix [] _ henv) Inv hstart
    (fun t w w' hg hok => hguar t w w' hg hok.1) (reachableIn_of_env hC hall hp henv)

end Soundness

end Coroutine
