import Cppvless.Coroutine.Uses

set_option autoImplicit false

/-! # Operations in a table

An object may keep a table of its operations in flight: an operation is entered when its coroutine
awaits it and removed when its answer arrives. `Tracking.tracked` is code with these entries written
out, so that other code of the object can strike an entry out of the table. -/

namespace Coroutine

/-- The place of an operation in the table, and how places are filled and emptied. -/
structure Tracking (O : Object) (S : Type) where
  slot : O.Io.Op → Option S
  arm : S → O.Mem → O.Mem
  disarm : S → O.Mem → O.Mem

namespace Tracking

variable {O : Object} {S : Type} (T : Tracking O S) {α β γ : Type}

/-- `c` with the table kept. -/
def tracked : {α : Type} → O.Prog α → O.Prog α
  | _, .done r => .done r
  | _, .op .get k => .op .get fun s => tracked (k s)
  | _, .op (.member f) k => .op (.member f) fun a => tracked (k a)
  | _, .op (.spawn t) k => .op (.spawn t) fun a => tracked (k a)
  | _, .op (.io o) k =>
      match T.slot o with
      | none => .op (.io o) fun a => tracked (k a)
      | some s =>
          .op (.member fun m => (T.arm s m, [])) fun _ =>
            .op (.io o) fun a => .op (.member fun m => (T.disarm s m, [])) fun _ => tracked (k a)
  | _, .iter body b k => .iter (fun b => tracked (body b)) b fun r => tracked (k r)

theorem tracked_andThen (c : O.Prog α) (f : Except O.Exn α → O.Prog β) :
    T.tracked (c.andThen f) = (T.tracked c).andThen fun r => T.tracked (f r) := by
  induction c with
  | done r => rfl
  | op o k ih =>
      cases o with
      | get => exact congrArg _ (funext fun s => ih s f)
      | member g => exact congrArg _ (funext fun s => ih s f)
      | spawn t => exact congrArg _ (funext fun s => ih s f)
      | io o =>
          simp only [Coro.op_andThen, tracked]
          cases T.slot o with
          | none => exact congrArg _ (funext fun a => ih a f)
          | some s =>
              simp only [Coro.op_andThen]
              congr 1
              funext _
              congr 1
              funext a
              exact congrArg _ (funext fun _ => ih a f)
  | iter body b k _ ihk =>
      simp only [Coro.andThen, tracked]
      exact congrArg _ (funext fun r => ihk r f)

theorem tracked_bind (c : O.Prog α) (f : α → O.Prog β) :
    T.tracked (c >>= f) = T.tracked c >>= fun a => T.tracked (f a) := by
  rw [Coro.bind_eq, tracked_andThen, Coro.bind_eq]
  congr 1
  funext r
  cases r with
  | ok a => rfl
  | error e => rfl

theorem tracked_loop (b : β) (body : β → O.Prog (β ⊕ γ)) :
    T.tracked (Coro.loop (S := O.sig) b body) = Coro.loop (S := O.sig) b fun b => T.tracked (body b) := rfl

/-- The entries are the only operations that tracking adds. -/
theorem uses_tracked {P P' : ObjOp O → Prop} {c : O.Prog α} (hc : Coro.Uses (S := O.sig) P c)
    (hP : ∀ o, P o → P' o)
    (harm : ∀ o s, P (.io o) → T.slot o = some s →
      P' (.member fun m => (T.arm s m, [])) ∧ P' (.member fun m => (T.disarm s m, []))) :
    Coro.Uses (S := O.sig) P' (T.tracked c) := by
  induction c with
  | done r => trivial
  | op o k ih =>
      cases o with
      | get => exact ⟨hP _ hc.1, fun a => ih a (hc.2 a)⟩
      | member f => exact ⟨hP _ hc.1, fun a => ih a (hc.2 a)⟩
      | spawn t => exact ⟨hP _ hc.1, fun a => ih a (hc.2 a)⟩
      | io o =>
          simp only [tracked]
          cases hs : T.slot o with
          | none => exact ⟨hP _ hc.1, fun a => ih a (hc.2 a)⟩
          | some s =>
              obtain ⟨ha, hd⟩ := harm o s hc.1 hs
              exact ⟨ha, fun _ => ⟨hP _ hc.1, fun a => ⟨hd, fun _ => ih a (hc.2 a)⟩⟩⟩
  | iter body b k ihb ihk => exact ⟨fun b' => ihb b' (hc.1 b'), fun r => ihk r (hc.2 r)⟩

section Wp

variable {T} {C : Contract O} {t : O.Task} {w : World O} {o : O.Io.Op}
  {Q : Except O.Exn (O.Io.Res o) → World O → Prop}

/-- An operation that has no place in the table. -/
theorem wp_untracked (hslot : T.slot o = none) (h : wp C t (Prog.io o) Q w) :
    wp C t (T.tracked (Prog.io o)) Q w := by
  have hsame : T.tracked (Prog.io o) = Prog.io o := by
    simp only [Prog.io, Coro.await, tracked, hslot]
  rw [hsame]
  exact h

theorem wp_tracked_pure {α : Type} {a : α} {Q : Except O.Exn α → World O → Prop} (h : Q (.ok a) w) :
    wp C t (T.tracked (pure a)) Q w := h

theorem wp_tracked_get {α : Type} {f : O.Mem → O.Prog α} {Q : Except O.Exn α → World O → Prop}
    (h : wp C t (T.tracked (f w.mem)) Q w) : wp C t (T.tracked (Prog.get >>= f)) Q w := h

/-- An operation in the place `s`: entered, awaited, removed. -/
theorem wp_tracked {s : S} (hslot : T.slot o = some s)
    (h : C.Ok w (w.call fun m => (T.arm s m, [])) →
      C.guar t w (w.call fun m => (T.arm s m, [])) ∧
        wp C t (Prog.io o) (Returns fun r w' => C.Ok w' (w'.call fun m => (T.disarm s m, [])) →
          C.guar t w' (w'.call fun m => (T.disarm s m, [])) ∧
            Q (.ok r) (w'.call fun m => (T.disarm s m, []))) (w.call fun m => (T.arm s m, []))) :
    wp C t (T.tracked (Prog.io o)) Q w := by
  have hprog : T.tracked (Prog.io o) = (do
      Prog.member fun m => (T.arm s m, [])
      let r ← Prog.io o
      Prog.member fun m => (T.disarm s m, [])
      return r) := by
    simp only [Prog.io, Coro.await, tracked, hslot]
    rfl
  rw [hprog]
  refine wp_bind (wp_member_ok fun hok => ⟨(h hok).1, ?_⟩)
  refine wp_then (h hok).2 ?_
  intro r w' hr
  exact wp_bind (wp_member_ok hr)

end Wp

/-! ## The frame rule -/

variable {C : Contract O} {t : O.Task}

/-- What coroutine `t` needs of `F` and of the operations of kind `P` to keep `F` throughout, an awaited
    operation taken together with its entry and its removal. -/
structure Brackets (C : Contract O) (t : O.Task) (P : ObjOp O → Prop) (F : World O → Prop) : Prop where
  member : ∀ f w, P (.member f) → F w → C.Ok w (w.call f) → C.guar t w (w.call f) ∧ F (w.call f)
  io : ∀ o w, P (.io o) → F w → wp C t (T.tracked (Prog.io o)) (Returns fun _ => F) w
  spawn : ∀ u, ¬ P (.spawn u)

/-- **Frame rule** for code with a table. -/
theorem wp_tracked_of_uses {P : ObjOp O → Prop} {F : World O → Prop} (h : T.Brackets C t P F)
    {c : O.Prog α} (hc : Coro.Uses (S := O.sig) P c) {w : World O} (hF : F w) :
    wp C t (T.tracked c) (fun _ => F) w := by
  induction c generalizing w with
  | done r => exact hF
  | op o k ih =>
      cases o with
      | get => exact ih _ (hc.2 _) hF
      | member f =>
          intro hok
          obtain ⟨hg, hF'⟩ := h.member f w hc.1 hF hok
          exact ⟨hg, ih _ (hc.2 _) hF'⟩
      | io o =>
          have hprog : T.tracked (.op (.io o) k) = T.tracked (Prog.io o) >>= fun a => T.tracked (k a) :=
            T.tracked_bind (Prog.io o) k
          rw [hprog]
          exact wp_then (h.io o w hc.1 hF) fun a w' hF' => ih a (hc.2 a) hF'
      | spawn u => exact absurd hc.1 (h.spawn u)
  | iter body b k ihb ihk =>
      refine ⟨fun _ => F, hF, fun b' w' hw' => wp_mono (ihb b' (hc.1 b') hw') ?_⟩
      intro r w'' hr
      match r with
      | .ok (.inl _) => exact hr
      | .ok (.inr c) => exact ihk (.ok c) (hc.2 _) hr
      | .error e => exact ihk (.error e) (hc.2 _) hr

end Tracking

end Coroutine
