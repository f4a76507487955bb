import Cppvless.Coroutine.Tracked

set_option autoImplicit false

/-! # Code that does not look around

Code that reads no members and starts no coroutine depends on nothing but the answers to its own
operations. What holds of it in a world of its own, where nobody else moves and no table is kept, then
holds of it among others, as long as the two worlds stay related (`Views`): what the others do and
the entries in the table must not be seen from its own world, and a step that is within its own
contract must be within the contract it has among the others. -/

namespace Coroutine

open Relation

variable {O : Object} {S : Type}

/-- `R w v` says that `v`, where `t` runs among others under `C`, looks like `w`, where it runs under
    `C₀`. -/
structure Views (T : Tracking O S) (C₀ C : Contract O) (t : O.Task) (P : ObjOp O → Prop)
    (R : World O → World O → Prop) : Prop where
  rely : ∀ w v v', R w v → C.rely t v v' → R w v'
  parked : ∀ o w v, P (.io o) → R w v → C.parked t o v
  entry : ∀ (f : O.Mem → O.Mem) (s : S) w v, f = T.arm s ∨ f = T.disarm s → R w v →
    C.guar t v (v.call fun m => (f m, [])) ∧ R w (v.call fun m => (f m, []))
  member : ∀ f w v, P (.member f) → R w v → C.Ok v (v.call f) → C₀.Ok w (w.call f) ∧
    (C₀.guar t w (w.call f) → C.guar t v (v.call f) ∧ R (w.call f) (v.call f))
  io : ∀ o r w v, P (.io o) → R w v → C.Ok v (v.answer o r) → C₀.Ok w (w.answer o r) ∧
    (C₀.guar t w (w.answer o r) → C.guar t v (v.answer o r) ∧ R (w.answer o r) (v.answer o r))
  get : ¬ P .get
  spawn : ∀ u, ¬ P (.spawn u)

variable {T : Tracking O S} {C₀ C : Contract O} {t : O.Task} {P : ObjOp O → Prop}
  {R : World O → World O → Prop} {α : Type} {w v v' : World O}

theorem Views.later (h : Views T C₀ C t P R) (hR : R w v) (hl : C.Later t v v') : R w v' := by
  induction hl with
  | refl => exact hR
  | tail _ hr ih => exact h.rely _ _ _ ih hr

/-- The answer to an operation, in both worlds. -/
theorem Views.answer (h : Views T C₀ C t P R) {o : O.Io.Op} {k : O.Io.Res o → O.Prog α}
    {Q : Except O.Exn α → World O → Prop} (ho : P (.io o)) (hwp : wp C₀ t (.op (.io o) k) Q w)
    (hR : R w v) {r : O.Io.Res o} (hok : C.Ok v (v.answer o r)) :
    (C.guar t v (v.answer o r) ∧ R (w.answer o r) (v.answer o r)) ∧
      wp C₀ t (k r) Q (w.answer o r) := by
  obtain ⟨hok₀, hstep⟩ := h.io o r w v ho hR hok
  obtain ⟨hguar, hk⟩ := wp_answer hwp hok₀
  exact ⟨hstep hguar, hk⟩

/-- An operation with its entry and its removal. -/
theorem Views.wp_io (h : Views T C₀ C t P R) {o : O.Io.Op} {k : O.Io.Res o → O.Prog α}
    {Q : Except O.Exn α → World O → Prop} (ho : P (.io o)) (hwp : wp C₀ t (.op (.io o) k) Q w)
    (hR : R w v) :
    wp C t (T.tracked (Prog.io o))
      (Returns fun r v' => ∃ w', R w' v' ∧ wp C₀ t (k r) Q w') v := by
  have hawait : ∀ v, R w v → wp C t (Prog.io o)
      (Returns fun r v' => ∃ w', R w' v' ∧ wp C₀ t (k r) Q w') v := by
    intro v hR
    by_cases hs : O.suspends o = true
    · refine wp_await_ok hs (h.parked o w v ho hR) fun v₁ hl r hok => ?_
      obtain ⟨⟨hguar, hR'⟩, hk⟩ := h.answer ho hwp (h.later hR hl) hok
      exact ⟨hguar, _, hR', hk⟩
    · refine wp_call_ok (by simpa using hs) fun r hok => ?_
      obtain ⟨⟨hguar, hR'⟩, hk⟩ := h.answer ho hwp hR hok
      exact ⟨hguar, _, hR', hk⟩
  cases hslot : T.slot o with
  | none => exact T.wp_untracked hslot (hawait v hR)
  | some s =>
      refine Tracking.wp_tracked hslot fun _ => ?_
      obtain ⟨hguar, hR'⟩ := h.entry (T.arm s) s w v (.inl rfl) hR
      refine ⟨hguar, wp_mono (hawait _ hR') ?_⟩
      intro r v₁ hr
      cases r with
      | error e => exact hr
      | ok r =>
          obtain ⟨w', hR₁, hk⟩ := hr
          intro _
          obtain ⟨hguar', hR₂⟩ := h.entry (T.disarm s) s w' v₁ (.inr rfl) hR₁
          exact ⟨hguar', w', hR₂, hk⟩

/-- **What holds of such code on its own holds of it among others.** -/
theorem Views.wp_tracked (h : Views T C₀ C t P R) {c : O.Prog α}
    (hc : Coro.Uses (S := O.sig) P c) {Q : Except O.Exn α → World O → Prop}
    (hwp : wp C₀ t c Q w) (hR : R w v) :
    wp C t (T.tracked c) (fun r v' => ∃ w', R w' v' ∧ Q r w') v := by
  induction c generalizing w v with
  | done r => exact ⟨w, hR, hwp⟩
  | op o k ih =>
      cases o with
      | get => exact absurd hc.1 h.get
      | spawn u => exact absurd hc.1 (h.spawn u)
      | member f =>
          intro hok
          obtain ⟨hok₀, hstep⟩ := h.member f w v hc.1 hR hok
          obtain ⟨hguar, hk⟩ := hwp hok₀
          obtain ⟨hguar', hR'⟩ := hstep hguar
          exact ⟨hguar', ih _ (hc.2 _) hk hR'⟩
      | io o =>
          have hprog : T.tracked (.op (.io o) k) = T.tracked (Prog.io o) >>= fun a => T.tracked (k a) :=
            T.tracked_bind (Prog.io o) k
          rw [hprog]
          refine wp_then (h.wp_io hc.1 hwp hR) ?_
          rintro a v' ⟨w', hR', hk⟩
          exact ih a (hc.2 a) hk hR'
  | iter body b k ihb ihk =>
      obtain ⟨Inv, hb, hbody⟩ := hwp
      refine ⟨fun b v => ∃ w, R w v ∧ Inv b w, ⟨w, hR, hb⟩, ?_⟩
      rintro b' v' ⟨w', hR', hb'⟩
      refine wp_mono (ihb b' (hc.1 b') (hbody b' w' hb') hR') ?_
      rintro r v'' ⟨w'', hR'', hr⟩
      match r with
      | .ok (.inl _) => exact ⟨w'', hR'', hr⟩
      | .ok (.inr c) => exact ihk (.ok c) (hc.2 _) hr hR''
      | .error e => exact ihk (.error e) (hc.2 _) hr hR''

end Coroutine
