import Cppvless.Coroutine.Logic

set_option autoImplicit false

/-! # Which operations a coroutine can come to

`Coro.Uses P c` says that every operation `c` can ever await satisfies `P`, whatever the answers.
It composes along the program text, and `wp_of_uses` is the frame rule it gives: a property of the
world that every operation of the kind `P` keeps, and that the other coroutines cannot falsify,
holds throughout. -/

namespace Coroutine

namespace Coro

variable {ε : Type} {S : Sig} {α β γ : Type} {P P' : S.Op → Prop}

/-- Every operation that `c` can come to satisfies `P`. -/
def Uses (P : S.Op → Prop) : {α : Type} → Coro ε S α → Prop
  | _, .done _ => True
  | _, .op o k => P o ∧ ∀ a, Uses P (k a)
  | _, .iter body _ k => (∀ b, Uses P (body b)) ∧ ∀ r, Uses P (k r)

@[simp] theorem uses_done (r : Except ε α) : Uses P (.done r : Coro ε S α) := trivial

@[simp] theorem uses_pure (a : α) : Uses P (pure a : Coro ε S α) := trivial

@[simp] theorem uses_throw (e : ε) : Uses P (throw e : Coro ε S α) := trivial

theorem Uses.andThen {c : Coro ε S α} {f : Except ε α → Coro ε S β} (hc : Uses P c)
    (hf : ∀ r, Uses P (f r)) : Uses P (c.andThen f) := by
  induction c with
  | done r => exact hf r
  | op o k ih => exact ⟨hc.1, fun a => ih a (hc.2 a) hf⟩
  | iter body b k _ ihk => exact ⟨hc.1, fun r => ihk r (hc.2 r) hf⟩

theorem Uses.bind {c : Coro ε S α} {f : α → Coro ε S β} (hc : Uses P c) (hf : ∀ a, Uses P (f a)) :
    Uses P (c >>= f) := by
  refine hc.andThen fun r => ?_
  cases r with
  | ok a => exact hf a
  | error e => trivial

theorem Uses.tryCatch {c : Coro ε S α} {h : ε → Coro ε S α} (hc : Uses P c)
    (hh : ∀ e, Uses P (h e)) : Uses P (c.tryCatch h) := by
  refine hc.andThen fun r => ?_
  cases r with
  | ok a => trivial
  | error e => exact hh e

theorem Uses.await {o : S.Op} (h : P o) : Uses P (Coro.await o : Coro ε S (S.Res o)) := ⟨h, fun _ => trivial⟩

theorem Uses.loop {b : β} {body : β → Coro ε S (β ⊕ γ)} (h : ∀ b, Uses P (body b)) :
    Uses P (Coro.loop b body) := ⟨h, fun _ => trivial⟩

theorem Uses.ite {p : Prop} [Decidable p] {c d : Coro ε S α} (hc : p → Uses P c)
    (hd : ¬ p → Uses P d) : Uses P (if p then c else d) := by
  split
  · next h => exact hc h
  · next h => exact hd h

theorem Uses.mono {c : Coro ε S α} (hc : Uses P c) (h : ∀ o, P o → P' o) : Uses P' c := by
  induction c with
  | done r => trivial
  | op o k ih => exact ⟨h o hc.1, fun a => ih a (hc.2 a)⟩
  | iter body b k ihb ihk => exact ⟨fun b => ihb b (hc.1 b), fun r => ihk r (hc.2 r)⟩

end Coro

variable {O : Object} {α : Type} {C : Contract O} {t : O.Task}

/-! ## Coroutines that start none -/

/-- An operation that starts no coroutine. -/
def StartsNone : ObjOp O → Prop
  | .spawn _ => False
  | _ => True

theorem Coro.Uses.internal {P : ObjOp O → Prop} {c c' : O.Prog Unit} {w w' : World O}
    (hc : Coro.Uses (S := O.sig) P c) (hstep : internal c w = some (c', w')) :
    Coro.Uses (S := O.sig) P c' := by
  cases c with
  | done r => simp [Coroutine.internal] at hstep
  | op o k =>
      cases o with
      | io o => simp [Coroutine.internal] at hstep
      | spawn u => simp [Coroutine.internal] at hstep
      | get =>
          simp only [Coroutine.internal, Option.some.injEq, Prod.mk.injEq] at hstep
          exact hstep.1 ▸ hc.2 _
      | member f =>
          simp only [Coroutine.internal, Option.some.injEq, Prod.mk.injEq] at hstep
          exact hstep.1 ▸ hc.2 _
  | iter body b k =>
      simp only [Coroutine.internal, Option.some.injEq, Prod.mk.injEq] at hstep
      refine hstep.1 ▸ (hc.1 b).andThen fun r => ?_
      rcases r with e | b' | c
      · exact hc.2 _
      · exact ⟨hc.1, hc.2⟩
      · exact hc.2 _

/-- **Nobody runs on top of a coroutine that starts none.** -/
theorem not_mem_tail_of_startsNone [DecidableEq O.Task] {body : O.Task → O.Prog Unit} {main : O.Task}
    {mem : O.Mem} (ht : Coro.Uses (S := O.sig) StartsNone (body t)) {p : Pool O}
    (hp : Reachable body main mem p) : t ∉ p.stack.tail := by
  -- what is left of it starts none either
  have hset : ∀ {p : Pool O} {u : O.Task} {c : O.Prog Unit},
      (∀ d, p.frames t = some d → Coro.Uses (S := O.sig) StartsNone d) →
      (u = t → Coro.Uses (S := O.sig) StartsNone c) →
      ∀ d, (p.setFrame u c).frames t = some d → Coro.Uses (S := O.sig) StartsNone d := by
    intro p u c hp hc d hd
    by_cases hut : t = u
    · subst hut
      obtain rfl : c = d := by simpa [Pool.setFrame] using hd
      exact hc rfl
    · exact hp d (by simpa [Pool.setFrame, hut] using hd)
  have hboth : (∀ d, p.frames t = some d → Coro.Uses (S := O.sig) StartsNone d) ∧ t ∉ p.stack.tail := by
    induction hp with
    | refl =>
        refine ⟨fun d hd => ?_, List.not_mem_nil⟩
        by_cases htm : t = main
        · subst htm
          obtain rfl : body t = d := by simpa [Pool.start] using hd
          exact ht
        · simp [Pool.start, htm] at hd
    | tail _ hstep ih =>
        obtain ⟨ihuses, ihtail⟩ := ih
        cases hstep with
        | internal u rest c c' w' hstack hframe hstep =>
            exact ⟨hset ihuses fun hu => (ihuses c (hu ▸ hframe)).internal hstep, ihtail⟩
        | answer u rest o k r hstack hframe =>
            exact ⟨hset ihuses fun hu => (ihuses (.op (.io o) k) (hu ▸ hframe)).2 r, ihtail⟩
        | park u rest o k hstack hframe hsus =>
            refine ⟨ihuses, fun hmem => ihtail ?_⟩
            rw [hstack]
            exact List.mem_of_mem_tail hmem
        | resume u o k r hstack hframe hsus =>
            exact ⟨hset ihuses fun hu => (ihuses (.op (.io o) k) (hu ▸ hframe)).2 r, List.not_mem_nil⟩
        | spawn u v rest k hstack hframe hfresh =>
            have hut : u ≠ t := fun hu => (ihuses (.op (.spawn v) k) (hu ▸ hframe)).1
            refine ⟨hset (hset ihuses fun hu => absurd hu hut) fun hv => hv ▸ ht, fun hmem => ihtail ?_⟩
            rw [hstack] at hmem ⊢
            exact (List.mem_cons.1 hmem).resolve_left (Ne.symm hut)
        | finish u rest r hstack hframe =>
            refine ⟨ihuses, fun hmem => ihtail ?_⟩
            rw [hstack]
            exact List.mem_of_mem_tail hmem
  exact hboth.2

/-! ## The frame rule -/

/-- What coroutine `t` needs of `F` and of the operations of kind `P` to keep `F` throughout. -/
structure Frame (C : Contract O) (t : O.Task) (P : ObjOp O → Prop) (F : World O → Prop) :
    Prop where
  rely : ∀ w w', F w → C.rely t w w' → F w'
  parked : ∀ o w, P (.io o) → O.suspends o = true → F w → C.parked t o w
  member : ∀ f w, P (.member f) → F w → C.env (w.call f).trace →
    C.guar t w (w.call f) ∧ F (w.call f)
  io : ∀ o r w, P (.io o) → F w → C.env (w.answer o r).trace →
    C.guar t w (w.answer o r) ∧ F (w.answer o r)
  spawn : ∀ u w, P (.spawn u) → F w → C.env (w.start u).trace →
    C.guar t w (w.start u) ∧ C.pre u (w.start u) ∧ F (w.start u)

theorem Frame.later {P : ObjOp O → Prop} {F : World O → Prop} (h : Frame C t P F) {w w' : World O}
    (hF : F w) (hl : C.Later t w w') : F w' := by
  induction hl with
  | refl => exact hF
  | tail _ hr ih => exact h.rely _ _ ih hr

/-- A frame for more operations is one for fewer. -/
theorem Frame.restrict {P P' : ObjOp O → Prop} {F : World O → Prop} (h : Frame C t P F)
    (hP : ∀ o, P' o → P o) : Frame C t P' F where
  rely := h.rely
  parked o w ho := h.parked o w (hP _ ho)
  member f w hf := h.member f w (hP _ hf)
  io o r w ho := h.io o r w (hP _ ho)
  spawn u w hu := h.spawn u w (hP _ hu)

/-- **Frame rule.** A coroutine that only comes to operations keeping `F` keeps `F`. -/
theorem wp_of_uses {P : ObjOp O → Prop} {F : World O → Prop} (h : Frame C t P F) {c : O.Prog α}
    (hc : Coro.Uses (S := O.sig) P c) {w : World O} (hF : F w) :
    wp C t c (fun _ => F) w := by
  induction c generalizing w with
  | done r => exact hF
  | op o k ih =>
      cases o with
      | get => exact ih _ (hc.2 _) hF
      | member f =>
          intro he
          obtain ⟨hg, hF'⟩ := h.member f w hc.1 hF he.1
          exact ⟨hg, ih _ (hc.2 _) hF'⟩
      | io o =>
          by_cases hs : O.suspends o = true
          · simp only [wp, if_pos hs]
            refine ⟨h.parked o w hc.1 hs hF, fun w₁ hl r he => ?_⟩
            obtain ⟨hg, hF'⟩ := h.io o r w₁ hc.1 (h.later hF hl) he.1
            exact ⟨hg, ih _ (hc.2 _) hF'⟩
          · simp only [wp, if_neg hs]
            intro r he
            obtain ⟨hg, hF'⟩ := h.io o r w hc.1 hF he.1
            exact ⟨hg, ih _ (hc.2 _) hF'⟩
      | spawn u =>
          intro he
          obtain ⟨hg, hpre, hF'⟩ := h.spawn u w hc.1 hF he.1
          exact ⟨hg, hpre, fun w₁ hl => ih _ (hc.2 _) (h.later hF' hl)⟩
  | iter body b k ihb ihk =>
      refine ⟨fun _ => F, hF, fun b' w' hw' => wp_mono (ihb b' (hc.1 b') hw') ?_⟩
      intro r w'' hr
      rcases r with e | b' | c
      · exact ihk (.error e) (hc.2 _) hr
      · exact hr
      · exact ihk (.ok c) (hc.2 _) hr

end Coroutine
