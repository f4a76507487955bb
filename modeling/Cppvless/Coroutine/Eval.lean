import Cppvless.Coroutine.Basic

set_option autoImplicit false

/-! # A coroutine run alone

`Coro.Eval h c s r s'`: with every operation answered by `h` from a state, `c` started in `s` ends
with `r` in `s'`. The relation is deterministic (`Eval.det`), so that exhibiting one evaluation says
both that the coroutine ends and what it ends with. -/

namespace Coroutine

namespace Coro

variable {ε : Type} {S : Sig} {α β γ σ : Type}

theorem andThen_assoc (c : Coro ε S α) (f : Except ε α → Coro ε S β)
    (g : Except ε β → Coro ε S γ) :
    (c.andThen f).andThen g = c.andThen fun r => (f r).andThen g := by
  induction c with
  | done r => rfl
  | op o k ih =>
      simp only [op_andThen]
      congr 1
      funext a
      exact ih a f
  | iter body b k _ ihk =>
      simp only [andThen]
      congr 1
      funext r
      exact ihk r f

theorem andThen_done (c : Coro ε S α) : c.andThen .done = c := by
  induction c with
  | done r => rfl
  | op o k ih => simp only [op_andThen, ih]
  | iter body b k _ ihk => simp only [andThen, ihk]

theorem unroll_andThen (body : β → Coro ε S (β ⊕ γ)) (b : β) (k : Except ε γ → Coro ε S α)
    (f : Except ε α → Coro ε S σ) :
    (unroll body b k).andThen f = unroll body b fun r => (k r).andThen f := by
  rw [unroll, andThen_assoc, unroll]
  congr 1
  funext r
  match r with
  | .ok (.inl _) => rfl
  | .ok (.inr _) => rfl
  | .error _ => rfl

/-- `c`, its operations answered by `h` from state `s`, ends with `r` in state `s'`. -/
inductive Eval (h : (o : S.Op) → σ → S.Res o × σ) :
    {α : Type} → Coro ε S α → σ → Except ε α → σ → Prop
  | done {α : Type} (r : Except ε α) (s : σ) : Eval h (.done r) s r s
  | op {α : Type} (o : S.Op) (k : S.Res o → Coro ε S α) (s : σ) (r : Except ε α) (s' : σ)
      (hk : Eval h (k (h o s).1) (h o s).2 r s') : Eval h (.op o k) s r s'
  | iter {α β γ : Type} (body : β → Coro ε S (β ⊕ γ)) (b : β) (k : Except ε γ → Coro ε S α)
      (s : σ) (r : Except ε α) (s' : σ) (hu : Eval h (unroll body b k) s r s') :
      Eval h (.iter body b k) s r s'

variable {h : (o : S.Op) → σ → S.Res o × σ}

theorem Eval.det {c : Coro ε S α} {s s₁ s₂ : σ} {r₁ r₂ : Except ε α} (h₁ : Eval h c s r₁ s₁)
    (h₂ : Eval h c s r₂ s₂) : r₁ = r₂ ∧ s₁ = s₂ := by
  induction h₁ with
  | done r s =>
      cases h₂
      exact ⟨rfl, rfl⟩
  | op o k s r s' _ ih =>
      cases h₂ with
      | op _ _ _ _ _ hk => exact ih hk
  | iter body b k s r s' _ ih =>
      cases h₂ with
      | iter _ _ _ _ _ _ hu => exact ih hu

theorem Eval.andThen {c : Coro ε S α} {f : Except ε α → Coro ε S β} {s s' s'' : σ}
    {r : Except ε α} {r' : Except ε β} (hc : Eval h c s r s') (hf : Eval h (f r) s' r' s'') :
    Eval h (c.andThen f) s r' s'' := by
  induction hc with
  | done r s => exact hf
  | op o k s r s' _ ih => exact .op o _ _ _ _ (ih hf)
  | iter body b k s r s' _ ih => exact .iter body b _ _ _ _ (unroll_andThen body b k f ▸ ih hf)

theorem Eval.bind {c : Coro ε S α} {f : α → Coro ε S β} {s s' s'' : σ} {a : α}
    {r : Except ε β} (hc : Eval h c s (.ok a) s') (hf : Eval h (f a) s' r s'') :
    Eval h (c >>= f) s r s'' := hc.andThen hf

theorem Eval.await (o : S.Op) (s : σ) :
    Eval h (Coro.await o : Coro ε S (S.Res o)) s (.ok (h o s).1) (h o s).2 :=
  .op o _ _ _ _ (.done _ _)

/-- One more round of a loop. -/
theorem Eval.loop_next {body : β → Coro ε S (β ⊕ γ)} {b b' : β} {s s' s'' : σ} {r : Except ε γ}
    (hb : Eval h (body b) s (.ok (.inl b')) s') (hl : Eval h (Coro.loop b' body) s' r s'') :
    Eval h (Coro.loop b body) s r s'' :=
  .iter body b _ _ _ _ (hb.andThen hl)

/-- The last round of a loop. -/
theorem Eval.loop_last {body : β → Coro ε S (β ⊕ γ)} {b : β} {c : γ} {s s' : σ}
    (hb : Eval h (body b) s (.ok (.inr c)) s') : Eval h (Coro.loop b body) s (.ok c) s' :=
  .iter body b _ _ _ _ (hb.andThen (.done _ _))

/-- A loop ends if `μ` decreases from round to round as long as it goes on. -/
theorem Eval.loop_ends {body : β → Coro ε S (β ⊕ γ)} {P : β → Prop} {Q : γ → Prop} (μ : β → Nat)
    (hround : ∀ b s, P b →
      (∃ b' s', Eval h (body b) s (.ok (.inl b')) s' ∧ P b' ∧ μ b' < μ b) ∨
        ∃ c s', Eval h (body b) s (.ok (.inr c)) s' ∧ Q c) {b : β} (hb : P b) (s : σ) :
    ∃ c s', Eval h (Coro.loop b body) s (.ok c) s' ∧ Q c := by
  induction hn : μ b using Nat.strongRecOn generalizing b s with
  | ind n ih =>
      rcases hround b s hb with ⟨b', s', hev, hb', hlt⟩ | ⟨c, s', hev, hc⟩
      · obtain ⟨c, s'', hloop, hc⟩ := ih (μ b') (hn ▸ hlt) hb' s' rfl
        exact ⟨c, s'', .loop_next hev hloop, hc⟩
      · exact ⟨c, s', .loop_last hev, hc⟩

end Coro

end Coroutine
