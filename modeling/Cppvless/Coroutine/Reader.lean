import Mathlib.Data.Vector.Basic

set_option autoImplicit false

/-! # Readers: parsers that ask for exact numbers of bytes

The parsing layer of a protocol only ever awaits "the next `n` bytes". Such a coroutine has no loop
around its reads, so it is a finite tree. `Reader.run` is its meaning on a byte string that is there
as a whole: a read of `n` bytes gets them, or all that is left if there are fewer. `Accepts G` says
that a reader succeeds on exactly the strings with a prefix in the grammar `G`, returns what the
grammar assigns to that prefix and leaves the rest. The rules follow the program text. -/

namespace Coroutine

/-- A parser over bytes `β` returning `α` or throwing `ε`, that only awaits reads. -/
inductive Reader (ε β α : Type) : Type
  | done (r : Except ε α)
  | read (n : Nat) (k : List β → Reader ε β α)

namespace Reader

variable {ε β α γ : Type}

/-- Continue with `f` on the result; an exception is passed on. -/
def bind : Reader ε β α → (α → Reader ε β γ) → Reader ε β γ
  | .done (.ok a), f => f a
  | .done (.error e), _ => .done (.error e)
  | .read n k, f => .read n fun bs => (k bs).bind f

instance : Monad (Reader ε β) where
  pure a := .done (.ok a)
  bind := Reader.bind

def throw (e : ε) : Reader ε β α := .done (.error e)

/-- Await the next `n` bytes; fewer come back at the end of the stream. -/
def next (n : Nat) : Reader ε β (List β) := .read n fun bs => .done (.ok bs)

/-- Await exactly `n` bytes, or throw `e`. -/
def exact (n : Nat) (e : ε) : Reader ε β (List.Vector β n) := do
  let bs ← next n
  if h : bs.length = n then pure ⟨bs, h⟩ else throw e

/-- The one byte of a read of exactly one byte. -/
def byte (e : ε) : Reader ε β β := do return (← exact 1 e).head

/-- What an exception-valued computation without reads answers. -/
def ofExcept (r : Except ε α) : Reader ε β α := .done r

/-- The reader on the whole string `s`: its result and what it leaves of `s`. -/
def run : Reader ε β α → List β → Except ε α × List β
  | .done r, s => (r, s)
  | .read n k, s => (k (s.take n)).run (s.drop n)

@[simp] theorem run_pure (a : α) (s : List β) :
    (pure a : Reader ε β α).run s = (.ok a, s) := rfl

@[simp] theorem run_throw (e : ε) (s : List β) :
    (throw e : Reader ε β α).run s = (.error e, s) := rfl

theorem run_bind (p : Reader ε β α) (f : α → Reader ε β γ) (s : List β) :
    (p >>= f).run s = match p.run s with
      | (.ok a, s') => (f a).run s'
      | (.error e, s') => (.error e, s') := by
  induction p generalizing s with
  | done r => cases r <;> rfl
  | read n k ih => exact ih (s.take n) (s.drop n)

/-- A reader that gives up as soon as a read comes back short. -/
def Strict : Reader ε β α → Prop
  | .done _ => True
  | .read n k => (∀ bs, bs.length = n → (k bs).Strict) ∧
      ∀ bs, bs.length < n → ∃ e, k bs = .done (.error e)

@[simp] theorem strict_pure (a : α) : (pure a : Reader ε β α).Strict := trivial

@[simp] theorem strict_throw (e : ε) : (throw e : Reader ε β α).Strict := trivial

@[simp] theorem strict_ofExcept (r : Except ε α) : (ofExcept r : Reader ε β α).Strict := trivial

theorem Strict.bind {p : Reader ε β α} {f : α → Reader ε β γ} (hp : p.Strict)
    (hf : ∀ a, (f a).Strict) : (p >>= f).Strict := by
  induction p with
  | done r =>
      cases r with
      | ok a => exact hf a
      | error e => trivial
  | read n k ih =>
      refine ⟨fun bs hbs => ih bs (hp.1 bs hbs), fun bs hbs => ?_⟩
      obtain ⟨e, he⟩ := hp.2 bs hbs
      exact ⟨e, by simp only [he, Reader.bind]⟩

theorem strict_exact (n : Nat) (e : ε) : (exact n e : Reader ε β _).Strict := by
  refine ⟨fun bs hbs => ?_, fun bs hbs => ⟨e, ?_⟩⟩
  · simp only [Reader.bind, dif_pos hbs]
    trivial
  · simp only [Reader.bind, dif_neg (Nat.ne_of_lt hbs)]
    rfl

theorem strict_byte (e : ε) : (byte e : Reader ε β β).Strict :=
  (strict_exact 1 e).bind fun _ => trivial

theorem Strict.ite {c : Prop} [Decidable c] {p q : Reader ε β α} (hp : p.Strict) (hq : q.Strict) :
    (if c then p else q).Strict := by
  split
  · exact hp
  · exact hq

/-- A reader that ends with an `F` as soon as a read comes back short. -/
def StopsShort (F : Except ε α → Prop) : Reader ε β α → Prop
  | .done _ => True
  | .read n k => (∀ bs, bs.length = n → (k bs).StopsShort F) ∧
      ∀ bs, bs.length < n → ∃ r, F r ∧ k bs = .done r

theorem Strict.stopsShort {p : Reader ε β α} (hp : p.Strict) : p.StopsShort fun r => ∃ e, r = .error e := by
  induction p with
  | done r => trivial
  | read n k ih =>
      refine ⟨fun bs hbs => ih bs (hp.1 bs hbs), fun bs hbs => ?_⟩
      obtain ⟨e, he⟩ := hp.2 bs hbs
      exact ⟨.error e, ⟨e, rfl⟩, he⟩

/-- Every exception the reader can end with satisfies `P`. -/
def Raises (P : ε → Prop) : Reader ε β α → Prop
  | .done r => ∀ e, r = .error e → P e
  | .read _ k => ∀ bs, (k bs).Raises P

section Raises

variable {P : ε → Prop}

theorem raises_pure (a : α) : (pure a : Reader ε β α).Raises P := by
  intro e h
  cases h

theorem raises_throw {e : ε} (h : P e) : (throw e : Reader ε β α).Raises P := by
  rintro _ ⟨⟩
  exact h

theorem Raises.bind {p : Reader ε β α} {f : α → Reader ε β γ} (hp : p.Raises P)
    (hf : ∀ a, (f a).Raises P) : (p >>= f).Raises P := by
  induction p with
  | done r =>
      cases r with
      | ok a => exact hf a
      | error e =>
          rintro _ ⟨⟩
          exact hp e rfl
  | read n k ih => exact fun bs => ih bs (hp bs)

theorem Raises.ite {c : Prop} [Decidable c] {p q : Reader ε β α} (hp : p.Raises P)
    (hq : q.Raises P) : (if c then p else q).Raises P := by
  split
  · exact hp
  · exact hq

theorem raises_exact (n : Nat) {e : ε} (h : P e) : (exact n e : Reader ε β _).Raises P := by
  intro bs
  by_cases hbs : bs.length = n
  · simp only [Reader.bind, dif_pos hbs]
    exact raises_pure _
  · simp only [Reader.bind, dif_neg hbs]
    exact raises_throw h

theorem raises_byte {e : ε} (h : P e) : (byte e : Reader ε β β).Raises P :=
  (raises_exact 1 h).bind fun _ => raises_pure _

theorem Raises.run {p : Reader ε β α} (hp : p.Raises P) {s rest : List β} {e : ε}
    (h : p.run s = (.error e, rest)) : P e := by
  induction p generalizing s with
  | done r => exact hp e (Prod.mk.inj h).1
  | read n k ih => exact ih (s.take n) (hp _) h

end Raises

/-! ## Grammars -/

/-- `p` succeeds exactly on the strings with a prefix in `G`, with the value `G` assigns to that
    prefix, and leaves what follows it. -/
def Accepts (p : Reader ε β α) (G : List β → α → Prop) : Prop :=
  ∀ s a rest, p.run s = (.ok a, rest) ↔ ∃ b, G b a ∧ s = b ++ rest

theorem Accepts.congr {p : Reader ε β α} {G G' : List β → α → Prop} (hp : p.Accepts G)
    (h : ∀ b a, G b a ↔ G' b a) : p.Accepts G' := by
  intro s a rest
  simp only [hp s a rest, h]

theorem accepts_pure (x : α) : (pure x : Reader ε β α).Accepts fun b a => b = [] ∧ a = x := by
  intro s a rest
  simp only [run_pure, Prod.mk.injEq, Except.ok.injEq]
  constructor
  · rintro ⟨rfl, rfl⟩
    exact ⟨[], ⟨rfl, rfl⟩, rfl⟩
  · rintro ⟨b, ⟨rfl, rfl⟩, rfl⟩
    exact ⟨rfl, rfl⟩

theorem accepts_throw (e : ε) : (throw e : Reader ε β α).Accepts fun _ _ => False := by
  intro s a rest
  simp

theorem accepts_ofExcept (r : Except ε α) :
    (ofExcept r : Reader ε β α).Accepts fun b a => b = [] ∧ r = .ok a := by
  intro s a rest
  simp only [ofExcept, run, Prod.mk.injEq]
  constructor
  · rintro ⟨rfl, rfl⟩
    exact ⟨[], ⟨rfl, rfl⟩, rfl⟩
  · rintro ⟨b, ⟨rfl, rfl⟩, rfl⟩
    exact ⟨rfl, rfl⟩

theorem Accepts.bind {p : Reader ε β α} {f : α → Reader ε β γ} {G : List β → α → Prop}
    {H : α → List β → γ → Prop} (hp : p.Accepts G) (hf : ∀ a, (f a).Accepts (H a)) :
    (p >>= f).Accepts fun b c => ∃ b₁ a b₂, b = b₁ ++ b₂ ∧ G b₁ a ∧ H a b₂ c := by
  intro s c rest
  rw [run_bind]
  constructor
  · intro h
    split at h
    · next a s' hrun =>
        obtain ⟨b₁, hG, rfl⟩ := (hp s a s').1 hrun
        obtain ⟨b₂, hH, rfl⟩ := (hf a s' c rest).1 h
        exact ⟨b₁ ++ b₂, ⟨b₁, a, b₂, rfl, hG, hH⟩, by simp⟩
    · simp at h
  · rintro ⟨b, ⟨b₁, a, b₂, rfl, hG, hH⟩, rfl⟩
    rw [List.append_assoc, (hp _ a (b₂ ++ rest)).2 ⟨b₁, hG, rfl⟩]
    exact (hf a _ c rest).2 ⟨b₂, hH, rfl⟩

theorem accepts_exact (n : Nat) (e : ε) :
    (exact n e : Reader ε β _).Accepts fun b v => b = v.toList := by
  intro s v rest
  have hrun : (exact n e : Reader ε β _).run s =
      if h : (s.take n).length = n then (.ok ⟨s.take n, h⟩, s.drop n)
      else (.error e, s.drop n) := by
    show Reader.run (.read n _) s = _
    simp only [run, Reader.bind]
    split <;> rfl
  rw [hrun]
  constructor
  · intro h
    split at h
    · next hlen =>
        obtain ⟨hv, rfl⟩ := Prod.mk.inj h
        obtain rfl := Except.ok.inj hv
        exact ⟨s.take n, rfl, (List.take_append_drop n s).symm⟩
    · simp at h
  · rintro ⟨b, rfl, rfl⟩
    have hv := v.toList_length
    simp only [List.take_left' hv, List.drop_left' hv, hv, dite_true]
    rfl

theorem Accepts.ite {c : Prop} [Decidable c] {p q : Reader ε β α} {G H : List β → α → Prop}
    (hp : c → p.Accepts G) (hq : ¬ c → q.Accepts H) :
    (if c then p else q).Accepts fun b a => c ∧ G b a ∨ ¬ c ∧ H b a := by
  by_cases hc : c
  · simpa [hc] using hp hc
  · simpa [hc] using hq hc

/-- A read of exactly `n` bytes and what comes after it. -/
theorem Accepts.exact_bind {n : Nat} {e : ε} {f : List.Vector β n → Reader ε β γ}
    {H : List.Vector β n → List β → γ → Prop} (hf : ∀ v, (f v).Accepts (H v)) :
    (exact n e >>= f).Accepts fun b c => ∃ v b', b = v.toList ++ b' ∧ H v b' c := by
  refine (Accepts.bind (accepts_exact n e) hf).congr fun b c => ?_
  constructor
  · rintro ⟨_, v, b', hb, rfl, hc⟩
    exact ⟨v, b', hb, hc⟩
  · rintro ⟨v, b', hb, hc⟩
    exact ⟨_, v, b', hb, rfl, hc⟩

/-- A read of one byte and what comes after it. -/
theorem Accepts.byte_bind {e : ε} {f : β → Reader ε β γ} {H : β → List β → γ → Prop}
    (hf : ∀ x, (f x).Accepts (H x)) :
    (byte e >>= f).Accepts fun b c => ∃ x b', b = x :: b' ∧ H x b' c := by
  have hbyte : (byte e : Reader ε β β).Accepts fun b x => b = [x] := by
    refine (Accepts.exact_bind fun v => accepts_pure v.head).congr fun b x => ?_
    constructor
    · rintro ⟨⟨l, hl⟩, _, rfl, rfl, rfl⟩
      match l, hl with
      | [x], _ => rfl
    · rintro rfl
      exact ⟨⟨[x], rfl⟩, [], rfl, rfl, rfl⟩
  refine (Accepts.bind hbyte hf).congr fun b c => ?_
  constructor
  · rintro ⟨_, x, b', rfl, rfl, hc⟩
    exact ⟨x, b', rfl, hc⟩
  · rintro ⟨x, b', rfl, hc⟩
    exact ⟨[x], x, b', rfl, rfl, hc⟩

/-- An accepted prefix and its value are determined by the string. -/
theorem Accepts.unique {p : Reader ε β α} {G : List β → α → Prop} (hp : p.Accepts G)
    {b b' rest rest' : List β} {a a' : α} (h : G b a) (h' : G b' a')
    (heq : b ++ rest = b' ++ rest') : b = b' ∧ a = a' ∧ rest = rest' := by
  have h₁ := (hp (b ++ rest) a rest).2 ⟨b, h, rfl⟩
  have h₂ := (hp (b ++ rest) a' rest').2 ⟨b', h', heq⟩
  obtain ⟨ha, rfl⟩ : a = a' ∧ rest = rest' := by simpa using h₁.symm.trans h₂
  exact ⟨List.append_cancel_right heq, ha, rfl⟩

end Reader

end Coroutine
