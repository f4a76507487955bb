import Mathlib.Logic.Relation

set_option autoImplicit false

/-! # Coroutines as trees of awaited operations

A coroutine over a signature of operations either has returned (normally or by an exception),
waits for the answer of an operation, or runs a loop. `while` loops around operations are a
constructor (`iter`) and not a recursion: a relay loop never has to return, so its tree is not
well founded, but the tree of one round is. Exceptions propagate through `bind` and stop at
`tryCatch`, as they do in the source language. -/

namespace Coroutine

/-- The operations a coroutine can await and what each answers. -/
structure Sig where
  Op : Type
  Res : Op → Type

/-- A coroutine over `S` returning `α` or throwing `ε`. `iter body b k` runs `body` from `b`, again from `b'` for
    as long as it answers `inl b'`, and goes on with `k` at the first `inr c` or exception. -/
inductive Coro (ε : Type) (S : Sig) : Type → Type 1
  | done {α : Type} (r : Except ε α) : Coro ε S α
  | op {α : Type} (o : S.Op) (k : S.Res o → Coro ε S α) : Coro ε S α
  | iter {α β γ : Type} (body : β → Coro ε S (β ⊕ γ)) (b : β) (k : Except ε γ → Coro ε S α) :
      Coro ε S α

namespace Coro

variable {ε : Type} {S : Sig} {α β γ : Type}

/-- Continue with `f` on whatever `c` ends with, an exception included. -/
def andThen : {α : Type} → Coro ε S α → (Except ε α → Coro ε S β) → Coro ε S β
  | _, .done r, f => f r
  | _, .op o k, f => .op o fun a => (k a).andThen f
  | _, .iter body b k, f => .iter body b fun r => (k r).andThen f

/-- `co_await` on a coroutine: its exception becomes the caller's. -/
def bind (c : Coro ε S α) (f : α → Coro ε S β) : Coro ε S β :=
  c.andThen fun
    | .ok a => f a
    | .error e => .done (.error e)

instance : Monad (Coro ε S) where
  pure a := .done (.ok a)
  bind := Coro.bind

/-- Throw `e`. -/
def throw (e : ε) : Coro ε S α := .done (.error e)

/-- A function that does not await anything. -/
def ofExcept (r : Except ε α) : Coro ε S α := .done r

/-- Run `c`, and `h` on its exception if it throws. -/
def tryCatch (c : Coro ε S α) (h : ε → Coro ε S α) : Coro ε S α :=
  c.andThen fun
    | .ok a => .done (.ok a)
    | .error e => h e

/-- Await one operation. -/
def await (o : S.Op) : Coro ε S (S.Res o) := .op o fun a => .done (.ok a)

/-- `while`: run `body` from `b` until it answers `inr c`. -/
def loop (b : β) (body : β → Coro ε S (β ⊕ γ)) : Coro ε S γ := .iter body b .done

/-- What one round of a loop does with the answer of its body. -/
def afterRound (body : β → Coro ε S (β ⊕ γ)) (k : Except ε γ → Coro ε S α) :
    Except ε (β ⊕ γ) → Coro ε S α
  | .ok (.inl b) => .iter body b k
  | .ok (.inr c) => k (.ok c)
  | .error e => k (.error e)

/-- A loop with its next round opened. -/
def unroll (body : β → Coro ε S (β ⊕ γ)) (b : β) (k : Except ε γ → Coro ε S α) : Coro ε S α :=
  (body b).andThen (afterRound body k)

@[simp] theorem done_andThen (r : Except ε α) (f : Except ε α → Coro ε S β) :
    (Coro.done r).andThen f = f r := rfl

@[simp] theorem op_andThen (o : S.Op) (k : S.Res o → Coro ε S α) (f : Except ε α → Coro ε S β) :
    (Coro.op o k).andThen f = .op o fun a => (k a).andThen f := rfl

theorem bind_eq (c : Coro ε S α) (f : α → Coro ε S β) :
    c >>= f = c.andThen fun
      | .ok a => f a
      | .error e => .done (.error e) := rfl

@[simp] theorem pure_bind' (a : α) (f : α → Coro ε S β) : (pure a : Coro ε S α) >>= f = f a := rfl

@[simp] theorem throw_bind (e : ε) (f : α → Coro ε S β) :
    (throw e : Coro ε S α) >>= f = throw e := rfl

end Coro

end Coroutine
