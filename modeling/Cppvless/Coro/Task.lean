import Cppvless.Coroutine.Eval
import Cppvless.Coroutine.Pool

set_option autoImplicit false

/-! # Tasks

`coro/task.h`. Every coroutine is a frame of its own with a promise; `co_await` on a `Task` resumes the
frame of the callee on top of the caller's, and the callee, at its final suspension, resumes the
caller on top of itself. The rest of the development puts a coroutine and those it awaits together
into one tree (`Body.tree`); `runs_as_trees` says that this changes nothing. -/

namespace Cppvless

open Coroutine Relation

namespace Tasks

/-- The body of a coroutine: as in `Coro`, and with `co_await` of another coroutine as a step of its own, which
    goes on with what `await_resume` returns or throws. -/
inductive Body (ε : Type) (S : Sig) : Type → Type 1
  | done {α : Type} (r : Except ε α) : Body ε S α
  | op {α : Type} (o : S.Op) (k : S.Res o → Body ε S α) : Body ε S α
  | iter {α β γ : Type} (body : β → Body ε S (β ⊕ γ)) (b : β) (k : Except ε γ → Body ε S α) :
      Body ε S α
  | call {α β : Type} (callee : Body ε S β) (k : Except ε β → Body ε S α) : Body ε S α

namespace Body

variable {ε : Type} {S : Sig} {α β γ : Type}

/-- Continue with `f` in the same coroutine. -/
def andThen : {α : Type} → Body ε S α → (Except ε α → Body ε S β) → Body ε S β
  | _, .done r, f => f r
  | _, .op o k, f => .op o fun a => (k a).andThen f
  | _, .iter body b k, f => .iter body b fun r => (k r).andThen f
  | _, .call c k, f => .call c fun r => (k r).andThen f

/-- What one round of a loop does with the answer of its body. -/
def afterRound (body : β → Body ε S (β ⊕ γ)) (k : Except ε γ → Body ε S α) :
    Except ε (β ⊕ γ) → Body ε S α
  | .ok (.inl b) => .iter body b k
  | .ok (.inr c) => k (.ok c)
  | .error e => k (.error e)

/-- A loop with its next round opened. -/
def unroll (body : β → Body ε S (β ⊕ γ)) (b : β) (k : Except ε γ → Body ε S α) : Body ε S α :=
  (body b).andThen (afterRound body k)

/-- A coroutine and all that it awaits, as one tree. -/
def tree : {α : Type} → Body ε S α → Coro ε S α
  | _, .done r => .done r
  | _, .op o k => .op o fun a => (k a).tree
  | _, .iter body b k => .iter (fun b => (body b).tree) b fun r => (k r).tree
  | _, .call c k => c.tree.andThen fun r => (k r).tree

/-- A coroutine that awaits no other. -/
def ofCoro : {α : Type} → Coro ε S α → Body ε S α
  | _, .done r => .done r
  | _, .op o k => .op o fun a => ofCoro (k a)
  | _, .iter body b k => .iter (fun b => ofCoro (body b)) b fun r => ofCoro (k r)

@[simp] theorem tree_ofCoro (c : Coro ε S α) : (ofCoro c).tree = c := by
  induction c with
  | done r => rfl
  | op o k ih => simp only [ofCoro, tree, ih]
  | iter body b k ihb ihk => simp only [ofCoro, tree, ihb, ihk]

@[simp] theorem tree_andThen (c : Body ε S α) (f : Except ε α → Body ε S β) :
    (c.andThen f).tree = c.tree.andThen fun r => (f r).tree := by
  induction c with
  | done r => rfl
  | op o k ih => simp only [andThen, tree, Coro.andThen, ih]
  | iter body b k _ ihk => simp only [andThen, tree, Coro.andThen, ihk]
  | call c k _ ihk => simp only [andThen, tree, Coro.andThen_assoc, ihk]

theorem tree_unroll (body : β → Body ε S (β ⊕ γ)) (b : β) (k : Except ε γ → Body ε S α) :
    (unroll body b k).tree = Coro.unroll (fun b => (body b).tree) b fun r => (k r).tree := by
  rw [unroll, tree_andThen, Coro.unroll]
  congr 1
  funext r
  cases r with
  | ok x =>
      cases x with
      | inl b => rfl
      | inr c => rfl
  | error e => rfl

instance : Monad (Body ε S) where
  pure a := .done (.ok a)
  bind c f := c.andThen fun
    | .ok a => f a
    | .error e => .done (.error e)

/-- `co_await` on a new coroutine. -/
def await (c : Body ε S α) : Body ε S α := .call c .done

/-- Run `c`, and `h` on its exception if it throws. -/
def tryCatch (c : Body ε S α) (h : ε → Body ε S α) : Body ε S α :=
  c.andThen fun
    | .ok a => .done (.ok a)
    | .error e => h e

@[simp] theorem tree_pure (a : α) : (pure a : Body ε S α).tree = pure a := rfl

@[simp] theorem tree_bind (c : Body ε S α) (f : α → Body ε S β) :
    (c >>= f).tree = c.tree >>= fun a => (f a).tree := by
  refine (tree_andThen c _).trans ?_
  rw [Coro.bind_eq]
  congr 1
  funext r
  cases r with
  | ok a => rfl
  | error e => rfl

@[simp] theorem tree_await (c : Body ε S α) : c.await.tree = c.tree :=
  Coro.andThen_done c.tree

@[simp] theorem tree_tryCatch (c : Body ε S α) (h : ε → Body ε S α) :
    (c.tryCatch h).tree = Coro.tryCatch c.tree fun e => (h e).tree := by
  refine (tree_andThen c _).trans ?_
  rw [Coro.tryCatch]
  congr 1
  funext r
  cases r with
  | ok a => rfl
  | error e => rfl

@[simp] theorem tree_ite {c : Prop} [Decidable c] (a b : Body ε S α) :
    (if c then a else b).tree = if c then a.tree else b.tree := by
  split
  · rfl
  · rfl

end Body

/-! ## Frames -/

/-- `std::coroutine_handle<>` -/
abbrev Handle := Nat

variable (O : Object)

/-- Where a coroutine is: in its body, in `co_await` of the coroutine of another frame, or at its final
    suspension, its promise holding a value or an exception. -/
inductive Point (α : Type) : Type 1
  | running (c : Body O.Exn O.sig α)
  | awaiting {β : Type} (callee : Handle) (k : Except O.Exn β → Body O.Exn O.sig α)
  | final (r : Except O.Exn α)

/-- A coroutine frame with its `TaskPromise`. -/
structure Frame where
  Value : Type
  point : Point O Value
  continuation : Option Handle

/-- A call of `resume` that has not returned: in the body of the coroutine, in `Task::await_suspend`, which has
    resumed the callee, or in `FinalAwaitable::await_suspend`, which has resumed the continuation. -/
inductive Activation
  | body (h : Handle)
  | awaitSuspend (h : Handle)
  | finalSuspend (h : Handle)

/-- The coroutines of an object: the frames that are alive, the `Task` members of the object and the C++ call
    stack, innermost first. -/
structure Machine where
  world : World O
  heap : Handle → Option (Frame O)
  root : O.Task → Option Handle
  stack : List Activation

variable {O}

namespace Machine

/-- Frame `h` is `frame`. -/
def setFrame (m : Machine O) (h : Handle) (frame : Frame O) : Machine O :=
  { m with heap := Function.update m.heap h (some frame) }

/-- `~Task` -/
def destroy (m : Machine O) (h : Handle) : Machine O :=
  { m with heap := Function.update m.heap h none }

end Machine

/-- The step of a coroutine that needs nobody else. -/
def internal {α : Type} : Body O.Exn O.sig α → World O → Option (Body O.Exn O.sig α × World O)
  | .done _, _ => none
  | .op .get k, w => some (k w.mem, w)
  | .op (.member f) k, w => some (k (), w.call f)
  | .op (.io _) _, _ => none
  | .op (.spawn _) _, _ => none
  | .iter body b k, w => some (Body.unroll body b k, w)
  | .call _ _, _ => none

/-- `FinalAwaitable::await_suspend` of `h`: the continuation is resumed, if there is one. -/
def finalSuspend (h : Handle) (rest : List Activation) : Option Handle → List Activation
  | none => rest
  | some c => .body c :: .finalSuspend h :: rest

variable [DecidableEq O.Task]

/-- One step of the machine, `body t` being the code of the member coroutine `t`. -/
inductive Step (body : O.Task → Body O.Exn O.sig Unit) : Machine O → Machine O → Prop
  /-- The running coroutine goes on by itself. -/
  | internal (m : Machine O) (h : Handle) (rest : List Activation) {α : Type}
      (c c' : Body O.Exn O.sig α) (q : Option Handle) (w : World O)
      (hstack : m.stack = .body h :: rest) (hframe : m.heap h = some ⟨α, .running c, q⟩)
      (hstep : internal c m.world = some (c', w)) :
      Step body m { m.setFrame h ⟨α, .running c', q⟩ with world := w }
  /-- The operation it awaits is answered at once. -/
  | answer (m : Machine O) (h : Handle) (rest : List Activation) {α : Type} (o : O.Io.Op)
      (k : O.Io.Res o → Body O.Exn O.sig α) (q : Option Handle) (r : O.Io.Res o)
      (hstack : m.stack = .body h :: rest)
      (hframe : m.heap h = some ⟨α, .running (.op (.io o) k), q⟩) :
      Step body m { m.setFrame h ⟨α, .running (k r), q⟩ with world := m.world.answer o r }
  /-- It suspends on the operation, and `resume` returns. -/
  | park (m : Machine O) (h : Handle) (rest : List Activation) {α : Type} (o : O.Io.Op)
      (k : O.Io.Res o → Body O.Exn O.sig α) (q : Option Handle)
      (hstack : m.stack = .body h :: rest)
      (hframe : m.heap h = some ⟨α, .running (.op (.io o) k), q⟩) (hsus : O.suspends o = true) :
      Step body m { m with stack := rest }
  /-- The event loop resumes the coroutine that awaits a completed operation. -/
  | resume (m : Machine O) (h : Handle) {α : Type} (o : O.Io.Op)
      (k : O.Io.Res o → Body O.Exn O.sig α) (q : Option Handle) (r : O.Io.Res o)
      (hstack : m.stack = []) (hframe : m.heap h = some ⟨α, .running (.op (.io o) k), q⟩)
      (hsus : O.suspends o = true) :
      Step body m
        { m.setFrame h ⟨α, .running (k r), q⟩ with
          world := m.world.answer o r, stack := [.body h] }
  /-- It assigns a new coroutine to the member `u` and resumes it. -/
  | start (m : Machine O) (h h' : Handle) (rest : List Activation) {α : Type} (u : O.Task)
      (k : Unit → Body O.Exn O.sig α) (q : Option Handle) (hstack : m.stack = .body h :: rest)
      (hframe : m.heap h = some ⟨α, .running (.op (.spawn u) k), q⟩) (hroot : m.root u = none)
      (hfresh : m.heap h' = none) :
      Step body m
        { (m.setFrame h ⟨α, .running (k ()), q⟩).setFrame h' ⟨Unit, .running (body u), none⟩ with
          world := m.world.start u, root := Function.update m.root u (some h'),
          stack := .body h' :: m.stack }
  /-- `co_await` on a new coroutine: `await_suspend` stores the continuation and resumes the callee. -/
  | await (m : Machine O) (h h' : Handle) (rest : List Activation) {α β : Type}
      (c : Body O.Exn O.sig β) (k : Except O.Exn β → Body O.Exn O.sig α) (q : Option Handle)
      (hstack : m.stack = .body h :: rest) (hframe : m.heap h = some ⟨α, .running (.call c k), q⟩)
      (hfresh : m.heap h' = none) :
      Step body m
        { (m.setFrame h ⟨α, .awaiting h' k, q⟩).setFrame h' ⟨β, .running c, some h⟩ with
          stack := .body h' :: .awaitSuspend h :: rest }
  /-- It has ended: the promise takes what it ended with, and the continuation is resumed. -/
  | finish (m : Machine O) (h : Handle) (rest : List Activation) {α : Type} (r : Except O.Exn α)
      (q : Option Handle) (hstack : m.stack = .body h :: rest)
      (hframe : m.heap h = some ⟨α, .running (.done r), q⟩) :
      Step body m { m.setFrame h ⟨α, .final r, q⟩ with stack := finalSuspend h rest q }
  /-- `await_resume` takes what the callee ended with, and its frame is destroyed. -/
  | awaitResume (m : Machine O) (h h' : Handle) (rest : List Activation) {α β : Type}
      (k : Except O.Exn β → Body O.Exn O.sig α) (r : Except O.Exn β) (q q' : Option Handle)
      (hstack : m.stack = .body h :: rest) (hframe : m.heap h = some ⟨α, .awaiting h' k, q⟩)
      (hcallee : m.heap h' = some ⟨β, .final r, q'⟩) :
      Step body m ((m.setFrame h ⟨α, .running (k r), q⟩).destroy h')
  /-- `Task::await_suspend` returns, and so does the `resume` it was called from. -/
  | awaitSuspend (m : Machine O) (h : Handle) (rest : List Activation)
      (hstack : m.stack = .awaitSuspend h :: rest) : Step body m { m with stack := rest }
  /-- So does `FinalAwaitable::await_suspend`. -/
  | finalSuspend (m : Machine O) (h : Handle) (rest : List Activation)
      (hstack : m.stack = .finalSuspend h :: rest) : Step body m { m with stack := rest }

/-- The member coroutine `t` has just been started, with frame `0`. -/
def Machine.start (body : O.Task → Body O.Exn O.sig Unit) (t : O.Task) (mem : O.Mem) : Machine O where
  world := ⟨mem, []⟩
  heap := Function.update (fun _ => none) 0 (some ⟨Unit, .running (body t), none⟩)
  root := Function.update (fun _ => none) t (some 0)
  stack := [.body 0]

/-- The states the machine reaches from the start of `t`, whatever the answers. -/
def Machine.Reachable (body : O.Task → Body O.Exn O.sig Unit) (t : O.Task) (mem : O.Mem)
    (m : Machine O) : Prop :=
  ReflTransGen (Step body) (Machine.start body t mem) m

end Tasks

end Cppvless
