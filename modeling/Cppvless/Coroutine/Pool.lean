import Mathlib.Logic.Function.Basic
import Cppvless.Coroutine.Basic

set_option autoImplicit false

/-! # A pool of coroutines sharing one object

The coroutines of one object run on one thread: between two suspension points a coroutine is alone,
and control moves only where it parks on an operation, starts another coroutine, or ends. `Step`
is that scheduling, one instruction at a time. `stack` is the C++ call stack of nested resumptions:
starting a coroutine runs it at once, on top of its starter, up to its first suspension. When the
stack is empty the event loop has control and any parked operation may complete, with any answer
of its type. Nothing here restricts the answers: what the environment promises is a predicate on
traces, taken as a hypothesis where it is needed. -/

namespace Coroutine

open Relation

/-- An object whose coroutines share it: its members, the operations of the outside world, what
    its code throws, the calls to the outside whose result nobody reads, and the names of its
    coroutines. -/
structure Object where
  Mem : Type
  Io : Sig
  Exn : Type
  Sys : Type
  Task : Type
  /-- Whether an operation may leave its coroutine suspended. -/
  suspends : Io.Op → Bool

/-- The instructions of a coroutine of an object: read the members, run a member function that
    does not suspend, await an operation, start another coroutine. -/
inductive ObjOp (O : Object)
  | get
  | member (f : O.Mem → O.Mem × List O.Sys)
  | io (o : O.Io.Op)
  | spawn (t : O.Task)

@[reducible] def ObjOp.Res {O : Object} : ObjOp O → Type
  | .get => O.Mem
  | .member _ => Unit
  | .io o => O.Io.Res o
  | .spawn _ => Unit

@[reducible] def Object.sig (O : Object) : Sig := ⟨ObjOp O, ObjOp.Res⟩

/-- A coroutine of an object. -/
abbrev Object.Prog (O : Object) (α : Type) := Coro O.Exn O.sig α

/-- What happened: an operation with its answer, a call, or the start of a coroutine. -/
inductive Event (O : Object)
  | io (o : O.Io.Op) (r : O.Io.Res o)
  | sys (c : O.Sys)
  | spawned (t : O.Task)

/-- The members of the object and everything that happened so far. -/
structure World (O : Object) where
  mem : O.Mem
  trace : List (Event O)

variable {O : Object}

namespace World

/-- The world after `e`. -/
def push (w : World O) (e : Event O) : World O := { w with trace := w.trace ++ [e] }

/-- The world after `o` was answered by `r`. -/
def answer (w : World O) (o : O.Io.Op) (r : O.Io.Res o) : World O := w.push (.io o r)

/-- The world after the member function `f`. -/
def call (w : World O) (f : O.Mem → O.Mem × List O.Sys) : World O :=
  { mem := (f w.mem).1, trace := w.trace ++ (f w.mem).2.map .sys }

/-- The world after the start of `t`. -/
def start (w : World O) (t : O.Task) : World O := w.push (.spawned t)

@[simp] theorem push_mem (w : World O) (e : Event O) : (w.push e).mem = w.mem := rfl

@[simp] theorem push_trace (w : World O) (e : Event O) : (w.push e).trace = w.trace ++ [e] := rfl

@[simp] theorem answer_mem (w : World O) (o : O.Io.Op) (r : O.Io.Res o) :
    (w.answer o r).mem = w.mem := rfl

@[simp] theorem answer_trace (w : World O) (o : O.Io.Op) (r : O.Io.Res o) :
    (w.answer o r).trace = w.trace ++ [.io o r] := rfl

@[simp] theorem call_mem (w : World O) (f : O.Mem → O.Mem × List O.Sys) :
    (w.call f).mem = (f w.mem).1 := rfl

@[simp] theorem call_trace (w : World O) (f : O.Mem → O.Mem × List O.Sys) :
    (w.call f).trace = w.trace ++ (f w.mem).2.map .sys := rfl

@[simp] theorem start_mem (w : World O) (t : O.Task) : (w.start t).mem = w.mem := rfl

@[simp] theorem start_trace (w : World O) (t : O.Task) :
    (w.start t).trace = w.trace ++ [.spawned t] := rfl

end World

/-! ## Instructions as programs -/

namespace Prog

def get : O.Prog O.Mem := Coro.await (S := O.sig) .get

/-- Run a member function. -/
def member (f : O.Mem → O.Mem × List O.Sys) : O.Prog Unit := Coro.await (S := O.sig) (.member f)

/-- Assign members. -/
def modify (f : O.Mem → O.Mem) : O.Prog Unit := member fun s => (f s, [])

/-- Run a member function and use what it returns. -/
def update {α : Type} (f : O.Mem → α × O.Mem) : O.Prog α := do
  let s ← get
  modify fun s => (f s).2
  return (f s).1

def io (o : O.Io.Op) : O.Prog (O.Io.Res o) := Coro.await (S := O.sig) (.io o)

def spawn (t : O.Task) : O.Prog Unit := Coro.await (S := O.sig) (.spawn t)

end Prog

/-! ## The pool -/

/-- `frames t` is what is left of coroutine `t`, `none` before it is started. -/
structure Pool (O : Object) where
  world : World O
  frames : O.Task → Option (O.Prog Unit)
  stack : List O.Task

/-- The step of a running coroutine that needs nobody else: reading or writing members, or opening
    the next round of a loop. -/
def internal : O.Prog Unit → World O → Option (O.Prog Unit × World O)
  | .done _, _ => none
  | .op .get k, w => some (k w.mem, w)
  | .op (.member f) k, w => some (k (), w.call f)
  | .op (.io _) _, _ => none
  | .op (.spawn _) _, _ => none
  | .iter body b k, w => some (Coro.unroll body b k, w)

variable [DecidableEq O.Task]

/-- The pool with `c` as what is left of `t`. -/
def Pool.setFrame (p : Pool O) (t : O.Task) (c : O.Prog Unit) : Pool O :=
  { p with frames := Function.update p.frames t (some c) }

/-- One step of the pool, `body t` being the code of coroutine `t`. -/
inductive Step (body : O.Task → O.Prog Unit) : Pool O → Pool O → Prop
  /-- The running coroutine goes on by itself. -/
  | internal (p : Pool O) (t : O.Task) (rest : List O.Task) (c c' : O.Prog Unit) (w' : World O)
      (hstack : p.stack = t :: rest) (hframe : p.frames t = some c)
      (hstep : internal c p.world = some (c', w')) :
      Step body p { p.setFrame t c' with world := w' }
  /-- The operation it awaits is answered at once: it never suspends, or it failed to be queued,
      or its answer was already there. -/
  | answer (p : Pool O) (t : O.Task) (rest : List O.Task) (o : O.Io.Op)
      (k : O.Io.Res o → O.Prog Unit) (r : O.Io.Res o)
      (hstack : p.stack = t :: rest) (hframe : p.frames t = some (.op (.io o) k)) :
      Step body p { p.setFrame t (k r) with world := p.world.answer o r }
  /-- It suspends. -/
  | park (p : Pool O) (t : O.Task) (rest : List O.Task) (o : O.Io.Op)
      (k : O.Io.Res o → O.Prog Unit)
      (hstack : p.stack = t :: rest) (hframe : p.frames t = some (.op (.io o) k))
      (hsus : O.suspends o = true) :
      Step body p { p with stack := rest }
  /-- The event loop delivers a completion to a suspended coroutine. -/
  | resume (p : Pool O) (t : O.Task) (o : O.Io.Op) (k : O.Io.Res o → O.Prog Unit)
      (r : O.Io.Res o) (hstack : p.stack = []) (hframe : p.frames t = some (.op (.io o) k))
      (hsus : O.suspends o = true) :
      Step body p
        { p.setFrame t (k r) with world := p.world.answer o r, stack := [t] }
  /-- It starts coroutine `u`, which runs on top of it. -/
  | spawn (p : Pool O) (t u : O.Task) (rest : List O.Task) (k : Unit → O.Prog Unit)
      (hstack : p.stack = t :: rest) (hframe : p.frames t = some (.op (.spawn u) k))
      (hfresh : p.frames u = none) :
      Step body p
        { (p.setFrame t (k ())).setFrame u (body u) with
          world := p.world.start u, stack := u :: p.stack }
  /-- It has ended. -/
  | finish (p : Pool O) (t : O.Task) (rest : List O.Task) (r : Except O.Exn Unit)
      (hstack : p.stack = t :: rest) (hframe : p.frames t = some (.done r)) :
      Step body p { p with stack := rest }

/-- Coroutine `t` has just been started in members `mem`. -/
def Pool.start (body : O.Task → O.Prog Unit) (t : O.Task) (mem : O.Mem) : Pool O where
  world := ⟨mem, []⟩
  frames := Function.update (fun _ => none) t (some (body t))
  stack := [t]

/-- The states a pool reaches from the start of coroutine `t`, under every scheduling and all
    answers. -/
def Reachable (body : O.Task → O.Prog Unit) (t : O.Task) (mem : O.Mem) (p : Pool O) : Prop :=
  ReflTransGen (Step body) (Pool.start body t mem) p

/-- The states reached by changes of the world that `ok` allows. -/
def ReachableIn (ok : World O → World O → Prop) (body : O.Task → O.Prog Unit) (t : O.Task)
    (mem : O.Mem) (p : Pool O) : Prop :=
  ReflTransGen (fun p p' => Step body p p' ∧ ok p.world p'.world) (Pool.start body t mem) p

theorem ReachableIn.mono {ok ok' : World O → World O → Prop} {body : O.Task → O.Prog Unit}
    {t : O.Task} {mem : O.Mem} {p : Pool O} (hp : ReachableIn ok body t mem p)
    (h : ∀ w w', ok w w' → ok' w w') : ReachableIn ok' body t mem p := by
  induction hp with
  | refl => exact .refl
  | tail _ hstep ih => exact .tail ih ⟨hstep.1, h _ _ hstep.2⟩

theorem ReachableIn.reachable {ok : World O → World O → Prop} {body : O.Task → O.Prog Unit}
    {t : O.Task} {mem : O.Mem} {p : Pool O} (hp : ReachableIn ok body t mem p) :
    Reachable body t mem p := by
  induction hp with
  | refl => exact .refl
  | tail _ hstep ih => exact .tail ih hstep.1

/-- `t` is suspended on an operation. -/
def Pool.Suspended (p : Pool O) (t : O.Task) : Prop :=
  t ∉ p.stack ∧ ∃ (o : O.Io.Op) (k : O.Io.Res o → O.Prog Unit),
    p.frames t = some (.op (.io o) k) ∧ O.suspends o = true

/-- The operation `t` is at. -/
def Pool.awaits (p : Pool O) (t : O.Task) : Option O.Io.Op :=
  match p.frames t with
  | some (.op (.io o) _) => some o
  | _ => none

omit [DecidableEq O.Task] in
theorem Pool.frames_of_awaits {p : Pool O} {t : O.Task} {o : O.Io.Op} (h : p.awaits t = some o) :
    ∃ k, p.frames t = some (.op (.io o) k) := by
  unfold Pool.awaits at h
  split at h
  · next o' k hframe =>
      obtain rfl : o' = o := by simpa using h
      exact ⟨k, hframe⟩
  · exact nomatch h

/-- `t` has run to its end. -/
def Pool.Finished (p : Pool O) (t : O.Task) : Prop :=
  t ∉ p.stack ∧ ∃ r, p.frames t = some (.done r)

end Coroutine
