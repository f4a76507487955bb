import Cppvless.Coroutine.Turns

set_option autoImplicit false

/-! # Replaying a run

`replay` runs a pool against a given environment along a given order of completions, so that a run
can be computed. Everything it computes is reachable (`replay_reachable`). -/

namespace Coroutine

open Relation

variable {O : Object} [DecidableEq O.Task]

/-- Run the coroutines on the stack until each has suspended or ended, for at most `n` steps. An
    operation that can suspend does; any other is answered by `env`. -/
def settle (body : O.Task → O.Prog Unit) (env : World O → (o : O.Io.Op) → O.Io.Res o) :
    Nat → Pool O → Pool O
  | 0, p => p
  | n + 1, p =>
      match p.stack with
      | [] => p
      | t :: rest =>
          match p.frames t with
          | none => p
          | some (.done _) => settle body env n { p with stack := rest }
          | some (.op .get k) => settle body env n (p.setFrame t (k p.world.mem))
          | some (.op (.member f) k) =>
              settle body env n { p.setFrame t (k ()) with world := p.world.call f }
          | some (.op (.io o) k) =>
              if O.suspends o then settle body env n { p with stack := rest }
              else
                let r := env p.world o
                settle body env n { p.setFrame t (k r) with world := p.world.answer o r }
          | some (.op (.spawn u) k) =>
              match p.frames u with
              | none =>
                  settle body env n
                    { (p.setFrame t (k ())).setFrame u (body u) with
                      world := p.world.start u, stack := u :: p.stack }
              | some _ => p
          | some (.iter b s k) => settle body env n (p.setFrame t (Coro.unroll b s k))

/-- Complete, in this order, the pending operation of each coroutine of the schedule. -/
def replay (body : O.Task → O.Prog Unit) (env : World O → (o : O.Io.Op) → O.Io.Res o) (n : Nat) :
    List O.Task → Pool O → Pool O
  | [], p => p
  | t :: ts, p =>
      match p.stack, p.frames t with
      | [], some (.op (.io o) k) =>
          if O.suspends o then
            let r := env p.world o
            replay body env n ts
              (settle body env n
                { p.setFrame t (k r) with world := p.world.answer o r, stack := [t] })
          else p
      | _, _ => p

/-- Until the event loop has control only the coroutines on the stack run. -/
theorem settle_busy (body : O.Task → O.Prog Unit)
    (env : World O → (o : O.Io.Op) → O.Io.Res o) (n : Nat) (p : Pool O) :
    ReflTransGen (Busy (fun _ _ => True) body) p (settle body env n p) := by
  induction n generalizing p with
  | zero => exact .refl
  | succ n ih =>
      rw [settle]
      split
      · exact .refl
      · next t rest hstack =>
          have hbusy : p.stack ≠ [] := by simp [hstack]
          split
          · exact .refl
          · next r hframe => exact .head ⟨hbusy, .finish p t rest r hstack hframe, trivial⟩ (ih _)
          · next k hframe => exact .head ⟨hbusy, .internal p t rest _ _ _ hstack hframe rfl, trivial⟩ (ih _)
          · next f k hframe => exact .head ⟨hbusy, .internal p t rest _ _ _ hstack hframe rfl, trivial⟩ (ih _)
          · next o k hframe =>
              split
              · next hs => exact .head ⟨hbusy, .park p t rest o k hstack hframe hs, trivial⟩ (ih _)
              · exact .head ⟨hbusy, .answer p t rest o k _ hstack hframe, trivial⟩ (ih _)
          · next u k hframe =>
              split
              · next hfresh => exact .head ⟨hbusy, .spawn p t u rest k hstack hframe hfresh, trivial⟩ (ih _)
              · exact .refl
          · next hframe => exact .head ⟨hbusy, .internal p t rest _ _ _ hstack hframe rfl, trivial⟩ (ih _)

theorem settle_reaches (body : O.Task → O.Prog Unit)
    (env : World O → (o : O.Io.Op) → O.Io.Res o) (n : Nat) (p : Pool O) :
    ReflTransGen (Step body) p (settle body env n p) := by
  have hsteps : Busy (fun _ _ => True) body ≤ Step body := fun _ _ h => h.2.1
  exact ReflTransGen.mono hsteps _ _ (settle_busy body env n p)

theorem replay_reaches (body : O.Task → O.Prog Unit)
    (env : World O → (o : O.Io.Op) → O.Io.Res o) (n : Nat) (ts : List O.Task) (p : Pool O) :
    ReflTransGen (Step body) p (replay body env n ts p) := by
  induction ts generalizing p with
  | nil => exact .refl
  | cons t ts ih =>
      rw [replay]
      split
      · next o k hstack hframe =>
          split
          · next hs =>
              exact .head (.resume p t o k _ hstack hframe hs)
                ((settle_reaches body env n _).trans (ih _))
          · exact .refl
      · exact .refl

/-- One more completion, after which the event loop has control again. -/
theorem replay_completes {body : O.Task → O.Prog Unit}
    {env : World O → (o : O.Io.Op) → O.Io.Res o} {n : Nat} {t : O.Task} {p : Pool O} {o : O.Io.Op}
    (hstack : p.stack = []) (hawaits : p.awaits t = some o) (hsuspends : O.suspends o = true)
    (hidle : (replay body env n [t] p).stack = []) :
    Completes (fun _ _ => True) body p (replay body env n [t] p) := by
  obtain ⟨k, hframe⟩ := Pool.frames_of_awaits hawaits
  have hreplay : replay body env n [t] p = settle body env n
      { p.setFrame t (k (env p.world o)) with
        world := p.world.answer o (env p.world o), stack := [t] } := by
    rw [replay, hstack, hframe]
    simp only [hsuspends, if_true, replay]
  refine ⟨hstack, _, .resume p t o k (env p.world o) hstack hframe hsuspends, trivial, ?_, hidle⟩
  rw [hreplay]
  exact settle_busy body env n _

/-- The run of `main` from members `mem` along `ts`. -/
def run (body : O.Task → O.Prog Unit) (main : O.Task) (mem : O.Mem)
    (env : World O → (o : O.Io.Op) → O.Io.Res o) (n : Nat) (ts : List O.Task) : Pool O :=
  replay body env n ts (settle body env n (Pool.start body main mem))

/-- A computed run is a run. -/
theorem run_reachable (body : O.Task → O.Prog Unit) (main : O.Task) (mem : O.Mem)
    (env : World O → (o : O.Io.Op) → O.Io.Res o) (n : Nat) (ts : List O.Task) :
    Reachable body main mem (run body main mem env n ts) :=
  (settle_reaches body env n _).trans (replay_reaches body env n ts _)

/-! ## Runs that keep to a condition -/

theorem settle_one (body : O.Task → O.Prog Unit) (env : World O → (o : O.Io.Op) → O.Io.Res o)
    (p : Pool O) : settle body env 1 p = p ∨ Step body p (settle body env 1 p) := by
  rw [settle]
  split
  · exact .inl rfl
  · next t rest hstack =>
      split
      · exact .inl rfl
      · next r hframe => exact .inr (.finish p t rest r hstack hframe)
      · next k hframe => exact .inr (.internal p t rest _ _ _ hstack hframe rfl)
      · next f k hframe => exact .inr (.internal p t rest _ _ _ hstack hframe rfl)
      · next o k hframe =>
          split
          · next hs => exact .inr (.park p t rest o k hstack hframe hs)
          · exact .inr (.answer p t rest o k _ hstack hframe)
      · next u k hframe =>
          split
          · next hfresh => exact .inr (.spawn p t u rest k hstack hframe hfresh)
          · exact .inl rfl
      · next hframe => exact .inr (.internal p t rest _ _ _ hstack hframe rfl)

theorem replay_one (body : O.Task → O.Prog Unit) (env : World O → (o : O.Io.Op) → O.Io.Res o)
    (t : O.Task) (p : Pool O) :
    replay body env 0 [t] p = p ∨ Step body p (replay body env 0 [t] p) := by
  rw [replay]
  split
  · next o k hstack hframe =>
      split
      · next hs => exact .inr (.resume p t o k _ hstack hframe hs)
      · exact .inl rfl
  · exact .inl rfl

theorem ReachableIn.step {ok : World O → World O → Prop} {body : O.Task → O.Prog Unit}
    {main : O.Task} {mem : O.Mem} {p p' : Pool O} (hp : ReachableIn ok body main mem p) (hstep : p' = p ∨ Step body p p')
    (hok : ok p.world p'.world) : ReachableIn ok body main mem p' := by
  rcases hstep with rfl | hstep
  · exact hp
  · exact .tail hp ⟨hstep, hok⟩

variable (ok : World O → World O → Prop) [DecidableRel ok]

/-- As `settle`, up to the first change of the world that is not `ok`. -/
def settleIn (body : O.Task → O.Prog Unit) (env : World O → (o : O.Io.Op) → O.Io.Res o) :
    Nat → Pool O → Pool O
  | 0, p => p
  | n + 1, p =>
      if ok p.world (settle body env 1 p).world then settleIn body env n (settle body env 1 p)
      else p

/-- As `replay`, up to the first change of the world that is not `ok`. -/
def replayIn (body : O.Task → O.Prog Unit) (env : World O → (o : O.Io.Op) → O.Io.Res o) (n : Nat) :
    List O.Task → Pool O → Pool O
  | [], p => p
  | t :: ts, p =>
      if ok p.world (replay body env 0 [t] p).world then
        replayIn body env n ts (settleIn ok body env n (replay body env 0 [t] p))
      else p

/-- The run of `main` from members `mem` along `ts` for as long as it is `ok`. -/
def runIn (body : O.Task → O.Prog Unit) (main : O.Task) (mem : O.Mem)
    (env : World O → (o : O.Io.Op) → O.Io.Res o) (n : Nat) (ts : List O.Task) : Pool O :=
  replayIn ok body env n ts (settleIn ok body env n (Pool.start body main mem))

variable {ok} {body : O.Task → O.Prog Unit} {main : O.Task} {mem : O.Mem} {p : Pool O}

theorem settleIn_reachableIn (env : World O → (o : O.Io.Op) → O.Io.Res o) (n : Nat)
    (hp : ReachableIn ok body main mem p) :
    ReachableIn ok body main mem (settleIn ok body env n p) := by
  induction n generalizing p with
  | zero => exact hp
  | succ n ih =>
      rw [settleIn]
      split
      · next hok => exact ih (hp.step (settle_one body env p) hok)
      · exact hp

theorem replayIn_reachableIn (env : World O → (o : O.Io.Op) → O.Io.Res o) (n : Nat)
    (ts : List O.Task) (hp : ReachableIn ok body main mem p) :
    ReachableIn ok body main mem (replayIn ok body env n ts p) := by
  induction ts generalizing p with
  | nil => exact hp
  | cons t ts ih =>
      rw [replayIn]
      split
      · next hok => exact ih (settleIn_reachableIn env n (hp.step (replay_one body env t p) hok))
      · exact hp

theorem runIn_reachableIn (env : World O → (o : O.Io.Op) → O.Io.Res o) (n : Nat)
    (ts : List O.Task) : ReachableIn ok body main mem (runIn ok body main mem env n ts) :=
  replayIn_reachableIn env n ts (settleIn_reachableIn env n .refl)

end Coroutine
