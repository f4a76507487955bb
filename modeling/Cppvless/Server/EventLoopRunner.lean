import Cppvless.Vless.Protocol
import Mathlib.Algebra.BigOperators.Fin
import Mathlib.Algebra.Order.BigOperators.Group.Finset
import Mathlib.Logic.Relation

set_option autoImplicit false

/-! # The threads of the event loops

`runEventLoops` of `server/event_loop_runner.cpp`: one thread for each event loop, the handler of
the exceptions that end it, the signal handler, and the thread that joins them all. An access to an
atomic variable is one step, and so is taking or leaving `errorMu`; the steps of the threads come
in any order.

Of `EventLoop::run` and `EventLoop::stop` there is the flag `running_`. What comes before
`running_ = true` and a turn of the loop may each throw; a turn comes back, as `stop` ends the accept
that the ring waits for. `run` sets the flag whether or not `stop` was called before, and this is
what the last section is about. -/

namespace Cppvless

open Relation

/-- Where the thread of a loop is. -/
inductive LoopThread
  /-- not created -/
  | unstarted
  /-- in `EventLoop::run`, before `running_ = true` -/
  | opening
  /-- before the test of `running_` -/
  | testing
  /-- in the body of the loop -/
  | turning
  /-- in the exception handler, before the critical section -/
  | locking (what : Bytes)
  /-- in it, before the test of `hasError` -/
  | holding (what : Bytes)
  /-- in it, before the assignment to `errorMessage` -/
  | assigning (what : Bytes)
  /-- behind it, before `hasError = true` -/
  | flagging
  /-- behind that, with the loops from `k` on to be stopped -/
  | stopping (k : Nat)
  | exited
  deriving DecidableEq

namespace LoopThread

/-- The message of the exception, as long as the handler has it. -/
def what : LoopThread → Option Bytes
  | locking what | holding what | assigning what => some what
  | _ => none

/-- In the critical section. -/
def Inside : LoopThread → Prop
  | holding _ | assigning _ => True
  | _ => False

/-- In the exception handler, before `hasError = true`. -/
def Unflagged : LoopThread → Prop
  | locking _ | holding _ | assigning _ | flagging => True
  | _ => False

/-- In the exception handler. -/
def Failed : LoopThread → Prop
  | stopping _ => True
  | p => p.Unflagged

/-- In the loop. -/
def Looping (p : LoopThread) : Prop := p = testing ∨ p = turning

/-- In the exception handler, with the loop `j` among those to be stopped. -/
def WillStop (j : Nat) : LoopThread → Prop
  | stopping k => k ≤ j
  | p => p.Unflagged

/-- Behind `running_ = true`, or never to come there. -/
def Opened : LoopThread → Prop
  | unstarted | opening => False
  | _ => True

end LoopThread

/-- Where the thread in `runEventLoops` is. -/
inductive LoopMain
  /-- with the threads from `k` on to be created -/
  | spawning (k : Nat)
  /-- with the threads from `k` on to be joined -/
  | joining (k : Nat)
  | returned (code : Nat) (errorOut : Bytes)
  deriving DecidableEq

namespace LoopMain

/-- The number of threads created, out of `n`. -/
def created (n : Nat) : LoopMain → Nat
  | spawning k => k
  | _ => n

/-- The number of threads joined, out of `n`. -/
def joined (n : Nat) : LoopMain → Nat
  | spawning _ => 0
  | joining k => k
  | returned _ _ => n

def Returned : LoopMain → Prop
  | returned _ _ => True
  | _ => False

end LoopMain

/-- The variables of `runEventLoops`, `running_` of the `n` loops, the threads, and what there is to
    remember: the messages thrown, the last one first, and the loops that the signal handler stopped. -/
structure LoopRunner (n : Nat) where
  main : LoopMain
  threads : Fin n → LoopThread := fun _ => .unstarted
  running : Fin n → Bool := fun _ => false
  hasError : Bool := false
  errorMessage : Bytes := []
  /-- who holds it -/
  errorMu : Option (Fin n) := none
  thrown : List Bytes := []
  signalled : Fin n → Bool := fun _ => false

namespace LoopRunner

variable {n : Nat}

def mismatch : Bytes := ascii "internal: loops/ports size mismatch"

def workerFailed : Bytes := ascii "worker thread failed"

/-- The call of `runEventLoops`. -/
def start (ports : List UInt16) : LoopRunner n where
  main := if n ≠ ports.length then .returned 1 mismatch else .spawning 0

/-- The thread `i` is at `p`. -/
def move (s : LoopRunner n) (i : Fin n) (p : LoopThread) : LoopRunner n :=
  { s with threads := Function.update s.threads i p }

/-- `running_` in `EventLoop::run` and `EventLoop::stop` -/
def setRunning (s : LoopRunner n) (i : Fin n) (b : Bool) : LoopRunner n :=
  { s with running := Function.update s.running i b }

/-- What `runEventLoops` returns behind the joins. -/
def result (s : LoopRunner n) : LoopMain :=
  if s.hasError then .returned 1 (if s.errorMessage = [] then workerFailed else s.errorMessage)
  else .returned 0 []

/-- The next step of `runEventLoops`, behind `installSignalHandler`. -/
def mainStep (s : LoopRunner n) : Option (LoopRunner n) :=
  match s.main with
  | .spawning k =>
      if h : k < n then some { s.move ⟨k, h⟩ .opening with main := .spawning (k + 1) }
      else some { s with main := .joining 0 }
  | .joining k =>
      if h : k < n then
        if s.threads ⟨k, h⟩ = .exited then some { s with main := .joining (k + 1) } else none
      else some { s with main := s.result }
  | .returned _ _ => none

/-- The next step of the thread of the loop `i`, as long as nothing is thrown. -/
def threadStep (s : LoopRunner n) (i : Fin n) : Option (LoopRunner n) :=
  match s.threads i with
  | .unstarted => none
  | .opening => some ((s.setRunning i true).move i .testing)
  | .testing => some (s.move i (if s.running i then .turning else .exited))
  | .turning => some (s.move i .testing)
  | .locking what =>
      if s.errorMu = none then some { s.move i (.holding what) with errorMu := some i } else none
  | .holding what =>
      if s.hasError then some { s.move i .flagging with errorMu := none }
      else some (s.move i (.assigning what))
  | .assigning what => some { s.move i .flagging with errorMessage := what, errorMu := none }
  | .flagging => some { s.move i (.stopping 0) with hasError := true }
  | .stopping k =>
      if h : k < n then some ((s.setRunning ⟨k, h⟩ false).move i (.stopping (k + 1)))
      else some (s.move i .exited)
  | .exited => none

/-- `EventLoop::run` throws. -/
def throw (s : LoopRunner n) (i : Fin n) (what : Bytes) : Option (LoopRunner n) :=
  if s.threads i = .opening ∨ s.threads i = .turning then
    some { s.move i (.locking what) with thrown := what :: s.thrown }
  else none

/-- `signalHandler` comes to the loop `i`. -/
def signal (s : LoopRunner n) (i : Fin n) : Option (LoopRunner n) :=
  match s.main with
  | .returned _ _ => none
  | _ => some { s.setRunning i false with signalled := Function.update s.signalled i true }

/-- A step of one of the threads. -/
inductive Event (n : Nat)
  | main
  | thread (i : Fin n)
  | throws (i : Fin n) (what : Bytes)
  | signal (i : Fin n)
  deriving DecidableEq

def step (s : LoopRunner n) : Event n → Option (LoopRunner n)
  | .main => s.mainStep
  | .thread i => s.threadStep i
  | .throws i what => s.throw i what
  | .signal i => s.signal i

/-- The steps of the threads, in the order in which they come. -/
def run (s : LoopRunner n) : List (Event n) → Option (LoopRunner n)
  | [] => some s
  | e :: events => (s.step e).bind fun s' => s'.run events

/-- What a call of `runEventLoops` can come to. -/
def Reachable (ports : List UInt16) (s : LoopRunner n) : Prop :=
  ∃ events, (start ports).run events = some s

/-! ## What a step can do -/

variable {s s' : LoopRunner n} {e : Event n} {i j : Fin n} {ports : List UInt16}

theorem move_threads (s : LoopRunner n) (i j : Fin n) (p : LoopThread) :
    (s.move i p).threads j = if j = i then p else s.threads j := Function.update_apply ..

theorem setRunning_running (s : LoopRunner n) (i j : Fin n) (b : Bool) :
    (s.setRunning i b).running j = if j = i then b else s.running j := Function.update_apply ..

@[simp] theorem setRunning_threads (s : LoopRunner n) (i : Fin n) (b : Bool) :
    (s.setRunning i b).threads = s.threads := rfl

@[simp] theorem move_running (s : LoopRunner n) (i : Fin n) (p : LoopThread) :
    (s.move i p).running = s.running := rfl

@[simp] theorem move_main (s : LoopRunner n) (i : Fin n) (p : LoopThread) :
    (s.move i p).main = s.main := rfl

@[simp] theorem setRunning_main (s : LoopRunner n) (i : Fin n) (b : Bool) :
    (s.setRunning i b).main = s.main := rfl

/-- The steps, one by one. -/
inductive Moves (s : LoopRunner n) : Event n → LoopRunner n → Prop
  | create (k : Nat) (hk : k < n) (hmain : s.main = .spawning k) :
      Moves s .main { s.move ⟨k, hk⟩ .opening with main := .spawning (k + 1) }
  | created (k : Nat) (hk : n ≤ k) (hmain : s.main = .spawning k) :
      Moves s .main { s with main := .joining 0 }
  | join (k : Nat) (hk : k < n) (hmain : s.main = .joining k)
      (hexited : s.threads ⟨k, hk⟩ = .exited) : Moves s .main { s with main := .joining (k + 1) }
  | leave (k : Nat) (hk : n ≤ k) (hmain : s.main = .joining k) :
      Moves s .main { s with main := s.result }
  | opened (i : Fin n) (hi : s.threads i = .opening) :
      Moves s (.thread i) ((s.setRunning i true).move i .testing)
  | turn (i : Fin n) (hi : s.threads i = .testing) (hrunning : s.running i = true) :
      Moves s (.thread i) (s.move i .turning)
  | stopped (i : Fin n) (hi : s.threads i = .testing) (hrunning : s.running i = false) :
      Moves s (.thread i) (s.move i .exited)
  | turned (i : Fin n) (hi : s.threads i = .turning) : Moves s (.thread i) (s.move i .testing)
  | lock (i : Fin n) (what : Bytes) (hi : s.threads i = .locking what) (hfree : s.errorMu = none) :
      Moves s (.thread i) { s.move i (.holding what) with errorMu := some i }
  | later (i : Fin n) (what : Bytes) (hi : s.threads i = .holding what) (herr : s.hasError = true) :
      Moves s (.thread i) { s.move i .flagging with errorMu := none }
  | first (i : Fin n) (what : Bytes) (hi : s.threads i = .holding what) (herr : s.hasError = false) :
      Moves s (.thread i) (s.move i (.assigning what))
  | assign (i : Fin n) (what : Bytes) (hi : s.threads i = .assigning what) :
      Moves s (.thread i) { s.move i .flagging with errorMessage := what, errorMu := none }
  | flag (i : Fin n) (hi : s.threads i = .flagging) :
      Moves s (.thread i) { s.move i (.stopping 0) with hasError := true }
  | stop (i : Fin n) (k : Nat) (hk : k < n) (hi : s.threads i = .stopping k) :
      Moves s (.thread i) ((s.setRunning ⟨k, hk⟩ false).move i (.stopping (k + 1)))
  | stoppedAll (i : Fin n) (k : Nat) (hk : n ≤ k) (hi : s.threads i = .stopping k) :
      Moves s (.thread i) (s.move i .exited)
  | throws (i : Fin n) (what : Bytes) (hi : s.threads i = .opening ∨ s.threads i = .turning) :
      Moves s (.throws i what) { s.move i (.locking what) with thrown := what :: s.thrown }
  | signal (i : Fin n) (hmain : ¬ s.main.Returned) :
      Moves s (.signal i)
        { s.setRunning i false with signalled := Function.update s.signalled i true }

theorem mainStep_moves (h : s.mainStep = some s') : Moves s .main s' := by
  unfold mainStep at h
  split at h
  · next k hmain =>
      split at h
      · next hk => cases h; exact .create k hk hmain
      · next hk => cases h; exact .created k (by omega) hmain
  · next k hmain =>
      split at h
      · next hk =>
          split at h
          · next hexited => cases h; exact .join k hk hmain hexited
          · cases h
      · next hk => cases h; exact .leave k (by omega) hmain
  · cases h

theorem threadStep_moves (h : s.threadStep i = some s') : Moves s (.thread i) s' := by
  unfold threadStep at h
  cases hi : s.threads i with
  | unstarted => simp [hi] at h
  | opening => simp only [hi] at h; cases h; exact .opened i hi
  | testing =>
      simp only [hi] at h
      cases h
      cases hrunning : s.running i with
      | false => exact .stopped i hi hrunning
      | true => exact .turn i hi hrunning
  | turning => simp only [hi] at h; cases h; exact .turned i hi
  | locking what =>
      simp only [hi] at h
      split at h
      · next hfree => cases h; exact .lock i what hi hfree
      · cases h
  | holding what =>
      simp only [hi] at h
      split at h
      · next herr => cases h; exact .later i what hi herr
      · next herr => cases h; exact .first i what hi (by simpa using herr)
  | assigning what => simp only [hi] at h; cases h; exact .assign i what hi
  | flagging => simp only [hi] at h; cases h; exact .flag i hi
  | stopping k =>
      simp only [hi] at h
      split at h
      · next hk => cases h; exact .stop i k hk hi
      · next hk => cases h; exact .stoppedAll i k (by omega) hi
  | exited => simp [hi] at h

theorem step_moves (h : s.step e = some s') : Moves s e s' := by
  cases e with
  | main => exact mainStep_moves h
  | thread i => exact threadStep_moves h
  | throws i what =>
      change s.throw i what = some s' at h
      unfold throw at h
      split at h
      · next hi => cases h; exact .throws i what hi
      · cases h
  | signal i =>
      change s.signal i = some s' at h
      unfold signal at h
      split at h
      · cases h
      · next hmain =>
          cases h
          refine .signal i ?_
          intro hreturned
          cases hm : s.main with
          | returned code errorOut => exact hmain _ _ hm
          | spawning k => simp [hm, LoopMain.Returned] at hreturned
          | joining k => simp [hm, LoopMain.Returned] at hreturned

/-- What every step keeps, a run keeps. -/
theorem run_keeps {P : LoopRunner n → Prop}
    (hstep : ∀ {s e s'}, P s → Moves s e s' → P s') {events : List (Event n)} (hs : P s)
    (h : s.run events = some s') : P s' := by
  induction events generalizing s with
  | nil => cases h; exact hs
  | cons e events ih =>
      obtain ⟨t, ht, hrest⟩ := Option.bind_eq_some_iff.1 h
      exact ih (hstep hs (step_moves ht)) hrest

/-! ## What holds at all times -/

/-- The threads and the one that created them. -/
structure Joins (s : LoopRunner n) : Prop where
  created : ∀ i, s.threads i ≠ .unstarted ↔ i.val < s.main.created n
  joined : ∀ i, i.val < s.main.joined n → s.threads i = .exited
  /-- A loop that was left is stopped, and so are the loops behind in a handler's round. -/
  exited : ∀ i, s.threads i = .exited → s.running i = false
  round : ∀ i k, s.threads i = .stopping k → i.val < k → s.running i = false

/-- The exceptions and what is kept of them. -/
structure Errors (s : LoopRunner n) : Prop where
  mutex : ∀ i, s.errorMu = some i ↔ (s.threads i).Inside
  what : ∀ i what, (s.threads i).what = some what → what ∈ s.thrown
  recorded : s.hasError = true ∨ (∃ i, s.threads i = .flagging) → s.errorMessage ∈ s.thrown
  pending : s.thrown ≠ [] → s.hasError = true ∨ ∃ i, (s.threads i).Unflagged
  failed : ∀ i, (s.threads i).Failed → s.thrown ≠ []
  stopped : ∀ i, (s.threads i).Opened → s.running i = false →
    s.signalled i = true ∨ s.thrown ≠ []

theorem Joins.step (h : Joins s) (hm : Moves s e s') : Joins s' := by
  obtain ⟨hc, hj, he, hr⟩ := h
  cases hm <;> constructor <;>
    simp only [move_threads, setRunning_running, setRunning_threads, move_running, move_main,
      setRunning_main] <;>
    grind [LoopMain.created, LoopMain.joined, result]

/-- The next thread to be created. -/
theorem Joins.unstarted (h : Joins s) (k : Nat) (hk : k < n) (hmain : s.main = .spawning k) :
    s.threads ⟨k, hk⟩ = .unstarted := by
  have hcreated := h.created ⟨k, hk⟩
  rw [hmain] at hcreated
  by_contra hne
  exact Nat.lt_irrefl k (hcreated.1 hne)

theorem Errors.mutex_step (h : Errors s) (hj : Joins s) (hm : Moves s e s') :
    ∀ i, s'.errorMu = some i ↔ (s'.threads i).Inside := by
  have hmu := h.mutex
  have hnew := hj.unstarted
  cases hm <;> intro j <;> simp only [move_threads, setRunning_threads] <;>
    grind [LoopThread.Inside, move, setRunning]

theorem Errors.what_step (h : Errors s) (hj : Joins s) (hm : Moves s e s') :
    ∀ i what, (s'.threads i).what = some what → what ∈ s'.thrown := by
  have hwhat := h.what
  have hnew := hj.unstarted
  cases hm <;> intro j <;> simp only [move_threads, setRunning_threads] <;>
    grind [LoopThread.what, move, setRunning]

theorem Errors.failed_step (h : Errors s) (hj : Joins s) (hm : Moves s e s') :
    ∀ i, (s'.threads i).Failed → s'.thrown ≠ [] := by
  have hfailed := h.failed
  have hnew := hj.unstarted
  cases hm <;> intro j <;> simp only [move_threads, setRunning_threads] <;>
    grind [LoopThread.Failed, LoopThread.Unflagged, move, setRunning]

theorem Errors.stopped_step (h : Errors s) (hj : Joins s) (hm : Moves s e s') :
    ∀ i, (s'.threads i).Opened → s'.running i = false → s'.signalled i = true ∨ s'.thrown ≠ [] := by
  have hstopped := h.stopped
  have hfailed := h.failed
  have hnew := hj.unstarted
  cases hm <;> intro j <;> simp only [move_threads, setRunning_threads, setRunning_running, move_running] <;>
    grind [LoopThread.Opened, LoopThread.Failed, move, setRunning]

theorem Errors.recorded_step (h : Errors s) (hj : Joins s) (hm : Moves s e s') :
    s'.hasError = true ∨ (∃ i, s'.threads i = .flagging) → s'.errorMessage ∈ s'.thrown := by
  have hrecorded := h.recorded
  have hwhat := h.what
  have hnew := hj.unstarted
  cases hm <;> simp only [move_threads, setRunning_threads] <;>
    grind [LoopThread.what, move, setRunning]

theorem Errors.pending_step (h : Errors s) (hj : Joins s) (hm : Moves s e s') :
    s'.thrown ≠ [] → s'.hasError = true ∨ ∃ i, (s'.threads i).Unflagged := by
  have hpending := h.pending
  have hnew := hj.unstarted
  cases hm <;> simp only [move_threads, setRunning_threads] <;>
    grind [LoopThread.Unflagged, move, setRunning]

/-- What holds at all times, when there is a port for every loop. -/
structure Inv (s : LoopRunner n) : Prop where
  joins : Joins s
  errors : Errors s
  /-- What was returned was read behind the joins. -/
  result : s.main.Returned → s.main = s.result

theorem Errors.step (h : Errors s) (hj : Joins s) (hm : Moves s e s') : Errors s' where
  mutex := h.mutex_step hj hm
  what := h.what_step hj hm
  recorded := h.recorded_step hj hm
  pending := h.pending_step hj hm
  failed := h.failed_step hj hm
  stopped := h.stopped_step hj hm

/-- Nobody moves once the call has returned: the threads are joined. -/
theorem Joins.not_moves (h : Joins s) (hreturned : s.main.Returned) : ¬ Moves s e s' := by
  intro hm
  have hexited : ∀ i, s.threads i = .exited := by
    intro i
    apply h.joined i
    cases hmain : s.main with
    | returned code errorOut => exact i.isLt
    | spawning k => simp [hmain, LoopMain.Returned] at hreturned
    | joining k => simp [hmain, LoopMain.Returned] at hreturned
  cases hm <;> grind [LoopMain.Returned]

theorem Inv.step (h : Inv s) (hm : Moves s e s') : Inv s' where
  joins := h.joins.step hm
  errors := h.errors.step h.joins hm
  result := by
    intro hreturned
    by_cases hbefore : s.main.Returned
    · exact absurd hm (h.joins.not_moves hbefore)
    · cases hm with
      | leave k hk hmain => rfl
      | create | created | join => simp [LoopMain.Returned] at hreturned
      | _ => exact absurd hreturned hbefore

theorem start_inv (hports : n = ports.length) : Inv (start (n := n) ports) := by
  have hmain : (start (n := n) ports).main = .spawning 0 := by simp [start, hports]
  constructor
  · constructor <;> simp [start, hports, LoopMain.created, LoopMain.joined]
  · constructor <;> simp [start, LoopThread.Inside, LoopThread.what, LoopThread.Failed,
      LoopThread.Unflagged, LoopThread.Opened]
  · simp [hmain, LoopMain.Returned]

theorem Reachable.inv (h : Reachable ports s) (hports : n = ports.length) : Inv s := by
  obtain ⟨events, hrun⟩ := h
  exact run_keeps (fun hs hm => hs.step hm) (start_inv hports) hrun

/-- Without a port for every loop nothing is ever done. -/
theorem Reachable.mismatch (h : Reachable ports s) (hports : n ≠ ports.length) :
    s = start ports := by
  obtain ⟨events, hrun⟩ := h
  have hmain : (start (n := n) ports).main = .returned 1 LoopRunner.mismatch := by
    simp [start, hports]
  refine run_keeps (P := fun s => s = start ports) ?_ rfl hrun
  rintro s e s' rfl hm
  cases hm <;> simp_all [start, LoopMain.Returned]

/-- What a call of `runEventLoops` returns, whatever the order of the steps: 1 and the message of
    one of the exceptions if there was any, and otherwise 0, when the signal handler has stopped
    every loop. All threads are gone then and all loops are stopped. -/
theorem runEventLoops_result (h : Reachable ports s) {code : Nat} {errorOut : Bytes}
    (hreturned : s.main = .returned code errorOut) :
    (n ≠ ports.length ∧ code = 1 ∧ errorOut = mismatch ∧ ∀ i, s.threads i = .unstarted) ∨
    n = ports.length ∧ (∀ i, s.threads i = .exited ∧ s.running i = false) ∧
      (s.thrown = [] ∧ code = 0 ∧ errorOut = [] ∧ (∀ i, s.signalled i = true) ∨
        code = 1 ∧ ∃ what ∈ s.thrown, errorOut = if what = [] then workerFailed else what) := by
  by_cases hports : n = ports.length
  · right
    have hinv := h.inv hports
    have hexited : ∀ i, s.threads i = .exited :=
      fun i => hinv.joins.joined i (by rw [hreturned]; exact i.isLt)
    have hresult := hinv.result (by rw [hreturned]; trivial)
    refine ⟨hports, fun i => ⟨hexited i, hinv.joins.exited i (hexited i)⟩, ?_⟩
    rw [hreturned, result] at hresult
    cases herr : s.hasError with
    | false =>
        have hnone : s.thrown = [] := by
          by_contra hne
          rcases hinv.errors.pending hne with hflag | ⟨i, hi⟩
          · simp [herr] at hflag
          · simp [hexited i, LoopThread.Unflagged] at hi
        left
        simp only [herr, Bool.false_eq_true, if_false, LoopMain.returned.injEq] at hresult
        refine ⟨hnone, hresult.1, hresult.2, fun i => ?_⟩
        have hstopped := hinv.errors.stopped i (by simp [hexited i, LoopThread.Opened])
          (hinv.joins.exited i (hexited i))
        simpa [hnone] using hstopped
    | true =>
        right
        simp only [herr, if_true, LoopMain.returned.injEq] at hresult
        exact ⟨hresult.1, s.errorMessage, hinv.errors.recorded (.inl herr), hresult.2⟩
  · left
    have hs := h.mismatch hports
    subst hs
    simp only [start, ne_eq, hports, not_false_eq_true, if_true, LoopMain.returned.injEq]
      at hreturned
    exact ⟨hports, hreturned.1.symm, hreturned.2.symm, fun i => rfl⟩

/-- The handler of an exception of the loop `i`, from the throw to its end, with two loops. -/
def handled (i : Fin n) (what : Bytes) : List (Event n) :=
  .throws i what :: List.replicate 7 (.thread i)

/-- The loop `j` turns when the loop `i` fails to bind. -/
def bindFails (i j : Fin n) : List (Event n) :=
  [.main, .main, .main, .thread j, .thread j] ++ handled i (ascii "failed to bind listen socket")

/-- The loop `j` sees the flag, and both threads are joined. -/
def joined (j : Fin n) : List (Event n) := [.thread j, .thread j, .main, .main, .main]

/-- Two loops on one port after `events`. -/
def after (events : List (Event 2)) : LoopRunner 2 :=
  ((start [1080, 1080]).run events).getD (start [])

theorem reachable_after {events : List (Event 2)}
    (h : ((start (n := 2) [1080, 1080]).run events).isSome = true) :
    Reachable [1080, 1080] (after events) := by
  obtain ⟨s, hs⟩ := Option.isSome_iff_exists.1 h
  exact ⟨events, by rw [after, hs]; rfl⟩

theorem runEventLoops_result_bindFails :
    ((after (bindFails 0 1 ++ joined 1)).threads 0 = .exited ∧
      (after (bindFails 0 1 ++ joined 1)).running 0 = false) ∧
      (after (bindFails 0 1 ++ joined 1)).threads 1 = .exited ∧
        (after (bindFails 0 1 ++ joined 1)).running 1 = false := by
  have hmain : (after (bindFails 0 1 ++ joined 1)).main =
      .returned 1 (ascii "failed to bind listen socket") := by decide +kernel
  rcases runEventLoops_result (reachable_after (by decide +kernel)) hmain with
    ⟨hports, -⟩ | ⟨-, hexited, -⟩
  · exact absurd rfl hports
  · exact ⟨hexited 0, hexited 1⟩

/-! ## Shutdown

Every thread is behind `running_ = true`, or threw before. Then no flag is set again, and the call
returns if the loops that still turn are told to stop: now, or in a round that is to come. -/

/-- Every thread is behind `running_ = true`, or threw before. -/
def Opened (s : LoopRunner n) : Prop := ∀ i, (s.threads i).Opened

/-- A loop that still turns has been stopped, or a handler will come to it. -/
def Told (s : LoopRunner n) : Prop :=
  ∀ j, (s.threads j).Looping → s.running j = false ∨ ∃ i : Fin n, (s.threads i).WillStop j.val

/-- A step that may go on for ever: a turn of a loop that has not been stopped, or a signal. -/
def Idle (s : LoopRunner n) : Event n → Prop
  | .thread i => (s.threads i).Looping ∧ s.running i = true
  | .signal _ => True
  | _ => False

instance (s : LoopRunner n) (e : Event n) : Decidable (Idle s e) :=
  match e with
  | .thread i =>
      inferInstanceAs (Decidable ((s.threads i = .testing ∨ s.threads i = .turning) ∧
        s.running i = true))
  | .signal _ => .isTrue trivial
  | .main | .throws _ _ => .isFalse id

/-- A step without an exception and without a signal. -/
def Event.Quiet : Event n → Prop
  | .main | .thread _ => True
  | _ => False

theorem Opened.step (h : Opened s) (hj : Joins s) (hm : Moves s e s') : Opened s' := by
  have hnew := hj.unstarted
  unfold Opened at h
  cases hm <;> intro j <;> simp only [move_threads, setRunning_threads] <;>
    grind [LoopThread.Opened]

theorem Told.step (h : Told s) (ho : Opened s) (hj : Joins s) (hm : Moves s e s') : Told s' := by
  have hnew := hj.unstarted
  unfold Told at h
  unfold Opened at ho
  cases hm <;> intro j <;>
    simp only [move_threads, setRunning_threads, setRunning_running, move_running] <;>
    grind [LoopThread.Looping, LoopThread.WillStop, LoopThread.Unflagged, LoopThread.Opened]

/-- The steps left to a thread: those of its exception handler, and those that lead there. -/
def threadWork (n : Nat) (running : Bool) : LoopThread → Nat
  | .unstarted => n + 9
  | .opening => n + 8
  | .testing => if running then n + 7 else 1
  | .turning => if running then n + 7 else n + 6
  | .locking _ => n + 5
  | .holding _ => n + 4
  | .assigning _ => n + 3
  | .flagging => n + 2
  | .stopping k => n - k + 1
  | .exited => 0

/-- The steps left to the thread in `runEventLoops`. -/
def mainWork (n : Nat) : LoopMain → Nat
  | .spawning k => n - k + n + 2
  | .joining k => n - k + 1
  | .returned _ _ => 0

theorem mainWork_result (s : LoopRunner n) : mainWork n s.result = 0 := by
  unfold result
  split <;> rfl

/-- The steps left. -/
def work (s : LoopRunner n) : Nat :=
  mainWork n s.main + ∑ i, threadWork n (s.running i) (s.threads i)

/-- A loop that is stopped has less to do. -/
theorem threadWork_stop (b : Bool) (p : LoopThread) :
    threadWork n false p ≤ threadWork n b p := by
  cases b <;> cases p <;> simp [threadWork]

/-- No step makes more work for anyone. -/
theorem Moves.threadWork_le (hm : Moves s e s') (ho : Opened s) (hj : Joins s) (j : Fin n) :
    threadWork n (s'.running j) (s'.threads j) ≤ threadWork n (s.running j) (s.threads j) := by
  have hnew := hj.unstarted
  unfold Opened at ho
  cases hm <;> simp only [move_threads, setRunning_threads, setRunning_running, move_running] <;>
    grind [threadWork, threadWork_stop, LoopThread.Opened]

theorem Moves.mainWork_le (hm : Moves s e s') : mainWork n s'.main ≤ mainWork n s.main := by
  cases hm <;> grind [mainWork, move_main, setRunning_main, result]

/-- A step that is not idle makes less work for the one whose step it is. -/
theorem Moves.work_lt (hm : Moves s e s') (ho : Opened s) (hidle : ¬ Idle s e) :
    mainWork n s'.main < mainWork n s.main ∨
      ∃ i, threadWork n (s'.running i) (s'.threads i) < threadWork n (s.running i) (s.threads i) := by
  unfold Opened at ho
  cases hm with
  | create k hk hmain => left; simp only [mainWork, hmain]; omega
  | created k hk hmain => left; simp only [mainWork, hmain]; omega
  | join k hk hmain hexited => left; simp only [mainWork, hmain]; omega
  | leave k hk hmain => left; rw [mainWork_result, hmain]; exact Nat.succ_pos _
  | opened i hi => exact absurd (ho i) (by simp [hi, LoopThread.Opened])
  | signal i hmain => exact absurd trivial hidle
  | turn i hi hrunning => exact absurd ⟨by simp [hi, LoopThread.Looping], hrunning⟩ hidle
  | turned i hi =>
      have hrunning : s.running i = false := by
        by_contra hne
        exact hidle ⟨by simp [hi, LoopThread.Looping], by simpa using hne⟩
      exact .inr ⟨i, by simp [move_threads, threadWork, hi, hrunning]⟩
  | throws i what hi =>
      right
      use i
      rcases hi with hi | hi
      · simp [move_threads, threadWork, hi]
      · simp only [move_threads, threadWork, hi, if_true]
        split <;> omega
  | stop i k hk hi =>
      right
      use i
      simp only [move_threads, threadWork, hi, if_true]
      omega
  | stopped i hi hrunning | lock i what hi hrunning | later i what hi hrunning
  | first i what hi hrunning =>
      exact .inr ⟨i, by simp [move_threads, threadWork, hi, hrunning]⟩
  | assign i what hi => exact .inr ⟨i, by simp [move_threads, threadWork, hi]⟩
  | flag i hi => exact .inr ⟨i, by simp [move_threads, threadWork, hi]⟩
  | stoppedAll i k hk hi => exact .inr ⟨i, by simp [move_threads, threadWork, hi]⟩

theorem Moves.work_le (hm : Moves s e s') (ho : Opened s) (hj : Joins s) : s'.work ≤ s.work :=
  Nat.add_le_add hm.mainWork_le (Finset.sum_le_sum fun j _ => hm.threadWork_le ho hj j)

theorem Moves.work_decreases (hm : Moves s e s') (ho : Opened s) (hj : Joins s)
    (hidle : ¬ Idle s e) : s'.work < s.work := by
  rcases hm.work_lt ho hidle with hmain | ⟨i, hi⟩
  · exact Nat.add_lt_add_of_lt_of_le hmain (Finset.sum_le_sum fun j _ => hm.threadWork_le ho hj j)
  · exact Nat.add_lt_add_of_le_of_lt hm.mainWork_le
      (Finset.sum_lt_sum (fun j _ => hm.threadWork_le ho hj j) ⟨i, Finset.mem_univ i, hi⟩)

/-- What is known of a call on its way to the end. -/
structure Ending (s : LoopRunner n) : Prop where
  joins : Joins s
  errors : Errors s
  opened : Opened s
  told : Told s

theorem Ending.step (h : Ending s) (hm : Moves s e s') : Ending s' where
  joins := h.joins.step hm
  errors := h.errors.step h.joins hm
  opened := h.opened.step h.joins hm
  told := h.told.step h.opened h.joins hm

/-- Who is in an exception handler can go on, or waits for one who can. -/
theorem Ending.handler (h : Ending s) (hi : (s.threads i).Failed) :
    ∃ j t, (s.threads j).Failed ∧ s.step (.thread j) = some t := by
  -- who is in the critical section can leave it
  have hinside : ∀ j, (s.threads j).Inside → (s.threads j).Failed ∧
      ∃ t, s.step (.thread j) = some t := by
    intro j hj
    cases hp : s.threads j <;> simp only [hp, LoopThread.Inside] at hj
    · refine ⟨trivial, ?_⟩
      simp only [LoopRunner.step, threadStep, hp]
      split <;> exact ⟨_, rfl⟩
    · refine ⟨trivial, ?_⟩
      simp only [LoopRunner.step, threadStep, hp]
      exact ⟨_, rfl⟩
  cases hp : s.threads i with
  | locking what =>
      cases hmu : s.errorMu with
      | none => exact ⟨i, _, hi, by simp [LoopRunner.step, threadStep, hp, hmu]; rfl⟩
      | some j =>
          obtain ⟨hfailed, t, ht⟩ := hinside j ((h.errors.mutex j).1 hmu)
          exact ⟨j, t, hfailed, ht⟩
  | holding what =>
      obtain ⟨hfailed, t, ht⟩ := hinside i (by simp [hp, LoopThread.Inside])
      exact ⟨i, t, hfailed, ht⟩
  | assigning what =>
      obtain ⟨hfailed, t, ht⟩ := hinside i (by simp [hp, LoopThread.Inside])
      exact ⟨i, t, hfailed, ht⟩
  | flagging => exact ⟨i, _, hi, by simp [LoopRunner.step, threadStep, hp]; rfl⟩
  | stopping k =>
      by_cases hk : k < n
      · exact ⟨i, _, hi, by simp [LoopRunner.step, threadStep, hp, hk]; rfl⟩
      · exact ⟨i, _, hi, by simp [LoopRunner.step, threadStep, hp, hk]; rfl⟩
  | unstarted | opening | testing | turning | exited =>
      simp [hp, LoopThread.Failed, LoopThread.Unflagged] at hi

/-- As long as the call has not returned, someone can take a step that leads there. -/
theorem Ending.progress (h : Ending s) (hreturned : ¬ s.main.Returned) :
    ∃ e t, e.Quiet ∧ ¬ Idle s e ∧ s.step e = some t := by
  by_cases hfailed : ∃ i, (s.threads i).Failed
  · obtain ⟨i, hi⟩ := hfailed
    obtain ⟨j, t, hj, ht⟩ := h.handler hi
    refine ⟨.thread j, t, trivial, ?_, ht⟩
    rintro ⟨hlooping, -⟩
    cases hp : s.threads j <;> simp [hp, LoopThread.Failed, LoopThread.Unflagged,
      LoopThread.Looping] at hj hlooping
  · by_cases hlooping : ∃ i, (s.threads i).Looping
    · -- nobody is to stop this loop, so it is stopped
      obtain ⟨i, hi⟩ := hlooping
      have hrunning : s.running i = false := by
        rcases h.told i hi with hrunning | ⟨j, hj⟩
        · exact hrunning
        · refine absurd ⟨j, ?_⟩ hfailed
          cases hp : s.threads j <;> simp_all [LoopThread.WillStop, LoopThread.Failed]
      have hstep : ∃ t, s.step (.thread i) = some t := by
        rcases hi with hp | hp
        · exact ⟨_, by simp [LoopRunner.step, threadStep, hp]; rfl⟩
        · exact ⟨_, by simp [LoopRunner.step, threadStep, hp]; rfl⟩
      obtain ⟨t, ht⟩ := hstep
      refine ⟨.thread i, t, trivial, ?_, ht⟩
      rintro ⟨-, hgoing⟩
      simp [hrunning] at hgoing
    · -- all threads are gone
      have hexited : ∀ i, s.threads i = .exited := by
        intro i
        have ho := h.opened i
        cases hp : s.threads i <;> first | rfl | grind [LoopThread.Opened, LoopThread.Looping,
          LoopThread.Failed, LoopThread.Unflagged]
      have hstep : ∃ t, s.step .main = some t := by
        cases hmain : s.main with
        | returned code errorOut => simp [hmain, LoopMain.Returned] at hreturned
        | spawning k =>
            by_cases hk : k < n <;> exact ⟨_, by simp [LoopRunner.step, mainStep, hmain, hk]; rfl⟩
        | joining k =>
            by_cases hk : k < n <;>
              exact ⟨_, by simp [LoopRunner.step, mainStep, hmain, hk, hexited]; rfl⟩
      obtain ⟨t, ht⟩ := hstep
      exact ⟨.main, t, trivial, id, ht⟩

/-- The steps of a run that are not idle. Signals are not counted. -/
def worked (s : LoopRunner n) : List (Event n) → Nat
  | [] => 0
  | e :: events =>
      (if Idle s e then 0 else 1) + match s.step e with
        | some s' => s'.worked events
        | none => 0

theorem Ending.worked_add_work (h : Ending s) {events : List (Event n)}
    (hrun : s.run events = some s') : s.worked events + s'.work ≤ s.work := by
  induction events generalizing s with
  | nil => cases hrun; simp [worked]
  | cons e events ih =>
      obtain ⟨t, ht, hrest⟩ := Option.bind_eq_some_iff.1 hrun
      have hm := step_moves ht
      have hafter := ih (h.step hm) hrest
      simp only [worked, ht]
      split
      · have hle := hm.work_le h.opened h.joins
        omega
      · next hidle =>
          have hlt := hm.work_decreases h.opened h.joins hidle
          omega

theorem Ending.work_le (h : Ending s) : s.work ≤ (n + 2) + n * (n + 7) := by
  have hthreads : ∀ i ∈ Finset.univ, threadWork n (s.running i) (s.threads i) ≤ n + 7 := by
    intro i _
    have hi := h.opened i
    cases hp : s.threads i <;> simp only [threadWork] <;>
      grind [LoopThread.Opened]
  have hsum := Finset.sum_le_card_nsmul _ _ _ hthreads
  have hmain : mainWork n s.main ≤ n + 2 := by
    cases hm : s.main with
    | spawning k =>
        -- every thread is created
        have hk : n ≤ k := by
          by_contra hlt
          have hi := h.opened ⟨k, by omega⟩
          rw [h.joins.unstarted k (by omega) hm] at hi
          exact hi
        simp only [mainWork]
        omega
    | joining k => simp only [mainWork]; omega
    | returned code errorOut => simp [mainWork]
  simp only [Finset.card_univ, Fintype.card_fin, smul_eq_mul] at hsum
  exact Nat.add_le_add hmain hsum

/-- Once every thread is behind `running_ = true` or in an exception handler, and every loop that
    still turns has been stopped or is to be stopped by a handler, there are at most
    `n + 2 + n * (n + 7)` more steps that are neither turns of a loop yet to be stopped nor arrivals of
    a signal, whatever is still thrown. None of the orders of the steps is a deadlock: as long as the
    call has not returned, one of these steps can be taken. -/
theorem shutdown_bounded (hports : n = ports.length) (h : Reachable ports s) (ho : Opened s)
    (ht : Told s) {events : List (Event n)} (hrun : s.run events = some s') :
    s.worked events ≤ (n + 2) + n * (n + 7) ∧
      (s'.main.Returned ∨ ∃ e t, e.Quiet ∧ ¬ Idle s' e ∧ s'.step e = some t) := by
  have hending : Ending s := ⟨(h.inv hports).joins, (h.inv hports).errors, ho, ht⟩
  have hworked := hending.worked_add_work hrun
  have hbound := hending.work_le
  have hafter : Ending s' := run_keeps (fun hs hm => hs.step hm) hending hrun
  constructor
  · omega
  · by_cases hreturned : s'.main.Returned
    · exact .inl hreturned
    · exact .inr (hafter.progress hreturned)

theorem shutdown_bounded_bindFails :
    (after (bindFails 0 1)).run (joined 1) = some (after (bindFails 0 1 ++ joined 1)) ∧
      (after (bindFails 0 1)).worked (joined 1) ≤ 22 := by
  have hopened : Opened (after (bindFails 0 1)) := Fin.forall_fin_two.2 ⟨trivial, trivial⟩
  have htold : Told (after (bindFails 0 1)) := Fin.forall_fin_two.2 ⟨fun _ => .inl rfl, fun _ => .inl rfl⟩
  have hrun : (after (bindFails 0 1)).run (joined 1) = some (after (bindFails 0 1 ++ joined 1)) := rfl
  exact ⟨hrun, (shutdown_bounded rfl (reachable_after (by decide +kernel)) hopened htold hrun).1⟩

/-- The steps without an exception and without a signal. -/
def QuietStep (s t : LoopRunner n) : Prop := ∃ e : Event n, e.Quiet ∧ s.step e = some t

theorem Ending.returns (h : Ending s) :
    ∃ t, ReflTransGen QuietStep s t ∧ t.main.Returned := by
  induction hwork : s.work using Nat.strongRecOn generalizing s with
  | _ w ih =>
      by_cases hreturned : s.main.Returned
      · exact ⟨s, .refl, hreturned⟩
      · obtain ⟨e, t, hquiet, hidle, ht⟩ := h.progress hreturned
        have hm := step_moves ht
        have hlt := hm.work_decreases h.opened h.joins hidle
        obtain ⟨u, hu, hreturned⟩ := ih t.work (by omega) (h.step hm) rfl
        exact ⟨u, .head ⟨e, hquiet, ht⟩ hu, hreturned⟩

/-- A loop that turns and that nobody is going to stop. -/
def Missed (j : Fin n) (s : LoopRunner n) : Prop :=
  (s.threads j).Looping ∧ s.running j = true ∧ ∀ i, ¬ (s.threads i).WillStop j.val

theorem Missed.step (h : Missed j s) (ho : Opened s) (hj : Joins s) (hm : Moves s e s')
    (hquiet : e.Quiet) : Missed j s' := by
  have hnew := hj.unstarted
  obtain ⟨hlooping, hrunning, hnobody⟩ := h
  unfold Opened at ho
  cases hm <;> refine ⟨?_, ?_, ?_⟩ <;>
    simp only [move_threads, setRunning_threads, setRunning_running, move_running] <;>
    grind [LoopThread.Looping, LoopThread.WillStop, LoopThread.Unflagged, LoopThread.Opened,
      Event.Quiet]

theorem Missed.not_returned (h : Missed j s) (hj : Joins s) : ¬ s.main.Returned := by
  intro hreturned
  have hexited : s.threads j = .exited := by
    apply hj.joined j
    cases hmain : s.main with
    | returned code errorOut => exact j.isLt
    | spawning k => simp [hmain, LoopMain.Returned] at hreturned
    | joining k => simp [hmain, LoopMain.Returned] at hreturned
  simp [Missed, hexited, LoopThread.Looping] at h

theorem Missed.never (h : Missed j s) (ho : Opened s) (hj : Joins s) {t : LoopRunner n}
    (hrun : ReflTransGen QuietStep s t) : ¬ t.main.Returned := by
  have hkept : Missed j t ∧ Opened t ∧ Joins t := by
    induction hrun with
    | refl => exact ⟨h, ho, hj⟩
    | tail _ hlast ih =>
        obtain ⟨hmissed, ho, hj⟩ := ih
        obtain ⟨e, hquiet, ht⟩ := hlast
        have hm := step_moves ht
        exact ⟨hmissed.step ho hj hm hquiet, ho.step hj hm, hj.step hm⟩
  exact hkept.1.not_returned hkept.2.2

/-- A stop that comes before `running_ = true` is lost. When every thread is behind that and there
    is no further exception and no signal, the call of `runEventLoops` can return from wherever it
    goes if and only if every loop that still turns has been stopped or is to be stopped by a
    handler. Otherwise it never returns, not even where the error of a worker is recorded already
    (`shutdown_iff_startsLate`). -/
theorem shutdown_iff (hports : n = ports.length) (h : Reachable ports s) (ho : Opened s) :
    ((∀ t, ReflTransGen QuietStep s t → ∃ u, ReflTransGen QuietStep t u ∧ u.main.Returned) ↔
      Told s) ∧
    (¬ Told s → ∀ t, ReflTransGen QuietStep s t → ¬ t.main.Returned) := by
  have hinv := h.inv hports
  have hnever : ¬ Told s → ∀ t, ReflTransGen QuietStep s t → ¬ t.main.Returned := by
    intro htold t hrun
    simp only [Told, not_forall, not_or, not_exists] at htold
    obtain ⟨j, hlooping, hrunning, hnobody⟩ := htold
    have hmissed : Missed j s := ⟨hlooping, by simpa using hrunning, hnobody⟩
    exact hmissed.never ho hinv.joins hrun
  refine ⟨⟨?_, ?_⟩, hnever⟩
  · intro hreturns
    by_contra htold
    obtain ⟨u, hu, hreturned⟩ := hreturns s .refl
    exact hnever htold u hu hreturned
  · intro htold t hrun
    have hending : Ending t := by
      induction hrun with
      | refl => exact ⟨hinv.joins, hinv.errors, ho, htold⟩
      | tail _ hlast ih =>
          obtain ⟨e, -, ht⟩ := hlast
          exact ih.step (step_moves ht)
    exact hending.returns

/-- The loop `i` fails to bind and its handler stops both, and then the loop `j` starts. -/
def startsLate (i j : Fin n) : List (Event n) :=
  [.main, .main, .main] ++ handled i (ascii "failed to bind listen socket") ++ [.thread j]

theorem shutdown_iff_startsLate :
    (after (startsLate 0 1)).hasError = true ∧
      ∀ t, ReflTransGen QuietStep (after (startsLate 0 1)) t → ¬ t.main.Returned := by
  have hopened : Opened (after (startsLate 0 1)) := Fin.forall_fin_two.2 ⟨trivial, trivial⟩
  have htold : ¬ Told (after (startsLate 0 1)) := by
    intro htold
    rcases htold 1 (.inl rfl) with hrunning | ⟨i, hi⟩
    · exact absurd hrunning (by decide +kernel)
    · revert i
      exact Fin.forall_fin_two.2 ⟨id, id⟩
  exact ⟨rfl, (shutdown_iff rfl (reachable_after (by decide +kernel)) hopened).2 htold⟩

end LoopRunner

end Cppvless
