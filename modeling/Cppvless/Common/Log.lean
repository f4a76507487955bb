import Cppvless.Vless.Protocol
import Mathlib.Algebra.GroupWithZero.Nat
import Mathlib.Data.List.Induction
import Mathlib.Data.List.TakeWhile

set_option autoImplicit false

/-! # The logger

`Logger` of `common/log.cpp`: any thread may put a line into a bounded queue, and one thread writes
what is in it. A critical section is one step, and so is a write; between them the steps of the
threads come in any order. What makes the counter of dropped lines reliable is that a line is
dropped only when the queue is full, so that there is another batch, and another look at the
counter, before the worker leaves (`Inv.dropped`).

Which lines are accepted and which are refused is read off the steps (`accepted`, `refused`): a call
of `enqueue` is to be accepted exactly if it finds room in the queue. The log file is left out: it
gets what is written to stderr. -/

namespace Cppvless

/-- `kMaxQueueSize` and `kBatchLimit` -/
structure LogLimits where
  maxQueueSize : Nat
  batchLimit : Nat
  maxQueueSize_pos : 1 ≤ maxQueueSize
  batchLimit_pos : 1 ≤ batchLimit

/-- Where the worker is in its loop. -/
inductive LogWorker
  /-- before the critical section at the top -/
  | locking
  /-- blocked on the condition variable -/
  | blocked
  /-- behind it, with a batch -/
  | writing (batch : List Bytes)
  /-- before the critical section that takes the counter -/
  | counting
  /-- behind it, with the counter -/
  | reporting (dropped : Nat)
  | exited
  deriving DecidableEq

/-- A write to stderr. -/
inductive LogOutput
  | lines (batch : List Bytes)
  | dropped (n : Nat)
  deriving DecidableEq

/-- The lines in a write. -/
def LogOutput.written : LogOutput → List Bytes
  | lines batch => batch
  | dropped _ => []

/-- The number of dropped lines that a write reports. -/
def LogOutput.reported : LogOutput → Nat
  | lines _ => 0
  | dropped n => n

/-- The bytes of a write. -/
def LogOutput.bytes : LogOutput → Bytes
  | lines batch => batch.flatten
  | dropped n => ascii "[Logger] dropped " ++ (Nat.toDigits 10 n).map Char.toUInt8 ++
      ascii " log lines (queue overflow)\n"

/-- `Logger::Impl`, the worker, the thread in `shutdown`, and what was written. -/
structure Logger where
  queue : List Bytes := []
  stop : Bool := false
  dropped : Nat := 0
  worker : LogWorker := .locking
  /-- threads between their critical section and the notification -/
  notifying : Nat := 0
  returned : Bool := false
  stderr : List LogOutput := []
  deriving DecidableEq

namespace Logger

/-- The critical section of `Logger::enqueue`. -/
def enqueue (limits : LogLimits) (s : Logger) (line : Bytes) : Logger :=
  if limits.maxQueueSize ≤ s.queue.length then
    { s with dropped := s.dropped + 1 }
  else
    { s with queue := s.queue ++ [line], notifying := s.notifying + 1 }

/-- The critical section of `Logger::shutdown`. -/
def shutdown (s : Logger) : Logger :=
  if s.stop then s
  else { s with stop := true, notifying := s.notifying + 1 }

/-- The worker wakes up. -/
def wake (s : Logger) : Logger :=
  if s.worker = .blocked then { s with worker := .locking } else s

/-- `notify_one` or `notify_all`: there is one thread to be notified. -/
def notify (s : Logger) : Logger :=
  if 0 < s.notifying then wake { s with notifying := s.notifying - 1 } else s

/-- The next step of `Logger::workerLoop`. -/
def workerLoop (limits : LogLimits) (s : Logger) : Logger :=
  match s.worker with
  | .locking =>
      if s.queue = [] then
        if s.stop then { s with worker := .exited }
        else { s with worker := .blocked }
      else
        let take := min s.queue.length limits.batchLimit
        { s with worker := .writing (s.queue.take take), queue := s.queue.drop take }
  | .writing batch => { s with worker := .counting, stderr := s.stderr ++ [.lines batch] }
  | .counting => { s with worker := .reporting s.dropped, dropped := 0 }
  | .reporting n =>
      { s with
        worker := .locking
        stderr := if 0 < n then s.stderr ++ [.dropped n] else s.stderr }
  | .blocked => s
  | .exited => s

/-- `join` in `Logger::shutdown` -/
def join (s : Logger) : Logger :=
  if s.stop ∧ s.worker = .exited then { s with returned := true } else s

/-- A step of one of the threads. -/
inductive Event
  | enqueue (line : Bytes)
  | notify
  /-- a spurious wake-up -/
  | wake
  | worker
  | shutdown
  | join
  deriving DecidableEq

def step (limits : LogLimits) (s : Logger) : Event → Logger
  | .enqueue line => s.enqueue limits line
  | .notify => s.notify
  | .wake => s.wake
  | .worker => s.workerLoop limits
  | .shutdown => s.shutdown
  | .join => s.join

/-- The steps of the threads, in the order in which they come. -/
def run (limits : LogLimits) (s : Logger) : List Event → Logger
  | [] => s
  | e :: events => (s.step limits e).run limits events

theorem run_append (limits : LogLimits) (s : Logger) (before after : List Event) :
    s.run limits (before ++ after) = (s.run limits before).run limits after := by
  induction before generalizing s with
  | nil => rfl
  | cons e before ih => exact ih _

/-! ## What the calls hand over -/

/-- The line of a call of `enqueue`. -/
def Event.line : Event → Option Bytes
  | .enqueue line => some line
  | _ => none

/-- The lines of all calls. -/
def calls (events : List Event) : List Bytes := events.filterMap Event.line

/-- The line of a call that finds the queue full, or not full. -/
def handed (limits : LogLimits) (full : Bool) (s : Logger) (e : Event) : List Bytes :=
  if decide (limits.maxQueueSize ≤ s.queue.length) = full then e.line.toList else []

/-- The lines of these calls along the steps from `s` on. -/
def handedAlong (limits : LogLimits) (full : Bool) (s : Logger) : List Event → List Bytes
  | [] => []
  | e :: events => handed limits full s e ++ handedAlong limits full (s.step limits e) events

/-- The lines that are to be written: their calls find room. -/
def accepted (limits : LogLimits) (events : List Event) : List Bytes :=
  handedAlong limits false {} events

/-- The lines that are to be counted: their calls find the queue full. -/
def refused (limits : LogLimits) (events : List Event) : List Bytes :=
  handedAlong limits true {} events

/-- The steps up to the one with which the worker leaves. -/
def untilExit (limits : LogLimits) (s : Logger) : List Event → List Event
  | [] => []
  | e :: events => if s.worker = .exited then [] else e :: untilExit limits (s.step limits e) events

/-- The lines written to stderr. -/
def written (s : Logger) : List Bytes := s.stderr.flatMap LogOutput.written

/-- The sum of the counts reported. -/
def reported (s : Logger) : Nat := (s.stderr.map LogOutput.reported).sum

variable {limits : LogLimits} {s : Logger}

theorem handedAlong_append (full : Bool) (before after : List Event) :
    handedAlong limits full s (before ++ after) =
      handedAlong limits full s before ++ handedAlong limits full (s.run limits before) after := by
  induction before generalizing s with
  | nil => rfl
  | cons e before ih => rw [List.cons_append, handedAlong, handedAlong, ih, run, List.append_assoc]

theorem handedAlong_concat (full : Bool) (events : List Event) (e : Event) :
    handedAlong limits full s (events ++ [e]) =
      handedAlong limits full s events ++ handed limits full (s.run limits events) e := by
  rw [handedAlong_append, handedAlong, handedAlong, List.append_nil]

/-- What is not handed over by a call that finds room is handed over by one that does not. -/
theorem handed_cases (limits : LogLimits) (s : Logger) (e : Event) :
    handed limits false s e = e.line.toList ∧ handed limits true s e = [] ∨
      handed limits false s e = [] ∧ handed limits true s e = e.line.toList := by
  by_cases hfull : limits.maxQueueSize ≤ s.queue.length
  · exact .inr (by simp [handed, hfull])
  · exact .inl (by simp [handed, hfull])

theorem handed_other {e : Event} (he : e.line = none) (full : Bool) (s : Logger) :
    handed limits full s e = [] := by
  simp [handed, he]

theorem calls_cons (e : Event) (events : List Event) :
    calls (e :: events) = e.line.toList ++ calls events := by
  cases he : e.line with
  | none => simp [calls, he]
  | some line => simp [calls, he]

/-- The calls of either kind come in their order. -/
theorem handedAlong_sublist (full : Bool) (s : Logger) (events : List Event) :
    (handedAlong limits full s events).Sublist (calls events) := by
  induction events generalizing s with
  | nil => exact .slnil
  | cons e events ih =>
      rw [handedAlong, calls_cons]
      refine List.Sublist.append ?_ (ih _)
      rw [handed]
      split
      · exact .refl _
      · exact List.nil_sublist _

/-- A call is of one of the two kinds. -/
theorem handedAlong_perm (s : Logger) (events : List Event) :
    (handedAlong limits false s events ++ handedAlong limits true s events).Perm (calls events) := by
  induction events generalizing s with
  | nil => exact .nil
  | cons e events ih =>
      rw [handedAlong, handedAlong, calls_cons]
      rcases handed_cases limits s e with ⟨haccepted, hrefused⟩ | ⟨haccepted, hrefused⟩
      · rw [haccepted, hrefused, List.nil_append, List.append_assoc]
        exact (ih _).append_left _
      · rw [haccepted, hrefused, List.nil_append, ← List.append_assoc]
        refine (List.perm_append_comm.append_right _).trans ?_
        rw [List.append_assoc]
        exact (ih _).append_left _

/-! ## What holds at all times -/

end Logger

/-- The lines that the worker has taken and not written. -/
def LogWorker.batch : LogWorker → List Bytes
  | writing batch => batch
  | _ => []

/-- The count that the worker has taken and not reported. -/
def LogWorker.count : LogWorker → Nat
  | reporting n => n
  | _ => 0

/-- The worker will look at the counter before it is back at the top of its loop. -/
def LogWorker.WillCount : LogWorker → Prop
  | writing _ => True
  | counting => True
  | _ => False

namespace Logger

variable {limits : LogLimits} {s : Logger} {taken : List Bytes} {lost : Nat}

/-- Of a logger that is to have accepted the lines `taken` and refused `lost` more. -/
structure Inv (limits : LogLimits) (taken : List Bytes) (lost : Nat) (s : Logger) : Prop where
  bounded : s.queue.length ≤ limits.maxQueueSize
  order : taken = s.written ++ s.worker.batch ++ s.queue
  refused : s.worker ≠ .exited → lost = s.reported + s.worker.count + s.dropped
  /-- A pending count is looked at before the worker leaves. -/
  dropped : s.worker ≠ .exited → 0 < s.dropped → s.queue ≠ [] ∨ s.worker.WillCount
  returned : s.returned = true → s.worker = .exited
  /-- No wake-up is lost. -/
  awake : s.worker = .blocked → s.stop = true ∨ s.queue ≠ [] → 0 < s.notifying

theorem new_inv (limits : LogLimits) : Inv limits [] 0 {} where
  bounded := Nat.zero_le _
  order := rfl
  refused _ := rfl
  dropped _ h := absurd h (Nat.lt_irrefl 0)
  returned h := nomatch h
  awake h := nomatch h

theorem Inv.enqueue (h : Inv limits taken lost s) (line : Bytes) :
    Inv limits (taken ++ handed limits false s (.enqueue line))
      (lost + (handed limits true s (.enqueue line)).length) (s.enqueue limits line) := by
  unfold Logger.enqueue
  split
  · next hfull =>
      -- the queue is full and not empty
      have hpos := limits.maxQueueSize_pos
      have hne : s.queue ≠ [] := List.ne_nil_of_length_pos (by omega)
      have hkinds : handed limits false s (.enqueue line) = [] ∧
          handed limits true s (.enqueue line) = [line] := by
        simp [handed, hfull, Event.line]
      rw [hkinds.1, hkinds.2, List.append_nil]
      exact
        { h with
          refused := fun hw => by
            have := h.refused hw
            show lost + 1 = s.reported + s.worker.count + (s.dropped + 1)
            omega
          dropped := fun _ _ => .inl hne }
  · next hroom =>
      have hkinds : handed limits false s (.enqueue line) = [line] ∧
          handed limits true s (.enqueue line) = [] := by
        simp [handed, hroom, Event.line]
      rw [hkinds.1, hkinds.2]
      exact
        { h with
          bounded := by
            rw [List.length_append, List.length_singleton]
            omega
          order := by
            show taken ++ [line] = s.written ++ s.worker.batch ++ (s.queue ++ [line])
            rw [h.order, List.append_assoc]
          dropped := fun _ _ => .inl (by simp)
          awake := fun _ _ => Nat.succ_pos _ }

theorem Inv.shutdown (h : Inv limits taken lost s) : Inv limits taken lost s.shutdown := by
  unfold Logger.shutdown
  split
  · exact h
  · exact { h with awake := fun _ _ => Nat.succ_pos _ }

/-- What it says of a worker that has not left. -/
theorem Inv.running (h : Inv limits taken lost s) {worker : LogWorker} (hw : s.worker = worker)
    (hrunning : worker ≠ .exited) :
    taken = s.written ++ worker.batch ++ s.queue ∧
      lost = s.reported + worker.count + s.dropped ∧
      (0 < s.dropped → s.queue ≠ [] ∨ worker.WillCount) ∧ s.returned ≠ true := by
  subst hw
  exact ⟨h.order, h.refused hrunning, h.dropped hrunning, fun hr => hrunning (h.returned hr)⟩

theorem Inv.wake (h : Inv limits taken lost s) : Inv limits taken lost s.wake := by
  unfold Logger.wake
  split
  · next hblocked =>
      obtain ⟨horder, hrefused, hdropped, hreturned⟩ := h.running hblocked (by simp)
      exact
        { h with
          order := horder
          refused := fun _ => hrefused
          dropped := fun _ => hdropped
          returned := fun hr => absurd hr hreturned
          awake := nofun }
  · exact h

theorem wake_setNotifying (s : Logger) (n : Nat) :
    wake { s with notifying := n } = { wake s with notifying := n } := by
  unfold Logger.wake
  split <;> rfl

theorem wake_worker (s : Logger) : s.wake.worker ≠ .blocked := by
  unfold Logger.wake
  split
  · simp
  · assumption

theorem Inv.notify (h : Inv limits taken lost s) : Inv limits taken lost s.notify := by
  unfold Logger.notify
  split
  · rw [wake_setNotifying]
    exact { h.wake with awake := fun hblocked => absurd hblocked (wake_worker s) }
  · exact h

/-- No count is pending when the worker finds the queue empty. -/
theorem Inv.none_pending (h : Inv limits taken lost s) (hw : s.worker = .locking)
    (hempty : s.queue = []) : s.dropped = 0 := by
  by_contra hpos
  rcases h.dropped (by simp [hw]) (Nat.pos_of_ne_zero hpos) with hqueue | hwill
  · exact hqueue hempty
  · rw [hw] at hwill
    exact hwill

/-- At the top of the loop. -/
theorem Inv.locking (h : Inv limits taken lost s) (hw : s.worker = .locking) :
    Inv limits taken lost (s.workerLoop limits) := by
  obtain ⟨horder, hrefused, hdropped, hreturned⟩ := h.running hw (by simp)
  unfold Logger.workerLoop
  rw [hw]
  dsimp only
  split
  · next hempty =>
      split
      · exact
          { h with
            order := horder
            refused := fun hx => absurd rfl hx
            dropped := fun hx => absurd rfl hx
            returned := fun hr => absurd hr hreturned
            awake := nofun }
      · next hgoing =>
          exact
            { h with
              order := horder
              refused := fun _ => hrefused
              dropped := fun _ hpos => absurd (h.none_pending hw hempty) (Nat.ne_of_gt hpos)
              returned := fun hr => absurd hr hreturned
              awake := fun _ hwoken => by
                rcases hwoken with hstop | hqueue
                · exact absurd hstop hgoing
                · exact absurd hempty hqueue }
  · next hqueue =>
      exact
        { h with
          bounded := by
            have := h.bounded
            rw [List.length_drop]
            omega
          order := by
            show taken = s.written ++ s.queue.take _ ++ s.queue.drop _
            rw [List.append_assoc, List.take_append_drop, horder]
            simp [LogWorker.batch]
          refused := fun _ => hrefused
          dropped := fun _ _ => .inr trivial
          returned := fun hr => absurd hr hreturned
          awake := nofun }

theorem Inv.writing (h : Inv limits taken lost s) {batch : List Bytes}
    (hw : s.worker = .writing batch) : Inv limits taken lost (s.workerLoop limits) := by
  obtain ⟨horder, hrefused, -, hreturned⟩ := h.running hw (by simp)
  unfold Logger.workerLoop
  rw [hw]
  exact
    { h with
      order := by
        rw [horder]
        simp [Logger.written, LogWorker.batch, LogOutput.written]
      refused := fun _ => by
        rw [hrefused]
        simp [Logger.reported, LogWorker.count, LogOutput.reported]
      dropped := fun _ _ => .inr trivial
      returned := fun hr => absurd hr hreturned
      awake := nofun }

theorem Inv.counting (h : Inv limits taken lost s) (hw : s.worker = .counting) :
    Inv limits taken lost (s.workerLoop limits) := by
  obtain ⟨horder, hrefused, -, hreturned⟩ := h.running hw (by simp)
  unfold Logger.workerLoop
  rw [hw]
  exact
    { h with
      order := horder
      refused := fun _ => by
        rw [hrefused]
        simp [Logger.reported, LogWorker.count]
      dropped := fun _ hpos => absurd hpos (Nat.lt_irrefl 0)
      returned := fun hr => absurd hr hreturned
      awake := nofun }

theorem Inv.reporting (h : Inv limits taken lost s) {n : Nat} (hw : s.worker = .reporting n) :
    Inv limits taken lost (s.workerLoop limits) := by
  obtain ⟨horder, hrefused, hdropped, hreturned⟩ := h.running hw (by simp)
  unfold Logger.workerLoop
  rw [hw]
  exact
    { h with
      order := by
        rw [horder]
        simp only [Logger.written, LogWorker.batch]
        split <;> simp [LogOutput.written]
      refused := fun _ => by
        rw [hrefused]
        simp only [Logger.reported, LogWorker.count]
        split
        · simp [LogOutput.reported]
        · next hzero => simp [Nat.eq_zero_of_not_pos hzero]
      dropped := fun _ hpos => by
        rcases hdropped hpos with hqueue | hwill
        · exact .inl hqueue
        · exact hwill.elim
      returned := fun hr => absurd hr hreturned
      awake := nofun }

theorem workerLoop_exited (hw : s.worker = .exited) : s.workerLoop limits = s := by
  unfold Logger.workerLoop
  rw [hw]

theorem Inv.workerLoop (h : Inv limits taken lost s) :
    Inv limits taken lost (s.workerLoop limits) := by
  cases hw : s.worker with
  | locking => exact h.locking hw
  | writing batch => exact h.writing hw
  | counting => exact h.counting hw
  | reporting n => exact h.reporting hw
  | blocked =>
      unfold Logger.workerLoop
      rw [hw]
      exact h
  | exited => rwa [workerLoop_exited hw]

theorem Inv.join (h : Inv limits taken lost s) : Inv limits taken lost s.join := by
  unfold Logger.join
  split
  · next hexit => exact { h with returned := fun _ => hexit.2 }
  · exact h

theorem Inv.step (h : Inv limits taken lost s) (e : Event) :
    Inv limits (taken ++ handed limits false s e) (lost + (handed limits true s e).length)
      (s.step limits e) := by
  cases e with
  | enqueue line => exact h.enqueue line
  | notify =>
      rw [handed_other rfl, handed_other rfl, List.append_nil]
      exact h.notify
  | wake =>
      rw [handed_other rfl, handed_other rfl, List.append_nil]
      exact h.wake
  | worker =>
      rw [handed_other rfl, handed_other rfl, List.append_nil]
      exact h.workerLoop
  | shutdown =>
      rw [handed_other rfl, handed_other rfl, List.append_nil]
      exact h.shutdown
  | join =>
      rw [handed_other rfl, handed_other rfl, List.append_nil]
      exact h.join

/-- **The invariant of every run**: what it takes to have been accepted and refused are the calls that
    found room and those that did not. -/
theorem run_inv (limits : LogLimits) (events : List Event) :
    Inv limits (accepted limits events) (refused limits events).length (run limits {} events) := by
  induction events using List.reverseRecOn with
  | nil => exact new_inv limits
  | append_singleton events e ih =>
      rw [accepted, refused, handedAlong_concat, handedAlong_concat, List.length_append, run_append]
      exact ih.step e

theorem accepted_prefixes {before events : List Event} (h : before <+: events) :
    accepted limits before <+: accepted limits events := by
  obtain ⟨after, rfl⟩ := h
  rw [accepted, accepted, handedAlong_append]
  exact List.prefix_append _ _

/-! ## The end of the worker -/

theorem step_stop (limits : LogLimits) (s : Logger) (e : Event) :
    (s.step limits e).stop = true ↔ s.stop = true ∨ e = .shutdown := by
  cases e with
  | enqueue line =>
      simp only [step, enqueue]
      split <;> simp
  | notify =>
      simp only [step, notify, wake]
      split_ifs <;> simp
  | wake =>
      simp only [step, wake]
      split <;> simp
  | worker =>
      simp only [step, workerLoop]
      split <;> (try split_ifs) <;> simp_all
  | shutdown =>
      simp only [step, shutdown]
      split <;> simp_all
  | join =>
      simp only [step, join]
      split <;> simp

/-- `stop` is set by the first call of `shutdown`. -/
theorem run_stop_iff (limits : LogLimits) (events : List Event) :
    (s.run limits events).stop = true ↔ s.stop = true ∨ Event.shutdown ∈ events := by
  induction events generalizing s with
  | nil => simp [run]
  | cons e events ih => rw [run, ih, step_stop, List.mem_cons, or_assoc, eq_comm (a := e)]

/-- Behind its loop the worker stays, and nobody else writes. -/
theorem step_exited (hw : s.worker = .exited) (e : Event) :
    (s.step limits e).worker = .exited ∧ (s.step limits e).stderr = s.stderr := by
  cases e with
  | enqueue line =>
      simp only [step, enqueue]
      split <;> exact ⟨hw, rfl⟩
  | notify =>
      simp only [step, notify, wake]
      split_ifs <;> simp_all
  | wake => simp [step, wake, hw]
  | worker =>
      rw [step, workerLoop_exited hw]
      exact ⟨hw, rfl⟩
  | shutdown =>
      simp only [step, shutdown]
      split <;> exact ⟨hw, rfl⟩
  | join =>
      simp only [step, join]
      split <;> exact ⟨hw, rfl⟩

/-- It leaves when it finds the queue empty and `stop` set. -/
theorem leaves (hw : s.worker ≠ .exited) {e : Event} (hexit : (s.step limits e).worker = .exited) :
    e = .worker ∧ s.worker = .locking ∧ s.queue = [] ∧ s.stop = true ∧
      (s.step limits e).stderr = s.stderr := by
  cases e with
  | enqueue line =>
      refine absurd hexit ?_
      simp only [step, enqueue]
      split <;> exact hw
  | notify =>
      refine absurd hexit ?_
      simp only [step, notify, wake]
      split_ifs <;> simp_all
  | wake =>
      refine absurd hexit ?_
      simp only [step, wake]
      split <;> simp_all
  | worker =>
      simp only [step, workerLoop] at hexit ⊢
      split at hexit
      · next hlocking =>
          split_ifs at hexit with hempty hstop
          simp [hlocking, hempty, hstop]
      all_goals simp_all
  | shutdown =>
      refine absurd hexit ?_
      simp only [step, shutdown]
      split <;> exact hw
  | join =>
      refine absurd hexit ?_
      simp only [step, join]
      split <;> exact hw

theorem run_exited (hw : s.worker = .exited) (events : List Event) :
    (s.run limits events).worker = .exited := by
  induction events generalizing s with
  | nil => exact hw
  | cons e events ih => exact ih (step_exited hw e).1

theorem untilExit_concat (events : List Event) (e : Event) :
    untilExit limits s (events ++ [e]) =
      if (s.run limits events).worker = .exited then untilExit limits s events
      else untilExit limits s events ++ [e] := by
  induction events generalizing s with
  | nil => rfl
  | cons e' events ih =>
      rw [List.cons_append, untilExit, untilExit, run, ih]
      by_cases hw : s.worker = .exited
      · rw [if_pos hw, if_pos hw, if_pos (run_exited (step_exited hw e').1 events)]
      · rw [if_neg hw, if_neg hw]
        split <;> rfl

theorem untilExit_running (events : List Event) (hw : (s.run limits events).worker ≠ .exited) :
    untilExit limits s events = events := by
  induction events generalizing s with
  | nil => rfl
  | cons e events ih =>
      have hs : s.worker ≠ .exited := fun h => hw (run_exited h (e :: events))
      rw [untilExit, if_neg hs, ih hw]

theorem untilExit_prefixes (limits : LogLimits) (s : Logger) (events : List Event) :
    untilExit limits s events <+: events := by
  induction events generalizing s with
  | nil => exact List.prefix_rfl
  | cons e events ih =>
      rw [untilExit]
      split
      · exact List.nil_prefix
      · exact (List.prefix_append_right_inj [e]).2 (ih _)

/-- **When the worker has left**, `shutdown` had set `stop`, the lines accepted until then are those
    written, and as many as the counts reported were refused. -/
theorem exited_balance (limits : LogLimits) (events : List Event)
    (hexit : (run limits {} events).worker = .exited) :
    Event.shutdown ∈ untilExit limits {} events ∧
      accepted limits (untilExit limits {} events) = (run limits {} events).written ∧
      (refused limits (untilExit limits {} events)).length = (run limits {} events).reported := by
  induction events using List.reverseRecOn with
  | nil => exact nomatch hexit
  | append_singleton events e ih =>
      have hlast : run limits {} (events ++ [e]) = (run limits {} events).step limits e := by
        rw [run_append]
        rfl
      rw [untilExit_concat, hlast]
      rw [hlast] at hexit
      by_cases hw : (run limits {} events).worker = .exited
      · -- it had left before
        rw [if_pos hw, written, reported, (step_exited hw e).2]
        exact ih hw
      · obtain ⟨rfl, hlocking, hempty, hstop, hstderr⟩ := leaves hw hexit
        have hcalled : Event.shutdown ∈ events := by simpa using (run_stop_iff limits events).mp hstop
        have h := run_inv limits events
        have horder : accepted limits events = (run limits {} events).written := by
          simpa [hlocking, hempty, LogWorker.batch] using h.order
        have hrefused : (refused limits events).length = (run limits {} events).reported := by
          simpa [hlocking, h.none_pending hlocking hempty, LogWorker.count] using h.refused hw
        rw [if_neg hw, untilExit_running events hw, written, reported, hstderr]
        refine ⟨List.mem_append_left _ hcalled, ?_, ?_⟩
        · rw [accepted, handedAlong_concat, handed_other rfl, List.append_nil]
          exact horder
        · rw [refused, handedAlong_concat, handed_other rfl, List.append_nil]
          exact hrefused

/-- The steps before `stop` is set are among those before the worker leaves. -/
theorem takeWhile_untilExit (limits : LogLimits) (events : List Event)
    (hexit : Event.shutdown ∈ untilExit limits {} events) :
    events.takeWhile (· ≠ .shutdown) <+: untilExit limits {} events := by
  obtain ⟨rest, hrest⟩ := untilExit_prefixes limits {} events
  conv_lhs => rw [← hrest]
  rw [List.takeWhile_append]
  split
  · next hall =>
      -- `shutdown` is among them
      have hwhole := (List.takeWhile_prefix _).eq_of_length hall
      have hother := List.takeWhile_eq_self_iff.mp hwhole _ hexit
      simp at hother
  · exact List.takeWhile_prefix _

/-- The worker leaves, if only it and the notifications that are due take steps. -/
def Exits (limits : LogLimits) (s : Logger) : Prop :=
  ∃ events : List Event, (∀ e ∈ events, e = .notify ∨ e = .worker) ∧
    (s.run limits events).worker = .exited

theorem Exits.of_step {e : Event} (he : e = .notify ∨ e = .worker)
    (h : Exits limits (s.step limits e)) : Exits limits s := by
  obtain ⟨events, hown, hexit⟩ := h
  exact ⟨e :: events, List.forall_mem_cons.mpr ⟨he, hown⟩, hexit⟩

theorem Exits.of_workerLoop (h : Exits limits (s.workerLoop limits)) : Exits limits s :=
  Exits.of_step (.inr rfl) h

theorem exits_of_counting (hw : s.worker = .counting)
    (h : Exits limits
      { s with
        worker := .locking, dropped := 0
        stderr := if 0 < s.dropped then s.stderr ++ [.dropped s.dropped] else s.stderr }) :
    Exits limits s := by
  have hcount : s.workerLoop limits = { s with worker := .reporting s.dropped, dropped := 0 } := by
    simp [Logger.workerLoop, hw]
  apply Exits.of_workerLoop
  rw [hcount]
  exact Exits.of_workerLoop h

/-- A round of the loop takes a line at least. -/
theorem exits_of_locking (hstop : s.stop = true) (hw : s.worker = .locking) :
    Exits limits s := by
  induction hn : s.queue.length using Nat.strongRecOn generalizing s with
  | ind n ih =>
      apply Exits.of_workerLoop
      by_cases hqueue : s.queue = []
      · exact ⟨[], by simp, by simp [Logger.workerLoop, Logger.run, hw, hqueue, hstop]⟩
      · have htake : s.workerLoop limits =
            { s with
              worker := .writing (s.queue.take (min s.queue.length limits.batchLimit))
              queue := s.queue.drop (min s.queue.length limits.batchLimit) } := by
          simp [Logger.workerLoop, hw, hqueue]
        have hshorter : (s.queue.drop (min s.queue.length limits.batchLimit)).length < n := by
          have hpos := limits.batchLimit_pos
          have hlength := List.length_pos_iff.mpr hqueue
          rw [List.length_drop]
          omega
        rw [htake]
        apply Exits.of_workerLoop
        apply exits_of_counting rfl
        exact ih _ hshorter hstop rfl rfl

/-- `shutdown` does not wait for ever, whatever the worker is at when it sets `stop`. -/
theorem Inv.exits (h : Inv limits taken lost s) (hstop : s.stop = true) : Exits limits s := by
  cases hw : s.worker with
  | locking => exact exits_of_locking hstop hw
  | blocked =>
      have hdue := h.awake hw (.inl hstop)
      apply Exits.of_step (.inl rfl)
      apply exits_of_locking
      · simp [Logger.step, Logger.notify, Logger.wake, hdue, hw, hstop]
      · simp [Logger.step, Logger.notify, Logger.wake, hdue, hw]
  | writing batch =>
      apply Exits.of_workerLoop
      apply exits_of_counting (by simp [Logger.workerLoop, hw])
      exact exits_of_locking (by simp [Logger.workerLoop, hw, hstop]) rfl
  | counting => exact exits_of_counting hw (exits_of_locking hstop rfl)
  | reporting n =>
      apply Exits.of_workerLoop
      apply exits_of_locking
      · simp [Logger.workerLoop, hw, hstop]
      · simp [Logger.workerLoop, hw]
  | exited => exact ⟨[], by simp, hw⟩

/-- `shutdown` returns then. -/
theorem Exits.returns (hstop : s.stop = true) (h : Exits limits s) :
    ∃ more : List Event, (∀ e ∈ more, e = .notify ∨ e = .worker ∨ e = .join) ∧
      (s.run limits more).returned = true := by
  obtain ⟨events, hown, hexit⟩ := h
  have hstops := (run_stop_iff limits events).mpr (.inl hstop)
  refine ⟨events ++ [.join], fun e he => ?_, ?_⟩
  · rcases List.mem_append.mp he with he | he
    · exact (hown e he).imp_right .inl
    · exact .inr (.inr (List.mem_singleton.mp he))
  · rw [run_append]
    simp [Logger.run, Logger.step, Logger.join, hstops, hexit]

/-- **No line disappears silently**: a call of `enqueue` is accepted or refused. What is written are
    the first accepted lines in their order; once `shutdown` has returned, these are all that were
    accepted before `stop` was set, and the reported counts are the lines refused until the worker
    left. And `shutdown` does return: the worker and the notifications get there without anybody
    else. -/
theorem no_line_lost (limits : LogLimits) (events : List Event) :
    (run limits {} events).queue.length ≤ limits.maxQueueSize ∧
      (accepted limits events).Sublist (calls events) ∧
      (refused limits events).Sublist (calls events) ∧
      (accepted limits events ++ refused limits events).Perm (calls events) ∧
      (run limits {} events).written <+: accepted limits events ∧
      ((run limits {} events).returned = true →
        accepted limits (events.takeWhile (· ≠ .shutdown)) <+: (run limits {} events).written ∧
        (run limits {} events).reported =
          (refused limits (untilExit limits {} events)).length) ∧
      (.shutdown ∈ events →
        ∃ more : List Event, (∀ e ∈ more, e = .notify ∨ e = .worker ∨ e = .join) ∧
          (run limits {} (events ++ more)).returned = true) := by
  have h := run_inv limits events
  refine ⟨h.bounded, handedAlong_sublist _ _ _, handedAlong_sublist _ _ _, handedAlong_perm _ _,
    ?_, fun hreturned => ?_, fun hcalled => ?_⟩
  · rw [h.order, List.append_assoc]
    exact List.prefix_append _ _
  · obtain ⟨hstopped, hwritten, hreported⟩ := exited_balance limits events (h.returned hreturned)
    rw [← hwritten, ← hreported]
    exact ⟨accepted_prefixes (takeWhile_untilExit limits events hstopped), rfl⟩
  · have hstop : (run limits {} events).stop = true := (run_stop_iff limits events).mpr (.inr hcalled)
    obtain ⟨more, hown, hreturned⟩ := (h.exits hstop).returns hstop
    exact ⟨more, hown, by rwa [run_append]⟩

/-- One line finds the queue full; one comes when the worker has left. -/
def refusal : List Event :=
  [.enqueue (ascii "a"), .enqueue (ascii "b"), .worker, .enqueue (ascii "c"), .shutdown] ++
    List.replicate 9 .worker ++ [.enqueue (ascii "d"), .join]

theorem no_line_lost_refusal :
    accepted ⟨1, 1, by decide, by decide⟩ refusal = [ascii "a", ascii "c", ascii "d"] ∧
      refused ⟨1, 1, by decide, by decide⟩ refusal = [ascii "b"] ∧
      (run ⟨1, 1, by decide, by decide⟩ {} refusal).stderr =
        [.lines [ascii "a"], .dropped 1, .lines [ascii "c"]] ∧
      accepted ⟨1, 1, by decide, by decide⟩ (refusal.takeWhile (· ≠ .shutdown)) <+:
        (run ⟨1, 1, by decide, by decide⟩ {} refusal).written ∧
      (run ⟨1, 1, by decide, by decide⟩ {} refusal).reported = 1 := by
  obtain ⟨hwritten, hreported⟩ :=
    (no_line_lost ⟨1, 1, by decide, by decide⟩ refusal).2.2.2.2.2.1 (by decide)
  exact ⟨by decide, by decide, by decide, hwritten, hreported.trans (by decide)⟩

end Logger

end Cppvless
