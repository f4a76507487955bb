import Mathlib.Logic.Function.Iterate

set_option autoImplicit false

/-! # The accept loop

`server::EventLoop::acceptLoop`, from `src/server/event_loop.cpp`, step by step. `AsyncAccept` takes an
entry of the submission ring; without one `abortOp` resumes the coroutine from inside `await_suspend`,
with the result `-1`. Entries come back only when `EventLoop::run` submits, after the resumption. -/

namespace Cppvless

/-- The submission ring: of its `entries`, `queued` are taken and not submitted. -/
structure SubmissionRing where
  entries : Nat
  queued : Nat
  le : queued ≤ entries

namespace SubmissionRing

/-- `io_uring_get_sqe` -/
def getSqe (ring : SubmissionRing) : Option SubmissionRing :=
  if h : ring.queued < ring.entries then some { ring with queued := ring.queued + 1, le := h }
  else none

/-- The ring after `getSqe` was called `n` times. -/
def take (n : Nat) (ring : SubmissionRing) : SubmissionRing :=
  { ring with queued := min (ring.queued + n) ring.entries, le := Nat.min_le_right _ _ }

end SubmissionRing

namespace AcceptLoop

/-- Where `acceptLoop` is: before the test of `running_`, at the await, behind it with its result,
    suspended with a queued accept, at its end. -/
inductive Control
  | head
  | await
  | resumed (clientFd : Int)
  | suspended
  | ended
  deriving DecidableEq

variable {C : Type}

/-- What one resumption meets: the values `running_` is read with, one after the other, what the
    factory makes of a descriptor, and what `start()` does to a connection and how many entries of the
    ring it asks for. -/
structure Env (C : Type) where
  running : Nat → Bool
  factory : Int → Option C
  start : C → C × Nat

/-- `acceptLoop` in the middle of a resumption that has read `running_` so many times. -/
structure State (C : Type) where
  ring : SubmissionRing
  connections : Int → Option C
  reads : Nat
  control : Control

/-- What is done with an accepted descriptor. Without a connection it is closed. -/
def accepted (env : Env C) (clientFd : Int) (s : State C) : State C :=
  match env.factory clientFd with
  | none => { s with control := .head }
  | some conn =>
      { s with
        ring := s.ring.take (env.start conn).2
        connections := Function.update s.connections clientFd (some (env.start conn).1)
        control := .head }

/-- `co_await coro::AsyncAccept(listenFd_, uring_)` -/
def awaitSuspend (s : State C) : State C :=
  match s.ring.getSqe with
  | none => { s with control := .resumed (-1) }
  | some ring => { s with ring, control := .suspended }

/-- A test of `running_`, behind which the loop goes on at `next` or ends. -/
def test (env : Env C) (next : Control) (s : State C) : State C :=
  { s with reads := s.reads + 1, control := if env.running s.reads then next else .ended }

/-- One step of the coroutine. It takes none once it is suspended or at its end. -/
def step (env : Env C) (s : State C) : State C :=
  match s.control with
  | .head => test env .await s
  | .await => awaitSuspend s
  | .resumed clientFd =>
      if clientFd < 0 then test env .head s else accepted env clientFd s
  | .suspended => s
  | .ended => s

/-- The start of a resumption: the first one, or that by the completion of an accept. -/
def resume (ring : SubmissionRing) (connections : Int → Option C) (result : Option Int) : State C where
  ring
  connections
  reads := 0
  control :=
    match result with
    | none => .head
    | some clientFd => .resumed clientFd

/-- The resumption is over. -/
def State.Returned (s : State C) : Prop := s.control = .suspended ∨ s.control = .ended

/-- The ring once the connection that was accepted, if any, has been started. -/
def ringLeft (env : Env C) (ring : SubmissionRing) : Option Int → SubmissionRing
  | none => ring
  | some clientFd =>
      if clientFd < 0 then ring
      else
        match env.factory clientFd with
        | none => ring
        | some conn => ring.take (env.start conn).2

/-- The coroutine comes to a point where the resumption is over. -/
def Returns (env : Env C) (s : State C) : Prop := ∃ n, ((step env)^[n] s).Returned

/-! ## Going around -/

theorem returns_of_returned {env : Env C} {s : State C} (h : s.Returned) : Returns env s := ⟨0, h⟩

theorem returns_step {env : Env C} {s : State C} (h : Returns env (step env s)) : Returns env s := by
  obtain ⟨n, h⟩ := h
  exact ⟨n + 1, h⟩

theorem step_of_returned {env : Env C} {s : State C} (h : s.Returned) : step env s = s := by
  rcases h with h | h <;> simp only [step, h]

/-- A resumption that is over stays so. -/
theorem returned_iterate {env : Env C} {s : State C} (h : s.Returned) (n : Nat) :
    ((step env)^[n] s).Returned := by
  rw [Function.iterate_fixed (step_of_returned h)]
  exact h

theorem returns_step_iff {env : Env C} {s : State C} : Returns env (step env s) ↔ Returns env s := by
  constructor
  · exact returns_step
  · rintro ⟨n, h⟩
    cases n with
    | zero =>
        have h : s.Returned := h
        exact ⟨0, returned_iterate h 1⟩
    | succ n => exact ⟨n, h⟩

/-- With an entry left the next await suspends, unless `running_` is found unset before. -/
theorem returns_of_room {env : Env C} {s : State C} {ring : SubmissionRing}
    (hcontrol : s.control = .head) (hroom : s.ring.getSqe = some ring) : Returns env s := by
  refine returns_step ?_
  have hhead : step env s = test env .await s := by
    simp only [step, hcontrol]
  rw [hhead]
  cases hrunning : env.running s.reads with
  | false => exact returns_of_returned (.inr (by simp [test, hrunning]))
  | true =>
      refine returns_step (returns_of_returned (.inl ?_))
      simp [step, test, hrunning, awaitSuspend, hroom]

/-- Going around with a full ring while `running_` stays set: the loop is about to test it, or has no
    entry for its await, or has been handed the `-1`. -/
structure Spinning (env : Env C) (s : State C) : Prop where
  full : s.ring.getSqe = none
  runs : ∀ i, s.reads ≤ i → env.running i = true
  control : s.control = .head ∨ s.control = .await ∨ s.control = .resumed (-1)

theorem spinning_step {env : Env C} {s : State C} (hs : Spinning env s) : Spinning env (step env s) := by
  obtain ⟨hfull, hruns, h | h | h⟩ := hs
  · have hnext : step env s = { s with reads := s.reads + 1, control := .await } := by
      simp only [step, h, test, hruns s.reads (Nat.le_refl _), if_true]
    rw [hnext]
    exact ⟨hfull, fun i hi => hruns i (Nat.le_of_succ_le hi), .inr (.inl rfl)⟩
  · have hnext : step env s = { s with control := .resumed (-1) } := by
      simp only [step, h, awaitSuspend, hfull]
    rw [hnext]
    exact ⟨hfull, hruns, .inr (.inr rfl)⟩
  · have hnext : step env s = { s with reads := s.reads + 1, control := .head } := by
      simp [step, h, test, hruns s.reads (Nat.le_refl _)]
    rw [hnext]
    exact ⟨hfull, fun i hi => hruns i (Nat.le_of_succ_le hi), .inl rfl⟩

/-- With a full ring only an unset `running_` stops the loop. -/
theorem Spinning.not_returns {env : Env C} {s : State C} (hs : Spinning env s) : ¬ Returns env s := by
  rintro ⟨n, h⟩
  have hspin : Spinning env ((step env)^[n] s) := by
    induction n generalizing s with
    | zero => exact hs
    | succ n ih => exact ih (spinning_step hs) h
  rcases hspin.control with hc | hc | hc <;> simp [State.Returned, hc] at h

/-- One round of the loop with a full ring takes two reads of `running_`. -/
theorem returns_of_round {env : Env C} {s : State C} (hcontrol : s.control = .head)
    (hfull : s.ring.getSqe = none) (h : Returns env { s with reads := s.reads + 2 }) :
    Returns env s := by
  have hhead : step env s = test env .await s := by
    simp only [step, hcontrol]
  refine returns_step ?_
  rw [hhead]
  cases hfirst : env.running s.reads with
  | false => exact returns_of_returned (.inr (by simp [test, hfirst]))
  | true =>
      -- the await hands the loop its `-1`
      refine returns_step (returns_step ?_)
      cases hsecond : env.running (s.reads + 1) with
      | false =>
          refine returns_of_returned (.inr ?_)
          simp [step, test, hfirst, awaitSuspend, hfull, hsecond]
      | true =>
          have hround : step env (step env (test env .await s)) = { s with reads := s.reads + 2 } := by
            simp [step, test, hfirst, awaitSuspend, hfull, hsecond, hcontrol]
          rw [hround]
          exact h

/-- With a full ring the loop reads `running_` until it finds it unset. -/
theorem returns_of_stopped {env : Env C} {i : Nat} (hstop : env.running i = false) :
    ∀ {s : State C}, s.control = .head → s.reads ≤ i → s.ring.getSqe = none → Returns env s := by
  intro s hcontrol hle hfull
  -- on the reads that are left
  induction hk : i - s.reads using Nat.strongRecOn generalizing s with
  | ind k ih =>
      rcases Nat.lt_or_ge (s.reads + 1) i with hlt | hge
      · refine returns_of_round hcontrol hfull (ih (i - (s.reads + 2)) (by omega) hcontrol hlt hfull rfl)
      · have hlast : i = s.reads ∨ i = s.reads + 1 := by omega
        rcases hlast with rfl | rfl
        · refine returns_step (returns_of_returned (.inr ?_))
          simp [step, hcontrol, test, hstop]
        · cases hfirst : env.running s.reads with
          | false =>
              refine returns_step (returns_of_returned (.inr ?_))
              simp [step, hcontrol, test, hfirst]
          | true =>
              refine returns_step (returns_step (returns_step (returns_of_returned (.inr ?_))))
              simp [step, hcontrol, test, hfirst, awaitSuspend, hfull, hstop]

/-- From the head of the loop it is the ring and `running_` that decide. -/
theorem returns_head_iff {env : Env C} {s : State C} (hcontrol : s.control = .head) :
    Returns env s ↔ s.ring.getSqe.isSome = true ∨ ∃ i, s.reads ≤ i ∧ env.running i = false := by
  cases hroom : s.ring.getSqe with
  | some ring => exact iff_of_true (returns_of_room hcontrol hroom) (.inl rfl)
  | none =>
      constructor
      · intro h
        by_contra hnone
        have hspin : Spinning env s := by
          refine ⟨hroom, fun i hi => ?_, .inl hcontrol⟩
          by_contra hi'
          exact hnone (.inr ⟨i, hi, by simpa using hi'⟩)
        exact hspin.not_returns h
      · rintro (h | ⟨i, hi, hstop⟩)
        · exact nomatch h
        · exact returns_of_stopped hstop hcontrol hi hroom

/-- **A resumption of the accept loop is over exactly if an entry of the ring is left** once the
    connection it accepted has been started, **or `running_` is unset meanwhile**. Otherwise
    `acceptLoop` and `abortOp` resume each other for ever. -/
theorem accept_loop_returns_iff (env : Env C) (ring : SubmissionRing) (connections : Int → Option C)
    (result : Option Int) :
    Returns env (resume ring connections result) ↔
      (ringLeft env ring result).getSqe.isSome = true ∨ ∃ i, env.running i = false := by
  have hhead : ∀ s : State C, s.control = .head → s.reads = 0 →
      (Returns env s ↔ s.ring.getSqe.isSome = true ∨ ∃ i, env.running i = false) := by
    intro s hcontrol hreads
    simp [returns_head_iff hcontrol, hreads]
  cases result with
  | none => exact hhead _ rfl rfl
  | some clientFd =>
      rw [← returns_step_iff]
      by_cases hneg : clientFd < 0
      · cases hfirst : env.running 0 with
        | false =>
            refine iff_of_true (returns_of_returned (.inr ?_)) (.inr ⟨0, hfirst⟩)
            simp [step, resume, hneg, test, hfirst]
        | true =>
            have hnext : step env (resume ring connections (some clientFd)) =
                { ring, connections, reads := 1, control := .head } := by
              simp [step, resume, hneg, test, hfirst]
            rw [hnext, returns_head_iff rfl]
            simp only [ringLeft, hneg, if_true]
            -- the first read found it set
            constructor
            · exact Or.imp_right fun ⟨i, _, hi⟩ => ⟨i, hi⟩
            · refine Or.imp_right fun ⟨i, hi⟩ => ⟨i, Nat.one_le_iff_ne_zero.2 ?_, hi⟩
              rintro rfl
              exact absurd hi (by simp [hfirst])
      · have hnext : step env (resume ring connections (some clientFd)) =
            accepted env clientFd (resume ring connections (some clientFd)) := by
          simp only [step, resume, hneg, if_false]
        rw [hnext]
        cases hconn : env.factory clientFd with
        | none =>
            rw [hhead _ (by simp [accepted, hconn]) (by simp [accepted, hconn, resume])]
            simp [accepted, ringLeft, hneg, hconn, resume]
        | some conn =>
            rw [hhead _ (by simp [accepted, hconn]) (by simp [accepted, hconn, resume])]
            simp [accepted, ringLeft, hneg, hconn, resume]

/-- The completions of one pass have filled the ring, and the accept that completes with them has
    failed (`-24` is `EMFILE`). -/
theorem accept_loop_spins :
    ¬ Returns (C := Unit) ⟨fun _ => true, some ∘ fun _ => (), fun c => (c, 1)⟩
      (resume ⟨2048, 2048, Nat.le_refl _⟩ (fun _ => none) (some (-24))) := by
  have hspin : Spinning (C := Unit) ⟨fun _ => true, some ∘ fun _ => (), fun c => (c, 1)⟩
      ⟨⟨2048, 2048, Nat.le_refl _⟩, fun _ => none, 1, .head⟩ :=
    ⟨rfl, fun _ _ => rfl, .inl rfl⟩
  rw [← returns_step_iff]
  exact hspin.not_returns

end AcceptLoop

end Cppvless
