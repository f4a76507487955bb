import Cppvless.Net.BufferedStream

set_option autoImplicit false

/-! # A buffered stream is a queue of bytes

Any sequence of calls of a `coro::UringBufferedStream` answers as a queue does that holds, from the
start, all bytes the source will ever deliver (`calls_runs`). How the source is cut into pieces is
seen in one place only, the number of bytes that `drainRemaining` takes, so that two ways of cutting
are told apart by nothing else (`ByteQueue.Runs.unique`).

`readByte` has no way to say that the source has ended: it answers 0 then, and takes nothing. -/

namespace Cppvless

open Coroutine

/-- A call of a buffered stream. -/
inductive BufferedCall
  | read (need : Nat)
  | readByte
  | drainRemaining
  deriving DecidableEq

/-! ## The queue -/

namespace ByteQueue

/-- The calls, on a queue, with the bytes that each takes off its front. How many a drain takes is
    left open. -/
inductive Runs : Bytes → List BufferedCall → List Bytes → Bytes → Prop
  | nil (q : Bytes) : Runs q [] [] q
  | read {q q' : Bytes} {ops : List BufferedCall} {taken : List Bytes} (need : Nat)
      (h : Runs (q.drop need) ops taken q') : Runs q (.read need :: ops) (q.take need :: taken) q'
  | readByte {q q' : Bytes} {ops : List BufferedCall} {taken : List Bytes}
      (h : Runs (q.drop 1) ops taken q') : Runs q (.readByte :: ops) (q.take 1 :: taken) q'
  | drainRemaining {q q' : Bytes} {ops : List BufferedCall} {taken : List Bytes} (drained : Bytes)
      (h : Runs q ops taken q') : Runs (drained ++ q) (.drainRemaining :: ops) (drained :: taken) q'

/-- What is returned for the bytes taken. -/
def answer : BufferedCall → Bytes → Bytes
  | .readByte, taken => [taken.headD 0]
  | .read _, taken => taken
  | .drainRemaining, taken => taken

/-- The number of bytes that each drain returned. -/
def drained : List BufferedCall → List Bytes → List Nat
  | .drainRemaining :: ops, bytes :: answers => bytes.length :: drained ops answers
  | _ :: ops, _ :: answers => drained ops answers
  | _, _ => []

/-- Nothing is lost, repeated or put in another place. -/
theorem Runs.flatten {q q' : Bytes} {ops : List BufferedCall} {taken : List Bytes}
    (h : Runs q ops taken q') : taken.flatten ++ q' = q := by
  induction h with
  | nil q => rfl
  | read need _ ih => rw [List.flatten_cons, List.append_assoc, ih, List.take_append_drop]
  | readByte _ ih => rw [List.flatten_cons, List.append_assoc, ih, List.take_append_drop]
  | drainRemaining d _ ih => rw [List.flatten_cons, List.append_assoc, ih]

/-- The queue is all that the answers depend on, but for how much the drains take. -/
theorem Runs.unique {q q₁ q₂ : Bytes} {ops : List BufferedCall} {taken₁ taken₂ : List Bytes}
    (h₁ : Runs q ops taken₁ q₁) (h₂ : Runs q ops taken₂ q₂)
    (hdrained : drained ops taken₁ = drained ops taken₂) : taken₁ = taken₂ ∧ q₁ = q₂ := by
  induction h₁ generalizing taken₂ with
  | nil q =>
      cases h₂
      exact ⟨rfl, rfl⟩
  | read need _ ih =>
      cases h₂ with
      | read _ h₂ =>
          obtain ⟨rfl, rfl⟩ := ih h₂ hdrained
          exact ⟨rfl, rfl⟩
  | readByte _ ih =>
      cases h₂ with
      | readByte h₂ =>
          obtain ⟨rfl, rfl⟩ := ih h₂ hdrained
          exact ⟨rfl, rfl⟩
  | drainRemaining d _ ih =>
      generalize hq : d ++ _ = q at h₂
      cases h₂ with
      | drainRemaining d₂ h₂ =>
          simp only [drained, List.cons.injEq] at hdrained
          obtain ⟨rfl, rfl⟩ := List.append_inj hq hdrained.1
          obtain ⟨rfl, rfl⟩ := ih h₂ hdrained.2
          exact ⟨rfl, rfl⟩

theorem Runs.length_eq {q q' : Bytes} {ops : List BufferedCall} {taken : List Bytes}
    (h : Runs q ops taken q') : taken.length = ops.length := by
  induction h with
  | nil q => rfl
  | read need _ ih => rw [List.length_cons, List.length_cons, ih]
  | readByte _ ih => rw [List.length_cons, List.length_cons, ih]
  | drainRemaining d _ ih => rw [List.length_cons, List.length_cons, ih]

/-- A drain returns what it takes. -/
theorem drained_answer (ops : List BufferedCall) (taken : List Bytes) :
    drained ops (List.zipWith answer ops taken) = drained ops taken := by
  induction ops generalizing taken with
  | nil => cases taken <;> rfl
  | cons op ops ih =>
      cases taken with
      | nil => cases op <;> rfl
      | cons bytes taken =>
          cases op with
          | read need => exact ih taken
          | readByte => exact ih taken
          | drainRemaining => exact congrArg (bytes.length :: ·) (ih taken)

end ByteQueue

/-! ## The calls -/

namespace UringBufferedStream

variable {S : Sig}

def readByte (src : Coro Exn S RecvResult) (bs : UringBufferedStream) :
    Coro Exn S (UInt8 × UringBufferedStream) := do
  let (data, bs) ← bs.read src 1
  -- 0 if `data` is empty
  return (data.headD 0, bs)

/-- The bytes that a call returns. -/
def call (src : Coro Exn S RecvResult) (bs : UringBufferedStream) :
    BufferedCall → Coro Exn S (Bytes × UringBufferedStream)
  | .read need => bs.read src need
  | .readByte => do
      let (b, bs) ← bs.readByte src
      return ([b], bs)
  | .drainRemaining => return bs.drainRemaining

/-- The bytes that each of the calls returns. -/
def calls (src : Coro Exn S RecvResult) (bs : UringBufferedStream) :
    List BufferedCall → Coro Exn S (List Bytes × UringBufferedStream)
  | [] => return ([], bs)
  | op :: ops => do
      let (bytes, bs) ← bs.call src op
      let (answers, bs) ← bs.calls src ops
      return (bytes :: answers, bs)

open Coro ByteQueue

theorem eval_readByte (bs : UringBufferedStream) (src : Source) :
    ∃ bs' src', Eval Source.deliver (bs.readByte Source.read) src
        (.ok ((bs.unread ++ src.bytes).headD 0, bs')) src' ∧
      bs'.unread ++ src'.bytes = (bs.unread ++ src.bytes).drop 1 := by
  obtain ⟨data, bs', src', hread, hdata, hrest⟩ := eval_read 1 bs src
  have hhead : data.headD 0 = (bs.unread ++ src.bytes).headD 0 := by
    subst hdata
    cases bs.unread ++ src.bytes <;> rfl
  rw [← hhead]
  exact ⟨bs', src', .bind hread (.done _ _), hrest⟩

/-- **Every sequence of calls answers as the queue** of what is buffered and still to come. -/
theorem calls_runs (ops : List BufferedCall) (bs : UringBufferedStream) (src : Source) :
    ∃ taken bs' src', Eval Source.deliver (bs.calls Source.read ops) src
        (.ok (List.zipWith answer ops taken, bs')) src' ∧
      Runs (bs.unread ++ src.bytes) ops taken (bs'.unread ++ src'.bytes) := by
  induction ops generalizing bs src with
  | nil => exact ⟨[], bs, src, .done _ _, .nil _⟩
  | cons op ops ih =>
      cases op with
      | read need =>
          obtain ⟨data, bs₁, src₁, hread, rfl, hrest⟩ := eval_read need bs src
          obtain ⟨taken, bs', src', hcalls, hruns⟩ := ih bs₁ src₁
          rw [hrest] at hruns
          exact ⟨_ :: taken, bs', src', .bind hread (.bind hcalls (.done _ _)), .read need hruns⟩
      | readByte =>
          obtain ⟨bs₁, src₁, hread, hrest⟩ := eval_readByte bs src
          obtain ⟨taken, bs', src', hcalls, hruns⟩ := ih bs₁ src₁
          rw [hrest] at hruns
          have hhead : [(bs.unread ++ src.bytes).headD 0] =
              answer .readByte ((bs.unread ++ src.bytes).take 1) := by
            cases bs.unread ++ src.bytes <;> rfl
          refine ⟨_ :: taken, bs', src', ?_, .readByte hruns⟩
          rw [List.zipWith_cons_cons, ← hhead]
          exact .bind (.bind hread (.done _ _)) (.bind hcalls (.done _ _))
      | drainRemaining =>
          obtain ⟨taken, bs', src', hcalls, hruns⟩ := ih bs.drainRemaining.2 src
          rw [unread_drainRemaining, List.nil_append] at hruns
          exact ⟨bs.unread :: taken, bs', src', .bind (.done _ _) (.bind hcalls (.done _ _)),
            .drainRemaining bs.unread hruns⟩

/-- **A buffered stream refines a queue of bytes**, from its start, and a drain gets what has been
    fetched and not returned. Another way of cutting the source shows in the drains only. -/
theorem refines_byteQueue (src : Source) (ops : List BufferedCall) :
    ∃ taken bs src', Eval Source.deliver (empty.calls Source.read ops) src
        (.ok (List.zipWith answer ops taken, bs)) src' ∧
      Runs src.bytes ops taken (bs.unread ++ src'.bytes) ∧
      taken.flatten ++ bs.drainRemaining.1 ++ src'.bytes = src.bytes ∧
      bs.consumed ≤ bs.buffer.length ∧
      ∀ (cut : Source) (answers : List Bytes) (bs₂ : UringBufferedStream) (cut' : Source),
        cut.bytes = src.bytes →
        Eval Source.deliver (empty.calls Source.read ops) cut (.ok (answers, bs₂)) cut' →
        drained ops answers = drained ops taken → answers = List.zipWith answer ops taken := by
  obtain ⟨taken, bs, src', hcalls, hruns⟩ := calls_runs ops empty src
  rw [unread_empty, List.nil_append] at hruns
  refine ⟨taken, bs, src', hcalls, hruns, ?_, bs.consumed_le, ?_⟩
  · rw [drainRemaining_fst, List.append_assoc, hruns.flatten]
  · intro cut answers bs₂ cut' hbytes heval hdrained
    obtain ⟨taken₂, bs₂', cut'', hcalls₂, hruns₂⟩ := calls_runs ops empty cut
    rw [unread_empty, List.nil_append, hbytes] at hruns₂
    obtain ⟨hanswers, -⟩ := heval.det hcalls₂
    simp only [Except.ok.injEq, Prod.mk.injEq] at hanswers
    obtain ⟨rfl, -⟩ := hanswers
    rw [drained_answer] at hdrained
    rw [(hruns₂.unique hruns hdrained).1]

def sampleEnding : { rr : RecvResult // rr.ok = false } := ⟨.ofBytes [], rfl⟩

/-- `1, 2, 3`, cut before 3 and before 2. -/
def sampleSource : Source := ⟨[⟨[1, 2], by simp⟩, ⟨[3], by simp⟩], sampleEnding⟩
def sampleCut : Source := ⟨[⟨[1], by simp⟩, ⟨[2, 3], by simp⟩], sampleEnding⟩

theorem refines_byteQueue_sample :
    ∃ answers bs bs₂ src' cut', Eval Source.deliver (empty.calls Source.read [.read 2, .readByte])
        sampleSource (.ok (answers, bs)) src' ∧
      Eval Source.deliver (empty.calls Source.read [.read 2, .readByte])
        sampleCut (.ok (answers, bs₂)) cut' := by
  have hnone : ∀ answers, drained [.read 2, .readByte] answers = [] := by
    intro answers
    rcases answers with _ | ⟨_, _ | ⟨_, rest⟩⟩ <;> rfl
  obtain ⟨taken, bs, src', hcalls, -, -, -, hcut⟩ :=
    refines_byteQueue sampleSource [.read 2, .readByte]
  obtain ⟨taken₂, bs₂, cut', hcalls₂, -⟩ := calls_runs [.read 2, .readByte] empty sampleCut
  have hsame := hcut sampleCut _ bs₂ cut' rfl hcalls₂ ((hnone _).trans (hnone taken).symm)
  exact ⟨_, bs, bs₂, src', cut', hcalls, hsame ▸ hcalls₂⟩

/-- At the end `readByte` returns a byte that the source does not have. -/
theorem readByte_not_prefix :
    ∃ answers bs src', Eval Source.deliver (empty.calls Source.read [.readByte])
        ⟨[], sampleEnding⟩ (.ok (answers, bs)) src' ∧
      ¬answers.flatten <+: (⟨[], sampleEnding⟩ : Source).bytes := by
  obtain ⟨taken, bs, src', hcalls, hruns⟩ := calls_runs [.readByte] empty ⟨[], sampleEnding⟩
  have htaken : taken = [[]] := by
    have hflatten := hruns.flatten
    have hnil : taken.flatten = [] := (List.append_eq_nil_iff.1 hflatten).1
    have hlength := hruns.length_eq
    match taken, hlength with
    | [bytes], _ => simpa using hnil
  rw [htaken] at hcalls
  exact ⟨_, bs, src', hcalls, by decide⟩

end UringBufferedStream

end Cppvless
