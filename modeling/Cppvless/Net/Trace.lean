import Mathlib.Data.List.Induction
import Cppvless.Net.Stream

set_option autoImplicit false

/-! # What a trace says about the bytes

Reads and writes of a descriptor as they appear in the trace of a connection, whether its stream is
plain or TLS: what was read so far, what was written, whether the stream ended and whether a write
failed. A `Flow` relates the two ends of one direction of a tunnel; `Flow.Carries` is the invariant
of whatever moves its bytes, loop or not. -/

namespace Cppvless

open Coroutine

/-! ## Histories -/

section EachStep

variable {α : Type} {Q : List α → α → Prop} {l : List α} {a : α}

/-- `Q` holds of every element and what comes before it. -/
def EachStep (Q : List α → α → Prop) (l : List α) : Prop :=
  ∀ before a after, l = before ++ a :: after → Q before a

theorem eachStep_nil : EachStep Q [] := by
  intro before a after h
  exact absurd h (by simp)

theorem eachStep_concat : EachStep Q (l ++ [a]) ↔ EachStep Q l ∧ Q l a := by
  constructor
  · intro h
    refine ⟨fun before b after hsplit => h before b (after ++ [a]) (by simp [hsplit]), ?_⟩
    exact h l a [] rfl
  · intro ⟨h, ha⟩ before b after hsplit
    rcases List.eq_nil_or_concat after with hnil | ⟨after', last, hconcat⟩
    · rw [hnil] at hsplit
      obtain ⟨hl, hb⟩ := List.append_inj' hsplit rfl
      rw [← hl, ← (List.cons.inj hb).1]
      exact ha
    · rw [hconcat, List.concat_eq_append, ← List.cons_append, ← List.append_assoc] at hsplit
      obtain ⟨hl, -⟩ := List.append_inj' hsplit rfl
      exact h before b after' hl

theorem EachStep.of_append {l' : List α} (h : EachStep Q (l ++ l')) : EachStep Q l := by
  intro before a after hsplit
  exact h before a (after ++ l') (by simp [hsplit])

theorem EachStep.append (h : EachStep Q l) {l' : List α} (h' : ∀ before, ∀ b ∈ l', Q before b) :
    EachStep Q (l ++ l') := by
  induction l' using List.reverseRecOn with
  | nil => rwa [List.append_nil]
  | append_singleton l' a ih =>
      rw [← List.append_assoc]
      exact eachStep_concat.2
        ⟨ih fun before b hb => h' before b (List.mem_append_left _ hb), h' _ _ (by simp)⟩

theorem eachStep_iff : EachStep Q l ↔ ∀ i : Fin l.length, Q (l.take i) (l.get i) := by
  constructor
  · intro h i
    refine h _ _ (l.drop (i + 1)) ?_
    rw [List.get_eq_getElem, List.getElem_cons_drop, List.take_append_drop]
  · rintro h before a after rfl
    simpa using h ⟨before.length, by simp⟩

instance [∀ before a, Decidable (Q before a)] : Decidable (EachStep Q l) :=
  decidable_of_iff' _ eachStep_iff

end EachStep

variable {K : Kind}

/-! ## Single events -/

/-- The operation reads from `fd`. -/
def NetOp.Reads {Fd : Type} (fd : Fd) : NetOp Fd → Prop
  | .recv fd' _ => fd' = fd
  | .tlsRead fd' _ => fd' = fd
  | _ => False

/-- The operation writes to `fd`. -/
def NetOp.Writes {Fd : Type} (fd : Fd) : NetOp Fd → Prop
  | .send fd' _ => fd' = fd
  | .tlsWriteFull fd' _ => fd' = fd
  | _ => False

/-- The operation ends the writing side of `fd`. -/
def NetOp.Shuts {Fd : Type} (fd : Fd) : NetOp Fd → Prop
  | .shutdownWr fd' => fd' = fd
  | .tlsShutdownWrite fd' => fd' = fd
  | _ => False

namespace NetOp

variable {Fd : Type} {fd fd' : Fd} {o : NetOp Fd}

theorem Reads.unique (h : o.Reads fd) (h' : o.Reads fd') : fd = fd' := by
  cases o with
  | recv _ _ => exact h.symm.trans h'
  | tlsRead _ _ => exact h.symm.trans h'
  | _ => exact h.elim

theorem Reads.suspends (h : o.Reads fd) : o.suspends = true := by
  cases o with
  | recv _ _ => rfl
  | tlsRead _ _ => rfl
  | _ => exact h.elim

theorem Writes.unique (h : o.Writes fd) (h' : o.Writes fd') : fd = fd' := by
  cases o with
  | send _ _ => exact h.symm.trans h'
  | tlsWriteFull _ _ => exact h.symm.trans h'
  | _ => exact h.elim

theorem Reads.not_writes (h : o.Reads fd) : ¬ o.Writes fd' := by
  cases o with
  | recv _ _ => exact id
  | tlsRead _ _ => exact id
  | _ => exact h.elim

theorem Shuts.unique (h : o.Shuts fd) (h' : o.Shuts fd') : fd = fd' := by
  cases o with
  | shutdownWr _ => exact h.symm.trans h'
  | tlsShutdownWrite _ => exact h.symm.trans h'
  | _ => exact h.elim

theorem Reads.not_shuts (h : o.Reads fd) : ¬ o.Shuts fd' := by
  cases o with
  | recv _ _ => exact id
  | tlsRead _ _ => exact id
  | _ => exact h.elim

theorem Writes.not_shuts (h : o.Writes fd) : ¬ o.Shuts fd' := by
  cases o with
  | send _ _ => exact id
  | tlsWriteFull _ _ => exact id
  | _ => exact h.elim

theorem Shuts.not_reads (h : o.Shuts fd) : ¬ o.Reads fd' := by
  cases o with
  | shutdownWr _ => exact id
  | tlsShutdownWrite _ => exact id
  | _ => exact h.elim

theorem Shuts.not_writes (h : o.Shuts fd) : ¬ o.Writes fd' := by
  cases o with
  | shutdownWr _ => exact id
  | tlsShutdownWrite _ => exact id
  | _ => exact h.elim

end NetOp

/-- What a read of `fd` answered. -/
def heard (fd : K.Fd) : Event K.object → Option RecvResult
  | .io (.inl (.recv fd' _)) r => if fd' = fd then some r.1 else none
  | .io (.inl (.tlsRead fd' _)) r => if fd' = fd then some r.1 else none
  | _ => none

/-- What a write to `fd` got through, and whether it failed. A `send` that accepts a part succeeds, a
    `TlsStream::writeFull` that does not. -/
def wrote (fd : K.Fd) : Event K.object → Option (Bytes × Bool)
  | .io (.inl (.send fd' data)) r =>
      if fd' = fd then some (data.take r.1.toNat, decide (r.1 ≤ 0)) else none
  | .io (.inl (.tlsWriteFull fd' data)) r =>
      if fd' = fd then some (data.take r.1.toNat, decide (r.1 < data.length)) else none
  | _ => none

/-- A `send` on `fd`: what it was given and what it answered. -/
def sent (fd : K.Fd) : Event K.object → Option (Bytes × Int)
  | .io (.inl (.send fd' data)) r => if fd' = fd then some (data, r.1) else none
  | _ => none

/-- A `::shutdown` of both directions of `fd`. -/
def cuts (fd : K.Fd) : Event K.object → Bool
  | .sys (.shutdownRdWr fd') => decide (fd' = fd)
  | _ => false

/-- An end of the writing side of `fd`. -/
def shuts (fd : K.Fd) : Event K.object → Bool
  | .io (.inl (.shutdownWr fd')) _ => decide (fd' = fd)
  | .io (.inl (.tlsShutdownWrite fd')) _ => decide (fd' = fd)
  | _ => false

/-! ## Traces -/

variable (fd : K.Fd) (tr tr' : List (Event K.object))

/-- The answers to the reads of `fd`. -/
def answers : List RecvResult := tr.filterMap (heard fd)

/-- The pieces read from `fd`. -/
def chunksFrom : List Bytes := ((answers fd tr).filter RecvResult.ok).map RecvResult.data

/-- The bytes read from `fd`. -/
def readFrom : Bytes := (chunksFrom fd tr).flatten

/-- The writes to `fd`: what each got through, and whether it failed. -/
def writes : List (Bytes × Bool) := tr.filterMap (wrote fd)

/-- The bytes written to `fd`. -/
def wroteTo : Bytes := (writes fd tr).flatMap Prod.fst

/-- The sends on `fd`. -/
def sends : List (Bytes × Int) := tr.filterMap (sent fd)

/-- A read of `fd` answered EOF. -/
def EofOn : Prop := ∃ rr ∈ answers fd tr, rr.eof = true

/-- A read of `fd` failed. -/
def ReadFailed : Prop := ∃ rr ∈ answers fd tr, rr.error = true

/-- A write to `fd` failed. -/
def WriteFailed : Prop := ∃ x ∈ writes fd tr, x.2 = true

/-- `fd` was shut down in both directions. -/
def CutOff : Prop := ∃ e ∈ tr, cuts fd e = true

/-- Once a write to `fd` has failed, all later ones fail and get nothing through. -/
def Sticky : Prop :=
  (writes fd tr).Pairwise fun x y => x.2 = true → y = ([], true)

instance : Decidable (EofOn fd tr) := inferInstanceAs (Decidable (∃ rr ∈ answers fd tr, rr.eof = true))

instance : Decidable (ReadFailed fd tr) :=
  inferInstanceAs (Decidable (∃ rr ∈ answers fd tr, rr.error = true))

instance : Decidable (WriteFailed fd tr) :=
  inferInstanceAs (Decidable (∃ x ∈ writes fd tr, x.2 = true))

instance : Decidable (CutOff fd tr) := inferInstanceAs (Decidable (∃ e ∈ tr, cuts fd e = true))

instance : Decidable (Sticky fd tr) :=
  inferInstanceAs (Decidable ((writes fd tr).Pairwise fun x y => x.2 = true → y = ([], true)))

@[simp] theorem answers_append : answers fd (tr ++ tr') = answers fd tr ++ answers fd tr' := by
  simp [answers]

@[simp] theorem chunksFrom_append :
    chunksFrom fd (tr ++ tr') = chunksFrom fd tr ++ chunksFrom fd tr' := by
  simp [chunksFrom]

@[simp] theorem readFrom_append : readFrom fd (tr ++ tr') = readFrom fd tr ++ readFrom fd tr' := by
  simp [readFrom]

@[simp] theorem writes_append : writes fd (tr ++ tr') = writes fd tr ++ writes fd tr' := by
  simp [writes]

@[simp] theorem wroteTo_append : wroteTo fd (tr ++ tr') = wroteTo fd tr ++ wroteTo fd tr' := by
  simp [wroteTo]

@[simp] theorem sends_append : sends fd (tr ++ tr') = sends fd tr ++ sends fd tr' := by
  simp [sends]

@[simp] theorem eofOn_append : EofOn fd (tr ++ tr') ↔ EofOn fd tr ∨ EofOn fd tr' := by
  simp [EofOn, or_and_right, exists_or]

@[simp] theorem readFailed_append :
    ReadFailed fd (tr ++ tr') ↔ ReadFailed fd tr ∨ ReadFailed fd tr' := by
  simp [ReadFailed, or_and_right, exists_or]

@[simp] theorem writeFailed_append :
    WriteFailed fd (tr ++ tr') ↔ WriteFailed fd tr ∨ WriteFailed fd tr' := by
  simp only [WriteFailed, writes_append, List.mem_append, or_and_right, exists_or]

@[simp] theorem cutOff_append : CutOff fd (tr ++ tr') ↔ CutOff fd tr ∨ CutOff fd tr' := by
  simp only [CutOff, List.mem_append, or_and_right, exists_or]

@[simp] theorem cutOff_sys (calls : List (Syscall K.Fd)) :
    CutOff fd (calls.map (Event.sys (O := K.object))) ↔ .shutdownRdWr fd ∈ calls := by
  constructor
  · intro ⟨e, he, hcuts⟩
    obtain ⟨c, hc, rfl⟩ := List.mem_map.1 he
    cases c with
    | shutdownRdWr fd' =>
        simp only [cuts, decide_eq_true_eq] at hcuts
        exact hcuts ▸ hc
    | close fd' => simp [cuts] at hcuts
  · intro h
    exact ⟨_, List.mem_map.2 ⟨_, h, rfl⟩, by simp [cuts]⟩

@[simp] theorem cutOff_io (o : K.object.Io.Op) (r : K.object.Io.Res o) :
    ¬ CutOff fd [.io (O := K.object) o r] := by
  simp [CutOff, cuts]

@[simp] theorem cutOff_spawned (t : K.Task) : ¬ CutOff fd [.spawned (O := K.object) t] := by
  simp [CutOff, cuts]

theorem Sticky.of_append {fd : K.Fd} {tr tr' : List (Event K.object)}
    (h : Sticky fd (tr ++ tr')) : Sticky fd tr := by
  rw [Sticky, writes_append] at h
  exact (List.pairwise_append.1 h).1

/-- After a failed write the next one fails. -/
theorem Sticky.next {fd : K.Fd} {tr : List (Event K.object)} {e : Event K.object} {x : Bytes × Bool}
    (h : Sticky fd (tr ++ [e])) (hx : wrote fd e = some x) (hfailed : WriteFailed fd tr) :
    x = ([], true) := by
  obtain ⟨y, hy, hy'⟩ := hfailed
  rw [Sticky, writes_append] at h
  exact (List.pairwise_append.1 h).2.2 y hy x (by simp [writes, hx]) hy'

theorem readFrom_mono {tr tr' : List (Event K.object)} (h : tr <+: tr') :
    readFrom fd tr <+: readFrom fd tr' := by
  obtain ⟨more, rfl⟩ := h
  rw [readFrom_append]
  exact List.prefix_append _ _

theorem chunksFrom_mono {tr tr' : List (Event K.object)} (h : tr <+: tr') :
    chunksFrom fd tr <+: chunksFrom fd tr' := by
  obtain ⟨more, rfl⟩ := h
  rw [chunksFrom_append]
  exact List.prefix_append _ _

/-- System calls neither read nor write. -/
@[simp] theorem answers_sys (calls : List (Syscall K.Fd)) :
    answers fd (calls.map (Event.sys (O := K.object))) = [] := by
  simp [answers, heard]

@[simp] theorem writes_sys (calls : List (Syscall K.Fd)) :
    writes fd (calls.map (Event.sys (O := K.object))) = [] := by
  simp [writes, wrote]

@[simp] theorem sends_sys (calls : List (Syscall K.Fd)) :
    sends fd (calls.map (Event.sys (O := K.object))) = [] := by
  simp [sends, sent]

theorem sends_call (w : World K.object) (f : K.Mem → K.Mem × List (Syscall K.Fd)) :
    sends fd (w.call f).trace = sends fd w.trace := by
  rw [World.call_trace, sends_append, sends_sys, List.append_nil]

theorem answers_call (w : World K.object) (f : K.Mem → K.Mem × List (Syscall K.Fd)) :
    answers fd (w.call f).trace = answers fd w.trace := by
  rw [World.call_trace, answers_append, answers_sys, List.append_nil]

theorem writes_call (w : World K.object) (f : K.Mem → K.Mem × List (Syscall K.Fd)) :
    writes fd (w.call f).trace = writes fd w.trace := by
  rw [World.call_trace, writes_append, writes_sys, List.append_nil]

/-! ## Events of one kind -/

variable {fd}

theorem answers_single {e : Event K.object} {rr : RecvResult} (h : heard fd e = some rr) :
    answers fd [e] = [rr] := by
  simp [answers, h]

theorem answers_other {e : Event K.object} (h : heard fd e = none) : answers fd [e] = [] := by
  simp [answers, h]

theorem chunksFrom_other {e : Event K.object} (h : heard fd e = none) : chunksFrom fd [e] = [] := by
  simp [chunksFrom, answers_other h]

theorem chunksFrom_single {e : Event K.object} {rr : RecvResult} (h : heard fd e = some rr) :
    chunksFrom fd [e] = if rr.ok then [rr.data] else [] := by
  cases hok : rr.ok <;> simp [chunksFrom, answers_single h, hok]

theorem readFrom_single {e : Event K.object} {rr : RecvResult} (h : heard fd e = some rr) :
    readFrom fd [e] = rr.data := by
  cases hok : rr.ok
  · simp [readFrom, chunksFrom_single h, hok, RecvResult.data_eq_nil_of_not_ok hok]
  · simp [readFrom, chunksFrom_single h, hok]

theorem readFrom_other {e : Event K.object} (h : heard fd e = none) : readFrom fd [e] = [] := by
  simp [readFrom, chunksFrom, answers_other h]

theorem eofOn_single {e : Event K.object} {rr : RecvResult} (h : heard fd e = some rr) :
    EofOn fd [e] ↔ rr.eof = true := by
  simp [EofOn, answers_single h]

theorem eofOn_other {e : Event K.object} (h : heard fd e = none) : ¬ EofOn fd [e] := by
  simp [EofOn, answers_other h]

theorem readFailed_single {e : Event K.object} {rr : RecvResult} (h : heard fd e = some rr) :
    ReadFailed fd [e] ↔ rr.error = true := by
  simp [ReadFailed, answers_single h]

theorem readFailed_other {e : Event K.object} (h : heard fd e = none) : ¬ ReadFailed fd [e] := by
  simp [ReadFailed, answers_other h]

theorem wroteTo_single {e : Event K.object} {x : Bytes × Bool} (h : wrote fd e = some x) :
    wroteTo fd [e] = x.1 := by
  simp [wroteTo, writes, h]

theorem wroteTo_other {e : Event K.object} (h : wrote fd e = none) : wroteTo fd [e] = [] := by
  simp [wroteTo, writes, h]

theorem writeFailed_single {e : Event K.object} {x : Bytes × Bool} (h : wrote fd e = some x) :
    WriteFailed fd [e] ↔ x.2 = true := by
  simp [WriteFailed, writes, h]

theorem writeFailed_other {e : Event K.object} (h : wrote fd e = none) : ¬ WriteFailed fd [e] := by
  simp [WriteFailed, writes, h]

/-- `e` is a read of `fd`, answered by `rr`. -/
structure IsRead (fd : K.Fd) (rr : RecvResult) (e : Event K.object) : Prop where
  heard_self : heard fd e = some rr
  heard_other : ∀ fd', fd' ≠ fd → heard fd' e = none
  wrote_none : ∀ fd', wrote fd' e = none

/-- `e` is a write to `fd` that got `out` through. -/
structure IsWrite (fd : K.Fd) (out : Bytes) (failed : Bool) (e : Event K.object) : Prop where
  wrote_self : wrote fd e = some (out, failed)
  wrote_other : ∀ fd', fd' ≠ fd → wrote fd' e = none
  heard_none : ∀ fd', heard fd' e = none

/-- `e` neither reads nor writes a byte. -/
structure IsQuiet (e : Event K.object) : Prop where
  heard_none : ∀ fd, heard fd e = none
  wrote_none : ∀ fd, wrote fd e = none

theorem IsRead.not_cutOff {fd : K.Fd} {rr : RecvResult} {e : Event K.object} (h : IsRead fd rr e)
    (fd' : K.Fd) : ¬ CutOff fd' [e] := by
  match e, h.heard_self with
  | .io o r, _ => exact cutOff_io fd' o r
  | .sys _, hheard => simp [heard] at hheard
  | .spawned _, hheard => simp [heard] at hheard

theorem IsWrite.not_cutOff {fd : K.Fd} {out : Bytes} {failed : Bool} {e : Event K.object}
    (h : IsWrite fd out failed e) (fd' : K.Fd) : ¬ CutOff fd' [e] := by
  match e, h.wrote_self with
  | .io o r, _ => exact cutOff_io fd' o r
  | .sys _, hwrote => simp [wrote] at hwrote
  | .spawned _, hwrote => simp [wrote] at hwrote

theorem isRead_recv (fd : K.Fd) (n : Nat) (r : (NetOp.recv fd n).Res) :
    IsRead fd r.1 (.io (O := K.object) (.inl (.recv fd n)) r) :=
  ⟨by simp [heard], fun fd' h => by simp [heard, h.symm], fun fd' => by simp [wrote]⟩

theorem isRead_tlsRead (fd : K.Fd) (n : Nat) (r : (NetOp.tlsRead fd n).Res) :
    IsRead fd r.1 (.io (O := K.object) (.inl (.tlsRead fd n)) r) :=
  ⟨by simp [heard], fun fd' h => by simp [heard, h.symm], fun fd' => by simp [wrote]⟩

theorem isWrite_send (fd : K.Fd) (data : Bytes) (r : (NetOp.send fd data).Res) :
    IsWrite fd (data.take r.1.toNat) (decide (r.1 ≤ 0))
      (.io (O := K.object) (.inl (.send fd data)) r) :=
  ⟨by simp [wrote], fun fd' h => by simp [wrote, h.symm], fun fd' => by simp [heard]⟩

theorem isWrite_tlsWriteFull (fd : K.Fd) (data : Bytes) (r : (NetOp.tlsWriteFull fd data).Res) :
    IsWrite fd (data.take r.1.toNat) (decide (r.1 < data.length))
      (.io (O := K.object) (.inl (.tlsWriteFull fd data)) r) :=
  ⟨by simp [wrote], fun fd' h => by simp [wrote, h.symm], fun fd' => by simp [heard]⟩

theorem heard_eq_none {fd : K.Fd} {o : NetOp K.Fd} (h : ¬ o.Reads fd) (r : o.Res) :
    heard fd (.io (O := K.object) (.inl o) r) = none := by
  cases o with
  | recv fd' n => exact if_neg h
  | tlsRead fd' n => exact if_neg h
  | _ => rfl

theorem wrote_eq_none {fd : K.Fd} {o : NetOp K.Fd} (h : ¬ o.Writes fd) (r : o.Res) :
    wrote fd (.io (O := K.object) (.inl o) r) = none := by
  cases o with
  | send fd' data => exact if_neg h
  | tlsWriteFull fd' data => exact if_neg h
  | _ => rfl

theorem shuts_eq_false {fd : K.Fd} {o : NetOp K.Fd} (h : ¬ o.Shuts fd) (r : o.Res) :
    shuts fd (.io (O := K.object) (.inl o) r) = false := by
  cases o with
  | shutdownWr fd' => exact decide_eq_false h
  | tlsShutdownWrite fd' => exact decide_eq_false h
  | _ => rfl

theorem shuts_self {fd : K.Fd} {o : NetOp K.Fd} (h : o.Shuts fd) (r : o.Res) :
    shuts fd (.io (O := K.object) (.inl o) r) = true := by
  cases o with
  | shutdownWr fd' => exact decide_eq_true h
  | tlsShutdownWrite fd' => exact decide_eq_true h
  | _ => exact h.elim

/-- It is an operation that reads. -/
theorem IsRead.read {fd : K.Fd} {rr : RecvResult} {e : Event K.object} (h : IsRead fd rr e) :
    ∃ (o : NetOp K.Fd) (r : o.Res), e = .io (.inl o) r ∧ o.Reads fd := by
  match e, h.heard_self with
  | .io (.inl o) r, hheard =>
      refine ⟨o, r, rfl, ?_⟩
      by_contra hnot
      rw [heard_eq_none hnot] at hheard
      exact nomatch hheard
  | .io (.inr _) _, hheard => simp [heard] at hheard
  | .sys _, hheard => simp [heard] at hheard
  | .spawned _, hheard => simp [heard] at hheard

/-- It is an operation that writes. -/
theorem IsWrite.write {fd : K.Fd} {out : Bytes} {failed : Bool} {e : Event K.object}
    (h : IsWrite fd out failed e) : ∃ (o : NetOp K.Fd) (r : o.Res), e = .io (.inl o) r ∧ o.Writes fd := by
  match e, h.wrote_self with
  | .io (.inl o) r, hwrote =>
      refine ⟨o, r, rfl, ?_⟩
      by_contra hnot
      rw [wrote_eq_none hnot] at hwrote
      exact nomatch hwrote
  | .io (.inr _) _, hwrote => simp [wrote] at hwrote
  | .sys _, hwrote => simp [wrote] at hwrote
  | .spawned _, hwrote => simp [wrote] at hwrote

/-- A send is a write. -/
theorem sent_eq_none {fd : K.Fd} {e : Event K.object} (h : wrote fd e = none) : sent fd e = none := by
  match e with
  | .io (.inl (.send fd' data)) r =>
      by_cases hfd : fd' = fd
      · simp [wrote, hfd] at h
      · exact if_neg hfd
  | .io (.inl (.recv _ _)) _ => rfl
  | .io (.inl (.connect _ _)) _ => rfl
  | .io (.inl (.shutdownWr _)) _ => rfl
  | .io (.inl (.tlsHandshake _)) _ => rfl
  | .io (.inl (.tlsRead _ _)) _ => rfl
  | .io (.inl (.tlsWriteFull _ _)) _ => rfl
  | .io (.inl (.tlsShutdownWrite _)) _ => rfl
  | .io (.inl (.getaddrinfo _ _ _)) _ => rfl
  | .io (.inl (.socket _ _ _)) _ => rfl
  | .io (.inr _) _ => rfl
  | .sys _ => rfl
  | .spawned _ => rfl

theorem sends_other {fd : K.Fd} {e : Event K.object} (h : wrote fd e = none) :
    sends fd [e] = [] := by
  simp [sends, sent_eq_none h]

theorem isQuiet_net {o : NetOp K.Fd} (hr : ∀ fd, ¬ o.Reads fd) (hw : ∀ fd, ¬ o.Writes fd)
    (r : o.Res) : IsQuiet (.io (O := K.object) (.inl o) r) :=
  ⟨fun fd => heard_eq_none (hr fd) r, fun fd => wrote_eq_none (hw fd) r⟩

theorem isQuiet_ext (o : K.Ext.Op) (r : K.Ext.Res o) :
    IsQuiet (.io (O := K.object) (.inr o) r) := ⟨fun _ => rfl, fun _ => rfl⟩

theorem isQuiet_spawned (t : K.Task) : IsQuiet (.spawned (O := K.object) t) :=
  ⟨fun _ => rfl, fun _ => rfl⟩

/-! ## One direction of a tunnel -/

/-- The bytes of `src` after the first `skip` are to be written to `dst`, after `lead`. -/
structure Flow (Fd : Type) where
  src : Fd
  dst : Fd
  skip : Bytes
  lead : Bytes

namespace Flow

variable (f : Flow K.Fd)

/-- A write failed, and what was written before is in order. -/
def Stuck (tr : List (Event K.object)) : Prop :=
  ∃ body, readFrom f.src tr = f.skip ++ body ∧ WriteFailed f.dst tr ∧
    wroteTo f.dst tr <+: f.lead ++ body

/-- Everything read from the source has been written, except for `pending`. -/
def Exact (pending : Bytes) (tr : List (Event K.object)) : Prop :=
  ∃ body, readFrom f.src tr = f.skip ++ body ∧ wroteTo f.dst tr ++ pending = f.lead ++ body

/-- What is read and not written yet is `pending`, unless a write failed. -/
def Carries (pending : Bytes) (tr : List (Event K.object)) : Prop :=
  f.Exact pending tr ∨ f.Stuck tr

variable {f} {tr : List (Event K.object)} {e : Event K.object}

/-- What was written is a prefix of what should be. -/
theorem Carries.written {pending : Bytes} (h : f.Carries pending tr) :
    ∃ body, readFrom f.src tr = f.skip ++ body ∧ wroteTo f.dst tr <+: f.lead ++ body := by
  rcases h with ⟨body, hread, hwrote⟩ | ⟨body, hread, -, hwrote⟩
  · exact ⟨body, hread, pending, hwrote⟩
  · exact ⟨body, hread, hwrote⟩

theorem Carries.read {rr : RecvResult} (h : f.Carries [] tr) (hread : heard f.src e = some rr)
    (hwrote : wrote f.dst e = none) : f.Carries rr.data (tr ++ [e]) := by
  rcases h with ⟨body, hbody, hout⟩ | ⟨body, hbody, hfailed, hout⟩
  · refine .inl ⟨body ++ rr.data, by simp [readFrom_single hread, hbody], ?_⟩
    rw [List.append_nil] at hout
    simp [wroteTo_other hwrote, hout]
  · refine .inr ⟨body ++ rr.data, by simp [readFrom_single hread, hbody], ?_, ?_⟩
    · simp [hfailed]
    · rw [wroteTo_append, wroteTo_other hwrote, List.append_nil, ← List.append_assoc]
      exact hout.trans (List.prefix_append _ _)

theorem Carries.other {pending : Bytes} (h : f.Carries pending tr)
    (hread : readFrom f.src [e] = []) (hwrote : wrote f.dst e = none) :
    f.Carries pending (tr ++ [e]) := by
  rcases h with ⟨body, hbody, hout⟩ | ⟨body, hbody, hfailed, hout⟩
  · exact .inl ⟨body, by simp [hread, hbody], by simpa [wroteTo_other hwrote] using hout⟩
  · exact .inr ⟨body, by simp [hread, hbody], by simp [hfailed],
      by simpa [wroteTo_other hwrote] using hout⟩

/-- A write of `out` takes it off what is pending, or is the last one. -/
theorem Carries.write {out rest : Bytes} {failed : Bool} (h : f.Carries (out ++ rest) tr)
    (hsticky : Sticky f.dst (tr ++ [e])) (hread : readFrom f.src [e] = [])
    (hwrote : wrote f.dst e = some (out, failed)) :
    if failed then f.Stuck (tr ++ [e]) else f.Carries rest (tr ++ [e]) := by
  rcases h with ⟨body, hbody, hout⟩ | ⟨body, hbody, hfailed, hout⟩
  · cases failed with
    | false =>
        refine .inl ⟨body, by simp [hread, hbody], ?_⟩
        simp [wroteTo_single hwrote, hout]
    | true =>
        refine ⟨body, by simp [hread, hbody], by simp [writeFailed_single hwrote], rest, ?_⟩
        simp [wroteTo_single hwrote, hout]
  · -- the write fails like the one before
    obtain ⟨rfl, rfl⟩ : out = [] ∧ failed = true := by simpa using hsticky.next hwrote hfailed
    exact ⟨body, by simp [hread, hbody], by simp [hfailed],
      by simpa [wroteTo_single hwrote] using hout⟩

/-- What is carried depends on the reads of the source and the writes to the other end. -/
theorem Carries.congr {pending : Bytes} {tr' : List (Event K.object)} (h : f.Carries pending tr)
    (hanswers : answers f.src tr' = answers f.src tr) (hwrites : writes f.dst tr' = writes f.dst tr) :
    f.Carries pending tr' := by
  simpa only [Carries, Exact, Stuck, WriteFailed, readFrom, chunksFrom, wroteTo, hanswers, hwrites]
    using h

/-- Without a failed write, everything was written but what is pending. -/
theorem Carries.exact {pending : Bytes} (h : f.Carries pending tr) (hok : ¬ WriteFailed f.dst tr) :
    f.Exact pending tr := by
  rcases h with hexact | ⟨_, -, hfailed, -⟩
  · exact hexact
  · exact absurd hfailed hok

end Flow

end Cppvless
