import Cppvless.Tls.WriteFull

set_option autoImplicit false

/-! # What `TlsStream::read` answers

A result of 0 means the end of the stream, and `read` starts from 0. When the ciphertext for it cannot
be had, because the inner stream failed or `rbio` did not take it, `read` returns what it started
from: `fillReadBio` was to say which of the causes it was, and says only that there was one. Apart
from that, data, end and error are told apart, and a copy loop ends normally only on an end of its
source. -/

namespace Cppvless

open Coroutine

namespace TlsStream

/-! ## Histories -/

/-- The plaintext the library produced in an event. -/
def plaintextOf : Event kind.object → Bytes
  | .io (.inr (.sslRead _)) ⟨.ok data, _⟩ => data.1
  | _ => []

def plaintext (tr : List (Event kind.object)) : Bytes := tr.flatMap plaintextOf

/-- The event is an end of the stream: a close_notify, or the end of the inner stream. -/
def EndsSource : Event kind.object → Bool
  | .io (.inr (.sslRead _)) ⟨.error .zeroReturn, _⟩ => true
  | .io (.inl (.recv .inner _)) rr => rr.1.eof
  | _ => false

/-- The event is a failure that `read` answers with an end of the stream. -/
def Swallowed : Event kind.object → Bool
  | .io (.inl (.recv .inner _)) rr => rr.1.error
  | .io (.inr (.bioWrite _)) ok => !ok
  | _ => false

/-- Data is answered exactly with what the library produced, an end only if there was one, and an
    error whenever the inner stream failed under a read or a flush. -/
structure Distinguishes (rr : RecvResult) (tr : List (Event kind.object)) : Prop where
  data : rr.data = plaintext tr
  eof : rr.eof = true → ∃ e ∈ tr, EndsSource e = true
  error : ReadFailed (K := kind) Fd.inner tr ∨ WriteFailed (K := kind) Fd.inner tr →
    rr.error = true

/-- No failure is one that `read` takes for an end. -/
def NoneSwallowed (tr : List (Event kind.object)) : Prop := ∀ e ∈ tr, Swallowed e = false

instance (tr : List (Event kind.object)) : Decidable (NoneSwallowed tr) :=
  inferInstanceAs (Decidable (∀ e ∈ tr, Swallowed e = false))

instance (tr : List (Event kind.object)) : Decidable (∃ e ∈ tr, EndsSource e = true) :=
  inferInstanceAs (Decidable (∃ e ∈ tr, EndsSource e = true))

variable {tr tr' : List (Event kind.object)} {e : Event kind.object} {w : World kind.object}

@[simp] theorem plaintext_append : plaintext (tr ++ tr') = plaintext tr ++ plaintext tr' := by
  simp [plaintext]

@[simp] theorem plaintext_single : plaintext [e] = plaintextOf e := by simp [plaintext]

@[simp] theorem noneSwallowed_concat :
    NoneSwallowed (tr ++ [e]) ↔ NoneSwallowed tr ∧ Swallowed e = false := by
  simp [NoneSwallowed, or_imp, forall_and]

/-! ## A copy loop out of the stream -/

/-- `copyStream` with this stream as its source and a plain one as its destination. -/
def copyOut (stop : Mem → Bool) : Code Bool :=
  copyBetween (K := kind) (source.writeFull (K := kind)) (source.shutdownWrite (K := kind))
    (read .reader NetStream.readSize) stop

namespace LoneReader

/-! ## The rules -/

/-- Nobody else is there. -/
abbrev reading : Contract kind.object := lone (fun _ => True) (fun _ => True) Task.reader

/-- Nothing has failed or ended under the stream, and `before` is the plaintext so far. -/
structure Going (before : Bytes) (tr : List (Event kind.object)) : Prop where
  plaintext : plaintext tr = before
  swallowed : NoneSwallowed tr
  ends : ∀ e ∈ tr, EndsSource e = false
  readFailed : ¬ ReadFailed (K := kind) Fd.inner tr
  writeFailed : ¬ WriteFailed (K := kind) Fd.inner tr

/-- How a call of `read` ends. -/
inductive Ended (before : Bytes) (rr : RecvResult) (tr : List (Event kind.object)) : Prop
  | data (hok : rr.ok = true) (h : Going (before ++ rr.data) tr)
  | failed (herror : rr.error = true) (hplain : TlsStream.plaintext tr = before)
      (hswallowed : NoneSwallowed tr)
  | ended (heof : rr.eof = true) (hends : ∃ e ∈ tr, EndsSource e = true)
      (hplain : TlsStream.plaintext tr = before) (hswallowed : NoneSwallowed tr)
      (hread : ¬ ReadFailed (K := kind) Fd.inner tr) (hwrite : ¬ WriteFailed (K := kind) Fd.inner tr)
  | swallowed (heof : rr.eof = true) (hswallowed : ¬ NoneSwallowed tr)
      (hends : ∀ e ∈ tr, EndsSource e = false)

variable {before : Bytes}

theorem stays_reading (S : NetOp Fd → Prop) (I : World kind.object → Prop) :
    Stays reading Task.reader S I :=
  ⟨fun _ _ _ hr => absurd hr lone_rely, fun _ _ _ _ => trivial⟩

/-- An event under which nothing fails or ends. -/
theorem Going.push (h : Going before tr) (hswallowed : Swallowed e = false)
    (hends : EndsSource e = false) (hread : ¬ ReadFailed (K := kind) Fd.inner [e])
    (hwrite : ¬ WriteFailed (K := kind) Fd.inner [e]) :
    Going (before ++ plaintextOf e) (tr ++ [e]) where
  plaintext := by rw [plaintext_append, h.plaintext, plaintext_single]
  swallowed := noneSwallowed_concat.2 ⟨h.swallowed, hswallowed⟩
  ends e' he' := by
    rcases List.mem_append.1 he' with he' | he'
    · exact h.ends e' he'
    · exact List.mem_singleton.1 he' ▸ hends
  readFailed := by simp [h.readFailed, hread]
  writeFailed := by simp [h.writeFailed, hwrite]

/-- One that has nothing to do with the stream. -/
theorem Going.other (h : Going before tr) (hplain : plaintextOf e = [])
    (hswallowed : Swallowed e = false) (hends : EndsSource e = false)
    (hread : ¬ ReadFailed (K := kind) Fd.inner [e])
    (hwrite : ¬ WriteFailed (K := kind) Fd.inner [e]) : Going before (tr ++ [e]) := by
  have hnext := h.push hswallowed hends hread hwrite
  rwa [hplain, List.append_nil] at hnext

/-- The inner stream accepts all of `buf`, or something failed. -/
theorem wp_innerWrite {buf : Bytes} (hbuf : buf ≠ []) (hw : Going before w.trace) :
    wp reading Task.reader (inner.writeFull (K := kind) buf) (Returns fun sent w' =>
      sent = buf.length ∧ Going before w'.trace ∨
        sent ≠ buf.length ∧ TlsStream.plaintext w'.trace = before ∧ NoneSwallowed w'.trace) w := by
  refine wp_loop (fun offset w' => offset ≤ buf.length ∧ Going before w'.trace)
    ⟨Nat.zero_le _, hw⟩ ?_
  intro offset w hw
  by_cases hlt : offset < buf.length
  · rw [if_pos hlt]
    refine wp_net_seq rfl (stays_reading _ _) (S := fun _ => True)
      (I := fun w' => offset ≤ buf.length ∧ Going before w'.trace) trivial hw ?_
    intro w r ⟨hle, hw⟩ _
    set e : Event kind.object := .io (.inl (.send .inner (buf.drop offset))) r
    have hread : ¬ ReadFailed (K := kind) Fd.inner [e] := readFailed_other rfl
    refine ⟨⟨rfl, trivial⟩, ?_⟩
    by_cases hr : r.1 ≤ 0
    · simp only [hr, if_true, wp_pure]
      refine .inr ⟨?_, ?_, noneSwallowed_concat.2 ⟨hw.swallowed, rfl⟩⟩
      · have hpos := List.length_pos_iff.2 hbuf
        split
        · omega
        · omega
      · rw [World.push_trace, plaintext_append, plaintext_single, hw.plaintext]
        exact List.append_nil before
    · simp only [hr, if_false, wp_pure]
      have hle' : r.1 ≤ ((buf.drop offset).length : Int) := r.2
      have hlen : (buf.drop offset).length = buf.length - offset := List.length_drop
      have hwrite : ¬ WriteFailed (K := kind) Fd.inner [e] := by
        rw [writeFailed_single (isWrite_send (K := kind) Fd.inner _ r).wrote_self]
        simpa using hr
      exact ⟨by omega, hw.other rfl rfl rfl hread hwrite⟩
  · rw [if_neg hlt]
    exact .inl ⟨by omega, hw.2⟩

theorem wp_flushWriteBio (hw : Going before w.trace) :
    wp reading Task.reader (flushWriteBio .reader) (Returns fun ok w' =>
      if ok then Going before w'.trace
      else TlsStream.plaintext w'.trace = before ∧ NoneSwallowed w'.trace) w := by
  refine wp_loop (fun _ w' => Going before w'.trace) hw ?_
  intro _ w hw
  refine wp_get_seq (O := kind.object) ?_
  by_cases hwbio : 0 < w.mem.wbio.length
  · rw [if_pos hwbio]
    have htaken : Going before (w.call fun s => ((s.bioRead .reader).2, [])).trace := by simpa using hw
    refine wp_update_seq (O := kind.object) fun _ => ⟨⟨rfl, trivial⟩, ?_⟩
    have hne : (w.mem.bioRead .reader).1 ≠ [] := by
      intro hnil
      have hlen := congrArg List.length hnil
      simp only [Mem.bioRead, List.length_take, List.length_nil] at hlen
      omega
    refine wp_then (wp_innerWrite hne htaken) ?_
    intro sent w' hw'
    refine wp_member_seq (O := kind.object) fun _ => ⟨⟨rfl, trivial⟩, ?_⟩
    have htrace : (w'.call fun s => (s.handedOver .reader, [])).trace = w'.trace := by simp
    rcases hw' with ⟨hsent, hw'⟩ | ⟨hsent, hw'⟩
    · rw [if_neg (not_not.2 hsent), wp_pure]
      rw [← htrace] at hw'
      exact hw'
    · rw [if_pos hsent, wp_pure]
      rw [← htrace] at hw'
      exact hw'
  · rw [if_neg hwbio]
    exact hw

/-- The stream ends. -/
theorem Going.ended {rr : RecvResult} (h : Going before tr) (heof : rr.eof = true)
    (hends : EndsSource e = true) (hplain : plaintextOf e = []) (hswallowed : Swallowed e = false)
    (hread : ¬ ReadFailed (K := kind) Fd.inner [e])
    (hwrite : ¬ WriteFailed (K := kind) Fd.inner [e]) : Ended before rr (tr ++ [e]) := by
  refine .ended heof ⟨e, by simp, hends⟩ ?_ (noneSwallowed_concat.2 ⟨h.swallowed, hswallowed⟩) ?_ ?_
  · rw [plaintext_append, plaintext_single, h.plaintext, hplain, List.append_nil]
  · simp [h.readFailed, hread]
  · simp [h.writeFailed, hwrite]

/-- A failure is taken for an end. -/
theorem Going.swallow {rr : RecvResult} (h : Going before tr) (heof : rr.eof = true)
    (hswallowed : Swallowed e = true) (hends : EndsSource e = false) : Ended before rr (tr ++ [e]) := by
  refine .swallowed heof (fun hnone => ?_) fun e' he' => ?_
  · exact absurd (noneSwallowed_concat.1 hnone).2 (by simp [hswallowed])
  · rcases List.mem_append.1 he' with he' | he'
    · exact h.ends e' he'
    · exact List.mem_singleton.1 he' ▸ hends

theorem wp_fillReadBio (hw : Going before w.trace) :
    wp reading Task.reader fillReadBio (Returns fun ok w' =>
      if ok then Going before w'.trace else Ended before (.ofBytes []) w'.trace) w := by
  refine wp_then (R := fun rr w' => if rr.ok then Going before w'.trace
    else Ended before (.ofBytes []) w'.trace) ?_ ?_
  · refine wp_net_seq (K := kind) (o := .recv Fd.inner NetStream.readSize) rfl (stays_reading _ _)
      (S := fun _ => True) (I := fun w' => w' = w) trivial rfl ?_
    rintro _ r rfl _
    set e : Event kind.object := .io (.inl (.recv .inner NetStream.readSize)) r
    have hheard : heard (K := kind) Fd.inner e = some r.1 :=
      (isRead_recv (K := kind) Fd.inner _ r).heard_self
    have hwrite : ¬ WriteFailed (K := kind) Fd.inner [e] := writeFailed_other rfl
    refine ⟨⟨rfl, trivial⟩, ?_⟩
    show if r.1.ok = true then _ else _
    rw [r.1.ok_eq]
    cases herr : r.1.error with
    | true =>
        have heof : r.1.eof = false := r.1.eof_of_error herr
        rw [heof]
        exact hw.swallow rfl herr heof
    | false =>
        have hread : ¬ ReadFailed (K := kind) Fd.inner [e] := by
          rw [readFailed_single hheard, herr]
          exact Bool.false_ne_true
        cases heof : r.1.eof with
        | true => exact hw.ended rfl heof rfl herr hread hwrite
        | false => exact hw.other rfl herr heof hread hwrite
  · intro rr w hw
    rw [rr.ok_eq] at hw
    by_cases hdone : (rr.eof || rr.error) = true
    · have hok : (!rr.eof && !rr.error) = false := by
        revert hdone
        cases rr.eof <;> cases rr.error <;> simp
      rw [if_pos hdone]
      rw [hok] at hw
      exact hw
    · have hok : (!rr.eof && !rr.error) = true := by
        revert hdone
        cases rr.eof <;> cases rr.error <;> simp
      rw [if_neg hdone]
      rw [hok] at hw
      refine wp_call (O := kind.object) rfl fun ok _ => ⟨⟨rfl, trivial⟩, ?_⟩
      set e : Event kind.object := .io (.inr (.bioWrite rr.data)) ok
      cases ok with
      | true => exact Going.other hw rfl rfl rfl (readFailed_other rfl) (writeFailed_other rfl)
      | false => exact Going.swallow hw rfl rfl rfl

/-- How a call of `SSL_read` leaves the stream. -/
def Produced (before : Bytes) {maxBytes : Nat} (tr : List (Event kind.object)) :
    Except SslError { data : Bytes // data ≠ [] ∧ data.length ≤ maxBytes } → Prop
  | .ok data => Going (before ++ data.1) tr
  | .error .wantRead => Going before tr
  | .error .wantWrite => Going before tr
  | .error .zeroReturn => Ended before (.ofBytes []) tr
  | .error .other => Going before tr

theorem Going.sslRead (h : Going before tr) {maxBytes : Nat} (res : (ExtOp.sslRead maxBytes).Res) :
    Produced before (tr ++ [.io (.inr (.sslRead maxBytes)) res]) res.result := by
  have hread : ¬ ReadFailed (K := kind) Fd.inner [.io (.inr (.sslRead maxBytes)) res] :=
    readFailed_other rfl
  have hwrite : ¬ WriteFailed (K := kind) Fd.inner [.io (.inr (.sslRead maxBytes)) res] :=
    writeFailed_other rfl
  match res with
  | ⟨.ok data, appended⟩ => exact h.push rfl rfl hread hwrite
  | ⟨.error .wantRead, appended⟩ => exact h.other rfl rfl rfl hread hwrite
  | ⟨.error .wantWrite, appended⟩ => exact h.other rfl rfl rfl hread hwrite
  | ⟨.error .zeroReturn, appended⟩ => exact h.ended rfl rfl rfl rfl hread hwrite
  | ⟨.error .other, appended⟩ => exact h.other rfl rfl rfl hread hwrite

theorem wp_sslRead (maxBytes : Nat) (hw : Going before w.trace) :
    wp reading Task.reader (sslRead maxBytes) (Returns fun res w' => Produced before w'.trace res)
      w := by
  refine wp_bind (wp_call (O := kind.object) rfl fun res _ => ⟨⟨rfl, trivial⟩, ?_⟩)
  refine wp_member_seq (O := kind.object) fun _ => ⟨⟨rfl, trivial⟩, ?_⟩
  have hproduced := hw.sslRead res
  have htrace : ((w.answer (O := kind.object) (.inr (.sslRead maxBytes)) res).call fun s =>
      (s.append res.appended, [])).trace = w.trace ++ [.io (.inr (.sslRead maxBytes)) res] := by
    simp
  rw [← htrace] at hproduced
  exact hproduced

theorem Going.failed {rr : RecvResult} (h : Going before tr) (herror : rr.error = true) :
    Ended before rr tr := .failed herror h.plaintext h.swallowed

/-- **How `read` ends.** -/
theorem wp_read (maxBytes : Nat) (hw : Going before w.trace) :
    wp reading Task.reader (read .reader maxBytes) (Returns fun rr w' => Ended before rr w'.trace)
      w := by
  refine wp_get_seq (O := kind.object) ?_
  cases hssl : w.mem.ssl with
  | false => exact hw.failed rfl
  | true =>
      refine wp_loop (fun _ w => Going before w.trace) hw ?_
      intro _ w hw
      refine wp_then (wp_sslRead maxBytes hw) ?_
      intro res w hw
      match res with
      | .ok data => exact .data (by simpa [RecvResult.ok, RecvResult.ofBytes] using List.length_pos_iff.2 data.2.1) hw
      | .error .wantRead =>
          refine wp_then (wp_flushWriteBio hw) ?_
          intro flushed w hw
          cases flushed with
          | false => exact .failed rfl hw.1 hw.2
          | true =>
              refine wp_then (wp_fillReadBio hw) ?_
              intro filled w hw
              cases filled with
              | false => exact hw
              | true => exact hw
      | .error .wantWrite =>
          refine wp_then (wp_flushWriteBio hw) ?_
          intro flushed w hw
          cases flushed with
          | false => exact .failed rfl hw.1 hw.2
          | true => exact hw
      | .error .zeroReturn => exact hw
      | .error .other => exact hw.failed rfl

/-- Whether a call of `read` tells the causes apart depends on whether a failure was swallowed. -/
theorem Ended.distinguishes {rr : RecvResult} (h : Ended [] rr tr) :
    Distinguishes rr tr ↔ NoneSwallowed tr := by
  rcases h with ⟨hok, h⟩ | ⟨herror, hplain, hnone⟩ | ⟨heof, hends, hplain, hnone, hread, hwrite⟩ |
    ⟨heof, hswallowed, hends⟩
  · have hnot : rr.eof = false ∧ rr.error = false := by simpa [rr.ok_eq] using hok
    refine iff_of_true ⟨h.plaintext.symm, fun heof => ?_, fun hfailed => ?_⟩ h.swallowed
    · exact absurd heof (by simp [hnot.1])
    · exact absurd hfailed (not_or.2 ⟨h.readFailed, h.writeFailed⟩)
  · refine iff_of_true ⟨?_, fun heof => ?_, fun _ => herror⟩ hnone
    · rw [hplain]
      exact RecvResult.data_eq_nil_of_not_ok (by simp [rr.ok_eq, herror])
    · exact absurd heof (by simp [rr.eof_of_error herror])
  · refine iff_of_true ⟨?_, fun _ => hends, fun hfailed => ?_⟩ hnone
    · rw [hplain]
      exact RecvResult.data_eq_nil_of_not_ok (by simp [rr.ok_eq, heof])
    · exact absurd hfailed (not_or.2 ⟨hread, hwrite⟩)
  · refine iff_of_false (fun hd => ?_) hswallowed
    obtain ⟨e, he, hend⟩ := hd.eof heof
    exact absurd hend (by simp [hends e he])

/-! ## The copy loop -/

/-- The loop is going on. -/
def Copying (w : World kind.object) : Prop := ∃ before, Going before w.trace

/-- The source is over: it ended, or a failure was taken for its end. -/
def Over (tr : List (Event kind.object)) : Prop :=
  (∃ e ∈ tr, EndsSource e = true) ∧ NoneSwallowed tr ∨
    ¬ NoneSwallowed tr ∧ ∀ e ∈ tr, EndsSource e = false

theorem Over.push (h : Over tr) (hswallowed : Swallowed e = false) (hends : EndsSource e = false) :
    Over (tr ++ [e]) := by
  rcases h with ⟨⟨e', he', hend⟩, hnone⟩ | ⟨hnot, hall⟩
  · exact .inl ⟨⟨e', by simp [he'], hend⟩, noneSwallowed_concat.2 ⟨hnone, hswallowed⟩⟩
  · refine .inr ⟨fun hnone => hnot (noneSwallowed_concat.1 hnone).1, fun e' he' => ?_⟩
    rcases List.mem_append.1 he' with he' | he'
    · exact hall e' he'
    · exact List.mem_singleton.1 he' ▸ hends

/-- Shutting the destination down is neither a failure nor an end of the source. -/
theorem wp_shutdownWrite {I : List (Event kind.object) → Prop}
    (hI : ∀ tr e, I tr → Swallowed e = false → EndsSource e = false → I (tr ++ [e]))
    (hw : I w.trace) :
    wp reading Task.reader (source.shutdownWrite (K := kind)) (Returns fun _ w' => I w'.trace) w := by
  refine wp_net (K := kind) (o := .shutdownWr Fd.source) rfl (stays_reading _ _) (S := fun _ => True)
    (I := fun w => I w.trace) trivial hw ?_
  intro w r hw _
  exact ⟨⟨rfl, trivial⟩, hI _ _ hw rfl rfl⟩

theorem wp_writeFull {data : Bytes} (hw : Copying w) :
    wp reading Task.reader (source.writeFull (K := kind) data) (Returns fun _ => Copying) w := by
  refine wp_loop (fun _ => Copying) hw ?_
  intro offset w hw
  by_cases hlt : offset < data.length
  · rw [if_pos hlt]
    refine wp_net_seq rfl (stays_reading _ _) (S := fun _ => True) (I := Copying) trivial hw ?_
    intro w r ⟨before, hw⟩ _
    have hnext : Copying (w.push (.io (O := kind.object) (.inl (.send .source (data.drop offset))) r)) :=
      ⟨before, hw.other rfl rfl rfl (readFailed_other rfl) (writeFailed_other rfl)⟩
    refine ⟨⟨rfl, trivial⟩, ?_⟩
    split
    · exact hnext
    · exact hnext
  · rw [if_neg hlt]
    exact hw

theorem wp_copyOut (stop : Mem → Bool) (hw : Copying w) :
    wp reading Task.reader (copyOut stop) (Returns fun normalEnd w' =>
      if normalEnd then Over w'.trace else NoneSwallowed w'.trace) w := by
  refine wp_copyBetween (P := fun _ => Copying) (E := fun w => Over w.trace)
    (R := fun w => NoneSwallowed w.trace) ?_ ?_ ?_ ?_ ?_ hw
  · exact fun w ⟨_, hw⟩ _ => hw.swallowed
  · intro w ⟨before, hw⟩
    refine wp_returns (wp_read NetStream.readSize hw) ?_
    intro rr w' hw'
    show if rr.eof = true then _ else if rr.error = true then _ else _
    rcases hw' with ⟨hok, h⟩ | ⟨herror, -, hnone⟩ | ⟨heof, hends, -, hnone, -, -⟩ |
      ⟨heof, hswallowed, hends⟩
    · obtain ⟨heof, herr⟩ : rr.eof = false ∧ rr.error = false := by simpa [rr.ok_eq] using hok
      rw [if_neg (by simp [heof]), if_neg (by simp [herr])]
      exact ⟨_, h⟩
    · rw [if_neg (by simp [rr.eof_of_error herror]), if_pos herror]
      exact hnone
    · rw [if_pos heof]
      exact .inl ⟨hends, hnone⟩
    · rw [if_pos heof]
      exact .inr ⟨hswallowed, hends⟩
  · intro w hw
    exact wp_shutdownWrite (fun _ _ h hs he => Over.push h hs he) hw
  · intro w hw
    exact wp_shutdownWrite (fun _ _ h hs _ => noneSwallowed_concat.2 ⟨h, hs⟩) hw
  · intro data w _ hw
    refine wp_returns (wp_writeFull hw) ?_
    intro n w' hw'
    show if n ≤ 0 then _ else _
    split
    · obtain ⟨_, hw'⟩ := hw'
      exact hw'.swallowed
    · exact hw'

theorem going_nil (mem : Mem) : Going [] (⟨mem, []⟩ : World kind.object).trace where
  plaintext := rfl
  swallowed e he := absurd he (by simp)
  ends e he := absurd he (by simp)
  readFailed := by simp [ReadFailed, answers]
  writeFailed := by simp [WriteFailed, writes]

end LoneReader

open LoneReader

/-- **`read` tells data, end and error apart exactly if no failure is swallowed**: whatever the library
    and the inner stream answer, the plaintext is answered as it was produced, an end is one of the
    stream, and a failure of the inner stream is an error. A copy loop out of the stream then, and
    only then, ends normally on nothing but an end of its source. -/
theorem read_distinguishes (mem : Mem) :
    (∀ maxBytes r w', Alone (O := kind.object) (read .reader maxBytes) ⟨mem, []⟩ r w' →
      ((∃ rr, r = .ok rr ∧ Distinguishes rr w'.trace) ↔ NoneSwallowed w'.trace)) ∧
    ∀ stop r w', Alone (O := kind.object) (copyOut stop) ⟨mem, []⟩ r w' →
      ((r = .ok true → ∃ e ∈ w'.trace, EndsSource e = true) ↔ NoneSwallowed w'.trace) := by
  refine ⟨?_, ?_⟩
  · intro maxBytes r w' halone
    have hended := halone.of_wp (fun _ => True) (fun _ _ _ => trivial)
      (wp_read maxBytes (going_nil mem)) trivial
    cases r with
    | error e => exact hended.elim
    | ok rr =>
        rw [← Ended.distinguishes hended]
        constructor
        · rintro ⟨_, heq, hd⟩
          exact Except.ok.inj heq ▸ hd
        · exact fun hd => ⟨rr, rfl, hd⟩
  · intro stop r w' halone
    have hended := halone.of_wp (fun _ => True) (fun _ _ _ => trivial)
      (wp_copyOut stop ⟨[], going_nil mem⟩) trivial
    cases r with
    | error e => exact hended.elim
    | ok normalEnd =>
        cases normalEnd with
        | false => exact iff_of_true nofun hended
        | true =>
            have hover : Over w'.trace := hended
            rcases hover with ⟨hends, hnone⟩ | ⟨hnot, hall⟩
            · exact iff_of_true (fun _ => hends) hnone
            · refine iff_of_false (fun hends => ?_) hnot
              obtain ⟨e, he, hend⟩ := hends rfl
              exact absurd hend (by simp [hall e he])

/-- A library that wants to read until it has been fed, over a stream that answers `inner`. -/
def sampleRead (fed : Except SslError Bytes) (inner : RecvResult) (w : World kind.object) :
    (o : kind.object.Io.Op) → kind.object.Io.Res o
  | .inl (.recv _ bufSize) =>
      if h : inner.data.length ≤ bufSize then ⟨inner, h⟩ else ⟨.ofBytes [], Nat.zero_le bufSize⟩
  | .inl (.send _ data) => ⟨data.length, NetOp.accepts_whole data⟩
  | .inl (.connect _ _) => (0 : Int)
  | .inl (.shutdownWr _) => (0 : Int)
  | .inl (.tlsHandshake _) => true
  | .inl (.tlsRead _ maxBytes) => ⟨.ofBytes [], Nat.zero_le maxBytes⟩
  | .inl (.tlsWriteFull _ data) => ⟨data.length, NetOp.accepts_whole data⟩
  | .inl (.tlsShutdownWrite _) => (0 : Int)
  | .inl (.getaddrinfo _ _ _) => (none : Option (List SockAddr))
  | .inl (.socket _ _ _) => true
  | .inr (.sslRead maxBytes) =>
      if w.trace.length = 0 then ⟨.error .wantRead, []⟩
      else match fed with
        | .ok data =>
            if h : data ≠ [] ∧ data.length ≤ maxBytes then ⟨.ok ⟨data, h⟩, []⟩ else ⟨.error .other, []⟩
        | .error e => ⟨.error e, []⟩
  | .inr (.sslWrite _ _) => ⟨.error .other, []⟩
  | .inr .sslShutdown => ([] : Bytes)
  | .inr (.bioWrite _) => true
  | .inr .nextRead => (none : Option Nat)
  | .inr .nextWrite => (none : Option WriteCall)

/-- A call of `read` against them. -/
def sampleReadCall (fed : Except SslError Bytes) (inner : RecvResult) :
    Option (Except Exn RecvResult × World kind.object) :=
  runAlone (O := kind.object) (sampleRead fed inner) 100 (read .reader 4) ⟨{}, []⟩

/-- What it answers and what happened. -/
def sampleReadEnd (fed : Except SslError Bytes) (inner : RecvResult) :
    Except Exn RecvResult × World kind.object :=
  (sampleReadCall fed inner).getD (.ok (.ofBytes []), ⟨{}, []⟩)

theorem sampleReadEnd_alone (fed : Except SslError Bytes) (inner : RecvResult)
    (h : (sampleReadCall fed inner).isSome = true) :
    Alone (O := kind.object) (read .reader 4) ⟨{}, []⟩ (sampleReadEnd fed inner).1
      (sampleReadEnd fed inner).2 :=
  alone_getD h _

/-- A copy loop that ends with the close_notify in what it was fed. -/
def sampleCopyOut : Except Exn Bool × World kind.object :=
  (runAlone (O := kind.object) (sampleRead (.error .zeroReturn) (.ofBytes [9])) 100
    (copyOut fun _ => false) ⟨{}, []⟩).getD (.ok false, ⟨{}, []⟩)

/-- Two bytes of plaintext out of a record, and a close_notify under a copy loop. -/
theorem read_distinguishes_record :
    (∃ rr, (sampleReadEnd (.ok [1, 2]) (.ofBytes [9])).1 = .ok rr ∧
      Distinguishes rr (sampleReadEnd (.ok [1, 2]) (.ofBytes [9])).2.trace) ∧
    (sampleCopyOut.1 = .ok true → ∃ e ∈ sampleCopyOut.2.trace, EndsSource e = true) := by
  constructor
  · have halone := sampleReadEnd_alone (.ok [1, 2]) (.ofBytes [9]) (by decide +kernel)
    exact ((read_distinguishes {}).1 _ _ _ halone).2 (by decide +kernel)
  · have halone : Alone (O := kind.object) (copyOut fun _ => false) ⟨{}, []⟩ sampleCopyOut.1
        sampleCopyOut.2 :=
      alone_getD (by decide +kernel) _
    exact ((read_distinguishes {}).2 _ _ _ halone).2 (by decide +kernel)

/-- The library wants to read, the inner stream fails with 103: `read` answers an end. -/
theorem read_failed_ends :
    ¬ ∀ (mem : Mem) maxBytes r w', Alone (O := kind.object) (read .reader maxBytes) ⟨mem, []⟩ r w' →
      ∃ rr, r = .ok rr ∧ Distinguishes rr w'.trace := by
  intro h
  obtain ⟨rr, hresult, hd⟩ :=
    h {} 4 _ _ (sampleReadEnd_alone (.error .other) (.failed 103) (by decide +kernel))
  have heof : (sampleReadEnd (.error .other) (.failed 103)).1.toOption.map RecvResult.eof = some true := by
    decide +kernel
  rw [hresult] at heof
  exact absurd (hd.eof (Option.some.inj heof)) (by decide +kernel)

end TlsStream

end Cppvless
