import Cppvless.Coroutine.Alone
import Cppvless.Coroutine.Replay
import Cppvless.Net.Relay
import Cppvless.Tls.TlsStream

set_option autoImplicit false

/-! # What `TlsStream::writeFull` reports

`writeFull` counts a byte as written when the library has taken it, before its ciphertext is sent. A
failure after that is reported as the count so far, which callers take for success. Without such a
late failure a positive answer is the whole length, and the inner stream has got everything. -/

namespace Cppvless

open Coroutine

namespace TlsStream

/-! ## Histories -/

/-- A failure after the library has taken some of the data. -/
def LateFailure (tr : List (Event kind.object)) : Prop :=
  ∃ before e after, tr = before ++ e :: after ∧ Fails e = true ∧ 0 < consumed before

/-- A positive answer is the whole length, and then all ciphertext was accepted, what `wbio` held
    before included. -/
def Reports (pending data : Bytes) (r : Except Exn Int) (tr : List (Event kind.object)) : Prop :=
  ∀ n, r = .ok n → 0 < n → n = data.length ∧ accepted tr = pending ++ produced tr

/-- No send gets anything through, and no data is taken without ciphertext for it. -/
def Dead (tr : List (Event kind.object)) : Prop :=
  (∀ x ∈ writes (K := kind) Fd.inner tr, x = ([], true)) ∧
    ∀ e ∈ tr, 0 < consumedBy e → appendedBy e ≠ []

variable {tr tr' : List (Event kind.object)} {e : Event kind.object}

theorem lateFailure_iff : LateFailure tr ↔
    ∃ i : Fin tr.length, Fails (tr.get i) = true ∧ 0 < consumed (tr.take i) := by
  constructor
  · rintro ⟨before, e, after, rfl, hfails, hconsumed⟩
    refine ⟨⟨before.length, by simp⟩, ?_, ?_⟩
    · simpa using hfails
    · simpa using hconsumed
  · rintro ⟨i, hfails, hconsumed⟩
    refine ⟨tr.take i, tr.get i, tr.drop (i + 1), ?_, hfails, hconsumed⟩
    simp

instance : Decidable (LateFailure tr) := decidable_of_iff' _ lateFailure_iff

instance : Decidable (Dead tr) :=
  inferInstanceAs (Decidable ((∀ x ∈ writes (K := kind) Fd.inner tr, x = ([], true)) ∧
    ∀ e ∈ tr, 0 < consumedBy e → appendedBy e ≠ []))

theorem LateFailure.append (h : LateFailure tr) : LateFailure (tr ++ tr') := by
  obtain ⟨before, e, after, htr, hfails, hconsumed⟩ := h
  exact ⟨before, e, after ++ tr', by simp [htr], hfails, hconsumed⟩

/-- A failure that is the first one is late if something was taken before. -/
theorem lateFailure_concat (hclean : ∀ e' ∈ tr, Fails e' = false) (hfails : Fails e = true) :
    LateFailure (tr ++ [e]) ↔ 0 < consumed tr := by
  constructor
  · intro ⟨before, e', after, hsplit, hfails', hconsumed⟩
    rcases List.eq_nil_or_concat after with hnil | ⟨after', last, hconcat⟩
    · rw [hnil] at hsplit
      rw [(List.append_inj' hsplit rfl).1]
      exact hconsumed
    · rw [hconcat, List.concat_eq_append, ← List.cons_append, ← List.append_assoc] at hsplit
      have htr := (List.append_inj' hsplit rfl).1
      have hnot := hclean e' (by simp [htr])
      exact absurd hfails' (by simp [hnot])
  · intro hconsumed
    exact ⟨tr, e, [], rfl, hfails, hconsumed⟩

theorem clean_concat (hclean : ∀ e' ∈ tr, Fails e' = false) (he : Fails e = false) :
    ∀ e' ∈ tr ++ [e], Fails e' = false := by
  intro e' he'
  rcases List.mem_append.1 he' with he' | he'
  · exact hclean e' he'
  · rw [List.mem_singleton.1 he']
    exact he

theorem not_lateFailure (hclean : ∀ e' ∈ tr, Fails e' = false) : ¬ LateFailure tr := by
  intro ⟨before, e, after, htr, hfails, _⟩
  have hnot := hclean e (by simp [htr])
  exact absurd hfails (by simp [hnot])

theorem Dead.of_append (h : Dead (tr ++ tr')) : Dead tr := by
  refine ⟨fun x hx => h.1 x (by simp [hx]), fun e he => h.2 e (by simp [he])⟩

theorem Dead.accepted (h : Dead tr) : accepted tr = [] := by
  unfold TlsStream.accepted wroteTo
  rw [List.flatMap_eq_nil_iff]
  intro x hx
  rw [h.1 x hx]

theorem Dead.produced (h : Dead tr) (hconsumed : 0 < consumed tr) : produced tr ≠ [] := by
  intro hproduced
  unfold TlsStream.produced at hproduced
  rw [List.flatMap_eq_nil_iff] at hproduced
  have hzero : consumed tr = 0 := by
    unfold consumed
    refine List.sum_eq_zero fun n hn => ?_
    obtain ⟨e, he, rfl⟩ := List.mem_map.1 hn
    by_contra hne
    exact h.2 e he (Nat.pos_of_ne_zero hne) (hproduced e he)
  omega

/-! ## A copy loop into the stream -/

def source : NetStream Fd := .async .source

/-- `copyStream` with this stream as its destination. -/
def copy (stop : Mem → Bool) : Code Unit := do
  let _ ← copyInto (K := kind) (writeFull .writer) (shutdownWrite .writer) source stop

def Copies (stop : Mem → Bool) (mem : Mem) (p : Pool kind.object) : Prop :=
  Coroutine.Reachable (O := kind.object) (fun _ => copy stop) Task.writer mem p

/-- The source of a copy loop was read once at most. -/
def Once (tr : List (Event kind.object)) : Prop :=
  (chunksFrom (K := kind) Fd.source tr).length ≤ 1

theorem Once.concat (h : Once tr) (hsource : heard (K := kind) Fd.source e = none) :
    Once (tr ++ [e]) := by
  unfold Once
  rw [chunksFrom_append, chunksFrom_other hsource, List.append_nil]
  exact h

namespace Lone

/-! ## The rules -/

/-- Nobody else is there, and the source of a copy loop is read once. -/
abbrev writing (env : List (Event kind.object) → Prop) : Contract kind.object :=
  lone env (fun w => Once w.trace) Task.writer

/-- Nothing has failed yet; `n` bytes were taken, and of the ciphertext `out` is on its way to the
    inner stream. -/
structure Going (pending out : Bytes) (n : Nat) (w : World kind.object) : Prop where
  clean : ∀ e ∈ w.trace, Fails e = false
  consumed : consumed w.trace = n
  bytes : accepted w.trace ++ out ++ w.mem.wbio = pending ++ produced w.trace
  once : Once w.trace

/-- The last thing that happened is the first failure, `n` bytes being taken by then. -/
structure Broken (n : Nat) (tr : List (Event kind.object)) : Prop where
  first : ∃ before e, tr = before ++ [e] ∧ Fails e = true ∧ (∀ e' ∈ before, Fails e' = false) ∧
    TlsStream.consumed before = n
  once : Once tr

/-- Not all ciphertext was accepted. -/
def Lost (pending : Bytes) (tr : List (Event kind.object)) : Prop :=
  accepted tr ≠ pending ++ TlsStream.produced tr

variable {env : List (Event kind.object) → Prop} {pending out : Bytes} {n : Nat}
  {w : World kind.object}

theorem stays_writing (S : NetOp Fd → Prop) (I : World kind.object → Prop) :
    Stays (writing env) Task.writer S I :=
  ⟨fun _ _ _ hr => absurd hr lone_rely, fun _ _ _ _ => trivial⟩

theorem Broken.late (h : Broken n tr) : LateFailure tr ↔ 0 < n := by
  obtain ⟨before, e, htr, hfails, hclean, rfl⟩ := h.first
  rw [htr]
  exact lateFailure_concat hclean hfails

theorem Going.not_late (h : Going pending out n w) : ¬ LateFailure w.trace :=
  not_lateFailure h.clean

theorem Going.broken (h : Going pending out n w) (hfails : Fails e = true)
    (hsource : heard (K := kind) Fd.source e = none) : Broken n (w.push e).trace :=
  ⟨⟨w.trace, e, rfl, hfails, h.clean, h.consumed⟩, h.once.concat hsource⟩

/-- Members other than `wbio` do not matter. -/
theorem Going.call {f : Mem → Mem} (h : Going pending out n w)
    {out' : Bytes} (hout : out' ++ (f w.mem).wbio = out ++ w.mem.wbio) :
    Going pending out' n (w.call fun s => (f s, [])) := by
  refine ⟨?_, ?_, ?_, ?_⟩
  · simpa using h.clean
  · simpa using h.consumed
  · have hbytes := h.bytes
    rw [List.append_assoc] at hbytes
    simpa [hout] using hbytes
  · simpa using h.once

/-- An event that changes no buffer. -/
theorem Going.push {out' : Bytes} (h : Going pending out n w) (hclean : Fails e = false)
    (hsource : heard (K := kind) Fd.source e = none) (hconsumed : consumedBy e = 0)
    (happended : appendedBy e = []) (hout : accepted [e] ++ out' = out) :
    Going pending out' n (w.push e) := by
  refine ⟨?_, ?_, ?_, ?_⟩
  · exact clean_concat h.clean hclean
  · rw [World.push_trace, consumed_append, h.consumed]
    simp [TlsStream.consumed, hconsumed]
  · have hbytes := h.bytes
    rw [← hout] at hbytes
    simpa [produced, happended] using hbytes
  · simpa using h.once.concat hsource

/-- A call of the library: what it appended goes into `wbio`. -/
theorem Going.append (h : Going pending [] n w) (hclean : Fails e = false)
    (hsource : heard (K := kind) Fd.source e = none) (haccepted : accepted [e] = []) :
    Going pending [] (n + consumedBy e)
      ((w.push e).call fun s => (s.append (appendedBy e), [])) := by
  refine ⟨?_, ?_, ?_, ?_⟩
  · rw [World.call_trace, List.map_nil, List.append_nil]
    exact clean_concat h.clean hclean
  · have hsum : TlsStream.consumed [e] = consumedBy e := by simp [TlsStream.consumed]
    rw [World.call_trace, List.map_nil, List.append_nil, World.push_trace, consumed_append,
      h.consumed, hsum]
  · have hbytes := h.bytes
    rw [List.append_nil] at hbytes
    have hproduced : produced [e] = appendedBy e := by simp [produced]
    have hall : accepted w.trace ++ (w.mem.wbio ++ appendedBy e) =
        pending ++ (produced w.trace ++ appendedBy e) := by
      rw [← List.append_assoc, hbytes, List.append_assoc]
    simpa [Mem.append, haccepted, hproduced] using hall
  · simpa using h.once.concat hsource

/-- The inner stream accepts all of `buf`, or something of it is lost. -/
theorem wp_innerWrite {buf : Bytes} (hbuf : buf ≠ []) (hw : Going pending buf n w) :
    wp (writing env) Task.writer (inner.writeFull (K := kind) buf) (Returns fun sent w' =>
      w'.mem = w.mem ∧ (sent = buf.length ∧ Going pending [] n w' ∨
        sent ≠ buf.length ∧ Broken n w'.trace ∧ Lost pending w'.trace)) w := by
  refine wp_loop (fun offset w' => w'.mem = w.mem ∧ offset ≤ buf.length ∧
    Going pending (buf.drop offset) n w') ⟨rfl, Nat.zero_le _, by simpa using hw⟩ ?_
  intro offset w₁ hw₁
  by_cases hlt : offset < buf.length
  · rw [if_pos hlt]
    refine wp_net_seq rfl (stays_writing _ _) (S := fun _ => True)
      (I := fun w' => w'.mem = w.mem ∧ offset ≤ buf.length ∧ Going pending (buf.drop offset) n w')
      trivial hw₁ ?_
    intro w₂ r hw₂ _
    obtain ⟨hmem, hle, hgoing⟩ := hw₂
    by_cases hr : r.1 ≤ 0
    · simp only [hr, if_true, wp_pure]
      have hbroken := hgoing.broken
        (e := .io (O := kind.object) (.inl (.send .inner (buf.drop offset))) r)
        (by simpa [Fails] using hr) rfl
      refine ⟨⟨rfl, hbroken.once⟩, hmem, .inr ⟨?_, hbroken, ?_⟩⟩
      · split
        · omega
        · have hpos := List.length_pos_iff.2 hbuf
          omega
      · -- the rest of the buffer is neither accepted nor in `wbio`
        intro hall
        have hbytes := hgoing.bytes
        have htake : (buf.drop offset).take r.1.toNat = [] := by
          rw [Int.toNat_eq_zero.2 hr, List.take_zero]
        have haccepted : accepted [.io (O := kind.object) (.inl (.send .inner (buf.drop offset))) r] = [] :=
          (wroteTo_single (isWrite_send (K := kind) Fd.inner _ r).wrote_self).trans htake
        rw [World.push_trace, accepted_append, haccepted, List.append_nil, produced_append] at hall
        have hproduced : produced [.io (O := kind.object) (.inl (.send .inner (buf.drop offset))) r] = [] := rfl
        rw [hproduced, List.append_nil] at hall
        rw [← hall, List.append_assoc] at hbytes
        have hdrop := (List.append_eq_nil_iff.1 (List.self_eq_append_right.1 hbytes.symm)).1
        have hlen := congrArg List.length hdrop
        simp only [List.length_drop, List.length_nil] at hlen
        omega
    · simp only [hr, if_false, wp_pure]
      have hle' : r.1 ≤ ((buf.drop offset).length : Int) := r.2
      have hlen : (buf.drop offset).length = buf.length - offset := List.length_drop
      have hout : accepted [.io (O := kind.object) (.inl (.send .inner (buf.drop offset))) r] ++
          buf.drop (offset + r.1.toNat) = buf.drop offset := by
        rw [accepted, wroteTo_single (isWrite_send (K := kind) Fd.inner _ r).wrote_self,
          ← List.drop_drop, List.take_append_drop]
      have hnext := hgoing.push (by simpa [Fails] using hr) rfl rfl rfl hout
      exact ⟨⟨rfl, hnext.once⟩, hmem, by omega, hnext⟩
  · rw [if_neg hlt]
    obtain ⟨hmem, hle, hgoing⟩ := hw₁
    rw [List.drop_of_length_le (by omega)] at hgoing
    exact ⟨hmem, .inl ⟨rfl, hgoing⟩⟩

theorem wp_flushWriteBio (hw : Going pending [] n w) :
    wp (writing env) Task.writer (flushWriteBio .writer) (Returns fun ok w' =>
      if ok then Going pending [] n w' ∧ w'.mem.wbio = [] else Broken n w'.trace ∧ Lost pending w'.trace) w := by
  refine wp_loop (fun _ => Going pending [] n) hw ?_
  intro _ w hw
  refine wp_get_seq (O := kind.object) ?_
  by_cases hwbio : 0 < w.mem.wbio.length
  · rw [if_pos hwbio]
    have htaken : Going pending (w.mem.wbio.take 16384) n
        (w.call fun s => ((s.bioRead .writer).2, [])) :=
      hw.call (f := fun s => (s.bioRead .writer).2) (List.take_append_drop 16384 w.mem.wbio)
    refine wp_update_seq (O := kind.object) fun _ => ⟨⟨rfl, htaken.once⟩, ?_⟩
    have hne : w.mem.wbio.take 16384 ≠ [] := by
      intro hnil
      have hlen := congrArg List.length hnil
      simp only [List.length_take, List.length_nil] at hlen
      omega
    refine wp_then (wp_innerWrite hne htaken) ?_
    intro sent w' ⟨_, hw'⟩
    rcases hw' with ⟨hsent, hw'⟩ | ⟨hsent, hbroken, hlost⟩
    · have hdone := hw'.call (f := Mem.handedOver .writer) rfl
      refine wp_member_seq (O := kind.object) fun _ => ⟨⟨rfl, hdone.once⟩, ?_⟩
      rw [if_neg (not_not.2 hsent)]
      exact hdone
    · have htrace : (w'.call fun s => (s.handedOver .writer, [])).trace = w'.trace := by simp
      have hdone : Broken n (w'.call fun s => (s.handedOver .writer, [])).trace ∧
          Lost pending (w'.call fun s => (s.handedOver .writer, [])).trace := by
        rw [htrace]
        exact ⟨hbroken, hlost⟩
      refine wp_member_seq (O := kind.object) fun _ => ⟨⟨rfl, hdone.1.once⟩, ?_⟩
      rw [if_pos hsent]
      exact hdone
  · rw [if_neg hwbio]
    refine ⟨hw, ?_⟩
    exact List.eq_nil_of_length_eq_zero (by omega)

theorem wp_fillReadBio (hw : Going pending [] n w) :
    wp (writing env) Task.writer fillReadBio (Returns fun ok w' =>
      if ok then Going pending [] n w' ∧ w'.mem = w.mem else Broken n w'.trace) w := by
  refine wp_then (R := fun rr w' => if rr.ok then Going pending [] n w' ∧ w'.mem = w.mem
    else Broken n w'.trace) ?_ ?_
  · refine wp_net_seq (K := kind) (o := .recv Fd.inner NetStream.readSize) rfl (stays_writing _ _)
      (S := fun _ => True) (I := fun w' => w' = w) trivial rfl ?_
    intro w' r hw' _
    rw [hw']
    cases hok : r.1.ok with
    | true =>
        have hnext := hw.push (e := .io (O := kind.object) (.inl (.recv .inner NetStream.readSize)) r)
          (by simp [Fails, hok]) rfl rfl rfl rfl
        refine ⟨⟨rfl, hnext.once⟩, ?_⟩
        show if r.1.ok = true then _ else _
        rw [if_pos hok]
        exact ⟨hnext, rfl⟩
    | false =>
        have hbroken := hw.broken (e := .io (O := kind.object) (.inl (.recv .inner NetStream.readSize)) r)
          (by simp [Fails, hok]) rfl
        refine ⟨⟨rfl, hbroken.once⟩, ?_⟩
        show if r.1.ok = true then _ else _
        rw [if_neg (by simp [hok])]
        exact hbroken
  · intro rr w' hw'
    by_cases hdone : (rr.eof || rr.error) = true
    · have hok : rr.ok = false := by
        rw [rr.ok_eq]
        revert hdone
        cases rr.eof <;> cases rr.error <;> simp
      simp only [hok, Bool.false_eq_true, if_false] at hw'
      rw [if_pos hdone]
      exact hw'
    · have hok : rr.ok = true := by
        rw [rr.ok_eq]
        revert hdone
        cases rr.eof <;> cases rr.error <;> simp
      simp only [hok, if_true] at hw'
      rw [if_neg hdone]
      refine wp_call (O := kind.object) rfl ?_
      intro ok _
      cases ok with
      | true =>
          have hnext := hw'.1.push (e := .io (O := kind.object) (.inr (.bioWrite rr.data)) true) rfl rfl rfl rfl rfl
          exact ⟨⟨rfl, hnext.once⟩, hnext, hw'.2⟩
      | false =>
          have hbroken := hw'.1.broken (e := .io (O := kind.object) (.inr (.bioWrite rr.data)) false) rfl rfl
          exact ⟨⟨rfl, hbroken.once⟩, hbroken⟩

/-- How a call of `SSL_write` leaves the stream. -/
def Taken (pending : Bytes) (n : Nat) {data : Bytes} {num : Int} (w : World kind.object) :
    Except SslError { k : Nat // 0 < k ∧ k ≤ data.length ∧ k ≤ num } → Prop
  | .ok k => Going pending [] (n + k.1) w
  | .error .wantRead => Going pending [] n w
  | .error .wantWrite => Going pending [] n w
  | .error .zeroReturn => Broken n w.trace
  | .error .other => Broken n w.trace

theorem wp_sslWrite {data : Bytes} {num : Int} (hw : Going pending [] n w) :
    wp (writing env) Task.writer (sslWrite data num) (Returns fun res w' => Taken pending n w' res)
      w := by
  refine wp_bind (wp_call (O := kind.object) rfl ?_)
  intro res _
  have hgood : Fails (.io (O := kind.object) (.inr (.sslWrite data num)) res) = false →
      Going pending [] (n + consumedBy (.io (O := kind.object) (.inr (.sslWrite data num)) res))
        ((w.answer (O := kind.object) (.inr (.sslWrite data num)) res).call fun s =>
          (s.append res.appended, [])) :=
    fun hclean => hw.append hclean rfl rfl
  have hbad : Fails (.io (O := kind.object) (.inr (.sslWrite data num)) res) = true →
      Broken n ((w.answer (O := kind.object) (.inr (.sslWrite data num)) res).call fun s =>
          (s.append res.appended, [])).trace := by
    intro hfails
    have hbroken := hw.broken hfails rfl
    simpa using hbroken
  have honce : Once (w.answer (O := kind.object) (.inr (.sslWrite data num)) res).trace :=
    hw.once.concat rfl
  refine ⟨⟨rfl, honce⟩, wp_member_seq (O := kind.object) fun _ => ⟨⟨rfl, by simpa using honce⟩, ?_⟩⟩
  match res with
  | ⟨.ok k, appended⟩ => exact hgood rfl
  | ⟨.error .wantRead, appended⟩ => exact hgood rfl
  | ⟨.error .wantWrite, appended⟩ => exact hgood rfl
  | ⟨.error .zeroReturn, appended⟩ => exact hbad rfl
  | ⟨.error .other, appended⟩ => exact hbad rfl

/-! ## The lengths -/

/-- How far a write of `len` bytes can come: each call is given the low 32 bits of what is left. -/
def Fits (len offset : Nat) : Prop :=
  offset ≤ len % 2 ^ 32 ∧ (0 < offset → len % 2 ^ 32 < 2 ^ 31)

theorem toInt_of_lt {k : Nat} (h : k < 2 ^ 31) : toInt k = k := by
  unfold toInt
  exact Int.bmod_eq_of_le (by omega) (by omega)

theorem toInt_pos_lt {k : Nat} (h : 0 < toInt k) : k % 2 ^ 32 < 2 ^ 31 ∧ toInt k = (k % 2 ^ 32 : Nat) := by
  unfold toInt at *
  rw [Int.bmod_def] at *
  split at h
  · next hlt =>
      rw [if_pos hlt]
      omega
  · omega

theorem fits_zero (len : Nat) : Fits len 0 := ⟨Nat.zero_le _, fun h => absurd h (Nat.lt_irrefl 0)⟩

theorem Fits.lt {len offset : Nat} (h : Fits len offset) : offset < 2 ^ 31 := by
  obtain ⟨hle, hlt⟩ := h
  by_cases hpos : 0 < offset
  · have := hlt hpos
    omega
  · omega

theorem Fits.add {len offset k : Nat} (h : Fits len offset) (hlt : offset < len) (hpos : 0 < k)
    (hk : (k : Int) ≤ toInt (len - offset)) : Fits len (offset + k) := by
  have hleft := toInt_pos_lt (k := len - offset) (by omega)
  obtain ⟨hle, hoff⟩ := h
  refine ⟨?_, fun _ => ?_⟩
  · omega
  · omega

/-- A write that comes to its end was no longer than an `int`. -/
theorem Fits.done {len offset : Nat} (h : Fits len offset) (hle : len ≤ offset) :
    offset = len ∧ toInt len = len := by
  have hlt := h.lt
  obtain ⟨hmod, -⟩ := h
  have hoff : offset = len := by omega
  exact ⟨hoff, toInt_of_lt (by omega)⟩

/-! ## `writeFull` -/

/-- How a call of `writeFull` ends. -/
inductive Ended (pending data : Bytes) (n : Int) (w : World kind.object) : Prop
  | whole (hn : n = data.length) (hgoing : Going pending [] data.length w)
      (hwbio : data ≠ [] → w.mem.wbio = [])
  | broken (k : Nat) (hn : n = written k) (hfits : k < 2 ^ 31) (hbroken : Broken k w.trace)
      (hlost : k < data.length ∨ Lost pending w.trace)
  | closed (hn : n = -1) (hgoing : Going pending [] 0 w)

/-- `writeFull` before `offset`. -/
structure Writing (pending data : Bytes) (offset : Nat) (w : World kind.object) : Prop where
  going : Going pending [] offset w
  wbio : 0 < offset → w.mem.wbio = []
  fits : Fits data.length offset

theorem wp_writeFull (data : Bytes) (hw : Going pending [] 0 w) :
    wp (writing env) Task.writer (writeFull .writer data) (Returns fun n w' =>
      Ended pending data n w') w := by
  refine wp_get_seq (O := kind.object) ?_
  cases hssl : w.mem.ssl with
  | false => exact .closed rfl hw
  | true =>
      have hstart : Writing pending data 0 w :=
        ⟨hw, fun h => absurd h (Nat.lt_irrefl 0), fits_zero _⟩
      refine wp_loop (Writing pending data) hstart ?_
      intro offset w ⟨hgoing, hwbio, hfits⟩
      by_cases hlt : offset < data.length
      · rw [if_pos hlt]
        refine wp_then (wp_sslWrite hgoing) ?_
        intro res w₁ hw₁
        -- a flush that fails ends the call with what was counted so far
        have hflush : ∀ {k : Nat} {w : World kind.object} {c : Code (Nat ⊕ Int)}
            {Q : Except Exn (Nat ⊕ Int) → World kind.object → Prop}, k < 2 ^ 31 →
            Going pending [] k w →
            (∀ w', Ended pending data (written k) w' → Q (.ok (.inr (written k))) w') →
            (∀ w', Going pending [] k w' → w'.mem.wbio = [] → wp (writing env) Task.writer c Q w') →
            wp (writing env) Task.writer (do
              if !(← flushWriteBio .writer) then return .inr (written k) else c) Q w := by
          intro k w c Q hk hw hend hnext
          refine wp_then (wp_flushWriteBio hw) ?_
          intro ok w' hw'
          cases ok with
          | true => exact hnext w' hw'.1 hw'.2
          | false => exact hend w' (.broken k rfl hk hw'.1 (.inr hw'.2))
        match res with
        | .ok k =>
            have hadd := hfits.add hlt k.2.1 k.2.2.2
            exact hflush hadd.lt hw₁ (fun _ h => h) fun w' hgoing' hwbio' => ⟨hgoing', fun _ => hwbio', hadd⟩
        | .error .wantRead =>
            refine hflush hfits.lt hw₁ (fun _ h => h) fun w' hgoing' hwbio' => ?_
            refine wp_then (wp_fillReadBio hgoing') ?_
            intro ok w'' hw''
            cases ok with
            | true => exact ⟨hw''.1, fun _ => hw''.2 ▸ hwbio', hfits⟩
            | false => exact .broken offset rfl hfits.lt hw'' (.inl hlt)
        | .error .wantWrite =>
            exact hflush hfits.lt hw₁ (fun _ h => h) fun w' hgoing' hwbio' => ⟨hgoing', fun _ => hwbio', hfits⟩
        | .error .zeroReturn => exact .broken offset rfl hfits.lt hw₁ (.inl hlt)
        | .error .other => exact .broken offset rfl hfits.lt hw₁ (.inl hlt)
      · rw [if_neg hlt]
        obtain ⟨hoff, hint⟩ := hfits.done (Nat.not_lt.1 hlt)
        refine .whole hint (hoff ▸ hgoing) fun hdata => hwbio ?_
        rw [hoff]
        exact List.length_pos_iff.2 hdata

/-- What a call of `writeFull` answers depends on whether a failure was late. -/
theorem Ended.reports {data : Bytes} {m : Int} (h : Ended pending data m w) :
    Reports pending data (.ok m) w.trace ↔ ¬ LateFailure w.trace := by
  rcases h with ⟨hn, hgoing, hwbio⟩ | ⟨k, hn, hfits, hbroken, hlost⟩ | ⟨hn, hgoing⟩
  · refine iff_of_true ?_ hgoing.not_late
    intro n hok hpos
    obtain rfl := Except.ok.inj hok
    have hdata : data ≠ [] := by
      intro hnil
      simp [hn, hnil] at hpos
    have hbytes := hgoing.bytes
    rw [hwbio hdata] at hbytes
    exact ⟨hn, by simpa using hbytes⟩
  · rw [hbroken.late, Nat.not_lt, Nat.le_zero]
    constructor
    · intro hreports
      by_contra hk
      have hpos : 0 < k := Nat.pos_of_ne_zero hk
      have hm : m = k := by rw [hn, written, if_pos hpos, toInt_of_lt hfits]
      obtain ⟨hlen, hall⟩ := hreports m rfl (by omega)
      rcases hlost with hlt | hlost
      · omega
      · exact hlost hall
    · rintro rfl n hok hpos
      obtain rfl := Except.ok.inj hok
      rw [hn] at hpos
      exact absurd hpos (by decide)
  · refine iff_of_true ?_ hgoing.not_late
    intro n hok hpos
    obtain rfl := Except.ok.inj hok
    omega

/-! ## The copy loop -/

/-- The transport is dead and nothing fails late. -/
def DeadEnd (tr : List (Event kind.object)) : Prop := Dead tr ∧ ¬ LateFailure tr

/-- The copy loop with `rest` still to be written: it has read once at most, and not at all before. -/
structure Copying (pending rest : Bytes) (w : World kind.object) : Prop where
  going : Going pending [] 0 w
  fresh : rest = [] → chunksFrom (K := kind) Fd.source w.trace = []
  env : DeadEnd w.trace

theorem Going.read {rr : RecvResult} (h : Going pending [] n w)
    (he : IsRead (K := kind) Fd.source rr e)
    (hfresh : chunksFrom (K := kind) Fd.source w.trace = []) (hclean : Fails e = false)
    (hconsumed : consumedBy e = 0) (happended : appendedBy e = []) :
    Going pending [] n (w.push e) := by
  refine ⟨?_, ?_, ?_, ?_⟩
  · exact clean_concat h.clean hclean
  · rw [World.push_trace, consumed_append, h.consumed]
    simp [TlsStream.consumed, hconsumed]
  · have hnone : accepted [e] = [] := wroteTo_other (he.wrote_none _)
    have hbytes := h.bytes
    rw [List.append_nil] at hbytes
    simpa [produced, happended, hnone] using hbytes
  · unfold Once
    rw [World.push_trace, chunksFrom_append, hfresh, chunksFrom_single he.heard_self]
    split
    · exact Nat.le_refl 1
    · exact Nat.zero_le 1

/-- Over a dead transport a call that does not fail late does fail. -/
theorem Ended.nonpos {data : Bytes} {m : Int} (h : Ended pending data m w) (henv : DeadEnd w.trace) :
    m ≤ 0 := by
  by_contra hm
  obtain ⟨hlen, hall⟩ := h.reports.2 henv.2 m rfl (by omega)
  rcases h with ⟨hn, hgoing, hwbio⟩ | ⟨k, hn, hfits, hbroken, hlost⟩ | ⟨hn, hgoing⟩
  · have hpos : 0 < consumed w.trace := by
      rw [hgoing.consumed]
      omega
    rw [henv.1.accepted] at hall
    exact henv.1.produced hpos (List.append_eq_nil_iff.1 hall.symm).2
  · have hk : k = 0 := by
      by_contra hne
      exact henv.2 (hbroken.late.2 (Nat.pos_of_ne_zero hne))
    rw [hn, hk] at hm
    exact hm (by decide)
  · omega

theorem wp_shutdownWrite (hw : Going pending [] n w) :
    wp (writing env) Task.writer (shutdownWrite .writer) (Returns fun _ _ => True) w := by
  have hinner : ∀ w, Once w.trace →
      wp (writing env) Task.writer (inner.shutdownWrite (K := kind)) (Returns fun _ _ => True) w := by
    intro w hw
    refine wp_net (K := kind) (o := .shutdownWr Fd.inner) rfl (stays_writing _ _) (S := fun _ => True)
      (I := fun w' => w' = w) trivial rfl ?_
    rintro _ r rfl _
    exact ⟨⟨rfl, hw.concat rfl⟩, trivial⟩
  refine wp_get_seq (O := kind.object) ?_
  cases hssl : w.mem.ssl with
  | false => exact hinner w hw.once
  | true =>
      refine wp_bind (wp_bind (wp_call (O := kind.object) rfl ?_))
      intro appended _
      have hcalled := hw.append (e := .io (O := kind.object) (.inr .sslShutdown) appended) rfl rfl rfl
      refine ⟨⟨rfl, hw.once.concat rfl⟩, wp_member (O := kind.object) fun _ => ⟨⟨rfl, hcalled.once⟩, ?_⟩⟩
      refine wp_then (wp_flushWriteBio hcalled) ?_
      intro ok w' hw'
      cases ok with
      | true => exact hinner w' hw'.1.once
      | false => exact hinner w' hw'.1.once

theorem wp_copy (stop : Mem → Bool) (hw : Copying pending [] w) :
    wp (writing DeadEnd) Task.writer (copy stop) (fun _ _ => True) w := by
  refine wp_seq (wp_copyInto (P := Copying pending) (E := Going pending [] 0)
    (R := Going pending [] 0) (Q := fun _ _ => True) (fun _ _ _ => trivial) ?_
    (fun _ hw => wp_shutdownWrite hw) (fun _ hw => wp_shutdownWrite hw) ?_ hw)
    (fun _ _ _ => trivial) fun _ _ _ => trivial
  · intro w hw
    refine wp_net_seq (K := kind) (o := .recv Fd.source NetStream.readSize) rfl (stays_writing _ _)
      (S := fun _ => True) (I := fun w' => w' = w) trivial rfl ?_
    rintro _ r rfl henv
    have hread := isRead_recv (K := kind) Fd.source NetStream.readSize r
    have hgoing := hw.going.read hread (hw.fresh rfl) rfl rfl rfl
    refine ⟨⟨rfl, hgoing.once⟩, ?_⟩
    show if r.1.eof = true then _ else if r.1.error = true then _ else _
    cases heof : r.1.eof with
    | true => exact hgoing
    | false =>
        cases herr : r.1.error with
        | true => exact hgoing
        | false =>
            refine ⟨hgoing, fun hnil => ?_, henv⟩
            have hok : r.1.ok = true := by simp [r.1.ok_eq, heof, herr]
            exact absurd hnil (RecvResult.data_ne_nil_of_ok hok)
  · intro data w hdata hw
    refine wp_returns (wp_returns_env hw.env (wp_writeFull data hw.going)) ?_
    intro n w' hw'
    have hn := hw'.1.nonpos hw'.2
    show if n ≤ 0 then _ else _
    rw [if_pos hn]
    trivial

theorem going_start (mem : Mem) : Going mem.wbio [] 0 ⟨mem, []⟩ where
  clean e he := absurd he (by simp)
  consumed := rfl
  bytes := by simp [accepted, produced, wroteTo, writes]
  once := Nat.zero_le 1

theorem DeadEnd.of_append (h : DeadEnd (tr ++ tr')) : DeadEnd tr :=
  ⟨h.1.of_append, fun hlate => h.2 hlate.append⟩

end Lone

open Lone

/-- **What `writeFull` reports is true exactly if no failure was late**: whatever the library and the
    inner stream answer, a positive answer is then the whole length, and all ciphertext was accepted.
    A copy loop over a transport that accepts nothing then stops at its first write. -/
theorem writeFull_reports (mem : Mem) :
    (∀ data r w', Alone (O := kind.object) (writeFull .writer data) ⟨mem, []⟩ r w' →
      (Reports mem.wbio data r w'.trace ↔ ¬ LateFailure w'.trace)) ∧
    ∀ stop p, Copies stop mem p → Dead p.world.trace → ¬ LateFailure p.world.trace →
      Once p.world.trace := by
  refine ⟨?_, ?_⟩
  · intro data r w' halone
    have hended := halone.of_wp (fun _ => True) (fun _ _ _ => trivial)
      (wp_writeFull data (going_start mem)) trivial
    cases r with
    | ok m => exact hended.reports
    | error e => exact hended.elim
  · intro stop p hp hdead hlate
    refine Contract.invariant (C := writing DeadEnd) (stable_lone fun _ _ h => h.of_append) ?_ ⟨rfl, rfl⟩
      (fun w => Once w.trace) (Nat.zero_le 1) (fun _ _ _ hg _ _ => hg.2) hp ⟨hdead, hlate⟩
    rintro t ⟨mem', _⟩ ⟨rfl, rfl⟩ henv
    exact wp_copy stop ⟨going_start mem', fun _ => rfl, henv⟩

/-- A library that takes and encrypts `take` bytes at a time, over a stream that accepts what
    `accepts` says. -/
def sample (take : Nat) (accepts : List Int) (w : World kind.object) :
    (o : kind.object.Io.Op) → kind.object.Io.Res o
  | .inl (.recv _ bufSize) => ⟨.ofBytes (List.replicate (min 2 bufSize) 7), by
      rw [RecvResult.ofBytes_data, List.length_replicate]
      exact Nat.min_le_right _ _⟩
  | .inl (.send _ data) =>
      ⟨min (accepts.getD (sends (K := kind) Fd.inner w.trace).length (-1)) data.length, Int.min_le_right _ _⟩
  | .inl (.connect _ _) => (0 : Int)
  | .inl (.shutdownWr _) => (0 : Int)
  | .inl (.tlsHandshake _) => true
  | .inl (.tlsRead _ maxBytes) => ⟨.ofBytes [], Nat.zero_le maxBytes⟩
  | .inl (.tlsWriteFull _ data) => ⟨data.length, NetOp.accepts_whole data⟩
  | .inl (.tlsShutdownWrite _) => (0 : Int)
  | .inl (.getaddrinfo _ _ _) => (none : Option (List SockAddr))
  | .inl (.socket _ _ _) => true
  | .inr (.sslRead _) => ⟨.error .zeroReturn, []⟩
  | .inr (.sslWrite data num) =>
      if h : 0 < take ∧ take ≤ data.length ∧ take ≤ num then ⟨.ok ⟨take, h⟩, (data.take take).map (· + 1)⟩
      else ⟨.error .other, []⟩
  | .inr .sslShutdown => ([] : Bytes)
  | .inr (.bioWrite _) => true
  | .inr .nextRead => (none : Option Nat)
  | .inr .nextWrite => (none : Option WriteCall)

/-- A call of `writeFull` against them. -/
def sampleCall (take : Nat) (accepts : List Int) (data : Bytes) : Option (Except Exn Int × World kind.object) :=
  runAlone (O := kind.object) (sample take accepts) 100 (writeFull .writer data) ⟨{}, []⟩

/-- What it answers and what happened. -/
def sampleEnd (take : Nat) (accepts : List Int) (data : Bytes) : Except Exn Int × World kind.object :=
  (sampleCall take accepts data).getD (.ok 0, ⟨{}, []⟩)

theorem sampleEnd_alone (take : Nat) (accepts : List Int) (data : Bytes)
    (h : (sampleCall take accepts data).isSome = true) :
    Alone (O := kind.object) (writeFull .writer data) ⟨{}, []⟩ (sampleEnd take accepts data).1
      (sampleEnd take accepts data).2 :=
  alone_getD h _

/-- The copy loop against them, after one read. -/
def sampleCopy (take : Nat) (accepts : List Int) : Pool kind.object :=
  run (O := kind.object) (fun _ => copy fun _ => false) Task.writer {} (sample take accepts) 100 [.writer]

theorem sampleCopy_copies (take : Nat) (accepts : List Int) :
    Copies (fun _ => false) {} (sampleCopy take accepts) :=
  run_reachable (O := kind.object) _ _ _ _ _ _

/-- Two bytes are taken and sent one after the other; a library that takes none ends the copy loop. -/
theorem writeFull_reports_bytewise :
    Reports [] [1, 2] (sampleEnd 1 [1, 1] [1, 2]).1 (sampleEnd 1 [1, 1] [1, 2]).2.trace ∧
      Once (sampleCopy 0 []).world.trace := by
  refine ⟨?_, ?_⟩
  · have halone := sampleEnd_alone 1 [1, 1] [1, 2] (by decide +kernel)
    exact ((writeFull_reports {}).1 _ _ _ halone).2 (by decide +kernel)
  · exact (writeFull_reports {}).2 _ _ (sampleCopy_copies 0 []) (by decide +kernel) (by decide +kernel)

/-- The library takes a byte, the send of its ciphertext fails: `writeFull` answers 1. -/
theorem writeFull_unsent :
    ¬ ∀ (mem : Mem) data r w', Alone (O := kind.object) (writeFull .writer data) ⟨mem, []⟩ r w' →
      Reports mem.wbio data r w'.trace := by
  intro h
  have hresult : (sampleEnd 1 [] [1]).1 = .ok 1 := by decide +kernel
  have hreports := h {} [1] _ _ (sampleEnd_alone 1 [] [1] (by decide +kernel)) 1
    hresult (by decide)
  exact absurd hreports.2 (by decide +kernel)

end TlsStream

end Cppvless
