import Cppvless.Coroutine.Replay
import Cppvless.Net.Relay
import Cppvless.Tls.TlsStream

set_option autoImplicit false

/-! # Two coroutines on one `TlsStream`

One coroutine reads, another writes and shuts down. Both flush `wbio`, and a flush suspends inside
`inner_.writeFull` with bytes that are no longer in `wbio`: another flush that starts meanwhile sends
what comes after them. As long as none finds anything to send, the inner stream gets the ciphertext
in the order in which it was appended. -/

namespace Cppvless

open Coroutine

namespace TlsStream

def body : Task → Code Unit
  | .reader => do
      Prog.spawn (O := kind.object) Task.writer
      reader
  | .writer => writer

def Task.other : Task → Task
  | .reader => .writer
  | .writer => .reader

@[simp] theorem Task.other_other (t : Task) : t.other.other = t := by
  cases t with
  | reader => rfl
  | writer => rfl

theorem Task.eq_other {t u : Task} (h : u ≠ t) : u = t.other := by
  cases t <;> cases u <;> first | rfl | exact absurd rfl h

theorem Task.forall_iff {P : Task → Prop} (t : Task) : (∀ u, P u) ↔ P t ∧ P t.other := by
  constructor
  · intro h
    exact ⟨h t, h t.other⟩
  · intro ⟨ht, hother⟩ u
    by_cases hut : u = t
    · exact hut ▸ ht
    · exact Task.eq_other hut ▸ hother

/-! ## The condition -/

/-- The coroutine that flushes next after this answer of the library. -/
def flushesAfter : Event kind.object → Option Task
  | .io (.inr (.sslRead _)) ⟨.error .wantRead, _⟩ => some .reader
  | .io (.inr (.sslRead _)) ⟨.error .wantWrite, _⟩ => some .reader
  | .io (.inr (.sslWrite _ _)) ⟨.ok _, _⟩ => some .writer
  | .io (.inr (.sslWrite _ _)) ⟨.error .wantRead, _⟩ => some .writer
  | .io (.inr (.sslWrite _ _)) ⟨.error .wantWrite, _⟩ => some .writer
  | .io (.inr .sslShutdown) _ => some .writer
  | _ => none

/-- When the library answers a coroutine that flushes next, and the other one is inside
    `inner_.writeFull`, there is nothing in `wbio`. -/
def Clear (w w' : World kind.object) : Prop :=
  ∀ e ∈ w'.trace.drop w.trace.length, ∀ t ∈ flushesAfter e, w.mem.flushing t.other = true →
    w.mem.wbio ++ appendedBy e = []

/-- A step of an orderly run: no flush gets in the way of another, and after a failed send none
    succeeds. -/
def Orderly (w w' : World kind.object) : Prop :=
  Sticky (K := kind) Fd.inner w'.trace ∧ Clear w w'

instance (w w' : World kind.object) : Decidable (Clear w w') :=
  inferInstanceAs (Decidable (∀ e ∈ w'.trace.drop w.trace.length, ∀ t ∈ flushesAfter e,
    w.mem.flushing t.other = true → w.mem.wbio ++ appendedBy e = []))

instance : DecidableRel Orderly := fun w w' =>
  inferInstanceAs (Decidable (Sticky (K := kind) Fd.inner w'.trace ∧ Clear w w'))

namespace Shared

/-! ## The invariant -/

/-- Of the ciphertext `rest` is on its way to the inner stream, unless a send failed. -/
def Holds (rest : Bytes) (w : World kind.object) : Prop :=
  accepted w.trace ++ rest ++ w.mem.wbio = w.mem.appended ∨
    WriteFailed (K := kind) Fd.inner w.trace ∧ accepted w.trace <+: w.mem.appended

/-- At most one coroutine is inside `inner_.writeFull`, and without any nothing is on its way. -/
structure Ordered (w : World kind.object) : Prop where
  held : ∃ rest, Holds rest w
  one : ∀ t : Task, w.mem.flushing t = true → w.mem.flushing t.other = false
  idle : (∀ t, w.mem.flushing t = false) → Holds [] w

/-- `t` is not inside `inner_.writeFull`. -/
structure Idle (t : Task) (w : World kind.object) : Prop where
  flushing : w.mem.flushing t = false
  ordered : Ordered w

/-- `t` is inside `inner_.writeFull` with `rest` still to be sent. -/
structure Sending (t : Task) (rest : Bytes) (w : World kind.object) : Prop where
  flushing : w.mem.flushing t = true
  other : w.mem.flushing t.other = false
  holds : Holds rest w

/-- There is nothing to flush for `t` while the other one is inside `inner_.writeFull`. -/
def Free (t : Task) (w : World kind.object) : Prop :=
  w.mem.flushing t.other = true → w.mem.wbio = []

/-- Nothing has moved. -/
structure Kept (w w' : World kind.object) : Prop where
  flushing : w'.mem.flushing = w.mem.flushing
  holds : ∀ rest, Holds rest w → Holds rest w'

/-- A coroutine does not touch what the other one is sending. -/
def contract : Contract kind.object where
  env := Sticky (K := kind) Fd.inner
  allowed := Clear
  guar t w w' :=
    w'.mem.flushing t.other = w.mem.flushing t.other ∧ Ordered w' ∧
      (w.mem.flushing t.other = true → w'.mem.flushing t = false ∧ ∀ rest, Holds rest w → Holds rest w')
  parked _ _ _ := True
  pre t w := Idle t w ∧ Idle t.other w
  post _ _ := True

theorem stable : contract.Stable :=
  ⟨fun _ _ h => h.of_append, fun _ _ _ _ _ _ => trivial, fun _ _ _ _ _ => trivial⟩

variable {t : Task} {w w' : World kind.object} {rest : Bytes} {e : Event kind.object}

theorem Holds.accepted_first (h : Holds rest w) : accepted w.trace <+: w.mem.appended := by
  rcases h with hbytes | hfailed
  · rw [← hbytes, List.append_assoc]
    exact List.prefix_append _ _
  · exact hfailed.2

theorem Sending.ordered (h : Sending t rest w) : Ordered w := by
  refine ⟨⟨rest, h.holds⟩, ?_, ?_⟩
  · rw [Task.forall_iff t]
    refine ⟨fun _ => h.other, fun hother => ?_⟩
    simp [h.other] at hother
  · intro hnone
    exact absurd (hnone t) (by simp [h.flushing])

theorem Kept.ordered (h : Kept w w') (hw : Ordered w) : Ordered w' := by
  obtain ⟨rest, hrest⟩ := hw.held
  refine ⟨⟨rest, h.holds rest hrest⟩, ?_, ?_⟩
  · rw [h.flushing]
    exact hw.one
  · rw [h.flushing]
    exact fun hnone => h.holds [] (hw.idle hnone)

theorem Kept.idle (h : Kept w w') (hw : Idle t w) : contract.guar t w w' ∧ Idle t w' := by
  have hflushing : w'.mem.flushing t = false := by rw [h.flushing, hw.flushing]
  refine ⟨⟨?_, h.ordered hw.ordered, fun _ => ⟨hflushing, h.holds⟩⟩, hflushing, h.ordered hw.ordered⟩
  rw [h.flushing]

theorem stays_idle (S : NetOp Fd → Prop) : Stays contract t S (Idle t) := by
  refine ⟨?_, fun _ _ _ _ => trivial⟩
  intro w w' hw hr
  obtain ⟨u, hu, ⟨hsame, hordered, -⟩, -⟩ := hr
  obtain rfl := Task.eq_other hu
  rw [Task.other_other] at hsame
  exact ⟨hsame.trans hw.flushing, hordered⟩

theorem stays_sending (S : NetOp Fd → Prop) (rest : Bytes) :
    Stays contract t S (Sending t rest) := by
  refine ⟨?_, fun _ _ _ _ => trivial⟩
  intro w w' hw hr
  obtain ⟨u, hu, ⟨hsame, -, hkept⟩, -⟩ := hr
  obtain rfl := Task.eq_other hu
  rw [Task.other_other] at hsame hkept
  obtain ⟨hnot, hholds⟩ := hkept hw.flushing
  exact ⟨hsame.trans hw.flushing, hnot, hholds rest hw.holds⟩

/-! ## Steps -/

theorem kept_push (hwrote : wrote (K := kind) Fd.inner e = none) : Kept w (w.push e) := by
  refine ⟨rfl, fun rest h => ?_⟩
  have hnone : accepted [e] = [] := wroteTo_other hwrote
  rcases h with hbytes | ⟨hfailed, hfirst⟩
  · refine .inl ?_
    simpa [hnone] using hbytes
  · refine .inr ⟨by simp [hfailed], ?_⟩
    simpa [hnone] using hfirst

theorem kept_append (bs : Bytes) : Kept w (w.call fun s => (s.append bs, [])) := by
  refine ⟨rfl, fun rest h => ?_⟩
  rcases h with hbytes | ⟨hfailed, hfirst⟩
  · refine .inl ?_
    have hall : accepted w.trace ++ rest ++ (w.mem.wbio ++ bs) = w.mem.appended ++ bs := by
      rw [← List.append_assoc, hbytes]
    simpa [Mem.append] using hall
  · refine .inr ⟨by simpa using hfailed, ?_⟩
    have hlonger := hfirst.trans (List.prefix_append w.mem.appended bs)
    simpa [Mem.append] using hlonger

/-- What the condition says of the flush that follows an answer of the library. -/
theorem free_of_clear (hclear : Clear w (w.push e)) (hnext : flushesAfter e = some t) :
    Free t ((w.push e).call fun s => (s.append (appendedBy e), [])) := by
  intro hother
  have hnothing := hclear e (by simp) t (by simp [hnext]) hother
  exact hnothing

/-- A write of `out` takes it off what is on its way, or is the last one. -/
theorem Holds.write {out : Bytes} {failed : Bool} (h : Holds (out ++ rest) w)
    (he : IsWrite (K := kind) Fd.inner out failed e)
    (hsticky : Sticky (K := kind) Fd.inner (w.push e).trace) :
    if failed then Holds [] (w.push e) else Holds rest (w.push e) := by
  have hout : accepted [e] = out := wroteTo_single he.wrote_self
  rcases h with hbytes | ⟨hfailed, hfirst⟩
  · cases failed with
    | false =>
        refine .inl ?_
        simpa [hout] using hbytes
    | true =>
        refine .inr ⟨by simp [writeFailed_single he.wrote_self], rest ++ w.mem.wbio, ?_⟩
        simpa [hout] using hbytes
  · -- the write fails like the one before
    obtain ⟨rfl, rfl⟩ : out = [] ∧ failed = true := by simpa using hsticky.next he.wrote_self hfailed
    refine .inr ⟨by simp [hfailed], ?_⟩
    simpa [hout] using hfirst

/-- The start of a flush. -/
theorem Idle.take (hw : Idle t w) (hfree : Free t w) (hwbio : w.mem.wbio ≠ []) :
    contract.guar t w (w.call fun s => ((s.bioRead t).2, [])) ∧
      Sending t (w.mem.wbio.take 16384) (w.call fun s => ((s.bioRead t).2, [])) := by
  have hother : w.mem.flushing t.other = false := by
    cases h : w.mem.flushing t.other with
    | false => rfl
    | true => exact absurd (hfree h) hwbio
  have hnext : Sending t (w.mem.wbio.take 16384) (w.call fun s => ((s.bioRead t).2, [])) := by
    refine ⟨?_, ?_, ?_⟩
    · simp [Mem.bioRead]
    · have hne : t.other ≠ t := by cases t <;> simp [Task.other]
      simpa [Mem.bioRead, hne] using hother
    · rcases hw.ordered.idle ((Task.forall_iff t).2 ⟨hw.flushing, hother⟩) with hbytes | ⟨hfailed, hfirst⟩
      · refine .inl ?_
        simpa [Mem.bioRead] using hbytes
      · refine .inr ⟨by simpa using hfailed, ?_⟩
        simpa [Mem.bioRead] using hfirst
  refine ⟨⟨?_, hnext.ordered, fun h => absurd h (by simp [hother])⟩, hnext⟩
  rw [hnext.other, hother]

/-- The end of a flush. -/
theorem Sending.handOver (hw : Sending t [] w) :
    contract.guar t w (w.call fun s => (s.handedOver t, [])) ∧
      Idle t (w.call fun s => (s.handedOver t, [])) ∧ Free t (w.call fun s => (s.handedOver t, [])) := by
  have hne : t.other ≠ t := by cases t <;> simp [Task.other]
  have hself : (w.call fun s => (s.handedOver t, [])).mem.flushing t = false := by
    simp [Mem.handedOver]
  have hother : (w.call fun s => (s.handedOver t, [])).mem.flushing t.other = false := by
    simpa [Mem.handedOver, hne] using hw.other
  have hholds : Holds [] (w.call fun s => (s.handedOver t, [])) := by
    rcases hw.holds with hbytes | ⟨hfailed, hfirst⟩
    · refine .inl ?_
      simpa [Mem.handedOver] using hbytes
    · refine .inr ⟨by simpa using hfailed, ?_⟩
      simpa [Mem.handedOver] using hfirst
  have hordered : Ordered (w.call fun s => (s.handedOver t, [])) := by
    refine ⟨⟨[], hholds⟩, ?_, fun _ => hholds⟩
    rw [Task.forall_iff t]
    rw [hself, hother]
    exact ⟨fun h => absurd h Bool.false_ne_true, fun h => absurd h Bool.false_ne_true⟩
  refine ⟨⟨?_, hordered, fun h => absurd h (by simp [hw.other])⟩, ⟨hself, hordered⟩, fun h => ?_⟩
  · rw [hother, hw.other]
  · rw [hother] at h
    exact absurd h Bool.false_ne_true

/-! ## The functions -/

theorem wp_flushWriteBio (hw : Idle t w) (hfree : Free t w) :
    wp contract t (flushWriteBio t) (Returns fun _ w' => Idle t w') w := by
  refine wp_loop (fun _ w => Idle t w ∧ Free t w) ⟨hw, hfree⟩ ?_
  intro _ w ⟨hw, hfree⟩
  refine wp_get_seq (O := kind.object) ?_
  by_cases hwbio : 0 < w.mem.wbio.length
  · rw [if_pos hwbio]
    obtain ⟨hguar, hsending⟩ := hw.take hfree (List.length_pos_iff.1 hwbio)
    refine wp_update_seq (O := kind.object) fun _ => ⟨hguar, ?_⟩
    have hne : w.mem.wbio.take 16384 ≠ [] := by
      intro hnil
      have hlen := congrArg List.length hnil
      simp only [List.length_take, List.length_nil] at hlen
      omega
    have hwrite : ∀ w e out rest failed, Sending t (out ++ rest) w →
        IsWrite (K := kind) Fd.inner out failed e → contract.env (w.push e).trace →
        contract.guar t w (w.push e) ∧
          if failed then Sending t [] (w.push e) else Sending t rest (w.push e) := by
      intro w e out rest failed hw he henv
      have hholds := hw.holds.write he henv
      cases failed with
      | true =>
          have hnext : Sending t [] (w.push e) := ⟨hw.flushing, hw.other, hholds⟩
          exact ⟨⟨rfl, hnext.ordered, fun h => absurd h (by simp [hw.other])⟩, hnext⟩
      | false =>
          have hnext : Sending t rest (w.push e) := ⟨hw.flushing, hw.other, hholds⟩
          exact ⟨⟨rfl, hnext.ordered, fun h => absurd h (by simp [hw.other])⟩, hnext⟩
    refine wp_then (inner.wp_writeFull (K := kind) (fun rest => stays_sending _ rest) hwrite hne hsending) ?_
    intro sent w' hw'
    have hsent : Sending t [] w' := by
      rcases hw' with ⟨-, hw' | hw'⟩ | ⟨-, hw'⟩
      · exact hw'
      · exact hw'
      · exact hw'
    obtain ⟨hguar', hidle, hfree'⟩ := hsent.handOver
    refine wp_member_seq (O := kind.object) fun _ => ⟨hguar', ?_⟩
    split
    · exact hidle
    · exact ⟨hidle, hfree'⟩
  · rw [if_neg hwbio]
    exact hw

/-- A function that only reads from the inner stream, or ends its writing side. -/
theorem wp_fillReadBio (hw : Idle t w) :
    wp contract t fillReadBio (Returns fun _ w' => Idle t w') w := by
  refine wp_then (inner.wp_read (K := kind) _ (stays_idle _) hw (Q := Returns fun _ w' => Idle t w') ?_) ?_
  · intro w e rr hw he _ _
    exact (kept_push (he.wrote_none _)).idle hw
  · intro rr w' hw'
    split
    · exact hw'
    · refine wp_call (O := kind.object) rfl fun ok _ => ?_
      exact (kept_push rfl).idle hw'

/-- A call of the library, and what it appended. After some answers the code flushes. -/
theorem wp_called {α : Type} {o : ExtOp} {next : o.Res → Code α} (bs : o.Res → Bytes)
    {Q : Except Exn α → World kind.object → Prop} (hsuspends : o.suspends = false)
    (hbs : ∀ res, appendedBy (.io (O := kind.object) (.inr o) res) = bs res)
    (hw : Idle t w)
    (h : ∀ res w', Idle t w' →
      (flushesAfter (.io (O := kind.object) (.inr o) res) = some t → Free t w') →
      wp contract t (next res) Q w') :
    wp contract t (do
      let res ← awaitExt o
      modify (Mem.append (bs res))
      next res) Q w := by
  refine wp_bind (wp_call_ok (O := kind.object) (o := .inr o) hsuspends ?_)
  intro res hok
  obtain ⟨hguar, hidle⟩ := (kept_push (e := .io (O := kind.object) (.inr o) res) rfl).idle hw
  obtain ⟨hguar', hidle'⟩ := (kept_append (bs res)).idle hidle
  refine ⟨hguar, wp_member_seq (O := kind.object) fun _ => ⟨hguar', ?_⟩⟩
  refine h res _ hidle' fun hnext => ?_
  have hfree := free_of_clear hok.2 hnext
  rw [hbs] at hfree
  exact hfree

theorem wp_sslRead {n : Nat} (hw : Idle .reader w) :
    wp contract Task.reader (sslRead n) (Returns fun res w' => Idle .reader w' ∧
      (res = .error .wantRead ∨ res = .error .wantWrite → Free .reader w')) w := by
  refine wp_called (o := .sslRead n) SslResult.appended rfl (fun _ => rfl) hw ?_
  intro res w' hw' hfree
  refine ⟨hw', fun hres => hfree ?_⟩
  match res, hres with
  | ⟨.error .wantRead, _⟩, _ => rfl
  | ⟨.error .wantWrite, _⟩, _ => rfl

theorem wp_sslWrite {data : Bytes} {num : Int} (hw : Idle .writer w) :
    wp contract Task.writer (sslWrite data num) (Returns fun res w' => Idle .writer w' ∧
      (res ≠ .error .zeroReturn ∧ res ≠ .error .other → Free .writer w')) w := by
  refine wp_called (o := .sslWrite data num) SslResult.appended rfl (fun _ => rfl) hw ?_
  intro res w' hw' hfree
  refine ⟨hw', fun hres => hfree ?_⟩
  match res, hres with
  | ⟨.ok _, _⟩, _ => rfl
  | ⟨.error .wantRead, _⟩, _ => rfl
  | ⟨.error .wantWrite, _⟩, _ => rfl
  | ⟨.error .zeroReturn, _⟩, hres => exact absurd rfl hres.1
  | ⟨.error .other, _⟩, hres => exact absurd rfl hres.2

theorem wp_read {n : Nat} (hw : Idle .reader w) :
    wp contract Task.reader (read .reader n) (Returns fun _ w' => Idle .reader w') w := by
  refine wp_get_seq (O := kind.object) ?_
  split
  · exact hw
  · refine wp_loop (fun _ => Idle .reader) hw ?_
    intro _ w hw
    refine wp_then (wp_sslRead hw) ?_
    intro res w₁ ⟨hw₁, hfree⟩
    match res with
    | .ok _ => exact hw₁
    | .error .wantRead =>
        refine wp_then (wp_flushWriteBio hw₁ (hfree (.inl rfl))) ?_
        intro ok w₂ hw₂
        cases ok with
        | false => exact hw₂
        | true =>
            refine wp_then (wp_fillReadBio hw₂) ?_
            intro ok w₃ hw₃
            cases ok with
            | false => exact hw₃
            | true => exact hw₃
    | .error .wantWrite =>
        refine wp_then (wp_flushWriteBio hw₁ (hfree (.inr rfl))) ?_
        intro ok w₂ hw₂
        cases ok with
        | false => exact hw₂
        | true => exact hw₂
    | .error .zeroReturn => exact hw₁
    | .error .other => exact hw₁

theorem wp_writeFull {data : Bytes} (hw : Idle .writer w) :
    wp contract Task.writer (writeFull .writer data) (Returns fun _ w' => Idle .writer w') w := by
  refine wp_get_seq (O := kind.object) ?_
  split
  · exact hw
  · refine wp_loop (fun _ => Idle .writer) hw ?_
    intro offset w hw
    split
    · refine wp_then (wp_sslWrite hw) ?_
      intro res w₁ ⟨hw₁, hfree⟩
      match res with
      | .ok _ =>
          refine wp_then (wp_flushWriteBio hw₁ (hfree (by simp))) ?_
          intro ok w₂ hw₂
          cases ok with
          | false => exact hw₂
          | true => exact hw₂
      | .error .wantRead =>
          refine wp_then (wp_flushWriteBio hw₁ (hfree (by simp))) ?_
          intro ok w₂ hw₂
          cases ok with
          | false => exact hw₂
          | true =>
              refine wp_then (wp_fillReadBio hw₂) ?_
              intro ok w₃ hw₃
              cases ok with
              | false => exact hw₃
              | true => exact hw₃
      | .error .wantWrite =>
          refine wp_then (wp_flushWriteBio hw₁ (hfree (by simp))) ?_
          intro ok w₂ hw₂
          cases ok with
          | false => exact hw₂
          | true => exact hw₂
      | .error .zeroReturn => exact hw₁
      | .error .other => exact hw₁
    · exact hw

theorem wp_shutdownWrite (hw : Idle .writer w) :
    wp contract Task.writer (shutdownWrite .writer) (Returns fun _ w' => Idle .writer w') w := by
  have hinner : ∀ w, Idle .writer w → wp contract Task.writer (inner.shutdownWrite (K := kind))
      (Returns fun _ w' => Idle .writer w') w := by
    intro w hw
    refine inner.wp_shutdownWrite (K := kind) (stays_idle _) hw ?_
    intro w o r n hw ho _
    exact (kept_push (wrote_eq_none ho.not_writes r)).idle hw
  refine wp_get_seq (O := kind.object) ?_
  split
  · refine wp_then (R := fun _ w' => Idle .writer w' ∧ Free .writer w') ?_ ?_
    · show wp contract Task.writer (do
        let res ← awaitExt .sslShutdown
        modify (Mem.append res)
        pure ()) _ w
      refine wp_called (o := .sslShutdown) (fun res => res) rfl (fun _ => rfl) hw ?_
      intro res w' hw' hfree
      exact ⟨hw', hfree rfl⟩
    · intro _ w₁ ⟨hw₁, hfree⟩
      exact wp_then (wp_flushWriteBio hw₁ hfree) fun _ w₂ hw₂ => hinner w₂ hw₂
  · exact hinner w hw

/-- What the coroutines wait for between their calls. -/
theorem wp_next {o : ExtOp} (hsuspends : o.suspends = true) (hw : Idle t w) :
    wp contract t (awaitExt o) (Returns fun _ w' => Idle t w') w := by
  refine wp_await (O := kind.object) (o := .inr o) hsuspends trivial ?_
  intro w₁ hl r _
  have hw₁ : Idle t w₁ := (stays_idle fun _ => True).later hw hl
  exact (kept_push rfl).idle hw₁

theorem wp_reader (hw : Idle .reader w) : wp contract Task.reader reader (fun _ _ => True) w := by
  refine wp_loop (fun _ => Idle .reader) hw ?_
  intro _ w hw
  refine wp_then (wp_next (o := .nextRead) rfl hw) ?_
  intro next w₁ hw₁
  cases next with
  | none => trivial
  | some n => exact wp_then (wp_read hw₁) fun _ w₂ hw₂ => hw₂

theorem wp_writer (hw : Idle .writer w) : wp contract Task.writer writer (fun _ _ => True) w := by
  refine wp_loop (fun _ => Idle .writer) hw ?_
  intro _ w hw
  refine wp_then (wp_next (o := .nextWrite) rfl hw) ?_
  intro next w₁ hw₁
  match next with
  | none => trivial
  | some (.writeFull data) => exact wp_then (wp_writeFull hw₁) fun _ w₂ hw₂ => hw₂
  | some .shutdownWrite => exact wp_then (wp_shutdownWrite hw₁) fun _ w₂ hw₂ => hw₂

theorem wp_body (hw : Idle t w) (hother : Idle t.other w) :
    wp contract t (body t) (fun _ _ => True) w := by
  cases t with
  | reader =>
      have hkept : Kept w (w.start (O := kind.object) Task.writer) := kept_push rfl
      refine wp_bind (wp_spawn fun _ => ⟨(hkept.idle hw).1, ⟨(hkept.idle hother).2, (hkept.idle hw).2⟩, ?_⟩)
      intro w₁ hl
      exact wp_reader ((stays_idle fun _ => True).later (hkept.idle hw).2 hl)
  | writer => exact wp_writer hw

end Shared

open Shared

/-- The stream when the two coroutines start, with what the handshake left in `wbio`. -/
def start (ssl : Bool) (wbio : Bytes) : Mem := { ssl, wbio }

/-- **In an orderly run the ciphertext stays in order**: whatever the library appends, however the two
    coroutines interleave and however little each send gets through, the inner stream has accepted a
    prefix of what was appended to `wbio`, and at most one flush is inside `inner_.writeFull`. -/
theorem flushWriteBio_ordered (ssl : Bool) (wbio : Bytes) {p : Pool kind.object}
    (hp : ReachableIn Orderly body Task.reader (start ssl wbio) p) :
    accepted p.world.trace <+: p.world.mem.appended ∧
      ∀ t : Task, p.world.mem.flushing t = true → p.world.mem.flushing t.other = false := by
  have hordered : Ordered ⟨start ssl wbio, []⟩ :=
    ⟨⟨[], .inl rfl⟩, fun _ _ => rfl, fun _ => .inl rfl⟩
  have hinv : Ordered p.world := by
    refine contract.invariant_in stable ?_ ⟨⟨rfl, hordered⟩, rfl, hordered⟩ List.Pairwise.nil Ordered
      hordered (fun t w w' hguar _ _ => hguar.2.1) hp
    intro t w hw _
    exact wp_body hw.1 hw.2
  obtain ⟨rest, hrest⟩ := hinv.held
  exact ⟨hrest.accepted_first, hinv.one⟩

/-- A library that wants to send these pieces, call after call, over a stream whose sends accept
    these amounts. -/
def talk (pieces : List Bytes) (accepts : List Int) (w : World kind.object) :
    (o : kind.object.Io.Op) → kind.object.Io.Res o
  | .inl (.recv _ bufSize) => ⟨.ofBytes [], Nat.zero_le bufSize⟩
  | .inl (.send _ data) =>
      ⟨min (accepts.getD (sends (K := kind) Fd.inner w.trace).length data.length) data.length,
        Int.min_le_right _ _⟩
  | .inl (.connect _ _) => (0 : Int)
  | .inl (.shutdownWr _) => (0 : Int)
  | .inl (.tlsHandshake _) => true
  | .inl (.tlsRead _ maxBytes) => ⟨.ofBytes [], Nat.zero_le maxBytes⟩
  | .inl (.tlsWriteFull _ data) => ⟨data.length, NetOp.accepts_whole data⟩
  | .inl (.tlsShutdownWrite _) => (0 : Int)
  | .inl (.getaddrinfo _ _ _) => (none : Option (List SockAddr))
  | .inl (.socket _ _ _) => true
  | .inr (.sslRead _) => ⟨.error .wantRead, pieces.getD (calls w.trace) []⟩
  | .inr (.sslWrite data num) =>
      if h : 0 < data.length ∧ data.length ≤ data.length ∧ data.length ≤ num then
        ⟨.ok ⟨data.length, h⟩, pieces.getD (calls w.trace) []⟩
      else ⟨.error .other, []⟩
  | .inr .sslShutdown => ([] : Bytes)
  | .inr (.bioWrite _) => true
  | .inr .nextRead => some NetStream.readSize
  | .inr .nextWrite => some (.writeFull [0])
where
  /-- how often the library was called -/
  calls (tr : List (Event kind.object)) : Nat := tr.countP fun e => (flushesAfter e).isSome

/-- The orderly part of a run of the two against them. -/
def orderlyRun (ts : List Task) : Pool kind.object :=
  runIn Orderly body Task.reader (start true []) (talk [[1, 2], [3]] [1]) 100 ts

/-- The writer's two bytes are sent one after the other, and then the reader's. -/
theorem flushWriteBio_ordered_turns :
    accepted (orderlyRun [.writer, .writer, .writer, .reader, .reader]).world.trace = [1, 2, 3] ∧
      accepted (orderlyRun [.writer, .writer, .writer, .reader, .reader]).world.trace <+:
        (orderlyRun [.writer, .writer, .writer, .reader, .reader]).world.mem.appended :=
  ⟨by decide +kernel, (flushWriteBio_ordered true [] (runIn_reachableIn _ _ _)).1⟩

/-- Any run of the two against them. -/
def mixedRun (ts : List Task) : Pool kind.object :=
  run (O := kind.object) body Task.reader (start true []) (talk [[1, 2], [3]] [1]) 100 ts

/-- The reader sends its byte while the writer has sent the first of two. -/
theorem flushWriteBio_mixed :
    ¬ ∀ ssl wbio (p : Pool kind.object), Coroutine.Reachable body Task.reader (start ssl wbio) p →
      accepted p.world.trace <+: p.world.mem.appended := by
  intro h
  have hfirst := h true [] (mixedRun [.writer, .reader, .writer, .reader])
    (run_reachable (O := kind.object) body Task.reader _ _ _ _)
  exact absurd hfirst (by decide +kernel)

end TlsStream

end Cppvless
