import Cppvless.Vless.VisionShared
import Mathlib.Data.List.GetD
import Mathlib.Data.List.Induction

set_option autoImplicit false

/-! # The excluded cipher suite

`VisionWriter::filterTls` takes the cipher suite from the read that starts a ServerHello and looks
for the TLS 1.3 extension in the reads that follow as well. TLS_AES_128_CCM_8_SHA256 is excluded
from direct copy only if that first read reached the cipher suite, as the source's bounds have it:
`neverDirect_iff` says which reads do. -/

namespace Cppvless

/-- A TLS record with a ServerHello. -/
structure ServerHello where
  recordVersion : UInt8 × UInt8
  /-- The length of the message, its version and its random number. -/
  head : List.Vector UInt8 37
  sessionId : Bytes
  cipher : UInt16
  /-- The compression method, the extensions, and whatever else is in the record. -/
  rest : Bytes
  sessionId_lt : sessionId.length < 256
  fits : 41 + sessionId.length + rest.length < 65536

namespace ServerHello

/-- The message behind its type and head. -/
def tail (hello : ServerHello) : Bytes :=
  hello.sessionId.length.toUInt8 :: (hello.sessionId ++
    (hello.cipher >>> 8).toUInt8 :: hello.cipher.toUInt8 :: hello.rest)

def bytes (hello : ServerHello) : Bytes :=
  0x16 :: hello.recordVersion.1 :: hello.recordVersion.2 ::
    (beBytes (41 + hello.sessionId.length + hello.rest.length) ++
      0x02 :: (hello.head.toList ++ hello.tail))

/-- The first read shows the cipher suite: the record has the version looked for and both have 79
    bytes, and the read goes beyond the cipher suite. -/
def Reaches (hello : ServerHello) (first : Bytes) : Prop :=
  hello.recordVersion = (0x03, 0x03) ∧ 79 ≤ first.length ∧ 79 ≤ hello.bytes.length ∧
    46 + hello.sessionId.length ≤ first.length

instance (hello : ServerHello) (first : Bytes) : Decidable (hello.Reaches first) := by
  unfold Reaches
  infer_instance

theorem bytes_length (hello : ServerHello) :
    hello.bytes.length = 46 + hello.sessionId.length + hello.rest.length := by
  simp only [bytes, tail, beBytes, List.length_cons, List.length_append, List.length_nil,
    hello.head.toList_length]
  omega

/-- What stands behind the head. -/
theorem getD_tail (hello : ServerHello) (rest : Bytes) (i : Nat) :
    (hello.bytes ++ rest).getD (43 + i) 0 = (hello.tail ++ rest).getD i 0 := by
  have hhead : (0x16 :: hello.recordVersion.1 :: hello.recordVersion.2 ::
      (beBytes (41 + hello.sessionId.length + hello.rest.length) ++
        0x02 :: hello.head.toList)).length = 43 := by
    simp [beBytes]
  have hsplit : hello.bytes ++ rest = (0x16 :: hello.recordVersion.1 :: hello.recordVersion.2 ::
      (beBytes (41 + hello.sessionId.length + hello.rest.length) ++
        0x02 :: hello.head.toList)) ++ (hello.tail ++ rest) := by
    simp [bytes]
  rw [hsplit, List.getD_append_right _ _ _ _ (by omega), hhead, Nat.add_sub_cancel_left]

theorem sessionIdLen_eq (hello : ServerHello) (rest : Bytes) :
    ((hello.bytes ++ rest).getD 43 0).toNat = hello.sessionId.length := by
  have h := hello.getD_tail rest 0
  rw [Nat.add_zero] at h
  rw [h]
  have hlt := hello.sessionId_lt
  simp [tail, Nat.toUInt8_eq]
  omega

theorem cipher_eq (hello : ServerHello) (rest : Bytes) :
    beUInt16 ((hello.bytes ++ rest).getD (43 + hello.sessionId.length + 1) 0)
      ((hello.bytes ++ rest).getD (43 + hello.sessionId.length + 2) 0) = hello.cipher := by
  have hhi := hello.getD_tail rest (hello.sessionId.length + 1)
  have hlo := hello.getD_tail rest (hello.sessionId.length + 2)
  rw [Nat.add_assoc, hhi, Nat.add_assoc, hlo]
  unfold tail
  rw [List.cons_append, List.getD_cons_succ, List.getD_cons_succ, List.append_assoc,
    List.getD_append_right _ _ _ _ (Nat.le_refl _),
    List.getD_append_right _ _ _ _ (Nat.le_add_right _ 1), Nat.sub_self, Nat.add_sub_cancel_left]
  exact beUInt16_split hello.cipher

theorem getD_of_prefixed {data stream : Bytes} (h : data <+: stream) {i : Nat}
    (hi : i < data.length) : data.getD i 0 = stream.getD i 0 := by
  obtain ⟨rest, rfl⟩ := h
  rw [List.getD_append _ _ _ _ hi]

theorem startsServerHello_iff (hello : ServerHello) (rest : Bytes) {first : Bytes}
    (hfirst : first <+: hello.bytes ++ rest) :
    VisionWriter.StartsServerHello first ↔
      6 ≤ first.length ∧ hello.recordVersion = (0x03, 0x03) := by
  unfold VisionWriter.StartsServerHello
  refine and_congr_right fun hlen => ?_
  have htake : first.take 3 = [0x16, hello.recordVersion.1, hello.recordVersion.2] := by
    obtain ⟨later, hstream⟩ := hfirst
    have htake : (first ++ later).take 3 = first.take 3 :=
      List.take_append_of_le_length (by omega)
    rw [← htake, hstream]
    rfl
  have htype : first.getD 5 0 = 0x02 := by
    rw [getD_of_prefixed hfirst (by omega)]
    rfl
  rw [htake, htype]
  simp [Prod.ext_iff]

theorem sessionIdLen_first (hello : ServerHello) (rest : Bytes) {first : Bytes}
    (hfirst : first <+: hello.bytes ++ rest) (hlen : 79 ≤ first.length) :
    (first.getD 43 0).toNat = hello.sessionId.length := by
  rw [getD_of_prefixed hfirst (by omega), hello.sessionIdLen_eq rest]

theorem announcedSize_first (hello : ServerHello) (rest : Bytes) {first : Bytes}
    (hfirst : first <+: hello.bytes ++ rest) (hlen : 79 ≤ first.length) :
    VisionWriter.announcedSize first = hello.bytes.length := by
  have hvalue := beBytes_value hello.fits
  unfold VisionWriter.announcedSize
  rw [getD_of_prefixed hfirst (by omega), getD_of_prefixed hfirst (by omega), hello.bytes_length]
  simp only [bytes, beBytes, List.cons_append, List.nil_append, List.getD_cons_succ,
    List.getD_cons_zero]
  omega

/-- **The cipher suite is taken from the first read exactly if the read reaches it.** -/
theorem helloCipher_first (hello : ServerHello) (rest : Bytes) {first : Bytes}
    (hfirst : first <+: hello.bytes ++ rest) :
    VisionWriter.helloCipher first = if hello.Reaches first then some hello.cipher else none := by
  have hstarts := hello.startsServerHello_iff rest hfirst
  by_cases hreach : hello.Reaches first
  · have hsid := hello.sessionIdLen_first rest hfirst hreach.2.1
    have hsize := hello.announcedSize_first rest hfirst hreach.2.1
    obtain ⟨hversion, hlen, hrecord, hcipher⟩ := hreach
    rw [if_pos ⟨hversion, hlen, hrecord, hcipher⟩]
    unfold VisionWriter.helloCipher
    dsimp only
    rw [hsid, if_pos ⟨hstarts.2 ⟨by omega, hversion⟩, hlen, by omega, by omega⟩,
      getD_of_prefixed hfirst (by omega), getD_of_prefixed hfirst (by omega), hello.cipher_eq rest]
  · rw [if_neg hreach]
    refine if_neg fun h => hreach ?_
    have hsid := hello.sessionIdLen_first rest hfirst h.2.1
    have hsize := hello.announcedSize_first rest hfirst h.2.1
    exact ⟨(hstarts.1 h.1).2, h.2.1, by omega, by omega⟩

end ServerHello

namespace Vision

open VisionWriter

/-- What the writer has been given, in order. -/
def reads : List VisionCall → List Bytes
  | [] => []
  | .uplink _ :: calls => reads calls
  | .downlink _ data :: calls => data :: reads calls

theorem reads_append (before after : List VisionCall) :
    reads (before ++ after) = reads before ++ reads after := by
  induction before with
  | nil => rfl
  | cons call before ih =>
      cases call with
      | uplink data => exact ih
      | downlink draws data => exact congrArg (data :: ·) ih

/-- The last cipher suite that the reads show, after `known`. -/
def lastCipher (known : UInt16) : List Bytes → UInt16
  | [] => known
  | data :: later => lastCipher ((helloCipher data).getD known) later

theorem lastCipher_append (known : UInt16) (before after : List Bytes) :
    lastCipher known (before ++ after) = lastCipher (lastCipher known before) after := by
  induction before generalizing known with
  | nil => rfl
  | cons data before ih => exact ih _

/-- Later reads that do not start like a ServerHello leave it. -/
theorem lastCipher_eq {later : List Bytes} (h : ∀ data ∈ later, ¬StartsServerHello data)
    (known : UInt16) : lastCipher known later = known := by
  induction later with
  | nil => rfl
  | cons data later ih =>
      rw [lastCipher, helloCipher_eq_none data (h data List.mem_cons_self)]
      exact ih fun d hd => h d (List.mem_cons_of_mem data hd)

/-- What is known of the writer and of the context after the calls that gave it `shown`: as long as
    the writer filters, the cipher suite is the last one shown. -/
structure Filtering (shown : List Bytes) (v : Vision) : Prop where
  stops : v.writer.directCopy = true → v.writer.isPadding = false
  cipher : v.writer.directCopy = false → 0 < v.ctx.packetsToFilter →
    v.ctx.cipher = lastCipher 0 shown

theorem new_filtering (uuid : Uuid) : (new uuid).Filtering [] := ⟨nofun, fun _ _ => rfl⟩

theorem Filtering.uplink {shown : List Bytes} {v : Vision} (h : v.Filtering shown) (data : Bytes) :
    (v.call (.uplink data)).2.Filtering shown := by
  rcases v.call_ctx (.uplink data) with hctx | ⟨output, hctx⟩
  · exact ⟨h.stops, fun hdirect hcount => by rw [hctx] at hcount ⊢; exact h.cipher hdirect hcount⟩
  · have hcipher : (VisionReader.detectTls v.ctx output).cipher = v.ctx.cipher := by
      unfold VisionReader.detectTls
      split <;> rfl
    have hless := (VisionContext.detectTls_advances v.ctx output).packetsToFilter
    refine ⟨h.stops, fun hdirect hcount => ?_⟩
    rw [hctx] at hcount ⊢
    rw [hcipher]
    exact h.cipher hdirect (by omega)

theorem Filtering.downlink {shown : List Bytes} {v : Vision} (h : v.Filtering shown)
    (draws : Draws) (data : Bytes) :
    (v.call (.downlink draws data)).2.Filtering (shown ++ [data]) := by
  have hctx := v.call_ctx (.downlink draws data)
  refine ⟨process_isPadding draws v.ctx data h.stops, fun hdirect hcount => ?_⟩
  have hdirect' : v.writer.directCopy = false := by
    cases hd : v.writer.directCopy with
    | false => rfl
    | true =>
        simp only [Vision.call, process_directCopy draws v.ctx data hd] at hdirect
        rw [← hdirect, hd]
  rw [lastCipher_append]
  simp only at hctx
  rw [hctx] at hcount ⊢
  split at hcount
  · next hfilters =>
      rw [if_pos hfilters, filterTls_cipher, h.cipher hdirect' hfilters.2.2]
      rfl
  · next hno =>
      have hnil : data = [] := by
        by_contra hne
        exact hno ⟨hne, hdirect', hcount⟩
      rw [if_neg hno, h.cipher hdirect' hcount, hnil]
      rfl

theorem Filtering.run {shown : List Bytes} {v : Vision} (h : v.Filtering shown)
    (calls : List VisionCall) : (v.run calls).Filtering (shown ++ reads calls) := by
  induction calls generalizing v shown with
  | nil =>
      rw [reads, List.append_nil]
      exact h
  | cons call calls ih =>
      cases call with
      | uplink data => exact ih (h.uplink data)
      | downlink draws data =>
          rw [reads, ← List.singleton_append, ← List.append_assoc]
          exact ih (h.downlink draws data)

/-! ## Whether direct copy is enabled -/

/-- The command of the frame that a call puts out, if it is a call of the writer and puts out one. -/
def commandOf (v : Vision) : VisionCall → Option UInt8
  | .uplink _ => none
  | .downlink draws data => frameCommand v.writer (v.call (.downlink draws data)).1

/-- No call of the run enables direct copy or puts out a frame with DIRECT. -/
def NeverDirect (uuid : Uuid) (calls : List VisionCall) : Prop :=
  ∀ before call after, calls = before ++ call :: after →
    let v := (new uuid).run before
    (v.call call).2.ctx.enableXtls = false ∧ v.commandOf call ≠ some visionCmdDirect

/-- Whenever the writer finds the TLS 1.3 extension in what it filters, the cipher suite shown last
    is the excluded one: by the first read if it reached it, or by a later read that starts like
    another ServerHello. -/
def ExcludedShown (uuid : Uuid) (hello : ServerHello) (first : Bytes) (calls : List VisionCall) :
    Prop :=
  ∀ before draws data after, calls = before ++ .downlink draws data :: after →
    let v := (new uuid).run before
    v.Filters data → FindsTls13 v.ctx data →
      lastCipher (if hello.Reaches first then 0x1305 else 0) (reads before ++ [data]).tail = 0x1305

/-- The first read reaches the cipher suite and no later one starts like a ServerHello. -/
theorem excludedShown_of_reaches {uuid : Uuid} {hello : ServerHello} {first : Bytes}
    {later : List Bytes} {calls : List VisionCall} (hreads : reads calls = first :: later)
    (hreach : hello.Reaches first) (hlater : ∀ data ∈ later, ¬StartsServerHello data) :
    ExcludedShown uuid hello first calls := by
  intro before draws data after hcalls v _ _
  rw [if_pos hreach]
  refine lastCipher_eq (fun d hd => hlater d ?_) _
  have hshowing : (reads before ++ [data]) ++ reads after = first :: later := by
    rw [← hreads, hcalls, reads_append]
    simp [reads]
  cases hshown : reads before ++ [data] with
  | nil => simp at hshown
  | cons d' ds =>
      rw [hshown] at hd hshowing
      rw [List.cons_append, List.cons.injEq] at hshowing
      rw [← hshowing.2]
      exact List.mem_append_left _ hd

section Run

variable {uuid : Uuid} {hello : ServerHello} {rest first : Bytes} {later : List Bytes}

/-- What the reads show, when the first one is of a record with the excluded cipher suite. -/
theorem lastCipher_shown (hcipher : hello.cipher = 0x1305) {calls : List VisionCall}
    (hreads : reads calls = first :: later) (hfirst : first <+: hello.bytes ++ rest)
    {before after : List VisionCall} {draws : Draws} {data : Bytes}
    (hcalls : calls = before ++ .downlink draws data :: after) :
    lastCipher 0 (reads before ++ [data]) =
      lastCipher (if hello.Reaches first then 0x1305 else 0) (reads before ++ [data]).tail := by
  have hshowing : (reads before ++ [data]) ++ reads after = first :: later := by
    rw [← hreads, hcalls, reads_append]
    simp [reads]
  cases hshown : reads before ++ [data] with
  | nil => simp at hshown
  | cons d ds =>
      rw [hshown, List.cons_append, List.cons.injEq] at hshowing
      rw [hshowing.1, lastCipher, hello.helloCipher_first rest hfirst, hcipher, List.tail_cons]
      split <;> rfl

/-- A call of the writer enables direct copy when it finds TLS 1.3 and another cipher suite. -/
theorem enableXtls_downlink {shown : List Bytes} {v : Vision} (h : v.Filtering shown)
    (hxtls : v.ctx.enableXtls = false) (draws : Draws) (data : Bytes) :
    (v.call (.downlink draws data)).2.ctx.enableXtls = true ↔
      v.Filters data ∧ FindsTls13 v.ctx data ∧ lastCipher 0 (shown ++ [data]) ≠ 0x1305 := by
  have hctx := v.call_ctx (.downlink draws data)
  simp only at hctx
  rw [hctx]
  split
  · next hfilters =>
      rw [filterTls_enableXtls, lastCipher_append, ← h.cipher hfilters.2.1 hfilters.2.2]
      simp [hxtls, hfilters, lastCipher]
  · next hno => simp [hxtls, hno]

theorem enableXtls_uplink (v : Vision) (data : Bytes) :
    (v.call (.uplink data)).2.ctx.enableXtls = v.ctx.enableXtls := by
  rcases v.call_ctx (.uplink data) with hctx | ⟨output, hctx⟩
  · rw [hctx]
  · rw [hctx]
    unfold VisionReader.detectTls
    split <;> rfl

/-- A frame with DIRECT needs direct copy enabled. -/
theorem commandOf_direct {shown : List Bytes} {v : Vision} (h : v.Filtering shown)
    {call : VisionCall} (hcommand : v.commandOf call = some visionCmdDirect) :
    (v.call call).2.ctx.enableXtls = true := by
  cases call with
  | uplink data => exact nomatch hcommand
  | downlink draws data =>
      simp only [commandOf, frameCommand] at hcommand
      cases hpadding : v.writer.isPadding with
      | false => simp [hpadding] at hcommand
      | true =>
          have hdirect : v.writer.directCopy = false := by
            by_contra hd
            simp [h.stops (by simpa using hd)] at hpadding
          have hne : data ≠ [] := by
            rintro rfl
            simp [hpadding, Vision.call, process] at hcommand
          obtain ⟨w', command, longPadding, -, hwritten, hout, -, hcases⟩ :=
            process_cases draws v.ctx hne hpadding hdirect
          have hsame : frameCommand v.writer (v.call (.downlink draws data)).1 = some command :=
            frameCommand_process hpadding hwritten hout
          rw [frameCommand, hcommand, Option.some.injEq] at hsame
          subst hsame
          rcases hcases with ⟨-, hxtls, -⟩ | ⟨hcmd, -⟩ | ⟨hcmd, -⟩
          · exact hxtls
          · exact absurd hcmd (by decide)
          · exact absurd hcmd (by decide)

/-- Without a call that finds TLS 1.3 and shows another cipher suite direct copy stays off. -/
theorem enableXtls_run (hcipher : hello.cipher = 0x1305) (hfirst : first <+: hello.bytes ++ rest)
    {calls : List VisionCall} (hreads : reads calls = first :: later)
    (hshown : ExcludedShown uuid hello first calls) {before after : List VisionCall}
    (hcalls : calls = before ++ after) : ((new uuid).run before).ctx.enableXtls = false := by
  induction before using List.reverseRecOn generalizing after with
  | nil => rfl
  | append_singleton before call ih =>
      rw [List.append_assoc, List.singleton_append] at hcalls
      have hoff := ih hcalls
      rw [run_append]
      change (((new uuid).run before).call call).2.ctx.enableXtls = false
      cases call with
      | uplink data => rw [enableXtls_uplink, hoff]
      | downlink draws data =>
          rw [← Bool.not_eq_true, enableXtls_downlink ((new_filtering uuid).run before) hoff,
            List.nil_append, lastCipher_shown hcipher hreads hfirst hcalls]
          exact fun h => h.2.2 (hshown _ _ _ _ hcalls h.1 h.2.1)

/-- **The excluded cipher suite and direct copy.** In any interleaving with the reader, direct copy
    stays off and no DIRECT frame is put out exactly if, whenever the TLS 1.3 extension is found,
    the cipher suite has been shown. -/
theorem neverDirect_iff (uuid : Uuid) (hello : ServerHello) (hcipher : hello.cipher = 0x1305)
    (rest : Bytes) (calls : List VisionCall) (first : Bytes) (later : List Bytes)
    (hreads : reads calls = first :: later)
    (hstream : (first :: later).flatten <+: hello.bytes ++ rest) :
    NeverDirect uuid calls ↔ ExcludedShown uuid hello first calls := by
  have hfirst : first <+: hello.bytes ++ rest := by
    rw [List.flatten_cons] at hstream
    exact (List.prefix_append _ _).trans hstream
  constructor
  · intro hnever before draws data after hcalls v hfilters hfinds
    rw [← lastCipher_shown hcipher hreads hfirst hcalls]
    by_contra hother
    -- direct copy is off before the call, which would enable it
    have hoff : v.ctx.enableXtls = false := by
      by_contra hon
      have hadvances :=
        (call_advances (run_coherent VisionContext.new_coherent before : v.ctx.Coherent)
          (.downlink draws data)).1
      have := hadvances.enableXtls (by simpa using hon)
      rw [(hnever _ _ _ hcalls).1] at this
      exact nomatch this
    have hon := (enableXtls_downlink ((new_filtering uuid).run before) hoff draws data).2
      ⟨hfilters, hfinds, by rwa [List.nil_append]⟩
    rw [(hnever _ _ _ hcalls).1] at hon
    exact nomatch hon
  · intro hshown before call after hcalls v
    have hoff : (v.call call).2.ctx.enableXtls = false := by
      have hsplit : calls = (before ++ [call]) ++ after := by simpa using hcalls
      have := enableXtls_run hcipher hfirst hreads hshown hsplit
      rwa [run_append] at this
    refine ⟨hoff, fun hcommand => ?_⟩
    rw [commandOf_direct ((new_filtering uuid).run before) hcommand] at hoff
    exact nomatch hoff

end Run

/-- A TLS 1.3 ServerHello with the excluded cipher suite and a session id of 32 bytes. -/
def sampleHello : ServerHello where
  recordVersion := (0x03, 0x03)
  head := ⟨0x00 :: 0x00 :: 0x4e :: 0x03 :: 0x03 :: List.replicate 32 0x11, by decide⟩
  sessionId := List.replicate 32 0x22
  cipher := 0x1305
  rest := [0x00, 0x00, 0x06, 0x00, 0x2b, 0x00, 0x02, 0x03, 0x04]
  sessionId_lt := by decide
  fits := by decide

/-- The record in one read. -/
theorem neverDirect_sample :
    NeverDirect sampleUuid [.uplink [0x48], .downlink zeroDraws sampleHello.bytes] :=
  (neverDirect_iff sampleUuid sampleHello rfl []
    [.uplink [0x48], .downlink zeroDraws sampleHello.bytes] sampleHello.bytes [] rfl
    (by simp)).2 (excludedShown_of_reaches rfl (by decide) (List.forall_mem_nil _))

/-- A read of 6 bytes and one of the rest enable direct copy. -/
theorem splitHello_direct :
    sampleHello.cipher = 0x1305 ∧
      (reads [.downlink zeroDraws (sampleHello.bytes.take 6),
        .downlink zeroDraws (sampleHello.bytes.drop 6)]).flatten = sampleHello.bytes ∧
      (sampleHello.bytes.take 6).length = 6 ∧
      ¬NeverDirect sampleUuid [.downlink zeroDraws (sampleHello.bytes.take 6),
        .downlink zeroDraws (sampleHello.bytes.drop 6)] := by
  refine ⟨rfl, by decide, by decide, fun hnever => ?_⟩
  have hon : ((new sampleUuid).run [.downlink zeroDraws (sampleHello.bytes.take 6),
      .downlink zeroDraws (sampleHello.bytes.drop 6)]).ctx.enableXtls = true := by decide +kernel
  have hoff := (hnever [.downlink zeroDraws (sampleHello.bytes.take 6)] _ [] rfl).1
  exact absurd hon (by rw [← Bool.not_eq_true] at hoff; exact hoff)

end Vision

end Cppvless
