import Cppvless.Vless.VisionWriter

set_option autoImplicit false

/-! # The size of a padding frame

`VisionWriter::padding` mixes `int32_t` and `size_t`: `padding32` follows it operation by operation.
On data of less than 2^30 bytes nothing wraps and the frame is the one of `VisionWriter.padding`
(`padding32_eq`), so the header says what the frame holds. Its size is another matter: the clamp
takes the padding away, but the content of a relay's read may not leave room for the header
(`process32_frameFits_iff`). -/

namespace Cppvless

namespace VisionWriter

/-- The padding length before the clamp, in `int32_t`. -/
def drawPaddingLen32 (draws : Draws) (contentLen : Int32) (longPadding : Bool) : Int32 :=
  if contentLen < Int32.ofNat testseed.1 ∧ longPadding then
    Int32.ofNat (draws.length testseed.2.1).val + Int32.ofNat testseed.2.2.1 - contentLen
  else Int32.ofNat (draws.length testseed.2.2.2).val

/-- `maxPadding`: computed in `size_t`, cast to `int32_t`. -/
def maxPadding32 (headerSize : UInt64) (contentLen : Int32) : Int32 :=
  (UInt64.ofNat visionMaxFrameSize - headerSize - contentLen.toInt64.toUInt64).toInt64.toInt32

/-- The padding length of the frame. -/
def paddingLen32 (draws : Draws) (headerSize : UInt64) (contentLen : Int32) (longPadding : Bool) :
    Int32 :=
  let paddingLen := drawPaddingLen32 draws contentLen longPadding
  let maxPadding := maxPadding32 headerSize contentLen
  if maxPadding < paddingLen then (if maxPadding < 0 then 0 else maxPadding) else paddingLen

/-- The two casts to `uint8_t` of a length. -/
def headerBytes (len : Int32) : Bytes := [(len >>> 8).toInt8.toUInt8, len.toInt8.toUInt8]

/-- `headerSize` of the next frame. -/
def headerSize (w : VisionWriter) : Nat :=
  if w.uuidWritten then visionShortHeaderSize else visionFullHeaderSize

/-- `VisionWriter::padding`: `none` stands for a write behind the end of the frame. -/
def padding32 (draws : Draws) (w : VisionWriter) (data : Bytes) (command : UInt8)
    (longPadding : Bool) : Option (Bytes × VisionWriter) :=
  let contentLen := Int32.ofNat data.length
  let headerSize := UInt64.ofNat w.headerSize
  let paddingLen := paddingLen32 draws headerSize contentLen longPadding
  let totalSize := headerSize + contentLen.toInt64.toUInt64 + paddingLen.toInt64.toUInt64
  let written := (if w.uuidWritten then [] else w.uuid.toList) ++
    command :: (headerBytes contentLen ++ headerBytes paddingLen ++ data ++
      (List.range paddingLen.toInt.toNat).map draws.byte)
  if written.length ≤ totalSize.toNat then
    some (written ++ List.replicate (totalSize.toNat - written.length) 0,
      { w with uuidWritten := true })
  else none

/-- `VisionWriter::process` with the frames of `padding32`. -/
def process32 (draws : Draws) (w : VisionWriter) (ctx : VisionContext) (data : Bytes) :
    Option (Bytes × VisionWriter × VisionContext) :=
  if data = [] then some (data, w, ctx)
  else if w.directCopy then some (data, w, ctx)
  else
    let ctx := if 0 < ctx.packetsToFilter then filterTls ctx data else ctx
    if !w.isPadding then some (data, { w with directCopy := true }, ctx)
    else if ctx.isTLS ∧ 6 ≤ data.length ∧ data.take 3 = [0x17, 0x03, 0x03] ∧
        isCompleteRecord data then
      let command := if ctx.enableXtls then visionCmdDirect else visionCmdEnd
      let w := { w with directCopy := ctx.enableXtls, isPadding := false }
      (w.padding32 draws data command true).map fun next => (next.1, next.2, ctx)
    else if !ctx.isTLS12orAbove ∧ ctx.packetsToFilter ≤ 1 then
      (padding32 draws { w with isPadding := false } data visionCmdEnd ctx.isTLS).map
        fun next => (next.1, next.2, ctx)
    else (w.padding32 draws data visionCmdContinue ctx.isTLS).map fun next => (next.1, next.2, ctx)

/-! ## Nothing wraps -/

section Arithmetic

theorem toInt64_ofInt {k : Int} (hlo : -2 ^ 31 ≤ k) (hhi : k < 2 ^ 31) :
    (Int32.ofInt k).toInt64 = Int64.ofInt k := by
  apply Int64.toInt.inj
  rw [Int32.toInt_toInt64, Int32.toInt_ofInt_of_le hlo hhi, Int64.toInt_ofInt_of_le] <;> omega

theorem ofInt_lt_ofInt {a b : Int} (ha : -2 ^ 31 ≤ a) (ha' : a < 2 ^ 31) (hb : -2 ^ 31 ≤ b)
    (hb' : b < 2 ^ 31) : Int32.ofInt a < Int32.ofInt b ↔ a < b := by
  rw [Int32.lt_iff_toInt_lt, Int32.toInt_ofInt_of_le ha ha', Int32.toInt_ofInt_of_le hb hb']

theorem headerBytes_eq {n : Nat} (hn : n < 2 ^ 31) : headerBytes (Int32.ofNat n) = beBytes n := by
  have hshift : Int32.ofNat n >>> 8 = Int32.ofNat (n / 256) := by
    apply Int32.toInt.inj
    rw [Int32.toInt_ofNat_of_lt (by omega)]
    calc (Int32.ofNat n >>> 8).toInt
        = (Int32.ofNat n).toInt >>> (8 : Nat) := BitVec.toInt_sshiftRight'
      _ = (n : Int) >>> (8 : Nat) := by rw [Int32.toInt_ofNat_of_lt hn]
      _ = ((n / 256 : Nat) : Int) := by rw [Int.shiftRight_eq_div_pow]; norm_cast
  rw [headerBytes, beBytes, hshift, Int32.toInt8_ofNat', Int32.toInt8_ofNat', Int8.toUInt8_ofNat',
    Int8.toUInt8_ofNat', Nat.toUInt8_eq, Nat.toUInt8_eq]

variable {n : Nat} (hn : n < 2 ^ 30) (draws : Draws) (longPadding : Bool)

include hn

theorem drawPaddingLen32_eq : drawPaddingLen32 draws (Int32.ofNat n) longPadding =
    Int32.ofInt (drawPaddingLen draws n longPadding) := by
  have hless : Int32.ofNat n < Int32.ofNat testseed.1 ↔ (n : Int) < testseed.1 := by
    rw [Int32.lt_iff_toInt_lt, Int32.toInt_ofNat_of_lt (by omega),
      Int32.toInt_ofNat_of_lt (by decide)]
  unfold drawPaddingLen32 drawPaddingLen
  simp only [hless]
  split
  · simp only [← Int32.ofInt_eq_ofNat, ← Int32.ofInt_add, ← Int32.ofInt_sub]
  · exact Int32.ofInt_eq_ofNat.symm

/-- The difference in `size_t` may wrap; the cast brings it back. -/
theorem maxPadding32_eq (headerSize : Nat) :
    maxPadding32 (UInt64.ofNat headerSize) (Int32.ofNat n) =
      Int32.ofInt (visionMaxFrameSize - headerSize - n) := by
  unfold maxPadding32
  rw [← Int32.ofInt_eq_ofNat, toInt64_ofInt (by omega) (by omega), ← Int64.toUInt64_ofNat',
    ← Int64.toUInt64_ofNat', ← Int64.toUInt64_sub, ← Int64.toUInt64_sub, Int64.toInt64_toUInt64,
    ← Int64.ofInt_eq_ofNat, ← Int64.ofInt_eq_ofNat, ← Int64.ofInt_sub, ← Int64.ofInt_sub,
    Int64.toInt32_ofInt]

end Arithmetic

theorem headerSize_bounds (w : VisionWriter) : 5 ≤ w.headerSize ∧ w.headerSize ≤ 21 := by
  unfold headerSize
  split <;> decide

/-- The clamped padding length of a frame with `n` bytes of content. -/
def paddingLen (draws : Draws) (w : VisionWriter) (n : Nat) (longPadding : Bool) : Int :=
  let paddingLen := drawPaddingLen draws n longPadding
  let maxPadding : Int := visionMaxFrameSize - w.headerSize - n
  if maxPadding < paddingLen then max maxPadding 0 else paddingLen

theorem padding_eq (draws : Draws) (w : VisionWriter) (data : Bytes) (command : UInt8)
    (longPadding : Bool) :
    w.padding draws data command longPadding =
      ((if w.uuidWritten then [] else w.uuid.toList) ++
        command :: (beBytes data.length ++ beBytes (w.paddingLen draws data.length longPadding).toNat ++
          data ++ (List.range (w.paddingLen draws data.length longPadding).toNat).map draws.byte),
        { w with uuidWritten := true }) := rfl

theorem paddingLen_bounds (draws : Draws) (w : VisionWriter) (n : Nat) (longPadding : Bool) :
    0 ≤ w.paddingLen draws n longPadding ∧ w.paddingLen draws n longPadding ≤ 1400 := by
  have hdraw := drawPaddingLen_bounds draws n longPadding
  unfold paddingLen
  dsimp only
  split <;> omega

/-- The clamp keeps the frame within the limit exactly if header and content are within it. -/
theorem frameSize_le_iff (draws : Draws) (w : VisionWriter) (n : Nat) (longPadding : Bool) :
    w.headerSize + n + w.paddingLen draws n longPadding ≤ visionMaxFrameSize ↔
      w.headerSize + n ≤ visionMaxFrameSize := by
  have hdraw := drawPaddingLen_bounds draws n longPadding
  unfold paddingLen
  dsimp only
  split <;> omega

theorem paddingLen32_eq (draws : Draws) (w : VisionWriter) {n : Nat} (hn : n < 2 ^ 30)
    (longPadding : Bool) :
    paddingLen32 draws (UInt64.ofNat w.headerSize) (Int32.ofNat n) longPadding =
      Int32.ofInt (w.paddingLen draws n longPadding) := by
  have hheader := w.headerSize_bounds
  have hdraw := drawPaddingLen_bounds draws n longPadding
  have hmax : visionMaxFrameSize = 8192 := rfl
  unfold paddingLen32 paddingLen
  rw [drawPaddingLen32_eq hn, maxPadding32_eq hn]
  dsimp only
  have hzero : (0 : Int32) = Int32.ofInt 0 := rfl
  rw [hzero]
  generalize drawPaddingLen draws n longPadding = draw at hdraw
  generalize hroom : (visionMaxFrameSize - w.headerSize - n : Int) = room
  by_cases hclamp : room < draw
  · rw [if_pos hclamp, if_pos ((ofInt_lt_ofInt (by omega) (by omega) (by omega) (by omega)).2 hclamp)]
    by_cases hneg : room < 0
    · rw [if_pos ((ofInt_lt_ofInt (by omega) (by omega) (by decide) (by decide)).2 hneg),
        max_eq_right (by omega)]
    · rw [if_neg (mt (ofInt_lt_ofInt (by omega) (by omega) (by decide) (by decide)).1 hneg),
        max_eq_left (by omega)]
  · rw [if_neg hclamp,
      if_neg (mt (ofInt_lt_ofInt (by omega) (by omega) (by omega) (by omega)).1 hclamp)]

theorem padding_length (draws : Draws) (w : VisionWriter) (data : Bytes) (command : UInt8)
    (longPadding : Bool) :
    (w.padding draws data command longPadding).1.length =
      w.headerSize + data.length + (w.paddingLen draws data.length longPadding).toNat := by
  rw [padding_eq]
  unfold headerSize
  split
  · simp [beBytes, visionShortHeaderSize]
    omega
  · simp [beBytes, visionFullHeaderSize, w.uuid.toList_length]
    omega

/-- **The frame of `padding32` is the one of `padding`**, and fills what has been allocated. -/
theorem padding32_eq (draws : Draws) (w : VisionWriter) {data : Bytes}
    (hlen : data.length < 2 ^ 30) (command : UInt8) (longPadding : Bool) :
    w.padding32 draws data command longPadding =
      some (w.padding draws data command longPadding) := by
  have hheader := w.headerSize_bounds
  have hpadding := paddingLen_bounds draws w data.length longPadding
  have hsize := padding_length draws w data command longPadding
  obtain ⟨p, hp⟩ := Int.eq_ofNat_of_zero_le hpadding.1
  have hlen32 : paddingLen32 draws (UInt64.ofNat w.headerSize) (Int32.ofNat data.length)
      longPadding = Int32.ofNat p := by
    rw [paddingLen32_eq draws w hlen, hp, Int32.ofInt_eq_ofNat]
  have hcount : (Int32.ofNat p).toInt.toNat = p := by
    rw [Int32.toInt_ofNat_of_lt (by omega), Int.toNat_natCast]
  have htotal : (UInt64.ofNat w.headerSize + (Int32.ofNat data.length).toInt64.toUInt64 +
      (Int32.ofNat p).toInt64.toUInt64).toNat = w.headerSize + data.length + p := by
    rw [← Int32.ofInt_eq_ofNat, ← Int32.ofInt_eq_ofNat, toInt64_ofInt (by omega) (by omega),
      toInt64_ofInt (by omega) (by omega), Int64.ofInt_eq_ofNat, Int64.ofInt_eq_ofNat,
      Int64.toUInt64_ofNat', Int64.toUInt64_ofNat', ← UInt64.ofNat_add, ← UInt64.ofNat_add,
      UInt64.toNat_ofNat', Nat.mod_eq_of_lt (by omega)]
  rw [padding_eq, hp, Int.toNat_natCast] at hsize
  rw [padding_eq, hp, Int.toNat_natCast]
  unfold padding32
  dsimp only
  rw [hlen32, hcount, htotal, headerBytes_eq (by omega), headerBytes_eq (by omega), hsize,
    if_pos (Nat.le_refl _), Nat.sub_self, List.replicate_zero, List.append_nil]

theorem process32_eq (draws : Draws) (w : VisionWriter) (ctx : VisionContext) {data : Bytes}
    (hlen : data.length < 2 ^ 30) : w.process32 draws ctx data = some (w.process draws ctx data) := by
  unfold process32 process
  simp only [padding32_eq _ _ hlen, Option.map_some]
  split_ifs <;> rfl

/-! ## Over the calls of a connection -/

/-- A call of `process`: the random numbers, the context it meets and the data. -/
structure Call where
  draws : Draws
  ctx : VisionContext
  data : Bytes

/-- The writer after some calls. -/
def afterCalls : VisionWriter → List Call → Option VisionWriter
  | w, [] => some w
  | w, call :: calls => do
      let next ← w.process32 call.draws call.ctx call.data
      next.2.1.afterCalls calls

/-- No frame has been written by calls that had no data. -/
def IsFirst (calls : List Call) : Prop := ∀ call ∈ calls, call.data = []

instance (calls : List Call) : Decidable (IsFirst calls) := by
  unfold IsFirst
  infer_instance

/-- `out` is a frame for `data` as the receiver expects it: the UUID before the first one only, a
    header with the lengths of the content and of the padding, within the frame size limit. -/
def FrameFits (uuid : Uuid) (first : Prop) [Decidable first] (data out : Bytes) : Prop :=
  ∃ f : VisionFrame, f.content = data ∧ out = (if first then uuid.toList else []) ++ f.bytes ∧
    out.length ≤ visionMaxFrameSize

/-- What the calls so far have made of a new writer. -/
structure Started (uuid : Uuid) (written : Prop) (w : VisionWriter) : Prop where
  uuid_eq : w.uuid = uuid
  uuidWritten : w.uuidWritten = true ↔ written
  stopped : w.isPadding = false → w.uuidWritten = true
  direct : w.directCopy = true → w.isPadding = false

theorem padding32_writer {draws : Draws} {w : VisionWriter} {data : Bytes} {command : UInt8}
    {longPadding : Bool} {next : Bytes × VisionWriter}
    (h : w.padding32 draws data command longPadding = some next) :
    next.2 = { w with uuidWritten := true } := by
  unfold padding32 at h
  rw [Option.ite_none_right_eq_some, Option.some.injEq] at h
  rw [← h.2]

/-- One call: without data nothing changes, and with data the UUID has been written after it. -/
theorem Started.process32 {uuid : Uuid} {written : Prop} {w : VisionWriter}
    (h : w.Started uuid written) {draws : Draws} {ctx : VisionContext} {data : Bytes}
    {next : Bytes × VisionWriter × VisionContext}
    (hnext : w.process32 draws ctx data = some next) :
    next.2.1.Started uuid (written ∨ data ≠ []) := by
  unfold VisionWriter.process32 at hnext
  by_cases hnil : data = []
  · rw [if_pos hnil] at hnext
    cases hnext
    simpa [hnil] using h
  rw [if_neg hnil] at hnext
  by_cases hdirect : w.directCopy = true
  · rw [if_pos hdirect] at hnext
    cases hnext
    exact ⟨h.uuid_eq, by simp [h.stopped (h.direct hdirect), hnil], h.stopped, h.direct⟩
  rw [if_neg hdirect] at hnext
  dsimp only at hnext
  generalize (if 0 < ctx.packetsToFilter then filterTls ctx data else ctx) = ctx at hnext
  split at hnext
  · next hpadding =>
      have hpadding' : w.isPadding = false := by simpa using hpadding
      cases hnext
      exact ⟨h.uuid_eq, by simp [h.stopped hpadding', hnil], h.stopped, fun _ => hpadding'⟩
  -- a frame has been written
  have hwriter : ∃ w' : VisionWriter, next.2.1 = { w' with uuidWritten := true } ∧
      w'.uuid = w.uuid ∧ (w'.directCopy = true → w'.isPadding = false) := by
    split at hnext
    · simp only [Option.map_eq_some_iff] at hnext
      obtain ⟨frame, hframe, rfl⟩ := hnext
      exact ⟨_, padding32_writer hframe, rfl, fun _ => rfl⟩
    · split at hnext
      · simp only [Option.map_eq_some_iff] at hnext
        obtain ⟨frame, hframe, rfl⟩ := hnext
        exact ⟨_, padding32_writer hframe, rfl, fun _ => rfl⟩
      · simp only [Option.map_eq_some_iff] at hnext
        obtain ⟨frame, hframe, rfl⟩ := hnext
        exact ⟨_, padding32_writer hframe, rfl, fun hd => absurd hd hdirect⟩
  obtain ⟨w', hw', huuid, hd⟩ := hwriter
  rw [hw']
  exact ⟨huuid.trans h.uuid_eq, by simp [hnil], fun _ => rfl, hd⟩

theorem Started.afterCalls {uuid : Uuid} {calls : List Call} :
    ∀ {written : Prop} {w w' : VisionWriter}, w.Started uuid written →
      w.afterCalls calls = some w' → w'.Started uuid (written ∨ ¬IsFirst calls) := by
  induction calls with
  | nil =>
      intro written w w' h hw'
      cases hw'
      simpa [IsFirst] using h
  | cons call calls ih =>
      intro written w w' h hw'
      simp only [VisionWriter.afterCalls, Option.bind_eq_bind, Option.bind_eq_some_iff] at hw'
      obtain ⟨next, hnext, hw'⟩ := hw'
      have := ih (h.process32 hnext) hw'
      have hsplit : ((written ∨ call.data ≠ []) ∨ ¬IsFirst calls) ↔
          (written ∨ ¬IsFirst (call :: calls)) := by
        simp only [IsFirst, List.forall_mem_cons]
        tauto
      rwa [propext hsplit] at this

theorem new_started (uuid : Uuid) : (new uuid).Started uuid False :=
  ⟨rfl, by simp [new], nofun, nofun⟩

/-- **Every frame says what it holds, and it is within the limit exactly if the header leaves room
    for the content**: 8171 bytes in the first frame and 8187 in the others, whatever the state of
    the TLS detection and the random numbers. -/
theorem process32_frameFits_iff (uuid : Uuid) (calls : List Call) (w : VisionWriter)
    (hcalls : (new uuid).afterCalls calls = some w) (hactive : w.isPadding = true) (draws : Draws)
    (ctx : VisionContext) (data : Bytes) (hpos : 1 ≤ data.length) (hlen : data.length ≤ 8192) :
    (∃ out next ctx', w.process32 draws ctx data = some (out, next, ctx') ∧
      FrameFits uuid (IsFirst calls) data out) ↔
    data.length + (if IsFirst calls then visionFullHeaderSize else visionShortHeaderSize) ≤
      visionMaxFrameSize := by
  have hstarted := (new_started uuid).afterCalls hcalls
  have hdirect : w.directCopy = false := by
    by_contra h
    simp [hstarted.direct (by simpa using h)] at hactive
  have hne : data ≠ [] := List.ne_nil_of_length_pos hpos
  obtain ⟨w', command, longPadding, huuid, hwritten, hout, -⟩ :=
    process_cases draws ctx hne hactive hdirect
  have hfirst : w'.uuidWritten = true ↔ ¬IsFirst calls := by
    rw [hwritten, hstarted.uuidWritten, false_or]
  obtain ⟨f, -, hcontent, hframe⟩ :=
    padding_frame draws w' data command longPadding (by omega)
  have hbytes : (w.process draws ctx data).1 =
      (if IsFirst calls then uuid.toList else []) ++ f.bytes := by
    rw [hout, hframe, huuid, hstarted.uuid_eq]
    by_cases hf : IsFirst calls
    · simp [hf, mt hfirst.1 (not_not.2 hf)]
    · simp [hf, hfirst.2 hf]
  have hheader : w'.headerSize =
      if IsFirst calls then visionFullHeaderSize else visionShortHeaderSize := by
    unfold headerSize
    by_cases hf : IsFirst calls
    · simp [hf, mt hfirst.1 (not_not.2 hf)]
    · simp [hf, hfirst.2 hf]
  have hsize : (w.process draws ctx data).1.length ≤ visionMaxFrameSize ↔
      w'.headerSize + data.length ≤ visionMaxFrameSize := by
    have hbounds := paddingLen_bounds draws w' data.length longPadding
    have hclamp := frameSize_le_iff draws w' data.length longPadding
    rw [hout, padding_length]
    omega
  rw [process32_eq draws w ctx (by omega), ← hheader, Nat.add_comm, ← hsize]
  constructor
  · rintro ⟨out, next, ctx', hsome, g, -, -, hle⟩
    rwa [congrArg Prod.fst (Option.some.inj hsome)]
  · intro hle
    exact ⟨_, _, _, rfl, f, hcontent, hbytes, hle⟩

def sampleUuid : Uuid := List.Vector.replicate 16 0x2a

/-- A generator that answers zero. -/
def zeroDraws : Draws := ⟨fun bound => ⟨0, Nat.succ_pos bound⟩, fun _ => 0⟩

/-- The second frame of a connection. -/
theorem process32_frameFits_sample :
    ∃ out next ctx', VisionWriter.process32 zeroDraws { new sampleUuid with uuidWritten := true } {}
        [0x48, 0x69] = some (out, next, ctx') ∧
      FrameFits sampleUuid (IsFirst [⟨zeroDraws, {}, [0x48]⟩]) [0x48, 0x69] out :=
  (process32_frameFits_iff sampleUuid [⟨zeroDraws, {}, [0x48]⟩]
    { new sampleUuid with uuidWritten := true } (by decide +kernel) rfl zeroDraws {} [0x48, 0x69]
    (by decide) (by decide)).2 (by decide)

/-- A full read that comes first makes a frame of 8213 bytes or more. -/
theorem fullRead_not_frameFits :
    ¬ ∃ out next ctx', (new sampleUuid).process32 zeroDraws {} (List.replicate 8192 0) =
        some (out, next, ctx') ∧ FrameFits sampleUuid True (List.replicate 8192 0) out := by
  rintro ⟨out, next, ctx', hsome, f, -, -, hle⟩
  have hlen : (List.replicate 8192 (0 : UInt8)).length = 8192 := List.length_replicate
  rw [process32_eq _ _ _ (by rw [hlen]; decide)] at hsome
  obtain ⟨w', command, longPadding, -, hwritten, hout, -⟩ :=
    process_cases zeroDraws {} (List.ne_nil_of_length_pos (by rw [hlen]; decide))
      (rfl : (new sampleUuid).isPadding = true) rfl
  have hheader : w'.headerSize = 21 := by
    rw [headerSize, hwritten]
    rfl
  have hfst : ((new sampleUuid).process zeroDraws {} (List.replicate 8192 0)).1 = out :=
    congrArg Prod.fst (Option.some.inj hsome)
  rw [← hfst, hout, padding_length, hlen, hheader] at hle
  exact absurd (Nat.le_trans (Nat.le_add_right _ _) hle) (by decide)

end VisionWriter

end Cppvless
