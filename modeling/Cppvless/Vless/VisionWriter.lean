import Cppvless.Vless.VisionReader

set_option autoImplicit false

/-! # Vision padding

`VisionWriter::process` of `proxy/vless/vision.cpp` puts padding frames around what the target
sends, until it has seen enough of the TLS handshake to stop. When it stops, and with which command,
depends on a context the other direction changes as well. Whatever it decides, what has been written
is a stream of frames whose payload is what was read (`Written.process`). -/

namespace Cppvless

/-- What the random number generator answers during one call: a padding length for each bound, and
    the padding bytes. -/
structure Draws where
  length : (bound : Nat) → Fin (bound + 1)
  byte : Nat → UInt8

/-- `VisionWriter` without its context and its random number generator. -/
structure VisionWriter where
  uuid : Uuid
  uuidWritten : Bool := false
  isPadding : Bool := true
  directCopy : Bool := false
  deriving DecidableEq

namespace VisionWriter

/-- The `supported_versions` extension of a TLS 1.3 ServerHello, in the first `stop` bytes. -/
def hasTls13SupportedVersions (data : Bytes) (stop : Nat) : Bool :=
  (List.range (stop + 1 - 6)).any fun i =>
    (data.drop i).take 6 = [0x00, 0x2b, 0x00, 0x02, 0x03, 0x04]

/-- The first part of `filterTls`: a ServerHello or a ClientHello at the start of the data. -/
def filterHello (ctx : VisionContext) (data : Bytes) : VisionContext :=
  if 6 ≤ data.length then
    if data.take 3 = [0x16, 0x03, 0x03] ∧ data.getD 5 0 = 0x02 then
      let ctx :=
        { ctx with
          remainingServerHello :=
            ((data.getD 3 0).toNat <<< 8 ||| (data.getD 4 0).toNat : Nat) + 5
          isTLS12orAbove := true
          isTLS := true }
      let sessionIdLen := (data.getD 43 0).toNat
      if 79 ≤ data.length ∧ 79 ≤ ctx.remainingServerHello ∧
          43 + sessionIdLen + 3 ≤ data.length then
        { ctx with
          cipher := beUInt16 (data.getD (43 + sessionIdLen + 1) 0)
            (data.getD (43 + sessionIdLen + 2) 0) }
      else ctx
    else if isClientHello data then { ctx with isTLS := true }
    else ctx
  else ctx

def filterTls (ctx : VisionContext) (data : Bytes) : VisionContext :=
  let ctx := filterHello { ctx with packetsToFilter := ctx.packetsToFilter - 1 } data
  if 0 < ctx.remainingServerHello then
    let stop := min ctx.remainingServerHello.toNat data.length
    let ctx := { ctx with remainingServerHello := ctx.remainingServerHello - data.length }
    if hasTls13SupportedVersions data stop then
      -- TLS_AES_128_CCM_8_SHA256 is excluded
      { ctx with
        enableXtls := ctx.enableXtls || ctx.cipher ≠ 0x1305
        packetsToFilter := 0 }
    else if ctx.remainingServerHello ≤ 0 then { ctx with packetsToFilter := 0 }
    else ctx
  else ctx

/-- The loop of `isCompleteRecord`: `headerLen` bytes of a record header and `recordLen` bytes of
    its payload are still to come. -/
def isCompleteRecordLoop (headerLen recordLen : Nat) (data : Bytes) : Bool :=
  match data with
  | [] => headerLen = 5 && recordLen = 0
  | byte :: rest =>
      if 0 < headerLen then
        if headerLen = 5 ∧ byte ≠ 0x17 then false
        else if headerLen = 4 ∧ byte ≠ 0x03 then false
        else if headerLen = 3 ∧ byte ≠ 0x03 then false
        else
          let recordLen :=
            if headerLen = 2 then byte.toNat <<< 8
            else if headerLen = 1 then recordLen ||| byte.toNat
            else recordLen
          isCompleteRecordLoop (headerLen - 1) recordLen rest
      else if 0 < recordLen then
        if (byte :: rest).length < recordLen then false
        else isCompleteRecordLoop 5 0 ((byte :: rest).drop recordLen)
      else false
termination_by data.length
decreasing_by
  · simp
  · simp only [List.length_drop, List.length_cons]
    omega

def isCompleteRecord (data : Bytes) : Bool := isCompleteRecordLoop 5 0 data

/-- `testseed_` -/
def testseed : Nat × Nat × Nat × Nat := (900, 500, 900, 256)

/-- The padding length drawn for `contentLen` bytes of content. -/
def drawPaddingLen (draws : Draws) (contentLen : Int) (longPadding : Bool) : Int :=
  if contentLen < testseed.1 ∧ longPadding then
    (draws.length testseed.2.1).val + testseed.2.2.1 - contentLen
  else (draws.length testseed.2.2.2).val

/-- `VisionWriter::padding`: the frame and the writer. -/
def padding (draws : Draws) (w : VisionWriter) (data : Bytes) (command : UInt8)
    (longPadding : Bool) : Bytes × VisionWriter :=
  let contentLen : Int := data.length
  let paddingLen := drawPaddingLen draws contentLen longPadding
  let headerSize := if w.uuidWritten then visionShortHeaderSize else visionFullHeaderSize
  let maxPadding : Int := visionMaxFrameSize - headerSize - contentLen
  let paddingLen := if maxPadding < paddingLen then max maxPadding 0 else paddingLen
  let frame := (if w.uuidWritten then [] else w.uuid.toList) ++
    command :: (beBytes contentLen.toNat ++ beBytes paddingLen.toNat ++ data ++
      (List.range paddingLen.toNat).map draws.byte)
  (frame, { w with uuidWritten := true })

/-- `VisionWriter::process`: the output, the writer and the context. -/
def process (draws : Draws) (w : VisionWriter) (ctx : VisionContext) (data : Bytes) :
    Bytes × VisionWriter × VisionContext :=
  if data = [] then (data, w, ctx)
  else if w.directCopy then (data, w, ctx)
  else
    let ctx := if 0 < ctx.packetsToFilter then filterTls ctx data else ctx
    if !w.isPadding then (data, { w with directCopy := true }, ctx)
    else if ctx.isTLS ∧ 6 ≤ data.length ∧ data.take 3 = [0x17, 0x03, 0x03] ∧
        isCompleteRecord data then
      let command := if ctx.enableXtls then visionCmdDirect else visionCmdEnd
      let w := { w with directCopy := ctx.enableXtls, isPadding := false }
      let next := w.padding draws data command true
      (next.1, next.2, ctx)
    else if !ctx.isTLS12orAbove ∧ ctx.packetsToFilter ≤ 1 then
      let next := padding draws { w with isPadding := false } data visionCmdEnd ctx.isTLS
      (next.1, next.2, ctx)
    else
      let next := w.padding draws data visionCmdContinue ctx.isTLS
      (next.1, next.2, ctx)

/-- `VisionWriter::VisionWriter` -/
def new (uuid : Uuid) : VisionWriter := { uuid }

/-! ## What has been written -/

theorem drawPaddingLen_bounds (draws : Draws) (n : Nat) (longPadding : Bool) :
    0 ≤ drawPaddingLen draws n longPadding ∧ drawPaddingLen draws n longPadding ≤ 1400 := by
  have hlong := (draws.length testseed.2.1).isLt
  have hshort := (draws.length testseed.2.2.2).isLt
  unfold drawPaddingLen
  split
  · next h =>
      simp only [testseed] at *
      omega
  · simp only [testseed] at *
    omega

/-- A frame of `padding` has the data for content. -/
theorem padding_frame (draws : Draws) (w : VisionWriter) (data : Bytes) (command : UInt8)
    (longPadding : Bool) (hlen : data.length < 65536) :
    ∃ f : VisionFrame, f.command = command ∧ f.content = data ∧
      w.padding draws data command longPadding =
        ((if w.uuidWritten then [] else w.uuid.toList) ++ f.bytes,
          { w with uuidWritten := true }) := by
  have hdraw := drawPaddingLen_bounds draws data.length longPadding
  generalize hn : (let paddingLen := drawPaddingLen draws data.length longPadding
    let headerSize := if w.uuidWritten then visionShortHeaderSize else visionFullHeaderSize
    let maxPadding : Int := visionMaxFrameSize - headerSize - data.length
    if maxPadding < paddingLen then max maxPadding 0 else paddingLen).toNat = n
  have hn' : n < 65536 := by
    rw [← hn]
    dsimp only
    split <;> omega
  refine ⟨⟨command, data, (List.range n).map draws.byte, hlen, by simpa using hn'⟩, rfl, rfl, ?_⟩
  subst hn
  simp [padding, VisionFrame.bytes]

end VisionWriter

theorem VisionFrames.append_continue {body payload : Bytes} (h : VisionFrames true body payload)
    (f : VisionFrame) (hf : f.command = visionCmdContinue) :
    VisionFrames true (body ++ f.bytes) (payload ++ f.content) := by
  generalize hopen : true = isOpen at h
  induction h with
  | nil => simpa using VisionFrames.continue f hf .nil
  | «continue» g hg _ ih => simpa using VisionFrames.continue g hg (ih hopen)
  | last => cases hopen

theorem VisionFrames.append_last {body payload : Bytes} (h : VisionFrames true body payload)
    (f : VisionFrame) (hf : f.command = visionCmdEnd ∨ f.command = visionCmdDirect) :
    VisionFrames false (body ++ f.bytes) (payload ++ f.content) := by
  generalize hopen : true = isOpen at h
  induction h with
  | nil => simpa using VisionFrames.last f [] hf
  | «continue» g hg _ ih => simpa using VisionFrames.continue g hg (ih hopen)
  | last => cases hopen

theorem VisionFrames.append_raw {body payload : Bytes} (h : VisionFrames false body payload)
    (raw : Bytes) : VisionFrames false (body ++ raw) (payload ++ raw) := by
  generalize hopen : false = isOpen at h
  induction h with
  | nil => cases hopen
  | «continue» g hg _ ih => simpa using VisionFrames.continue g hg (ih hopen)
  | last g bytes hg => simpa using VisionFrames.last g (bytes ++ raw) hg

namespace VisionWriter

/-- `out` has been written for the payload `payload` and `w` is the writer since. -/
inductive Written (w : VisionWriter) : Bytes → Bytes → Prop
  | nothing (huuid : w.uuidWritten = false) (hpadding : w.isPadding = true)
      (hdirect : w.directCopy = false) : Written w [] []
  | padded (body payload : Bytes) (huuid : w.uuidWritten = true) (hpadding : w.isPadding = true)
      (hdirect : w.directCopy = false) (hbody : VisionFrames true body payload) :
      Written w (w.uuid.toList ++ body) payload
  | raw (body payload : Bytes) (hpadding : w.isPadding = false)
      (hbody : VisionFrames false body payload) : Written w (w.uuid.toList ++ body) payload

theorem new_written (uuid : Uuid) : (new uuid).Written [] [] := .nothing rfl rfl rfl

/-- What has been written is a stream of frames, once anything has. -/
theorem Written.stream {w : VisionWriter} {out payload : Bytes} (h : w.Written out payload) :
    out = [] ∧ payload = [] ∨ VisionStream w.uuid out payload := by
  cases h with
  | nothing => exact .inl ⟨rfl, rfl⟩
  | padded body _ _ _ _ hbody => exact .inr ⟨true, body, hbody, rfl⟩
  | raw body _ _ hbody => exact .inr ⟨false, body, hbody, rfl⟩

/-- **What has been written is unpadded to its payload**, in any pieces the first of which has at
    least 21 bytes. -/
theorem Written.processAll_eq {w : VisionWriter} {out payload : Bytes} (h : w.Written out payload)
    {uuid : Uuid} (huuid : w.uuid = uuid) (calls : List (VisionContext × Bytes))
    (hcut : calls.flatMap Prod.snd = out) (hlen : ∀ call ∈ calls.head?, 21 ≤ call.2.length) :
    (VisionReader.new uuid).processAll calls = payload := by
  subst huuid
  rcases h.stream with ⟨rfl, rfl⟩ | hstream
  · cases calls with
    | nil => rfl
    | cons call calls =>
        have hlen' : 21 ≤ call.2.length := hlen call (by simp)
        have hnil : call.2 = [] := by simp_all
        simp [hnil] at hlen'
  · cases calls with
    | nil =>
        -- a stream begins with the UUID
        obtain ⟨isOpen, body, -, rfl⟩ := hstream
        have hempty : w.uuid.toList = [] := by simp_all
        have huuid := w.uuid.toList_length
        rw [hempty] at huuid
        exact nomatch huuid
    | cons call calls =>
        exact hstream.processAll_eq call.1 call.2 calls (by simpa using hcut) (hlen call (by simp))

theorem Written.isPadding_of_directCopy {w : VisionWriter} {out payload : Bytes}
    (h : w.Written out payload) (hdirect : w.directCopy = true) : w.isPadding = false := by
  cases h with
  | nothing _ _ hd => simp [hd] at hdirect
  | padded _ _ _ _ hd => simp [hd] at hdirect
  | raw _ _ hp => exact hp

/-- Behind the padding the data is written as it is. -/
theorem Written.copy {w : VisionWriter} {out payload : Bytes} (h : w.Written out payload)
    (hpadding : w.isPadding = false) (data : Bytes) : w.Written (out ++ data) (payload ++ data) := by
  cases h with
  | nothing _ hp => simp [hp] at hpadding
  | padded _ _ _ hp => simp [hp] at hpadding
  | raw body _ _ hbody =>
      rw [List.append_assoc]
      exact .raw _ _ hpadding (hbody.append_raw data)

/-- A CONTINUE frame. -/
theorem Written.padding_continue {w : VisionWriter} {out payload : Bytes}
    (h : w.Written out payload) (hpadding : w.isPadding = true) (draws : Draws) (data : Bytes)
    (longPadding : Bool) (hlen : data.length < 65536) :
    (w.padding draws data visionCmdContinue longPadding).2.Written
      (out ++ (w.padding draws data visionCmdContinue longPadding).1) (payload ++ data) := by
  obtain ⟨f, hcommand, rfl, hframe⟩ := padding_frame draws w data _ longPadding hlen
  rw [hframe]
  cases h with
  | nothing huuid _ hdirect =>
      have := VisionFrames.append_continue .nil f hcommand
      simpa [huuid] using Written.padded (w := { w with uuidWritten := true }) _ _ rfl hpadding
        hdirect this
  | padded body _ huuid _ hdirect hbody =>
      have := hbody.append_continue f hcommand
      simpa [huuid] using Written.padded (w := { w with uuidWritten := true }) _ _ rfl hpadding
        hdirect this
  | raw _ _ hp => simp [hp] at hpadding

/-- The last frame. -/
theorem Written.padding_last {w : VisionWriter} {out payload : Bytes}
    (h : w.Written out payload) (hpadding : w.isPadding = true) (w' : VisionWriter)
    (hw' : w'.isPadding = false) (huuid' : w'.uuid = w.uuid) (hwritten : w'.uuidWritten = w.uuidWritten) (draws : Draws)
    (data : Bytes) {command : UInt8} (hcmd : command = visionCmdEnd ∨ command = visionCmdDirect)
    (longPadding : Bool) (hlen : data.length < 65536) :
    (w'.padding draws data command longPadding).2.Written
      (out ++ (w'.padding draws data command longPadding).1) (payload ++ data) := by
  obtain ⟨f, hcommand, rfl, hframe⟩ := padding_frame draws w' data command longPadding hlen
  rw [← hcommand] at hcmd
  rw [hframe, hwritten]
  cases h with
  | nothing huuid _ hdirect =>
      have := VisionFrames.append_last .nil f hcmd
      simpa [huuid] using Written.raw (w := { w' with uuidWritten := true }) _ _ hw' this
  | padded body _ huuid _ hdirect hbody =>
      have := hbody.append_last f hcmd
      simpa [huuid, huuid'] using Written.raw (w := { w' with uuidWritten := true }) _ _ hw' this
  | raw _ _ hp => simp [hp] at hpadding

/-- **One call of `process` writes the data**, whatever the context and the random numbers. -/
theorem Written.process {w : VisionWriter} {out payload : Bytes} (h : w.Written out payload)
    (draws : Draws) (ctx : VisionContext) (data : Bytes) (hne : data ≠ [])
    (hlen : data.length < 65536) :
    (w.process draws ctx data).2.1.Written (out ++ (w.process draws ctx data).1)
      (payload ++ data) := by
  unfold VisionWriter.process
  rw [if_neg hne]
  by_cases hdirect : w.directCopy = true
  · rw [if_pos hdirect]
    exact h.copy (h.isPadding_of_directCopy hdirect) data
  rw [if_neg hdirect]
  dsimp only
  generalize (if 0 < ctx.packetsToFilter then filterTls ctx data else ctx) = ctx
  by_cases hpadding : w.isPadding = true
  · rw [if_neg (by simp [hpadding])]
    split
    · refine h.padding_last hpadding { w with directCopy := ctx.enableXtls, isPadding := false }
        rfl rfl rfl draws data ?_ true hlen
      split
      · exact .inr rfl
      · exact .inl rfl
    · split
      · exact h.padding_last hpadding { w with isPadding := false } rfl rfl rfl draws data
          (.inl rfl) _ hlen
      · exact h.padding_continue hpadding draws data _ hlen
  · have hp : w.isPadding = false := by simpa using hpadding
    rw [if_pos (by simp [hp])]
    cases h with
    | nothing _ hp' => exact absurd hp' hpadding
    | padded _ _ _ hp' => exact absurd hp' hpadding
    | raw body _ _ hbody =>
        rw [List.append_assoc]
        exact .raw (w := { w with directCopy := true }) _ _ hp (hbody.append_raw data)

theorem process_uuid (draws : Draws) (w : VisionWriter) (ctx : VisionContext) (data : Bytes) :
    (w.process draws ctx data).2.1.uuid = w.uuid := by
  unfold VisionWriter.process
  split
  · rfl
  · split
    · rfl
    · dsimp only
      generalize (if 0 < ctx.packetsToFilter then filterTls ctx data else ctx) = ctx
      split
      · rfl
      · split
        · rfl
        · split <;> rfl

theorem process_ctx (draws : Draws) (w : VisionWriter) (ctx : VisionContext) (data : Bytes) :
    (w.process draws ctx data).2.2 =
      if data ≠ [] ∧ w.directCopy = false ∧ 0 < ctx.packetsToFilter then filterTls ctx data
      else ctx := by
  unfold process
  by_cases hnil : data = []
  · rw [if_pos hnil, if_neg fun h => h.1 hnil]
  rw [if_neg hnil]
  by_cases hdirect : w.directCopy = true
  · rw [if_pos hdirect, if_neg fun h => by simp [hdirect] at h]
  have hfilter : (data ≠ [] ∧ w.directCopy = false ∧ 0 < ctx.packetsToFilter) ↔
      0 < ctx.packetsToFilter := by
    simp [hnil, hdirect]
  rw [if_neg hdirect]
  simp only [hfilter]
  split_ifs <;> rfl

/-- While padding is active a call with data writes one frame. It is the last one with END or
    DIRECT, and one with CONTINUE only if there is still something to filter or TLS 1.2 has been
    seen. -/
theorem process_cases (draws : Draws) {w : VisionWriter} (ctx : VisionContext) {data : Bytes}
    (hne : data ≠ []) (hpadding : w.isPadding = true) (hdirect : w.directCopy = false) :
    ∃ (w' : VisionWriter) (command : UInt8) (longPadding : Bool),
      w'.uuid = w.uuid ∧ w'.uuidWritten = w.uuidWritten ∧
      (w.process draws ctx data).1 = (w'.padding draws data command longPadding).1 ∧
      (w.process draws ctx data).2.1 = { w' with uuidWritten := true } ∧
      ((command = visionCmdDirect ∧ (w.process draws ctx data).2.2.enableXtls = true ∧
          w'.isPadding = false) ∨
        (command = visionCmdEnd ∧ w'.isPadding = false) ∨
        (command = visionCmdContinue ∧ w' = w ∧
          ((w.process draws ctx data).2.2.isTLS12orAbove = true ∨
            1 < (w.process draws ctx data).2.2.packetsToFilter))) := by
  unfold process
  rw [if_neg hne, if_neg (by simp [hdirect])]
  dsimp only
  generalize (if 0 < ctx.packetsToFilter then filterTls ctx data else ctx) = ctx
  rw [if_neg (by simp [hpadding])]
  split
  · refine ⟨{ w with directCopy := ctx.enableXtls, isPadding := false }, _, true, rfl, rfl, rfl,
      rfl, ?_⟩
    split
    · next hxtls => exact .inl ⟨rfl, hxtls, rfl⟩
    · exact .inr (.inl ⟨rfl, rfl⟩)
  · split
    · exact ⟨{ w with isPadding := false }, _, _, rfl, rfl, rfl, rfl, .inr (.inl ⟨rfl, rfl⟩)⟩
    · next hmore =>
        refine ⟨w, _, _, rfl, rfl, rfl, rfl, .inr (.inr ⟨rfl, rfl, ?_⟩)⟩
        by_cases h12 : ctx.isTLS12orAbove = true
        · exact .inl h12
        · right
          by_contra hcount
          exact hmore ⟨by simp [h12], Int.not_lt.1 hcount⟩

/-- Behind the padding every call passes its data on. -/
theorem process_stopped (draws : Draws) {w : VisionWriter} (ctx : VisionContext) (data : Bytes)
    (hpadding : w.isPadding = false) :
    (w.process draws ctx data).1 = data ∧ (w.process draws ctx data).2.1.isPadding = false := by
  unfold process
  split
  · exact ⟨rfl, hpadding⟩
  · split
    · exact ⟨rfl, hpadding⟩
    · dsimp only
      rw [if_pos (by simp [hpadding])]
      exact ⟨rfl, hpadding⟩

theorem process_directCopy (draws : Draws) {w : VisionWriter} (ctx : VisionContext) (data : Bytes)
    (hdirect : w.directCopy = true) : w.process draws ctx data = (data, w, ctx) := by
  by_cases hnil : data = []
  · rw [process, if_pos hnil]
  · rw [process, if_neg hnil, if_pos hdirect]

/-- Direct copy comes after the padding. -/
theorem process_isPadding (draws : Draws) {w : VisionWriter} (ctx : VisionContext) (data : Bytes)
    (h : w.directCopy = true → w.isPadding = false) :
    (w.process draws ctx data).2.1.directCopy = true →
      (w.process draws ctx data).2.1.isPadding = false := by
  by_cases hnil : data = []
  · rwa [process, if_pos hnil]
  cases hpadding : w.isPadding with
  | false => exact fun _ => (process_stopped draws ctx data hpadding).2
  | true =>
      have hdirect : w.directCopy = false := by
        by_contra hd
        simp [h (by simpa using hd)] at hpadding
      obtain ⟨w', command, longPadding, -, -, -, hnext, hcases⟩ :=
        process_cases draws ctx hnil hpadding hdirect
      rw [hnext]
      rcases hcases with ⟨-, -, hstop⟩ | ⟨-, hstop⟩ | ⟨-, rfl, -⟩
      · exact fun _ => hstop
      · exact fun _ => hstop
      · exact fun hd => absurd hd (by simp [hdirect])

end VisionWriter

end Cppvless
