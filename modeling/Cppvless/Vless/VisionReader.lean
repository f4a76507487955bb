import Cppvless.Vless.Protocol

set_option autoImplicit false

/-! # Vision unpadding

`VisionReader::process` of `proxy/vless/vision.cpp` removes padding frames from the pieces of a
stream as they arrive. `unpad_eq_feed` says that its loop takes the bytes of a piece one after the
other, so that what it answers over all pieces depends on their concatenation alone. What it makes
of a stream of frames is then a statement about one piece.

The first piece is the exception: it has to hold the UUID and a whole frame header. -/

namespace Cppvless

/-- `VISION_CMD_CONTINUE` -/
def visionCmdContinue : UInt8 := 0x00

/-- `VISION_CMD_END` -/
def visionCmdEnd : UInt8 := 0x01

/-- `VISION_CMD_DIRECT` -/
def visionCmdDirect : UInt8 := 0x02

/-- `VISION_MAX_FRAME_SIZE` -/
def visionMaxFrameSize : Nat := 8192

/-- `VISION_FULL_HEADER_SIZE`: UUID, command, content length, padding length. -/
def visionFullHeaderSize : Nat := 21

/-- `VISION_SHORT_HEADER_SIZE` -/
def visionShortHeaderSize : Nat := 5

/-- `VisionContext`, shared by the two directions. -/
structure VisionContext where
  packetsToFilter : Int := 8
  isTLS : Bool := false
  isTLS12orAbove : Bool := false
  enableXtls : Bool := false
  cipher : UInt16 := 0
  remainingServerHello : Int := -1
  deriving DecidableEq

/-- Whether the data starts like a TLS ClientHello; asked of six bytes or more. -/
def isClientHello (data : Bytes) : Bool := data.take 2 = [0x16, 0x03] && data.getD 5 0 = 0x01

/-- `VisionReader` without its context. A countdown of -1 has not been started. -/
structure VisionReader where
  uuid : Uuid
  withinPadding : Bool := true
  directCopy : Bool := false
  remainingCommand : Int := -1
  remainingContent : Int := -1
  remainingPadding : Int := -1
  currentCommand : UInt8 := 0
  deriving DecidableEq

namespace VisionReader

/-- The `switch` over the position in a frame header. -/
def readCommandByte (r : VisionReader) (byte : UInt8) : VisionReader :=
  let r :=
    if r.remainingCommand = 5 then { r with currentCommand := byte }
    else if r.remainingCommand = 4 then { r with remainingContent := (byte.toNat <<< 8 : Nat) }
    else if r.remainingCommand = 3 then
      { r with remainingContent := (r.remainingContent.toNat ||| byte.toNat : Nat) }
    else if r.remainingCommand = 2 then { r with remainingPadding := (byte.toNat <<< 8 : Nat) }
    else if r.remainingCommand = 1 then
      { r with remainingPadding := (r.remainingPadding.toNat ||| byte.toNat : Nat) }
    else r
  { r with remainingCommand := r.remainingCommand - 1 }

/-- The loop over a frame header: the reader and what it leaves of the data. -/
def readCommand (r : VisionReader) : Bytes → VisionReader × Bytes
  | [] => (r, [])
  | byte :: rest =>
      if 0 < r.remainingCommand then (r.readCommandByte byte).readCommand rest
      else (r, byte :: rest)

theorem readCommand_length (r : VisionReader) (data : Bytes) :
    (r.readCommand data).2.length ≤ data.length := by
  fun_induction readCommand r data with
  | case1 => exact Nat.le_refl _
  | case2 r byte rest hpos ih =>
      simp only [List.length_cons]
      omega
  | case3 => exact Nat.le_refl _

/-- The loop of `process` over what is left of the data: the reader and what it appends to the
    output. -/
def unpad (r : VisionReader) (data : Bytes) : VisionReader × Bytes :=
  match data with
  | [] => (r, [])
  | byte :: rest =>
      if 0 < r.remainingCommand then
        let next := (r.readCommandByte byte).readCommand rest
        next.1.unpad next.2
      else if 0 < r.remainingContent then
        let toRead := min r.remainingContent.toNat (byte :: rest).length
        let next := unpad { r with remainingContent := r.remainingContent - toRead }
          ((byte :: rest).drop toRead)
        (next.1, (byte :: rest).take toRead ++ next.2)
      else if 0 < r.remainingPadding then
        let toSkip := min r.remainingPadding.toNat (byte :: rest).length
        unpad { r with remainingPadding := r.remainingPadding - toSkip }
          ((byte :: rest).drop toSkip)
      else if r.currentCommand = visionCmdContinue then
        unpad { r with remainingCommand := 5 } (byte :: rest)
      else
        -- END or DIRECT: the rest is not padded
        ({ r with
            withinPadding := false
            directCopy := r.directCopy || r.currentCommand = visionCmdDirect }, byte :: rest)
termination_by (data.length, if 0 < r.remainingCommand then 0 else 1)
decreasing_by
  · have := readCommand_length (r.readCommandByte byte) rest
    apply Prod.Lex.left
    simp only [List.length_cons]
    omega
  · apply Prod.Lex.left
    simp only [List.length_drop, List.length_cons]
    omega
  · apply Prod.Lex.left
    simp only [List.length_drop, List.length_cons]
    omega
  · next hcmd _ _ _ =>
      apply Prod.Lex.right
      rw [if_pos (by decide), if_neg hcmd]
      decide

/-- The TLS detection at the end of `process`. -/
def detectTls (ctx : VisionContext) (output : Bytes) : VisionContext :=
  if 0 < ctx.packetsToFilter ∧ 6 ≤ output.length then
    { ctx with
      isTLS := ctx.isTLS || isClientHello output
      packetsToFilter := ctx.packetsToFilter - 1 }
  else ctx

/-- `VisionReader::process`: the output, the reader and the context. -/
def process (r : VisionReader) (ctx : VisionContext) (data : Bytes) :
    Bytes × VisionReader × VisionContext :=
  if data = [] then (data, r, ctx)
  else if r.directCopy then (data, r, ctx)
  else if !r.withinPadding then (data, { r with directCopy := true }, ctx)
  else if r.remainingCommand = -1 ∧ r.remainingContent = -1 ∧ r.remainingPadding = -1 then
    if visionFullHeaderSize ≤ data.length ∧ data.take 16 = r.uuid.toList then
      let next := unpad { r with remainingCommand := 5 } (data.drop 16)
      (next.2, next.1, detectTls ctx next.2)
    else
      -- not a padding frame: pass everything through
      (data, { r with directCopy := true }, ctx)
  else
    let next := r.unpad data
    (next.2, next.1, detectTls ctx next.2)

/-- The outputs of `process` over the pieces of a stream, one after the other. The context at each
    call is the one the call meets: the other direction changes it too. -/
def processAll (r : VisionReader) : List (VisionContext × Bytes) → Bytes
  | [] => []
  | (ctx, data) :: calls => (r.process ctx data).1 ++ (r.process ctx data).2.1.processAll calls

/-! ## Byte by byte -/

/-- What the loop does with one byte: the reader and what it outputs. -/
def step (r : VisionReader) (byte : UInt8) : VisionReader × Bytes :=
  if 0 < r.remainingCommand then (r.readCommandByte byte, [])
  else if 0 < r.remainingContent then
    ({ r with remainingContent := r.remainingContent - 1 }, [byte])
  else if 0 < r.remainingPadding then
    ({ r with remainingPadding := r.remainingPadding - 1 }, [])
  else if r.currentCommand = visionCmdContinue then
    ({ r with remainingCommand := 5 }.readCommandByte byte, [])
  else ({ r with withinPadding := false }, [byte])

section Step

variable {r : VisionReader} (byte : UInt8)

theorem step_command (hcmd : 0 < r.remainingCommand) :
    r.step byte = (r.readCommandByte byte, []) := if_pos hcmd

theorem step_content (hcmd : r.remainingCommand ≤ 0) (hcontent : 0 < r.remainingContent) :
    r.step byte = ({ r with remainingContent := r.remainingContent - 1 }, [byte]) := by
  rw [step, if_neg (by omega), if_pos hcontent]

theorem step_padding (hcmd : r.remainingCommand ≤ 0) (hcontent : r.remainingContent ≤ 0)
    (hpadding : 0 < r.remainingPadding) :
    r.step byte = ({ r with remainingPadding := r.remainingPadding - 1 }, []) := by
  rw [step, if_neg (by omega), if_neg (by omega), if_pos hpadding]

theorem step_frameEnd (hcmd : r.remainingCommand ≤ 0) (hcontent : r.remainingContent ≤ 0)
    (hpadding : r.remainingPadding ≤ 0) :
    r.step byte = if r.currentCommand = visionCmdContinue then
      ({ r with remainingCommand := 5 }.readCommandByte byte, [])
      else ({ r with withinPadding := false }, [byte]) := by
  rw [step, if_neg (by omega), if_neg (by omega), if_neg (by omega)]

end Step

/-- What it does with all of them. Nothing behind the padding is touched. -/
def feed (r : VisionReader) : Bytes → VisionReader × Bytes
  | [] => (r, [])
  | byte :: rest =>
      if r.withinPadding then
        let next := (r.step byte).1.feed rest
        (next.1, (r.step byte).2 ++ next.2)
      else (r, byte :: rest)

/-- The reader as far as its output depends on it, while it unpads or is behind the padding. -/
def core (r : VisionReader) : VisionReader := { r with directCopy := false }

theorem feed_append (r : VisionReader) (a b : Bytes) :
    r.feed (a ++ b) = (((r.feed a).1.feed b).1, (r.feed a).2 ++ ((r.feed a).1.feed b).2) := by
  induction a generalizing r with
  | nil => simp [feed]
  | cons byte rest ih =>
      by_cases hw : r.withinPadding = true
      · simp only [List.cons_append, feed, if_pos hw, ih, List.append_assoc]
      · cases b with
        | nil => simp [feed, hw]
        | cons c b => simp [feed, hw]

theorem readCommandByte_withinPadding (r : VisionReader) (byte : UInt8) :
    (r.readCommandByte byte).withinPadding = r.withinPadding := by
  unfold readCommandByte
  split_ifs <;> rfl

theorem readCommand_withinPadding (r : VisionReader) (data : Bytes) :
    (r.readCommand data).1.withinPadding = r.withinPadding := by
  fun_induction readCommand r data with
  | case1 => rfl
  | case2 r byte rest hpos ih => rw [ih, readCommandByte_withinPadding]
  | case3 => rfl

theorem feed_readCommand (r : VisionReader) (data : Bytes) (hw : r.withinPadding = true) :
    r.feed data = (r.readCommand data).1.feed (r.readCommand data).2 := by
  fun_induction readCommand r data with
  | case1 => rfl
  | case2 r byte rest hpos ih =>
      rw [← ih (by rw [readCommandByte_withinPadding, hw]), feed, if_pos hw]
      simp [step, hpos]
  | case3 => rfl

theorem feed_content (r : VisionReader) (data : Bytes) (hw : r.withinPadding = true)
    (hcmd : r.remainingCommand ≤ 0) (hlen : (data.length : Int) ≤ r.remainingContent) :
    r.feed data = ({ r with remainingContent := r.remainingContent - data.length }, data) := by
  induction data generalizing r with
  | nil => simp [feed]
  | cons byte rest ih =>
      rw [List.length_cons, Int.natCast_succ] at hlen
      rw [List.length_cons, Int.natCast_succ]
      rw [feed, if_pos hw, step_content byte hcmd (by omega)]
      simp only [ih { r with remainingContent := r.remainingContent - 1 } hw hcmd (by simp; omega)]
      simp only [List.singleton_append, Prod.mk.injEq, and_true]
      congr 1
      omega

theorem feed_padding (r : VisionReader) (data : Bytes) (hw : r.withinPadding = true)
    (hcmd : r.remainingCommand ≤ 0) (hcontent : r.remainingContent ≤ 0)
    (hlen : (data.length : Int) ≤ r.remainingPadding) :
    r.feed data = ({ r with remainingPadding := r.remainingPadding - data.length }, []) := by
  induction data generalizing r with
  | nil => simp [feed]
  | cons byte rest ih =>
      rw [List.length_cons, Int.natCast_succ] at hlen
      rw [List.length_cons, Int.natCast_succ]
      rw [feed, if_pos hw, step_padding byte hcmd hcontent (by omega)]
      simp only [ih { r with remainingPadding := r.remainingPadding - 1 } hw hcmd hcontent
        (by simp; omega)]
      simp only [List.nil_append, Prod.mk.injEq, and_true]
      congr 1
      omega

/-- **The loop of `process` is the byte-by-byte reading**, up to the flag that only says that the
    next piece may be passed through. -/
theorem unpad_eq_feed (r : VisionReader) (data : Bytes) (hw : r.withinPadding = true) :
    (r.unpad data).2 = (r.feed data).2 ∧ (r.unpad data).1.core = (r.feed data).1.core := by
  fun_induction unpad r data with
  | case1 r => exact ⟨rfl, rfl⟩
  | case2 r byte rest hcmd next ih =>
      have hbyte : r.feed (byte :: rest) = next.1.feed next.2 := by
        rw [feed_readCommand r _ hw, readCommand, if_pos hcmd]
      rw [hbyte]
      exact ih (by rw [readCommand_withinPadding, readCommandByte_withinPadding, hw])
  | case3 r byte rest hcmd hcontent toRead next ih =>
      have hlen : ((byte :: rest).take toRead).length = toRead := by
        rw [List.length_take]
        omega
      have hread := feed_content r ((byte :: rest).take toRead) hw (by omega) (by omega)
      rw [hlen] at hread
      rw [← List.take_append_drop toRead (byte :: rest), feed_append, hread]
      obtain ⟨hout, hcore⟩ := ih hw
      simp only [List.take_append_drop]
      exact ⟨by rw [← hout], hcore⟩
  | case4 r byte rest hcmd hcontent hpadding toSkip ih =>
      have hlen : ((byte :: rest).take toSkip).length = toSkip := by
        rw [List.length_take]
        omega
      have hskip := feed_padding r ((byte :: rest).take toSkip) hw (by omega) (by omega) (by omega)
      rw [hlen] at hskip
      rw [← List.take_append_drop toSkip (byte :: rest), feed_append, hskip]
      simpa only [List.take_append_drop, List.nil_append] using ih hw
  | case5 r byte rest hcmd hcontent hpadding hcont ih =>
      have hstep : r.step byte = ({ r with remainingCommand := 5 } : VisionReader).step byte := by
        rw [step_frameEnd byte (by omega) (by omega) (by omega), if_pos hcont,
          step_command byte (by simp)]
      obtain ⟨hout, hcore⟩ := ih hw
      rw [feed, if_pos hw, hstep]
      rw [feed, if_pos hw] at hout hcore
      exact ⟨hout, hcore⟩
  | case6 r byte rest hcmd hcontent hpadding hcont =>
      have hstep : r.step byte = ({ r with withinPadding := false }, [byte]) := by
        rw [step_frameEnd byte (by omega) (by omega) (by omega), if_neg hcont]
      rw [feed, if_pos hw, hstep]
      cases rest <;> exact ⟨rfl, rfl⟩

theorem readCommandByte_core (r : VisionReader) (byte : UInt8) :
    r.core.readCommandByte byte = (r.readCommandByte byte).core := by
  unfold readCommandByte core
  dsimp only
  split_ifs <;> rfl

theorem step_core (r : VisionReader) (byte : UInt8) :
    r.core.step byte = ((r.step byte).1.core, (r.step byte).2) := by
  by_cases hcmd : 0 < r.remainingCommand
  · rw [step_command byte hcmd, step_command (r := r.core) byte hcmd, readCommandByte_core]
  by_cases hcontent : 0 < r.remainingContent
  · rw [step_content byte (by omega) hcontent]
    exact step_content (r := r.core) byte (Int.not_lt.1 hcmd) hcontent
  by_cases hpadding : 0 < r.remainingPadding
  · rw [step_padding byte (by omega) (by omega) hpadding]
    exact step_padding (r := r.core) byte (Int.not_lt.1 hcmd) (Int.not_lt.1 hcontent) hpadding
  rw [step_frameEnd (r := r.core) byte (Int.not_lt.1 hcmd) (Int.not_lt.1 hcontent)
      (Int.not_lt.1 hpadding),
    step_frameEnd (r := r) byte (by omega) (by omega) (by omega)]
  by_cases hcont : r.currentCommand = visionCmdContinue
  · rw [if_pos hcont, if_pos (show r.core.currentCommand = _ from hcont), ← readCommandByte_core]
    rfl
  · rw [if_neg hcont, if_neg (show ¬ r.core.currentCommand = _ from hcont)]
    rfl

theorem feed_core (r : VisionReader) (data : Bytes) :
    r.core.feed data = ((r.feed data).1.core, (r.feed data).2) := by
  induction data generalizing r with
  | nil => rfl
  | cons byte rest ih =>
      by_cases hw : r.withinPadding = true
      · have hw' : r.core.withinPadding = true := hw
        simp only [feed, if_pos hw, if_pos hw', step_core, ih]
      · have hw' : ¬ r.core.withinPadding = true := hw
        simp only [feed, if_neg hw, if_neg hw']

theorem feed_congr {r r' : VisionReader} (h : r.core = r'.core) (data : Bytes) :
    (r.feed data).2 = (r'.feed data).2 := by
  have h₁ := congrArg Prod.snd (feed_core r data)
  have h₂ := congrArg Prod.snd (feed_core r' data)
  rw [h] at h₁
  exact h₁.symm.trans h₂

/-- The reader has found its UUID. -/
structure Started (r : VisionReader) : Prop where
  command : 0 ≤ r.remainingCommand
  direct : r.directCopy = true → r.withinPadding = false

theorem Started.readCommandByte {r : VisionReader} (h : r.Started) (hpos : 0 < r.remainingCommand)
    (byte : UInt8) : (r.readCommandByte byte).Started := by
  have hcommand : (r.readCommandByte byte).remainingCommand = r.remainingCommand - 1 := by
    unfold VisionReader.readCommandByte
    split_ifs <;> rfl
  have hdirect : (r.readCommandByte byte).directCopy = r.directCopy := by
    unfold VisionReader.readCommandByte
    split_ifs <;> rfl
  refine ⟨by omega, fun hd => ?_⟩
  rw [readCommandByte_withinPadding]
  exact h.direct (hdirect ▸ hd)

theorem Started.readCommand {r : VisionReader} (h : r.Started) (data : Bytes) :
    (r.readCommand data).1.Started := by
  fun_induction VisionReader.readCommand r data with
  | case1 => exact h
  | case2 r byte rest hpos ih => exact ih (h.readCommandByte hpos byte)
  | case3 => exact h

theorem Started.unpad {r : VisionReader} (h : r.Started) (data : Bytes) :
    (r.unpad data).1.Started := by
  fun_induction VisionReader.unpad r data with
  | case1 => exact h
  | case2 r byte rest hcmd next ih => exact ih ((h.readCommandByte hcmd byte).readCommand rest)
  | case3 r byte rest hcmd hcontent toRead next ih => exact ih ⟨h.command, h.direct⟩
  | case4 r byte rest hcmd hcontent hpadding toSkip ih => exact ih ⟨h.command, h.direct⟩
  | case5 r byte rest hcmd hcontent hpadding hcont ih => exact ih ⟨by simp, h.direct⟩
  | case6 r byte rest hcmd hcontent hpadding hcont => exact ⟨h.command, fun _ => rfl⟩

/-- Behind the padding everything is passed through. -/
theorem feed_behind (r : VisionReader) (data : Bytes) (hw : r.withinPadding = false) :
    r.feed data = (r, data) := by
  cases data <;> simp [feed, hw]

/-- One call of a started reader. -/
theorem Started.process {r : VisionReader} (h : r.Started) (ctx : VisionContext) (data : Bytes) :
    (r.process ctx data).1 = (r.feed data).2 ∧
      (r.process ctx data).2.1.core = (r.feed data).1.core ∧
      (r.process ctx data).2.1.Started := by
  have hinit : ¬ (r.remainingCommand = -1 ∧ r.remainingContent = -1 ∧ r.remainingPadding = -1) := by
    have := h.command
    omega
  by_cases hnil : data = []
  · subst hnil
    exact ⟨rfl, rfl, h⟩
  by_cases hw : r.withinPadding = true
  · have hd : r.directCopy = false := by
      by_contra hd
      exact absurd (h.direct (by simpa using hd)) (by simp [hw])
    obtain ⟨hout, hcore⟩ := unpad_eq_feed r data hw
    have hcall : r.process ctx data =
        ((r.unpad data).2, (r.unpad data).1, detectTls ctx (r.unpad data).2) := by
      rw [VisionReader.process, if_neg hnil, if_neg (by simp [hd]), if_neg (by simp [hw]),
        if_neg hinit]
    rw [hcall]
    exact ⟨hout, hcore, h.unpad data⟩
  · have hw' : r.withinPadding = false := by simpa using hw
    rw [feed_behind r data hw']
    by_cases hd : r.directCopy = true
    · rw [VisionReader.process, if_neg hnil, if_pos hd]
      exact ⟨rfl, rfl, h⟩
    · rw [VisionReader.process, if_neg hnil, if_neg hd, if_pos (by simp [hw'])]
      exact ⟨rfl, rfl, ⟨h.command, fun _ => hw'⟩⟩

/-- All calls together answer what one call on everything would. -/
theorem Started.processAll {r : VisionReader} (h : r.Started)
    (calls : List (VisionContext × Bytes)) :
    r.processAll calls = (r.feed (calls.flatMap Prod.snd)).2 := by
  induction calls generalizing r with
  | nil => rfl
  | cons call calls ih =>
      obtain ⟨ctx, data⟩ := call
      obtain ⟨hout, hcore, hstarted⟩ := h.process ctx data
      rw [VisionReader.processAll, ih hstarted, List.flatMap_cons, feed_append, hout,
        feed_congr hcore]

end VisionReader

/-! ## Streams of frames -/

/-- A padding frame. Its lengths fit the two bytes they are written in. -/
structure VisionFrame where
  command : UInt8
  content : Bytes
  padding : Bytes
  content_lt : content.length < 65536
  padding_lt : padding.length < 65536

def VisionFrame.bytes (f : VisionFrame) : Bytes :=
  f.command :: (beBytes f.content.length ++ beBytes f.padding.length ++ f.content ++ f.padding)

/-- Frames behind a UUID and their payload: CONTINUE frames, and then, unless the stream is still
    open, an END or DIRECT frame and bytes without padding. -/
inductive VisionFrames : Bool → Bytes → Bytes → Prop
  | nil : VisionFrames true [] []
  | continue {isOpen : Bool} {rest payload : Bytes} (f : VisionFrame)
      (hcommand : f.command = visionCmdContinue) (hrest : VisionFrames isOpen rest payload) :
      VisionFrames isOpen (f.bytes ++ rest) (f.content ++ payload)
  | last (f : VisionFrame) (raw : Bytes)
      (hcommand : f.command = visionCmdEnd ∨ f.command = visionCmdDirect) :
      VisionFrames false (f.bytes ++ raw) (f.content ++ raw)

/-- A stream of frames behind its UUID, and its payload. -/
def VisionStream (uuid : Uuid) (s payload : Bytes) : Prop :=
  ∃ isOpen body, VisionFrames isOpen body payload ∧ s = uuid.toList ++ body

theorem beBytes_value {n : Nat} (h : n < 65536) :
    ((n / 256).toUInt8.toNat <<< 8 ||| n.toUInt8.toNat) = n := by
  have hlo : n.toUInt8.toNat = n % 256 := by simp [Nat.toUInt8_eq]
  have hhi : (n / 256).toUInt8.toNat = n / 256 := by
    simp only [Nat.toUInt8_eq, UInt8.toNat_ofNat']
    omega
  rw [hlo, hhi, ← Nat.shiftLeft_add_eq_or_of_lt (by simp; omega), Nat.shiftLeft_eq]
  omega

namespace VisionReader

/-- The next byte is the first of a frame. -/
def AtFrame (r : VisionReader) : Prop :=
  r.withinPadding = true ∧ (r.remainingCommand = 5 ∨ r.remainingCommand = 0 ∧
    r.remainingContent ≤ 0 ∧ r.remainingPadding ≤ 0 ∧ r.currentCommand = visionCmdContinue)

theorem readCommand_header (r : VisionReader) (c a b p q : UInt8) (rest : Bytes)
    (hcmd : r.remainingCommand = 5) :
    r.readCommand (c :: a :: b :: p :: q :: rest) =
      ({ r with
          currentCommand := c
          remainingContent := (a.toNat <<< 8 ||| b.toNat : Nat)
          remainingPadding := (p.toNat <<< 8 ||| q.toNat : Nat)
          remainingCommand := 0 }, rest) := by
  have hdone : ∀ r : VisionReader, r.remainingCommand = 0 → r.readCommand rest = (r, rest) := by
    intro r hr
    cases rest <;> simp [readCommand, hr]
  simp [readCommand, readCommandByte, hcmd, hdone, -Int.natCast_shiftLeft]

theorem feed_header (r : VisionReader) (f : VisionFrame) (rest : Bytes) (hw : r.withinPadding = true)
    (hcmd : r.remainingCommand = 5) :
    r.feed (f.command :: (beBytes f.content.length ++ beBytes f.padding.length ++ rest)) =
      feed { r with
          currentCommand := f.command
          remainingContent := f.content.length
          remainingPadding := f.padding.length
          remainingCommand := 0 } rest := by
  rw [feed_readCommand r _ hw]
  simp only [beBytes, List.cons_append, List.nil_append]
  rw [readCommand_header r _ _ _ _ _ rest hcmd, beBytes_value f.content_lt,
    beBytes_value f.padding_lt]

/-- At the end of a CONTINUE frame the next byte starts a header. -/
theorem AtFrame.feed_eq {r : VisionReader} (h : r.AtFrame) (byte : UInt8) (rest : Bytes) :
    r.feed (byte :: rest) = feed { r with remainingCommand := 5 } (byte :: rest) := by
  obtain ⟨hw, hcmd | ⟨hcmd, hcontent, hpadding, hcont⟩⟩ := h
  · rw [← hcmd]
  · rw [feed, feed, if_pos hw, if_pos hw, step_frameEnd byte (by omega) hcontent hpadding,
      if_pos hcont, step_command byte (by simp)]

/-- A frame is read to its end and its content comes out. -/
theorem AtFrame.feed_frame {r : VisionReader} (h : r.AtFrame) (f : VisionFrame) :
    ∃ r', r.feed f.bytes = (r', f.content) ∧ r'.withinPadding = true ∧ r'.remainingCommand = 0 ∧
      r'.remainingContent ≤ 0 ∧ r'.remainingPadding ≤ 0 ∧ r'.currentCommand = f.command := by
  let started : VisionReader :=
    { r with
      currentCommand := f.command
      remainingContent := f.content.length
      remainingPadding := f.padding.length
      remainingCommand := 0 }
  have hheader : r.feed f.bytes = started.feed (f.content ++ f.padding) := by
    rw [VisionFrame.bytes, h.feed_eq, List.append_assoc]
    exact feed_header { r with remainingCommand := 5 } f _ h.1 rfl
  have hcontent : started.feed f.content = ({ started with remainingContent := 0 }, f.content) := by
    have hread := feed_content started f.content h.1 (Int.le_refl 0) (Int.le_refl _)
    simpa [started] using hread
  have hpadding := feed_padding { started with remainingContent := 0 } f.padding h.1
    (Int.le_refl 0) (Int.le_refl 0) (Int.le_refl _)
  rw [hheader, feed_append, hcontent, hpadding, List.append_nil]
  exact ⟨_, rfl, h.1, rfl, Int.le_refl 0, by simp [started], rfl⟩

/-- **A reader at the start of a frame takes a stream of frames for its payload.** -/
theorem AtFrame.feed_frames {r : VisionReader} (h : r.AtFrame) {isOpen : Bool}
    {body payload : Bytes} (hbody : VisionFrames isOpen body payload) :
    (r.feed body).2 = payload := by
  induction hbody generalizing r with
  | nil => rfl
  | «continue» f hcommand _ ih =>
      obtain ⟨r', hfeed, hw, hcmd, hcontent, hpadding, hcurrent⟩ := h.feed_frame f
      rw [feed_append, hfeed]
      rw [ih ⟨hw, .inr ⟨hcmd, hcontent, hpadding, hcurrent.trans hcommand⟩⟩]
  | last f raw hcommand =>
      obtain ⟨r', hfeed, hw, hcmd, hcontent, hpadding, hcurrent⟩ := h.feed_frame f
      rw [feed_append, hfeed]
      have hne : ¬ r'.currentCommand = visionCmdContinue := by
        rw [hcurrent]
        rcases hcommand with hc | hc <;> rw [hc] <;> decide
      cases raw with
      | nil => rfl
      | cons byte rest =>
          rw [feed, if_pos hw, step_frameEnd byte (by omega) hcontent hpadding, if_neg hne,
            feed_behind _ rest rfl]
          rfl

/-- `VisionReader::VisionReader` -/
def new (uuid : Uuid) : VisionReader := { uuid }

/-- A new reader behind its UUID. -/
def start (uuid : Uuid) : VisionReader := { uuid, remainingCommand := 5 }

theorem start_atFrame (uuid : Uuid) : (start uuid).AtFrame := ⟨rfl, .inl rfl⟩

theorem start_started (uuid : Uuid) : (start uuid).Started :=
  ⟨by simp [start], fun h => absurd h (by simp [start])⟩

/-- A first piece with the UUID and a whole header starts the reader. -/
theorem processAll_long (uuid : Uuid) (ctx : VisionContext) (first : Bytes)
    (calls : List (VisionContext × Bytes)) (hlen : 21 ≤ first.length)
    (huuid : first.take 16 = uuid.toList) :
    (new uuid).processAll ((ctx, first) :: calls) =
      ((start uuid).feed (first.drop 16 ++ calls.flatMap Prod.snd)).2 := by
  have hne : first ≠ [] := by
    rintro rfl
    simp at hlen
  have hcall : (new uuid).process ctx first =
      (((start uuid).unpad (first.drop 16)).2, ((start uuid).unpad (first.drop 16)).1,
        detectTls ctx ((start uuid).unpad (first.drop 16)).2) := by
    rw [process, if_neg hne, if_neg (by simp [new]), if_neg (by simp [new]),
      if_pos ⟨rfl, rfl, rfl⟩, if_pos ⟨hlen, huuid⟩]
    rfl
  obtain ⟨hout, hcore⟩ := unpad_eq_feed (start uuid) (first.drop 16) rfl
  rw [processAll, hcall, ((start_started uuid).unpad _).processAll, feed_append, hout,
    feed_congr hcore]

/-- A reader that passes through passes everything through. -/
theorem processAll_direct (r : VisionReader) (calls : List (VisionContext × Bytes))
    (h : r.directCopy = true) : r.processAll calls = calls.flatMap Prod.snd := by
  induction calls with
  | nil => rfl
  | cons call calls ih =>
      obtain ⟨ctx, data⟩ := call
      have hcall : r.process ctx data = (data, r, ctx) := by
        rw [process, if_pos h, ite_self]
      rw [processAll, hcall, ih, List.flatMap_cons]

/-- A shorter first piece makes the reader pass everything through. -/
theorem processAll_short (uuid : Uuid) (ctx : VisionContext) (first : Bytes)
    (calls : List (VisionContext × Bytes)) (hne : first ≠ []) (hlen : first.length < 21) :
    (new uuid).processAll ((ctx, first) :: calls) = first ++ calls.flatMap Prod.snd := by
  have hcall : (new uuid).process ctx first =
      (first, { new uuid with directCopy := true }, ctx) := by
    rw [process, if_neg hne, if_neg (by simp [new]), if_neg (by simp [new]),
      if_pos ⟨rfl, rfl, rfl⟩, if_neg (fun h => by simp only [visionFullHeaderSize] at h; omega)]
  rw [processAll, hcall, processAll_direct _ _ rfl]

end VisionReader

theorem VisionFrames.length_le {isOpen : Bool} {body payload : Bytes}
    (h : VisionFrames isOpen body payload) : payload.length ≤ body.length := by
  induction h with
  | nil => exact Nat.le_refl 0
  | «continue» f _ _ ih =>
      simp only [VisionFrame.bytes, List.length_append, List.length_cons]
      omega
  | last f raw _ =>
      simp only [VisionFrame.bytes, List.length_append, List.length_cons]
      omega

/-- With a first piece of at least 21 bytes, unpadding does not depend on the cut. -/
theorem VisionStream.processAll_eq {uuid : Uuid} {s payload : Bytes}
    (hs : VisionStream uuid s payload) (ctx : VisionContext) (first : Bytes)
    (calls : List (VisionContext × Bytes)) (hcut : first ++ calls.flatMap Prod.snd = s)
    (hlen : 21 ≤ first.length) :
    (VisionReader.new uuid).processAll ((ctx, first) :: calls) = payload := by
  obtain ⟨isOpen, body, hbody, rfl⟩ := hs
  have huuid : first.take 16 = uuid.toList := by
    have := congrArg (List.take 16) hcut
    rwa [List.take_append_of_le_length (by omega), List.take_left' uuid.toList_length] at this
  have hrest : first.drop 16 ++ calls.flatMap Prod.snd = body := by
    have := congrArg (List.drop 16) hcut
    rwa [List.drop_append_of_le_length (by omega), List.drop_left' uuid.toList_length] at this
  rw [VisionReader.processAll_long uuid ctx first calls hlen huuid, hrest]
  exact (VisionReader.start_atFrame uuid).feed_frames hbody

/-- **Unpadding a stream of frames in pieces gives its payload exactly if the first piece has at
    least 21 bytes.** With a shorter one the reader takes the stream for one without padding. -/
theorem processAll_eq_payload_iff {uuid : Uuid} {s payload : Bytes}
    (hs : VisionStream uuid s payload) (calls : List (VisionContext × Bytes))
    (hne : ∀ call ∈ calls, call.2 ≠ []) (hcut : calls.flatMap Prod.snd = s) :
    (VisionReader.new uuid).processAll calls = payload ↔
      ∃ ctx first rest, calls = (ctx, first) :: rest ∧ 21 ≤ first.length := by
  have hlong : payload.length < s.length := by
    obtain ⟨isOpen, body, hbody, rfl⟩ := hs
    have := hbody.length_le
    simp only [List.length_append, uuid.toList_length]
    omega
  match calls with
  | [] =>
      subst hcut
      simp at hlong
  | (ctx, first) :: rest =>
      have hcut : first ++ rest.flatMap Prod.snd = s := by simpa using hcut
      rcases Nat.lt_or_ge first.length 21 with hlt | hge
      · rw [VisionReader.processAll_short uuid ctx first rest (hne (ctx, first) (by simp)) hlt,
          hcut]
        constructor
        · rintro rfl
          omega
        · rintro ⟨_, _, _, heq, hge⟩
          obtain ⟨hcall, -⟩ := List.cons.inj heq
          obtain ⟨-, rfl⟩ := Prod.mk.inj hcall
          omega
      · exact ⟨fun _ => ⟨ctx, first, rest, rfl, hge⟩,
          fun _ => hs.processAll_eq ctx first rest hcut hge⟩

/-- A CONTINUE frame with one byte of content. -/
def oneByteFrame : VisionFrame := ⟨0x00, [0xAA], [], by decide, by decide⟩

/-- That frame behind the zero UUID. -/
def oneByteStream : Bytes := List.replicate 16 0 ++ oneByteFrame.bytes

theorem oneByteStream_stream : VisionStream (List.Vector.replicate 16 0) oneByteStream [0xAA] :=
  ⟨true, oneByteFrame.bytes ++ [], .continue oneByteFrame rfl .nil, rfl⟩

theorem oneByteStream_unpadded :
    (VisionReader.new (List.Vector.replicate 16 0)).processAll
      [({}, oneByteStream.take 21), ({}, oneByteStream.drop 21)] = [0xAA] :=
  (processAll_eq_payload_iff oneByteStream_stream
    [({}, oneByteStream.take 21), ({}, oneByteStream.drop 21)] (by decide) (by decide)).2
    ⟨{}, _, _, rfl, by decide⟩

/-- Cut one byte earlier, the same stream comes out padding and all. -/
theorem unpadding_depends_on_cut :
    ¬ ∀ (uuid : Uuid) (s payload : Bytes), VisionStream uuid s payload →
      ∀ calls : List (VisionContext × Bytes), (∀ call ∈ calls, call.2 ≠ []) →
        calls.flatMap Prod.snd = s → (VisionReader.new uuid).processAll calls = payload := by
  intro h
  have hbad := h _ _ _ oneByteStream_stream
    [({}, oneByteStream.take 20), ({}, oneByteStream.drop 20)] (by decide) (by decide)
  exact absurd hbad (by decide)

end Cppvless
