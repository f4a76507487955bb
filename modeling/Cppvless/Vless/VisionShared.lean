import Cppvless.Vless.VisionLimits

set_option autoImplicit false

/-! # The context the two directions share

`VisionReader::process` and `VisionWriter::process` are called by two coroutines, in any order, and
count down and set flags in one `VisionContext`. What one call can do to it is `Advances`; that the
flags imply one another is `Coherent`. How long the writer pads follows from the countdown: as long
as the target has not been seen to speak TLS 1.2 or above, each call with data takes one from it. -/

namespace Cppvless

/-! ## `filterTls` -/

namespace VisionWriter

/-- Whether the data starts like a TLS ServerHello record. -/
def StartsServerHello (data : Bytes) : Prop :=
  6 ≤ data.length ∧ data.take 3 = [0x16, 0x03, 0x03] ∧ data.getD 5 0 = 0x02

instance (data : Bytes) : Decidable (StartsServerHello data) := by
  unfold StartsServerHello
  infer_instance

/-- The size of the record a ServerHello announces, with its header. -/
def announcedSize (data : Bytes) : Nat :=
  ((data.getD 3 0).toNat <<< 8 ||| (data.getD 4 0).toNat) + 5

/-- The cipher suite that `filterTls` takes from the start of the data, if it takes one. -/
def helloCipher (data : Bytes) : Option UInt16 :=
  let sessionIdLen := (data.getD 43 0).toNat
  if StartsServerHello data ∧ 79 ≤ data.length ∧ 79 ≤ announcedSize data ∧
      43 + sessionIdLen + 3 ≤ data.length then
    some (beUInt16 (data.getD (43 + sessionIdLen + 1) 0) (data.getD (43 + sessionIdLen + 2) 0))
  else none

/-- What `filterHello` does: a ServerHello says how much of it is to come and what has been agreed,
    a ClientHello only that there is TLS. -/
theorem filterHello_cases (ctx : VisionContext) (data : Bytes) :
    (StartsServerHello data ∧ filterHello ctx data =
      { ctx with
        remainingServerHello := announcedSize data
        isTLS12orAbove := true
        isTLS := true
        cipher := (helloCipher data).getD ctx.cipher }) ∨
    (¬StartsServerHello data ∧
      (filterHello ctx data = { ctx with isTLS := true } ∨ filterHello ctx data = ctx)) := by
  unfold filterHello
  by_cases hlen : 6 ≤ data.length
  · rw [if_pos hlen]
    by_cases hhello : data.take 3 = [0x16, 0x03, 0x03] ∧ data.getD 5 0 = 0x02
    · have hstarts : StartsServerHello data := ⟨hlen, hhello⟩
      left
      rw [if_pos hhello]
      refine ⟨hstarts, ?_⟩
      unfold helloCipher
      simp only [hstarts, true_and, announcedSize]
      split
      · next h => rw [if_pos ⟨h.1, by omega, h.2.2⟩]; simp
      · next h => rw [if_neg (fun h' => h ⟨h'.1, by omega, h'.2.2⟩)]; simp
    · right
      rw [if_neg hhello]
      refine ⟨fun h => hhello h.2, ?_⟩
      split
      · exact .inl rfl
      · exact .inr rfl
  · rw [if_neg hlen]
    exact .inr ⟨fun h => hlen h.1, .inr rfl⟩

/-- How much of a ServerHello is still to be scanned when the data has come. -/
def toScan (ctx : VisionContext) (data : Bytes) : Int :=
  if StartsServerHello data then announcedSize data else ctx.remainingServerHello

/-- The data holds the TLS 1.3 extension within what is to be scanned. -/
def FindsTls13 (ctx : VisionContext) (data : Bytes) : Prop :=
  0 < toScan ctx data ∧
    hasTls13SupportedVersions data (min (toScan ctx data).toNat data.length) = true

instance (ctx : VisionContext) (data : Bytes) : Decidable (FindsTls13 ctx data) := by
  unfold FindsTls13
  infer_instance

section FilterTls

variable (ctx : VisionContext) (data : Bytes)

theorem helloCipher_eq_none (h : ¬StartsServerHello data) : helloCipher data = none :=
  if_neg fun h' => h h'.1

theorem filterHello_packetsToFilter :
    (filterHello ctx data).packetsToFilter = ctx.packetsToFilter := by
  rcases filterHello_cases ctx data with ⟨-, h⟩ | ⟨-, h | h⟩ <;> rw [h]

theorem filterHello_enableXtls : (filterHello ctx data).enableXtls = ctx.enableXtls := by
  rcases filterHello_cases ctx data with ⟨-, h⟩ | ⟨-, h | h⟩ <;> rw [h]

theorem filterHello_cipher :
    (filterHello ctx data).cipher = (helloCipher data).getD ctx.cipher := by
  rcases filterHello_cases ctx data with ⟨-, h⟩ | ⟨hno, h | h⟩
  · rw [h]
  all_goals rw [h, helloCipher_eq_none data hno]; rfl

theorem filterHello_remainingServerHello :
    (filterHello ctx data).remainingServerHello = toScan ctx data := by
  unfold toScan
  rcases filterHello_cases ctx data with ⟨hhello, h⟩ | ⟨hno, h | h⟩
  · rw [h, if_pos hhello]
  all_goals rw [h, if_neg hno]

theorem filterHello_isTLS12orAbove : (filterHello ctx data).isTLS12orAbove = true ↔
    ctx.isTLS12orAbove = true ∨ StartsServerHello data := by
  rcases filterHello_cases ctx data with ⟨hhello, h⟩ | ⟨hno, h | h⟩
  · simp [h, hhello]
  all_goals simp [h, hno]

theorem filterHello_isTLS (h : ctx.isTLS = true ∨ StartsServerHello data) :
    (filterHello ctx data).isTLS = true := by
  rcases filterHello_cases ctx data with ⟨-, hctx⟩ | ⟨hno, hctx | hctx⟩
  · rw [hctx]
  · rw [hctx]
  · rw [hctx]
    exact h.resolve_right hno

/-- `filterTls` as far as it does more than `filterHello`. -/
theorem filterTls_cases :
    let hello := filterHello { ctx with packetsToFilter := ctx.packetsToFilter - 1 } data
    (FindsTls13 ctx data ∧ filterTls ctx data =
      { hello with
        remainingServerHello := toScan ctx data - data.length
        enableXtls := ctx.enableXtls || (helloCipher data).getD ctx.cipher ≠ 0x1305
        packetsToFilter := 0 }) ∨
    (¬FindsTls13 ctx data ∧ ∃ n, (n = 0 ∨ n = ctx.packetsToFilter - 1) ∧ filterTls ctx data =
      { hello with
        remainingServerHello := (filterTls ctx data).remainingServerHello
        packetsToFilter := n }) := by
  intro hello
  have hremaining : hello.remainingServerHello = toScan ctx data :=
    filterHello_remainingServerHello _ _
  have hcipher : hello.cipher = (helloCipher data).getD ctx.cipher := filterHello_cipher _ _
  have hxtls : hello.enableXtls = ctx.enableXtls := filterHello_enableXtls _ _
  have hcount : hello.packetsToFilter = ctx.packetsToFilter - 1 := filterHello_packetsToFilter _ _
  have hunfold : filterTls ctx data =
      if 0 < hello.remainingServerHello then
        if hasTls13SupportedVersions data
            (min hello.remainingServerHello.toNat data.length) then
          { hello with
            remainingServerHello := hello.remainingServerHello - data.length
            enableXtls := hello.enableXtls || hello.cipher ≠ 0x1305
            packetsToFilter := 0 }
        else if hello.remainingServerHello - data.length ≤ 0 then
          { hello with
            remainingServerHello := hello.remainingServerHello - data.length
            packetsToFilter := 0 }
        else { hello with remainingServerHello := hello.remainingServerHello - data.length }
      else hello := rfl
  rw [hunfold, hremaining]
  by_cases hscan : 0 < toScan ctx data
  · rw [if_pos hscan]
    by_cases hfound : hasTls13SupportedVersions data
        (min (toScan ctx data).toNat data.length) = true
    · rw [if_pos hfound, hxtls, hcipher]
      exact .inl ⟨⟨hscan, hfound⟩, rfl⟩
    · rw [if_neg hfound]
      right
      refine ⟨fun h => hfound h.2, ?_⟩
      split
      · exact ⟨0, .inl rfl, rfl⟩
      · exact ⟨_, .inr hcount, rfl⟩
  · rw [if_neg hscan]
    exact .inr ⟨fun h => hscan h.1, _, .inr hcount, rfl⟩

theorem filterTls_packetsToFilter : (filterTls ctx data).packetsToFilter = 0 ∨
    (filterTls ctx data).packetsToFilter = ctx.packetsToFilter - 1 := by
  rcases filterTls_cases ctx data with ⟨-, h⟩ | ⟨-, n, hn, h⟩
  · rw [h]
    exact .inl rfl
  · rw [h]
    exact hn

theorem filterTls_cipher : (filterTls ctx data).cipher = (helloCipher data).getD ctx.cipher := by
  rcases filterTls_cases ctx data with ⟨-, h⟩ | ⟨-, n, -, h⟩
  all_goals rw [h]; exact filterHello_cipher _ _

theorem filterTls_isTLS12orAbove : (filterTls ctx data).isTLS12orAbove = true ↔
    ctx.isTLS12orAbove = true ∨ StartsServerHello data := by
  rcases filterTls_cases ctx data with ⟨-, h⟩ | ⟨-, n, -, h⟩
  all_goals rw [h]; exact filterHello_isTLS12orAbove _ _

theorem filterTls_isTLS (h : ctx.isTLS = true ∨ StartsServerHello data) :
    (filterTls ctx data).isTLS = true := by
  rcases filterTls_cases ctx data with ⟨-, hctx⟩ | ⟨-, n, -, hctx⟩
  all_goals rw [hctx]; exact filterHello_isTLS _ _ h

/-- Direct copy is enabled when TLS 1.3 is found with a cipher suite that is not excluded. -/
theorem filterTls_enableXtls : (filterTls ctx data).enableXtls = true ↔
    ctx.enableXtls = true ∨ FindsTls13 ctx data ∧ (helloCipher data).getD ctx.cipher ≠ 0x1305 := by
  rcases filterTls_cases ctx data with ⟨hfinds, h⟩ | ⟨hno, n, -, h⟩
  · rw [h]
    simp [hfinds]
  · rw [h]
    simp [hno, filterHello_enableXtls]

theorem filterTls_remainingServerHello (h : 0 < (filterTls ctx data).remainingServerHello) :
    0 < toScan ctx data := by
  by_contra hno
  have heq : filterTls ctx data =
      filterHello { ctx with packetsToFilter := ctx.packetsToFilter - 1 } data := by
    unfold filterTls
    dsimp only
    rw [if_neg]
    rwa [filterHello_remainingServerHello]
  rw [heq, filterHello_remainingServerHello] at h
  exact hno h

end FilterTls

/-! ## Its accesses -/

/-- `filterHello` with every access to the data checked. -/
def filterHelloChecked (ctx : VisionContext) (data : Bytes) : Except Exn VisionContext := do
  if 6 ≤ data.length then
    let start ← Bytes.range data 0 3
    let handshakeType ← Bytes.index data 5
    if start.toList = [0x16, 0x03, 0x03] ∧ handshakeType = 0x02 then
      let hi ← Bytes.index data 3
      let lo ← Bytes.index data 4
      let ctx :=
        { ctx with
          remainingServerHello := (hi.toNat <<< 8 ||| lo.toNat : Nat) + 5
          isTLS12orAbove := true
          isTLS := true }
      if 79 ≤ data.length ∧ 79 ≤ ctx.remainingServerHello then
        let sessionIdLen ← Bytes.index data 43
        if 43 + sessionIdLen.toNat + 3 ≤ data.length then
          let hi ← Bytes.index data (43 + sessionIdLen.toNat + 1)
          let lo ← Bytes.index data (43 + sessionIdLen.toNat + 2)
          return { ctx with cipher := beUInt16 hi lo }
        else return ctx
      else return ctx
    else
      let start ← Bytes.range data 0 2
      if start.toList = [0x16, 0x03] ∧ handshakeType = 0x01 then return { ctx with isTLS := true }
      else return ctx
  else return ctx

/-- `filterTls` with every access to the data checked. -/
def filterTlsChecked (ctx : VisionContext) (data : Bytes) : Except Exn VisionContext := do
  let ctx ← filterHelloChecked { ctx with packetsToFilter := ctx.packetsToFilter - 1 } data
  if 0 < ctx.remainingServerHello then
    let stop := min ctx.remainingServerHello.toNat data.length
    let ctx := { ctx with remainingServerHello := ctx.remainingServerHello - data.length }
    let found ← (List.range (stop + 1 - 6)).anyM fun i => do
      let bytes ← Bytes.range data i 6
      return bytes.toList = [0x00, 0x2b, 0x00, 0x02, 0x03, 0x04]
    if found then
      return { ctx with
        enableXtls := ctx.enableXtls || ctx.cipher ≠ 0x1305
        packetsToFilter := 0 }
    else if ctx.remainingServerHello ≤ 0 then return { ctx with packetsToFilter := 0 }
    else return ctx
  else return ctx

theorem filterHelloChecked_eq (ctx : VisionContext) (data : Bytes) :
    filterHelloChecked ctx data = .ok (filterHello ctx data) := by
  unfold filterHelloChecked filterHello
  by_cases hlen : 6 ≤ data.length
  · rw [if_pos hlen, if_pos hlen, Bytes.range_eq (by omega), Bytes.index_eq (by omega)]
    simp only [bind, Except.bind, List.Vector.toList, List.drop_zero]
    by_cases hhello : data.take 3 = [0x16, 0x03, 0x03] ∧ data.getD 5 0 = 0x02
    · rw [if_pos hhello, if_pos hhello, Bytes.index_eq (by omega), Bytes.index_eq (by omega)]
      dsimp only
      generalize (((data.getD 3 0).toNat <<< 8 ||| (data.getD 4 0).toNat : Nat) + 5 : Int) = size
      by_cases hlong : 79 ≤ data.length ∧ 79 ≤ size
      · rw [if_pos hlong, Bytes.index_eq (by omega)]
        dsimp only
        by_cases hcipher : 43 + (data.getD 43 0).toNat + 3 ≤ data.length
        · rw [if_pos hcipher, if_pos ⟨hlong.1, hlong.2, hcipher⟩, Bytes.index_eq (by omega),
            Bytes.index_eq (by omega)]
          rfl
        · rw [if_neg hcipher, if_neg fun h => hcipher h.2.2]
          rfl
      · rw [if_neg hlong, if_neg fun h => hlong ⟨h.1, h.2.1⟩]
        rfl
    · rw [if_neg hhello, if_neg hhello, Bytes.range_eq (by omega)]
      simp only [isClientHello, Bool.and_eq_true, decide_eq_true_eq, List.drop_zero]
      split <;> rfl
  · rw [if_neg hlen, if_neg hlen]
    rfl

theorem anyM_ok {α : Type} {l : List α} {f : α → Except Exn Bool} {g : α → Bool}
    (h : ∀ a ∈ l, f a = .ok (g a)) : l.anyM f = .ok (l.any g) := by
  induction l with
  | nil => rfl
  | cons a l ih =>
      rw [List.anyM, h a List.mem_cons_self, List.any_cons]
      cases hg : g a with
      | true => rfl
      | false => exact ih fun b hb => h b (List.mem_cons_of_mem a hb)

/-- **Every access of `filterTls` is inside the data.** -/
theorem filterTlsChecked_eq (ctx : VisionContext) (data : Bytes) :
    filterTlsChecked ctx data = .ok (filterTls ctx data) := by
  unfold filterTlsChecked filterTls
  rw [filterHelloChecked_eq]
  generalize filterHello { ctx with packetsToFilter := ctx.packetsToFilter - 1 } data = hello
  simp only [bind, Except.bind]
  by_cases hscan : 0 < hello.remainingServerHello
  · rw [if_pos hscan, if_pos hscan]
    -- the loop stops before the end of what it scans
    rw [anyM_ok (g := fun i =>
      decide ((data.drop i).take 6 = [0x00, 0x2b, 0x00, 0x02, 0x03, 0x04]))]
    · rw [← hasTls13SupportedVersions]
      dsimp only
      split
      · rfl
      · split <;> rfl
    · intro i hi
      rw [List.mem_range] at hi
      rw [Bytes.range_eq (by omega)]
      rfl
  · rw [if_neg hscan, if_neg hscan]
    rfl

end VisionWriter

/-! ## The context -/

namespace VisionContext

/-- What one call can do to the context. -/
structure Advances (ctx ctx' : VisionContext) : Prop where
  packetsToFilter : ctx'.packetsToFilter ≤ ctx.packetsToFilter
  isTLS : ctx.isTLS = true → ctx'.isTLS = true
  isTLS12orAbove : ctx.isTLS12orAbove = true → ctx'.isTLS12orAbove = true
  enableXtls : ctx.enableXtls = true → ctx'.enableXtls = true

/-- What holds of the context at all times. A ServerHello is scanned only after it has been seen to
    start, which is what makes the flags imply one another. -/
structure Coherent (ctx : VisionContext) : Prop where
  nonneg : 0 ≤ ctx.packetsToFilter
  le : ctx.packetsToFilter ≤ 8
  scanning : 0 < ctx.remainingServerHello → ctx.isTLS12orAbove = true
  isTLS : ctx.isTLS12orAbove = true → ctx.isTLS = true
  isTLS12orAbove : ctx.enableXtls = true → ctx.isTLS12orAbove = true

theorem Advances.refl (ctx : VisionContext) : ctx.Advances ctx := ⟨le_rfl, id, id, id⟩

theorem new_coherent : ({} : VisionContext).Coherent :=
  ⟨by decide, by decide, by decide, nofun, nofun⟩

theorem detectTls_advances (ctx : VisionContext) (output : Bytes) :
    ctx.Advances (VisionReader.detectTls ctx output) := by
  unfold VisionReader.detectTls
  split
  · exact ⟨by simp only; omega, fun h => by simp [h], id, id⟩
  · exact .refl ctx

theorem Coherent.detectTls {ctx : VisionContext} (h : ctx.Coherent) (output : Bytes) :
    (VisionReader.detectTls ctx output).Coherent := by
  have hle := h.le
  unfold VisionReader.detectTls
  split
  · next hcount =>
      exact ⟨by simp only; omega, by simp only; omega, h.scanning,
        fun h12 => by simp [h.isTLS h12], h.isTLS12orAbove⟩
  · exact h

theorem detectTls_isTLS12orAbove (ctx : VisionContext) (output : Bytes) :
    (VisionReader.detectTls ctx output).isTLS12orAbove = ctx.isTLS12orAbove := by
  unfold VisionReader.detectTls
  split <;> rfl

theorem filterTls_advances {ctx : VisionContext} (hcount : 0 < ctx.packetsToFilter) (data : Bytes) :
    ctx.Advances (VisionWriter.filterTls ctx data) := by
  have hnext := VisionWriter.filterTls_packetsToFilter ctx data
  exact ⟨by omega, fun h => VisionWriter.filterTls_isTLS ctx data (.inl h),
    fun h => (VisionWriter.filterTls_isTLS12orAbove ctx data).2 (.inl h),
    fun h => (VisionWriter.filterTls_enableXtls ctx data).2 (.inl h)⟩

theorem Coherent.filterTls {ctx : VisionContext} (h : ctx.Coherent)
    (hcount : 0 < ctx.packetsToFilter) (data : Bytes) :
    (VisionWriter.filterTls ctx data).Coherent := by
  have hnext := VisionWriter.filterTls_packetsToFilter ctx data
  have hle := h.le
  have hagreed : 0 < VisionWriter.toScan ctx data →
      (VisionWriter.filterTls ctx data).isTLS12orAbove = true := by
    intro hscan
    rw [VisionWriter.filterTls_isTLS12orAbove]
    unfold VisionWriter.toScan at hscan
    split at hscan
    · next hstarts => exact .inr hstarts
    · exact .inl (h.scanning hscan)
  constructor
  case nonneg => omega
  case le => omega
  case scanning =>
    intro hscan
    exact hagreed (VisionWriter.filterTls_remainingServerHello ctx data hscan)
  case isTLS =>
    intro h12
    apply VisionWriter.filterTls_isTLS
    exact ((VisionWriter.filterTls_isTLS12orAbove ctx data).1 h12).imp_left h.isTLS
  case isTLS12orAbove =>
    intro hxtls
    rcases (VisionWriter.filterTls_enableXtls ctx data).1 hxtls with hxtls | ⟨hfinds, -⟩
    · exact (VisionWriter.filterTls_isTLS12orAbove ctx data).2 (.inl (h.isTLS12orAbove hxtls))
    · exact hagreed hfinds.1

end VisionContext

/-! ## The calls of the two directions -/

/-- The two directions of a connection and the context they share. -/
structure Vision where
  reader : VisionReader
  writer : VisionWriter
  ctx : VisionContext := {}

/-- A call of `VisionReader::process` or of `VisionWriter::process`. -/
inductive VisionCall
  | uplink (data : Bytes)
  | downlink (draws : Draws) (data : Bytes)

def VisionCall.data : VisionCall → Bytes
  | uplink data => data
  | downlink _ data => data

namespace Vision

def new (uuid : Uuid) : Vision := { reader := .new uuid, writer := .new uuid }

/-- The output of a call and what it leaves. -/
def call (v : Vision) : VisionCall → Bytes × Vision
  | .uplink data =>
      let next := v.reader.process v.ctx data
      (next.1, { v with reader := next.2.1, ctx := next.2.2 })
  | .downlink draws data =>
      let next := v.writer.process draws v.ctx data
      (next.1, { v with writer := next.2.1, ctx := next.2.2 })

def run (v : Vision) : List VisionCall → Vision
  | [] => v
  | call :: calls => (v.call call).2.run calls

theorem run_append (v : Vision) (before after : List VisionCall) :
    v.run (before ++ after) = (v.run before).run after := by
  induction before generalizing v with
  | nil => rfl
  | cons call before ih => exact ih _

/-- Whether the writer filters the data of a call. -/
def Filters (v : Vision) (data : Bytes) : Prop :=
  data ≠ [] ∧ v.writer.directCopy = false ∧ 0 < v.ctx.packetsToFilter

instance (v : Vision) (data : Bytes) : Decidable (v.Filters data) := by
  unfold Filters
  infer_instance

/-- The context after a call. -/
theorem call_ctx (v : Vision) (call : VisionCall) :
    match call with
    | .uplink _ => (v.call call).2.ctx = v.ctx ∨
        ∃ output, (v.call call).2.ctx = VisionReader.detectTls v.ctx output
    | .downlink _ data => (v.call call).2.ctx =
        if v.Filters data then VisionWriter.filterTls v.ctx data else v.ctx := by
  cases call with
  | uplink data =>
      simp only [Vision.call, VisionReader.process]
      split_ifs
      · exact .inl rfl
      · exact .inl rfl
      · exact .inl rfl
      · exact .inr ⟨_, rfl⟩
      · exact .inl rfl
      · exact .inr ⟨_, rfl⟩
  | downlink draws data => exact VisionWriter.process_ctx draws v.writer v.ctx data

theorem call_advances {v : Vision} (h : v.ctx.Coherent) (call : VisionCall) :
    v.ctx.Advances (v.call call).2.ctx ∧ (v.call call).2.ctx.Coherent := by
  have hctx := v.call_ctx call
  cases call with
  | uplink data =>
      rcases hctx with hctx | ⟨output, hctx⟩
      · rw [hctx]
        exact ⟨.refl _, h⟩
      · rw [hctx]
        exact ⟨VisionContext.detectTls_advances _ output, h.detectTls output⟩
  | downlink draws data =>
      simp only at hctx
      rw [hctx]
      split
      · next hfilters =>
          exact ⟨VisionContext.filterTls_advances hfilters.2.2 data, h.filterTls hfilters.2.2 data⟩
      · exact ⟨.refl _, h⟩

theorem run_coherent {v : Vision} (h : v.ctx.Coherent) (calls : List VisionCall) :
    (v.run calls).ctx.Coherent := by
  induction calls generalizing v with
  | nil => exact h
  | cons call calls ih => exact ih (call_advances h call).2

/-! ## When the padding ends -/

/-- What a call of the writer has made of its data, and the command if it is a frame. -/
structure Emission where
  command : Option UInt8
  data : Bytes
  output : Bytes
  deriving DecidableEq

/-- The command in the frame that `w` has put out, behind the UUID if it is the first. -/
def frameCommand (w : VisionWriter) (output : Bytes) : Option UInt8 :=
  if w.isPadding then output[if w.uuidWritten then 0 else 16]? else none

/-- What the calls of the writer make of their data. -/
def emissions (v : Vision) : List VisionCall → List Emission
  | [] => []
  | .uplink data :: calls => (v.call (.uplink data)).2.emissions calls
  | .downlink draws data :: calls =>
      let next := v.call (.downlink draws data)
      ⟨frameCommand v.writer next.1, data, next.1⟩ :: next.2.emissions calls

theorem padding_command (draws : Draws) (w : VisionWriter) (data : Bytes) (command : UInt8)
    (longPadding : Bool) :
    (w.padding draws data command longPadding).1[if w.uuidWritten then 0 else 16]? =
      some command := by
  rw [VisionWriter.padding_eq]
  have hlen := w.uuid.toList_length
  split
  · rfl
  · rw [List.getElem?_append_right (by omega), hlen]
    rfl

/-- The command of the frame that a call of the padding writer puts out. -/
theorem frameCommand_process {draws : Draws} {w w' : VisionWriter} {data output : Bytes}
    {command : UInt8} {longPadding : Bool} (hpadding : w.isPadding = true)
    (hwritten : w'.uuidWritten = w.uuidWritten)
    (h : output = (w'.padding draws data command longPadding).1) :
    frameCommand w output = some command := by
  rw [frameCommand, if_pos hpadding, h, ← hwritten]
  exact padding_command draws w' data command longPadding

/-- A frame with END or DIRECT. -/
def Emission.Ends (e : Emission) : Prop :=
  e.command = some visionCmdEnd ∨ e.command = some visionCmdDirect

/-- The padding is over and the calls pass on their data. -/
theorem emissions_stopped (calls : List VisionCall) :
    ∀ {v : Vision}, v.writer.isPadding = false → ∀ e ∈ v.emissions calls, e.output = e.data := by
  induction calls with
  | nil => exact fun _ _ he => nomatch he
  | cons call calls ih =>
      intro v hpadding
      cases call with
      | uplink data => exact ih (v := (v.call (.uplink data)).2) hpadding
      | downlink draws data =>
          have hstopped := VisionWriter.process_stopped draws v.ctx data hpadding
          intro e he
          rcases List.mem_cons.1 he with rfl | he
          · exact hstopped.1
          · exact ih (v := (v.call (.downlink draws data)).2) hstopped.2 e he

/-- The writer pads and has at most `left` more calls to do so, unless TLS 1.2 is seen. -/
structure Padding (left : Nat) (v : Vision) : Prop where
  isPadding : v.writer.isPadding = true
  directCopy : v.writer.directCopy = false
  isTLS12orAbove : v.ctx.isTLS12orAbove = false
  count : v.ctx.packetsToFilter ≤ left + 1
  left_pos : 1 ≤ left

theorem new_padding (uuid : Uuid) : (new uuid).Padding 7 :=
  ⟨rfl, rfl, rfl, by simp [new], by decide⟩

theorem Padding.uplink {left : Nat} {v : Vision} (h : v.Padding left) (data : Bytes) :
    (v.call (.uplink data)).2.Padding left := by
  have hcount := h.count
  rcases v.call_ctx (.uplink data) with hctx | ⟨output, hctx⟩
  · exact ⟨h.isPadding, h.directCopy, by rw [hctx, h.isTLS12orAbove], by rw [hctx]; exact hcount,
      h.left_pos⟩
  · have hdetect := (VisionContext.detectTls_advances v.ctx output).packetsToFilter
    have h12 := VisionContext.detectTls_isTLS12orAbove v.ctx output
    exact ⟨h.isPadding, h.directCopy, by rw [hctx, h12, h.isTLS12orAbove], by rw [hctx]; omega,
      h.left_pos⟩

/-- A call of the writer ends the padding or leaves it one call less. -/
theorem Padding.downlink {left : Nat} {v : Vision} (h : v.Padding left) (draws : Draws)
    {data : Bytes} (hne : data ≠ []) (hhello : ¬VisionWriter.StartsServerHello data) :
    let next := v.call (.downlink draws data)
    (next.2.writer.isPadding = false ∧
      Emission.Ends ⟨frameCommand v.writer next.1, data, next.1⟩) ∨
    (2 ≤ left ∧ next.2.Padding (left - 1)) := by
  intro next
  have hcount := h.count
  have hpos := h.left_pos
  have hctx : next.2.ctx = if v.Filters data then VisionWriter.filterTls v.ctx data else v.ctx :=
    v.call_ctx (.downlink draws data)
  have h12 : next.2.ctx.isTLS12orAbove = false := by
    rw [hctx]
    split
    · rw [← Bool.not_eq_true, VisionWriter.filterTls_isTLS12orAbove]
      simp [h.isTLS12orAbove, hhello]
    · exact h.isTLS12orAbove
  have hless : next.2.ctx.packetsToFilter ≤ left := by
    rw [hctx]
    split
    · have := VisionWriter.filterTls_packetsToFilter v.ctx data
      omega
    · next hno =>
        have : ¬0 < v.ctx.packetsToFilter := fun hlt => hno ⟨hne, h.directCopy, hlt⟩
        omega
  obtain ⟨w', command, longPadding, huuid, hwritten, hout, hwriter, hcases⟩ :=
    VisionWriter.process_cases draws v.ctx hne h.isPadding h.directCopy
  have hcommand : frameCommand v.writer next.1 = some command :=
    frameCommand_process h.isPadding hwritten hout
  have hwriter' : next.2.writer = { w' with uuidWritten := true } := hwriter
  rcases hcases with ⟨rfl, -, hstop⟩ | ⟨rfl, hstop⟩ | ⟨rfl, rfl, hmore⟩
  · exact .inl ⟨by rw [hwriter']; exact hstop, .inr hcommand⟩
  · exact .inl ⟨by rw [hwriter']; exact hstop, .inl hcommand⟩
  · right
    have hmore' : next.2.ctx.isTLS12orAbove = true ∨ 1 < next.2.ctx.packetsToFilter := hmore
    have hleft : 1 < next.2.ctx.packetsToFilter := hmore'.resolve_left (by simp [h12])
    exact ⟨by omega, by rw [hwriter']; exact h.isPadding, by rw [hwriter']; exact h.directCopy, h12,
      by omega, by omega⟩

/-- **The padding ends within the calls that are left**, if none of them starts like a
    ServerHello. -/
theorem Padding.ends {left : Nat} {v : Vision} (h : v.Padding left) (calls : List VisionCall)
    (hne : ∀ call ∈ calls, call.data ≠ [])
    (hcalls : left ≤ (v.emissions calls).length)
    (hhello : ∀ e ∈ (v.emissions calls).take left, ¬VisionWriter.StartsServerHello e.data) :
    ∃ before e after, v.emissions calls = before ++ e :: after ∧ before.length < left ∧ e.Ends ∧
      ∀ e' ∈ after, e'.output = e'.data := by
  induction calls generalizing v left with
  | nil =>
      have hpos := h.left_pos
      simp only [emissions, List.length_nil] at hcalls
      omega
  | cons call calls ih =>
      have hne' : ∀ call ∈ calls, call.data ≠ [] := fun c hc => hne c (List.mem_cons_of_mem _ hc)
      cases call with
      | uplink data => exact ih (h.uplink data) hne' hcalls hhello
      | downlink draws data =>
          obtain ⟨left, rfl⟩ : ∃ n, left = n + 1 := ⟨left - 1, by have := h.left_pos; omega⟩
          simp only [emissions, List.length_cons, List.take_succ_cons, List.forall_mem_cons]
            at hcalls hhello
          have hdata : data ≠ [] := hne _ List.mem_cons_self
          rcases h.downlink draws hdata hhello.1 with ⟨hstop, hends⟩ | ⟨htwo, hnext⟩
          · exact ⟨[], _, _, rfl, by simp, hends, emissions_stopped calls hstop⟩
          · obtain ⟨before, e, after, heq, hlen, hends, hafter⟩ :=
              ih hnext hne' (by omega) hhello.2
            exact ⟨_ :: before, e, after, congrArg _ heq, by simp; omega, hends, hafter⟩

/-- **The shared context over all interleavings**: every call keeps the countdown between 0 and 8
    and never turns it up, no flag goes back, the flags imply one another, `filterTls` stays inside
    the data; and the padding ends by the seventh call of the writer unless one of these starts like
    a ServerHello. -/
theorem shared_context (uuid : Uuid) (calls : List VisionCall)
    (hne : ∀ call ∈ calls, call.data ≠ []) :
    (∀ before call after, calls = before ++ call :: after →
      let v := (new uuid).run before
      let v' := (v.call call).2
      (0 ≤ v'.ctx.packetsToFilter ∧ v'.ctx.packetsToFilter ≤ v.ctx.packetsToFilter ∧
        v.ctx.packetsToFilter ≤ 8) ∧
      (v.ctx.isTLS = true → v'.ctx.isTLS = true) ∧
      (v.ctx.isTLS12orAbove = true → v'.ctx.isTLS12orAbove = true) ∧
      (v.ctx.enableXtls = true → v'.ctx.enableXtls = true) ∧
      (v'.ctx.enableXtls = true → v'.ctx.isTLS12orAbove = true) ∧
      (v'.ctx.isTLS12orAbove = true → v'.ctx.isTLS = true) ∧
      VisionWriter.filterTlsChecked v.ctx call.data =
        .ok (VisionWriter.filterTls v.ctx call.data)) ∧
    (7 ≤ ((new uuid).emissions calls).length →
      (∀ e ∈ ((new uuid).emissions calls).take 7, ¬VisionWriter.StartsServerHello e.data) →
      ∃ before e after, (new uuid).emissions calls = before ++ e :: after ∧ before.length < 7 ∧
        e.Ends ∧ ∀ e' ∈ after, e'.output = e'.data) := by
  constructor
  · intro before call after _ v v'
    have hv : v.ctx.Coherent := run_coherent VisionContext.new_coherent before
    obtain ⟨hstep, hv'⟩ := call_advances hv call
    exact ⟨⟨hv'.nonneg, hstep.packetsToFilter, hv.le⟩, hstep.isTLS, hstep.isTLS12orAbove,
      hstep.enableXtls, hv'.isTLS12orAbove, hv'.isTLS,
      VisionWriter.filterTlsChecked_eq v.ctx call.data⟩
  · intro hcalls hhello
    exact (new_padding uuid).ends calls hne hcalls hhello

def sampleCalls : List VisionCall :=
  .uplink [0x16, 0x03] :: List.replicate 8 (.downlink VisionWriter.zeroDraws [0x48, 0x69])

theorem shared_context_sample : ∃ before e after,
    (new VisionWriter.sampleUuid).emissions sampleCalls = before ++ e :: after ∧
      before.length < 7 ∧ e.Ends ∧ ∀ e' ∈ after, e'.output = e'.data :=
  (shared_context VisionWriter.sampleUuid sampleCalls (by decide)).2 (by decide +kernel)
    (by decide +kernel)

end Vision

end Cppvless
