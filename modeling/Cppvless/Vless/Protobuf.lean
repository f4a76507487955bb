import Cppvless.Vless.Decoder

set_option autoImplicit false

/-! # The addons as a protobuf message

Lists of protobuf fields in their standard encoding, and the payloads that are no such message.
`Decoder::parseAddons` reads the first back and refuses the second. `addonsLoop` is its loop with
the subtraction and the ranges as they are written, for a given number of rounds; a payload of `n`
bytes is done in at most `n` of them, and no access leaves it. -/

namespace Cppvless

/-! ## The standard encoding -/

/-- The base-128 digits of a number, the lowest first. -/
def encodeVarint (n : Nat) : Bytes :=
  if n < 128 then [n.toUInt8] else (n % 128 + 128).toUInt8 :: encodeVarint (n / 128)

theorem encodeVarint_of_lt {n : Nat} (h : n < 128) : encodeVarint n = [n.toUInt8] := by
  rw [encodeVarint, if_pos h]

theorem encodeVarint_of_ge {n : Nat} (h : ¬ n < 128) :
    encodeVarint n = (n % 128 + 128).toUInt8 :: encodeVarint (n / 128) := by
  rw [encodeVarint, if_neg h]

theorem toUInt8_toNat {n : Nat} (h : n < 256) : n.toUInt8.toNat = n := by
  rw [Nat.toUInt8_eq, UInt8.toNat_ofNat']
  omega

theorem encodeVarint_digits (n : Nat) : Digits (encodeVarint n) n := by
  induction n using Nat.strongRecOn with
  | ind n ih =>
      by_cases h : n < 128
      · rw [encodeVarint_of_lt h]
        have hb := Digits.last n.toUInt8 (by rw [toUInt8_toNat (by omega)]; exact h)
        rwa [toUInt8_toNat (by omega)] at hb
      · rw [encodeVarint_of_ge h]
        have hb := Digits.more (n % 128 + 128).toUInt8 _ _
          (by rw [toUInt8_toNat (by omega)]; omega) (ih (n / 128) (by omega))
        rw [toUInt8_toNat (by omega)] at hb
        have hn : (n % 128 + 128) % 128 + 128 * (n / 128) = n := by omega
        rwa [hn] at hb

/-- A number below `128 ^ (k + 1)` takes at most `k + 1` bytes. -/
theorem encodeVarint_length_le (k : Nat) {n : Nat} (h : n < 128 ^ (k + 1)) :
    (encodeVarint n).length ≤ k + 1 := by
  induction k generalizing n with
  | zero => rw [encodeVarint_of_lt (by simpa using h)]; rfl
  | succ k ih =>
      by_cases hlt : n < 128
      · rw [encodeVarint_of_lt hlt, List.length_singleton]
        omega
      · have hdiv : n / 128 < 128 ^ (k + 1) := by
          rw [Nat.div_lt_iff_lt_mul (by omega), ← Nat.pow_succ]
          exact h
        rw [encodeVarint_of_ge hlt, List.length_cons]
        exact Nat.succ_le_succ (ih hdiv)

/-- The encoding of a 64-bit number is a varint of that number. -/
theorem encodeVarint_varint {n : Nat} (h : n < 2 ^ 64) : Varint (encodeVarint n) n.toUInt64 := by
  refine ⟨n, encodeVarint_digits n, encodeVarint_length_le 9 (by omega), ?_⟩
  rw [Nat.toUInt64_eq, UInt64.toNat_ofNat']

/-- The value of a field: of wire type 0 or 2. -/
inductive FieldValue
  | varint (v : UInt64)
  | bytes (value : Bytes)
  deriving DecidableEq

/-- A protobuf field. -/
structure Field where
  number : Nat
  value : FieldValue
  number_lt : number < 2 ^ 61

namespace Field

/-- The number with the wire type in its three low bits. -/
def tag (f : Field) : Nat :=
  match f.value with
  | .varint _ => 8 * f.number
  | .bytes _ => 8 * f.number + 2

def encode (f : Field) : Bytes :=
  match f.value with
  | .varint v => encodeVarint f.tag ++ encodeVarint v.toNat
  | .bytes value => encodeVarint f.tag ++ encodeVarint value.length ++ value

/-- Number and value of a field that is a byte string. -/
def bytes? (f : Field) : Option (Nat × Bytes) :=
  match f.value with
  | .varint _ => none
  | .bytes value => some (f.number, value)

theorem tag_lt (f : Field) : f.tag < 2 ^ 64 := by
  have hlt := f.number_lt
  unfold tag
  cases f.value <;> simp only <;> omega

/-- The wire type and the number are read off the tag. -/
theorem tag_split (f : Field) :
    (f.tag.toUInt64 &&& 0x07).toNat = f.tag % 8 ∧ (f.tag.toUInt64 >>> 3).toNat = f.tag / 8 := by
  have hlt := f.tag_lt
  have htag : f.tag.toUInt64.toNat = f.tag := by
    rw [Nat.toUInt64_eq, UInt64.toNat_ofNat']
    omega
  constructor
  · rw [UInt64.toNat_and, htag]
    exact Nat.and_two_pow_sub_one_eq_mod f.tag 3
  · rw [UInt64.toNat_shiftRight, htag]
    exact Nat.shiftRight_eq_div_pow f.tag 3

end Field

def encodeFields (fs : List Field) : Bytes := fs.flatMap Field.encode

/-- The last value of the byte strings of field `number`. -/
def lastBytes (number : Nat) (fs : List Field) : Option Bytes :=
  ((fs.filterMap Field.bytes?).filter fun f => f.1 = number).getLast?.map Prod.snd

/-- An encoded list of fields is a message of its fields. -/
theorem encodeFields_fields (fs : List Field) (hlen : (encodeFields fs).length < 2 ^ 64) :
    Fields (encodeFields fs) (fs.filterMap Field.bytes?) := by
  induction fs with
  | nil => exact .nil
  | cons f fs ih =>
      have hcons : encodeFields (f :: fs) = f.encode ++ encodeFields fs := List.flatMap_cons
      rw [hcons, List.length_append] at hlen
      have hrest := ih (by omega)
      obtain ⟨hwire, hnumber⟩ := f.tag_split
      have htag := encodeVarint_varint f.tag_lt
      rw [hcons]
      cases hvalue : f.value with
      | varint v =>
          have htype : f.tag.toUInt64 &&& 0x07 = 0 := by
            apply UInt64.toNat_inj.1
            rw [hwire, Field.tag, hvalue]
            exact Nat.mul_mod_right 8 f.number
          have hv := encodeVarint_varint v.toNat_lt
          rw [Field.encode, hvalue, List.filterMap_cons_none (by rw [Field.bytes?, hvalue])]
          exact .varint htag htype hv hrest
      | bytes value =>
          have htype : f.tag.toUInt64 &&& 0x07 = 2 := by
            apply UInt64.toNat_inj.1
            rw [hwire, Field.tag, hvalue]
            show (8 * f.number + 2) % 8 = 2
            omega
          have hn : (f.tag.toUInt64 >>> 3).toNat = f.number := by
            rw [hnumber, Field.tag, hvalue]
            show (8 * f.number + 2) / 8 = f.number
            omega
          rw [Field.encode, hvalue, List.length_append, List.length_append] at hlen
          have hl : value.length.toUInt64.toNat = value.length := by
            rw [Nat.toUInt64_eq, UInt64.toNat_ofNat']
            omega
          rw [Field.encode, hvalue, List.filterMap_cons_some (by rw [Field.bytes?, hvalue]), ← hn]
          exact .lengthDelimited htag htype (encodeVarint_varint (by omega)) hl.symm hrest

theorem lookup_reverse (number : Nat) (fs : List (Nat × Bytes)) :
    fs.reverse.lookup number = (fs.filter fun f => f.1 = number).getLast?.map Prod.snd := by
  induction fs using List.reverseRecOn with
  | nil => rfl
  | append_singleton fs f ih =>
      obtain ⟨n, value⟩ := f
      rw [List.reverse_append, List.filter_append]
      by_cases h : n = number
      · subst h
        simp
      · have hne : (number == n) = false := by simpa using Ne.symm h
        simpa [List.lookup_cons, hne, h] using ih

/-! ## The loop round by round -/

/-- `a - b` of two sizes, which must not wrap around. -/
def sizeDifference (a b : Nat) : Except Exn Nat := if b ≤ a then .ok (a - b) else .error .outOfBounds

/-- A round of the loop of `parseAddons`. -/
def addonsRound (data : Bytes) (req : Request) (pos : Nat) : Except Exn (Request × Nat) := do
  let (tag, pos) ← decodeVarint data pos
  let fieldNum := tag >>> 3
  let wireType := tag &&& 0x07
  if wireType = 2 then do
    let (len64, pos) ← decodeVarint data pos
    let left ← sizeDifference data.length pos
    if left < len64.toNat then
      throw (.runtimeError "invalid addons length-delimited field")
    else
      let len := len64.toNat
      if fieldNum = 1 then do
        let value ← Bytes.range data pos len
        return ({ req with flow := value.toList }, pos + len)
      else if fieldNum = 2 then do
        let value ← Bytes.range data pos len
        return ({ req with seed := value.toList }, pos + len)
      else
        return (req, pos + len)
  else if wireType = 0 then do
    let (_, pos) ← decodeVarint data pos
    return (req, pos)
  else
    throw (.runtimeError "unsupported addons wire type")

/-- At most `rounds` rounds of that loop, and the position at its end; `none` when they do not
    suffice. -/
def addonsLoop (data : Bytes) : Nat → Request → Nat → Option (Except Exn (Request × Nat))
  | 0, _, _ => none
  | rounds + 1, req, pos =>
      if pos < data.length then
        match addonsRound data req pos with
        | .ok (req, pos) => addonsLoop data rounds req pos
        | .error e => some (.error e)
      else some (.ok (req, pos))

theorem setField_eq (req : Request) (number : UInt64) (value : Bytes) :
    req.setField (number.toNat, value) =
      if number = 1 then { req with flow := value }
      else if number = 2 then { req with seed := value }
      else req := by
  have h : ∀ n : UInt64, number.toNat = n.toNat ↔ number = n := fun n => UInt64.toNat_inj
  simp only [Request.setField, show (1 : Nat) = (1 : UInt64).toNat from rfl,
    show (2 : Nat) = (2 : UInt64).toNat from rfl, h]

/-- A round of `parseFields` is one of the loop: behind the varints the position is inside, and the
    check of the length covers the range. -/
theorem parseFields_round {data : Bytes} (req : Request) {pos : Nat} (hpos : pos < data.length) :
    parseFields data req pos =
      (addonsRound data req pos).bind fun r => parseFields data r.1 r.2 := by
  rw [parseFields, if_pos hpos]
  unfold addonsRound
  split
  · next e htag =>
      rw [htag]
      rfl
  · next tag pos₁ htag =>
      rw [htag]
      simp only [bind, Except.bind]
      by_cases htype : tag &&& 0x07 = 2
      · rw [if_pos htype, if_pos htype]
        split
        · next e hlen =>
            rw [hlen]
        · next len64 pos₂ hlen =>
            have hle := (decodeVarint_pos hlen).2
            by_cases hshort : data.length - pos₂ < len64.toNat
            · rw [dif_pos hshort]
              simp only [hlen, sizeDifference, if_pos hle, if_pos hshort]
              rfl
            · rw [dif_neg hshort, setField_eq]
              simp only [hlen, sizeDifference, if_pos hle, if_neg hshort,
                Bytes.range_eq (show pos₂ + len64.toNat ≤ data.length by omega)]
              by_cases h₁ : tag >>> 3 = 1
              · simp only [if_pos h₁]
                rfl
              · by_cases h₂ : tag >>> 3 = 2
                · simp only [if_neg h₁, if_pos h₂]
                  rfl
                · simp only [if_neg h₁, if_neg h₂]
                  rfl
      · rw [if_neg htype, if_neg htype]
        by_cases htype₀ : tag &&& 0x07 = 0
        · rw [if_pos htype₀, if_pos htype₀]
          split
          · next e hval => rw [hval]
          · next v pos₂ hval =>
              rw [hval]
              rfl
        · rw [if_neg htype₀, if_neg htype₀]
          rfl

/-- A round moves the position forward, and not beyond the end. -/
theorem addonsRound_pos {data : Bytes} {req req' : Request} {pos pos' : Nat}
    (h : addonsRound data req pos = .ok (req', pos')) : pos < pos' ∧ pos' ≤ data.length := by
  unfold addonsRound at h
  cases htag : decodeVarint data pos with
  | error e => simp [htag, bind, Except.bind] at h
  | ok r =>
      obtain ⟨tag, pos₁⟩ := r
      have h₁ := decodeVarint_pos htag
      cases hnext : decodeVarint data pos₁ with
      | error e =>
          simp only [htag, hnext, bind, Except.bind] at h
          split_ifs at h
      | ok r =>
          obtain ⟨v, pos₂⟩ := r
          have h₂ := decodeVarint_pos hnext
          simp only [htag, hnext, bind, Except.bind, sizeDifference, if_pos h₂.2] at h
          by_cases hshort : data.length - pos₂ < v.toNat
          · simp only [if_pos hshort] at h
            split_ifs at h
            cases h
            exact ⟨by omega, h₂.2⟩
          · simp only [if_neg hshort,
              Bytes.range_eq (show pos₂ + v.toNat ≤ data.length by omega)] at h
            split_ifs at h <;> cases h <;> omega

/-- A loop that starts inside the payload ends at its end, after at most one round for each byte
    that is left. -/
theorem addonsLoop_eq {data : Bytes} {rounds : Nat} (req : Request) {pos : Nat}
    (hpos : pos ≤ data.length) (hrounds : data.length - pos < rounds) :
    addonsLoop data rounds req pos =
      some ((parseFields data req pos).map fun req' => (req', data.length)) := by
  induction rounds generalizing req pos with
  | zero => omega
  | succ rounds ih =>
      rw [addonsLoop]
      by_cases hlt : pos < data.length
      · rw [if_pos hlt, parseFields_round req hlt]
        cases hround : addonsRound data req pos with
        | error e => rfl
        | ok r =>
            obtain ⟨req', pos'⟩ := r
            have hnext := addonsRound_pos hround
            exact ih req' hnext.2 (by omega)
      · obtain rfl : pos = data.length := by omega
        rw [if_neg hlt, parseFields, if_neg hlt]
        rfl

/-! ## Payloads that are no message -/

/-- `bs` does not begin with a varint: it is cut off by the end, or has no terminator within ten
    bytes. -/
def Unterminated (bs : Bytes) : Prop := ∀ b ∈ bs.take 10, 128 ≤ b.toNat

/-- Reading fields from left to right meets a varint or a byte string that is cut off, a varint
    without a terminator, or a wire type other than 0 and 2. -/
inductive Malformed : Bytes → Prop
  | afterVarint {tag val rest : Bytes} {t v : UInt64} (htag : Varint tag t)
      (htype : t &&& 0x07 = 0) (hval : Varint val v) (hrest : Malformed rest) :
      Malformed (tag ++ val ++ rest)
  | afterBytes {tag len value rest : Bytes} {t l : UInt64} (htag : Varint tag t)
      (htype : t &&& 0x07 = 2) (hlen : Varint len l) (hvalue : value.length = l.toNat)
      (hrest : Malformed rest) :
      Malformed (tag ++ len ++ value ++ rest)
  | tag {bs : Bytes} (hne : bs ≠ []) (h : Unterminated bs) : Malformed bs
  | wireType {tag rest : Bytes} {t : UInt64} (htag : Varint tag t) (h₀ : t &&& 0x07 ≠ 0)
      (h₂ : t &&& 0x07 ≠ 2) : Malformed (tag ++ rest)
  | value {tag rest : Bytes} {t : UInt64} (htag : Varint tag t) (htype : t &&& 0x07 = 0)
      (h : Unterminated rest) : Malformed (tag ++ rest)
  | length {tag rest : Bytes} {t : UInt64} (htag : Varint tag t) (htype : t &&& 0x07 = 2)
      (h : Unterminated rest) : Malformed (tag ++ rest)
  | bytes {tag len rest : Bytes} {t l : UInt64} (htag : Varint tag t) (htype : t &&& 0x07 = 2)
      (hlen : Varint len l) (h : rest.length < l.toNat) : Malformed (tag ++ len ++ rest)

/-- Digits all but the last of which have their top bit set end within the first ten bytes. -/
theorem Digits.terminated {bs : Bytes} {n : Nat} (h : Digits bs n) : ∃ b ∈ bs, b.toNat < 128 := by
  induction h with
  | last b hb => exact ⟨b, List.mem_singleton_self b, hb⟩
  | more b bs n _ _ ih =>
      obtain ⟨c, hc, hlt⟩ := ih
      exact ⟨c, List.mem_cons_of_mem b hc, hlt⟩

theorem Unterminated.not_varint {bs rest : Bytes} {v : UInt64} (h : Unterminated (bs ++ rest)) :
    ¬ Varint bs v := by
  rintro ⟨n, hdigits, hlen, -⟩
  obtain ⟨b, hb, hlt⟩ := hdigits.terminated
  have htake : b ∈ (bs ++ rest).take 10 := by
    rw [List.take_append]
    exact List.mem_append_left _ (by rwa [List.take_of_length_le hlen])
  have := h b htake
  omega

theorem Unterminated.decodeVarint {data : Bytes} {pos : Nat} (h : Unterminated (data.drop pos)) :
    ∃ e, decodeVarint data pos = .error e := by
  cases hdec : Cppvless.decodeVarint data pos with
  | error e => exact ⟨e, rfl⟩
  | ok r =>
      obtain ⟨v, p⟩ := r
      obtain ⟨bs, hv, hdrop, -⟩ := decodeVarint_eq_ok.1 hdec
      exact absurd hv (hdrop ▸ h).not_varint

/-- A round that throws ends the loop. -/
theorem parseFields_throws {data : Bytes} (req : Request) {pos : Nat} {e : Exn}
    (hpos : pos < data.length) (h : addonsRound data req pos = .error e) :
    parseFields data req pos = .error e := by
  rw [parseFields_round req hpos, h]
  rfl

/-- A position with a varint is inside. -/
theorem Varint.lt_of_drop {data bs rest : Bytes} {v : UInt64} {pos : Nat} (h : Varint bs v)
    (hdata : data.drop pos = bs ++ rest) : pos < data.length := by
  have hpos := h.length_pos
  have hcount := congrArg List.length hdata
  simp only [List.length_drop, List.length_append] at hcount
  omega

/-- The position behind what has been read. -/
theorem drop_behind {data bs rest : Bytes} {pos : Nat} (h : data.drop pos = bs ++ rest) :
    data.drop (pos + bs.length) = rest := by
  rw [← List.drop_drop, h, List.drop_left]

theorem parseFields_malformed {data bs : Bytes} (h : Malformed bs) (req : Request) {pos : Nat}
    (hdata : data.drop pos = bs) : ∃ e, parseFields data req pos = .error e := by
  induction h generalizing req pos with
  | @afterVarint tag val rest t v htag htype hval _ ih =>
      rw [List.append_assoc] at hdata
      have hval' := drop_behind hdata
      rw [parseFields_varint req (decodeVarint_of_varint htag hdata) htype
        (decodeVarint_of_varint hval hval')]
      exact ih req (drop_behind hval')
  | @afterBytes tag len value rest t l htag htype hlen hvalue _ ih =>
      rw [List.append_assoc, List.append_assoc] at hdata
      have hlen' := drop_behind hdata
      have hvalue' := drop_behind hlen'
      have hcount := congrArg List.length hvalue'
      simp only [List.length_drop, List.length_append] at hcount
      rw [parseFields_lengthDelimited req (decodeVarint_of_varint htag hdata) htype
        (decodeVarint_of_varint hlen hlen') (by omega)]
      exact ih _ (hvalue ▸ drop_behind hvalue')
  | tag hne h =>
      have hpos : pos < data.length := by
        by_contra hle
        exact hne (hdata ▸ List.drop_of_length_le (Nat.le_of_not_lt hle))
      obtain ⟨e, he⟩ := Unterminated.decodeVarint (hdata ▸ h)
      exact ⟨e, parseFields_throws req hpos (by simp [addonsRound, he, bind, Except.bind])⟩
  | @wireType tag rest t htag h₀ h₂ =>
      exact ⟨_, parseFields_throws req (htag.lt_of_drop hdata) (by
        simp [addonsRound, decodeVarint_of_varint htag hdata, bind, Except.bind, h₀, h₂]
        rfl)⟩
  | value htag htype h =>
      obtain ⟨e, he⟩ := Unterminated.decodeVarint (drop_behind hdata ▸ h)
      exact ⟨e, parseFields_throws req (htag.lt_of_drop hdata) (by
        simp [addonsRound, decodeVarint_of_varint htag hdata, bind, Except.bind, htype, he])⟩
  | length htag htype h =>
      obtain ⟨e, he⟩ := Unterminated.decodeVarint (drop_behind hdata ▸ h)
      exact ⟨e, parseFields_throws req (htag.lt_of_drop hdata) (by
        simp [addonsRound, decodeVarint_of_varint htag hdata, bind, Except.bind, htype, he])⟩
  | @bytes tag len rest t l htag htype hlen h =>
      rw [List.append_assoc] at hdata
      have hlen' := drop_behind hdata
      have hrest := congrArg List.length (drop_behind hlen')
      rw [List.length_drop] at hrest
      have hinside := (decodeVarint_pos (decodeVarint_of_varint hlen hlen')).2
      have hshort : data.length - (pos + tag.length + len.length) < l.toNat := by omega
      exact ⟨_, parseFields_throws req (htag.lt_of_drop hdata) (by
        simp [addonsRound, decodeVarint_of_varint htag hdata, decodeVarint_of_varint hlen hlen',
          bind, Except.bind, htype, sizeDifference, hinside, hshort]
        rfl)⟩

/-! ## The decoder -/

/-- A payload with its length in front that parses as a message is one. -/
theorem parseAddons_eq_ok {version : UInt8} {uuid : Uuid} {payload rest rest' : Bytes}
    {req : Request} (hlen : payload.length ≤ 255) :
    (Decoder.parseAddons { version, uuid }).run (payload.length.toUInt8 :: payload ++ rest) =
        (.ok req, rest') ↔
      ∃ fs, Fields payload fs ∧ rest' = rest ∧
        req = { version, uuid, flow := (fs.reverse.lookup 1).getD [],
                seed := (fs.reverse.lookup 2).getD [] } := by
  have hbyte : payload.length.toUInt8.toNat = payload.length := toUInt8_toNat (by omega)
  rw [Decoder.parseAddons_accepts { version, uuid } rfl rfl]
  constructor
  · rintro ⟨_, ⟨flow, seed, ⟨n, body, fs, hbody, hfs⟩, rfl⟩, heq⟩
    obtain ⟨hn, heq⟩ := List.cons.inj heq
    rw [← hn, hbyte] at hbody
    obtain ⟨rfl, rfl⟩ := List.append_inj heq hbody.symm
    exact ⟨fs, hfs, rfl, rfl⟩
  · rintro ⟨fs, hfs, rfl, rfl⟩
    exact ⟨_, ⟨_, _, .mk _ payload fs hbyte.symm hfs, rfl⟩, rfl⟩

/-- **Parsing the addons is decoding a protobuf message.** The encoding of a list of fields leaves
    the last byte strings of fields 1 and 2 and is used up; a payload that is no message is refused;
    and on every payload the loop ends at the end of the payload without leaving it. -/
theorem parseAddons_protobuf :
    (∀ (version : UInt8) (uuid : Uuid) (fs : List Field) (rest : Bytes),
      (encodeFields fs).length ≤ 255 →
      (Decoder.parseAddons { version, uuid }).run
          ((encodeFields fs).length.toUInt8 :: encodeFields fs ++ rest) =
        (.ok { version, uuid, flow := (lastBytes 1 fs).getD [], seed := (lastBytes 2 fs).getD [] },
          rest)) ∧
    (∀ (version : UInt8) (uuid : Uuid) (payload rest : Bytes), payload.length ≤ 255 →
      Malformed payload → ∃ what rest',
        (Decoder.parseAddons { version, uuid }).run (payload.length.toUInt8 :: payload ++ rest) =
          (.error (.runtimeError what), rest')) ∧
    (∀ (payload : Bytes) (req : Request) (rounds : Nat), payload.length < rounds →
      ∃ r, addonsLoop payload rounds req 0 = some r ∧ r ≠ .error .outOfBounds ∧
        r.map Prod.fst = parseFields payload req 0 ∧
        ∀ req' pos, r = .ok (req', pos) → pos = payload.length) := by
  refine ⟨fun version uuid fs rest hlen => ?_, fun version uuid payload rest hlen hbad => ?_,
    fun payload req rounds hrounds => ?_⟩
  · rw [parseAddons_eq_ok hlen]
    refine ⟨_, encodeFields_fields fs (by omega), rfl, ?_⟩
    rw [lookup_reverse, lookup_reverse]
    rfl
  · cases hrun : (Decoder.parseAddons { version, uuid }).run
        (payload.length.toUInt8 :: payload ++ rest) with
    | mk r rest' =>
        cases r with
        | ok req =>
            obtain ⟨fs, hfs, -, -⟩ := (parseAddons_eq_ok hlen).1 hrun
            have hdrop : payload.drop 0 = payload := List.drop_zero
            have hok := parseFields_complete hfs req hdrop
            obtain ⟨e, he⟩ := parseFields_malformed hbad req hdrop
            cases hok.symm.trans he
        | error e =>
            obtain ⟨what, rfl⟩ := (Decoder.parseAddons_raises _).run hrun
            exact ⟨what, rest', rfl⟩
  · refine ⟨_, addonsLoop_eq req (Nat.zero_le _) (by omega), ?_, ?_, ?_⟩
    · cases h : parseFields payload req 0 with
      | ok req' => nofun
      | error e =>
          obtain ⟨what, rfl⟩ := parseFields_error h
          nofun
    · cases parseFields payload req 0 <;> rfl
    · intro req' pos h
      cases hparse : parseFields payload req 0 with
      | ok req'' =>
          rw [hparse] at h
          exact (congrArg Prod.snd (Except.ok.inj h)).symm
      | error e =>
          rw [hparse] at h
          cases h

/-- Flow, an unknown number and the flow again. -/
def sampleFields : List Field :=
  [⟨1, .bytes [0x61], by decide⟩, ⟨3, .varint 300, by decide⟩, ⟨1, .bytes [0x62, 0x63], by decide⟩]

theorem encodeFields_sample : encodeFields sampleFields =
    [0x0A, 1, 0x61, 0x18, 0xAC, 2, 0x0A, 2, 0x62, 0x63] := by
  simp [sampleFields, encodeFields, Field.encode, Field.tag, encodeVarint]

theorem parseAddons_protobuf_sample :
    (Decoder.parseAddons {}).run [10, 0x0A, 1, 0x61, 0x18, 0xAC, 2, 0x0A, 2, 0x62, 0x63, 0xFF] =
      (.ok { flow := [0x62, 0x63] }, [0xFF]) ∧
    ∃ what rest', (Decoder.parseAddons {}).run [1, 0x80] = (.error (.runtimeError what), rest') := by
  have hfields := parseAddons_protobuf.1 0 (List.Vector.replicate 16 0) sampleFields [0xFF]
    (by rw [encodeFields_sample]; decide)
  rw [encodeFields_sample] at hfields
  have hunterminated : Unterminated [0x80] := by simp [Unterminated]
  exact ⟨hfields, parseAddons_protobuf.2.1 0 (List.Vector.replicate 16 0) [0x80] [] (by decide)
    (.tag (by decide) hunterminated)⟩

end Cppvless
