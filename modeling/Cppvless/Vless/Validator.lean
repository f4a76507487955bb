import Cppvless.Common.Config
import Cppvless.Common.Strtod
import Cppvless.Vless.Protocol
import Mathlib.Data.Set.Card

set_option autoImplicit false

/-! # The text of a UUID

`Validator::parseUuid` takes a UUID from its text, dashes and the case of letters aside, and
`generateUuid` writes one. `parseUuid_eq_some` says which text stands for which UUID; what the
validator holds after any number of texts follows from it. -/

namespace Cppvless

/-! ## Digits -/

/-- `hexValue`: -1 for what is no digit. -/
def hexValue (c : UInt8) : Int :=
  if '0'.toUInt8 ≤ c ∧ c ≤ '9'.toUInt8 then (c - '0'.toUInt8).toNat
  else if 'a'.toUInt8 ≤ c ∧ c ≤ 'f'.toUInt8 then 10 + (c - 'a'.toUInt8).toNat
  else if 'A'.toUInt8 ≤ c ∧ c ≤ 'F'.toUInt8 then 10 + (c - 'A'.toUInt8).toNat
  else -1

/-- The hexadecimal digit of a number below 16. -/
def hexDigit (d : UInt8) : UInt8 := if d < 10 then 48 + d else 87 + d

theorem hexByte_eq (b : UInt8) : hexByte b = [hexDigit (b >>> 4), hexDigit (b &&& 0x0F)] := rfl

theorem forall_uint8 {p : UInt8 → Prop} (h : ∀ n < 256, p (UInt8.ofNat n)) (c : UInt8) : p c := by
  have := h c.toNat c.toNat_lt
  rwa [UInt8.ofNat_toNat] at this

/-- What has a value is a digit in either case; a byte is what its halves are put together, and
    is written with no dash and in lower case. -/
theorem hex_table (c : UInt8) :
    (0 ≤ hexValue c → hexValue c < 16 ∧ toLower c = hexDigit (hexValue c).toNat.toUInt8) ∧
    ((c >>> 4).toNat <<< 4 ||| (c &&& 0x0F).toNat).toUInt8 = c ∧
    (c >>> 4 < 16 ∧ c &&& 0x0F < 16) ∧
    ((hexByte c).filter (· ≠ '-'.toUInt8) = hexByte c ∧ (hexByte c).map toLower = hexByte c) :=
  forall_uint8 (p := fun c =>
    (0 ≤ hexValue c → hexValue c < 16 ∧ toLower c = hexDigit (hexValue c).toNat.toUInt8) ∧
    ((c >>> 4).toNat <<< 4 ||| (c &&& 0x0F).toNat).toUInt8 = c ∧
    (c >>> 4 < 16 ∧ c &&& 0x0F < 16) ∧
    ((hexByte c).filter (· ≠ '-'.toUInt8) = hexByte c ∧ (hexByte c).map toLower = hexByte c))
    (by decide +kernel) c

theorem toLower_of_hexValue (c : UInt8) (h : 0 ≤ hexValue c) :
    hexValue c < 16 ∧ toLower c = hexDigit (hexValue c).toNat.toUInt8 :=
  (hex_table c).1 h

/-- A digit in either case has its value. -/
theorem hexValue_of_toLower (c : UInt8) {d : UInt8} (hd : d < 16) (h : toLower c = hexDigit d) :
    hexValue c = d.toNat := by
  have table : ∀ n < 16, ∀ m < 256, toLower (UInt8.ofNat m) = hexDigit (UInt8.ofNat n) →
      hexValue (UInt8.ofNat m) = n := by
    decide +kernel
  have := table d.toNat hd c.toNat c.toNat_lt
  rw [UInt8.ofNat_toNat, UInt8.ofNat_toNat] at this
  exact this h

/-- The two halves of a byte put together. -/
theorem byte_eq_iff {x y : Nat} (hx : x < 16) (hy : y < 16) (b : UInt8) :
    (x <<< 4 ||| y).toUInt8 = b ↔ b >>> 4 = x.toUInt8 ∧ b &&& 0x0F = y.toUInt8 := by
  have halves : ∀ x < 16, ∀ y < 16, (x <<< 4 ||| y).toUInt8 >>> 4 = x.toUInt8 ∧
      (x <<< 4 ||| y).toUInt8 &&& 0x0F = y.toUInt8 := by
    decide +kernel
  have whole : ((b >>> 4).toNat <<< 4 ||| (b &&& 0x0F).toNat).toUInt8 = b :=
    (hex_table b).2.1
  constructor
  · rintro rfl
    exact halves x hx y hy
  · rintro ⟨hhi, hlo⟩
    rw [hhi, hlo] at whole
    rw [← whole]
    simp only [Nat.toUInt8_eq, UInt8.toNat_ofNat']
    rw [Nat.mod_eq_of_lt (by omega), Nat.mod_eq_of_lt (by omega)]

theorem halves_lt (b : UInt8) : b >>> 4 < 16 ∧ b &&& 0x0F < 16 :=
  (hex_table b).2.2.1

/-- Two characters with a value make up a byte exactly if they are its digits in either case. -/
theorem digits_iff (hi lo b : UInt8) :
    (0 ≤ hexValue hi ∧ 0 ≤ hexValue lo) ∧
        ((hexValue hi).toNat <<< 4 ||| (hexValue lo).toNat).toUInt8 = b ↔
      toLower hi = hexDigit (b >>> 4) ∧ toLower lo = hexDigit (b &&& 0x0F) := by
  constructor
  · rintro ⟨⟨hhi, hlo⟩, hbyte⟩
    obtain ⟨hhi16, hhi⟩ := toLower_of_hexValue hi hhi
    obtain ⟨hlo16, hlo⟩ := toLower_of_hexValue lo hlo
    obtain ⟨hhigh, hlow⟩ := (byte_eq_iff (by omega) (by omega) b).1 hbyte
    exact ⟨by rw [hhi, hhigh], by rw [hlo, hlow]⟩
  · rintro ⟨hhi, hlo⟩
    obtain ⟨hhigh, hlow⟩ := halves_lt b
    rw [hexValue_of_toLower hi hhigh hhi, hexValue_of_toLower lo hlow hlo]
    refine ⟨⟨Int.natCast_nonneg _, Int.natCast_nonneg _⟩, ?_⟩
    rw [Int.toNat_natCast, Int.toNat_natCast,
      byte_eq_iff (UInt8.lt_iff_toNat_lt.1 hhigh) (UInt8.lt_iff_toNat_lt.1 hlow), Nat.toUInt8_eq,
      Nat.toUInt8_eq, UInt8.ofNat_toNat, UInt8.ofNat_toNat]
    exact ⟨rfl, rfl⟩

/-! ## Reading a UUID -/

namespace Validator

/-- The loop of `parseUuid` over two digits for each byte. -/
def parseDigits : (n : Nat) → Bytes → Option (List.Vector UInt8 n)
  | 0, _ => some .nil
  | n + 1, hi :: lo :: rest =>
      if hexValue hi < 0 ∨ hexValue lo < 0 then none
      else (parseDigits n rest).map
        (((hexValue hi).toNat <<< 4 ||| (hexValue lo).toNat).toUInt8 ::ᵥ ·)
  | _ + 1, _ => none

/-- The text without its dashes. -/
def compact (text : Bytes) : Bytes := text.filter (· ≠ '-'.toUInt8)

/-- `Validator::parseUuid` -/
def parseUuid (text : Bytes) : Option Uuid :=
  if (compact text).length ≠ 32 then none else parseDigits 16 (compact text)

/-- `Validator::addFromString`: the answer and the validator. -/
def addFromString (v : Validator) (text : Bytes) : Bool × Validator :=
  match parseUuid text with
  | some uuid => (true, v.add uuid)
  | none => (false, v)

def size (v : Validator) : Nat := v.users.length

/-- A new validator after `addFromString` with each of the texts. -/
def addAll (v : Validator) : List Bytes → Validator
  | [] => v
  | text :: texts => (v.addFromString text).2.addAll texts

/-- The text is that of the UUID: without its dashes and in lower case it is the 32 hexadecimal
    digits of its bytes. -/
def Spells (text : Bytes) (uuid : Uuid) : Prop :=
  (compact text).map toLower = uuid.toList.flatMap hexByte

theorem parseDigits_eq_some {n : Nat} {text : Bytes} (hlen : text.length = 2 * n)
    (bytes : List.Vector UInt8 n) :
    parseDigits n text = some bytes ↔ text.map toLower = bytes.toList.flatMap hexByte := by
  induction n generalizing text with
  | zero =>
      have htext : text = [] := List.length_eq_zero_iff.1 hlen
      simp [parseDigits, htext, bytes.eq_nil]
  | succ n ih =>
      obtain ⟨hi, lo, rest, rfl⟩ : ∃ hi lo rest, text = hi :: lo :: rest := by
        match text, hlen with
        | hi :: lo :: rest, _ => exact ⟨hi, lo, rest, rfl⟩
      obtain ⟨b, bytes, rfl⟩ := bytes.exists_eq_cons
      have hrest : ∀ bytes, parseDigits n rest = some bytes ↔
          rest.map toLower = bytes.toList.flatMap hexByte := ih (by simp at hlen; omega)
      rw [List.map_cons, List.map_cons, List.Vector.toList_cons, List.flatMap_cons, hexByte_eq]
      simp only [List.cons_append, List.nil_append, List.cons.injEq, parseDigits]
      have hpair := digits_iff hi lo b
      rw [← and_assoc, ← hpair, ← hrest bytes]
      by_cases hdigits : hexValue hi < 0 ∨ hexValue lo < 0
      · rw [if_pos hdigits]
        exact iff_of_false (by simp) fun h => by omega
      · rw [if_neg hdigits, Option.map_eq_some_iff]
        constructor
        · rintro ⟨bytes', hbytes', heq⟩
          have hb := congrArg List.Vector.head heq
          have htail := congrArg List.Vector.tail heq
          rw [List.Vector.tail_cons, List.Vector.tail_cons] at htail
          exact ⟨⟨by omega, hb⟩, htail ▸ hbytes'⟩
        · rintro ⟨⟨-, rfl⟩, hbytes⟩
          exact ⟨bytes, hbytes, rfl⟩

/-- The number of digits that a UUID's text has. -/
theorem Spells.length {text : Bytes} {uuid : Uuid} (h : Spells text uuid) :
    (compact text).length = 32 := by
  have hlen := congrArg List.length h
  have hdigits : ∀ b : UInt8, (hexByte b).length = 2 := fun _ => rfl
  rw [List.length_map, List.length_flatMap] at hlen
  simpa [hdigits, uuid.toList_length] using hlen

/-- **What `parseUuid` accepts, and what it makes of it.** -/
theorem parseUuid_eq_some (text : Bytes) (uuid : Uuid) :
    parseUuid text = some uuid ↔ Spells text uuid := by
  unfold parseUuid
  by_cases hlen : (compact text).length = 32
  · rw [if_neg (not_not.2 hlen)]
    exact parseDigits_eq_some hlen uuid
  · rw [if_pos hlen]
    exact iff_of_false nofun fun h => hlen h.length

/-! ## What the validator holds -/

theorem addFromString_fst (v : Validator) (text : Bytes) :
    (v.addFromString text).1 = true ↔ ∃ uuid, Spells text uuid := by
  simp only [← parseUuid_eq_some, ← Option.isSome_iff_exists]
  unfold addFromString
  cases parseUuid text with
  | none => simp
  | some uuid => simp

theorem addFromString_snd (v : Validator) (text : Bytes) (h : (v.addFromString text).1 = false) :
    (v.addFromString text).2 = v := by
  unfold addFromString at *
  cases hparse : parseUuid text with
  | none => rfl
  | some uuid => simp [hparse] at h

theorem contains_addFromString (v : Validator) (text : Bytes) (uuid : Uuid) :
    (v.addFromString text).2.contains uuid = true ↔
      Spells text uuid ∨ v.contains uuid = true := by
  rw [← parseUuid_eq_some]
  unfold addFromString
  cases parseUuid text with
  | none => simp
  | some other =>
      rw [contains_add, Bool.or_eq_true, decide_eq_true_eq, Option.some.injEq, eq_comm]

theorem contains_addAll (texts : List Bytes) (v : Validator) (uuid : Uuid) :
    (v.addAll texts).contains uuid = true ↔
      (∃ text ∈ texts, Spells text uuid) ∨ v.contains uuid = true := by
  induction texts generalizing v with
  | nil => simp [addAll]
  | cons text texts ih =>
      rw [addAll, ih, contains_addFromString, ← or_assoc]
      simp only [List.mem_cons, exists_eq_or_imp, or_comm]

theorem size_eq_ncard (v : Validator) : v.size = {uuid | v.contains uuid = true}.ncard := by
  have hset : {uuid | v.contains uuid = true} = ↑v.users.toFinset := by
    ext uuid
    simp [contains]
  rw [hset, Set.ncard_coe_finset, List.toFinset_card_of_nodup v.nodup]
  rfl

/-! ## Writing a UUID -/

/-- The text layout of `generateUuid`. -/
def formatUuid (uuid : Uuid) : Bytes :=
  let hex (i j : Nat) := ((uuid.toList.drop i).take (j - i)).flatMap hexByte
  hex 0 4 ++ ascii "-" ++ hex 4 6 ++ ascii "-" ++ hex 6 8 ++ ascii "-" ++ hex 8 10 ++ ascii "-" ++
    hex 10 16

/-- The random bytes with the version and the variant set. -/
def versioned (random : List.Vector UInt8 16) : Uuid :=
  ⟨random.toList.mapIdx fun i b =>
    if i = 6 then (b &&& 0x0F) ||| 0x40 else if i = 8 then (b &&& 0x3F) ||| 0x80 else b, by simp⟩

theorem generateUuid_eq (random : List.Vector UInt8 16) :
    generateUuid random = formatUuid (versioned random) := rfl

/-- The digits written have no dash among them and are in lower case. -/
theorem hexByte_spells (b : UInt8) :
    (hexByte b).filter (· ≠ '-'.toUInt8) = hexByte b ∧ (hexByte b).map toLower = hexByte b :=
  (hex_table b).2.2.2

theorem flatMap_hexByte_spells (l : Bytes) :
    compact (l.flatMap hexByte) = l.flatMap hexByte ∧
      (l.flatMap hexByte).map toLower = l.flatMap hexByte := by
  induction l with
  | nil => exact ⟨rfl, rfl⟩
  | cons b l ih =>
      obtain ⟨hdash, hlower⟩ := hexByte_spells b
      unfold compact at *
      rw [List.flatMap_cons, List.filter_append, List.map_append, hdash, hlower, ih.1, ih.2]
      exact ⟨rfl, rfl⟩

theorem compact_append (a b : Bytes) : compact (a ++ b) = compact a ++ compact b :=
  List.filter_append a b

/-- **What `generateUuid` lays out is the text of its bytes.** -/
theorem formatUuid_spells (uuid : Uuid) : Spells (formatUuid uuid) uuid := by
  have hdash : compact (ascii "-") = [] := rfl
  have hgroup : ∀ i n : Nat, (uuid.toList.drop i).take n ++ uuid.toList.drop (i + n) =
      uuid.toList.drop i := by
    intro i n
    rw [← List.drop_drop, List.take_append_drop]
  have hlast : (uuid.toList.drop 10).take 6 = uuid.toList.drop 10 :=
    List.take_of_length_le (by rw [List.length_drop, uuid.toList_length])
  have hcompact : compact (formatUuid uuid) = uuid.toList.flatMap hexByte := by
    simp only [formatUuid, compact_append, hdash, List.append_nil, (flatMap_hexByte_spells _).1,
      Nat.reduceSub]
    simp only [← List.flatMap_append, List.append_assoc]
    rw [hlast, hgroup 8 2, hgroup 6 2, hgroup 4 2, hgroup 0 4, List.drop_zero]
  rw [Spells, hcompact]
  exact (flatMap_hexByte_spells _).2

/-- **The users.** A validator that has been given some texts contains the UUIDs they spell and no
    others, each once; a text is accepted if it spells one and otherwise changes nothing; and the
    layout of `generateUuid` is read back. -/
theorem user_set (texts : List Bytes) (text : Bytes) (uuid : Uuid)
    (random : List.Vector UInt8 16) :
    let v := empty.addAll texts
    (v.contains uuid = true ↔ ∃ t ∈ texts, Spells t uuid) ∧
    ((v.addFromString text).1 = true ↔ ∃ u, Spells text u) ∧
    ((v.addFromString text).1 = false → (v.addFromString text).2 = v) ∧
    v.users.Nodup ∧ v.size = {u | ∃ t ∈ texts, Spells t u}.ncard ∧
    parseUuid (formatUuid uuid) = some uuid ∧
    generateUuid random = formatUuid (versioned random) := by
  intro v
  have hcontains : ∀ u, v.contains u = true ↔ ∃ t ∈ texts, Spells t u := by
    intro u
    rw [contains_addAll]
    simp [empty, contains]
  have hset : {u | v.contains u = true} = {u | ∃ t ∈ texts, Spells t u} := by
    ext u
    exact hcontains u
  exact ⟨hcontains uuid, v.addFromString_fst text, v.addFromString_snd text, v.nodup,
    by rw [size_eq_ncard, hset], (parseUuid_eq_some _ _).2 (formatUuid_spells uuid),
    generateUuid_eq random⟩

end Validator

end Cppvless
