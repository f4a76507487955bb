import Cppvless.Common.Double
import Cppvless.Common.Json

set_option autoImplicit false

/-! # `strtod`

The C library's conversion of the number in front of a string, in the C locale: the longest prefix
that is one, rounded to the nearest `double`; a string that begins with no number is zero.
`NumberText` are the numbers of JSON with the rationals they denote. `strtod_numberText` says that
such a number, up to where it ends, is read as the nearest `double`. -/

namespace Cppvless

open Json JsonParser

/-! ## The conversion -/

def digitValue (b : UInt8) : Option Nat := if isDigit b then some (b.toNat - '0'.toNat) else none

/-- The number with the digits `ds`. -/
def valueOf (base : Nat) (digit : UInt8 → Option Nat) (ds : Bytes) : Nat :=
  ds.foldl (fun n b => base * n + (digit b).getD 0) 0

/-- A sign in front, and whether it is a minus. -/
def sign : Bytes → Bool × Bytes
  | [] => (false, [])
  | c :: s => if c = '-'.toUInt8 then (true, s) else if c = '+'.toUInt8 then (false, s) else (false, c :: s)

/-- Digits with a point among them perhaps, and what follows. -/
def mantissa (base : Nat) (digit : UInt8 → Option Nat) (s : Bytes) : Option (ℚ × Bytes) :=
  let whole := s.takeWhile fun b => (digit b).isSome
  let rest := s.dropWhile fun b => (digit b).isSome
  let point := consume '.'.toUInt8 rest
  let frac := (point.getD []).takeWhile fun b => (digit b).isSome
  if whole = [] ∧ frac = [] then none
  else some (valueOf base digit (whole ++ frac) / base ^ frac.length,
    (point.map (List.dropWhile fun b => (digit b).isSome)).getD rest)

/-- An exponent after a marker; zero if there is none. -/
def exponent (marker : UInt8 → Bool) : Bytes → ℤ
  | [] => 0
  | c :: s =>
      if marker c then
        let n : Nat := valueOf 10 digitValue ((sign s).2.takeWhile isDigit)
        if (sign s).1 then -n else n
      else 0

def hexadecimal : Bytes → Option ℚ
  | z :: x :: s =>
      if z = '0'.toUInt8 ∧ (x = 'x'.toUInt8 ∨ x = 'X'.toUInt8) then
        (mantissa 16 hexVal s).map fun m =>
          m.1 * 2 ^ exponent (fun c => c = 'p'.toUInt8 || c = 'P'.toUInt8) m.2
      else none
  | _ => none

def decimalNumber (s : Bytes) : Option ℚ :=
  (mantissa 10 digitValue s).map fun m =>
    m.1 * 10 ^ exponent (fun c => c = 'e'.toUInt8 || c = 'E'.toUInt8) m.2

def toLower (b : UInt8) : UInt8 := if 'A'.toUInt8 ≤ b && b ≤ 'Z'.toUInt8 then b + 32 else b

def strtod (s : Bytes) : Double :=
  let (neg, s) := sign (skipWs s)
  match (hexadecimal s).or (decimalNumber s) with
  | some q => .nearest (if neg then -q else q)
  | none =>
      if (s.take 3).map toLower = ascii "inf" then .infinity neg
      else if (s.take 3).map toLower = ascii "nan" then .nan
      else .finite 0

/-- The C library. -/
def cLibrary : Strtod where
  Double := Double
  strtod := strtod
  ofInt n := Double.nearest n
  toLongLong := Double.toInt64

/-! ## The numbers of JSON -/

def AllDigits (ds : Bytes) : Prop := ds ≠ [] ∧ ∀ b ∈ ds, isDigit b = true

/-- A fraction or none, and its digits. -/
inductive FractionText : Bytes → Bytes → Prop
  | none : FractionText [] []
  | some (ds : Bytes) (h : AllDigits ds) : FractionText ('.'.toUInt8 :: ds) ds

/-- An exponent or none, and its value. -/
inductive ExponentText : Bytes → ℤ → Prop
  | none : ExponentText [] 0
  | unsigned (m : UInt8) (ds : Bytes) (hm : m = 'e'.toUInt8 ∨ m = 'E'.toUInt8) (h : AllDigits ds) :
      ExponentText (m :: ds) (valueOf 10 digitValue ds : Nat)
  | plus (m : UInt8) (ds : Bytes) (hm : m = 'e'.toUInt8 ∨ m = 'E'.toUInt8) (h : AllDigits ds) :
      ExponentText (m :: '+'.toUInt8 :: ds) (valueOf 10 digitValue ds : Nat)
  | minus (m : UInt8) (ds : Bytes) (hm : m = 'e'.toUInt8 ∨ m = 'E'.toUInt8) (h : AllDigits ds) :
      ExponentText (m :: '-'.toUInt8 :: ds) (-(valueOf 10 digitValue ds : Nat))

/-- Sign, digits, fraction and exponent, and the rational that is denoted. -/
inductive Numeral : Bytes → ℚ → Prop
  | mk (neg : Bool) (whole frac ds exp : Bytes) (e : ℤ) (hwhole : AllDigits whole)
      (hfrac : FractionText frac ds) (hexp : ExponentText exp e) :
      Numeral ((if neg then ['-'.toUInt8] else []) ++ (whole ++ (frac ++ exp)))
        ((if neg then -1 else 1) *
          ((valueOf 10 digitValue (whole ++ ds) : ℚ) / 10 ^ ds.length * 10 ^ e))

/-! ## What is read -/

theorem isSome_digitValue (b : UInt8) : (digitValue b).isSome = isDigit b := by
  unfold digitValue
  cases isDigit b <;> rfl

theorem takeWhile_digits {ds rest : Bytes} (h : ∀ b ∈ ds, isDigit b = true)
    (hrest : ∀ b ∈ rest.head?, isDigit b = false) : (ds ++ rest).takeWhile isDigit = ds := by
  rw [List.takeWhile_append_of_pos h]
  cases rest with
  | nil => simp
  | cons b rest =>
      have hb := hrest b rfl
      rw [List.takeWhile_cons_of_neg (by simp [hb]), List.append_nil]

theorem dropWhile_digits {ds rest : Bytes} (h : ∀ b ∈ ds, isDigit b = true)
    (hrest : ∀ b ∈ rest.head?, isDigit b = false) : (ds ++ rest).dropWhile isDigit = rest := by
  rw [List.dropWhile_append_of_pos h]
  cases rest with
  | nil => rfl
  | cons b rest =>
      have hb := hrest b rfl
      rw [List.dropWhile_cons_of_neg (by simp [hb])]

/-- What can follow the mantissa of a number. -/
def EndsMantissa (rest : Bytes) : Prop :=
  ∀ b ∈ rest.head?, isDigit b = false ∧ b ≠ '.'.toUInt8 ∧ b ≠ 'x'.toUInt8 ∧ b ≠ 'X'.toUInt8

theorem mantissa_numeral {whole frac ds rest : Bytes} (hwhole : AllDigits whole)
    (hfrac : FractionText frac ds) (hrest : EndsMantissa rest) :
    mantissa 10 digitValue (whole ++ (frac ++ rest)) =
      some ((valueOf 10 digitValue (whole ++ ds) : ℚ) / 10 ^ ds.length, rest) := by
  have hdigit : (fun b => (digitValue b).isSome) = isDigit := funext isSome_digitValue
  have hnext : ∀ b ∈ (frac ++ rest).head?, isDigit b = false := by
    cases hfrac with
    | none => exact fun b hb => (hrest b hb).1
    | some ds h =>
        intro b hb
        cases hb
        decide
  unfold mantissa
  simp only [hdigit, takeWhile_digits hwhole.2 hnext, dropWhile_digits hwhole.2 hnext, hwhole.1,
    false_and, if_false]
  cases hfrac with
  | none =>
      have hpoint : consume '.'.toUInt8 rest = none :=
        consume_ne fun h => (hrest '.'.toUInt8 h).2.1 rfl
      rw [List.nil_append, hpoint]
      rfl
  | some ds h =>
      have hend : ∀ b ∈ rest.head?, isDigit b = false := fun b hb => (hrest b hb).1
      rw [List.cons_append, consume_cons]
      simp only [Option.getD_some, Option.map_some, takeWhile_digits h.2 hend,
        dropWhile_digits h.2 hend]
      rfl

theorem endsNumber_head {rest : Bytes} (h : endsNumber rest = true) :
    ∀ b ∈ rest.head?, numberChar b = false ∧ b ≠ 'x'.toUInt8 ∧ b ≠ 'X'.toUInt8 := by
  intro b hb
  have hall : ∀ n < 256, endsNumber [UInt8.ofNat n] = true → numberChar (UInt8.ofNat n) = false ∧
      UInt8.ofNat n ≠ 'x'.toUInt8 ∧ UInt8.ofNat n ≠ 'X'.toUInt8 := by
    decide +kernel
  have hb' := hall b.toNat b.toNat_lt
  rw [UInt8.ofNat_toNat] at hb'
  apply hb'
  cases rest with
  | nil => cases hb
  | cons c rest =>
      cases hb
      exact h

theorem numberChar_eq_false {b : UInt8} (h : numberChar b = false) :
    isDigit b = false ∧ b ≠ '.'.toUInt8 ∧ b ≠ 'e'.toUInt8 ∧ b ≠ 'E'.toUInt8 := by
  simp only [numberChar, Bool.or_eq_false_iff, decide_eq_false_iff_not] at h
  exact ⟨h.1.1.1.1.1, h.1.1.1.1.2, h.1.1.1.2, h.1.1.2⟩

/-- A number ends at the end of its exponent. -/
theorem endsMantissa_exponent {exp rest : Bytes} {e : ℤ} (hexp : ExponentText exp e)
    (hrest : endsNumber rest = true) : EndsMantissa (exp ++ rest) := by
  have hmarker : ∀ m : UInt8, m = 'e'.toUInt8 ∨ m = 'E'.toUInt8 →
      isDigit m = false ∧ m ≠ '.'.toUInt8 ∧ m ≠ 'x'.toUInt8 ∧ m ≠ 'X'.toUInt8 := by
    rintro m (rfl | rfl) <;> decide
  cases hexp with
  | none =>
      intro b hb
      obtain ⟨hchar, hx⟩ := endsNumber_head hrest b hb
      obtain ⟨hdigit, hpoint, -⟩ := numberChar_eq_false hchar
      exact ⟨hdigit, hpoint, hx⟩
  | unsigned m ds hm | plus m ds hm | minus m ds hm =>
      intro b hb
      cases hb
      exact hmarker m hm

theorem exponent_numeral {exp rest : Bytes} {e : ℤ} (hexp : ExponentText exp e)
    (hrest : endsNumber rest = true) :
    exponent (fun c => c = 'e'.toUInt8 || c = 'E'.toUInt8) (exp ++ rest) = e := by
  have hend : ∀ b ∈ rest.head?, isDigit b = false := fun b hb =>
    (numberChar_eq_false (endsNumber_head hrest b hb).1).1
  have hmarker : ∀ m : UInt8, m = 'e'.toUInt8 ∨ m = 'E'.toUInt8 →
      (m = 'e'.toUInt8 || m = 'E'.toUInt8 : Bool) = true := fun m hm => by simpa using hm
  cases hexp with
  | none =>
      cases rest with
      | nil => rfl
      | cons b rest =>
          obtain ⟨-, -, he, hE⟩ := numberChar_eq_false (endsNumber_head hrest b rfl).1
          exact if_neg (by simp [he, hE])
  | unsigned m ds hm h =>
      obtain ⟨b, ds', hcons⟩ := List.exists_cons_of_ne_nil h.1
      have hb : isDigit b = true := h.2 b (hcons ▸ List.mem_cons_self)
      have hsign : sign (ds ++ rest) = (false, ds ++ rest) := by
        rw [hcons, List.cons_append, sign, if_neg, if_neg]
        · rintro rfl
          exact absurd hb (by decide)
        · rintro rfl
          exact absurd hb (by decide)
      rw [List.cons_append, exponent, if_pos (hmarker m hm), hsign, takeWhile_digits h.2 hend]
      rfl
  | plus m ds hm h =>
      have hsign : sign ('+'.toUInt8 :: (ds ++ rest)) = (false, ds ++ rest) := rfl
      rw [List.cons_append, List.cons_append, exponent, if_pos (hmarker m hm), hsign,
        takeWhile_digits h.2 hend]
      rfl
  | minus m ds hm h =>
      have hsign : sign ('-'.toUInt8 :: (ds ++ rest)) = (true, ds ++ rest) := rfl
      rw [List.cons_append, List.cons_append, exponent, if_pos (hmarker m hm), hsign,
        takeWhile_digits h.2 hend]
      rfl

/-- A number that begins with a digit is not hexadecimal. -/
theorem hexadecimal_numeral {whole frac ds rest : Bytes} (hwhole : AllDigits whole)
    (hfrac : FractionText frac ds) (hrest : EndsMantissa rest) :
    hexadecimal (whole ++ (frac ++ rest)) = none := by
  have hnext : ∀ x ∈ (whole ++ (frac ++ rest)).tail.head?, x ≠ 'x'.toUInt8 ∧ x ≠ 'X'.toUInt8 := by
    obtain ⟨b, whole', rfl⟩ := List.exists_cons_of_ne_nil hwhole.1
    intro x hx
    cases whole' with
    | cons c whole' =>
        cases hx
        have hc := hwhole.2 x (by simp)
        constructor
        · rintro rfl
          exact absurd hc (by decide)
        · rintro rfl
          exact absurd hc (by decide)
    | nil =>
        cases hfrac with
        | none => exact (hrest x hx).2.2
        | some ds h =>
            cases hx
            decide
  unfold hexadecimal
  split
  · next z x s heq =>
      rw [heq] at hnext
      obtain ⟨hx, hX⟩ := hnext x rfl
      exact if_neg fun h => h.2.elim hx hX
  · rfl

/-- **A number is read as the nearest double** of the rational it denotes. -/
theorem strtod_numeral {text rest : Bytes} {q : ℚ} (h : Numeral text q)
    (hrest : endsNumber rest = true) : strtod (text ++ rest) = Double.nearest q := by
  cases h with
  | mk neg whole frac ds exp e hwhole hfrac hexp =>
      have hends := endsMantissa_exponent hexp hrest
      have hread : (hexadecimal (whole ++ (frac ++ (exp ++ rest)))).or
          (decimalNumber (whole ++ (frac ++ (exp ++ rest)))) =
            some ((valueOf 10 digitValue (whole ++ ds) : ℚ) / 10 ^ ds.length * 10 ^ e) := by
        rw [hexadecimal_numeral hwhole hfrac hends, Option.none_or, decimalNumber,
          mantissa_numeral hwhole hfrac hends, Option.map_some, exponent_numeral hexp hrest]
      have hsign : sign (skipWs (((if neg then ['-'.toUInt8] else []) ++ (whole ++ (frac ++ exp))) ++
          rest)) = (neg, whole ++ (frac ++ (exp ++ rest))) := by
        cases neg with
        | true =>
            simp only [if_true, List.append_assoc, List.cons_append, List.nil_append]
            rw [skipWs_cons (by decide)]
            rfl
        | false =>
            obtain ⟨b, whole', rfl⟩ := List.exists_cons_of_ne_nil hwhole.1
            have hb := hwhole.2 b (by simp)
            have hspace : isSpace b = false ∧ b ≠ '-'.toUInt8 ∧ b ≠ '+'.toUInt8 := by
              have hall : ∀ n < 256, isDigit (UInt8.ofNat n) = true → isSpace (UInt8.ofNat n) = false ∧
                  UInt8.ofNat n ≠ '-'.toUInt8 ∧ UInt8.ofNat n ≠ '+'.toUInt8 := by
                decide +kernel
              have hb' := hall b.toNat b.toNat_lt
              rw [UInt8.ofNat_toNat] at hb'
              exact hb' hb
            simp only [Bool.false_eq_true, if_false, List.append_assoc, List.cons_append,
              List.nil_append]
            rw [skipWs_cons hspace.1, sign, if_neg hspace.2.1, if_neg hspace.2.2]
      unfold strtod
      simp only [hsign, hread]
      cases neg with
      | true => simp
      | false => simp

/-! ## Decimal integers -/

theorem valueOf_toDigits (n : Nat) :
    valueOf 10 digitValue ((Nat.toDigits 10 n).map Char.toUInt8) = n := by
  have hdigits : ∀ (cs : List Char) (acc : Nat), (∀ c ∈ cs, c.isDigit = true) →
      (cs.map Char.toUInt8).foldl (fun n b => 10 * n + (digitValue b).getD 0) acc =
        Nat.ofDigitChars 10 cs acc := by
    intro cs
    induction cs with
    | nil => exact fun acc _ => rfl
    | cons c cs ih =>
        intro acc h
        obtain ⟨hval, h₀, h₉⟩ := toNat_toUInt8 (h c (by simp))
        have hdigit : isDigit c.toUInt8 = true := by
          simp only [isDigit, Bool.and_eq_true, decide_eq_true_eq, UInt8.le_iff_toNat_le, hval]
          exact ⟨h₀, h₉⟩
        have hc : (digitValue c.toUInt8).getD 0 = c.toNat - '0'.toNat := by
          rw [digitValue, if_pos hdigit, hval]
          rfl
        rw [List.map_cons, List.foldl_cons, hc, Nat.ofDigitChars_cons]
        exact ih _ fun c' hc' => h c' (by simp [hc'])
  rw [valueOf, hdigits _ 0 fun c hc => Nat.isDigit_of_mem_toDigits (by decide) (by decide) hc,
    Nat.ofDigitChars_ten_toDigits]

theorem allDigits_toDigits (n : Nat) : AllDigits ((Nat.toDigits 10 n).map Char.toUInt8) := by
  constructor
  · intro h
    exact Nat.toDigits_ne_nil (List.map_eq_nil_iff.1 h)
  · exact fun b hb => isDigit_of_mem_toDigits hb

/-- A printed integer is a number that denotes it. -/
theorem numeral_decimal (n : ℤ) : Numeral (decimal n) n := by
  have hnumeral := Numeral.mk (decide (n < 0)) _ [] [] [] 0 (allDigits_toDigits n.natAbs) .none .none
  rw [List.append_nil, List.append_nil, valueOf_toDigits] at hnumeral
  unfold decimal
  by_cases hn : n < 0
  · have hval : (n : ℚ) = -(n.natAbs : ℚ) := by
      have hcast : (n.natAbs : ℤ) = -n := by omega
      rw [← Int.cast_natCast, hcast]
      push_cast
      ring
    rw [hval]
    simpa [hn] using hnumeral
  · have hval : (n : ℚ) = (n.natAbs : ℚ) := by
      have hcast : (n.natAbs : ℤ) = n := by omega
      rw [← Int.cast_natCast, hcast]
    rw [hval]
    simpa [hn] using hnumeral

theorem Numeral.of_eq {text text' : Bytes} {q : ℚ} (h : Numeral text q) (htext : text' = text) :
    Numeral text' q := htext ▸ h

/-- What the library makes of the text of an integer of at most 53 bits. -/
theorem strtod_int {text rest : Bytes} {n : ℤ} (h : Numeral text n) (hn : n.natAbs ≤ 2 ^ 53)
    (hrest : endsNumber rest = true) : strtod (text ++ rest) = .finite n := by
  rw [strtod_numeral h hrest, Double.nearest_int hn]

/-! ## Numbers in a document -/

theorem numberChar_fraction {frac ds : Bytes} (h : FractionText frac ds) :
    ∀ b ∈ frac, numberChar b = true := by
  cases h with
  | none => exact nofun
  | some ds hds =>
      intro b hb
      rcases List.mem_cons.1 hb with rfl | hb
      · decide
      · exact numberChar_of_isDigit (hds.2 b hb)

theorem numberChar_exponent {exp : Bytes} {e : ℤ} (h : ExponentText exp e) :
    ∀ b ∈ exp, numberChar b = true := by
  have hmarker : ∀ m : UInt8, m = 'e'.toUInt8 ∨ m = 'E'.toUInt8 → numberChar m = true := by
    rintro m (rfl | rfl) <;> decide
  cases h with
  | none => exact nofun
  | unsigned m ds hm hds =>
      intro b hb
      rcases List.mem_cons.1 hb with rfl | hb
      · exact hmarker b hm
      · exact numberChar_of_isDigit (hds.2 b hb)
  | plus m ds hm hds | minus m ds hm hds =>
      intro b hb
      rcases List.mem_cons.1 hb with rfl | hb
      · exact hmarker b hm
      · rcases List.mem_cons.1 hb with rfl | hb
        · decide
        · exact numberChar_of_isDigit (hds.2 b hb)

/-- The parser scans a number as a whole. -/
theorem Numeral.numberChars {text : Bytes} {q : ℚ} (h : Numeral text q) : NumberChars text := by
  cases h with
  | mk neg whole frac ds exp e hwhole hfrac hexp =>
      have hbody : ∀ b ∈ whole ++ (frac ++ exp), numberChar b = true := by
        intro b hb
        rcases List.mem_append.1 hb with hb | hb
        · exact numberChar_of_isDigit (hwhole.2 b hb)
        · rcases List.mem_append.1 hb with hb | hb
          · exact numberChar_fraction hfrac b hb
          · exact numberChar_exponent hexp b hb
      cases neg with
      | true =>
          constructor
          · exact ⟨_, _, rfl, by decide⟩
          · intro b hb
            rcases List.mem_cons.1 hb with rfl | hb
            · decide
            · exact hbody b hb
      | false =>
          obtain ⟨b, whole', rfl⟩ := List.exists_cons_of_ne_nil hwhole.1
          constructor
          · exact ⟨b, _, rfl, by simp [startsNumber, hwhole.2 b]⟩
          · exact hbody

end Cppvless
