import Cppvless.Common.Config
import Cppvless.Common.Strtod
import Cppvless.Common.Simulation

set_option autoImplicit false

/-! # The numbers of a configuration

Four fields of a configuration are numbers. On its way the text of one is scanned, converted by
`strtod`, cut off towards zero and narrowed to the type of its field, and no step fails. The parser
over `verbatim` keeps the texts instead, so that they can be compared with what is loaded: a field is
loaded as the integer its text denotes if the text is a number of JSON that denotes an integer in the
range of the field, and any other text is taken as well, as some other number. -/

namespace Cppvless

open Json JsonParser

/-! ## The texts of the numbers -/

/-- The library that keeps what it gets. -/
def verbatim : Strtod where
  Double := Bytes
  strtod := id
  ofInt := decimal
  toLongLong _ := 0

/-- What the parser passes of a number. -/
def numberText (s : Bytes) : Bytes := s.takeWhile numberChar

def numberMember (key : String) (j : Json verbatim.Double) : Option Bytes :=
  match j.get key with
  | some (.number s) => some (numberText s)
  | _ => none

/-- A number of JSON: no zero stands before another digit. -/
def JsonNumber (text : Bytes) (q : ℚ) : Prop :=
  Numeral text q ∧ ∀ d rest, text = '0'.toUInt8 :: d :: rest ∨
    text = '-'.toUInt8 :: '0'.toUInt8 :: d :: rest → isDigit d = false

/-- The numeric fields of a configuration. -/
inductive NumericField
  | port
  | tlsPort
  | workers
  | certDays
  deriving DecidableEq

namespace NumericField

/-- The text of the field, if it is given as a number. -/
def written : NumericField → Json verbatim.Double → Option Bytes
  | .port, root => numberMember "port" root
  | .workers, root => numberMember "workers" root
  | .tlsPort, root =>
      match root.get "tls" with
      | some (.object obj) => numberMember "port" (.object obj)
      | _ => none
  | .certDays, root =>
      match root.get "tls" with
      | some (.object obj) => numberMember "cert_days" (.object obj)
      | _ => none

def value : NumericField → ServerConfig → ℤ
  | .port, cfg => cfg.port.toNat
  | .tlsPort, cfg => cfg.tls.port.toNat
  | .workers, cfg => cfg.workers.toInt
  | .certDays, cfg => cfg.tls.certDays.toInt

def InRange : NumericField → ℤ → Prop
  | .port, n | .tlsPort, n => 0 ≤ n ∧ n ≤ 65535
  | .workers, n | .certDays, n => -2 ^ 31 ≤ n ∧ n < 2 ^ 31

/-- The text denotes an integer in the range of the field. -/
def Fits (f : NumericField) (text : Bytes) : Prop := ∃ n : ℤ, JsonNumber text n ∧ f.InRange n

end NumericField

/-- The fields that are given as numbers are taken as written, or the text is refused. -/
structure TakenOrRefused (text : Bytes) (loaded : Loaded) : Prop where
  taken : loaded.error = none → ∃ root, parseDocument verbatim text = some root ∧
    ∀ f t, NumericField.written f root = some t →
      ∃ n : ℤ, JsonNumber t n ∧ f.value loaded.cfg = n
  refused : (∃ root f t, parseDocument verbatim text = some root ∧
    NumericField.written f root = some t ∧ ¬ f.Fits t) → loaded.error ≠ none

/-! ## The parsers over both libraries -/

/-- What a library makes of a text, where the number in it ends. -/
def Converts (lib : Strtod) (s : verbatim.Double) (d : lib.Double) : Prop :=
  d = lib.strtod s ∧ endsNumber (List.dropWhile numberChar s) = true

theorem dropWhile_cString (s : Bytes) :
    (cString s).dropWhile numberChar = cString (s.dropWhile numberChar) := by
  induction s with
  | nil => rfl
  | cons b s ih =>
      by_cases hb : b = 0
      · subst hb
        rfl
      · have hstop : ∀ u, cString (b :: u) = b :: cString u := fun u =>
          List.takeWhile_cons_of_pos (by simpa using hb)
        cases hchar : numberChar b with
        | true =>
            rw [hstop, List.dropWhile_cons_of_pos hchar, List.dropWhile_cons_of_pos hchar, ih]
        | false =>
            have hchar' : ¬ numberChar b = true := by simp [hchar]
            rw [hstop, List.dropWhile_cons_of_neg hchar', List.dropWhile_cons_of_neg hchar', hstop]

theorem converts_numbers (lib : Strtod) : NumbersRelated (Converts lib) [] := by
  intro s _ hend
  rw [List.append_nil]
  refine ⟨rfl, ?_⟩
  show endsNumber ((cString s).dropWhile numberChar) = true
  rw [dropWhile_cString]
  exact endsNumber_cString hend

/-! ## What is loaded -/

theorem get_related {D E : Type} {rel : D → E → Prop} {key : String} {j v : Json D} {j' : Json E}
    (h : Json.Rel rel j j') (hv : j.get key = some v) :
    ∃ v', j'.get key = some v' ∧ Json.Rel rel v v' := by
  cases h with
  | null | bool | number | string | array => exact absurd hv nofun
  | @object ms ms' hkeys hvalues =>
      induction ms generalizing ms' with
      | nil => exact absurd hv nofun
      | cons m ms ih =>
          cases ms' with
          | nil => exact absurd hkeys nofun
          | cons m' ms' =>
              obtain ⟨hkey, hkeys⟩ := List.cons.inj hkeys
              rw [List.map_cons, List.map_cons, List.forall₂_cons] at hvalues
              rw [Json.get] at hv ⊢
              by_cases hm : m.1 = ascii key
              · rw [List.find?_cons_of_pos (by simpa using hm)] at hv
                rw [List.find?_cons_of_pos (by simpa [← hkey] using hm)]
                cases hv
                exact ⟨_, rfl, hvalues.1⟩
              · rw [List.find?_cons_of_neg (by simpa using hm)] at hv
                rw [List.find?_cons_of_neg (by simpa [← hkey] using hm)]
                exact ih hkeys hvalues.2 hv

/-- A member that is written as an integer of at most 53 bits is that integer. -/
theorem intMember_written {key : String} {j : Json verbatim.Double} {j' : Json cLibrary.Double}
    {text : Bytes} {n : ℤ} (h : Json.Rel (Converts cLibrary) j j')
    (htext : numberMember key j = some text) (hn : JsonNumber text n) (hbits : n.natAbs ≤ 2 ^ 53) :
    intMember cLibrary key j' = some n := by
  unfold numberMember at htext
  split at htext
  · next s hget =>
      cases htext
      obtain ⟨v', hget', hrel⟩ := get_related h hget
      cases hrel with
      | @number _ d hd =>
          have hsplit : numberText s ++ List.dropWhile numberChar s = s :=
            List.takeWhile_append_dropWhile
          have hval : d = Double.finite n := by
            rw [hd.1]
            show strtod s = _
            rw [← hsplit]
            exact strtod_int hn.1 hbits hd.2
          rw [intMember, hget']
          subst hval
          exact congrArg some (Double.toInt64_int hbits)
  · cases htext

theorem toNat_ofInt {n : ℤ} (h : 0 ≤ n ∧ n ≤ 65535) : ((UInt16.ofInt n).toNat : ℤ) = n := by
  rw [UInt16.ofInt, UInt16.toNat_ofNat']
  omega

theorem toInt_ofInt {n : ℤ} (h : -2 ^ 31 ≤ n ∧ n < 2 ^ 31) : (Int32.ofInt n).toInt = n := by
  rw [Int32.toInt_ofInt_of_le h.1 h.2]

theorem NumericField.InRange.bits {f : NumericField} {n : ℤ} (h : f.InRange n) :
    n.natAbs ≤ 2 ^ 53 := by
  cases f <;> (obtain ⟨hlow, hhigh⟩ := h; omega)

/-- The TLS settings are loaded from an object that is related to the one with the text. -/
theorem tls_written {key : String} {root : Json verbatim.Double} {root' : Json cLibrary.Double}
    {text : Bytes} {n : ℤ} (h : Json.Rel (Converts cLibrary) root root')
    (htext : (match root.get "tls" with
      | some (.object obj) => numberMember key (.object obj)
      | _ => none) = some text)
    (hn : JsonNumber text n) (hbits : n.natAbs ≤ 2 ^ 53) :
    ∃ obj, root'.get "tls" = some (.object obj) ∧ intMember cLibrary key (.object obj) = some n := by
  split at htext
  · next obj hget =>
      obtain ⟨v', hget', hrel⟩ := get_related h hget
      have hint := intMember_written hrel htext hn hbits
      cases hrel with
      | object hkeys hvalues => exact ⟨_, hget', hint⟩
  · cases htext

/-- **A field is loaded as written** if its text fits. -/
theorem value_written {f : NumericField} {root : Json verbatim.Double} {root' : Json cLibrary.Double}
    {text : Bytes} {n : ℤ} (h : Json.Rel (Converts cLibrary) root root')
    (htext : f.written root = some text) (hn : JsonNumber text n) (hrange : f.InRange n)
    (cfg : ServerConfig) : f.value (loadConfig cLibrary root' cfg) = n := by
  cases f with
  | port =>
      simp only [NumericField.value, loadConfig, intMember_written h htext hn hrange.bits,
        Option.map_some, Option.getD_some]
      exact toNat_ofInt hrange
  | workers =>
      simp only [NumericField.value, loadConfig, intMember_written h htext hn hrange.bits,
        Option.map_some, Option.getD_some]
      exact toInt_ofInt hrange
  | tlsPort =>
      obtain ⟨obj, hget, hint⟩ := tls_written h htext hn hrange.bits
      simp only [NumericField.value, loadConfig, hget, loadTls, hint, Option.map_some,
        Option.getD_some]
      exact toNat_ofInt hrange
  | certDays =>
      obtain ⟨obj, hget, hint⟩ := tls_written h htext hn hrange.bits
      simp only [NumericField.value, loadConfig, hget, loadTls, hint, Option.map_some,
        Option.getD_some]
      exact toInt_ofInt hrange

/-- A text with a numeric field is an object. -/
theorem object_of_written {f : NumericField} {root : Json verbatim.Double} {text : Bytes}
    (h : f.written root = some text) : ∃ ms, root = .object ms := by
  cases root with
  | object ms => exact ⟨ms, rfl⟩
  | null | bool | number | string | array => cases f <;> exact absurd h nofun

variable {path : Bytes} {random : List.Vector UInt8 16} {cfg : ServerConfig} {disk : Disk}
  {text : Bytes}

/-- A text that is an object is accepted, whatever its numbers are. -/
theorem loadServerConfig_object (hfile : disk.file = some text)
    {ms : List (Bytes × Json verbatim.Double)} (h : parseDocument verbatim text = some (.object ms)) :
    ∃ ms', Json.Rel (Converts cLibrary) (.object ms) (.object ms') ∧
      loadServerConfig cLibrary path random cfg disk =
        { cfg := loadConfig cLibrary (.object ms') cfg, disk } := by
  obtain ⟨ms', hparse, hrel⟩ := parseDocument_object (converts_numbers cLibrary) h
  refine ⟨ms', hrel, ?_⟩
  rw [loadServerConfig, hfile]
  simp only [hparse]

/-- Only objects are accepted. -/
theorem object_of_accepted (hfile : disk.file = some text)
    (h : (loadServerConfig cLibrary path random cfg disk).error = none) :
    ∃ ms, parseDocument verbatim text = some (.object ms) := by
  have hobject : ∃ ms, parseDocument cLibrary text = some (.object ms) := by
    rw [loadServerConfig, hfile] at h
    simp only at h
    split at h
    · next ms hparse => exact ⟨ms, hparse⟩
    · cases h
  obtain ⟨ms, hparse⟩ := hobject
  have hnumbers : NumbersRelated (fun (_ : cLibrary.Double) (_ : verbatim.Double) => True) [] :=
    fun _ _ _ => trivial
  obtain ⟨ms', hparse', -⟩ := parseDocument_object hnumbers hparse
  exact ⟨ms', hparse'⟩

/-- A text with a field that does not fit is accepted all the same. -/
theorem not_takenOrRefused (hfile : disk.file = some text) {root : Json verbatim.Double}
    (hroot : parseDocument verbatim text = some root) {f : NumericField} {t : Bytes}
    (ht : f.written root = some t) (hfits : ¬ f.Fits t) :
    ¬ TakenOrRefused text (loadServerConfig cLibrary path random cfg disk) := by
  intro h
  obtain ⟨ms, rfl⟩ := object_of_written ht
  obtain ⟨ms', -, hload⟩ := loadServerConfig_object hfile hroot
  exact h.refused ⟨_, f, t, hroot, ht, hfits⟩ (by rw [hload])

/-- **Exactly the numbers that fit are taken as written.** -/
theorem numbers_taken_or_refused (path : Bytes) (random : List.Vector UInt8 16) (cfg : ServerConfig)
    (disk : Disk) (text : Bytes) (hfile : disk.file = some text) :
    TakenOrRefused text (loadServerConfig cLibrary path random cfg disk) ↔
      ∀ root, parseDocument verbatim text = some root → ∀ f t,
        NumericField.written f root = some t → f.Fits t := by
  constructor
  · intro h root hroot f t ht
    by_contra hfits
    exact not_takenOrRefused hfile hroot ht hfits h
  · intro hall
    constructor
    · intro haccepted
      obtain ⟨ms, hparse⟩ := object_of_accepted hfile haccepted
      obtain ⟨ms', hrel, hload⟩ := loadServerConfig_object hfile hparse
      refine ⟨_, hparse, fun f t ht => ?_⟩
      obtain ⟨n, hn, hrange⟩ := hall _ hparse f t ht
      exact ⟨n, hn, by rw [hload]; exact value_written hrel ht hn hrange cfg⟩
    · rintro ⟨root, f, t, hroot, ht, hfits⟩
      exact absurd (hall root hroot f t ht) hfits

/-- A port beyond 16 bits. -/
def sampleNumbers : Bytes := ascii "\x7b\"port\":70000\x7d"

theorem numbers_taken_or_refused_sample :
    TakenOrRefused sampleNumbers (loadServerConfig cLibrary (ascii "c.json")
        (List.Vector.replicate 16 0) {} { file := some sampleNumbers }) ↔
      ∀ root, parseDocument verbatim sampleNumbers = some root → ∀ f t,
        NumericField.written f root = some t → f.Fits t :=
  numbers_taken_or_refused (ascii "c.json") (List.Vector.replicate 16 0) {}
    { file := some sampleNumbers } sampleNumbers rfl

theorem sampleNumbers_parses : parseDocument verbatim sampleNumbers =
    some (.object [(ascii "port", .number (ascii "70000\x7d"))]) := by
  have hkey : parseString (skipWs (ascii "\"port\":70000\x7d")) =
      some (ascii "port", ascii ":70000\x7d") := by decide +kernel
  have hcolon : consume ':'.toUInt8 (skipWs (ascii ":70000\x7d")) = some (ascii "70000\x7d") := by
    decide
  have hnumber : value verbatim (skipWs (ascii "70000\x7d")) =
      some (.number (ascii "70000\x7d"), ascii "\x7d") :=
    value_number (c := '7'.toUInt8) rfl
  have hclose : consume '}'.toUInt8 (skipWs (ascii "\x7d")) = some [] := by decide
  have hmembers : members verbatim [] (ascii "\"port\":70000\x7d") =
      some (.object [(ascii "port", .number (ascii "70000\x7d"))], []) := by
    rw [members_eq, hkey]
    simp only [hcolon, hnumber, hclose]
    rfl
  have hopen : value verbatim ('{'.toUInt8 :: ascii "\"port\":70000\x7d") = _ :=
    value_object (by decide)
  exact parseDocument_eq (hopen.trans hmembers) rfl

/-- No integer in the range of a port is denoted by the text. -/
theorem sampleNumbers_fits : ¬ NumericField.port.Fits (ascii "70000") := by
  rintro ⟨n, hn, hrange⟩
  have hnum : strtod (ascii "70000" ++ []) = .finite n := strtod_int hn.1 hrange.bits rfl
  have hdecimal : strtod (ascii "70000" ++ []) = .finite ((70000 : ℤ) : ℚ) :=
    strtod_int (Numeral.of_eq (numeral_decimal 70000) (by decide +kernel)) (by decide) rfl
  have hq : (n : ℚ) = ((70000 : ℤ) : ℚ) := Double.finite.inj (hnum.symm.trans hdecimal)
  have heq : n = 70000 := by exact_mod_cast hq
  have hhigh := hrange.2
  omega

/-- The port is not refused: 4464 is loaded. -/
theorem sampleNumbers_wrapped : ¬ TakenOrRefused sampleNumbers
    (loadServerConfig cLibrary (ascii "c.json") (List.Vector.replicate 16 0) {}
      { file := some sampleNumbers }) :=
  not_takenOrRefused rfl sampleNumbers_parses rfl sampleNumbers_fits

end Cppvless
