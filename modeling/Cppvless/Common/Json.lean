import Cppvless.Vless.Protocol

set_option autoImplicit false

/-! # The JSON of configuration files

`Json` and `JsonParser` of `common/config.cpp`, over the bytes that are left. A number is whatever
`strtod` makes of what follows, which is a parameter. Every function of the parser leaves fewer bytes
than it got, and says so in its type, which is why the recursion ends.

What a text parses to does not depend on what follows it, as long as a number ends where it seems to
(`Prints`). Each kind of value has its rule, so that a text can be read off as it was composed. -/

namespace Cppvless

/-- What the parser uses of the C library: `double`, `strtod` of a string, the `double` of an
    integer, and the conversion to `long long`. -/
structure Strtod where
  Double : Type
  strtod : Bytes → Double
  ofInt : Int → Double
  toLongLong : Double → Int

/-- `Json`, with the members that its kind uses. -/
inductive Json (D : Type)
  | null
  | bool (b : Bool)
  | number (num : D)
  | string (str : Bytes)
  | array (arr : List (Json D))
  | object (obj : List (Bytes × Json D))

namespace Json

variable {D : Type}

/-- `get`: the first member with a key. -/
def get (key : String) : Json D → Option (Json D)
  | .object obj => (obj.find? fun kv => kv.1 = ascii key).map Prod.snd
  | _ => none

/-- `isspace`, in the C locale -/
def isSpace (b : UInt8) : Bool := b = 32 || (9 ≤ b && b ≤ 13)

def isDigit (b : UInt8) : Bool := '0'.toUInt8 ≤ b && b ≤ '9'.toUInt8

end Json

namespace JsonParser

open Json

def skipWs (input : Bytes) : Bytes := input.dropWhile isSpace

def consume (c : UInt8) : Bytes → Option Bytes
  | [] => none
  | b :: rest => if b = c then some rest else none

def hexVal (c : UInt8) : Option Nat :=
  if '0'.toUInt8 ≤ c ∧ c ≤ '9'.toUInt8 then some (c.toNat - '0'.toNat)
  else if 'a'.toUInt8 ≤ c ∧ c ≤ 'f'.toUInt8 then some (10 + (c.toNat - 'a'.toNat))
  else if 'A'.toUInt8 ≤ c ∧ c ≤ 'F'.toUInt8 then some (10 + (c.toNat - 'A'.toNat))
  else none

/-- The UTF-8 of a code below 2^16. -/
def utf8 (code : Nat) : Bytes :=
  if code < 0x80 then [code.toUInt8]
  else if code < 0x800 then [(0xC0 ||| (code >>> 6)).toUInt8, (0x80 ||| (code &&& 0x3F)).toUInt8]
  else [(0xE0 ||| (code >>> 12)).toUInt8, (0x80 ||| ((code >>> 6) &&& 0x3F)).toUInt8,
    (0x80 ||| (code &&& 0x3F)).toUInt8]

/-- The byte of an escape sequence of one character. -/
def unescape (esc : UInt8) : Option UInt8 :=
  if esc = '"'.toUInt8 then some '"'.toUInt8
  else if esc = '\\'.toUInt8 then some '\\'.toUInt8
  else if esc = '/'.toUInt8 then some '/'.toUInt8
  else if esc = 'n'.toUInt8 then some '\n'.toUInt8
  else if esc = 't'.toUInt8 then some '\t'.toUInt8
  else if esc = 'r'.toUInt8 then some '\r'.toUInt8
  else if esc = 'b'.toUInt8 then some 8
  else if esc = 'f'.toUInt8 then some 12
  else none

/-- The loop of `parseString`. -/
def parseStringBody (out : Bytes) : Bytes → Option (Bytes × Bytes)
  | [] => none
  | c :: rest =>
      if c = '"'.toUInt8 then some (out, rest)
      else if c = '\\'.toUInt8 then
        match rest with
        | [] => none
        | esc :: rest =>
            if esc = 'u'.toUInt8 then
              match rest with
              | h₀ :: h₁ :: h₂ :: h₃ :: rest =>
                  match hexVal h₀, hexVal h₁, hexVal h₂, hexVal h₃ with
                  | some v₀, some v₁, some v₂, some v₃ =>
                      parseStringBody (out ++ utf8 (((v₀ * 16 + v₁) * 16 + v₂) * 16 + v₃)) rest
                  | _, _, _, _ => none
              | _ => none
            else
              match unescape esc with
              | none => none
              | some b => parseStringBody (out ++ [b]) rest
      else parseStringBody (out ++ [c]) rest

def parseString (input : Bytes) : Option (Bytes × Bytes) :=
  match consume '"'.toUInt8 input with
  | none => none
  | some rest => parseStringBody [] rest

/-- The characters the loop of `parseNumber` passes. -/
def numberChar (b : UInt8) : Bool :=
  isDigit b || b = '.'.toUInt8 || b = 'e'.toUInt8 || b = 'E'.toUInt8 || b = '+'.toUInt8 ||
    b = '-'.toUInt8

/-- `c_str()`: a string as C sees it. -/
def cString (s : Bytes) : Bytes := s.takeWhile (· ≠ 0)

variable (lib : Strtod)

def parseNumber (input : Bytes) : Option (Json lib.Double × Bytes) :=
  let start := (consume '-'.toUInt8 input).getD input
  let rest := start.dropWhile numberChar
  if rest.length = input.length then none
  else some (.number (lib.strtod (cString input)), rest)

def parseLiteral (lit : String) (j : Json lib.Double) (input : Bytes) :
    Option (Json lib.Double × Bytes) :=
  if input.take lit.length = ascii lit then some (j, input.drop lit.length) else none

/-! ## Everything that is parsed is taken away -/

theorem length_skipWs (input : Bytes) : (skipWs input).length ≤ input.length :=
  (List.dropWhile_sublist isSpace).length_le

theorem consume_eq_some {c : UInt8} {input rest : Bytes} :
    consume c input = some rest ↔ input = c :: rest := by
  cases input with
  | nil => simp [consume]
  | cons b bs =>
      simp only [consume]
      split
      · next h => simp [h]
      · next h => simp [h]

theorem length_of_consume {c : UInt8} {input rest : Bytes} (h : consume c input = some rest) :
    rest.length < input.length := by
  rw [consume_eq_some.1 h]
  exact Nat.lt_succ_self _

theorem length_of_consume_skipWs {c : UInt8} {input rest : Bytes}
    (h : consume c (skipWs input) = some rest) : rest.length < input.length :=
  (length_of_consume h).trans_le (length_skipWs input)

theorem length_of_parseStringBody {out input : Bytes} {r : Bytes × Bytes}
    (h : parseStringBody out input = some r) : r.2.length < input.length := by
  fun_induction parseStringBody out input with
  | case1 => exact absurd h nofun
  | case2 out rest =>
      rw [← Option.some.inj h]
      exact Nat.lt_succ_self _
  | case3 => exact absurd h nofun
  | case4 _ _ _ _ _ _ _ _ _ _ _ _ _ _ _ ih =>
      have := ih h
      simp only [List.length_cons]
      omega
  | case5 => exact absurd h nofun
  | case6 => exact absurd h nofun
  | case7 => exact absurd h nofun
  | case8 _ _ _ _ _ _ _ ih =>
      have := ih h
      simp only [List.length_cons]
      omega
  | case9 _ _ _ _ _ ih =>
      have := ih h
      simp only [List.length_cons]
      omega

theorem length_of_parseString {input : Bytes} {r : Bytes × Bytes}
    (h : parseString input = some r) : r.2.length < input.length := by
  unfold parseString at h
  split at h
  · exact absurd h nofun
  · next rest hconsume =>
      exact (length_of_parseStringBody h).trans (length_of_consume hconsume)

theorem length_of_parseNumber {input : Bytes} {r : Json lib.Double × Bytes}
    (h : parseNumber lib input = some r) : r.2.length < input.length := by
  simp only [parseNumber] at h
  split at h
  · exact absurd h nofun
  · next hne =>
      rw [← Option.some.inj h]
      refine Nat.lt_of_le_of_ne ((List.dropWhile_sublist numberChar).length_le.trans ?_) hne
      cases hconsume : consume '-'.toUInt8 input with
      | none => exact Nat.le_refl _
      | some rest => exact (length_of_consume hconsume).le

theorem length_of_parseLiteral {lit : String} {j : Json lib.Double} {input : Bytes}
    {r : Json lib.Double × Bytes} (hlit : 0 < lit.length) (h : parseLiteral lib lit j input = some r) :
    r.2.length < input.length := by
  unfold parseLiteral at h
  split at h
  · next htake =>
      have hlen := congrArg List.length htake
      simp only [List.length_take, ascii, List.length_map, String.length_toList] at hlen
      rw [← Option.some.inj h, List.length_drop]
      omega
  · exact absurd h nofun

/-! ## Values -/

/-- A value and the bytes after it. -/
abbrev Parsed (input : Bytes) : Type :=
  Option { r : Json lib.Double × Bytes // r.2.length < input.length }

mutual

def parseValue (input : Bytes) : Parsed lib input :=
  match input with
  | [] => none
  | c :: rest =>
      if c = '{'.toUInt8 then parseObject (c :: rest)
      else if c = '['.toUInt8 then parseArray (c :: rest)
      else if c = '"'.toUInt8 then
        match h : parseString (c :: rest) with
        | none => none
        | some r => some ⟨(.string r.1, r.2), length_of_parseString h⟩
      else if c = 't'.toUInt8 then
        match h : parseLiteral lib "true" (.bool true) (c :: rest) with
        | none => none
        | some r => some ⟨r, length_of_parseLiteral lib (by decide) h⟩
      else if c = 'f'.toUInt8 then
        match h : parseLiteral lib "false" (.bool false) (c :: rest) with
        | none => none
        | some r => some ⟨r, length_of_parseLiteral lib (by decide) h⟩
      else if c = 'n'.toUInt8 then
        match h : parseLiteral lib "null" .null (c :: rest) with
        | none => none
        | some r => some ⟨r, length_of_parseLiteral lib (by decide) h⟩
      else
        match h : parseNumber lib (c :: rest) with
        | none => none
        | some r => some ⟨r, length_of_parseNumber lib h⟩
termination_by (input.length, 1)

def parseArray (input : Bytes) : Parsed lib input :=
  match hopen : consume '['.toUInt8 input with
  | none => none
  | some rest =>
      match hclose : consume ']'.toUInt8 (skipWs rest) with
      | some rest' =>
          some ⟨(.array [], rest'), (length_of_consume_skipWs hclose).trans (length_of_consume hopen)⟩
      | none =>
          have hlt := (length_skipWs rest).trans_lt (length_of_consume hopen)
          match parseElements [] (skipWs rest) with
          | none => none
          | some ⟨r, hr⟩ => some ⟨r, hr.trans hlt⟩
termination_by (input.length, 0)
decreasing_by exact Prod.Lex.left _ _ hlt

/-- The loop of `parseArray`. -/
def parseElements (arr : List (Json lib.Double)) (input : Bytes) : Parsed lib input :=
  match parseValue (skipWs input) with
  | none => none
  | some ⟨(v, rest), hv⟩ =>
      match hclose : consume ']'.toUInt8 (skipWs rest) with
      | some rest' =>
          some ⟨(.array (arr ++ [v]), rest'),
            (length_of_consume_skipWs hclose).trans (hv.trans_le (length_skipWs input))⟩
      | none =>
          match hcomma : consume ','.toUInt8 (skipWs rest) with
          | none => none
          | some rest' =>
              have hlt := (length_of_consume_skipWs hcomma).trans (hv.trans_le (length_skipWs input))
              match parseElements (arr ++ [v]) rest' with
              | none => none
              | some ⟨r, hr⟩ => some ⟨r, hr.trans hlt⟩
termination_by (input.length, 2)
decreasing_by
  · have := length_skipWs input
    rcases Nat.lt_or_eq_of_le this with hlt | heq
    · exact Prod.Lex.left _ _ hlt
    · rw [heq]
      exact Prod.Lex.right _ (by decide)
  · exact Prod.Lex.left _ _ hlt

def parseObject (input : Bytes) : Parsed lib input :=
  match hopen : consume '{'.toUInt8 input with
  | none => none
  | some rest =>
      match hclose : consume '}'.toUInt8 (skipWs rest) with
      | some rest' =>
          some ⟨(.object [], rest'), (length_of_consume_skipWs hclose).trans (length_of_consume hopen)⟩
      | none =>
          have hlt := (length_skipWs rest).trans_lt (length_of_consume hopen)
          match parseMembers [] (skipWs rest) with
          | none => none
          | some ⟨r, hr⟩ => some ⟨r, hr.trans hlt⟩
termination_by (input.length, 0)
decreasing_by exact Prod.Lex.left _ _ hlt

/-- The loop of `parseObject`. -/
def parseMembers (obj : List (Bytes × Json lib.Double)) (input : Bytes) : Parsed lib input :=
  match hkey : parseString (skipWs input) with
  | none => none
  | some (key, rest) =>
      match hcolon : consume ':'.toUInt8 (skipWs rest) with
      | none => none
      | some rest' =>
          have hkeyLt := (length_of_parseString hkey).trans_le (length_skipWs input)
          have hlt := (length_skipWs rest').trans_lt ((length_of_consume_skipWs hcolon).trans hkeyLt)
          match parseValue (skipWs rest') with
          | none => none
          | some ⟨(v, rest''), hv⟩ =>
              match hclose : consume '}'.toUInt8 (skipWs rest'') with
              | some rest₃ =>
                  some ⟨(.object (obj ++ [(key, v)]), rest₃),
                    (length_of_consume_skipWs hclose).trans (hv.trans hlt)⟩
              | none =>
                  match hcomma : consume ','.toUInt8 (skipWs rest'') with
                  | none => none
                  | some rest₃ =>
                      have hlt' := (length_of_consume_skipWs hcomma).trans (hv.trans hlt)
                      match parseMembers (obj ++ [(key, v)]) rest₃ with
                      | none => none
                      | some ⟨r, hr⟩ => some ⟨r, hr.trans hlt'⟩
termination_by (input.length, 0)
decreasing_by
  · exact Prod.Lex.left _ _ hlt
  · exact Prod.Lex.left _ _ hlt'

end

def parseDocument (text : Bytes) : Option (Json lib.Double) :=
  match parseValue lib (skipWs text) with
  | none => none
  | some ⟨(v, rest), _⟩ => if skipWs rest = [] then some v else none

/-! ## What a text parses to -/

/-- What the functions return, without what they say of it. -/
def value (input : Bytes) : Option (Json lib.Double × Bytes) := (parseValue lib input).map Subtype.val

def elements (arr : List (Json lib.Double)) (input : Bytes) : Option (Json lib.Double × Bytes) :=
  (parseElements lib arr input).map Subtype.val

def members (obj : List (Bytes × Json lib.Double)) (input : Bytes) :
    Option (Json lib.Double × Bytes) :=
  (parseMembers lib obj input).map Subtype.val

variable {lib}

theorem consume_cons (c : UInt8) (rest : Bytes) : consume c (c :: rest) = some rest := if_pos rfl

theorem consume_ne {c : UInt8} {input : Bytes} (h : input.head? ≠ some c) : consume c input = none := by
  cases hconsume : consume c input with
  | none => rfl
  | some rest => exact absurd (congrArg List.head? (consume_eq_some.1 hconsume)) h

theorem value_object {rest : Bytes} (hclose : consume '}'.toUInt8 (skipWs rest) = none) :
    value lib ('{'.toUInt8 :: rest) = members lib [] (skipWs rest) := by
  unfold value members
  rw [parseValue, if_pos rfl, parseObject]
  split
  · next hopen => exact absurd ((consume_cons _ _).symm.trans hopen) nofun
  · next rest' hopen =>
      cases Option.some.inj ((consume_cons _ _).symm.trans hopen)
      split
      · next hc => exact absurd (hclose.symm.trans hc) nofun
      · cases parseMembers lib [] (skipWs rest) <;> rfl

theorem value_array {rest : Bytes} (hclose : consume ']'.toUInt8 (skipWs rest) = none) :
    value lib ('['.toUInt8 :: rest) = elements lib [] (skipWs rest) := by
  unfold value elements
  rw [parseValue, if_neg (by decide), if_pos rfl, parseArray]
  split
  · next hopen => exact absurd ((consume_cons _ _).symm.trans hopen) nofun
  · next rest' hopen =>
      cases Option.some.inj ((consume_cons _ _).symm.trans hopen)
      split
      · next hc => exact absurd (hclose.symm.trans hc) nofun
      · cases parseElements lib [] (skipWs rest) <;> rfl

theorem value_emptyArray {rest rest' : Bytes}
    (hclose : consume ']'.toUInt8 (skipWs rest) = some rest') :
    value lib ('['.toUInt8 :: rest) = some (.array [], rest') := by
  unfold value
  rw [parseValue, if_neg (by decide), if_pos rfl, parseArray]
  split
  · next hopen => exact absurd ((consume_cons _ _).symm.trans hopen) nofun
  · next rest'' hopen =>
      cases Option.some.inj ((consume_cons _ _).symm.trans hopen)
      split
      · next hc =>
          cases Option.some.inj (hclose.symm.trans hc)
          rfl
      · next hc => exact absurd (hclose.symm.trans hc) nofun

theorem value_emptyObject {rest rest' : Bytes}
    (hclose : consume '}'.toUInt8 (skipWs rest) = some rest') :
    value lib ('{'.toUInt8 :: rest) = some (.object [], rest') := by
  unfold value
  rw [parseValue, if_pos rfl, parseObject]
  split
  · next hopen => exact absurd ((consume_cons _ _).symm.trans hopen) nofun
  · next rest'' hopen =>
      cases Option.some.inj ((consume_cons _ _).symm.trans hopen)
      split
      · next hc =>
          cases Option.some.inj (hclose.symm.trans hc)
          rfl
      · next hc => exact absurd (hclose.symm.trans hc) nofun

theorem value_quote (rest : Bytes) :
    value lib ('"'.toUInt8 :: rest) = (parseStringBody [] rest).map fun r => (.string r.1, r.2) := by
  have hparse : parseString ('"'.toUInt8 :: rest) = parseStringBody [] rest := by
    rw [parseString, consume_cons]
  unfold value
  rw [parseValue, if_neg (by decide), if_neg (by decide), if_pos rfl]
  split
  · next hnone => simp [← hparse, hnone]
  · next r hsome => simp [← hparse, hsome]

theorem value_string {rest : Bytes} {r : Bytes × Bytes} (h : parseStringBody [] rest = some r) :
    value lib ('"'.toUInt8 :: rest) = some (.string r.1, r.2) := by
  rw [value_quote, h]
  rfl

theorem length_ascii (lit : String) : (ascii lit).length = lit.length := by
  rw [ascii, List.length_map, String.length_toList]

theorem parseLiteral_append (lit : String) (j : Json lib.Double) (rest : Bytes) :
    parseLiteral lib lit j (ascii lit ++ rest) = some (j, rest) := by
  rw [parseLiteral, ← length_ascii, List.take_left, if_pos rfl, List.drop_left]

theorem value_true (rest : Bytes) :
    value lib ('t'.toUInt8 :: rest) = parseLiteral lib "true" (.bool true) ('t'.toUInt8 :: rest) := by
  unfold value
  rw [parseValue, if_neg (by decide), if_neg (by decide), if_neg (by decide), if_pos rfl]
  split
  · next hnone => exact hnone.symm
  · next r hsome => exact hsome.symm

theorem value_false (rest : Bytes) :
    value lib ('f'.toUInt8 :: rest) = parseLiteral lib "false" (.bool false) ('f'.toUInt8 :: rest) := by
  unfold value
  rw [parseValue, if_neg (by decide), if_neg (by decide), if_neg (by decide), if_neg (by decide),
    if_pos rfl]
  split
  · next hnone => exact hnone.symm
  · next r hsome => exact hsome.symm

theorem value_null (rest : Bytes) :
    value lib ('n'.toUInt8 :: rest) = parseLiteral lib "null" .null ('n'.toUInt8 :: rest) := by
  unfold value
  rw [parseValue, if_neg (by decide), if_neg (by decide), if_neg (by decide), if_neg (by decide),
    if_neg (by decide), if_pos rfl]
  split
  · next hnone => exact hnone.symm
  · next r hsome => exact hsome.symm

/-- The other bytes a value can start with. -/
def startsNumber (c : UInt8) : Bool := isDigit c || c = '-'.toUInt8

/-- A value that starts like none of the others is a number. -/
theorem value_other {c : UInt8} (rest : Bytes)
    (hc : c ≠ '{'.toUInt8 ∧ c ≠ '['.toUInt8 ∧ c ≠ '"'.toUInt8 ∧ c ≠ 't'.toUInt8 ∧ c ≠ 'f'.toUInt8 ∧
      c ≠ 'n'.toUInt8) :
    value lib (c :: rest) = parseNumber lib (c :: rest) := by
  unfold value
  rw [parseValue, if_neg hc.1, if_neg hc.2.1, if_neg hc.2.2.1, if_neg hc.2.2.2.1,
    if_neg hc.2.2.2.2.1, if_neg hc.2.2.2.2.2]
  split
  · next hnone => exact hnone.symm
  · next r hsome => exact hsome.symm

theorem value_number {c : UInt8} {rest : Bytes} (hc : startsNumber c = true) :
    value lib (c :: rest) = parseNumber lib (c :: rest) := by
  refine value_other rest ⟨?_, ?_, ?_, ?_, ?_, ?_⟩ <;> (rintro rfl; revert hc; decide)

/-- No value starts with the end of an array. -/
theorem value_close (rest : Bytes) : value lib (']'.toUInt8 :: rest) = none := by
  have hconsume : consume '-'.toUInt8 (']'.toUInt8 :: rest) = none :=
    consume_ne (show some ']'.toUInt8 ≠ some '-'.toUInt8 by decide)
  rw [value_other rest (by decide)]
  simp only [parseNumber, hconsume, Option.getD_none]
  exact if_pos (by rw [List.dropWhile_cons_of_neg (by decide)])

theorem elements_eq (arr : List (Json lib.Double)) (input : Bytes) :
    elements lib arr input =
      match value lib (skipWs input) with
      | none => none
      | some (v, rest) =>
          match consume ']'.toUInt8 (skipWs rest) with
          | some rest' => some (.array (arr ++ [v]), rest')
          | none =>
              match consume ','.toUInt8 (skipWs rest) with
              | none => none
              | some rest' => elements lib (arr ++ [v]) rest' := by
  unfold value elements
  rw [parseElements]
  cases hparse : parseValue lib (skipWs input) with
  | none => rfl
  | some r =>
      obtain ⟨⟨v, rest⟩, hlt⟩ := r
      dsimp only [Option.map_some]
      split
      · next hc => simp [hc]
      · next hc =>
          simp only [hc]
          split
          · next hcomma => simp [hcomma]
          · next rest' hcomma =>
              simp only [hcomma]
              cases parseElements lib (arr ++ [v]) rest' <;> rfl

theorem members_eq (obj : List (Bytes × Json lib.Double)) (input : Bytes) :
    members lib obj input =
      match parseString (skipWs input) with
      | none => none
      | some (key, rest) =>
          match consume ':'.toUInt8 (skipWs rest) with
          | none => none
          | some rest =>
              match value lib (skipWs rest) with
              | none => none
              | some (v, rest) =>
                  match consume '}'.toUInt8 (skipWs rest) with
                  | some rest => some (.object (obj ++ [(key, v)]), rest)
                  | none =>
                      match consume ','.toUInt8 (skipWs rest) with
                      | none => none
                      | some rest => members lib (obj ++ [(key, v)]) rest := by
  unfold value members
  rw [parseMembers]
  split
  · next hnone => simp [hnone]
  · next key rest hkey =>
      simp only [hkey]
      split
      · next hnone => simp [hnone]
      · next rest' hcolon =>
          simp only [hcolon]
          cases hparse : parseValue lib (skipWs rest') with
          | none => rfl
          | some r =>
              obtain ⟨⟨v, rest''⟩, hlt⟩ := r
              dsimp only [Option.map_some]
              split
              · next hc => simp [hc]
              · next hc =>
                  simp only [hc]
                  split
                  · next hcomma => simp [hcomma]
                  · next rest₃ hcomma =>
                      simp only [hcomma]
                      cases parseMembers lib (obj ++ [(key, v)]) rest₃ <;> rfl

theorem parseDocument_eq {text rest : Bytes} {v : Json lib.Double}
    (hv : value lib (skipWs text) = some (v, rest)) (hrest : skipWs rest = []) :
    parseDocument lib text = some v := by
  obtain ⟨⟨_, hlt⟩, hparse, rfl⟩ := Option.map_eq_some_iff.1 hv
  rw [parseDocument, hparse]
  exact if_pos hrest

end JsonParser

/-! ## Texts -/

/-- `jsonEscape` of a character. -/
def escape (c : UInt8) : Bytes :=
  if c = '"'.toUInt8 then ['\\'.toUInt8, '"'.toUInt8]
  else if c = '\\'.toUInt8 then ['\\'.toUInt8, '\\'.toUInt8]
  else if c = '\n'.toUInt8 then ['\\'.toUInt8, 'n'.toUInt8]
  else if c = '\t'.toUInt8 then ['\\'.toUInt8, 't'.toUInt8]
  else if c = '\r'.toUInt8 then ['\\'.toUInt8, 'r'.toUInt8]
  else [c]

def jsonEscape (s : Bytes) : Bytes := s.flatMap escape

/-- A string in quotes. -/
def quoted (s : Bytes) : Bytes := '"'.toUInt8 :: (jsonEscape s ++ ['"'.toUInt8])

/-- An integer as a stream prints it. -/
def decimal (n : Int) : Bytes :=
  let digits := (Nat.toDigits 10 n.natAbs).map Char.toUInt8
  if n < 0 then '-'.toUInt8 :: digits else digits

/-- A member of an object. -/
def member (key : String) (text : Bytes) : Bytes :=
  '"'.toUInt8 :: (ascii key ++ ['"'.toUInt8, ':'.toUInt8, ' '.toUInt8] ++ text)

/-- A line of an indented text. -/
def line (indent : Nat) (text : Bytes) : Bytes :=
  List.replicate indent ' '.toUInt8 ++ text ++ ['\n'.toUInt8]

namespace JsonParser

/-- The number before ends here, for `strtod` and for the parser. -/
def endsNumber (rest : Bytes) : Bool :=
  rest.head?.all fun b => !(numberChar b || 'a'.toUInt8 ≤ b && b ≤ 'z'.toUInt8 ||
    'A'.toUInt8 ≤ b && b ≤ 'Z'.toUInt8)

/-- An integer of at most 32 bits, with or without a sign. -/
def FitsInt (n : Int) : Prop := -2 ^ 31 ≤ n ∧ n < 2 ^ 32

end JsonParser

open Json JsonParser

/-- `strtod` is exact on decimal integers of at most 32 bits. -/
structure Strtod.Exact (lib : Strtod) : Prop where
  strtod : ∀ n rest, FitsInt n → endsNumber rest = true →
    lib.strtod (decimal n ++ rest) = lib.ofInt n
  toLongLong : ∀ n, FitsInt n → lib.toLongLong (lib.ofInt n) = n

namespace JsonParser

variable {lib : Strtod}

def Ws (w : Bytes) : Prop := ∀ b ∈ w, isSpace b = true

instance (w : Bytes) : Decidable (Ws w) := List.decidableBAll (fun b => isSpace b = true) w

/-- The text is one of a value, after white space perhaps. -/
def Prints (v : Json lib.Double) (text : Bytes) : Prop :=
  ∀ rest, endsNumber rest = true → value lib (skipWs (text ++ rest)) = some (v, rest)

/-- The text is one of elements, up to the end of the array. -/
def PrintsElements (vs : List (Json lib.Double)) (text : Bytes) : Prop :=
  ∀ arr rest, elements lib arr (text ++ ']'.toUInt8 :: rest) = some (.array (arr ++ vs), rest)

/-- The text is one of members, up to the end of the object. -/
def PrintsMembers (ms : List (Bytes × Json lib.Double)) (text : Bytes) : Prop :=
  ∀ obj rest, members lib obj (text ++ '}'.toUInt8 :: rest) = some (.object (obj ++ ms), rest)

theorem skipWs_append {w : Bytes} (hw : Ws w) (rest : Bytes) : skipWs (w ++ rest) = skipWs rest := by
  induction w with
  | nil => rfl
  | cons b w ih =>
      have hb : isSpace b = true := hw b (by simp)
      rw [skipWs, List.cons_append, List.dropWhile_cons_of_pos hb]
      exact ih fun b' hb' => hw b' (by simp [hb'])

theorem skipWs_cons {c : UInt8} (hc : isSpace c = false) (rest : Bytes) :
    skipWs (c :: rest) = c :: rest := List.dropWhile_cons_of_neg (by simp [hc])

theorem skipWs_skipWs (input : Bytes) : skipWs (skipWs input) = skipWs input := by
  induction input with
  | nil => rfl
  | cons b rest ih =>
      cases hb : isSpace b with
      | true =>
          have hskip : skipWs (b :: rest) = skipWs rest := List.dropWhile_cons_of_pos hb
          rw [hskip, ih]
      | false => rw [skipWs_cons hb, skipWs_cons hb]

theorem elements_skipWs (arr : List (Json lib.Double)) (input : Bytes) :
    elements lib arr (skipWs input) = elements lib arr input := by
  rw [elements_eq, elements_eq arr input, skipWs_skipWs]

theorem members_skipWs (obj : List (Bytes × Json lib.Double)) (input : Bytes) :
    members lib obj (skipWs input) = members lib obj input := by
  rw [members_eq, members_eq obj input, skipWs_skipWs]

/-- White space and separators end a number. -/
theorem endsNumber_append {w rest : Bytes} (hw : Ws w) (hrest : endsNumber rest = true) :
    endsNumber (w ++ rest) = true := by
  cases w with
  | nil => exact hrest
  | cons b w =>
      have hb : isSpace b = true := hw b (by simp)
      have hends : ∀ n < 256, isSpace (UInt8.ofNat n) = true → endsNumber [UInt8.ofNat n] = true := by
        decide +kernel
      have hspace := hends b.toNat b.toNat_lt
      rw [UInt8.ofNat_toNat] at hspace
      exact hspace hb

/-! ## Strings and numbers -/

theorem parseStringBody_quote (out rest : Bytes) :
    parseStringBody out ('"'.toUInt8 :: rest) = some (out, rest) := by
  rw [parseStringBody.eq_def]
  exact if_pos rfl

theorem parseStringBody_plain {c : UInt8} (hquote : c ≠ '"'.toUInt8) (hback : c ≠ '\\'.toUInt8)
    (out rest : Bytes) : parseStringBody out (c :: rest) = parseStringBody (out ++ [c]) rest := by
  rw [parseStringBody.eq_def]
  simp only [if_neg hquote, if_neg hback]

theorem parseStringBody_unescape {esc b : UInt8} (hesc : esc ≠ 'u'.toUInt8)
    (hb : unescape esc = some b) (out rest : Bytes) :
    parseStringBody out ('\\'.toUInt8 :: esc :: rest) = parseStringBody (out ++ [b]) rest := by
  rw [parseStringBody.eq_def]
  simp only [show ¬ '\\'.toUInt8 = '"'.toUInt8 by decide, if_false, if_true, if_neg hesc, hb]

theorem parseStringBody_escape (out : Bytes) (c : UInt8) (rest : Bytes) :
    parseStringBody out (escape c ++ rest) = parseStringBody (out ++ [c]) rest := by
  have hescaped : ∀ esc b : UInt8, esc ≠ 'u'.toUInt8 → unescape esc = some b →
      parseStringBody out (['\\'.toUInt8, esc] ++ rest) = parseStringBody (out ++ [b]) rest :=
    fun _ _ hesc hb => parseStringBody_unescape hesc hb out rest
  unfold escape
  split
  · next h => exact h ▸ hescaped '"'.toUInt8 '"'.toUInt8 (by decide) (by decide)
  · next hquote =>
      split
      · next h => exact h ▸ hescaped '\\'.toUInt8 '\\'.toUInt8 (by decide) (by decide)
      · next hback =>
          split
          · next h => exact h ▸ hescaped 'n'.toUInt8 '\n'.toUInt8 (by decide) (by decide)
          · split
            · next h => exact h ▸ hescaped 't'.toUInt8 '\t'.toUInt8 (by decide) (by decide)
            · split
              · next h => exact h ▸ hescaped 'r'.toUInt8 '\r'.toUInt8 (by decide) (by decide)
              · exact parseStringBody_plain hquote hback out rest

theorem parseStringBody_jsonEscape (out s rest : Bytes) :
    parseStringBody out (jsonEscape s ++ '"'.toUInt8 :: rest) = some (out ++ s, rest) := by
  induction s generalizing out with
  | nil =>
      rw [List.append_nil]
      exact parseStringBody_quote out rest
  | cons c s ih =>
      have hsplit : jsonEscape (c :: s) ++ '"'.toUInt8 :: rest =
          escape c ++ (jsonEscape s ++ '"'.toUInt8 :: rest) := by
        simp [jsonEscape]
      rw [hsplit, parseStringBody_escape, ih]
      simp

theorem prints_string (s : Bytes) : Prints (.string s : Json lib.Double) (quoted s) := by
  intro rest _
  have hbody := parseStringBody_jsonEscape [] s rest
  have htext : quoted s ++ rest = '"'.toUInt8 :: (jsonEscape s ++ '"'.toUInt8 :: rest) := by
    simp [quoted]
  rw [htext, skipWs_cons (by decide), value_string hbody]
  rfl

/-- A digit is its ASCII code. -/
theorem toNat_toUInt8 {c : Char} (hc : c.isDigit = true) :
    c.toUInt8.toNat = c.toNat ∧ 48 ≤ c.toNat ∧ c.toNat ≤ 57 := by
  simp only [Char.isDigit, Bool.and_eq_true, decide_eq_true_eq, ge_iff_le, UInt32.le_iff_toNat_le] at hc
  have h₀ : 48 ≤ c.toNat := hc.1
  have h₉ : c.toNat ≤ 57 := hc.2
  refine ⟨?_, h₀, h₉⟩
  show c.toNat % 256 = c.toNat
  omega

theorem isDigit_of_mem_toDigits {n : Nat} {b : UInt8}
    (hb : b ∈ (Nat.toDigits 10 n).map Char.toUInt8) : isDigit b = true := by
  obtain ⟨c, hc, rfl⟩ := List.mem_map.1 hb
  obtain ⟨hval, h₀, h₉⟩ := toNat_toUInt8 (Nat.isDigit_of_mem_toDigits (by decide) (by decide) hc)
  simp only [isDigit, Bool.and_eq_true, decide_eq_true_eq, UInt8.le_iff_toNat_le, hval]
  exact ⟨h₀, h₉⟩

theorem numberChar_of_isDigit {b : UInt8} (hb : isDigit b = true) : numberChar b = true := by
  simp [numberChar, hb]

theorem dropWhile_endsNumber {rest : Bytes} (hrest : endsNumber rest = true) :
    rest.dropWhile numberChar = rest := by
  cases rest with
  | nil => rfl
  | cons b rest =>
      refine List.dropWhile_cons_of_neg fun hb => ?_
      simp [endsNumber, hb] at hrest

/-- The digits of a number, and whether there is a sign before them. -/
theorem decimal_eq (n : Int) : ∃ c ds, (Nat.toDigits 10 n.natAbs).map Char.toUInt8 = c :: ds ∧
    (decimal n = c :: ds ∨ decimal n = '-'.toUInt8 :: c :: ds) ∧ ∀ b ∈ c :: ds, isDigit b = true := by
  cases hdigits : (Nat.toDigits 10 n.natAbs).map Char.toUInt8 with
  | nil => exact absurd (List.map_eq_nil_iff.1 hdigits) Nat.toDigits_ne_nil
  | cons c ds =>
      refine ⟨c, ds, rfl, ?_, fun b hb => isDigit_of_mem_toDigits (hdigits ▸ hb)⟩
      unfold decimal
      rw [hdigits]
      split
      · exact .inr rfl
      · exact .inl rfl

/-- A number as the parser scans it: a digit or a sign, and what it passes. -/
structure NumberChars (text : Bytes) : Prop where
  starts : ∃ b bs, text = b :: bs ∧ startsNumber b = true
  chars : ∀ b ∈ text, numberChar b = true

theorem numberChars_decimal (n : Int) : NumberChars (decimal n) := by
  obtain ⟨c, ds, -, hdecimal, hdigit⟩ := decimal_eq n
  constructor
  · rcases hdecimal with hdecimal | hdecimal
    · exact ⟨c, ds, hdecimal, by simp [startsNumber, hdigit c]⟩
    · exact ⟨_, _, hdecimal, by decide⟩
  · intro b hb
    rcases hdecimal with hdecimal | hdecimal
    · exact numberChar_of_isDigit (hdigit b (hdecimal ▸ hb))
    · rw [hdecimal] at hb
      rcases List.mem_cons.1 hb with rfl | hb
      · decide
      · exact numberChar_of_isDigit (hdigit b hb)

/-- The parser stops where the number ends. -/
theorem parseNumber_chars {text rest : Bytes} (h : NumberChars text) (hrest : endsNumber rest = true) :
    parseNumber lib (text ++ rest) =
      some (.number (lib.strtod (cString (text ++ rest))), rest) := by
  have hdrop : ∀ bs : Bytes, (∀ b ∈ bs, numberChar b = true) →
      (bs ++ rest).dropWhile numberChar = rest := by
    intro bs hbs
    rw [List.dropWhile_append_of_pos hbs, dropWhile_endsNumber hrest]
  have hstart : ((consume '-'.toUInt8 (text ++ rest)).getD (text ++ rest)).dropWhile numberChar =
      rest := by
    obtain ⟨b, bs, rfl, -⟩ := h.starts
    by_cases hb : b = '-'.toUInt8
    · rw [hb, List.cons_append, consume_cons, Option.getD_some]
      exact hdrop bs fun b hb => h.chars b (by simp [hb])
    · rw [consume_ne (by simpa using hb), Option.getD_none]
      exact hdrop _ h.chars
  have hlen : ¬ rest.length = (text ++ rest).length := by
    obtain ⟨b, bs, rfl, -⟩ := h.starts
    simp
    omega
  unfold parseNumber
  simp only [hstart, if_neg hlen]

/-- No character of a number ends a C string. -/
theorem cString_chars {text : Bytes} (h : NumberChars text) (rest : Bytes) :
    cString (text ++ rest) = text ++ cString rest := by
  refine List.takeWhile_append_of_pos fun b hb => ?_
  have hzero : b ≠ 0 := by
    rintro rfl
    exact absurd (h.chars 0 hb) (by decide)
  simpa using hzero

theorem endsNumber_cString {rest : Bytes} (hrest : endsNumber rest = true) :
    endsNumber (cString rest) = true := by
  cases rest with
  | nil => rfl
  | cons b rest =>
      unfold cString
      by_cases hb : b = 0
      · simp [hb, endsNumber]
      · rw [List.takeWhile_cons_of_pos (by simpa using hb)]
        exact hrest

/-- A number that the library reads as `num`, whatever ends it. -/
theorem prints_number {text : Bytes} (h : NumberChars text) {num : lib.Double}
    (hnum : ∀ rest, endsNumber rest = true → lib.strtod (text ++ rest) = num) :
    Prints (.number num : Json lib.Double) text := by
  intro rest hrest
  have hnumber : parseNumber lib (text ++ rest) = _ := parseNumber_chars h hrest
  rw [cString_chars h, hnum _ (endsNumber_cString hrest)] at hnumber
  obtain ⟨b, bs, rfl, hstarts⟩ := h.starts
  rw [List.cons_append] at hnumber ⊢
  have hspace : isSpace b = false := by
    have hall : ∀ n < 256, startsNumber (UInt8.ofNat n) = true → isSpace (UInt8.ofNat n) = false := by
      decide +kernel
    have hb := hall b.toNat b.toNat_lt
    rw [UInt8.ofNat_toNat] at hb
    exact hb hstarts
  rw [skipWs_cons hspace, value_number hstarts, hnumber]

theorem prints_decimal (hexact : lib.Exact) {n : Int} (hn : FitsInt n) :
    Prints (.number (lib.ofInt n) : Json lib.Double) (decimal n) :=
  prints_number (numberChars_decimal n) fun _ hrest => hexact.strtod n _ hn hrest

theorem prints_literal {lit : String} {j : Json lib.Double} {c : UInt8} {cs : Bytes}
    (hlit : ascii lit = c :: cs) (hc : isSpace c = false)
    (hvalue : ∀ rest, value lib (c :: rest) = parseLiteral lib lit j (c :: rest)) :
    Prints j (ascii lit) := by
  intro rest _
  have hparse := parseLiteral_append lit j rest
  rw [hlit, List.cons_append] at hparse ⊢
  rw [skipWs_cons hc, hvalue, hparse]

theorem prints_null : Prints (.null : Json lib.Double) (ascii "null") :=
  prints_literal (show ascii "null" = 'n'.toUInt8 :: ascii "ull" by decide) (by decide) value_null

theorem prints_bool (b : Bool) :
    Prints (.bool b : Json lib.Double) (if b then ascii "true" else ascii "false") := by
  cases b with
  | true =>
      exact prints_literal (show ascii "true" = 't'.toUInt8 :: ascii "rue" by decide) (by decide)
        value_true
  | false =>
      exact prints_literal (show ascii "false" = 'f'.toUInt8 :: ascii "alse" by decide) (by decide)
        value_false

/-! ## Arrays and objects -/

theorem Prints.ws {v : Json lib.Double} {w text : Bytes} (h : Prints v text) (hw : Ws w) :
    Prints v (w ++ text) := by
  intro rest hrest
  rw [List.append_assoc, skipWs_append hw]
  exact h rest hrest

theorem PrintsElements.ws {vs : List (Json lib.Double)} {w text : Bytes} (h : PrintsElements vs text)
    (hw : Ws w) : PrintsElements vs (w ++ text) := by
  intro arr rest
  rw [List.append_assoc, ← elements_skipWs, skipWs_append hw, elements_skipWs]
  exact h arr rest

theorem PrintsMembers.ws {ms : List (Bytes × Json lib.Double)} {w text : Bytes}
    (h : PrintsMembers ms text) (hw : Ws w) : PrintsMembers ms (w ++ text) := by
  intro obj rest
  rw [List.append_assoc, ← members_skipWs, skipWs_append hw, members_skipWs]
  exact h obj rest

theorem printsElements_last {v : Json lib.Double} {text w : Bytes} (hv : Prints v text) (hw : Ws w) :
    PrintsElements [v] (text ++ w) := by
  intro arr rest
  have hrest : endsNumber (w ++ ']'.toUInt8 :: rest) = true := endsNumber_append hw rfl
  rw [elements_eq, List.append_assoc, hv _ hrest]
  simp only [skipWs_append hw, skipWs_cons (show isSpace ']'.toUInt8 = false by decide), consume_cons]

theorem printsElements_cons {v : Json lib.Double} {vs : List (Json lib.Double)} {text w texts : Bytes}
    (hv : Prints v text) (hw : Ws w) (hvs : PrintsElements vs texts) :
    PrintsElements (v :: vs) (text ++ (w ++ ','.toUInt8 :: texts)) := by
  intro arr rest
  have hrest : endsNumber (w ++ ','.toUInt8 :: (texts ++ ']'.toUInt8 :: rest)) = true :=
    endsNumber_append hw rfl
  have hclose : consume ']'.toUInt8 (','.toUInt8 :: (texts ++ ']'.toUInt8 :: rest)) = none :=
    consume_ne (show some ','.toUInt8 ≠ some ']'.toUInt8 by decide)
  rw [elements_eq, List.append_assoc, List.append_assoc, List.cons_append, hv _ hrest]
  simp only [skipWs_append hw, skipWs_cons (show isSpace ','.toUInt8 = false by decide), hclose,
    consume_cons]
  rw [hvs, List.append_assoc, List.singleton_append]

/-- The text is one of a member, up to what ends its value. -/
def PrintsMember (key : Bytes) (v : Json lib.Double) (text : Bytes) : Prop :=
  ∀ obj rest, endsNumber rest = true →
    members lib obj (text ++ rest) =
      match consume '}'.toUInt8 (skipWs rest) with
      | some rest => some (.object (obj ++ [(key, v)]), rest)
      | none =>
          match consume ','.toUInt8 (skipWs rest) with
          | none => none
          | some rest => members lib (obj ++ [(key, v)]) rest

/-- A quoted key, a colon and a value, with white space around the colon. -/
theorem printsMember {key w₁ w₂ text : Bytes} {v : Json lib.Double} (hw₁ : Ws w₁) (hw₂ : Ws w₂)
    (hv : Prints v text) : PrintsMember key v (quoted key ++ (w₁ ++ ':'.toUInt8 :: (w₂ ++ text))) := by
  intro obj rest hrest
  have htext : quoted key ++ (w₁ ++ ':'.toUInt8 :: (w₂ ++ text)) ++ rest = '"'.toUInt8 ::
      (jsonEscape key ++ '"'.toUInt8 :: (w₁ ++ ':'.toUInt8 :: (w₂ ++ (text ++ rest)))) := by
    simp [quoted]
  have hkey : parseString (skipWs (quoted key ++ (w₁ ++ ':'.toUInt8 :: (w₂ ++ text)) ++ rest)) =
      some (key, w₁ ++ ':'.toUInt8 :: (w₂ ++ (text ++ rest))) := by
    rw [htext, skipWs_cons (by decide), parseString, consume_cons]
    exact parseStringBody_jsonEscape [] _ _
  rw [members_eq, hkey]
  simp only [skipWs_append hw₁, skipWs_cons (show isSpace ':'.toUInt8 = false by decide), consume_cons,
    skipWs_append hw₂, hv rest hrest]

theorem PrintsMember.last {key text w : Bytes} {v : Json lib.Double} (h : PrintsMember key v text)
    (hw : Ws w) : PrintsMembers [(key, v)] (text ++ w) := by
  intro obj rest
  have hrest : endsNumber (w ++ '}'.toUInt8 :: rest) = true := endsNumber_append hw rfl
  rw [List.append_assoc, h obj _ hrest]
  simp only [skipWs_append hw, skipWs_cons (show isSpace '}'.toUInt8 = false by decide), consume_cons]

theorem PrintsMember.cons {key text w texts : Bytes} {v : Json lib.Double}
    {ms : List (Bytes × Json lib.Double)} (h : PrintsMember key v text) (hw : Ws w)
    (hms : PrintsMembers ms texts) :
    PrintsMembers ((key, v) :: ms) (text ++ (w ++ ','.toUInt8 :: texts)) := by
  intro obj rest
  have hrest : endsNumber (w ++ ','.toUInt8 :: (texts ++ '}'.toUInt8 :: rest)) = true :=
    endsNumber_append hw rfl
  have hclose : consume '}'.toUInt8 (','.toUInt8 :: (texts ++ '}'.toUInt8 :: rest)) = none :=
    consume_ne (show some ','.toUInt8 ≠ some '}'.toUInt8 by decide)
  rw [List.append_assoc, List.append_assoc, List.cons_append, h obj _ hrest]
  simp only [skipWs_append hw, skipWs_cons (show isSpace ','.toUInt8 = false by decide), hclose,
    consume_cons]
  rw [hms, List.append_assoc, List.singleton_append]

/-- A key that is written as it is. -/
def Plain (key : String) : Prop := jsonEscape (ascii key) = ascii key

instance (key : String) : Decidable (Plain key) :=
  inferInstanceAs (Decidable (jsonEscape (ascii key) = ascii key))

theorem printsMember_plain {key : String} (hkey : Plain key) {v : Json lib.Double} {text : Bytes}
    (hv : Prints v text) : PrintsMember (ascii key) v (member key text) := by
  have hspace : Ws [' '.toUInt8] := by decide
  have hempty : Ws [] := by decide
  have htext : member key text =
      quoted (ascii key) ++ ([] ++ ':'.toUInt8 :: ([' '.toUInt8] ++ text)) := by
    rw [quoted, hkey]
    simp [member]
  rw [htext]
  exact printsMember hempty hspace hv

theorem printsMembers_last {key : String} (hkey : Plain key) {v : Json lib.Double} {text w : Bytes}
    (hv : Prints v text) (hw : Ws w) : PrintsMembers [(ascii key, v)] (member key text ++ w) :=
  (printsMember_plain hkey hv).last hw

theorem printsMembers_cons {key : String} (hkey : Plain key) {v : Json lib.Double}
    {ms : List (Bytes × Json lib.Double)} {text texts : Bytes} (hv : Prints v text)
    (hms : PrintsMembers ms texts) :
    PrintsMembers ((ascii key, v) :: ms) (member key text ++ ','.toUInt8 :: texts) :=
  (printsMember_plain hkey hv).cons (w := []) nofun hms

/-- Elements do not start with the end of an array. -/
theorem PrintsElements.not_closed {vs : List (Json lib.Double)} {text : Bytes}
    (h : PrintsElements vs text) (rest : Bytes) :
    consume ']'.toUInt8 (skipWs (text ++ ']'.toUInt8 :: rest)) = none := by
  cases hclose : consume ']'.toUInt8 (skipWs (text ++ ']'.toUInt8 :: rest)) with
  | none => rfl
  | some rest' =>
      have hnone := h [] rest
      rw [elements_eq, consume_eq_some.1 hclose, value_close] at hnone
      exact absurd hnone nofun

theorem PrintsMembers.not_closed {ms : List (Bytes × Json lib.Double)} {text : Bytes}
    (h : PrintsMembers ms text) (rest : Bytes) :
    consume '}'.toUInt8 (skipWs (text ++ '}'.toUInt8 :: rest)) = none := by
  cases hclose : consume '}'.toUInt8 (skipWs (text ++ '}'.toUInt8 :: rest)) with
  | none => rfl
  | some rest' =>
      have hstring : parseString ('}'.toUInt8 :: rest') = none := by
        have hconsume : consume '"'.toUInt8 ('}'.toUInt8 :: rest') = none :=
          consume_ne (show some '}'.toUInt8 ≠ some '"'.toUInt8 by decide)
        rw [parseString, hconsume]
      have hnone := h [] rest
      rw [members_eq, consume_eq_some.1 hclose, hstring] at hnone
      exact absurd hnone nofun

theorem prints_array {vs : List (Json lib.Double)} {text : Bytes} (h : PrintsElements vs text) :
    Prints (.array vs) ('['.toUInt8 :: (text ++ [']'.toUInt8])) := by
  intro rest _
  have htext : '['.toUInt8 :: (text ++ [']'.toUInt8]) ++ rest =
      '['.toUInt8 :: (text ++ ']'.toUInt8 :: rest) := by
    simp
  rw [htext, skipWs_cons (by decide), value_array (h.not_closed rest), elements_skipWs]
  exact h [] rest

theorem prints_emptyArray {w : Bytes} (hw : Ws w) :
    Prints (.array [] : Json lib.Double) ('['.toUInt8 :: (w ++ [']'.toUInt8])) := by
  intro rest _
  have htext : '['.toUInt8 :: (w ++ [']'.toUInt8]) ++ rest =
      '['.toUInt8 :: (w ++ ']'.toUInt8 :: rest) := by
    simp
  have hclose : consume ']'.toUInt8 (skipWs (w ++ ']'.toUInt8 :: rest)) = some rest := by
    rw [skipWs_append hw, skipWs_cons (by decide), consume_cons]
  rw [htext, skipWs_cons (by decide), value_emptyArray hclose]

theorem prints_emptyObject {w : Bytes} (hw : Ws w) :
    Prints (.object [] : Json lib.Double) ('{'.toUInt8 :: (w ++ ['}'.toUInt8])) := by
  intro rest _
  have htext : '{'.toUInt8 :: (w ++ ['}'.toUInt8]) ++ rest =
      '{'.toUInt8 :: (w ++ '}'.toUInt8 :: rest) := by
    simp
  have hclose : consume '}'.toUInt8 (skipWs (w ++ '}'.toUInt8 :: rest)) = some rest := by
    rw [skipWs_append hw, skipWs_cons (by decide), consume_cons]
  rw [htext, skipWs_cons (by decide), value_emptyObject hclose]

theorem prints_object {ms : List (Bytes × Json lib.Double)} {text : Bytes} (h : PrintsMembers ms text) :
    Prints (.object ms) ('{'.toUInt8 :: (text ++ ['}'.toUInt8])) := by
  intro rest _
  have htext : '{'.toUInt8 :: (text ++ ['}'.toUInt8]) ++ rest =
      '{'.toUInt8 :: (text ++ '}'.toUInt8 :: rest) := by
    simp
  rw [htext, skipWs_cons (by decide), value_object (h.not_closed rest), members_skipWs]
  exact h [] rest

/-- A document is a value between white space. -/
theorem Prints.parseDocument {v : Json lib.Double} {text w : Bytes} (h : Prints v text) (hw : Ws w) :
    parseDocument lib (text ++ w) = some v := by
  have hrest : endsNumber (w ++ []) = true := endsNumber_append hw rfl
  rw [List.append_nil] at hrest
  refine parseDocument_eq (h w hrest) ?_
  have hskip := skipWs_append hw []
  rw [List.append_nil] at hskip
  exact hskip

end JsonParser
end Cppvless
