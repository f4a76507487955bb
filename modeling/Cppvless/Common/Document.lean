import Cppvless.Common.Strtod
import Cppvless.Common.Simulation

set_option autoImplicit false

/-! # Documents and their renderings

`Renders` relates a JSON value of integers, strings, arrays and objects to its texts: any white space
between the tokens, an integer as any number that denotes it, strings and member names as `jsonEscape`
writes them. Every rendering of an
object parses to that object. A parser that has reached the end of a value does the same on a longer
text (`value_append`); so a rendering with more behind it leaves what is behind it, and one that is
cut off cannot have been accepted, since the whole of it would then leave something. -/

namespace Cppvless

open Json JsonParser

/-! ## Renderings -/

/-- White space of JSON. -/
def JsonWs (w : Bytes) : Prop :=
  ∀ b ∈ w, b = ' '.toUInt8 ∨ b = '\t'.toUInt8 ∨ b = '\r'.toUInt8 ∨ b = '\n'.toUInt8

instance (w : Bytes) : Decidable (JsonWs w) :=
  List.decidableBAll
    (fun b => b = ' '.toUInt8 ∨ b = '\t'.toUInt8 ∨ b = '\r'.toUInt8 ∨ b = '\n'.toUInt8) w

theorem JsonWs.ws {w : Bytes} (h : JsonWs w) : Ws w := by
  intro b hb
  rcases h b hb with rfl | rfl | rfl | rfl <;> decide

mutual

/-- A text of a value. -/
inductive Renders : Json cLibrary.Double → Bytes → Prop
  | null : Renders .null (ascii "null")
  | bool (b : Bool) : Renders (.bool b) (if b then ascii "true" else ascii "false")
  | integer {n : ℤ} {text : Bytes} (hn : n.natAbs ≤ 2 ^ 53) (h : Numeral text n) :
      Renders (.number (Double.finite n)) text
  | string (s : Bytes) : Renders (.string s) (quoted s)
  | emptyArray {w : Bytes} (hw : JsonWs w) :
      Renders (.array []) ('['.toUInt8 :: (w ++ [']'.toUInt8]))
  | array {vs : List (Json cLibrary.Double)} {text : Bytes} (h : RendersElements vs text) :
      Renders (.array vs) ('['.toUInt8 :: (text ++ [']'.toUInt8]))
  | emptyObject {w : Bytes} (hw : JsonWs w) :
      Renders (.object []) ('{'.toUInt8 :: (w ++ ['}'.toUInt8]))
  | object {ms : List (Bytes × Json cLibrary.Double)} {text : Bytes} (h : RendersMembers ms text) :
      Renders (.object ms) ('{'.toUInt8 :: (text ++ ['}'.toUInt8]))

/-- A text of elements, separated by commas. -/
inductive RendersElements : List (Json cLibrary.Double) → Bytes → Prop
  | last {v : Json cLibrary.Double} {text w w' : Bytes} (hw : JsonWs w) (hv : Renders v text)
      (hw' : JsonWs w') : RendersElements [v] (w ++ (text ++ w'))
  | cons {v : Json cLibrary.Double} {vs : List (Json cLibrary.Double)} {text texts w w' : Bytes}
      (hw : JsonWs w) (hv : Renders v text) (hw' : JsonWs w') (hvs : RendersElements vs texts) :
      RendersElements (v :: vs) (w ++ (text ++ (w' ++ ','.toUInt8 :: texts)))

/-- A text of members, separated by commas. -/
inductive RendersMembers : List (Bytes × Json cLibrary.Double) → Bytes → Prop
  | last {key : Bytes} {v : Json cLibrary.Double} {text w w₁ w₂ w' : Bytes} (hw : JsonWs w)
      (hw₁ : JsonWs w₁) (hw₂ : JsonWs w₂) (hv : Renders v text) (hw' : JsonWs w') :
      RendersMembers [(key, v)]
        (w ++ ((quoted key ++ (w₁ ++ ':'.toUInt8 :: (w₂ ++ text))) ++ w'))
  | cons {key : Bytes} {v : Json cLibrary.Double} {ms : List (Bytes × Json cLibrary.Double)}
      {text texts w w₁ w₂ w' : Bytes} (hw : JsonWs w) (hw₁ : JsonWs w₁) (hw₂ : JsonWs w₂)
      (hv : Renders v text) (hw' : JsonWs w') (hms : RendersMembers ms texts) :
      RendersMembers ((key, v) :: ms)
        (w ++ ((quoted key ++ (w₁ ++ ':'.toUInt8 :: (w₂ ++ text))) ++ (w' ++ ','.toUInt8 :: texts)))

end

mutual

theorem Renders.prints {v : Json cLibrary.Double} {text : Bytes} : Renders v text → Prints v text
  | .null => prints_null
  | .bool b => prints_bool b
  | .integer hn h => prints_number h.numberChars fun _ hrest => strtod_int h hn hrest
  | .string s => prints_string s
  | .emptyArray hw => prints_emptyArray hw.ws
  | .array h => prints_array h.prints
  | .emptyObject hw => prints_emptyObject hw.ws
  | .object h => prints_object h.prints

theorem RendersElements.prints {vs : List (Json cLibrary.Double)} {text : Bytes} :
    RendersElements vs text → PrintsElements vs text
  | .last hw hv hw' => (printsElements_last hv.prints hw'.ws).ws hw.ws
  | .cons hw hv hw' hvs => (printsElements_cons hv.prints hw'.ws hvs.prints).ws hw.ws

theorem RendersMembers.prints {ms : List (Bytes × Json cLibrary.Double)} {text : Bytes} :
    RendersMembers ms text → PrintsMembers ms text
  | .last hw hw₁ hw₂ hv hw' => ((printsMember hw₁.ws hw₂.ws hv.prints).last hw'.ws).ws hw.ws
  | .cons hw hw₁ hw₂ hv hw' hms =>
      ((printsMember hw₁.ws hw₂.ws hv.prints).cons hw'.ws hms.prints).ws hw.ws

end

/-! ## Longer texts -/

namespace JsonParser

variable {lib : Strtod}

/-- An object is there in every longer text. -/
theorem value_append {s r : Bytes} {v : Json lib.Double} (h : value lib s = some (v, r))
    (hs : s.head? = some '{'.toUInt8) (t : Bytes) : ∃ v', value lib (s ++ t) = some (v', r ++ t) := by
  have hnumbers : NumbersRelated (fun (_ _ : lib.Double) => True) t := fun _ _ _ => trivial
  obtain ⟨v', hv', -⟩ := value_related hnumbers h (.inr (.inl hs))
  exact ⟨v', hv'⟩

theorem parseDocument_none {text rest : Bytes} {v : Json lib.Double}
    (hv : value lib (skipWs text) = some (v, rest)) (hrest : skipWs rest ≠ []) :
    parseDocument lib text = none := by
  obtain ⟨⟨_, hlt⟩, hparse, rfl⟩ := Option.map_eq_some_iff.1 hv
  rw [parseDocument, hparse]
  exact if_neg hrest

theorem skipWs_ne_nil {s : Bytes} (h : ∃ b ∈ s, isSpace b = false) : skipWs s ≠ [] := by
  induction s with
  | nil => simp at h
  | cons c s ih =>
      cases hc : isSpace c with
      | false =>
          rw [skipWs_cons hc]
          exact List.cons_ne_nil c s
      | true =>
          have hskip : skipWs (c :: s) = skipWs s := List.dropWhile_cons_of_pos hc
          rw [hskip]
          apply ih
          obtain ⟨b, hb, hspace⟩ := h
          rcases List.mem_cons.1 hb with rfl | hb
          · rw [hc] at hspace
            cases hspace
          · exact ⟨b, hb, hspace⟩

/-- A document whose object ends before `t` is not accepted without `t`. -/
theorem parseDocument_cut {p t w rest : Bytes} {v : Json lib.Double} (hw : Ws w) (ht : t ≠ [])
    (htext : p ++ t = w ++ '{'.toUInt8 :: rest)
    (hv : value lib ('{'.toUInt8 :: rest) = some (v, [])) : parseDocument lib p = none := by
  have hopen : isSpace '{'.toUInt8 = false := by decide
  cases hparse : parseDocument lib p with
  | none => rfl
  | some v₀ =>
      obtain ⟨r, hvalue, -⟩ := value_of_parseDocument hparse
      have hspace : skipWs p ≠ [] := by
        intro hnil
        rw [hnil, value_nil] at hvalue
        cases hvalue
      have hwhole : skipWs p ++ t = '{'.toUInt8 :: rest := by
        rw [← skipWs_append_of_ne hspace, htext, skipWs_append hw, skipWs_cons hopen]
      have hhead : (skipWs p).head? = some '{'.toUInt8 := by
        obtain ⟨b, s, hcons⟩ := List.exists_cons_of_ne_nil hspace
        rw [hcons, List.cons_append] at hwhole
        rw [hcons, (List.cons.inj hwhole).1]
        rfl
      -- the whole document would leave `t`
      obtain ⟨v', hv'⟩ := value_append hvalue hhead t
      rw [hwhole, hv] at hv'
      have hnil := (Prod.mk.inj (Option.some.inj hv')).2
      exact absurd (List.append_eq_nil_iff.1 hnil.symm).2 ht

end JsonParser

theorem Renders.of_eq {v : Json cLibrary.Double} {text text' : Bytes} (h : Renders v text)
    (htext : text' = text) : Renders v text' := htext ▸ h

theorem Renders.object_cons {ms : List (Bytes × Json cLibrary.Double)} {text : Bytes}
    (h : Renders (.object ms) text) : ∃ rest, text = '{'.toUInt8 :: rest := by
  cases h with
  | emptyObject hw => exact ⟨_, rfl⟩
  | object h => exact ⟨_, rfl⟩

theorem get_eq_some {key : String} {v : Json cLibrary.Double}
    {ms : List (Bytes × Json cLibrary.Double)} :
    get key (.object ms) = some v ↔ ∃ before after, ms = before ++ (ascii key, v) :: after ∧
      ∀ m ∈ before, m.1 ≠ ascii key := by
  rw [Json.get, Option.map_eq_some_iff]
  constructor
  · rintro ⟨⟨k, v'⟩, hfind, rfl⟩
    obtain ⟨hk, before, after, rfl, hbefore⟩ := List.find?_eq_some_iff_append.1 hfind
    obtain rfl : k = ascii key := by simpa using hk
    exact ⟨before, after, rfl, fun m hm => by simpa using hbefore m hm⟩
  · rintro ⟨before, after, rfl, hbefore⟩
    exact ⟨(ascii key, v), List.find?_eq_some_iff_append.2 ⟨by simp, before, after, rfl,
      fun m hm => by simpa using hbefore m hm⟩, rfl⟩

/-- **The parser reads back every rendering** of an object: with the members in their order, of which
    `get` finds the first with a key. With more behind it than white space, or cut off before the
    closing brace, it is refused. -/
theorem parse_rendering {ms : List (Bytes × Json cLibrary.Double)} {text w w' : Bytes}
    (h : Renders (.object ms) text) (hw : JsonWs w) (hw' : JsonWs w') :
    parseDocument cLibrary (w ++ text ++ w') = some (.object ms) ∧
    (∀ key v, get key (.object ms) = some v ↔ ∃ before after,
      ms = before ++ (ascii key, v) :: after ∧ ∀ m ∈ before, m.1 ≠ ascii key) ∧
    (∀ extra, (∃ b ∈ extra, isSpace b = false) →
      parseDocument cLibrary (w ++ text ++ w' ++ extra) = none) ∧
    (∀ p, p <+: w ++ text → p ≠ w ++ text → parseDocument cLibrary p = none) := by
  obtain ⟨rest, rfl⟩ := h.object_cons
  have hopen : isSpace '{'.toUInt8 = false := by decide
  have hvalue : value cLibrary ('{'.toUInt8 :: rest) = some (.object ms, []) := by
    have hprints := h.prints [] rfl
    rwa [List.append_nil, skipWs_cons hopen] at hprints
  refine ⟨(h.prints.ws hw.ws).parseDocument hw'.ws, fun key v => get_eq_some, fun extra hextra => ?_,
    fun p hp hne => ?_⟩
  · obtain ⟨v', hlonger⟩ := value_append hvalue rfl (w' ++ extra)
    have htext : skipWs (w ++ '{'.toUInt8 :: rest ++ w' ++ extra) =
        '{'.toUInt8 :: rest ++ (w' ++ extra) := by
      rw [List.append_assoc, List.append_assoc, skipWs_append hw.ws, List.cons_append,
        skipWs_cons hopen]
    rw [← htext] at hlonger
    exact parseDocument_none hlonger (skipWs_append hw'.ws extra ▸ skipWs_ne_nil hextra)
  · obtain ⟨t, ht⟩ := hp
    refine parseDocument_cut hw.ws (fun hnil => ?_) ht hvalue
    rw [hnil, List.append_nil] at ht
    exact hne ht

/-- An object with an array in it and a key that comes twice. -/
def sampleMembers : List (Bytes × Json cLibrary.Double) :=
  [(ascii "a", .array [.number (Double.finite ((-12 : ℤ) : ℚ)), .null]),
    (ascii "a", .string (ascii "\\"))]

def sampleDocument : Bytes := ascii "\x7b\"a\" :[-12,\nnull], \"a\":\"\\\\\"\x7d"

theorem sampleDocument_renders : Renders (.object sampleMembers) sampleDocument := by
  have hempty : JsonWs [] := nofun
  have hspace : JsonWs [' '.toUInt8] := by decide
  have hline : JsonWs ['\n'.toUInt8] := by decide
  have hnumber : Renders (.number (Double.finite ((-12 : ℤ) : ℚ))) (decimal (-12)) :=
    .integer (by decide) (numeral_decimal (-12))
  have harray := Renders.array
    (.cons hempty hnumber hempty (.last hline .null hempty))
  have hlast : RendersMembers [(ascii "a", .string (ascii "\\"))] _ :=
    .last hspace hempty hempty (.string (ascii "\\")) hempty
  have hmembers : RendersMembers sampleMembers _ := .cons hempty hspace hempty harray hempty hlast
  exact (Renders.object hmembers).of_eq (by decide +kernel)

theorem parse_rendering_sample :
    parseDocument cLibrary (ascii " " ++ sampleDocument ++ []) = some (.object sampleMembers) ∧
    parseDocument cLibrary (ascii " " ++ sampleDocument ++ [] ++ ascii " x") = none := by
  obtain ⟨hparse, -, hextra, -⟩ := parse_rendering sampleDocument_renders
    (show JsonWs (ascii " ") by decide) (show JsonWs [] by decide)
  exact ⟨hparse, hextra (ascii " x") ⟨'x'.toUInt8, by decide, by decide⟩⟩

end Cppvless
