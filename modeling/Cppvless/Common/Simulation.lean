import Cppvless.Common.Json

set_option autoImplicit false

/-! # Two runs of the JSON parser

What the parser does with a text does not depend on what the C library makes of the numbers, nor on
what follows a value that has ended. So a value of one text is there in every longer one, whatever the
library, and the two trees differ in their numbers at most (`value_related`). -/

namespace Cppvless

open Json JsonParser

/-- Two trees that differ in their numbers at most, which are related by `rel`. -/
inductive Json.Rel {D E : Type} (rel : D → E → Prop) : Json D → Json E → Prop
  | null : Rel rel .null .null
  | bool (b : Bool) : Rel rel (.bool b) (.bool b)
  | number {d : D} {e : E} (h : rel d e) : Rel rel (.number d) (.number e)
  | string (s : Bytes) : Rel rel (.string s) (.string s)
  | array {vs : List (Json D)} {vs' : List (Json E)} (h : List.Forall₂ (Rel rel) vs vs') :
      Rel rel (.array vs) (.array vs')
  | object {ms : List (Bytes × Json D)} {ms' : List (Bytes × Json E)}
      (hkeys : ms.map Prod.fst = ms'.map Prod.fst)
      (h : List.Forall₂ (Rel rel) (ms.map Prod.snd) (ms'.map Prod.snd)) :
      Rel rel (.object ms) (.object ms')

/-- Members with the same keys and related values. -/
structure Json.RelMembers {D E : Type} (rel : D → E → Prop) (ms : List (Bytes × Json D))
    (ms' : List (Bytes × Json E)) : Prop where
  keys : ms.map Prod.fst = ms'.map Prod.fst
  values : List.Forall₂ (Json.Rel rel) (ms.map Prod.snd) (ms'.map Prod.snd)

theorem Json.RelMembers.snoc {D E : Type} {rel : D → E → Prop} {ms : List (Bytes × Json D)}
    {ms' : List (Bytes × Json E)} (h : Json.RelMembers rel ms ms') (key : Bytes) {v : Json D}
    {v' : Json E} (hv : Json.Rel rel v v') :
    Json.RelMembers rel (ms ++ [(key, v)]) (ms' ++ [(key, v')]) where
  keys := by rw [List.map_append, List.map_append, h.keys]; rfl
  values := by
    rw [List.map_append, List.map_append]
    exact List.rel_append h.values (.cons hv .nil)

namespace JsonParser

variable {lib lib' : Strtod}

theorem skipWs_append_of_ne {s : Bytes} (h : skipWs s ≠ []) (t : Bytes) :
    skipWs (s ++ t) = skipWs s ++ t := by
  induction s with
  | nil => exact absurd rfl h
  | cons b s ih =>
      cases hb : isSpace b with
      | true =>
          have hskip : ∀ u, skipWs (b :: u) = skipWs u := fun u => List.dropWhile_cons_of_pos hb
          rw [hskip] at h
          rw [List.cons_append, hskip, hskip, ih h]
      | false => rw [List.cons_append, skipWs_cons hb, skipWs_cons hb, List.cons_append]

theorem ne_nil_of_skipWs {s : Bytes} (h : skipWs s ≠ []) : s ≠ [] := by
  rintro rfl
  exact h rfl

theorem consume_append {c : UInt8} {s r : Bytes} (h : consume c s = some r) (t : Bytes) :
    consume c (s ++ t) = some (r ++ t) := by
  rw [consume_eq_some.1 h]
  exact consume_cons c (r ++ t)

theorem ne_nil_of_consume {c : UInt8} {s r : Bytes} (h : consume c s = some r) : s ≠ [] := by
  rw [consume_eq_some.1 h]
  exact List.cons_ne_nil c r

theorem consume_append_none {c : UInt8} {s : Bytes} (h : consume c s = none) (hs : s ≠ [])
    (t : Bytes) : consume c (s ++ t) = none := by
  obtain ⟨b, s, rfl⟩ := List.exists_cons_of_ne_nil hs
  simp only [consume] at h
  split at h
  · cases h
  · next hb => exact if_neg hb

theorem parseStringBody_append {out s : Bytes} {r : Bytes × Bytes}
    (h : parseStringBody out s = some r) (t : Bytes) :
    parseStringBody out (s ++ t) = some (r.1, r.2 ++ t) := by
  fun_induction parseStringBody out s with
  | case1 => cases h
  | case2 out rest =>
      cases h
      exact parseStringBody_quote out (rest ++ t)
  | case3 => cases h
  | case4 out h₀ h₁ h₂ h₃ rest v₀ v₁ v₂ v₃ hv₃ hv₂ hv₁ hv₀ hback ih =>
      rw [← ih h, List.cons_append, List.cons_append, List.cons_append, List.cons_append,
        List.cons_append, List.cons_append, parseStringBody.eq_def]
      simp only [hback, if_false, if_true, hv₀, hv₁, hv₂, hv₃]
  | case5 => cases h
  | case6 => cases h
  | case7 => cases h
  | case8 out esc rest hesc b hb hback ih =>
      rw [List.cons_append, List.cons_append, parseStringBody_unescape hesc hb]
      exact ih h
  | case9 out c rest hquote hback ih =>
      rw [List.cons_append, parseStringBody_plain hquote hback]
      exact ih h

theorem parseString_append {s : Bytes} {r : Bytes × Bytes} (h : parseString s = some r) (t : Bytes) :
    parseString (s ++ t) = some (r.1, r.2 ++ t) := by
  unfold parseString at h ⊢
  cases hconsume : consume '"'.toUInt8 s with
  | none => simp [hconsume] at h
  | some rest =>
      simp only [hconsume] at h
      rw [consume_append hconsume]
      exact parseStringBody_append h t

theorem parseString_nil : parseString [] = none := rfl

theorem parseLiteral_related {rel : lib.Double → lib'.Double → Prop} {lit : String}
    {j v : Json lib.Double} {j' : Json lib'.Double} {s r : Bytes} (hj : Json.Rel rel j j')
    (h : parseLiteral lib lit j s = some (v, r)) (t : Bytes) :
    ∃ v', parseLiteral lib' lit j' (s ++ t) = some (v', r ++ t) ∧ Json.Rel rel v v' := by
  unfold parseLiteral at h
  split at h
  · next htake =>
      cases h
      have hs : s = ascii lit ++ s.drop lit.length := by
        rw [← htake, List.take_append_drop]
      have hlit := parseLiteral_append lit j' (s.drop lit.length ++ t)
      rw [← List.append_assoc, ← hs] at hlit
      exact ⟨j', hlit, hj⟩
  · exact absurd h nofun

theorem dropWhile_append_of_ne {s : Bytes} (h : s.dropWhile numberChar ≠ []) (t : Bytes) :
    (s ++ t).dropWhile numberChar = s.dropWhile numberChar ++ t := by
  induction s with
  | nil => exact absurd rfl h
  | cons b s ih =>
      cases hb : numberChar b with
      | true =>
          rw [List.dropWhile_cons_of_pos hb] at h
          rw [List.cons_append, List.dropWhile_cons_of_pos hb, List.dropWhile_cons_of_pos hb, ih h]
      | false =>
          have hb' : ¬ numberChar b = true := by simp [hb]
          rw [List.cons_append, List.dropWhile_cons_of_neg hb', List.dropWhile_cons_of_neg hb',
            List.cons_append]

/-- A sign is one of the characters of a number. -/
theorem dropWhile_start (s : Bytes) :
    ((consume '-'.toUInt8 s).getD s).dropWhile numberChar = s.dropWhile numberChar := by
  cases hconsume : consume '-'.toUInt8 s with
  | none => rfl
  | some u =>
      rw [consume_eq_some.1 hconsume, Option.getD_some, List.dropWhile_cons_of_pos (by decide)]

theorem parseNumber_eq (s : Bytes) : parseNumber lib s =
    if (s.dropWhile numberChar).length = s.length then none
    else some (.number (lib.strtod (cString s)), s.dropWhile numberChar) := by
  unfold parseNumber
  simp only [dropWhile_start]

/-- What two libraries make of a number that ends before the text does is related. -/
def NumbersRelated (rel : lib.Double → lib'.Double → Prop) (t : Bytes) : Prop :=
  ∀ s : Bytes, s.dropWhile numberChar ≠ [] → endsNumber (s.dropWhile numberChar) = true →
    rel (lib.strtod (cString s)) (lib'.strtod (cString (s ++ t)))

/-- The value is no number, or one that ends before the text does. -/
def Ended (s r : Bytes) (v : Json lib.Double) : Prop :=
  (r ≠ [] ∧ endsNumber r = true) ∨ s.head? = some '{'.toUInt8 ∨ ∀ num, v ≠ .number num

/-- A value that has ended is there in the text followed by `t`. -/
def ValueRelated (rel : lib.Double → lib'.Double → Prop) (t s : Bytes) : Prop :=
  ∀ v r, value lib s = some (v, r) → Ended s r v →
    ∃ v', value lib' (s ++ t) = some (v', r ++ t) ∧ Json.Rel rel v v'

def ElementsRelated (rel : lib.Double → lib'.Double → Prop) (t s : Bytes) : Prop :=
  ∀ arr v r, elements lib arr s = some (v, r) → ∀ arr', List.Forall₂ (Json.Rel rel) arr arr' →
    ∃ v', elements lib' arr' (s ++ t) = some (v', r ++ t) ∧ Json.Rel rel v v'

def MembersRelated (rel : lib.Double → lib'.Double → Prop) (t s : Bytes) : Prop :=
  ∀ obj v r, members lib obj s = some (v, r) →
    ∀ obj', Json.RelMembers rel obj obj' →
      ∃ v', members lib' obj' (s ++ t) = some (v', r ++ t) ∧ Json.Rel rel v v'

theorem value_nil : value lib [] = none := by
  unfold value
  rw [parseValue]
  rfl

theorem length_of_value {s r : Bytes} {v : Json lib.Double} (h : value lib s = some (v, r)) :
    r.length < s.length := by
  obtain ⟨⟨_, hlt⟩, -, rfl⟩ := Option.map_eq_some_iff.1 h
  exact hlt

/-- A bracket or a comma behind white space ends a number. -/
theorem ended_of_consume {c : UInt8} {s r : Bytes} (hc : endsNumber [c] = true)
    (h : consume c (skipWs s) = some r) : s ≠ [] ∧ endsNumber s = true := by
  have hs := ne_nil_of_skipWs (ne_nil_of_consume h)
  obtain ⟨b, s, rfl⟩ := List.exists_cons_of_ne_nil hs
  refine ⟨hs, ?_⟩
  cases hb : isSpace b with
  | true =>
      have hspace : Ws [b] := by simpa [Ws] using hb
      have hb' : endsNumber ([b] ++ []) = true := endsNumber_append hspace rfl
      exact hb'
  | false =>
      rw [skipWs_cons hb] at h
      rw [(List.cons.inj (consume_eq_some.1 h)).1]
      exact hc

variable {rel : lib.Double → lib'.Double → Prop} {t : Bytes}

theorem elementsRelated {s : Bytes} (hvalue : ∀ s', s'.length ≤ s.length → ValueRelated rel t s')
    (ih : ∀ s', s'.length < s.length → ElementsRelated rel t s') : ElementsRelated rel t s := by
  intro arr v r h arr' harr
  rw [elements_eq] at h ⊢
  cases hv : value lib (skipWs s) with
  | none => simp [hv] at h
  | some p =>
      obtain ⟨x, rest⟩ := p
      have hs : skipWs s ≠ [] := by
        intro hnil
        rw [hnil, value_nil] at hv
        cases hv
      have hlt := (length_of_value hv).trans_le (length_skipWs s)
      simp only [hv] at h
      cases hclose : consume ']'.toUInt8 (skipWs rest) with
      | some rest' =>
          simp only [hclose] at h
          cases h
          have hrest := ne_nil_of_consume hclose
          obtain ⟨x', hx', hrel⟩ := hvalue _ (length_skipWs s) x rest hv
            (.inl (ended_of_consume (by decide) hclose))
          rw [skipWs_append_of_ne hs, hx']
          simp only [skipWs_append_of_ne hrest, consume_append hclose]
          exact ⟨_, rfl, .array (List.rel_append harr (.cons hrel .nil))⟩
      | none =>
          simp only [hclose] at h
          cases hcomma : consume ','.toUInt8 (skipWs rest) with
          | none => simp [hcomma] at h
          | some rest' =>
              simp only [hcomma] at h
              have hrest := ne_nil_of_consume hcomma
              obtain ⟨x', hx', hrel⟩ := hvalue _ (length_skipWs s) x rest hv
                (.inl (ended_of_consume (by decide) hcomma))
              rw [skipWs_append_of_ne hs, hx']
              simp only [skipWs_append_of_ne hrest, consume_append_none hclose hrest,
                consume_append hcomma]
              exact ih rest' ((length_of_consume_skipWs hcomma).trans hlt) _ v r h _
                (List.rel_append harr (.cons hrel .nil))

theorem membersRelated {s : Bytes} (hvalue : ∀ s', s'.length < s.length → ValueRelated rel t s')
    (ih : ∀ s', s'.length < s.length → MembersRelated rel t s') : MembersRelated rel t s := by
  intro obj v r h obj' hobj
  rw [members_eq] at h ⊢
  cases hkey : parseString (skipWs s) with
  | none => simp [hkey] at h
  | some p =>
      obtain ⟨key, rest⟩ := p
      have hs : skipWs s ≠ [] := by
        intro hnil
        rw [hnil, parseString_nil] at hkey
        cases hkey
      have hkeyLt : rest.length < s.length :=
        (length_of_parseString hkey).trans_le (length_skipWs s)
      simp only [hkey] at h
      rw [skipWs_append_of_ne hs, parseString_append hkey]
      cases hcolon : consume ':'.toUInt8 (skipWs rest) with
      | none => simp [hcolon] at h
      | some rest =>
          simp only [hcolon] at h
          simp only [skipWs_append_of_ne (ne_nil_of_consume hcolon), consume_append hcolon]
          cases hv : value lib (skipWs rest) with
          | none => simp [hv] at h
          | some p =>
              obtain ⟨x, rest'⟩ := p
              have hspace : skipWs rest ≠ [] := by
                intro hnil
                rw [hnil, value_nil] at hv
                cases hv
              have hlt := (length_skipWs rest).trans_lt ((length_of_consume_skipWs hcolon).trans hkeyLt)
              simp only [hv] at h
              cases hclose : consume '}'.toUInt8 (skipWs rest') with
              | some rest'' =>
                  simp only [hclose] at h
                  cases h
                  have hrest := ne_nil_of_consume hclose
                  obtain ⟨x', hx', hrel⟩ := hvalue _ hlt x rest' hv
                    (.inl (ended_of_consume (by decide) hclose))
                  simp only [skipWs_append_of_ne hspace, hx', skipWs_append_of_ne hrest,
                    consume_append hclose]
                  exact ⟨_, rfl, .object (hobj.snoc key hrel).keys (hobj.snoc key hrel).values⟩
              | none =>
                  simp only [hclose] at h
                  cases hcomma : consume ','.toUInt8 (skipWs rest') with
                  | none => simp [hcomma] at h
                  | some rest'' =>
                      simp only [hcomma] at h
                      have hrest := ne_nil_of_consume hcomma
                      obtain ⟨x', hx', hrel⟩ := hvalue _ hlt x rest' hv
                        (.inl (ended_of_consume (by decide) hcomma))
                      simp only [skipWs_append_of_ne hspace, hx', skipWs_append_of_ne hrest,
                        consume_append_none hclose hrest, consume_append hcomma]
                      have hlt' := (length_of_consume_skipWs hcomma).trans
                        ((length_of_value hv).trans hlt)
                      exact ih rest'' hlt' _ v r h _ (hobj.snoc key hrel)

theorem elements_nil (arr : List (Json lib.Double)) : elements lib arr [] = none := by
  have hnil : skipWs [] = [] := rfl
  rw [elements_eq, hnil, value_nil]

theorem members_nil (obj : List (Bytes × Json lib.Double)) : members lib obj [] = none := by
  have hnil : skipWs [] = [] := rfl
  rw [members_eq, hnil, parseString_nil]

theorem valueRelated (hnumbers : NumbersRelated rel t) {s : Bytes}
    (helements : ∀ s', s'.length < s.length → ElementsRelated rel t s')
    (hmembers : ∀ s', s'.length < s.length → MembersRelated rel t s') : ValueRelated rel t s := by
  intro v r h hr
  cases s with
  | nil =>
      rw [value_nil] at h
      cases h
  | cons c rest =>
      have hlt : (skipWs rest).length < (c :: rest).length :=
        (length_skipWs rest).trans_lt (Nat.lt_succ_self _)
      rw [List.cons_append]
      by_cases hobject : c = '{'.toUInt8
      · subst hobject
        cases hclose : consume '}'.toUInt8 (skipWs rest) with
        | some rest' =>
            rw [value_emptyObject hclose] at h
            cases h
            have hclose' : consume '}'.toUInt8 (skipWs (rest ++ t)) = some (r ++ t) := by
              rw [skipWs_append_of_ne (ne_nil_of_consume hclose), consume_append hclose]
            exact ⟨_, value_emptyObject hclose', .object rfl .nil⟩
        | none =>
            rw [value_object hclose] at h
            have hspace : skipWs rest ≠ [] := by
              intro hnil
              rw [hnil, members_nil] at h
              cases h
            have hclose' : consume '}'.toUInt8 (skipWs (rest ++ t)) = none := by
              rw [skipWs_append_of_ne hspace, consume_append_none hclose hspace]
            rw [value_object hclose', skipWs_append_of_ne hspace]
            exact hmembers _ hlt _ v r h _ ⟨rfl, .nil⟩
      by_cases harray : c = '['.toUInt8
      · subst harray
        cases hclose : consume ']'.toUInt8 (skipWs rest) with
        | some rest' =>
            rw [value_emptyArray hclose] at h
            cases h
            have hclose' : consume ']'.toUInt8 (skipWs (rest ++ t)) = some (r ++ t) := by
              rw [skipWs_append_of_ne (ne_nil_of_consume hclose), consume_append hclose]
            exact ⟨_, value_emptyArray hclose', .array .nil⟩
        | none =>
            rw [value_array hclose] at h
            have hspace : skipWs rest ≠ [] := by
              intro hnil
              rw [hnil, elements_nil] at h
              cases h
            have hclose' : consume ']'.toUInt8 (skipWs (rest ++ t)) = none := by
              rw [skipWs_append_of_ne hspace, consume_append_none hclose hspace]
            rw [value_array hclose', skipWs_append_of_ne hspace]
            exact helements _ hlt _ v r h _ .nil
      by_cases hstring : c = '"'.toUInt8
      · subst hstring
        rw [value_quote] at h ⊢
        obtain ⟨p, hp, heq⟩ := Option.map_eq_some_iff.1 h
        cases heq
        rw [parseStringBody_append hp]
        exact ⟨_, rfl, .string _⟩
      by_cases htrue : c = 't'.toUInt8
      · subst htrue
        rw [value_true] at h ⊢
        exact parseLiteral_related (.bool true) h t
      by_cases hfalse : c = 'f'.toUInt8
      · subst hfalse
        rw [value_false] at h ⊢
        exact parseLiteral_related (.bool false) h t
      by_cases hnull : c = 'n'.toUInt8
      · subst hnull
        rw [value_null] at h ⊢
        exact parseLiteral_related .null h t
      · have hc : value lib' (c :: (rest ++ t)) = _ := value_other (rest ++ t)
          ⟨hobject, harray, hstring, htrue, hfalse, hnull⟩
        rw [value_other _ ⟨hobject, harray, hstring, htrue, hfalse, hnull⟩, parseNumber_eq] at h
        rw [hc, ← List.cons_append, parseNumber_eq]
        split at h
        · exact absurd h nofun
        · next hlen =>
            cases h
            have hend : (c :: rest).dropWhile numberChar ≠ [] ∧
                endsNumber ((c :: rest).dropWhile numberChar) = true := by
              rcases hr with hr | hr | hr
              · exact hr
              · exact absurd (Option.some.inj hr) hobject
              · exact absurd rfl (hr _)
            have hlen' : ¬ ((c :: rest).dropWhile numberChar ++ t).length = (c :: rest ++ t).length := by
              simp only [List.length_append]
              omega
            rw [dropWhile_append_of_ne hend.1, if_neg hlen']
            exact ⟨_, rfl, .number (hnumbers _ hend.1 hend.2)⟩

theorem related (hnumbers : NumbersRelated rel t) (n : Nat) : ∀ s : Bytes, s.length < n →
    ValueRelated rel t s ∧ ElementsRelated rel t s ∧ MembersRelated rel t s := by
  induction n with
  | zero => exact fun s h => absurd h (Nat.not_lt_zero _)
  | succ n ih =>
      have hvalue : ∀ s : Bytes, s.length < n + 1 → ValueRelated rel t s := fun s hs =>
        valueRelated hnumbers (fun s' hs' => (ih s' (by omega)).2.1) fun s' hs' =>
          (ih s' (by omega)).2.2
      intro s hs
      exact ⟨hvalue s hs,
        elementsRelated (fun s' hs' => hvalue s' (by omega)) fun s' hs' => (ih s' (by omega)).2.1,
        membersRelated (fun s' hs' => hvalue s' (by omega)) fun s' hs' => (ih s' (by omega)).2.2⟩

/-- **A value is there in every longer text, with every library**, up to its numbers. -/
theorem value_related (hnumbers : NumbersRelated rel t) {s r : Bytes} {v : Json lib.Double}
    (h : value lib s = some (v, r)) (hr : Ended s r v) :
    ∃ v', value lib' (s ++ t) = some (v', r ++ t) ∧ Json.Rel rel v v' :=
  (related hnumbers (s.length + 1) s (Nat.lt_succ_self _)).1 v r h hr

/-- A document that is accepted is a value and white space. -/
theorem value_of_parseDocument {text : Bytes} {v : Json lib.Double}
    (h : parseDocument lib text = some v) :
    ∃ rest, value lib (skipWs text) = some (v, rest) ∧ skipWs rest = [] := by
  unfold parseDocument at h
  unfold value
  cases hparse : parseValue lib (skipWs text) with
  | none => simp [hparse] at h
  | some r =>
      obtain ⟨⟨v', rest⟩, hlt⟩ := r
      simp only [hparse] at h
      split at h
      · next hrest =>
          cases h
          exact ⟨rest, rfl, hrest⟩
      · cases h

/-- An object is one over every library, with related numbers. -/
theorem parseDocument_object (hnumbers : NumbersRelated rel []) {text : Bytes}
    {ms : List (Bytes × Json lib.Double)} (h : parseDocument lib text = some (.object ms)) :
    ∃ ms', parseDocument lib' text = some (.object ms') ∧
      Json.Rel rel (.object ms) (.object ms') := by
  obtain ⟨rest, hvalue, hrest⟩ := value_of_parseDocument h
  obtain ⟨v', hvalue', hrel⟩ := value_related hnumbers hvalue (.inr (.inr nofun))
  rw [List.append_nil, List.append_nil] at hvalue'
  cases hrel with
  | object hkeys hvalues => exact ⟨_, parseDocument_eq hvalue' hrest, .object hkeys hvalues⟩

end JsonParser

end Cppvless
