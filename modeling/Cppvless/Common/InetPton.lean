import Cppvless.Common.Uri

set_option autoImplicit false

/-! # `inet_pton`

Which texts the C library takes for an IPv4 and for an IPv6 address. The loops go over the text as
those of the library do; of the address they keep how many of its bytes have been stored. -/

namespace Cppvless

/-- The loop of `inet_pton` for AF_INET: the number of octets begun, the value of the last and
    whether it has a digit. -/
def inetPton4Loop (octets value : Nat) (sawDigit : Bool) : List UInt8 → Bool
  | [] => octets = 4
  | c :: rest =>
      if Uri.isDigit c then
        let next := value * 10 + (c - '0'.toUInt8).toNat
        if sawDigit && value = 0 then false
        else if 255 < next then false
        else if sawDigit then inetPton4Loop octets next true rest
        else if 4 < octets + 1 then false
        else inetPton4Loop (octets + 1) next true rest
      else if c = '.'.toUInt8 && sawDigit then
        if octets = 4 then false else inetPton4Loop octets 0 false rest
      else false

/-- Whether `inet_pton` for AF_INET accepts the text. -/
def inetPton4 (s : List UInt8) : Bool := inetPton4Loop 0 0 false s

/-- The end of `inet_pton` for AF_INET6: `stored` bytes, whether there was a "::" and how many digits
    have not been stored. -/
def inetPton6End (stored : Nat) (gap : Bool) (digits : Nat) : Bool :=
  if 0 < digits && 16 < stored + 2 then false
  else
    let stored := if 0 < digits then stored + 2 else stored
    if gap then stored ≠ 16 else stored = 16

/-- The loop of `inet_pton` for AF_INET6. An IPv4 address at the end is read from `token`, where the
    digits before its first dot begin. -/
def inetPton6Loop (stored : Nat) (gap : Bool) (digits : Nat) (token : List UInt8) :
    List UInt8 → Bool
  | [] => inetPton6End stored gap digits
  | c :: rest =>
      if (Uri.digitValue c).isSome then
        if digits = 4 then false else inetPton6Loop stored gap (digits + 1) token rest
      else if c = ':'.toUInt8 then
        if digits = 0 then
          if gap then false else inetPton6Loop stored true 0 rest rest
        else if rest = [] then false
        else if 16 < stored + 2 then false
        else inetPton6Loop (stored + 2) gap 0 rest rest
      else if c = '.'.toUInt8 && stored + 4 ≤ 16 && inetPton4 token then
        inetPton6End (stored + 4) gap 0
      else false

/-- Whether `inet_pton` for AF_INET6 accepts the text. -/
def inetPton6 : List UInt8 → Bool
  | [] => false
  | c :: rest =>
      if c = ':'.toUInt8 then
        if rest.head? = some ':'.toUInt8 then inetPton6Loop 0 false 0 rest rest else false
      else inetPton6Loop 0 false 0 (c :: rest) (c :: rest)

example : inetPton4 ("127.0.0.1".toList.map Char.toUInt8) = true ∧
    inetPton4 ("127.0.0.01".toList.map Char.toUInt8) = false ∧
    inetPton6 ("2001:db8::1".toList.map Char.toUInt8) = true ∧
    inetPton6 ("::ffff:10.0.0.1".toList.map Char.toUInt8) = true ∧
    inetPton6 ("1:2:3".toList.map Char.toUInt8) = false := by
  decide +kernel

/-! ## The characters of an address -/

theorem inetPton4Loop_chars {s : List UInt8} :
    ∀ {octets value : Nat} {sawDigit : Bool}, inetPton4Loop octets value sawDigit s = true →
      ∀ c ∈ s, Uri.isDigit c = true ∨ c = '.'.toUInt8 := by
  induction s with
  | nil => exact fun _ => List.forall_mem_nil _
  | cons c rest ih =>
      intro octets value sawDigit h
      rw [inetPton4Loop] at h
      rw [List.forall_mem_cons]
      by_cases hdigit : Uri.isDigit c = true
      · refine ⟨.inl hdigit, ?_⟩
        rw [if_pos hdigit] at h
        dsimp only at h
        split_ifs at h <;> exact ih h
      · rw [if_neg hdigit] at h
        split_ifs at h with hdot
        exact ⟨.inr (by simp at hdot; exact hdot.1), ih h⟩

theorem inetPton4_chars {s : List UInt8} (h : inetPton4 s = true) :
    ∀ c ∈ s, Uri.isDigit c = true ∨ c = '.'.toUInt8 :=
  inetPton4Loop_chars h

theorem digitValue_isSome_of_isDigit {c : UInt8} (h : Uri.isDigit c = true) :
    (Uri.digitValue c).isSome = true := by
  rw [Uri.digitValue, if_pos h]
  rfl

/-- The characters of an IPv6 address. -/
def IsIpv6Char (c : UInt8) : Prop :=
  (Uri.digitValue c).isSome = true ∨ c = ':'.toUInt8 ∨ c = '.'.toUInt8

theorem inetPton6Loop_chars {s : List UInt8} :
    ∀ {stored digits : Nat} {gap : Bool} {token : List UInt8}, s <:+ token →
      inetPton6Loop stored gap digits token s = true → ∀ c ∈ s, IsIpv6Char c := by
  induction s with
  | nil => exact fun _ _ => List.forall_mem_nil _
  | cons c rest ih =>
      intro stored digits gap token htoken h
      have hrest : rest <:+ token := (List.suffix_cons c rest).trans htoken
      rw [inetPton6Loop] at h
      by_cases hdigit : (Uri.digitValue c).isSome = true
      · rw [if_pos hdigit] at h
        split_ifs at h
        exact List.forall_mem_cons.2 ⟨.inl hdigit, ih hrest h⟩
      · rw [if_neg hdigit] at h
        by_cases hcolon : c = ':'.toUInt8
        · rw [if_pos hcolon] at h
          have hrest' : ∀ c ∈ rest, IsIpv6Char c := by
            split_ifs at h
            · exact ih (List.suffix_refl _) h
            · exact ih (List.suffix_refl _) h
          exact List.forall_mem_cons.2 ⟨.inr (.inl hcolon), hrest'⟩
        · rw [if_neg hcolon] at h
          split_ifs at h with hdot
          -- the rest has been read as an IPv4 address
          simp only [Bool.and_eq_true] at hdot
          intro x hx
          rcases inetPton4_chars hdot.2 x (htoken.subset hx) with hx | hx
          · exact .inl (digitValue_isSome_of_isDigit hx)
          · exact .inr (.inr hx)

theorem inetPton6_chars {s : List UInt8} (h : inetPton6 s = true) : ∀ c ∈ s, IsIpv6Char c := by
  cases s with
  | nil => cases h
  | cons c rest =>
      rw [inetPton6] at h
      split_ifs at h with hcolon hnext
      · exact List.forall_mem_cons.2
          ⟨.inr (.inl hcolon), inetPton6Loop_chars (List.suffix_refl _) h⟩
      · exact inetPton6Loop_chars (List.suffix_refl _) h

/-! ## Its colons -/

/-- After `n` colons at most `2 * n` bytes have been stored, so that an address has two colons or
    more: those of a "::", or six at least. -/
theorem inetPton6Loop_colons {s : List UInt8} :
    ∀ {stored digits n : Nat} {gap : Bool} {token : List UInt8}, (digits = 0 → 1 ≤ n) →
      (gap = true → 2 ≤ n) → stored ≤ 2 * n → inetPton6Loop stored gap digits token s = true →
      2 ≤ n + s.count ':'.toUInt8 := by
  have hend : ∀ {stored digits n : Nat} {gap : Bool}, (gap = true → 2 ≤ n) → stored ≤ 2 * n + 4 →
      inetPton6End stored gap digits = true → 2 ≤ n := by
    intro stored digits n gap hgap hstored h
    cases gap with
    | true => exact hgap rfl
    | false =>
        by_cases hfull : (decide (0 < digits) && decide (16 < stored + 2)) = true
        · rw [inetPton6End, if_pos hfull] at h
          cases h
        · rw [inetPton6End, if_neg hfull] at h
          have hsixteen : (if 0 < digits then stored + 2 else stored) = 16 := by simpa using h
          split at hsixteen <;> omega
  induction s with
  | nil =>
      intro stored digits n gap token _ hgap hstored h
      exact hend hgap (by omega) h
  | cons c rest ih =>
      intro stored digits n gap token hdigits hgap hstored h
      rw [inetPton6Loop] at h
      by_cases hdigit : (Uri.digitValue c).isSome = true
      · have hcolon : c ≠ ':'.toUInt8 := by
          rintro rfl
          exact absurd hdigit (by decide)
        rw [if_pos hdigit] at h
        split_ifs at h
        rw [List.count_cons_of_ne hcolon]
        exact ih (fun h0 => by omega) hgap hstored h
      · rw [if_neg hdigit] at h
        by_cases hcolon : c = ':'.toUInt8
        · rw [if_pos hcolon] at h
          rw [hcolon, List.count_cons_self]
          split_ifs at h with hzero
          · have := hdigits hzero
            have := ih (n := n + 1) (by omega) (by omega) (by omega) h
            omega
          · have := ih (n := n + 1) (by omega) (fun hg => by have := hgap hg; omega) (by omega) h
            omega
        · rw [if_neg hcolon] at h
          split_ifs at h
          have := hend hgap (by omega) h
          omega

/-- **An IPv6 address has two colons or more.** -/
theorem inetPton6_colons {s : List UInt8} (h : inetPton6 s = true) : 2 ≤ s.count ':'.toUInt8 := by
  cases s with
  | nil => cases h
  | cons c rest =>
      rw [inetPton6] at h
      by_cases hcolon : c = ':'.toUInt8
      · rw [if_pos hcolon] at h
        split_ifs at h
        rw [hcolon, List.count_cons_self]
        have := inetPton6Loop_colons (n := 1) (by simp) (by simp) (by simp) h
        omega
      · -- the first character is a digit, since no IPv4 address begins with a dot
        rw [if_neg hcolon, inetPton6Loop, if_neg hcolon] at h
        rw [List.count_cons_of_ne hcolon]
        by_cases hdigit : (Uri.digitValue c).isSome = true
        · rw [if_pos hdigit, if_neg (by decide)] at h
          have := inetPton6Loop_colons (n := 0) (by simp) (by simp) (by simp) h
          omega
        · rw [if_neg hdigit] at h
          by_cases hdot : c = '.'.toUInt8
          · rw [hdot] at h
            cases h
          · simp [hdot] at h

end Cppvless
