import Cppvless.Vless.Protocol
import Cppvless.Coroutine.Reader
import Mathlib.Data.List.Induction

set_option autoImplicit false

/-! # The addons of a request

The addons are a protobuf message of which the decoder reads fields 1 (flow) and 2 (seed). `Fields`
is its grammar: complete fields of wire type 0 or 2, one after the other. `parseFields` accepts
exactly that. An index into the message is a position with its bound, so that none can leave it. -/

namespace Cppvless

open Coroutine

/-! ## The code -/

/-- The loop of `decodeVarint` at `bytes[pos]`: the value and the position behind the varint. -/
def decodeVarintLoop (bytes : Bytes) (value : UInt64) (shift pos : Nat) :
    Except Exn (UInt64 × Nat) :=
  if h : pos < bytes.length ∧ shift ≤ 63 then
    let b := bytes.get ⟨pos, h.1⟩
    let value := value ||| ((b &&& 0x7F).toUInt64 <<< shift.toUInt64)
    if b &&& 0x80 = 0 then .ok (value, pos + 1)
    else decodeVarintLoop bytes value (shift + 7) (pos + 1)
  else .error (.runtimeError "invalid addons varint")
termination_by bytes.length - pos

def decodeVarint (bytes : Bytes) (pos : Nat) : Except Exn (UInt64 × Nat) :=
  decodeVarintLoop bytes 0 0 pos

theorem decodeVarintLoop_pos {bytes : Bytes} {value v : UInt64} {shift pos p : Nat}
    (h : decodeVarintLoop bytes value shift pos = .ok (v, p)) : pos < p ∧ p ≤ bytes.length := by
  fun_induction decodeVarintLoop bytes value shift pos with
  | case1 value shift pos hlt b value' hlast =>
      obtain ⟨-, rfl⟩ := Prod.mk.inj (Except.ok.inj h)
      exact ⟨by omega, hlt.1⟩
  | case2 value shift pos hlt b value' hmore ih =>
      have := ih h
      omega
  | case3 value shift pos hge => cases h

theorem decodeVarint_pos {bytes : Bytes} {v : UInt64} {pos p : Nat}
    (h : decodeVarint bytes pos = .ok (v, p)) : pos < p ∧ p ≤ bytes.length :=
  decodeVarintLoop_pos h

/-- `bytes[pos, pos + len)` -/
def slice (bytes : Bytes) (pos len : Nat) (_ : pos + len ≤ bytes.length) : Bytes :=
  (bytes.drop pos).take len

/-- What the loop of `parseAddons` does with a length-delimited field. -/
def Request.setField (req : Request) (field : Nat × Bytes) : Request :=
  if field.1 = 1 then { req with flow := field.2 }
  else if field.1 = 2 then { req with seed := field.2 }
  else req

/-- The loop of `Decoder::parseAddons` at position `pos` of the payload. -/
def parseFields (data : Bytes) (req : Request) (pos : Nat) : Except Exn Request :=
  if pos < data.length then
    match htag : decodeVarint data pos with
    | .error e => .error e
    | .ok (tag, pos₁) =>
        let fieldNum := tag >>> 3
        let wireType := tag &&& 0x07
        if wireType = 2 then
          match hlen : decodeVarint data pos₁ with
          | .error e => .error e
          | .ok (len64, pos₂) =>
              have hpos := decodeVarint_pos hlen
              if h : data.length - pos₂ < len64.toNat then
                .error (.runtimeError "invalid addons length-delimited field")
              else
                let value := slice data pos₂ len64.toNat (by omega)
                parseFields data (req.setField (fieldNum.toNat, value)) (pos₂ + len64.toNat)
        else if wireType = 0 then
          match hval : decodeVarint data pos₁ with
          | .error e => .error e
          | .ok (_, pos₂) => parseFields data req pos₂
        else .error (.runtimeError "unsupported addons wire type")
  else .ok req
termination_by data.length - pos
decreasing_by
  · have h₁ := decodeVarint_pos htag
    omega
  · have h₁ := decodeVarint_pos htag
    have h₂ := decodeVarint_pos hval
    omega

/-! ## Varints -/

/-- The base-128 digits of `n`, the lowest first; every byte but the last has its top bit set. -/
inductive Digits : Bytes → Nat → Prop
  | last (b : UInt8) (hb : b.toNat < 128) : Digits [b] b.toNat
  | more (b : UInt8) (bs : Bytes) (n : Nat) (hb : 128 ≤ b.toNat) (hbs : Digits bs n) :
      Digits (b :: bs) (b.toNat % 128 + 128 * n)

/-- A protobuf varint: at most ten digits, of which 64 bits count. -/
def Varint (bs : Bytes) (v : UInt64) : Prop :=
  ∃ n, Digits bs n ∧ bs.length ≤ 10 ∧ v.toNat = n % 2 ^ 64

theorem and_7F (b : UInt8) : (b &&& 0x7F).toNat = b.toNat % 128 := by
  rw [UInt8.toNat_and]
  exact Nat.and_two_pow_sub_one_eq_mod b.toNat 7

theorem and_80_eq_zero (b : UInt8) : b &&& 0x80 = 0 ↔ b.toNat < 128 := by
  have h : ∀ n : Fin 256, n.val &&& 0x80 = 0 ↔ n.val < 128 := by decide +kernel
  rw [← UInt8.toNat_inj, UInt8.toNat_and]
  exact h ⟨b.toNat, b.toNat_lt⟩

/-- Or-ing a digit in above the bits read so far adds it. -/
theorem or_shift_toNat (value : UInt64) (d : UInt8) {s : Nat} (hs : s ≤ 63)
    (hv : value.toNat < 2 ^ s) :
    (value ||| d.toUInt64 <<< s.toUInt64).toNat = value.toNat + d.toNat * 2 ^ s % 2 ^ 64 := by
  have hmod : s.toUInt64.toNat % 64 = s := by
    simp only [Nat.toUInt64_eq, UInt64.toNat_ofNat']
    omega
  have hpow : 2 ^ 64 = 2 ^ (64 - s) * 2 ^ s := by
    rw [← Nat.pow_add]
    congr 1
    omega
  rw [UInt64.toNat_or, UInt64.toNat_shiftLeft, hmod, UInt8.toNat_toUInt64, Nat.shiftLeft_eq, hpow,
    Nat.mul_mod_mul_right, ← Nat.shiftLeft_eq, Nat.or_comm, ← Nat.shiftLeft_add_eq_or_of_lt hv,
    Nat.add_comm]

theorem Digits.ne_nil {bs : Bytes} {n : Nat} (h : Digits bs n) : bs ≠ [] := by
  cases h <;> simp

theorem Digits.length_pos {bs : Bytes} {n : Nat} (h : Digits bs n) : 0 < bs.length :=
  List.length_pos_iff.2 h.ne_nil

/-- With `shift` bits read so far, of value `value`, the loop accepts what is left of a varint. -/
theorem decodeVarintLoop_eq_ok {bytes : Bytes} {value v : UInt64} {shift pos p : Nat}
    (hv : value.toNat < 2 ^ shift) :
    decodeVarintLoop bytes value shift pos = .ok (v, p) ↔
      ∃ bs n, Digits bs n ∧ shift + 7 * bs.length ≤ 70 ∧ bytes.drop pos = bs ++ bytes.drop p ∧
        p = pos + bs.length ∧ v.toNat = (value.toNat + 2 ^ shift * n) % 2 ^ 64 := by
  fun_induction decodeVarintLoop bytes value shift pos with
  | case1 value shift pos hlt b value' hlast =>
      have hb : b.toNat < 128 := (and_80_eq_zero b).1 hlast
      have hdrop : bytes.drop pos = b :: bytes.drop (pos + 1) := List.drop_eq_getElem_cons hlt.1
      have hval : value'.toNat = (value.toNat + 2 ^ shift * b.toNat) % 2 ^ 64 := by
        have := value'.toNat_lt
        have h' : value'.toNat = value.toNat + b.toNat * 2 ^ shift % 2 ^ 64 := by
          rw [or_shift_toNat value _ hlt.2 hv, and_7F, Nat.mod_eq_of_lt hb]
        rw [Nat.mul_comm, ← Nat.mod_eq_of_lt this, h', Nat.add_mod_mod]
      rw [Except.ok.injEq, Prod.mk.injEq, hdrop]
      constructor
      · rintro ⟨rfl, rfl⟩
        exact ⟨[b], b.toNat, .last b hb, by simp; omega, rfl, rfl, hval⟩
      · rintro ⟨bs, n, hbs, -, hcons, rfl, hv'⟩
        cases hbs with
        | last c hc =>
            obtain ⟨rfl, -⟩ := List.cons.inj hcons
            exact ⟨UInt64.toNat_inj.1 (hval.trans hv'.symm), rfl⟩
        | more c bs n hc =>
            obtain ⟨rfl, -⟩ := List.cons.inj hcons
            omega
  | case2 value shift pos hlt b value' hmore ih =>
      have hb : 128 ≤ b.toNat := Nat.le_of_not_lt fun h => hmore ((and_80_eq_zero b).2 h)
      have hdrop : bytes.drop pos = b :: bytes.drop (pos + 1) := List.drop_eq_getElem_cons hlt.1
      have hval : value'.toNat = value.toNat + b.toNat % 128 * 2 ^ shift % 2 ^ 64 := by
        rw [or_shift_toNat value _ hlt.2 hv, and_7F]
      have hv' : value'.toNat < 2 ^ (shift + 7) := by
        have h₁ : b.toNat % 128 * 2 ^ shift % 2 ^ 64 ≤ b.toNat % 128 * 2 ^ shift := Nat.mod_le _ _
        have h₂ : b.toNat % 128 * 2 ^ shift ≤ 127 * 2 ^ shift :=
          Nat.mul_le_mul_right _ (by omega)
        rw [hval, Nat.pow_add]
        omega
      have hnext : ∀ n, (value'.toNat + 2 ^ (shift + 7) * n) % 2 ^ 64 =
          (value.toNat + 2 ^ shift * (b.toNat % 128 + 128 * n)) % 2 ^ 64 := by
        intro n
        rw [hval, Nat.add_right_comm, Nat.add_mod_mod, Nat.add_right_comm, Nat.pow_add,
          Nat.mul_add, Nat.mul_assoc, Nat.mul_comm (b.toNat % 128), Nat.add_assoc]
      rw [ih hv', hdrop]
      constructor
      · rintro ⟨bs, n, hbs, hlen, hrest, rfl, hvn⟩
        refine ⟨b :: bs, _, .more b bs n hb hbs, ?_, by rw [hrest]; rfl, ?_, ?_⟩
        · simp only [List.length_cons]
          omega
        · simp only [List.length_cons]
          omega
        · rw [hvn, hnext]
      · rintro ⟨bs, m, hbs, hlen, hcons, rfl, hvn⟩
        cases hbs with
        | last c hc =>
            obtain ⟨rfl, -⟩ := List.cons.inj hcons
            omega
        | more c bs n hc hbs =>
            obtain ⟨rfl, hrest⟩ := List.cons.inj hcons
            simp only [List.length_cons] at hlen
            exact ⟨bs, n, hbs, by omega, hrest, by simp only [List.length_cons]; omega,
              by rw [hvn, hnext]⟩
  | case3 value shift pos hge =>
      constructor
      · intro h
        cases h
      · rintro ⟨bs, n, hbs, hlen, hdrop, rfl, -⟩
        have hpos := hbs.length_pos
        have hcount := congrArg List.length hdrop
        simp only [List.length_drop, List.length_append] at hcount
        exact absurd ⟨by omega, by omega⟩ hge

theorem decodeVarint_eq_ok {bytes : Bytes} {v : UInt64} {pos p : Nat} :
    decodeVarint bytes pos = .ok (v, p) ↔
      ∃ bs, Varint bs v ∧ bytes.drop pos = bs ++ bytes.drop p ∧ p = pos + bs.length := by
  rw [decodeVarint, decodeVarintLoop_eq_ok (by simp)]
  constructor
  · rintro ⟨bs, n, hbs, hlen, hrest, hp, hv⟩
    exact ⟨bs, ⟨n, hbs, by omega, by simpa using hv⟩, hrest, hp⟩
  · rintro ⟨bs, ⟨n, hbs, hlen, hv⟩, hrest, hp⟩
    exact ⟨bs, n, hbs, by omega, hrest, hp, by simpa using hv⟩

/-! ## Fields -/

/-- A message of complete fields of wire type 0 or 2, with the number and the value of each field of
    type 2. -/
inductive Fields : Bytes → List (Nat × Bytes) → Prop
  | nil : Fields [] []
  | varint {tag val rest : Bytes} {t v : UInt64} {fs : List (Nat × Bytes)} (htag : Varint tag t)
      (htype : t &&& 0x07 = 0) (hval : Varint val v) (hrest : Fields rest fs) :
      Fields (tag ++ val ++ rest) fs
  | lengthDelimited {tag len value rest : Bytes} {t l : UInt64} {fs : List (Nat × Bytes)}
      (htag : Varint tag t) (htype : t &&& 0x07 = 2) (hlen : Varint len l)
      (hvalue : value.length = l.toNat) (hrest : Fields rest fs) :
      Fields (tag ++ len ++ value ++ rest) (((t >>> 3).toNat, value) :: fs)

theorem Varint.length_pos {bs : Bytes} {v : UInt64} (h : Varint bs v) : 0 < bs.length := by
  obtain ⟨n, hn, -⟩ := h
  exact hn.length_pos

theorem Fields.eq_nil {bs : Bytes} {fs : List (Nat × Bytes)} (h : Fields bs fs) (hbs : bs = []) :
    fs = [] := by
  cases h with
  | nil => rfl
  | varint htag htype hval hrest =>
      have := htag.length_pos
      simp_all
  | lengthDelimited htag htype hlen hvalue hrest =>
      have := htag.length_pos
      simp_all

/-- A varint in front is decoded as such. -/
theorem decodeVarint_of_varint {data bs rest : Bytes} {v : UInt64} {pos : Nat} (h : Varint bs v)
    (hdata : data.drop pos = bs ++ rest) : decodeVarint data pos = .ok (v, pos + bs.length) := by
  refine decodeVarint_eq_ok.2 ⟨bs, h, ?_, rfl⟩
  rw [← List.drop_drop, hdata, List.drop_left]

theorem parseFields_sound {data : Bytes} {req req' : Request} {pos : Nat}
    (hpos : pos ≤ data.length) (h : parseFields data req pos = .ok req') :
    ∃ fs, Fields (data.drop pos) fs ∧ req' = fs.foldl Request.setField req := by
  fun_induction parseFields data req pos with
  | case1 => cases h
  | case2 => cases h
  | case3 => cases h
  | case4 req pos _ tag pos₁ htag fieldNum wireType htype len64 pos₂ hlen hb hle value ih =>
      obtain ⟨tagBytes, hvtag, hrest₁, -⟩ := decodeVarint_eq_ok.1 htag
      obtain ⟨lenBytes, hvlen, hrest₂, -⟩ := decodeVarint_eq_ok.1 hlen
      obtain ⟨fs, hfs, rfl⟩ := ih (by omega) h
      refine ⟨_ :: fs, ?_, rfl⟩
      have hvalue : data.drop pos₂ = value ++ data.drop (pos₂ + len64.toNat) := by
        rw [← List.drop_drop, ← List.take_append_drop len64.toNat (data.drop pos₂)]
        simp [value, slice]
      rw [hrest₁, hrest₂, hvalue, ← List.append_assoc, ← List.append_assoc]
      refine .lengthDelimited hvtag htype hvlen ?_ hfs
      simp only [value, slice, List.length_take, List.length_drop]
      omega
  | case5 => cases h
  | case6 req pos _ tag pos₁ htag wireType _ htype v pos₂ hval ih =>
      obtain ⟨tagBytes, hvtag, hrest₁, -⟩ := decodeVarint_eq_ok.1 htag
      obtain ⟨valBytes, hvval, hrest₂, -⟩ := decodeVarint_eq_ok.1 hval
      obtain ⟨fs, hfs, rfl⟩ := ih (decodeVarint_pos hval).2 h
      refine ⟨fs, ?_, rfl⟩
      rw [hrest₁, hrest₂, ← List.append_assoc]
      exact .varint hvtag htype hvval hfs
  | case7 => cases h
  | case8 req pos hge =>
      obtain rfl := Except.ok.inj h
      refine ⟨[], ?_, rfl⟩
      rw [List.drop_of_length_le (Nat.le_of_not_lt hge)]
      exact .nil

theorem parseFields_varint {data : Bytes} (req : Request) {t v : UInt64} {pos pos₁ pos₂ : Nat}
    (htag : decodeVarint data pos = .ok (t, pos₁)) (htype : t &&& 0x07 = 0)
    (hval : decodeVarint data pos₁ = .ok (v, pos₂)) :
    parseFields data req pos = parseFields data req pos₂ := by
  have hpos := decodeVarint_pos htag
  rw [parseFields, if_pos (by omega)]
  split
  · next h => simp [htag] at h
  · next tag p₁ h =>
      obtain ⟨rfl, rfl⟩ : t = tag ∧ pos₁ = p₁ := by simpa [htag] using h
      simp only [htype]
      rw [if_neg (by decide), if_pos trivial]
      split
      · next h => simp [hval] at h
      · next v' p₂ h =>
          obtain ⟨-, rfl⟩ : v = v' ∧ pos₂ = p₂ := by simpa [hval] using h
          rfl

theorem parseFields_lengthDelimited {data : Bytes} (req : Request) {t l : UInt64}
    {pos pos₁ pos₂ : Nat} (htag : decodeVarint data pos = .ok (t, pos₁)) (htype : t &&& 0x07 = 2)
    (hlen : decodeVarint data pos₁ = .ok (l, pos₂)) (hl : l.toNat ≤ data.length - pos₂) :
    parseFields data req pos =
      parseFields data (req.setField ((t >>> 3).toNat, (data.drop pos₂).take l.toNat))
        (pos₂ + l.toNat) := by
  have hpos := decodeVarint_pos htag
  rw [parseFields, if_pos (by omega)]
  split
  · next h => simp [htag] at h
  · next tag p₁ h =>
      obtain ⟨rfl, rfl⟩ : t = tag ∧ pos₁ = p₁ := by simpa [htag] using h
      simp only [htype]
      rw [if_pos trivial]
      split
      · next h => simp [hlen] at h
      · next l' p₂ h =>
          obtain ⟨rfl, rfl⟩ : l = l' ∧ pos₂ = p₂ := by simpa [hlen] using h
          rw [dif_neg (by omega)]
          rfl

theorem parseFields_complete {data bs : Bytes} {fs : List (Nat × Bytes)} (hfs : Fields bs fs)
    (req : Request) {pos : Nat} (hdata : data.drop pos = bs) :
    parseFields data req pos = .ok (fs.foldl Request.setField req) := by
  induction hfs generalizing req pos with
  | nil =>
      rw [parseFields, if_neg (by simpa using hdata)]
      rfl
  | @varint tag val rest t v fs htag htype hval _ ih =>
      rw [List.append_assoc] at hdata
      have hval' : data.drop (pos + tag.length) = val ++ rest := by
        rw [← List.drop_drop, hdata, List.drop_left]
      rw [parseFields_varint req (decodeVarint_of_varint htag hdata) htype
        (decodeVarint_of_varint hval hval')]
      exact ih req (by rw [← List.drop_drop, hval', List.drop_left])
  | @lengthDelimited tag len value rest t l fs htag htype hlen hvalue _ ih =>
      rw [List.append_assoc, List.append_assoc] at hdata
      have hlen' : data.drop (pos + tag.length) = len ++ (value ++ rest) := by
        rw [← List.drop_drop, hdata, List.drop_left]
      have hvalue' : data.drop (pos + tag.length + len.length) = value ++ rest := by
        rw [← List.drop_drop, hlen', List.drop_left]
      have hcount := congrArg List.length hvalue'
      simp only [List.length_drop, List.length_append] at hcount
      rw [parseFields_lengthDelimited req (decodeVarint_of_varint htag hdata) htype
        (decodeVarint_of_varint hlen hlen') (by omega), hvalue', List.take_left' hvalue]
      exact ih _ (by rw [← List.drop_drop, hvalue', List.drop_left' hvalue])

/-- The loops over the payload only throw what the source throws. -/
theorem decodeVarintLoop_error {bytes : Bytes} {value : UInt64} {shift pos : Nat} {e : Exn}
    (h : decodeVarintLoop bytes value shift pos = .error e) :
    e = .runtimeError "invalid addons varint" := by
  fun_induction decodeVarintLoop bytes value shift pos with
  | case1 => cases h
  | case2 _ _ _ _ _ _ _ ih => exact ih h
  | case3 => exact (Except.error.inj h).symm

theorem parseFields_error {data : Bytes} {req : Request} {pos : Nat} {e : Exn}
    (h : parseFields data req pos = .error e) : ∃ what, e = .runtimeError what := by
  fun_induction parseFields data req pos with
  | case1 _ _ _ _ htag => exact ⟨_, Except.error.inj h ▸ decodeVarintLoop_error htag⟩
  | case2 _ _ _ _ _ _ _ _ _ hlen => exact ⟨_, Except.error.inj h ▸ decodeVarintLoop_error hlen⟩
  | case3 => exact ⟨_, (Except.error.inj h).symm⟩
  | case4 _ _ _ _ _ _ _ _ _ _ _ _ _ _ _ ih => exact ih h
  | case5 _ _ _ _ _ _ _ _ _ _ hval => exact ⟨_, Except.error.inj h ▸ decodeVarintLoop_error hval⟩
  | case6 _ _ _ _ _ _ _ _ _ _ _ _ ih => exact ih h
  | case7 => exact ⟨_, (Except.error.inj h).symm⟩
  | case8 => cases h

/-- **The loop over the payload accepts exactly the complete fields** and applies them in order. -/
theorem parseFields_eq_ok {data : Bytes} {req req' : Request} {pos : Nat}
    (hpos : pos ≤ data.length) :
    parseFields data req pos = .ok req' ↔
      ∃ fs, Fields (data.drop pos) fs ∧ req' = fs.foldl Request.setField req := by
  constructor
  · exact parseFields_sound hpos
  · rintro ⟨fs, hfs, rfl⟩
    exact parseFields_complete hfs req rfl

/-- Applying the fields in order leaves the last value of each. -/
theorem foldl_setField (fs : List (Nat × Bytes)) (req : Request) :
    fs.foldl Request.setField req =
      { req with
        flow := (fs.reverse.lookup 1).getD req.flow
        seed := (fs.reverse.lookup 2).getD req.seed } := by
  induction fs using List.reverseRecOn with
  | nil => rfl
  | append_singleton fs f ih =>
      obtain ⟨n, value⟩ := f
      rw [List.foldl_append, ih, List.reverse_append]
      by_cases h₁ : n = 1
      · subst h₁
        simp [Request.setField, List.lookup_cons]
      · by_cases h₂ : n = 2
        · subst h₂
          simp [Request.setField, List.lookup_cons]
        · have e₁ : (1 == n) = false := by simpa using Ne.symm h₁
          have e₂ : (2 == n) = false := by simpa using Ne.symm h₂
          simp [Request.setField, List.lookup_cons, h₁, h₂, e₁, e₂]

end Cppvless
