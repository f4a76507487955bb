import Mathlib.Data.Int.Log
import Mathlib.Data.Rat.Floor
import Mathlib.Tactic.NormNum
import Mathlib.Tactic.Linarith

set_option autoImplicit false

/-! # Doubles

The values of IEEE binary64, without the sign of zero, and the rounding of a rational to the nearest
of them, ties to even. An integer of at most 53 bits is such a value, so rounding leaves it. -/

namespace Cppvless

/-- A value of binary64. -/
inductive Double
  | finite (q : ℚ)
  | infinity (neg : Bool)
  | nan
  deriving DecidableEq

namespace Double

/-- The nearest integer, the even one of two. -/
def roundHalfEven (q : ℚ) : ℤ :=
  if q - ⌊q⌋ < 1 / 2 then ⌊q⌋
  else if 1 / 2 < q - ⌊q⌋ then ⌊q⌋ + 1
  else if ⌊q⌋ % 2 = 0 then ⌊q⌋ else ⌊q⌋ + 1

/-- The last place of the values around `q`: 53 bits, and none below `2 ^ -1074`. -/
def lastPlace (q : ℚ) : ℚ := 2 ^ max (Int.log 2 |q| - 52) (-1074)

/-- The nearest value. -/
def nearest (q : ℚ) : Double :=
  let r := roundHalfEven (q / lastPlace q) * lastPlace q
  if |r| < 2 ^ 1024 then .finite r else .infinity (decide (q < 0))

/-- The conversion to a 64-bit integer: towards zero. Beyond the range the language leaves it open;
    this is what the x86-64 instruction answers. -/
def toInt64 : Double → ℤ
  | .finite q =>
      let n := if q < 0 then ⌈q⌉ else ⌊q⌋
      if -2 ^ 63 ≤ n ∧ n < 2 ^ 63 then n else -2 ^ 63
  | _ => -2 ^ 63

theorem roundHalfEven_int (n : ℤ) : roundHalfEven n = n := by
  rw [roundHalfEven, Int.floor_intCast, sub_self, if_pos (by norm_num)]

theorem lastPlace_pos (q : ℚ) : 0 < lastPlace q := zpow_pos (by norm_num) _

/-- A multiple of the last place is a value. -/
theorem nearest_of_multiple {q : ℚ} {m : ℤ} (h : q / lastPlace q = m) (hq : |q| < 2 ^ 1024) :
    nearest q = .finite q := by
  have hr : roundHalfEven (q / lastPlace q) * lastPlace q = q := by
    rw [h, roundHalfEven_int, ← h]
    exact div_mul_cancel₀ q (lastPlace_pos q).ne'
  rw [nearest, hr, if_pos hq]

/-- An integer of at most 53 bits is a multiple of its last place. -/
theorem div_lastPlace_int {n : ℤ} (h : n.natAbs ≤ 2 ^ 53) :
    ∃ m : ℤ, (n : ℚ) / lastPlace n = m := by
  by_cases hn : n = 0
  · exact ⟨0, by rw [hn]; norm_num⟩
  have habs : (0 : ℚ) < |(n : ℚ)| := abs_pos.2 (by exact_mod_cast hn)
  have hle : |(n : ℚ)| ≤ 2 ^ 53 := by
    rw [← Int.cast_abs, Int.abs_eq_natAbs]
    exact_mod_cast h
  have hlog : ((2 : ℕ) : ℚ) ^ Int.log 2 |(n : ℚ)| ≤ |(n : ℚ)| := Int.zpow_log_le_self (by decide) habs
  by_cases hlt : Int.log 2 |(n : ℚ)| ≤ 52
  · -- the last place is at most 1
    obtain ⟨k, hk⟩ : ∃ k : ℕ, max (Int.log 2 |(n : ℚ)| - 52) (-1074) = -(k : ℤ) :=
      ⟨(-(max (Int.log 2 |(n : ℚ)| - 52) (-1074))).toNat, by omega⟩
    refine ⟨n * 2 ^ k, ?_⟩
    rw [lastPlace, hk, zpow_neg, zpow_natCast, div_inv_eq_mul]
    push_cast
    ring
  · -- the number is `2 ^ 53` or its opposite
    have hlog53 : Int.log 2 |(n : ℚ)| = 53 := by
      have hpow : ((2 : ℕ) : ℚ) ^ Int.log 2 |(n : ℚ)| ≤ ((2 : ℕ) : ℚ) ^ (53 : ℤ) :=
        hlog.trans (hle.trans_eq (by norm_num))
      have := (zpow_le_zpow_iff_right₀ (by norm_num : (1 : ℚ) < ((2 : ℕ) : ℚ))).1 hpow
      omega
    have heq : |(n : ℚ)| = 2 ^ 53 := by
      rw [hlog53] at hlog
      exact le_antisymm hle (by exact_mod_cast hlog)
    rw [lastPlace, hlog53]
    rcases abs_eq (by norm_num : (0 : ℚ) ≤ 2 ^ 53) |>.1 heq with hpos | hneg
    · exact ⟨2 ^ 52, by rw [hpos]; norm_num⟩
    · exact ⟨-2 ^ 52, by rw [hneg]; norm_num⟩

/-- **Integers of at most 53 bits are exact.** -/
theorem nearest_int {n : ℤ} (h : n.natAbs ≤ 2 ^ 53) : nearest n = .finite n := by
  obtain ⟨m, hm⟩ := div_lastPlace_int h
  refine nearest_of_multiple hm ?_
  have hle : |(n : ℚ)| ≤ 2 ^ 53 := by
    rw [← Int.cast_abs, Int.abs_eq_natAbs]
    exact_mod_cast h
  exact hle.trans_lt (pow_lt_pow_right₀ (by norm_num) (by norm_num))

theorem toInt64_int {n : ℤ} (h : n.natAbs ≤ 2 ^ 53) : toInt64 (.finite n) = n := by
  have hn : (if (n : ℚ) < 0 then ⌈(n : ℚ)⌉ else ⌊(n : ℚ)⌋) = n := by
    rw [Int.ceil_intCast, Int.floor_intCast, ite_self]
  rw [toInt64, hn, if_pos (by omega)]

end Double

end Cppvless
