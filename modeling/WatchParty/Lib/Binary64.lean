import Mathlib.Algebra.Order.Field.Power
import Mathlib.Data.Int.Log
import Mathlib.Data.Rat.Floor
import Mathlib.Tactic.Linarith
import Mathlib.Tactic.NormNum
import Mathlib.Tactic.Positivity
import Mathlib.Tactic.Ring

/-!
# The double nearest to a rational

Rounding to the nearest double, with ties to the even significand. A double is given by its value, so the two zeros are
one; what would round to an infinity has no double.

- `Binary64.nearest` is the rounding;
- `Binary64.nearest_pos`: nothing from one on becomes zero;
- `Binary64.nearest_even`: above `2 ^ 53 + 1` it gives even integers only.
-/

namespace Binary64

/-- The integer nearest to a rational, the even one of two. -/
def roundEven (q : ℚ) : ℤ :=
  if q - ⌊q⌋ < 1 / 2 then ⌊q⌋
  else if 1 / 2 < q - ⌊q⌋ then ⌊q⌋ + 1
  else if ⌊q⌋ % 2 = 0 then ⌊q⌋ else ⌊q⌋ + 1

/-- The distance of the doubles around a rational. -/
def ulp (q : ℚ) : ℚ := 2 ^ (max (Int.log 2 |q|) (-1022) - 52)

/-- The nearest double. -/
def nearest (q : ℚ) : Option ℚ :=
  let r := roundEven (q / ulp q) * ulp q
  if |r| < 2 ^ 1024 then some r else none

theorem floor_le_roundEven (q : ℚ) : ⌊q⌋ ≤ roundEven q := by
  unfold roundEven
  repeat' split
  all_goals omega

theorem roundEven_le (q : ℚ) : roundEven q ≤ ⌊q⌋ + 1 := by
  unfold roundEven
  repeat' split
  all_goals omega

theorem ulp_pos (q : ℚ) : 0 < ulp q := by
  unfold ulp
  positivity

theorem nearest_eq {q r : ℚ} (h : nearest q = some r) : r = roundEven (q / ulp q) * ulp q := by
  simp only [nearest] at h
  split at h
  · exact (Option.some.inj h).symm
  · cases h

theorem ulp_of_one_le {q : ℚ} (h : 1 ≤ q) : ulp q = 2 ^ (Int.log 2 q - 52) := by
  have hlog : 0 ≤ Int.log 2 q := by
    rw [← Int.log_one_right (R := ℚ) 2]
    exact Int.log_mono_right one_pos h
  unfold ulp
  rw [abs_of_pos (one_pos.trans_le h), max_eq_left (by omega)]

/-- The significand of a rational from one on has at least 53 bits, and at most 53. -/
theorem significand {q : ℚ} (h : 1 ≤ q) : 2 ^ 52 ≤ q / ulp q ∧ q / ulp q < 2 ^ 53 := by
  have hpos := one_pos.trans_le h
  have hu := ulp_pos q
  rw [le_div_iff₀ hu, div_lt_iff₀ hu, ulp_of_one_le h]
  constructor
  · have hle := Int.zpow_log_le_self (R := ℚ) (b := 2) (by norm_num) hpos
    calc (2 : ℚ) ^ 52 * 2 ^ (Int.log 2 q - 52) = 2 ^ (Int.log 2 q) := by
          rw [← zpow_natCast, ← zpow_add₀ two_ne_zero]
          congr 1
          push_cast
          omega
      _ ≤ q := by exact_mod_cast hle
  · have hlt := Int.lt_zpow_succ_log_self (R := ℚ) (b := 2) (by norm_num) q
    calc q < 2 ^ (Int.log 2 q + 1) := by exact_mod_cast hlt
      _ = 2 ^ 53 * 2 ^ (Int.log 2 q - 52) := by
          rw [← zpow_natCast, ← zpow_add₀ two_ne_zero]
          congr 1
          push_cast
          omega

/-- Nothing from one on becomes zero. -/
theorem nearest_pos {q r : ℚ} (hq : 1 ≤ q) (h : nearest q = some r) : 0 < r := by
  rw [nearest_eq h]
  have hfloor : (2 ^ 52 : ℤ) ≤ ⌊q / ulp q⌋ := Int.le_floor.mpr (by exact_mod_cast (significand hq).1)
  have hround := hfloor.trans (floor_le_roundEven _)
  have hpos : (0 : ℚ) < roundEven (q / ulp q) := by
    exact_mod_cast lt_of_lt_of_le (by norm_num) hround
  exact mul_pos hpos (ulp_pos q)

/-- A small rational has a small distance to the next double. -/
theorem ulp_le_one {q : ℚ} (h0 : 0 ≤ q) (h : q < 2 ^ 53) : ulp q ≤ 1 := by
  have hlog : Int.log 2 |q| ≤ 52 := by
    rw [abs_of_nonneg h0]
    rcases h0.eq_or_lt with rfl | hpos
    · simp
    · have hle := Int.zpow_log_le_self (R := ℚ) (b := 2) (by norm_num) hpos
      have hlt : (2 : ℚ) ^ Int.log 2 q < 2 ^ (53 : ℤ) := by exact_mod_cast hle.trans_lt h
      have := (zpow_lt_zpow_iff_right₀ (by norm_num : (1 : ℚ) < 2)).mp hlt
      omega
  exact zpow_le_one_of_nonpos₀ (by norm_num) (by omega)

/-- From `2 ^ 53` on that distance is an even integer. -/
theorem ulp_even {q : ℚ} (h : 2 ^ 53 ≤ q) : ∃ m : ℕ, ulp q = 2 * 2 ^ m := by
  have hone : (1 : ℚ) ≤ q := le_trans (by norm_num) h
  have hlog : 53 ≤ Int.log 2 q := by
    have hmono := Int.log_mono_right (b := 2) (by positivity : (0 : ℚ) < 2 ^ 53) h
    have hpow : Int.log 2 ((2 : ℚ) ^ 53) = 53 := by exact_mod_cast Int.log_zpow (R := ℚ) (b := 2) (by norm_num) 53
    omega
  obtain ⟨m, hm⟩ := Int.eq_ofNat_of_zero_le (sub_nonneg.mpr hlog)
  refine ⟨m, ?_⟩
  rw [ulp_of_one_le hone, ← pow_succ', ← zpow_natCast]
  congr 1
  push_cast
  omega

/-- Above `2 ^ 53 + 1` rounding gives even integers only. -/
theorem nearest_even {q r : ℚ} (h : nearest q = some r) : r ≤ 2 ^ 53 + 1 ∨ ∃ m : ℤ, r = 2 * m := by
  rw [nearest_eq h]
  have hu := ulp_pos q
  have hround : (roundEven (q / ulp q) : ℚ) ≤ ⌊q / ulp q⌋ + 1 := by exact_mod_cast roundEven_le _
  rcases lt_or_ge q 0 with hneg | h0
  · left
    have hfloor : ⌊q / ulp q⌋ < 0 := Int.floor_lt.mpr (by simpa using div_neg_of_neg_of_pos hneg hu)
    have hle : (⌊q / ulp q⌋ : ℚ) + 1 ≤ 0 := by exact_mod_cast Int.add_one_le_iff.mpr hfloor
    have := mul_nonpos_of_nonpos_of_nonneg (hround.trans hle) hu.le
    linarith
  rcases lt_or_ge q (2 ^ 53) with hlt | hge
  · left
    calc (roundEven (q / ulp q) : ℚ) * ulp q ≤ (q / ulp q + 1) * ulp q :=
          mul_le_mul_of_nonneg_right (hround.trans (by linarith [Int.floor_le (q / ulp q)])) hu.le
      _ = q + ulp q := by rw [add_mul, div_mul_cancel₀ q hu.ne', one_mul]
      _ ≤ 2 ^ 53 + 1 := add_le_add hlt.le (ulp_le_one h0 hlt)
  · right
    obtain ⟨m, hm⟩ := ulp_even hge
    refine ⟨roundEven (q / ulp q) * 2 ^ m, ?_⟩
    rw [hm]
    push_cast
    ring

end Binary64
