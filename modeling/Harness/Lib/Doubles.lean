-- SUMMARY: Rounding of rationals to doubles, to the nearest and on a tie to the even one.
import Mathlib.Data.Int.Log
import Mathlib.Data.Rat.Floor
import Mathlib.Tactic.Positivity

/-!
# Doubles

A double is a rational whose significand has 53 bits. Every operation is the exact one,
rounded. Magnitudes stay within the range of normal numbers.
-/

namespace Doubles

/-! ## Rounding to an integer -/

/-- The nearest integer, on a tie the even one. -/
def roundEven (x : ℚ) : ℤ :=
  let k := ⌊x⌋
  if x - k < 1 / 2 then k
  else if 1 / 2 < x - k then k + 1
  else if k % 2 = 0 then k
  else k + 1

theorem roundEven_cases (x : ℚ) : roundEven x = ⌊x⌋ ∨ roundEven x = ⌊x⌋ + 1 := by
  simp only [roundEven]
  split_ifs <;> simp

@[simp] theorem roundEven_intCast (k : ℤ) : roundEven (k : ℚ) = k := by
  simp [roundEven]

theorem roundEven_mono {x y : ℚ} (h : x ≤ y) : roundEven x ≤ roundEven y := by
  rcases (Int.floor_mono h).lt_or_eq with hlt | heq
  · have hx := roundEven_cases x
    have hy := roundEven_cases y
    omega
  · -- Within one unit, a later number is never rounded down when an earlier one is not.
    simp only [roundEven, ← heq]
    have hsub : x - (⌊x⌋ : ℚ) ≤ y - (⌊x⌋ : ℚ) := by linarith
    split_ifs <;> first | omega | (exfalso; linarith)

theorem roundEven_le {x : ℚ} {n : ℤ} (h : x ≤ n) : roundEven x ≤ n := by
  simpa using roundEven_mono h

theorem le_roundEven {x : ℚ} {n : ℤ} (h : (n : ℚ) ≤ x) : n ≤ roundEven x := by
  simpa using roundEven_mono h

/-! ## Rounding to a double -/

/-- The exponent of the last place of a double near `x`. -/
def ulpExponent (x : ℚ) : ℤ := Int.log 2 |x| - 52

/-- The double nearest to a rational. -/
def round (x : ℚ) : ℚ :=
  if x = 0 then 0 else roundEven (x / 2 ^ ulpExponent x) * 2 ^ ulpExponent x

@[simp] theorem round_zero : round 0 = 0 := rfl

theorem zpow_split (a b : ℤ) (h : b ≤ a) :
    ((2 ^ (a - b).toNat : ℤ) : ℚ) * 2 ^ b = 2 ^ a := by
  have hnat : ((a - b).toNat : ℤ) = a - b := Int.toNat_of_nonneg (by omega)
  push_cast
  rw [← zpow_natCast, hnat, ← zpow_add₀ (by norm_num)]
  congr 1
  omega

/-- A power of two on the grid of `x` that bounds it from above bounds its rounding. -/
theorem round_le_pow {x : ℚ} (hx : 0 < x) {n : ℤ} (hn : ulpExponent x ≤ n) (h : x ≤ 2 ^ n) :
    round x ≤ 2 ^ n := by
  have hpos : (0 : ℚ) < 2 ^ ulpExponent x := zpow_pos (by norm_num) _
  rw [round, if_neg hx.ne', ← zpow_split n _ hn]
  apply mul_le_mul_of_nonneg_right _ hpos.le
  have hquot : x / 2 ^ ulpExponent x ≤ ((2 ^ (n - ulpExponent x).toNat : ℤ) : ℚ) := by
    rw [div_le_iff₀ hpos, zpow_split n _ hn]
    exact h
  exact_mod_cast roundEven_le hquot

/-- A power of two on the grid of `x` that bounds it from below bounds its rounding. -/
theorem pow_le_round {x : ℚ} (hx : 0 < x) {n : ℤ} (hn : ulpExponent x ≤ n) (h : 2 ^ n ≤ x) :
    2 ^ n ≤ round x := by
  have hpos : (0 : ℚ) < 2 ^ ulpExponent x := zpow_pos (by norm_num) _
  rw [round, if_neg hx.ne', ← zpow_split n _ hn]
  apply mul_le_mul_of_nonneg_right _ hpos.le
  have hquot : ((2 ^ (n - ulpExponent x).toNat : ℤ) : ℚ) ≤ x / 2 ^ ulpExponent x := by
    rw [le_div_iff₀ hpos, zpow_split n _ hn]
    exact h
  exact_mod_cast le_roundEven hquot

theorem round_pos_lower {x : ℚ} (hx : 0 < x) : 2 ^ Int.log 2 x ≤ round x := by
  refine pow_le_round hx ?_ (by exact_mod_cast Int.zpow_log_le_self (by norm_num) hx)
  unfold ulpExponent
  rw [abs_of_pos hx]
  omega

theorem round_nonneg {x : ℚ} (hx : 0 ≤ x) : 0 ≤ round x := by
  rcases hx.eq_or_lt with rfl | hpos
  · exact le_refl _
  · exact (zpow_pos (by norm_num) _).le.trans (round_pos_lower hpos)

/-- Rounding keeps the order of nonnegative numbers. -/
theorem round_mono {x y : ℚ} (hx : 0 ≤ x) (h : x ≤ y) : round x ≤ round y := by
  rcases hx.eq_or_lt with rfl | hxpos
  · exact round_nonneg h
  have hypos : 0 < y := lt_of_lt_of_le hxpos h
  have hlog : Int.log 2 x ≤ Int.log 2 y := Int.log_mono_right hxpos h
  rcases hlog.lt_or_eq with hlt | heq
  · -- A power of two stands between the two.
    have hbound : x ≤ 2 ^ Int.log 2 y := by
      have hsucc := Int.lt_zpow_succ_log_self (b := 2) (by norm_num) x
      have hpow : ((2 : ℕ) : ℚ) ^ (Int.log 2 x + 1) ≤ ((2 : ℕ) : ℚ) ^ Int.log 2 y :=
        zpow_le_zpow_right₀ (by norm_num) (by omega)
      exact_mod_cast (hsucc.trans_le hpow).le
    have hgrid : ulpExponent x ≤ Int.log 2 y := by
      unfold ulpExponent
      rw [abs_of_pos hxpos]
      omega
    exact (round_le_pow hxpos hgrid hbound).trans (round_pos_lower hypos)
  · have hulp : ulpExponent x = ulpExponent y := by
      unfold ulpExponent
      rw [abs_of_pos hxpos, abs_of_pos hypos, heq]
    have hpos : (0 : ℚ) < 2 ^ ulpExponent y := zpow_pos (by norm_num) _
    rw [round, round, if_neg hxpos.ne', if_neg hypos.ne', hulp]
    apply mul_le_mul_of_nonneg_right _ hpos.le
    exact_mod_cast roundEven_mono (div_le_div_of_nonneg_right h hpos.le)

/-- A power of two is a double. -/
theorem round_two_pow (n : ℕ) : round (2 ^ n) = 2 ^ n := by
  have hpos : (0 : ℚ) < 2 ^ n := by positivity
  have hlog : Int.log 2 ((2 : ℚ) ^ n) = n := by
    have hcast := Int.log_zpow (R := ℚ) (b := 2) (by norm_num) n
    exact_mod_cast hcast
  have hgrid : ulpExponent ((2 : ℚ) ^ n) ≤ n := by
    unfold ulpExponent
    rw [abs_of_pos hpos, hlog]
    omega
  apply le_antisymm
  · exact_mod_cast round_le_pow hpos hgrid (by simp)
  · exact_mod_cast pow_le_round hpos hgrid (by simp)

/-! ## Quotients of integers -/

/-- Rounding to an integer adds at most one half. -/
theorem roundEven_sub_le (x : ℚ) : (roundEven x : ℚ) - x ≤ 1 / 2 := by
  have hfloor := Int.floor_le x
  simp only [roundEven]
  split_ifs <;> push_cast <;> linarith

/-- A double exceeds the number that it is nearest to by at most one part in `2 ^ 53`. -/
theorem round_sub_le {x : ℚ} (hx : 0 < x) : round x - x ≤ x / 2 ^ 53 := by
  have hpos : (0 : ℚ) < 2 ^ ulpExponent x := zpow_pos (by norm_num) _
  have hulp : (2 : ℚ) ^ ulpExponent x ≤ x / 2 ^ 52 := by
    have hlog : (2 : ℚ) ^ Int.log 2 x ≤ x := by
      exact_mod_cast Int.zpow_log_le_self one_lt_two hx
    have hbits : (2 : ℚ) ^ (52 : ℤ) = 2 ^ 52 := by norm_num
    rw [ulpExponent, abs_of_pos hx, zpow_sub₀ (by norm_num), hbits]
    exact div_le_div_of_nonneg_right hlog (by norm_num)
  have hsplit : round x - x
      = (roundEven (x / 2 ^ ulpExponent x) - x / 2 ^ ulpExponent x) * 2 ^ ulpExponent x := by
    rw [round, if_neg hx.ne', sub_mul, div_mul_cancel₀ x hpos.ne']
  rw [hsplit]
  calc ((roundEven (x / 2 ^ ulpExponent x) : ℚ) - x / 2 ^ ulpExponent x) * 2 ^ ulpExponent x
      ≤ 1 / 2 * 2 ^ ulpExponent x := mul_le_mul_of_nonneg_right (roundEven_sub_le _) hpos.le
    _ ≤ 1 / 2 * (x / 2 ^ 52) := by linarith
    _ = x / 2 ^ 53 := by ring

/-- An integer of at most 53 bits is a double. -/
theorem round_natCast {n : ℕ} (h : n < 2 ^ 53) : round (n : ℚ) = n := by
  rcases Nat.eq_zero_or_pos n with rfl | hpos
  · simp
  have hn : (0 : ℚ) < n := by exact_mod_cast hpos
  have hlog : Int.log 2 (n : ℚ) = Nat.log 2 n := Int.log_natCast 2 n
  have hexp : ulpExponent (n : ℚ) ≤ 0 := by
    have hlt : Nat.log 2 n < 53 := Nat.log_lt_of_lt_pow hpos.ne' h
    rw [ulpExponent, abs_of_pos hn, hlog]
    omega
  have hpow : (0 : ℚ) < 2 ^ ulpExponent (n : ℚ) := zpow_pos (by norm_num) _
  have hquot : (n : ℚ) / 2 ^ ulpExponent (n : ℚ)
      = ((n * 2 ^ (-ulpExponent (n : ℚ)).toNat : ℤ) : ℚ) := by
    have hsplit := zpow_split 0 (ulpExponent (n : ℚ)) hexp
    rw [zpow_zero, zero_sub] at hsplit
    rw [div_eq_iff hpow.ne', Int.cast_mul, mul_assoc, hsplit, mul_one, Int.cast_natCast]
  rw [round, if_neg hn.ne', hquot, roundEven_intCast, ← hquot, div_mul_cancel₀ _ hpow.ne']

/-- The floor of a rounded quotient of integers is their integer quotient. -/
theorem floor_round_div {d i : ℤ} (hd : 0 ≤ d) (hbound : d < 2 ^ 53) (hi : 0 < i) :
    ⌊round ((d : ℚ) / i)⌋ = d / i := by
  have hiq : (0 : ℚ) < i := by exact_mod_cast hi
  have hdq : (0 : ℚ) ≤ d := by exact_mod_cast hd
  have hquot : 0 ≤ d / i := Int.ediv_nonneg hd hi.le
  have hsmall : d / i < 2 ^ 53 := (Int.ediv_le_self i hd).trans_lt hbound
  rw [Int.floor_eq_iff]
  constructor
  · -- The integer quotient is a double below the exact one.
    obtain ⟨n, hn⟩ := Int.eq_ofNat_of_zero_le hquot
    have hexact : round (((d / i : ℤ)) : ℚ) = ((d / i : ℤ) : ℚ) := by
      rw [hn, Int.cast_natCast]
      exact round_natCast (by exact_mod_cast hn ▸ hsmall)
    rw [← hexact]
    apply round_mono (by exact_mod_cast hquot)
    rw [le_div_iff₀ hiq]
    exact_mod_cast Int.ediv_mul_le d hi.ne'
  · rcases hd.eq_or_lt with rfl | hpos
    · simp
    -- The gap to the next integer is at least `1 / i`, the error is below it.
    have hx : (0 : ℚ) < d / i := div_pos (by exact_mod_cast hpos) hiq
    have herror : (d : ℚ) / i / 2 ^ 53 < 1 / i := by
      rw [div_right_comm]
      apply div_lt_div_of_pos_right _ hiq
      rw [div_lt_one (by positivity)]
      exact_mod_cast hbound
    have hgap : (d : ℚ) / i + 1 / i ≤ (d / i : ℤ) + 1 := by
      rw [← add_div, div_le_iff₀ hiq]
      have hlt : d + 1 ≤ (d / i + 1) * i := Int.lt_ediv_add_one_mul_self d hi
      exact_mod_cast hlt
    have hround := round_sub_le hx
    linarith

end Doubles
