import Mathlib.Data.Int.Log
import Mathlib.Data.Rat.Floor
import Mathlib.Tactic.Linarith
import Mathlib.Tactic.NormNum

/-!
# `double` arithmetic

The stratum client keeps the pool's difficulty as a `double` and computes the share target in
binary64 (`diffToTarget`). A `double` is modelled by the rational it stands for, and an
operation by its exact result rounded to nearest, ties to even, to a 53-bit significand
(`roundDouble`). The exponent is unbounded: the values `diffToTarget` meets stay in the normal
range, where this is the IEEE 754 rounding.

* `roundDouble_mono`: rounding is monotone.
* `abs_roundDouble_sub_le`: it moves a value by at most `2 ^ -53` of its size.
* `roundDouble_intCast_mul_zpow`: a value with a significand of at most 53 bits is its own
  rounding, so dividing a `double` by a power of two is exact (`Double.val_div_two_pow`).
-/

namespace ProgPowMiner

/-- Round to the nearest integer, ties to even. -/
def roundHalfEven (x : Rat) : Int :=
  if x - ⌊x⌋ < 1 / 2 then ⌊x⌋
  else if 1 / 2 < x - ⌊x⌋ then ⌊x⌋ + 1
  else if ⌊x⌋ % 2 = 0 then ⌊x⌋ else ⌊x⌋ + 1

/-- The exponent of the last significand bit of a `double` of the size of `x`: `⌊log₂ |x|⌋ - 52`. -/
def ulpExp (x : Rat) : Int := Int.log 2 |x| - 52

/-- Binary64 rounding to nearest, ties to even: the nearest multiple of `2 ^ ulpExp x`. -/
def roundDouble (x : Rat) : Rat := roundHalfEven (x / 2 ^ ulpExp x) * 2 ^ ulpExp x

/-! ### Rounding to an integer -/

theorem roundHalfEven_intCast (n : Int) : roundHalfEven n = n := by
  simp [roundHalfEven]

theorem abs_roundHalfEven_sub (x : Rat) : |(roundHalfEven x : Rat) - x| ≤ 1 / 2 := by
  have h0 := Int.floor_le x
  have h1 := Int.lt_floor_add_one x
  unfold roundHalfEven
  rw [abs_le]
  split_ifs <;> push_cast <;> constructor <;> linarith

theorem roundHalfEven_eq {x : Rat} {n : Int} (h : |x - n| < 1 / 2) : roundHalfEven x = n := by
  obtain ⟨hl, hr⟩ := abs_lt.mp h
  have h0 := Int.floor_le x
  have h1 := Int.lt_floor_add_one x
  have hf : ⌊x⌋ = n ∨ ⌊x⌋ = n - 1 := by
    have h2 : n - 2 < ⌊x⌋ := by exact_mod_cast (show (n : Rat) - 2 < ⌊x⌋ by linarith)
    have h3 : ⌊x⌋ < n + 1 := by exact_mod_cast (show (⌊x⌋ : Rat) < n + 1 by linarith)
    omega
  unfold roundHalfEven
  rcases hf with hf | hf <;> rw [hf] <;> push_cast
  · rw [if_pos (by linarith)]
  · rw [if_neg (by linarith), if_pos (by linarith)]
    ring

theorem roundHalfEven_mono {x y : Rat} (h : x ≤ y) : roundHalfEven x ≤ roundHalfEven y := by
  have hf : ⌊x⌋ ≤ ⌊y⌋ := Int.floor_mono h
  have hx : roundHalfEven x ≤ ⌊x⌋ + 1 := by unfold roundHalfEven; split_ifs <;> omega
  have hy : ⌊y⌋ ≤ roundHalfEven y := by unfold roundHalfEven; split_ifs <;> omega
  rcases hf.lt_or_eq with hlt | heq
  · omega
  · have hxy : x - ⌊x⌋ ≤ y - ⌊y⌋ := by rw [heq]; linarith
    unfold roundHalfEven
    rw [heq] at hxy ⊢
    split_ifs <;> first | omega | (exfalso; linarith)


/-! ### The binade -/

theorem ulpExp_spec {x : Rat} (hx : x ≠ 0) :
    2 ^ (ulpExp x + 52) ≤ |x| ∧ |x| < 2 ^ (ulpExp x + 53) := by
  have h1 := Int.zpow_log_le_self (R := ℚ) one_lt_two (abs_pos.mpr hx)
  have h2 := Int.lt_zpow_succ_log_self (R := ℚ) one_lt_two |x|
  simp only [Nat.cast_ofNat] at h1 h2
  rw [ulpExp, sub_add_cancel, show Int.log 2 |x| - 52 + 53 = Int.log 2 |x| + 1 by ring]
  exact ⟨h1, h2⟩

theorem ulpExp_eq {x : Rat} {k : Int} (hlo : 2 ^ (k + 52) ≤ |x|) (hhi : |x| < 2 ^ (k + 53)) :
    ulpExp x = k := by
  have hx : 0 < |x| := lt_of_lt_of_le (zpow_pos two_pos _) hlo
  have h1 := (Int.zpow_le_iff_le_log (R := ℚ) one_lt_two hx).mp (by simpa using hlo)
  have h2 := (Int.lt_zpow_iff_log_lt (R := ℚ) one_lt_two hx).mp (by simpa using hhi)
  rw [ulpExp]
  omega

theorem ulpExp_le {x : Rat} {k : Int} (hx : x ≠ 0) (hhi : |x| < 2 ^ (k + 53)) : ulpExp x ≤ k := by
  have h2 := (Int.lt_zpow_iff_log_lt (R := ℚ) one_lt_two (abs_pos.mpr hx)).mp (by simpa using hhi)
  rw [ulpExp]
  omega

theorem zpow_add_nat (k : Int) (n : Nat) : (2 : Rat) ^ (k + n) = 2 ^ n * 2 ^ k := by
  rw [zpow_add₀ two_ne_zero, zpow_natCast, mul_comm]

/-! ### Rounding to a `double` -/

theorem roundDouble_zero : roundDouble 0 = 0 := by
  simp [roundDouble, roundHalfEven]

theorem roundDouble_intCast_mul_zpow (n k : Int) (hn : |n| < 2 ^ 53) :
    roundDouble (n * 2 ^ k) = n * 2 ^ k := by
  rcases eq_or_ne n 0 with rfl | hn0
  · simpa using roundDouble_zero
  have hx : (n : Rat) * 2 ^ k ≠ 0 := mul_ne_zero (by exact_mod_cast hn0) (zpow_ne_zero _ two_ne_zero)
  have hle : ulpExp ((n : Rat) * 2 ^ k) ≤ k := by
    refine ulpExp_le hx ?_
    rw [abs_mul, abs_of_pos (zpow_pos two_pos k : (0 : Rat) < 2 ^ k), zpow_add₀ two_ne_zero,
      zpow_ofNat, mul_comm (2 ^ k : Rat)]
    exact mul_lt_mul_of_pos_right (by exact_mod_cast hn) (zpow_pos two_pos k)
  set e := ulpExp ((n : Rat) * 2 ^ k)
  obtain ⟨j, hj⟩ : ∃ j : Nat, k = e + j := ⟨(k - e).toNat, by omega⟩
  have hs : (n : Rat) * 2 ^ k / 2 ^ e = ((n * 2 ^ j : Int) : Rat) := by
    rw [hj, zpow_add_nat, ← mul_assoc, mul_div_cancel_right₀ _ (zpow_ne_zero _ two_ne_zero)]
    push_cast
    ring
  rw [roundDouble, hs, roundHalfEven_intCast, ← hs, div_mul_cancel₀ _ (zpow_ne_zero _ two_ne_zero)]


theorem significand_bounds {x : Rat} (hx : x ≠ 0) :
    2 ^ 52 ≤ |x / 2 ^ ulpExp x| ∧ |x / 2 ^ ulpExp x| < 2 ^ 53 := by
  obtain ⟨hlo, hhi⟩ := ulpExp_spec hx
  have hp : (0 : Rat) < 2 ^ ulpExp x := zpow_pos two_pos _
  rw [abs_div, abs_of_pos hp, le_div_iff₀ hp, div_lt_iff₀ hp]
  rw [zpow_add₀ two_ne_zero, zpow_ofNat, mul_comm] at hlo hhi
  exact ⟨hlo, hhi⟩

theorem abs_roundHalfEven_significand_le (x : Rat) :
    |roundHalfEven (x / 2 ^ ulpExp x)| ≤ 2 ^ 53 := by
  rcases eq_or_ne x 0 with rfl | hx
  · simp [roundHalfEven]
  obtain ⟨-, hs⟩ := abs_lt.mp (significand_bounds hx).2
  have h1 := roundHalfEven_mono hs.le
  have h2 := roundHalfEven_mono (abs_lt.mp (significand_bounds hx).2).1.le
  rw [show (2 : Rat) ^ 53 = ((2 ^ 53 : Int) : Rat) by norm_num, roundHalfEven_intCast] at h1
  rw [show -(2 : Rat) ^ 53 = ((-2 ^ 53 : Int) : Rat) by norm_num, roundHalfEven_intCast] at h2
  exact abs_le.mpr ⟨h2, h1⟩

theorem roundDouble_exists_repr (x : Rat) :
    ∃ n k : Int, |n| < 2 ^ 53 ∧ roundDouble x = n * 2 ^ k := by
  rcases (abs_roundHalfEven_significand_le x).lt_or_eq with hlt | heq
  · exact ⟨_, _, hlt, rfl⟩
  · -- the carry: `±2 ^ 53 * 2 ^ e = ±2 ^ 52 * 2 ^ (e + 1)`
    refine ⟨roundHalfEven (x / 2 ^ ulpExp x) / 2, ulpExp x + 1, ?_, ?_⟩
    · rcases abs_eq (by norm_num) |>.mp heq with h | h <;> rw [h] <;> norm_num
    · rw [roundDouble, zpow_add_one₀ two_ne_zero]
      rcases abs_eq (by norm_num) |>.mp heq with h | h <;> rw [h] <;> push_cast <;> ring

theorem roundDouble_roundDouble (x : Rat) : roundDouble (roundDouble x) = roundDouble x := by
  obtain ⟨n, k, hn, h⟩ := roundDouble_exists_repr x
  rw [h, roundDouble_intCast_mul_zpow n k hn]

theorem roundDouble_mem_binade {x : Rat} (hx : 0 < x) :
    2 ^ 52 * 2 ^ ulpExp x ≤ roundDouble x ∧ roundDouble x ≤ 2 ^ 53 * 2 ^ ulpExp x := by
  obtain ⟨hlo, hhi⟩ := significand_bounds hx.ne'
  rw [abs_of_pos (div_pos hx (zpow_pos two_pos _))] at hlo hhi
  have h1 := roundHalfEven_mono hlo
  have h2 := roundHalfEven_mono hhi.le
  rw [show (2 : Rat) ^ 52 = ((2 ^ 52 : Int) : Rat) by norm_num, roundHalfEven_intCast] at h1
  rw [show (2 : Rat) ^ 53 = ((2 ^ 53 : Int) : Rat) by norm_num, roundHalfEven_intCast] at h2
  have hp : (0 : Rat) ≤ 2 ^ ulpExp x := (zpow_pos two_pos _).le
  exact ⟨by simpa using mul_le_mul_of_nonneg_right (Int.cast_le.mpr h1 : ((2 ^ 52 : Int) : Rat) ≤ _) hp,
    by simpa using mul_le_mul_of_nonneg_right (Int.cast_le.mpr h2 : _ ≤ ((2 ^ 53 : Int) : Rat)) hp⟩

theorem roundDouble_pos {x : Rat} (hx : 0 < x) : 0 < roundDouble x :=
  lt_of_lt_of_le (mul_pos (by norm_num) (zpow_pos two_pos _)) (roundDouble_mem_binade hx).1

/-- **Rounding is monotone** on positive values. -/
theorem roundDouble_mono {x y : Rat} (hx : 0 < x) (h : x ≤ y) : roundDouble x ≤ roundDouble y := by
  have hy := hx.trans_le h
  have he : ulpExp x ≤ ulpExp y := by
    have := Int.log_mono_right (b := 2) (abs_pos.mpr hx.ne')
      ((abs_of_pos hx).trans_le (h.trans (le_abs_self y)))
    rw [ulpExp, ulpExp]
    omega
  rcases he.lt_or_eq with hlt | heq
  · calc roundDouble x ≤ 2 ^ 53 * 2 ^ ulpExp x := (roundDouble_mem_binade hx).2
      _ = 2 ^ 52 * 2 ^ (ulpExp x + 1) := by rw [zpow_add_one₀ two_ne_zero]; ring
      _ ≤ 2 ^ 52 * 2 ^ ulpExp y :=
        mul_le_mul_of_nonneg_left ((zpow_le_zpow_iff_right₀ one_lt_two).mpr hlt) (by norm_num)
      _ ≤ roundDouble y := (roundDouble_mem_binade hy).1
  · have hp : (0 : Rat) < 2 ^ ulpExp x := zpow_pos two_pos _
    rw [roundDouble, roundDouble, ← heq]
    exact mul_le_mul_of_nonneg_right
      (Int.cast_le.mpr (roundHalfEven_mono (div_le_div_of_nonneg_right h hp.le))) hp.le

/-- **The rounding error** is at most `2 ^ -53` of the value. -/
theorem abs_roundDouble_sub_le (x : Rat) : |roundDouble x - x| ≤ |x| / 2 ^ 53 := by
  rcases eq_or_ne x 0 with rfl | hx
  · simp [roundDouble_zero]
  have hlo := (ulpExp_spec hx).1
  have hp : (0 : Rat) < 2 ^ ulpExp x := zpow_pos two_pos _
  have hd : roundDouble x - x = (roundHalfEven (x / 2 ^ ulpExp x) - x / 2 ^ ulpExp x) *
      2 ^ ulpExp x := by
    rw [roundDouble, sub_mul, div_mul_cancel₀ _ hp.ne']
  rw [hd, abs_mul, abs_of_pos hp]
  calc _ ≤ 1 / 2 * 2 ^ ulpExp x := mul_le_mul_of_nonneg_right (abs_roundHalfEven_sub _) hp.le
    _ = 2 ^ (ulpExp x + 52) / 2 ^ 53 := by rw [zpow_add₀ two_ne_zero, zpow_ofNat]; ring
    _ ≤ |x| / 2 ^ 53 := div_le_div_of_nonneg_right hlo (by norm_num)

/-- The rounding of a value near a 53-bit significand `n` at scale `2 ^ k`. -/
theorem roundDouble_eq_of_near {x : Rat} {n k : Int} (hlo : 2 ^ 52 * 2 ^ k ≤ x)
    (hhi : x < 2 ^ 53 * 2 ^ k) (h : |x / 2 ^ k - n| < 1 / 2) : roundDouble x = n * 2 ^ k := by
  have hx : 0 < x := lt_of_lt_of_le (mul_pos (by norm_num) (zpow_pos two_pos _)) hlo
  have he : ulpExp x = k := by
    refine ulpExp_eq ?_ ?_ <;> rw [abs_of_pos hx, zpow_add₀ two_ne_zero, zpow_ofNat, mul_comm]
    exacts [hlo, hhi]
  rw [roundDouble, he, roundHalfEven_eq h]

/-! ### `double` values -/

/-- A finite `double`, as the rational it stands for: a value rounding leaves in place. -/
structure Double where
  val : Rat
  round_val : roundDouble val = val

/-- The `double` nearest `x`: an integer converted to `double`, a decimal literal, or an
operation whose exact result is `x`. -/
def Double.ofRat (x : Rat) : Double := ⟨roundDouble x, roundDouble_roundDouble x⟩

/-- Division of `double`s, for a non-zero divisor. -/
instance : Div Double := ⟨fun a b => .ofRat (a.val / b.val)⟩

theorem roundDouble_intCast {n : Int} (hn : |n| < 2 ^ 53) : roundDouble n = n := by
  simpa using roundDouble_intCast_mul_zpow n 0 hn

theorem roundDouble_one : roundDouble 1 = 1 := by
  simpa using roundDouble_intCast (n := 1) (by norm_num)

instance : One Double := ⟨⟨1, roundDouble_one⟩⟩

@[simp] theorem Double.val_ofRat (x : Rat) : (Double.ofRat x).val = roundDouble x := rfl

@[simp] theorem Double.val_div (a b : Double) : (a / b).val = roundDouble (a.val / b.val) := rfl

@[simp] theorem Double.val_one : (1 : Double).val = 1 := rfl

theorem Double.val_div_two_pow (d : Double) (j : Nat) :
    roundDouble (d.val / 2 ^ j) = d.val / 2 ^ j := by
  obtain ⟨n, k, hn, h⟩ := roundDouble_exists_repr d.val
  rw [d.round_val] at h
  rw [h, show (n : Rat) * 2 ^ k / 2 ^ j = n * 2 ^ (k - j) by
    rw [zpow_sub₀ two_ne_zero, zpow_natCast]; ring]
  exact roundDouble_intCast_mul_zpow n _ hn

end ProgPowMiner
