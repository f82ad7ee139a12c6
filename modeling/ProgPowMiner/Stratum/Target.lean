import ProgPowMiner.Stratum.Client
import Mathlib.Data.Rat.Floor
import Mathlib.Tactic.Linarith
import Mathlib.Tactic.Positivity

/-!
# The share target of a difficulty

`diffToTarget` divides the difficulty by `2 ^ 32` while it exceeds 1, at most six times, and
writes `(uint64_t)(4294901760.0 / d')`, a rounded `double`, into the word `k` where it stopped.
For every difficulty the client can hold (1, or at least `0.0001`):

* `diffToTarget_brackets`: the target `T` brackets `C = (2 ^ 32 - 2 ^ 16) * 2 ^ 192` up to the
  rounding, `T * d ≤ C (1 + 2 ^ -53)` and `C (1 - 2 ^ -53) < (T + 2 ^ (32 k)) * d`;
* `diffToTarget_seven`: without the rounding term the bracket fails at difficulty 7;
* `diffToTarget_antitone`: a higher difficulty never gives a larger target.
-/

namespace ProgPowMiner.Stratum

theorem roundDouble_word : roundDouble 4294901760 = 4294901760 := by
  exact_mod_cast roundDouble_intCast (n := 4294901760) (by norm_num)

theorem Double.val_div_word (d : Double) : (d / .ofRat 4294967296).val = d.val / 2 ^ 32 := by
  have h : roundDouble 4294967296 = 4294967296 := by
    exact_mod_cast roundDouble_intCast (n := 4294967296) (by norm_num)
  rw [Double.val_div, Double.val_ofRat, h, show (4294967296 : Rat) = 2 ^ 32 by norm_num,
    Double.val_div_two_pow]

/-- The floor `0.0001` of `mining.set_difficulty` is the `double` `7378697629483821 * 2 ^ -66`,
just above `1 / 10000`. -/
theorem roundDouble_floor : roundDouble (1 / 10000) = 7378697629483821 * 2 ^ (-66 : Int) :=
  roundDouble_eq_of_near (by norm_num) (by norm_num) (by norm_num [abs_lt])

theorem le_roundDouble_floor : (1 / 10000 : Rat) ≤ roundDouble (1 / 10000) := by
  rw [roundDouble_floor]
  norm_num

theorem diffLoop_spec (n : Nat) (d : Double) :
    ∃ j ≤ n, ∃ d' : Double, diffLoop n d = (n - j, d') ∧ d'.val = d.val / 2 ^ (32 * j) ∧
      (j < n → d.val ≤ 2 ^ (32 * j)) ∧ (0 < j → 2 ^ (32 * j) < 2 ^ 32 * d.val) := by
  induction n generalizing d with
  | zero => exact ⟨0, le_rfl, d, rfl, by simp, by simp, by simp⟩
  | succ n ih =>
    have hW : (0 : Rat) < 2 ^ 32 := by positivity
    by_cases h : 1 < d.val
    · obtain ⟨j, hj, d', heq, hval, hle, hlt⟩ := ih (d / .ofRat 4294967296)
      rw [Double.val_div_word] at hval hle hlt
      have hpow : (2 : Rat) ^ (32 * (j + 1)) = 2 ^ (32 * j) * 2 ^ 32 := by
        rw [Nat.mul_succ, pow_add]
      refine ⟨j + 1, by omega, d', ?_, ?_, fun hj' => ?_, fun _ => ?_⟩
      · rw [diffLoop, if_pos h, heq]
        congr 1
        omega
      · rw [hval, hpow, div_div, mul_comm (2 ^ 32 : Rat)]
      · rw [hpow, ← div_le_iff₀ hW]
        exact hle (by omega)
      · rcases Nat.eq_zero_or_pos j with rfl | hj0
        · simpa only [zero_add, mul_one] using (mul_lt_mul_left hW).mpr h
        · have := hlt hj0
          rw [mul_div_cancel₀ _ hW.ne'] at this
          rw [hpow]
          linarith [(mul_lt_mul_right hW).mpr this]
    · exact ⟨0, Nat.zero_le _, d, by simp [diffLoop, h], by simp,
        fun _ => by simpa using not_lt.mp h, fun h0 => absurd h0 (lt_irrefl 0)⟩

theorem tdiv_num_den {q : Rat} (hq : 0 ≤ q) : (Int.tdiv q.num q.den).toNat = ⌊q⌋₊ := by
  rw [Int.tdiv_eq_ediv (Rat.num_nonneg.mpr hq) (Int.natCast_nonneg _), ← Rat.floor_def,
    Int.floor_toNat]

theorem words_value (m k : Nat) :
    m % 2 ^ 32 * 2 ^ (32 * k) + m / 2 ^ 32 * 2 ^ (32 * (k + 1)) = m * 2 ^ (32 * k) := by
  rw [Nat.mul_succ, Nat.pow_add]
  calc m % 2 ^ 32 * 2 ^ (32 * k) + m / 2 ^ 32 * (2 ^ (32 * k) * 2 ^ 32)
      = (m % 2 ^ 32 + 2 ^ 32 * (m / 2 ^ 32)) * 2 ^ (32 * k) := by ring
    _ = m * 2 ^ (32 * k) := by rw [Nat.mod_add_div]

/-- Everything `diffToTarget` does for a difficulty of at least `0.0001`, by the word `k` where
its loop stops. -/
theorem diffToTarget_spec {d : Double} (hd : 1 / 10000 ≤ d.val) :
    ∃ k ≤ 6, (diffLoop 6 d).1 = k ∧ (diffLoop 6 d).2.val = d.val / 2 ^ (32 * (6 - k)) ∧
      (0 < k → d.val ≤ 2 ^ (32 * (6 - k))) ∧ (k < 6 → 2 ^ (32 * (6 - k)) < 2 ^ 32 * d.val) ∧
      0 < roundDouble (4294901760 / (d.val / 2 ^ (32 * (6 - k)))) ∧
      roundDouble (4294901760 / (d.val / 2 ^ (32 * (6 - k)))) < 2 ^ 64 ∧
      ¬(⌊roundDouble (4294901760 / (d.val / 2 ^ (32 * (6 - k))))⌋₊ = 0 ∧ k = 6) ∧
      diffToTarget d =
        .ok (⌊roundDouble (4294901760 / (d.val / 2 ^ (32 * (6 - k))))⌋₊ * 2 ^ (32 * k)) := by
  have hd0 : 0 < d.val := lt_of_lt_of_le (by norm_num) hd
  obtain ⟨j, hj, d', heq, hval, hle, hlt⟩ := diffLoop_spec 6 d
  have hjk : 6 - (6 - j) = j := by omega
  have hP : (0 : Rat) < 2 ^ (32 * j) := by positivity
  have hx0 : (0 : Rat) < 4294901760 / (d.val / 2 ^ (32 * j)) := by positivity
  -- the exact quotient is below `4294901760 * 2 ^ 32`, a `double`
  have hx : 4294901760 / (d.val / 2 ^ (32 * j)) ≤ ((4294901760 : Int) : Rat) * 2 ^ (32 : Int) := by
    rw [div_div_eq_mul_div, div_le_iff₀ hd0, zpow_ofNat]
    push_cast
    rcases Nat.eq_zero_or_pos j with rfl | hj0
    · calc (4294901760 : Rat) * 2 ^ (32 * 0) ≤ 4294901760 * 2 ^ 32 * (1 / 10000) := by norm_num
        _ ≤ 4294901760 * 2 ^ 32 * d.val := mul_le_mul_of_nonneg_left hd (by positivity)
    · have := hlt hj0
      rw [mul_assoc]
      exact mul_le_mul_of_nonneg_left this.le (by norm_num)
  have hq64 : roundDouble (4294901760 / (d.val / 2 ^ (32 * j))) < 2 ^ 64 :=
    lt_of_le_of_lt ((roundDouble_mono hx0 hx).trans_eq
      (roundDouble_intCast_mul_zpow _ _ (by norm_num))) (by norm_num)
  have hq0 := roundDouble_pos hx0
  have hm : ¬(⌊roundDouble (4294901760 / (d.val / 2 ^ (32 * j)))⌋₊ = 0 ∧ 6 - j = 6) := by
    rintro ⟨h0, h6⟩
    obtain rfl : j = 0 := by omega
    have h1 : d.val ≤ 1 := by simpa using hle (by norm_num)
    have : (4294901760 : Rat) ≤ 4294901760 / (d.val / 2 ^ (32 * 0)) := by
      rw [pow_zero, div_one, le_div_iff₀ hd0]
      exact mul_le_of_le_one_right (by norm_num) h1
    have h4 := (roundDouble_mono (by norm_num) this).trans_eq' roundDouble_word.symm
    exact absurd h0 (Nat.floor_pos.mpr (le_trans (by norm_num) h4)).ne'
  refine ⟨6 - j, by omega, by rw [heq], ?_⟩
  rw [hjk, heq]
  refine ⟨hval, fun hk => hle (by omega), fun hk => hlt (by omega), hq0, hq64, hm, ?_⟩
  rw [diffToTarget, heq]
  dsimp only
  rw [if_neg (by rw [hval]; exact (div_pos hd0 hP).ne'), Double.val_div, Double.val_ofRat,
    roundDouble_word, hval, if_pos ⟨neg_one_lt_zero.trans hq0, hq64⟩, tdiv_num_den hq0.le, if_neg hm,
    words_value]


/-- The target `⌊RN(q)⌋ * 2 ^ (32 k)` brackets `(2 ^ 32 - 2 ^ 16) * 2 ^ 192 / d` to within one
unit of its word and the rounding of the quotient `q`. -/
theorem target_bracket {d : Rat} {k : Nat} (hk : k ≤ 6) (hd : 0 < d) :
    ((⌊roundDouble (4294901760 / (d / 2 ^ (32 * (6 - k))))⌋₊ * 2 ^ (32 * k) : Nat) : Rat) * d ≤
        (2 ^ 32 - 2 ^ 16) * 2 ^ 192 * (1 + 1 / 2 ^ 53) ∧
      (2 ^ 32 - 2 ^ 16) * 2 ^ 192 * (1 - 1 / 2 ^ 53) <
        (((⌊roundDouble (4294901760 / (d / 2 ^ (32 * (6 - k))))⌋₊ * 2 ^ (32 * k) : Nat) : Rat) +
          2 ^ (32 * k)) * d := by
  set q : Rat := 4294901760 / (d / 2 ^ (32 * (6 - k)))
  have hP : (0 : Rat) < 2 ^ (32 * k) * d := by positivity
  have hkey : q * (2 ^ (32 * k) * d) = (2 ^ 32 - 2 ^ 16) * 2 ^ 192 := by
    have h192 : (2 : Rat) ^ (32 * (6 - k)) * 2 ^ (32 * k) = 2 ^ 192 := by
      rw [← pow_add]
      congr 1
      omega
    rw [show q = 4294901760 * 2 ^ (32 * (6 - k)) / d from div_div_eq_mul_div _ _ _,
      div_mul_eq_mul_div, div_eq_iff hd.ne', mul_assoc 4294901760,
      ← mul_assoc (2 ^ (32 * (6 - k)) : Rat), h192]
    ring
  have hq : 0 < q := by positivity
  have hr := abs_le.mp (abs_roundDouble_sub_le q)
  rw [abs_of_pos hq] at hr
  have hr0 := (roundDouble_pos hq).le
  push_cast
  constructor
  · calc (⌊roundDouble q⌋₊ : Rat) * 2 ^ (32 * k) * d = ⌊roundDouble q⌋₊ * (2 ^ (32 * k) * d) := by
          ring
      _ ≤ q * (1 + 1 / 2 ^ 53) * (2 ^ (32 * k) * d) :=
          mul_le_mul_of_nonneg_right ((Nat.floor_le hr0).trans (by linarith [hr.2])) hP.le
      _ = _ := by rw [mul_right_comm, hkey]
  · calc (2 ^ 32 - 2 ^ 16) * 2 ^ 192 * (1 - 1 / 2 ^ 53) = q * (1 - 1 / 2 ^ 53) * (2 ^ (32 * k) * d) := by
          rw [← hkey]; ring
      _ < (⌊roundDouble q⌋₊ + 1) * (2 ^ (32 * k) * d) :=
          mul_lt_mul_of_pos_right ((by linarith [hr.1] : q * (1 - 1 / 2 ^ 53) ≤ roundDouble q).trans_lt
            (Nat.lt_floor_add_one _)) hP
      _ = _ := by ring

/-- **The target of every reachable difficulty.** For `d ≥ 0.0001`, with `k` the word where the
loop of `diffToTarget` stops and `d' = d / 2 ^ (32 (6 - k))`: the `double` quotient
`RN(4294901760 / d')` lies in `(0, 2 ^ 64)`, so its conversion to `uint64_t` is defined; the
all-`0xFF` branch is not taken; and the big-endian target is `T = ⌊RN(4294901760 / d')⌋ * 2 ^ (32 k)`,
with `T * d ≤ (2 ^ 32 - 2 ^ 16) * 2 ^ 192 * (1 + 2 ^ -53)` and
`(2 ^ 32 - 2 ^ 16) * 2 ^ 192 * (1 - 2 ^ -53) < (T + 2 ^ (32 k)) * d`. -/
theorem diffToTarget_brackets (d : Double) (hd : 1 / 10000 ≤ d.val) :
    ∃ k ≤ 6, ∃ T : Nat,
      (diffLoop 6 d).1 = k ∧ (diffLoop 6 d).2.val = d.val / 2 ^ (32 * (6 - k)) ∧
      0 < roundDouble (4294901760 / (d.val / 2 ^ (32 * (6 - k)))) ∧
      roundDouble (4294901760 / (d.val / 2 ^ (32 * (6 - k)))) < 2 ^ 64 ∧
      ¬(⌊roundDouble (4294901760 / (d.val / 2 ^ (32 * (6 - k))))⌋₊ = 0 ∧ k = 6) ∧
      diffToTarget d = .ok T ∧
      T = ⌊roundDouble (4294901760 / (d.val / 2 ^ (32 * (6 - k))))⌋₊ * 2 ^ (32 * k) ∧
      (T : Rat) * d.val ≤ (2 ^ 32 - 2 ^ 16) * 2 ^ 192 * (1 + 1 / 2 ^ 53) ∧
      (2 ^ 32 - 2 ^ 16) * 2 ^ 192 * (1 - 1 / 2 ^ 53) < ((T : Rat) + 2 ^ (32 * k)) * d.val := by
  obtain ⟨k, hk, hl, hv, -, -, hq0, hq64, hm, hT⟩ := diffToTarget_spec hd
  exact ⟨k, hk, _, hl, hv, hq0, hq64, hm, hT, rfl,
    target_bracket hk (lt_of_lt_of_le (by norm_num) hd)⟩

/-- Difficulty 1, which the subscription response sets. -/
theorem diffToTarget_brackets_one :
    (1 : Rat) / 10000 ≤ (1 : Double).val ∧ ∃ k ≤ 6, ∃ T : Nat,
      (diffLoop 6 1).1 = k ∧ (diffLoop 6 1).2.val = (1 : Double).val / 2 ^ (32 * (6 - k)) ∧
      0 < roundDouble (4294901760 / ((1 : Double).val / 2 ^ (32 * (6 - k)))) ∧
      roundDouble (4294901760 / ((1 : Double).val / 2 ^ (32 * (6 - k)))) < 2 ^ 64 ∧
      ¬(⌊roundDouble (4294901760 / ((1 : Double).val / 2 ^ (32 * (6 - k))))⌋₊ = 0 ∧ k = 6) ∧
      diffToTarget 1 = .ok T ∧
      T = ⌊roundDouble (4294901760 / ((1 : Double).val / 2 ^ (32 * (6 - k))))⌋₊ * 2 ^ (32 * k) ∧
      (T : Rat) * (1 : Double).val ≤ (2 ^ 32 - 2 ^ 16) * 2 ^ 192 * (1 + 1 / 2 ^ 53) ∧
      (2 ^ 32 - 2 ^ 16) * 2 ^ 192 * (1 - 1 / 2 ^ 53) <
        ((T : Rat) + 2 ^ (32 * k)) * (1 : Double).val :=
  ⟨by norm_num, diffToTarget_brackets 1 (by norm_num)⟩

/-- Difficulty 7: the loop stops at word 5 with `d' = 7 / 2 ^ 32`, and the `double` quotient
`4294901760 * 2 ^ 32 / 7 = 2635208942676120137.1…` rounds to `2635208942676120064`, a multiple of
its ulp `2 ^ 9`. The target `T = 2635208942676120064 * 2 ^ 160` is not the largest multiple of
`2 ^ 160` under `(2 ^ 32 - 2 ^ 16) * 2 ^ 192 / 7`: `(T + 2 ^ 160) * 7` is still below it. -/
theorem diffToTarget_seven :
    (Double.ofRat 7).val = 7 ∧ (diffLoop 6 (.ofRat 7)).1 = 5 ∧
      diffToTarget (.ofRat 7) = .ok (2635208942676120064 * 2 ^ 160) ∧
      (((2635208942676120064 * 2 ^ 160 : Nat) : Rat) + 2 ^ (32 * 5)) * (Double.ofRat 7).val ≤
        (2 ^ 32 - 2 ^ 16) * 2 ^ 192 := by
  have h7 : (Double.ofRat 7).val = 7 := by
    exact_mod_cast roundDouble_intCast (n := 7) (by norm_num)
  have hl : diffLoop 6 (.ofRat 7) = (5, .ofRat 7 / .ofRat 4294967296) := by
    have h1 : ¬ 1 < (Double.ofRat 7 / .ofRat 4294967296).val := by
      rw [Double.val_div_word, h7]; norm_num
    simp only [diffLoop, h7, show (1 : Rat) < 7 by norm_num, if_true, h1, if_false]
  have hq : (Double.ofRat 4294901760 / (.ofRat 7 / .ofRat 4294967296)).val =
      ((2635208942676120064 : Int) : Rat) := by
    rw [Double.val_div, Double.val_ofRat, roundDouble_word, Double.val_div_word, h7,
      roundDouble_eq_of_near (n := 5146892466164297) (k := 9) (by norm_num) (by norm_num)
        (by rw [abs_lt]; norm_num)]
    norm_num
  refine ⟨h7, by rw [hl], ?_, by rw [h7]; norm_num⟩
  rw [diffToTarget, hl]
  dsimp only
  rw [if_neg (by rw [Double.val_div_word, h7]; norm_num), hq, Rat.num_intCast, Rat.den_intCast,
    if_pos (by norm_num)]
  rfl


theorem stop_word_antitone {d1 d2 : Rat} {k1 k2 : Nat} (h12 : d1 ≤ d2) (hk2 : k2 ≤ 6)
    (hlt1 : k1 < 6 → 2 ^ (32 * (6 - k1)) < 2 ^ 32 * d1) (hle2 : 0 < k2 → d2 ≤ 2 ^ (32 * (6 - k2))) :
    k2 ≤ k1 := by
  by_contra h
  have hpow : (2 : Rat) ^ (32 * (6 - k2)) * 2 ^ 32 ≤ 2 ^ (32 * (6 - k1)) := by
    rw [← pow_add]
    exact pow_le_pow_right₀ (by norm_num) (by omega)
  linarith [hlt1 (by omega), hle2 (by omega)]

/-- At its stop word `k`, the quotient `diffToTarget` converts is at least `4294901760` when the
difficulty is at most the word's scale `2 ^ (32 (6 - k))`. -/
theorem quotient_floor_ge {d : Rat} {k : Nat} (hd : 0 < d) (hle : d ≤ 2 ^ (32 * (6 - k))) :
    4294901760 ≤ ⌊roundDouble (4294901760 / (d / 2 ^ (32 * (6 - k))))⌋₊ := by
  have hP : (0 : Rat) < 2 ^ (32 * (6 - k)) := by positivity
  have hx : (4294901760 : Rat) ≤ 4294901760 / (d / 2 ^ (32 * (6 - k))) := by
    rw [le_div_iff₀ (div_pos hd hP)]
    exact mul_le_of_le_one_right (by norm_num) ((div_le_one hP).mpr hle)
  exact Nat.le_floor (by simpa [roundDouble_word] using roundDouble_mono (by norm_num) hx)

/-- At its stop word `k`, the quotient is at most `4294901760 * 2 ^ (32 (j - k))` when the
difficulty is past the scale of a later word `j`. -/
theorem quotient_floor_le {d : Rat} {j k : Nat} (hd : 0 < d) (hkj : k < j) (hj : j ≤ 6)
    (hlt : 2 ^ (32 * (6 - k)) < 2 ^ 32 * d) :
    ⌊roundDouble (4294901760 / (d / 2 ^ (32 * (6 - k))))⌋₊ ≤ 4294901760 * 2 ^ (32 * (j - k)) := by
  have hd' : 2 ^ (32 * (6 - j)) < d := by
    have hpow : (2 : Rat) ^ (32 * (6 - j)) * 2 ^ 32 ≤ 2 ^ (32 * (6 - k)) := by
      rw [← pow_add]
      exact pow_le_pow_right₀ (by norm_num) (by omega)
    linarith
  have hx : 4294901760 / (d / 2 ^ (32 * (6 - k))) ≤
      ((4294901760 : Int) : Rat) * 2 ^ ((32 * (j - k) : Nat) : Int) := by
    rw [div_div_eq_mul_div, div_le_iff₀ hd, zpow_natCast]
    push_cast
    calc (4294901760 : Rat) * 2 ^ (32 * (6 - k)) =
        4294901760 * 2 ^ (32 * (j - k)) * 2 ^ (32 * (6 - j)) := by
          rw [mul_assoc, ← pow_add]; congr 2; omega
      _ ≤ 4294901760 * 2 ^ (32 * (j - k)) * d := mul_le_mul_of_nonneg_left hd'.le (by positivity)
  refine Nat.floor_le_of_le ?_
  have := (roundDouble_mono (by positivity) hx).trans_eq
    (roundDouble_intCast_mul_zpow _ _ (by norm_num))
  rw [zpow_natCast] at this
  exact_mod_cast this

/-- **A higher difficulty never gives an easier target.** For `0.0001 ≤ d1 ≤ d2`, both targets
are defined and the one of `d2` is at most the one of `d1`, read as 256-bit big-endian
integers. -/
theorem diffToTarget_antitone {d1 d2 : Double} (h1 : 1 / 10000 ≤ d1.val) (h12 : d1.val ≤ d2.val) :
    ∃ T1 T2, diffToTarget d1 = .ok T1 ∧ diffToTarget d2 = .ok T2 ∧ T2 ≤ T1 := by
  have hd1 : 0 < d1.val := lt_of_lt_of_le (by norm_num) h1
  have hd2 := hd1.trans_le h12
  obtain ⟨k1, hk1, -, -, hle1, hlt1, -, -, -, hT1⟩ := diffToTarget_spec h1
  obtain ⟨k2, hk2, -, -, hle2, hlt2, -, -, -, hT2⟩ := diffToTarget_spec (h1.trans h12)
  refine ⟨_, _, hT1, hT2, ?_⟩
  rcases (stop_word_antitone h12 hk2 hlt1 hle2).lt_or_eq with hk | rfl
  · -- across a word boundary: the quotient of `d1` is at least `4294901760`, the one of `d2`
    -- at most `4294901760 * 2 ^ (32 (k1 - k2))`
    calc ⌊roundDouble (4294901760 / (d2.val / 2 ^ (32 * (6 - k2))))⌋₊ * 2 ^ (32 * k2)
        ≤ 4294901760 * 2 ^ (32 * (k1 - k2)) * 2 ^ (32 * k2) :=
          Nat.mul_le_mul_right _ (quotient_floor_le hd2 hk hk1 (hlt2 (by omega)))
      _ = 4294901760 * 2 ^ (32 * k1) := by rw [Nat.mul_assoc, ← Nat.pow_add]; congr 2; omega
      _ ≤ _ := Nat.mul_le_mul_right _ (quotient_floor_ge hd1 (hle1 (by omega)))
  · -- one stop word: the quotients are in the order of the difficulties
    exact Nat.mul_le_mul_right _ (Nat.floor_le_floor (roundDouble_mono (by positivity)
      (div_le_div_of_nonneg_left (by norm_num) (div_pos hd1 (by positivity))
        (div_le_div_of_nonneg_right h12 (by positivity)))))

/-- Difficulties 1 and `2 ^ 32 + 1`, on either side of the first word boundary. -/
theorem diffToTarget_antitone_across :
    (1 : Rat) / 10000 ≤ (1 : Double).val ∧ (1 : Double).val ≤ (Double.ofRat 4294967297).val ∧
      ∃ T1 T2, diffToTarget 1 = .ok T1 ∧ diffToTarget (.ofRat 4294967297) = .ok T2 ∧ T2 ≤ T1 :=
  have h : (Double.ofRat 4294967297).val = 4294967297 := by
    rw [Double.val_ofRat]
    exact_mod_cast roundDouble_intCast (n := 4294967297) (by norm_num)
  have h1 : (1 : Double).val ≤ (Double.ofRat 4294967297).val := by
    rw [h, Double.val_one]
    norm_num
  ⟨by rw [Double.val_one]; norm_num, h1, diffToTarget_antitone (by rw [Double.val_one]; norm_num) h1⟩

end ProgPowMiner.Stratum
