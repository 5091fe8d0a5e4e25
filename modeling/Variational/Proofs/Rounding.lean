import Mathlib
import Variational.Proofs.Decimals

/-!
# Rounding to doubles

The double that a product, a quotient or a decimal is rounded to is the only one whose
interval the exact number meets. The bits that are shifted out of a mantissa are kept as a
round and a sticky bit, which is enough to tell the nearest mantissa, and a tie.
-/

namespace Variational.Decimal

open Float.Model Float.Model.UnpackedFloat

/-! ## Mantissas with residual bits -/

/-- A mantissa and its residual bits tell where a number lies, in units of the last bit. -/
def Locates (em : ExtendedMantissa) (q : ℚ) : Prop :=
  match em.roundBit, em.stickyBit with
  | false, false => q = em.mantissa
  | false, true => em.mantissa < q ∧ q < em.mantissa + 1 / 2
  | true, false => q = em.mantissa + 1 / 2
  | true, true => em.mantissa + 1 / 2 < q ∧ q < em.mantissa + 1

namespace Locates

variable {em : ExtendedMantissa} {q : ℚ}

theorem exact (m : Nat) : Locates (.ofMantissaAndAccuracy m .exact) m :=
  rfl

/-- The remainder of a division tells where the quotient lies. -/
theorem fraction {num den : Nat} (m : Nat) (proper : num < den) :
    Locates (.ofMantissaAndAccuracy m (accuracyOfFraction num den)) (m + num / den) := by
  have positive : (0 : ℚ) < den := Nat.cast_pos.2 (Nat.zero_lt_of_lt proper)
  have below : (num : ℚ) / den < 1 := (div_lt_one positive).2 (Nat.cast_lt.2 proper)
  rw [accuracyOfFraction]
  split
  · rename_i zero
    simp [Locates, ExtendedMantissa.ofMantissaAndAccuracy, zero]
  rename_i nonzero
  have above : (0 : ℚ) < num / den :=
    div_pos (Nat.cast_pos.2 (Nat.pos_of_ne_zero nonzero)) positive
  cases order : compare (2 * num) den with
  | lt =>
    have half : (num : ℚ) / den < 1 / 2 := by
      rw [div_lt_div_iff₀ positive two_pos, one_mul, mul_comm]
      exact_mod_cast Nat.compare_eq_lt.1 order
    simp only [Locates, ExtendedMantissa.ofMantissaAndAccuracy]
    exact ⟨by linarith, by linarith⟩
  | eq =>
    have half : (num : ℚ) / den = 1 / 2 := by
      rw [div_eq_div_iff positive.ne' two_ne_zero, one_mul, mul_comm]
      exact_mod_cast Nat.compare_eq_eq.1 order
    simp [Locates, ExtendedMantissa.ofMantissaAndAccuracy, half]
  | gt =>
    have half : 1 / 2 < (num : ℚ) / den := by
      rw [div_lt_div_iff₀ two_pos positive, one_mul, mul_comm _ (2 : ℚ)]
      exact_mod_cast Nat.compare_eq_gt.1 order
    simp only [Locates, ExtendedMantissa.ofMantissaAndAccuracy]
    exact ⟨by linarith, by linarith⟩

theorem shiftRightOne (located : Locates em q) : Locates em.shiftRightOne (q / 2) := by
  obtain ⟨m, round, sticky⟩ := em
  rcases Nat.even_or_odd' m with ⟨k, rfl | rfl⟩
  · have shifted : ExtendedMantissa.shiftRightOne ⟨2 * k, round, sticky⟩ =
        ⟨k, false, round || sticky⟩ := by
      simp [ExtendedMantissa.shiftRightOne]
    rw [shifted]
    cases round <;> cases sticky <;> simp only [Locates, Bool.or_false, Bool.or_true] at located ⊢
    all_goals push_cast at located
    · linarith
    all_goals constructor <;> linarith
  · have shifted : ExtendedMantissa.shiftRightOne ⟨2 * k + 1, round, sticky⟩ =
        ⟨k, true, round || sticky⟩ := by
      simp only [ExtendedMantissa.shiftRightOne, ExtendedMantissa.mk.injEq]
      exact ⟨by omega, by simp, trivial⟩
    rw [shifted]
    cases round <;> cases sticky <;> simp only [Locates, Bool.or_false, Bool.or_true] at located ⊢
    all_goals push_cast at located
    · linarith
    all_goals constructor <;> linarith

/-- Shifting a mantissa keeps what its residual bits tell. -/
theorem shiftRight (located : Locates em q) (n : Nat) : Locates (em >>> n) (q / 2 ^ n) := by
  change Locates (n.repeat ExtendedMantissa.shiftRightOne em) _
  induction n with
  | zero => simpa [Nat.repeat] using located
  | succ n ih =>
    rw [pow_succ, ← div_div]
    exact ih.shiftRightOne

theorem mantissa_le (located : Locates em q) : (em.mantissa : ℚ) ≤ q ∧ q < em.mantissa + 1 := by
  obtain ⟨m, round, sticky⟩ := em
  cases round <;> cases sticky <;> simp only [Locates] at located ⊢ <;>
    constructor <;> linarith

/-- The rounded mantissa is nearest, and even if there are two. -/
theorem rounded (located : Locates em q) :
    4 * (em.roundedMantissa : ℚ) - 2 ≤ 4 * q ∧ 4 * q ≤ 4 * em.roundedMantissa + 2 ∧
      (em.roundedMantissa % 2 ≠ 0 →
        4 * (em.roundedMantissa : ℚ) - 2 < 4 * q ∧ 4 * q < 4 * em.roundedMantissa + 2) := by
  obtain ⟨m, round, sticky⟩ := em
  cases round <;> cases sticky <;>
    simp only [Locates, ExtendedMantissa.roundedMantissa, ExtendedMantissa.accuracy,
      Accuracy.roundToNearestEven] at located ⊢
  · exact ⟨by linarith, by linarith, fun _ => ⟨by linarith, by linarith⟩⟩
  · exact ⟨by linarith, by linarith, fun _ => ⟨by linarith, by linarith⟩⟩
  · -- A tie.
    rcases Nat.mod_two_eq_zero_or_one m with bit | bit <;> simp only [bit] <;> push_cast
    · exact ⟨by linarith, by linarith, fun odd => absurd bit odd⟩
    · exact ⟨by linarith, by linarith, fun odd => absurd (by omega) odd⟩
  · push_cast
    exact ⟨by linarith, by linarith, fun _ => ⟨by linarith, by linarith⟩⟩

end Locates

theorem le_roundedMantissa (em : ExtendedMantissa) :
    em.mantissa ≤ em.roundedMantissa ∧ em.roundedMantissa ≤ em.mantissa + 1 := by
  obtain ⟨m, round, sticky⟩ := em
  cases round <;> cases sticky <;>
    simp only [ExtendedMantissa.roundedMantissa, ExtendedMantissa.accuracy,
      Accuracy.roundToNearestEven] <;> omega

/-! ## The interval of a double in units of its last bit -/

namespace Rounding

variable {r : Rounding} {q v : ℚ}

theorem four_mul_zpow (q : ℚ) (e : Int) : q * 2 ^ e = 4 * q * 2 ^ (e - 2) := by
  rw [zpow_sub₀ two_ne_zero]
  norm_num
  ring

theorem meets_iff : r.Meets (q * 2 ^ r.e) ↔ (r.low : ℚ) ≤ 4 * q ∧ 4 * q ≤ r.high ∧
    (r.m % 2 ≠ 0 → (r.low : ℚ) < 4 * q ∧ 4 * q < r.high) := by
  have positive : (0 : ℚ) < 2 ^ (r.e - 2) := by positivity
  have cancel := fun a b : ℚ => mul_le_mul_iff_left₀ (b := a) (c := b) positive
  have strict := fun a b : ℚ => mul_lt_mul_iff_left₀ (b := a) (c := b) positive
  rw [four_mul_zpow]
  constructor
  · intro meets
    exact ⟨(cancel _ _).1 meets.above, (cancel _ _).1 meets.below, fun odd =>
      ⟨(strict _ _).1 (meets.inside odd).1, (strict _ _).1 (meets.inside odd).2⟩⟩
  · rintro ⟨above, below, inside⟩
    exact ⟨(cancel _ _).2 above, (cancel _ _).2 below, fun odd =>
      ⟨(strict _ _).2 (inside odd).1, (strict _ _).2 (inside odd).2⟩⟩

/-- A double rounds to itself. -/
theorem Canonical.meets_self (canonical : r.Canonical) : r.Meets (r.m * 2 ^ r.e) := by
  have positive := canonical.positive
  have low : r.low < 4 * r.m := by
    rw [Rounding.low]
    split <;> omega
  have high : 4 * r.m < r.high := by
    rw [Rounding.high]
    omega
  have low : (r.low : ℚ) < 4 * r.m := by exact_mod_cast low
  have high : (4 * r.m : ℚ) < r.high := by exact_mod_cast high
  exact meets_iff.2 ⟨low.le, high.le, fun _ => ⟨low, high⟩⟩

/-- What rounds to a positive double is more than half of the least one. -/
theorem Canonical.lt_of_meets (canonical : r.Canonical) (meets : r.Meets v) :
    2 * 2 ^ (leastExponent - 2) < v := by
  have positive := canonical.positive
  have coarse : (2 : ℚ) ^ (leastExponent - 2) ≤ 2 ^ (r.e - 2) :=
    zpow_le_zpow_right₀ one_le_two (Int.sub_le_sub_right canonical.least 2)
  by_cases one : r.m = 1
  · have low : r.low = 2 := by simp [Rounding.low, one]
    have inside := (meets.inside (by simp [one])).1
    rw [low] at inside
    exact lt_of_le_of_lt (mul_le_mul_of_nonneg_left coarse two_pos.le) inside
  · have low : 2 < r.low := by
      rw [Rounding.low]
      split <;> omega
    have low : (2 : ℚ) < r.low := by exact_mod_cast low
    refine lt_of_lt_of_le ?_ meets.above
    exact mul_lt_mul_of_lt_of_le_of_nonneg_of_pos low coarse two_pos.le (by positivity)

/-- A mantissa with one bit too much stands for the least one of the next binade. -/
theorem Meets.carry {e : Int} (meets : Meets ⟨2 ^ 53, e⟩ v) (least : leastExponent ≤ e) :
    Meets ⟨2 ^ 52, e + 1⟩ v := by
  obtain ⟨above, below, -⟩ := meets
  have double : (2 : ℚ) ^ (e + 1 - 2) = 2 * 2 ^ (e - 2) := by
    rw [add_sub_right_comm, zpow_add_one₀ two_ne_zero, mul_comm]
  have positive : (0 : ℚ) < 2 ^ (e - 2) := by positivity
  have finer : leastExponent < e + 1 := Int.lt_add_one_of_le least
  have even : 2 ^ 52 % 2 = 0 := by decide
  have wide : 2 ^ 53 ≠ Nat.pow 2 52 := by decide
  refine ⟨?_, ?_, absurd even⟩
  · rw [Rounding.low, if_neg fun edge => wide edge.1] at above
    rw [Rounding.low, if_pos ⟨rfl, finer⟩, double]
    norm_num at above ⊢
    linarith
  · simp only [Rounding.high] at below ⊢
    rw [double]
    norm_num at below ⊢
    linarith

end Rounding

/-! ## Shifting to the exponent of a double -/

theorem targetExponent_eq (n : Int) :
    Format.binary64.targetExponent n = max (n - 53) leastExponent :=
  rfl

theorem shiftToTargetExponent_of_lt {m : Nat} {e : Int} (bounded : m < 2 ^ 53)
    (least : leastExponent ≤ e) :
    shiftToTargetExponent .binary64 m e .exact = (⟨m, false, false⟩, e) := by
  have bits : m.log2 < 53 := by
    by_cases zero : m = 0
    · simp [zero]
    · exact (Nat.log2_lt zero).2 bounded
  have shift : (Format.binary64.targetExponent (totalExponent m e) - e).toNat = 0 := by
    rw [targetExponent_eq, totalExponent]
    omega
  simp [shiftToTargetExponent, shiftToExponent, shift, ExtendedMantissa.ofMantissaAndAccuracy,
    HShiftRight.hShiftRight, Nat.repeat]

theorem shiftToTargetExponent_of_eq {e : Int} (least : leastExponent ≤ e) :
    shiftToTargetExponent .binary64 (2 ^ 53) e .exact = (⟨2 ^ 52, false, false⟩, e + 1) := by
  have shift : (Format.binary64.targetExponent (totalExponent (2 ^ 53) e) - e).toNat = 1 := by
    rw [targetExponent_eq, totalExponent, Nat.log2_two_pow]
    omega
  rw [shiftToTargetExponent, shiftToExponent, shift]
  rfl

theorem mantissa_shiftRight (em : ExtendedMantissa) (n : Nat) :
    (em >>> n).mantissa = em.mantissa / 2 ^ n := by
  change (n.repeat ExtendedMantissa.shiftRightOne em).mantissa = _
  induction n with
  | zero => simp [Nat.repeat]
  | succ n ih =>
    rw [Nat.repeat, ExtendedMantissa.shiftRightOne, ih, Nat.div_div_eq_div_mul, Nat.pow_succ]

/-- A mantissa with enough bits is shifted to that of a double, which has the residual bits
of the number. -/
theorem exists_shifted {m : Nat} {e : Int} {accuracy : Accuracy} {q : ℚ}
    (located : Locates (.ofMantissaAndAccuracy m accuracy) q)
    (fits : 2 ^ 52 ≤ m ∨ e ≤ leastExponent) :
    ∃ em e' q', shiftToTargetExponent .binary64 m e accuracy = (em, e') ∧ Locates em q' ∧
      q' * 2 ^ e' = q * 2 ^ e ∧ em.mantissa < 2 ^ 53 ∧ leastExponent ≤ e' ∧
      (leastExponent < e' → 2 ^ 52 ≤ em.mantissa) := by
  have mantissa : (ExtendedMantissa.ofMantissaAndAccuracy m accuracy).mantissa = m := by
    cases accuracy with
    | exact => rfl
    | inexact order => cases order <;> rfl
  obtain ⟨n, shift, target⟩ : ∃ n : Nat,
      (Format.binary64.targetExponent (totalExponent m e) - e).toNat = n ∧
        e + n = max ((m.log2 + 1 + e) - 53) leastExponent := by
    refine ⟨_, rfl, ?_⟩
    have bits : 2 ^ 52 ≤ m → 52 ≤ m.log2 := fun long => (Nat.le_log2 (by omega)).2 long
    rw [targetExponent_eq, totalExponent]
    omega
  refine ⟨_, e + n, q / 2 ^ n, by rw [shiftToTargetExponent, shiftToExponent, shift],
    located.shiftRight n, ?_, ?_, by omega, fun above => ?_⟩
  · rw [zpow_add₀ two_ne_zero, zpow_natCast]
    field_simp
  · rw [mantissa_shiftRight, mantissa, Nat.div_lt_iff_lt_mul (by positivity), ← Nat.pow_add]
    exact lt_of_lt_of_le Nat.lt_log2_self (Nat.pow_le_pow_right two_pos (by omega))
  · have long : m.log2 = 52 + n := by omega
    have nonzero : m ≠ 0 := by
      rintro rfl
      rw [Nat.log2_zero] at long
      omega
    rw [mantissa_shiftRight, mantissa, Nat.le_div_iff_mul_le (by positivity), ← Nat.pow_add, ← long]
    exact Nat.log2_self_le nonzero

/-! ## Rounding -/

namespace Locates

variable {em : ExtendedMantissa} {e : Int} {q : ℚ}

/-- The rounded mantissa stands for a double that the number rounds to. -/
theorem meets (located : Locates em q) (normal : leastExponent < e → 2 ^ 52 ≤ em.mantissa) :
    Rounding.Meets ⟨em.roundedMantissa, e⟩ (q * 2 ^ e) := by
  obtain ⟨above, below, inside⟩ := located.rounded
  have high : ((⟨em.roundedMantissa, e⟩ : Rounding).high : ℚ) = 4 * em.roundedMantissa + 2 := by
    rw [Rounding.high]
    push_cast
    rfl
  refine Rounding.meets_iff.2 ?_
  rw [high, Rounding.low]
  split
  · -- Below the least mantissa of a binade the interval is narrower.
    rename_i edge
    have least : (2 ^ 52 : ℚ) ≤ q := by
      have whole : ((2 ^ 52 : Nat) : ℚ) ≤ em.mantissa := Nat.cast_le.2 (normal edge.2)
      push_cast at whole
      exact whole.trans located.mantissa_le.1
    have even : em.roundedMantissa = 2 ^ 52 := edge.1
    rw [even] at below ⊢
    norm_num at below ⊢
    exact ⟨by linarith, by linarith⟩
  · by_cases zero : em.roundedMantissa = 0
    · have nonnegative : 0 ≤ q := (Nat.cast_nonneg _).trans located.mantissa_le.1
      rw [zero] at below ⊢
      norm_num at below ⊢
      exact ⟨by linarith, by linarith⟩
    · have low : ((4 * em.roundedMantissa - 2 : Nat) : ℚ) = 4 * em.roundedMantissa - 2 := by
        rw [Nat.cast_sub (by omega)]
        push_cast
        rfl
      rw [low]
      exact ⟨above, below, inside⟩

end Locates

variable {r : Rounding} {m : Nat} {e : Int} {accuracy : Accuracy} {q : ℚ}

/-- Rounding gives the double whose interval the number meets. -/
theorem roundWithAccuracy_eq (sign : UnpackedFloat.Sign) (canonical : r.Canonical)
    (located : Locates (.ofMantissaAndAccuracy m accuracy) q)
    (fits : 2 ^ 52 ≤ m ∨ e ≤ leastExponent) (meets : r.Meets (q * 2 ^ e)) :
    roundWithAccuracy .binary64 sign m e accuracy =
      .finite sign r.m r.e canonical.positive := by
  obtain ⟨em, e', q', shifted, located, value, bounded, least, normal⟩ :=
    exists_shifted located fits
  rw [← value] at meets
  have rounds := le_roundedMantissa em
  have near := located.meets normal
  rw [roundWithAccuracy]
  simp only [shifted]
  rcases lt_or_eq_of_le (show em.roundedMantissa ≤ 2 ^ 53 by omega) with short | long
  · have nonzero : em.roundedMantissa ≠ 0 := by
      intro zero
      -- Only at the least exponent, and then the number is too small.
      have least : e' = leastExponent := by omega
      have below := located.rounded.2.1
      have positive : (0 : ℚ) < 2 ^ (leastExponent - 2) := by positivity
      have half := canonical.lt_of_meets meets
      rw [Rounding.four_mul_zpow q', least] at half
      rw [zero, Nat.cast_zero, mul_zero, zero_add] at below
      exact absurd (mul_le_mul_of_nonneg_right below positive.le) (not_le.2 half)
    simp only [shiftToTargetExponent_of_lt short least, dif_neg nonzero]
    have found : (⟨em.roundedMantissa, e'⟩ : Rounding).Canonical :=
      ⟨Nat.pos_of_ne_zero nonzero, short, least, fun above => (normal above).trans rounds.1⟩
    cases found.eq_of_meets canonical near meets
    rfl
  · simp only [long, shiftToTargetExponent_of_eq least]
    have found : (⟨2 ^ 52, e' + 1⟩ : Rounding).Canonical :=
      ⟨by positivity, by dsimp only; omega, by dsimp only; omega, fun _ => le_rfl⟩
    rw [long] at near
    cases found.eq_of_meets canonical (near.carry least) meets
    rfl

/-! ## Products and quotients -/

variable {m₁ m₂ : Nat} {e₁ e₂ : Int} {positive₁ : 0 < m₁} {positive₂ : 0 < m₂} {v : ℚ}

theorem mul_eq (canonical : r.Canonical) (long : 2 ^ 52 ≤ m₁)
    (value : (m₁ * 2 ^ e₁ * (m₂ * 2 ^ e₂) : ℚ) = v) (meets : r.Meets v) :
    UnpackedFloat.mul .binary64 (.finite .positive m₁ e₁ positive₁) (.finite .positive m₂ e₂ positive₂) =
      .finite .positive r.m r.e canonical.positive := by
  refine roundWithAccuracy_eq _ canonical (.exact _)
    (Or.inl (long.trans (Nat.le_mul_of_pos_right _ positive₂))) ?_
  rw [Nat.cast_mul, zpow_add₀ two_ne_zero, mul_mul_mul_comm, value]
  exact meets

theorem div_eq (canonical : r.Canonical)
    (value : (m₁ * 2 ^ e₁ / (m₂ * 2 ^ e₂) : ℚ) = v) (meets : r.Meets v) :
    UnpackedFloat.div .binary64 (.finite .positive m₁ e₁ positive₁) (.finite .positive m₂ e₂ positive₂) =
      .finite .positive r.m r.e canonical.positive := by
  rw [UnpackedFloat.div, divCore, targetExponent_eq]
  simp only
  generalize target : min (e₁ - e₂) _ = e
  obtain ⟨n, shift, exponent⟩ : ∃ n : Nat, (e₁ - e₂ - e).toNat = n ∧ e₁ - e₂ = e + n :=
    ⟨_, rfl, by omega⟩
  rw [shift, Nat.shiftLeft_eq]
  have quotient : ((m₁ * 2 ^ n / m₂ : Nat) + ((m₁ * 2 ^ n % m₂ : Nat) / m₂ : ℚ)) =
      m₁ * 2 ^ n / m₂ := by
    have whole : (m₂ * (m₁ * 2 ^ n / m₂ : Nat) + (m₁ * 2 ^ n % m₂ : Nat) : ℚ) = m₁ * 2 ^ n := by
      exact_mod_cast Nat.div_add_mod (m₁ * 2 ^ n) m₂
    rw [← whole, add_div, mul_div_cancel_left₀ _ (Nat.cast_ne_zero.2 positive₂.ne')]
  have located := Locates.fraction (m₁ * 2 ^ n / m₂) (Nat.mod_lt (m₁ * 2 ^ n) positive₂)
  refine roundWithAccuracy_eq _ canonical located ?_ ?_
  · -- Above the least exponent the quotient has all bits of a mantissa.
    refine or_iff_not_imp_right.2 fun above => (Nat.le_div_iff_mul_le positive₂).2 ?_
    have bits : 53 + m₂.log2 ≤ m₁.log2 + n := by
      rw [totalExponent, totalExponent] at target
      omega
    calc 2 ^ 52 * m₂ ≤ 2 ^ 52 * 2 ^ (m₂.log2 + 1) := Nat.mul_le_mul_left _ Nat.lt_log2_self.le
      _ = 2 ^ (53 + m₂.log2) := by rw [← Nat.pow_add]; congr 1; omega
      _ ≤ 2 ^ (m₁.log2 + n) := Nat.pow_le_pow_right two_pos bits
      _ = 2 ^ m₁.log2 * 2 ^ n := Nat.pow_add _ _ _
      _ ≤ m₁ * 2 ^ n := Nat.mul_le_mul_right _ (Nat.log2_self_le positive₁.ne')
  · rw [quotient]
    convert meets using 1
    rw [← value, mul_div_mul_comm, ← zpow_sub₀ two_ne_zero, exponent, zpow_add₀ two_ne_zero,
      zpow_natCast]
    ring

end Variational.Decimal
