import Mathlib
import Variational.Decimal.Writing
import Variational.Proofs.Text.Numerals

/-!
# Texts of doubles

A finite double is told by its text: `write_inj`. The search for a short decimal always
ends with one that rounds to the double, a decimal rounds to one double only, and the
positional notation of a decimal tells its value.
-/

namespace Variational.Decimal

open Float.Model

/-! ## Numbers that round to a double -/

namespace Rounding

/-- The mantissa and the exponent of a positive double of 64 bits. -/
structure Canonical (r : Rounding) : Prop where
  positive : 0 < r.m
  bounded : r.m < 2 ^ 53
  least : leastExponent ≤ r.e
  normal : leastExponent < r.e → 2 ^ 52 ≤ r.m

/-- A number lies in the interval of the numbers that round to a double. -/
structure Meets (r : Rounding) (v : ℚ) : Prop where
  above : r.low * (2 : ℚ) ^ (r.e - 2) ≤ v
  below : v ≤ r.high * (2 : ℚ) ^ (r.e - 2)
  inside : r.m % 2 ≠ 0 → r.low * (2 : ℚ) ^ (r.e - 2) < v ∧ v < r.high * (2 : ℚ) ^ (r.e - 2)

variable {r r' : Rounding} {p q : Int} {d : Nat} {v : ℚ}

theorem pow_toNat {a : ℚ} (nonzero : a ≠ 0) (n : Int) :
    a ^ n.toNat = a ^ n * a ^ (-n).toNat := by
  rw [← zpow_natCast, ← zpow_natCast, ← zpow_add₀ nonzero]
  congr 1
  omega

/-- On the scale of `unit`, grids and ends of intervals are natural numbers. -/
theorem exists_scale (r : Rounding) (p : Int) : ∃ scale : ℚ, 0 < scale ∧
    (r.unit p : ℚ) = 2 ^ (r.e - 2) * scale ∧ (r.step p : ℚ) = 10 ^ p * scale := by
  refine ⟨2 ^ (-(r.e - 2)).toNat * 10 ^ (-p).toNat, by positivity, ?_, ?_⟩
  · rw [Rounding.unit, ← mul_assoc, ← pow_toNat two_ne_zero]
    norm_cast
  · rw [Rounding.step, mul_left_comm, ← pow_toNat (by norm_num), neg_sub]
    norm_cast

theorem Meets.of_holds (holds : r.holds p d = true) : r.Meets (d * 10 ^ p) := by
  obtain ⟨scale, positive, unit, step⟩ := r.exists_scale p
  have units : ∀ a : Nat, ((a * r.unit p : Nat) : ℚ) = a * 2 ^ (r.e - 2) * scale := fun a => by
    rw [Nat.cast_mul, unit, mul_assoc]
  have steps : ((d * r.step p : Nat) : ℚ) = d * 10 ^ p * scale := by
    rw [Nat.cast_mul, step, mul_assoc]
  have le_iff : ∀ a b : Nat, a ≤ b ↔ (a : ℚ) ≤ b := fun a b => Nat.cast_le.symm
  have lt_iff : ∀ a b : Nat, a < b ↔ (a : ℚ) < b := fun a b => Nat.cast_lt.symm
  rw [Rounding.holds] at holds
  by_cases even : r.m % 2 = 0
  · simp only [if_pos even, Bool.and_eq_true, decide_eq_true_eq, le_iff, units, steps,
      mul_le_mul_iff_left₀ positive] at holds
    exact ⟨holds.1, holds.2, absurd even⟩
  · simp only [if_neg even, Bool.and_eq_true, decide_eq_true_eq, lt_iff, units, steps,
      mul_lt_mul_iff_left₀ positive] at holds
    exact ⟨holds.1.le, holds.2.le, fun _ => holds⟩

/-- The intervals of two doubles lie apart, or share an end that one of them excludes. -/
theorem Canonical.apart (canonical : r.Canonical) (canonical' : r'.Canonical)
    (before : r.e < r'.e ∨ r.e = r'.e ∧ r.m < r'.m) :
    (r.high * 2 ^ (r.e - 2) : ℚ) < r'.low * 2 ^ (r'.e - 2) ∨
      (r.high * 2 ^ (r.e - 2) : ℚ) = r'.low * 2 ^ (r'.e - 2) ∧
        (r.m % 2 ≠ 0 ∨ r'.m % 2 ≠ 0) := by
  obtain ⟨k, exponent, ends⟩ : ∃ k : Nat, r'.e = r.e + k ∧ (r.high < r'.low * 2 ^ k ∨
      r.high = r'.low * 2 ^ k ∧ (r.m % 2 ≠ 0 ∨ r'.m % 2 ≠ 0)) := by
    rcases before with below | ⟨same, below⟩
    · -- The interval begins where the binade below ends.
      have bound := canonical.bounded
      have finer : leastExponent < r'.e := lt_of_le_of_lt canonical.least below
      have normal := canonical'.normal finer
      have low : 2 ^ 54 - 1 ≤ r'.low := by
        rw [Rounding.low]
        split <;> simp only [Nat.pow_eq] at * <;> omega
      have wide : 2 ^ 1 ≤ 2 ^ (r'.e - r.e).toNat := Nat.pow_le_pow_right (by decide) (by omega)
      have product := Nat.mul_le_mul low wide
      refine ⟨(r'.e - r.e).toNat, by omega, ?_⟩
      simp only [Rounding.high]
      omega
    · refine ⟨0, by omega, ?_⟩
      rw [Rounding.high, Rounding.low]
      split <;> omega
  have positive : (0 : ℚ) < 2 ^ (r.e - 2) := by positivity
  have width : (r'.low * 2 ^ (r'.e - 2) : ℚ) = (r'.low * 2 ^ k : Nat) * 2 ^ (r.e - 2) := by
    rw [exponent, add_sub_right_comm, zpow_add₀ two_ne_zero, zpow_natCast]
    push_cast
    ring
  rw [width]
  rcases ends with less | ⟨same, odd⟩
  · exact Or.inl (mul_lt_mul_of_pos_right (Nat.cast_lt.2 less) positive)
  · exact Or.inr ⟨by rw [same], odd⟩

/-- A number rounds to one double. -/
theorem Canonical.eq_of_meets (canonical : r.Canonical) (canonical' : r'.Canonical)
    (meets : r.Meets v) (meets' : r'.Meets v) : r = r' := by
  have ordered : ∀ {r r' : Rounding}, r.Canonical → r'.Canonical → r.Meets v → r'.Meets v →
      ¬ (r.e < r'.e ∨ r.e = r'.e ∧ r.m < r'.m) := by
    intro r r' canonical canonical' meets meets' before
    rcases canonical.apart canonical' before with less | ⟨same, odd | odd⟩
    · exact absurd (meets'.above.trans meets.below) (not_le.2 less)
    · exact absurd (same ▸ meets'.above) (not_le.2 (meets.inside odd).2)
    · exact absurd (same ▸ meets.below) (not_le.2 (meets'.inside odd).1)
  obtain ⟨m, e⟩ := r
  obtain ⟨m', e'⟩ := r'
  have first := ordered canonical canonical' meets meets'
  have second := ordered canonical' canonical meets' meets
  simp only [mk.injEq]
  dsimp only at first second
  omega

theorem Canonical.not_meets_zero (canonical : r.Canonical) : ¬ r.Meets 0 := by
  intro meets
  have low : 0 < r.low := by
    have positive := canonical.positive
    rw [Rounding.low]
    split <;> omega
  have above : (0 : ℚ) < r.low * 2 ^ (r.e - 2) := by positivity
  exact absurd meets.above (not_le.2 above)

/-! ## The search for a short decimal -/

theorem holds_of_nearestOn (hit : r.nearestOn p = some d) : r.holds p d = true := by
  rw [nearestOn] at hit
  split at hit
  · rename_i below above
    split at hit
    · cases hit
      exact below
    · cases hit
      exact above
  · rename_i below _
    cases hit
    exact below
  · rename_i _ above
    cases hit
    exact above
  · cases hit

/-- The finest grid holds every double. -/
theorem nearestOn_leastExponent (positive : 0 < r.m) (least : leastExponent ≤ r.e) :
    (r.nearestOn leastExponent).isSome = true := by
  have exact : 4 * r.m * r.unit leastExponent / r.step leastExponent * r.step leastExponent =
      4 * r.m * r.unit leastExponent := by
    refine Nat.div_mul_cancel ?_
    have coarse : r.step leastExponent = 2 ^ (2 - r.e).toNat := by
      rw [Rounding.step, show leastExponent.toNat = 0 from rfl]
      exact Nat.mul_one _
    have fine : 2 ^ (2 - r.e).toNat ∣ 2 ^ 2 * 2 ^ (-leastExponent).toNat := by
      rw [← Nat.pow_add]
      exact Nat.pow_dvd_pow 2 (by omega)
    rw [coarse, Rounding.unit, mul_assoc]
    generalize (-leastExponent).toNat = places at fine ⊢
    have decimal : 2 ^ places ∣ 10 ^ places := pow_dvd_pow_of_dvd (by decide) _
    exact fine.trans (mul_dvd_mul dvd_rfl (dvd_mul_of_dvd_right (dvd_mul_of_dvd_right decimal _) _))
  have holds : r.holds leastExponent
      (4 * r.m * r.unit leastExponent / r.step leastExponent) = true := by
    have unit : 0 < r.unit leastExponent := by
      simp [Rounding.unit]
    have low : r.low < 4 * r.m := by
      rw [Rounding.low]
      split <;> omega
    have high : 4 * r.m < r.high := by
      rw [Rounding.high]
      omega
    have above := Nat.mul_lt_mul_of_pos_right low unit
    have below := Nat.mul_lt_mul_of_pos_right high unit
    simp only [Rounding.holds, exact]
    split <;> simp [above, below, above.le, below.le]
  rw [nearestOn]
  simp only [holds]
  cases r.holds leastExponent (4 * r.m * r.unit leastExponent / r.step leastExponent + 1) with
  | true => dsimp only; split <;> rfl
  | false => rfl

/-- A search that passes a grid with a hit ends with one. -/
theorem nearestOn_search {steps k : Nat} (inside : k < steps)
    (hit : (r.nearestOn (p - k)).isSome = true) :
    r.nearestOn (r.search steps p).2 = some (r.search steps p).1 := by
  induction steps generalizing p k with
  | zero => omega
  | succ steps ih =>
    rw [search]
    cases here : r.nearestOn p with
    | some d => exact here
    | none =>
      cases k with
      | zero => simp [here] at hit
      | succ k => exact ih (k := k) (by omega) (by rwa [sub_sub, add_comm, ← Nat.cast_succ])

/-- The shortest decimal rounds to the double. -/
theorem Canonical.shortest_meets (canonical : r.Canonical) :
    r.Meets (r.shortest.1 * 10 ^ r.shortest.2) := by
  refine .of_holds (holds_of_nearestOn ?_)
  refine nearestOn_search (k := r.magnitude + leastExponent.natAbs) (Nat.lt_succ_self _) ?_
  have finest :
      (r.magnitude : Int) - (r.magnitude + leastExponent.natAbs : Nat) = leastExponent := by
    simp [leastExponent]
  rw [finest]
  exact nearestOn_leastExponent canonical.positive canonical.least

end Rounding

/-! ## Positional notation -/

/-- The number that digits with at most one point among them denote. -/
def valueOf (cs : List Char) : ℚ :=
  let fraction := (cs.dropWhile Char.isDigit).tail
  Text.digitsValue (cs.takeWhile Char.isDigit ++ fraction) / 10 ^ fraction.length

theorem valueOf_digits {digits : List Char} (all : ∀ c ∈ digits, c.isDigit = true) :
    valueOf digits = Text.digitsValue digits := by
  simp [valueOf, List.takeWhile_eq_self_iff.2 all, List.dropWhile_eq_nil_iff.2 all]

theorem valueOf_point {whole : List Char} (all : ∀ c ∈ whole, c.isDigit = true)
    (fraction : List Char) : valueOf (whole ++ '.' :: fraction) =
      Text.digitsValue (whole ++ fraction) / 10 ^ fraction.length := by
  have point : Char.isDigit '.' = false := by decide
  simp [valueOf, List.takeWhile_append_of_pos all, List.dropWhile_append_of_pos all, point]

theorem digitsValue_toDigits (d : Nat) : Text.digitsValue (Nat.toDigits 10 d) = d :=
  Nat.ofDigitChars_ten_toDigits

theorem digitsValue_append (front back : List Char) : Text.digitsValue (front ++ back) =
    Nat.ofDigitChars 10 back (Text.digitsValue front) :=
  Nat.ofDigitChars_append 0

theorem digitsValue_zeros_append (n : Nat) (digits : List Char) :
    Text.digitsValue (List.replicate n '0' ++ digits) = Text.digitsValue digits := by
  have zeros : Text.digitsValue (List.replicate n '0') = 0 := Nat.ofDigitChars_replicate_zero
  rw [digitsValue_append, zeros]
  rfl

theorem digitsValue_append_zeros (digits : List Char) (n : Nat) :
    Text.digitsValue (digits ++ List.replicate n '0') = 10 ^ n * Text.digitsValue digits := by
  rw [digitsValue_append, Nat.ofDigitChars_replicate_zero]

/-- The notation of a decimal denotes it. -/
theorem valueOf_positional (d : Nat) (p : Int) :
    valueOf (positional d p).toList = d * 10 ^ p := by
  have digits : ∀ c ∈ Nat.toDigits 10 d, c.isDigit = true := fun c member =>
    Nat.isDigit_of_mem_toDigits (by decide) (by decide) member
  have zeros : ∀ n, ∀ c ∈ List.replicate n '0', c.isDigit = true := fun n c member =>
    List.eq_of_mem_replicate member ▸ by decide
  rw [positional]
  dsimp only
  split
  · rename_i whole
    obtain ⟨n, rfl⟩ := Int.eq_ofNat_of_zero_le whole
    rw [String.toList_ofList, valueOf_digits, digitsValue_append_zeros, digitsValue_toDigits]
    · push_cast
      rw [mul_comm]
      simp
    · exact fun c member => (List.mem_append.1 member).elim (digits c) (zeros _ c)
  rename_i fractional
  obtain ⟨n, rfl⟩ : ∃ n : Nat, p = -n := ⟨(-p).toNat, by omega⟩
  rw [neg_neg, Int.toNat_natCast, zpow_neg, zpow_natCast, ← div_eq_mul_inv]
  split
  · rename_i short
    rw [String.toList_ofList, valueOf_point fun c member => digits c (List.mem_of_mem_take member),
      List.take_append_drop, digitsValue_toDigits, List.length_drop, Nat.sub_sub_self short.le]
  · rename_i long
    have point := valueOf_point (zeros 1)
      (List.replicate (n - (Nat.toDigits 10 d).length) '0' ++ Nat.toDigits 10 d)
    rw [digitsValue_zeros_append, digitsValue_zeros_append, digitsValue_toDigits,
      List.length_append, List.length_replicate, Nat.sub_add_cancel (Nat.le_of_not_lt long)]
      at point
    rw [String.toList_ofList]
    exact point

/-- The notation of a decimal begins with a digit. -/
theorem exists_digit_positional (d : Nat) (p : Int) :
    ∃ c rest, (positional d p).toList = c :: rest ∧ c.isDigit = true := by
  obtain ⟨c, rest, digits⟩ := List.exists_cons_of_ne_nil (Nat.toDigits_ne_nil (n := d) (b := 10))
  have digit : c.isDigit = true :=
    Nat.isDigit_of_mem_toDigits (by decide) (by decide) (digits ▸ List.mem_cons_self)
  rw [positional, digits]
  dsimp only
  split
  · exact ⟨c, _, String.toList_ofList, digit⟩
  split
  · rename_i short
    obtain ⟨n, whole⟩ := Nat.exists_eq_add_one_of_ne_zero (Nat.sub_ne_zero_of_lt short)
    rw [whole]
    exact ⟨c, _, String.toList_ofList, digit⟩
  · exact ⟨'0', _, String.toList_ofList, by decide⟩

/-! ## Doubles -/

/-- The mantissa of a normal double has a leading one. -/
theorem toNat_one_append (mantissa : BitVec 52) :
    (1#1 ++ mantissa).toNat = 2 ^ 52 + mantissa.toNat := by
  have sum := Nat.two_pow_add_eq_or_of_lt mantissa.isLt 1
  rw [Nat.mul_one] at sum
  rw [sum, BitVec.toNat_append]
  rfl

theorem canonical_of_unpack {x : Float} {sign : UnpackedFloat.Sign} {m : Nat} {e : Int}
    {positive : 0 < m} (unpacked : x.toModel.unpack = .finite sign m e positive) :
    (⟨m, e⟩ : Rounding).Canonical := by
  have subnormal : ∀ mantissa : BitVec 52, m = mantissa.toNat → e = -1074 →
      (⟨m, e⟩ : Rounding).Canonical := by
    intro mantissa rfl rfl
    have bounded := mantissa.isLt
    exact ⟨positive, by dsimp only; omega, le_rfl, fun above => absurd above (lt_irrefl _)⟩
  have normal : ∀ (mantissa : BitVec 52) (exponent : BitVec 11), exponent ≠ 0#11 →
      m = (1#1 ++ mantissa).toNat → e = exponent.toNat - 1075 → (⟨m, e⟩ : Rounding).Canonical := by
    intro mantissa exponent nonzero rfl rfl
    have bounded := mantissa.isLt
    have least : exponent.toNat ≠ 0 := fun zero => nonzero (BitVec.eq_of_toNat_eq zero)
    have whole := toNat_one_append mantissa
    exact ⟨positive, by dsimp only; omega, by simp only [leastExponent]; omega,
      fun _ => by dsimp only; omega⟩
  rw [unpack, UnpackedFloat.unpack] at unpacked
  dsimp only at unpacked
  split at unpacked
  · split at unpacked <;> cases unpacked
  split at unpacked
  · rename_i zero
    split at unpacked
    · cases unpacked
    · cases unpacked
      refine subnormal _ rfl ?_
      rw [zero]
      rfl
  · rename_i nonzero
    cases unpacked
    exact normal _ _ nonzero rfl rfl

/-- The digits in the text of a finite double, behind its sign, denote zero or a number that
rounds to the double without its sign. -/
theorem write_cases {x : Float} (finite : x.isFinite = true) : ∃ sign body,
    write x = signMark sign ++ body ∧ (∃ c rest, body.toList = c :: rest ∧ c.isDigit = true) ∧
      ((x.toModel.unpack = .zero sign ∧ valueOf body.toList = 0) ∨
        ∃ m e positive, x.toModel.unpack = .finite sign m e positive ∧
          (⟨m, e⟩ : Rounding).Meets (valueOf body.toList)) := by
  have finite : x.toModel.unpack.isFinite = true := finite
  rw [write]
  cases unpacked : x.toModel.unpack with
  | notANumber | infinity sign => simp [unpacked, UnpackedFloat.isFinite] at finite
  | zero sign =>
    refine ⟨sign, "0", rfl, ⟨'0', [], rfl, by decide⟩, Or.inl ⟨rfl, ?_⟩⟩
    have zero := valueOf_positional 0 0
    rw [Nat.cast_zero, zero_mul] at zero
    exact zero
  | finite sign m e positive =>
    refine ⟨sign, _, rfl, exists_digit_positional _ _, Or.inr ⟨m, e, positive, rfl, ?_⟩⟩
    rw [valueOf_positional]
    exact (canonical_of_unpack unpacked).shortest_meets

theorem signMark_append_inj {sign sign' : UnpackedFloat.Sign} {body body' : String}
    (digit : ∃ c rest, body.toList = c :: rest ∧ c.isDigit = true)
    (digit' : ∃ c rest, body'.toList = c :: rest ∧ c.isDigit = true)
    (same : signMark sign ++ body = signMark sign' ++ body') : sign = sign' ∧ body = body' := by
  obtain ⟨c, rest, text, digit⟩ := digit
  obtain ⟨c', rest', text', digit'⟩ := digit'
  have texts := congrArg String.toList same
  rw [String.toList_append, String.toList_append, text, text'] at texts
  have minus : Char.isDigit '-' = false := by decide
  cases sign with
  | positive =>
    cases sign' with
    | positive => exact ⟨rfl, String.toList_injective (text.trans (texts.trans text'.symm))⟩
    | negative =>
      cases texts
      exact absurd (minus.symm.trans digit) Bool.false_ne_true
  | negative =>
    cases sign' with
    | positive =>
      cases texts
      exact absurd (minus.symm.trans digit') Bool.false_ne_true
    | negative =>
      exact ⟨rfl, String.toList_injective
        (text.trans ((List.cons.inj texts).2.trans text'.symm))⟩

/-- A finite double is told by its text. -/
theorem write_inj {x y : Float} (finite : x.isFinite = true) (finite' : y.isFinite = true)
    (same : write x = write y) : x.toModel.unpack = y.toModel.unpack := by
  obtain ⟨sign, body, text, digit, number⟩ := write_cases finite
  obtain ⟨sign', body', text', digit', number'⟩ := write_cases finite'
  obtain ⟨rfl, rfl⟩ := signMark_append_inj digit digit' (text.symm.trans (same.trans text'))
  rcases number with ⟨unpacked, zero⟩ | ⟨m, e, positive, unpacked, meets⟩ <;>
    rcases number' with ⟨unpacked', zero'⟩ | ⟨m', e', positive', unpacked', meets'⟩
  · rw [unpacked, unpacked']
  · exact absurd (zero ▸ meets') (canonical_of_unpack unpacked').not_meets_zero
  · exact absurd (zero' ▸ meets) (canonical_of_unpack unpacked).not_meets_zero
  · cases (canonical_of_unpack unpacked).eq_of_meets (canonical_of_unpack unpacked') meets meets'
    rw [unpacked, unpacked']

end Variational.Decimal
