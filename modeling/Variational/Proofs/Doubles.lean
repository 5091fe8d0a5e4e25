import Variational.Proofs.Numbers

/-!
# Doubles that are not numbers

Which sums, differences and products of doubles are not numbers, and how doubles are ordered.
A comparison with a value that is not a number is false, so that one number is at most another
unless it is larger, but not being larger says nothing about a value that is not a number.
-/

namespace Variational.Decimal

open Float.Model

/-! ## Arithmetic -/

namespace Unpacked

variable {a b : UnpackedFloat} {spec : Format}

theorem roundWithAccuracy_ne_notANumber {sign : UnpackedFloat.Sign} {m : Nat} {e : Int}
    {accuracy : UnpackedFloat.Accuracy} :
    UnpackedFloat.roundWithAccuracy spec sign m e accuracy ≠ .notANumber := by
  simp only [UnpackedFloat.roundWithAccuracy]
  split <;> simp

theorem normalize_ne_notANumber {m e : Int} {sign : UnpackedFloat.Sign} :
    UnpackedFloat.normalize spec m e sign ≠ .notANumber := by
  rw [UnpackedFloat.normalize]
  split
  · exact roundWithAccuracy_ne_notANumber
  · simp
  · exact roundWithAccuracy_ne_notANumber

theorem add_eq_notANumber : a.add spec b = .notANumber ↔ a = .notANumber ∨ b = .notANumber ∨
    a.isInf = true ∧ b.isInf = true ∧ a.beq b = false := by
  cases a with
  | notANumber => simp [UnpackedFloat.add]
  | infinity sign =>
    cases b with
    | infinity sign' =>
      cases sign <;> cases sign' <;>
        simp [UnpackedFloat.add, UnpackedFloat.isInf, UnpackedFloat.beq, UnpackedFloat.compare,
          compare]
    | _ => simp [UnpackedFloat.add, UnpackedFloat.isInf]
  | zero sign =>
    cases b with
    | zero sign' => cases sign <;> cases sign' <;> simp [UnpackedFloat.add, UnpackedFloat.isInf]
    | _ => simp [UnpackedFloat.add, UnpackedFloat.isInf]
  | finite => cases b <;> simp [UnpackedFloat.add, UnpackedFloat.isInf, normalize_ne_notANumber]

theorem sub_eq_notANumber : a.sub spec b = .notANumber ↔ a = .notANumber ∨ b = .notANumber ∨
    a.isInf = true ∧ b.isInf = true ∧ a.beq b = true := by
  cases a with
  | notANumber => simp [UnpackedFloat.sub]
  | infinity sign =>
    cases b with
    | infinity sign' =>
      cases sign <;> cases sign' <;>
        simp [UnpackedFloat.sub, UnpackedFloat.isInf, UnpackedFloat.beq, UnpackedFloat.compare,
          compare, Neg.neg]
    | _ => simp [UnpackedFloat.sub, UnpackedFloat.isInf]
  | zero sign =>
    cases b with
    | zero sign' =>
      simp only [UnpackedFloat.sub]
      split <;> simp [UnpackedFloat.isInf]
    | _ => simp [UnpackedFloat.sub, UnpackedFloat.isInf]
  | finite => cases b <;> simp [UnpackedFloat.sub, UnpackedFloat.isInf, normalize_ne_notANumber]

theorem mul_eq_notANumber : a.mul spec b = .notANumber ↔ a = .notANumber ∨ b = .notANumber ∨
    a.isInf = true ∧ (∃ sign, b = .zero sign) ∨ (∃ sign, a = .zero sign) ∧ b.isInf = true := by
  cases a with
  | finite sign m e =>
    cases b <;> simp [UnpackedFloat.mul, UnpackedFloat.isInf]
    exact roundWithAccuracy_ne_notANumber
  | _ => cases b <;> simp [UnpackedFloat.mul, UnpackedFloat.isInf]

theorem compare_swap (a b : UnpackedFloat) : b.compare a = (a.compare b).map Ordering.swap := by
  cases a with
  | notANumber => cases b <;> rfl
  | infinity sign =>
    cases b with
    | infinity sign' => cases sign <;> cases sign' <;> rfl
    | _ => cases sign <;> rfl
  | zero sign =>
    cases b with
    | infinity sign' | finite sign' => cases sign' <;> rfl
    | _ => rfl
  | finite sign m e =>
    cases b with
    | infinity sign' => cases sign' <;> rfl
    | zero => cases sign <;> rfl
    | notANumber => cases sign <;> rfl
    | finite sign' m' e' =>
      cases sign <;> cases sign' <;>
        simp [UnpackedFloat.compare, Ordering.swap_then, Std.OrientedOrd.eq_swap (a := e'),
          Std.OrientedOrd.eq_swap (a := m')]

theorem compare_positive_ne : (UnpackedFloat.infinity .positive).compare b ≠ some .lt := by
  cases b with
  | infinity sign => cases sign <;> simp [UnpackedFloat.compare, compare]
  | _ => simp [UnpackedFloat.compare]

theorem compare_negative_ne : (UnpackedFloat.infinity .negative).compare b ≠ some .gt := by
  cases b with
  | infinity sign => cases sign <;> simp [UnpackedFloat.compare, compare]
  | _ => simp [UnpackedFloat.compare]

theorem compare_eq_none : a.compare b = none ↔ a = .notANumber ∨ b = .notANumber := by
  cases a with
  | notANumber => simp [UnpackedFloat.compare]
  | infinity sign => cases sign <;> cases b <;> simp [UnpackedFloat.compare]
  | zero sign =>
    cases b with
    | infinity sign' | finite sign' => cases sign' <;> simp [UnpackedFloat.compare]
    | _ => simp [UnpackedFloat.compare]
  | finite sign m e =>
    cases b with
    | infinity sign' | finite sign' => cases sign <;> cases sign' <;> simp [UnpackedFloat.compare]
    | _ => cases sign <;> simp [UnpackedFloat.compare]

end Unpacked

theorem unpack_eq_notANumber {bits : BitVec Format.binary64.numBits} :
    UnpackedFloat.unpack .binary64 bits = .notANumber ↔
      UnpackedFloat.unpackExponent bits = -1#11 ∧ UnpackedFloat.unpackMantissa bits ≠ 0#52 := by
  simp only [UnpackedFloat.unpack]
  split
  · rename_i full
    split
    · rename_i zero
      exact iff_of_false (by simp) fun both => both.2 zero
    · rename_i nonzero
      exact iff_of_true rfl ⟨full, nonzero⟩
  · rename_i small
    refine iff_of_false ?_ fun both => small both.1
    split
    · split <;> simp
    · simp

theorem unpack_pack_eq_notANumber {u : UnpackedFloat} :
    (Float.Model.pack u).unpack = .notANumber ↔ u = .notANumber := by
  rw [Float.Model.unpack, unpack_eq_notANumber]
  cases u with
  | notANumber => exact iff_of_true (by decide) rfl
  | infinity sign => cases sign <;> exact iff_of_false (by decide) (by simp)
  | zero sign => cases sign <;> exact iff_of_false (by decide) (by simp)
  | finite sign m e positive =>
    refine iff_of_false ?_ (by simp)
    rintro ⟨full, nonzero⟩
    change UnpackedFloat.unpackExponent (UnpackedFloat.pack .binary64 _) = _ at full
    change UnpackedFloat.unpackMantissa (UnpackedFloat.pack .binary64 _) ≠ _ at nonzero
    simp only [UnpackedFloat.pack] at full nonzero
    split at full
    · rename_i large
      rw [if_pos large, UnpackedFloat.packedInfinity, UnpackedFloat.unpackMantissa_packComponents]
        at nonzero
      exact nonzero rfl
    · rename_i small
      split at full
      · rw [UnpackedFloat.unpackExponent_packComponents] at full
        have stored := congrArg BitVec.toNat full
        change _ % 2 ^ 11 = 2047 at stored
        change ¬ 2 ^ 11 ≤ _ at small
        omega
      · rw [UnpackedFloat.unpackExponent_packComponents] at full
        exact absurd full (by decide)

theorem unpack_pack_infinity (sign : UnpackedFloat.Sign) :
    (Float.Model.pack (.infinity sign)).unpack = .infinity sign := by
  cases sign <;> rfl

variable {x y : Float}

theorem isNaN_iff : x.isNaN = true ↔ x.toModel.unpack = .notANumber := by
  change x.toModel.unpack.isNaN = true ↔ _
  cases x.toModel.unpack <;> simp [UnpackedFloat.isNaN]

theorem isNaN_add : (x + y).isNaN = true ↔
    x.isNaN = true ∨ y.isNaN = true ∨ x.isInf = true ∧ y.isInf = true ∧ (x == y) = false := by
  rw [isNaN_iff, isNaN_iff, isNaN_iff]
  exact unpack_pack_eq_notANumber.trans Unpacked.add_eq_notANumber

theorem isNaN_sub : (x - y).isNaN = true ↔
    x.isNaN = true ∨ y.isNaN = true ∨ x.isInf = true ∧ y.isInf = true ∧ (x == y) = true := by
  rw [isNaN_iff, isNaN_iff, isNaN_iff]
  exact unpack_pack_eq_notANumber.trans Unpacked.sub_eq_notANumber

theorem isNaN_mul : (x * y).isNaN = true ↔ x.isNaN = true ∨ y.isNaN = true ∨
    x.isInf = true ∧ (y == 0.0) = true ∨ (x == 0.0) = true ∧ y.isInf = true := by
  rw [isNaN_iff, isNaN_iff, isNaN_iff, Scalar.beq_zero_iff, Scalar.beq_zero_iff]
  exact unpack_pack_eq_notANumber.trans Unpacked.mul_eq_notANumber

theorem lt_iff : x < y ↔ x.toModel.unpack.compare y.toModel.unpack = some .lt := by
  change decide (x.toModel < y.toModel) = true ↔ _
  rw [decide_eq_true_iff]
  change (x.toModel.unpack.compare y.toModel.unpack == some .lt) = true ↔ _
  rw [beq_iff_eq]

theorem le_iff : x ≤ y ↔ (x.toModel.unpack.compare y.toModel.unpack).any (·.isLE) = true := by
  change decide (x.toModel ≤ y.toModel) = true ↔ _
  rw [decide_eq_true_iff]
  rfl

theorem compare_eq_none : x.toModel.unpack.compare y.toModel.unpack = none ↔
    x.isNaN = true ∨ y.isNaN = true := by
  rw [Unpacked.compare_eq_none, isNaN_iff, isNaN_iff]

/-- Of two numbers one is at most the other exactly if the other is not less. -/
theorem not_lt_iff : ¬ y < x ↔ x.isNaN = true ∨ y.isNaN = true ∨ x ≤ y := by
  rw [← or_assoc, ← compare_eq_none, lt_iff, le_iff, Unpacked.compare_swap x.toModel.unpack]
  cases x.toModel.unpack.compare y.toModel.unpack with
  | none => decide
  | some o => cases o <;> decide

theorem isNaN_of_lt (less : x < y) : x.isNaN = false ∧ y.isNaN = false := by
  have known : ¬ (x.isNaN = true ∨ y.isNaN = true) := by
    rw [← compare_eq_none, lt_iff.1 less]
    simp
  simpa only [not_or, Bool.not_eq_true] using known

theorem isFinite_iff : x.isFinite = true ↔ x.isNaN = false ∧ x.isInf = false := by
  change x.toModel.unpack.isFinite = true ↔
    x.toModel.unpack.isNaN = false ∧ x.toModel.unpack.isInf = false
  cases x.toModel.unpack <;> simp [UnpackedFloat.isFinite, UnpackedFloat.isNaN, UnpackedFloat.isInf]

theorem isInf_iff : x.isInf = true ↔ ∃ sign, x.toModel.unpack = .infinity sign := by
  change x.toModel.unpack.isInf = true ↔ _
  cases x.toModel.unpack <;> simp [UnpackedFloat.isInf]

/-- What is less than something is not the largest infinity. -/
theorem unpack_of_lt (less : x < y) (infinite : x.isInf = true) :
    x.toModel.unpack = .infinity .negative := by
  obtain ⟨sign, unpacked⟩ := isInf_iff.1 infinite
  cases sign with
  | negative => exact unpacked
  | positive => exact absurd (unpacked ▸ lt_iff.1 less) Unpacked.compare_positive_ne

/-- What exceeds something is not the smallest infinity. -/
theorem unpack_of_gt (less : x < y) (infinite : y.isInf = true) :
    y.toModel.unpack = .infinity .positive := by
  obtain ⟨sign, unpacked⟩ := isInf_iff.1 infinite
  cases sign with
  | positive => exact unpacked
  | negative =>
    have order := lt_iff.1 less
    rw [Unpacked.compare_swap y.toModel.unpack, unpacked] at order
    cases known : (UnpackedFloat.infinity .negative).compare x.toModel.unpack with
    | none => simp [known] at order
    | some o =>
      rw [known] at order
      cases o with
      | gt => exact absurd known Unpacked.compare_negative_ne
      | _ => cases order

theorem not_beq_of_lt (less : x < y) : (y == x) = false := by
  have order := lt_iff.1 less
  change (y.toModel.unpack.compare x.toModel.unpack == some .eq) = false
  rw [Unpacked.compare_swap x.toModel.unpack, order]
  rfl

/-- A difference with an infinity is the largest one, if the first double exceeds the second. -/
theorem unpack_sub_of_lt (less : y < x) (infinite : y.isInf = true ∨ x.isInf = true) :
    (x - y).toModel.unpack = .infinity .positive := by
  obtain ⟨number, number'⟩ := isNaN_of_lt less
  suffices UnpackedFloat.sub .binary64 x.toModel.unpack y.toModel.unpack = .infinity .positive from
    (congrArg (fun u => (Float.Model.pack u).unpack) this).trans (unpack_pack_infinity .positive)
  rcases infinite with low | high
  · rw [unpack_of_lt less low]
    cases shape : x.toModel.unpack with
    | notANumber => exact absurd (isNaN_iff.2 shape) (by rw [number']; decide)
    | infinity sign =>
      cases shape.symm.trans (unpack_of_gt less (isInf_iff.2 ⟨sign, shape⟩))
      rfl
    | zero | finite => rfl
  · rw [unpack_of_gt less high]
    cases shape : y.toModel.unpack with
    | notANumber => exact absurd (isNaN_iff.2 shape) (by rw [number]; decide)
    | infinity sign =>
      cases shape.symm.trans (unpack_of_lt less (isInf_iff.2 ⟨sign, shape⟩))
      rfl
    | zero | finite => rfl

end Variational.Decimal
