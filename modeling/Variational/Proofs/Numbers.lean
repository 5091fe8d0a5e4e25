import Variational.Proofs.Answers
import Variational.Proofs.DecimalReading
import Variational.Proofs.ScalarMeaning

/-!
# Real scalars of numbers

Finite numbers that share a label are equal, and their labels read as numbers, which no label
of an abstract scalar does. So the real scalar of a finite number can be taken in every session
that is reached, whatever scalars it has: `ofNumber_succeeds`. The scalar one always can.
-/

namespace Variational

open Derive

/-! ## Labels of numbers -/

namespace Scalar

open Float.Model

variable {x y : Float}

theorem beq_congr {z : Float} (same : x.toModel.unpack = y.toModel.unpack) :
    (x == z) = (y == z) := by
  change x.toModel.unpack.beq z.toModel.unpack = y.toModel.unpack.beq z.toModel.unpack
  rw [same]

theorem beq_zero_iff : (x == 0.0) = true ↔ ∃ sign, x.toModel.unpack = .zero sign := by
  have zero : (0.0 : Float).toModel.unpack = .zero .positive := rfl
  constructor
  · intro same
    rcases unpack_of_beq same with same | ⟨sign, -, zero, -⟩
    · exact ⟨_, same.trans zero⟩
    · exact ⟨sign, zero⟩
  · rintro ⟨sign, unpacked⟩
    change x.toModel.unpack.beq (0.0 : Float).toModel.unpack = true
    rw [unpacked, zero]
    rfl

theorem numberLin_congr (same : x.toModel.unpack = y.toModel.unpack) :
    numberLin x = numberLin y := by
  rw [numberLin, numberLin, beq_congr same, Decimal.write, Decimal.write, same]

/-- Equal numbers have the same labels. -/
theorem numberLabels_congr (same : (x == y) = true) : numberLabels x = numberLabels y := by
  rcases unpack_of_beq same with same | ⟨sign, sign', zero, zero'⟩
  · rw [numberLabels, numberLabels, beq_congr same, numberLin_congr same]
  · have labels : ∀ {z : Float} {sign}, z.toModel.unpack = .zero sign →
        numberLabels z = ⟨"0", "0"⟩ := by
      intro z sign zero
      have unlike : (z == 0.5) = false := by
        refine Bool.eq_false_iff.2 fun same => ?_
        rcases unpack_of_beq same with half | ⟨_, _, -, half⟩
        · cases zero.symm.trans half
        · cases half
      rw [numberLabels, numberLin, unlike, beq_zero_iff.2 ⟨sign, zero⟩]
      rfl
    rw [labels zero, labels zero']

theorem beq_of_numberLin (finite : x.isFinite = true) (finite' : y.isFinite = true)
    (same : numberLin x = numberLin y) : (x == y) = true := by
  -- No number but zero is written as zero.
  have zero : ∀ {z : Float}, z.isFinite = true → ¬ (z == 0.0) = true → Decimal.write z ≠ "0" := by
    intro z finite nonzero text
    have written : Decimal.write 0.0 = "0" := by decide +kernel
    have same := Decimal.write_inj finite (by decide +kernel) (text.trans written.symm)
    exact nonzero (beq_zero_iff.2 ⟨.positive, same⟩)
  rw [numberLin, numberLin] at same
  split at same
  · rename_i zeroLeft
    split at same
    · rename_i zeroRight
      obtain ⟨sign, unpacked⟩ := beq_zero_iff.1 zeroLeft
      obtain ⟨sign', unpacked'⟩ := beq_zero_iff.1 zeroRight
      change x.toModel.unpack.beq y.toModel.unpack = true
      rw [unpacked, unpacked']
      rfl
    · rename_i nonzero
      exact absurd same.symm (zero finite' nonzero)
  · rename_i nonzero
    split at same
    · exact absurd same (zero finite nonzero)
    · rw [beq_congr (Decimal.write_inj finite finite' same)]
      exact beq_self_of_isFinite finite'

/-- Numbers that share a label are equal. -/
theorem beq_of_shared (finite : x.isFinite = true) (finite' : y.isFinite = true)
    (shared : (numberLabels x).sym = (numberLabels y).sym ∨
      (numberLabels x).lin = (numberLabels y).lin) : (x == y) = true := by
  have half : ∀ z, halfSym ≠ numberLin z := by
    intro z same
    have brace : '}' ∈ halfSym.toList := by decide
    exact brace_not_mem_numberLin z (same ▸ brace)
  rcases shared with sym | lin
  · rw [numberLabels, numberLabels] at sym
    dsimp only at sym
    split at sym
    · rename_i halfLeft
      split at sym
      · rename_i halfRight
        refine beq_of_numberLin finite finite' ?_
        have left := congrArg Labels.lin (numberLabels_congr halfLeft)
        exact left.trans (congrArg Labels.lin (numberLabels_congr halfRight)).symm
      · exact absurd sym (half y)
    · split at sym
      · exact absurd sym.symm (half x)
      · exact beq_of_numberLin finite finite' sym
  · exact beq_of_numberLin finite finite' lin

end Scalar

/-! ## Free labels -/

theorem Scalar.isNumberLabel_numberLin {x : Float} (finite : x.isFinite = true) :
    isNumberLabel (numberLin x) = true := by
  rw [numberLin]
  split
  · decide +kernel
  · obtain ⟨y, read, unpacked⟩ := Decimal.read_write finite
    have finite' : y.isFinite = true := by
      change y.toModel.unpack.isFinite = true
      rw [unpacked]
      exact finite
    simp [isNumberLabel, read, finite']

/-- The labels of a number read as numbers, which keeps abstract scalars from them. -/
theorem Scalar.isNumberLabel_numberLabels {x : Float} (finite : x.isFinite = true) :
    isNumberLabel (numberLabels x).sym = true ∧ isNumberLabel (numberLabels x).lin = true := by
  refine ⟨?_, isNumberLabel_numberLin finite⟩
  rw [numberLabels]
  dsimp only
  split
  · simp [isNumberLabel]
  · exact isNumberLabel_numberLin finite

/-- A label with a character that no label of a number has. -/
theorem Scalar.isNumberLabel_eq_false {label : String} {c : Char} (member : c ∈ label.toList)
    (other : ¬ Decimal.Numeric c) (half : c ∉ halfSym.toList) : isNumberLabel label = false := by
  rw [isNumberLabel, Bool.or_eq_false_iff, beq_eq_false_iff_ne]
  refine ⟨Bool.eq_false_iff.2 fun reads => ?_, fun same => half (same ▸ member)⟩
  obtain ⟨x, reads, finite⟩ := (Option.any_eq_true _ _).1 reads
  exact other (Decimal.numeric_of_read reads finite c member)

namespace Session

/-- The labels of a number are free, or are those of the real scalar that stands for it. -/
def Offers (s : Session) (x : Float) : Prop :=
  s.scalarLabels.Available (Scalar.numberLabels x) ∨
    ∃ id c, s.scalarLabels.bySym? (Scalar.numberLabels x).sym = some id ∧
      s.scalarLabels.byLin? (Scalar.numberLabels x).lin = some id ∧
      s.scalars.get? id = some c ∧ (c.value == some x) = true

variable {s s' : Session} {x : Float}

theorem Step.offers (step : s.Step s') (finite : x.isFinite = true) (offers : s.Offers x) :
    s'.Offers x := by
  have reserved := Scalar.isNumberLabel_numberLabels finite
  cases step with
  | @rootScalar labels value named available =>
    rcases offers with free | ⟨id, c, bySym, byLin, found, value⟩
    · by_cases taken : labels.sym = (Scalar.numberLabels x).sym ∨
          labels.lin = (Scalar.numberLabels x).lin
      · -- Only the real scalar of the number has a label of it.
        cases value with
        | none =>
          obtain ⟨-, sym, lin⟩ := named
          rcases taken with same | same
          · simp [same, reserved.1] at sym
          · simp [same, reserved.2] at lin
        | some y =>
          obtain ⟨finite', rfl⟩ := named
          have same := Scalar.beq_of_shared finite' finite taken
          rw [Offers, ← Scalar.numberLabels_congr same]
          exact Or.inr ⟨_, _, LabelIndex.bySym?_insert available,
            LabelIndex.byLin?_insert available, Arena.get?_push_nextId, same⟩
      · rw [not_or] at taken
        rw [LabelIndex.available_iff] at free
        refine Or.inl (LabelIndex.available_iff.2 ?_)
        simp only [addRootScalar, LabelIndex.insert, List.map_append, List.map_singleton,
          List.mem_append, List.mem_singleton, not_or]
        exact ⟨⟨free.1, Ne.symm taken.1⟩, free.2, Ne.symm taken.2⟩
    · exact Or.inr ⟨id, c, LabelIndex.bySym?_insert_of_some bySym,
        LabelIndex.byLin?_insert_of_some byLin, Arena.get?_push_of_get? found, value⟩
  | derivedScalar =>
    rcases offers with free | ⟨id, c, bySym, byLin, found, value⟩
    · exact Or.inl free
    · exact Or.inr ⟨id, c, bySym, byLin, Arena.get?_push_of_get? found, value⟩
  | _ => exact offers

theorem Steps.offers (steps : s.Steps s') (finite : x.isFinite = true) (offers : s.Offers x) :
    s'.Offers x := by
  induction steps with
  | refl => exact offers
  | tail _ step ih => exact step.offers finite ih

theorem Reachable.offers {settings : Settings} (reachable : Reachable settings s)
    (finite : x.isFinite = true) : s.Offers x :=
  reachable.steps.offers finite
    (Or.inl (LabelIndex.available_iff.2 ⟨List.not_mem_nil, List.not_mem_nil⟩))

end Session

/-! ## Taking scalars -/

namespace Scalar

variable {s : Session} {x : Float}

theorem ofNumber_succeeds (finite : x.isFinite = true) (offers : s.Offers x) :
    ∃ id s', ofNumber x s = .ok id s' := by
  rw [ofNumber, if_neg (by simp [finite])]
  change ∃ id s', register (numberLabels x) (some x) s = .ok id s'
  rw [register, get_bind]
  rcases offers with free | ⟨id, c, bySym, byLin, found, value⟩
  · have unknown : s.scalarLabels.bySym? (numberLabels x).sym = none := by
      simpa [LabelIndex.hasSym] using free.1
    rw [unknown]
    exact ⟨_, _, lift_bind_of_ok (LabelIndex.checkAvailable_eq_ok.2 free) _⟩
  · rw [bySym, byLin]
    simp only [if_true]
    have fetched : s.scalar id = .ok c := Arena.fetch_eq_ok_iff.2 found
    rw [lift_bind_of_ok fetched, if_pos value]
    exact ⟨_, _, rfl⟩

end Scalar

/-! ## The scalar one -/

namespace Scalar

variable {s : Session}

theorem isFinite_one : (1.0 : Float).isFinite = true := by
  decide +kernel

/-- The scalar one can be taken whatever scalars a session has. -/
theorem unit_succeeds (offers : s.Offers 1.0) : ∃ id s', unit s = .ok id s' :=
  ofNumber_succeeds isFinite_one offers

end Scalar

end Variational
