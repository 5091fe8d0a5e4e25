import Variational.Proofs.Scalars
import Variational.Proofs.Spaces

/-!
# Root arrays

An array is recorded for what it represents: its label and its shape are those of
the form, the space or the operator that it stands for.
-/

namespace Variational

open Derive

variable {s s' : Session}

namespace RootArray

/-- An array is found under its label, or is new and its labels were free. -/
theorem register_cases {array : RootArray} {id : ArrayId} (run : register array s = .ok id s') :
    (s.arrayLabels.byLin? array.pureLin = some id ∧ s' = s) ∨
      s.arrayLabels.Available ⟨array.sym, array.pureLin⟩ ∧ id = s.arrays.nextId ∧
        s' = s.addArray array := by
  rw [register, get_bind] at run
  cases known : s.arrayLabels.byLin? array.pureLin with
  | some existing =>
    rw [known] at run
    obtain ⟨rfl, rfl⟩ := pure_eq_ok.1 run
    exact Or.inl ⟨rfl, rfl⟩
  | none =>
    simp only [known, bind_eq_ok, lift_eq_ok, set_eq_ok, pure_eq_ok] at run
    obtain ⟨_, _, ⟨free, rfl⟩, _, _, rfl, rfl, rfl⟩ := run
    exact Or.inr ⟨LabelIndex.checkAvailable_eq_ok.1 free, rfl, rfl⟩

theorem register_grows {array : RootArray} (represents : s.Represents array)
    (symbolizes : s.Symbolizes array) : (register array).Grows s := by
  refine .get_bind ?_
  split
  · exact .pure
  · exact .lift_bind fun _ available =>
      .set_bind
        (.array represents (LabelIndex.checkAvailable_eq_ok.1 available) symbolizes) .pure

theorem registerNumbered_grows {array : RootArray} (represents : s.Represents array)
    (symbolizes : ∀ n, s.Symbolizes { array with sym := Labels.numberedSym array.sym n }) :
    (registerNumbered array).Grows s :=
  .get_bind (register_grows represents (symbolizes _))

theorem vector_grows (f : FormId) : (vector f).Grows s := by
  refine .get_bind (.lift_bind fun form found => ?_)
  cases label : form.pureLin with
  | none => exact .lift
  | some lin =>
    exact .lift_bind fun rows labelled =>
      register_grows ⟨form, lin, rows, Arena.fetch_eq_ok_iff.1 found, label, labelled, rfl, rfl⟩
        ⟨form, Arena.fetch_eq_ok_iff.1 found, by rw [label]; rfl, rfl⟩

theorem massMatrix_grows (space : SpaceId) : (massMatrix space).Grows s :=
  .get_bind (.lift_bind fun rows labelled => .lift_bind fun sp found =>
    registerNumbered_grows ⟨sp, rows, Arena.fetch_eq_ok_iff.1 found, labelled, rfl, rfl⟩
      fun n => ⟨sp, n, Arena.fetch_eq_ok_iff.1 found, rfl⟩)

theorem incidenceMatrix_grows (space : SpaceId) : (incidenceMatrix space).Grows s :=
  .bind (Space.derivative_grows space) fun target _ derivative =>
    .get_bind (.lift_bind fun cols labelledCols => .lift_bind fun rows labelledRows =>
      .lift_bind fun sp found => registerNumbered_grows ⟨sp, target, rows, cols,
        Arena.fetch_eq_ok_iff.1 found, Space.derivative_rule derivative, labelledCols,
        labelledRows, rfl, rfl⟩ fun n => ⟨sp, n, Arena.fetch_eq_ok_iff.1 found, rfl⟩)

theorem wedgeVector_grows (f : FormId) (space : SpaceId) : (wedgeVector f space).Grows s := by
  refine .get_bind (.lift_bind fun rows labelled => .lift_bind fun form found => ?_)
  cases label : form.pureLin with
  | none => exact .lift
  | some lin =>
    exact .lift_bind fun sp foundSpace =>
      register_grows ⟨form, lin, sp, rows, Arena.fetch_eq_ok_iff.1 found, label,
        Arena.fetch_eq_ok_iff.1 foundSpace, labelled, rfl, rfl⟩
        ⟨form, Arena.fetch_eq_ok_iff.1 found, by rw [label]; rfl, rfl⟩

end RootArray

/-! ## Products of one array -/

theorem Product.single_spec {a : ArrayId} {p : Product} (run : single a s = .ok p s') :
    ∃ one link, s'.IsUnit one ∧ s'.link a false = .ok link ∧ p = ⟨one, [link]⟩ := by
  simp only [single, bind_eq_ok, get_eq_ok, lift_eq_ok, pure_eq_ok] at run
  obtain ⟨one, mid, unit, _, _, ⟨rfl, rfl⟩, link, _, ⟨found, rfl⟩, rfl, rfl⟩ := run
  exact ⟨one, link, Scalar.unit_spec unit, found, rfl⟩

theorem Product.single_grows (array : ArrayId) : (single array).Grows s :=
  .bind Scalar.unit_grows fun _ _ _ => .get_bind (.lift_bind fun _ _ => .pure)

end Variational
