import Variational.Proofs.Session.Growth

/-!
# Scalars

Which scalar an operation of scalar arithmetic gives, and that it only adds
scalars to the session.
-/

namespace Variational

open Derive

variable {s s' : Session}

namespace Scalar

/-! ## Root scalars -/

/-- A registered scalar is old or new, is found under its labels, and has its value. -/
theorem register_spec {labels : Labels} {value : Option Float} {id : ScalarId}
    (run : register labels value s = .ok id s') :
    (s' = s ∨ s' = s.addRootScalar labels value) ∧
    s'.scalarLabels.bySym? labels.sym = some id ∧ s'.scalarLabels.byLin? labels.lin = some id ∧
      ∃ c, s'.scalars.get? id = some c ∧ (c.value = value ∨ (c.value == value) = true) := by
  have create : ∀ {id s'}, (do
      liftM (s.scalarLabels.checkAvailable labels)
      set (s.addRootScalar labels value)
      return s.scalars.nextId : Derive ScalarId) s = .ok id s' →
      (s' = s ∨ s' = s.addRootScalar labels value) ∧
      s'.scalarLabels.bySym? labels.sym = some id ∧ s'.scalarLabels.byLin? labels.lin = some id ∧
        ∃ c, s'.scalars.get? id = some c ∧ (c.value = value ∨ (c.value == value) = true) := by
    intro id s' run
    simp only [bind_eq_ok, lift_eq_ok, set_eq_ok, pure_eq_ok] at run
    obtain ⟨_, _, ⟨free, rfl⟩, _, _, rfl, rfl, rfl⟩ := run
    have available := LabelIndex.checkAvailable_eq_ok.1 free
    exact ⟨Or.inr rfl, LabelIndex.bySym?_insert available, LabelIndex.byLin?_insert available, _,
      Arena.get?_push_nextId, Or.inl rfl⟩
  rw [register, get_bind] at run
  cases bySym : s.scalarLabels.bySym? labels.sym with
  | none =>
    rw [bySym] at run
    exact create run
  | some a =>
    cases byLin : s.scalarLabels.byLin? labels.lin with
    | none =>
      rw [bySym, byLin] at run
      exact create run
    | some b =>
      simp only [bySym, byLin] at run
      split at run
      · rename_i same
        simp only [bind_eq_ok, lift_eq_ok] at run
        obtain ⟨present, _, ⟨found, rfl⟩, run⟩ := run
        split at run
        · rename_i agrees
          obtain ⟨rfl, rfl⟩ := pure_eq_ok.1 run
          exact ⟨Or.inl rfl, bySym, same ▸ byLin, present, Arena.fetch_eq_ok_iff.1 found,
            Or.inr agrees⟩
        · exact create run
      · exact create run

theorem register_grows {labels : Labels} {value : Option Float}
    (named : Session.ScalarNamed labels value) : (register labels value).Grows s := by
  have create : (do
      liftM (s.scalarLabels.checkAvailable labels)
      set (s.addRootScalar labels value)
      return s.scalars.nextId : Derive ScalarId).Grows s :=
    .lift_bind fun _ available =>
      .set_bind (.rootScalar named (LabelIndex.checkAvailable_eq_ok.1 available)) .pure
  refine .get_bind ?_
  cases s.scalarLabels.bySym? labels.sym with
  | none => exact create
  | some a =>
    cases s.scalarLabels.byLin? labels.lin with
    | none => exact create
    | some b =>
      dsimp only
      split
      · refine .lift_bind fun present _ => ?_
        split
        · exact .pure
        · exact create
      · exact create

theorem ofNumber_grows (x : Float) : (ofNumber x).Grows s := by
  rw [ofNumber]
  exact .guard (fun finite => register_grows ⟨by simpa using finite, rfl⟩) (by simp)

theorem unit_grows : unit.Grows s :=
  ofNumber_grows 1.0

theorem abstract_grows (labels : Labels) : (abstract labels).Grows s := by
  refine .lift_bind fun _ valid => ?_
  cases reserved : [labels.sym, labels.lin].find? isNumberLabel with
  | some label => exact .lift
  | none =>
    refine register_grows ⟨valid, ?_⟩
    simpa using reserved

theorem abstract_spec {labels : Labels} {id : ScalarId} (run : abstract labels s = .ok id s') :
    (s' = s ∨ s' = s.addRootScalar labels none) ∧
    s'.scalarLabels.bySym? labels.sym = some id ∧ s'.scalarLabels.byLin? labels.lin = some id ∧
      ∃ c, s'.scalars.get? id = some c ∧ c.value = none := by
  simp only [abstract, bind_eq_ok, lift_eq_ok] at run
  obtain ⟨_, _, ⟨-, rfl⟩, run⟩ := run
  cases reserved : [labels.sym, labels.lin].find? isNumberLabel with
  | some label =>
    rw [reserved] at run
    simp [lift_eq_ok] at run
  | none =>
    rw [reserved] at run
    obtain ⟨change, bySym, byLin, c, found, value⟩ := register_spec run
    refine ⟨change, bySym, byLin, c, found, ?_⟩
    rcases value with same | agrees
    · exact same
    · cases present : c.value with
      | none => rfl
      | some x =>
        rw [present] at agrees
        cases agrees

end Scalar

/-! ## Labels of root scalars -/

theorem Session.Step.byLin?_scalar {lin : String} {id : ScalarId} (step : s.Step s')
    (known : s.scalarLabels.byLin? lin = some id) : s'.scalarLabels.byLin? lin = some id := by
  cases step with
  | rootScalar => exact LabelIndex.byLin?_insert_of_some known
  | _ => exact known

theorem Session.Step.bySym?_scalar {sym : String} {id : ScalarId} (step : s.Step s')
    (known : s.scalarLabels.bySym? sym = some id) : s'.scalarLabels.bySym? sym = some id := by
  cases step with
  | rootScalar => exact LabelIndex.bySym?_insert_of_some known
  | _ => exact known

/-- The symbol of a root scalar stays with it. -/
theorem Session.Steps.bySym?_scalar {sym : String} {id : ScalarId} (steps : s.Steps s')
    (known : s.scalarLabels.bySym? sym = some id) : s'.scalarLabels.bySym? sym = some id := by
  induction steps with
  | refl => exact known
  | tail _ step ih => exact step.bySym?_scalar ih

/-- The label of a root scalar stays with it. -/
theorem Session.Steps.byLin?_scalar {lin : String} {id : ScalarId} (steps : s.Steps s')
    (known : s.scalarLabels.byLin? lin = some id) : s'.scalarLabels.byLin? lin = some id := by
  induction steps with
  | refl => exact known
  | tail _ step ih => exact step.byLin?_scalar ih

/-! ## The unit -/

/-- The real scalar one: it is known by the labels of one and has its value. -/
def Session.IsUnit (s : Session) (id : ScalarId) : Prop :=
  s.scalarLabels.bySym? (Scalar.numberLabels 1.0).sym = some id ∧
    s.scalarLabels.byLin? (Scalar.numberLabels 1.0).lin = some id ∧
    ∃ c, s.scalars.get? id = some c ∧ (c.value == some 1.0) = true

theorem Session.Step.isUnit {id : ScalarId} (step : s.Step s') (unit : s.IsUnit id) :
    s'.IsUnit id := by
  cases step with
  | rootScalar =>
    obtain ⟨bySym, byLin, c, found, value⟩ := unit
    exact ⟨LabelIndex.bySym?_insert_of_some bySym, LabelIndex.byLin?_insert_of_some byLin, c,
      Arena.get?_push_of_get? found, value⟩
  | derivedScalar =>
    obtain ⟨bySym, byLin, c, found, value⟩ := unit
    exact ⟨bySym, byLin, c, Arena.get?_push_of_get? found, value⟩
  | _ => exact unit

theorem Session.Steps.isUnit {id : ScalarId} (steps : s.Steps s') (unit : s.IsUnit id) :
    s'.IsUnit id := by
  induction steps with
  | refl => exact unit
  | tail _ step ih => exact step.isUnit ih

namespace Scalar

theorem unit_spec {id : ScalarId} (run : unit s = .ok id s') : s'.IsUnit id := by
  rw [unit, ofNumber, guard_eq_ok] at run
  obtain ⟨-, bySym, byLin, c, found, value⟩ := register_spec run.2
  refine ⟨bySym, byLin, c, found, ?_⟩
  rcases value with same | agrees
  · rw [same]
    decide +kernel
  · exact agrees

/-! ## Derived scalars and arithmetic -/

theorem derived_grows {labels : Labels} (composed : s.ScalarComposed labels) :
    (derived labels).Grows s := by
  refine .get_bind ?_
  split
  · exact .pure
  · rename_i unknown
    exact .set_bind (.derivedScalar composed unknown) .pure

theorem ofOperand_grows (operand : ScalarOperand) : (ofOperand operand).Grows s := by
  cases operand with
  | number x => exact ofNumber_grows x
  | scalar id => exact .pure

theorem add_grows (lhs rhs : ScalarOperand) : (add lhs rhs).Grows s := by
  refine .bind (ofOperand_grows _) fun left _ _ => .bind (ofOperand_grows _) fun right mid _ => ?_
  refine .get_bind (.lift_bind fun a foundLeft => .lift_bind fun b foundRight => ?_)
  have composed : a.value = none ∨ b.value = none → mid.ScalarComposed _ := fun unreal =>
    ⟨left, right, a, b, Arena.fetch_eq_ok_iff.1 foundLeft, Arena.fetch_eq_ok_iff.1 foundRight,
      unreal, Or.inl rfl⟩
  cases left : a.value with
  | none => exact derived_grows (composed (Or.inl left))
  | some x =>
    cases right : b.value with
    | none => exact derived_grows (composed (Or.inr right))
    | some y => exact ofNumber_grows _

theorem div_grows (lhs rhs : ScalarOperand) : (div lhs rhs).Grows s := by
  refine .bind (ofOperand_grows _) fun left _ _ => .bind (ofOperand_grows _) fun right mid _ => ?_
  refine .get_bind (.lift_bind fun a foundLeft => .lift_bind fun b foundRight => ?_)
  have composed : a.value = none ∨ b.value = none → mid.ScalarComposed _ := fun unreal =>
    ⟨left, right, a, b, Arena.fetch_eq_ok_iff.1 foundLeft, Arena.fetch_eq_ok_iff.1 foundRight,
      unreal, Or.inr rfl⟩
  cases left : a.value with
  | none => exact derived_grows (composed (Or.inl left))
  | some x =>
    cases right : b.value with
    | none => exact derived_grows (composed (Or.inr right))
    | some y => exact .guard (fun _ => ofNumber_grows _) (by simp)

/-! ## Scalars and forms -/

/-- Arithmetic records no form. -/
theorem ofNumber_forms {x : Float} {id : ScalarId} (run : ofNumber x s = .ok id s') :
    s'.forms = s.forms := by
  rw [ofNumber, guard_eq_ok] at run
  obtain ⟨rfl | rfl, -⟩ := register_spec run.2 <;> rfl

theorem derived_forms {labels : Labels} {id : ScalarId} (run : derived labels s = .ok id s') :
    s'.forms = s.forms := by
  rw [derived, get_bind] at run
  cases known : s.scalars.find? fun c => c.pureLin.isNone && c.lin == labels.lin with
  | some existing =>
    rw [known] at run
    obtain ⟨-, rfl⟩ := pure_eq_ok.1 run
    rfl
  | none =>
    simp only [known, bind_eq_ok, set_eq_ok, pure_eq_ok] at run
    obtain ⟨_, _, rfl, -, rfl⟩ := run
    rfl

theorem ofOperand_forms {operand : ScalarOperand} {id : ScalarId}
    (run : ofOperand operand s = .ok id s') : s'.forms = s.forms := by
  cases operand with
  | number x => exact ofNumber_forms run
  | scalar c =>
    obtain ⟨-, rfl⟩ := pure_eq_ok.1 run
    rfl

theorem div_forms {lhs rhs : ScalarOperand} {id : ScalarId} (run : div lhs rhs s = .ok id s') :
    s'.forms = s.forms := by
  simp only [div, bind_eq_ok, get_eq_ok, lift_eq_ok] at run
  obtain ⟨left, mid, first, right, last, second, _, _, ⟨rfl, rfl⟩, a, _, ⟨-, rfl⟩, b, _,
    ⟨-, rfl⟩, run⟩ := run
  rw [← ofOperand_forms first, ← ofOperand_forms second]
  cases left : a.value with
  | none =>
    rw [left] at run
    exact derived_forms run
  | some x =>
    cases right : b.value with
    | none =>
      rw [left, right] at run
      exact derived_forms run
    | some y =>
      rw [left, right] at run
      exact ofNumber_forms (guard_eq_ok.1 run).2

end Scalar

end Variational
