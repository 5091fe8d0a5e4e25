import Variational.Proofs.Divisors
import Variational.Proofs.Evaluation

/-!
# Divisions by zero

Which divisions by zero are rejected. Real scalars are checked when they are divided, and
an abstract scalar is divided by anything. A number that divides a form is checked, and
the duration of an interval is abstract. A form is divided by a number other than zero as
it is by the scalar of the number. The main statement is `zero_division`.
-/

namespace Variational

open Derive

variable {settings : Settings} {s s' : Session}

/-! ## Zero divisors -/

/-- The number zero, or the real scalar zero. -/
def ScalarOperand.IsZero (s : Session) : ScalarOperand → Prop
  | .number x => (x == 0.0) = true
  | .scalar c => s.ScalarHas c Scalar.IsZero

/-- The number zero, the real scalar zero, or an interval that it is the duration of. -/
def Divisor.IsZero (s : Session) : Divisor → Prop
  | .number x => (x == 0.0) = true
  | .scalar c => s.ScalarHas c Scalar.IsZero
  | .interval i => ∃ t, s.timeIntervals.get? i = some t ∧ s.ScalarHas t.duration Scalar.IsZero

theorem Session.Extends.isZero (later : s.Extends s') {operand : ScalarOperand}
    (zero : operand.IsZero s) : operand.IsZero s' := by
  cases operand with
  | number x => exact zero
  | scalar c => exact later.scalarHas zero

/-! ## Scalars divided by zero -/

namespace Scalar

variable {lhs rhs : ScalarOperand} {x : Float}

theorem isFinite_of_zero (zero : (x == 0.0) = true) : x.isFinite = true := by
  obtain ⟨sign, unpacked⟩ := beq_zero_iff.1 zero
  change x.toModel.unpack.isFinite = true
  rw [unpacked]
  rfl

theorem derived_succeeds (labels : Labels) : ∃ id s', derived labels s = .ok id s' := by
  rw [derived, get_bind]
  cases s.scalars.find? fun c => c.pureLin.isNone && c.lin == labels.lin with
  | some existing => exact ⟨_, _, rfl⟩
  | none => exact ⟨_, _, rfl⟩

/-- A zero operand gives the real scalar zero. -/
theorem ofOperand_isZero {id : ScalarId} (zero : rhs.IsZero s)
    (run : ofOperand rhs s = .ok id s') : s'.ScalarHas id IsZero := by
  cases rhs with
  | number x =>
    obtain ⟨c, y, found, -, -⟩ := ofNumber_spec run
    exact ⟨c, found, (isZero_of_ofNumber run found).2 zero⟩
  | scalar c =>
    obtain ⟨rfl, rfl⟩ := pure_eq_ok.1 run
    exact zero

theorem ofOperand_succeeds (reachable : Session.Reachable settings s) (zero : rhs.IsZero s) :
    ∃ id s', ofOperand rhs s = .ok id s' := by
  cases rhs with
  | number x =>
    have finite := isFinite_of_zero zero
    exact ofNumber_succeeds finite (reachable.offers finite)
  | scalar c => exact ⟨c, s, rfl⟩

/-- Taking an operand adds no abstract scalar. -/
theorem ofOperand_abstract {id c : ScalarId} (run : ofOperand rhs s = .ok id s')
    (has : s'.ScalarHas c (·.value = none)) : s.ScalarHas c (·.value = none) := by
  cases rhs with
  | number x =>
    rw [ofOperand, ofNumber, guard_eq_ok] at run
    obtain ⟨rfl | rfl, -⟩ := register_spec run.2
    · exact has
    · obtain ⟨a, found, value⟩ := has
      rcases Arena.get?_push_cases found with old | ⟨-, rfl⟩
      · exact ⟨a, old, value⟩
      · cases value
  | scalar d =>
    obtain ⟨-, rfl⟩ := pure_eq_ok.1 run
    exact has

/-- What is divided by zero is an abstract scalar. -/
theorem abstract_of_div {id : ScalarId} (zero : rhs.IsZero s) (run : div lhs rhs s = .ok id s') :
    ∃ c, lhs = .scalar c ∧ s.ScalarHas c (·.value = none) := by
  obtain ⟨left, mid, right, last, a, b, first, second, -, foundLeft, foundRight, run⟩ :=
    operands_spec run
  have zero := ((ofOperand_grows lhs).extends first).isZero zero
  have divisor : b.IsZero := (ofOperand_isZero zero second).of_found foundRight
  obtain ⟨y, value, isZero⟩ : ∃ y, b.value = some y ∧ (y == 0.0) = true := by
    simpa [IsZero, Option.any_eq_true] using divisor
  -- two real scalars would have been checked
  have abstract : a.value = none := by
    cases real : a.value with
    | none => rfl
    | some x => simp [real, value, isZero, bind_eq_ok, lift_eq_ok] at run
  have has := ofOperand_abstract second ⟨a, foundLeft, abstract⟩
  cases lhs with
  | number x =>
    obtain ⟨c, y, found, real, -⟩ := ofNumber_spec first
    exact absurd (has.of_found found) (by simp [real])
  | scalar c =>
    obtain ⟨rfl, rfl⟩ := pure_eq_ok.1 first
    exact ⟨c, rfl, has⟩

/-- An abstract scalar is divided by zero. -/
theorem div_of_abstract {c : ScalarId} (reachable : Session.Reachable settings s)
    (zero : rhs.IsZero s) (has : s.ScalarHas c (·.value = none)) :
    ∃ id s', div (.scalar c) rhs s = .ok id s' := by
  obtain ⟨a, found, abstract⟩ := has
  obtain ⟨right, mid, taken⟩ := ofOperand_succeeds reachable zero
  obtain ⟨b, foundRight, -⟩ := ofOperand_isZero zero taken
  have fetched : mid.scalar c = .ok a :=
    Arena.fetch_eq_ok_iff.2 (((ofOperand_grows rhs).extends taken).scalars found)
  have fetchedRight : mid.scalar right = .ok b := Arena.fetch_eq_ok_iff.2 foundRight
  have start : ofOperand (.scalar c) s = .ok c s := rfl
  rw [div, bind_of_ok start, bind_of_ok taken, get_bind, lift_bind_of_ok fetched,
    lift_bind_of_ok fetchedRight, abstract]
  exact derived_succeeds _

/-- A scalar is divided by zero only if it is abstract. -/
theorem div_zero_iff (reachable : Session.Reachable settings s) (zero : rhs.IsZero s) :
    (∃ id s', div lhs rhs s = .ok id s') ↔
      ∃ c, lhs = .scalar c ∧ s.ScalarHas c (·.value = none) := by
  constructor
  · intro given
    obtain ⟨id, s', run⟩ := given
    exact abstract_of_div zero run
  · intro given
    obtain ⟨c, rfl, has⟩ := given
    exact div_of_abstract reachable zero has

end Scalar

/-! ## Forms divided by zero -/

namespace Form

variable {f g : FormId} {a : Form} {amount : Divisor} {x : Float}

/-- What a form is divided by is the id of a scalar, if it is zero. -/
theorem scalar_of_divide (reachable : Session.Reachable settings s) (zero : amount.IsZero s)
    (run : divide f amount s = .ok g s') : ∃ c, amount = .scalar c := by
  obtain ⟨c, mid, divisor, -, -⟩ := divide_cases run
  obtain ⟨x, rfl, nonzero, -⟩ | ⟨rfl, -⟩ | ⟨i, t, rfl, known, rfl, rfl⟩ :=
    divisorScalar_cases divisor
  · exact absurd zero nonzero
  · exact ⟨c, rfl⟩
  · obtain ⟨t', known', y, foundDuration, zero⟩ := zero
    cases known.symm.trans known'
    have abstract := (reachable.duration_abstract known).of_found foundDuration
    exact absurd zero (Scalar.not_isZero_of_value abstract)

/-- Only the id of the real scalar zero makes a form a quotient by it. -/
theorem divide_divisor (reachable : Session.Reachable settings s)
    (run : divide f amount s = .ok g s') :
    ∃ c, s'.Reads g (.quotient f c) ∧ (s'.ScalarHas c Scalar.IsZero → amount = .scalar c) := by
  obtain ⟨c, mid, divisor, steps, reads⟩ := divide_cases run
  refine ⟨c, reads, fun zero => ?_⟩
  obtain ⟨x, rfl, nonzero, number⟩ | ⟨rfl, -⟩ | ⟨i, t, rfl, known, rfl, rfl⟩ :=
    divisorScalar_cases divisor
  · obtain ⟨y, -, found, -, -⟩ := Scalar.ofNumber_spec number
    have isZero := zero.of_found (steps.extends.scalars found)
    exact absurd ((Scalar.isZero_of_ofNumber number found).1 isZero) nonzero
  · rfl
  · obtain ⟨y, found, abstract⟩ := reachable.duration_abstract known
    have isZero := zero.of_found (steps.extends.scalars found)
    exact absurd isZero (Scalar.not_isZero_of_value abstract)

/-- Any other number divides a form as its real scalar does. -/
theorem divide_number_eq (nonzero : ¬ (x == 0.0) = true) :
    divide f (.number x) = Scalar.ofNumber x >>= fun c => divide f (.scalar c) := by
  have divisor : divisorScalar f (.number x) = Scalar.ofNumber x := if_neg nonzero
  rw [divide, divisor]
  rfl

/-- A number divides as its scalar does also after the scalar is there. -/
theorem divide_number_of_steps {c : ScalarId} {s'' : Session} (nonzero : ¬ (x == 0.0) = true)
    (taken : Scalar.ofNumber x s = .ok c s') (later : s'.Steps s'') :
    divide f (.number x) s'' = divide f (.scalar c) s'' := by
  rw [divide_number_eq nonzero, bind_of_ok (Scalar.ofNumber_settled taken s'' later)]

end Form

end Variational
