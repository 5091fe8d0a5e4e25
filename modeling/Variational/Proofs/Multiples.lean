import Mathlib.Algebra.Module.Defs
import Variational.Proofs.Terms

/-!
# Multiples of forms

Multiplying a form by a number or a scalar gives the form itself for the real scalar
one, and otherwise the form that is derived for the scalar. A valuation of a session
gives its forms values in a module, in which these multiples are multiples.
-/

namespace Variational

open Derive

variable {s s' : Session}

/-! ## Scalars of operands -/

/-- The scalar that an operand stands for. A number stands for the real scalar under its
label. -/
def ScalarOperand.scalar? (s : Session) : ScalarOperand → Option ScalarId
  | .number x => s.scalarLabels.byLin? (Scalar.numberLin x)
  | .scalar c => some c

/-- A scalar has the number of an operand. -/
def ScalarOperand.Agrees : ScalarOperand → Scalar → Prop
  | .number x, c => ∃ y, c.value = some y ∧ (y = x ∨ (y == x) = true)
  | .scalar _, _ => True

theorem Session.Steps.scalar?_eq_some (steps : s.Steps s') {operand : ScalarOperand} {c : ScalarId}
    (stands : operand.scalar? s = some c) : operand.scalar? s' = some c := by
  cases operand with
  | number x => exact steps.byLin?_scalar stands
  | scalar d => exact stands

namespace Scalar

variable {operand : ScalarOperand} {c : ScalarId}

theorem ofOperand_spec (run : ofOperand operand s = .ok c s') :
    operand.scalar? s' = some c ∧
      ∀ x, s'.scalars.get? c = some x → operand.Agrees x := by
  cases operand with
  | number x =>
    rw [ofOperand, ofNumber, guard_eq_ok] at run
    obtain ⟨-, -, byLin, k, found, value⟩ := register_spec run.2
    refine ⟨byLin, fun k' found' => ?_⟩
    cases found.symm.trans found'
    rcases value with same | agrees
    · exact ⟨x, same, Or.inl rfl⟩
    · cases real : k.value with
      | none =>
        rw [real] at agrees
        cases agrees
      | some y =>
        rw [real] at agrees
        exact ⟨y, real, Or.inr agrees⟩
  | scalar d =>
    obtain ⟨rfl, -⟩ := pure_eq_ok.1 run
    exact ⟨rfl, fun _ _ => trivial⟩

end Scalar

/-! ## Multiples -/

/-- A form is the multiple of another one by an optional factor. -/
inductive Form.Multiple (s : Session) (f : FormId) : Option ScalarOperand → FormId → Prop
  | self : Multiple s f none f
  | one {factor : ScalarOperand} {c : ScalarId} {x : Scalar} (stands : factor.scalar? s = some c)
      (found : s.scalars.get? c = some x) (agrees : factor.Agrees x)
      (one : (x.value == some 1.0) = true) : Multiple s f (some factor) f
  | scaled {factor : ScalarOperand} {c : ScalarId} {x : Scalar} {g : FormId}
      (stands : factor.scalar? s = some c) (found : s.scalars.get? c = some x)
      (agrees : factor.Agrees x) (other : (x.value == some 1.0) = false)
      (reads : s.Reads g (.scaled c f)) : Multiple s f (some factor) g

namespace Form

variable {f g : FormId} {factor : Option ScalarOperand}

theorem Multiple.mono (multiple : Multiple s f factor g) (steps : s.Steps s') :
    Multiple s' f factor g := by
  cases multiple with
  | self => exact .self
  | one stands found agrees one =>
    exact .one (steps.scalar?_eq_some stands) (steps.extends.scalars found) agrees one
  | scaled stands found agrees other reads =>
    exact .scaled (steps.scalar?_eq_some stands) (steps.extends.scalars found) agrees other
      (steps.extends.reads reads)

/-- A form is multiplied by a scalar that is one, or the multiple is derived. -/
theorem scale_cases {factor : ScalarOperand} (run : scale factor f s = .ok g s') :
    ∃ c x mid, Scalar.ofOperand factor s = .ok c mid ∧ mid.Steps s' ∧
      mid.scalars.get? c = some x ∧
      ((x.value == some 1.0) = true ∧ g = f ∨
        (x.value == some 1.0) = false ∧ s'.Reads g (.scaled c f)) := by
  simp only [scale, bind_eq_ok, get_eq_ok, lift_eq_ok] at run
  obtain ⟨c, mid, operand, _, _, ⟨rfl, rfl⟩, x, _, ⟨found, rfl⟩, run⟩ := run
  have foundScalar := Arena.fetch_eq_ok_iff.1 found
  refine ⟨c, x, mid, operand, ?_⟩
  split at run
  · rename_i one
    obtain ⟨rfl, rfl⟩ := pure_eq_ok.1 run
    exact ⟨.refl, foundScalar, Or.inl ⟨one, rfl⟩⟩
  · rename_i other
    obtain ⟨a, _, ⟨foundForm, rfl⟩, run⟩ := by
      simpa only [bind_eq_ok, lift_eq_ok] using run
    have typed : mid.Typed a.space (.scaled c f) :=
      ⟨a, x, Arena.fetch_eq_ok_iff.1 foundForm, rfl, foundScalar⟩
    exact ⟨(derived_grows rfl fun _ _ => typed).steps run, foundScalar,
      Or.inr ⟨Bool.eq_false_iff.2 other, Session.reads_of_derived run⟩⟩

theorem scale_spec {factor : ScalarOperand} (run : scale factor f s = .ok g s') :
    Multiple s' f (some factor) g := by
  obtain ⟨c, x, mid, operand, steps, found, multiple⟩ := scale_cases run
  obtain ⟨stands, agrees⟩ := Scalar.ofOperand_spec operand
  have stands := steps.scalar?_eq_some stands
  have agrees := agrees x found
  have found := steps.extends.scalars found
  rcases multiple with ⟨one, rfl⟩ | ⟨other, reads⟩
  · exact .one stands found agrees one
  · exact .scaled stands found agrees other reads

end Form

/-! ## Valuations -/

/-- Values of the scalars in a ring and of the forms in a module over it. -/
structure Session.Valuation (s : Session) (R V : Type*) [CommRing R] [AddCommGroup V]
    [Module R V] where
  scalar : ScalarId → R
  form : FormId → V
  scalar_one : ∀ {c x}, s.scalars.get? c = some x → (x.value == some 1.0) = true → scalar c = 1
  form_scaled : ∀ {f c g}, s.Reads f (.scaled c g) → form f = scalar c • form g

namespace Session.Valuation

variable {R V : Type*} [CommRing R] [AddCommGroup V] [Module R V]

/-- The valuation in which all forms are zero. -/
instance : Inhabited (s.Valuation R V) where
  default := {
    scalar := fun _ => 1
    form := fun _ => 0
    scalar_one := fun _ _ => rfl
    form_scaled := fun _ => (smul_zero _).symm }

variable (I : s.Valuation R V)

/-- The value of an optional factor. -/
def factor : Option ScalarOperand → R
  | none => 1
  | some operand => ((operand.scalar? s).map I.scalar).getD 1

theorem form_multiple {f g : FormId} {factor : Option ScalarOperand}
    (multiple : Form.Multiple s f factor g) : I.form g = I.factor factor • I.form f := by
  cases multiple with
  | self => exact (one_smul R _).symm
  | one stands found _ one =>
    rw [Valuation.factor, stands, Option.map_some, Option.getD_some, I.scalar_one found one,
      one_smul]
  | scaled stands _ _ _ reads =>
    rw [Valuation.factor, stands, Option.map_some, Option.getD_some, I.form_scaled reads]

end Session.Valuation

end Variational
