import Mathlib
import Variational.Proofs.Multiples
import Variational.Proofs.Numbers

/-!
# Divisors and factors of forms

Only a request to divide a form by the id of the real scalar zero makes a form a quotient by
that scalar, and no request makes a form a multiple by the real scalar one. What every
derivation keeps is stated as a Hoare triple over the session, which is composed along the
operations that derivations are written with.
-/

namespace Variational

open Derive Std.Do

set_option mvcgen.warning false

/-! ## Zero and one -/

/-- The real scalar zero. -/
def Scalar.IsZero (c : Scalar) : Prop :=
  c.value.any (· == 0.0) = true

instance (c : Scalar) : Decidable c.IsZero :=
  inferInstanceAs (Decidable (_ = true))

theorem Scalar.not_isZero_of_value {c : Scalar} (abstract : c.value = none) : ¬ c.IsZero := by
  simp [IsZero, abstract]

theorem Scalar.beq_zero_congr {x y : Float} (same : (x == y) = true) :
    (x == 0.0) = (y == 0.0) := by
  rcases unpack_of_beq same with same | ⟨sign, sign', zero, zero'⟩
  · exact beq_congr same
  · rw [beq_zero_iff.2 ⟨sign, zero⟩, beq_zero_iff.2 ⟨sign', zero'⟩]

/-- The scalar of a number is zero if the number is. -/
theorem Scalar.isZero_of_ofNumber {s s' : Session} {x : Float} {id : ScalarId} {c : Scalar}
    (run : ofNumber x s = .ok id s') (found : s'.scalars.get? id = some c) :
    c.IsZero ↔ (x == 0.0) = true := by
  have operand : ofOperand (.number x) s = .ok id s' := run
  obtain ⟨y, value, agrees⟩ := (ofOperand_spec operand).2 c found
  rw [IsZero, value, Option.any_some]
  rcases agrees with rfl | same
  · rfl
  · rw [beq_zero_congr same]

/-- The real scalar one. -/
def Scalar.IsOne (c : Scalar) : Prop :=
  (c.value == some 1.0) = true

instance (c : Scalar) : Decidable c.IsOne :=
  inferInstanceAs (Decidable (_ = true))

/-! ## The invariant -/

/-- A scalar of the session that is not the real scalar zero. -/
def Session.NonZero (s : Session) (c : ScalarId) : Prop :=
  s.ScalarHas c fun x => ¬ x.IsZero

/-- What is asked of the scalar of an expression: a factor is not the real scalar one, and
where divisions by zero are left out, a divisor is not the real scalar zero. -/
def FormExpr.Guarded (careful : Prop) (scalars : Arena .scalar Scalar) : FormExpr → Prop
  | .quotient _ c => careful → ∃ x, scalars.get? c = some x ∧ ¬ x.IsZero
  | .scaled c _ => ∃ x, scalars.get? c = some x ∧ ¬ x.IsOne
  | _ => True

/-- Every form of a table is built with a scalar as it is asked for, and intervals have
abstract durations. -/
structure Guards (careful : Prop) (forms : FormTable) (scalars : Arena .scalar Scalar)
    (intervals : Arena .timeInterval TimeInterval) : Prop where
  forms : ∀ h a, forms.get? h = some a → a.expr.Guarded careful scalars
  durations : ∀ i t, intervals.get? i = some t →
    ∃ x, scalars.get? t.duration = some x ∧ x.value = none

variable {careful : Prop}

namespace FormExpr

variable {scalars scalars' : Arena .scalar Scalar}

theorem Guarded.mono {e : FormExpr} (guarded : e.Guarded careful scalars)
    (kept : ∀ c x, scalars.get? c = some x → scalars'.get? c = some x) :
    e.Guarded careful scalars' := by
  cases e with
  | quotient f c =>
    intro given
    obtain ⟨x, known, nonzero⟩ := guarded given
    exact ⟨x, kept c x known, nonzero⟩
  | scaled c f =>
    obtain ⟨x, known, other⟩ := guarded
    exact ⟨x, kept c x known, other⟩
  | _ => trivial

theorem Guarded.of_isLeaf {e : FormExpr} (leaf : e.isLeaf = true) :
    e.Guarded careful scalars := by
  cases e with
  | root => trivial
  | atInstant binding => trivial
  | _ => cases leaf

@[simp] theorem guarded_unary (op : UnaryOperator) (f : FormId) :
    (unary op f).Guarded careful scalars :=
  trivial

@[simp] theorem guarded_binary (op : BinaryOperator) (f g : FormId) :
    (binary op f g).Guarded careful scalars :=
  trivial

end FormExpr

namespace Guards

variable {forms : FormTable} {scalars : Arena .scalar Scalar}
  {intervals : Arena .timeInterval TimeInterval}

theorem divisors (guards : Guards True forms scalars intervals) (h : FormId) (a : Form)
    (f : FormId) (c : ScalarId) (found : forms.get? h = some a) (shape : a.expr = .quotient f c) :
    ∃ x, scalars.get? c = some x ∧ ¬ x.IsZero := by
  have guarded := guards.forms h a found
  rw [shape] at guarded
  exact guarded trivial

theorem pushScalar (guards : Guards careful forms scalars intervals) (c : Scalar) :
    Guards careful forms (scalars.push c) intervals where
  forms h a found := (guards.forms h a found).mono fun _ _ => Arena.get?_push_of_get?
  durations i t found := by
    obtain ⟨x, known, abstract⟩ := guards.durations i t found
    exact ⟨x, Arena.get?_push_of_get? known, abstract⟩

theorem addForm (guards : Guards careful forms scalars intervals) {f : Form}
    (holds : forms.Holds f.expr) (guarded : f.expr.Guarded careful scalars) :
    Guards careful (forms.add f holds) scalars intervals where
  forms h a found := by
    rcases Arena.get?_push_cases found with old | ⟨-, rfl⟩
    · exact guards.forms h a old
    · exact guarded
  durations := guards.durations

theorem pushInterval (guards : Guards careful forms scalars intervals) {t : TimeInterval}
    (abstract : ∃ x, scalars.get? t.duration = some x ∧ x.value = none) :
    Guards careful forms scalars (intervals.push t) where
  forms := guards.forms
  durations i t' found := by
    rcases Arena.get?_push_cases found with old | ⟨-, rfl⟩
    · exact guards.durations i t' old
    · exact abstract

end Guards

/-- No form of the session is a multiple by the real scalar one and, where divisions by zero
are left out, none is a quotient by the real scalar zero. -/
@[simp] def Session.Guarded (careful : Prop) (s : Session) : Prop :=
  Guards careful s.forms s.scalars s.timeIntervals

namespace Derive

variable {α β : Type}

/-- A derivation leaves a guarded session guarded, whether it succeeds or fails. -/
abbrev Keeps (careful : Prop) (m : Derive α) : Prop :=
  ⦃fun s => ⌜s.Guarded careful⌝⦄ m
  ⦃post⟨fun _ s => ⌜s.Guarded careful⌝, fun _ s => ⌜s.Guarded careful⌝⟩⦄

@[spec] theorem lift_spec {o : Outcome α} {s₀ : Session} :
    ⦃fun s => ⌜s = s₀⌝⦄ (MonadLift.monadLift o : Derive α)
    ⦃post⟨fun a s => ⌜s = s₀ ∧ o = .ok a⌝, fun _ s => ⌜s = s₀⌝⟩⦄ := by
  rintro s rfl
  cases o with
  | ok a => exact ⟨rfl, rfl⟩
  | error failure => rfl

theorem triple_iff {m : Derive α} {P : Session → Prop} {Q : α → Session → Prop}
    {E : Session → Prop} :
    ⦃fun s => ⌜P s⌝⦄ m ⦃post⟨fun a s => ⌜Q a s⌝, fun _ s => ⌜E s⌝⟩⦄ ↔
      ∀ s, P s → (∀ a s', m s = .ok a s' → Q a s') ∧ ∀ e s', m s = .error e s' → E s' := by
  constructor
  · intro triple s given
    have holds := triple s given
    simp only [WP.wp, PredTrans.apply, EStateM.run] at holds
    constructor
    · intro a s' run
      simpa [run] using holds
    · intro e s' run
      simpa [run] using holds
  · intro each s given
    obtain ⟨ok, error⟩ := each s given
    simp only [WP.wp, PredTrans.apply, EStateM.run]
    cases run : m s with
    | ok a s' => exact ok a s' run
    | error e s' => exact error e s' run

theorem guarded_after {m : Derive α} {P : Session → Prop} {s : Session}
    (keeps : ⦃fun s => ⌜P s⌝⦄ m
      ⦃post⟨fun _ s => ⌜s.Guarded careful⌝, fun _ s => ⌜s.Guarded careful⌝⟩⦄)
    (given : P s) : (m.after s).Guarded careful := by
  obtain ⟨ok, error⟩ := triple_iff.1 keeps s given
  rw [Derive.after]
  cases run : m s with
  | ok a s' => exact ok a s' run
  | error e s' => exact error e s' run

/-- What a derivation establishes about its result holds besides the invariant. -/
theorem Keeps.and {m : Derive α} {P : α → Session → Prop} (keeps : m.Keeps careful)
    (spec : ∀ {s a s'}, m s = .ok a s' → P a s') :
    ⦃fun s => ⌜s.Guarded careful⌝⦄ m
    ⦃post⟨fun a s => ⌜s.Guarded careful ∧ P a s⌝, fun _ s => ⌜s.Guarded careful⌝⟩⦄ := by
  refine triple_iff.2 fun s guarded => ?_
  obtain ⟨ok, error⟩ := triple_iff.1 keeps s guarded
  exact ⟨fun a s' run => ⟨ok a s' run, spec run⟩, error⟩

/-- Expressions that are guarded stay so. -/
theorem Keeps.expressions {m : Derive α} (keeps : m.Keeps careful) (grows : ∀ {s}, m.Grows s)
    {s₀ : Session} :
    ⦃fun s => ⌜s = s₀ ∧ s.Guarded careful⌝⦄ m
    ⦃post⟨fun _ s => ⌜s.Guarded careful ∧
      ∀ e : FormExpr, e.Guarded careful s₀.scalars → e.Guarded careful s.scalars⌝,
      fun _ s => ⌜s.Guarded careful⌝⟩⦄ := by
  refine triple_iff.2 fun s ⟨same, guarded⟩ => ?_
  subst same
  obtain ⟨ok, error⟩ := triple_iff.1 keeps s guarded
  exact ⟨fun a s' run => ⟨ok a s' run, fun e guarded =>
    guarded.mono fun c x => (grows.extends run).scalars⟩,
    error⟩

theorem mapM_keeps (careful : Prop) {f : α → Derive β} (each : ∀ a, (f a).Keeps careful)
    (l : List α) :
    (l.mapM f).Keeps careful := by
  induction l with
  | nil => mvcgen
  | cons a l ih =>
    rw [List.mapM_cons]
    mvcgen [each, ih]

theorem foldlM_keeps (careful : Prop) {f : β → α → Derive β}
    (each : ∀ b a, (f b a).Keeps careful) (l : List α) (b : β) :
    (l.foldlM f b).Keeps careful := by
  induction l generalizing b with
  | nil =>
    rw [List.foldlM_nil]
    mvcgen
  | cons a l ih =>
    rw [List.foldlM_cons]
    exact Triple.bind _ _ (each b a) ih

theorem forM_keeps (careful : Prop) {f : α → Derive PUnit} (each : ∀ a, (f a).Keeps careful)
    (l : List α) :
    (l.forM f).Keeps careful := by
  induction l with
  | nil => mvcgen [List.forM]
  | cons a l ih => exact Triple.bind _ _ (each a) fun _ => ih

end Derive

/-! ## Meshes and spaces -/

@[spec] theorem Manifold.create_keeps (ndim : Nat) : (create ndim).Keeps careful := by
  mvcgen [create, register] <;> simp_all

@[spec] theorem Manifold.boundary_keeps (id : ManifoldId) : (boundary id).Keeps careful := by
  mvcgen [boundary, register] <;> simp_all

@[spec] theorem Mesh.coverAs_keeps (manifold : ManifoldId) (labels : Labels) :
    (coverAs manifold labels).Keeps careful := by
  mvcgen [coverAs, register] <;> simp_all

@[spec] theorem Mesh.cover_keeps (manifold : ManifoldId) : (cover manifold).Keeps careful := by
  mvcgen [cover]

@[spec] theorem Mesh.boundary_keeps (id : MeshId) : (boundary id).Keeps careful := by
  mvcgen [boundary, register] <;> simp_all

namespace Space

@[spec] theorem setDegree_keeps (id : SpaceId) (d : Nat) : (setDegree id d).Keeps careful := by
  mvcgen [setDegree] <;> simp_all

@[spec] theorem withDegree_keeps (mesh : MeshId) (k : Nat) (orientation : Orientation)
    (degree : Option Nat) : (withDegree mesh k orientation degree).Keeps careful := by
  mvcgen [withDegree] <;> simp_all

@[spec] theorem on_keeps (mesh : MeshId) (k : Nat) (orientation : Orientation) :
    (on mesh k orientation).Keeps careful :=
  withDegree_keeps mesh k orientation none

@[spec] theorem makeFinite_keeps (d : Nat) : (makeFinite d).Keeps careful := by
  have each := forM_keeps careful fun i : Nat => setDegree_keeps ⟨i⟩ d
  mvcgen [makeFinite, each]

@[spec] theorem derivative_keeps (source : SpaceId) : (derivative source).Keeps careful := by
  mvcgen [derivative] <;> simp_all

@[spec] theorem codifferential_keeps (source : SpaceId) :
    (codifferential source).Keeps careful := by
  mvcgen [codifferential] <;> simp_all

@[spec] theorem hodge_keeps (source : SpaceId) : (hodge source).Keeps careful := by
  mvcgen [hodge] <;> simp_all

@[spec] theorem trace_keeps (source : SpaceId) : (trace source).Keeps careful := by
  mvcgen [trace] <;> simp_all

@[spec] theorem wedge_keeps (left right : SpaceId) : (wedge left right).Keeps careful := by
  mvcgen [wedge] <;> simp_all

end Space

/-! ## Scalars, times and arrays -/

namespace Scalar

@[spec] theorem register_keeps (labels : Labels) (value : Option Float) :
    (register labels value).Keeps careful := by
  mvcgen [register] <;> simp_all [Guards.pushScalar]

theorem ofNumber_keeps (x : Float) : (ofNumber x).Keeps careful := by
  mvcgen [ofNumber] <;> simp_all

@[spec] theorem ofNumber_spec_keeps (x : Float) :
    ⦃fun s => ⌜s.Guarded careful⌝⦄ ofNumber x
    ⦃post⟨fun id s => ⌜s.Guarded careful ∧ ∀ c, s.scalars.get? id = some c →
      (c.IsZero ↔ (x == 0.0) = true)⌝, fun _ s => ⌜s.Guarded careful⌝⟩⦄ :=
  (ofNumber_keeps x).and fun run _ found => isZero_of_ofNumber run found

@[spec] theorem unit_keeps : unit.Keeps careful :=
  ofNumber_keeps 1.0

theorem abstract_keeps (labels : Labels) : (abstract labels).Keeps careful := by
  mvcgen [abstract] <;> simp_all

@[spec] theorem derived_keeps (labels : Labels) : (derived labels).Keeps careful := by
  mvcgen [derived]
  simp_all [Guards.pushScalar]

@[spec] theorem ofOperand_keeps (operand : ScalarOperand) : (ofOperand operand).Keeps careful := by
  cases operand with
  | number x => exact ofNumber_keeps x
  | scalar id => mvcgen [ofOperand]

@[spec] theorem add_keeps (lhs rhs : ScalarOperand) : (add lhs rhs).Keeps careful := by
  mvcgen [add] <;> simp_all

@[spec] theorem div_keeps (lhs rhs : ScalarOperand) : (div lhs rhs).Keeps careful := by
  mvcgen [div] <;> simp_all

@[spec] theorem abstract_spec_keeps (labels : Labels) :
    ⦃fun s => ⌜s.Guarded careful⌝⦄ abstract labels
    ⦃post⟨fun id s => ⌜s.Guarded careful ∧ ∃ c, s.scalars.get? id = some c ∧ c.value = none⌝,
      fun _ s => ⌜s.Guarded careful⌝⟩⦄ :=
  (abstract_keeps labels).and fun run => (abstract_spec run).2.2.2

end Scalar

namespace TimeSequence

@[spec] theorem createAs_keeps (labels : Labels) : (createAs labels).Keeps careful := by
  mvcgen [createAs] <;> simp_all

@[spec] theorem create_keeps : create.Keeps careful := by
  mvcgen [create]

@[spec] theorem specify_keeps (sequence : TimeSequenceId) (rule : Stepping) :
    (specify sequence rule).Keeps careful := by
  mvcgen [specify] <;> simp_all

end TimeSequence

@[spec] theorem TimeInstant.atKey_keeps (sequence : TimeSequenceId) (key : String) :
    (atKey sequence key).Keeps careful := by
  mvcgen [atKey] <;> simp_all

namespace TimeInterval

@[spec] theorem between_keeps (start stop : TimeInstantId) :
    (between start stop).Keeps careful := by
  mvcgen [between] <;> simp_all
  rename_i kept
  exact kept.1.pushInterval kept.2

@[spec] theorem atKeys_keeps (sequence : TimeSequenceId) (startKey stopKey : String) :
    (atKeys sequence startKey stopKey).Keeps careful := by
  mvcgen [atKeys]

end TimeInterval

namespace RootArray

@[spec] theorem register_keeps (array : RootArray) : (register array).Keeps careful := by
  mvcgen [register]
  simp_all

@[spec] theorem registerNumbered_keeps (array : RootArray) :
    (registerNumbered array).Keeps careful := by
  mvcgen [registerNumbered]

@[spec] theorem vector_keeps (f : FormId) : (vector f).Keeps careful := by
  mvcgen [vector] <;> simp_all

@[spec] theorem massMatrix_keeps (space : SpaceId) : (massMatrix space).Keeps careful := by
  mvcgen [massMatrix] <;> simp_all

@[spec] theorem incidenceMatrix_keeps (space : SpaceId) :
    (incidenceMatrix space).Keeps careful := by
  mvcgen [incidenceMatrix] <;> simp_all

@[spec] theorem wedgeVector_keeps (f : FormId) (space : SpaceId) :
    (wedgeVector f space).Keeps careful := by
  mvcgen [wedgeVector] <;> simp_all

end RootArray

@[spec] theorem Product.single_keeps (array : ArrayId) : (single array).Keeps careful := by
  mvcgen [single] <;> simp_all

/-! ## Forms -/

namespace Form

/-- Recording a form keeps the invariant unless it is a quotient by zero. -/
@[spec] theorem record_keeps (f : Form) :
    ⦃fun s => ⌜s.Guarded careful ∧ f.expr.Guarded careful s.scalars⌝⦄ record f
    ⦃post⟨fun _ s => ⌜s.Guarded careful⌝, fun _ s => ⌜s.Guarded careful⌝⟩⦄ := by
  mvcgen [record] <;> simp_all
  rename_i given _
  exact given.1.addForm _ given.2

theorem register_keeps (space : SpaceId) (labels : Labels) {expr : FormExpr}
    (leaf : expr.isLeaf = true) : (register space labels expr).Keeps careful := by
  mvcgen [register] <;> simp_all [FormExpr.Guarded.of_isLeaf]

@[spec] theorem root_keeps (space : SpaceId) (labels : Labels) :
    (root space labels).Keeps careful := by
  mvcgen [root, register_keeps] <;> simp_all [FormExpr.isLeaf]

@[spec] theorem derived_keeps (space : SpaceId) (labels : Labels) (expr : FormExpr) :
    ⦃fun s => ⌜s.Guarded careful ∧ expr.Guarded careful s.scalars⌝⦄
    derived space labels expr
    ⦃post⟨fun _ s => ⌜s.Guarded careful⌝, fun _ s => ⌜s.Guarded careful⌝⟩⦄ := by
  mvcgen [derived]
  simp_all

@[spec] theorem add_keeps (f g : FormId) : (add f g).Keeps careful := by
  mvcgen [add] <;> simp_all

@[spec] theorem sub_keeps (f g : FormId) : (sub f g).Keeps careful := by
  mvcgen [sub] <;> simp_all

@[spec] theorem scale_keeps (factor : ScalarOperand) (f : FormId) :
    (scale factor f).Keeps careful := by
  mvcgen [scale] <;> simp_all
  rename_i x _ _ _ _ _ other fetched _
  exact ⟨x, Arena.fetch_eq_ok_iff.1 fetched.2, by simp [Scalar.IsOne, other]⟩

@[spec] theorem unarySpace_keeps (op : UnaryOperator) (space : SpaceId) :
    (unarySpace op space).Keeps careful := by
  cases op with
  | timeDerivative => mvcgen [unarySpace]
  | _ => mvcgen [unarySpace]

@[spec] theorem apply_keeps (op : UnaryOperator) (f : FormId) : (apply op f).Keeps careful := by
  mvcgen [apply] <;> simp_all

@[spec] theorem wedge_keeps (f g : FormId) : (wedge f g).Keeps careful := by
  mvcgen [wedge] <;> simp_all

@[spec] theorem combine_keeps (op : BinaryOperator) (f g : FormId) :
    (combine op f g).Keeps careful := by
  cases op <;> mvcgen [combine]

@[spec] theorem evaluateAt_keeps (f : FormId) (instant : TimeInstantId) :
    (evaluateAt f instant).Keeps careful := by
  mvcgen [evaluateAt, register_keeps] <;> simp_all [FormExpr.isLeaf]

/-- A form is only divided by zero by the id of the real scalar zero. -/
@[spec] theorem divisorScalar_keeps (f : FormId) (amount : Divisor) :
    ⦃fun s => ⌜s.Guarded careful ∧ ∀ c, amount = .scalar c → careful →
      ∀ x, s.scalars.get? c = some x → ¬ x.IsZero⌝⦄ divisorScalar f amount
    ⦃post⟨fun c s => ⌜s.Guarded careful ∧
      (careful → ∀ x, s.scalars.get? c = some x → ¬ x.IsZero)⌝,
      fun _ s => ⌜s.Guarded careful⌝⟩⦄ := by
  cases amount with
  | number x => mvcgen [divisorScalar] <;> simp_all
  | scalar c =>
    mvcgen [divisorScalar]
    simp_all
  | interval i =>
    mvcgen [divisorScalar] <;> simp_all
    rename_i interval _ guarded fetched
    intro _ x found
    obtain ⟨y, known, abstract⟩ := guarded.durations i interval (Arena.fetch_eq_ok_iff.1 fetched.2)
    cases known.symm.trans found
    exact Scalar.not_isZero_of_value abstract

@[spec] theorem divide_keeps (f : FormId) (amount : Divisor) :
    ⦃fun s => ⌜s.Guarded careful ∧ ∀ c, amount = .scalar c → careful →
      ∀ x, s.scalars.get? c = some x → ¬ x.IsZero⌝⦄ divide f amount
    ⦃post⟨fun _ s => ⌜s.Guarded careful⌝, fun _ s => ⌜s.Guarded careful⌝⟩⦄ := by
  mvcgen [divide] <;> simp_all
  rename_i x _ _ divisor _ fetched
  have found := Arena.fetch_eq_ok_iff.1 fetched.2
  exact fun given => ⟨x, found, divisor.2 given x found⟩

theorem substitute_keeps (target replacement f : FormId) :
    (substitute target replacement f).Keeps careful := by
  -- operands stand before the form, so the induction is on its index
  induction index : f.index using Nat.strongRecOn generalizing f with
  | _ i ih =>
    subst index
    have smaller : ∀ (g : FormId) (s₀ : Session), g.index < f.index →
        ⦃fun s => ⌜s = s₀ ∧ s.Guarded careful⌝⦄ substitute target replacement g
        ⦃post⟨fun _ s => ⌜s.Guarded careful ∧
          ∀ e : FormExpr, e.Guarded careful s₀.scalars → e.Guarded careful s.scalars⌝,
          fun _ s => ⌜s.Guarded careful⌝⟩⦄ := fun g s₀ below =>
      (ih g.index below g rfl).expressions (substitute_grows target replacement g)
    rw [substitute]
    mvcgen [smaller] <;> simp_all
    · exact FormTable.operands_lt (by assumption) (by simp [*, FormExpr.operands])
    · exact FormTable.operands_lt (by assumption) (by simp [*, FormExpr.operands])
    · exact FormTable.operands_lt (by assumption) (by simp [*, FormExpr.operands])
    · exact FormTable.operands_lt (by assumption) (by simp [*, FormExpr.operands])
    · -- a quotient is rebuilt with the divisor that it has, which is not zero
      rename_i guarded _ found shape _ later
      intro given y known
      have guarded' := guarded.forms _ _ found
      rw [shape] at guarded'
      obtain ⟨x, known', nonzero⟩ := later.2 _ guarded' given
      cases known.symm.trans known'
      exact nonzero
    · exact FormTable.operands_lt (by assumption) (by simp [*, FormExpr.operands])

@[spec] theorem replace_keeps (f target replacement : FormId) :
    (replace f target replacement).Keeps careful := by
  mvcgen [replace, substitute_keeps] <;> simp_all

end Form

/-! ## Terms and formulations -/

namespace Term

@[spec] theorem replace_keeps (t : Term) (target replacement : FormId) :
    (t.replace target replacement).Keeps careful := by
  mvcgen [Term.replace] <;> simp_all

@[spec] theorem splitFactor_keeps (f : FormId) : (splitFactor f).Keeps careful := by
  mvcgen [splitFactor] <;> simp_all

@[spec] theorem formChain_keeps (g : FormId) : (formChain g).Keeps careful := by
  mvcgen [formChain] <;> simp_all

@[spec] theorem testChain_keeps (t : Term) (testForm : FormId) :
    (t.testChain testForm).Keeps careful := by
  mvcgen [testChain] <;> simp_all

@[spec] theorem convert_keeps (t : Term) (testForm : FormId) :
    (t.convert testForm).Keeps careful := by
  rw [convert]
  cases t.kind with
  | innerProduct => mvcgen [convertInnerProduct] <;> simp_all
  | dualityPairing => mvcgen [convertPairing] <;> simp_all

@[spec] theorem greenTerms_keeps (a b : FormId) : (greenTerms a b).Keeps careful := by
  mvcgen [greenTerms] <;> simp_all

end Term

@[spec] theorem Piece.term_keeps (piece : Piece) (t : Signed Term) (slot : Slot) :
    (piece.term t slot).Keeps careful := by
  mvcgen [Piece.term] <;> simp_all

namespace WeakFormulation

@[spec] theorem integrateByParts_keeps (w : WeakFormulation) (address : String) :
    (w.integrateByParts address).Keeps careful := by
  mvcgen [integrateByParts] <;> simp_all

@[spec] theorem split_keeps (w : WeakFormulation) (address : String) (slot : Slot)
    (forms : List FormId) (signs : List Sign) (factors : Option (List ScalarOperand)) :
    (w.split address slot forms signs factors).Keeps careful := by
  have pieces := fun t => mapM_keeps careful fun piece : Piece => piece.term_keeps t slot
  mvcgen [split, pieces] <;> simp_all

end WeakFormulation

namespace Pde

@[spec] theorem testEquation_keeps (e : Equation FormId) (space : SpaceId) (labels : Labels) :
    (testEquation e space labels).Keeps careful := by
  mvcgen [testEquation] <;> simp_all

@[spec] theorem test_keeps (p : Pde) (spaces : List SpaceId) (labels : List Labels) :
    (p.test spaces labels).Keeps careful := by
  have equations := mapM_keeps careful fun x : (Equation FormId × SpaceId) × Labels =>
    testEquation_keeps x.1.1 x.1.2 x.2
  mvcgen [test, equations] <;> simp_all

@[spec] theorem portHamiltonian_keeps (n p : Nat) : (portHamiltonian n p).Keeps careful := by
  mvcgen [portHamiltonian] <;> simp_all

end Pde

/-! ## Algebraic systems and block systems -/

namespace AlgebraicSystem

@[spec] theorem convertTerm_keeps (testForm : FormId) (position : Position) (t : Signed Term) :
    (convertTerm testForm position t).Keeps careful := by
  mvcgen [convertTerm, warn] <;> simp_all

@[spec] theorem convertEquation_keeps (equation : Nat) (e : Equation Term) (testForm : FormId) :
    (convertEquation equation e testForm).Keeps careful := by
  have terms (position : Nat → Position) := mapM_keeps careful fun x : Signed Term × Nat =>
    convertTerm_keeps testForm (position x.2) x.1
  have left := terms fun j => ⟨equation, j⟩
  have right := terms fun j => ⟨equation, e.left.length + j⟩
  mvcgen [convertEquation, left, right]

@[spec] theorem create_keeps (w : WeakFormulation) : (create w).Keeps careful := by
  have equations := mapM_keeps careful fun x : (Equation Term × FormId) × Nat =>
    convertEquation_keeps x.2 x.1.1 x.1.2
  have vectors := mapM_keeps careful RootArray.vector_keeps
  mvcgen [create, equations, vectors] <;> simp_all

end AlgebraicSystem

@[spec] theorem Target.array?_keeps (target : Target) : target.array?.Keeps careful := by
  cases target with
  | form f => exact RootArray.vector_keeps f
  | array a => mvcgen [Target.array?]

@[spec] theorem BlockVector.ofArrays_keeps (arrays : List ArrayId) :
    (ofArrays arrays).Keeps careful := by
  refine foldlM_keeps careful (fun v x => ?_) _ _
  mvcgen <;> simp_all

namespace BlockSystem

@[spec] theorem gather_keeps (b : BlockSystem) (targets : List Target) :
    (b.gather targets).Keeps careful := by
  have arrays := mapM_keeps careful Target.array?_keeps
  mvcgen [gather, arrays] <;> simp_all

@[spec] theorem ofAlgebraic_keeps (a : AlgebraicSystem) : (ofAlgebraic a).Keeps careful := by
  mvcgen [ofAlgebraic] <;> simp_all

@[spec] theorem create_keeps (w : WeakFormulation) : (create w).Keeps careful := by
  mvcgen [create]

end BlockSystem

/-! ## Discretizations -/

namespace Discretize

variable {α β : Type}

/-- A discretization step leaves a guarded session guarded, whether it succeeds or fails. -/
abbrev Keeps (careful : Prop) (m : Discretize α) : Prop :=
  ⦃fun w => ⌜w.session.Guarded careful⌝⦄ m
  ⦃post⟨fun _ w => ⌜w.session.Guarded careful⌝, fun _ w => ⌜w.session.Guarded careful⌝⟩⦄

theorem derive_keeps (careful : Prop) {m : Derive α} (keeps : m.Keeps careful) :
    (MonadLift.monadLift m : Discretize α).Keeps careful := by
  intro w guarded
  obtain ⟨ok, error⟩ := triple_iff.1 keeps w.session guarded
  simp only [WP.wp, PredTrans.apply, EStateM.run, MonadLift.monadLift]
  cases run : m w.session with
  | ok a s' => exact ok a s' run
  | error e s' => exact error e s' run

@[spec] theorem lift_keeps (o : Outcome α) :
    (MonadLift.monadLift (MonadLift.monadLift o : Derive α) : Discretize α).Keeps careful := by
  refine derive_keeps careful ?_
  mvcgen <;> simp_all

theorem mapM_keeps (careful : Prop) {f : α → Discretize β} (each : ∀ a, (f a).Keeps careful)
    (l : List α) :
    (l.mapM f).Keeps careful := by
  induction l with
  | nil => mvcgen
  | cons a l ih =>
    rw [List.mapM_cons]
    mvcgen [each, ih]

end Discretize

namespace Plan

@[spec] theorem declareKey_keeps (sequence : TimeSequenceId) (key : String) :
    (declareKey sequence key).Keeps careful := by
  have instant := Discretize.derive_keeps careful (TimeInstant.atKey_keeps sequence key)
  mvcgen [declareKey, update, instant]

@[spec] theorem declare_keeps (keys : List String) : (declare keys).Keeps careful := by
  have each := fun sequence => Discretize.mapM_keeps careful (declareKey_keeps sequence)
  mvcgen [declare, update, each]

@[spec] theorem differenceQuotient_keeps (u : FormId) (start stop : TimeInstantId) :
    (differenceQuotient u start stop).Keeps careful := by
  mvcgen [differenceQuotient]
  simp_all

@[spec] theorem differentiate_keeps (position : Position) (term : Signed Term)
    (start stop : String) : (differentiate position term start stop).Keeps careful := by
  have quotient := fun u start stop =>
    Discretize.derive_keeps careful (differenceQuotient_keeps u start stop)
  mvcgen [differentiate, update, quotient]

@[spec] theorem mean_keeps (first : FormId) (others : List FormId) :
    (mean first others).Keeps careful := by
  refine Triple.bind _ _ (foldlM_keeps careful Form.add_keeps others first) fun sum => ?_
  mvcgen
  simp_all

@[spec] theorem average_keeps (position : Position) (term : Signed Term) (f : FormId)
    (keys : List String) : (average position term f keys).Keeps careful := by
  have evaluations := fun instants =>
    Discretize.derive_keeps careful (Derive.mapM_keeps careful (Form.evaluateAt_keeps f) instants)
  have means := fun first others => Discretize.derive_keeps careful (mean_keeps first others)
  have replaced := fun t target new =>
    Discretize.derive_keeps careful (Term.replace_keeps t target new)
  mvcgen [average, update, evaluations, means, replaced]

end Plan

namespace DiscretizationSource

@[spec] theorem newSequence_keeps : newSequence.Keeps careful := by
  have sequence := Discretize.derive_keeps careful TimeSequence.create_keeps
  mvcgen [newSequence, setSequence, sequence]

@[spec] theorem differentiate_keeps (source : DiscretizationSource) (address start stop : String) :
    (source.differentiate address start stop).Keeps careful := by
  mvcgen [differentiate]

@[spec] theorem average_keeps (source : DiscretizationSource) (address : String) (f : FormId)
    (keys : List String) : (source.average address f keys).Keeps careful := by
  mvcgen [average]

end DiscretizationSource

/-! ## Runs -/

theorem Derive.discard_keeps {α : Type} {m : Derive α} {P : Session → Prop}
    (keeps : ⦃fun s => ⌜P s⌝⦄ m
      ⦃post⟨fun _ s => ⌜s.Guarded careful⌝, fun _ s => ⌜s.Guarded careful⌝⟩⦄) :
    ⦃fun s => ⌜P s⌝⦄ (Functor.discard m : Derive Unit)
    ⦃post⟨fun _ s => ⌜s.Guarded careful⌝, fun _ s => ⌜s.Guarded careful⌝⟩⦄ := by
  refine triple_iff.2 fun s given => ?_
  obtain ⟨ok, error⟩ := triple_iff.1 keeps s given
  simp only [Functor.discard, Functor.mapConst, Function.comp_apply, EStateM.map]
  cases run : m s with
  | ok a s' => simpa using ok a s' run
  | error e s' => simpa using error e s' run

namespace Discretize.Keeps

variable {α : Type} {m : Discretize α}

theorem discard (keeps : m.Keeps careful) :
    (Functor.discard m : Discretize Unit).Keeps careful := by
  intro w guarded
  have kept := keeps w guarded
  simp only [WP.wp, PredTrans.apply, EStateM.run, Functor.discard, Functor.mapConst,
    Function.comp_apply, EStateM.map] at kept ⊢
  cases run : m w with
  | ok a w' => simpa only [run] using kept
  | error e w' => simpa only [run] using kept

theorem onSession (keeps : m.Keeps careful) (plan : Plan) : (m.onSession plan).Keeps careful := by
  intro s guarded
  have kept := keeps ⟨s, plan⟩ guarded
  simp only [WP.wp, PredTrans.apply, EStateM.run, Discretize.onSession] at kept ⊢
  cases run : m ⟨s, plan⟩ with
  | ok a w' => simpa only [run] using kept
  | error e w' => simpa only [run] using kept

end Discretize.Keeps

theorem DiscretizationRequest.perform_keeps (request : DiscretizationRequest) :
    request.perform.Keeps careful := by
  cases request with
  | newSequence => exact .discard DiscretizationSource.newSequence_keeps
  | declare keys => exact .discard (Plan.declare_keeps keys)
  | differentiate source address start stop => exact source.differentiate_keeps address start stop
  | average source address f keys => exact source.average_keeps address f keys

/-- A request to divide a form by the id of the real scalar zero. -/
def Request.DividesByZero (s : Session) : Request → Prop
  | .quotient _ (.scalar c) => s.ScalarHas c Scalar.IsZero
  | _ => False

namespace Request

theorem perform_keeps (request : Request) (other : ∀ f c, request ≠ .quotient f (.scalar c)) :
    request.perform.Keeps careful := by
  cases request with
  | quotient f amount =>
    -- numbers are checked for zero, and durations are abstract
    have unchecked (amount : Divisor) (other : ∀ c, amount ≠ .scalar c) :
        (Form.divide f amount).Keeps careful := by
      mvcgen
      simp_all
    cases amount with
    | scalar c => exact absurd rfl (other f c)
    | number x => exact discard_keeps (unchecked (.number x) nofun)
    | interval i => exact discard_keeps (unchecked (.interval i) nofun)
  | degree sp d => exact Space.setDegree_keeps sp d
  | degrees d => exact Space.makeFinite_keeps d
  | specification t rule => exact TimeSequence.specify_keeps t rule
  | discretization plan request => exact request.perform_keeps.onSession plan
  | scalar labels => exact discard_keeps (Scalar.abstract_keeps labels)
  | number x => exact discard_keeps (Scalar.ofNumber_keeps x)
  | _ => exact discard_keeps (by mvcgen)

/-- A request leaves a guarded session guarded unless it divides a form by the id of zero where
that is left out. -/
theorem after_guarded {s : Session} (request : Request)
    (safe : careful → ¬ request.DividesByZero s)
    (guarded : s.Guarded careful) : (request.perform.after s).Guarded careful := by
  by_cases given : ∃ f c, request = .quotient f (.scalar c)
  · obtain ⟨f, c, rfl⟩ := given
    refine guarded_after (discard_keeps (Form.divide_keeps f (.scalar c))) ⟨guarded, ?_⟩
    rintro d ⟨⟩ given x found zero
    exact safe given ⟨x, found, zero⟩
  · exact guarded_after (perform_keeps request (by simpa using given)) guarded

end Request

/-- The sessions that requests lead to, none of which divides a form by the id of the real
scalar zero. -/
inductive Session.Careful (settings : Settings) : Session → Prop
  | new : Careful settings (Session.new settings)
  | request {s : Session} (careful : Careful settings s) (request : Request)
    (safe : ¬ request.DividesByZero s) : Careful settings (request.perform.after s)

theorem Session.guarded_new (settings : Settings) : (Session.new settings).Guarded careful :=
  ⟨fun _ _ found => (nomatch found), fun _ _ found => (nomatch found)⟩

namespace Session.Careful

variable {settings : Settings} {s : Session}

theorem guarded (careful : Careful settings s) : s.Guarded True := by
  induction careful with
  | new => exact guarded_new settings
  | request _ request safe ih => exact request.after_guarded (fun _ => safe) ih

theorem afterAll (careful : Careful settings s) {requests : List Request}
    (others : ∀ request ∈ requests, ∀ f c, request ≠ .quotient f (.scalar c)) :
    Careful settings (s.afterAll requests) := by
  induction requests generalizing s with
  | nil => exact careful
  | cons request requests ih =>
    rw [List.forall_mem_cons] at others
    refine ih (careful.request request fun divides => ?_) others.2
    unfold Request.DividesByZero at divides
    split at divides
    · exact others.1 _ _ rfl
    · exact divides

/-- A list of requests without divisions of forms by ids of scalars leads to such a session. -/
theorem performAll (settings : Settings) {requests : List Request}
    (others : ∀ request ∈ requests, ∀ f c, request ≠ .quotient f (.scalar c)) :
    Careful settings (Request.performAll settings requests) :=
  afterAll .new others

end Session.Careful

theorem Session.Reachable.guarded {settings : Settings} {s : Session}
    (reachable : Session.Reachable settings s) : s.Guarded False := by
  induction reachable with
  | new => exact guarded_new settings
  | request _ request ih => exact request.after_guarded False.elim ih

/-- No form is a multiple by the real scalar one. -/
theorem Session.Reachable.factor_ne_one {settings : Settings} {s : Session} {h f : FormId}
    {c : ScalarId} (reachable : Session.Reachable settings s) (read : s.Reads h (.scaled c f)) :
    s.ScalarHas c fun x => ¬ x.IsOne := by
  obtain ⟨a, found, shape⟩ := read
  have guarded := reachable.guarded.forms h a found
  rwa [shape] at guarded

end Variational
