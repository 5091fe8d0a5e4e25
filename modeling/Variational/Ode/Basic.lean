import Variational.WeakForm.Basic

/-!
# Ordinary differential equations in time

One equation of a weak formulation is an ordinary differential equation about
the only root form that its terms differentiate in time. Its terms are addressed
by their position, counted over the left terms and then the right ones.
-/

namespace Variational

/-- A term with the order and the pattern of a time derivative, if it is a recognized one. -/
structure OdeTerm where
  term : Term
  derivative : Option (Nat × TermPattern)
deriving DecidableEq, Repr

/-- An equation of terms that differentiate a single form in time. -/
structure Ode where
  equation : Equation OdeTerm
  /-- The root forms that the terms are built from. -/
  elementary : IdSet .form
  /-- The elementary forms that do not change in time. -/
  constants : IdSet .form
  /-- The form that the equation is about. -/
  about : FormId
  order : Nat
  testForm : FormId
deriving DecidableEq, Repr

namespace Ode

/-- The order of the time derivative that a pattern stands for. -/
def derivativeOrder : TermPattern → Option Nat
  | .timeDerivative => some 1
  | _ => none

/-- A term with its time derivative, if it is one. -/
def classify (s : Session) (t : Signed Term) : Outcome (Signed OdeTerm) := do
  let pattern ← t.value.pattern? s
  let derivative := do
    let p ← pattern
    return (← derivativeOrder p, p)
  return ⟨t.sign, t.value, derivative⟩

/-- The form that a recognized time derivative differentiates. -/
def differentiated? (s : Session) (t : OdeTerm) : Outcome (Option FormId) := do
  if t.derivative.isNone then
    return none
  match (← s.form t.term.f1).expr with
  | .unary .timeDerivative u => return some u
  | _ => return none

/-- The common test form of a list of terms. -/
def commonTestForm (s : Session) (terms : List Term) : Outcome FormId := do
  match ← terms.mapM fun t => t.testForm? s with
  | some v :: rest =>
    if rest.all (· == some v) then return v else reject (.structural .mixedTestForms)
  | _ => reject (.structural .mixedTestForms)

/-- The ordinary differential equation with the given terms. -/
def create (s : Session) (left right : List (Signed Term)) : Outcome Ode := do
  let equation : Equation OdeTerm := ⟨← left.mapM (classify s), ← right.mapM (classify s)⟩
  let terms := equation.terms.map (·.value)
  let differentiated := IdSet.ofList ((← terms.mapM (differentiated? s)).filterMap id)
  let about ← match differentiated.ids with
    | [] => reject (.pattern .noTimeDerivative)
    | [u] => pure u
    | several => do
      let forms ← several.mapM s.form
      reject (.pattern (.severalDifferentiated (forms.map (·.lin))))
  let testForm ← commonTestForm s (terms.map (·.term))
  let elementary := IdSet.unions (← terms.mapM fun t => t.term.elementaryForms s)
  let orders := terms.filterMap fun t => t.derivative.map (·.1)
  return {
    equation, elementary, about, testForm
    constants := IdSet.empty
    order := orders.foldl max 0 }

/-- Declares the elementary forms that do not change in time. -/
def withConstants (s : Session) (o : Ode) (forms : List FormId) : Outcome Ode := do
  forms.forM fun f => do
    if f ∉ o.elementary then
      reject (.structural (.notInOde (← s.form f).lin))
  return { o with constants := IdSet.ofList forms }

/-- The signed term of a term of the equation. -/
def plain (t : Signed OdeTerm) : Signed Term :=
  t.map OdeTerm.term

/-- The equation without the marks of time derivatives. -/
def plainEquation (o : Ode) : Equation Term :=
  ⟨o.equation.left.map plain, o.equation.right.map plain⟩

/-- The position and the term at an address. -/
def locate (o : Ode) (address : String) : Outcome (Nat × Signed OdeTerm) :=
  match Text.readIndex (Text.trim address.toList) with
  | none => reject (.index address .notAPosition)
  | some position =>
    match o.equation.get? position with
    | some term => .ok (position, term)
    | none => reject (.index address (.odeTermCount o.equation.size))

end Ode

/-- The ordinary differential equation that an equation of a weak formulation gives. -/
def WeakFormulation.ode (s : Session) (w : WeakFormulation) (equation : Nat) : Outcome Ode :=
  match w.equations[equation]? with
  | none => reject (.index s!"{equation}" (.equationCount w.equations.length))
  | some e => Ode.create s e.left e.right

end Variational
