import Variational.Term.Conversion
import Variational.WeakForm.Basic

/-!
# Algebraic systems

Every term of a weak formulation is converted into a product of arrays that
starts with the coefficient vector of its equation's test form. A term without
an algebraic representation is kept as it is, with a warning.
-/

namespace Variational

/-- A term of an algebraic system. -/
inductive AlgebraicTerm
  | product (p : Product)
  /-- A term that could not be converted. -/
  | symbolic (t : Term)
deriving DecidableEq, Repr

/-- What is known about the dependence of a term on the forms in it. -/
inductive Linearity
  | linear
  | nonlinear
  /-- The term was not converted. -/
  | unknown
deriving DecidableEq, Repr

/-- A converted term with the position of its source. -/
structure AlgebraicEntry where
  position : Position
  term : AlgebraicTerm
  linearity : Linearity
deriving DecidableEq, Repr

/-- The equations of a weak formulation in terms of arrays. -/
structure AlgebraicSystem where
  equations : List (Equation AlgebraicEntry)
  /-- The coefficient vectors of the unknowns. -/
  unknowns : List ArrayId
  /-- The coefficient vectors of the test forms. -/
  testVectors : List ArrayId
  /-- The coefficient vectors of all elementary forms. -/
  elementaryVectors : List ArrayId
deriving DecidableEq, Repr

namespace AlgebraicSystem

/-- Whether every term was converted into a linear product. -/
def isLinear (a : AlgebraicSystem) : Bool :=
  a.equations.all fun e => e.terms.all fun t => t.value.linearity = .linear

/-- Leaves a warning behind. -/
def warn (warning : Warning) : Derive Unit :=
  modify fun s => { s with warnings := s.warnings ++ [warning] }

/-- Converts a term. -/
def convertTerm (testForm : FormId) (position : Position) (t : Signed Term) :
    Derive (Signed AlgebraicEntry) := do
  match ← t.value.convert testForm with
  | .converted product =>
    let linear ← product.value.isLinear (← get)
    let linearity := if linear then .linear else .nonlinear
    return ⟨product.sign.compose t.sign, position, .product product.value, linearity⟩
  | .unsupported reason =>
    warn (.keptVerbatim position.text reason.text)
    return ⟨t.sign, position, .symbolic t.value, .unknown⟩

/-- Converts an equation, its left terms first. -/
def convertEquation (equation : Nat) (e : Equation Term) (testForm : FormId) :
    Derive (Equation AlgebraicEntry) := do
  let left ← e.left.zipIdx.mapM fun (t, j) => convertTerm testForm ⟨equation, j⟩ t
  let right ← e.right.zipIdx.mapM fun (t, j) =>
    convertTerm testForm ⟨equation, e.left.length + j⟩ t
  return ⟨left, right⟩

/-- The members of a list at their first occurrences. -/
def withoutRepetition {α : Type} [DecidableEq α] (xs : List α) : List α :=
  xs.foldl (fun seen x => if x ∈ seen then seen else seen ++ [x]) []

/-- The algebraic system of a weak formulation, which must have unknowns. -/
def create (w : WeakFormulation) : Derive AlgebraicSystem := do
  match w.unknowns with
  | none => reject (.state .noUnknowns)
  | some forms =>
    let unknowns ← forms.mapM RootArray.vector
    let testVectors ← w.testForms.mapM RootArray.vector
    let equations ← (w.equations.zip w.testForms).zipIdx.mapM fun ((e, testForm), i) =>
      convertEquation i e testForm
    let elementary ← w.elementaryForms (← get)
    let vectors ← elementary.ids.mapM RootArray.vector
    return { equations, unknowns, testVectors, elementaryVectors := withoutRepetition vectors }

/-- The entry at an address. -/
def entry (a : AlgebraicSystem) (address : String) : Outcome (Signed AlgebraicEntry) := do
  let position ← Position.read address
  match a.equations[position.equation]? with
  | none => reject (.index address (.equationCount a.equations.length))
  | some e =>
    match e.get? position.term with
    | none =>
      reject (.index address (.fewerTerms position.equation (Text.wordSum position.term 1)))
    | some entry => return entry

end AlgebraicSystem

end Variational
