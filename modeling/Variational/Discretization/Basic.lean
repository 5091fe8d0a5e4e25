import Variational.Discretization.Plan
import Variational.Ode.Basic

/-!
# Time discretizations

A discretization starts from an ordinary differential equation, whose terms have
addresses `j`, or from a weak formulation, whose terms have addresses `i-j`. It
ends with a weak formulation in which the terms that were edited are replaced.
-/

namespace Variational

/-- What a discretization starts from. -/
inductive DiscretizationSource
  | ode (o : Ode)
  | formulation (w : WeakFormulation)
deriving DecidableEq, Repr

namespace DiscretizationSource

/-- The equations to discretize. -/
def equations : DiscretizationSource → List (Equation Term)
  | .ode o => [o.plainEquation]
  | .formulation w => w.equations

/-- The test forms of the equations. -/
def testForms : DiscretizationSource → List FormId
  | .ode o => [o.testForm]
  | .formulation w => w.testForms

/-- The position and the initial term at an address. -/
def locate (source : DiscretizationSource) (address : String) :
    Outcome (Position × Signed Term) :=
  match source with
  | .ode o => do
    let (position, term) ← o.locate address
    return (⟨0, position⟩, Ode.plain term)
  | .formulation w => do
    let term ← w.term address
    return (← Position.read address, term)

/-- The position and the current term at an address. -/
def current (source : DiscretizationSource) (plan : Plan) (address : String) :
    Outcome (Position × Signed Term) := do
  let (position, initial) ← source.locate address
  return (position, plan.current position initial)

/-- The current term at an address. -/
def term (source : DiscretizationSource) (plan : Plan) (address : String) :
    Outcome (Signed Term) :=
  return (← source.current plan address).2

/-- Sets the time sequence. -/
def setSequence (sequence : TimeSequenceId) : Discretize Unit := do
  let plan ← (← get).plan.setSequence sequence
  modify fun w => { w with plan }

/-- Creates a time sequence with default labels and sets it. -/
def newSequence : Discretize TimeSequenceId := do
  let sequence ← (TimeSequence.create : Derive _)
  setSequence sequence
  return sequence

/-- Differences the term at an address. -/
def differentiate (source : DiscretizationSource) (address start stop : String) :
    Discretize Unit := do
  let (position, term) ← source.current (← get).plan address
  Plan.differentiate position term start stop

/-- Averages a form in the term at an address. -/
def average (source : DiscretizationSource) (address : String) (f : FormId)
    (keys : List String) : Discretize Unit := do
  let (position, term) ← source.current (← get).plan address
  Plan.average position term f keys

/-- The equations with their current terms. -/
def currentEquations (source : DiscretizationSource) (plan : Plan) : List (Equation Term) :=
  source.equations.mapIdx fun i e =>
    e.mapPositions fun j t => plan.current ⟨i, j⟩ t

/-- The discretized weak formulation. Its unknowns are the forms that became unknown by
differencing, if there are any. -/
def finish (s : Session) (source : DiscretizationSource) (plan : Plan) :
    Outcome WeakFormulation := do
  let w ← WeakFormulation.create s (source.currentEquations plan) source.testForms
  if plan.unknownForms = [] then
    return w
  w.withUnknowns s plan.unknownForms

end DiscretizationSource

end Variational
