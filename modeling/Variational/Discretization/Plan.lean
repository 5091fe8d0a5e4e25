import Variational.Time.Operations
import Variational.WeakForm.Basic

/-!
# Plans of time discretizations

A plan keeps the time sequence, the declared instants, the terms that were
differenced or averaged, and the forms that became unknown. A discretization
step works on a plan and a session together, and both survive a failure.
-/

namespace Variational

/-- The progress of a discretization. -/
inductive Stage
  | uninitialized
  | sequenceSet
  | instantsDeclared
  /-- At least one term was differenced or averaged. -/
  | modified
deriving DecidableEq, Repr

/-- The state of a discretization of terms that are known by their positions. -/
structure Plan where
  stage : Stage := .uninitialized
  sequence : Option TimeSequenceId := none
  instants : List (String × TimeInstantId) := []
  edits : List (Position × Signed Term) := []
  /-- The forms that became unknown, in ascending order of their positions. -/
  unknowns : List (Position × FormId) := []
deriving DecidableEq, Repr

/-- A session together with a plan. -/
structure Workspace where
  session : Session
  plan : Plan

/-- A discretization step. -/
abbrev Discretize := EStateM Failure Workspace

/-- A derivation step works on the session and leaves the plan alone. -/
instance : MonadLift Derive Discretize where
  monadLift step := fun w =>
    match step w.session with
    | .ok result session => .ok result { w with session }
    | .error failure session => .error failure { w with session }

namespace Plan

/-! ## Reading a plan -/

/-- The instant that was declared for a key. -/
def instant? (plan : Plan) (key : String) : Option TimeInstantId :=
  (plan.instants.find? (·.1 = key)).map (·.2)

/-- The declared instant of a key. -/
def declaredInstant (plan : Plan) (key : String) : Outcome TimeInstantId :=
  match plan.instant? key with
  | some instant => .ok instant
  | none => reject (.state (.instantNotDeclared key))

/-- The current version of the term at a position. -/
def current (plan : Plan) (position : Position) (initial : Signed Term) : Signed Term :=
  ((plan.edits.find? (·.1 = position)).map (·.2)).getD initial

/-- The forms that became unknown, in the order of their positions, without repetition. -/
def unknownForms (plan : Plan) : List FormId :=
  plan.unknowns.foldl (fun forms entry =>
    if entry.2 ∈ forms then forms else forms ++ [entry.2]) []

/-! ## Changing a plan -/

/-- Sets the time sequence. Another sequence discards the declared instants. After the
first edit the sequence is fixed. -/
def setSequence (plan : Plan) (sequence : TimeSequenceId) : Outcome Plan :=
  if plan.stage = .modified then
    reject (.state .sequenceFixed)
  else
    let instants := if plan.sequence = some sequence then plan.instants else []
    .ok { plan with
      instants
      sequence := some sequence
      stage := if instants = [] then .sequenceSet else .instantsDeclared }

/-- The plan with the current version of a term. -/
def edit (plan : Plan) (position : Position) (term : Signed Term) : Plan :=
  { plan with edits := (position, term) :: plan.edits, stage := .modified }

/-- Puts a form at its position in an ascending list, in place of the one that was there. -/
def placeUnknown (position : Position) (f : FormId) :
    List (Position × FormId) → List (Position × FormId)
  | [] => [(position, f)]
  | entry :: rest =>
    if position = entry.1 then (position, f) :: rest
    else if position.precedes entry.1 then (position, f) :: entry :: rest
    else entry :: placeUnknown position f rest

/-- The plan with a form that became unknown. -/
def addUnknown (plan : Plan) (position : Position) (f : FormId) : Plan :=
  { plan with unknowns := placeUnknown position f plan.unknowns }

/-! ## Discretization steps -/

/-- Changes the plan. -/
def update (f : Plan → Plan) : Discretize Unit :=
  modify fun w => { w with plan := f w.plan }

/-- The instant of a key of a sequence, declared on first request. -/
def declareKey (sequence : TimeSequenceId) (key : String) : Discretize TimeInstantId := do
  match (← get).plan.instant? key with
  | some instant => return instant
  | none =>
    let instant ← TimeInstant.atKey sequence key
    update fun plan => { plan with instants := plan.instants ++ [(key, instant)] }
    return instant

/-- Declares the instants with the given keys. Keys that were declared before stay as they
are. -/
def declare (keys : List String) : Discretize (List TimeInstantId) := do
  match (← get).plan.sequence with
  | none => reject (.state .noSequence)
  | some sequence =>
    let instants ← keys.mapM (declareKey sequence)
    update fun plan =>
      if plan.stage ≠ .modified ∧ plan.instants ≠ [] then
        { plan with stage := .instantsDeclared }
      else
        plan
    return instants

/-- The form `u` of a term `(∂t u, w)` with `u` a root form. -/
def differentiated? (s : Session) (t : Term) : Outcome (Option FormId) := do
  match ← t.pattern? s, (← s.form t.f1).expr with
  | some .timeDerivative, .unary .timeDerivative u => return some u
  | _, _ => return none

/-- The difference quotient of a root form over the interval between two instants, and the
form at the end of it. -/
def differenceQuotient (u : FormId) (start stop : TimeInstantId) : Derive (FormId × FormId) := do
  let interval ← TimeInterval.between start stop
  let before ← Form.evaluateAt u start
  let after ← Form.evaluateAt u stop
  let difference ← Form.sub after before
  return (← Form.divide difference (.interval interval), after)

/-- Replaces a term `(∂t u, w)` by the difference quotient of `u` over the interval between
two declared instants, paired with `w`. The form at the end of it becomes unknown. -/
def differentiate (position : Position) (term : Signed Term) (start stop : String) :
    Discretize Unit := do
  match ← differentiated? (← get).session term.value with
  | none => reject (.pattern (.notDifferentiable term.value.lin))
  | some u =>
    let plan := (← get).plan
    let start ← plan.declaredInstant start
    let stop ← plan.declaredInstant stop
    let (quotient, after) ← (differenceQuotient u start stop : Derive _)
    let new ← Term.create (← get).session term.value.kind quotient term.value.f2
    update fun plan => (plan.edit position ⟨term.sign, new⟩).addUnknown position after

/-- The arithmetic mean of a non-empty list of forms. -/
def mean (first : FormId) (others : List FormId) : Derive FormId := do
  let sum ← others.foldlM Form.add first
  if others = [] then
    return sum
  Form.divide sum (.number (Float.ofNat (others.length + 1)))

/-- Replaces a form in a term by the mean of its evaluations at the instants of the given
keys, which are declared if needed. -/
def average (position : Position) (term : Signed Term) (f : FormId) (keys : List String) :
    Discretize Unit := do
  if keys = [] then
    reject (.structural .noInstants)
  let s := (← get).session
  if !(← s.occursIn term.value.f1 f) then
    if !(← s.occursIn term.value.f2 f) then
      reject (.pattern (.notContained (← s.form f).lin term.value.lin))
  let instants ← declare keys
  match ← (instants.mapM (Form.evaluateAt f) : Derive _) with
  | [] => reject (.structural .noInstants)
  | first :: others =>
    let mean ← (mean first others : Derive _)
    let new ← (term.value.replace f mean : Derive _)
    update fun plan => plan.edit position ⟨term.sign.compose new.sign, new.value⟩

end Plan

end Variational
