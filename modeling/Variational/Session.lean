import Variational.Form.Basic
import Variational.Linear.Basic
import Variational.Mesh.Basic
import Variational.Scalar.Basic
import Variational.Settings
import Variational.Space.Basic
import Variational.Time.Basic

/-!
# Sessions

A session holds every entity of a derivation, together with the settings that
determine how labels are composed. A derivation step is a function from sessions
to a result and a new session; a step that fails keeps what it registered before
it failed.
-/

namespace Variational

/-- A warning that a step leaves behind. -/
inductive Warning
  /-- A term of a weak formulation was kept as it is, for the given reason. -/
  | keptVerbatim (index reason : String)
deriving DecidableEq, Repr

def Warning.text : Warning → String
  | .keptVerbatim index reason =>
    s!"Keeping term {index} of the weak formulation verbatim: {reason}"

/-- All entities of a derivation, with the labels of the root entities. -/
structure Session where
  settings : Settings := {}
  manifolds : Arena .manifold Manifold := {}
  manifoldLabels : LabelIndex .manifold := {}
  meshes : Arena .mesh Mesh := {}
  meshLabels : LabelIndex .mesh := {}
  spaces : Arena .space Space := {}
  forms : FormTable := FormTable.empty
  formLabels : LabelIndex .form := {}
  scalars : Arena .scalar Scalar := {}
  scalarLabels : LabelIndex .scalar := {}
  timeSequences : Arena .timeSequence TimeSequence := {}
  timeSequenceLabels : LabelIndex .timeSequence := {}
  timeInstants : Arena .timeInstant TimeInstant := {}
  timeIntervals : Arena .timeInterval TimeInterval := {}
  timeIntervalLabels : LabelIndex .timeInterval := {}
  arrays : Arena .array RootArray := {}
  arrayLabels : LabelIndex .array := {}
  warnings : List Warning := []

instance : Inhabited Session := ⟨{}⟩

/-- A derivation step. The session survives a failure. -/
abbrev Derive := EStateM Failure Session

/-- A request that changes nothing is a derivation step. -/
instance : MonadLift Outcome Derive where
  monadLift outcome := fun s =>
    match outcome with
    | .ok result => .ok result s
    | .error failure => .error failure s

namespace Session

/-- The session without entities. -/
def new (settings : Settings) : Session :=
  { settings }

/-! ## Looking entities up -/

def manifold (s : Session) (id : ManifoldId) : Outcome Manifold := s.manifolds.fetch id

def mesh (s : Session) (id : MeshId) : Outcome Mesh := s.meshes.fetch id

def space (s : Session) (id : SpaceId) : Outcome Space := s.spaces.fetch id

def form (s : Session) (id : FormId) : Outcome Form := s.forms.fetch id

def scalar (s : Session) (id : ScalarId) : Outcome Scalar := s.scalars.fetch id

def timeSequence (s : Session) (id : TimeSequenceId) : Outcome TimeSequence :=
  s.timeSequences.fetch id

def timeInstant (s : Session) (id : TimeInstantId) : Outcome TimeInstant :=
  s.timeInstants.fetch id

def timeInterval (s : Session) (id : TimeIntervalId) : Outcome TimeInterval :=
  s.timeIntervals.fetch id

def array (s : Session) (id : ArrayId) : Outcome RootArray := s.arrays.fetch id

/-! ## Wrapped linguistic labels -/

def manifoldLin (s : Session) (m : Manifold) : String :=
  s.settings.conventions.wrappers.manifold.wrap m.labels.lin

def meshLin (s : Session) (m : Mesh) : String :=
  s.settings.conventions.wrappers.mesh.wrap m.labels.lin

def timeSequenceLin (s : Session) (t : TimeSequence) : String :=
  s.settings.conventions.wrappers.timeSequence.wrap t.labels.lin

def timeInstantLin (s : Session) (t : TimeInstant) : String :=
  s.settings.conventions.wrappers.timeInstant.wrap t.labels.lin

def timeIntervalLin (s : Session) (t : TimeInterval) : String :=
  s.settings.conventions.wrappers.timeInterval.wrap t.labels.lin

def arrayLin (s : Session) (a : RootArray) : String :=
  s.settings.conventions.wrappers.array.wrap a.pureLin

/-! ## Counts -/

/-- The number of forms, root and derived. -/
def formCount (s : Session) : Nat := s.forms.size

/-- The number of root forms, evaluated ones included. -/
def rootFormCount (s : Session) : Nat := s.formLabels.size

def scalarCount (s : Session) : Nat := s.scalars.size

def arrayCount (s : Session) : Nat := s.arrays.size

/-- The root form with a pure linguistic label. -/
def findRootForm (s : Session) (lin : String) : Option FormId :=
  s.formLabels.byLin? lin

/-- All root forms in the order of their creation. -/
def rootForms (s : Session) : List FormId :=
  s.forms.idsWhere Form.isRoot

/-! ## What forms are built from -/

/-- Whether a form is another one or is built from it. A form occurs in itself even if
the session does not hold it. -/
def occursIn (s : Session) (f target : FormId) : Outcome Bool :=
  if f = target then
    .ok true
  else if held : f.index < s.forms.entities.length then
    .ok (s.forms.occursAt target f.index held)
  else
    foreign .form

/-- The root forms that a form is built from. -/
def elementaryForms (s : Session) (f : FormId) : Outcome (IdSet .form) :=
  if held : f.index < s.forms.entities.length then
    .ok (s.forms.leavesAt f.index held)
  else
    foreign .form

/-- The root form that is found behind derivatives and traces of a form. -/
def testedForm? (s : Session) (f : FormId) : Outcome (Option FormId) :=
  if held : f.index < s.forms.entities.length then
    .ok (s.forms.testedAt f.index held)
  else
    foreign .form

end Session

end Variational
