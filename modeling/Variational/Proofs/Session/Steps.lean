import Mathlib.Logic.Relation
import Variational.Proofs.Session.Arenas
import Variational.Linear.Arrays
import Variational.Time.Operations
import Variational.WeakForm.Algebraic

/-!
# Steps of sessions

`Session.Step` lists every change that a derivation can make to its session, each
with the conditions under which it is made. An invariant of sessions is proved
once for each of these changes.
-/

namespace Variational

namespace Session

/-! ## Additions to a session -/

def addManifold (s : Session) (m : Manifold) : Session :=
  { s with
    manifolds := s.manifolds.push m
    manifoldLabels := s.manifoldLabels.insert m.labels s.manifolds.nextId }

def addMesh (s : Session) (m : Mesh) : Session :=
  { s with
    meshes := s.meshes.push m
    meshLabels := s.meshLabels.insert m.labels s.meshes.nextId }

def addSpace (s : Session) (sp : Space) : Session :=
  { s with spaces := s.spaces.push sp }

def setSpace (s : Session) (id : SpaceId) (sp : Space) : Session :=
  { s with spaces := s.spaces.set id sp }

def addForm (s : Session) (f : Form) (holds : s.forms.Holds f.expr) : Session :=
  { s with forms := s.forms.add f holds }

/-- The root form that is recorded for a space, labels and an expression. -/
def rootForm (s : Session) (space : SpaceId) (labels : Labels) (expr : FormExpr) : Form where
  space := space
  sym := labels.sym
  lin := s.settings.conventions.wrappers.form.wrap labels.lin
  pureLin := some labels.lin
  expr := expr

def addRootForm (s : Session) (space : SpaceId) (labels : Labels) (expr : FormExpr)
    (holds : s.forms.Holds expr) : Session :=
  { s.addForm (s.rootForm space labels expr) holds with
    formLabels := s.formLabels.insert labels s.forms.nextId }

def addScalar (s : Session) (c : Scalar) : Session :=
  { s with scalars := s.scalars.push c }

/-- The root scalar that is recorded for labels and a value. -/
def rootScalar (s : Session) (labels : Labels) (value : Option Float) : Scalar where
  sym := labels.sym
  lin := s.settings.conventions.wrappers.scalar.wrap labels.lin
  pureLin := some labels.lin
  value := value

def addRootScalar (s : Session) (labels : Labels) (value : Option Float) : Session :=
  { s.addScalar (s.rootScalar labels value) with
    scalarLabels := s.scalarLabels.insert labels s.scalars.nextId }

def addTimeSequence (s : Session) (labels : Labels) : Session :=
  { s with
    timeSequences := s.timeSequences.push { labels, specification := none }
    timeSequenceLabels := s.timeSequenceLabels.insert labels s.timeSequences.nextId }

def setTimeSequence (s : Session) (id : TimeSequenceId) (t : TimeSequence) : Session :=
  { s with timeSequences := s.timeSequences.set id t }

def addTimeInstant (s : Session) (i : TimeInstant) : Session :=
  { s with timeInstants := s.timeInstants.push i }

def addTimeInterval (s : Session) (i : TimeInterval) : Session :=
  { s with
    timeIntervals := s.timeIntervals.push i
    timeIntervalLabels := s.timeIntervalLabels.insert i.labels s.timeIntervals.nextId }

def addArray (s : Session) (array : RootArray) : Session :=
  { s with
    arrays := s.arrays.push array
    arrayLabels := s.arrayLabels.insert ⟨array.sym, array.pureLin⟩ s.arrays.nextId }

/-! ## Conditions on what is added -/

/-- The labels of a root scalar: those of its number, or labels that no number has. -/
def ScalarNamed (labels : Labels) : Option Float → Prop
  | some x => x.isFinite = true ∧ labels = Scalar.numberLabels x
  | none => labels.validate .scalar = .ok () ∧ Scalar.isNumberLabel labels.sym = false ∧
      Scalar.isNumberLabel labels.lin = false

/-- Labels that are composed from those of two scalars, not both of them real. -/
def ScalarComposed (s : Session) (labels : Labels) : Prop :=
  ∃ left right a b, s.scalars.get? left = some a ∧ s.scalars.get? right = some b ∧
    (a.value = none ∨ b.value = none) ∧
    (labels = ⟨a.sym ++ s.settings.conventions.symGlyphs.plus ++ b.sym,
        a.lin ++ s.settings.conventions.linGlyphs.plus ++ b.lin⟩ ∨
      labels = ⟨s.settings.conventions.symGlyphs.division.join a.sym b.sym,
        a.lin ++ s.settings.conventions.linGlyphs.division ++ b.lin⟩)

/-- How the space of a unary expression is related to the space of its operand. -/
def OperatorRule (s : Session) (op : UnaryOperator) (source target : SpaceId) : Prop :=
  ∃ src dst, s.spaces.get? source = some src ∧ s.spaces.get? target = some dst ∧
    match op with
    | .derivative => dst.mesh = src.mesh ∧ dst.k = src.k + 1 ∧ dst.orientation = src.orientation
    | .codifferential =>
      dst.mesh = src.mesh ∧ dst.k + 1 = src.k ∧ dst.orientation = src.orientation
    | .hodge => dst.mesh = src.mesh ∧ dst.orientation = src.orientation.dual ∧
        ∃ m, s.meshes.get? src.mesh = some m ∧ dst.k = m.ndim - src.k
    | .trace => dst.k = src.k ∧ dst.orientation = src.orientation ∧
        ∃ b, s.meshes.get? dst.mesh = some b ∧ b.inclusion = some src.mesh
    | .timeDerivative => target = source

/-- How the space of a wedge product is related to the spaces of its factors. -/
def WedgeRule (s : Session) (left right target : SpaceId) : Prop :=
  ∃ a b dst, s.spaces.get? left = some a ∧ s.spaces.get? right = some b ∧
    s.spaces.get? target = some dst ∧ a.mesh = b.mesh ∧ dst.mesh = a.mesh ∧
    dst.k = Text.wordSum a.k b.k ∧ dst.orientation = a.orientation.common b.orientation

/-- The typing of forms: an expression belongs to a space. -/
def Typed (s : Session) (space : SpaceId) : FormExpr → Prop
  | .root => True
  | .atInstant binding => ∃ base i, s.forms.get? binding.base = some base ∧
      base.expr = .root ∧ base.space = space ∧
      s.timeInstants.get? binding.instant = some i ∧ i.sequence = binding.sequence
  | .unary op f => ∃ a, s.forms.get? f = some a ∧ s.OperatorRule op a.space space
  | .binary .wedge f g => ∃ a b, s.forms.get? f = some a ∧ s.forms.get? g = some b ∧
      s.WedgeRule a.space b.space space
  | .binary _ f g => ∃ a b, s.forms.get? f = some a ∧ s.forms.get? g = some b ∧
      a.space = space ∧ b.space = space
  | .quotient f c => ∃ a x, s.forms.get? f = some a ∧ a.space = space ∧
      s.scalars.get? c = some x
  | .scaled c f => ∃ a x, s.forms.get? f = some a ∧ a.space = space ∧
      s.scalars.get? c = some x

/-- An array has the label and the shape of what it stands for. -/
def Represents (s : Session) (array : RootArray) : Prop :=
  match array.kind with
  | .vector f => ∃ form lin rows, s.forms.get? f = some form ∧ form.pureLin = some lin ∧
      s.dofLabel form.space = .ok rows ∧
      array.pureLin = lin ++ s.settings.conventions.linGlyphs.vectorSuffix ∧
      array.shape = ⟨rows, "1"⟩
  | .massMatrix space => ∃ sp rows, s.spaces.get? space = some sp ∧
      s.dofLabel space = .ok rows ∧
      array.pureLin = s!"MassMat-{sp.labels.lin}-d{sp.degree.getD 0}" ∧
      array.shape = ⟨rows, rows⟩
  | .incidenceMatrix space => ∃ sp target rows cols, s.spaces.get? space = some sp ∧
      s.OperatorRule .derivative space target ∧
      s.dofLabel space = .ok cols ∧ s.dofLabel target = .ok rows ∧
      array.pureLin = s!"dMat-{sp.labels.lin}-d{sp.degree.getD 0}" ∧
      array.shape = ⟨rows, cols⟩
  | .wedgeVector f space => ∃ form lin sp rows, s.forms.get? f = some form ∧
      form.pureLin = some lin ∧ s.spaces.get? space = some sp ∧ s.dofLabel space = .ok rows ∧
      array.pureLin = s!"WedgeVec:traceHodge[{lin}]-wedge-d{sp.degree.getD 0}" ∧
      array.shape = ⟨rows, "1"⟩

/-- An array has the symbol of what it stands for. The symbols of matrices are numbered. -/
def Symbolizes (s : Session) (array : RootArray) : Prop :=
  match array.kind with
  | .vector f => ∃ form, s.forms.get? f = some form ∧ form.pureLin.isSome = true ∧
      array.sym = s.settings.conventions.symGlyphs.vector.wrap form.sym
  | .massMatrix space => ∃ sp n, s.spaces.get? space = some sp ∧
      array.sym = Labels.numberedSym s!"\\mathsf\x7bM\x7d^\x7b({sp.k})\x7d" n
  | .incidenceMatrix space => ∃ sp n, s.spaces.get? space = some sp ∧
      array.sym = Labels.numberedSym s!"\\mathsf\x7bD\x7d^\x7b({sp.k + 1},{sp.k})\x7d" n
  | .wedgeVector f _ => ∃ form, s.forms.get? f = some form ∧ form.pureLin.isSome = true ∧
      array.sym = s!"\\boldsymbol\x7bb\x7d_\x7b{form.sym}\x7d"

/-! ## Steps -/

/-- One change of a session, under the conditions that derivations make it. -/
inductive Step (s : Session) : Session → Prop
  | manifold {ndim : Nat} (fits : ndim ≤ s.settings.embeddingDim.toNat) :
    Step s (s.addManifold
      ⟨ndim, s.manifoldLabels.nextFree s.settings.conventions.defaults.manifold, none⟩)
  | manifoldBoundary {id : ManifoldId} {m : Manifold} (found : s.manifolds.get? id = some m)
    (unknown : s.knownManifoldBoundary id = none) (positive : m.ndim ≠ 0)
    (available : s.manifoldLabels.Available m.boundaryLabels) :
    Step s (s.addManifold ⟨m.ndim - 1, m.boundaryLabels, some id⟩)
  | mesh {manifold : ManifoldId} {m : Manifold} {labels : Labels}
    (found : s.manifolds.get? manifold = some m) (valid : labels.validate .mesh = .ok ())
    (available : s.meshLabels.Available labels) (uncovered : s.coveringMesh manifold = none) :
    Step s (s.addMesh ⟨manifold, m.ndim, labels, none⟩)
  | meshBoundary {id : MeshId} {m : Mesh} {manifold : ManifoldId} {n : Manifold}
    (found : s.meshes.get? id = some m) (unknown : s.knownMeshBoundary id = none)
    (boundary : s.knownManifoldBoundary m.manifold = some manifold)
    (foundManifold : s.manifolds.get? manifold = some n)
    (available : s.meshLabels.Available m.boundaryLabels) :
    Step s (s.addMesh ⟨manifold, n.ndim, m.boundaryLabels, some id⟩)
  | degree {id : SpaceId} {sp : Space} {d : Nat} (found : s.spaces.get? id = some sp)
    (absent : sp.degree = none) :
    Step s (s.setSpace id { sp with degree := some d })
  | space {mesh : MeshId} {m : Mesh} {k : Nat} {orientation : Orientation} {degree : Option Nat}
    (found : s.meshes.get? mesh = some m) (fits : k ≤ m.ndim)
    (unknown : s.spaces.find? (fun sp =>
      sp.mesh = mesh ∧ sp.k = k ∧ sp.orientation = orientation) = none) :
    Step s (s.addSpace ⟨mesh, k, orientation, degree, Space.labelsOn m k orientation⟩)
  | rootScalar {labels : Labels} {value : Option Float} (named : ScalarNamed labels value)
    (available : s.scalarLabels.Available labels) :
    Step s (s.addRootScalar labels value)
  | derivedScalar {labels : Labels} (composed : s.ScalarComposed labels)
    (unknown : s.scalars.find? (fun c => c.pureLin.isNone && c.lin == labels.lin) = none) :
    Step s (s.addScalar ⟨labels.sym, labels.lin, none, none⟩)
  | rootForm {space : SpaceId} {sp : Space} {labels : Labels}
    (found : s.spaces.get? space = some sp) (valid : labels.validate .form = .ok ())
    (available : s.formLabels.Available labels) (holds : s.forms.Holds .root) :
    Step s (s.addRootForm space labels .root holds)
  | evaluation {f : FormId} {a : Form} {sp : Space} {instant : TimeInstantId} {i : TimeInstant}
    {labels : Labels}
    (unknown : Form.knownEvaluation s f instant = none) (found : s.forms.get? f = some a)
    (base : a.expr = .root) (foundSpace : s.spaces.get? a.space = some sp)
    (foundInstant : s.timeInstants.get? instant = some i)
    (named : labels = ⟨s.settings.conventions.symGlyphs.evaluateAt.join a.sym i.key,
      a.pureLin.getD "" ++ s.settings.conventions.linGlyphs.evaluateAt ++ i.labels.lin⟩)
    (available : s.formLabels.Available labels)
    (holds : s.forms.Holds (.atInstant ⟨f, i.sequence, instant⟩)) :
    Step s (s.addRootForm a.space labels (.atInstant ⟨f, i.sequence, instant⟩) holds)
  | derivedForm {f : Form} {sp : Space} (foundSpace : s.spaces.get? f.space = some sp)
    (holds : s.forms.Holds f.expr) (derived : f.expr.isLeaf = false)
    (unlabelled : f.pureLin = none) (unknown : s.forms.find? (·.expr = f.expr) = none)
    (typed : s.Typed f.space f.expr) :
    Step s (s.addForm f holds)
  | timeSequence {labels : Labels} (valid : labels.validate .timeSequence = .ok ())
    (available : s.timeSequenceLabels.Available labels) :
    Step s (s.addTimeSequence labels)
  | specification {id : TimeSequenceId} {t : TimeSequence} {rule : Stepping}
    (found : s.timeSequences.get? id = some t) (absent : t.specification = none) :
    Step s (s.setTimeSequence id { t with specification := some rule })
  | timeInstant {sequence : TimeSequenceId} {t : TimeSequence} {key : String}
    (found : s.timeSequences.get? sequence = some t)
    (unknown : TimeInstant.known s sequence key = none)
    (valid : TimeInstant.validateKey key = .ok ()) :
    Step s (s.addTimeInstant
      ⟨sequence, key, ⟨s!"{t.labels.sym}[{key}]", s!"{t.labels.lin}[{key}]"⟩⟩)
  | timeInterval {start stop : TimeInstantId} {a b : TimeInstant} {t : TimeSequence}
    {c : Scalar} {duration : ScalarId} {labels : Labels}
    (foundStart : s.timeInstants.get? start = some a)
    (foundStop : s.timeInstants.get? stop = some b) (common : a.sequence = b.sequence)
    (distinct : start ≠ stop) (unknown : TimeInterval.known s start stop = none)
    (found : s.timeSequences.get? a.sequence = some t)
    (named : labels.lin = s!"{t.labels.lin}[{a.key},{b.key}]")
    (foundDuration : s.scalars.get? duration = some c) (abstract : c.value = none)
    (durationSym : s.scalarLabels.bySym? labels.sym = some duration)
    (durationLin : s.scalarLabels.byLin? labels.lin = some duration) :
    Step s (s.addTimeInterval ⟨a.sequence, start, stop, labels, duration⟩)
  | array {array : RootArray} (represents : s.Represents array)
    (available : s.arrayLabels.Available ⟨array.sym, array.pureLin⟩)
    (symbolizes : s.Symbolizes array) :
    Step s (s.addArray array)
  | warning (warnings : List Warning) : Step s { s with warnings := warnings }

/-- Any number of steps. -/
abbrev Steps : Session → Session → Prop :=
  Relation.ReflTransGen Step

end Session

end Variational
