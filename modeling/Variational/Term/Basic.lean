import Variational.Form.Substitution
import Variational.Sign

/-!
# Terms

A term is the integral over a mesh of the pairing of two forms, of which the
second is the test form, possibly differentiated. A few simple patterns of terms
are told apart.
-/

namespace Variational

/-- How a term pairs its forms. -/
inductive TermKind
  /-- The inner product of two `k`-forms. -/
  | innerProduct
  /-- The duality pairing of a `k`-form and an `(n - k)`-form over `n` dimensions. -/
  | dualityPairing
deriving DecidableEq, Repr

/-- The pairing of two forms, integrated over a mesh. -/
structure Term where
  kind : TermKind
  f1 : FormId
  f2 : FormId
  mesh : MeshId
  sym : String
  lin : String
deriving DecidableEq, Repr

/-- Simple patterns of terms. -/
inductive TermPattern
  /-- `(∂t u, v)` with `u` a root form. -/
  | timeDerivative
  /-- `(δ a, v)`. -/
  | codifferential
  /-- `(u, v)` with two root forms. -/
  | rootRoot
  /-- `(d u, v)` with `u` and `v` root forms. -/
  | derivativeRoot
  /-- `(u, d v)` with `u` and `v` root forms. -/
  | rootDerivative
  /-- `<tr ⋆u, tr v>` with `u` and `v` root forms. -/
  | traceHodgeTrace
deriving DecidableEq, Repr

namespace Term

/-! ## Building terms -/

/-- The conventions that a kind of term is written with. -/
def glyphs (s : Session) : TermKind → PairWrapper × PairWrapper
  | .innerProduct =>
    (s.settings.conventions.symGlyphs.innerProduct, s.settings.conventions.linGlyphs.innerProduct)
  | .dualityPairing =>
    (s.settings.conventions.symGlyphs.dualityPairing,
      s.settings.conventions.linGlyphs.dualityPairing)

/-- Checks that forms of two spaces can be paired over a mesh. -/
def checkDegrees (kind : TermKind) (a b : Space) (mesh : Mesh) : Outcome Unit :=
  match kind with
  | .innerProduct =>
    if a.k ≠ b.k then reject (.structural (.innerProductDegrees a.k b.k)) else .ok ()
  | .dualityPairing =>
    if Text.wordSum a.k b.k ≠ mesh.ndim then
      reject (.structural (.pairingDegrees a.k b.k mesh.ndim))
    else
      .ok ()

/-- The term of the given kind for two forms on one mesh. -/
def create (s : Session) (kind : TermKind) (f1 f2 : FormId) : Outcome Term := do
  let a ← s.form f1
  let b ← s.form f2
  let sa ← s.space a.space
  let sb ← s.space b.space
  if sa.mesh ≠ sb.mesh then
    reject (.structural (.pairAcrossMeshes a.lin b.lin))
  let mesh ← s.mesh sa.mesh
  checkDegrees kind sa sb mesh
  let (symGlyphs, linGlyphs) := glyphs s kind
  return {
    kind, f1, f2
    mesh := sa.mesh
    sym := s!"{symGlyphs.join a.sym b.sym}_\x7b{mesh.labels.sym}\x7d"
    lin := linGlyphs.join a.lin b.lin ++ s.meshLin mesh }

/-! ## Looking into terms -/

/-- Whether a form is a root form. -/
def isRoot (s : Session) (f : FormId) : Outcome Bool :=
  return (← s.form f).isRoot

/-- The simple pattern of a term, if it has one. -/
def pattern? (s : Session) (t : Term) : Outcome (Option TermPattern) := do
  let a ← s.form t.f1
  let b ← s.form t.f2
  match t.kind with
  | .innerProduct =>
    match a.expr with
    | .unary .timeDerivative u =>
      if ← isRoot s u then return some .timeDerivative else return none
    | .unary .codifferential _ => return some .codifferential
    | .unary .derivative u =>
      if (← isRoot s u) && b.isRoot then return some .derivativeRoot else return none
    | _ =>
      if !a.isRoot then
        return none
      if b.isRoot then
        return some .rootRoot
      match b.expr with
      | .unary .derivative v => if ← isRoot s v then return some .rootDerivative else return none
      | _ => return none
  | .dualityPairing =>
    match a.expr, b.expr with
    | .unary .trace h, .unary .trace v =>
      if !(← isRoot s v) then
        return none
      match (← s.form h).expr with
      | .unary .hodge u => if ← isRoot s u then return some .traceHodgeTrace else return none
      | _ => return none
    | _, _ => return none

/-- The root forms that a term is built from. -/
def elementaryForms (s : Session) (t : Term) : Outcome (IdSet .form) := do
  return (← s.elementaryForms t.f1).union (← s.elementaryForms t.f2)

/-- The root test form of a term, found behind derivatives and traces. -/
def testForm? (s : Session) (t : Term) : Outcome (Option FormId) :=
  s.testedForm? t.f2

/-! ## Substitution -/

/-- Replaces a form in both forms of a term, giving the sign in front of the new term
relative to the old one. -/
def replace (t : Term) (target replacement : FormId) : Derive (Signed Term) := do
  let f1 ← Form.replace t.f1 target replacement
  let f2 ← Form.replace t.f2 target replacement
  if f1 = t.f1 ∧ f2 = t.f2 then
    return ⟨.plus, t⟩
  return ⟨.plus, ← create (← get) t.kind f1 f2⟩

end Term

end Variational
