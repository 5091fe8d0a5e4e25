import Variational.Space.Operations
import Variational.Scalar.Arithmetic

/-!
# Root arrays and products

The arrays that represent forms and operators on finite spaces. A root array is
found again by its linguistic label. Symbols of matrices are numbered when they
are taken.
-/

namespace Variational

namespace RootArray

/-- Records an array, unless one with its linguistic label is there already. -/
def register (array : RootArray) : Derive ArrayId := do
  let s ← get
  match s.arrayLabels.byLin? array.pureLin with
  | some existing => return existing
  | none =>
    let labels : Labels := ⟨array.sym, array.pureLin⟩
    s.arrayLabels.checkAvailable labels
    let id := s.arrays.nextId
    set { s with
      arrays := s.arrays.push array
      arrayLabels := s.arrayLabels.insert labels id }
    return id

/-- The first numbered variant of a symbol that no array has. -/
def freeSym (s : Session) (sym : String) : String :=
  Labels.numberedSym sym <| leastBelow s.arrayLabels.size fun n =>
    !s.arrayLabels.hasSym (Labels.numberedSym sym n)

/-- Records an array under a numbered variant of its symbol, unless one with its
linguistic label is there already. -/
def registerNumbered (array : RootArray) : Derive ArrayId := do
  let s ← get
  register { array with sym := freeSym s array.sym }

/-- The coefficient vector of a root form of a finite space. -/
def vector (f : FormId) : Derive ArrayId := do
  let s ← get
  let form ← s.form f
  match form.pureLin with
  | none => reject (.unsupported (.vectorOfDerived form.lin))
  | some pureLin =>
    let rows ← s.dofLabel form.space
    register {
      sym := s.settings.conventions.symGlyphs.vector.wrap form.sym
      pureLin := pureLin ++ s.settings.conventions.linGlyphs.vectorSuffix
      shape := ⟨rows, "1"⟩
      kind := .vector f }

/-- The mass matrix of a finite space. -/
def massMatrix (space : SpaceId) : Derive ArrayId := do
  let s ← get
  let label ← s.dofLabel space
  let sp ← s.space space
  registerNumbered {
    sym := s!"\\mathsf\x7bM\x7d^\x7b({sp.k})\x7d"
    pureLin := s!"MassMat-{sp.labels.lin}-d{sp.degree.getD 0}"
    shape := ⟨label, label⟩
    kind := .massMatrix space }

/-- The incidence matrix of the exterior derivative on a finite space. -/
def incidenceMatrix (space : SpaceId) : Derive ArrayId := do
  let target ← Space.derivative space
  let s ← get
  let cols ← s.dofLabel space
  let rows ← s.dofLabel target
  let sp ← s.space space
  registerNumbered {
    sym := s!"\\mathsf\x7bD\x7d^\x7b({sp.k + 1},{sp.k})\x7d"
    pureLin := s!"dMat-{sp.labels.lin}-d{sp.degree.getD 0}"
    shape := ⟨rows, cols⟩
    kind := .incidenceMatrix space }

/-- The vector of the boundary pairing of a root form with the test functions of a finite
space. -/
def wedgeVector (f : FormId) (testSpace : SpaceId) : Derive ArrayId := do
  let s ← get
  let rows ← s.dofLabel testSpace
  let form ← s.form f
  match form.pureLin with
  | none => reject (.unsupported (.boundaryVectorOfDerived form.lin))
  | some pureLin =>
    let sp ← s.space testSpace
    register {
      sym := s!"\\boldsymbol\x7bb\x7d_\x7b{form.sym}\x7d"
      pureLin := s!"WedgeVec:traceHodge[{pureLin}]-wedge-d{sp.degree.getD 0}"
      shape := ⟨rows, "1"⟩
      kind := .wedgeVector f testSpace }

/-- Whether an array stands for a form. -/
def dependsOnForm (array : RootArray) : Bool :=
  match array.kind with
  | .vector _ | .wedgeVector _ _ => true
  | _ => false

end RootArray

/-- A link to a root array. -/
def Session.link (s : Session) (array : ArrayId) (transposed : Bool) : Outcome Link := do
  let a ← s.array array
  return { array, transposed, shape := if transposed then a.shape.transposed else a.shape }

namespace Product

/-- The product of the scalar one and a single array. -/
def single (array : ArrayId) : Derive Product := do
  let factor ← Scalar.unit
  let link ← (← get).link array false
  return ⟨factor, [link]⟩

/-- Whether at most one link that is not transposed stands for a form. -/
def isLinear (s : Session) (p : Product) : Outcome Bool := do
  let forms ← (p.chain.filter fun link => !link.transposed).filterM fun link => do
    return (← s.array link.array).dependsOnForm
  return forms.length ≤ 1

/-- The symbolic label of a link. -/
def linkSym (s : Session) (link : Link) : Outcome String := do
  let a ← s.array link.array
  return if link.transposed then a.sym ++ s.settings.conventions.symGlyphs.transpose else a.sym

/-- The linguistic label of a link. -/
def linkLin (s : Session) (link : Link) : Outcome String := do
  let lin := s.arrayLin (← s.array link.array)
  return if link.transposed then lin ++ s.settings.conventions.linGlyphs.transpose else lin

/-- The symbolic label of a product. The factor one is left out in front of a chain. -/
def sym (s : Session) (p : Product) : Outcome String := do
  let factor ← s.scalar p.factor
  let front :=
    if factor.value == some 1.0 && !p.chain.isEmpty then "" else factor.sym
  let links ← p.chain.mapM (linkSym s)
  return front ++ String.join links

/-- The linguistic label of a product. -/
def lin (s : Session) (p : Product) : Outcome String := do
  let links ← p.chain.mapM (linkLin s)
  let factor ← s.scalar p.factor
  return factor.lin ++ s.settings.conventions.linGlyphs.arrayFactorSeparator ++
    String.intercalate s.settings.conventions.linGlyphs.arrayConnector links

end Product

end Variational
