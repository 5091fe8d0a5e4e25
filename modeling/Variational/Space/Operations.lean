import Variational.Mesh.Registration
import Variational.Text.Index

/-!
# Spaces and the operators between them

There is one space for every mesh, degree of forms and orientation. The target
of an operator is found or created, and takes over the polynomial degree of its
source.
-/

namespace Variational

namespace Space

/-- Gives a polynomial degree to a space. It can be given only once, or again the same. -/
def setDegree (space : SpaceId) (degree : Nat) : Derive Unit := do
  let s ← get
  let sp ← s.space space
  match sp.degree with
  | none => set { s with spaces := s.spaces.set space { sp with degree := some degree } }
  | some present =>
    if present ≠ degree then
      reject (.state (.degreeFixed sp.labels.lin present degree))

/-- The labels of the space of `k`-forms of an orientation on a mesh. -/
def labelsOn (mesh : Mesh) (k : Nat) (orientation : Orientation) : Labels where
  sym := s!"{orientation.symbol}^\x7b({k})\x7d({mesh.labels.sym})"
  lin := s!"Lambda{orientation.tag}-k{k}-over-{mesh.labels.lin}"

/-- The space of `k`-forms of an orientation on a mesh, with a polynomial degree if one
is given. -/
def withDegree (mesh : MeshId) (k : Nat) (orientation : Orientation) (degree : Option Nat) :
    Derive SpaceId := do
  let s ← get
  let m ← s.mesh mesh
  if m.ndim < k then
    reject (.structural (.formDegree k m.ndim m.labels.lin))
  match s.spaces.find? fun sp => sp.mesh = mesh ∧ sp.k = k ∧ sp.orientation = orientation with
  | some existing =>
    match degree with
    | some degree => setDegree existing degree
    | none => pure ()
    return existing
  | none =>
    let id := s.spaces.nextId
    let labels := labelsOn m k orientation
    set { s with spaces := s.spaces.push { mesh, k, orientation, degree, labels } }
    return id

/-- The space of `k`-forms of an orientation on a mesh. -/
def on (mesh : MeshId) (k : Nat) (orientation : Orientation) : Derive SpaceId :=
  withDegree mesh k orientation none

/-- Makes every space finite with the given degree, one after the other. -/
def makeFinite (degree : Nat) : Derive Unit := do
  (List.range (← get).spaces.size).forM fun i => setDegree ⟨i⟩ degree

/-- The space of exterior derivatives. -/
def derivative (space : SpaceId) : Derive SpaceId := do
  let sp ← (← get).space space
  let m ← (← get).mesh sp.mesh
  if m.ndim ≤ sp.k then
    reject (.unsupported (.derivative sp.k m.ndim))
  withDegree sp.mesh (sp.k + 1) sp.orientation sp.degree

/-- The space of codifferentials. -/
def codifferential (space : SpaceId) : Derive SpaceId := do
  let sp ← (← get).space space
  if sp.k = 0 then
    reject (.unsupported .codifferential)
  withDegree sp.mesh (sp.k - 1) sp.orientation sp.degree

/-- The space of Hodge duals. -/
def hodge (space : SpaceId) : Derive SpaceId := do
  let sp ← (← get).space space
  let m ← (← get).mesh sp.mesh
  withDegree sp.mesh (m.ndim - sp.k) sp.orientation.dual sp.degree

/-- The space of traces on the boundary mesh. -/
def trace (space : SpaceId) : Derive SpaceId := do
  let sp ← (← get).space space
  match ← Mesh.boundary sp.mesh with
  | none => reject (.unsupported (.traceWithoutBoundary sp.labels.lin))
  | some boundary =>
    let m ← (← get).mesh boundary
    if m.ndim < sp.k then
      reject (.unsupported (.traceDegree sp.k m.ndim))
    withDegree boundary sp.k sp.orientation sp.degree

/-- The space of wedge products of forms of two spaces on one mesh. -/
def wedge (left right : SpaceId) : Derive SpaceId := do
  let a ← (← get).space left
  let b ← (← get).space right
  if a.mesh ≠ b.mesh then
    reject (.structural (.wedgeAcrossMeshes a.labels.lin b.labels.lin))
  let m ← (← get).mesh a.mesh
  let k := Text.wordSum a.k b.k
  if m.ndim < k then
    reject (.unsupported (.wedgeDegree a.k b.k m.ndim))
  withDegree a.mesh k (a.orientation.common b.orientation) (a.degree.or b.degree)

end Space

/-- The label of the rows of arrays over the degrees of freedom of a finite space. -/
def Session.dofLabel (s : Session) (space : SpaceId) : Outcome String := do
  let sp ← s.space space
  match sp.degree with
  | some degree => return s!"{sp.labels.lin}-{degree}"
  | none => reject (.state (.notFinite sp.labels.lin))

end Variational
