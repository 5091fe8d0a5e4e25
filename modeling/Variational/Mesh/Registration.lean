import Variational.Session

/-!
# Creating manifolds and meshes

Manifolds are created with numbered default labels. The boundary of a manifold
and the boundary of a mesh are created on first request and found again later.
-/

namespace Variational

/-! ## Manifolds -/

/-- Records a manifold under labels that are available. -/
def Manifold.register (ndim : Nat) (labels : Labels) (boundaryOf : Option ManifoldId) :
    Derive ManifoldId := do
  let s ← get
  let id := s.manifolds.nextId
  set { s with
    manifolds := s.manifolds.push { ndim, labels, boundaryOf }
    manifoldLabels := s.manifoldLabels.insert labels id }
  return id

/-- A new manifold with default labels. Its dimension is at most that of the surrounding
space. -/
def Manifold.create (ndim : Nat) : Derive ManifoldId := do
  let s ← get
  if s.settings.embeddingDim.toNat < ndim then
    reject (.unsupported (.embedding ndim s.settings.embeddingDim.toNat))
  let labels := s.manifoldLabels.nextFree s.settings.conventions.defaults.manifold
  Manifold.register ndim labels none

/-- The boundary that was created for a manifold. -/
def Session.knownManifoldBoundary (s : Session) (manifold : ManifoldId) : Option ManifoldId :=
  s.manifolds.find? (·.boundaryOf = some manifold)

/-- The labels of the boundary of a manifold. -/
def Manifold.boundaryLabels (m : Manifold) : Labels :=
  ⟨"\\partial" ++ m.labels.sym, "boundary-of-" ++ m.labels.lin⟩

/-- The boundary of a manifold. Points have none. -/
def Manifold.boundary (manifold : ManifoldId) : Derive (Option ManifoldId) := do
  let s ← get
  match s.knownManifoldBoundary manifold with
  | some boundary => return some boundary
  | none =>
    let m ← s.manifold manifold
    if m.ndim = 0 then
      return none
    s.manifoldLabels.checkAvailable m.boundaryLabels
    let boundary ← Manifold.register (m.ndim - 1) m.boundaryLabels (some manifold)
    return some boundary

/-! ## Meshes -/

/-- Records a mesh of a manifold under labels that are available. -/
def Mesh.register (manifold : ManifoldId) (labels : Labels) (inclusion : Option MeshId) :
    Derive MeshId := do
  let s ← get
  let m ← s.manifold manifold
  let id := s.meshes.nextId
  set { s with
    meshes := s.meshes.push { manifold, ndim := m.ndim, labels, inclusion }
    meshLabels := s.meshLabels.insert labels id }
  return id

/-- The latest mesh that covers a manifold. -/
def Session.coveringMesh (s : Session) (manifold : ManifoldId) : Option MeshId :=
  s.meshes.findLast? (·.manifold = manifold)

/-- A new mesh with the given labels on a manifold that no mesh covers. -/
def Mesh.coverAs (manifold : ManifoldId) (labels : Labels) : Derive MeshId := do
  labels.validate .mesh
  let s ← get
  s.meshLabels.checkAvailable labels
  match s.coveringMesh manifold with
  | some existing =>
    let m ← s.manifold manifold
    let mesh ← s.mesh existing
    reject (.state (.alreadyCovered m.labels.lin mesh.labels.lin))
  | none => Mesh.register manifold labels none

/-- A new mesh with default labels on a manifold that no mesh covers. -/
def Mesh.cover (manifold : ManifoldId) : Derive MeshId := do
  let s ← get
  Mesh.coverAs manifold (s.meshLabels.nextFree s.settings.conventions.defaults.mesh)

/-- The boundary that was created for a mesh. -/
def Session.knownMeshBoundary (s : Session) (mesh : MeshId) : Option MeshId :=
  s.meshes.find? (·.inclusion = some mesh)

/-- The labels of the boundary of a mesh. -/
def Mesh.boundaryLabels (m : Mesh) : Labels :=
  ⟨"\\eth" ++ m.labels.sym, "boundary-of-" ++ m.labels.lin⟩

/-- The mesh of the boundary of a mesh's manifold, if there is a boundary. -/
def Mesh.boundary (mesh : MeshId) : Derive (Option MeshId) := do
  match (← get).knownMeshBoundary mesh with
  | some boundary => return some boundary
  | none =>
    let m ← (← get).mesh mesh
    match ← Manifold.boundary m.manifold with
    | none => return none
    | some manifold =>
      (← get).meshLabels.checkAvailable m.boundaryLabels
      let boundary ← Mesh.register manifold m.boundaryLabels (some mesh)
      return some boundary

end Variational
