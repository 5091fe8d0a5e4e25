import Variational.Proofs.Coverings
import Variational.Proofs.Progress
import Variational.Proofs.Session.Additivity

/-!
# Chains of boundaries

The boundary of a mesh is made on request, on the boundary of its manifold, and is found again from
then on. Boundaries of manifolds may be there before those of the meshes on them. In whatever order
they are made, a mesh that includes another one is its only boundary, and it lies on the only
boundary of the manifold below. So boundaries can be taken until there is a mesh of points.
-/

namespace Variational

open Derive

theorem Labels.eq_append_of_prefix {opening text : String}
    (starts : opening.toList <+: text.toList) : ∃ tail, text = opening ++ tail := by
  obtain ⟨rest, same⟩ := starts
  exact ⟨String.ofList rest, String.toList_injective (by simp [← same])⟩

namespace Session

variable {s s' mid : Session} {settings : Settings}

/-! ## Boundaries are unique -/

/-- A manifold has one boundary, as two would share their labels. -/
theorem Sound.eq_of_boundaryOf (sound : s.Sound) {x y p : ManifoldId} {m n : Manifold}
    (found : s.manifolds.get? x = some m) (found' : s.manifolds.get? y = some n)
    (bounds : m.boundaryOf = some p) (bounds' : n.boundaryOf = some p) : x = y := by
  have above := (sound.manifolds found).2
  have above' := (sound.manifolds found').2
  rw [bounds] at above
  rw [bounds'] at above'
  obtain ⟨parent, foundParent, -, labels⟩ := above
  obtain ⟨parent', foundParent', -, labels'⟩ := above'
  cases foundParent.symm.trans foundParent'
  exact sound.manifoldLabels.eq_of_sym found found' (by rw [labels, labels'])

theorem Sound.knownManifoldBoundary_iff (sound : s.Sound) {x y : ManifoldId} :
    s.knownManifoldBoundary x = some y ↔ s.Bounds y x := by
  rw [knownManifoldBoundary, Arena.find?_eq_some_iff fun found found' bounds bounds' =>
    sound.eq_of_boundaryOf found found' (of_decide_eq_true bounds) (of_decide_eq_true bounds')]
  simp only [Bounds, decide_eq_true_eq]

theorem Sound.knownMeshBoundary_iff (sound : s.Sound) {id b : MeshId} :
    s.knownMeshBoundary id = some b ↔
      ∃ n, s.meshes.get? b = some n ∧ n.inclusion = some id := by
  rw [knownMeshBoundary, Arena.find?_eq_some_iff fun found found' includes includes' =>
    sound.eq_of_inclusion found found' (of_decide_eq_true includes) (of_decide_eq_true includes')]
  simp only [decide_eq_true_eq]

/-! ## Consistent boundaries -/

/-- The meshes and manifolds of a session bound each other consistently. -/
structure Bordered (s : Session) : Prop where
  /-- A mesh has the dimension of its manifold. -/
  ndim : ∀ {id m}, s.meshes.get? id = some m →
    ∃ x, s.manifolds.get? m.manifold = some x ∧ m.ndim = x.ndim
  /-- The boundary of a mesh that is found is the mesh that includes it. -/
  known_iff : ∀ {id b}, s.knownMeshBoundary id = some b ↔
    ∃ n, s.meshes.get? b = some n ∧ n.inclusion = some id
  /-- The boundary of a mesh has one dimension less and lies on the boundary of the manifold. -/
  below : ∀ {id b}, s.knownMeshBoundary id = some b →
    ∃ m n, s.meshes.get? id = some m ∧ s.meshes.get? b = some n ∧ n.ndim + 1 = m.ndim ∧
      Manifold.boundary m.manifold s = .ok (some n.manifold) s
  /-- A mesh is the boundary of at most one mesh. -/
  unique : ∀ {id id' b}, s.knownMeshBoundary id = some b → s.knownMeshBoundary id' = some b →
    id = id'

theorem Sound.bordered (sound : s.Sound) : s.Bordered where
  ndim found := by
    obtain ⟨x, foundManifold, ndim, -⟩ := sound.meshes found
    exact ⟨x, foundManifold, ndim⟩
  known_iff := sound.knownMeshBoundary_iff
  below known := by
    obtain ⟨n, found, inclusion⟩ := sound.knownMeshBoundary_iff.1 known
    obtain ⟨m, foundMesh, bounds, ndim, -⟩ := sound.bounds_of_inclusion found inclusion
    exact ⟨m, n, foundMesh, found, ndim,
      Manifold.boundary_of_known (sound.knownManifoldBoundary_iff.2 bounds)⟩
  unique known known' := by
    obtain ⟨n, found, inclusion⟩ := sound.knownMeshBoundary_iff.1 known
    obtain ⟨n', found', inclusion'⟩ := sound.knownMeshBoundary_iff.1 known'
    cases found.symm.trans found'
    exact Option.some.inj (inclusion.symm.trans inclusion')

/-! ## Labels that users choose -/

/-- No mesh that is not a boundary has labels that a user chose to read like those of a
boundary. -/
def ChosenLabelsFree (s : Session) : Prop :=
  ∀ id m, s.meshes.get? id = some m → m.inclusion = none →
    (∀ n, m.labels ≠ s.settings.conventions.defaults.mesh.numbered n) →
      ¬ "\\eth".toList <+: m.labels.sym.toList ∧ ¬ "boundary-of-".toList <+: m.labels.lin.toList

/-- By default a mesh without labels of its own is not labelled like a boundary. -/
theorem ChosenLabelsFree.boundaryLabelsFree (free : s.ChosenLabelsFree)
    (settings : s.settings = {}) : s.BoundaryLabelsFree := by
  intro id m found own
  by_cases chosen : ∀ n, m.labels ≠ s.settings.conventions.defaults.mesh.numbered n
  · exact free id m found own chosen
  · push Not at chosen
    obtain ⟨n, labels⟩ := chosen
    rw [labels, settings, Labels.numbered_sym]
    refine ⟨fun starts => ?_, fun starts => ?_⟩
    · obtain ⟨tail, same⟩ := Labels.eq_append_of_prefix starts
      exact Labels.numberedSym_ne rfl rfl (by decide) n tail same
    · obtain ⟨tail, same⟩ := Labels.eq_append_of_prefix starts
      exact Labels.numbered_lin_ne rfl rfl (by decide) n tail same

/-! ## Taking boundaries -/

/-- Taking the boundary of a mesh again and again gives some meshes, and then none. -/
inductive Boundaries : Session → MeshId → List MeshId → Session → Prop
  | ended {s s' : Session} {id : MeshId} (run : Mesh.boundary id s = .ok none s') :
    Boundaries s id [] s'
  | next {s mid s' : Session} {id b : MeshId} {bs : List MeshId}
    (run : Mesh.boundary id s = .ok (some b) mid) (rest : Boundaries mid b bs s') :
    Boundaries s id (b :: bs) s'

namespace Boundaries

variable {id : MeshId} {bs bs' : List MeshId} {last : Session}

/-- What boundaries there are is determined. -/
theorem unique (chain : Boundaries s id bs s') (chain' : Boundaries s id bs' last) :
    bs' = bs ∧ last = s' := by
  induction chain generalizing bs' last with
  | ended run =>
    cases chain' with
    | ended run' =>
      cases run.symm.trans run'
      exact ⟨rfl, rfl⟩
    | next run' => cases run.symm.trans run'
  | next run _ ih =>
    cases chain' with
    | ended run' => cases run.symm.trans run'
    | next run' rest' =>
      cases run.symm.trans run'
      obtain ⟨rfl, rfl⟩ := ih rest'
      exact ⟨rfl, rfl⟩

theorem steps (chain : Boundaries s id bs s') : s.Steps s' := by
  induction chain with
  | ended run => exact (Mesh.boundary_grows _).steps run
  | next run _ ih => exact ((Mesh.boundary_grows _).steps run).trans ih

end Boundaries

/-- A mesh of points has no boundary. -/
theorem Sound.meshBoundary_eq_none (sound : s.Sound) {id : MeshId} {m : Mesh}
    (found : s.meshes.get? id = some m) (points : m.ndim = 0) :
    Mesh.boundary id s = .ok none s := by
  have unknown : s.knownMeshBoundary id = none := by
    by_contra known
    obtain ⟨b, known⟩ := Option.ne_none_iff_exists'.1 known
    obtain ⟨m', n, found', -, ndim, -⟩ := sound.bordered.below known
    cases found.symm.trans found'
    omega
  obtain ⟨x, foundManifold, ndim, -⟩ := sound.meshes found
  have unknownManifold : s.knownManifoldBoundary m.manifold = none := by
    by_contra known
    obtain ⟨y, known⟩ := Option.ne_none_iff_exists'.1 known
    obtain ⟨n, foundBoundary, bounds⟩ := sound.knownManifoldBoundary_iff.1 known
    have above := (sound.manifolds foundBoundary).2
    rw [bounds] at above
    obtain ⟨x', foundManifold', succ, -⟩ := above
    cases foundManifold.symm.trans foundManifold'
    omega
  have fetched : s.mesh id = .ok m := Arena.fetch_eq_ok_iff.2 found
  have fetchedManifold : s.manifold m.manifold = .ok x := Arena.fetch_eq_ok_iff.2 foundManifold
  have manifoldNone : Manifold.boundary m.manifold s = .ok none s := by
    rw [Manifold.boundary, get_bind, unknownManifold]
    dsimp only
    rw [lift_bind_of_ok fetchedManifold, if_pos (ndim ▸ points)]
    rfl
  rw [Mesh.boundary, get_bind, unknown]
  dsimp only
  rw [get_bind, lift_bind_of_ok fetched, bind_of_ok manifoldNone]
  rfl

/-- The dimensions of meshes, in a session that holds them. -/
def ndims (s : Session) (ids : List MeshId) : List (Option Nat) :=
  ids.map fun id => (s.meshes.get? id).map Mesh.ndim

/-- Boundaries can be taken as often as a mesh has dimensions. Each has one dimension less than the
one before. -/
theorem Sound.exists_boundaries (sound : s.Sound) (settings : s.settings = {})
    (free : s.BoundaryLabelsFree) {id : MeshId} {m : Mesh} (found : s.meshes.get? id = some m) :
    ∃ bs s', Boundaries s id bs s' ∧
      s'.ndims (id :: bs) = (List.range (m.ndim + 1)).reverse.map some := by
  induction ndim : m.ndim generalizing s id m with
  | zero =>
    exact ⟨[], s, .ended (sound.meshBoundary_eq_none found ndim), by simp [ndims, found, ndim]⟩
  | succ d ih =>
    obtain ⟨b, mid, run, -, old⟩ :=
      sound.meshBoundary_succeeds settings free found (by omega)
    have first := (Mesh.boundary_grows id).steps run
    obtain ⟨n, foundBoundary, inclusion⟩ := Mesh.inclusion_of_boundary run
    have soundMid := sound.steps first
    have below := soundMid.ndim_of_inclusion foundBoundary inclusion (first.extends.meshes found)
    obtain ⟨bs, s', rest, dims⟩ := ih soundMid (first.extends.settings.trans settings)
      (fun id m found own => free id m (old found own) own) foundBoundary (by omega)
    have kept := rest.steps.extends.meshes (first.extends.meshes found)
    refine ⟨b :: bs, s', .next run rest, ?_⟩
    rw [List.range_succ, List.reverse_append, ndims, List.map_cons, kept]
    exact congrArg₂ List.cons (congrArg some ndim) dims

/-- What taking boundaries from a mesh gives: as many meshes as it has dimensions, which are
different from it and from each other, of all the smaller dimensions. -/
structure TakesBoundaries (s : Session) (id : MeshId) (n : Nat) (bs : List MeshId)
    (s' : Session) : Prop where
  chain : Boundaries s id bs s'
  length : bs.length = n
  distinct : (id :: bs).Nodup
  dims : s'.ndims bs = (List.range n).reverse.map some
  /-- No other meshes are obtained. -/
  only : ∀ bs' last, Boundaries s id bs' last → bs' = bs ∧ last = s'

theorem Boundaries.takes {id : MeshId} {n : Nat} {bs : List MeshId} (chain : Boundaries s id bs s')
    (dims : s'.ndims (id :: bs) = (List.range (n + 1)).reverse.map some) :
    s.TakesBoundaries id n bs s' := by
  have below : s'.ndims bs = (List.range n).reverse.map some := by
    rw [List.range_succ, List.reverse_append, ndims] at dims
    exact (List.cons.inj dims).2
  refine ⟨chain, ?_, ?_, below, fun _ _ chain' => chain.unique chain'⟩
  · simpa [ndims] using congrArg List.length below
  · -- different dimensions belong to different meshes
    have apart : (s'.ndims (id :: bs)).Nodup := by
      rw [dims]
      exact (List.nodup_reverse.2 List.nodup_range).map (Option.some_injective Nat)
    exact List.Nodup.of_map _ apart

/-- The boundaries of every reachable session are consistent, and a boundary that was asked for
stays the boundary. By default, unless a user chose labels that read like those of a boundary,
boundaries can be taken until there is a mesh of points. -/
theorem Reachable.boundaries (reachable : Reachable settings s) :
    s.Bordered ∧
    (∀ {id b mid}, Mesh.boundary id s = .ok (some b) mid → ∀ requests,
      (mid.afterAll requests).Bordered ∧
      (mid.afterAll requests).knownMeshBoundary id = some b ∧
      Mesh.boundary id (mid.afterAll requests) = .ok (some b) (mid.afterAll requests)) ∧
    (settings = {} → s.ChosenLabelsFree → ∀ {id m}, s.meshes.get? id = some m →
      ∃ bs s', s.TakesBoundaries id m.ndim bs s') := by
  refine ⟨reachable.sound.bordered, fun {_ _ mid} run requests => ?_,
    fun defaults free id m found => ?_⟩
  · have later := mid.afterAll_steps requests
    have sound := (reachable.sound.steps ((Mesh.boundary_grows _).steps run)).steps later
    have known := later.extends.knownMeshBoundary (Mesh.knownBoundary_of_boundary run)
    exact ⟨sound.bordered, known, Mesh.boundary_of_known known⟩
  · have standard : s.settings = {} := reachable.settings_eq.trans defaults
    obtain ⟨bs, s', chain, dims⟩ := reachable.sound.exists_boundaries standard
      (free.boundaryLabelsFree standard) found
    exact ⟨bs, s', chain.takes dims⟩

/-- A solid has a surface, the surface has edges and the edges have ends. The surface stays the
boundary of the solid. -/
theorem boundaries_solid : ∃ s bs last, Reachable {} s ∧ s.TakesBoundaries ⟨0⟩ 3 bs last ∧
    ∃ b mid, Mesh.boundary ⟨0⟩ s = .ok (some b) mid ∧ ∀ requests,
      Mesh.boundary ⟨0⟩ (mid.afterAll requests) = .ok (some b) (mid.afterAll requests) := by
  obtain ⟨s, reachable, found, free⟩ : ∃ s, Reachable {} s ∧
      (s.meshes.get? ⟨0⟩).map Mesh.ndim = some 3 ∧ s.BoundaryLabelsFree :=
    ⟨Request.performAll {} [.manifold 3, .mesh ⟨0⟩], .performAll {} _, by decide +kernel⟩
  obtain ⟨m, found, ndim⟩ := Option.map_eq_some_iff.1 found
  obtain ⟨-, asked, taken⟩ := reachable.boundaries
  obtain ⟨bs, last, takes⟩ := taken rfl (fun id m found own _ => free id m found own) found
  rw [ndim] at takes
  refine ⟨s, bs, last, reachable, takes, ?_⟩
  cases takes.chain with
  | ended => exact absurd takes.length (by simp)
  | next run => exact ⟨_, _, run, fun requests => (asked run requests).2.2⟩

end Session

end Variational
