import Mathlib.Logic.Relation
import Variational.Proofs.Session.Distinct
import Variational.Proofs.Terms

/-!
# Meshes that cover one manifold

A mesh that is requested for a manifold is only made if no mesh covers it, but the
boundary of a mesh is made without that check. So a manifold can carry two meshes,
and it does so exactly if a boundary was made on a manifold that had a mesh of its
own, or because it bounds such a manifold.
-/

namespace Variational

open Relation

/-! ## The last entity with a property -/

theorem Arena.findLast?_eq_none {kind : EntityKind} {α : Type} {arena : Arena kind α}
    {p : α → Bool} :
    arena.findLast? p = none ↔ ∀ id x, arena.get? id = some x → p x = false := by
  rw [findLast?, Option.map_eq_none_iff, List.findIdx?_eq_none_iff]
  simp only [List.mem_reverse]
  exact forall_get?_iff.symm

namespace Session

/-! ## Coverings -/

/-- Every manifold of a session is covered by at most one mesh. -/
def CoveredOnce (s : Session) : Prop :=
  s.meshes.Distinct fun m m' => m.manifold = m'.manifold

/-- A manifold carries a mesh of its own and a later one that is the boundary of a mesh. -/
def CoveredAgain (s : Session) (x : ManifoldId) : Prop :=
  ∃ own boundary m b, s.meshes.get? own = some m ∧ s.meshes.get? boundary = some b ∧
    m.manifold = x ∧ b.manifold = x ∧ m.inclusion = none ∧ b.inclusion.isSome = true ∧
    own.index < boundary.index

/-- A manifold is the boundary of another one. -/
def Bounds (s : Session) (x y : ManifoldId) : Prop :=
  ∃ m, s.manifolds.get? x = some m ∧ m.boundaryOf = some y

/-- The first mesh on a manifold is its own mesh, if it has one. -/
def OwnFirst (s : Session) : Prop :=
  ∀ id id' m m', s.meshes.get? id = some m → s.meshes.get? id' = some m' →
    m.manifold = m'.manifold → m.inclusion = none → id.index ≤ id'.index

variable {s s' : Session} {settings : Settings}

theorem coveringMesh_eq_none {manifold : ManifoldId} : s.coveringMesh manifold = none ↔
    ∀ id m, s.meshes.get? id = some m → m.manifold ≠ manifold := by
  simp only [coveringMesh, Arena.findLast?_eq_none, decide_eq_false_iff_not, ne_eq]

theorem CoveredAgain.not_coveredOnce {x : ManifoldId} (again : s.CoveredAgain x) :
    ¬ s.CoveredOnce := by
  intro once
  obtain ⟨own, boundary, m, b, found, found', on, on', -, -, lt⟩ := again
  have same : own = boundary := once own boundary m b found found' (on.trans on'.symm)
  exact absurd lt (same ▸ Nat.lt_irrefl _)

/-! ## A mesh of its own is the first one -/

theorem OwnFirst.step (first : s.OwnFirst) (step : s.Step s') : s'.OwnFirst := by
  intro id id' m m' found found' common own
  cases step with
  | mesh _ _ _ uncovered =>
    have others := coveringMesh_eq_none.1 uncovered
    rcases Arena.get?_push_cases found with old | ⟨rfl, rfl⟩
    · rcases Arena.get?_push_cases found' with old' | ⟨rfl, rfl⟩
      · exact first id id' m m' old old' common own
      · exact absurd common (others id m old)
    · rcases Arena.get?_push_cases found' with old' | ⟨rfl, rfl⟩
      · exact absurd common.symm (others id' m' old')
      · exact Nat.le_refl _
  | meshBoundary =>
    rcases Arena.get?_push_cases found with old | ⟨rfl, rfl⟩
    · rcases Arena.get?_push_cases found' with old' | ⟨rfl, rfl⟩
      · exact first id id' m m' old old' common own
      · exact Nat.le_of_lt (Arena.lt_size old)
    · cases own
  | _ => exact first id id' m m' found found' common own

theorem Reachable.ownFirst (reachable : Reachable settings s) : s.OwnFirst :=
  reachable.invariant (fun _ _ _ _ found => by cases found) fun first step =>
    OwnFirst.step first step

/-! ## Where two meshes on one manifold come from -/

/-- The mesh of a boundary lies on the boundary of the manifold below the mesh that it
includes, which has one dimension more and is at most that of the surrounding space. -/
theorem Sound.bounds_of_inclusion (sound : s.Sound) {id p : MeshId} {b : Mesh}
    (found : s.meshes.get? id = some b) (inclusion : b.inclusion = some p) :
    ∃ m, s.meshes.get? p = some m ∧ s.Bounds b.manifold m.manifold ∧ b.ndim + 1 = m.ndim ∧
      m.ndim ≤ s.settings.embeddingDim.toNat := by
  obtain ⟨below, foundBelow, -, bounds⟩ := sound.meshes found
  obtain ⟨m, foundMesh, -, boundaryOf⟩ := bounds p inclusion
  obtain ⟨manifold, foundManifold, ndim, -⟩ := sound.meshes foundMesh
  refine ⟨m, foundMesh, ⟨below, foundBelow, boundaryOf⟩,
    sound.ndim_of_inclusion found inclusion foundMesh, ?_⟩
  rw [ndim]
  exact (sound.manifolds foundManifold).1

/-- A manifold bounds at most one other. -/
theorem Bounds.unique {x y z : ManifoldId} (left : s.Bounds x y) (right : s.Bounds x z) :
    y = z := by
  obtain ⟨m, found, boundaryOf⟩ := left
  obtain ⟨m', found', boundaryOf'⟩ := right
  cases found.symm.trans found'
  exact Option.some.inj (boundaryOf.symm.trans boundaryOf')

/-- A mesh of its own and another mesh on one manifold. -/
theorem OwnFirst.coveredAgain (first : s.OwnFirst) {id id' : MeshId} {m m' : Mesh}
    (found : s.meshes.get? id = some m) (found' : s.meshes.get? id' = some m')
    (common : m.manifold = m'.manifold) (distinct : id ≠ id') (own : m.inclusion = none) :
    s.CoveredAgain m.manifold := by
  have le := first id id' m m' found found' common own
  have lt : id.index < id'.index :=
    Nat.lt_of_le_of_ne le fun same => distinct (EntityId.ext same)
  refine ⟨id, id', m, m', found, found', rfl, common.symm, own, ?_, lt⟩
  -- A later mesh is not one of its own, as that would be the first one.
  cases own' : m'.inclusion with
  | some p => rfl
  | none => exact absurd (first id' id m' m found' found common.symm own') (Nat.not_le.2 lt)

/-- Two meshes on one manifold are due to a boundary on a manifold that had its own mesh:
this manifold or one that it bounds, perhaps through others. -/
theorem Sound.coveredAgain (sound : s.Sound) (first : s.OwnFirst) {id id' : MeshId} {m m' : Mesh}
    (found : s.meshes.get? id = some m) (found' : s.meshes.get? id' = some m')
    (common : m.manifold = m'.manifold) (distinct : id ≠ id') :
    ∃ x, ReflTransGen s.Bounds m.manifold x ∧ s.CoveredAgain x := by
  -- Two boundaries on one manifold include meshes that share a manifold as well, of one
  -- dimension more, and the dimensions are bounded.
  induction room : s.settings.embeddingDim.toNat - m.ndim using Nat.strong_induction_on
    generalizing id id' m m' with
  | h _ ih =>
    cases own : m.inclusion with
    | none => exact ⟨m.manifold, .refl, first.coveredAgain found found' common distinct own⟩
    | some p =>
      cases own' : m'.inclusion with
      | none =>
        refine ⟨m.manifold, .refl, ?_⟩
        rw [common]
        exact first.coveredAgain found' found common.symm distinct.symm own'
      | some p' =>
        obtain ⟨parent, foundParent, bounds, ndim, bound⟩ := sound.bounds_of_inclusion found own
        obtain ⟨parent', foundParent', bounds', -⟩ := sound.bounds_of_inclusion found' own'
        have parents : p ≠ p' := by
          rintro rfl
          exact distinct (sound.eq_of_inclusion found found' own own')
        have shared : parent.manifold = parent'.manifold := bounds.unique (common ▸ bounds')
        obtain ⟨x, chain, again⟩ :=
          ih _ (by omega) foundParent foundParent' shared parents rfl
        exact ⟨x, .head bounds chain, again⟩

/-! ## The coverings of reachable sessions -/

/-- How the meshes of a session cover its manifolds. -/
structure Coverings (s : Session) : Prop where
  /-- At most one mesh of a manifold is its own, and that mesh is the first one. -/
  ownFirst : s.OwnFirst
  /-- A manifold with two meshes, or one that it bounds, perhaps through others, had a mesh of its
  own when the boundary of a mesh was made on it. -/
  shared : ∀ id id' m m', s.meshes.get? id = some m → s.meshes.get? id' = some m' →
    m.manifold = m'.manifold → id ≠ id' →
      ∃ x, ReflTransGen s.Bounds m.manifold x ∧ s.CoveredAgain x
  /-- Every manifold has at most one mesh exactly if no boundary was made on such a manifold. -/
  once : s.CoveredOnce ↔ ∀ x, ¬ s.CoveredAgain x

/-- The meshes of every reachable session. -/
theorem Reachable.coverings (reachable : Reachable settings s) : s.Coverings where
  ownFirst := reachable.ownFirst
  shared _ _ _ _ := reachable.sound.coveredAgain reachable.ownFirst
  once := by
    constructor
    · exact fun once x again => again.not_coveredOnce once
    · intro never id id' m m' found found' common
      by_contra distinct
      obtain ⟨x, -, again⟩ :=
        reachable.sound.coveredAgain reachable.ownFirst found found' common distinct
      exact never x again

/-- A surface and its boundary are covered once by a mesh and the boundary of that mesh. -/
theorem coverings_surface : ∃ s, Reachable {} s ∧ s.Coverings ∧ s.CoveredOnce ∧
    s.meshes.size = 2 ∧ s.coveringMesh ⟨0⟩ = some ⟨0⟩ ∧ s.coveringMesh ⟨1⟩ = some ⟨1⟩ := by
  obtain ⟨s, reachable, apart, rest⟩ : ∃ s, Reachable {} s ∧
      (∀ m ∈ s.meshes.entities, ∀ b ∈ s.meshes.entities,
        m.inclusion = none → b.inclusion.isSome = true → m.manifold ≠ b.manifold) ∧
      s.meshes.size = 2 ∧ s.coveringMesh ⟨0⟩ = some ⟨0⟩ ∧ s.coveringMesh ⟨1⟩ = some ⟨1⟩ :=
    ⟨Request.performAll {} [.manifold 2, .mesh ⟨0⟩, .meshBoundary ⟨0⟩],
      .performAll {} _, by decide +kernel⟩
  have coverings : s.Coverings := reachable.coverings
  refine ⟨s, reachable, coverings, coverings.once.2 fun x again => ?_, rest⟩
  obtain ⟨_, _, m, b, found, found', on, on', own, boundary, -⟩ := again
  exact apart m (List.mem_of_getElem? found) b (List.mem_of_getElem? found') own boundary
    (on.trans on'.symm)

/-- The boundary of a mesh is made on a manifold that has a mesh already: of an interval with a
mesh, cover the end points with a mesh, then take the boundary of the first mesh. -/
theorem boundary_covers_again : ∃ s, Reachable {} s ∧ s.CoveredAgain ⟨1⟩ ∧ ¬ s.CoveredOnce := by
  obtain ⟨s, reachable, own, boundary⟩ : ∃ s, Reachable {} s ∧
      (s.meshes.get? ⟨1⟩).map (fun m => (m.manifold, m.inclusion)) = some (⟨1⟩, none) ∧
      (s.meshes.get? ⟨2⟩).map (fun m => (m.manifold, m.inclusion)) = some (⟨1⟩, some ⟨0⟩) :=
    ⟨Request.performAll {} [.manifold 1, .mesh ⟨0⟩, .manifoldBoundary ⟨0⟩, .mesh ⟨1⟩,
      .meshBoundary ⟨0⟩], .performAll {} _, by decide +kernel⟩
  obtain ⟨m, found, of⟩ := Option.map_eq_some_iff.1 own
  obtain ⟨b, found', of'⟩ := Option.map_eq_some_iff.1 boundary
  obtain ⟨on, first⟩ := Prod.mk.inj of
  obtain ⟨on', included⟩ := Prod.mk.inj of'
  have again : s.CoveredAgain ⟨1⟩ :=
    ⟨⟨1⟩, ⟨2⟩, m, b, found, found', on, on', first, by simp [included], by decide⟩
  exact ⟨s, reachable, again, again.not_coveredOnce⟩

end Session

end Variational
