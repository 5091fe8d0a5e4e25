import Variational.Proofs.Session.Growth

/-!
# Manifolds, meshes and spaces

What creating manifolds, meshes and spaces does to a session. The boundary of a
mesh includes the mesh, and the space that an operator maps into is related to
its source by the rule of the operator.
-/

namespace Variational

open Derive

variable {s s' : Session}

/-! ## Manifolds -/

namespace Manifold

theorem create_grows (ndim : Nat) : (create ndim).Grows s := by
  refine .get_bind (.guard (fun fits => ?_) (by simp))
  exact .set_bind (.manifold (Nat.not_lt.1 fits)) .pure

/-- The boundary of a manifold is known, is absent, or is new. -/
theorem boundary_cases {id : ManifoldId} {r : Option ManifoldId}
    (run : boundary id s = .ok r s') :
    (∃ b, s.knownManifoldBoundary id = some b ∧ r = some b ∧ s' = s) ∨
      ∃ m, s.knownManifoldBoundary id = none ∧ s.manifolds.get? id = some m ∧
        (m.ndim = 0 ∧ r = none ∧ s' = s ∨
          m.ndim ≠ 0 ∧ s.manifoldLabels.Available m.boundaryLabels ∧
            r = some s.manifolds.nextId ∧
            s' = s.addManifold ⟨m.ndim - 1, m.boundaryLabels, some id⟩) := by
  rw [boundary, get_bind] at run
  cases known : s.knownManifoldBoundary id with
  | some b =>
    rw [known] at run
    obtain ⟨rfl, rfl⟩ := pure_eq_ok.1 run
    exact Or.inl ⟨b, rfl, rfl, rfl⟩
  | none =>
    simp only [known, bind_eq_ok, lift_eq_ok] at run
    obtain ⟨m, _, ⟨found, rfl⟩, run⟩ := run
    refine Or.inr ⟨m, rfl, Arena.fetch_eq_ok_iff.1 found, ?_⟩
    split at run
    · rename_i point
      obtain ⟨rfl, rfl⟩ := pure_eq_ok.1 run
      exact Or.inl ⟨point, rfl, rfl⟩
    · rename_i positive
      simp only [bind_eq_ok, lift_eq_ok, pure_eq_ok] at run
      obtain ⟨_, _, ⟨available, rfl⟩, b, _, register, rfl, rfl⟩ := run
      cases register
      exact Or.inr ⟨positive, LabelIndex.checkAvailable_eq_ok.1 available, rfl, rfl⟩

theorem boundary_grows (id : ManifoldId) : (boundary id).Grows s := by
  refine .get_bind ?_
  cases known : s.knownManifoldBoundary id with
  | some b => exact .pure
  | none =>
    refine .lift_bind fun m found => ?_
    split
    · exact .pure
    · rename_i positive
      refine .lift_bind fun _ available => ?_
      exact .set_bind (.manifoldBoundary (Arena.fetch_eq_ok_iff.1 found) known positive
        (LabelIndex.checkAvailable_eq_ok.1 available)) .pure

theorem knownBoundary_of_boundary {id b : ManifoldId} (run : boundary id s = .ok (some b) s') :
    s'.knownManifoldBoundary id = some b := by
  rcases boundary_cases run with ⟨b', known, same, rfl⟩ | ⟨m, unknown, -, new⟩
  · cases same
    exact known
  · rcases new with ⟨-, absent, -⟩ | ⟨-, -, same, rfl⟩
    · cases absent
    · cases same
      exact Arena.find?_push_of_none unknown (by simp)

/-- The boundary that is there already is the one that is asked for. -/
theorem boundary_of_known {id b : ManifoldId} (known : s.knownManifoldBoundary id = some b) :
    boundary id s = .ok (some b) s := by
  rw [boundary, get_bind, known]
  rfl

/-- The boundary of a manifold leaves meshes and spaces alone. -/
theorem frame_of_boundary {id : ManifoldId} {r : Option ManifoldId}
    (run : boundary id s = .ok r s') :
    s'.meshes = s.meshes ∧ s'.meshLabels = s.meshLabels ∧ s'.spaces = s.spaces := by
  rcases boundary_cases run with ⟨_, -, -, rfl⟩ | ⟨_, -, -, ⟨-, -, rfl⟩ | ⟨-, -, -, rfl⟩⟩
  · exact ⟨rfl, rfl, rfl⟩
  · exact ⟨rfl, rfl, rfl⟩
  · exact ⟨rfl, rfl, rfl⟩

end Manifold

/-! ## Meshes -/

namespace Mesh

theorem register_of_found {manifold : ManifoldId} {m : Manifold} {labels : Labels}
    {inclusion : Option MeshId} (found : s.manifolds.get? manifold = some m) :
    register manifold labels inclusion s =
      .ok s.meshes.nextId (s.addMesh ⟨manifold, m.ndim, labels, inclusion⟩) := by
  have foundManifold : s.manifold manifold = .ok m := Arena.fetch_eq_ok_iff.2 found
  rw [register, get_bind, lift_bind_of_ok foundManifold]
  rfl

theorem coverAs_grows (manifold : ManifoldId) (labels : Labels) :
    (coverAs manifold labels).Grows s := by
  refine .lift_bind fun _ valid => .get_bind (.lift_bind fun _ available => ?_)
  cases uncovered : s.coveringMesh manifold with
  | some existing => exact .lift_bind fun _ _ => .lift_bind fun _ _ => .lift
  | none =>
    refine .get_bind (.lift_bind fun m found => ?_)
    exact .set_bind (.mesh (Arena.fetch_eq_ok_iff.1 found) valid
      (LabelIndex.checkAvailable_eq_ok.1 available) uncovered) .pure

theorem cover_grows (manifold : ManifoldId) : (cover manifold).Grows s :=
  .get_bind (coverAs_grows manifold _)

theorem boundary_grows (id : MeshId) : (boundary id).Grows s := by
  refine .get_bind ?_
  cases unknown : s.knownMeshBoundary id with
  | some b => exact .pure
  | none =>
    refine .get_bind (.lift_bind fun m found => ?_)
    refine .bind (Manifold.boundary_grows _) fun r mid run => ?_
    cases r with
    | none => exact .pure
    | some manifold =>
      refine .get_bind (.lift_bind fun _ available => ?_)
      refine .bind (.get_bind (.lift_bind fun n foundManifold => ?_)) fun _ _ _ => .pure
      obtain ⟨meshes, -, -⟩ := Manifold.frame_of_boundary run
      refine .set_bind (.meshBoundary ?_ ?_ (Manifold.knownBoundary_of_boundary run)
        (Arena.fetch_eq_ok_iff.1 foundManifold) (LabelIndex.checkAvailable_eq_ok.1 available))
        .pure
      · rw [meshes]
        exact Arena.fetch_eq_ok_iff.1 found
      · rw [Session.knownMeshBoundary, meshes]
        exact unknown

/-- The boundary that is found for a mesh is known from then on. -/
theorem knownBoundary_of_boundary {id b : MeshId} (run : boundary id s = .ok (some b) s') :
    s'.knownMeshBoundary id = some b := by
  rw [boundary, get_bind] at run
  cases unknown : s.knownMeshBoundary id with
  | some known =>
    rw [unknown] at run
    obtain ⟨same, rfl⟩ := pure_eq_ok.1 run
    cases same
    exact unknown
  | none =>
    simp only [unknown, get_bind, bind_eq_ok, lift_eq_ok] at run
    obtain ⟨m, _, ⟨found, rfl⟩, r, mid, boundary, run⟩ := run
    obtain ⟨meshes, -, -⟩ := Manifold.frame_of_boundary boundary
    cases r with
    | none =>
      obtain ⟨absent, -⟩ := pure_eq_ok.1 run
      cases absent
    | some manifold =>
      simp only [get_bind, bind_eq_ok, lift_eq_ok, pure_eq_ok] at run
      obtain ⟨_, _, ⟨-, rfl⟩, new, last, register, same, rfl⟩ := run
      cases same
      simp only [Mesh.register, get_bind, bind_eq_ok, lift_eq_ok, pure_eq_ok, set_eq_ok]
        at register
      obtain ⟨n, _, ⟨-, rfl⟩, _, _, rfl, rfl, rfl⟩ := register
      refine Arena.find?_push_of_none ?_ (by simp)
      rw [meshes]
      exact unknown

/-- The boundary that is there already is the one that is asked for. -/
theorem boundary_of_known {id b : MeshId} (known : s.knownMeshBoundary id = some b) :
    boundary id s = .ok (some b) s := by
  rw [boundary, get_bind, known]
  rfl

/-- The boundary of a mesh includes the mesh. -/
theorem inclusion_of_boundary {id b : MeshId} (run : boundary id s = .ok (some b) s') :
    ∃ m, s'.meshes.get? b = some m ∧ m.inclusion = some id := by
  obtain ⟨m, found, holds⟩ := Arena.find?_eq_some (knownBoundary_of_boundary run)
  exact ⟨m, found, by simpa using holds⟩

end Mesh

end Variational
