import Variational.Proofs.Geometry

/-!
# Spaces of forms

There is one space for every mesh, degree and orientation: `Space.withDegree_cases`
says how it is found or created. The space that an operator maps into is related
to its source by the rule of the operator.
-/

namespace Variational

open Derive

variable {s s' : Session}

namespace Space

/-! ## Finding and creating spaces -/

theorem setDegree_cases {id : SpaceId} {d : Nat} {u : Unit} (run : setDegree id d s = .ok u s') :
    ∃ sp, s.spaces.get? id = some sp ∧
      (sp.degree = some d ∧ s' = s ∨
        sp.degree = none ∧ s' = s.setSpace id { sp with degree := some d }) := by
  simp only [setDegree, get_bind, bind_eq_ok, lift_eq_ok] at run
  obtain ⟨sp, _, ⟨found, rfl⟩, run⟩ := run
  refine ⟨sp, Arena.fetch_eq_ok_iff.1 found, ?_⟩
  cases finite : sp.degree with
  | none =>
    rw [finite] at run
    exact Or.inr ⟨rfl, (set_eq_ok.1 run).symm⟩
  | some present =>
    simp only [finite] at run
    by_cases same : present = d
    · rw [if_neg fun differs => differs same] at run
      obtain ⟨-, rfl⟩ := pure_eq_ok.1 run
      exact Or.inl ⟨congrArg some same, rfl⟩
    · rw [if_pos same] at run
      obtain ⟨fails, -⟩ := lift_eq_ok.1 run
      simp at fails

theorem setDegree_grows (id : SpaceId) (d : Nat) : (setDegree id d).Grows s := by
  refine .get_bind (.lift_bind fun sp found => ?_)
  cases finite : sp.degree with
  | none => exact .set (.degree (Arena.fetch_eq_ok_iff.1 found) finite)
  | some present =>
    dsimp only
    split
    · exact .lift
    · exact .pure

/-- A space is found, perhaps made finite, or is new. -/
theorem withDegree_cases {mesh : MeshId} {k : Nat} {orientation : Orientation}
    {degree : Option Nat} {id : SpaceId}
    (run : withDegree mesh k orientation degree s = .ok id s') :
    ∃ m, s.meshes.get? mesh = some m ∧ k ≤ m.ndim ∧
      ((∃ sp, s.spaces.get? id = some sp ∧ sp.mesh = mesh ∧ sp.k = k ∧
          sp.orientation = orientation ∧
          ((degree = none ∨ sp.degree = degree) ∧ s' = s ∨
            sp.degree = none ∧ degree ≠ none ∧
              s' = s.setSpace id { sp with degree := degree })) ∨
        id = s.spaces.nextId ∧
          s' = s.addSpace ⟨mesh, k, orientation, degree, labelsOn m k orientation⟩) := by
  simp only [withDegree, get_bind, bind_eq_ok, lift_eq_ok] at run
  obtain ⟨m, _, ⟨foundMesh, rfl⟩, run⟩ := run
  rw [guard_eq_ok] at run
  obtain ⟨fits, run⟩ := run
  refine ⟨m, Arena.fetch_eq_ok_iff.1 foundMesh, Nat.not_lt.1 fits, ?_⟩
  cases known : s.spaces.find? fun sp =>
    sp.mesh = mesh ∧ sp.k = k ∧ sp.orientation = orientation with
  | some existing =>
    rw [known] at run
    obtain ⟨sp, found, same⟩ := Arena.find?_eq_some known
    obtain ⟨sameMesh, sameDegree, sameOrientation⟩ := of_decide_eq_true same
    cases degree with
    | none =>
      obtain ⟨rfl, rfl⟩ := pure_eq_ok.1 run
      exact Or.inl ⟨sp, found, sameMesh, sameDegree, sameOrientation,
        Or.inl ⟨Or.inl rfl, rfl⟩⟩
    | some d =>
      simp only [bind_eq_ok, pure_eq_ok] at run
      obtain ⟨_, _, run, rfl, rfl⟩ := run
      obtain ⟨sp', found', cases⟩ := setDegree_cases run
      rw [found] at found'
      cases found'
      refine Or.inl ⟨sp, found, sameMesh, sameDegree, sameOrientation, ?_⟩
      rcases cases with ⟨present, rfl⟩ | ⟨absent, rfl⟩
      · exact Or.inl ⟨Or.inr present, rfl⟩
      · exact Or.inr ⟨absent, by simp, rfl⟩
  | none =>
    simp only [known, bind_eq_ok, set_eq_ok, pure_eq_ok] at run
    obtain ⟨_, _, rfl, rfl, rfl⟩ := run
    exact Or.inr ⟨rfl, rfl⟩

theorem withDegree_grows (mesh : MeshId) (k : Nat) (orientation : Orientation)
    (degree : Option Nat) : (withDegree mesh k orientation degree).Grows s := by
  refine .get_bind (.lift_bind fun m foundMesh => .guard (fun fits => ?_) (by simp))
  split
  · cases degree with
    | none => exact .pure
    | some d => exact .bind (setDegree_grows _ d) fun _ _ _ => .pure
  · rename_i unknown
    exact .set_bind (.space (Arena.fetch_eq_ok_iff.1 foundMesh) (Nat.not_lt.1 fits) unknown)
      .pure

/-- The space that is found or created is the one that was asked for. -/
theorem withDegree_spec {mesh : MeshId} {k : Nat} {orientation : Orientation}
    {degree : Option Nat} {id : SpaceId}
    (run : withDegree mesh k orientation degree s = .ok id s') :
    ∃ sp, s'.spaces.get? id = some sp ∧ sp.mesh = mesh ∧ sp.k = k ∧
      sp.orientation = orientation ∧ (degree ≠ none → sp.degree = degree) := by
  obtain ⟨m, -, -, known | ⟨rfl, rfl⟩⟩ := withDegree_cases run
  · obtain ⟨sp, found, rfl, rfl, rfl, ⟨agrees, rfl⟩ | ⟨-, -, rfl⟩⟩ := known
    · exact ⟨sp, found, rfl, rfl, rfl, fun finite => agrees.resolve_left finite⟩
    · refine ⟨_, (Arena.get?_set found id).trans (if_pos rfl), rfl, rfl, rfl, fun _ => rfl⟩
  · exact ⟨_, Arena.get?_push_nextId, rfl, rfl, rfl, fun _ => rfl⟩

theorem on_grows (mesh : MeshId) (k : Nat) (orientation : Orientation) :
    (on mesh k orientation).Grows s :=
  withDegree_grows mesh k orientation none

theorem makeFinite_grows (d : Nat) : (makeFinite d).Grows s :=
  .get_bind (.forM (fun i _ => setDegree_grows ⟨i⟩ d) _ _)

/-! ## Operators between spaces -/

/-- A space that is made from a source in the session is related to it as it is made. -/
theorem exists_source_of_withDegree {source target : SpaceId} {sp : Space} {mesh : MeshId} {k : Nat}
    {orientation : Orientation} {degree : Option Nat} (found : s.space source = .ok sp)
    (run : withDegree mesh k orientation degree s = .ok target s') :
    ∃ src dst, s'.spaces.get? source = some src ∧ s'.spaces.get? target = some dst ∧
      src.mesh = sp.mesh ∧ src.k = sp.k ∧ src.orientation = sp.orientation ∧
      dst.mesh = mesh ∧ dst.k = k ∧ dst.orientation = orientation := by
  obtain ⟨dst, foundTarget, sameMesh, sameDegree, sameOrientation, -⟩ := withDegree_spec run
  obtain ⟨src, foundSource, becomes⟩ :=
    ((withDegree_grows _ _ _ _).extends run).spaces (Arena.fetch_eq_ok_iff.1 found)
  exact ⟨src, dst, foundSource, foundTarget, becomes.mesh_eq, becomes.k_eq,
    becomes.orientation_eq, sameMesh, sameDegree, sameOrientation⟩

theorem derivative_rule {source target : SpaceId} (run : derivative source s = .ok target s') :
    s'.OperatorRule .derivative source target := by
  simp only [derivative, get_bind, bind_eq_ok, lift_eq_ok] at run
  obtain ⟨sp, _, ⟨found, rfl⟩, m, _, ⟨-, rfl⟩, run⟩ := run
  rw [guard_eq_ok] at run
  obtain ⟨src, dst, foundSource, foundTarget, hm, hk, ho, hm', hk', ho'⟩ :=
    exists_source_of_withDegree found run.2
  exact ⟨src, dst, foundSource, foundTarget, hm'.trans hm.symm, hk'.trans (by rw [hk]),
    ho'.trans ho.symm⟩

/-- Finding or creating a space records no form. -/
theorem withDegree_forms {mesh : MeshId} {k : Nat} {orientation : Orientation}
    {degree : Option Nat} {id : SpaceId}
    (run : withDegree mesh k orientation degree s = .ok id s') : s'.forms = s.forms := by
  obtain ⟨m, -, -, ⟨sp, -, -, -, -, ⟨-, rfl⟩ | ⟨-, -, rfl⟩⟩ | ⟨-, rfl⟩⟩ := withDegree_cases run
  all_goals rfl

theorem derivative_forms {source target : SpaceId} (run : derivative source s = .ok target s') :
    s'.forms = s.forms := by
  simp only [derivative, get_bind, bind_eq_ok, lift_eq_ok] at run
  obtain ⟨sp, _, ⟨-, rfl⟩, m, _, ⟨-, rfl⟩, run⟩ := run
  rw [guard_eq_ok] at run
  exact withDegree_forms run.2

theorem derivative_grows (source : SpaceId) : (derivative source).Grows s :=
  .get_bind (.lift_bind fun _ _ => .get_bind (.lift_bind fun _ _ =>
    .guard (fun _ => withDegree_grows _ _ _ _) (by simp)))

theorem codifferential_rule {source target : SpaceId}
    (run : codifferential source s = .ok target s') :
    s'.OperatorRule .codifferential source target := by
  simp only [codifferential, get_bind, bind_eq_ok, lift_eq_ok] at run
  obtain ⟨sp, _, ⟨found, rfl⟩, run⟩ := run
  rw [guard_eq_ok] at run
  obtain ⟨src, dst, foundSource, foundTarget, hm, hk, ho, hm', hk', ho'⟩ :=
    exists_source_of_withDegree found run.2
  exact ⟨src, dst, foundSource, foundTarget, hm'.trans hm.symm, by omega, ho'.trans ho.symm⟩

theorem codifferential_grows (source : SpaceId) : (codifferential source).Grows s :=
  .get_bind (.lift_bind fun _ _ => .guard (fun _ => withDegree_grows _ _ _ _) (by simp))

theorem hodge_rule {source target : SpaceId} (run : hodge source s = .ok target s') :
    s'.OperatorRule .hodge source target := by
  simp only [hodge, get_bind, bind_eq_ok, lift_eq_ok] at run
  obtain ⟨sp, _, ⟨found, rfl⟩, m, _, ⟨foundMesh, rfl⟩, run⟩ := run
  obtain ⟨src, dst, foundSource, foundTarget, hm, hk, ho, hm', hk', ho'⟩ :=
    exists_source_of_withDegree found run
  have later := (withDegree_grows _ _ _ _).extends run
  refine ⟨src, dst, foundSource, foundTarget, hm'.trans hm.symm, ho'.trans (by rw [ho]), m, ?_,
    hk'.trans (by rw [hk])⟩
  rw [hm]
  exact later.meshes (Arena.fetch_eq_ok_iff.1 foundMesh)

theorem hodge_grows (source : SpaceId) : (hodge source).Grows s :=
  .get_bind (.lift_bind fun _ _ => .get_bind (.lift_bind fun _ _ => withDegree_grows _ _ _ _))

theorem trace_rule {source target : SpaceId} (run : trace source s = .ok target s') :
    s'.OperatorRule .trace source target := by
  simp only [trace, get_bind, bind_eq_ok, lift_eq_ok] at run
  obtain ⟨sp, _, ⟨found, rfl⟩, r, mid, boundary, run⟩ := run
  cases r with
  | none =>
    obtain ⟨fails, -⟩ := lift_eq_ok.1 run
    simp at fails
  | some b =>
    simp only [get_bind, bind_eq_ok, lift_eq_ok] at run
    obtain ⟨m, _, ⟨foundBoundary, rfl⟩, run⟩ := run
    rw [guard_eq_ok] at run
    obtain ⟨sp', foundMid, becomes⟩ :=
      ((Mesh.boundary_grows _).extends boundary).spaces (Arena.fetch_eq_ok_iff.1 found)
    obtain ⟨src, dst, foundSource, foundTarget, hm, hk, ho, hm', hk', ho'⟩ :=
      exists_source_of_withDegree (Arena.fetch_eq_ok_iff.2 foundMid) run.2
    obtain ⟨n, foundInclusion, inclusion⟩ := Mesh.inclusion_of_boundary boundary
    have later := (withDegree_grows _ _ _ _).extends run.2
    refine ⟨src, dst, foundSource, foundTarget, by rw [hk', hk, becomes.k_eq],
      by rw [ho', ho, becomes.orientation_eq], n, ?_, ?_⟩
    · rw [hm']
      exact later.meshes foundInclusion
    · rw [inclusion, hm, becomes.mesh_eq]

theorem trace_grows (source : SpaceId) : (trace source).Grows s := by
  refine .get_bind (.lift_bind fun sp _ => .bind (Mesh.boundary_grows _) fun r mid _ => ?_)
  cases r with
  | none => exact .lift
  | some b =>
    exact .get_bind (.lift_bind fun _ _ => .guard (fun _ => withDegree_grows _ _ _ _) (by simp))

theorem wedge_rule {left right target : SpaceId} (run : wedge left right s = .ok target s') :
    s'.WedgeRule left right target := by
  simp only [wedge, get_bind, bind_eq_ok, lift_eq_ok] at run
  obtain ⟨a, _, ⟨foundLeft, rfl⟩, b, _, ⟨foundRight, rfl⟩, run⟩ := run
  rw [guard_eq_ok] at run
  simp only [get_bind, bind_eq_ok, lift_eq_ok] at run
  obtain ⟨common, m, _, ⟨-, rfl⟩, run⟩ := run
  rw [guard_eq_ok] at run
  obtain ⟨a', dst, foundLeft', foundTarget, hm, hk, ho, hm', hk', ho'⟩ :=
    exists_source_of_withDegree foundLeft run.2
  obtain ⟨b', foundRight', becomes⟩ :=
    ((withDegree_grows _ _ _ _).extends run.2).spaces (Arena.fetch_eq_ok_iff.1 foundRight)
  refine ⟨a', b', dst, foundLeft', foundRight', foundTarget, ?_, hm'.trans hm.symm,
    by rw [hk', hk, becomes.k_eq], by rw [ho', ho, becomes.orientation_eq]⟩
  rw [hm, becomes.mesh_eq]
  exact Decidable.not_not.1 common

theorem wedge_grows (left right : SpaceId) : (wedge left right).Grows s :=
  .get_bind (.lift_bind fun _ _ => .get_bind (.lift_bind fun _ _ => .guard (fun _ =>
    .get_bind (.lift_bind fun _ _ => .guard (fun _ => withDegree_grows _ _ _ _) (by simp)))
      (by simp)))

end Space

end Variational
