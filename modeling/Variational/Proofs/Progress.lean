import Variational.Proofs.Terms

/-!
# Operators that succeed

Under default settings the operators of forms fail only for the dimension of their
operands, as long as no label of a user reads like one of a boundary and all
finite spaces share one polynomial degree. `Session.Ready` states this of a
session; every operator succeeds in a ready session and leaves a ready one.
-/

namespace Variational

open Derive

/-! ## Labels of boundaries -/

/-- No variant of a symbol that starts otherwise reads like that of a boundary. -/
theorem Labels.numberedSym_ne {stem opening : String} {c c' : Char} {rest rest' : List Char}
    (starts : stem.toList = '\\' :: c :: rest) (starts' : opening.toList = '\\' :: c' :: rest')
    (differ : c ≠ c') (n : Nat) (tail : String) : numberedSym stem n ≠ opening ++ tail := by
  intro same
  have chars := congrArg String.toList same
  rw [numberedSym] at chars
  split at chars <;> simp [String.toList_append, starts, starts', differ, toString] at chars

theorem Labels.numbered_lin_ne {labels : Labels} {opening : String} {c c' : Char}
    {rest rest' : List Char} (starts : labels.lin.toList = c :: rest)
    (starts' : opening.toList = c' :: rest') (differ : c ≠ c') (n : Nat) (tail : String) :
    (labels.numbered n).lin ≠ opening ++ tail := by
  intro same
  have chars := congrArg String.toList same
  rw [numbered] at chars
  split at chars <;> simp [String.toList_append, starts, starts', differ, toString] at chars

theorem Manifold.boundaryLabels_sym_inj {m n : Manifold} :
    m.boundaryLabels.sym = n.boundaryLabels.sym ↔ m.labels.sym = n.labels.sym :=
  String.append_right_inj _

theorem Manifold.boundaryLabels_lin_inj {m n : Manifold} :
    m.boundaryLabels.lin = n.boundaryLabels.lin ↔ m.labels.lin = n.labels.lin :=
  String.append_right_inj _

theorem Mesh.boundaryLabels_sym_inj {m n : Mesh} :
    m.boundaryLabels.sym = n.boundaryLabels.sym ↔ m.labels.sym = n.labels.sym :=
  String.append_right_inj _

theorem Mesh.boundaryLabels_lin_inj {m n : Mesh} :
    m.boundaryLabels.lin = n.boundaryLabels.lin ↔ m.labels.lin = n.labels.lin :=
  String.append_right_inj _

namespace Session

/-! ## Ready sessions -/

/-- All finite spaces have the same polynomial degree. -/
def FiniteAt (s : Session) (d : Nat) : Prop :=
  ∀ id sp, s.spaces.get? id = some sp → sp.degree = none ∨ sp.degree = some d

/-- No mesh that is not a boundary is labelled like one. -/
def BoundaryLabelsFree (s : Session) : Prop :=
  ∀ id m, s.meshes.get? id = some m → m.inclusion = none →
    ¬ "\\eth".toList <+: m.labels.sym.toList ∧ ¬ "boundary-of-".toList <+: m.labels.lin.toList

instance (s : Session) (d : Nat) : Decidable (s.FiniteAt d) :=
  decidable_of_iff _ Arena.forall_get?_iff.symm

instance (s : Session) : Decidable s.BoundaryLabelsFree :=
  decidable_of_iff _ Arena.forall_get?_iff.symm

/-- Sessions in which operators fail only for the dimension of their operands. -/
structure Ready (s : Session) (d : Nat) : Prop where
  sound : s.Sound
  settings : s.settings = {}
  finite : s.FiniteAt d
  free : s.BoundaryLabelsFree

variable {s s' : Session} {d : Nat}

/-- A later session in which all new meshes are boundaries and finite spaces still share
their degree is ready as well. -/
theorem Ready.of_steps (ready : s.Ready d) (steps : s.Steps s') (finite : s'.FiniteAt d)
    (old : ∀ {id m}, s'.meshes.get? id = some m → m.inclusion = none →
      s.meshes.get? id = some m) : s'.Ready d where
  sound := ready.sound.steps steps
  settings := steps.extends.settings.trans ready.settings
  finite := finite
  free id m found inclusion := ready.free id m (old found inclusion) inclusion

/-- Under default settings the labels of an unknown boundary of a manifold are free. -/
theorem Sound.boundaryLabels_available (sound : s.Sound) (settings : s.settings = {})
    {id : ManifoldId} {m : Manifold} (found : s.manifolds.get? id = some m)
    (unknown : s.knownManifoldBoundary id = none) :
    s.manifoldLabels.Available m.boundaryLabels := by
  rw [sound.manifoldLabels.available_iff]
  intro other x foundOther
  have labelled := (sound.manifolds foundOther).2
  cases bounds : x.boundaryOf with
  | none =>
    simp only [bounds] at labelled
    obtain ⟨n, labelled⟩ := labelled
    rw [labelled, settings, Labels.numbered_sym]
    exact ⟨Labels.numberedSym_ne rfl rfl (by decide) n _,
      Labels.numbered_lin_ne rfl rfl (by decide) n _⟩
  | some p =>
    simp only [bounds] at labelled
    obtain ⟨parent, foundParent, -, labelled⟩ := labelled
    -- A manifold with the same parent would be the known boundary.
    have differs : p ≠ id := by
      intro same
      subst same
      simpa [bounds] using Arena.find?_eq_none.1 unknown other x foundOther
    rw [labelled, Ne, Ne, Manifold.boundaryLabels_sym_inj, Manifold.boundaryLabels_lin_inj]
    exact ⟨fun same => differs (sound.manifoldLabels.eq_of_sym foundParent found same),
      fun same => differs (sound.manifoldLabels.eq_of_lin foundParent found same)⟩

/-- The labels of an unknown boundary of a mesh are free. -/
theorem Sound.meshBoundaryLabels_available (sound : s.Sound) (free : s.BoundaryLabelsFree)
    {id : MeshId} {m : Mesh} (found : s.meshes.get? id = some m)
    (unknown : s.knownMeshBoundary id = none) : s.meshLabels.Available m.boundaryLabels := by
  rw [sound.meshLabels.available_iff]
  intro other x foundOther
  cases inclusion : x.inclusion with
  | none =>
    obtain ⟨freeSym, freeLin⟩ := free other x foundOther inclusion
    refine ⟨fun same => freeSym ?_, fun same => freeLin ?_⟩
    · exact ⟨m.labels.sym.toList, by rw [same, Mesh.boundaryLabels, String.toList_append]⟩
    · exact ⟨m.labels.lin.toList, by rw [same, Mesh.boundaryLabels, String.toList_append]⟩
  | some p =>
    obtain ⟨_, -, -, boundary⟩ := sound.meshes foundOther
    obtain ⟨parent, foundParent, labelled, -⟩ := boundary p inclusion
    have differs : p ≠ id := by
      intro same
      subst same
      simpa [inclusion] using Arena.find?_eq_none.1 unknown other x foundOther
    rw [labelled, Ne, Ne, Mesh.boundaryLabels_sym_inj, Mesh.boundaryLabels_lin_inj]
    exact ⟨fun same => differs (sound.meshLabels.eq_of_sym foundParent found same),
      fun same => differs (sound.meshLabels.eq_of_lin foundParent found same)⟩

/-! ## Boundaries -/

/-- A manifold that is not a point has a boundary. -/
theorem Sound.manifoldBoundary_succeeds (sound : s.Sound) (settings : s.settings = {})
    {id : ManifoldId} {m : Manifold} (found : s.manifolds.get? id = some m)
    (positive : m.ndim ≠ 0) : ∃ b s', Manifold.boundary id s = .ok (some b) s' := by
  rw [Manifold.boundary, get_bind]
  cases unknown : s.knownManifoldBoundary id with
  | some b => exact ⟨b, s, rfl⟩
  | none =>
    have foundManifold : s.manifold id = .ok m := Arena.fetch_eq_ok_iff.2 found
    have available := LabelIndex.checkAvailable_eq_ok.2
      (sound.boundaryLabels_available settings found unknown)
    dsimp only
    rw [lift_bind_of_ok foundManifold, if_neg positive, lift_bind_of_ok available]
    exact ⟨_, _, rfl⟩

/-- A mesh that is not a point has a boundary. Taking it makes no spaces, and all meshes that it
makes are boundaries. -/
theorem Sound.meshBoundary_succeeds (sound : s.Sound) (settings : s.settings = {})
    (free : s.BoundaryLabelsFree) {id : MeshId} {m : Mesh} (found : s.meshes.get? id = some m)
    (positive : m.ndim ≠ 0) :
    ∃ b s', Mesh.boundary id s = .ok (some b) s' ∧ s'.spaces = s.spaces ∧
      ∀ {id m}, s'.meshes.get? id = some m → m.inclusion = none → s.meshes.get? id = some m := by
  obtain ⟨n, foundManifold, ndim, -⟩ := sound.meshes found
  rw [Mesh.boundary, get_bind]
  cases unknown : s.knownMeshBoundary id with
  | some b => exact ⟨b, s, rfl, rfl, fun found _ => found⟩
  | none =>
    obtain ⟨b, mid, below⟩ := sound.manifoldBoundary_succeeds settings
      foundManifold (ndim ▸ positive)
    obtain ⟨boundary, foundBoundary, -⟩ :=
      Arena.find?_eq_some (Manifold.knownBoundary_of_boundary below)
    obtain ⟨meshes, labels, spaces⟩ := Manifold.frame_of_boundary below
    have foundMesh : s.mesh id = .ok m := Arena.fetch_eq_ok_iff.2 found
    have available := LabelIndex.checkAvailable_eq_ok.2
      (sound.meshBoundaryLabels_available free found unknown)
    dsimp only
    rw [get_bind, lift_bind_of_ok foundMesh, bind_of_ok below]
    dsimp only
    rw [get_bind, labels, lift_bind_of_ok available,
      bind_of_ok (Mesh.register_of_found foundBoundary)]
    refine ⟨_, _, rfl, spaces, fun found' inclusion => ?_⟩
    rcases Arena.get?_push_cases found' with old | ⟨-, rfl⟩
    · exact meshes ▸ old
    · cases inclusion

/-- A mesh that is not a point has a boundary, and the session stays ready. -/
theorem Ready.boundary_succeeds (ready : s.Ready d) {id : MeshId} {m : Mesh}
    (found : s.meshes.get? id = some m) (positive : m.ndim ≠ 0) :
    ∃ b s', Mesh.boundary id s = .ok (some b) s' ∧ s'.Ready d := by
  obtain ⟨b, s', run, spaces, old⟩ :=
    ready.sound.meshBoundary_succeeds ready.settings ready.free found positive
  exact ⟨b, s', run, ready.of_steps ((Mesh.boundary_grows id).steps run)
    (fun id sp found => ready.finite id sp (spaces ▸ found)) old⟩

/-! ## Spaces -/

theorem FiniteAt.setDegree_succeeds (finite : s.FiniteAt d) {id : SpaceId} {sp : Space}
    (found : s.spaces.get? id = some sp) : ∃ s', Space.setDegree id d s = .ok () s' := by
  have foundSpace : s.space id = .ok sp := Arena.fetch_eq_ok_iff.2 found
  rw [Space.setDegree, get_bind, lift_bind_of_ok foundSpace]
  rcases finite id sp found with absent | present
  · rw [absent]
    exact ⟨_, rfl⟩
  · rw [present]
    exact ⟨s, by simp [pure, EStateM.pure]⟩

/-- A space that is found or created shares the degree of the finite spaces. -/
theorem FiniteAt.of_withDegree (finite : s.FiniteAt d) {mesh : MeshId} {k : Nat}
    {orientation : Orientation} {degree : Option Nat} {id : SpaceId}
    (shared : degree = none ∨ degree = some d)
    (run : Space.withDegree mesh k orientation degree s = .ok id s') : s'.FiniteAt d := by
  obtain ⟨m, -, -, known | ⟨-, rfl⟩⟩ := Space.withDegree_cases run
  · obtain ⟨sp, foundSpace, -, -, -, ⟨-, rfl⟩ | ⟨-, -, rfl⟩⟩ := known
    · exact finite
    · intro other sp' found'
      change (s.spaces.set id { sp with degree := degree }).get? other = some sp' at found'
      rw [Arena.get?_set foundSpace] at found'
      split at found'
      · cases found'
        exact shared
      · exact finite other sp' found'
  · intro other sp' found'
    rcases Arena.get?_push_cases found' with old | ⟨-, rfl⟩
    · exact finite other sp' old
    · exact shared

theorem FiniteAt.withDegree_succeeds (finite : s.FiniteAt d) {mesh : MeshId} {m : Mesh} {k : Nat}
    (orientation : Orientation) {degree : Option Nat} (found : s.meshes.get? mesh = some m)
    (fits : k ≤ m.ndim) (shared : degree = none ∨ degree = some d) :
    ∃ id s', Space.withDegree mesh k orientation degree s = .ok id s' := by
  have foundMesh : s.mesh mesh = .ok m := Arena.fetch_eq_ok_iff.2 found
  rw [Space.withDegree, get_bind, lift_bind_of_ok foundMesh, if_neg (Nat.not_lt.2 fits)]
  cases known : s.spaces.find? fun sp =>
    sp.mesh = mesh ∧ sp.k = k ∧ sp.orientation = orientation with
  | none => exact ⟨_, _, rfl⟩
  | some existing =>
    obtain ⟨sp, foundSpace, -⟩ := Arena.find?_eq_some known
    rcases shared with rfl | rfl
    · exact ⟨existing, s, rfl⟩
    · obtain ⟨s', set⟩ := finite.setDegree_succeeds foundSpace
      exact ⟨existing, s', bind_of_ok set _⟩

theorem Ready.withDegree_succeeds (ready : s.Ready d) {mesh : MeshId} {m : Mesh} {k : Nat}
    (orientation : Orientation) {degree : Option Nat} (found : s.meshes.get? mesh = some m)
    (fits : k ≤ m.ndim) (shared : degree = none ∨ degree = some d) :
    ∃ id s', Space.withDegree mesh k orientation degree s = .ok id s' ∧ s'.Ready d := by
  obtain ⟨id, s', run⟩ := ready.finite.withDegree_succeeds orientation found fits shared
  refine ⟨id, s', run, ready.of_steps ((Space.withDegree_grows _ _ _ _).steps run)
    (ready.finite.of_withDegree shared run) fun found' _ => ?_⟩
  obtain ⟨_, -, -, ⟨_, -, -, -, -, ⟨-, rfl⟩ | ⟨-, -, rfl⟩⟩ | ⟨-, rfl⟩⟩ := Space.withDegree_cases run
  · exact found'
  · exact found'
  · exact found'

end Session

/-! ## Operators -/

/-- The degrees on a mesh of dimension `n` that an operator can be applied to. -/
def UnaryOperator.Fits (n k : Nat) : UnaryOperator → Prop
  | .derivative | .trace => k < n
  | .codifferential => 0 < k
  | .hodge | .timeDerivative => True

namespace Session

variable {s s' : Session} {d : Nat}

theorem Ready.unarySpace_succeeds (ready : s.Ready d) {op : UnaryOperator} {source : SpaceId}
    {sp : Space} {m : Mesh} (found : s.spaces.get? source = some sp)
    (foundMesh : s.meshes.get? sp.mesh = some m) (fits : op.Fits m.ndim sp.k) :
    ∃ target s', Form.unarySpace op source s = .ok target s' ∧ s'.Ready d := by
  have foundSpace : s.space source = .ok sp := Arena.fetch_eq_ok_iff.2 found
  have fetchedMesh : s.mesh sp.mesh = .ok m := Arena.fetch_eq_ok_iff.2 foundMesh
  obtain ⟨m', foundMesh', bound, -⟩ := ready.sound.spaces found
  cases foundMesh.symm.trans foundMesh'
  have shared := ready.finite source sp found
  cases op with
  | derivative =>
    rw [Form.unarySpace, Space.derivative, get_bind, lift_bind_of_ok foundSpace, get_bind,
      lift_bind_of_ok fetchedMesh, if_neg (Nat.not_le.2 fits)]
    exact ready.withDegree_succeeds _ foundMesh fits shared
  | codifferential =>
    rw [Form.unarySpace, Space.codifferential, get_bind, lift_bind_of_ok foundSpace,
      if_neg (Nat.pos_iff_ne_zero.1 fits)]
    exact ready.withDegree_succeeds _ foundMesh (Nat.le_trans (Nat.sub_le _ _) bound) shared
  | hodge =>
    rw [Form.unarySpace, Space.hodge, get_bind, lift_bind_of_ok foundSpace, get_bind,
      lift_bind_of_ok fetchedMesh]
    exact ready.withDegree_succeeds _ foundMesh (Nat.sub_le _ _) shared
  | trace =>
    have positive : m.ndim ≠ 0 := Nat.ne_of_gt (Nat.zero_lt_of_lt fits)
    obtain ⟨b, mid, boundary, readyMid⟩ := ready.boundary_succeeds foundMesh positive
    obtain ⟨n, foundBoundary, inclusion⟩ := Mesh.inclusion_of_boundary boundary
    have later := (Mesh.boundary_grows _).extends boundary
    have below := readyMid.sound.ndim_of_inclusion foundBoundary inclusion
      (later.meshes foundMesh)
    have fetchedBoundary : mid.mesh b = .ok n := Arena.fetch_eq_ok_iff.2 foundBoundary
    have fitsBelow : sp.k ≤ n.ndim := by
      change sp.k < m.ndim at fits
      omega
    rw [Form.unarySpace, Space.trace, get_bind, lift_bind_of_ok foundSpace, bind_of_ok boundary]
    dsimp only
    rw [get_bind, lift_bind_of_ok fetchedBoundary, if_neg (Nat.not_lt.2 fitsBelow)]
    exact readyMid.withDegree_succeeds _ foundBoundary fitsBelow shared
  | timeDerivative => exact ⟨source, s, rfl, ready⟩

/-- In a ready session every operator can be applied to a form whose degree fits. -/
theorem Ready.apply_succeeds (ready : s.Ready d) (op : UnaryOperator) {f : FormId} {mesh : MeshId}
    {m : Mesh} {k : Nat} (lives : s.Lives f mesh k) (foundMesh : s.meshes.get? mesh = some m)
    (fits : op.Fits m.ndim k) : ∃ g s', Form.apply op f s = .ok g s' ∧ s'.Ready d := by
  obtain ⟨a, sp, found, foundSpace, rfl, rfl⟩ := lives
  obtain ⟨target, mid, related, readyMid⟩ :=
    ready.unarySpace_succeeds foundSpace foundMesh fits
  have later := (Form.unarySpace_grows op a.space).extends related
  obtain ⟨dst, foundTarget⟩ := Form.exists_space_of_unarySpace foundSpace related
  have holds : mid.forms.Holds (.unary op f) := by
    intro g member
    rw [List.mem_singleton.1 member]
    exact (List.getElem?_eq_some_iff.1 (later.forms found)).1
  obtain ⟨g, s', run⟩ := Form.apply_of_ok found related
    fun labels => Form.derived_succeeds labels foundTarget holds
  obtain ⟨a', target', mid', labels, found', related', derived⟩ := Form.apply_cases run
  cases found.symm.trans found'
  cases related.symm.trans related'
  refine ⟨g, s', run, ?_⟩
  rcases Form.derived_cases derived with ⟨-, -, -, rfl⟩ | ⟨holds, -, rfl⟩
  · exact readyMid
  · exact ⟨ready.sound.steps ((Form.apply_grows op f).steps run), readyMid.settings,
      readyMid.finite, readyMid.free⟩

end Session

end Variational
