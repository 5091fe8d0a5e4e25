import Variational.Proofs.Labels
import Variational.Proofs.Session.Reachability

/-!
# Invariants of sessions

What holds of the entities of every reachable session: indices record the labels
of their arena, boundaries are related to what they bound, spaces fit their mesh,
forms are typed, and arrays are labelled for what they represent. Each part is
kept by every step, and `Session.Reachable.sound` puts them together.
-/

namespace Variational

namespace Session

/-! ## What entities satisfy -/

/-- A manifold is numbered, or is the boundary of another one. -/
def ManifoldSound (s : Session) (m : Manifold) : Prop :=
  m.ndim ≤ s.settings.embeddingDim.toNat ∧
  match m.boundaryOf with
  | none => ∃ n, m.labels = s.settings.conventions.defaults.manifold.numbered n
  | some p => ∃ parent, s.manifolds.get? p = some parent ∧ m.ndim + 1 = parent.ndim ∧
      m.labels = parent.boundaryLabels

/-- A mesh has the dimension of its manifold. The mesh of a boundary lies on the boundary of
the manifold below the mesh that it includes. -/
def MeshSound (s : Session) (m : Mesh) : Prop :=
  ∃ manifold, s.manifolds.get? m.manifold = some manifold ∧ m.ndim = manifold.ndim ∧
    ∀ p, m.inclusion = some p → ∃ parent, s.meshes.get? p = some parent ∧
      m.labels = parent.boundaryLabels ∧ manifold.boundaryOf = some parent.manifold

/-- The forms of a space fit the dimension of its mesh. -/
def SpaceSound (s : Session) (sp : Space) : Prop :=
  ∃ m, s.meshes.get? sp.mesh = some m ∧ sp.k ≤ m.ndim ∧
    sp.labels = Space.labelsOn m sp.k sp.orientation

/-- A form is typed. Exactly the root forms have a pure label. -/
def FormSound (s : Session) (f : Form) : Prop :=
  (∃ sp, s.spaces.get? f.space = some sp) ∧ s.Typed f.space f.expr ∧
    (f.pureLin.isSome = true ↔ f.expr.isLeaf = true)

variable {s s' : Session}

theorem Extends.manifoldSound (later : s.Extends s') {m : Manifold} (sound : s.ManifoldSound m) :
    s'.ManifoldSound m := by
  unfold ManifoldSound at sound ⊢
  rw [later.settings]
  refine ⟨sound.1, ?_⟩
  cases bounds : m.boundaryOf with
  | none => simpa only [bounds] using sound.2
  | some p =>
    simp only [bounds] at sound ⊢
    obtain ⟨-, parent, found, rest⟩ := sound
    exact ⟨parent, later.manifolds found, rest⟩

theorem Extends.meshSound (later : s.Extends s') {m : Mesh} (sound : s.MeshSound m) :
    s'.MeshSound m := by
  obtain ⟨manifold, found, ndim, boundary⟩ := sound
  refine ⟨manifold, later.manifolds found, ndim, fun p inclusion => ?_⟩
  obtain ⟨parent, foundParent, rest⟩ := boundary p inclusion
  exact ⟨parent, later.meshes foundParent, rest⟩

theorem Extends.spaceSound (later : s.Extends s') {sp : Space} (sound : s.SpaceSound sp) :
    s'.SpaceSound sp := by
  obtain ⟨m, found, rest⟩ := sound
  exact ⟨m, later.meshes found, rest⟩

theorem Extends.formSound (later : s.Extends s') {f : Form} (sound : s.FormSound f) :
    s'.FormSound f := by
  obtain ⟨⟨sp, found⟩, typed, labelled⟩ := sound
  obtain ⟨sp', found', -⟩ := later.spaces found
  exact ⟨⟨sp', found'⟩, later.typed typed, labelled⟩

/-! ## The invariant -/

/-- The invariant of sessions. -/
structure Sound (s : Session) : Prop where
  manifoldLabels : s.manifoldLabels.Records s.manifolds (·.labels)
  meshLabels : s.meshLabels.Records s.meshes (·.labels)
  formLabels : ∀ {id f lin}, s.forms.get? id = some f → f.pureLin = some lin →
    s.formLabels.byLin? lin = some id ∧ s.formLabels.bySym? f.sym = some id
  arrayLabels : s.arrayLabels.Records s.arrays fun a => ⟨a.sym, a.pureLin⟩
  manifolds : ∀ {id m}, s.manifolds.get? id = some m → s.ManifoldSound m
  meshes : ∀ {id m}, s.meshes.get? id = some m → s.MeshSound m
  spaces : ∀ {id sp}, s.spaces.get? id = some sp → s.SpaceSound sp
  distinctSpaces : ∀ {id id' sp sp'}, s.spaces.get? id = some sp → s.spaces.get? id' = some sp' →
    sp.mesh = sp'.mesh → sp.k = sp'.k → sp.orientation = sp'.orientation → id = id'
  forms : ∀ {id f}, s.forms.get? id = some f → s.FormSound f
  arrays : ∀ {id a}, s.arrays.get? id = some a → s.Represents a
  arraySymbols : ∀ {id a}, s.arrays.get? id = some a → s.Symbolizes a

namespace Step

theorem manifoldLabels (step : s.Step s')
    (records : s.manifoldLabels.Records s.manifolds (·.labels)) :
    s'.manifoldLabels.Records s'.manifolds (·.labels) := by
  cases step with
  | manifold => exact records.push (LabelIndex.nextFree_available _)
  | manifoldBoundary _ _ _ available => exact records.push available
  | _ => exact records

theorem meshLabels (step : s.Step s') (records : s.meshLabels.Records s.meshes (·.labels)) :
    s'.meshLabels.Records s'.meshes (·.labels) := by
  cases step with
  | mesh _ _ available => exact records.push available
  | meshBoundary _ _ _ _ available => exact records.push available
  | _ => exact records

theorem arrayLabels (step : s.Step s')
    (records : s.arrayLabels.Records s.arrays fun a => ⟨a.sym, a.pureLin⟩) :
    s'.arrayLabels.Records s'.arrays fun a => ⟨a.sym, a.pureLin⟩ := by
  cases step with
  | array _ available => exact records.push available
  | _ => exact records

theorem formLabels (step : s.Step s')
    (labelled : ∀ {id f lin}, s.forms.get? id = some f → f.pureLin = some lin →
      s.formLabels.byLin? lin = some id ∧ s.formLabels.bySym? f.sym = some id) {id : FormId}
    {f : Form} {lin : String} (found : s'.forms.get? id = some f) (named : f.pureLin = some lin) :
    s'.formLabels.byLin? lin = some id ∧ s'.formLabels.bySym? f.sym = some id := by
  cases step with
  | rootForm _ _ available | evaluation _ _ _ _ _ _ available =>
    rcases Arena.get?_push_cases found with old | ⟨rfl, rfl⟩
    · exact ⟨LabelIndex.byLin?_insert_of_some (labelled old named).1,
        LabelIndex.bySym?_insert_of_some (labelled old named).2⟩
    · cases named
      exact ⟨LabelIndex.byLin?_insert available, LabelIndex.bySym?_insert available⟩
  | derivedForm _ _ _ unlabelled =>
    rcases Arena.get?_push_cases found with old | ⟨rfl, rfl⟩
    · exact labelled old named
    · rw [unlabelled] at named
      cases named
  | _ => exact labelled found named

theorem manifolds (step : s.Step s')
    (sound : ∀ {id m}, s.manifolds.get? id = some m → s.ManifoldSound m) {id : ManifoldId}
    {m : Manifold} (found : s'.manifolds.get? id = some m) : s'.ManifoldSound m := by
  have later := step.extends
  cases step with
  | manifold fits =>
    rcases Arena.get?_push_cases found with old | ⟨rfl, rfl⟩
    · exact later.manifoldSound (sound old)
    · exact ⟨fits, _, rfl⟩
  | manifoldBoundary foundParent unknown positive =>
    rcases Arena.get?_push_cases found with old | ⟨rfl, rfl⟩
    · exact later.manifoldSound (sound old)
    · have bound := (sound foundParent).1
      refine ⟨Nat.le_trans (Nat.sub_le _ _) bound, _, later.manifolds foundParent, ?_, rfl⟩
      exact Nat.sub_add_cancel (Nat.one_le_iff_ne_zero.2 positive)
  | _ => exact later.manifoldSound (sound found)

theorem meshes (step : s.Step s')
    (sound : ∀ {id m}, s.meshes.get? id = some m → s.MeshSound m) {id : MeshId}
    {m : Mesh} (found : s'.meshes.get? id = some m) : s'.MeshSound m := by
  have later := step.extends
  cases step with
  | mesh foundManifold =>
    rcases Arena.get?_push_cases found with old | ⟨rfl, rfl⟩
    · exact later.meshSound (sound old)
    · exact ⟨_, later.manifolds foundManifold, rfl, fun p inclusion => by cases inclusion⟩
  | meshBoundary foundParent unknown boundary foundManifold =>
    rcases Arena.get?_push_cases found with old | ⟨rfl, rfl⟩
    · exact later.meshSound (sound old)
    · obtain ⟨n, foundBoundary, bounds⟩ := Arena.find?_eq_some boundary
      cases foundManifold.symm.trans foundBoundary
      refine ⟨_, later.manifolds foundManifold, rfl, fun p inclusion => ?_⟩
      cases inclusion
      exact ⟨_, later.meshes foundParent, rfl, of_decide_eq_true bounds⟩
  | _ => exact later.meshSound (sound found)

/-- A space of the session after a step is an old one, perhaps with a new degree, or is new. -/
theorem space_cases (step : s.Step s') {id : SpaceId} {sp : Space}
    (found : s'.spaces.get? id = some sp) :
    (∃ old, s.spaces.get? id = some old ∧ old.Becomes sp) ∨
      id = s.spaces.nextId ∧ s.SpaceSound sp ∧
        ∀ other sp', s.spaces.get? other = some sp' →
          ¬ (sp'.mesh = sp.mesh ∧ sp'.k = sp.k ∧ sp'.orientation = sp.orientation) := by
  cases step with
  | @degree changed old d foundOld absent =>
    refine Or.inl ?_
    change (s.spaces.set changed { old with degree := some d }).get? id = some sp at found
    rw [Arena.get?_set foundOld] at found
    split at found
    · rename_i same
      cases found
      exact ⟨old, same ▸ foundOld, some d, rfl, fun e present => by simp [absent] at present⟩
    · exact ⟨sp, found, .refl sp⟩
  | space foundMesh fits unknown =>
    rcases Arena.get?_push_cases found with old | ⟨rfl, rfl⟩
    · exact Or.inl ⟨sp, old, .refl sp⟩
    · refine Or.inr ⟨rfl, ⟨_, foundMesh, fits, rfl⟩, fun other sp' foundOther => ?_⟩
      exact of_decide_eq_false (Arena.find?_eq_none.1 unknown other sp' foundOther)
  | _ => exact Or.inl ⟨sp, found, .refl sp⟩

theorem spaces (step : s.Step s') (sound : ∀ {id sp}, s.spaces.get? id = some sp → s.SpaceSound sp)
    {id : SpaceId} {sp : Space} (found : s'.spaces.get? id = some sp) : s'.SpaceSound sp := by
  rcases step.space_cases found with ⟨old, foundOld, becomes⟩ | ⟨-, new, -⟩
  · obtain ⟨m, foundMesh, fits, labels⟩ := step.extends.spaceSound (sound foundOld)
    refine ⟨m, becomes.mesh_eq ▸ foundMesh, becomes.k_eq ▸ fits, ?_⟩
    rw [becomes.labels_eq, becomes.k_eq, becomes.orientation_eq, labels]
  · exact step.extends.spaceSound new

theorem distinctSpaces (step : s.Step s')
    (distinct : ∀ {id id' sp sp'}, s.spaces.get? id = some sp → s.spaces.get? id' = some sp' →
      sp.mesh = sp'.mesh → sp.k = sp'.k → sp.orientation = sp'.orientation → id = id')
    {id id' : SpaceId} {sp sp' : Space} (found : s'.spaces.get? id = some sp)
    (found' : s'.spaces.get? id' = some sp') (mesh : sp.mesh = sp'.mesh) (k : sp.k = sp'.k)
    (orientation : sp.orientation = sp'.orientation) : id = id' := by
  rcases step.space_cases found with ⟨old, foundOld, becomes⟩ | ⟨new, -, unlike⟩
  · rcases step.space_cases found' with ⟨old', foundOld', becomes'⟩ | ⟨new', -, unlike'⟩
    · refine distinct foundOld foundOld' ?_ ?_ ?_
      · rw [← becomes.mesh_eq, mesh, becomes'.mesh_eq]
      · rw [← becomes.k_eq, k, becomes'.k_eq]
      · rw [← becomes.orientation_eq, orientation, becomes'.orientation_eq]
    · refine absurd ⟨?_, ?_, ?_⟩ (unlike' id old foundOld)
      · rw [← becomes.mesh_eq, mesh]
      · rw [← becomes.k_eq, k]
      · rw [← becomes.orientation_eq, orientation]
  · rcases step.space_cases found' with ⟨old', foundOld', becomes'⟩ | ⟨new', -, -⟩
    · refine absurd ⟨?_, ?_, ?_⟩ (unlike id' old' foundOld')
      · rw [← becomes'.mesh_eq, mesh]
      · rw [← becomes'.k_eq, k]
      · rw [← becomes'.orientation_eq, orientation]
    · rw [new, new']

theorem forms (step : s.Step s') (sound : ∀ {id f}, s.forms.get? id = some f → s.FormSound f)
    {id : FormId} {f : Form} (found : s'.forms.get? id = some f) : s'.FormSound f := by
  have later := step.extends
  cases step with
  | rootForm foundSpace =>
    rcases Arena.get?_push_cases found with old | ⟨rfl, rfl⟩
    · exact later.formSound (sound old)
    · exact later.formSound ⟨⟨_, foundSpace⟩, trivial, ⟨fun _ => rfl, fun _ => rfl⟩⟩
  | evaluation unknown foundBase base foundSpace foundInstant =>
    rcases Arena.get?_push_cases found with old | ⟨rfl, rfl⟩
    · exact later.formSound (sound old)
    · exact later.formSound ⟨⟨_, foundSpace⟩, ⟨_, _, foundBase, base, rfl, foundInstant, rfl⟩,
        ⟨fun _ => rfl, fun _ => rfl⟩⟩
  | derivedForm foundSpace _ derived unlabelled _ typed =>
    rcases Arena.get?_push_cases found with old | ⟨rfl, rfl⟩
    · exact later.formSound (sound old)
    · exact later.formSound ⟨⟨_, foundSpace⟩, typed, by simp [unlabelled, derived]⟩
  | _ => exact later.formSound (sound found)

theorem arrays (step : s.Step s') (sound : ∀ {id a}, s.arrays.get? id = some a → s.Represents a)
    {id : ArrayId} {a : RootArray} (found : s'.arrays.get? id = some a) : s'.Represents a := by
  have later := step.extends
  cases step with
  | array represents =>
    rcases Arena.get?_push_cases found with old | ⟨rfl, rfl⟩
    · exact later.represents (sound old)
    · exact later.represents represents
  | _ => exact later.represents (sound found)

theorem arraySymbols (step : s.Step s')
    (sound : ∀ {id a}, s.arrays.get? id = some a → s.Symbolizes a) {id : ArrayId} {a : RootArray}
    (found : s'.arrays.get? id = some a) : s'.Symbolizes a := by
  have later := step.extends
  cases step with
  | array _ _ symbolizes =>
    rcases Arena.get?_push_cases found with old | ⟨rfl, rfl⟩
    · exact later.symbolizes (sound old)
    · exact later.symbolizes symbolizes
  | _ => exact later.symbolizes (sound found)

end Step

namespace Sound

theorem new (settings : Settings) : (Session.new settings).Sound where
  manifoldLabels := .empty
  meshLabels := .empty
  formLabels found := by cases found
  arrayLabels := .empty
  manifolds found := by cases found
  meshes found := by cases found
  spaces found := by cases found
  distinctSpaces found := by cases found
  forms found := by cases found
  arrays found := by cases found
  arraySymbols found := by cases found

theorem step (sound : s.Sound) (step : s.Step s') : s'.Sound where
  manifoldLabels := step.manifoldLabels sound.manifoldLabels
  meshLabels := step.meshLabels sound.meshLabels
  formLabels := step.formLabels sound.formLabels
  arrayLabels := step.arrayLabels sound.arrayLabels
  manifolds := step.manifolds sound.manifolds
  meshes := step.meshes sound.meshes
  spaces := step.spaces sound.spaces
  distinctSpaces := step.distinctSpaces sound.distinctSpaces
  forms := step.forms sound.forms
  arrays := step.arrays sound.arrays
  arraySymbols := step.arraySymbols sound.arraySymbols

theorem steps (sound : s.Sound) (steps : s.Steps s') : s'.Sound := by
  induction steps with
  | refl => exact sound
  | tail _ step ih => exact ih.step step

end Sound

/-- Every reachable session is sound. -/
theorem Reachable.sound {settings : Settings} (reachable : Reachable settings s) : s.Sound :=
  reachable.invariant (.new settings) fun sound step => sound.step step

theorem Reachable.settings_eq {settings : Settings} (reachable : Reachable settings s) :
    s.settings = settings :=
  reachable.steps.extends.settings

end Session

end Variational
