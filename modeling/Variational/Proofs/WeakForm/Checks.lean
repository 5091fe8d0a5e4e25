import Variational.Proofs.Terms

/-!
# Checked equations

What the equations of a weak formulation are checked for: every term is tested
with the test form of its equation and lives on the mesh of the formulation or on
its boundary. Equations that pass the check pass it in every later session.
-/

namespace Variational

namespace WeakFormulation

/-- A term is tested with the test form of its equation, over a mesh or its boundary. -/
def TermFits (s : Session) (mesh : MeshId) (testForm : FormId) (t : Term) : Prop :=
  s.testedForm? t.f2 = .ok (some testForm) ∧
    (t.mesh = mesh ∨ ∃ m, s.meshes.get? t.mesh = some m ∧ m.inclusion = some mesh)

/-- An equation has terms, which fit, and a test form on the mesh. -/
def EquationFits (s : Session) (mesh : MeshId) (e : Equation Term) (testForm : FormId) : Prop :=
  0 < e.size ∧ (∃ k, s.Lives testForm mesh k) ∧ ∀ t ∈ e.terms, TermFits s mesh testForm t.value

variable {s s' : Session} {mesh : MeshId} {testForm : FormId} {equations : List (Equation Term)}
  {testForms : List FormId}

theorem meshOf_eq_ok {f : FormId} : meshOf s f = .ok mesh ↔ ∃ k, s.Lives f mesh k := by
  simp only [meshOf, Outcome.bind_eq_ok, Outcome.pure_eq_ok]
  constructor
  · intro given
    rcases given with ⟨form, found, sp, foundSpace, rfl⟩
    exact ⟨sp.k, form, sp, Arena.fetch_eq_ok_iff.1 found, Arena.fetch_eq_ok_iff.1 foundSpace, rfl,
      rfl⟩
  · intro given
    rcases given with ⟨k, form, sp, found, foundSpace, rfl, -⟩
    exact ⟨form, Arena.fetch_eq_ok_iff.2 found, sp, Arena.fetch_eq_ok_iff.2 foundSpace, rfl⟩

theorem checkTerm_eq_ok {i : Nat} {t : Term} :
    checkTerm s mesh i testForm t = .ok () ↔ TermFits s mesh testForm t := by
  have onBoundary : (do
        if (← s.mesh t.mesh).inclusion ≠ some mesh then
          reject (.structural (.termMesh t.lin)) : Outcome Unit) = .ok () ↔
      ∃ m, s.meshes.get? t.mesh = some m ∧ m.inclusion = some mesh := by
    rw [Outcome.bind_eq_ok]
    refine exists_congr fun m => and_congr Arena.fetch_eq_ok_iff ?_
    by_cases included : m.inclusion = some mesh <;> simp [included, pure, Except.pure]
  rw [checkTerm, Outcome.bind_eq_ok]
  simp only [Outcome.guard_bind_eq_ok]
  constructor
  · intro given
    rcases given with ⟨tested, run, same, place⟩
    rw [Decidable.not_not.1 same] at run
    refine ⟨run, ?_⟩
    split at place
    · exact Or.inr (onBoundary.1 place)
    · rename_i same
      exact Or.inl (Decidable.not_not.1 same)
  · intro given
    rcases given with ⟨run, place⟩
    refine ⟨_, run, fun differs => differs rfl, ?_⟩
    split
    · rename_i differs
      exact onBoundary.2 (place.resolve_left differs)
    · rfl

theorem checkEquation_eq_ok {i : Nat} {e : Equation Term} :
    checkEquation s mesh i e testForm = .ok () ↔ EquationFits s mesh e testForm := by
  rw [checkEquation, Outcome.guard_eq_ok, EquationFits, Outcome.bind_eq_ok]
  simp only [Outcome.guard_bind_eq_ok, Outcome.forM_eq_ok, checkTerm_eq_ok]
  refine and_congr Nat.pos_iff_ne_zero.symm ?_
  rw [← meshOf_eq_ok]
  constructor
  · intro given
    rcases given with ⟨found, run, same, each⟩
    rw [Decidable.not_not.1 same] at run
    exact ⟨run, each⟩
  · intro given
    rcases given with ⟨run, each⟩
    exact ⟨mesh, run, fun differs => differs rfl, each⟩

theorem forM_checkEquation_eq_ok (same : equations.length = testForms.length) {u : Unit} :
    ((equations.zip testForms).zipIdx.forM fun ((e, v), i) => checkEquation s mesh i e v) = .ok u ↔
      List.Forall₂ (EquationFits s mesh) equations testForms := by
  rw [Outcome.forM_eq_ok, List.forall₂_iff_zip]
  constructor
  · intro each
    refine ⟨same, fun {e v} member => ?_⟩
    obtain ⟨i, found⟩ := List.mem_iff_getElem?.1 member
    exact checkEquation_eq_ok.1 (each ((e, v), i) (List.mk_mem_zipIdx_iff_getElem?.2 found))
  · intro fits entry member
    obtain ⟨-, each⟩ := fits
    obtain ⟨⟨e, v⟩, i⟩ := entry
    have found := List.mk_mem_zipIdx_iff_getElem?.1 member
    exact checkEquation_eq_ok.2 (each (List.mem_of_getElem? found))

/-- Equations pass the check if there are any and each fits its test form. -/
theorem check_eq_ok : check s equations testForms = .ok mesh ↔
    equations ≠ [] ∧ List.Forall₂ (EquationFits s mesh) equations testForms := by
  unfold check
  rw [Outcome.guard_eq_ok, Outcome.guard_eq_ok, List.length_eq_zero_iff]
  refine and_congr_right fun nonempty => ?_
  cases testForms with
  | nil =>
    constructor
    · intro given
      rcases given with ⟨-, run⟩
      simp at run
    · intro fits
      exact absurd (List.forall₂_nil_right_iff.1 fits) nonempty
  | cons first rest =>
    simp only [Outcome.bind_eq_ok, Outcome.pure_eq_ok]
    constructor
    · intro given
      rcases given with ⟨same, found, run, _, each, rfl⟩
      exact (forM_checkEquation_eq_ok (Decidable.not_not.1 same)).1 each
    · intro fits
      refine ⟨fun differs => differs fits.length_eq, mesh, ?_, (),
        (forM_checkEquation_eq_ok fits.length_eq).2 fits, rfl⟩
      obtain ⟨e, _, fit, -, -⟩ := List.forall₂_cons_right_iff.1 fits
      exact meshOf_eq_ok.2 fit.2.1

/-! ## Later sessions -/

theorem TermFits.mono (later : s.Extends s') {t : Term} (fits : TermFits s mesh testForm t) :
    TermFits s' mesh testForm t := by
  obtain ⟨tested, place⟩ := fits
  refine ⟨later.testedForm?_eq_ok tested, ?_⟩
  rcases place with same | ⟨m, found, inclusion⟩
  · exact Or.inl same
  · exact Or.inr ⟨m, later.meshes found, inclusion⟩

theorem EquationFits.mono (later : s.Extends s') {e : Equation Term}
    (fits : EquationFits s mesh e testForm) : EquationFits s' mesh e testForm := by
  obtain ⟨nonempty, ⟨k, lives⟩, each⟩ := fits
  exact ⟨nonempty, ⟨k, later.lives lives⟩, fun t member => (each t member).mono later⟩

/-- Equations that fit still fit after one of them is changed into one that fits. -/
theorem forall₂_modify {i : Nat} {f : Equation Term → Equation Term} (later : s.Extends s')
    (fits : List.Forall₂ (EquationFits s mesh) equations testForms)
    (changed : ∀ e v, equations[i]? = some e → EquationFits s mesh e v →
      EquationFits s' mesh (f e) v) :
    List.Forall₂ (EquationFits s' mesh) (equations.modify i f) testForms := by
  induction fits generalizing i with
  | nil =>
    rw [List.modify_nil]
    exact .nil
  | cons fit rest ih =>
    cases i with
    | zero =>
      rw [List.modify_zero_cons]
      exact .cons (changed _ _ rfl fit) (rest.imp fun e v fits => fits.mono later)
    | succ i =>
      rw [List.modify_succ_cons]
      exact .cons (fit.mono later) (ih fun e v known => changed e v known)

/-! ## Well-formed formulations -/

/-- A formulation of which the equations pass the check and the terms are terms of the
session. -/
structure WellFormed (w : WeakFormulation) (s : Session) : Prop where
  checked : check s w.equations w.testForms = .ok w.mesh
  created : ∀ e ∈ w.equations, ∀ t ∈ e.terms,
    Term.create s t.value.kind t.value.f1 t.value.f2 = .ok t.value

/-- Every equation of a well-formed formulation fits its test form. -/
theorem WellFormed.equationFits {w : WeakFormulation} (wellFormed : w.WellFormed s) {i : Nat}
    {e : Equation Term} (known : w.equations[i]? = some e) :
    ∃ v, w.testForms[i]? = some v ∧ EquationFits s w.mesh e v := by
  obtain ⟨-, fits⟩ := check_eq_ok.1 wellFormed.checked
  obtain ⟨held, rfl⟩ := List.getElem?_eq_some_iff.1 known
  have held' : i < w.testForms.length := fits.length_eq ▸ held
  exact ⟨w.testForms[i], List.getElem?_eq_getElem held', fits.get held held'⟩

theorem WellFormed.mono {w : WeakFormulation} (wellFormed : w.WellFormed s)
    (later : s.Extends s') : w.WellFormed s' := by
  obtain ⟨nonempty, fits⟩ := check_eq_ok.1 wellFormed.checked
  exact ⟨check_eq_ok.2 ⟨nonempty, fits.imp fun _ _ fit => fit.mono later⟩, fun e member t term =>
    Term.create_mono later (wellFormed.created e member t term)⟩

/-- A checked formulation has one mesh. -/
theorem WellFormed.mesh_eq {w : WeakFormulation} (wellFormed : w.WellFormed s)
    (later : s.Extends s') (run : check s' equations w.testForms = .ok mesh) : mesh = w.mesh := by
  obtain ⟨nonempty, fits⟩ := check_eq_ok.1 wellFormed.checked
  obtain ⟨-, fits'⟩ := check_eq_ok.1 run
  cases forms : w.testForms with
  | nil => exact absurd (List.forall₂_nil_right_iff.1 (forms ▸ fits)) nonempty
  | cons v rest =>
    obtain ⟨e, _, ⟨-, ⟨k, lives⟩, -⟩, -, -⟩ := List.forall₂_cons_right_iff.1 (forms ▸ fits)
    obtain ⟨e', _, ⟨-, ⟨k', lives'⟩, -⟩, -, -⟩ := List.forall₂_cons_right_iff.1 (forms ▸ fits')
    exact (lives'.unique (later.lives lives)).1

end WeakFormulation

end Variational
