import Variational.Pde.Expression
import Variational.Proofs.ElementaryForms
import Variational.Proofs.EvaluationLabels
import Variational.Proofs.WeakForm.Obtained

/-!
# Testing systems

The forms of an equation of a system have one degree, on the mesh of the system. So testing
fails only for the labels and the spaces of the test forms: labels are registered one after the
other, so they have to be distinct and free, and a test form has to have the degree of its
equation. The checks of the weak formulation behind it are met then.
-/

namespace Variational

open Derive

variable {settings : Settings} {s s' : Session} {mesh : MeshId} {k : Nat}

namespace Pde

/-! ## Well-formed systems -/

/-- The forms of an equation are `k`-forms on a mesh. -/
def OfDegree (s : Session) (mesh : MeshId) (k : Nat) (e : Equation FormId) : Prop :=
  ∀ f ∈ e.terms, s.Lives f.value mesh k

/-- An equation has forms, and they have one degree. -/
def EquationTyped (s : Session) (mesh : MeshId) (e : Equation FormId) : Prop :=
  e.terms ≠ [] ∧ ∃ k, OfDegree s mesh k e

/-- A system has equations, typed on its mesh, and its unknowns are root forms. -/
structure WellFormed (p : Pde) (s : Session) : Prop where
  nonempty : p.equations ≠ []
  typed : ∀ e ∈ p.equations, EquationTyped s p.mesh e
  unknowns : ∀ forms, p.unknowns = some forms →
    ∀ u ∈ forms, ∃ f, s.forms.get? u = some f ∧ f.isRoot = true

theorem OfDegree.mono (later : s.Extends s') {e : Equation FormId} (degree : OfDegree s mesh k e) :
    OfDegree s' mesh k e :=
  fun f member => later.lives (degree f member)

theorem EquationTyped.mono (later : s.Extends s') {e : Equation FormId}
    (typed : EquationTyped s mesh e) : EquationTyped s' mesh e := by
  obtain ⟨nonempty, k, degree⟩ := typed
  exact ⟨nonempty, k, degree.mono later⟩

theorem WellFormed.mono {p : Pde} (wellFormed : p.WellFormed s) (later : s.Extends s') :
    p.WellFormed s' where
  nonempty := wellFormed.nonempty
  typed e member := (wellFormed.typed e member).mono later
  unknowns forms declared u member := by
    obtain ⟨f, found, root⟩ := wellFormed.unknowns forms declared u member
    exact ⟨f, later.forms found, root⟩

theorem equationMesh_spec {i : Nat} {e : Equation FormId} (run : equationMesh s i e = .ok mesh) :
    EquationTyped s mesh e := by
  rw [equationMesh] at run
  split at run
  · cases run
  · rename_i first rest terms
    simp only [Outcome.bind_eq_ok, Outcome.forM_eq_ok] at run
    obtain ⟨f, foundFirst, _, others, sp, foundSpace, same⟩ := run
    cases same
    have lives : s.Lives first.value sp.mesh sp.k :=
      ⟨f, sp, Arena.fetch_eq_ok_iff.1 foundFirst, Arena.fetch_eq_ok_iff.1 foundSpace, rfl, rfl⟩
    refine ⟨by rw [terms]; exact List.cons_ne_nil _ _, sp.k, ?_⟩
    rw [OfDegree, terms]
    refine List.forall_mem_cons.2 ⟨lives, fun other member => ?_⟩
    obtain ⟨g, foundOther, common⟩ := others other member
    split at common
    · simp at common
    · rename_i same
      exact ⟨g, sp, Arena.fetch_eq_ok_iff.1 foundOther,
        not_not.1 same ▸ Arena.fetch_eq_ok_iff.1 foundSpace, rfl, rfl⟩

theorem commonMesh_spec {i : Nat} {known r : Option MeshId} {equations : List (Equation FormId)}
    (run : commonMesh s i known equations = .ok r) :
    (∀ m, known = some m → r = some m) ∧ (equations = [] → r = known) ∧
      ∀ e ∈ equations, ∃ m, r = some m ∧ EquationTyped s m e := by
  induction equations generalizing i known with
  | nil =>
    cases run
    exact ⟨fun _ same => same, fun _ => rfl, nofun⟩
  | cons e rest ih =>
    simp only [commonMesh, Outcome.bind_eq_ok, Outcome.guard_eq_ok] at run
    obtain ⟨own, found, agrees, run⟩ := run
    obtain ⟨kept, -, others⟩ := ih run
    refine ⟨fun m same => ?_, nofun, ?_⟩
    · subst same
      have here : m = own := by
        by_contra differs
        exact agrees ⟨rfl, fun same => differs (Option.some.inj same)⟩
      exact here ▸ kept own rfl
    · exact List.forall_mem_cons.2 ⟨⟨own, kept own rfl, equationMesh_spec found⟩, others⟩

theorem create_wellFormed {equations : List (Equation FormId)} {p : Pde}
    (run : create s equations = .ok p) : p.WellFormed s := by
  rw [create, Outcome.bind_eq_ok] at run
  obtain ⟨r, common, run⟩ := run
  obtain ⟨-, empty, typed⟩ := commonMesh_spec common
  cases r with
  | none => simp at run
  | some m =>
    cases run
    refine ⟨fun absent => (by cases empty absent), fun e member => ?_, fun _ declared => ?_⟩
    swap
    · cases declared
    obtain ⟨m', same, typed⟩ := typed e member
    cases same
    exact typed

theorem withUnknowns_wellFormed {p p' : Pde} {unknowns : List FormId} (wellFormed : p.WellFormed s)
    (run : p.withUnknowns s unknowns = .ok p') : p'.WellFormed s := by
  simp only [withUnknowns, elementaryForms, Outcome.bind_eq_ok, Outcome.pure_eq_ok,
    Outcome.forM_eq_ok] at run
  obtain ⟨_, ⟨sets, each, rfl⟩, _, known, rfl⟩ := run
  refine ⟨wellFormed.nonempty, wellFormed.typed, fun forms declared u member => ?_⟩
  cases declared
  have within := known u member
  split at within
  · simp only [Outcome.bind_eq_ok, Outcome.reject_eq_ok, and_false, exists_false] at within
  · rename_i elementary
    obtain ⟨ids, listed, held⟩ := IdSet.mem_unions.1 (not_not.1 elementary)
    obtain ⟨f, -, ran⟩ := exists_mem_of_forall₂ (Outcome.mapM_eq_ok.1 each) listed
    exact ((Session.mem_elementaryForms ran).1 held).isRoot

/-! ## Systems of a session -/

/-- The systems that a session gives. -/
inductive Obtained (settings : Settings) : Session → Pde → Prop
  | create {s : Session} {equations : List (Equation FormId)} {p : Pde}
    (reachable : Session.Reachable settings s) (run : create s equations = .ok p) :
    Obtained settings s p
  | ofExpressions {s : Session} {names : List (String × FormId)} {expressions : List String}
    {p : Pde} (reachable : Session.Reachable settings s)
    (run : ofExpressions s names expressions = .ok p) : Obtained settings s p
  | portHamiltonian {s s' : Session} {n degree : Nat} {p : Pde} {a b : FormId}
    (reachable : Session.Reachable settings s)
    (run : portHamiltonian n degree s = .ok (p, a, b) s') : Obtained settings s' p
  | withUnknowns {s : Session} {p p' : Pde} {unknowns : List FormId}
    (obtained : Obtained settings s p) (run : p.withUnknowns s unknowns = .ok p') :
    Obtained settings s p'
  /-- Meanwhile anything is requested of the session, and it may fail. -/
  | request {s : Session} {p : Pde} (obtained : Obtained settings s p) (request : Request) :
    Obtained settings (request.perform.after s) p

theorem portHamiltonian_wellFormed {n degree : Nat} {p : Pde} {a b : FormId}
    (run : portHamiltonian n degree s = .ok (p, a, b) s') : p.WellFormed s' := by
  rw [portHamiltonian, guard_eq_ok] at run
  simp only [bind_eq_ok, get_eq_ok, lift_eq_ok, pure_eq_ok] at run
  obtain ⟨-, _, _, -, _, _, -, _, _, -, _, _, -, _, _, -, _, _, -, _, _, -, _, _, -, _, _, -, _, _,
    -, _, _, ⟨rfl, rfl⟩, system, _, ⟨made, rfl⟩, _, _, ⟨declared, rfl⟩, same, rfl⟩ := run
  cases same
  exact withUnknowns_wellFormed (create_wellFormed made) declared

theorem Obtained.wellFormed {p : Pde} (obtained : Obtained settings s p) :
    Session.Reachable settings s ∧ p.WellFormed s := by
  induction obtained with
  | create reachable run => exact ⟨reachable, create_wellFormed run⟩
  | ofExpressions reachable run =>
    obtain ⟨equations, -, run⟩ := Outcome.bind_eq_ok.1 run
    exact ⟨reachable, create_wellFormed run⟩
  | @portHamiltonian _ _ n degree _ _ _ reachable run =>
    exact ⟨reachable.of_request (.portHamiltonian n degree) rfl run,
      portHamiltonian_wellFormed run⟩
  | withUnknowns _ run ih => exact ⟨ih.1, withUnknowns_wellFormed ih.2 run⟩
  | request _ r ih => exact ⟨ih.1.request r, ih.2.mono r.extends_after⟩

end Pde

/-! ## Test forms -/

/-- The session with a new root form of a space. -/
def Session.withRoot (s : Session) (space : SpaceId) (labels : Labels) : Session :=
  s.addRootForm space labels .root (by simp [FormTable.Holds, FormExpr.operands])

/-- A root form is made under valid labels that are free. -/
theorem Form.root_eq_ok {space : SpaceId} {labels : Labels} {v : FormId} :
    root space labels s = .ok v s' ↔ labels.validate .form = .ok () ∧
      s.formLabels.Available labels ∧ (∃ sp, s.spaces.get? space = some sp) ∧
        v = s.forms.nextId ∧ s' = s.withRoot space labels := by
  constructor
  · intro run
    simp only [root, bind_eq_ok, lift_eq_ok] at run
    obtain ⟨_, _, ⟨valid, rfl⟩, registered⟩ := run
    obtain ⟨holds, same, rfl⟩ := register_cases registered
    simp only [register, get_bind, bind_eq_ok, lift_eq_ok, record_eq] at registered
    obtain ⟨_, _, ⟨available, rfl⟩, _, _, recorded, -⟩ := registered
    refine ⟨valid, LabelIndex.checkAvailable_eq_ok.1 available, ?_, same, rfl⟩
    cases found : s.space space with
    | error failure => simp [found] at recorded
    | ok sp => exact ⟨sp, Arena.fetch_eq_ok_iff.1 found⟩
  · rintro ⟨valid, available, ⟨sp, found⟩, rfl, rfl⟩
    exact (lift_bind_of_ok valid _).trans (register_of_available found available _)

namespace Session

variable {space : SpaceId} {labels : Labels} {e : Equation FormId}

theorem withRoot_extends (s : Session) (space : SpaceId) (labels : Labels) :
    s.Extends (s.withRoot space labels) :=
  { Extends.refl s with forms := Arena.get?_push_of_get? }

theorem get?_withRoot (s : Session) (space : SpaceId) (labels : Labels) :
    (s.withRoot space labels).forms.get? s.forms.nextId = some (s.rootForm space labels .root) :=
  Arena.get?_push_nextId

/-- Labels are free next to a new root form if they are free and differ from its own. -/
theorem available_withRoot {labels' : Labels} :
    (s.withRoot space labels).formLabels.Available labels' ↔
      s.formLabels.Available labels' ∧ labels'.sym ≠ labels.sym ∧ labels'.lin ≠ labels.lin := by
  change (s.formLabels.insert labels _).Available labels' ↔ _
  simp only [LabelIndex.available_iff, LabelIndex.insert, List.map_append, List.map_cons,
    List.map_nil, List.mem_append, List.mem_singleton, not_or]
  tauto

/-- Labels are free if no root form has one of them. -/
theorem Reachable.available_iff (reachable : Reachable settings s) :
    s.formLabels.Available labels ↔ ¬ s.forms.UsesSym Form.rootLabels? labels.sym ∧
      ¬ s.forms.UsesLin Form.rootLabels? labels.lin := by
  rw [LabelIndex.Available, ← reachable.indexed.forms.hasSym_iff,
    ← reachable.indexed.forms.hasLin_iff, Bool.not_eq_true, Bool.not_eq_true]

end Session

namespace Pde

/-- A space that an equation can be tested in: it has the degree of the equation. -/
def TestSpace (s : Session) (mesh : MeshId) (e : Equation FormId) (space : SpaceId) : Prop :=
  ∃ sp, s.spaces.get? space = some sp ∧ sp.mesh = mesh ∧ OfDegree s mesh sp.k e

/-- A new root form does not change in which spaces an equation can be tested. -/
theorem testSpace_withRoot {space space' : SpaceId} {labels : Labels} {e : Equation FormId}
    (typed : EquationTyped s mesh e) :
    TestSpace (s.withRoot space labels) mesh e space' ↔ TestSpace s mesh e space' := by
  have later := s.withRoot_extends space labels
  constructor
  · rintro ⟨sp, found, onMesh, degree⟩
    refine ⟨sp, found, onMesh, ?_⟩
    obtain ⟨-, k, before⟩ := typed
    intro f member
    have same := ((degree f member).unique (later.lives (before f member))).2
    exact same ▸ before f member
  · rintro ⟨sp, found, onMesh, degree⟩
    exact ⟨sp, found, onMesh, degree.mono later⟩

/-! ## Testing an equation -/

/-- A term is the inner product of a form with a test form, under the sign of the form. -/
def TestedTerm (s : Session) (v : FormId) (f : Signed FormId) (t : Signed Term) : Prop :=
  t.sign = f.sign ∧ Term.create s .innerProduct f.value v = .ok t.value

/-- An equation of terms is a tested equation of forms. -/
def TestedEquation (s : Session) (v : FormId) (e : Equation FormId) (e' : Equation Term) : Prop :=
  List.Forall₂ (TestedTerm s v) e.left e'.left ∧ List.Forall₂ (TestedTerm s v) e.right e'.right

variable {v : FormId} {e : Equation FormId} {e' : Equation Term} {space : SpaceId}
  {labels : Labels}

theorem TestedEquation.mono (later : s.Extends s') (tested : TestedEquation s v e e') :
    TestedEquation s' v e e' :=
  ⟨tested.1.imp fun _ _ term => ⟨term.1, Term.create_mono later term.2⟩,
    tested.2.imp fun _ _ term => ⟨term.1, Term.create_mono later term.2⟩⟩

/-- The terms of both sides are those of the forms of both sides, in order. -/
theorem TestedEquation.terms (tested : TestedEquation s v e e') :
    List.Forall₂ (TestedTerm s v) e.terms e'.terms :=
  List.rel_append tested.1 tested.2

theorem testSide_eq_ok {side : List (Signed FormId)} {l : List (Signed Term)} :
    testSide s v side = .ok l ↔ List.Forall₂ (TestedTerm s v) side l := by
  have each : ∀ {f : Signed FormId} {t : Signed Term}, (do
      return ⟨f.sign, ← Term.create s .innerProduct f.value v⟩ : Outcome (Signed Term)) = .ok t ↔
        TestedTerm s v f t := by
    intro f t
    rw [Outcome.bind_eq_ok]
    constructor
    · rintro ⟨x, created, same⟩
      cases Outcome.pure_eq_ok.1 same
      exact ⟨rfl, created⟩
    · rintro ⟨sign, created⟩
      exact ⟨t.value, created, Outcome.pure_eq_ok.2 (by rw [← sign])⟩
  simp only [testSide, Outcome.mapM_eq_ok, each]

/-- What testing an equation gives. -/
theorem testEquation_eq_ok : testEquation e space labels s = .ok (e', v) s' ↔
    Form.root space labels s = .ok v s' ∧ TestedEquation s' v e e' := by
  simp only [testEquation, bind_eq_ok, get_eq_ok, lift_eq_ok, pure_eq_ok, testSide_eq_ok]
  constructor
  · rintro ⟨_, _, made, _, _, ⟨rfl, rfl⟩, left, _, ⟨testedLeft, rfl⟩, right, _,
      ⟨testedRight, rfl⟩, same, rfl⟩
    cases same
    exact ⟨made, testedLeft, testedRight⟩
  · rintro ⟨made, testedLeft, testedRight⟩
    exact ⟨v, s', made, s', s', ⟨rfl, rfl⟩, e'.left, s', ⟨testedLeft, rfl⟩, e'.right, s',
      ⟨testedRight, rfl⟩, rfl, rfl⟩

/-- An equation can be tested with a new root form of a space under valid and free labels exactly
if the space has the degree of the equation. -/
theorem testEquation_succeeds_iff (sound : s.Sound) (typed : EquationTyped s mesh e) :
    (∃ r s', testEquation e space labels s = .ok r s') ↔ labels.validate .form = .ok () ∧
      s.formLabels.Available labels ∧ TestSpace s mesh e space := by
  have later := s.withRoot_extends space labels
  obtain ⟨nonempty, k, degree⟩ := typed
  constructor
  · rintro ⟨⟨e', v⟩, s', run⟩
    obtain ⟨made, tested⟩ := testEquation_eq_ok.1 run
    obtain ⟨valid, available, ⟨sp, found⟩, rfl, rfl⟩ := Form.root_eq_ok.1 made
    refine ⟨valid, available, sp, found, ?_⟩
    -- one term tells where the test form lives
    obtain ⟨f, member⟩ := List.exists_mem_of_ne_nil _ nonempty
    obtain ⟨t, -, -, created⟩ := exists_mem_of_forall₂ tested.terms.flip member
    obtain ⟨-, -, -, k₁, k₂, m, first, second, -, same⟩ := Term.create_spec created
    have root : (s.withRoot space labels).Lives s.forms.nextId sp.mesh sp.k :=
      ⟨_, sp, s.get?_withRoot space labels, found, rfl, rfl⟩
    obtain ⟨meshes, degrees⟩ := second.unique root
    obtain ⟨meshes', degrees'⟩ := first.unique (later.lives (degree f member))
    cases same
    exact ⟨meshes.symm.trans meshes', degrees.symm.trans degrees' ▸ degree⟩
  · rintro ⟨valid, available, sp, found, onMesh, degree⟩
    have made := Form.root_eq_ok.2 ⟨valid, available, ⟨sp, found⟩, rfl, rfl⟩
    have root : (s.withRoot space labels).Lives s.forms.nextId mesh sp.k :=
      ⟨_, sp, s.get?_withRoot space labels, found, onMesh, rfl⟩
    have sides : ∀ {side : List (Signed FormId)}, side ⊆ e.terms → ∃ l,
        testSide (s.withRoot space labels) s.forms.nextId side = .ok l := by
      intro side within
      refine Outcome.mapM_total fun f member => ?_
      have lives := degree f (within member)
      obtain ⟨m, foundMesh⟩ := sound.exists_mesh lives
      obtain ⟨t, created, -⟩ := Term.create_succeeds .innerProduct (later.lives lives) root
        (later.meshes foundMesh) rfl
      exact ⟨_, Outcome.bind_of_ok created _⟩
    obtain ⟨left, testedLeft⟩ := sides (List.subset_append_left _ _)
    obtain ⟨right, testedRight⟩ := sides (List.subset_append_right _ _)
    exact ⟨(⟨left, right⟩, s.forms.nextId), _, testEquation_eq_ok.2
      ⟨made, testSide_eq_ok.1 testedLeft, testSide_eq_ok.1 testedRight⟩⟩

/-! ## Testing equations one after the other -/

/-- An equation with the space and the labels of its test form. -/
abbrev Row : Type :=
  (Equation FormId × SpaceId) × Labels

def testRow (row : Row) : Derive (Equation Term × FormId) :=
  testEquation row.1.1 row.1.2 row.2

theorem testRow_grows (row : Row) (s : Session) : (testRow row).Grows s :=
  testEquation_grows _ _ _

/-- Equations are tested if each of them can be, under labels that are distinct. -/
theorem mapM_testRow_succeeds_iff {rows : List Row} (sound : s.Sound)
    (typed : ∀ row ∈ rows, EquationTyped s mesh row.1.1) :
    (∃ results s', rows.mapM testRow s = .ok results s') ↔
      (∀ row ∈ rows, row.2.validate .form = .ok () ∧ s.formLabels.Available row.2 ∧
        TestSpace s mesh row.1.1 row.1.2) ∧
      (rows.map (·.2.sym)).Nodup ∧ (rows.map (·.2.lin)).Nodup := by
  induction rows generalizing s with
  | nil => simp [pure, EStateM.pure]
  | cons row rows ih =>
    obtain ⟨⟨e, space⟩, labels⟩ := row
    obtain ⟨typed, others⟩ := List.forall_mem_cons.1 typed
    have later := s.withRoot_extends space labels
    have succeeds : (∃ r s', testEquation e space labels s = .ok r s') ↔ _ :=
      testEquation_succeeds_iff sound typed
    -- behind the first equation, the labels of the others have to differ from its own as well
    have rest : labels.validate .form = .ok () ∧ s.formLabels.Available labels ∧
          TestSpace s mesh e space → ((∃ results s',
        rows.mapM testRow (s.withRoot space labels) = .ok results s') ↔
      (∀ row ∈ rows, row.2.validate .form = .ok () ∧
        (s.formLabels.Available row.2 ∧ row.2.sym ≠ labels.sym ∧ row.2.lin ≠ labels.lin) ∧
          TestSpace s mesh row.1.1 row.1.2) ∧
      (rows.map (·.2.sym)).Nodup ∧ (rows.map (·.2.lin)).Nodup) := by
      rintro ⟨valid, available, sp, found, -⟩
      have made := Form.root_eq_ok.2 ⟨valid, available, ⟨sp, found⟩, rfl, rfl⟩
      rw [ih (sound.steps ((Form.root_grows _ _).steps made)) fun row member =>
        (others row member).mono later]
      refine and_congr_left' (forall₂_congr fun row member => ?_)
      rw [Session.available_withRoot, testSpace_withRoot (others row member)]
    simp only [List.mapM_cons, bind_eq_ok, pure_eq_ok, List.forall_mem_cons, List.map_cons,
      List.nodup_cons]
    constructor
    · rintro ⟨results, s', r, mid, first, _, last, run, -⟩
      have head := succeeds.1 ⟨r, mid, first⟩
      obtain ⟨-, -, -, -, rfl⟩ := Form.root_eq_ok.1 (testEquation_eq_ok.1 first).1
      obtain ⟨each, syms, lins⟩ := (rest head).1 ⟨_, last, run⟩
      refine ⟨⟨head, fun row member => ?_⟩, ⟨fun taken => ?_, syms⟩, fun taken => ?_, lins⟩
      · obtain ⟨valid, ⟨available, -⟩, fits⟩ := each row member
        exact ⟨valid, available, fits⟩
      · obtain ⟨row, member, same⟩ := List.mem_map.1 taken
        exact (each row member).2.1.2.1 same
      · obtain ⟨row, member, same⟩ := List.mem_map.1 taken
        exact (each row member).2.1.2.2 same
    · rintro ⟨⟨head, each⟩, ⟨freshSym, syms⟩, freshLin, lins⟩
      obtain ⟨r, mid, first⟩ := succeeds.2 head
      obtain ⟨-, -, -, -, rfl⟩ := Form.root_eq_ok.1 (testEquation_eq_ok.1 first).1
      have differ : ∀ row ∈ rows, row.2.sym ≠ labels.sym ∧ row.2.lin ≠ labels.lin :=
        fun row member => ⟨fun same => freshSym (List.mem_map.2 ⟨row, member, same⟩),
          fun same => freshLin (List.mem_map.2 ⟨row, member, same⟩)⟩
      obtain ⟨results, s', run⟩ := (rest head).2 ⟨fun row member =>
        ⟨(each row member).1, ⟨(each row member).2.1, differ row member⟩, (each row member).2.2⟩,
        syms, lins⟩
      exact ⟨r :: results, s', r, _, first, results, s', run, rfl, rfl⟩

/-- The test forms are the next forms of the session, in order. -/
theorem testForms_of_mapM {rows : List Row} {results : List (Equation Term × FormId)}
    (run : rows.mapM testRow s = .ok results s') : results.map Prod.snd =
      (List.range rows.length).map fun i => ⟨s.forms.size + i⟩ := by
  induction rows generalizing s results with
  | nil =>
    obtain ⟨rfl, rfl⟩ := pure_eq_ok.1 run
    rfl
  | cons row rows ih =>
    simp only [List.mapM_cons, bind_eq_ok, pure_eq_ok] at run
    obtain ⟨⟨e', v⟩, mid, first, results, last, run, rfl, rfl⟩ := run
    obtain ⟨-, -, -, rfl, rfl⟩ := Form.root_eq_ok.1 (testEquation_eq_ok.1 first).1
    have size : (s.withRoot row.1.2 row.2).forms.size = s.forms.size + 1 := Arena.size_push _ _
    rw [List.map_cons, ih run, List.length_cons, List.range_succ_eq_map, List.map_cons,
      List.map_map, size]
    refine congrArg _ (List.map_congr_left fun i _ => congrArg EntityId.mk ?_)
    omega

/-- What is made of an equation with the space and the labels of its test form. -/
def TestedRow (s : Session) (row : Row) (result : Equation Term × FormId) : Prop :=
  s.forms.get? result.2 = some (s.rootForm row.1.2 row.2 .root) ∧
    TestedEquation s result.2 row.1.1 result.1

theorem testedRow_of_mapM {rows : List Row} {results : List (Equation Term × FormId)}
    (run : rows.mapM testRow s = .ok results s') : List.Forall₂ (TestedRow s') rows results := by
  refine mapM_forall₂ testRow_grows (fun steps tested => ⟨?_, tested.2.mono steps.extends⟩) ?_ run
  · rw [steps.extends.forms tested.1]
    simp only [Session.rootForm, steps.extends.settings]
  · intro row result mid last _ run
    obtain ⟨made, tested⟩ := testEquation_eq_ok.1 run
    obtain ⟨-, -, -, same, rfl⟩ := Form.root_eq_ok.1 made
    exact ⟨by rw [same]; exact mid.get?_withRoot _ _, tested⟩

/-! ## Testing systems -/

variable {p : Pde} {spaces : List SpaceId} {labels' : List Labels} {w : WeakFormulation}

/-- Tested equations of a system make up a weak formulation on its mesh. -/
theorem create_of_tested {rows : List Row} {results : List (Equation Term × FormId)}
    (nonempty : rows ≠ []) (typed : ∀ row ∈ rows, EquationTyped s mesh row.1.1)
    (tested : List.Forall₂ (TestedRow s) rows results) :
    WeakFormulation.create s (results.map Prod.fst) (results.map Prod.snd) =
      .ok ⟨mesh, results.map Prod.fst, results.map Prod.snd, none⟩ := by
  have fits : List.Forall₂ (WeakFormulation.EquationFits s mesh) (results.map Prod.fst)
      (results.map Prod.snd) := by
    rw [List.forall₂_map_left_iff, List.forall₂_map_right_iff, List.forall₂_same]
    rintro ⟨e', v⟩ member
    obtain ⟨row, listed, root, terms⟩ := exists_mem_of_forall₂ tested member
    obtain ⟨filled, k, degree⟩ := typed row listed
    have each : ∀ t ∈ e'.terms, t.value.f2 = v ∧ t.value.mesh = mesh ∧ ∃ k, s.Lives v mesh k := by
      intro t term
      obtain ⟨f, held, -, created⟩ := exists_mem_of_forall₂ terms.terms term
      obtain ⟨-, -, second, k₁, k₂, m, first, lives, -⟩ := Term.create_spec created
      obtain ⟨same, -⟩ := first.unique (degree f held)
      exact ⟨second, same, k₂, same ▸ lives⟩
    have length : e'.terms.length = row.1.1.terms.length := terms.terms.length_eq.symm
    have positive : 0 < e'.terms.length := by
      rw [length]
      exact List.length_pos_of_ne_nil filled
    obtain ⟨t, term⟩ := List.exists_mem_of_length_pos positive
    refine ⟨by simpa [Equation.size, Equation.terms] using positive, (each t term).2.2,
      fun t term => ⟨?_, Or.inl (each t term).2.1⟩⟩
    rw [(each t term).1, Session.testedForm?_eq root]
    rfl
  have filled : results.map Prod.fst ≠ [] := by
    intro empty
    rw [List.map_eq_nil_iff] at empty
    exact nonempty (List.forall₂_nil_right_iff.1 (empty ▸ tested))
  exact Outcome.bind_of_ok (WeakFormulation.check_eq_ok.2 ⟨filled, fits⟩) _

/-- Root forms can be declared unknowns. -/
theorem withUnknowns_of_roots {forms : List FormId}
    (roots : ∀ u ∈ forms, ∃ f, s.forms.get? u = some f ∧ f.isRoot = true) :
    w.withUnknowns s forms = .ok { w with unknowns := some forms } := by
  have each : ∀ u ∈ forms, (do
      let f ← s.form u
      if !f.isRoot then
        reject (.unsupported (.unknownNotRoot f.lin)) : Outcome Unit) = .ok () := by
    intro u member
    obtain ⟨f, found, root⟩ := roots u member
    have fetched : s.form u = .ok f := Arena.fetch_eq_ok_iff.2 found
    rw [Outcome.bind_of_ok fetched, root]
    rfl
  exact Outcome.bind_of_ok (a := ()) (Outcome.forM_eq_ok.2 each) _

/-- The rows that a system is tested by. -/
def rows (p : Pde) (spaces : List SpaceId) (labels : List Labels) : List Row :=
  (p.equations.zip spaces).zip labels

/-- The weak formulation of tested equations, with the unknowns of the system. -/
def finish (p : Pde) (results : List (Equation Term × FormId)) : Derive WeakFormulation := do
  let s ← get
  let w ← WeakFormulation.create s (results.map Prod.fst) (results.map Prod.snd)
  match p.unknowns with
  | some unknowns => w.withUnknowns s unknowns
  | none => return w

/-- Equations that were tested pass the checks that are left. -/
theorem finish_of_tested {results : List (Equation Term × FormId)} (wellFormed : p.WellFormed s)
    (nonempty : p.rows spaces labels' ≠ [])
    (tested : List.Forall₂ (TestedRow s) (p.rows spaces labels') results) : p.finish results s =
      .ok ⟨p.mesh, results.map Prod.fst, results.map Prod.snd, p.unknowns⟩ s := by
  have typed : ∀ row ∈ p.rows spaces labels', EquationTyped s p.mesh row.1.1 := fun row member =>
    wellFormed.typed _ (List.of_mem_zip (List.of_mem_zip member).1).1
  have created := create_of_tested nonempty typed tested
  rw [finish, get_bind, lift_bind_of_ok created]
  cases unknowns : p.unknowns with
  | none => rfl
  | some forms =>
    exact lift_eq_ok.2 ⟨withUnknowns_of_roots (wellFormed.unknowns forms unknowns), rfl⟩

/-- Testing a system succeeds exactly if testing its equations does. -/
theorem test_eq_ok (wellFormed : p.WellFormed s) : p.test spaces labels' s = .ok w s' ↔
    spaces.length = p.equations.length ∧ labels'.length = p.equations.length ∧
      ∃ results, (p.rows spaces labels').mapM testRow s = .ok results s' ∧
        w = ⟨p.mesh, results.map Prod.fst, results.map Prod.snd, p.unknowns⟩ := by
  have phases : p.test spaces labels' = (do
      if spaces.length ≠ p.equations.length ∨ labels'.length ≠ p.equations.length then
        reject (.structural (.testCounts p.equations.length spaces.length labels'.length))
      (p.rows spaces labels').mapM testRow >>= p.finish : Derive WeakFormulation) := rfl
  rw [phases, guard_eq_ok, not_or, not_not, not_not, and_assoc, bind_eq_ok]
  refine and_congr_right fun spaceCount => and_congr_right fun labelCount => ?_
  have nonempty : p.rows spaces labels' ≠ [] := by
    have positive := List.length_pos_of_ne_nil wellFormed.nonempty
    refine List.ne_nil_of_length_pos ?_
    simp [rows, spaceCount, labelCount, positive]
  have finishes : ∀ {results mid}, (p.rows spaces labels').mapM testRow s = .ok results mid →
      p.finish results mid =
        .ok ⟨p.mesh, results.map Prod.fst, results.map Prod.snd, p.unknowns⟩ mid :=
    fun run => finish_of_tested (wellFormed.mono ((Grows.mapM testRow_grows _ _).extends run))
      nonempty (testedRow_of_mapM run)
  constructor
  · rintro ⟨results, mid, run, last⟩
    cases (finishes run).symm.trans last
    exact ⟨results, run, rfl⟩
  · rintro ⟨results, run, rfl⟩
    exact ⟨results, s', run, finishes run⟩

/-- The spaces and labels that a system can be tested with. -/
structure Testable (p : Pde) (s : Session) (spaces : List SpaceId) (labels : List Labels) :
    Prop where
  spaceCount : spaces.length = p.equations.length
  labelCount : labels.length = p.equations.length
  valid : ∀ l ∈ labels, l.validate .form = .ok ()
  distinctSyms : (labels.map Labels.sym).Nodup
  distinctLins : (labels.map Labels.lin).Nodup
  unused : ∀ l ∈ labels, ¬ s.forms.UsesSym Form.rootLabels? l.sym ∧
    ¬ s.forms.UsesLin Form.rootLabels? l.lin
  fits : ∀ (i : Nat) (e : Equation FormId) (space : SpaceId), p.equations[i]? = some e →
    spaces[i]? = some space → TestSpace s p.mesh e space

/-- A weak formulation is that of a tested system: its test forms are the next forms of the
session, root forms of the given spaces under the given labels, and each term is the inner
product of a form with the test form of its equation. -/
structure TestedAs (p : Pde) (spaces : List SpaceId) (labels : List Labels) (s s' : Session)
    (w : WeakFormulation) : Prop where
  mesh : w.mesh = p.mesh
  unknowns : w.unknowns = p.unknowns
  testForms : w.testForms = (List.range p.equations.length).map fun i => ⟨s.forms.size + i⟩
  roots : ∀ (i : Nat) (v : FormId) (space : SpaceId) (l : Labels), w.testForms[i]? = some v →
    spaces[i]? = some space → labels[i]? = some l →
      s'.forms.get? v = some (s'.rootForm space l .root)
  length : w.equations.length = p.equations.length
  equations : ∀ (i : Nat) (e : Equation FormId) (e' : Equation Term) (v : FormId),
    p.equations[i]? = some e → w.equations[i]? = some e' → w.testForms[i]? = some v →
      TestedEquation s' v e e'

/-- The rows of as many spaces and labels as there are equations have all of them. -/
theorem rows_unzip (spaceCount : spaces.length = p.equations.length)
    (labelCount : labels'.length = p.equations.length) :
    (p.rows spaces labels').map Prod.fst = p.equations.zip spaces ∧
      (p.rows spaces labels').map Prod.snd = labels' := by
  have length : (p.equations.zip spaces).length = labels'.length := by
    rw [List.length_zip, spaceCount, labelCount, Nat.min_self]
  exact ⟨List.map_fst_zip length.le, List.map_snd_zip length.ge⟩

/-- A system can be tested exactly with distinct valid labels that no root form has, in spaces
that have the degrees of its equations. -/
theorem test_succeeds_iff (reachable : Session.Reachable settings s)
    (wellFormed : p.WellFormed s) :
    (∃ w s', p.test spaces labels' s = .ok w s') ↔ p.Testable s spaces labels' := by
  have typed : ∀ row ∈ p.rows spaces labels', EquationTyped s p.mesh row.1.1 := fun row member =>
    wellFormed.typed _ (List.of_mem_zip (List.of_mem_zip member).1).1
  have succeeds := mapM_testRow_succeeds_iff reachable.sound typed
  simp only [reachable.available_iff] at succeeds
  simp only [test_eq_ok wellFormed]
  constructor
  · rintro ⟨w, s', spaceCount, labelCount, results, run, -⟩
    obtain ⟨firsts, seconds⟩ := rows_unzip spaceCount labelCount
    obtain ⟨each, syms, lins⟩ := succeeds.1 ⟨results, s', run⟩
    have named : ∀ l ∈ labels', l.validate .form = .ok () ∧
        ¬ s.forms.UsesSym Form.rootLabels? l.sym ∧ ¬ s.forms.UsesLin Form.rootLabels? l.lin := by
      rw [← seconds, List.forall_mem_map]
      exact fun row member => ⟨(each row member).1, (each row member).2.1⟩
    have fits : ∀ entry ∈ p.equations.zip spaces, TestSpace s p.mesh entry.1 entry.2 := by
      rw [← firsts, List.forall_mem_map]
      exact fun row member => (each row member).2.2
    refine ⟨spaceCount, labelCount, fun l member => (named l member).1, ?_, ?_,
      fun l member => (named l member).2, fun i e space equation place => ?_⟩
    · rw [← seconds, List.map_map]
      exact syms
    · rw [← seconds, List.map_map]
      exact lins
    · exact fits (e, space) (List.mem_of_getElem? (List.getElem?_zip_eq_some.2 ⟨equation, place⟩))
  · rintro ⟨spaceCount, labelCount, valid, distinctSyms, distinctLins, unused, fits⟩
    obtain ⟨firsts, seconds⟩ := rows_unzip spaceCount labelCount
    rw [← seconds, List.map_map] at distinctSyms distinctLins
    have each : ∀ row ∈ p.rows spaces labels', row.2.validate .form = .ok () ∧
        (¬ s.forms.UsesSym Form.rootLabels? row.2.sym ∧
          ¬ s.forms.UsesLin Form.rootLabels? row.2.lin) ∧
            TestSpace s p.mesh row.1.1 row.1.2 := by
      intro row member
      obtain ⟨listed, named⟩ := List.of_mem_zip member
      obtain ⟨i, found⟩ := List.mem_iff_getElem?.1 listed
      obtain ⟨equation, place⟩ := List.getElem?_zip_eq_some.1 found
      exact ⟨valid _ named, unused _ named, fits i _ _ equation place⟩
    obtain ⟨results, s', run⟩ := succeeds.2 ⟨each, distinctSyms, distinctLins⟩
    exact ⟨_, s', spaceCount, labelCount, results, run, rfl⟩

/-- What is got by testing a system. -/
theorem test_testedAs (wellFormed : p.WellFormed s) (run : p.test spaces labels' s = .ok w s') :
    p.TestedAs spaces labels' s s' w := by
  obtain ⟨spaceCount, labelCount, results, each, rfl⟩ := (test_eq_ok wellFormed).1 run
  have tested := testedRow_of_mapM each
  have rowCount : (p.rows spaces labels').length = p.equations.length := by
    simp [rows, spaceCount, labelCount]
  have count : results.length = p.equations.length := tested.length_eq.symm.trans rowCount
  -- a row and its result have the same index
  have placed : ∀ {i : Nat} {e' v}, (results.map Prod.fst)[i]? = some e' →
      (results.map Prod.snd)[i]? = some v → ∃ e space l, p.equations[i]? = some e ∧
        spaces[i]? = some space ∧ labels'[i]? = some l ∧ TestedRow s' ((e, space), l) (e', v) := by
    intro i e' v foundEquation foundForm
    rw [List.getElem?_map, Option.map_eq_some_iff] at foundEquation foundForm
    obtain ⟨r, found, rfl⟩ := foundEquation
    obtain ⟨r', found', rfl⟩ := foundForm
    cases found.symm.trans found'
    obtain ⟨held, rfl⟩ := List.getElem?_eq_some_iff.1 found
    have held' : i < (p.rows spaces labels').length := tested.length_eq ▸ held
    have row := List.getElem?_eq_getElem held'
    obtain ⟨entry, named⟩ := List.getElem?_zip_eq_some.1 row
    obtain ⟨equation, place⟩ := List.getElem?_zip_eq_some.1 entry
    exact ⟨_, _, _, equation, place, named, tested.get held' held⟩
  refine ⟨rfl, rfl, (testForms_of_mapM each).trans (by rw [rowCount]), ?_, by simp [count], ?_⟩
  · intro i v space l form place named
    have held : i < (results.map Prod.fst).length := by
      simpa using (List.getElem?_eq_some_iff.1 form).1
    obtain ⟨e, space', l', -, place', named', root, -⟩ :=
      placed (List.getElem?_eq_getElem held) form
    cases place.symm.trans place'
    cases named.symm.trans named'
    exact root
  · intro i e e' v equation equation' form
    obtain ⟨_, _, _, found, -, -, -, terms⟩ := placed equation' form
    cases equation.symm.trans found
    exact terms

/-- Testing a system succeeds exactly if there is one space and one pair of labels for each
equation, the labels are valid, distinct and not those of root forms, and each space is on the
mesh of the system with the degree of its equation. The formulation that it gives has the equations
of the system, with each form paired with the new test form of its equation, and its unknowns. -/
theorem Obtained.test_exact (obtained : Obtained settings s p) (spaces : List SpaceId)
    (labels : List Labels) :
    ((∃ w s', p.test spaces labels s = .ok w s') ↔ p.Testable s spaces labels) ∧
      ∀ w s', p.test spaces labels s = .ok w s' → p.TestedAs spaces labels s s' w :=
  ⟨test_succeeds_iff obtained.wellFormed.1 obtained.wellFormed.2,
    fun _ _ run => test_testedAs obtained.wellFormed.2 run⟩

/-- A system of two equations of different degrees, with an unknown, is tested in the two spaces,
but not in the spaces the other way around, and not with one label twice. -/
theorem test_exact_degrees : ∃ s p, Obtained {} s p ∧ p.unknowns = some [⟨0⟩] ∧
    (∃ w s', p.test [⟨0⟩, ⟨1⟩] [⟨"v", "v"⟩, ⟨"w", "w"⟩] s = .ok w s' ∧
      p.TestedAs [⟨0⟩, ⟨1⟩] [⟨"v", "v"⟩, ⟨"w", "w"⟩] s s' w) ∧
    (¬ ∃ w s', p.test [⟨1⟩, ⟨0⟩] [⟨"v", "v"⟩, ⟨"w", "w"⟩] s = .ok w s') ∧
    ¬ ∃ w s', p.test [⟨0⟩, ⟨1⟩] [⟨"v", "v"⟩, ⟨"w", "v"⟩] s = .ok w s' := by
  let e : Equation FormId := ⟨[⟨.plus, ⟨0⟩⟩], [⟨.minus, ⟨0⟩⟩]⟩
  let e' : Equation FormId := ⟨[], [⟨.plus, ⟨1⟩⟩]⟩
  obtain ⟨s, reachable, made, declared, lives, lives', found, found', free⟩ :
      ∃ s, Session.Reachable {} s ∧ create s [e, e'] = .ok ⟨⟨0⟩, [e, e'], none⟩ ∧
        withUnknowns s ⟨⟨0⟩, [e, e'], none⟩ [⟨0⟩] = .ok ⟨⟨0⟩, [e, e'], some [⟨0⟩]⟩ ∧
        s.Lives ⟨0⟩ ⟨0⟩ 0 ∧ s.Lives ⟨1⟩ ⟨0⟩ 1 ∧
        (s.spaces.get? ⟨0⟩).map (fun sp => (sp.mesh, sp.k)) = some (⟨0⟩, 0) ∧
        (s.spaces.get? ⟨1⟩).map (fun sp => (sp.mesh, sp.k)) = some (⟨0⟩, 1) ∧
        ∀ l ∈ ["v", "w"], s.formLabels.hasSym l = false ∧ s.formLabels.hasLin l = false :=
    ⟨Request.performAll {} [.manifold 1, .mesh ⟨0⟩, .space ⟨0⟩ 0 .outer, .space ⟨0⟩ 1 .outer,
      .root ⟨0⟩ ⟨"f", "f"⟩, .root ⟨1⟩ ⟨"u", "u"⟩], .performAll {} _, by decide +kernel⟩
  have obtained : Obtained {} s ⟨⟨0⟩, [e, e'], some [⟨0⟩]⟩ :=
    .withUnknowns (.create reachable made) declared
  obtain ⟨sp, foundSpace, same⟩ := Option.map_eq_some_iff.1 found
  obtain ⟨sp', foundSpace', same'⟩ := Option.map_eq_some_iff.1 found'
  obtain ⟨onMesh, degree⟩ := Prod.mk.inj same
  obtain ⟨onMesh', degree'⟩ := Prod.mk.inj same'
  have testable : (⟨⟨0⟩, [e, e'], some [⟨0⟩]⟩ : Pde).Testable s [⟨0⟩, ⟨1⟩]
      [⟨"v", "v"⟩, ⟨"w", "w"⟩] := by
    refine ⟨rfl, rfl, by decide +kernel, by decide, by decide, ?_, ?_⟩
    · intro l member
      rw [← reachable.available_iff]
      rcases List.mem_pair.1 member with rfl | rfl
      · exact free "v" (by simp)
      · exact free "w" (by simp)
    · intro i e₀ space equation place
      match i with
      | 0 =>
        cases equation
        cases place
        refine ⟨sp, foundSpace, onMesh, ?_⟩
        simp [OfDegree, e, Equation.terms, degree, lives]
      | 1 =>
        cases equation
        cases place
        refine ⟨sp', foundSpace', onMesh', ?_⟩
        simp [OfDegree, e', Equation.terms, degree', lives']
  obtain ⟨succeeds, gives⟩ := obtained.test_exact [⟨0⟩, ⟨1⟩] [⟨"v", "v"⟩, ⟨"w", "w"⟩]
  obtain ⟨w, s', run⟩ := succeeds.2 testable
  refine ⟨s, _, obtained, rfl, ⟨w, s', run, gives w s' run⟩, fun swapped => ?_, fun repeated => ?_⟩
  · obtain ⟨sp₁, foundSpace₁, -, below⟩ :=
      ((obtained.test_exact _ _).1.1 swapped).fits 0 e ⟨1⟩ rfl rfl
    cases foundSpace₁.symm.trans foundSpace'
    have one : s.Lives ⟨0⟩ ⟨0⟩ 1 := degree' ▸ below ⟨.plus, ⟨0⟩⟩ (by simp [e, Equation.terms])
    cases (one.unique lives).2
  · exact absurd ((obtained.test_exact _ _).1.1 repeated).distinctLins (by decide)

end Pde

end Variational
