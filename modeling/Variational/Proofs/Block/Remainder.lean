import Variational.Proofs.ArrayRequests
import Variational.Proofs.Block.Conservation
import Variational.Proofs.Conversion.Chains

/-!
# What remains of a weak formulation

Every product that remains in the system of a weak formulation was converted from a
term of the equation of its row. A coefficient vector in it is known data. A boundary
vector of an unknown does remain, since it is gathered for no coefficient vector. The
main statement is `remainder_known`.
-/

namespace Variational

open Derive

variable {s s' : Session}

/-! ## Coefficient vectors -/

/-- An array has the label of the coefficient vector of a form. -/
def Session.LabelsVector (s : Session) (id : ArrayId) (u : FormId) : Prop :=
  ∃ form lin a, s.forms.get? u = some form ∧ form.pureLin = some lin ∧
    s.arrays.get? id = some a ∧
    a.pureLin = lin ++ s.settings.conventions.linGlyphs.vectorSuffix

theorem Session.Extends.labelsVector (later : s.Extends s') {id : ArrayId} {u : FormId}
    (labels : s.LabelsVector id u) : s'.LabelsVector id u := by
  obtain ⟨form, lin, a, found, named, foundArray, label⟩ := labels
  exact ⟨form, lin, a, later.forms found, named, later.arrays foundArray, later.settings ▸ label⟩

theorem RootArray.vector_labels (sound : s.Sound) {u : FormId} {id : ArrayId}
    (run : vector u s = .ok id s') : s'.LabelsVector id u := by
  simp only [vector, get_bind, bind_eq_ok, lift_eq_ok] at run
  obtain ⟨form, _, ⟨found, rfl⟩, run⟩ := run
  have foundForm := Arena.fetch_eq_ok_iff.1 found
  cases named : form.pureLin with
  | none => simp [named, lift_eq_ok] at run
  | some lin =>
    simp only [named, bind_eq_ok, lift_eq_ok] at run
    obtain ⟨rows, _, ⟨-, rfl⟩, run⟩ := run
    rcases register_cases run with ⟨known, rfl⟩ | ⟨-, rfl, rfl⟩
    · obtain ⟨a, foundArray, label⟩ := sound.arrayLabels.get?_of_byLin? known
      exact ⟨form, lin, a, foundForm, named, foundArray, label⟩
    · exact ⟨form, lin, _, foundForm, named, Arena.get?_push_nextId, rfl⟩

/-- No other array stands for the coefficients of the form. -/
theorem Session.Sound.eq_of_standsFor (sound : s.Sound) {id other : ArrayId} {u : FormId}
    (labels : s.LabelsVector id u) (stands : s.StandsFor other (.vector u)) : other = id := by
  obtain ⟨form, lin, a, found, named, foundArray, label⟩ := labels
  obtain ⟨⟨sym, pureLin, shape, kind⟩, foundOther, rfl⟩ := stands
  obtain ⟨form', lin', rows, found', named', -, label', -⟩ := sound.arrays foundOther
  cases found.symm.trans found'
  cases named.symm.trans named'
  exact sound.arrayLabels.eq_of_lin foundOther foundArray (label'.trans label.symm)

theorem RootArray.vectors_label {forms : List FormId} {ids : List ArrayId} (sound : s.Sound)
    (run : forms.mapM vector s = .ok ids s') :
    List.Forall₂ (fun u id => s'.LabelsVector id u) forms ids :=
  mapM_forall₂ (P := fun s u id => s.LabelsVector id u) (fun f _ => vector_grows f)
    (fun steps labels => steps.extends.labelsVector labels)
    (fun steps run => vector_labels (sound.steps steps) run) run

theorem Session.Extends.rowLabel_vector (later : s.Extends s') {label : String} {f : FormId}
    (labelled : s.RowLabel label (.vector f)) : s'.RowLabel label (.vector f) := by
  obtain ⟨form, found, rows⟩ := labelled
  exact ⟨form, later.forms found, later.dofLabel_eq_ok rows⟩

theorem RootArray.vector_rowLabel {f : FormId} {id : ArrayId} (run : vector f s = .ok id s') :
    ∃ label, s'.RowLabel label (.vector f) := by
  have later := (vector_grows f).extends run
  simp only [vector, get_bind, bind_eq_ok, lift_eq_ok] at run
  obtain ⟨form, _, ⟨found, rfl⟩, run⟩ := run
  cases named : form.pureLin with
  | none => simp [named, lift_eq_ok] at run
  | some lin =>
    simp only [named, bind_eq_ok, lift_eq_ok] at run
    obtain ⟨rows, _, ⟨labelled, rfl⟩, -⟩ := run
    exact ⟨rows, later.rowLabel_vector ⟨form, Arena.fetch_eq_ok_iff.1 found, labelled⟩⟩

/-! ## Converted products -/

/-- The first link fits the coefficients of a form, and behind it stands a chain that ends with
a column. -/
def Session.Tests (s : Session) (v : FormId) (chain : List Link) : Prop :=
  ∃ front last form, chain.head? = some front ∧ chain.tail.getLast? = some last ∧
    last.shape.cols = "1" ∧ s.forms.get? v = some form ∧
    s.dofLabel form.space = .ok front.shape.cols

theorem Session.Extends.tests (later : s.Extends s') {v : FormId} {chain : List Link}
    (tests : s.Tests v chain) : s'.Tests v chain := by
  obtain ⟨front, last, form, first, ends, column, found, labelled⟩ := tests
  exact ⟨front, last, form, first, ends, column, later.forms found, later.dofLabel_eq_ok labelled⟩

/-- The links of a represented term begin with the coefficients of its test form and end with a
column. -/
theorem Term.Represented.kinds_cases {base : Session} {t : Term} {v : FormId} {c : ScalarId}
    {kinds : List LinkKind} (represented : Represented base s t v c kinds) :
    ∃ middle u kind, kinds = ⟨.vector v, true⟩ :: (middle ++ [⟨kind, false⟩]) ∧
      (kind = .vector u ∨ ∃ space, kind = .wedgeVector u space) := by
  cases represented with
  | @innerProduct _ front core _ test _ form =>
    obtain ⟨behind, rfl⟩ : ∃ behind, front = ⟨.vector v, true⟩ :: behind := by
      generalize t.f2 = f at test
      cases test <;> exact ⟨_, rfl⟩
    obtain ⟨before, u, rfl⟩ : ∃ before u, core = before ++ [⟨.vector u, false⟩] := by
      cases form with
      | root => exact ⟨[_], _, rfl⟩
      | derivative => exact ⟨[_, _], _, rfl⟩
    exact ⟨behind ++ before, u, _, by rw [List.cons_append, List.append_assoc], Or.inl rfl⟩
  | dualityPairing => exact ⟨[], _, _, rfl, Or.inr ⟨_, rfl⟩⟩

theorem Term.Represented.tests {base : Session} {t : Term} {v : FormId} {c : ScalarId}
    {kinds : List LinkKind} {chain : List Link} (sound : s.Sound)
    (represented : Represented base s t v c kinds) (links : chain.Forall₂ s.IsLink kinds) :
    s.Tests v chain := by
  obtain ⟨middle, u, kind, rfl, stands⟩ := represented.kinds_cases
  obtain _ | ⟨frontLink, behindLinks⟩ := links
  rename_i front behind
  have reversed := List.rel_reverse behindLinks
  rw [List.reverse_append, List.reverse_singleton, List.singleton_append] at reversed
  cases shape : behind.reverse with
  | nil => simp [shape] at reversed
  | cons last others =>
    rw [shape] at reversed
    obtain _ | ⟨lastLink, -⟩ := reversed
    obtain ⟨form, rows, found, labelled, frontShape⟩ := sound.shape_vector frontLink
    refine ⟨front, last, form, rfl, ?_, ?_, found, by rw [frontShape]; exact labelled⟩
    · rw [List.tail_cons, ← List.head?_reverse, shape, List.head?_cons]
    · rcases stands with rfl | ⟨space, rfl⟩
      · obtain ⟨_, _, -, -, lastShape⟩ := sound.shape_vector lastLink
        rw [lastShape]
        rfl
      · obtain ⟨_, -, lastShape⟩ := sound.shape_wedgeVector lastLink
        rw [lastShape]

/-- A product that a term may be converted to. Under the default conventions it is tested with
the coefficients of the test form, and has a boundary vector only if the term is a boundary
pairing. -/
structure Term.ConvertsTo (s : Session) (t : Term) (v : FormId) (p : Product) : Prop where
  chains : s.Chains p.chain
  tests : s.settings.conventions.linGlyphs.vectorSuffix = "+vec" → s.Tests v p.chain
  boundary : s.settings.conventions.linGlyphs.vectorSuffix = "+vec" → ∀ l ∈ p.chain, ∀ u space,
    s.StandsFor l.array (.wedgeVector u space) →
      t.IsBoundaryPairing s u v ∧ ∃ front, p.chain = [front, l]

theorem Term.ConvertsTo.mono (later : s.Extends s') {t : Term} {v : FormId} {p : Product}
    (converts : t.ConvertsTo s v p) : t.ConvertsTo s' v p where
  chains := later.chains converts.chains
  tests suffix := later.tests (converts.tests (later.settings ▸ suffix))
  boundary suffix l member u space stands := by
    obtain ⟨-, -, a, found, -⟩ := Session.link_spec (converts.chains.linked l member)
    obtain ⟨a', found', kind⟩ := stands
    cases (later.arrays found).symm.trans found'
    obtain ⟨pairing, chain⟩ := converts.boundary (later.settings ▸ suffix) l member u space
      ⟨a, found, kind⟩
    exact ⟨pairing.mono later, chain⟩

theorem Term.convert_convertsTo (sound : s.Sound) {t : Term} {v : FormId} {p : Signed Product}
    (run : convert t v s = .ok (.converted p) s') : t.ConvertsTo s' v p.value where
  chains := convert_chains run
  tests suffix := by
    have later := (convert_grows t v).extends run
    have standard : s.Standard := ⟨sound, later.settings ▸ suffix⟩
    obtain ⟨prepares, -, -, kinds, represented, links⟩ := convert_spec standard run
    exact represented.tests (prepares.standard standard).sound links
  boundary suffix l member u space stands := by
    have later := (convert_grows t v).extends run
    have standard : s.Standard := ⟨sound, later.settings ▸ suffix⟩
    obtain ⟨-, -, -, kinds, represented, links⟩ := convert_spec standard run
    obtain ⟨pairing, chain⟩ := represented.boundaryPairing links member stands
    exact ⟨pairing.mono later, chain⟩

/-! ## Algebraic systems -/

namespace AlgebraicSystem

/-- The product of an entry, if it has one, is that of a term. -/
def EntryOf (s : Session) (v : FormId) (t : Signed Term) (entry : Signed AlgebraicEntry) : Prop :=
  ∀ p, entry.value.term = .product p → t.value.ConvertsTo s v p

/-- Every entry of a converted equation is that of a term on its side. -/
def EquationOf (s : Session) (v : FormId) (e : Equation Term)
    (converted : Equation AlgebraicEntry) : Prop :=
  ∀ side, ∀ entry ∈ converted.side side, ∃ t ∈ e.side side, EntryOf s v t entry

theorem EntryOf.mono (later : s.Extends s') {v : FormId} {t : Signed Term}
    {entry : Signed AlgebraicEntry} (given : EntryOf s v t entry) : EntryOf s' v t entry :=
  fun p product => (given p product).mono later

theorem EquationOf.mono (later : s.Extends s') {v : FormId} {e : Equation Term}
    {converted : Equation AlgebraicEntry} (given : EquationOf s v e converted) :
    EquationOf s' v e converted := by
  intro side entry member
  obtain ⟨t, inside, entryOf⟩ := given side entry member
  exact ⟨t, inside, entryOf.mono later⟩

theorem convertTerm_entryOf (sound : s.Sound) {v : FormId} {position : Position}
    {t : Signed Term} {entry : Signed AlgebraicEntry}
    (run : convertTerm v position t s = .ok entry s') : EntryOf s' v t entry := by
  simp only [convertTerm, bind_eq_ok] at run
  obtain ⟨conversion, mid, converted, run⟩ := run
  intro p product
  cases conversion with
  | converted q =>
    simp only [bind_eq_ok, get_eq_ok, lift_eq_ok, pure_eq_ok] at run
    obtain ⟨_, _, ⟨rfl, rfl⟩, linear, _, ⟨-, rfl⟩, rfl, rfl⟩ := run
    cases product
    exact Term.convert_convertsTo sound converted
  | unsupported reason =>
    simp only [bind_eq_ok, pure_eq_ok] at run
    obtain ⟨_, _, -, rfl, -⟩ := run
    cases product

/-- The terms of one side are converted one by one. -/
theorem convertTerms_entryOf (sound : s.Sound) {v : FormId} (position : Nat → Position)
    {terms : List (Signed Term)} {entries : List (Signed AlgebraicEntry)}
    (run : (terms.zipIdx.mapM fun x => convertTerm v (position x.2) x.1) s = .ok entries s') :
    ∀ entry ∈ entries, ∃ t ∈ terms, EntryOf s' v t entry := by
  have converted := mapM_forall₂
    (P := fun s (x : Signed Term × Nat) entry => EntryOf s v x.1 entry)
    (fun _ _ => convertTerm_grows _ _ _) (fun steps given => given.mono steps.extends)
    (fun steps run => convertTerm_entryOf (sound.steps steps) run) run
  intro entry member
  obtain ⟨⟨t, j⟩, inside, given⟩ := exists_mem_of_forall₂ converted member
  exact ⟨t, List.fst_mem_of_mem_zipIdx inside, given⟩

theorem convertEquation_equationOf (sound : s.Sound) {equation : Nat} {e : Equation Term}
    {v : FormId} {converted : Equation AlgebraicEntry}
    (run : convertEquation equation e v s = .ok converted s') : EquationOf s' v e converted := by
  simp only [convertEquation, bind_eq_ok, pure_eq_ok] at run
  obtain ⟨left, mid, runLeft, right, last, runRight, rfl, rfl⟩ := run
  have steps : s.Steps mid := (Grows.mapM (fun _ _ => convertTerm_grows _ _ _) _ _).steps runLeft
  have later : mid.Extends last :=
    (Grows.mapM (fun _ _ => convertTerm_grows _ _ _) _ _).extends runRight
  intro side entry member
  cases side with
  | left =>
    obtain ⟨t, inside, given⟩ :=
      convertTerms_entryOf sound (fun j => ⟨equation, j⟩) runLeft entry member
    exact ⟨t, inside, given.mono later⟩
  | right =>
    exact convertTerms_entryOf (sound.steps steps) (fun j => ⟨equation, e.left.length + j⟩)
      runRight entry member

/-- The unknowns and the test vectors of an algebraic system are the coefficient vectors of the
unknowns and of the test forms, which lie in finite spaces, and its equations are converted from
those of the formulation. -/
theorem create_spec (sound : s.Sound) {w : WeakFormulation} {unknowns : List FormId}
    (known : w.unknowns = some unknowns) {a : AlgebraicSystem} (run : create w s = .ok a s') :
    List.Forall₂ (fun u id => s'.LabelsVector id u) unknowns a.unknowns ∧
      List.Forall₂ (fun v _ => ∃ label, s'.RowLabel label (.vector v)) w.testForms a.testVectors ∧
      ∀ (i : Nat) converted, a.equations[i]? = some converted → ∃ e v,
        w.equations[i]? = some e ∧ w.testForms[i]? = some v ∧ EquationOf s' v e converted := by
  simp only [create, known, bind_eq_ok, get_eq_ok, lift_eq_ok, pure_eq_ok] at run
  obtain ⟨ids, s₁, labelled, tests, s₂, tested, equations, s₃, converted, _, _, ⟨rfl, rfl⟩,
    elementary, _, ⟨-, rfl⟩, vectors, last, taken, rfl, rfl⟩ := run
  have vectorSteps {fs : List FormId} {ids : List ArrayId} {s s' : Session}
      (run : fs.mapM RootArray.vector s = .ok ids s') : s.Steps s' :=
    (Grows.mapM (fun f _ => RootArray.vector_grows f) fs s).steps run
  have first := vectorSteps labelled
  have second := vectorSteps tested
  have third : s₂.Steps s₃ :=
    (Grows.mapM (fun _ _ => convertEquation_grows _ _ _) _ _).steps converted
  have fourth := vectorSteps taken
  have later : s₁.Steps last := second.trans (third.trans fourth)
  have tests := mapM_forall₂ (P := fun s v _ => ∃ label, s.RowLabel label (.vector v))
    (fun f _ => RootArray.vector_grows f)
    (fun steps labelled => labelled.imp fun _ => steps.extends.rowLabel_vector)
    (fun _ run => RootArray.vector_rowLabel run) tested
  have last' : s₂.Extends last := Session.Steps.extends (third.trans fourth)
  refine ⟨(RootArray.vectors_label sound labelled).imp fun u id labels =>
      later.extends.labelsVector labels,
    tests.imp fun v _ labelled => labelled.imp fun _ => last'.rowLabel_vector,
    fun i e' here => ?_⟩
  have equationOf := mapM_forall₂
    (P := fun s (x : (Equation Term × FormId) × Nat) e' => EquationOf s x.1.2 x.1.1 e')
    (fun _ _ => convertEquation_grows _ _ _) (fun steps given => given.mono steps.extends)
    (fun steps run =>
      convertEquation_equationOf ((sound.steps (first.trans second)).steps steps) run) converted
  obtain ⟨held, rfl⟩ := List.getElem?_eq_some_iff.1 here
  have held' : i < (w.equations.zip w.testForms).zipIdx.length := equationOf.length_eq ▸ held
  have given := (equationOf.get held' held).mono fourth.extends
  simp only [List.get_eq_getElem, List.getElem_zipIdx, List.getElem_zip] at given
  have inside : i < w.equations.length ∧ i < w.testForms.length := by
    simpa [List.length_zip, Nat.lt_min] using held'
  exact ⟨_, _, List.getElem?_eq_getElem inside.1, List.getElem?_eq_getElem inside.2, given⟩

end AlgebraicSystem

/-! ## Block systems -/

theorem BlockVector.lt_rows_of_mem_row {v : BlockVector} {i : Nat} {t : Signed Product}
    (member : t ∈ v.row i) : i < v.rows := by
  by_contra outside
  have none : v.get? i = none := List.getElem?_eq_none (Nat.not_lt.1 outside)
  simp [row, none] at member

namespace BlockSystem

theorem entryProduct_eq_ok {entry : Signed AlgebraicEntry} {t : Signed Product}
    (run : entryProduct entry = .ok t) : entry.value.term = .product t.value := by
  rw [entryProduct] at run
  split at run
  · rename_i p product
    cases run
    exact product
  · simp at run

/-- Targets that are arrays stand for themselves. -/
theorem arrays_of_targets {ids arrays : List ArrayId}
    (run : (ids.map Target.array).mapM Target.array? s = .ok arrays s') : arrays = ids := by
  have self : (ids.map Target.array).mapM Target.array? = (pure ids : Derive (List ArrayId)) := by
    rw [List.mapM_map]
    exact (List.mapM_pure (f := id)).trans (by rw [List.map_id])
  rw [self, pure_eq_ok] at run
  exact run.1.symm

/-- The system of a weak formulation is gathered for its unknowns from a system of products that
were converted from the terms of the equations. -/
theorem create_rows (sound : s.Sound) {w : WeakFormulation} {b : BlockSystem}
    (run : create w s = .ok b s') : ∃ unknowns ids testVectors equations system mid,
      w.unknowns = some unknowns ∧ s.Steps mid ∧
      List.Forall₂ (fun u id => mid.LabelsVector id u) unknowns ids ∧
      List.Forall₂ (fun v _ => ∃ label, mid.RowLabel label (.vector v)) w.testForms testVectors ∧
      ofProducts mid testVectors equations = .ok system ∧
      system.gather (ids.map Target.array) mid = .ok b s' ∧
      ∀ side i, ∀ t ∈ (system.side side).remainder.row i, ∃ e v front,
        w.equations[i]? = some e ∧ w.testForms[i]? = some v ∧
          ∃ x ∈ e.side side, x.value.ConvertsTo mid v
            ⟨t.value.factor, front :: t.value.chain⟩ := by
  simp only [create, ofAlgebraic, bind_eq_ok, get_eq_ok, lift_eq_ok] at run
  obtain ⟨a, mid, converted, equations, _, ⟨products, rfl⟩, _, _, ⟨rfl, rfl⟩, system, _,
    ⟨built, rfl⟩, gathered⟩ := run
  obtain ⟨unknowns, known⟩ : ∃ unknowns, w.unknowns = some unknowns := by
    cases known : w.unknowns with
    | some unknowns => exact ⟨unknowns, rfl⟩
    | none => simp [AlgebraicSystem.create, known, lift_eq_ok] at converted
  obtain ⟨labels, tests, sources⟩ := AlgebraicSystem.create_spec sound known converted
  refine ⟨unknowns, a.unknowns, a.testVectors, equations, system, mid, known,
    (AlgebraicSystem.create_grows w).steps converted, labels, tests, built,
    gathered, fun side i t member => ?_⟩
  -- The product stood behind its test vector in the equation of its row.
  obtain ⟨-, rows⟩ := ofProducts_spec built
  obtain ⟨-, height, strips⟩ := rows side
  have held : i < equations.length := height ▸ BlockVector.lt_rows_of_mem_row member
  have tested : i < a.testVectors.length := testVectorCount built ▸ held
  have stripped := strips i _ _ (List.getElem?_eq_getElem held) (List.getElem?_eq_getElem tested)
  obtain ⟨q, inside, -, front, -, -, whole⟩ := exists_mem_of_forall₂ stripped member
  have entries := Outcome.mapM_eq_ok.1 products
  have heldSource : i < a.equations.length := entries.length_eq ▸ held
  obtain ⟨e, v, here, test, equationOf⟩ := sources i _ (List.getElem?_eq_getElem heldSource)
  have sideProducts : List.Forall₂ (fun entry t => entryProduct entry = .ok t)
      (a.equations[i].side side) (equations[i].side side) := by
    have both := entries.get heldSource held
    simp only [Outcome.bind_eq_ok, Outcome.pure_eq_ok, List.get_eq_getElem] at both
    obtain ⟨left, runLeft, right, runRight, same⟩ := both
    rw [← same]
    cases side with
    | left => exact Outcome.mapM_eq_ok.1 runLeft
    | right => exact Outcome.mapM_eq_ok.1 runRight
  obtain ⟨entry, member', product⟩ := exists_mem_of_forall₂ sideProducts inside
  obtain ⟨x, source, entryOf⟩ := equationOf side entry member'
  exact ⟨e, v, front, here, test, x, source, whole ▸ entryOf _ (entryProduct_eq_ok product)⟩

/-- A product that remains comes from a term of the equation of its row, and ends with no
coefficient vector of an unknown. -/
theorem create_remainder (sound : s.Sound) {w : WeakFormulation} {unknowns : List FormId}
    (known : w.unknowns = some unknowns) {b : BlockSystem} (run : create w s = .ok b s')
    {side : Side} {i : Nat} {t : Signed Product} (member : t ∈ (b.side side).remainder.row i) :
    (∀ u ∈ unknowns, ∃ id, s'.LabelsVector id u ∧ ¬ t.value.EndsWith id) ∧
      ∃ e v front, w.equations[i]? = some e ∧ w.testForms[i]? = some v ∧
        ∃ x ∈ e.side side, x.value.ConvertsTo s' v ⟨t.value.factor, front :: t.value.chain⟩ := by
  obtain ⟨unknowns', ids, testVectors, equations, system, mid, known', -, labels, -, -, gathered,
    sources⟩ := create_rows sound run
  cases known.symm.trans known'
  have later := (gather_grows system _).extends gathered
  obtain ⟨arrays, last, column, resolved, -, sides, -⟩ := gather_eq_ok gathered
  obtain rfl := arrays_of_targets resolved
  obtain ⟨old, avoids⟩ := BlockSide.not_endsWith_of_gather (sides side) member
  refine ⟨fun u asked => ?_, ?_⟩
  · obtain ⟨id, inside, label⟩ := exists_mem_of_forall₂ labels.flip asked
    exact ⟨id, later.labelsVector label, avoids id inside⟩
  · obtain ⟨e, v, front, here, test, x, source, converts⟩ := sources side i t old
    exact ⟨e, v, front, here, test, x, source, converts.mono later⟩

/-- What remains of a weak formulation is known data, up to boundary pairings. No link of a
remaining product that is not transposed is the coefficient vector of an unknown. A boundary
vector of an unknown stands last. Under the default conventions it is then the whole product,
and the equation of the row has the boundary pairing of the unknown with the test form. -/
theorem remainder_known {settings : Settings} (reachable : Session.Reachable settings s)
    {w : WeakFormulation} {unknowns : List FormId} (known : w.unknowns = some unknowns)
    {b : BlockSystem} (run : create w s = .ok b s') {side : Side} {i : Nat} {t : Signed Product}
    (member : t ∈ (b.side side).remainder.row i) {link : Link} (inside : link ∈ t.value.chain)
    (plain : link.transposed = false) {u : FormId} (asked : u ∈ unknowns) :
    ¬ s'.StandsFor link.array (.vector u) ∧
      ∀ space, s'.StandsFor link.array (.wedgeVector u space) → t.value.EndsWith link.array ∧
        (settings.conventions.linGlyphs.vectorSuffix = "+vec" → t.value.chain = [link] ∧
          ∃ e v, w.equations[i]? = some e ∧ w.testForms[i]? = some v ∧
            ∃ x ∈ e.side side, x.value.IsBoundaryPairing s' u v) := by
  have steps : s.Steps s' := (create_grows w).steps run
  have sound : s'.Sound := reachable.sound.steps steps
  obtain ⟨avoids, e, v, front, here, test, x, source, converts⟩ :=
    create_remainder reachable.sound known run member
  have chains : s'.Chains t.value.chain := converts.chains.tail
  have last : ∀ {a}, s'.arrays.get? link.array = some a → a.dependsOnForm = true →
      t.value.EndsWith link.array := fun found depends =>
    ⟨link, chains.getLast?_eq sound inside plain found depends, rfl, plain⟩
  refine ⟨fun stands => ?_, fun space stands => ⟨?_, fun suffix => ?_⟩⟩
  · obtain ⟨id, labels, avoids⟩ := avoids u asked
    obtain ⟨a, found, kind⟩ := stands
    refine avoids ?_
    rw [← sound.eq_of_standsFor labels ⟨a, found, kind⟩]
    exact last found (by simp [RootArray.dependsOnForm, kind])
  · obtain ⟨a, found, kind⟩ := stands
    exact last found (by simp [RootArray.dependsOnForm, kind])
  · have default : s'.settings.conventions.linGlyphs.vectorSuffix = "+vec" := by
      rw [steps.extends.settings, reachable.settings_eq]
      exact suffix
    obtain ⟨pairing, front', chain⟩ :=
      converts.boundary default link (List.mem_cons_of_mem front inside) u space stands
    exact ⟨(List.cons.inj chain).2, e, v, here, test, x, source, pairing⟩

/-- From `(u, d v) = <tr ⋆u, tr v>` over an interval the boundary vector of the unknown `u`
remains on the right side. -/
theorem exists_unknown_remains : ∃ (s s' : Session) (w : WeakFormulation) (b : BlockSystem),
    Session.Reachable {} s ∧ w.unknowns = some [⟨0⟩] ∧ create w s = .ok b s' ∧
      ∃ t ∈ (b.side .right).remainder.row 0, ∃ link ∈ t.value.chain, link.transposed = false ∧
        s'.StandsFor link.array (.wedgeVector ⟨0⟩ ⟨1⟩) := by
  obtain ⟨s, w, reachable, evaluated⟩ : ∃ s w, Session.Reachable {} s ∧
      (match create w s with
        | .ok b s' => decide (w.unknowns = some [⟨0⟩] ∧
            ∃ t ∈ (b.side .right).remainder.row 0, ∃ link ∈ t.value.chain,
              link.transposed = false ∧ s'.StandsFor link.array (.wedgeVector ⟨0⟩ ⟨1⟩))
        | .error _ _ => false) = true := by
    let s := Request.performAll {} [.manifold 1, .mesh ⟨0⟩, .space ⟨0⟩ 1 .outer,
      .space ⟨0⟩ 0 .outer, .root ⟨0⟩ ⟨"u", "u"⟩, .root ⟨1⟩ ⟨"v", "v"⟩, .operator .derivative ⟨1⟩,
      .operator .hodge ⟨0⟩, .operator .trace ⟨3⟩, .operator .trace ⟨1⟩, .degrees 1]
    let w : Outcome WeakFormulation := do
      let volume ← Term.create s .innerProduct ⟨0⟩ ⟨2⟩
      let boundary ← Term.create s .dualityPairing ⟨4⟩ ⟨5⟩
      let w ← WeakFormulation.create s [⟨[⟨.plus, volume⟩], [⟨.plus, boundary⟩]⟩] [⟨1⟩]
      w.withUnknowns s [⟨0⟩]
    refine ⟨s, w.toOption.getD ⟨⟨0⟩, [], [], none⟩, .performAll {} _, ?_⟩
    decide +kernel
  cases run : create w s with
  | error failure s' => simp [run] at evaluated
  | ok b s' =>
    simp only [run] at evaluated
    obtain ⟨known, remains⟩ := of_decide_eq_true evaluated
    exact ⟨s, s', w, b, reachable, known, run, remains⟩

/-- What remains is a boundary vector alone, of a boundary pairing. -/
theorem remainder_known_interval : ∃ (s s' : Session) (w : WeakFormulation) (b : BlockSystem),
    Session.Reachable {} s ∧ w.unknowns = some [⟨0⟩] ∧ create w s = .ok b s' ∧
      ∃ t ∈ (b.side .right).remainder.row 0, ∃ link, t.value.chain = [link] ∧
        ¬ s'.StandsFor link.array (.vector ⟨0⟩) ∧ ∃ e v, w.equations[0]? = some e ∧
          w.testForms[0]? = some v ∧ ∃ x ∈ e.right, x.value.IsBoundaryPairing s' ⟨0⟩ v := by
  obtain ⟨s, s', w, b, reachable, known, run, t, member, link, inside, plain, stands⟩ :=
    exists_unknown_remains
  obtain ⟨unlike, boundary⟩ :=
    remainder_known reachable known run member inside plain (List.mem_singleton_self _)
  obtain ⟨-, standard⟩ := boundary _ stands
  obtain ⟨chain, source⟩ := standard rfl
  exact ⟨s, s', w, b, reachable, known, run, t, member, link, chain, unlike, source⟩

/-- Not all that remains is known data: a boundary vector of an unknown is gathered for no
coefficient vector. -/
theorem remainder_unknown : ¬ ∀ (s s' : Session) (w : WeakFormulation) (unknowns : List FormId)
    (b : BlockSystem), Session.Reachable {} s → w.unknowns = some unknowns →
      create w s = .ok b s' → ∀ (side : Side) (i : Nat), ∀ t ∈ (b.side side).remainder.row i,
        ∀ link ∈ t.value.chain, link.transposed = false → ∀ u ∈ unknowns,
          ¬ s'.StandsFor link.array (.vector u) ∧
            ∀ space, ¬ s'.StandsFor link.array (.wedgeVector u space) := by
  intro all
  obtain ⟨s, s', w, b, reachable, known, run, t, member, link, inside, plain, stands⟩ :=
    exists_unknown_remains
  exact (all s s' w _ b reachable known run .right 0 t member link inside plain _
    (List.mem_singleton_self _)).2 _ stands

end BlockSystem

end Variational
