import Variational.Proofs.Conversion.Totality
import Variational.Proofs.WeakForm.AlgebraicSystems
import Variational.Proofs.WeakForm.Obtained

/-!
# Algebraic systems over finite spaces

Making all spaces finite is enough to get the algebraic system of a weak formulation of which
every term pairs two forms of one space. Terms of other shapes are kept as they are.
-/

namespace Variational

open Derive

variable {s s' : Session} {d : Nat}

/-! ## Sessions whose spaces were made finite -/

namespace Session

/-- All spaces were made finite with the degree `d`, and no space was recorded since. -/
def MadeFinite (s : Session) (d : Nat) : Prop :=
  ∃ before after requests, Reachable {} before ∧ Space.makeFinite d before = .ok () after ∧
    s = after.afterAll requests ∧ s.spaces.size = after.spaces.size

theorem MadeFinite.reachable (made : s.MadeFinite d) : Reachable {} s := by
  obtain ⟨before, after, requests, reachable, run, rfl, -⟩ := made
  have requested := reachable.request (.degrees d)
  rw [Request.perform, after_of_ok run] at requested
  exact requested.afterAll requests

theorem degree_of_makeFinite (run : Space.makeFinite d s = .ok () s') {id : SpaceId} {sp : Space}
    (found : s'.spaces.get? id = some sp) : sp.degree = some d := by
  rcases Space.makeFinite_cases s d with ⟨-, run'⟩ | ⟨_, _, _, -, run'⟩
  · cases run.symm.trans run'
    rw [get?_finiteUpTo, Option.map_eq_some_iff] at found
    obtain ⟨old, known, rfl⟩ := found
    have inside : id.index < s.spaces.size := (List.getElem?_eq_some_iff.1 known).1
    rw [if_pos inside]
  · cases run.symm.trans run'

theorem MadeFinite.discretized (made : s.MadeFinite d) : s.Discretized d := by
  have reachable := made.reachable
  refine ⟨reachable.sound, reachable.settings_eq, @fun id sp found => ?_, reachable.offers⟩
  obtain ⟨before, after, requests, -, run, rfl, same⟩ := made
  have inside : id.index < after.spaces.size := same ▸ (List.getElem?_eq_some_iff.1 found).1
  have known : after.spaces.get? id = some after.spaces.entities[id.index] :=
    List.getElem?_eq_getElem inside
  obtain ⟨sp', found', becomes⟩ := (after.afterAll_steps requests).extends.spaces known
  cases found.symm.trans found'
  exact becomes.degree_eq (degree_of_makeFinite run known)

end Session

/-! ## Which terms are convertible -/

/-- A term stays convertible where all forms are still there. -/
theorem Term.Convertible.mono {t : Term} {v : FormId}
    (forms : ∀ {id f}, s.forms.get? id = some f → s'.forms.get? id = some f)
    (convertible : t.Convertible s v) : t.Convertible s' v := by
  have reads {f e} (given : s.Reads f e) : s'.Reads f e := given.imp fun _ => And.imp_left forms
  have holds {f} (given : s.HoldsRoot f) : s'.HoldsRoot f :=
    given.imp fun _ => And.imp_left forms
  rw [Term.Convertible] at convertible ⊢
  split at convertible
  · obtain ⟨test, g, factor, expanded⟩ := convertible
    refine ⟨test.imp_right reads, g, ?_, ?_⟩
    · exact factor.imp_right (Or.imp (Exists.imp fun _ => reads) (Exists.imp fun _ => reads))
    · exact expanded.imp holds (Exists.imp fun _ => And.imp holds reads)
  · obtain ⟨h, u, first, hodge, root, second⟩ := convertible
    exact ⟨h, u, reads first, reads hodge, holds root, reads second⟩

/-- The test forms of a well-formed formulation are root forms. -/
theorem WeakFormulation.WellFormed.holdsRoot_of_mem {w : WeakFormulation}
    (wellFormed : w.WellFormed s) : ∀ v ∈ w.testForms, s.HoldsRoot v := by
  intro v member
  obtain ⟨-, fits⟩ := WeakFormulation.check_eq_ok.1 wellFormed.checked
  obtain ⟨e, -, nonempty, -, each⟩ := exists_mem_of_forall₂ fits member
  rw [← Equation.length_terms, List.length_pos_iff_exists_mem] at nonempty
  obtain ⟨t, standing⟩ := nonempty
  obtain ⟨form, found, root⟩ := (Session.testedForm?_eq_ok_some.1 (each t standing).1).isRoot
  exact ⟨form, found, by rw [Form.isRoot, root]; rfl⟩

namespace AlgebraicSystem

variable {v : FormId} {position : Position} {t : Signed Term} {entry : Signed AlgebraicEntry}

/-- A term becomes a linear product if it is convertible, and is kept as it is otherwise. -/
def ConvertedOrKept (s : Session) (v : FormId) (position : Position) (t : Signed Term)
    (entry : Signed AlgebraicEntry) : Prop :=
  (t.value.Convertible s v ∧ ∃ p, entry = ⟨t.sign, position, .product p, .linear⟩) ∨
    ¬ t.value.Convertible s v ∧ entry = ⟨t.sign, position, .symbolic t.value, .unknown⟩

/-- While no form is recorded, the convertible terms are those that are converted. -/
theorem MadeFrom.convertedOrKept (made : MadeFrom s s' v position t entry) (standard : s.Standard)
    (same : s'.forms = s.forms) : ConvertedOrKept s v position t entry := by
  cases made with
  | @product before after p earlier run later =>
    obtain ⟨prepared, -, -, _, represented, -⟩ := Term.convert_spec (standard.steps earlier) run
    refine .inl ⟨represented.convertible.mono fun found => ?_, p, rfl⟩
    rw [← same]
    exact later.extends.forms (prepared.steps.extends.forms found)
  | symbolic earlier run later =>
    obtain ⟨-, unlike⟩ := Term.convert_spec (standard.steps earlier) run
    exact .inr ⟨fun convertible => unlike (convertible.mono earlier.extends.forms), rfl⟩

/-! ## Conversions of equations -/

theorem warn_delivers (warning : Warning) : (warn warning).Delivers s :=
  ⟨⟨⟩, _, rfl, ⟨.single (.warning _), rfl⟩, rfl⟩

theorem convertTerm_delivers (discretized : s.Discretized d) (root : s.HoldsRoot v)
    (within : t.value.WithinSpace s) : (convertTerm v position t).Delivers s := by
  refine .bind (Term.convert_delivers discretized root within) fun conversion mid run _ => ?_
  obtain ⟨-, follows⟩ := Term.convert_spec discretized.standard run
  cases conversion with
  | converted p =>
    obtain ⟨-, -, kinds, -, links⟩ := follows
    exact .get_bind (.lift_bind (Product.isLinear_of_links links) .pure)
  | unsupported reason => exact .bind (warn_delivers _) fun _ _ _ _ => .pure

theorem convertTerms_deliver (discretized : s.Discretized d) (root : s.HoldsRoot v)
    (place : Nat → Position) {terms : List (Signed Term)}
    (within : ∀ t ∈ terms, t.value.WithinSpace s) :
    (terms.zipIdx.mapM fun x => convertTerm v (place x.2) x.1).Delivers s :=
  .mapM fun _ member _ furnishes => convertTerm_delivers (discretized.furnishes furnishes)
    (furnishes.steps.extends.holdsRoot root)
    ((within _ (List.fst_mem_of_mem_zipIdx member)).prepares furnishes.toPrepares)

theorem convertEquation_delivers (discretized : s.Discretized d) (root : s.HoldsRoot v) {i : Nat}
    {e : Equation Term} (within : ∀ t ∈ e.terms, t.value.WithinSpace s) :
    (convertEquation i e v).Delivers s := by
  simp only [Equation.terms, List.forall_mem_append] at within
  refine .bind (convertTerms_deliver discretized root (fun j => ⟨i, j⟩) within.1)
    fun left mid _ first => ?_
  refine .bind (convertTerms_deliver (discretized.furnishes first)
    (first.steps.extends.holdsRoot root) (fun j => ⟨i, e.left.length + j⟩) fun t member =>
      (within.2 t member).prepares first.toPrepares) fun _ _ _ _ => .pure

theorem vectors_deliver (discretized : s.Discretized d) {fs : List FormId}
    (roots : ∀ f ∈ fs, s.HoldsRoot f) : (fs.mapM RootArray.vector).Delivers s := by
  refine .mapM fun f member mid furnishes => ?_
  obtain ⟨form, found, root⟩ := roots f member
  exact RootArray.vector_delivers (discretized.furnishes furnishes)
    (furnishes.steps.extends.forms found) root

/-- In a session whose spaces are finite, an algebraic system does not fail for terms within
spaces. -/
theorem create_delivers (discretized : s.Discretized d) {w : WeakFormulation}
    {forms : List FormId} (wellFormed : w.WellFormed s) (declared : w.unknowns = some forms)
    (roots : w.UnknownsAreRoots s)
    (within : ∀ e ∈ w.equations, ∀ t ∈ e.terms, t.value.WithinSpace s) : (create w).Delivers s := by
  have tested := wellFormed.holdsRoot_of_mem
  obtain ⟨elementary, listed⟩ := WeakFormulation.elementaryForms_total wellFormed.created
  rw [create, declared]
  refine .bind (vectors_deliver discretized (roots forms declared)) fun unknowns s₁ _ first => ?_
  refine .bind (vectors_deliver (discretized.furnishes first) fun v member =>
    first.steps.extends.holdsRoot (tested v member)) fun tests s₂ _ second => ?_
  have before := first.trans second
  refine .bind (.mapM fun x member s₃ furnishes => ?_) fun equations s₄ _ third => ?_
  · -- an equation is converted where those before it were
    have both := before.trans furnishes
    have inZip := List.fst_mem_of_mem_zipIdx member
    exact convertEquation_delivers (discretized.furnishes both)
      (both.steps.extends.holdsRoot (tested _ (List.of_mem_zip inZip).2)) fun t standing =>
        (within _ (List.of_mem_zip inZip).1 t standing).prepares both.toPrepares
  · have whole := before.trans third
    rw [← WeakFormulation.elementaryForms_congr whole.forms] at listed
    refine .get_bind (.lift_bind listed (.bind (vectors_deliver (discretized.furnishes whole)
      fun r member => ?_) fun _ _ _ _ => .pure))
    obtain ⟨_, _, _, _, elementary⟩ := (WeakFormulation.mem_elementaryForms listed).1 member
    exact elementary.elim (·.isRoot) (·.isRoot)

/-- Making all spaces finite is enough for an algebraic system. In a session under the default
settings, in which that was done and no space was recorded since, every well-formed formulation
with unknowns has one if its terms are inner products within spaces, none of which divides its
first form by a number without a finite reciprocal. At the position of every term there is the
product that it is converted into, if it is convertible, and the term itself otherwise. -/
theorem finite_suffices (finite : s.MadeFinite d) {w : WeakFormulation} {forms : List FormId}
    (wellFormed : w.WellFormed s) (declared : w.unknowns = some forms)
    (roots : w.UnknownsAreRoots s)
    (within : ∀ e ∈ w.equations, ∀ t ∈ e.terms, t.value.WithinSpace s) :
    ∃ a s', create w s = .ok a s' ∧ a.equations.length = w.equations.length ∧
      ∀ i e, w.equations[i]? = some e → ∃ v converted, w.testForms[i]? = some v ∧
        a.equations[i]? = some converted ∧ converted.left.length = e.left.length ∧
        converted.right.length = e.right.length ∧ ∀ j t, e.get? j = some t →
          ∃ entry, converted.get? j = some entry ∧ ConvertedOrKept s v ⟨i, j⟩ t entry := by
  have discretized := finite.discretized
  obtain ⟨a, s', run, furnishes⟩ :=
    create_delivers discretized wellFormed declared roots within
  have sameLength := (WeakFormulation.check_eq_ok.1 wellFormed.checked).2.length_eq
  obtain ⟨made, -⟩ := create_made discretized.standard sameLength run
  refine ⟨a, s', run, made.length, fun i e standing => ?_⟩
  obtain ⟨v, converted, tested, held, equation⟩ := made.each standing
  refine ⟨v, converted, tested, held, equation.left, equation.right, fun j t place => ?_⟩
  obtain ⟨entry, found, given⟩ := equation.each place
  exact ⟨entry, found, given.convertedOrKept discretized.standard furnishes.forms⟩

/-- On an interval of which the spaces were made finite, `(∂t a, v) = -(a / 2, v)` keeps its first
term and has a product for the second one. -/
theorem finite_suffices_decay : ∃ s t x a s', s.MadeFinite 2 ∧
    Term.create s .innerProduct ⟨2⟩ ⟨1⟩ = .ok t ∧ Term.create s .innerProduct ⟨3⟩ ⟨1⟩ = .ok x ∧
      create ⟨⟨0⟩, [⟨[⟨.plus, t⟩], [⟨.minus, x⟩]⟩], [⟨1⟩], some [⟨0⟩]⟩ s = .ok a s' ∧
      ∃ p, a.equations = [⟨[⟨.plus, ⟨0, 0⟩, .symbolic t, .unknown⟩],
        [⟨.minus, ⟨0, 1⟩, .product p, .linear⟩]⟩] := by
  obtain ⟨before, reachable, evaluated⟩ : ∃ before, Session.Reachable {} before ∧
      (match Space.makeFinite 2 before with
        | .ok _ s => decide (s.HoldsRoot ⟨0⟩ ∧ s.Reads ⟨1⟩ .root ∧
            s.Reads ⟨2⟩ (.unary .timeDerivative ⟨0⟩) ∧ s.Reads ⟨3⟩ (.quotient ⟨0⟩ ⟨0⟩) ∧
            s.InSpace ⟨1⟩ ⟨0⟩ ∧ s.InSpace ⟨2⟩ ⟨0⟩ ∧ s.InSpace ⟨3⟩ ⟨0⟩ ∧ s.Lives ⟨1⟩ ⟨0⟩ 1 ∧
            s.ScalarHas ⟨0⟩ Scalar.Invertible)
        | .error _ _ => false) = true :=
    ⟨Request.performAll {} [.manifold 1, .mesh ⟨0⟩, .space ⟨0⟩ 1 .outer, .root ⟨0⟩ ⟨"a", "a"⟩,
      .root ⟨0⟩ ⟨"v", "v"⟩, .operator .timeDerivative ⟨0⟩, .quotient ⟨0⟩ (.number 2.0)],
      .performAll {} _, by decide +kernel⟩
  cases made : Space.makeFinite 2 before with
  | error failure s => simp [made] at evaluated
  | ok u s =>
    rw [made] at evaluated
    obtain ⟨rootA, readsV, readsRate, readsHalf, inV, inRate, inHalf, livesV, invertible⟩ :=
      of_decide_eq_true evaluated
    have finite : s.MadeFinite 2 := ⟨before, s, [], reachable, made, rfl, rfl⟩
    have rate : s.Beside ⟨2⟩ ⟨1⟩ := ⟨⟨0⟩, inRate, inV⟩
    have half : s.Beside ⟨3⟩ ⟨1⟩ := ⟨⟨0⟩, inHalf, inV⟩
    obtain ⟨m, foundMesh⟩ := finite.reachable.sound.exists_mesh livesV
    obtain ⟨t, created, mesh⟩ :=
      Term.create_succeeds .innerProduct (rate.symm.lives livesV) livesV foundMesh rfl
    obtain ⟨x, created', mesh'⟩ :=
      Term.create_succeeds .innerProduct (half.symm.lives livesV) livesV foundMesh rfl
    obtain ⟨kind, first, second, -⟩ := Term.create_spec created
    obtain ⟨kind', first', second', -⟩ := Term.create_spec created'
    have tested : s.testedForm? ⟨1⟩ = .ok (some ⟨1⟩) :=
      Session.testedForm?_eq_ok_some.2 (.root readsV)
    have wellFormed : WeakFormulation.WellFormed
        ⟨⟨0⟩, [⟨[⟨.plus, t⟩], [⟨.minus, x⟩]⟩], [⟨1⟩], some [⟨0⟩]⟩ s := by
      refine ⟨WeakFormulation.check_eq_ok.2
        ⟨by simp, .cons ⟨Nat.two_pos, ⟨1, livesV⟩, ?_⟩ .nil⟩, ?_⟩
      · simpa [Equation.terms, second, second', WeakFormulation.TermFits] using
          ⟨⟨tested, Or.inl mesh⟩, tested, Or.inl mesh'⟩
      · simpa [Equation.terms, kind, first, second, kind', first', second'] using
          ⟨created, created'⟩
    have withinT : t.WithinSpace s := by
      refine ⟨kind, by rwa [first, second], fun g c reads => ?_⟩
      cases readsRate.unique (first ▸ reads)
    have withinX : x.WithinSpace s := by
      refine ⟨kind', by rwa [first', second'], fun g c reads => ?_⟩
      cases readsHalf.unique (first' ▸ reads)
      exact invertible
    have unlike : ¬ t.Convertible s ⟨1⟩ := by
      rw [Term.Convertible, kind, first, second]
      rintro ⟨-, g, rfl | ⟨c, reads⟩ | ⟨c, reads⟩, expanded⟩
      · rcases expanded with ⟨form, found, root⟩ | ⟨r, -, reads⟩
        · rw [Form.isRoot, ← readsRate.unique ⟨form, found, rfl⟩] at root
          cases root
        · cases readsRate.unique reads
      · cases readsRate.unique reads
      · cases readsRate.unique reads
    have like : x.Convertible s ⟨1⟩ := by
      rw [Term.Convertible, kind', first', second']
      exact ⟨.inl rfl, ⟨0⟩, .inr (.inr ⟨⟨0⟩, readsHalf⟩), .inl rootA⟩
    obtain ⟨a, s', run, length, each⟩ := finite_suffices finite wellFormed rfl
      (fun _ declared u member => by
        cases declared
        exact List.mem_singleton.1 member ▸ rootA)
      (by simpa [Equation.terms] using ⟨withinT, withinX⟩)
    refine ⟨s, t, x, a, s', finite, created, created', run, ?_⟩
    obtain ⟨e, same⟩ := List.length_eq_one_iff.1 length
    obtain ⟨v, ⟨left, right⟩, tested, held, lengthLeft, lengthRight, entries⟩ := each 0 _ rfl
    obtain ⟨l, rfl⟩ := List.length_eq_one_iff.1 lengthLeft
    obtain ⟨r, rfl⟩ := List.length_eq_one_iff.1 lengthRight
    obtain rfl : (⟨1⟩ : FormId) = v := Option.some.inj tested
    rw [same] at held ⊢
    obtain rfl : e = ⟨[l], [r]⟩ := Option.some.inj held
    obtain ⟨_, foundLeft, keptLeft⟩ := entries 0 ⟨.plus, t⟩ rfl
    obtain ⟨_, foundRight, keptRight⟩ := entries 1 ⟨.minus, x⟩ rfl
    cases foundLeft
    cases foundRight
    obtain ⟨-, rfl⟩ := keptLeft.resolve_left fun given => unlike given.1
    obtain ⟨-, p, rfl⟩ := keptRight.resolve_right fun given => given.1 like
    exact ⟨p, rfl⟩

end AlgebraicSystem

end Variational
