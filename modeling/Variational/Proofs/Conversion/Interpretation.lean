import Mathlib.Algebra.BigOperators.Group.Finset.Sigma
import Mathlib.Algebra.BigOperators.Ring.Finset
import Mathlib.Algebra.Field.Basic
import Mathlib.Tactic.Ring
import Variational.Proofs.Conversion.Rules

/-!
# Interpretations of arrays

An interpretation reads the arrays of a session as matrices over a field: the
vector of a form holds its coefficients, the incidence matrix takes the
coefficients of a form to those of its derivative, the mass matrix gives the inner
product, and the boundary vector gives the boundary pairing. A product of arrays
by which a term is represented has the value of the term.
-/

namespace Variational

universe uK uι

/-- Values in a field for the scalars, the arrays, the forms and the pairings of a session.
Rows and columns are indexed by the degrees of freedom of `ι` that belong to their label. -/
structure Session.Interpretation (s : Session) (K : Type uK) (ι : Type uι) [Field K] where
  /-- The degrees of freedom of a label of rows or columns. -/
  index : String → Finset ι
  /-- The only column of a vector. -/
  origin : ι
  scalar : ScalarId → K
  /-- The entries of an array. -/
  entry : ArrayId → ι → ι → K
  /-- The coefficients of a form. -/
  coefficient : FormId → ι → K
  /-- The inner product of two forms. -/
  inner : FormId → FormId → K
  /-- The duality pairing of two forms. -/
  pairing : FormId → FormId → K
  index_one : index "1" = {origin}
  scalar_unit : ∀ {c}, s.IsUnit c → scalar c = 1
  scalar_quotient : ∀ {c d} {before after : Session},
    Scalar.div (.number 1.0) (.scalar d) before = .ok c after → after.Steps s →
    scalar c = (scalar d)⁻¹
  coefficient_scaled : ∀ {f c g}, s.Reads f (.scaled c g) →
    ∀ i, coefficient f i = scalar c * coefficient g i
  coefficient_quotient : ∀ {f c g}, s.Reads f (.quotient g c) →
    ∀ i, coefficient f i = (scalar c)⁻¹ * coefficient g i
  vector : ∀ {id a f}, s.arrays.get? id = some a → a.kind = .vector f →
    ∀ i ∈ index a.shape.rows, entry id i origin = coefficient f i
  incidence : ∀ {id a space f g}, s.arrays.get? id = some a → a.kind = .incidenceMatrix space →
    s.InSpace f space → s.Reads g (.unary .derivative f) →
    ∀ i ∈ index a.shape.rows,
      coefficient g i = ∑ j ∈ index a.shape.cols, entry id i j * coefficient f j
  mass : ∀ {id a space f g}, s.arrays.get? id = some a → a.kind = .massMatrix space →
    s.InSpace f space → s.InSpace g space →
    inner f g = ∑ i ∈ index a.shape.rows,
      coefficient g i * ∑ j ∈ index a.shape.cols, entry id i j * coefficient f j
  boundary : ∀ {id a space u w h f g}, s.arrays.get? id = some a →
    a.kind = .wedgeVector u space → s.InSpace w space → s.Reads h (.unary .hodge u) →
    s.Reads f (.unary .trace h) → s.Reads g (.unary .trace w) →
    pairing f g = ∑ i ∈ index a.shape.rows, coefficient w i * entry id i origin

namespace Session.Interpretation

variable {s : Session} {K : Type uK} {ι : Type uι} [Field K]

/-- The interpretation with one degree of freedom in which all values are one. -/
instance : Inhabited (s.Interpretation K Unit) where
  default := {
    index := fun _ => {()}
    origin := ()
    scalar := 1
    entry := 1
    coefficient := 1
    inner := 1
    pairing := 1
    index_one := rfl
    scalar_unit := by simp
    scalar_quotient := by simp
    coefficient_scaled := by simp
    coefficient_quotient := by simp
    vector := by simp
    incidence := by simp
    mass := by simp
    boundary := by simp }

variable (I : s.Interpretation K ι)

/-- The entries of a link. -/
def linkEntry (link : Link) (i j : ι) : K :=
  if link.transposed then I.entry link.array j i else I.entry link.array i j

/-- The vector that a chain of matrices takes a vector to. -/
def act : List Link → (ι → K) → ι → K
  | [], x => x
  | link :: rest, x => fun i =>
    ∑ j ∈ I.index link.shape.cols, I.linkEntry link i j * act rest x j

/-- The value of a product with one row and one column. -/
def value (p : Product) : K :=
  I.scalar p.factor * I.act p.chain (fun _ => 1) I.origin

/-- The value of a term. -/
def term (t : Term) : K :=
  match t.kind with
  | .innerProduct => I.inner t.f1 t.f2
  | .dualityPairing => I.pairing t.f1 t.f2

theorem act_append (front back : List Link) (x : ι → K) :
    I.act (front ++ back) x = I.act front (I.act back x) := by
  induction front with
  | nil => rfl
  | cons link rest ih => rw [List.cons_append, act, act, ih]

/-! ## Single links -/

variable {link : Link} {f g w : FormId} {space : SpaceId}

/-- The links of chains read off the entries of their array, transposed or not. -/
theorem act_singleton (x : ι → K) (i : ι) :
    I.act [link] x i = ∑ j ∈ I.index link.shape.cols, I.linkEntry link i j * x j :=
  rfl

theorem act_vector (sound : s.Sound) (isLink : s.IsLink link ⟨.vector f, false⟩) :
    ∀ i ∈ I.index link.shape.rows, I.act [link] (fun _ => 1) i = I.coefficient f i := by
  obtain ⟨a, found, kind, plain, same⟩ := isLink.array
  obtain ⟨form, rows, -, -, shape⟩ := sound.shape_vector isLink
  have column : link.shape.cols = "1" := by rw [shape]; rfl
  intro i member
  rw [same] at member
  rw [act_singleton, column, I.index_one, Finset.sum_singleton, mul_one, linkEntry, plain]
  exact I.vector found kind i member

theorem act_vector_transposed (isLink : s.IsLink link ⟨.vector f, true⟩) (x : ι → K) :
    I.act [link] x I.origin = ∑ i ∈ I.index link.shape.cols, I.coefficient f i * x i := by
  obtain ⟨a, found, kind, turned, same⟩ := isLink.array
  rw [act_singleton]
  refine Finset.sum_congr rfl fun i member => ?_
  rw [same] at member
  rw [linkEntry, turned, if_pos rfl, I.vector found kind i member]

theorem act_incidence (isLink : s.IsLink link ⟨.incidenceMatrix space, false⟩)
    (inSpace : s.InSpace f space) (reads : s.Reads g (.unary .derivative f)) {x : ι → K}
    (coefficients : ∀ j ∈ I.index link.shape.cols, x j = I.coefficient f j) :
    ∀ i ∈ I.index link.shape.rows, I.act [link] x i = I.coefficient g i := by
  obtain ⟨a, found, kind, plain, same⟩ := isLink.array
  intro i member
  rw [act_singleton]
  rw [same] at member coefficients ⊢
  rw [I.incidence found kind inSpace reads i member]
  refine Finset.sum_congr rfl fun j inside => ?_
  rw [coefficients j inside, linkEntry, plain]
  rfl

/-- Testing with the transposed incidence matrix is testing with the derivative. -/
theorem act_incidence_transposed (isLink : s.IsLink link ⟨.incidenceMatrix space, true⟩)
    (inSpace : s.InSpace f space) (reads : s.Reads g (.unary .derivative f)) (x : ι → K) :
    ∑ i ∈ I.index link.shape.rows, I.coefficient f i * I.act [link] x i =
      ∑ j ∈ I.index link.shape.cols, I.coefficient g j * x j := by
  obtain ⟨a, found, kind, turned, same⟩ := isLink.array
  simp only [act_singleton, Finset.mul_sum]
  rw [Finset.sum_comm]
  refine Finset.sum_congr rfl fun j member => ?_
  rw [same] at member ⊢
  rw [I.incidence found kind inSpace reads j member, Finset.sum_mul]
  refine Finset.sum_congr rfl fun i _ => ?_
  rw [linkEntry, turned, if_pos rfl]
  ring

theorem inner_eq (isLink : s.IsLink link ⟨.massMatrix space, false⟩) (inSpace : s.InSpace f space)
    (inSpace' : s.InSpace g space) :
    I.inner f g = ∑ i ∈ I.index link.shape.rows,
      I.coefficient g i * I.act [link] (I.coefficient f) i := by
  obtain ⟨a, found, kind, plain, same⟩ := isLink.array
  simp only [act_singleton, linkEntry, plain]
  rw [same]
  exact I.mass found kind inSpace inSpace'

/-! ## Chains -/

variable {kinds : List LinkKind} {chain : List Link}

/-- Behind the mass matrix, the chain of an expanded form has the coefficients of the form. -/
theorem act_expanded (sound : s.Sound) (expanded : Term.Expanded s g kinds)
    (links : chain.Forall₂ s.IsLink kinds) (fits : Product.Fits chain) :
    ∃ mass rest form, chain = mass :: rest ∧ s.forms.get? g = some form ∧
      s.IsLink mass ⟨.massMatrix form.space, false⟩ ∧
      ∀ j ∈ I.index mass.shape.cols, I.act rest (fun _ => 1) j = I.coefficient g j := by
  cases expanded with
  | @root form found =>
    obtain _ | ⟨mass, _ | ⟨vector, ⟨⟩⟩⟩ := links
    obtain ⟨fit, -⟩ := List.isChain_cons_cons.1 fits
    refine ⟨_, _, form, rfl, found, mass, ?_⟩
    rw [fit]
    exact I.act_vector sound vector
  | @derivative r form inner found expr foundRoot =>
    obtain _ | ⟨mass, _ | ⟨incidence, _ | ⟨vector, ⟨⟩⟩⟩⟩ := links
    obtain ⟨fit, fits⟩ := List.isChain_cons_cons.1 fits
    obtain ⟨fit', -⟩ := List.isChain_cons_cons.1 fits
    refine ⟨_, _, form, rfl, found, mass, ?_⟩
    rw [fit]
    refine I.act_incidence incidence ⟨inner, foundRoot, rfl⟩ ⟨form, found, expr⟩ ?_
    rw [fit']
    exact I.act_vector sound vector

/-- The chain of a test form, in front of a link, gives the sum over the coefficients of the
tested form, and the rows of the link are those of its space. -/
theorem act_testFormed (sound : s.Sound) {v : FormId} (formed : Term.TestFormed s v w kinds)
    (links : chain.Forall₂ s.IsLink kinds) {next : Link} {rest : List Link}
    (fits : Product.Fits (chain ++ next :: rest)) :
    (∃ form, s.forms.get? w = some form ∧ s.dofLabel form.space = .ok next.shape.rows) ∧
      ∀ x, I.act chain x I.origin =
        ∑ i ∈ I.index next.shape.rows, I.coefficient w i * x i := by
  cases formed with
  | form =>
    obtain _ | ⟨vector, ⟨⟩⟩ := links
    obtain ⟨fit, -⟩ := List.isChain_cons_cons.1 fits
    obtain ⟨form, rows, found, labelled, shape⟩ := sound.shape_vector vector
    rw [← fit]
    exact ⟨⟨form, found, by rw [labelled, shape]; rfl⟩, I.act_vector_transposed vector⟩
  | @derivative _ inner reads found =>
    obtain _ | ⟨vector, _ | ⟨incidence, ⟨⟩⟩⟩ := links
    obtain ⟨fit, fits⟩ := List.isChain_cons_cons.1 fits
    obtain ⟨fit', -⟩ := List.isChain_cons_cons.1 fits
    obtain ⟨target, rows, cols, rule, -, labelled, shape⟩ := sound.shape_incidenceMatrix incidence
    obtain ⟨form, operand, foundForm, foundOperand, rule'⟩ := sound.rule_of_reads reads
    cases found.symm.trans foundOperand
    obtain rfl := sound.derivative_unique rule rule'
    rw [← fit']
    refine ⟨⟨form, foundForm, by rw [labelled, shape]; rfl⟩, fun x => ?_⟩
    rw [← I.act_incidence_transposed incidence ⟨inner, found, rfl⟩ reads x, ← fit]
    exact I.act_vector_transposed vector _

end Session.Interpretation

end Variational
