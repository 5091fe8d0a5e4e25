import Variational.Proofs.Conversion.Interpretation
import Variational.Proofs.Conversion.Runs

/-!
# Conversion of terms

The conversion of a term follows the rules: it succeeds for the terms that have an
algebraic representation, gives the factor and the chain of the rule, and the
product has the value of the term under every interpretation of the arrays.
-/

namespace Variational

universe uK uι

namespace Term

variable {s s' : Session} {f g v : FormId} {c : ScalarId} {kinds : List LinkKind}

/-- A multiple of a form belongs to the space of the form. -/
theorem Factored.inSpace {space : SpaceId} (prepared : s.Prepares s') (sound : s'.Sound)
    (factored : Factored s s' f c g) (inSpace : s'.InSpace g space) : s'.InSpace f space := by
  have typed : ∀ {e}, s.Reads f e → ∃ form, s'.forms.get? f = some form ∧
      s'.Typed form.space e := by
    intro e reads
    obtain ⟨form, found, rfl⟩ := prepared.reads_iff.2 reads
    exact ⟨form, found, (sound.forms found).2.1⟩
  obtain ⟨a, foundOperand, rfl⟩ := inSpace
  cases factored with
  | one => exact ⟨a, foundOperand, rfl⟩
  | scaled reads | quotient reads =>
    obtain ⟨form, found, a', x, foundOperand', same, -⟩ := typed reads
    cases foundOperand.symm.trans foundOperand'
    exact ⟨form, found, same.symm⟩

variable {K : Type uK} {ι : Type uι} [Field K]

theorem Factored.coefficient (prepared : s.Prepares s') (I : s'.Interpretation K ι)
    (factored : Factored s s' f c g) (i : ι) :
    I.coefficient f i = I.scalar c * I.coefficient g i := by
  cases factored with
  | one unit => rw [I.scalar_unit unit, one_mul]
  | scaled reads => exact I.coefficient_scaled (prepared.reads_iff.2 reads) i
  | quotient reads division _ later =>
    rw [I.coefficient_quotient (prepared.reads_iff.2 reads) i, I.scalar_quotient division later]

/-- An inner product is the factor times the chain of its test form and its expanded form. -/
theorem inner_eq_value (prepared : s.Prepares s') (sound : s'.Sound) (I : s'.Interpretation K ι)
    {f1 f2 : FormId} {front core : List Link} {frontKinds coreKinds : List LinkKind}
    (test : TestFormed s v f2 frontKinds) (factored : Factored s s' f1 c g)
    (expanded : Expanded s g coreKinds) (frontLinks : front.Forall₂ s'.IsLink frontKinds)
    (coreLinks : core.Forall₂ s'.IsLink coreKinds) (fits : Product.Fits (front ++ core)) :
    I.value ⟨c, front ++ core⟩ = I.inner f1 f2 := by
  obtain ⟨mass, rest, form, rfl, found, isMass, coefficients⟩ := I.act_expanded sound
    (expanded.of_forms prepared.forms) coreLinks (List.isChain_append.1 fits).2.1
  obtain ⟨⟨tested, foundTested, labelled⟩, act⟩ :=
    I.act_testFormed sound (test.of_forms prepared.forms) frontLinks fits
  obtain ⟨rows, labelled', shape⟩ := sound.shape_massMatrix isMass
  -- The test form and the expanded form belong to the space of the mass matrix.
  have space : tested.space = form.space :=
    sound.space_eq_of_dofLabel labelled (by rw [labelled', shape])
  rw [I.inner_eq isMass (factored.inSpace prepared sound ⟨form, found, rfl⟩)
    ⟨tested, foundTested, space⟩]
  have row : ∀ i, I.act [mass] (I.coefficient f1) i =
      I.scalar c * I.act (mass :: rest) (fun _ => 1) i := by
    intro i
    simp only [Session.Interpretation.act, Finset.mul_sum]
    refine Finset.sum_congr rfl fun j member => ?_
    rw [factored.coefficient prepared I j, coefficients j member]
    ring
  rw [Session.Interpretation.value, I.act_append, act, Finset.mul_sum]
  refine Finset.sum_congr rfl fun i _ => ?_
  rw [row]
  ring

/-- A boundary pairing is the chain of its test form and its boundary vector. -/
theorem pairing_eq_value (sound : s'.Sound) (I : s'.Interpretation K ι) (unit : s'.IsUnit c)
    {f1 f2 h u : FormId} {form : Form} {front back : Link}
    (first : s'.Reads f1 (.unary .trace h)) (hodge : s'.Reads h (.unary .hodge u))
    (second : s'.Reads f2 (.unary .trace v)) (found : s'.forms.get? v = some form)
    (vector : s'.IsLink front ⟨.vector v, true⟩)
    (boundary : s'.IsLink back ⟨.wedgeVector u form.space, false⟩)
    (fits : Product.Fits [front, back]) :
    I.value ⟨c, [front, back]⟩ = I.pairing f1 f2 := by
  obtain ⟨fit, -⟩ := List.isChain_cons_cons.1 fits
  obtain ⟨a, foundArray, kind, plain, same⟩ := boundary.array
  obtain ⟨rows, -, shape⟩ := sound.shape_wedgeVector boundary
  have column : back.shape.cols = "1" := by rw [shape]
  rw [I.boundary foundArray kind ⟨form, found, rfl⟩ hodge first second]
  rw [Session.Interpretation.value, I.scalar_unit unit, one_mul]
  have split : I.act [front, back] (fun _ => 1) I.origin =
      ∑ i ∈ I.index front.shape.cols, I.coefficient v i * I.act [back] (fun _ => 1) i :=
    I.act_vector_transposed vector _
  rw [split, fit, same]
  refine Finset.sum_congr rfl fun i _ => ?_
  rw [I.act_singleton, column, I.index_one, Finset.sum_singleton, mul_one,
    Session.Interpretation.linkEntry, plain]
  rfl

/-- A product by which a term is represented has the value of the term. -/
theorem Represented.value_eq (prepared : s.Prepares s') (sound : s'.Sound)
    (I : s'.Interpretation K ι) {t : Term} {p : Product}
    (represented : Represented s s' t v p.factor kinds)
    (links : p.chain.Forall₂ s'.IsLink kinds) (fits : Product.Fits p.chain) :
    I.value p = I.term t := by
  obtain ⟨factor, chain⟩ := p
  dsimp only at represented links fits
  rw [Session.Interpretation.term]
  cases represented with
  | @innerProduct g frontKinds coreKinds kind test factored expanded =>
    rw [kind]
    have frontLinks := List.forall₂_take_append chain frontKinds coreKinds links
    have coreLinks := List.forall₂_drop_append chain frontKinds coreKinds links
    rw [← List.take_append_drop frontKinds.length chain] at fits ⊢
    exact inner_eq_value prepared sound I test factored expanded frontLinks coreLinks fits
  | dualityPairing kind first hodge root second found unit =>
    rw [kind]
    obtain _ | ⟨vector, _ | ⟨boundary, ⟨⟩⟩⟩ := links
    exact pairing_eq_value sound I unit (prepared.reads_iff.2 first)
      (prepared.reads_iff.2 hodge) (prepared.reads_iff.2 second)
      (prepared.steps.extends.forms found) vector boundary fits

/-- The conversion of a term that is tested with `v`, in every reachable session with default
settings. It converts the terms that have an algebraic representation and no others. The sign
is plus, the factor and the chain are those of the rule, and the product has the value of the
term under every interpretation of the arrays. -/
theorem convert_exact (reachable : Session.Reachable {} s) {t : Term} {conversion : Conversion}
    (run : t.convert v s = .ok conversion s') :
    ((∃ p, conversion = .converted p) ↔ Convertible s t v) ∧
    ((∃ reason, conversion = .unsupported reason) ↔ ¬ Convertible s t v) ∧
    ∀ p, conversion = .converted p → p.sign = .plus ∧
      (∃ kinds, Represented s s' t v p.value.factor kinds ∧
        p.value.chain.Forall₂ s'.IsLink kinds) ∧
      ∀ (K : Type uK) (ι : Type uι) [Field K] (I : s'.Interpretation K ι),
        I.value p.value = I.term t := by
  have standard := reachable.standard
  obtain ⟨prepared, follows⟩ := convert_spec standard run
  cases conversion with
  | converted p =>
    obtain ⟨sign, fits, kinds, represented, links⟩ := follows
    refine ⟨iff_of_true ⟨p, rfl⟩ represented.convertible,
      iff_of_false (by simp) fun unlike => unlike represented.convertible, fun p' same => ?_⟩
    cases same
    have sound := (prepared.standard standard).sound
    exact ⟨sign, ⟨kinds, represented, links⟩,
      fun _ _ _ I => represented.value_eq prepared sound I links fits⟩
  | unsupported reason =>
    exact ⟨iff_of_false (by simp) follows, iff_of_true ⟨reason, rfl⟩ follows, by simp⟩

/-- On an interval, the derivative of a root form divided by a scalar, tested with the
derivative of the test form. -/
theorem convert_exact_quotient : ∃ (s s' : Session) (t : Term) (p : Signed Product),
    Session.Reachable {} s ∧ create s .innerProduct ⟨4⟩ ⟨3⟩ = .ok t ∧
      t.convert ⟨1⟩ s = .ok (.converted p) s' ∧ Convertible s t ⟨1⟩ ∧ p.sign = .plus ∧
      p.value.chain.map Link.transposed = [true, true, false, false, false] ∧
      (∃ kinds, Represented s s' t ⟨1⟩ p.value.factor kinds ∧
        p.value.chain.Forall₂ s'.IsLink kinds) ∧
      ∀ I : s'.Interpretation ℚ ℕ, I.value p.value = I.inner ⟨4⟩ ⟨3⟩ := by
  obtain ⟨s, reachable, evaluated⟩ : ∃ s, Session.Reachable {} s ∧
      (match create s .innerProduct ⟨4⟩ ⟨3⟩ with
        | .ok t => match t.convert ⟨1⟩ s with
          | .ok (.converted p) _ =>
            p.value.chain.map Link.transposed == [true, true, false, false, false]
          | _ => false
        | .error _ => false) = true :=
    ⟨Request.performAll {} [.manifold 1, .mesh ⟨0⟩, .space ⟨0⟩ 0 .outer, .root ⟨0⟩ ⟨"u", "u"⟩,
      .root ⟨0⟩ ⟨"v", "v"⟩, .operator .derivative ⟨0⟩, .operator .derivative ⟨1⟩,
      .scalar ⟨"c", "c"⟩, .quotient ⟨2⟩ (.scalar ⟨0⟩), .degrees 3], .performAll {} _,
      by decide +kernel⟩
  cases created : create s .innerProduct ⟨4⟩ ⟨3⟩ with
  | error failure => simp [created] at evaluated
  | ok t =>
    simp only [created] at evaluated
    cases run : t.convert ⟨1⟩ s with
    | error failure s' => simp [run] at evaluated
    | ok conversion s' =>
      simp only [run] at evaluated
      obtain ⟨converts, -, exact⟩ := convert_exact.{0, 0} reachable run
      cases conversion with
      | unsupported reason => simp at evaluated
      | converted p =>
        obtain ⟨sign, represented, value⟩ := exact p rfl
        obtain ⟨kind, first, second, -⟩ := create_spec created
        refine ⟨s, s', t, p, reachable, created, run, converts.1 ⟨p, rfl⟩, sign,
          by simpa using evaluated, represented, fun I => ?_⟩
        rw [value ℚ ℕ I, Session.Interpretation.term, kind, first, second]

end Term

end Variational
