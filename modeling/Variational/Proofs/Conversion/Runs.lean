import Variational.Proofs.Conversion.Rules

/-!
# Conversion by the rules

A conversion that runs takes the factor and the chain of a rule, and the term that
it leaves unsupported is not convertible. The chains of the test form, of the
expanded form and of the boundary pairing are followed one by one.
-/

namespace Variational

open Derive

namespace Term

variable {s s' base : Session} {t : Term} {v f g : FormId}

/-- The links of a chain stand for what a rule asks for. Without a chain the rule does not
apply. -/
def Chained (s : Session) (rule : List LinkKind → Prop) (applies : Prop) :
    Option (List Link) → Prop
  | some links => ∃ kinds, rule kinds ∧ links.Forall₂ s.IsLink kinds
  | none => ¬ applies

/-- A conversion follows the rules between two sessions. -/
def Follows (s s' : Session) (t : Term) (v : FormId) : Conversion → Prop
  | .converted p => p.sign = .plus ∧ Product.Fits p.value.chain ∧
      ∃ kinds, Represented s s' t v p.value.factor kinds ∧ p.value.chain.Forall₂ s'.IsLink kinds
  | .unsupported _ => ¬ Convertible s t v

/-! ## The test form -/

/-- Behind `vᵀ` stands nothing for `v`, and `Dᵀ` for `d v`. -/
theorem testChain_cases {r : Option (List Link)} (run : t.testChain v s = .ok r s') :
    ∃ vector mid front, RootArray.vector v s = .ok vector mid ∧ mid.link vector true = .ok front ∧
      ((t.f2 = v ∧ r = some [front] ∧ mid = s') ∨
        (∃ form incidence back, mid.Reads t.f2 (.unary .derivative v) ∧
          mid.forms.get? v = some form ∧
          RootArray.incidenceMatrix form.space mid = .ok incidence s' ∧
          s'.link incidence true = .ok back ∧ r = some [front, back]) ∨
        (t.f2 ≠ v ∧ ¬ mid.Reads t.f2 (.unary .derivative v) ∧ r = none ∧ mid = s')) := by
  simp only [testChain, bind_eq_ok, get_eq_ok, lift_eq_ok] at run
  obtain ⟨vector, mid, taken, _, _, ⟨rfl, rfl⟩, front, _, ⟨linked, rfl⟩, run⟩ := run
  refine ⟨vector, mid, front, taken, linked, ?_⟩
  by_cases same : t.f2 = v
  · rw [if_pos same] at run
    obtain ⟨rfl, rfl⟩ := pure_eq_ok.1 run
    exact Or.inl ⟨same, rfl, rfl⟩
  rw [if_neg same] at run
  simp only [bind_eq_ok, get_eq_ok, lift_eq_ok] at run
  obtain ⟨_, _, ⟨rfl, rfl⟩, second, _, ⟨found, rfl⟩, run⟩ := run
  have reads : mid.Reads t.f2 second.expr := ⟨second, Arena.fetch_eq_ok_iff.1 found, rfl⟩
  right
  have otherwise : (∀ w, second.expr ≠ .unary .derivative w) →
      (pure none : Derive (Option (List Link))) mid = .ok r s' →
      t.f2 ≠ v ∧ ¬ mid.Reads t.f2 (.unary .derivative v) ∧ r = none ∧ mid = s' := by
    intro other run
    obtain ⟨rfl, rfl⟩ := pure_eq_ok.1 run
    exact ⟨same, fun derivative => other v (reads.unique derivative), rfl, rfl⟩
  cases shape : second.expr with
  | unary op w =>
    cases op with
    | derivative =>
      rw [shape] at reads
      simp only [shape] at run
      by_cases tested : w = v
      · subst tested
        rw [if_neg fun differs => differs rfl] at run
        simp only [bind_eq_ok, get_eq_ok, lift_eq_ok, pure_eq_ok] at run
        obtain ⟨_, _, ⟨rfl, rfl⟩, form, _, ⟨foundForm, rfl⟩, incidence, last, takenIncidence, _,
          _, ⟨rfl, rfl⟩, back, _, ⟨linkedBack, rfl⟩, rfl, rfl⟩ := run
        exact Or.inl ⟨form, incidence, back, reads, Arena.fetch_eq_ok_iff.1 foundForm,
          takenIncidence, linkedBack, rfl⟩
      · rw [if_pos tested] at run
        obtain ⟨rfl, rfl⟩ := pure_eq_ok.1 run
        refine Or.inr ⟨same, fun other => tested ?_, rfl, rfl⟩
        cases reads.unique other
        rfl
    | _ => exact Or.inr (otherwise (by simp [shape]) (by simpa only [shape] using run))
  | _ => exact Or.inr (otherwise (by simp [shape]) (by simpa only [shape] using run))

theorem testChain_spec (standard : s.Standard) {r : Option (List Link)}
    (run : t.testChain v s = .ok r s') : s.Prepares s' ∧
      Chained s' (TestFormed s v t.f2) (t.f2 = v ∨ s.Reads t.f2 (.unary .derivative v)) r := by
  obtain ⟨vector, mid, front, taken, linked, branch⟩ := testChain_cases run
  obtain ⟨first, stands⟩ := standard.vector_spec taken
  have frontLink : mid.IsLink front ⟨.vector v, true⟩ := ⟨vector, stands, linked⟩
  rcases branch with ⟨same, rfl, rfl⟩ | ⟨form, incidence, back, reads, found, takenIncidence,
    linkedBack, rfl⟩ | ⟨differs, underived, rfl, rfl⟩
  · exact ⟨first, _, same ▸ .form, .cons frontLink .nil⟩
  · obtain ⟨next, standsBack⟩ := (first.standard standard).incidenceMatrix_spec takenIncidence
    rw [first.forms] at found
    exact ⟨first.trans next, _, .derivative (first.reads_iff.1 reads) found,
      .cons (next.steps.extends.isLink frontLink)
        (.cons ⟨incidence, standsBack, linkedBack⟩ .nil)⟩
  · rw [first.reads_iff] at underived
    exact ⟨first, not_or.2 ⟨differs, underived⟩⟩

/-! ## The factor -/

theorem splitFactor_cases {c : ScalarId} (run : splitFactor f s = .ok (c, g) s') :
    (s.Reads f (.scaled c g) ∧ s = s') ∨
      (∃ d, s.Reads f (.quotient g d) ∧
        Scalar.div (.number 1.0) (.scalar d) s = .ok c s') ∨
      ((∀ c' g', ¬ s.Reads f (.scaled c' g') ∧ ¬ s.Reads f (.quotient g' c')) ∧ f = g ∧
        Scalar.unit s = .ok c s') := by
  simp only [splitFactor, bind_eq_ok, get_eq_ok, lift_eq_ok] at run
  obtain ⟨_, _, ⟨rfl, rfl⟩, form, _, ⟨found, rfl⟩, run⟩ := run
  have reads : s.Reads f form.expr := ⟨form, Arena.fetch_eq_ok_iff.1 found, rfl⟩
  cases shape : form.expr with
  | scaled d w =>
    simp only [shape, pure_eq_ok, Prod.mk.injEq] at run
    obtain ⟨⟨rfl, rfl⟩, rfl⟩ := run
    exact Or.inl ⟨shape ▸ reads, rfl⟩
  | quotient w d =>
    simp only [shape, bind_eq_ok, pure_eq_ok, Prod.mk.injEq] at run
    obtain ⟨_, _, division, ⟨rfl, rfl⟩, rfl⟩ := run
    exact Or.inr (Or.inl ⟨d, shape ▸ reads, division⟩)
  | _ =>
    simp only [shape, bind_eq_ok, pure_eq_ok, Prod.mk.injEq] at run
    obtain ⟨_, _, unit, ⟨rfl, rfl⟩, rfl⟩ := run
    rw [shape] at reads
    refine Or.inr (Or.inr ⟨fun c' g' => ⟨fun scaled => ?_, fun quotient => ?_⟩, rfl, unit⟩)
    · cases reads.unique scaled
    · cases reads.unique quotient

/-- The form that is left when the factor is split off. -/
theorem splitFactor_spec {c : ScalarId} (prepared : base.Prepares s)
    (run : splitFactor f s = .ok (c, g) s') : s.Prepares s' ∧ Factored base s' f c g ∧
      ∀ c' g', base.Reads f (.scaled c' g') ∨ base.Reads f (.quotient g' c') → g' = g := by
  have multiples := splitFactor_cases run
  simp only [prepared.reads_iff] at multiples
  rcases multiples with ⟨reads, rfl⟩ | ⟨d, reads, division⟩ | ⟨plain, rfl, unit⟩
  · refine ⟨.refl _, .scaled reads, fun c' g' multiple => ?_⟩
    rcases multiple with scaled | quotient
    · cases reads.unique scaled
      rfl
    · cases reads.unique quotient
  · refine ⟨⟨(Scalar.div_grows _ _).steps division, Scalar.div_forms division⟩,
      .quotient reads division prepared.steps .refl, fun c' g' multiple => ?_⟩
    rcases multiple with scaled | quotient
    · cases reads.unique scaled
    · cases reads.unique quotient
      rfl
  · refine ⟨⟨Scalar.unit_grows.steps unit, Scalar.ofNumber_forms unit⟩,
      .one (Scalar.unit_spec unit), fun c' g' multiple => ?_⟩
    rcases multiple with scaled | quotient
    · exact absurd scaled (plain c' g').1
    · exact absurd quotient (plain c' g').2

/-! ## The expanded form -/

/-- A root form stands behind `M`, and the derivative of one behind `M D`. -/
theorem formChain_cases {r : Option (List Link)} (run : formChain g s = .ok r s') :
    ∃ form, s.forms.get? g = some form ∧
      ((form.isRoot = true ∧ ∃ mass mid vector front back,
          RootArray.massMatrix form.space s = .ok mass mid ∧
          RootArray.vector g mid = .ok vector s' ∧ s'.link mass false = .ok front ∧
          s'.link vector false = .ok back ∧ r = some [front, back]) ∨
        (∃ u inner, form.expr = .unary .derivative u ∧ s.forms.get? u = some inner ∧
          inner.isRoot = true ∧ ∃ mass mid incidence next vector front middle back,
            RootArray.massMatrix form.space s = .ok mass mid ∧
            RootArray.incidenceMatrix inner.space mid = .ok incidence next ∧
            RootArray.vector u next = .ok vector s' ∧ s'.link mass false = .ok front ∧
            s'.link incidence false = .ok middle ∧ s'.link vector false = .ok back ∧
            r = some [front, middle, back]) ∨
        ((¬ ∃ kinds, Expanded s g kinds) ∧ r = none ∧ s = s')) := by
  simp only [formChain, bind_eq_ok, get_eq_ok, lift_eq_ok] at run
  obtain ⟨_, _, ⟨rfl, rfl⟩, form, _, ⟨fetched, rfl⟩, run⟩ := run
  have found := Arena.fetch_eq_ok_iff.1 fetched
  refine ⟨form, found, ?_⟩
  by_cases root : form.isRoot = true
  · rw [if_pos root] at run
    simp only [bind_eq_ok, get_eq_ok, lift_eq_ok, pure_eq_ok] at run
    obtain ⟨mass, mid, takenMass, vector, last, takenVector, _, _, ⟨rfl, rfl⟩, front, _,
      ⟨linkedFront, rfl⟩, back, _, ⟨linkedBack, rfl⟩, rfl, rfl⟩ := run
    exact Or.inl ⟨root, mass, mid, vector, front, back, takenMass, takenVector, linkedFront,
      linkedBack, rfl⟩
  rw [if_neg root] at run
  right
  have otherwise : (∀ u inner, form.expr = .unary .derivative u → s.forms.get? u = some inner →
      inner.isRoot ≠ true) → (pure none : Derive (Option (List Link))) s = .ok r s' →
      (¬ ∃ kinds, Expanded s g kinds) ∧ r = none ∧ s = s' := by
    intro other run
    obtain ⟨rfl, rfl⟩ := pure_eq_ok.1 run
    refine ⟨fun given => ?_, rfl, rfl⟩
    obtain ⟨kinds, expanded⟩ := given
    cases expanded with
    | root found' root' =>
      cases found.symm.trans found'
      exact root root'
    | derivative found' expr foundRoot root' =>
      cases found.symm.trans found'
      exact other _ _ expr foundRoot root'
  cases shape : form.expr with
  | unary op u =>
    cases op with
    | derivative =>
      simp only [shape, bind_eq_ok, get_eq_ok, lift_eq_ok] at run
      obtain ⟨_, _, ⟨rfl, rfl⟩, inner, _, ⟨fetchedInner, rfl⟩, run⟩ := run
      have foundInner := Arena.fetch_eq_ok_iff.1 fetchedInner
      by_cases innerRoot : inner.isRoot = true
      · rw [if_neg (by simp [innerRoot])] at run
        simp only [bind_eq_ok, get_eq_ok, lift_eq_ok, pure_eq_ok] at run
        obtain ⟨mass, mid, takenMass, incidence, next, takenIncidence, vector, last,
          takenVector, _, _, ⟨rfl, rfl⟩, front, _, ⟨linkedFront, rfl⟩, middle, _,
          ⟨linkedMiddle, rfl⟩, back, _, ⟨linkedBack, rfl⟩, rfl, rfl⟩ := run
        exact Or.inl ⟨u, inner, rfl, foundInner, innerRoot, mass, mid, incidence, next, vector,
          front, middle, back, takenMass, takenIncidence, takenVector, linkedFront,
          linkedMiddle, linkedBack, rfl⟩
      · rw [if_pos (by simpa using innerRoot)] at run
        refine Or.inr (otherwise (fun w other expr foundOther => ?_) run)
        cases shape.symm.trans expr
        cases foundInner.symm.trans foundOther
        exact innerRoot
    | _ => exact Or.inr (otherwise (by simp [shape]) (by simpa only [shape] using run))
  | _ => exact Or.inr (otherwise (by simp [shape]) (by simpa only [shape] using run))

theorem formChain_spec (prepared : base.Prepares s) (standard : s.Standard)
    {r : Option (List Link)} (run : formChain g s = .ok r s') : s.Prepares s' ∧
      Chained s' (Expanded base g) (∃ kinds, Expanded base g kinds) r := by
  obtain ⟨form, found, branch⟩ := formChain_cases run
  rcases branch with ⟨root, mass, mid, vector, front, back, takenMass, takenVector, linkedFront,
    linkedBack, rfl⟩ | ⟨u, inner, expr, foundInner, root, mass, mid, incidence, next, vector,
    front, middle, back, takenMass, takenIncidence, takenVector, linkedFront, linkedMiddle,
    linkedBack, rfl⟩ | ⟨unexpanded, rfl, rfl⟩
  · obtain ⟨first, standsMass⟩ := standard.massMatrix_spec takenMass
    obtain ⟨second, standsVector⟩ := (first.standard standard).vector_spec takenVector
    have expanded : Expanded base g _ := .of_forms prepared.forms.symm (.root found root)
    exact ⟨first.trans second, _, expanded,
      .cons ⟨mass, second.steps.extends.standsFor standsMass, linkedFront⟩
        (.cons ⟨vector, standsVector, linkedBack⟩ .nil)⟩
  · obtain ⟨first, standsMass⟩ := standard.massMatrix_spec takenMass
    obtain ⟨second, standsIncidence⟩ :=
      (first.standard standard).incidenceMatrix_spec takenIncidence
    obtain ⟨third, standsVector⟩ :=
      ((first.trans second).standard standard).vector_spec takenVector
    have expanded : Expanded base g _ :=
      .of_forms prepared.forms.symm (.derivative found expr foundInner root)
    exact ⟨(first.trans second).trans third, _, expanded,
      .cons ⟨mass, (second.trans third).steps.extends.standsFor standsMass, linkedFront⟩
        (.cons ⟨incidence, third.steps.extends.standsFor standsIncidence, linkedMiddle⟩
          (.cons ⟨vector, standsVector, linkedBack⟩ .nil))⟩
  · refine ⟨.refl _, fun given => unexpanded ?_⟩
    obtain ⟨kinds, expanded⟩ := given
    exact ⟨kinds, expanded.of_forms prepared.forms⟩

/-! ## The boundary pairing -/

/-- Where the coefficients of a test form fit a boundary vector, the vector has the rows of
the test form's own space. -/
theorem space_eq_of_boundary (sound : s.Sound) {u : FormId} {form : Form} {space : SpaceId}
    {front back : Link} (found : s.forms.get? v = some form)
    (frontLink : s.IsLink front ⟨.vector v, true⟩)
    (backLink : s.IsLink back ⟨.wedgeVector u space, false⟩)
    (fit : front.shape.cols = back.shape.rows) : space = form.space := by
  obtain ⟨form', rows, found', labelled, shape⟩ := sound.shape_vector frontLink
  obtain ⟨rows', labelled', shape'⟩ := sound.shape_wedgeVector backLink
  cases found.symm.trans found'
  rw [shape, shape'] at fit
  obtain rfl : rows = rows' := fit
  exact sound.space_eq_of_dofLabel labelled' labelled

theorem boundaryForm?_cases {r : Option FormId} (run : boundaryForm? s t v = .ok r) :
    (∃ h u, s.Reads t.f1 (.unary .trace h) ∧ s.Reads h (.unary .hodge u) ∧ s.HoldsRoot u ∧
      s.Reads t.f2 (.unary .trace v) ∧ r = some u) ∨
    ((¬ ∃ h u, s.Reads t.f1 (.unary .trace h) ∧ s.Reads h (.unary .hodge u) ∧ s.HoldsRoot u ∧
      s.Reads t.f2 (.unary .trace v)) ∧ r = none) := by
  simp only [boundaryForm?, Outcome.bind_eq_ok] at run
  obtain ⟨first, foundFirst, second, foundSecond, run⟩ := run
  have readsFirst : s.Reads t.f1 first.expr := ⟨first, Arena.fetch_eq_ok_iff.1 foundFirst, rfl⟩
  have readsSecond : s.Reads t.f2 second.expr := ⟨second, Arena.fetch_eq_ok_iff.1 foundSecond, rfl⟩
  split at run
  · rename_i h w shapeFirst shapeSecond
    rw [shapeFirst] at readsFirst
    rw [shapeSecond] at readsSecond
    by_cases tested : w = v
    · subst tested
      rw [if_neg fun differs => differs rfl] at run
      simp only [Outcome.bind_eq_ok] at run
      obtain ⟨dual, foundDual, run⟩ := run
      have readsDual : s.Reads h dual.expr := ⟨dual, Arena.fetch_eq_ok_iff.1 foundDual, rfl⟩
      split at run
      · rename_i u shapeDual
        rw [shapeDual] at readsDual
        simp only [isRoot, Outcome.bind_eq_ok, Outcome.pure_eq_ok] at run
        obtain ⟨_, ⟨form, found, rfl⟩, run⟩ := run
        have foundForm := Arena.fetch_eq_ok_iff.1 found
        split at run
        · rename_i root
          cases Outcome.pure_eq_ok.1 run
          exact Or.inl ⟨h, u, readsFirst, readsDual, ⟨form, foundForm, root⟩, readsSecond, rfl⟩
        · rename_i derived
          cases Outcome.pure_eq_ok.1 run
          refine Or.inr ⟨fun given => ?_, rfl⟩
          rcases given with ⟨h', u', first', hodge', ⟨form', found', root⟩, -⟩
          cases readsFirst.unique first'
          cases readsDual.unique hodge'
          cases foundForm.symm.trans found'
          exact derived root
      · rename_i other
        cases Outcome.pure_eq_ok.1 run
        refine Or.inr ⟨fun given => ?_, rfl⟩
        rcases given with ⟨h', u', first', hodge', -⟩
        cases readsFirst.unique first'
        exact other u' (readsDual.unique hodge')
    · rw [if_pos tested] at run
      cases Outcome.pure_eq_ok.1 run
      refine Or.inr ⟨fun given => ?_, rfl⟩
      rcases given with ⟨h', u', -, -, -, second'⟩
      cases readsSecond.unique second'
      exact tested rfl
  · rename_i other
    cases Outcome.pure_eq_ok.1 run
    refine Or.inr ⟨fun given => ?_, rfl⟩
    rcases given with ⟨h', u', first', -, -, second'⟩
    exact other h' v (readsFirst.unique first') (readsSecond.unique second')

/-! ## The conversion -/

/-- A multiple of an expanded form is that form. -/
theorem Factored.eq_of_expanded {c : ScalarId} (factored : Factored s s' f c g)
    (expands : ∃ kinds, Expanded s f kinds) : g = f := by
  have unlike : ∀ {e}, s.Reads f e → e.isLeaf = true ∨ ∃ r, e = .unary .derivative r := by
    intro e reads
    rcases exists_expanded_iff.1 expands with ⟨form, found, root⟩ | ⟨r, -, derivative⟩
    · cases reads.unique ⟨form, found, rfl⟩
      exact Or.inl root
    · exact Or.inr ⟨r, reads.unique derivative⟩
  cases factored with
  | one => rfl
  | scaled reads => simpa [FormExpr.isLeaf] using unlike reads
  | quotient reads => simpa [FormExpr.isLeaf] using unlike reads

theorem convertInnerProduct_spec (standard : s.Standard) (kind : t.kind = .innerProduct)
    {conversion : Conversion} (run : convertInnerProduct t v s = .ok conversion s') :
    s.Prepares s' ∧ Follows s s' t v conversion := by
  have convertible : Convertible s t v → (t.f2 = v ∨ s.Reads t.f2 (.unary .derivative v)) ∧
      ∃ g, (t.f1 = g ∨ (∃ c, s.Reads t.f1 (.scaled c g)) ∨ ∃ c, s.Reads t.f1 (.quotient g c)) ∧
        ∃ kinds, Expanded s g kinds := by
    simp only [Convertible, kind, exists_expanded_iff]
    exact id
  simp only [convertInnerProduct, bind_eq_ok] at run
  obtain ⟨front, mid, tested, run⟩ := run
  obtain ⟨first, frontChain⟩ := testChain_spec standard tested
  cases front with
  | none =>
    obtain ⟨rfl, rfl⟩ := pure_eq_ok.1 run
    exact ⟨first, fun given => frontChain (convertible given).1⟩
  | some front =>
    simp only [bind_eq_ok] at run
    obtain ⟨⟨factor, g⟩, next, split, core, last, expanded, run⟩ := run
    obtain ⟨second, factored, multiples⟩ := splitFactor_spec first split
    obtain ⟨third, coreChain⟩ := formChain_spec (first.trans second)
      ((first.trans second).standard standard) expanded
    have whole := (first.trans second).trans third
    cases core with
    | none =>
      obtain ⟨rfl, rfl⟩ := pure_eq_ok.1 run
      refine ⟨whole, fun given => coreChain ?_⟩
      obtain ⟨-, g', same | ⟨c, scaled⟩ | ⟨c, quotient⟩, expands⟩ := convertible given
      · subst same
        rwa [factored.eq_of_expanded expands]
      · rwa [← multiples c g' (Or.inl scaled)]
      · rwa [← multiples c g' (Or.inr quotient)]
    | some core =>
      simp only [bind_eq_ok, lift_eq_ok, pure_eq_ok] at run
      obtain ⟨p, _, ⟨created, rfl⟩, rfl, rfl⟩ := run
      obtain ⟨fits, rfl⟩ := Product.create_eq_ok.1 created
      obtain ⟨frontKinds, test, frontLinks⟩ := frontChain
      obtain ⟨coreKinds, expansion, coreLinks⟩ := coreChain
      have later := (second.trans third).steps.extends
      exact ⟨whole, rfl, fits, _,
        .innerProduct kind test (factored.later third.steps) expansion,
        List.rel_append (frontLinks.imp fun _ _ => later.isLink) coreLinks⟩

theorem convertPairing_spec (standard : s.Standard) (kind : t.kind = .dualityPairing)
    {conversion : Conversion} (run : convertPairing t v s = .ok conversion s') :
    s.Prepares s' ∧ Follows s s' t v conversion := by
  simp only [convertPairing, bind_eq_ok, get_eq_ok, lift_eq_ok] at run
  obtain ⟨_, _, ⟨rfl, rfl⟩, paired, _, ⟨boundary, rfl⟩, run⟩ := run
  rcases boundaryForm?_cases boundary with ⟨h, u, readsTrace, hodge, root, second, rfl⟩ |
    ⟨unpaired, rfl⟩
  · simp only [bind_eq_ok, get_eq_ok, lift_eq_ok, pure_eq_ok] at run
    obtain ⟨vector, mid, takenVector, _, _, ⟨rfl, rfl⟩, form, _, ⟨found, rfl⟩, wedge, next,
      takenWedge, factor, last, unit, _, _, ⟨rfl, rfl⟩, front, _, ⟨linkedFront, rfl⟩, back, _,
      ⟨linkedBack, rfl⟩, p, _, ⟨created, rfl⟩, rfl, rfl⟩ := run
    obtain ⟨first, standsVector⟩ := standard.vector_spec takenVector
    obtain ⟨after, other, standsWedge⟩ := (first.standard standard).wedgeVector_spec takenWedge
    have third : next.Prepares last :=
      ⟨Scalar.unit_grows.steps unit, Scalar.ofNumber_forms unit⟩
    have whole := (first.trans after).trans third
    have foundForm : s.forms.get? v = some form := by
      rw [← first.forms]
      exact Arena.fetch_eq_ok_iff.1 found
    have frontLink : last.IsLink front ⟨.vector v, true⟩ :=
      ⟨vector, (after.trans third).steps.extends.standsFor standsVector, linkedFront⟩
    have backLink : last.IsLink back ⟨.wedgeVector u other, false⟩ :=
      ⟨wedge, third.steps.extends.standsFor standsWedge, linkedBack⟩
    obtain ⟨fits, rfl⟩ := Product.create_eq_ok.1 created
    have fit := (List.isChain_cons_cons.1 fits).1
    obtain rfl : other = form.space := space_eq_of_boundary (whole.standard standard).sound
      (whole.steps.extends.forms foundForm) frontLink backLink fit
    exact ⟨whole, rfl, fits, _, .dualityPairing kind readsTrace hodge root second foundForm
      (Scalar.unit_spec unit), .cons frontLink (.cons backLink .nil)⟩
  · obtain ⟨rfl, rfl⟩ := pure_eq_ok.1 run
    refine ⟨.refl _, fun given => unpaired ?_⟩
    rwa [Convertible, kind] at given

/-- A term is converted by the rules, and what is unsupported no rule represents. -/
theorem convert_spec (standard : s.Standard) {conversion : Conversion}
    (run : convert t v s = .ok conversion s') :
    s.Prepares s' ∧ Follows s s' t v conversion := by
  rw [convert] at run
  cases kind : t.kind with
  | innerProduct =>
    rw [kind] at run
    exact convertInnerProduct_spec standard kind run
  | dualityPairing =>
    rw [kind] at run
    exact convertPairing_spec standard kind run

end Term

end Variational
