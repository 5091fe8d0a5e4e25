import Variational.Proofs.Discretization.Averages

/-!
# Averaging and integration by parts

To average a form in a term `(δ a, b)` and to integrate by parts afterwards, or to integrate by
parts first and to average the form in the terms `(a, d b)` and `<tr ⋆a, tr b>` afterwards, gives
the same formulation. Once the first of these has succeeded, the second one is rejected for the
degree of a space alone.
-/

namespace Variational

open Derive

variable {settings : Settings} {s s' : Session} {sequence : TimeSequenceId} {u m : FormId}
  {keys : List String}

/-! ## Averages inside a form -/

/-- Averaging a root form makes one form of another one, in which it occurs. -/
structure Form.AveragedIn (s : Session) (sequence : TimeSequenceId) (u : FormId)
    (keys : List String) (m a a' : FormId) : Prop where
  hasMean : s.HasMean sequence u keys m
  root : s.Reads u .root
  occurs : s.occursIn a u = .ok true
  substituted : Form.Substituted s u m a a'

namespace Form.AveragedIn

variable {a a' f f' : FormId}

theorem mono (averaged : AveragedIn s sequence u keys m a a') (steps : s.Steps s') :
    AveragedIn s' sequence u keys m a a' where
  hasMean := averaged.hasMean.mono steps
  root := steps.extends.reads averaged.root
  occurs := steps.extends.occursIn_eq_ok averaged.occurs
  substituted := averaged.substituted.mono steps

/-- Averages are applied below an operator. -/
theorem operator (averaged : AveragedIn s sequence u keys m a a') {op : UnaryOperator}
    (reads : s.Reads f (.unary op a)) (reads' : s.Reads f' (.unary op a')) :
    AveragedIn s sequence u keys m f f' := by
  have differs : f ≠ u := by
    rintro rfl
    cases averaged.root.unique reads
  have occurs := reads.occursIn_of_operand List.mem_cons_self averaged.occurs
  exact ⟨averaged.hasMean, averaged.root, occurs,
    .unary differs occurs reads averaged.substituted reads'⟩

/-- An average in the first form of a term edits it, if the second one is made of another root
form by derivatives and traces. -/
theorem edited {v : FormId} {sign : Sign} {x y : Term}
    (averaged : AveragedIn s sequence u keys m x.f1 y.f1) (tested : s.Tested v x.f2)
    (other : u ≠ v) (kind : y.kind = x.kind) (second : y.f2 = x.f2)
    (created : Term.create s y.kind y.f1 y.f2 = .ok y) :
    s.Edited sequence (.mean u keys) ⟨sign, x⟩ ⟨sign, y⟩ := by
  obtain ⟨forms, evaluations, mean⟩ := averaged.hasMean.isMean
  rw [kind, second] at created
  exact .mean (Or.inl averaged.occurs) evaluations mean averaged.substituted
    (.absent (tested.occursIn_eq averaged.root other)) created

end Form.AveragedIn

/-! ## Green's formula for two forms -/

namespace Term

variable {mesh : MeshId} {a a' b : FormId} {volume boundary volume' boundary' : Term}

/-- The terms of Green's formula live on a mesh and on its boundary. -/
theorem Green.meshes_eq (sound : s.Sound) (green : Green s mesh a b volume boundary)
    (green' : Green s mesh a' b volume' boundary') :
    volume'.mesh = volume.mesh ∧ boundary'.mesh = boundary.mesh := by
  obtain ⟨m, found, inclusion⟩ := green.boundaryMesh
  obtain ⟨m', found', inclusion'⟩ := green'.boundaryMesh
  exact ⟨green'.volumeMesh.trans green.volumeMesh.symm,
    sound.eq_of_inclusion found' found inclusion' inclusion⟩

/-- The terms of Green's formula are terms of the session. -/
structure GreenTerms (s : Session) (mesh : MeshId) (a b : FormId) (volume boundary : Term) : Prop
    extends Green s mesh a b volume boundary where
  createdVolume : create s volume.kind volume.f1 volume.f2 = .ok volume
  createdBoundary : create s boundary.kind boundary.f1 boundary.f2 = .ok boundary

namespace GreenTerms

theorem mono (green : GreenTerms s mesh a b volume boundary) (later : s.Extends s') :
    GreenTerms s' mesh a b volume boundary := by
  obtain ⟨hodge, readsHodge, readsTrace⟩ := green.boundaryFirst
  obtain ⟨m, found, inclusion⟩ := green.boundaryMesh
  exact { green with
    volumeSecond := later.reads green.volumeSecond
    boundaryFirst := ⟨hodge, later.reads readsHodge, later.reads readsTrace⟩
    boundarySecond := later.reads green.boundarySecond
    boundaryMesh := ⟨m, later.meshes found, inclusion⟩
    createdVolume := create_mono later green.createdVolume
    createdBoundary := create_mono later green.createdBoundary }

/-- What occurs in the form occurs in the first forms of both terms. -/
theorem occurs (green : GreenTerms s mesh a b volume boundary)
    (occurs : s.occursIn a u = .ok true) :
    s.occursIn volume.f1 u = .ok true ∧ s.occursIn boundary.f1 u = .ok true := by
  obtain ⟨hodge, readsHodge, readsTrace⟩ := green.boundaryFirst
  refine ⟨green.volumeFirst ▸ occurs, readsTrace.occursIn_of_operand List.mem_cons_self ?_⟩
  exact readsHodge.occursIn_of_operand List.mem_cons_self occurs

/-- Averaging a form in the terms of Green's formula for `a` makes them those for the form that
`a` becomes. -/
theorem edited {v : FormId} {sign sign' : Sign} (distinct : s.Distinct)
    (green : GreenTerms s mesh a b volume boundary)
    (green' : GreenTerms s mesh a' b volume' boundary') (tested : s.Tested v b) (other : u ≠ v)
    (averaged : Form.AveragedIn s sequence u keys m a a') :
    s.Edited sequence (.mean u keys) ⟨sign, volume⟩ ⟨sign, volume'⟩ ∧
      s.Edited sequence (.mean u keys) ⟨sign', boundary⟩ ⟨sign', boundary'⟩ := by
  obtain ⟨hodge, readsHodge, readsTrace⟩ := green.boundaryFirst
  obtain ⟨hodge', readsHodge', readsTrace'⟩ := green'.boundaryFirst
  have inVolume : Form.AveragedIn s sequence u keys m volume.f1 volume'.f1 := by
    rw [green.volumeFirst, green'.volumeFirst]
    exact averaged
  have inBoundary : Form.AveragedIn s sequence u keys m boundary.f1 boundary'.f1 :=
    (averaged.operator readsHodge readsHodge').operator readsTrace readsTrace'
  constructor
  · exact inVolume.edited (.operator green.volumeSecond (Or.inl rfl) tested) other
      (green'.volumeKind.trans green.volumeKind.symm)
      (distinct.reads_unique green'.volumeSecond green.volumeSecond (by simp)) green'.createdVolume
  · exact inBoundary.edited (.operator green.boundarySecond (Or.inr rfl) tested) other
      (green'.boundaryKind.trans green.boundaryKind.symm)
      (distinct.reads_unique green'.boundarySecond green.boundarySecond (by simp))
      green'.createdBoundary

/-- Where there are the terms of Green's formula for a form, those for another form of its space
are rejected for degrees alone. -/
theorem yields (sound : s.Sound) (green : GreenTerms s mesh a b volume boundary)
    (beside : s.Beside a a') : (greenTerms a' b).Yields s fun _ _ => True := by
  obtain ⟨-, c, -, found, -⟩ := sound.rule_of_reads green.volumeSecond
  obtain ⟨hodge, readsHodge, readsTrace⟩ := green.boundaryFirst
  have own : s.Beside b b := .refl found
  refine (Form.apply_yields sound green.volumeSecond own).bind fun db s₁ steps₁ rebuilt => ?_
  obtain ⟨x, made, -⟩ := create_beside (create_mono steps₁.extends green.createdVolume)
    (green.volumeFirst ▸ beside.mono steps₁) rebuilt.2
  rw [green.volumeKind] at made
  refine .get_bind (.lift_bind made ((Form.apply_yields (sound.steps steps₁)
    (steps₁.extends.reads readsHodge) (beside.mono steps₁)).bind fun _ s₂ steps₂ rebuilt₂ => ?_))
  have later₂ : s.Steps s₂ := steps₁.trans steps₂
  refine (Form.apply_yields (sound.steps later₂) (later₂.extends.reads readsTrace)
    rebuilt₂.2).bind fun traceHodge s₃ steps₃ rebuilt₃ => ?_
  have later₃ : s.Steps s₃ := later₂.trans steps₃
  refine (Form.apply_yields (sound.steps later₃) (later₃.extends.reads green.boundarySecond)
    (own.mono later₃)).bind fun trace s₄ steps₄ rebuilt₄ => ?_
  have later₄ : s.Steps s₄ := later₃.trans steps₄
  obtain ⟨y, made', -⟩ := create_beside (create_mono later₄.extends green.createdBoundary)
    (rebuilt₃.2.mono steps₄) rebuilt₄.2
  rw [green.boundaryKind] at made'
  exact .get_bind (.lift_bind made' (.pure trivial))

end GreenTerms

end Term

namespace WeakFormulation

variable {w w' x : WeakFormulation} {address next : String} {i j : Nat} {e : Equation Term}
  {side : Side} {before after : List (Signed Term)} {t : Signed Term} {a : FormId}

theorem Addresses.locate_source (addresses : w.Addresses address i e side before t after)
    {p : Position} (read : Position.read address = .ok p) :
    (DiscretizationSource.formulation w).locate address = .ok (p, t) := by
  rw [DiscretizationSource.locate, addresses.term_eq, read]
  rfl

/-- A term is tested with the test form of its equation. -/
theorem WellFormed.tested {v : FormId} (wellFormed : w.WellFormed s)
    (addresses : w.Addresses address i e side before t after)
    (testForm : w.testForms[i]? = some v) : s.Tested v t.value.f2 := by
  obtain ⟨v', testForm', -, -, fits⟩ := wellFormed.equationFits addresses.known
  cases testForm.symm.trans testForm'
  exact Session.testedForm?_eq_ok_some.1 (fits t addresses.mem_terms).1

/-! ## Averaging first -/

/-- An average in a term `(δ a, b)`, of a form that is not the test form, is one in `a`. -/
theorem averagedIn_of_edited {g1 g2 v : FormId} {t new : Signed Term} (sound : s.Sound)
    (codifferential : t.value.IsCodifferential s a) (tested : s.Tested v t.value.f2)
    (other : u ≠ v) (hasMean : s.HasMean sequence u keys m)
    (edited : s.Edited sequence (.mean u keys) t new)
    (first : Form.Substituted s u m t.value.f1 g1) (second : Form.Substituted s u m t.value.f2 g2)
    (created : Term.create s t.value.kind g1 g2 = .ok new.value) :
    ∃ a', Form.AveragedIn s sequence u keys m a a' ∧ new.value.IsCodifferential s a' ∧
      new.value.f2 = t.value.f2 := by
  have root := edited.root_of_mean sound
  obtain ⟨kind, reads⟩ := codifferential
  obtain ⟨kind', first', second', -⟩ := Term.create_spec created
  have differs : t.value.f1 ≠ u := by
    intro same
    cases root.unique (same ▸ reads)
  have occurs : s.occursIn t.value.f1 u = .ok true := by
    cases edited with
    | mean occurs =>
      refine occurs.resolve_right fun inSecond => ?_
      simp [tested.occursIn_eq root other] at inSecond
  obtain ⟨a', substituted, rewritten⟩ := first.inner_cases differs occurs reads
  obtain ⟨form, found, expr⟩ := id reads
  refine ⟨a', ⟨hasMean, root, ?_, substituted⟩, ⟨kind'.trans kind, first' ▸ rewritten⟩, ?_⟩
  · simpa [expr, FormExpr.operands, differs] using (Session.occursIn_iff found).1 occurs
  · exact second'.trans (tested.eq_of_substituted root other second)

/-- Averaging in a term `(δ a, b)` and finishing replaces this term alone, by a term `(δ a', b)`.
-/
theorem WellFormed.averageAt_cases (reachable : Session.Reachable settings s)
    (wellFormed : w.WellFormed s) (addresses : w.Addresses address i e side before t after)
    (codifferential : t.value.IsCodifferential s a)
    (run : (DiscretizationSource.formulation w).averageAt sequence u keys [address] s =
      .ok x s') :
    Session.Reachable settings s' ∧ s.Steps s' ∧ x.WellFormed s' ∧ w.testForms[i]? ≠ some u ∧
      ∃ m a' new e', Form.AveragedIn s' sequence u keys m a a' ∧
        new.IsCodifferential s' a' ∧ new.f2 = t.value.f2 ∧
        x = ⟨w.mesh, w.equations.set i e', w.testForms, none⟩ ∧
        x.Addresses address i e' side before ⟨t.sign, new⟩ after ∧
        ∀ other, other ≠ side → e'.side other = e.side other := by
  obtain ⟨plan, averaged, finished⟩ := DiscretizationSource.averageAt_eq_ok.1 run
  obtain ⟨_, mid, single, done⟩ := Discretize.bind_eq_ok.1 averaged
  obtain ⟨-, rfl⟩ := Discretize.pure_eq_ok.1 done
  obtain ⟨j, read, known, split, position⟩ := id addresses
  have located := addresses.locate_source read
  have nothing : Workspace.Averages settings
      ⟨s, { stage := .sequenceSet, sequence := some sequence }⟩ s (.formulation w) sequence u keys
      [] := .initial reachable wellFormed.created
  have averages := nothing.average located single
  obtain ⟨m, g1, g2, hasMean, first, second, sign, created⟩ :=
    nothing.hasMean located List.not_mem_nil single
  have steps : s.Steps s' := averages.follows.steps
  have sound : s'.Sound := averages.reachable.sound
  have edited : s'.Edited sequence (.mean u keys) t (plan.current ⟨i, j⟩ t) :=
    averages.edited (List.nodup_singleton _) (List.mem_singleton_self _)
      (DiscretizationSource.initial?_of_locate located)
  have later : w.WellFormed s' := wellFormed.mono steps.extends
  -- The test form was not averaged, for otherwise there were nothing to finish.
  have other : w.testForms[i]? ≠ some u := by
    obtain ⟨passes, -⟩ := DiscretizationSource.finish_cases finished
    exact averages.follows.unaveraged_of_check later.checked passes ⟨i, j⟩ u keys (by simp)
  obtain ⟨v, testForm, -⟩ := later.equationFits known
  have tested := later.tested addresses testForm
  have differs : u ≠ v := fun same => other (same ▸ testForm)
  obtain ⟨a', averagedIn, rewritten, tests⟩ := averagedIn_of_edited sound
    ⟨codifferential.1, steps.extends.reads codifferential.2⟩ tested differs hasMean edited first
    second created
  obtain ⟨well, rfl⟩ := averages.finish_spec later finished
  have split' : e.side side = before ++ [t] ++ after := by simp [split]
  have within : ∀ p ∈ ([] ++ [⟨i, j⟩] : List Position), p.equation = i ∧
      ∃ k < [t].length, p.term = before.length + k + e.offset side := by
    intro p member
    cases List.mem_singleton.1 member
    exact ⟨rfl, 0, Nat.one_pos, position⟩
  have inside : ∀ k, [(⟨t.sign, (plan.current ⟨i, j⟩ t).value⟩ : Signed Term)][k]? =
      [t][k]?.map fun t => plan.current ⟨i, before.length + k + e.offset side⟩ t := by
    intro k
    cases k with
    | zero =>
      rw [Nat.add_zero, ← position, ← sign]
      rfl
    | succ k => rfl
  obtain ⟨e', equations, own, others⟩ := averages.exists_equation known split' within inside
  refine ⟨averages.reachable, steps, well, other, m, a', _, e', averagedIn, rewritten, tests,
    by rw [equations], ⟨j, read, ?_, ?_, ?_⟩, others⟩
  · obtain ⟨held, -⟩ := List.getElem?_eq_some_iff.1 known
    dsimp only
    rw [equations, List.getElem?_set_self held]
  · rw [own, List.append_assoc]
    rfl
  · rw [position, Equation.offset_eq others]

/-! ## Integrating by parts -/

/-- The term at a position stands between others on a side. -/
theorem exists_addresses_of_term (read : Position.read address = .ok ⟨i, j⟩)
    (found : w.term address = .ok t) :
    ∃ e side before after, w.Addresses address i e side before t after := by
  obtain ⟨p, e, read', known, standing⟩ := term_eq_ok.1 found
  cases read.symm.trans read'
  have held : j < e.size := by
    rw [← e.length_terms]
    exact (List.getElem?_eq_some_iff.1 standing).1
  obtain ⟨⟨side, place⟩, located⟩ := Option.isSome_iff_exists.1 (Equation.locate_isSome_iff.2 held)
  obtain ⟨before, after, stands, -⟩ := Equation.standsAt_of_locate located standing
  exact ⟨e, side, before, after, j, read, known, stands⟩

theorem Addresses.integrateByParts_eq (addresses : w.Addresses address i e side before t after)
    (codifferential : t.value.IsCodifferential s a) : w.integrateByParts address s =
      (Term.greenTerms a t.value.f2 >>= fun r => (get : Derive Session) >>= fun s =>
        liftM (w.splice s i side before.length [⟨t.sign, r.1⟩, ⟨t.sign.flipped, r.2⟩])) s := by
  rw [integrateByParts, lift_bind_of_ok addresses.locate_eq]
  dsimp only
  rw [lift_bind_of_ok addresses.term_eq, get_bind,
    lift_bind_of_ok (Term.codifferentiated?_eq_some.2 codifferential)]

/-- Integration by parts puts the terms of Green's formula in the place of a term. -/
theorem WellFormed.integrateByParts_cases (reachable : Session.Reachable settings s)
    (wellFormed : w.WellFormed s) (addresses : w.Addresses address i e side before t after)
    (codifferential : t.value.IsCodifferential s a)
    (run : w.integrateByParts address s = .ok w' s') :
    Session.Reachable settings s' ∧ s.Steps s' ∧ w'.WellFormed s' ∧ ∃ volume boundary,
      Term.GreenTerms s' t.value.mesh a t.value.f2 volume boundary ∧
      w' = { w with equations := w.equations.set i (e.splice side before.length
        [⟨t.sign, volume⟩, ⟨t.sign.flipped, boundary⟩]) } := by
  obtain ⟨_, _, _, _, _, _, _, volume, boundary, addresses', codifferential', green, splice⟩ :=
    integrateByParts_eq_ok.1 run
  obtain ⟨rfl, rfl, rfl, rfl, rfl, rfl⟩ := addresses.unique addresses'
  cases codifferential.2.unique codifferential'.2
  obtain ⟨k, first, second⟩ := wellFormed.exists_lives reachable.sound addresses codifferential
  obtain ⟨formula, created, created'⟩ := Term.greenTerms_spec reachable.sound first second green
  rw [← formula.volumeKind] at created
  rw [← formula.boundaryKind] at created'
  exact ⟨reachable.of_request (.integrateByParts w address) rfl run,
    (w.integrateByParts_grows address).steps run,
    (wellFormed.integrateByParts reachable.sound run).1, volume, boundary,
    ⟨formula, created, created'⟩, addresses.of_splice splice⟩

/-- Where there are terms of Green's formula that fit, for another form of the space, integration
by parts is rejected for degrees alone. -/
theorem WellFormed.integrateByParts_yields {a' v : FormId} {volume boundary : Term}
    (reachable : Session.Reachable settings s) (wellFormed : w.WellFormed s)
    (addresses : w.Addresses address i e side before t after)
    (codifferential : t.value.IsCodifferential s a)
    (green : Term.GreenTerms s t.value.mesh a' t.value.f2 volume boundary)
    (beside : s.Beside a' a) (fits : TermFits s w.mesh v volume)
    (fits' : TermFits s w.mesh v boundary) :
    (w.integrateByParts address).Yields s fun _ _ => True := by
  have sound := reachable.sound
  obtain ⟨k, first, second⟩ := wellFormed.exists_lives sound addresses codifferential
  refine .congr (addresses.integrateByParts_eq codifferential)
    ((green.yields sound beside).runs.bind ?_)
  rintro ⟨volume', boundary'⟩ last steps ⟨-, run⟩
  have later := steps.extends
  obtain ⟨formula, -⟩ := Term.greenTerms_spec sound first second run
  obtain ⟨same, same'⟩ := (green.mono later).toGreen.meshes_eq (sound.steps steps) formula
  have each : ∀ x ∈ [⟨t.sign, volume'⟩, (⟨t.sign.flipped, boundary'⟩ : Signed Term)], ∀ v,
      TermFits s w.mesh v t.value → TermFits last w.mesh v x.value := by
    intro x member v tested
    have both := termFits_of_green formula (later.testedForm?_eq_ok tested.1)
    rcases List.mem_pair.1 member with rfl | rfl
    · exact ⟨both.1.1, same ▸ (fits.mono later).2⟩
    · exact ⟨both.2.1, same' ▸ (fits'.mono later).2⟩
  obtain ⟨w', splice⟩ := wellFormed.splice_succeeds later addresses (by simp) each
  exact .get_bind (.congr (lift_eq_ok.2 ⟨splice, rfl⟩) (.pure trivial))

/-! ## Averaging afterwards -/

variable {y z : Signed Term}

/-- The two terms that replace one stand next to each other. -/
theorem Addresses.pair (addresses : w.Addresses address i e side before t after)
    (read : Position.read address = .ok ⟨i, j⟩) (read' : Position.read next = .ok ⟨i, j + 1⟩)
    (same : w' = { w with equations := w.equations.set i (e.splice side before.length [y, z]) }) :
    w'.Addresses address i (e.splice side before.length [y, z]) side before y (z :: after) ∧
      w'.Addresses next i (e.splice side before.length [y, z]) side (before ++ [y]) z after := by
  obtain ⟨j', read'', known, stands⟩ := addresses
  cases read.symm.trans read''
  have here : w'.equations[i]? = some (e.splice side before.length [y, z]) := by
    rw [same, List.getElem?_set_self (List.getElem?_eq_some_iff.1 known).1]
  have own : (e.splice side before.length [y, z]).side side = before ++ [y, z] ++ after :=
    stands.side_splice
  have offset : (e.splice side before.length [y, z]).offset side = e.offset side :=
    Equation.offset_eq fun other differs => Equation.side_splice_of_ne differs _
  refine ⟨⟨j, read, here, ?_, ?_⟩, j + 1, read', here, ?_, ?_⟩
  · rw [own, List.append_assoc]
    rfl
  · rw [offset]
    exact stands.2
  · rw [own, List.append_assoc, List.append_assoc]
    rfl
  · rw [offset, stands.2, List.length_append, List.length_singleton, Nat.add_right_comm]

/-- Averages in two neighbouring terms are finished with what the averages make of them. -/
theorem exists_equation_of_pair {start : Session} {plan : Plan}
    {volume boundary volume' boundary' : Term} {sign sign' : Sign} (wellFormed : w.WellFormed s)
    (averages : Workspace.Averages settings ⟨s, plan⟩ start (.formulation w) sequence u keys
      [⟨i, j⟩, ⟨i, j + 1⟩])
    (finished : DiscretizationSource.finish s (.formulation w) plan = .ok x)
    (here : w.Addresses address i e side before ⟨sign, volume⟩ (⟨sign', boundary⟩ :: after))
    (there : w.Addresses next i e side (before ++ [⟨sign, volume⟩]) ⟨sign', boundary⟩ after)
    (read : Position.read address = .ok ⟨i, j⟩) (read' : Position.read next = .ok ⟨i, j + 1⟩)
    (edited : s.Edited sequence (.mean u keys) ⟨sign, volume⟩ ⟨sign, volume'⟩)
    (edited' : s.Edited sequence (.mean u keys) ⟨sign', boundary⟩ ⟨sign', boundary'⟩) :
    ∃ e', x = ⟨w.mesh, w.equations.set i e', w.testForms, none⟩ ∧
      e'.side side = before ++ [⟨sign, volume'⟩, ⟨sign', boundary'⟩] ++ after ∧
      ∀ other, other ≠ side → e'.side other = e.side other := by
  have distinct : s.Distinct := averages.reachable.distinct
  have apart : ([⟨i, j⟩, ⟨i, j + 1⟩] : List Position).Nodup := by simp
  have current : plan.current ⟨i, j⟩ ⟨sign, volume⟩ = ⟨sign, volume'⟩ :=
    (averages.edited apart (by simp)
      (DiscretizationSource.initial?_of_locate (here.locate_source read))).unique distinct edited
  have current' : plan.current ⟨i, j + 1⟩ ⟨sign', boundary⟩ = ⟨sign', boundary'⟩ :=
    (averages.edited apart (by simp)
      (DiscretizationSource.initial?_of_locate (there.locate_source read'))).unique distinct edited'
  obtain ⟨-, rfl⟩ := averages.finish_spec wellFormed finished
  obtain ⟨j', read'', known, split, position⟩ := id here
  cases read.symm.trans read''
  have split' : e.side side = before ++ [⟨sign, volume⟩, ⟨sign', boundary⟩] ++ after := by
    rw [split, List.append_assoc]
    rfl
  have within : ∀ p ∈ ([⟨i, j⟩, ⟨i, j + 1⟩] : List Position), p.equation = i ∧
      ∃ k < [(⟨sign, volume⟩ : Signed Term), ⟨sign', boundary⟩].length,
        p.term = before.length + k + e.offset side := by
    intro p member
    rcases List.mem_pair.1 member with rfl | rfl
    · exact ⟨rfl, 0, Nat.two_pos, position⟩
    · refine ⟨rfl, 1, Nat.one_lt_two, ?_⟩
      rw [position, Nat.add_right_comm]
  have inside : ∀ k, [(⟨sign, volume'⟩ : Signed Term), ⟨sign', boundary'⟩][k]? =
      [(⟨sign, volume⟩ : Signed Term), ⟨sign', boundary⟩][k]?.map fun t =>
        plan.current ⟨i, before.length + k + e.offset side⟩ t := by
    intro k
    match k with
    | 0 =>
      rw [Nat.add_zero, ← position]
      exact congrArg some current.symm
    | 1 =>
      rw [Nat.add_right_comm, ← position]
      exact congrArg some current'.symm
    | k + 2 => rfl
  obtain ⟨e', equations, own, others⟩ := averages.exists_equation known split' within inside
  exact ⟨e', by rw [equations], own, others⟩

/-- Where the terms of Green's formula are there for the averaged form, integrating by parts and
averaging afterwards is rejected for degrees alone, and makes these terms of the replaced one. -/
theorem integrateByParts_averageAt_yields {a' v : FormId} {volume' boundary' : Term}
    (reachable : Session.Reachable settings s) (wellFormed : w.WellFormed s)
    (addresses : w.Addresses address i e side before t after)
    (read : Position.read address = .ok ⟨i, j⟩) (read' : Position.read next = .ok ⟨i, j + 1⟩)
    (codifferential : t.value.IsCodifferential s a) (testForm : w.testForms[i]? = some v)
    (other : u ≠ v) (averaged : Form.AveragedIn s sequence u keys m a a')
    (green : Term.GreenTerms s t.value.mesh a' t.value.f2 volume' boundary')
    (fits : TermFits s w.mesh v volume') (fits' : TermFits s w.mesh v boundary') :
    (do
      let integrated ← w.integrateByParts address
      (DiscretizationSource.formulation integrated).averageAt sequence u keys
        [address, next] : Derive _).Yields s fun y _ =>
      ∃ e', y = ⟨w.mesh, w.equations.set i e', w.testForms, none⟩ ∧
        e'.side side = before ++ [⟨t.sign, volume'⟩, ⟨t.sign.flipped, boundary'⟩] ++ after ∧
        ∀ other, other ≠ side → e'.side other = e.side other := by
  have sound := reachable.sound
  have beside : s.Beside a a' := averaged.substituted.beside sound averaged.hasMean.beside
  have first := wellFormed.integrateByParts_yields reachable addresses codifferential green
    beside.symm fits fits'
  refine first.runs.bind fun parts mid steps integrated => ?_
  obtain ⟨reachable', -, well, volume, boundary, formula, same⟩ :=
    wellFormed.integrateByParts_cases reachable addresses codifferential integrated.2
  obtain ⟨here, there⟩ := addresses.pair read read' same
  obtain ⟨inVolume, inBoundary⟩ := formula.occurs (averaged.mono steps).occurs
  have located : List.Forall₂ (fun address p => ∃ t,
      (DiscretizationSource.formulation parts).locate address = .ok (p, t) ∧
        mid.occursIn t.value.f1 u = .ok true) [address, next] [⟨i, j⟩, ⟨i, j + 1⟩] :=
    .cons ⟨_, here.locate_source read, inVolume⟩
      (.cons ⟨_, there.locate_source read', inBoundary⟩ .nil)
  have untested : ∀ p ∈ ([⟨i, j⟩, ⟨i, j + 1⟩] : List Position),
      (DiscretizationSource.formulation parts).testForms[p.equation]? ≠ some u := by
    have differs : w.testForms[i]? ≠ some u := fun tests =>
      other (Option.some.inj (tests.symm.trans testForm))
    have same : parts.testForms = w.testForms := by rw [same]
    intro p member
    rw [DiscretizationSource.testForms, same]
    rcases List.mem_pair.1 member with rfl | rfl
    · exact differs
    · exact differs
  have source : (DiscretizationSource.formulation parts).Created mid := well.created
  refine (DiscretizationSource.averageAt_yields reachable' source well.checked
    (averaged.hasMean.mono steps) located (by simp) untested).imp fun {y last} steps' finished => ?_
  obtain ⟨plan, averages, finished⟩ := finished
  have all : s.Steps last := steps.trans steps'
  have tested := (wellFormed.mono all.extends).tested addresses testForm
  obtain ⟨edited, edited'⟩ := (formula.mono steps'.extends).edited averages.reachable.distinct
    (green.mono all.extends) tested other (averaged.mono all)
  obtain ⟨e', rfl, own, others⟩ := exists_equation_of_pair (well.mono steps'.extends) averages
    finished here there read read' edited edited'
  refine ⟨e', by rw [same, List.set_set], own, fun other differs => ?_⟩
  rw [others other differs, Equation.side_splice_of_ne differs]

/-- Averaging commutes with integration by parts. If a form is averaged in a term `(δ a, b)` and
the result is integrated by parts there, then in the session that this leaves behind one may
integrate by parts first and average the form in both of the new terms afterwards: this gives the
same formulation, or it is rejected for the degree of a space, and then the finite spaces do not
share one degree. -/
theorem averaging_integrateByParts (reachable : Session.Reachable settings s)
    (wellFormed : w.WellFormed s) (read : Position.read address = .ok ⟨i, j⟩)
    (read' : Position.read next = .ok ⟨i, j + 1⟩) (found : w.term address = .ok t)
    (codifferential : t.value.IsCodifferential s a)
    (run : (do
      let averaged ← (DiscretizationSource.formulation w).averageAt sequence u keys [address]
      averaged.integrateByParts address) s = .ok w' s') :
    let second : Derive WeakFormulation := do
      let integrated ← w.integrateByParts address
      (DiscretizationSource.formulation integrated).averageAt sequence u keys [address, next]
    (∃ s'', second s' = .ok w' s'' ∧ s'.Extends s'') ∨
      (∀ d, ¬ s'.FiniteAt d) ∧ ∃ lin present asked s'', second s' =
        .error (.rejected (.state (.degreeFixed lin present asked))) s'' := by
  intro second
  obtain ⟨x, s₁, averaged, integrated⟩ := bind_eq_ok.1 run
  obtain ⟨e, side, before, after, addresses⟩ := exists_addresses_of_term read found
  obtain ⟨reachable₁, steps₁, well₁, other, m, a', new, eA, averagedIn, rewritten, tests, sameA,
    addresses₁, others⟩ := wellFormed.averageAt_cases reachable addresses codifferential averaged
  obtain ⟨reachable', steps', well', volume', boundary', green', same'⟩ :=
    well₁.integrateByParts_cases reachable₁ addresses₁ rewritten integrated
  have steps : s.Steps s' := steps₁.trans steps'
  have later := wellFormed.mono steps.extends
  have mesh : new.mesh = t.value.mesh := Session.mesh_eq_of_created
    ((wellFormed.mono steps₁.extends).created_of_addresses addresses)
    (well₁.created_of_addresses addresses₁) tests
  rw [mesh, tests] at green'
  obtain ⟨here, there⟩ := addresses₁.pair read read' same'
  obtain ⟨v, testForm, -, -, fits⟩ := well'.equationFits here.known
  have testForms : w'.testForms = w.testForms := by rw [same', sameA]
  have meshes : w'.mesh = w.mesh := by rw [same', sameA]
  rw [testForms] at testForm
  rw [meshes] at fits
  have differs : u ≠ v := fun same => other (same ▸ testForm)
  have yields := integrateByParts_averageAt_yields reachable' later addresses read read'
    ⟨codifferential.1, steps.extends.reads codifferential.2⟩ testForm differs
    (averagedIn.mono steps') green' (fits _ here.mem_terms) (fits _ there.mem_terms)
  cases yields with
  | rejected run mixed => exact Or.inr ⟨mixed, _, _, _, _, run⟩
  | @result y last run steps _ same =>
    obtain ⟨e', same, own, kept⟩ := same
    refine Or.inl ⟨last, ?_, steps.extends⟩
    have equation : e' = eA.splice side before.length
        [⟨t.sign, volume'⟩, ⟨t.sign.flipped, boundary'⟩] := by
      obtain ⟨_, -, -, stands⟩ := addresses₁
      exact stands.eq_splice own fun other differs =>
        (kept other differs).trans (others other differs).symm
    rw [same', sameA, List.set_set, ← equation, ← same]
    exact run

/-- A formulation of one term. -/
theorem wellFormed_single {t : Term} {v : FormId} {k : Nat} (sign : Sign)
    (created : Term.create s t.kind t.f1 t.f2 = .ok t) (lives : s.Lives v t.mesh k)
    (tested : s.Tested v t.f2) : WellFormed ⟨t.mesh, [⟨[⟨sign, t⟩], []⟩], [v], none⟩ s := by
  have test := Session.testedForm?_eq_ok_some.2 tested
  refine ⟨check_eq_ok.2 ⟨by simp, .cons ⟨Nat.one_pos, ⟨k, lives⟩, ?_⟩ .nil⟩, ?_⟩
  · simpa [Equation.terms, TermFits] using test
  · simpa [Equation.terms] using created

/-- In the plane, `u` is averaged in `(δ d u, v)`, and the result is integrated by parts. To do it
the other way round gives the same formulation. -/
theorem averaging_integrateByParts_laplacian : ∃ s t w' s' s'', Session.Reachable {} s ∧
    Term.create s .innerProduct ⟨3⟩ ⟨1⟩ = .ok t ∧
    let w : WeakFormulation := ⟨⟨0⟩, [⟨[⟨.plus, t⟩], []⟩], [⟨1⟩], none⟩
    w.WellFormed s ∧
    (do
      let averaged ← (DiscretizationSource.formulation w).averageAt ⟨0⟩ ⟨0⟩ ["k-1", "k"] ["0-0"]
      averaged.integrateByParts "0-0" : Derive _) s = .ok w' s' ∧
    (do
      let integrated ← w.integrateByParts "0-0"
      (DiscretizationSource.formulation integrated).averageAt ⟨0⟩ ⟨0⟩ ["k-1", "k"]
        ["0-0", "0-1"] : Derive _) s' = .ok w' s'' := by
  obtain ⟨s, reachable, livesV, livesDelta, readsV, readsDelta, outcome⟩ :
      ∃ s, Session.Reachable {} s ∧ s.Lives ⟨1⟩ ⟨0⟩ 0 ∧ s.Lives ⟨3⟩ ⟨0⟩ 0 ∧ s.Reads ⟨1⟩ .root ∧
        s.Reads ⟨3⟩ (.unary .codifferential ⟨2⟩) ∧
        (match Term.create s .innerProduct ⟨3⟩ ⟨1⟩ with
          | .ok t =>
            let w : WeakFormulation := ⟨⟨0⟩, [⟨[⟨.plus, t⟩], []⟩], [⟨1⟩], none⟩
            match (do
              let averaged ← (DiscretizationSource.formulation w).averageAt ⟨0⟩ ⟨0⟩
                ["k-1", "k"] ["0-0"]
              averaged.integrateByParts "0-0" : Derive _) s with
            | .ok _ s' => decide (s'.FiniteAt 1)
            | .error _ _ => false
          | .error _ => false) = true :=
    ⟨Request.performAll {} [.manifold 2, .mesh ⟨0⟩, .space ⟨0⟩ 0 .outer, .degrees 1,
      .root ⟨0⟩ ⟨"u", "u"⟩, .root ⟨0⟩ ⟨"v", "v"⟩, .operator .derivative ⟨0⟩,
      .operator .codifferential ⟨2⟩, .sequence], .performAll {} _, by decide +kernel⟩
  obtain ⟨m, foundMesh⟩ := reachable.sound.exists_mesh livesV
  obtain ⟨t, created, mesh⟩ := Term.create_succeeds .innerProduct livesDelta livesV foundMesh rfl
  obtain ⟨kind, first, second, -⟩ := Term.create_spec created
  have wellFormed := wellFormed_single .plus (by rw [kind, first, second, created])
    (mesh.symm ▸ livesV) (second.symm ▸ .root readsV)
  rw [mesh] at wellFormed
  simp only [created] at outcome
  split at outcome
  case h_2 => cases outcome
  rename_i w' s' run
  have finite : s'.FiniteAt 1 := of_decide_eq_true outcome
  have read : Position.read "0-0" = .ok ⟨0, 0⟩ := rfl
  have read' : Position.read "0-1" = .ok ⟨0, 0 + 1⟩ := rfl
  have found : WeakFormulation.term ⟨⟨0⟩, [⟨[⟨.plus, t⟩], []⟩], [⟨1⟩], none⟩ "0-0" =
      .ok ⟨.plus, t⟩ := rfl
  obtain ⟨s'', same, -⟩ | ⟨mixed, -⟩ := averaging_integrateByParts reachable wellFormed read read'
    found ⟨kind, first.symm ▸ readsDelta⟩ run
  · exact ⟨s, t, w', s', s'', reachable, created, wellFormed, run, same⟩
  · exact absurd finite (mixed 1)

/-- The spaces of `⋆u` and of `v` have different degrees. Then `u` is averaged in `(δ δ ⋆u, v)` and
the result is integrated by parts. But after the integration by parts the average is rejected. -/
theorem averaging_integrateByParts_mixed : ∃ s t w' s' last, Session.Reachable {} s ∧
    Term.create s .innerProduct ⟨4⟩ ⟨1⟩ = .ok t ∧
    let w : WeakFormulation := ⟨⟨0⟩, [⟨[⟨.plus, t⟩], []⟩], [⟨1⟩], none⟩
    w.WellFormed s ∧ t.IsCodifferential s ⟨3⟩ ∧ t.mesh = w.mesh ∧ s.Reads ⟨0⟩ .root ∧
    s.occursIn ⟨3⟩ ⟨0⟩ = .ok true ∧
    (do
      let averaged ← (DiscretizationSource.formulation w).averageAt ⟨0⟩ ⟨0⟩ ["k"] ["0-0"]
      averaged.integrateByParts "0-0" : Derive _) s = .ok w' s' ∧
    (do
      let integrated ← w.integrateByParts "0-0"
      (DiscretizationSource.formulation integrated).averageAt ⟨0⟩ ⟨0⟩ ["k"]
        ["0-0", "0-1"] : Derive _) s' =
      .error (.rejected (.state (.degreeFixed "Lambda-outer-k2-over-Mesh" 1 2))) last := by
  obtain ⟨s, reachable, livesV, livesDelta, readsV, readsDelta, readsU, occurs, outcome⟩ :
      ∃ s, Session.Reachable {} s ∧ s.Lives ⟨1⟩ ⟨0⟩ 0 ∧ s.Lives ⟨4⟩ ⟨0⟩ 0 ∧ s.Reads ⟨1⟩ .root ∧
        s.Reads ⟨4⟩ (.unary .codifferential ⟨3⟩) ∧ s.Reads ⟨0⟩ .root ∧
        s.occursIn ⟨3⟩ ⟨0⟩ = .ok true ∧
        (match Term.create s .innerProduct ⟨4⟩ ⟨1⟩ with
          | .ok t =>
            let w : WeakFormulation := ⟨⟨0⟩, [⟨[⟨.plus, t⟩], []⟩], [⟨1⟩], none⟩
            match (do
              let averaged ← (DiscretizationSource.formulation w).averageAt ⟨0⟩ ⟨0⟩ ["k"] ["0-0"]
              averaged.integrateByParts "0-0" : Derive _) s with
            | .ok _ s' =>
              match (do
                let integrated ← w.integrateByParts "0-0"
                (DiscretizationSource.formulation integrated).averageAt ⟨0⟩ ⟨0⟩ ["k"]
                  ["0-0", "0-1"] : Derive _) s' with
              | .ok _ _ => false
              | .error failure _ => decide (failure =
                .rejected (.state (.degreeFixed "Lambda-outer-k2-over-Mesh" 1 2)))
            | .error _ _ => false
          | .error _ => false) = true :=
    ⟨Request.performAll {} [.manifold 3, .mesh ⟨0⟩, .space ⟨0⟩ 1 .inner, .space ⟨0⟩ 0 .inner,
      .root ⟨0⟩ ⟨"u", "u"⟩, .root ⟨1⟩ ⟨"v", "v"⟩, .operator .hodge ⟨0⟩,
      .operator .codifferential ⟨2⟩, .operator .codifferential ⟨3⟩, .degree ⟨2⟩ 1, .degree ⟨1⟩ 2,
      .sequence], .performAll {} _, by decide +kernel⟩
  obtain ⟨m, foundMesh⟩ := reachable.sound.exists_mesh livesV
  obtain ⟨t, created, mesh⟩ := Term.create_succeeds .innerProduct livesDelta livesV foundMesh rfl
  obtain ⟨kind, first, second, -⟩ := Term.create_spec created
  have wellFormed := wellFormed_single .plus (by rw [kind, first, second, created])
    (mesh.symm ▸ livesV) (second.symm ▸ .root readsV)
  rw [mesh] at wellFormed
  simp only [created] at outcome
  split at outcome
  case h_2 => cases outcome
  rename_i w' s' run
  split at outcome
  case h_1 => cases outcome
  rename_i failure last fails
  cases of_decide_eq_true outcome
  exact ⟨s, t, w', s', last, reachable, created, wellFormed, ⟨kind, first.symm ▸ readsDelta⟩, mesh,
    readsU, occurs, run, fails⟩

end WeakFormulation

end Variational
