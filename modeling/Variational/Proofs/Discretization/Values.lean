import Variational.Proofs.Discretization.Averages
import Variational.Proofs.FormValues
import Variational.Proofs.RealScalars

/-!
# What differencing and averaging mean

A difference puts the difference quotient of a form over an interval in the place of its time
derivative. An average changes the value of a term as if the form had the mean of the values that
it has at the instants, in every interpretation of the forms of the session. An average of what is
no root form, or does not occur in the term, is rejected, and no current term is changed.
-/

namespace Variational

open Discretize

universe v w

variable {settings : Settings} {s : Session} {sequence : TimeSequenceId} {u : FormId}
  {start stop : String} {keys : List String} {t new : Signed Term}

/-! ## Means of evaluations -/

namespace Form

variable {f g m : FormId} {fs others : List FormId}

/-- A root form that occurs in no summand does not occur in the sum. -/
theorem SumOf.occursIn_eq (sum : SumOf s f others g) (root : s.Reads u .root)
    (first : s.occursIn f u = .ok false) (each : ∀ h ∈ others, s.occursIn h u = .ok false) :
    s.occursIn g u = .ok false := by
  induction sum with
  | nil => exact first
  | @cons f h k _ others added _ ih =>
    refine ih (added.occursIn_eq_false ?_ fun x member => ?_) fun h member =>
      each h (List.mem_cons_of_mem _ member)
    · rintro rfl
      cases added.unique root
    · rcases List.mem_pair.1 member with rfl | rfl
      · exact first
      · exact each x List.mem_cons_self

/-- A root form that occurs in none of some forms does not occur in their mean. -/
theorem MeanOf.occursIn_eq (mean : MeanOf s fs m) (root : s.Reads u .root)
    (each : ∀ f ∈ fs, s.occursIn f u = .ok false) : s.occursIn m u = .ok false := by
  cases mean with
  | single => exact each m List.mem_cons_self
  | several sum quotient =>
    obtain ⟨c, k, -, -, -, reads⟩ := quotient
    refine reads.occursIn_eq_false ?_ fun x member => ?_
    · rintro rfl
      cases reads.unique root
    · cases List.mem_singleton.1 member
      exact sum.occursIn_eq root (each _ List.mem_cons_self) fun h member =>
        each h (List.mem_cons_of_mem _ member)

end Form

/-- A sum is divided by its count only if the double that counts is a number other than zero. -/
theorem Plan.mean_count {s' : Session} {first m : FormId} {others : List FormId}
    (run : mean first others s = .ok m s') :
    Scalar.rational (Float.ofNat (others.length + 1)) ≠ 0 := by
  rw [mean, Derive.bind_eq_ok] at run
  obtain ⟨sum, mid, -, run⟩ := run
  cases others with
  | nil =>
    rw [List.length_nil, Scalar.rational_ofNat (by decide)]
    decide
  | cons g others =>
    obtain ⟨c, last, divisor, -⟩ := Form.divide_cases run
    obtain ⟨x, same, nonzero, number⟩ | ⟨⟨⟩, -⟩ | ⟨_, _, ⟨⟩, -⟩ := Form.divisorScalar_cases divisor
    cases same
    exact Scalar.rational_ne_zero (Scalar.ofNumber_eq_ok number).1 nonzero

namespace Session.HasMean

variable {m : FormId}

/-- The mean of a form is that of its evaluations at the keys, which are counted. -/
theorem count_ne_zero (hasMean : s.HasMean sequence u keys m) (sound : s.Sound) :
    Scalar.rational (Float.ofNat keys.length) ≠ 0 := by
  obtain ⟨instants, first, others, known, evaluations, mean⟩ := hasMean.requests
  have evaluated := Form.mapM_evaluateAt_spec sound known (evaluations s .refl)
  rw [evaluated.length_eq]
  exact Plan.mean_count (mean s .refl)

theorem root (hasMean : s.HasMean sequence u keys m) (sound : s.Sound) : s.Reads u .root := by
  obtain ⟨evaluated, evaluations, mean⟩ := hasMean.isMean
  cases evaluations with
  | nil => cases mean
  | cons first =>
    obtain ⟨i, -, reads⟩ := first
    exact sound.root_of_evaluated reads

end Session.HasMean

/-! ## What an edit gives -/

namespace Session

/-- A form is the difference of a form at two keys, the last one minus the first one, divided by
the duration of the interval between them. -/
def DifferenceQuotient (s : Session) (sequence : TimeSequenceId) (u : FormId)
    (start stop : String) (q : FormId) : Prop :=
  ∃ i j duration atStart atStop change, s.InstantAt sequence start i ∧
    s.InstantAt sequence stop j ∧ s.IntervalBetween i j duration ∧
    s.EvaluatedAt sequence u start atStart ∧ s.EvaluatedAt sequence u stop atStop ∧
    s.Reads change (.binary .difference atStop atStart) ∧ s.Reads q (.quotient change duration)

/-- What differencing makes of a term. -/
structure Differenced (s : Session) (sequence : TimeSequenceId) (start stop : String)
    (t new : Signed Term) : Prop where
  sign : new.sign = t.sign
  kind : new.value.kind = t.value.kind
  mesh : new.value.mesh = t.value.mesh
  product : t.value.kind = .innerProduct
  first : ∃ u, s.Reads t.value.f1 (.unary .timeDerivative u) ∧
    s.DifferenceQuotient sequence u start stop new.value.f1
  second : new.value.f2 = t.value.f2

/-- What averaging makes of a term. For every meaning of the forms of the session, the new term has
the value that the term has if the form is given the mean of its values at the keys, each counted
as often as it is listed. The count is a double, which is the number of the keys as long as there
are at most `2 ^ 53` of them. -/
structure Averaged (s : Session) (sequence : TimeSequenceId) (u : FormId) (keys : List String)
    (t new : Signed Term) : Prop where
  sign : new.sign = t.sign
  kind : new.value.kind = t.value.kind
  mesh : new.value.mesh = t.value.mesh
  first : s.occursIn new.value.f1 u = .ok false
  second : s.occursIn new.value.f2 u = .ok false
  value : ∃ evaluated count, List.Forall₂ (s.EvaluatedAt sequence u) keys evaluated ∧
    count = Scalar.rational (Float.ofNat keys.length) ∧
    (keys.length ≤ 2 ^ 53 → count = keys.length) ∧
    ∀ (V : SpaceId → Type v) [∀ i, AddCommGroup (V i)] [∀ i, Module ℚ (V i)] (G : Type w)
      [AddCommGroup G] (m : s.Meaning V)
      (pairing : TermKind → MeshId → (Σ i, V i) → (Σ i, V i) → G) (ρ : LeafValues V),
      ∃ y, (∀ z, m.TermDenotes pairing ρ new z ↔ z = y) ∧
        ∀ z, m.TermDenotes pairing (ρ.update u (ρ.mean count evaluated)) t z ↔ z = y

theorem Edited.differenced (edited : s.Edited sequence (.difference start stop) t new)
    (created : Term.create s t.value.kind t.value.f1 t.value.f2 = .ok t.value) :
    s.Differenced sequence start stop t new := by
  cases edited with
  | @difference _ _ _ u _ _ _ _ _ _ _ _ product derivative begins ends interval before after
      difference divided made =>
    obtain ⟨kind, rfl, second, -⟩ := Term.create_spec made
    have remade := made
    rw [← kind, ← second] at remade
    exact ⟨rfl, kind, mesh_eq_of_created created remade second, product,
      ⟨u, derivative, _, _, _, _, _, _, begins, ends, interval, before, after, difference,
        divided⟩, second⟩

/-- Replacing a form by its mean is to give it the mean of its values. -/
theorem HasMean.averaged {m g1 g2 : FormId} (hasMean : s.HasMean sequence u keys m)
    (reachable : Reachable settings s)
    (created : Term.create s t.value.kind t.value.f1 t.value.f2 = .ok t.value)
    (first : Form.Substituted s u m t.value.f1 g1) (second : Form.Substituted s u m t.value.f2 g2)
    (sign : new.sign = t.sign) (made : Term.create s t.value.kind g1 g2 = .ok new.value) :
    Averaged.{v, w} s sequence u keys t new := by
  have sound := reachable.sound
  have root := hasMean.root sound
  have nonzero := hasMean.count_ne_zero sound
  obtain ⟨evaluated, evaluations, mean⟩ := hasMean.isMean
  obtain ⟨-, -, -, _, _, _, ⟨_, _, found, -⟩, ⟨_, _, found', -⟩, -⟩ := Term.create_spec created
  have beside := hasMean.beside
  obtain ⟨-, -, _, foundMean, -⟩ := id beside
  obtain ⟨x, remade, mesh⟩ := Term.create_beside created (first.beside sound beside)
    (second.beside sound beside)
  cases made.symm.trans remade
  obtain ⟨kind, rfl, rfl, -⟩ := Term.create_spec made
  have keyed : ∀ f ∈ evaluated, ∃ key, s.EvaluatedAt sequence u key f := fun f member => by
    obtain ⟨key, -, evaluatedAt⟩ := exists_mem_of_forall₂ evaluations member
    exact ⟨key, evaluatedAt⟩
  have absent : s.occursIn m u = .ok false := mean.occursIn_eq root fun f member => by
    obtain ⟨key, evaluatedAt⟩ := keyed f member
    exact evaluatedAt.occursIn_eq root
  refine ⟨sign, kind, mesh, first.occursIn_target_eq reachable root rfl found foundMean absent,
    second.occursIn_target_eq reachable root rfl found' foundMean absent, evaluated, _, evaluations,
    rfl, Scalar.rational_ofNat, fun V _ _ G _ meaning pairing ρ => ?_⟩
  have each : ∀ f ∈ evaluated, meaning.Denotes ρ f ⟨s.home u, ρ (s.home u) f⟩ := by
    intro f member
    obtain ⟨key, evaluatedAt⟩ := keyed f member
    exact .evaluated sound evaluatedAt
  have replaced := Meaning.Denotes.of_meanOf mean (evaluations.length_eq ▸ nonzero) each
  rw [← evaluations.length_eq] at replaced
  obtain ⟨y, denotes⟩ := meaning.exists_termDenotes pairing (ρ.update u (ρ.mean _ evaluated)) created
  have same := denotes.of_substituted reachable root rfl replaced first second sign kind mesh
  refine ⟨y, fun z => ⟨fun other => other.unique same, ?_⟩,
    fun z => ⟨fun other => other.unique denotes, ?_⟩⟩
  · rintro rfl
    exact same
  · rintro rfl
    exact denotes

end Session

/-! ## Calls -/

section Calls

variable {source : DiscretizationSource} {w w' : Workspace} {start : Session}
  {log : List (Position × Edit)} {address : String} {p : Position} {keys : List String}

theorem Call.Effect.edits_eq (effect : Call.Effect source w w' []) :
    w'.plan.edits = w.plan.edits := by
  cases effect with
  | prepared prepared => exact prepared.edits
  | sequence prepared set =>
    obtain ⟨-, _, rfl⟩ := Plan.setSequence_cases set
    exact prepared.edits

/-- A call that fails changes no current term. -/
theorem Call.term_of_error {call : Call String} {failure : Failure}
    (fails : call.perform source w = .error failure w') (address : String) :
    source.term w'.plan address = source.term w.plan address := by
  have effect := call.effect source w
  simp only [Call.logged, leaves, fails] at effect
  simp only [DiscretizationSource.term, DiscretizationSource.current, Plan.current,
    effect.edits_eq]

namespace DiscretizationSource

theorem term_of_located {t : Signed Term} (plan : Plan)
    (located : source.locate address = .ok (p, t)) :
    source.term plan address = .ok (plan.current p t) := by
  rw [term, current_of_located plan located]
  rfl

/-- An edit that succeeds has an address that names a term. -/
theorem exists_locate {prepare : Signed Term → Discretize (Signed Term × Option FormId)}
    (run : source.edit address prepare w = .ok () w') :
    ∃ p t, source.locate address = .ok (p, t) := by
  cases located : source.locate address with
  | ok found => exact ⟨found.1, found.2, rfl⟩
  | error failure =>
    rw [edit_of_rejected located] at run
    cases run

/-- Differencing at an address is to difference its current term, and to record the new one with
the form that becomes unknown. -/
theorem differentiate_eq_ok {start stop : String} {t : Signed Term}
    (located : source.locate address = .ok (p, t)) :
    source.differentiate address start stop w = .ok () w' ↔
      ∃ new after mid, Plan.differenced (w.plan.current p t) start stop w = .ok (new, after) mid ∧
        w' = { mid with plan := mid.plan.record p new (some after) } := by
  rw [differentiate_eq, edit_of_located located]
  simp only [bind_eq_ok, pure_eq_ok, update_eq_ok]
  constructor
  · rintro ⟨_, mid, ⟨⟨new, after⟩, _, differenced, rfl, rfl⟩, rfl⟩
    exact ⟨new, after, _, differenced, rfl⟩
  · rintro ⟨new, after, mid, differenced, rfl⟩
    exact ⟨(new, some after), mid, ⟨(new, after), mid, differenced, rfl, rfl⟩, rfl⟩

theorem differentiate_differenced {start' stop' : String} (follows : w.Follows start source log)
    (run : source.differentiate address start' stop' w = .ok () w') :
    ∃ t new sequence, source.term w.plan address = .ok t ∧ source.term w'.plan address = .ok new ∧
      w.plan.sequence = some sequence ∧ w'.session.Differenced sequence start' stop' t new := by
  obtain ⟨p, t, located⟩ := exists_locate (by rwa [← differentiate_eq])
  obtain ⟨new, after, mid, differenced, rfl⟩ := (differentiate_eq_ok located).1 run
  have prepared := (Plan.differenced_prepares _ start' stop').of_ok differenced
  have created := follows.created_current (initial?_of_locate located)
  obtain ⟨sequence, _, known, edited, -⟩ :=
    Plan.differenced_spec follows.sound follows.dated differenced
  refine ⟨_, new, sequence, term_of_located _ located, ?_, known,
    edited.differenced (Term.create_mono prepared.steps.extends created)⟩
  rw [term_of_located _ located, Plan.current_record, if_pos rfl]

/-- A form that is averaged at an address is a root form that occurs in the current term. -/
theorem average_averaged (reachable : Session.Reachable settings w.session)
    (follows : w.Follows start source log)
    (run : source.average address u keys w = .ok () w') :
    ∃ t new sequence, source.term w.plan address = .ok t ∧ source.term w'.plan address = .ok new ∧
      w.plan.sequence = some sequence ∧ w.session.Reads u .root ∧
      (w.session.occursIn t.value.f1 u = .ok true ∨ w.session.occursIn t.value.f2 u = .ok true) ∧
      Session.Averaged.{v, w} w'.session sequence u keys t new := by
  obtain ⟨p, t, located⟩ := exists_locate (by rwa [← average_eq])
  have left := reachable.leaves source (.average address u keys)
  rw [Call.perform, leaves_bind_pure, leaves_of_ok run] at left
  obtain ⟨new, mid, averaged, rfl⟩ := (average_eq_ok located).1 run
  have prepared := (Plan.averaged_prepares _ u keys).of_ok averaged
  have later := prepared.steps.extends
  have created := follows.created_current (initial?_of_locate located)
  obtain ⟨sequence, known, -⟩ :=
    Plan.averaged_spec follows.sound follows.dated created averaged
  obtain ⟨m, g1, g2, hasMean, first, second, sign, made⟩ :=
    Plan.averaged_hasMean follows.sound reachable.distinct follows.dated known created averaged
  have occurs := (Plan.averaged_cases averaged).2.1
  have root : w.session.Reads u .root := by
    obtain ⟨-, -, -, _, _, _, ⟨_, _, found, -⟩, ⟨_, _, found', -⟩, -⟩ := Term.create_spec created
    obtain ⟨form, stands⟩ : ∃ form, w.session.forms.get? u = some form := occurs.elim
      (Session.exists_form_of_contained found) (Session.exists_form_of_contained found')
    have reads : w.session.Reads u form.expr := ⟨form, stands, rfl⟩
    rwa [(later.reads reads).unique (hasMean.root left.sound)] at reads
  refine ⟨_, new, sequence, term_of_located _ located, ?_, known, root, occurs,
    hasMean.averaged left (Term.create_mono later created) first second sign made⟩
  rw [term_of_located _ located, Plan.current_record, if_pos rfl]

/-- Differencing and averaging mean what they say. After any calls, a difference that succeeds
puts the difference quotient of `u` over the interval in the place of its time derivative, and an
average that succeeds changes the value of a term, under every meaning of the forms of the session,
as if `u` had the mean of its values at the instants. An average of what is no root form, or does
not occur in the current term, fails and changes no current term. -/
theorem edits_valued (reachable : Session.Reachable settings s) (created : source.Created s)
    (calls : List (Call String)) :
    let w := Call.performAll source calls ⟨s, {}⟩
    (∀ address start stop w', source.differentiate address start stop w = .ok () w' →
      ∃ t new sequence, source.term w.plan address = .ok t ∧
        source.term w'.plan address = .ok new ∧ w.plan.sequence = some sequence ∧
        w'.session.Differenced sequence start stop t new) ∧
    (∀ address u keys w', source.average address u keys w = .ok () w' →
      ∃ t new sequence, source.term w.plan address = .ok t ∧
        source.term w'.plan address = .ok new ∧ w.plan.sequence = some sequence ∧
        Session.Averaged.{v, w} w'.session sequence u keys t new) ∧
    ∀ address u keys, (¬ w.session.Reads u .root ∨
        ∀ t, source.term w.plan address = .ok t →
          w.session.occursIn t.value.f1 u ≠ .ok true ∧
          w.session.occursIn t.value.f2 u ≠ .ok true) →
      ∃ failure w', source.average address u keys w = .error failure w' ∧
        ∀ other, source.term w'.plan other = source.term w.plan other := by
  intro w
  have follows : w.Follows s source (Call.log source calls ⟨s, {}⟩) :=
    (Workspace.Follows.initial reachable.sound created).performAll calls
  have reachable' : Session.Reachable settings w.session :=
    Session.Reachable.performAllCalls source calls reachable
  refine ⟨fun address start stop w' run => differentiate_differenced follows run,
    fun address u keys w' run => ?_, fun address u keys given => ?_⟩
  · obtain ⟨t, new, sequence, old, current, known, -, -, averaged⟩ :=
      average_averaged reachable' follows run
    exact ⟨t, new, sequence, old, current, known, averaged⟩
  · cases run : source.average address u keys w with
    | ok done w' =>
      obtain ⟨t, new, sequence, old, -, -, root, occurs, -⟩ :=
        average_averaged.{0, 0} reachable' follows run
      rcases given with unrooted | absent
      · exact absurd root unrooted
      · exact (occurs.elim (absent t old).1 (absent t old).2).elim
    | error failure w' =>
      have fails : (Call.average address u keys).perform source w = .error failure w' :=
        bind_of_error run
      exact ⟨failure, w', rfl, Call.term_of_error fails⟩

/-- On an interval, `∂t u` is differenced and `u` is averaged in the place of both factors of
`u ∧ u`, where one of two instants counts twice. What is not averaged is `∂t u`. -/
theorem edits_valued_interval :
    ∃ s t t', Session.Reachable {} s ∧ Term.create s .innerProduct ⟨2⟩ ⟨1⟩ = .ok t ∧
      Term.create s .innerProduct ⟨3⟩ ⟨1⟩ = .ok t' ∧
      let source := DiscretizationSource.formulation
        ⟨⟨0⟩, [⟨[⟨.plus, t⟩], [⟨.minus, t'⟩]⟩], [⟨1⟩], none⟩
      let w := Call.performAll source [.newSequence, .declare ["a", "b"]] ⟨s, {}⟩
      source.Created s ∧
        (∃ w' new, source.differentiate "0-0" "a" "b" w = .ok () w' ∧
          source.term w'.plan "0-0" = .ok new ∧
          w'.session.Differenced ⟨0⟩ "a" "b" ⟨.plus, t⟩ new) ∧
        (∃ w' new, source.average "0-1" ⟨0⟩ ["a", "b", "a"] w = .ok () w' ∧
          source.term w'.plan "0-1" = .ok new ∧ w'.session.occursIn new.value.f1 ⟨0⟩ = .ok false ∧
          ∃ evaluated, List.Forall₂ (w'.session.EvaluatedAt ⟨0⟩ ⟨0⟩) ["a", "b", "a"] evaluated ∧
            ∀ (m : w'.session.Meaning fun _ => ℚ)
              (pairing : TermKind → MeshId → (Σ _ : SpaceId, ℚ) → (Σ _ : SpaceId, ℚ) → ℚ)
              (ρ : LeafValues fun _ => ℚ), ∃ y, m.TermDenotes pairing ρ new y ∧
                m.TermDenotes pairing (ρ.update ⟨0⟩ (ρ.mean 3 evaluated)) ⟨.minus, t'⟩ y) ∧
        ∃ failure w', source.average "0-1" ⟨2⟩ ["a"] w = .error failure w' ∧
          source.term w'.plan "0-1" = .ok ⟨.minus, t'⟩ := by
  obtain ⟨s, reachable, livesV, livesRate, livesSquare, derived, outcome⟩ :
      ∃ s, Session.Reachable {} s ∧ s.Lives ⟨1⟩ ⟨0⟩ 0 ∧ s.Lives ⟨2⟩ ⟨0⟩ 0 ∧ s.Lives ⟨3⟩ ⟨0⟩ 0 ∧
        s.Reads ⟨2⟩ (.unary .timeDerivative ⟨0⟩) ∧
        (match Term.create s .innerProduct ⟨2⟩ ⟨1⟩, Term.create s .innerProduct ⟨3⟩ ⟨1⟩ with
          | .ok t, .ok t' =>
            let source := DiscretizationSource.formulation
              ⟨⟨0⟩, [⟨[⟨.plus, t⟩], [⟨.minus, t'⟩]⟩], [⟨1⟩], none⟩
            let w := Call.performAll source [.newSequence, .declare ["a", "b"]] ⟨s, {}⟩
            decide (w.plan.sequence = some ⟨0⟩) &&
              decide (source.term w.plan "0-0" = .ok ⟨.plus, t⟩) &&
              decide (source.term w.plan "0-1" = .ok ⟨.minus, t'⟩) &&
              (match source.differentiate "0-0" "a" "b" w with
                | .ok _ _ => true
                | .error _ _ => false) &&
              match source.average "0-1" ⟨0⟩ ["a", "b", "a"] w with
                | .ok _ _ => true
                | .error _ _ => false
          | _, _ => false) = true :=
    ⟨Request.performAll {} [.manifold 1, .mesh ⟨0⟩, .space ⟨0⟩ 0 .outer, .root ⟨0⟩ ⟨"u", "u"⟩,
      .root ⟨0⟩ ⟨"v", "v"⟩, .operator .timeDerivative ⟨0⟩, .combination .wedge ⟨0⟩ ⟨0⟩],
      .performAll {} _, by decide +kernel⟩
  obtain ⟨mesh, foundMesh⟩ := reachable.sound.exists_mesh livesV
  obtain ⟨t, created, -⟩ := Term.create_succeeds .innerProduct livesRate livesV foundMesh rfl
  obtain ⟨t', created', -⟩ := Term.create_succeeds .innerProduct livesSquare livesV foundMesh rfl
  obtain ⟨kind, first, second, -⟩ := Term.create_spec created
  obtain ⟨kind', first', second', -⟩ := Term.create_spec created'
  simp only [created, created', Bool.and_eq_true, decide_eq_true_eq] at outcome
  obtain ⟨⟨⟨⟨known, stands⟩, stands'⟩, differences⟩, averages⟩ := outcome
  have terms : (DiscretizationSource.formulation
      ⟨⟨0⟩, [⟨[⟨.plus, t⟩], [⟨.minus, t'⟩]⟩], [⟨1⟩], none⟩).Created s := by
    simpa [Created, equations, Equation.terms, kind, first, second, kind', first', second']
      using ⟨created, created'⟩
  obtain ⟨differenced, averaged, rejected⟩ :=
    edits_valued.{0, 0} reachable terms [.newSequence, .declare ["a", "b"]]
  refine ⟨s, t, t', reachable, created, created', terms, ?_, ?_, ?_⟩
  · split at differences
    · rename_i w' run
      obtain ⟨t₀, new, sequence, old, current, same, holds⟩ := differenced _ _ _ w' run
      cases stands.symm.trans old
      cases known.symm.trans same
      exact ⟨w', new, run, current, holds⟩
    · cases differences
  · split at averages
    · rename_i w' run
      obtain ⟨t₀, new, sequence, old, current, same, holds⟩ := averaged _ _ _ w' run
      cases stands'.symm.trans old
      cases known.symm.trans same
      obtain ⟨evaluated, count, evaluations, -, exact, values⟩ := holds.value
      obtain rfl : count = 3 := exact (by decide)
      refine ⟨w', new, run, current, holds.first, evaluated, evaluations, fun m pairing ρ => ?_⟩
      obtain ⟨y, before, after⟩ := values (fun _ => ℚ) ℚ m pairing ρ
      exact ⟨y, (before y).2 rfl, (after y).2 rfl⟩
    · cases averages
  · have follows := (Workspace.Follows.initial reachable.sound terms).performAll
      [.newSequence, .declare ["a", "b"]]
    have stays := follows.steps.extends.reads derived
    obtain ⟨failure, w', run, kept⟩ := rejected "0-1" ⟨2⟩ ["a"] (Or.inl fun root => by
      cases stays.unique root)
    exact ⟨failure, w', run, (kept "0-1").trans stands'⟩

end DiscretizationSource

end Calls

end Variational
