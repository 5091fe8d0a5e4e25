import Variational.Proofs.Admissible.References
import Variational.Proofs.Answers
import Variational.Proofs.Discretization.Stages
import Variational.Proofs.Replacement

/-!
# Means that are there

Once a form has been averaged over keys, the requests of the average have the same answers in
every later session, and change nothing: the instants, the evaluations and the mean. So averaging
the form over these keys again is no more than replacing it by the mean, and this is rejected for
the degree of a space alone.
-/

namespace Variational

open Derive

variable {settings : Settings} {s s' : Session}

/-! ## Settled answers -/

namespace Derive.Settled

variable {α β : Type} {m : Derive α} {a : α}

theorem mono (settled : m.Settled a s) (steps : s.Steps s') : m.Settled a s' :=
  fun last later => settled last (steps.trans later)

theorem mapM {f : α → Derive β} (grows : ∀ a s, (f a).Grows s)
    (each : ∀ {s a b s'}, f a s = .ok b s' → (f a).Settled b s') {l : List α} {bs : List β}
    (run : l.mapM f s = .ok bs s') : (l.mapM f).Settled bs s' := by
  induction l generalizing s bs with
  | nil =>
    obtain ⟨rfl, -⟩ := pure_eq_ok.1 run
    exact fun _ _ => rfl
  | cons a l ih =>
    simp only [List.mapM_cons, bind_eq_ok, pure_eq_ok] at run
    obtain ⟨b, mid, first, bs, last, rest, rfl, rfl⟩ := run
    have steps := (Grows.mapM grows l mid).steps rest
    intro later following
    rw [List.mapM_cons, bind_of_ok ((each first).mono steps later following),
      bind_of_ok (ih rest later following)]
    rfl

end Derive.Settled

/-- An instant of the session is the answer again. -/
theorem TimeInstant.atKey_again (reachable : Session.Reachable settings s)
    {sequence : TimeSequenceId} {key : String} {i : TimeInstantId}
    (known : s.InstantAt sequence key i) : atKey sequence key s = .ok i s := by
  obtain ⟨x, found, rfl, rfl⟩ := known
  obtain ⟨t, foundSequence⟩ : ∃ t, s.timeSequences.get? x.sequence = some t := by
    have issued : s.Issued x := Session.issued_of_get? reachable.closed.timeInstants found
    exact Arena.exists_get? (Session.issued_id.1 issued)
  have fetched : s.timeSequence x.sequence = .ok t := Arena.fetch_eq_ok_iff.2 foundSequence
  have present : TimeInstant.known s x.sequence x.key = some i := by
    cases present : TimeInstant.known s x.sequence x.key with
    | none => exact absurd (Arena.find?_eq_none.1 present i x found) (by simp)
    | some j =>
      obtain ⟨y, foundOther, same⟩ := Arena.find?_eq_some present
      have together : y.sequence = x.sequence ∧ y.key = x.key := by simpa using same
      exact congrArg some (reachable.distinct.timeInstants j i y x foundOther found together)
  rw [atKey, get_bind, lift_bind_of_ok fetched, present]
  rfl

/-- A sum of the session is the answer again. -/
theorem Form.SumOf.foldlM_eq {f r : FormId} {others : List FormId} (sum : SumOf s f others r)
    (sound : s.Sound) (distinct : s.Distinct) : others.foldlM add f s = .ok r s := by
  induction sum with
  | nil => rfl
  | cons added _ ih =>
    have again : add _ _ s = .ok _ s := (combine_again sound distinct (by simp) added).1
    rw [List.foldlM_cons, bind_of_ok again, ih]

theorem Plan.mean_settled {first m : FormId} {others : List FormId}
    (run : mean first others s = .ok m s') (sound : s'.Sound) (distinct : s'.Distinct) :
    (mean first others).Settled m s' := by
  rw [mean, bind_eq_ok] at run
  obtain ⟨sum, mid, added, run⟩ := run
  have sums := Form.foldlM_add_spec added
  intro last later
  have sound' := sound.steps later
  have distinct' := distinct.steps later
  cases others with
  | nil =>
    obtain ⟨rfl, rfl⟩ := pure_eq_ok.1 run
    rw [mean, bind_of_ok ((sums.mono later.extends).foldlM_eq sound' distinct')]
    rfl
  | cons g others =>
    have divides := ((Form.divide_grows _ _).steps run).trans later
    have sums' := sums.mono (Session.Steps.extends divides)
    rw [mean, bind_of_ok (sums'.foldlM_eq sound' distinct')]
    exact (Form.divide_again run later sound' distinct').1

/-! ## Means -/

/-- The requests of an average are answered for a form and keys of a sequence, by a mean in the
space of the form. -/
structure Session.HasMean (s : Session) (sequence : TimeSequenceId) (u : FormId)
    (keys : List String) (m : FormId) : Prop where
  requests : ∃ instants first others, List.Forall₂ (s.InstantAt sequence) keys instants ∧
    (instants.mapM (Form.evaluateAt u)).Settled (first :: others) s ∧
    (Plan.mean first others).Settled m s
  isMean : ∃ evaluated, List.Forall₂ (s.EvaluatedAt sequence u) keys evaluated ∧
    Form.MeanOf s evaluated m
  beside : s.Beside u m

theorem Session.HasMean.mono {sequence : TimeSequenceId} {u m : FormId} {keys : List String}
    (hasMean : s.HasMean sequence u keys m) (steps : s.Steps s') :
    s'.HasMean sequence u keys m := by
  obtain ⟨⟨instants, first, others, known, evaluations, mean⟩, ⟨forms, evaluated, isMean⟩,
    beside⟩ := hasMean
  exact ⟨⟨instants, first, others, known.imp fun _ _ => steps.extends.instantAt,
    evaluations.mono steps, mean.mono steps⟩, ⟨forms, evaluated.imp fun _ _ =>
    steps.extends.evaluatedAt, isMean.mono steps⟩, beside.mono steps⟩

namespace Plan

open Discretize

variable {w w' : Workspace} {sequence : TimeSequenceId} {u m : FormId} {keys : List String}
  {term new : Signed Term}

/-- Averaging a form leaves its mean behind, by which the form is replaced. -/
theorem averaged_hasMean (sound : w.session.Sound) (distinct : w.session.Distinct)
    (dated : w.Dated) (known : w.plan.sequence = some sequence)
    (created : Term.create w.session term.value.kind term.value.f1 term.value.f2 = .ok term.value)
    (run : averaged term u keys w = .ok new w') :
    ∃ m g1 g2, w'.session.HasMean sequence u keys m ∧
      Form.Substituted w'.session u m term.value.f1 g1 ∧
      Form.Substituted w'.session u m term.value.f2 g2 ∧ new.sign = term.sign ∧
      Term.create w'.session term.value.kind g1 g2 = .ok new.value := by
  obtain ⟨-, -, run⟩ := averaged_cases run
  obtain ⟨instants, mid, first, others, m, x, s₁, s₂, s₃, declared, evaluated, averaged, replaced,
    rfl, rfl⟩ := replacedByMean_cases run
  obtain ⟨_, same, instantsAt⟩ := declare_spec dated declared
  cases known.symm.trans same
  have declares := ((declare_prepares keys).of_ok declared).steps
  have evaluates := (Derive.Grows.mapM (fun i _ => Form.evaluateAt_grows u i) _ _).steps evaluated
  have averages := (mean_grows first others).steps averaged
  have replaces := (Term.replace_grows _ _ _).steps replaced
  have before : w.session.Steps s₂ := (declares.trans evaluates).trans averages
  have evaluations := Form.mapM_evaluateAt_spec (sound.steps declares) instantsAt evaluated
  obtain ⟨_, _, firstReplaced, -⟩ := bind_eq_ok.1 replaced
  obtain ⟨sign, g1, g2, substituted, substituted', made⟩ :=
    Term.replace_spec (Term.create_mono before.extends created) replaced
  refine ⟨m, g1, g2, ⟨⟨instants, first, others, ?_, ?_, ?_⟩, ⟨first :: others, ?_, ?_⟩, ?_⟩,
    substituted, substituted', ?_, made⟩
  · have later : mid.session.Steps s₃ := (evaluates.trans averages).trans replaces
    exact instantsAt.imp fun _ _ => later.extends.instantAt
  · have settled : (instants.mapM (Form.evaluateAt u)).Settled (first :: others) s₁ :=
      .mapM (fun i _ => Form.evaluateAt_grows u i) Form.evaluateAt_settled evaluated
    exact settled.mono (averages.trans replaces)
  · exact (mean_settled averaged (sound.steps before) (distinct.steps before)).mono replaces
  · have later : s₁.Steps s₃ := averages.trans replaces
    exact evaluations.imp fun _ _ => later.extends.evaluatedAt
  · exact (mean_spec averaged).mono replaces
  · exact (Form.beside_of_replace firstReplaced).mono replaces
  · rw [sign, Sign.compose_plus]

/-! ## Declaring keys again -/

section Again

variable {plan : Plan} {instants : List TimeInstantId}

theorem declareKey_again (reachable : Session.Reachable settings s)
    (dated : Workspace.Dated ⟨s, plan⟩) (same : plan.sequence = some sequence) {key : String}
    {i : TimeInstantId} (known : s.InstantAt sequence key i) :
    ∃ plan', declareKey sequence key ⟨s, plan⟩ = .ok i ⟨s, plan'⟩ := by
  rw [declareKey, Discretize.get_bind]
  cases declared : plan.instant? key with
  | some j =>
    obtain ⟨_, same', known'⟩ := instant?_spec dated declared
    cases same.symm.trans same'
    cases reachable.distinct.instantAt_unique known known'
    exact ⟨plan, rfl⟩
  | none => exact ⟨_, derive_bind_of_ok (TimeInstant.atKey_again reachable known)⟩

theorem mapM_declareKey_again (reachable : Session.Reachable settings s)
    (dated : Workspace.Dated ⟨s, plan⟩) (same : plan.sequence = some sequence)
    (known : List.Forall₂ (s.InstantAt sequence) keys instants) :
    ∃ plan', keys.mapM (declareKey sequence) ⟨s, plan⟩ = .ok instants ⟨s, plan'⟩ := by
  induction known generalizing plan with
  | nil => exact ⟨plan, rfl⟩
  | @cons key i keys instants first _ ih =>
    obtain ⟨mid, run⟩ := declareKey_again reachable dated same first
    have prepared := (declareKey_prepares key same).of_ok run
    obtain ⟨last, rest⟩ := ih (prepared.dated dated) (prepared.sequence.trans same)
    refine ⟨last, ?_⟩
    rw [List.mapM_cons, Discretize.bind_of_ok run, Discretize.bind_of_ok rest]
    rfl

/-- Declaring keys of instants that are there gives these instants and changes the plan alone. -/
theorem declare_again (reachable : Session.Reachable settings s)
    (dated : Workspace.Dated ⟨s, plan⟩) (same : plan.sequence = some sequence)
    (known : List.Forall₂ (s.InstantAt sequence) keys instants) :
    ∃ plan', declare keys ⟨s, plan⟩ = .ok instants ⟨s, plan'⟩ := by
  obtain ⟨mid, each⟩ := mapM_declareKey_again reachable dated same known
  refine ⟨mid.announce, ?_⟩
  rw [declare, Discretize.get_bind, same]
  exact Discretize.bind_of_ok each

end Again

end Plan

/-! ## Steps up to degrees -/

namespace Discretize

variable {α β : Type} {w : Workspace} {m m' : Discretize α} {plan : Plan}
  {Q : α → Workspace → Prop} {R : β → Workspace → Prop}

/-- A step as a derivation of its result and of the plan that it leaves. -/
def tracked (m : Discretize α) (plan : Plan) : Derive (α × Plan) := fun s =>
  match m ⟨s, plan⟩ with
  | .ok a w => .ok (a, w.plan) w.session
  | .error failure w => .error failure w.session

/-- A step has a result, or it is rejected for the degree of a space and the finite spaces do not
share one. -/
def Yields (m : Discretize α) (w : Workspace) (Q : α → Workspace → Prop) : Prop :=
  (m.tracked w.plan).Yields w.session fun r s => Q r.1 ⟨s, r.2⟩

theorem tracked_bind (m : Discretize α) (f : α → Discretize β) (plan : Plan) :
    (m >>= f).tracked plan = m.tracked plan >>= fun r => (f r.1).tracked r.2 := by
  funext s
  simp only [tracked, Bind.bind, EStateM.bind]
  cases m ⟨s, plan⟩ <;> rfl

theorem tracked_derive (m : Derive α) (plan : Plan) :
    (liftM m : Discretize α).tracked plan = m >>= fun a => pure (a, plan) := by
  funext s
  simp only [tracked, liftM, monadLift, MonadLift.monadLift, Bind.bind, EStateM.bind]
  cases m s <;> rfl

theorem onSession_eq_ok {s s' : Session} {a : α} :
    m.onSession plan s = .ok a s' ↔ ∃ plan', m ⟨s, plan⟩ = .ok a ⟨s', plan'⟩ := by
  rw [onSession]
  cases m ⟨s, plan⟩ with
  | ok b w =>
    simp only [EStateM.Result.ok.injEq]
    constructor
    · rintro ⟨rfl, rfl⟩
      exact ⟨w.plan, rfl, rfl⟩
    · rintro ⟨_, rfl, rfl⟩
      exact ⟨rfl, rfl⟩
  | error failure w => simp

theorem onSession_eq (m : Discretize α) (plan : Plan) :
    m.onSession plan = m.tracked plan >>= fun r => pure r.1 := by
  funext s
  simp only [tracked, onSession, Bind.bind, EStateM.bind]
  cases m ⟨s, plan⟩ <;> rfl

namespace Yields

theorem congr (same : m w = m' w) (yields : m'.Yields w Q) : m.Yields w Q := by
  have tracks : m.tracked w.plan w.session = m'.tracked w.plan w.session := by
    rw [tracked, same]
    rfl
  exact Derive.Yields.congr tracks yields

theorem imp {P : α → Workspace → Prop} (yields : m.Yields w Q)
    (imp : ∀ {a w'}, Q a w' → P a w') : m.Yields w P :=
  Derive.Yields.imp yields fun _ holds => imp holds

/-- The result is that of a run. -/
theorem runs (yields : m.Yields w Q) : m.Yields w fun a w' => Q a w' ∧ m w = .ok a w' := by
  refine (Derive.Yields.runs yields).imp fun _ ⟨holds, run⟩ => ⟨holds, ?_⟩
  rw [tracked] at run
  split at run
  · cases run
    assumption
  · cases run

/-- A step that is known to have a result without changing the session. -/
theorem of_ok {a : α} (run : m w = .ok a { w with plan }) (holds : Q a { w with plan }) :
    m.Yields w Q :=
  Derive.Yields.of_ok (a := (a, plan)) (by rw [tracked, run]) holds

theorem lift {o : Outcome α} {a : α} (success : o = .ok a) (holds : Q a w) :
    (liftM o : Discretize α).Yields w Q :=
  .of_ok (Discretize.lift_eq_ok.2 ⟨success, rfl⟩) holds

theorem derive {m : Derive α} {Q : α → Session → Prop} (yields : m.Yields w.session Q) :
    (liftM m : Discretize α).Yields w fun a w' => w'.plan = w.plan ∧ Q a w'.session := by
  rw [Yields, tracked_derive]
  exact yields.bind fun _ _ _ holds => .pure ⟨rfl, holds⟩

theorem bind {f : α → Discretize β} (first : m.Yields w Q)
    (rest : ∀ a w', w.session.Steps w'.session → Q a w' → (f a).Yields w' R) :
    (m >>= f).Yields w R := by
  rw [Yields, tracked_bind]
  exact Derive.Yields.bind first fun r s' steps holds => rest r.1 ⟨s', r.2⟩ steps holds

theorem get_bind {f : Workspace → Discretize β} (rest : (f w).Yields w R) :
    (MonadStateOf.get >>= f : Discretize β).Yields w R :=
  .congr Discretize.get_bind rest

theorem onSession {s : Session} (yields : m.Yields ⟨s, plan⟩ Q) :
    (m.onSession plan).Yields s fun a s' => ∃ plan', Q a ⟨s', plan'⟩ := by
  rw [onSession_eq]
  exact Derive.Yields.bind yields fun r _ _ holds => .pure ⟨r.2, holds⟩

end Yields

end Discretize

/-! ## Averaging again -/

theorem Session.HasMean.keys_ne_nil {sequence : TimeSequenceId} {u m : FormId}
    {keys : List String} (hasMean : s.HasMean sequence u keys m) : keys ≠ [] := by
  rintro rfl
  obtain ⟨evaluated, evaluations, mean⟩ := hasMean.isMean
  cases evaluations
  cases mean

open Discretize in
/-- Averaging over keys with a mean is rejected for degrees alone. -/
theorem Plan.averaged_yields {w : Workspace} {sequence : TimeSequenceId} {u m : FormId}
    {keys : List String} {term : Signed Term} (reachable : Session.Reachable settings w.session)
    (dated : w.Dated) (same : w.plan.sequence = some sequence)
    (hasMean : w.session.HasMean sequence u keys m)
    (created : Term.create w.session term.value.kind term.value.f1 term.value.f2 = .ok term.value)
    (occurs : w.session.occursIn term.value.f1 u = .ok true) :
    (averaged term u keys).Yields w fun _ _ => True := by
  obtain ⟨instants, first, others, known, evaluations, mean⟩ := hasMean.requests
  obtain ⟨plan, declared⟩ := declare_again reachable dated same known
  have replaces : averaged term u keys w = replacedByMean term u keys w := by
    rw [averaged, if_neg hasMean.keys_ne_nil]
    refine (Discretize.bind_of_ok (get_eq_ok.2 ⟨rfl, rfl⟩)).trans ?_
    exact Discretize.bind_of_ok (Discretize.lift_eq_ok.2 ⟨occurs, rfl⟩)
  have evaluated := evaluations w.session .refl
  have averaged := mean w.session .refl
  have replaced := Term.replace_yields reachable.sound created hasMean.beside
  refine .congr replaces (Yields.bind (Q := fun a w' => a = instants ∧ w'.session = w.session)
    (.of_ok declared ⟨rfl, rfl⟩) ?_)
  rintro _ ⟨_, plan'⟩ - ⟨rfl, rfl⟩
  refine .bind (.derive (Derive.Yields.of_ok (Q := fun a s => a = first :: others ∧ s = w.session)
    evaluated ⟨rfl, rfl⟩)) ?_
  rintro _ ⟨_, _⟩ - ⟨-, rfl, rfl⟩
  refine .bind (.derive (Derive.Yields.of_ok (Q := fun a s => a = m ∧ s = w.session)
    averaged ⟨rfl, rfl⟩)) ?_
  rintro _ ⟨_, _⟩ - ⟨-, rfl, rfl⟩
  exact .bind (.derive replaced) fun _ _ _ _ => .of_ok rfl trivial

end Variational
