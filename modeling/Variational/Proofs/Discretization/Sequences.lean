import Variational.Proofs.Discretization.Stages
import Variational.Proofs.Divisors
import Variational.Proofs.LabelIndices
import Variational.Proofs.WeakForm.Obtained

/-!
# Time sequences of a discretization

The first edit of a discretization fixes its time sequence: no call exchanges it any more. What
edits bring into terms are evaluated forms and divisors, and they all come from that sequence,
since an interval is told by its duration and a mean divides by a number.
-/

namespace Variational

variable {settings : Settings} {s : Session}

/-! ## Evaluations and divisors in forms -/

/-- What edits bring into forms. -/
inductive Ingredient
  | evaluation (binding : TimeBinding)
  | divisor (c : ScalarId)
deriving DecidableEq, Repr

/-- What an expression is built with itself, besides its operands. -/
def FormExpr.ingredient? : FormExpr → Option Ingredient
  | .atInstant binding => some (.evaluation binding)
  | .quotient _ c => some (.divisor c)
  | _ => none

/-- A form is built with an ingredient somewhere. -/
inductive Session.Contains (s : Session) : FormId → Ingredient → Prop
  | own {f : FormId} {e : FormExpr} {x : Ingredient} (reads : s.Reads f e)
    (own : e.ingredient? = some x) : Contains s f x
  | operand {f g : FormId} {e : FormExpr} {x : Ingredient} (reads : s.Reads f e)
    (member : g ∈ e.operands) (below : Contains s g x) : Contains s f x

/-- One of the forms of a term is built with an ingredient. -/
def Term.Contains (s : Session) (t : Term) (x : Ingredient) : Prop :=
  s.Contains t.f1 x ∨ s.Contains t.f2 x

/-- An ingredient comes from a time sequence: it is an evaluation at one of its instants, the
duration of one of its intervals and of no other one, or a number. -/
def Ingredient.From (s : Session) (sequence : TimeSequenceId) : Ingredient → Prop
  | .evaluation binding =>
    binding.sequence = sequence ∧ ∃ key, s.InstantAt sequence key binding.instant
  | .divisor c =>
    ((s.ScalarHas c fun x => x.value.isSome = true) ∨
      ∃ id i, s.timeIntervals.get? id = some i ∧ i.duration = c) ∧
    ∀ id i, s.timeIntervals.get? id = some i → i.duration = c → i.sequence = sequence

namespace Session

variable {f g target new : FormId} {e : FormExpr} {x : Ingredient}

theorem Reads.contains_iff (reads : s.Reads f e) :
    s.Contains f x ↔ e.ingredient? = some x ∨ ∃ g ∈ e.operands, s.Contains g x := by
  constructor
  · rintro (⟨reads', own⟩ | ⟨reads', member, below⟩) <;> cases reads.unique reads'
    · exact Or.inl own
    · exact Or.inr ⟨_, member, below⟩
  · rintro (own | ⟨g, member, below⟩)
    · exact .own reads own
    · exact .operand reads member below

/-- What a form is built with after a substitution was there before, or is in the replacement. -/
theorem Contains.of_substituted (substituted : Form.Substituted s target new f g)
    (contains : s.Contains g x) : s.Contains f x ∨ s.Contains new x := by
  induction substituted with
  | here => exact Or.inr contains
  | absent => exact Or.inl contains
  | unary _ _ reads _ reads' ih =>
    obtain ⟨⟨⟩⟩ | ⟨h, member, below⟩ := reads'.contains_iff.1 contains
    cases List.mem_singleton.1 member
    exact (ih below).imp_left (.operand reads List.mem_cons_self)
  | binary _ _ reads _ _ reads' left right =>
    obtain ⟨⟨⟩⟩ | ⟨h, member, below⟩ := reads'.contains_iff.1 contains
    rcases List.mem_cons.1 member with rfl | member
    · exact (left below).imp_left (.operand reads List.mem_cons_self)
    · cases List.mem_singleton.1 member
      exact (right below).imp_left (.operand reads (List.mem_cons_of_mem _ List.mem_cons_self))
  | quotient _ _ reads _ reads' ih =>
    -- the quotient is rebuilt with the divisor that it has
    obtain own | ⟨h, member, below⟩ := reads'.contains_iff.1 contains
    · exact Or.inl (.own reads own)
    · cases List.mem_singleton.1 member
      exact (ih below).imp_left (.operand reads List.mem_cons_self)
  | scaled _ _ reads _ multiple ih =>
    cases multiple with
    | one => exact (ih contains).imp_left (.operand reads List.mem_cons_self)
    | scaled _ _ _ _ reads' =>
      obtain ⟨⟨⟩⟩ | ⟨h, member, below⟩ := reads'.contains_iff.1 contains
      cases List.mem_singleton.1 member
      exact (ih below).imp_left (.operand reads List.mem_cons_self)

/-! ## What edits bring in -/

variable {sequence : TimeSequenceId} {key : String} {i j : TimeInstantId} {c : ScalarId}

theorem EvaluatedAt.from_sequence (evaluated : s.EvaluatedAt sequence f key g)
    (contains : s.Contains g x) : x.From s sequence := by
  obtain ⟨i, known, reads⟩ := evaluated
  obtain ⟨⟨⟩⟩ | ⟨_, ⟨⟩, -⟩ := reads.contains_iff.1 contains
  exact ⟨rfl, key, known⟩

/-- An interval is told by its duration. -/
theorem Labelled.eq_of_duration (labelled : s.Labelled) {id id' : TimeIntervalId}
    {i i' : TimeInterval} (found : s.timeIntervals.get? id = some i)
    (found' : s.timeIntervals.get? id' = some i') (same : i.duration = i'.duration) : id = id' := by
  obtain ⟨_, _, _, -, -, -, -, -, -, -, named⟩ := labelled.named found
  obtain ⟨_, _, _, -, -, -, -, -, -, -, named'⟩ := labelled.named found'
  obtain ⟨c, labels, foundScalar, root, lin⟩ := (labelled.scalars.exact.byLin _ _).1 named
  obtain ⟨c', labels', foundScalar', root', lin'⟩ := (labelled.scalars.exact.byLin _ _).1 named'
  rw [same] at foundScalar
  cases foundScalar.symm.trans foundScalar'
  cases root.symm.trans root'
  have same := lin.symm.trans lin'
  exact labelled.timeIntervals.exact.eq_of_shared found found' rfl rfl (Or.inr same)

/-- The duration of an interval between instants of a sequence comes from the sequence. -/
theorem IntervalBetween.from_sequence (reachable : Reachable settings s)
    (interval : s.IntervalBetween i j c) (begins : s.InstantAt sequence key i) :
    (Ingredient.divisor c).From s sequence := by
  obtain ⟨id, t, found, rfl, rfl, rfl⟩ := interval
  refine ⟨Or.inr ⟨id, t, found, rfl⟩, fun id' t' found' same => ?_⟩
  cases reachable.labelled.eq_of_duration found' found same
  cases found.symm.trans found'
  obtain ⟨a, foundStart, rfl, -⟩ := begins
  obtain ⟨b, _, _, foundStart', -, same, -⟩ := reachable.labelled.named found
  cases foundStart.symm.trans foundStart'
  exact same.symm

/-- A number comes from every sequence. -/
theorem Reachable.from_of_number (reachable : Reachable settings s)
    (number : s.ScalarHas c fun x => x.value.isSome = true) (sequence : TimeSequenceId) :
    (Ingredient.divisor c).From s sequence := by
  refine ⟨Or.inl number, fun id t found same => ?_⟩
  obtain ⟨x, known, given⟩ := number
  obtain ⟨y, known', abstract⟩ := reachable.guarded.durations id t found
  rw [same] at known'
  cases known.symm.trans known'
  simp [abstract] at given

variable {fs : List FormId}

theorem Contains.of_sumOf {r : FormId} (sum : Form.SumOf s f fs r) (contains : s.Contains r x) :
    ∃ g ∈ f :: fs, s.Contains g x := by
  induction sum with
  | nil => exact ⟨_, List.mem_cons_self, contains⟩
  | cons added _ ih =>
    obtain ⟨h, member, below⟩ := ih contains
    rcases List.mem_cons.1 member with rfl | other
    · obtain ⟨⟨⟩⟩ | ⟨k, member, below⟩ := added.contains_iff.1 below
      rcases List.mem_cons.1 member with rfl | member
      · exact ⟨_, List.mem_cons_self, below⟩
      · cases List.mem_singleton.1 member
        exact ⟨_, List.mem_cons_of_mem _ List.mem_cons_self, below⟩
    · exact ⟨h, List.mem_cons_of_mem _ (List.mem_cons_of_mem _ other), below⟩

/-- The mean of forms is built with what they are built with, and with a number. -/
theorem Contains.of_meanOf {m : FormId} (mean : Form.MeanOf s fs m) (contains : s.Contains m x) :
    (∃ f ∈ fs, s.Contains f x) ∨
      ∃ c, x = .divisor c ∧ s.ScalarHas c fun x => x.value.isSome = true := by
  cases mean with
  | single => exact Or.inl ⟨_, List.mem_cons_self, contains⟩
  | several sum quotient =>
    obtain ⟨c, k, -, found, ⟨y, value, -⟩, reads⟩ := quotient
    obtain own | ⟨r, member, below⟩ := reads.contains_iff.1 contains
    · exact Or.inr ⟨c, (Option.some.inj own).symm, k, found, by simp [value]⟩
    · cases List.mem_singleton.1 member
      exact Or.inl (below.of_sumOf sum)

variable {e : Edit} {es : List Edit} {t t' : Signed Term}

/-- What an edited term is built with was in the term before, or comes from the sequence. -/
theorem Edited.contains_cases (reachable : Reachable settings s)
    (edited : s.Edited sequence e t t') (contains : t'.value.Contains s x) :
    t.value.Contains s x ∨ x.From s sequence := by
  cases edited with
  | difference _ _ begins _ interval before after difference divided created =>
    obtain ⟨-, first, second, -⟩ := Term.create_spec created
    rw [Term.Contains, first, second] at contains
    rcases contains with inQuotient | kept
    · right
      obtain ⟨⟨⟩⟩ | ⟨_, member, below⟩ := divided.contains_iff.1 inQuotient
      · exact interval.from_sequence reachable begins
      · cases List.mem_singleton.1 member
        obtain ⟨⟨⟩⟩ | ⟨_, member, below⟩ := difference.contains_iff.1 below
        rcases List.mem_cons.1 member with rfl | member
        · exact after.from_sequence below
        · cases List.mem_singleton.1 member
          exact before.from_sequence below
    · exact Or.inl (Or.inr kept)
  | @mean f m g1 g2 keys _ forms _ _ evaluations mean firstSlot secondSlot created =>
    have brought (inMean : s.Contains m x) : x.From s sequence := by
      obtain ⟨g, member, below⟩ | ⟨c, rfl, number⟩ := inMean.of_meanOf mean
      · obtain ⟨_, -, evaluated⟩ := exists_mem_of_forall₂ evaluations member
        exact evaluated.from_sequence below
      · exact reachable.from_of_number number sequence
    obtain ⟨-, first, second, -⟩ := Term.create_spec created
    rw [Term.Contains, first, second] at contains
    rcases contains with inFirst | inSecond
    · exact (inFirst.of_substituted firstSlot).imp Or.inl brought
    · exact (inSecond.of_substituted secondSlot).imp Or.inr brought

theorem Edits.contains_cases (reachable : Reachable settings s) (edits : s.Edits sequence es t t')
    (contains : t'.value.Contains s x) : t.value.Contains s x ∨ x.From s sequence := by
  induction edits with
  | nil => exact Or.inl contains
  | cons first _ ih =>
    rcases ih contains with before | brought
    · exact first.contains_cases reachable before
    · exact Or.inr brought

end Session

/-! ## The fixed sequence -/

section Fixed

open Discretize

variable {source : DiscretizationSource} {w w' : Workspace}

/-- A call after the first edit keeps the sequence. -/
theorem Call.Effect.sequence_eq {logged : List (Position × Edit)}
    (effect : Call.Effect source w w' logged) (modified : w.plan.stage = .modified) :
    w'.plan.stage = .modified ∧ w'.plan.sequence = w.plan.sequence := by
  cases effect with
  | prepared prepared => exact ⟨prepared.modified.2 modified, prepared.sequence⟩
  | sequence prepared set =>
    exact absurd (prepared.modified.2 modified) (Plan.setSequence_cases set).1
  | edited _ prepared => exact ⟨Plan.stage_record, Plan.sequence_record.trans prepared.sequence⟩

theorem Call.performAll_sequence_eq (calls : List (Call String))
    (modified : w.plan.stage = .modified) :
    (performAll source calls w).plan.sequence = w.plan.sequence := by
  induction calls generalizing w with
  | nil => rfl
  | cons call calls ih =>
    obtain ⟨stage, same⟩ := (call.effect source w).sequence_eq modified
    exact (ih stage).trans same

theorem DiscretizationSource.setSequence_of_modified (modified : w.plan.stage = .modified)
    (sequence : TimeSequenceId) :
    setSequence sequence w = .error (.rejected (.state .sequenceFixed)) w := by
  rw [setSequence_eq, Plan.setSequence, if_pos modified]
  rfl

theorem Call.setSequence_of_modified (modified : w.plan.stage = .modified)
    (sequence : TimeSequenceId) : (Call.setSequence sequence).perform source w =
      .error (.rejected (.state .sequenceFixed)) w :=
  bind_of_error (DiscretizationSource.setSequence_of_modified modified sequence)

/-- After the first edit a new sequence is not set, whether it is created or not. -/
theorem Call.newSequence_of_modified (modified : w.plan.stage = .modified) :
    Call.newSequence.perform source w = match TimeSequence.create w.session with
      | .ok _ s' => .error (.rejected (.state .sequenceFixed)) { w with session := s' }
      | .error failure s' => .error failure { w with session := s' } := by
  cases created : TimeSequence.create w.session with
  | ok sequence s' =>
    refine bind_of_error ((derive_bind_of_ok created).trans (bind_of_error ?_))
    exact DiscretizationSource.setSequence_of_modified (w := { w with session := s' }) modified _
  | error failure s' => exact bind_of_error (derive_bind_of_error created)

end Fixed

/-! ## New sequences -/

/-- With valid default labels a new sequence is always created. -/
theorem TimeSequence.create_succeeds
    (valid : s.settings.conventions.defaults.timeSequence.validate .timeSequence = .ok ()) :
    ∃ sequence s', create s = .ok sequence s' := by
  have valid' : (s.timeSequenceLabels.nextFree
      s.settings.conventions.defaults.timeSequence).validate .timeSequence = .ok () :=
    Labels.validate_numbered valid _
  rw [create, Derive.get_bind, createAs, Derive.lift_bind_of_ok valid', Derive.get_bind,
    Derive.lift_bind_of_ok (LabelIndex.checkAvailable_eq_ok.2
      (s.timeSequenceLabels.nextFree_available _))]
  exact ⟨_, _, rfl⟩

/-- A discretization never mixes time sequences. After any calls, a declared instant is that of
the current sequence at the key under which it is declared. After the first edit that succeeded,
no calls change the sequence, setting one is always rejected, and creating one is rejected after
it is created, or with the failure of creating it, which does not happen under valid default
labels. So the current terms are what the logged edits make of the initial terms with that
sequence, and every evaluated form and every divisor in them was there at the beginning or comes
from the sequence. -/
theorem DiscretizationSource.sequence_fixed (reachable : Session.Reachable settings s)
    {source : DiscretizationSource} (created : source.Created s) (calls : List (Call String)) :
    let last := Call.performAll source calls ⟨s, {}⟩
    let log := Call.log source calls ⟨s, {}⟩
    (∀ entry ∈ last.plan.instants, ∃ sequence, last.plan.sequence = some sequence ∧
      last.session.InstantAt sequence entry.1 entry.2) ∧
    (log ≠ [] → ∃ sequence, last.plan.sequence = some sequence ∧
      (∀ further, (Call.performAll source further last).plan.sequence = some sequence) ∧
      (∀ sequence', (Call.setSequence sequence').perform source last =
        .error (.rejected (.state .sequenceFixed)) last) ∧
      (Call.newSequence.perform source last = match TimeSequence.create last.session with
        | .ok _ s' => .error (.rejected (.state .sequenceFixed)) { last with session := s' }
        | .error failure s' => .error failure { last with session := s' }) ∧
      (settings.conventions.defaults.timeSequence.validate .timeSequence = .ok () →
        ∃ sequence' s', TimeSequence.create last.session = .ok sequence' s') ∧
      ∀ p t, source.initial? p = some t →
        last.session.Edits sequence (editsAt log p) t (last.plan.current p t) ∧
        ∀ x, (last.plan.current p t).value.Contains last.session x →
          t.value.Contains last.session x ∨ x.From last.session sequence) := by
  intro last log
  have follows : last.Follows s source log :=
    (Workspace.Follows.initial reachable.sound created).performAll calls
  have reachable' : Session.Reachable settings last.session :=
    Session.Reachable.performAllCalls source calls reachable
  refine ⟨follows.dated, fun edited => ?_⟩
  have modified := follows.modified edited
  obtain ⟨sequence, known, edits⟩ := follows.terms
  have same := known edited
  refine ⟨sequence, same, fun further => ?_, Call.setSequence_of_modified modified,
    Call.newSequence_of_modified modified, fun valid => ?_, fun p t found => ?_⟩
  · rw [Call.performAll_sequence_eq further modified, same]
  · refine TimeSequence.create_succeeds ?_
    rwa [reachable'.settings_eq]
  · exact ⟨edits p t found, fun x => (edits p t found).contains_cases reachable'⟩

/-- On an interval, a sequence is exchanged for another one before the first edit, and its
instants are declared again. Then a difference quotient is built with evaluations at instants of
the new sequence and with the duration of an interval of it. -/
theorem DiscretizationSource.sequence_fixed_difference :
    ∃ s t, Session.Reachable {} s ∧ Term.create s .innerProduct ⟨2⟩ ⟨1⟩ = .ok t ∧
      let source := DiscretizationSource.formulation ⟨⟨0⟩, [⟨[⟨.plus, t⟩], []⟩], [⟨1⟩], none⟩
      let calls : List (Call String) := [.newSequence, .declare ["k-1"], .newSequence,
        .declare ["k-1", "k"], .differentiate "0-0" "k-1" "k"]
      let last := Call.performAll source calls ⟨s, {}⟩
      source.Created s ∧ Call.log source calls ⟨s, {}⟩ = [(⟨0, 0⟩, .difference "k-1" "k")] ∧
        last.plan.sequence = some ⟨1⟩ ∧ last.plan.instants.length = 2 ∧
        (∀ entry ∈ last.plan.instants, last.session.InstantAt ⟨1⟩ entry.1 entry.2) ∧
        (Call.setSequence ⟨1⟩).perform source last =
          .error (.rejected (.state .sequenceFixed)) last ∧
        (∃ w', Call.newSequence.perform source last =
          .error (.rejected (.state .sequenceFixed)) w') ∧
        ∀ x, (last.plan.current ⟨0, 0⟩ ⟨.plus, t⟩).value.Contains last.session x →
          t.Contains last.session x ∨ x.From last.session ⟨1⟩ := by
  obtain ⟨s, reachable, livesV, livesRate, outcome⟩ :
      ∃ s, Session.Reachable {} s ∧ s.Lives ⟨1⟩ ⟨0⟩ 1 ∧ s.Lives ⟨2⟩ ⟨0⟩ 1 ∧
        (match Term.create s .innerProduct ⟨2⟩ ⟨1⟩ with
          | .ok t =>
            let source := DiscretizationSource.formulation ⟨⟨0⟩, [⟨[⟨.plus, t⟩], []⟩], [⟨1⟩], none⟩
            let calls : List (Call String) := [.newSequence, .declare ["k-1"], .newSequence,
              .declare ["k-1", "k"], .differentiate "0-0" "k-1" "k"]
            let last := Call.performAll source calls ⟨s, {}⟩
            decide (Call.log source calls ⟨s, {}⟩ = [(⟨0, 0⟩, .difference "k-1" "k")]) &&
              decide (last.plan.sequence = some ⟨1⟩ ∧ last.plan.instants.length = 2)
          | _ => false) = true :=
    ⟨Request.performAll {} [.manifold 1, .mesh ⟨0⟩, .space ⟨0⟩ 1 .outer, .root ⟨0⟩ ⟨"a", "a"⟩,
      .root ⟨0⟩ ⟨"v", "v"⟩, .operator .timeDerivative ⟨0⟩], .performAll {} _, by decide +kernel⟩
  obtain ⟨m, foundMesh⟩ := reachable.sound.exists_mesh livesV
  obtain ⟨t, created, -⟩ := Term.create_succeeds .innerProduct livesRate livesV foundMesh rfl
  obtain ⟨kind, first, second, -⟩ := Term.create_spec created
  simp only [created, Bool.and_eq_true, decide_eq_true_eq] at outcome
  obtain ⟨log, known, count⟩ := outcome
  have terms : (DiscretizationSource.formulation
      ⟨⟨0⟩, [⟨[⟨.plus, t⟩], []⟩], [⟨1⟩], none⟩).Created s := by
    simpa [Created, equations, Equation.terms, kind, first, second] using created
  obtain ⟨declared, fixed⟩ := DiscretizationSource.sequence_fixed reachable terms
    [.newSequence, .declare ["k-1"], .newSequence, .declare ["k-1", "k"],
      .differentiate "0-0" "k-1" "k"]
  obtain ⟨sequence, same, -, set, new, succeeds, current⟩ := fixed (by simp [log])
  cases known.symm.trans same
  refine ⟨s, t, reachable, created, terms, log, known, count, fun entry member => ?_, set ⟨1⟩, ?_,
    (current ⟨0, 0⟩ ⟨.plus, t⟩ rfl).2⟩
  · obtain ⟨sequence, same', instantAt⟩ := declared entry member
    cases known.symm.trans same'
    exact instantAt
  · obtain ⟨q, s', made⟩ := succeeds (by rfl)
    rw [made] at new
    exact ⟨_, new⟩

/-- Under settings with an empty default label of time sequences, an edit with a sequence that has
labels of its own is possible. After it, a new sequence is not rejected for the edit: it is
malformed. -/
theorem DiscretizationSource.newSequence_malformed :
    ∃ s t, Session.Reachable { conventions.defaults.timeSequence := ⟨"T", ""⟩ } s ∧
      Term.create s .innerProduct ⟨0⟩ ⟨1⟩ = .ok t ∧
      let source := DiscretizationSource.formulation ⟨⟨0⟩, [⟨[⟨.plus, t⟩], []⟩], [⟨1⟩], none⟩
      let calls : List (Call String) := [.setSequence ⟨0⟩, .average "0-0" ⟨0⟩ ["k"]]
      let last := Call.performAll source calls ⟨s, {}⟩
      Call.log source calls ⟨s, {}⟩ = [(⟨0, 0⟩, .mean ⟨0⟩ ["k"])] ∧
        ∃ w', Call.newSequence.perform source last =
          .error (.rejected (.malformed (.emptyLabel .timeSequence))) w' := by
  obtain ⟨s, reachable, livesU, livesV, outcome⟩ :
      ∃ s, Session.Reachable { conventions.defaults.timeSequence := ⟨"T", ""⟩ } s ∧
        s.Lives ⟨0⟩ ⟨0⟩ 1 ∧ s.Lives ⟨1⟩ ⟨0⟩ 1 ∧
        (match Term.create s .innerProduct ⟨0⟩ ⟨1⟩ with
          | .ok t =>
            let source := DiscretizationSource.formulation ⟨⟨0⟩, [⟨[⟨.plus, t⟩], []⟩], [⟨1⟩], none⟩
            let calls : List (Call String) := [.setSequence ⟨0⟩, .average "0-0" ⟨0⟩ ["k"]]
            decide (Call.log source calls ⟨s, {}⟩ = [(⟨0, 0⟩, .mean ⟨0⟩ ["k"])]) &&
              match Call.newSequence.perform source (Call.performAll source calls ⟨s, {}⟩) with
              | .error failure _ =>
                decide (failure = .rejected (.malformed (.emptyLabel .timeSequence)))
              | .ok _ _ => false
          | _ => false) = true :=
    ⟨Request.performAll { conventions.defaults.timeSequence := ⟨"T", ""⟩ }
      [.manifold 1, .mesh ⟨0⟩, .space ⟨0⟩ 1 .outer, .root ⟨0⟩ ⟨"u", "u"⟩, .root ⟨0⟩ ⟨"v", "v"⟩,
        .sequenceAs ⟨"Ts", "Ts"⟩], .performAll _ _, by decide +kernel⟩
  obtain ⟨m, foundMesh⟩ := reachable.sound.exists_mesh livesU
  obtain ⟨t, created, -⟩ := Term.create_succeeds .innerProduct livesU livesV foundMesh rfl
  simp only [created, Bool.and_eq_true, decide_eq_true_eq] at outcome
  obtain ⟨log, fails⟩ := outcome
  refine ⟨s, t, reachable, created, log, ?_⟩
  split at fails
  · rename_i failure w' run
    rw [decide_eq_true_eq] at fails
    exact ⟨w', fails ▸ run⟩
  · cases fails

end Variational
