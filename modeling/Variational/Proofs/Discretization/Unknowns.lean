import Variational.Proofs.ElementaryForms
import Variational.Proofs.WeakForm.Obtained

/-!
# Unknowns of a discretization

A term can be differenced once: the difference quotient that it gets is no time
derivative, and no form that occurs in it can be averaged, so every later edit keeps
it. The unknowns of the plan are thus the evaluations at the ends of all logged
differences (`Workspace.Tracks`), and they stay in their terms until the discretization
is finished.
-/

namespace Variational

variable {s s' : Session}

/-! ## What an edit keeps -/

namespace Session

variable {sequence : TimeSequenceId} {e : Edit} {es : List Edit} {t t' : Signed Term}
  {u q after : FormId} {start stop : String}

/-- A form is a difference quotient of a form at two instants, of which the last one is known. -/
def QuotientTo (s : Session) (sequence : TimeSequenceId) (u : FormId) (stop : String)
    (after q : FormId) : Prop :=
  ∃ start before change duration, s.EvaluatedAt sequence u start before ∧
    s.EvaluatedAt sequence u stop after ∧ s.Reads change (.binary .difference after before) ∧
    s.Reads q (.quotient change duration)

/-- The form at the end of a difference quotient is one of its elementary forms. -/
theorem QuotientTo.elementary (quotient : s.QuotientTo sequence u stop after q) :
    s.Elementary q after := by
  obtain ⟨_, before, change, _, -, ⟨i, -, leaf, foundLeaf, evaluated⟩,
    ⟨difference, foundDifference, reads⟩, ⟨form, found, reads'⟩⟩ := quotient
  refine (elementary_iff found).2 (Or.inr ⟨change, by simp [reads', FormExpr.operands], ?_⟩)
  refine (elementary_iff foundDifference).2
    (Or.inr ⟨after, by simp [reads, FormExpr.operands], ?_⟩)
  exact (elementary_iff foundLeaf).2 (Or.inl ⟨by simp [Form.isRoot, evaluated, FormExpr.isLeaf],
    rfl⟩)

/-- A root form that is not evaluated does not occur in a difference quotient of evaluations. -/
theorem QuotientTo.occursIn_eq (quotient : s.QuotientTo sequence u stop after q) {f : FormId}
    (root : s.Reads f .root) : s.occursIn q f = .ok false := by
  have distinct {h : FormId} {e : FormExpr} (reads : s.Reads h e) (derived : e ≠ .root) : h ≠ f := by
    rintro rfl
    exact derived (reads.unique root)
  obtain ⟨_, before, change, _, first, last, difference, divided⟩ := quotient
  refine divided.occursIn_eq_false (distinct divided (by simp)) fun x member => ?_
  cases List.mem_singleton.1 member
  refine difference.occursIn_eq_false (distinct difference (by simp)) fun x member => ?_
  rcases List.mem_cons.1 member with rfl | member
  · exact last.occursIn_eq root
  · cases List.mem_singleton.1 member
    exact first.occursIn_eq root

namespace Edited

/-- Differencing replaces a time derivative by a difference quotient. -/
theorem quotient_of_difference (edited : s.Edited sequence (.difference start stop) t t') :
    ∃ u after, s.Reads t.value.f1 (.unary .timeDerivative u) ∧
      s.QuotientTo sequence u stop after t'.value.f1 := by
  cases edited with
  | difference _ derivative _ _ _ before after difference divided created =>
    cases (Term.create_spec created).2.1
    exact ⟨_, _, derivative, _, _, _, _, before, after, difference, divided⟩

/-- An edit keeps a difference quotient. -/
theorem quotient_eq (sound : s.Sound) (edited : s.Edited sequence e t t')
    (quotient : s.QuotientTo sequence u stop after t.value.f1) : t'.value.f1 = t.value.f1 := by
  have root := fun f keys (same : e = .mean f keys) => root_of_mean sound (same ▸ edited)
  cases edited with
  | difference _ derivative =>
    obtain ⟨_, _, _, _, -, -, -, reads⟩ := quotient
    cases reads.unique derivative
  | mean _ _ _ first _ created =>
    rw [(Term.create_spec created).2.1]
    exact first.eq_of_absent (quotient.occursIn_eq (root _ _ rfl))

/-- An edit that ends in the time derivative of a root form is no difference and keeps it: a mean
is made of evaluated forms, and would occur in the derivative. -/
theorem derivative_eq (edited : s.Edited sequence e t t')
    (derivative : s.Reads t'.value.f1 (.unary .timeDerivative u)) (root : s.Reads u .root) :
    t'.value.f1 = t.value.f1 ∧ ∀ start stop, e ≠ .difference start stop := by
  cases edited with
  | difference _ _ _ _ _ _ _ _ divided created =>
    rw [(Term.create_spec created).2.1] at derivative
    cases divided.unique derivative
  | @mean f m g1 g2 _ _ _ _ _ evaluations mean first _ created =>
    rw [(Term.create_spec created).2.1] at derivative ⊢
    refine ⟨?_, by simp⟩
    have untested := untested_of_meanOf evaluations mean
    have absent : s.occursIn t.value.f1 f ≠ .ok true := by
      intro occurs
      have within := first.occursIn_replacement occurs
      -- the mean is neither the derivative nor the form under it
      have below {h : FormId} {e : FormExpr} (reads : s.Reads h e)
          (tested : e = .root ∨ e = .unary .timeDerivative u) : h ≠ m := by
        rintro rfl
        cases untested with
        | evaluated reads' | quotient reads' => cases reads.unique reads'; simp at tested
        | operator reads' transparent =>
          cases reads.unique reads'
          rcases transparent with rfl | rfl <;> simp at tested
      obtain ⟨form, found, expr⟩ := derivative
      obtain ⟨x, member, occurs'⟩ := ((occursIn_iff found).1 within).resolve_left
        (below ⟨form, found, expr⟩ (Or.inr rfl))
      rw [expr] at member
      cases List.mem_singleton.1 member
      obtain ⟨operand, found', expr'⟩ := root
      obtain ⟨y, member', -⟩ := ((occursIn_iff found').1 occurs').resolve_left
        (below ⟨operand, found', expr'⟩ (Or.inl rfl))
      rw [expr'] at member'
      cases member'
    cases first with
    | here => exact absurd occursIn_self absent
    | absent => rfl
    | unary _ occurs | binary _ occurs | quotient _ occurs | scaled _ occurs =>
      exact absurd occurs absent

end Edited

namespace Edits

theorem quotient_eq (sound : s.Sound) (edits : s.Edits sequence es t t')
    (quotient : s.QuotientTo sequence u stop after t.value.f1) : t'.value.f1 = t.value.f1 := by
  induction edits with
  | nil => rfl
  | cons first _ ih =>
    have same := first.quotient_eq sound quotient
    rw [ih (same ▸ quotient), same]

/-- A term with the time derivative of a root form had it from the beginning, and was never
differenced. -/
theorem derivative_eq (edits : s.Edits sequence es t t')
    (derivative : s.Reads t'.value.f1 (.unary .timeDerivative u)) (root : s.Reads u .root) :
    t'.value.f1 = t.value.f1 ∧ ∀ start stop, .difference start stop ∉ es := by
  induction edits with
  | nil => exact ⟨rfl, by simp⟩
  | @cons e _ t mid t' first _ ih =>
    obtain ⟨same, others⟩ := ih derivative
    obtain ⟨same', differs⟩ := first.derivative_eq (same ▸ derivative) root
    refine ⟨same.trans same', fun start stop member => ?_⟩
    rcases List.mem_cons.1 member with rfl | later
    · exact differs start stop rfl
    · exact others start stop later

/-- A term that was differenced had a time derivative, and keeps the difference quotient. -/
theorem quotient_of_difference (sound : s.Sound) (edits : s.Edits sequence es t t')
    (member : .difference start stop ∈ es) : ∃ u after,
      s.Reads t.value.f1 (.unary .timeDerivative u) ∧
      s.QuotientTo sequence u stop after t'.value.f1 := by
  induction edits with
  | nil => cases member
  | @cons e _ t mid t' first rest ih =>
    rcases List.mem_cons.1 member with rfl | later
    · obtain ⟨u, after, derivative, quotient⟩ := first.quotient_of_difference
      exact ⟨u, after, derivative, rest.quotient_eq sound quotient ▸ quotient⟩
    · obtain ⟨u, after, derivative, quotient⟩ := ih later
      obtain ⟨_, _, _, _, ⟨i, -, evaluated⟩, -⟩ := id quotient
      have same := (first.derivative_eq derivative (sound.root_of_evaluated evaluated)).1
      exact ⟨u, after, same ▸ derivative, quotient⟩

end Edits

end Session

/-! ## Lists by position -/

namespace Position

variable {p q r : Position}

theorem precedes_iff : p.precedes q = true ↔
    p.equation < q.equation ∨ p.equation = q.equation ∧ p.term < q.term := by
  simp [precedes]

theorem precedes_trans (first : p.precedes q = true) (second : q.precedes r = true) :
    p.precedes r = true := by
  rw [precedes_iff] at *
  omega

theorem precedes_of_not (differs : p ≠ q) (not : ¬ p.precedes q = true) : q.precedes p = true := by
  rw [precedes_iff] at *
  have : ¬ (p.equation = q.equation ∧ p.term = q.term) := fun same =>
    differs (Position.ext same.1 same.2)
  omega

end Position

namespace Plan

variable {p : Position} {f : FormId} {l : List (Position × FormId)}

/-- A form at a new position is one more entry. -/
theorem placeUnknown_perm (fresh : ∀ entry ∈ l, entry.1 ≠ p) :
    (placeUnknown p f l).Perm ((p, f) :: l) := by
  induction l with
  | nil => exact .refl _
  | cons entry rest ih =>
    rw [placeUnknown, if_neg (fresh entry List.mem_cons_self).symm]
    split
    · exact .refl _
    · exact ((ih fun x member => fresh x (List.mem_cons_of_mem _ member)).cons entry).trans
        (.swap _ _ _)

theorem pairwise_placeUnknown (ascending : l.Pairwise fun x y => x.1.precedes y.1 = true) :
    (placeUnknown p f l).Pairwise fun x y => x.1.precedes y.1 = true := by
  induction l with
  | nil => exact List.pairwise_singleton _ _
  | cons entry rest ih =>
    obtain ⟨below, later⟩ := List.pairwise_cons.1 ascending
    rw [placeUnknown]
    split
    · rename_i same
      exact List.pairwise_cons.2 ⟨fun x member => same ▸ below x member, later⟩
    · rename_i differs
      split
      · rename_i first
        refine List.pairwise_cons.2 ⟨fun x member => ?_, ascending⟩
        rcases List.mem_cons.1 member with rfl | member
        · exact first
        · exact Position.precedes_trans first (below x member)
      · rename_i notFirst
        refine List.pairwise_cons.2 ⟨fun x member => ?_, ih later⟩
        rcases mem_placeUnknown member with rfl | member
        · exact Position.precedes_of_not differs notFirst
        · exact below x member

variable {plan : Plan}

/-- The unknown forms are the recorded ones, each where it is recorded first. -/
theorem unknownForms_eq : plan.unknownForms = (plan.unknowns.map (·.2)).eraseDups := by
  rw [unknownForms]
  induction plan.unknowns using List.reverseRecOn with
  | nil => rfl
  | append_singleton entries entry ih =>
    rw [List.foldl_append, ih, List.map_append, List.eraseDups_append]
    by_cases known : entry.2 ∈ entries.map (·.2)
    · simp [known, List.removeAll]
    · simp [known, List.removeAll, List.eraseDups_cons]

theorem nodup_unknownForms : plan.unknownForms.Nodup := by
  rw [unknownForms]
  induction plan.unknowns using List.reverseRecOn with
  | nil => exact List.nodup_nil
  | append_singleton entries entry ih =>
    rw [List.foldl_append]
    simp only [List.foldl_cons, List.foldl_nil]
    split
    · exact ih
    · rename_i absent
      exact List.nodup_append.2 ⟨ih, List.nodup_singleton _, by
        rintro f member g latest rfl
        exact absent (List.mem_singleton.1 latest ▸ member)⟩

end Plan

/-! ## The unknowns of a log -/

/-- The positions of the logged differences, with the keys of their ends. -/
def differences (log : List (Position × Edit)) : List (Position × String) :=
  log.filterMap fun entry => match entry.2 with
    | .difference _ stop => some (entry.1, stop)
    | .mean _ _ => none

theorem differences_append (log log' : List (Position × Edit)) :
    differences (log ++ log') = differences log ++ differences log' :=
  List.filterMap_append

theorem mem_differences {log : List (Position × Edit)} {d : Position × String} :
    d ∈ differences log ↔ ∃ start, (d.1, .difference start d.2) ∈ log := by
  simp only [differences, List.mem_filterMap]
  constructor
  · rintro ⟨⟨p, e⟩, member, same⟩
    cases e with
    | difference start stop =>
      cases same
      exact ⟨start, member⟩
    | mean => cases same
  · rintro ⟨start, member⟩
    exact ⟨_, member, rfl⟩

/-- A difference at a position makes a form unknown: the term that stood there first is the time
derivative of a form, of which it is the evaluation at the end of the difference. -/
def Session.MakesUnknown (s : Session) (source : DiscretizationSource)
    (sequence : TimeSequenceId) (d : Position × String) (f : FormId) : Prop :=
  ∃ t u, source.initial? d.1 = some t ∧ s.Reads t.value.f1 (.unary .timeDerivative u) ∧
    s.EvaluatedAt sequence u d.2 f

theorem Session.Extends.makesUnknown {source : DiscretizationSource} {sequence : TimeSequenceId}
    {d : Position × String} {f : FormId} (later : s.Extends s')
    (makes : s.MakesUnknown source sequence d f) : s'.MakesUnknown source sequence d f := by
  obtain ⟨t, u, found, derivative, evaluated⟩ := makes
  exact ⟨t, u, found, later.reads derivative, later.evaluatedAt evaluated⟩

/-- The unknowns of a plan are those of the logged differences, in ascending order of their
positions, and one for every position. -/
structure Workspace.Tracks (w : Workspace) (source : DiscretizationSource)
    (log : List (Position × Edit)) : Prop where
  ascending : w.plan.unknowns.Pairwise fun x y => x.1.precedes y.1 = true
  recorded : ∃ sequence, (log ≠ [] → w.plan.sequence = some sequence) ∧
    ∃ sorted, sorted.Perm (differences log) ∧
      List.Forall₂ (fun d entry => entry.1 = d.1 ∧
        w.session.MakesUnknown source sequence d entry.2) sorted w.plan.unknowns

namespace Workspace.Tracks

variable {w w' : Workspace} {start : Session} {source : DiscretizationSource}
  {log : List (Position × Edit)}

theorem initial (s : Session) : Workspace.Tracks ⟨s, {}⟩ source [] :=
  ⟨.nil, ⟨0⟩, fun nonempty => absurd rfl nonempty, [], .nil, .nil⟩

theorem prepared (tracks : w.Tracks source log) (prepared : w.Prepared w') :
    w'.Tracks source log := by
  obtain ⟨ascending, sequence, known, sorted, same, each⟩ := tracks
  have later := prepared.steps.extends
  refine ⟨prepared.unknowns ▸ ascending, sequence,
    fun nonempty => prepared.sequence.trans (known nonempty), sorted, same, ?_⟩
  rw [prepared.unknowns]
  exact each.imp fun d entry makes => ⟨makes.1, later.makesUnknown makes.2⟩

/-- The sequence is set only as long as nothing is unknown. -/
theorem setSequence {plan : Plan} {sequence : TimeSequenceId} (tracks : w.Tracks source log)
    (follows : w.Follows start source log) (set : w.plan.setSequence sequence = .ok plan) :
    Workspace.Tracks { w with plan } source log := by
  obtain ⟨ascending, _, -, sorted, same, each⟩ := tracks
  obtain ⟨unmodified, instants, rfl⟩ := Plan.setSequence_cases set
  have empty : log = [] := by
    by_contra nonempty
    exact unmodified (follows.modified nonempty)
  subst empty
  cases List.Perm.eq_nil same
  have none := List.forall₂_nil_left_iff.1 each
  exact ⟨ascending, sequence, fun nonempty => absurd rfl nonempty, [], same,
    List.forall₂_nil_left_iff.2 none⟩

/-- The forms that are unknown are evaluated at instants of the sequence that is set. -/
theorem recorded_in (tracks : w.Tracks source log) {sequence : TimeSequenceId}
    (known : w.plan.sequence = some sequence) : ∃ sorted, sorted.Perm (differences log) ∧
      List.Forall₂ (fun d entry => entry.1 = d.1 ∧
        w.session.MakesUnknown source sequence d entry.2) sorted w.plan.unknowns := by
  obtain ⟨-, sequence', same', sorted, same, each⟩ := tracks
  by_cases empty : log = []
  · subst empty
    cases List.Perm.eq_nil same
    exact ⟨[], same, List.forall₂_nil_left_iff.2 (List.forall₂_nil_left_iff.1 each)⟩
  · cases known.symm.trans (same' empty)
    exact ⟨sorted, same, each⟩

/-- Averaging makes nothing unknown. -/
theorem record_mean {sequence : TimeSequenceId} {p : Position} {new : Signed Term} {f : FormId}
    {keys : List String} (tracks : w.Tracks source log) (known : w.plan.sequence = some sequence) :
    Workspace.Tracks { w with plan := w.plan.record p new none } source
      (log ++ [(p, .mean f keys)]) := by
  obtain ⟨sorted, same, each⟩ := tracks.recorded_in known
  refine ⟨tracks.ascending, sequence, fun _ => known, sorted, ?_, each⟩
  rwa [differences_append, show differences [(p, .mean f keys)] = [] from rfl, List.append_nil]

/-- A difference at a new position makes one more form unknown. -/
theorem record_difference {sequence : TimeSequenceId} {p : Position} {new : Signed Term}
    {first last : String} {after : FormId} (tracks : w.Tracks source log)
    (known : w.plan.sequence = some sequence)
    (fresh : ∀ first last, (p, .difference first last) ∉ log)
    (makes : w.session.MakesUnknown source sequence (p, last) after) :
    Workspace.Tracks { w with plan := w.plan.record p new (some after) } source
      (log ++ [(p, .difference first last)]) := by
  obtain ⟨sorted, same, each⟩ := tracks.recorded_in known
  have freshEntry : ∀ entry ∈ w.plan.unknowns, entry.1 ≠ p := by
    rintro entry member rfl
    obtain ⟨d, member', here, -⟩ := exists_mem_of_forall₂ each member
    obtain ⟨first, logged⟩ := mem_differences.1 (same.mem_iff.1 member')
    exact fresh first d.2 (here ▸ logged)
  have placed := Plan.placeUnknown_perm (f := after) freshEntry
  -- the sorted differences are permuted as the recorded forms are
  obtain ⟨sorted', each', same'⟩ := List.perm_comp_forall₂ placed
    (List.Forall₂.cons ⟨rfl, makes⟩ each : List.Forall₂ _ ((p, last) :: sorted) _).flip
  refine ⟨Plan.pairwise_placeUnknown tracks.ascending, sequence, fun _ => known, sorted', ?_,
    each'.flip⟩
  rw [differences_append, show differences [(p, .difference first last)] = [(p, last)] from rfl]
  exact (same'.trans (same.cons _)).trans (List.perm_append_singleton _ _).symm

/-- Every effect of a call keeps the invariant. -/
theorem effect {logged : List (Position × Edit)} (tracks : w.Tracks source log)
    (follows : w.Follows start source log) (effect : Call.Effect source w w' logged) :
    w'.Tracks source (log ++ logged) := by
  cases effect with
  | prepared prepared =>
    rw [List.append_nil]
    exact tracks.prepared prepared
  | sequence prepared set =>
    rw [List.append_nil]
    exact (tracks.prepared prepared).setSequence (follows.prepared prepared) set
  | @edited e p t new unknown w' found prepared run =>
    obtain ⟨_, -, edits⟩ := follows.terms
    have edits := edits p t found
    have created := edits.created (follows.created.of_initial? found)
    obtain ⟨sequence, known, -, unknowns⟩ :=
      Edit.prepare_spec follows.sound follows.dated created run
    have known := prepared.sequence.trans known
    cases e with
    | mean f keys =>
      cases unknowns
      exact (tracks.prepared prepared).record_mean known
    | difference first last =>
      obtain ⟨u, after, rfl, derivative, evaluated⟩ := unknowns
      obtain ⟨i, -, reads⟩ := id evaluated
      have root := (follows.prepared prepared).sound.root_of_evaluated reads
      obtain ⟨same, others⟩ := (edits.mono prepared.steps).derivative_eq derivative root
      exact (tracks.prepared prepared).record_difference known
        (fun first last logged => others first last (mem_editsAt.2 logged))
        ⟨t, u, found, same ▸ derivative, evaluated⟩

theorem performAll (tracks : w.Tracks source log) (follows : w.Follows start source log)
    (calls : List (Call String)) :
    (Call.performAll source calls w).Tracks source (log ++ Call.log source calls w) := by
  induction calls generalizing w log with
  | nil =>
    rw [Call.log, List.append_nil]
    exact tracks
  | cons call calls ih =>
    rw [Call.log, ← List.append_assoc]
    have effect := call.effect source w
    exact ih (tracks.effect follows effect) (follows.effect effect)

/-- Forms are unknown if there was a difference. -/
theorem unknownForms_eq_nil_iff (tracks : w.Tracks source log) :
    w.plan.unknownForms = [] ↔ ∀ p start stop, (p, .difference start stop) ∉ log := by
  obtain ⟨-, _, -, sorted, same, each⟩ := tracks
  have unknowns : w.plan.unknownForms = [] ↔ w.plan.unknowns = [] := by
    rw [Plan.unknownForms_eq, List.eq_nil_iff_forall_not_mem]
    simp only [List.mem_eraseDups]
    rw [← List.eq_nil_iff_forall_not_mem, List.map_eq_nil_iff]
  have lengths : w.plan.unknowns.length = (differences log).length :=
    each.length_eq.symm.trans same.length_eq
  rw [unknowns, ← List.length_eq_zero_iff, lengths, List.length_eq_zero_iff,
    List.eq_nil_iff_forall_not_mem]
  simp only [mem_differences, not_exists, Prod.forall]
  exact ⟨fun none p start stop => none p stop start, fun none p stop start => none p start stop⟩

/-- The differences stand at the positions of the recorded forms. -/
theorem pairwise_sorted (tracks : w.Tracks source log) {R : Position × String → FormId → Prop}
    {sorted : List (Position × String)} (each : List.Forall₂ (fun d entry =>
      entry.1 = d.1 ∧ R d entry.2) sorted w.plan.unknowns) :
    sorted.Pairwise fun x y => x.1.precedes y.1 = true := by
  have positions : sorted.map (·.1) = w.plan.unknowns.map (·.1) := by
    rw [← List.forall₂_eq_eq_eq, List.forall₂_map_left_iff, List.forall₂_map_right_iff]
    exact each.imp fun d entry makes => makes.1.symm
  have ascending : (w.plan.unknowns.map (·.1)).Pairwise fun p q => p.precedes q = true :=
    List.pairwise_map.2 tracks.ascending
  rw [← positions] at ascending
  exact List.pairwise_map.1 ascending

end Workspace.Tracks

/-! ## Finishing -/

/-- The current term at a position stands in the current equations. -/
theorem DiscretizationSource.mem_currentEquations {source : DiscretizationSource} {p : Position}
    {t : Signed Term} (plan : Plan) (found : source.initial? p = some t) :
    ∃ e ∈ source.currentEquations plan, plan.current p t ∈ e.terms := by
  obtain ⟨e, known, standing⟩ := initial?_eq_some.1 found
  have held := source.getElem?_currentEquations plan p.equation
  rw [known, Option.map_some] at held
  refine ⟨_, List.mem_of_getElem? held, List.mem_of_getElem? (i := p.term) ?_⟩
  exact (Equation.get?_mapPositions _).trans (by rw [standing]; rfl)

/-- A form that a logged difference made unknown stays in the term. -/
theorem Workspace.Follows.elementary_of_difference {w : Workspace} {start : Session}
    {source : DiscretizationSource} {log : List (Position × Edit)}
    (follows : w.Follows start source log) (distinct : w.session.Distinct)
    {sequence : TimeSequenceId} (known : w.plan.sequence = some sequence) {d : Position × String}
    {f : FormId} (logged : d ∈ differences log)
    (makes : w.session.MakesUnknown source sequence d f) :
    ∃ t, source.initial? d.1 = some t ∧
      w.session.Elementary (w.plan.current d.1 t).value.f1 f := by
  obtain ⟨t, u, found, derivative, evaluated⟩ := makes
  obtain ⟨first, member⟩ := mem_differences.1 logged
  obtain ⟨sequence', same, edits⟩ := follows.terms
  cases known.symm.trans (same (List.ne_nil_of_mem member))
  obtain ⟨u', after, derivative', quotient⟩ :=
    (edits d.1 t found).quotient_of_difference follows.sound (mem_editsAt.2 member)
  cases derivative.unique derivative'
  obtain ⟨_, _, _, _, -, evaluated', -⟩ := id quotient
  cases distinct.evaluatedAt_unique evaluated evaluated'
  exact ⟨t, found, quotient.elementary⟩

/-- The unknowns of a discretized formulation are real unknowns. For every run of calls on a
discretization of a well-formed formulation, or of the ordinary differential equation of one of
its equations, that can be finished: the unknowns are, in ascending order of the positions and
without repetition, the evaluations at the end instants of the logged differences, and there are
none if there was no difference. Each is a root form, bound to the form that was differentiated
and to an instant of the sequence of the discretization, and each is an elementary form of the
finished formulation, whatever edits followed. -/
theorem DiscretizationSource.finish_unknowns {settings : Settings} {s : Session}
    (reachable : Session.Reachable settings s) {w : WeakFormulation} (wellFormed : w.WellFormed s)
    {source : DiscretizationSource} (discretizes : source.Discretizes s w)
    (calls : List (Call String)) :
    let last := Call.performAll source calls ⟨s, {}⟩
    let log := Call.log source calls ⟨s, {}⟩
    ∀ w', finish last.session source last.plan = .ok w' →
      (w'.unknowns = none ↔ ∀ p start stop, (p, .difference start stop) ∉ log) ∧
      ∀ forms, w'.unknowns = some forms →
        ∃ sequence sorted evaluations, last.plan.sequence = some sequence ∧
          sorted.Perm (differences log) ∧ sorted.Pairwise (fun x y => x.1.precedes y.1 = true) ∧
          List.Forall₂ (last.session.MakesUnknown source sequence) sorted evaluations ∧
          forms = evaluations.eraseDups ∧ forms.Nodup ∧
          ∃ ids, w'.elementaryForms last.session = .ok ids ∧ ∀ f ∈ forms, f ∈ ids ∧
            ∃ form, last.session.forms.get? f = some form ∧ form.isRoot = true := by
  intro last log w' finished
  have initial := Workspace.Follows.initial reachable.sound (discretizes.created wellFormed)
  have follows : last.Follows s source log := initial.performAll calls
  have tracks : last.Tracks source log := (Workspace.Tracks.initial s).performAll initial calls
  have distinct := reachable.distinct.steps follows.steps
  obtain ⟨valid, roots⟩ := follows.finish_spec finished
  obtain ⟨-, equations, -, unknowns⟩ := finish_cases finished
  obtain ⟨sequence, known, sorted, same, each⟩ := tracks.recorded
  refine ⟨?_, fun forms declared => ?_⟩
  · rw [unknowns, ite_eq_left_iff]
    simp only [reduceCtorEq, imp_false, not_not, tracks.unknownForms_eq_nil_iff]
  · rw [unknowns] at declared
    split at declared
    · cases declared
    rename_i several
    cases declared
    have edited : log ≠ [] := by
      rintro empty
      exact several (tracks.unknownForms_eq_nil_iff.2 (by simp [empty]))
    have known := known edited
    obtain ⟨ids, run⟩ := WeakFormulation.elementaryForms_total valid.created
    refine ⟨sequence, sorted, last.plan.unknowns.map (·.2), known, same,
      tracks.pairwise_sorted each, ?_, Plan.unknownForms_eq, Plan.nodup_unknownForms, ids, run,
      fun f member => ⟨?_, roots _ (unknowns.trans (if_neg several)) f member⟩⟩
    · rw [List.forall₂_map_right_iff]
      exact each.imp fun d entry makes => makes.2
    · obtain ⟨entry, recorded, rfl⟩ := mem_unknownForms member
      obtain ⟨d, logged, -, makes⟩ := exists_mem_of_forall₂ each recorded
      obtain ⟨t, found, elementary⟩ :=
        follows.elementary_of_difference distinct known (same.mem_iff.1 logged) makes
      obtain ⟨e, held, standing⟩ := mem_currentEquations last.plan found
      exact (WeakFormulation.mem_elementaryForms run).2
        ⟨e, equations ▸ held, _, standing, Or.inl elementary⟩

/-- On an interval, `(∂t a, v) = -(a, v)` is discretized by a difference quotient, which is edited
no more, and a mean. The evaluation of `a` at the end is unknown. -/
theorem DiscretizationSource.finish_unknowns_difference :
    ∃ s t x, Session.Reachable {} s ∧ Term.create s .innerProduct ⟨2⟩ ⟨1⟩ = .ok t ∧
      Term.create s .innerProduct ⟨0⟩ ⟨1⟩ = .ok x ∧
      let w : WeakFormulation := ⟨⟨0⟩, [⟨[⟨.plus, t⟩], [⟨.minus, x⟩]⟩], [⟨1⟩], none⟩
      let calls : List (Call String) := [.newSequence, .declare ["k-1", "k"],
        .differentiate "0-0" "k-1" "k", .average "0-1" ⟨0⟩ ["k-1", "k"],
        .average "0-0" ⟨0⟩ ["k-1"], .differentiate "0-0" "k" "k-1"]
      let last := Call.performAll (.formulation w) calls ⟨s, {}⟩
      w.WellFormed s ∧ ∃ w' sequence after ids, finish last.session (.formulation w) last.plan =
          .ok w' ∧ w'.unknowns = some [after] ∧
        last.session.MakesUnknown (.formulation w) sequence (⟨0, 0⟩, "k") after ∧
        w'.elementaryForms last.session = .ok ids ∧ after ∈ ids := by
  obtain ⟨s, reachable, livesA, livesV, livesRate, readsV, outcome⟩ :
      ∃ s, Session.Reachable {} s ∧ s.Lives ⟨0⟩ ⟨0⟩ 1 ∧ s.Lives ⟨1⟩ ⟨0⟩ 1 ∧ s.Lives ⟨2⟩ ⟨0⟩ 1 ∧
        s.Reads ⟨1⟩ .root ∧
        (match Term.create s .innerProduct ⟨2⟩ ⟨1⟩, Term.create s .innerProduct ⟨0⟩ ⟨1⟩ with
          | .ok t, .ok x =>
            let source : DiscretizationSource :=
              .formulation ⟨⟨0⟩, [⟨[⟨.plus, t⟩], [⟨.minus, x⟩]⟩], [⟨1⟩], none⟩
            let calls : List (Call String) := [.newSequence, .declare ["k-1", "k"],
              .differentiate "0-0" "k-1" "k", .average "0-1" ⟨0⟩ ["k-1", "k"],
              .average "0-0" ⟨0⟩ ["k-1"], .differentiate "0-0" "k" "k-1"]
            let last := Call.performAll source calls ⟨s, {}⟩
            decide (Call.log source calls ⟨s, {}⟩ = [(⟨0, 0⟩, .difference "k-1" "k"),
              (⟨0, 1⟩, .mean ⟨0⟩ ["k-1", "k"])]) && (finish last.session source last.plan).isOk
          | _, _ => false) = true :=
    ⟨Request.performAll {} [.manifold 1, .mesh ⟨0⟩, .space ⟨0⟩ 1 .outer, .root ⟨0⟩ ⟨"a", "a"⟩,
      .root ⟨0⟩ ⟨"v", "v"⟩, .operator .timeDerivative ⟨0⟩], .performAll {} _, by decide +kernel⟩
  obtain ⟨m, foundMesh⟩ := reachable.sound.exists_mesh livesA
  obtain ⟨t, created, mesh⟩ := Term.create_succeeds .innerProduct livesRate livesV foundMesh rfl
  obtain ⟨x, created', mesh'⟩ := Term.create_succeeds .innerProduct livesA livesV foundMesh rfl
  obtain ⟨kind, first, second, -⟩ := Term.create_spec created
  obtain ⟨kind', first', second', -⟩ := Term.create_spec created'
  have tested : s.testedForm? ⟨1⟩ = .ok (some ⟨1⟩) :=
    Session.testedForm?_eq_ok_some.2 (.root readsV)
  simp only [created, created', Bool.and_eq_true, decide_eq_true_eq] at outcome
  have wellFormed :
      WeakFormulation.WellFormed ⟨⟨0⟩, [⟨[⟨.plus, t⟩], [⟨.minus, x⟩]⟩], [⟨1⟩], none⟩ s := by
    refine ⟨WeakFormulation.check_eq_ok.2 ⟨by simp, .cons ⟨Nat.two_pos, ⟨1, livesV⟩, ?_⟩ .nil⟩, ?_⟩
    · simpa [Equation.terms, second, second', WeakFormulation.TermFits] using
        ⟨⟨tested, Or.inl mesh⟩, tested, Or.inl mesh'⟩
    · simpa [Equation.terms, kind, first, second, kind', first', second'] using
        ⟨created, created'⟩
  refine ⟨s, t, x, reachable, created, created', wellFormed, ?_⟩
  obtain ⟨logged, finishes⟩ := outcome
  rw [Except.isOk, Except.toBool.eq_def] at finishes
  split at finishes
  on_goal 2 => cases finishes
  rename_i w' run
  have discretizes : (DiscretizationSource.formulation _).Discretizes s _ :=
    rfl (a := (⟨⟨0⟩, [⟨[⟨.plus, t⟩], [⟨.minus, x⟩]⟩], [⟨1⟩], none⟩ : WeakFormulation))
  obtain ⟨none, each⟩ := DiscretizationSource.finish_unknowns reachable wellFormed discretizes _
    w' run
  rw [logged] at none each
  cases unknowns : w'.unknowns with
  | none => exact absurd (none.1 unknowns ⟨0, 0⟩ "k-1" "k") (by simp)
  | some forms =>
    obtain ⟨sequence, sorted, evaluations, -, same, -, makes, rfl, -, ids, elementary, all⟩ :=
      each forms unknowns
    cases List.perm_singleton.1 same
    obtain ⟨after, _, unknown, none, rfl⟩ := List.forall₂_cons_left_iff.1 makes
    cases List.forall₂_nil_left_iff.1 none
    exact ⟨w', sequence, after, ids, run, unknowns, unknown, elementary,
      (all after (by simp [List.eraseDups_cons])).1⟩

end Variational
