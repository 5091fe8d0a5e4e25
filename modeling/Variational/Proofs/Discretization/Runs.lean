import Variational.Proofs.Discretization.Calls

/-!
# Runs of a discretization

After any calls, the current term at a position is what the logged edits at that
position make of the term that the discretization started from: `Follows` is the
invariant, kept by every call, whether it succeeds or fails. So a discretization can be
finished if and only if no logged edit averaged a test form.
-/

namespace Variational

/-! ## Recorded edits -/

namespace Plan

variable {plan : Plan} {p q : Position} {new initial : Signed Term} {unknown : Option FormId}

theorem stage_record : (plan.record p new unknown).stage = .modified := by
  cases unknown <;> rfl

theorem sequence_record : (plan.record p new unknown).sequence = plan.sequence := by
  cases unknown <;> rfl

theorem instants_record : (plan.record p new unknown).instants = plan.instants := by
  cases unknown <;> rfl

theorem current_record : (plan.record p new unknown).current q initial =
    if p = q then new else plan.current q initial := by
  by_cases same : p = q <;> cases unknown <;> simp [current, record, addUnknown, edit, same]

theorem mem_placeUnknown {f : FormId} {l : List (Position × FormId)} {entry : Position × FormId}
    (member : entry ∈ placeUnknown p f l) : entry = (p, f) ∨ entry ∈ l := by
  induction l with
  | nil => exact Or.inl (List.mem_singleton.1 member)
  | cons first rest ih =>
    rw [placeUnknown] at member
    split at member
    · rcases List.mem_cons.1 member with here | later
      · exact Or.inl here
      · exact Or.inr (List.mem_cons_of_mem _ later)
    · split at member
      · exact (List.mem_cons.1 member)
      · rcases List.mem_cons.1 member with here | later
        · exact Or.inr (here ▸ List.mem_cons_self)
        · exact (ih later).imp_right (List.mem_cons_of_mem _)

theorem mem_unknowns_record {entry : Position × FormId}
    (member : entry ∈ (plan.record p new unknown).unknowns) :
    entry ∈ plan.unknowns ∨ entry.2 ∈ unknown := by
  cases unknown with
  | none => exact Or.inl member
  | some f =>
    rcases mem_placeUnknown member with rfl | old
    · exact Or.inr rfl
    · exact Or.inl old

end Plan

/-! ## Setting the sequence -/

/-- A sequence is set unless terms were edited. The stage is read off the instants. -/
theorem Plan.setSequence_cases {plan plan' : Plan} {sequence : TimeSequenceId}
    (set : plan.setSequence sequence = .ok plan') :
    plan.stage ≠ .modified ∧ ∃ instants, plan' = { plan with
      instants := instants
      sequence := some sequence
      stage := if instants = [] then .sequenceSet else .instantsDeclared } := by
  rw [setSequence] at set
  split at set
  · simp at set
  · rename_i unmodified
    exact ⟨unmodified, _, (Except.ok.inj set).symm⟩

/-! ## The invariant -/

/-- A sequence that is set again keeps its instants, and another one has none yet. -/
theorem Workspace.Dated.setSequence {w : Workspace} {plan : Plan} {sequence : TimeSequenceId}
    (dated : w.Dated) (set : w.plan.setSequence sequence = .ok plan) :
    Workspace.Dated { w with plan } := by
  rw [Plan.setSequence] at set
  split at set
  · simp at set
  · cases set
    intro entry member
    dsimp only at member ⊢
    split at member
    · rename_i same
      obtain ⟨sequence', same', known⟩ := dated entry member
      cases same.symm.trans same'
      exact ⟨sequence, rfl, known⟩
    · cases member

/-- A discretization that started from a session follows a log: the current terms are what the
logged edits make of the initial terms. -/
structure Workspace.Follows (w : Workspace) (start : Session) (source : DiscretizationSource)
    (log : List (Position × Edit)) : Prop where
  steps : start.Steps w.session
  sound : w.session.Sound
  created : source.Created w.session
  dated : w.Dated
  /-- After the first edit the sequence is fixed. -/
  modified : log ≠ [] → w.plan.stage = .modified
  located : ∀ entry ∈ log, ∃ t, source.initial? entry.1 = some t
  terms : ∃ sequence, (log ≠ [] → w.plan.sequence = some sequence) ∧
    ∀ p t, source.initial? p = some t →
      w.session.Edits sequence (editsAt log p) t (w.plan.current p t)
  /-- What became unknown is a root form at an instant. -/
  unknowns : ∀ entry ∈ w.plan.unknowns, ∃ binding, w.session.Reads entry.2 (.atInstant binding)

namespace Workspace.Follows

variable {w w' : Workspace} {start : Session} {source : DiscretizationSource}
  {log : List (Position × Edit)}

/-- A discretization without edits follows the empty log. -/
theorem initial {s : Session} (sound : s.Sound) (created : source.Created s) :
    Workspace.Follows ⟨s, {}⟩ s source [] where
  steps := .refl
  sound := sound
  created := created
  dated _ member := by cases member
  modified nonempty := absurd rfl nonempty
  located _ member := by cases member
  terms := ⟨⟨0⟩, fun nonempty => absurd rfl nonempty, fun _ _ _ => .nil⟩
  unknowns _ member := by cases member

theorem prepared (follows : w.Follows start source log) (prepared : w.Prepared w') :
    w'.Follows start source log where
  steps := follows.steps.trans prepared.steps
  sound := follows.sound.steps prepared.steps
  created e member t term :=
    Term.create_mono prepared.steps.extends (follows.created e member t term)
  dated := prepared.dated follows.dated
  modified nonempty := prepared.modified.2 (follows.modified nonempty)
  located := follows.located
  terms := by
    obtain ⟨sequence, same, edits⟩ := follows.terms
    refine ⟨sequence, fun nonempty => prepared.sequence.trans (same nonempty), fun p t found => ?_⟩
    have edits := (edits p t found).mono prepared.steps
    rwa [Plan.current, prepared.edits]
  unknowns entry member := by
    obtain ⟨binding, reads⟩ := follows.unknowns entry (prepared.unknowns ▸ member)
    exact ⟨binding, prepared.steps.extends.reads reads⟩

/-- A current term is a term of the session. -/
theorem created_current {p : Position} {t : Signed Term} (follows : w.Follows start source log)
    (found : source.initial? p = some t) :
    Term.create w.session (w.plan.current p t).value.kind (w.plan.current p t).value.f1
      (w.plan.current p t).value.f2 = .ok (w.plan.current p t).value := by
  obtain ⟨_, -, edits⟩ := follows.terms
  exact (edits p t found).created (follows.created.of_initial? found)

/-- Setting the sequence is rejected after the first edit, so it meets no edit. -/
theorem setSequence {plan : Plan} {sequence : TimeSequenceId} (follows : w.Follows start source log)
    (set : w.plan.setSequence sequence = .ok plan) :
    Workspace.Follows { w with plan } start source log := by
  have dated := follows.dated.setSequence set
  obtain ⟨unmodified, instants, rfl⟩ := Plan.setSequence_cases set
  have empty : log = [] := by
    by_contra nonempty
    exact unmodified (follows.modified nonempty)
  subst empty
  obtain ⟨sequence, -, edits⟩ := follows.terms
  exact ⟨follows.steps, follows.sound, follows.created, dated, fun nonempty =>
    absurd rfl nonempty, follows.located, ⟨sequence, fun nonempty => absurd rfl nonempty, edits⟩,
    follows.unknowns⟩

/-- An edit of the current term at a position is logged there. -/
theorem record {sequence : TimeSequenceId} {p : Position} {e : Edit} {t new : Signed Term}
    {unknown : Option FormId} (follows : w.Follows start source log)
    (prepared : w.Prepared w') (found : source.initial? p = some t)
    (known : w.plan.sequence = some sequence)
    (edited : w'.session.Edited sequence e (w.plan.current p t) new)
    (evaluated : ∀ f ∈ unknown, ∃ binding, w'.session.Reads f (.atInstant binding)) :
    Workspace.Follows { w' with plan := w'.plan.record p new unknown } start source
      (log ++ [(p, e)]) := by
  have later := follows.prepared prepared
  refine ⟨later.steps, later.sound, later.created, fun entry member => ?_,
    fun _ => Plan.stage_record, fun entry member => ?_,
    ⟨sequence, fun _ => ?_, fun q u found' => ?_⟩, fun entry member => ?_⟩
  · rw [Plan.instants_record] at member
    rw [Plan.sequence_record]
    exact later.dated entry member
  · rcases List.mem_append.1 member with old | latest
    · exact follows.located entry old
    · exact ⟨t, List.mem_singleton.1 latest ▸ found⟩
  · rw [Plan.sequence_record]
    exact prepared.sequence.trans known
  · have earlier : w'.session.Edits sequence (editsAt log q) u (w.plan.current q u) := by
      obtain ⟨sequence', same, edits⟩ := follows.terms
      by_cases empty : log = []
      · -- without edits the sequence may have been exchanged, but there is nothing to keep
        subst empty
        rw [(edits q u found').eq_of_nil]
        exact .nil
      · cases known.symm.trans (same empty)
        exact (edits q u found').mono prepared.steps
    have untouched : w'.plan.current q u = w.plan.current q u := by
      rw [Plan.current, Plan.current, prepared.edits]
    rw [editsAt_append, editsAt_singleton]
    dsimp only
    rw [Plan.current_record, untouched]
    by_cases here : p = q
    · subst here
      cases found.symm.trans found'
      rw [if_pos rfl, if_pos rfl]
      exact earlier.snoc edited
    · rw [if_neg here, if_neg here, List.append_nil]
      exact earlier
  · rcases Plan.mem_unknowns_record member with old | latest
    · exact later.unknowns entry old
    · exact evaluated _ latest

end Workspace.Follows

/-! ## Calls keep the invariant -/

section Calls

open Discretize

variable {w : Workspace} {start : Session} {source : DiscretizationSource}
  {log : List (Position × Edit)}

/-- A call either succeeds and is logged, or it fails and is not. -/
theorem Call.leaves_cases (call : Call String) (source : DiscretizationSource) (w : Workspace) :
    (∃ a w', call.perform source w = .ok a w' ∧ (call.perform source).leaves w = w' ∧
      call.logged source w = (call.edit? source).toList) ∨
    ∃ failure w', call.perform source w = .error failure w' ∧
      (call.perform source).leaves w = w' ∧ call.logged source w = [] := by
  rw [leaves, logged]
  cases call.perform source w with
  | ok a w' => exact Or.inl ⟨a, w', rfl, rfl, rfl⟩
  | error failure w' => exact Or.inr ⟨failure, w', rfl, rfl, rfl⟩

theorem Call.logged_eq_nil {call : Call String} (noEdit : call.edit? source = none) :
    call.logged source w = [] := by
  rcases call.leaves_cases source w with ⟨_, _, -, -, logged⟩ | ⟨_, _, -, -, logged⟩
  · rw [logged, noEdit]
    rfl
  · exact logged

/-- Prepares an edit of a term: the new term, and the form that becomes unknown. -/
def Edit.prepare (e : Edit) (t : Signed Term) : Discretize (Signed Term × Option FormId) :=
  match e with
  | .difference start stop => do
    let (new, after) ← Plan.differenced t start stop
    return (new, some after)
  | .mean f keys => return (← Plan.averaged t f keys, none)

theorem Edit.prepare_prepares (e : Edit) (t : Signed Term) : (e.prepare t).Prepares w := by
  cases e with
  | difference start stop => exact .bind (Plan.differenced_prepares t start stop) fun _ _ _ => .pure
  | mean f keys => exact .bind (Plan.averaged_prepares t f keys) fun _ _ _ => .pure

/-- A prepared edit is an edit of the term. A difference makes a form unknown: the evaluation at
its end of the form of which the term has the time derivative. -/
theorem Edit.prepare_spec {e : Edit} {t new : Signed Term} {unknown : Option FormId}
    {w' : Workspace} (sound : w.session.Sound) (dated : w.Dated)
    (created : Term.create w.session t.value.kind t.value.f1 t.value.f2 = .ok t.value)
    (run : e.prepare t w = .ok (new, unknown) w') :
    ∃ sequence, w.plan.sequence = some sequence ∧ w'.session.Edited sequence e t new ∧
      match e with
      | .difference _ stop => ∃ u after, unknown = some after ∧
          w'.session.Reads t.value.f1 (.unary .timeDerivative u) ∧
          w'.session.EvaluatedAt sequence u stop after
      | .mean _ _ => unknown = none := by
  cases e with
  | difference start stop =>
    obtain ⟨⟨_, after⟩, _, differenced, same⟩ := bind_eq_ok.1 run
    obtain ⟨same, rfl⟩ := pure_eq_ok.1 same
    cases same
    obtain ⟨sequence, u, known, edited, derivative, evaluated⟩ :=
      Plan.differenced_spec sound dated differenced
    exact ⟨sequence, known, edited, u, after, rfl, derivative, evaluated⟩
  | mean f keys =>
    obtain ⟨_, _, averaged, same⟩ := bind_eq_ok.1 run
    obtain ⟨same, rfl⟩ := pure_eq_ok.1 same
    cases same
    obtain ⟨sequence, known, edited⟩ := Plan.averaged_spec sound dated created averaged
    exact ⟨sequence, known, edited, rfl⟩

/-- What a call leaves behind, and what is logged of it. -/
inductive Call.Effect (source : DiscretizationSource) (w : Workspace) :
    Workspace → List (Position × Edit) → Prop
  /-- The call fails, or it edits nothing. -/
  | prepared {w' : Workspace} (prepared : w.Prepared w') : Effect source w w' []
  /-- The sequence is set in a session that may have grown. -/
  | sequence {mid : Workspace} {plan : Plan} {sequence : TimeSequenceId}
    (prepared : w.Prepared mid) (set : mid.plan.setSequence sequence = .ok plan) :
    Effect source w { mid with plan } []
  /-- The edit of the current term at a position is recorded there. -/
  | edited {e : Edit} {p : Position} {t new : Signed Term} {unknown : Option FormId}
    {w' : Workspace} (found : source.initial? p = some t) (prepared : w.Prepared w')
    (run : e.prepare (w.plan.current p t) w = .ok (new, unknown) w') :
    Effect source w { w' with plan := w'.plan.record p new unknown } [(p, e)]

namespace Call.Effect

/-- A call that only prepares the workspace edits nothing. -/
theorem of_prepares {call : Call String} (prepares : (call.perform source).Prepares w)
    (noEdit : call.edit? source = none) :
    Effect source w ((call.perform source).leaves w) (call.logged source w) := by
  rw [Call.logged_eq_nil noEdit]
  exact .prepared prepares

/-- Setting the sequence leaves the workspace alone if it is rejected. -/
theorem leaves_setSequence {mid : Workspace} (prepared : w.Prepared mid)
    (sequence : TimeSequenceId) :
    Effect source w ((DiscretizationSource.setSequence sequence).leaves mid) [] := by
  rw [leaves, DiscretizationSource.setSequence_eq]
  cases set : mid.plan.setSequence sequence with
  | ok plan => exact .sequence prepared set
  | error failure => exact .prepared prepared

/-- An edit is logged at the position that its address names. -/
theorem of_edit {call : Call String} {address : String} {e : Edit}
    (asks : call.edit? source = match source.locate address with
      | .ok (p, _) => some (p, e)
      | .error _ => none)
    (performs : call.perform source = source.edit address e.prepare >>= fun _ =>
      pure Answer.done) :
    Effect source w ((call.perform source).leaves w) (call.logged source w) := by
  rw [Call.logged, performs, leaves_bind_pure, leaves]
  simp only [bind, EStateM.bind]
  cases located : source.locate address with
  | error failure =>
    rw [DiscretizationSource.edit_of_rejected located]
    exact .prepared (.refl w)
  | ok found =>
    obtain ⟨p, t⟩ := found
    rw [DiscretizationSource.edit_of_located located]
    have prepares := e.prepare_prepares (w.plan.current p t) (w := w)
    simp only [bind, EStateM.bind]
    cases prepared : e.prepare (w.plan.current p t) w with
    | error failure w' =>
      rw [Prepares, leaves, prepared] at prepares
      exact .prepared prepares
    | ok result w' =>
      rw [asks, located]
      exact .edited (DiscretizationSource.initial?_of_locate located)
        (prepares.of_ok prepared) prepared

end Call.Effect

/-- Every call has one of the effects, whether it succeeds or fails. -/
theorem Call.effect (call : Call String) (source : DiscretizationSource) (w : Workspace) :
    Call.Effect source w ((call.perform source).leaves w) (call.logged source w) := by
  cases call with
  | setSequence sequence =>
    rw [Call.logged_eq_nil rfl, Call.perform, leaves_bind_pure]
    exact .leaves_setSequence (.refl w) sequence
  | newSequence =>
    rw [Call.logged_eq_nil rfl, Call.perform, leaves_bind_pure]
    have prepares : (liftM TimeSequence.create : Discretize TimeSequenceId).Prepares w :=
      .derive TimeSequence.create_grows
    rw [DiscretizationSource.newSequence, leaves_bind]
    cases created : (liftM TimeSequence.create : Discretize TimeSequenceId) w with
    | ok sequence mid =>
      dsimp only
      rw [leaves_bind_pure]
      exact .leaves_setSequence (prepares.of_ok created) sequence
    | error failure mid =>
      rw [Prepares, leaves, created] at prepares
      exact .prepared prepares
  | declare keys =>
    exact .of_prepares (.bind (Plan.declare_prepares keys) fun _ _ _ => .pure) rfl
  | term address => exact .of_prepares (.get_bind (.bind .lift fun _ _ _ => .pure)) rfl
  | request r => exact .of_prepares (.derive_bind r.perform_grows fun _ _ => .pure) rfl
  | differentiate address start stop =>
    exact .of_edit (e := .difference start stop) rfl
      (by rw [Call.perform, DiscretizationSource.differentiate_eq]; rfl)
  | average address f keys =>
    exact .of_edit (e := .mean f keys) rfl
      (by rw [Call.perform, DiscretizationSource.average_eq]; rfl)

namespace Workspace.Follows

/-- Every effect keeps the invariant. -/
theorem effect {w' : Workspace} {logged : List (Position × Edit)}
    (follows : w.Follows start source log) (effect : Call.Effect source w w' logged) :
    w'.Follows start source (log ++ logged) := by
  cases effect with
  | prepared prepared =>
    rw [List.append_nil]
    exact follows.prepared prepared
  | sequence prepared set =>
    rw [List.append_nil]
    exact (follows.prepared prepared).setSequence set
  | @edited e p t new unknown _ found prepared run =>
    have created := follows.created_current found
    obtain ⟨_, known, edited, unknowns⟩ :=
      Edit.prepare_spec follows.sound follows.dated created run
    refine follows.record prepared found known edited fun f latest => ?_
    cases e with
    | difference start stop =>
      obtain ⟨_, _, same, -, _, -, reads⟩ := unknowns
      cases same.symm.trans latest
      exact ⟨_, reads⟩
    | mean g keys => cases unknowns.symm.trans latest

/-- After a run, the current terms are what the logged edits make of the initial terms. -/
theorem performAll (follows : w.Follows start source log) (calls : List (Call String)) :
    (Call.performAll source calls w).Follows start source (log ++ Call.log source calls w) := by
  induction calls generalizing w log with
  | nil =>
    rw [Call.log, List.append_nil]
    exact follows
  | cons call calls ih =>
    rw [Call.log, ← List.append_assoc]
    exact ih (follows.effect (call.effect source w))

end Workspace.Follows

end Calls

/-! ## Finishing -/

namespace DiscretizationSource

variable {s : Session} {source : DiscretizationSource} {plan : Plan} {w' : WeakFormulation}

/-- A finished discretization has the current equations, the test forms it started from and the
unknowns of its plan, if there are any. -/
theorem finish_cases (run : finish s source plan = .ok w') :
    WeakFormulation.check s (source.currentEquations plan) source.testForms = .ok w'.mesh ∧
      w'.equations = source.currentEquations plan ∧ w'.testForms = source.testForms ∧
      w'.unknowns = if plan.unknownForms = [] then none else some plan.unknownForms := by
  simp only [finish, WeakFormulation.create, Outcome.bind_eq_ok, Outcome.pure_eq_ok] at run
  obtain ⟨_, ⟨mesh, checked, rfl⟩, run⟩ := run
  split at run
  · rename_i empty
    cases Outcome.pure_eq_ok.1 run
    exact ⟨checked, rfl, rfl, (if_pos empty).symm⟩
  · rename_i several
    simp only [WeakFormulation.withUnknowns, Outcome.bind_eq_ok, Outcome.pure_eq_ok] at run
    obtain ⟨_, -, rfl⟩ := run
    exact ⟨checked, rfl, rfl, (if_neg several).symm⟩

/-- A form becomes unknown because it is recorded as one. -/
theorem mem_unknownForms {f : FormId} (member : f ∈ plan.unknownForms) :
    ∃ entry ∈ plan.unknowns, entry.2 = f := by
  have each : ∀ (entries : List (Position × FormId)) (forms : List FormId),
      f ∈ entries.foldl (fun forms entry =>
        if entry.2 ∈ forms then forms else forms ++ [entry.2]) forms →
      f ∈ forms ∨ ∃ entry ∈ entries, entry.2 = f := by
    intro entries
    induction entries with
    | nil => exact fun _ => Or.inl
    | cons first rest ih =>
      intro forms member
      rcases ih _ member with here | ⟨entry, later, same⟩
      · dsimp only at here
        split at here
        · exact Or.inl here
        · rcases List.mem_append.1 here with old | latest
          · exact Or.inl old
          · exact Or.inr ⟨first, List.mem_cons_self, (List.mem_singleton.1 latest).symm⟩
      · exact Or.inr ⟨entry, List.mem_cons_of_mem _ later, same⟩
  simpa using each plan.unknowns [] member

/-- A discretization of which all unknowns are root forms is finished if its terms pass the
check. -/
theorem finish_succeeds {mesh : MeshId}
    (checked : WeakFormulation.check s (source.currentEquations plan) source.testForms = .ok mesh)
    (evaluated : ∀ entry ∈ plan.unknowns, ∃ binding, s.Reads entry.2 (.atInstant binding)) :
    ∃ w', finish s source plan = .ok w' := by
  simp only [finish, WeakFormulation.create, Outcome.bind_eq_ok, Outcome.pure_eq_ok]
  by_cases empty : plan.unknownForms = []
  · refine ⟨⟨mesh, source.currentEquations plan, source.testForms, none⟩, _,
      ⟨mesh, checked, rfl⟩, ?_⟩
    rw [if_pos empty]
    rfl
  · refine ⟨⟨mesh, source.currentEquations plan, source.testForms, some plan.unknownForms⟩, _,
      ⟨mesh, checked, rfl⟩, ?_⟩
    rw [if_neg empty, WeakFormulation.withUnknowns]
    refine Outcome.bind_eq_ok.2 ⟨(), Outcome.forM_eq_ok.2 fun f member => ?_, rfl⟩
    obtain ⟨entry, recorded, rfl⟩ := mem_unknownForms member
    obtain ⟨binding, form, found, expr⟩ := evaluated entry recorded
    have fetched : s.form entry.2 = .ok form := Arena.fetch_eq_ok_iff.2 found
    rw [Outcome.bind_of_ok fetched]
    simp [Form.isRoot, expr, FormExpr.isLeaf, pure, Except.pure]

end DiscretizationSource

namespace Workspace.Follows

variable {w : Workspace} {start : Session} {source : DiscretizationSource}
  {log : List (Position × Edit)} {mesh : MeshId}

/-- The terms of a source that passes the check are tested with the test form of their equation. -/
theorem tested (checked : WeakFormulation.check w.session source.equations source.testForms =
    .ok mesh) {p : Position} {t : Signed Term} {v : FormId}
    (found : source.initial? p = some t) (testForm : source.testForms[p.equation]? = some v) :
    w.session.Tested v t.value.f2 := by
  obtain ⟨e, known, standing⟩ := DiscretizationSource.initial?_eq_some.1 found
  obtain ⟨v', testForm', -, -, fits⟩ := WeakFormulation.fits_of_check checked known
  cases testForm.symm.trans testForm'
  exact Session.testedForm?_eq_ok_some.1 (fits t (List.mem_of_getElem? standing)).1

variable {p : Position} {t : Signed Term} {v : FormId}

/-- A current term fits the test form of its equation if this form was not averaged in it. -/
theorem current_fits (follows : w.Follows start source log)
    (checked : WeakFormulation.check w.session source.equations source.testForms = .ok mesh)
    (found : source.initial? p = some t) (testForm : source.testForms[p.equation]? = some v)
    (unaveraged : ∀ keys, (p, .mean v keys) ∉ log) :
    WeakFormulation.TermFits w.session mesh v (w.plan.current p t).value := by
  obtain ⟨e, known, standing⟩ := DiscretizationSource.initial?_eq_some.1 found
  obtain ⟨v', testForm', -, -, fits⟩ := WeakFormulation.fits_of_check checked known
  cases testForm.symm.trans testForm'
  obtain ⟨tests, place⟩ := fits t (List.mem_of_getElem? standing)
  obtain ⟨sequence, -, edits⟩ := follows.terms
  have edits := edits p t found
  have created := follows.created.of_initial? found
  have same := edits.testForm_eq follows.sound (tested checked found testForm)
    fun keys averaged => unaveraged keys (mem_editsAt.1 averaged)
  refine ⟨same ▸ tests, ?_⟩
  rwa [Session.mesh_eq_of_created created (edits.created created) same]

/-- A current term is not tested if the test form of its equation was averaged in it. -/
theorem current_untested (follows : w.Follows start source log)
    (checked : WeakFormulation.check w.session source.equations source.testForms = .ok mesh)
    (found : source.initial? p = some t) (testForm : source.testForms[p.equation]? = some v)
    {keys : List String} (averaged : (p, .mean v keys) ∈ log) :
    w.session.Untested (w.plan.current p t).value.f2 := by
  obtain ⟨sequence, -, edits⟩ := follows.terms
  exact (edits p t found).untested follows.sound (tested checked found testForm)
    (mem_editsAt.2 averaged)

/-- If no test form was averaged, the current terms pass the check. -/
theorem check_succeeds (follows : w.Follows start source log)
    (checked : WeakFormulation.check w.session source.equations source.testForms = .ok mesh)
    (unaveraged : ∀ p f keys, (p, .mean f keys) ∈ log → source.testForms[p.equation]? ≠ some f) :
    WeakFormulation.check w.session (source.currentEquations w.plan) source.testForms =
      .ok mesh := by
  refine WeakFormulation.check_of_fits checked (source.length_currentEquations w.plan)
    fun i e' v known testForm => ?_
  rw [DiscretizationSource.getElem?_currentEquations, Option.map_eq_some_iff] at known
  obtain ⟨e, known, rfl⟩ := known
  obtain ⟨v', testForm', size, lives, -⟩ := WeakFormulation.fits_of_check checked known
  cases testForm.symm.trans testForm'
  refine ⟨by rwa [Equation.size_mapPositions], lives, fun t' member => ?_⟩
  obtain ⟨j, t, standing, rfl⟩ := Equation.mem_mapPositions member
  have found : source.initial? ⟨i, j⟩ = some t :=
    DiscretizationSource.initial?_eq_some.2 ⟨e, known, standing⟩
  exact follows.current_fits checked found testForm fun keys averaged =>
    unaveraged _ v keys averaged testForm

/-- If a test form was averaged, the current terms do not pass the check. -/
theorem unaveraged_of_check (follows : w.Follows start source log) {mesh' : MeshId}
    (checked : WeakFormulation.check w.session source.equations source.testForms = .ok mesh)
    (passes : WeakFormulation.check w.session (source.currentEquations w.plan) source.testForms =
      .ok mesh') :
    ∀ p f keys, (p, .mean f keys) ∈ log → source.testForms[p.equation]? ≠ some f := by
  intro p f keys averaged testForm
  obtain ⟨t, found⟩ := follows.located _ averaged
  have untested := follows.current_untested checked found testForm averaged
  obtain ⟨e, known, standing⟩ := DiscretizationSource.initial?_eq_some.1 found
  have known' := source.getElem?_currentEquations w.plan p.equation
  rw [known, Option.map_some] at known'
  obtain ⟨v, testForm', -, -, fits⟩ := WeakFormulation.fits_of_check passes known'
  cases testForm.symm.trans testForm'
  have standing' : (e.mapPositions fun j t => w.plan.current ⟨p.equation, j⟩ t).get? p.term =
      some (w.plan.current p t) := by
    rw [Equation.get?_mapPositions, standing]
    rfl
  have tested := (fits _ (List.mem_of_getElem? standing')).1
  rw [untested.testedForm?_eq] at tested
  cases tested

end Workspace.Follows

/-- A discretization is the log of its successful edits. For every run of calls on a
discretization of a well-formed formulation, or of the ordinary differential equation of one of
its equations, which has the terms and the test form of that equation, the discretization can be
finished if and only if no logged average names the test form of the equation that it averages
in. The result has the equations, sides, positions, mesh and test forms that the discretization
started from, and the term at a position is the only one that the edits logged at this position
make of the term that stood there, with its sign. -/
theorem DiscretizationSource.finish_log {settings : Settings} {s : Session}
    (reachable : Session.Reachable settings s) {w : WeakFormulation} (wellFormed : w.WellFormed s)
    {source : DiscretizationSource} (discretizes : source.Discretizes s w)
    (calls : List (Call String)) :
    let last := Call.performAll source calls ⟨s, {}⟩
    let log := Call.log source calls ⟨s, {}⟩
    (∀ (i : Nat) e, source.equations[i]? = some e →
      ∃ (k : Nat) (v : FormId), w.equations[k]? = some e ∧ w.testForms[k]? = some v ∧
        source.testForms[i]? = some v) ∧
    ((∃ w', finish last.session source last.plan = .ok w') ↔
      ∀ p f keys, (p, .mean f keys) ∈ log → source.testForms[p.equation]? ≠ some f) ∧
    ∀ w', finish last.session source last.plan = .ok w' →
      w'.mesh = w.mesh ∧ w'.testForms = source.testForms ∧
      w'.equations.length = source.equations.length ∧
      ∃ sequence, (log ≠ [] → last.plan.sequence = some sequence) ∧
        ∀ (i : Nat) e, source.equations[i]? = some e → ∃ e', w'.equations[i]? = some e' ∧
          e'.left.length = e.left.length ∧ e'.right.length = e.right.length ∧
          ∀ j t, e.get? j = some t → ∃ t', e'.get? j = some t' ∧ t'.sign = t.sign ∧
            ∀ x, last.session.Edits sequence (editsAt log ⟨i, j⟩) t x ↔ x = t' := by
  intro last log
  have follows : last.Follows s source log := by
    have initial := Workspace.Follows.initial reachable.sound (discretizes.created wellFormed)
    exact initial.performAll calls
  have checked := WeakFormulation.check_mono follows.steps.extends (discretizes.checked wellFormed)
  have distinct := reachable.distinct.steps follows.steps
  refine ⟨fun i e known => discretizes.getElem? wellFormed known,
    ⟨fun finished => ?_, fun unaveraged => ?_⟩, fun w' finished => ?_⟩
  · obtain ⟨w', finished⟩ := finished
    exact follows.unaveraged_of_check checked (finish_cases finished).1
  · exact finish_succeeds (follows.check_succeeds checked unaveraged) follows.unknowns
  · obtain ⟨passes, equations, testForms, -⟩ := finish_cases finished
    have passes' := follows.check_succeeds checked (follows.unaveraged_of_check checked passes)
    obtain ⟨sequence, known, edits⟩ := follows.terms
    refine ⟨Except.ok.inj (passes.symm.trans passes'), testForms, ?_, sequence, known,
      fun i e found => ⟨e.mapPositions fun j t => last.plan.current ⟨i, j⟩ t, ?_, ?_, ?_,
        fun j t standing => ⟨last.plan.current ⟨i, j⟩ t, ?_, ?_, fun x => ⟨fun edited => ?_, ?_⟩⟩⟩⟩
    · rw [equations, source.length_currentEquations]
    · rw [equations, source.getElem?_currentEquations, found, Option.map_some]
    · exact List.length_mapIdx
    · exact List.length_mapIdx
    · rw [Equation.get?_mapPositions, standing, Option.map_some]
    all_goals have initial : source.initial? ⟨i, j⟩ = some t :=
      initial?_eq_some.2 ⟨e, found, standing⟩
    · exact (edits ⟨i, j⟩ t initial).sign_eq
    · exact edited.unique distinct (edits ⟨i, j⟩ t initial)
    · rintro rfl
      exact edits ⟨i, j⟩ t initial

/-- On an interval, `(∂t a, v) = -(a, v)` is discretized by a difference quotient and a mean. The
call that names no term has no influence, and the spelling of an address does not matter. -/
theorem DiscretizationSource.finish_log_difference :
    ∃ s t x, Session.Reachable {} s ∧ Term.create s .innerProduct ⟨2⟩ ⟨1⟩ = .ok t ∧
      Term.create s .innerProduct ⟨0⟩ ⟨1⟩ = .ok x ∧
      let w : WeakFormulation := ⟨⟨0⟩, [⟨[⟨.plus, t⟩], [⟨.minus, x⟩]⟩], [⟨1⟩], none⟩
      let calls : List (Call String) := [.newSequence, .declare ["k-1", "k"],
        .differentiate "0-0" "k-1" "k", .average "0-2" ⟨0⟩ ["k"],
        .average " 0 - 01" ⟨0⟩ ["k-1", "k"]]
      let last := Call.performAll (.formulation w) calls ⟨s, {}⟩
      w.WellFormed s ∧ ∃ w' e', finish last.session (.formulation w) last.plan = .ok w' ∧
        w'.equations = [e'] ∧ e'.left.length = 1 ∧ e'.right.length = 1 ∧
        ∃ sequence t', last.plan.sequence = some sequence ∧ e'.get? 1 = some t' ∧
          t'.sign = .minus ∧
          last.session.Edits sequence [.mean ⟨0⟩ ["k-1", "k"]] ⟨.minus, x⟩ t' := by
  obtain ⟨s, reachable, livesA, livesV, livesRate, readsV, outcome⟩ :
      ∃ s, Session.Reachable {} s ∧ s.Lives ⟨0⟩ ⟨0⟩ 1 ∧ s.Lives ⟨1⟩ ⟨0⟩ 1 ∧ s.Lives ⟨2⟩ ⟨0⟩ 1 ∧
        s.Reads ⟨1⟩ .root ∧
        (match Term.create s .innerProduct ⟨2⟩ ⟨1⟩, Term.create s .innerProduct ⟨0⟩ ⟨1⟩ with
          | .ok t, .ok x => decide (Call.log
              (.formulation ⟨⟨0⟩, [⟨[⟨.plus, t⟩], [⟨.minus, x⟩]⟩], [⟨1⟩], none⟩)
              [.newSequence, .declare ["k-1", "k"], .differentiate "0-0" "k-1" "k",
                .average "0-2" ⟨0⟩ ["k"], .average " 0 - 01" ⟨0⟩ ["k-1", "k"]] ⟨s, {}⟩ =
              [(⟨0, 0⟩, .difference "k-1" "k"), (⟨0, 1⟩, .mean ⟨0⟩ ["k-1", "k"])])
          | _, _ => false) = true :=
    ⟨Request.performAll {} [.manifold 1, .mesh ⟨0⟩, .space ⟨0⟩ 1 .outer, .root ⟨0⟩ ⟨"a", "a"⟩,
      .root ⟨0⟩ ⟨"v", "v"⟩, .operator .timeDerivative ⟨0⟩], .performAll {} _, by decide +kernel⟩
  obtain ⟨m, foundMesh⟩ := reachable.sound.exists_mesh livesA
  obtain ⟨t, created, mesh⟩ := Term.create_succeeds .innerProduct livesRate livesV foundMesh rfl
  obtain ⟨x, created', mesh'⟩ := Term.create_succeeds .innerProduct livesA livesV foundMesh rfl
  obtain ⟨kind, first, second, -⟩ := Term.create_spec created
  obtain ⟨kind', first', second', -⟩ := Term.create_spec created'
  have tested : s.testedForm? ⟨1⟩ = .ok (some ⟨1⟩) :=
    Session.testedForm?_eq_ok_some.2 (.root readsV)
  simp only [created, created', decide_eq_true_eq] at outcome
  have wellFormed :
      WeakFormulation.WellFormed ⟨⟨0⟩, [⟨[⟨.plus, t⟩], [⟨.minus, x⟩]⟩], [⟨1⟩], none⟩ s := by
    refine ⟨WeakFormulation.check_eq_ok.2 ⟨by simp, .cons ⟨Nat.two_pos, ⟨1, livesV⟩, ?_⟩ .nil⟩, ?_⟩
    · simpa [Equation.terms, second, second', WeakFormulation.TermFits] using
        ⟨⟨tested, Or.inl mesh⟩, tested, Or.inl mesh'⟩
    · simpa [Equation.terms, kind, first, second, kind', first', second'] using
        ⟨created, created'⟩
  refine ⟨s, t, x, reachable, created, created', wellFormed, ?_⟩
  have discretizes : (DiscretizationSource.formulation _).Discretizes s _ :=
    rfl (a := (⟨⟨0⟩, [⟨[⟨.plus, t⟩], [⟨.minus, x⟩]⟩], [⟨1⟩], none⟩ : WeakFormulation))
  obtain ⟨-, finishes, finished⟩ := DiscretizationSource.finish_log reachable wellFormed
    discretizes [.newSequence, .declare ["k-1", "k"], .differentiate "0-0" "k-1" "k",
      .average "0-2" ⟨0⟩ ["k"], .average " 0 - 01" ⟨0⟩ ["k-1", "k"]]
  rw [outcome] at finishes finished
  obtain ⟨w', run⟩ := finishes.2 (by
    intro p f keys averaged
    obtain ⟨rfl, rfl, -⟩ : p = ⟨0, 1⟩ ∧ f = ⟨0⟩ ∧ keys = ["k-1", "k"] := by simpa using averaged
    simp [DiscretizationSource.testForms])
  obtain ⟨-, -, same, sequence, known, each⟩ := finished w' run
  obtain ⟨e', held, left, right, terms⟩ := each 0 _ rfl
  obtain ⟨t', standing, sign, edits⟩ := terms 1 ⟨.minus, x⟩ rfl
  refine ⟨w', e', run, ?_, left, right, sequence, t', known (by simp), standing, sign,
    (edits t').2 rfl⟩
  obtain ⟨e, single⟩ := List.length_eq_one_iff.1 same
  rw [single, List.getElem?_cons_zero, Option.some.injEq] at held
  rw [single, held]

end Variational
