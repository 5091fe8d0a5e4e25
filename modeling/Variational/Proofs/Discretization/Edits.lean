import Variational.Proofs.Substitution

/-!
# Edits of terms

What differencing and averaging make of a term, as a relation between terms of one
session. An edit gives one term, which stays what it is in later sessions. Edits keep
the sign, the mesh and the test form of a term, unless the test form is averaged: then
it is no test form any more, whatever edits follow.
-/

namespace Variational

variable {s s' : Session}

/-- An edit of a term. -/
inductive Edit
  /-- A time derivative is replaced by the difference quotient between two keys. -/
  | difference (start stop : String)
  /-- A form is replaced by the mean of its evaluations at keys. -/
  | mean (f : FormId) (keys : List String)
deriving DecidableEq, Repr

namespace Session

/-- What an edit makes of a term, with the instants of a time sequence. -/
inductive Edited (s : Session) (sequence : TimeSequenceId) : Edit → Signed Term → Signed Term → Prop
  | difference {start stop : String} {t : Signed Term} {u atStart atStop change quotient : FormId}
    {i j : TimeInstantId} {duration : ScalarId} {new : Term}
    (kind : t.value.kind = .innerProduct)
    (derivative : s.Reads t.value.f1 (.unary .timeDerivative u))
    (begins : s.InstantAt sequence start i) (ends : s.InstantAt sequence stop j)
    (interval : s.IntervalBetween i j duration)
    (before : s.EvaluatedAt sequence u start atStart)
    (after : s.EvaluatedAt sequence u stop atStop)
    (difference : s.Reads change (.binary .difference atStop atStart))
    (divided : s.Reads quotient (.quotient change duration))
    (created : Term.create s t.value.kind quotient t.value.f2 = .ok new) :
    Edited s sequence (.difference start stop) t ⟨t.sign, new⟩
  | mean {f m g1 g2 : FormId} {keys : List String} {t : Signed Term} {evaluated : List FormId}
    {new : Term}
    (occurs : s.occursIn t.value.f1 f = .ok true ∨ s.occursIn t.value.f2 f = .ok true)
    (evaluations : List.Forall₂ (s.EvaluatedAt sequence f) keys evaluated)
    (mean : Form.MeanOf s evaluated m)
    (first : Form.Substituted s f m t.value.f1 g1)
    (second : Form.Substituted s f m t.value.f2 g2)
    (created : Term.create s t.value.kind g1 g2 = .ok new) :
    Edited s sequence (.mean f keys) t ⟨t.sign, new⟩

/-- What edits make of a term, one after the other. -/
inductive Edits (s : Session) (sequence : TimeSequenceId) :
    List Edit → Signed Term → Signed Term → Prop
  | nil {t : Signed Term} : Edits s sequence [] t t
  | cons {e : Edit} {es : List Edit} {t t' t'' : Signed Term} (first : s.Edited sequence e t t')
    (rest : Edits s sequence es t' t'') : Edits s sequence (e :: es) t t''

variable {sequence : TimeSequenceId} {e : Edit} {es : List Edit} {t t' t'' : Signed Term}

/-! ## Single edits -/

namespace Edited

theorem mono (edited : s.Edited sequence e t t') (steps : s.Steps s') :
    s'.Edited sequence e t t' := by
  have later := steps.extends
  cases edited with
  | difference kind derivative begins ends interval before after difference divided created =>
    exact .difference kind (later.reads derivative) (later.instantAt begins)
      (later.instantAt ends) (later.intervalBetween interval) (later.evaluatedAt before)
      (later.evaluatedAt after) (later.reads difference) (later.reads divided)
      (Term.create_mono later created)
  | mean occurs evaluations mean first second created =>
    exact .mean (occurs.imp later.occursIn_eq_ok later.occursIn_eq_ok)
      (evaluations.imp fun _ _ evaluated => later.evaluatedAt evaluated) (mean.mono steps)
      (first.mono steps) (second.mono steps) (Term.create_mono later created)

theorem evaluations_unique (distinct : s.Distinct) {f : FormId} {keys : List String}
    {forms forms' : List FormId} (evaluations : List.Forall₂ (s.EvaluatedAt sequence f) keys forms)
    (evaluations' : List.Forall₂ (s.EvaluatedAt sequence f) keys forms') : forms = forms' := by
  induction evaluations generalizing forms' with
  | nil =>
    cases evaluations'
    rfl
  | cons evaluated _ ih =>
    cases evaluations' with
    | cons evaluated' rest' =>
      rw [distinct.evaluatedAt_unique evaluated evaluated', ih rest']

/-- An edit makes one term of a term. -/
theorem unique (distinct : s.Distinct) (edited : s.Edited sequence e t t')
    (edited' : s.Edited sequence e t t'') : t' = t'' := by
  cases edited with
  | difference _ derivative begins ends interval before after difference divided created =>
    cases edited' with
    | difference _ derivative' begins' ends' interval' before' after' difference' divided'
        created' =>
      cases derivative.unique derivative'
      cases distinct.instantAt_unique begins begins'
      cases distinct.instantAt_unique ends ends'
      cases distinct.intervalBetween_unique interval interval'
      cases distinct.evaluatedAt_unique before before'
      cases distinct.evaluatedAt_unique after after'
      cases distinct.reads_unique difference difference' (by simp)
      cases distinct.reads_unique divided divided' (by simp)
      cases created.symm.trans created'
      rfl
  | mean _ evaluations mean first second created =>
    cases edited' with
    | mean _ evaluations' mean' first' second' created' =>
      cases evaluations_unique distinct evaluations evaluations'
      cases mean.unique distinct mean'
      cases first.unique distinct first'
      cases second.unique distinct second'
      cases created.symm.trans created'
      rfl

theorem sign_eq (edited : s.Edited sequence e t t') : t'.sign = t.sign := by
  cases edited <;> rfl

/-- An edited term is a term of the session. -/
theorem created (edited : s.Edited sequence e t t') :
    Term.create s t'.value.kind t'.value.f1 t'.value.f2 = .ok t'.value := by
  cases edited with
  | difference _ _ _ _ _ _ _ _ _ created | mean _ _ _ _ _ created =>
    obtain ⟨kind, f1, f2, -⟩ := Term.create_spec created
    rw [kind, f1, f2, created]

/-- A form that is averaged is a root form. -/
theorem root_of_mean (sound : s.Sound) {f : FormId} {keys : List String}
    (edited : s.Edited sequence (.mean f keys) t t') : s.Reads f .root := by
  cases edited with
  | mean _ evaluations mean =>
    cases evaluations with
    | nil => cases mean
    | cons evaluated =>
      obtain ⟨i, -, reads⟩ := evaluated
      exact sound.root_of_evaluated reads

/-- The mean of evaluated forms is no test form. -/
theorem untested_of_meanOf {f m : FormId} {keys : List String} {forms : List FormId}
    (evaluations : List.Forall₂ (s.EvaluatedAt sequence f) keys forms)
    (mean : Form.MeanOf s forms m) : s.Untested m := by
  cases mean with
  | single =>
    cases evaluations with
    | cons evaluated =>
      obtain ⟨i, -, reads⟩ := evaluated
      exact .evaluated reads
  | several _ quotient =>
    obtain ⟨c, k, -, -, -, reads⟩ := quotient
    exact .quotient reads

variable {v : FormId}

/-- An edit that does not average the test form keeps it. -/
theorem testForm_eq (sound : s.Sound) (edited : s.Edited sequence e t t')
    (tested : s.Tested v t.value.f2) (other : ∀ keys, e ≠ .mean v keys) :
    t'.value.f2 = t.value.f2 := by
  have root := fun f keys (same : e = .mean f keys) => root_of_mean sound (same ▸ edited)
  cases edited with
  | difference _ _ _ _ _ _ _ _ _ created => exact (Term.create_spec created).2.2.1
  | @mean f _ _ _ keys _ _ _ _ _ _ _ second created =>
    rw [(Term.create_spec created).2.2.1]
    exact tested.eq_of_substituted (root f keys rfl) (fun same => other keys (by rw [same])) second

/-- Averaging the test form of a term leaves it without one. -/
theorem untested {keys : List String} (edited : s.Edited sequence (.mean v keys) t t')
    (tested : s.Tested v t.value.f2) : s.Untested t'.value.f2 := by
  cases edited with
  | mean _ evaluations mean _ second created =>
    rw [(Term.create_spec created).2.2.1]
    exact tested.untested (untested_of_meanOf evaluations mean) second

theorem keeps_untested (sound : s.Sound) (edited : s.Edited sequence e t t')
    (untested : s.Untested t.value.f2) : s.Untested t'.value.f2 := by
  have root := fun f keys (same : e = .mean f keys) => root_of_mean sound (same ▸ edited)
  cases edited with
  | difference _ _ _ _ _ _ _ _ _ created => rwa [(Term.create_spec created).2.2.1]
  | @mean f _ _ _ keys _ _ _ _ _ _ _ second created =>
    rw [(Term.create_spec created).2.2.1]
    exact untested.substituted (root f keys rfl) second

end Edited

/-- Terms of a session with one test form live on one mesh. -/
theorem mesh_eq_of_created {t t' : Term} (created : Term.create s t.kind t.f1 t.f2 = .ok t)
    (created' : Term.create s t'.kind t'.f1 t'.f2 = .ok t') (same : t'.f2 = t.f2) :
    t'.mesh = t.mesh := by
  obtain ⟨-, -, -, _, _, _, -, lives, -⟩ := Term.create_spec created
  obtain ⟨-, -, -, _, _, _, -, lives', -⟩ := Term.create_spec created'
  exact (lives'.unique (same ▸ lives)).1

/-! ## Edits one after the other -/

namespace Edits

theorem mono (edits : s.Edits sequence es t t') (steps : s.Steps s') :
    s'.Edits sequence es t t' := by
  induction edits with
  | nil => exact .nil
  | cons first _ ih => exact .cons (first.mono steps) ih

theorem eq_of_nil (edits : s.Edits sequence [] t t') : t' = t := by
  cases edits
  rfl

theorem snoc (edits : s.Edits sequence es t t') (last : s.Edited sequence e t' t'') :
    s.Edits sequence (es ++ [e]) t t'' := by
  induction edits with
  | nil => exact .cons last .nil
  | cons first _ ih => exact .cons first (ih last)

theorem unique (distinct : s.Distinct) (edits : s.Edits sequence es t t')
    (edits' : s.Edits sequence es t t'') : t' = t'' := by
  induction edits with
  | nil =>
    cases edits'
    rfl
  | cons first _ ih =>
    cases edits' with
    | cons first' rest' =>
      cases first.unique distinct first'
      exact ih rest'

theorem sign_eq (edits : s.Edits sequence es t t') : t'.sign = t.sign := by
  induction edits with
  | nil => rfl
  | cons first _ ih => exact ih.trans first.sign_eq

theorem created (edits : s.Edits sequence es t t')
    (created : Term.create s t.value.kind t.value.f1 t.value.f2 = .ok t.value) :
    Term.create s t'.value.kind t'.value.f1 t'.value.f2 = .ok t'.value := by
  induction edits with
  | nil => exact created
  | cons first _ ih => exact ih first.created

variable {v : FormId}

theorem testForm_eq (sound : s.Sound) (edits : s.Edits sequence es t t')
    (tested : s.Tested v t.value.f2) (others : ∀ keys, .mean v keys ∉ es) :
    t'.value.f2 = t.value.f2 := by
  induction edits with
  | nil => rfl
  | cons first _ ih =>
    have same := first.testForm_eq sound tested fun keys same =>
      others keys (same ▸ List.mem_cons_self)
    rw [ih (same ▸ tested) fun keys member => others keys (List.mem_cons_of_mem _ member), same]

theorem keeps_untested (sound : s.Sound) (edits : s.Edits sequence es t t')
    (untested : s.Untested t.value.f2) : s.Untested t'.value.f2 := by
  induction edits with
  | nil => exact untested
  | cons first _ ih => exact ih (first.keeps_untested sound untested)

/-- A term of which the test form was averaged once has none in the end. -/
theorem untested (sound : s.Sound) {keys : List String} (edits : s.Edits sequence es t t')
    (tested : s.Tested v t.value.f2) (averaged : .mean v keys ∈ es) : s.Untested t'.value.f2 := by
  induction edits generalizing keys with
  | nil => cases averaged
  | @cons e es t t' t'' first rest ih =>
    by_cases here : ∃ keys, e = .mean v keys
    · obtain ⟨keys, rfl⟩ := here
      exact rest.keeps_untested sound (first.untested tested)
    · have same := first.testForm_eq sound tested fun keys same => here ⟨keys, same⟩
      refine ih (same ▸ tested) (List.mem_of_ne_of_mem (fun equal => here ⟨keys, ?_⟩) averaged)
      exact equal.symm

end Edits

end Session

end Variational
