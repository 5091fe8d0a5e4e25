import Variational.Proofs.Discretization.Edits
import Variational.Proofs.WeakForm.Checks

/-!
# Preparing an edit

An edit is prepared in the session and recorded in the plan at the end.
`Plan.differenced` and `Plan.averaged` are the preparations: they grow the session and
declare instants, succeed only with a term that is edited as `Session.Edited` says, and
leave the recorded terms alone whether they succeed or fail.
-/

namespace Variational

/-! ## Running discretization steps -/

namespace Discretize

variable {α β : Type} {w w' : Workspace}

theorem bind_eq_ok {m : Discretize α} {f : α → Discretize β} {b : β} :
    (m >>= f) w = .ok b w' ↔ ∃ a mid, m w = .ok a mid ∧ f a mid = .ok b w' := by
  simp only [bind, EStateM.bind]
  cases m w with
  | ok a mid =>
    constructor
    · intro run
      exact ⟨a, mid, rfl, run⟩
    · rintro ⟨_, _, first, run⟩
      cases first
      exact run
  | error _ _ => simp

theorem pure_eq_ok {a b : α} : (pure a : Discretize α) w = .ok b w' ↔ a = b ∧ w = w' := by
  simp [pure, EStateM.pure]

theorem get_eq_ok {r : Workspace} : (get : Discretize Workspace) w = .ok r w' ↔ w = r ∧ w = w' := by
  change EStateM.Result.ok w w = .ok r w' ↔ w = r ∧ w = w'
  rw [EStateM.Result.ok.injEq]

theorem update_eq_ok {f : Plan → Plan} {u : Unit} :
    Plan.update f w = .ok u w' ↔ { w with plan := f w.plan } = w' := by
  change EStateM.Result.ok () { w with plan := f w.plan } = .ok u w' ↔ _
  rw [EStateM.Result.ok.injEq, and_iff_right rfl]

theorem derive_eq_ok {m : Derive α} {a : α} : (liftM m : Discretize α) w = .ok a w' ↔
    ∃ s', m w.session = .ok a s' ∧ { w with session := s' } = w' := by
  simp only [liftM, monadLift, MonadLift.monadLift]
  cases m w.session with
  | error _ _ => simp
  | ok _ _ => simp only [EStateM.Result.ok.injEq, and_assoc, exists_and_left, exists_eq_left']

theorem lift_eq_ok {o : Outcome α} {a : α} :
    (liftM o : Discretize α) w = .ok a w' ↔ o = .ok a ∧ w = w' := by
  cases o with
  | error _ => simp [liftM, monadLift, MonadLift.monadLift]
  | ok _ => simp [liftM, monadLift, MonadLift.monadLift]

/-- The workspace that a step leaves behind. A step that fails keeps what it changed. -/
def leaves (m : Discretize α) (w : Workspace) : Workspace :=
  match m w with
  | .ok _ w' => w'
  | .error _ w' => w'

theorem leaves_of_ok {m : Discretize α} {a : α} (run : m w = .ok a w') : m.leaves w = w' := by
  rw [leaves, run]

theorem leaves_bind (m : Discretize α) (f : α → Discretize β) (w : Workspace) :
    (m >>= f).leaves w = match m w with
      | .ok a mid => (f a).leaves mid
      | .error _ mid => mid := by
  simp only [leaves, bind, EStateM.bind]
  cases m w <;> rfl

theorem leaves_bind_pure (m : Discretize α) (f : α → β) (w : Workspace) :
    (m >>= fun a => pure (f a)).leaves w = m.leaves w := by
  rw [leaves_bind, leaves]
  cases m w <;> rfl

end Discretize

/-! ## Preparations -/

/-- The declared instants belong to the sequence of the plan. -/
def Workspace.Dated (w : Workspace) : Prop :=
  ∀ entry ∈ w.plan.instants, ∃ sequence, w.plan.sequence = some sequence ∧
    w.session.InstantAt sequence entry.1 entry.2

/-- A workspace in which the session has grown and instants may have been declared. -/
structure Workspace.Prepared (w w' : Workspace) : Prop where
  steps : w.session.Steps w'.session
  sequence : w'.plan.sequence = w.plan.sequence
  edits : w'.plan.edits = w.plan.edits
  unknowns : w'.plan.unknowns = w.plan.unknowns
  modified : w'.plan.stage = .modified ↔ w.plan.stage = .modified
  dated : w.Dated → w'.Dated

namespace Workspace.Prepared

variable {w w' w'' : Workspace}

theorem refl (w : Workspace) : w.Prepared w :=
  ⟨.refl, rfl, rfl, rfl, Iff.rfl, id⟩

theorem trans (first : w.Prepared w') (second : w'.Prepared w'') : w.Prepared w'' where
  steps := first.steps.trans second.steps
  sequence := second.sequence.trans first.sequence
  edits := second.edits.trans first.edits
  unknowns := second.unknowns.trans first.unknowns
  modified := second.modified.trans first.modified
  dated := second.dated ∘ first.dated

/-- Growing the session prepares, and so does declaring an instant of the sequence. -/
theorem of_steps {s' : Session} (steps : w.session.Steps s') :
    w.Prepared { w with session := s' } where
  steps := steps
  sequence := rfl
  edits := rfl
  unknowns := rfl
  modified := Iff.rfl
  dated dated := fun entry member => by
    obtain ⟨sequence, same, known⟩ := dated entry member
    exact ⟨sequence, same, steps.extends.instantAt known⟩

end Workspace.Prepared

namespace Discretize

variable {α β : Type} {w w' : Workspace}

/-- A step prepares the workspace, whether it succeeds or fails. -/
def Prepares (m : Discretize α) (w : Workspace) : Prop :=
  w.Prepared (m.leaves w)

namespace Prepares

theorem of_ok {m : Discretize α} {a : α} (prepares : m.Prepares w) (run : m w = .ok a w') :
    w.Prepared w' := by
  rwa [Prepares, leaves_of_ok run] at prepares

theorem pure {a : α} : (Pure.pure a : Discretize α).Prepares w :=
  .refl w

theorem derive {m : Derive α} (grows : m.Grows w.session) :
    (liftM m : Discretize α).Prepares w := by
  unfold Derive.Grows Derive.after at grows
  simp only [Prepares, leaves, liftM, monadLift, MonadLift.monadLift]
  cases run : m w.session with
  | ok a s' => exact .of_steps (by simpa only [run] using grows)
  | error failure s' => exact .of_steps (by simpa only [run] using grows)

theorem lift {o : Outcome α} : (liftM o : Discretize α).Prepares w :=
  derive (m := liftM o) .lift

theorem bind {m : Discretize α} {f : α → Discretize β} (first : m.Prepares w)
    (rest : ∀ a w', m w = .ok a w' → (f a).Prepares w') : (m >>= f).Prepares w := by
  unfold Prepares leaves at first ⊢
  simp only [Bind.bind, EStateM.bind]
  cases run : m w with
  | ok a mid =>
    rw [run] at first
    exact first.trans (rest a mid run)
  | error failure mid =>
    rw [run] at first
    exact first

theorem get_bind {f : Workspace → Discretize β} (rest : (f w).Prepares w) :
    (get >>= f : Discretize β).Prepares w :=
  rest

theorem lift_bind {o : Outcome α} {f : α → Discretize β}
    (rest : ∀ a, o = .ok a → (f a).Prepares w) :
    (liftM o >>= f : Discretize β).Prepares w := by
  refine .bind .lift fun a mid run => ?_
  obtain ⟨success, rfl⟩ := lift_eq_ok.1 run
  exact rest a success

theorem derive_bind {m : Derive α} {f : α → Discretize β} (grows : m.Grows w.session)
    (rest : ∀ a w', (f a).Prepares w') : (liftM m >>= f : Discretize β).Prepares w :=
  .bind (.derive grows) fun a w' _ => rest a w'

theorem update {f : Plan → Plan} (prepared : w.Prepared { w with plan := f w.plan }) :
    (Plan.update f).Prepares w :=
  prepared

end Prepares

end Discretize

namespace Plan

open Discretize

variable {w w' : Workspace} {sequence : TimeSequenceId}

/-! ## Declaring instants -/

/-- A declared instant is that of its key. -/
theorem instant?_spec {key : String} {i : TimeInstantId} (dated : w.Dated)
    (known : w.plan.instant? key = some i) :
    ∃ sequence, w.plan.sequence = some sequence ∧ w.session.InstantAt sequence key i := by
  rw [instant?, Option.map_eq_some_iff] at known
  obtain ⟨⟨key', i⟩, found, rfl⟩ := known
  have sameKey : key' = key := by simpa using List.find?_some found
  obtain ⟨sequence, same, instantAt⟩ := dated _ (List.mem_of_find?_eq_some found)
  exact ⟨sequence, same, sameKey ▸ instantAt⟩

theorem declareKey_prepares (key : String) (same : w.plan.sequence = some sequence) :
    (declareKey sequence key).Prepares w := by
  refine .get_bind ?_
  cases w.plan.instant? key with
  | some instant => exact .pure
  | none =>
    refine .bind (.derive (TimeInstant.atKey_grows _ _)) fun i mid run =>
      .bind (.update ?_) fun _ _ _ => .pure
    obtain ⟨s', made, rfl⟩ := derive_eq_ok.1 run
    refine ⟨.refl, rfl, rfl, rfl, Iff.rfl, fun dated entry member => ?_⟩
    rcases List.mem_append.1 member with old | new
    · exact dated entry old
    · cases List.mem_singleton.1 new
      exact ⟨sequence, same, TimeInstant.atKey_spec made⟩

theorem declareKey_spec {key : String} {i : TimeInstantId} (dated : w.Dated)
    (same : w.plan.sequence = some sequence) (run : declareKey sequence key w = .ok i w') :
    w'.session.InstantAt sequence key i := by
  simp only [declareKey, bind_eq_ok, get_eq_ok] at run
  obtain ⟨_, _, ⟨rfl, rfl⟩, run⟩ := run
  cases known : w.plan.instant? key with
  | some instant =>
    rw [known] at run
    obtain ⟨rfl, rfl⟩ := pure_eq_ok.1 run
    obtain ⟨sequence', same', instantAt⟩ := instant?_spec dated known
    cases same.symm.trans same'
    exact instantAt
  | none =>
    simp only [known, bind_eq_ok, derive_eq_ok, update_eq_ok, pure_eq_ok] at run
    obtain ⟨i', _, ⟨s', made, rfl⟩, _, _, rfl, rfl, rfl⟩ := run
    exact TimeInstant.atKey_spec made

theorem mapM_declareKey_prepares (keys : List String) (same : w.plan.sequence = some sequence) :
    (keys.mapM (declareKey sequence)).Prepares w := by
  induction keys generalizing w with
  | nil => exact .pure
  | cons key keys ih =>
    rw [List.mapM_cons]
    refine .bind (declareKey_prepares key same) fun i mid run => ?_
    have prepared := (declareKey_prepares key same).of_ok run
    exact .bind (ih (prepared.sequence.trans same)) fun _ _ _ => .pure

theorem mapM_declareKey_spec {keys : List String} {instants : List TimeInstantId} (dated : w.Dated)
    (same : w.plan.sequence = some sequence)
    (run : keys.mapM (declareKey sequence) w = .ok instants w') :
    List.Forall₂ (w'.session.InstantAt sequence) keys instants := by
  induction keys generalizing w instants with
  | nil =>
    obtain ⟨rfl, -⟩ := pure_eq_ok.1 run
    exact .nil
  | cons key keys ih =>
    simp only [List.mapM_cons, bind_eq_ok, pure_eq_ok] at run
    obtain ⟨i, mid, first, instants, last, rest, rfl, rfl⟩ := run
    have prepared := (declareKey_prepares key same).of_ok first
    have same' := prepared.sequence.trans same
    have later := ((mapM_declareKey_prepares keys same').of_ok rest).steps.extends
    exact .cons (later.instantAt (declareKey_spec dated same first))
      (ih (prepared.dated dated) same' rest)

theorem declare_prepares (keys : List String) : (declare keys).Prepares w := by
  refine .get_bind ?_
  cases same : w.plan.sequence with
  | none => exact .lift
  | some sequence =>
    refine .bind (mapM_declareKey_prepares keys same) fun instants mid _ =>
      .bind (.update ?_) fun _ _ _ => .pure
    split
    · rename_i unmodified
      exact ⟨.refl, rfl, rfl, rfl, by simp [unmodified.1], id⟩
    · exact .refl mid

theorem declare_spec {keys : List String} {instants : List TimeInstantId} (dated : w.Dated)
    (run : declare keys w = .ok instants w') : ∃ sequence, w.plan.sequence = some sequence ∧
      List.Forall₂ (w'.session.InstantAt sequence) keys instants := by
  simp only [declare, bind_eq_ok, get_eq_ok] at run
  obtain ⟨_, _, ⟨rfl, rfl⟩, run⟩ := run
  cases same : w.plan.sequence with
  | none => simp [same, lift_eq_ok] at run
  | some sequence =>
    simp only [same, bind_eq_ok, update_eq_ok, pure_eq_ok] at run
    obtain ⟨instants', mid, each, _, _, rfl, rfl, rfl⟩ := run
    have declared := mapM_declareKey_spec dated same each
    exact ⟨sequence, rfl, declared⟩

/-! ## Differencing -/

/-- The difference quotient of a term, and the form that it makes unknown. -/
def differenced (term : Signed Term) (start stop : String) :
    Discretize (Signed Term × FormId) := do
  match ← differentiated? (← get).session term.value with
  | none => reject (.pattern (.notDifferentiable term.value.lin))
  | some u =>
    let plan := (← get).plan
    let start ← plan.declaredInstant start
    let stop ← plan.declaredInstant stop
    let (quotient, after) ← (differenceQuotient u start stop : Derive _)
    let new ← Term.create (← get).session term.value.kind quotient term.value.f2
    return (⟨term.sign, new⟩, after)

theorem differentiate_eq (position : Position) (term : Signed Term) (start stop : String) :
    differentiate position term start stop = differenced term start stop >>= fun result =>
      update fun plan => (plan.edit position result.1).addUnknown position result.2 := by
  simp only [differentiate, differenced, bind_assoc]
  refine bind_congr fun w => bind_congr fun u => ?_
  cases u with
  | none => rfl
  | some u => simp only [bind_assoc, pure_bind]

theorem differenced_prepares (term : Signed Term) (start stop : String) :
    (differenced term start stop).Prepares w := by
  refine .get_bind (.lift_bind fun u _ => ?_)
  cases u with
  | none => exact .lift
  | some u =>
    exact .get_bind (.lift_bind fun _ _ => .lift_bind fun _ _ =>
      .derive_bind (differenceQuotient_grows _ _ _) fun _ _ =>
        .get_bind (.lift_bind fun _ _ => .pure))

theorem differentiated?_spec {s : Session} {t : Term} {u : FormId}
    (run : differentiated? s t = .ok (some u)) :
    t.kind = .innerProduct ∧ s.Reads t.f1 (.unary .timeDerivative u) := by
  simp only [differentiated?, Outcome.bind_eq_ok] at run
  obtain ⟨pattern, found, a, foundForm, run⟩ := run
  split at run
  · rename_i derivative
    cases Outcome.pure_eq_ok.1 run
    refine ⟨?_, a, Arena.fetch_eq_ok_iff.1 foundForm, derivative⟩
    simp only [Term.pattern?, Outcome.bind_eq_ok] at found
    obtain ⟨a', foundFirst, b, -, found⟩ := found
    cases foundForm.symm.trans foundFirst
    cases kind : t.kind with
    | innerProduct => rfl
    | dualityPairing => simp [kind, derivative, Outcome.pure_eq_ok] at found
  · cases Outcome.pure_eq_ok.1 run

theorem declaredInstant_spec {key : String} {i : TimeInstantId} (dated : w.Dated)
    (run : w.plan.declaredInstant key = .ok i) :
    ∃ sequence, w.plan.sequence = some sequence ∧ w.session.InstantAt sequence key i := by
  rw [declaredInstant] at run
  cases known : w.plan.instant? key with
  | none => simp [known] at run
  | some instant =>
    rw [known] at run
    cases run
    exact instant?_spec dated known

theorem differenceQuotient_spec {s s' : Session} {u quotient after : FormId}
    {i j : TimeInstantId} {start stop : String} (sound : s.Sound)
    (begins : s.InstantAt sequence start i) (ends : s.InstantAt sequence stop j)
    (run : differenceQuotient u i j s = .ok (quotient, after) s') :
    ∃ before change duration, s'.IntervalBetween i j duration ∧
      s'.EvaluatedAt sequence u start before ∧ s'.EvaluatedAt sequence u stop after ∧
      s'.Reads change (.binary .difference after before) ∧
      s'.Reads quotient (.quotient change duration) := by
  simp only [differenceQuotient, Derive.bind_eq_ok, Derive.pure_eq_ok] at run
  obtain ⟨interval, s₁, between, before, s₂, first, after', s₃, second, change, s₄, subtracted, q,
    s₅, divided, same, rfl⟩ := run
  cases same
  have steps₁ := (TimeInterval.between_grows i j).steps between
  have steps₂ := (Form.evaluateAt_grows u i).steps first
  have steps₃ := (Form.evaluateAt_grows u j).steps second
  have steps₄ := (Form.sub_grows after before).steps subtracted
  have steps₅ := (Form.divide_grows change _).steps divided
  have last : s₃.Extends s₅ := steps₄.extends.trans steps₅.extends
  have sound₁ := sound.steps steps₁
  obtain ⟨x, found, ends'⟩ := TimeInterval.between_spec between
  have found₄ := steps₄.extends.timeIntervals
    (steps₃.extends.timeIntervals (steps₂.extends.timeIntervals found))
  obtain ⟨-, evaluated⟩ := Form.evaluateAt_spec sound₁ (steps₁.extends.instantAt begins) first
  obtain ⟨-, evaluated'⟩ := Form.evaluateAt_spec (sound₁.steps steps₂)
    (steps₂.extends.instantAt (steps₁.extends.instantAt ends)) second
  exact ⟨before, change, x.duration,
    ⟨interval, x, steps₅.extends.timeIntervals found₄, ends'.1, ends'.2, rfl⟩,
    (steps₃.extends.trans last).evaluatedAt evaluated, last.evaluatedAt evaluated',
    steps₅.extends.reads (Form.reads_of_sub subtracted),
    Form.reads_of_divide_interval found₄ divided⟩

theorem differenced_spec {term new : Signed Term} {start stop : String} {after : FormId}
    (sound : w.session.Sound) (dated : w.Dated)
    (run : differenced term start stop w = .ok (new, after) w') :
    ∃ sequence u, w.plan.sequence = some sequence ∧
      w'.session.Edited sequence (.difference start stop) term new ∧
      w'.session.Reads term.value.f1 (.unary .timeDerivative u) ∧
      w'.session.EvaluatedAt sequence u stop after := by
  simp only [differenced, bind_eq_ok, get_eq_ok, lift_eq_ok] at run
  obtain ⟨_, _, ⟨rfl, rfl⟩, u, _, ⟨differentiated, rfl⟩, run⟩ := run
  cases u with
  | none => simp [lift_eq_ok] at run
  | some u =>
    simp only [bind_eq_ok, get_eq_ok, lift_eq_ok, derive_eq_ok, pure_eq_ok] at run
    obtain ⟨_, _, ⟨rfl, rfl⟩, i, _, ⟨declared, rfl⟩, j, _, ⟨declared', rfl⟩, ⟨quotient, atStop⟩,
      _, ⟨s₁, difference, rfl⟩, _, _, ⟨rfl, rfl⟩, x, _, ⟨made, rfl⟩, same, rfl⟩ := run
    cases same
    obtain ⟨kind, derivative⟩ := differentiated?_spec differentiated
    obtain ⟨sequence, known, begins⟩ := declaredInstant_spec dated declared
    obtain ⟨sequence', known', ends⟩ := declaredInstant_spec dated declared'
    cases known.symm.trans known'
    obtain ⟨before, change, duration, interval, evaluated, evaluated', difference', divided⟩ :=
      differenceQuotient_spec sound begins ends difference
    have later := ((differenceQuotient_grows u i j).steps difference).extends
    exact ⟨sequence, u, known, .difference kind (later.reads derivative) (later.instantAt begins)
      (later.instantAt ends) interval evaluated evaluated' difference' divided made,
      later.reads derivative, evaluated'⟩

/-! ## Averaging -/

/-- A term in which a form is replaced by the mean of its evaluations at keys. -/
def replacedByMean (term : Signed Term) (f : FormId) (keys : List String) :
    Discretize (Signed Term) := do
  let instants ← declare keys
  match ← (instants.mapM (Form.evaluateAt f) : Derive _) with
  | [] => reject (.structural .noInstants)
  | first :: others =>
    let mean ← (mean first others : Derive _)
    let new ← (term.value.replace f mean : Derive _)
    return ⟨term.sign.compose new.sign, new.value⟩

/-- A term in which a form that occurs in it is averaged. -/
def averaged (term : Signed Term) (f : FormId) (keys : List String) :
    Discretize (Signed Term) := do
  if keys = [] then
    reject (.structural .noInstants)
  let s := (← get).session
  if !(← s.occursIn term.value.f1 f) then
    if !(← s.occursIn term.value.f2 f) then
      reject (.pattern (.notContained (← s.form f).lin term.value.lin))
  replacedByMean term f keys

theorem average_eq (position : Position) (term : Signed Term) (f : FormId) (keys : List String) :
    average position term f keys = averaged term f keys >>= fun new =>
      update fun plan => plan.edit position new := by
  have evaluations : (do
        let instants ← declare keys
        match ← (instants.mapM (Form.evaluateAt f) : Derive _) with
        | [] => reject (.structural .noInstants)
        | first :: others =>
          let mean ← (mean first others : Derive _)
          let new ← (term.value.replace f mean : Derive _)
          update fun plan => plan.edit position ⟨term.sign.compose new.sign, new.value⟩) =
      replacedByMean term f keys >>= fun new => update fun plan => plan.edit position new := by
    simp only [replacedByMean, bind_assoc]
    refine bind_congr fun instants => bind_congr fun forms => ?_
    cases forms with
    | nil => rfl
    | cons first others => simp only [bind_assoc, pure_bind]
  unfold average averaged
  by_cases empty : keys = []
  · simp only [if_pos empty]
    rfl
  · rw [if_neg empty, if_neg empty, bind_assoc]
    refine bind_congr fun w => ?_
    rw [bind_assoc]
    refine bind_congr fun first => ?_
    cases first with
    | true => exact evaluations
    | false =>
      rw [if_pos (by decide), if_pos (by decide), bind_assoc]
      refine bind_congr fun second => ?_
      cases second with
      | true => exact evaluations
      | false =>
        rw [if_pos (by decide), if_pos (by decide), bind_assoc]
        exact bind_congr fun _ => rfl

theorem replacedByMean_prepares (term : Signed Term) (f : FormId) (keys : List String) :
    (replacedByMean term f keys).Prepares w := by
  refine .bind (declare_prepares keys) fun instants _ _ => ?_
  refine .derive_bind (.mapM (fun _ _ => Form.evaluateAt_grows _ _) _ _) fun forms _ => ?_
  cases forms with
  | nil => exact .lift
  | cons first others =>
    exact .derive_bind (mean_grows _ _) fun _ _ =>
      .derive_bind (Term.replace_grows _ _ _) fun _ _ => .pure

theorem averaged_prepares (term : Signed Term) (f : FormId) (keys : List String) :
    (averaged term f keys).Prepares w := by
  have rejects {c : Rejection} {rest : PUnit → Discretize (Signed Term)} {w : Workspace} :
      (liftM (reject c : Outcome PUnit) >>= rest : Discretize _).Prepares w :=
    .lift_bind fun _ fails => by simp at fails
  have replaces := replacedByMean_prepares (w := w) term f keys
  rw [averaged]
  split
  · exact rejects
  · refine .get_bind (.lift_bind fun inFirst _ => ?_)
    split
    · refine .lift_bind fun inSecond _ => ?_
      split
      · exact .lift_bind fun _ _ => rejects
      · exact replaces
    · exact replaces

/-- Replacing by a mean is to declare the instants, to evaluate the form there, to form the mean
and to replace the form. -/
theorem replacedByMean_cases {term new : Signed Term} {f : FormId} {keys : List String}
    (run : replacedByMean term f keys w = .ok new w') :
    ∃ instants mid first others m x s₁ s₂ s₃, declare keys w = .ok instants mid ∧
      instants.mapM (Form.evaluateAt f) mid.session = .ok (first :: others) s₁ ∧
      mean first others s₁ = .ok m s₂ ∧ term.value.replace f m s₂ = .ok x s₃ ∧
      new = ⟨term.sign.compose x.sign, x.value⟩ ∧ w' = { mid with session := s₃ } := by
  simp only [replacedByMean, bind_eq_ok, derive_eq_ok] at run
  obtain ⟨instants, mid, declared, forms, _, ⟨s₁, evaluated, rfl⟩, run⟩ := run
  cases forms with
  | nil => simp [lift_eq_ok] at run
  | cons first others =>
    simp only [bind_eq_ok, derive_eq_ok, pure_eq_ok] at run
    obtain ⟨m, _, ⟨s₂, averaged, rfl⟩, x, _, ⟨s₃, replaced, rfl⟩, rfl, rfl⟩ := run
    exact ⟨instants, mid, first, others, m, x, s₁, s₂, s₃, declared, evaluated, averaged, replaced,
      rfl, rfl⟩

/-- A form that is averaged in a term occurs in it. -/
theorem averaged_cases {term new : Signed Term} {f : FormId} {keys : List String}
    (run : averaged term f keys w = .ok new w') : keys ≠ [] ∧
      (w.session.occursIn term.value.f1 f = .ok true ∨
        w.session.occursIn term.value.f2 f = .ok true) ∧
      replacedByMean term f keys w = .ok new w' := by
  rw [averaged] at run
  split at run
  · simp [bind_eq_ok, lift_eq_ok] at run
  · rename_i nonempty
    simp only [bind_eq_ok, get_eq_ok, lift_eq_ok] at run
    obtain ⟨_, _, ⟨rfl, rfl⟩, inFirst, _, ⟨occurs, rfl⟩, run⟩ := run
    cases inFirst with
    | true => exact ⟨nonempty, Or.inl occurs, run⟩
    | false =>
      simp only [Bool.not_false, if_true, bind_eq_ok, lift_eq_ok] at run
      obtain ⟨inSecond, _, ⟨occurs', rfl⟩, run⟩ := run
      cases inSecond with
      | true => exact ⟨nonempty, Or.inr occurs', run⟩
      | false => simp [bind_eq_ok, lift_eq_ok] at run

theorem averaged_spec {term new : Signed Term} {f : FormId} {keys : List String}
    (sound : w.session.Sound) (dated : w.Dated)
    (created : Term.create w.session term.value.kind term.value.f1 term.value.f2 = .ok term.value)
    (run : averaged term f keys w = .ok new w') :
    ∃ sequence, w.plan.sequence = some sequence ∧
      w'.session.Edited sequence (.mean f keys) term new := by
  obtain ⟨-, occurs, run⟩ := averaged_cases run
  obtain ⟨instants, mid, first, others, m, x, s₁, s₂, s₃, declared, evaluated, averaged, replaced,
    rfl, rfl⟩ := replacedByMean_cases run
  obtain ⟨sequence, same, known⟩ := declare_spec dated declared
  have declares := ((declare_prepares keys).of_ok declared).steps
  have evaluates := (Derive.Grows.mapM (fun i _ => Form.evaluateAt_grows f i) _ _).steps evaluated
  have evaluations := Form.mapM_evaluateAt_spec (sound.steps declares) known evaluated
  have averages := (mean_grows first others).steps averaged
  have replaces := (Term.replace_grows _ _ _).steps replaced
  have before := (declares.extends.trans evaluates.extends).trans averages.extends
  obtain ⟨sign, g1, g2, substituted, substituted', made⟩ :=
    Term.replace_spec (Term.create_mono before created) replaced
  have later := before.trans replaces.extends
  refine ⟨sequence, same, ?_⟩
  rw [sign, Sign.compose_plus]
  exact .mean (occurs.imp later.occursIn_eq_ok later.occursIn_eq_ok)
    (evaluations.imp fun _ _ => (averages.extends.trans replaces.extends).evaluatedAt)
    ((mean_spec averaged).mono replaces) substituted substituted' made

end Plan

end Variational
