import Variational.Proofs.Discretization.Runs

/-!
# The stage of a discretization

The stage of a plan sums up what happened to it: whether a term was differenced or
averaged, whether an instant is declared, whether a sequence is set. It is kept by hand,
and a declaration that fails after it declared a first instant leaves it behind.
`Workspace.Staged` is what every call keeps, whether it succeeds or fails; the stage is
true after every call of a run if and only if no declaration of the run breaks off so.
-/

namespace Variational

open Discretize

/-! ## Evaluating steps -/

namespace Discretize

variable {α β : Type} {w w' : Workspace} {a : α} {failure : Failure}

theorem get_bind {f : Workspace → Discretize β} : (get >>= f : Discretize β) w = f w w :=
  rfl

theorem bind_of_ok {m : Discretize α} {f : α → Discretize β} (run : m w = .ok a w') :
    (m >>= f) w = f a w' := by
  simp only [bind, EStateM.bind, run]

theorem bind_of_error {m : Discretize α} {f : α → Discretize β} (run : m w = .error failure w') :
    (m >>= f) w = .error failure w' := by
  simp only [bind, EStateM.bind, run]

theorem derive_bind_of_ok {m : Derive α} {f : α → Discretize β} {s' : Session}
    (run : m w.session = .ok a s') :
    (liftM m >>= f : Discretize β) w = f a { w with session := s' } :=
  bind_of_ok (derive_eq_ok.2 ⟨s', run, rfl⟩)

theorem derive_bind_of_error {m : Derive α} {f : α → Discretize β} {s' : Session}
    (run : m w.session = .error failure s') :
    (liftM m >>= f : Discretize β) w = .error failure { w with session := s' } :=
  bind_of_error (by simp only [liftM, monadLift, MonadLift.monadLift, run])

end Discretize

/-! ## True stages -/

namespace Workspace

/-- Some instant of the current sequence is declared. -/
def HasInstant (w : Workspace) : Prop :=
  ∃ sequence key i, w.plan.sequence = some sequence ∧ w.plan.instant? key = some i ∧
    w.session.InstantAt sequence key i

/-- The stage says which edits, instants and sequence there are. -/
structure Truthful (w : Workspace) (log : List (Position × Edit)) : Prop where
  modified : w.plan.stage = .modified ↔ log ≠ []
  instantsDeclared : log = [] → (w.plan.stage = .instantsDeclared ↔ w.HasInstant)
  sequenceSet : log = [] → ¬ w.HasInstant →
    (w.plan.stage = .sequenceSet ↔ w.plan.sequence.isSome = true)
  uninitialized : log = [] → ¬ w.HasInstant → w.plan.sequence = none →
    w.plan.stage = .uninitialized

/-- Instants are declared, and the stage denies it. -/
def Conceals (w : Workspace) : Prop :=
  w.plan.stage = .sequenceSet ∧ w.plan.instants ≠ []

/-- What is true of the stage after any calls. -/
structure Staged (w : Workspace) (log : List (Position × Edit)) : Prop where
  dated : w.Dated
  modified : w.plan.stage = .modified ↔ log ≠ []
  /-- Every edit needs an instant. -/
  edited : log ≠ [] → w.plan.instants ≠ []
  declared : w.plan.stage = .instantsDeclared → w.plan.instants ≠ []
  uninitialized : w.plan.stage = .uninitialized ↔ w.plan.sequence = none

variable {w w' : Workspace} {log : List (Position × Edit)}

theorem Dated.exists_sequence (dated : w.Dated) (nonempty : w.plan.instants ≠ []) :
    ∃ sequence, w.plan.sequence = some sequence := by
  obtain ⟨entry, member⟩ := List.exists_mem_of_ne_nil _ nonempty
  obtain ⟨sequence, same, -⟩ := dated entry member
  exact ⟨sequence, same⟩

theorem Dated.hasInstant_iff (dated : w.Dated) : w.HasInstant ↔ w.plan.instants ≠ [] := by
  constructor
  · rintro ⟨_, key, i, -, known, -⟩ empty
    simp [Plan.instant?, empty] at known
  · intro nonempty
    obtain ⟨⟨key, i⟩, member⟩ := List.exists_mem_of_ne_nil _ nonempty
    cases known : w.plan.instant? key with
    | none =>
      have absent : ∀ entry ∈ w.plan.instants, entry.1 ≠ key := by
        simpa [Plan.instant?] using known
      exact absurd rfl (absent _ member)
    | some i =>
      obtain ⟨sequence, same, instantAt⟩ := Plan.instant?_spec dated known
      exact ⟨sequence, key, i, same, known, instantAt⟩

/-- The stage is true unless it conceals instants. -/
theorem Staged.truthful_iff (staged : w.Staged log) : w.Truthful log ↔ ¬ w.Conceals := by
  have instants := staged.dated.hasInstant_iff
  constructor
  · intro truthful conceals
    obtain ⟨stage, nonempty⟩ := conceals
    have unedited : log = [] := by
      by_contra edited
      simp [staged.modified.2 edited] at stage
    have declared := (truthful.instantsDeclared unedited).2 (instants.2 nonempty)
    simp [stage] at declared
  · intro honest
    have unmodified : log = [] → w.plan.stage ≠ .modified := fun unedited same =>
      staged.modified.1 same unedited
    refine ⟨staged.modified, fun unedited =>
      ⟨fun stage => instants.2 (staged.declared stage), fun has => ?_⟩,
      fun unedited without => ⟨fun stage => ?_, fun set => ?_⟩,
      fun _ _ => staged.uninitialized.2⟩
    · obtain ⟨sequence, same⟩ := staged.dated.exists_sequence (instants.1 has)
      cases stage : w.plan.stage with
      | uninitialized => simp [staged.uninitialized.1 stage] at same
      | sequenceSet => exact absurd ⟨stage, instants.1 has⟩ honest
      | instantsDeclared => rfl
      | modified => exact absurd stage (unmodified unedited)
    · rw [← Option.ne_none_iff_isSome]
      intro unset
      simp [staged.uninitialized.2 unset] at stage
    · cases stage : w.plan.stage with
      | uninitialized => simp [staged.uninitialized.1 stage] at set
      | sequenceSet => rfl
      | instantsDeclared => exact absurd (instants.2 (staged.declared stage)) without
      | modified => exact absurd stage (unmodified unedited)

/-- Nothing was declared or edited at the start. -/
theorem Staged.initial (s : Session) : Workspace.Staged ⟨s, {}⟩ [] where
  dated _ member := by cases member
  modified := by simp
  edited edited := absurd rfl edited
  declared stage := by cases stage
  uninitialized := iff_of_true rfl rfl

/-! ## Declarations that break off -/

/-- Of some keys, of which none had been declared, some but not all were. -/
def BrokenOff (w w' : Workspace) (keys : List String) : Prop :=
  w.plan.instants = [] ∧ w'.plan.instants ≠ [] ∧ ∃ key ∈ keys, w'.plan.instant? key = none

/-- What declaring keys does to the stage of a plan: the stage stays, and then the first
instants were declared by a declaration that breaks off, or it becomes `instantsDeclared`. -/
structure Announces (w w' : Workspace) (keys : List String) : Prop extends w.Prepared w' where
  instants : w.plan.instants ≠ [] → w'.plan.instants ≠ []
  stage : w'.plan.stage = w.plan.stage ∧
      (w.plan.stage ≠ .modified → w.plan.instants = [] → w'.plan.instants ≠ [] →
        ∃ key ∈ keys, w'.plan.instant? key = none) ∨
    w'.plan.stage = .instantsDeclared ∧ w'.plan.instants ≠ [] ∧
      ∀ key ∈ keys, w'.plan.instant? key ≠ none

namespace Announces

variable {keys : List String}

/-- A step that leaves the plan alone declares nothing. -/
theorem of_plan_eq (prepared : w.Prepared w') (same : w'.plan = w.plan) :
    w.Announces w' keys where
  toPrepared := prepared
  instants nonempty := same ▸ nonempty
  stage := Or.inl ⟨by rw [same], fun _ empty nonempty => absurd (same ▸ empty) nonempty⟩

theorem staged (announces : w.Announces w' keys) (staged : w.Staged log) : w'.Staged log where
  dated := announces.dated staged.dated
  modified := announces.modified.trans staged.modified
  edited nonempty := announces.instants (staged.edited nonempty)
  declared stage := by
    rcases announces.stage with ⟨same, -⟩ | ⟨-, nonempty, -⟩
    · exact announces.instants (staged.declared (same ▸ stage))
    · exact nonempty
  uninitialized := by
    rcases announces.stage with ⟨same, -⟩ | ⟨declared, nonempty, -⟩
    · rw [same, announces.sequence]
      exact staged.uninitialized
    · obtain ⟨sequence, set⟩ := (announces.dated staged.dated).exists_sequence nonempty
      simp [declared, set]

/-- Instants become concealed only when a declaration breaks off. -/
theorem conceals (announces : w.Announces w' keys) (conceals : w'.Conceals) :
    w.Conceals ∨ w.BrokenOff w' keys := by
  obtain ⟨stage, nonempty⟩ := conceals
  rcases announces.stage with ⟨same, breaks⟩ | ⟨declared, -⟩
  · rw [same] at stage
    by_cases empty : w.plan.instants = []
    · exact Or.inr ⟨empty, nonempty, breaks (by simp [stage]) empty nonempty⟩
    · exact Or.inl ⟨stage, empty⟩
  · simp [declared] at stage

/-- A declaration that breaks off conceals the instants that it declared. -/
theorem conceals_of_brokenOff (announces : w.Announces w' keys) (staged : w.Staged log)
    (broken : w.BrokenOff w' keys) : w'.Conceals := by
  obtain ⟨empty, nonempty, key, member, absent⟩ := broken
  refine ⟨?_, nonempty⟩
  rcases announces.stage with ⟨same, -⟩ | ⟨-, -, all⟩
  · obtain ⟨sequence, set⟩ := (announces.dated staged.dated).exists_sequence nonempty
    cases stage : w.plan.stage with
    | uninitialized => simp [announces.sequence, staged.uninitialized.1 stage] at set
    | sequenceSet => exact same.trans stage
    | instantsDeclared => exact absurd empty (staged.declared stage)
    | modified => exact absurd empty (staged.edited (staged.modified.1 stage))
  · exact absurd absent (all key member)

end Announces

end Workspace

/-! ## Steps that announce -/

namespace Discretize

variable {α β : Type} {w : Workspace} {keys : List String}

/-- A step leaves the plan alone, whether it succeeds or fails. -/
def KeepsPlan (m : Discretize α) : Prop :=
  ∀ w, (m.leaves w).plan = w.plan

namespace KeepsPlan

theorem pure {a : α} : (Pure.pure a : Discretize α).KeepsPlan :=
  fun _ => rfl

theorem get : (MonadState.get : Discretize Workspace).KeepsPlan :=
  fun _ => rfl

theorem derive {m : Derive α} : (liftM m : Discretize α).KeepsPlan := by
  intro w
  simp only [leaves, liftM, monadLift, MonadLift.monadLift]
  cases m w.session <;> rfl

theorem lift {o : Outcome α} : (liftM o : Discretize α).KeepsPlan :=
  derive (m := liftM o)

theorem bind {m : Discretize α} {f : α → Discretize β} (first : m.KeepsPlan)
    (rest : ∀ a, (f a).KeepsPlan) : (m >>= f).KeepsPlan := by
  intro w
  have same := first w
  rw [leaves_bind]
  unfold leaves at same
  cases run : m w with
  | ok a mid =>
    rw [run] at same
    exact (rest a mid).trans same
  | error failure mid => rwa [run] at same

end KeepsPlan

/-- What a step does to the stage is what declaring keys does to it. -/
def Announces (m : Discretize α) (keys : List String) (w : Workspace) : Prop :=
  w.Announces (m.leaves w) keys

namespace Announces

theorem of_keepsPlan {m : Discretize α} (prepares : m.Prepares w) (keeps : m.KeepsPlan) :
    m.Announces keys w :=
  .of_plan_eq prepares (keeps w)

theorem get_bind {f : Workspace → Discretize β} (rest : (f w).Announces keys w) :
    (get >>= f : Discretize β).Announces keys w :=
  rest

theorem lift_bind {o : Outcome α} {f : α → Discretize β}
    (rest : ∀ a, o = .ok a → (f a).Announces keys w) :
    (liftM o >>= f : Discretize β).Announces keys w := by
  cases o with
  | ok a => exact rest a rfl
  | error failure => exact .of_plan_eq (.refl w) rfl

/-- After a step that announces, a step that leaves the plan alone. -/
theorem bind_keepsPlan {m : Discretize α} {f : α → Discretize β} (first : m.Announces keys w)
    (prepares : (m >>= f).Prepares w) (rest : ∀ a, (f a).KeepsPlan) :
    (m >>= f).Announces keys w := by
  have same : ((m >>= f).leaves w).plan = (m.leaves w).plan := by
    rw [leaves_bind, leaves]
    cases m w with
    | ok a mid => exact rest a mid
    | error failure mid => rfl
  refine ⟨prepares, fun nonempty => same ▸ first.instants nonempty, ?_⟩
  rw [same]
  exact first.stage

end Announces

end Discretize

/-! ## Declaring instants -/

namespace Plan

variable {plan plan' plan'' : Plan} {key : String} {sequence : TimeSequenceId} {w : Workspace}

/-- A plan with further instants. -/
def Adds (plan plan' : Plan) : Prop :=
  ∃ added, plan' = { plan with instants := plan.instants ++ added }

theorem Adds.refl (plan : Plan) : plan.Adds plan :=
  ⟨[], by rw [List.append_nil]⟩

theorem Adds.trans (first : plan.Adds plan') (second : plan'.Adds plan'') : plan.Adds plan'' := by
  obtain ⟨added, rfl⟩ := first
  obtain ⟨added', rfl⟩ := second
  exact ⟨added ++ added', by rw [List.append_assoc]⟩

theorem Adds.stage_eq (adds : plan.Adds plan') : plan'.stage = plan.stage := by
  obtain ⟨_, rfl⟩ := adds
  rfl

theorem Adds.instants_ne_nil (adds : plan.Adds plan') (nonempty : plan.instants ≠ []) :
    plan'.instants ≠ [] := by
  obtain ⟨_, rfl⟩ := adds
  simp [nonempty]

/-- A key that is declared stays declared. -/
theorem Adds.instant?_ne_none (adds : plan.Adds plan') (declared : plan.instant? key ≠ none) :
    plan'.instant? key ≠ none := by
  obtain ⟨added, rfl⟩ := adds
  simp only [instant?, ne_eq, Option.map_eq_none_iff, List.find?_append] at declared ⊢
  simp [declared]

/-- Declaring a key declares it, or fails and leaves the plan alone. -/
theorem declareKey_cases (sequence : TimeSequenceId) (key : String) (w : Workspace) :
    (∃ i w', declareKey sequence key w = .ok i w' ∧ w.plan.Adds w'.plan ∧
      w'.plan.instant? key ≠ none) ∨
    ∃ failure w', declareKey sequence key w = .error failure w' ∧ w'.plan = w.plan ∧
      w.plan.instant? key = none := by
  cases known : w.plan.instant? key with
  | some i =>
    refine Or.inl ⟨i, w, ?_, .refl _, by simp [known]⟩
    rw [declareKey, get_bind, known]
    rfl
  | none =>
    cases made : TimeInstant.atKey sequence key w.session with
    | ok i s' =>
      refine Or.inl ⟨i, ⟨s', { w.plan with instants := w.plan.instants ++ [(key, i)] }⟩, ?_,
        ⟨[(key, i)], rfl⟩, by simp [instant?]⟩
      rw [declareKey, get_bind, known]
      exact derive_bind_of_ok made
    | error failure s' =>
      refine Or.inr ⟨failure, { w with session := s' }, ?_, rfl, rfl⟩
      rw [declareKey, get_bind, known]
      exact derive_bind_of_error made

/-- Declaring keys declares all of them, or fails and leaves one undeclared. -/
theorem mapM_declareKey_cases (sequence : TimeSequenceId) (keys : List String) (w : Workspace) :
    (∃ instants w', keys.mapM (declareKey sequence) w = .ok instants w' ∧ w.plan.Adds w'.plan ∧
      ∀ key ∈ keys, w'.plan.instant? key ≠ none) ∨
    ∃ failure w', keys.mapM (declareKey sequence) w = .error failure w' ∧ w.plan.Adds w'.plan ∧
      ∃ key ∈ keys, w'.plan.instant? key = none := by
  induction keys generalizing w with
  | nil => exact Or.inl ⟨[], w, rfl, .refl _, by simp⟩
  | cons key keys ih =>
    rw [List.mapM_cons]
    rcases declareKey_cases sequence key w with
      ⟨i, mid, first, adds, declared⟩ | ⟨failure, mid, first, same, absent⟩
    · rcases ih mid with ⟨instants, last, rest, adds', all⟩ | ⟨failure, last, rest, adds', missing⟩
      · refine Or.inl ⟨i :: instants, last, ?_, adds.trans adds', ?_⟩
        · rw [bind_of_ok first, bind_of_ok rest]
          rfl
        · exact List.forall_mem_cons.2 ⟨adds'.instant?_ne_none declared, all⟩
      · obtain ⟨other, member, absent⟩ := missing
        refine Or.inr ⟨failure, last, ?_, adds.trans adds', other, .tail _ member, absent⟩
        rw [bind_of_ok first, bind_of_error rest]
    · refine Or.inr ⟨failure, mid, bind_of_error first, ?_, key, .head _, same ▸ absent⟩
      rw [same]
      exact .refl _

/-- The plan in which declared instants are announced. -/
def announce (plan : Plan) : Plan :=
  if plan.stage ≠ .modified ∧ plan.instants ≠ [] then
    { plan with stage := .instantsDeclared }
  else
    plan

theorem instants_announce : plan.announce.instants = plan.instants := by
  rw [announce]
  split <;> rfl

theorem instant?_announce : plan.announce.instant? key = plan.instant? key := by
  rw [instant?, instants_announce, instant?]

/-- Declaring keys announces what it declared if it succeeds. -/
theorem declare_cases (keys : List String) (w : Workspace) : ∃ mid, w.plan.Adds mid ∧
    ((∃ instants w', declare keys w = .ok instants w' ∧ w'.plan = mid.announce ∧
      ∀ key ∈ keys, mid.instant? key ≠ none) ∨
    ∃ failure w', declare keys w = .error failure w' ∧ w'.plan = mid ∧
      (mid = w.plan ∨ ∃ key ∈ keys, mid.instant? key = none)) := by
  cases set : w.plan.sequence with
  | none =>
    refine ⟨w.plan, .refl _, Or.inr ⟨.rejected (.state .noSequence), w, ?_, rfl, Or.inl rfl⟩⟩
    rw [declare, get_bind, set]
    rfl
  | some sequence =>
    rcases mapM_declareKey_cases sequence keys w with
      ⟨instants, mid, run, adds, all⟩ | ⟨failure, mid, run, adds, missing⟩
    · refine ⟨mid.plan, adds, Or.inl ⟨instants, { mid with plan := mid.plan.announce }, ?_, rfl,
        all⟩⟩
      rw [declare, get_bind, set]
      exact bind_of_ok run
    · refine ⟨mid.plan, adds, Or.inr ⟨failure, mid, ?_, rfl, Or.inr missing⟩⟩
      rw [declare, get_bind, set]
      exact bind_of_error run

theorem declare_announces (keys : List String) : (declare keys).Announces keys w := by
  have prepared : w.Prepared ((declare keys).leaves w) := declare_prepares keys
  unfold Discretize.Announces
  obtain ⟨mid, adds, ⟨instants, w', run, plan, all⟩ | ⟨failure, w', run, plan, missing⟩⟩ :=
    declare_cases keys w
  · rw [leaves_of_ok run] at prepared ⊢
    refine ⟨prepared, fun nonempty => ?_, ?_⟩
    · rw [plan, instants_announce]
      exact adds.instants_ne_nil nonempty
    · simp only [plan, instants_announce, instant?_announce]
      by_cases announced : mid.stage ≠ .modified ∧ mid.instants ≠ []
      · exact Or.inr ⟨by rw [announce, if_pos announced], announced.2, all⟩
      · rw [announce, if_neg announced, adds.stage_eq]
        rw [adds.stage_eq] at announced
        exact Or.inl ⟨rfl, fun unmodified _ nonempty => absurd ⟨unmodified, nonempty⟩ announced⟩
  · rw [leaves, run] at prepared ⊢
    rcases missing with rfl | missing
    · exact .of_plan_eq prepared plan
    · refine ⟨prepared, fun nonempty => plan ▸ adds.instants_ne_nil nonempty, Or.inl ⟨?_, ?_⟩⟩
      · rw [plan, adds.stage_eq]
      · exact fun _ _ _ => plan ▸ missing

/-! ## Preparing edits -/

theorem differenced_keepsPlan (term : Signed Term) (start stop : String) :
    (differenced term start stop).KeepsPlan := by
  refine .bind .get fun w => .bind .lift fun u => ?_
  cases u with
  | none => exact .lift
  | some u =>
    exact .bind .get fun _ => .bind .lift fun _ => .bind .lift fun _ => .bind .derive fun _ =>
      .bind .get fun _ => .bind .lift fun _ => .pure

/-- A term is differenced between declared instants. -/
theorem differenced_hasInstant {term : Signed Term} {start stop : String}
    {r : Signed Term × FormId} {w' : Workspace} (dated : w.Dated)
    (run : differenced term start stop w = .ok r w') : w.HasInstant := by
  simp only [differenced, bind_eq_ok, get_eq_ok, lift_eq_ok] at run
  obtain ⟨_, _, ⟨rfl, rfl⟩, u, _, ⟨-, rfl⟩, run⟩ := run
  cases u with
  | none => simp [lift_eq_ok] at run
  | some u =>
    simp only [bind_eq_ok, get_eq_ok, lift_eq_ok] at run
    obtain ⟨_, _, ⟨rfl, rfl⟩, i, _, ⟨declared, rfl⟩, -⟩ := run
    rw [declaredInstant] at declared
    cases known : w.plan.instant? start with
    | none => simp [known] at declared
    | some i =>
      obtain ⟨sequence, same, instantAt⟩ := instant?_spec dated known
      exact ⟨sequence, start, i, same, known, instantAt⟩

theorem replacedByMean_announces (term : Signed Term) (f : FormId) (keys : List String) :
    (replacedByMean term f keys).Announces keys w := by
  refine .bind_keepsPlan (declare_announces keys) (replacedByMean_prepares term f keys) fun _ => ?_
  refine .bind .derive fun forms => ?_
  cases forms with
  | nil => exact .lift
  | cons first others => exact .bind .derive fun _ => .bind .derive fun _ => .pure

theorem averaged_announces (term : Signed Term) (f : FormId) (keys : List String) :
    (averaged term f keys).Announces keys w := by
  have rejects {c : Rejection} {rest : PUnit → Discretize (Signed Term)} {w : Workspace} :
      (liftM (reject c : Outcome PUnit) >>= rest : Discretize _).Announces keys w :=
    .lift_bind fun _ fails => by simp at fails
  have replaces := replacedByMean_announces (w := w) term f keys
  rw [averaged]
  split
  · exact rejects
  · refine .get_bind (.lift_bind fun inFirst _ => ?_)
    split
    · refine .lift_bind fun inSecond _ => ?_
      split
      · exact .lift_bind fun _ _ => rejects
      · exact replaces
    · exact replaces

theorem replacedByMean_declares {term new : Signed Term} {f : FormId} {keys : List String}
    {w' : Workspace} (run : replacedByMean term f keys w = .ok new w') :
    ∀ key ∈ keys, w'.plan.instant? key ≠ none := by
  simp only [replacedByMean, bind_eq_ok, derive_eq_ok] at run
  obtain ⟨instants, mid, declared, forms, _, ⟨s₁, -, rfl⟩, run⟩ := run
  have same : w'.plan = mid.plan := by
    cases forms with
    | nil => simp [lift_eq_ok] at run
    | cons first others =>
      simp only [bind_eq_ok, derive_eq_ok, pure_eq_ok] at run
      obtain ⟨_, _, ⟨_, -, rfl⟩, _, _, ⟨_, -, rfl⟩, -, rfl⟩ := run
      rfl
  obtain ⟨plan, -, ⟨_, _, run', announced, all⟩ | ⟨_, _, run', -⟩⟩ := declare_cases keys w
  · cases declared.symm.trans run'
    intro key member
    rw [same, announced, instant?_announce]
    exact all key member
  · cases declared.symm.trans run'

/-- A form is averaged over declared instants, of which there is at least one. -/
theorem averaged_declares {term new : Signed Term} {f : FormId} {keys : List String}
    {w' : Workspace} (run : averaged term f keys w = .ok new w') :
    keys ≠ [] ∧ ∀ key ∈ keys, w'.plan.instant? key ≠ none := by
  rw [averaged] at run
  split at run
  · simp [bind_eq_ok, lift_eq_ok] at run
  · rename_i nonempty
    refine ⟨nonempty, ?_⟩
    simp only [bind_eq_ok, get_eq_ok, lift_eq_ok] at run
    obtain ⟨_, _, ⟨rfl, rfl⟩, inFirst, _, ⟨-, rfl⟩, run⟩ := run
    cases inFirst with
    | true => exact replacedByMean_declares run
    | false =>
      simp only [Bool.not_false, if_true, bind_eq_ok, lift_eq_ok] at run
      obtain ⟨inSecond, _, ⟨-, rfl⟩, run⟩ := run
      cases inSecond with
      | true => exact replacedByMean_declares run
      | false => simp [bind_eq_ok, lift_eq_ok] at run

/-! ## Setting the sequence -/

theorem instants_ne_nil_of_instant? (declared : plan.instant? key ≠ none) : plan.instants ≠ [] := by
  intro empty
  simp [instant?, empty] at declared

end Plan

/-- An edit is recorded in a plan with instants. -/
theorem Workspace.Staged.record {w : Workspace} {log : List (Position × Edit)} {p : Position}
    {new : Signed Term} {unknown : Option FormId} (dated : w.Dated)
    (nonempty : w.plan.instants ≠ []) (edited : log ≠ []) :
    Workspace.Staged { w with plan := w.plan.record p new unknown } log where
  dated entry member := by
    rw [Plan.instants_record] at member
    rw [Plan.sequence_record]
    exact dated entry member
  modified := iff_of_true Plan.stage_record edited
  edited _ := by rwa [Plan.instants_record]
  declared _ := by rwa [Plan.instants_record]
  uninitialized := by
    obtain ⟨sequence, set⟩ := dated.exists_sequence nonempty
    simp [Plan.stage_record, Plan.sequence_record, set]

/-! ## Calls -/

namespace Call

variable {source : DiscretizationSource} {w : Workspace} {log : List (Position × Edit)}

/-- The keys that a call declares. -/
def keys {Address : Type} : Call Address → List String
  | .declare keys => keys
  | .average _ _ keys => keys
  | _ => []

/-- A call fails after it declared the first instants of a discretization, and leaves others that
it was to declare. -/
def BreaksOff (call : Call String) (source : DiscretizationSource) (w : Workspace) : Prop :=
  w.BrokenOff ((call.perform source).leaves w) call.keys

/-- What a call does to the stage. -/
structure KeepsStage (call : Call String) (source : DiscretizationSource) (w : Workspace)
    (log : List (Position × Edit)) : Prop where
  staged : ((call.perform source).leaves w).Staged (log ++ call.logged source w)
  conceals : ((call.perform source).leaves w).Conceals → w.Conceals ∨ call.BreaksOff source w
  breaksOff : call.BreaksOff source w → ((call.perform source).leaves w).Conceals

theorem KeepsStage.of_announces {call : Call String} (staged : w.Staged log)
    (announces : (call.perform source).Announces call.keys w)
    (unlogged : call.logged source w = []) : call.KeepsStage source w log where
  staged := by
    rw [unlogged, List.append_nil]
    exact announces.staged staged
  conceals := announces.conceals
  breaksOff := announces.conceals_of_brokenOff staged

/-- A call that declares no keys cannot break off. -/
theorem KeepsStage.of_truthful {call : Call String} (noKeys : call.keys = [])
    (staged : ((call.perform source).leaves w).Staged (log ++ call.logged source w))
    (honest : ¬ ((call.perform source).leaves w).Conceals) : call.KeepsStage source w log where
  staged := staged
  conceals conceals := absurd conceals honest
  breaksOff broken := by
    obtain ⟨-, -, key, member, -⟩ := broken
    simp [noKeys] at member

/-- Setting the sequence is rejected, or leaves a stage that is read off the instants. -/
theorem leaves_setSequence (staged : w.Staged log) (sequence : TimeSequenceId) :
    (DiscretizationSource.setSequence sequence).leaves w = w ∨
      ((DiscretizationSource.setSequence sequence).leaves w).Staged log ∧
        ¬ ((DiscretizationSource.setSequence sequence).leaves w).Conceals := by
  rw [leaves, DiscretizationSource.setSequence_eq]
  cases set : w.plan.setSequence sequence with
  | error failure => exact Or.inl rfl
  | ok plan =>
    obtain ⟨unmodified, instants, rfl⟩ := Plan.setSequence_cases set
    have unedited : log = [] := by
      by_contra edited
      exact unmodified (staged.modified.2 edited)
    refine Or.inr ⟨⟨staged.dated.setSequence set, ?_, fun edited => absurd unedited edited, ?_, ?_⟩,
      ?_⟩
    all_goals by_cases empty : instants = []
    all_goals simp [Workspace.Conceals, unedited, empty]

/-- Setting the sequence in a session that may have grown. -/
theorem KeepsStage.of_sequence {call : Call String} {mid : Workspace} {sequence : TimeSequenceId}
    (noKeys : call.keys = []) (noEdit : call.edit? source = none) (staged : w.Staged log)
    (prepared : w.Prepared mid) (same : mid.plan = w.plan)
    (sets : (call.perform source).leaves w =
      (DiscretizationSource.setSequence sequence).leaves mid) :
    call.KeepsStage source w log := by
  have announces : w.Announces mid call.keys := .of_plan_eq prepared same
  rcases leaves_setSequence (announces.staged staged) sequence with rejected | ⟨set, honest⟩
  · rw [rejected] at sets
    exact .of_announces staged (by rwa [Discretize.Announces, sets]) (logged_eq_nil noEdit)
  · rw [← sets] at set honest
    refine .of_truthful noKeys ?_ honest
    rwa [logged_eq_nil noEdit, List.append_nil]

/-- An edit that succeeds needs instants, and it declares all its keys. -/
theorem KeepsStage.of_edit {call : Call String} {address : String} {e : Edit}
    {prepare : Signed Term → Discretize (Signed Term × Option FormId)} (staged : w.Staged log)
    (asks : call.edit? source = match source.locate address with
      | .ok (p, _) => some (p, e)
      | .error _ => none)
    (performs : call.perform source = source.edit address prepare >>= fun _ => pure Answer.done)
    (announces : ∀ t, (prepare t).Announces call.keys w)
    (declares : ∀ t r w', prepare t w = .ok r w' →
      w'.plan.instants ≠ [] ∧ ∀ key ∈ call.keys, w'.plan.instant? key ≠ none) :
    call.KeepsStage source w log := by
  have failed {w' : Workspace} (unlogged : call.logged source w = [])
      (last : (call.perform source).leaves w = w') (announces : w.Announces w' call.keys) :
      call.KeepsStage source w log :=
    .of_announces staged (by rwa [Discretize.Announces, last]) unlogged
  cases located : source.locate address with
  | error failure =>
    have run : call.perform source w = .error failure w := by
      rw [performs, bind_of_error (DiscretizationSource.edit_of_rejected located)]
    exact failed (by rw [logged, run]) (by rw [leaves, run]) (.of_plan_eq (.refl w) rfl)
  | ok found =>
    obtain ⟨p, t⟩ := found
    have announces := announces (w.plan.current p t)
    rw [Discretize.Announces, leaves] at announces
    have edits : source.edit address prepare w = (prepare (w.plan.current p t) >>= fun r =>
        Plan.update fun plan => plan.record p r.1 r.2) w :=
      DiscretizationSource.edit_of_located located
    cases prepared : prepare (w.plan.current p t) w with
    | error failure w' =>
      rw [prepared] at announces
      have run : call.perform source w = .error failure w' := by
        rw [performs, bind_of_error (edits.trans (bind_of_error prepared))]
      exact failed (by rw [logged, run]) (by rw [leaves, run]) announces
    | ok r w' =>
      rw [prepared] at announces
      obtain ⟨nonempty, all⟩ := declares _ _ _ prepared
      have run : call.perform source w =
          .ok .done { w' with plan := w'.plan.record p r.1 r.2 } := by
        rw [performs, bind_of_ok (edits.trans (bind_of_ok prepared))]
        rfl
      have last := leaves_of_ok run
      refine ⟨?_, fun conceals => ?_, fun broken => ?_⟩
      · rw [last, logged, run, asks, located]
        exact .record (announces.dated staged.dated) nonempty (by simp)
      · rw [last] at conceals
        simp [Workspace.Conceals, Plan.stage_record] at conceals
      · obtain ⟨-, -, key, member, absent⟩ := broken
        rw [last, Plan.instant?, Plan.instants_record] at absent
        exact absurd absent (all key member)

theorem keepsStage (staged : w.Staged log) (call : Call String) :
    call.KeepsStage source w log := by
  cases call with
  | setSequence sequence =>
    exact .of_sequence rfl rfl staged (.refl w) rfl (by rw [perform, leaves_bind_pure])
  | newSequence =>
    have prepares : (liftM TimeSequence.create : Discretize TimeSequenceId).Prepares w :=
      .derive TimeSequence.create_grows
    have same := Discretize.KeepsPlan.derive (m := TimeSequence.create) w
    rw [Prepares] at prepares
    cases created : (liftM TimeSequence.create : Discretize TimeSequenceId) w with
    | ok sequence mid =>
      rw [leaves_of_ok created] at prepares same
      have sets : (perform source .newSequence).leaves w =
          (DiscretizationSource.setSequence sequence).leaves mid := by
        rw [perform, leaves_bind_pure, DiscretizationSource.newSequence, leaves_bind, created]
        exact leaves_bind_pure _ _ _
      exact .of_sequence rfl rfl staged prepares same sets
    | error failure mid =>
      rw [leaves, created] at prepares same
      refine .of_announces staged ?_ (logged_eq_nil rfl)
      rw [Discretize.Announces, perform, leaves_bind_pure, DiscretizationSource.newSequence,
        leaves_bind, created]
      exact .of_plan_eq prepares same
  | declare keys =>
    refine .of_announces staged ?_ (logged_eq_nil rfl)
    rw [Discretize.Announces, perform, leaves_bind_pure]
    exact Plan.declare_announces keys
  | term address =>
    exact .of_announces staged (.of_keepsPlan (.get_bind (.bind .lift fun _ _ _ => .pure))
      (.bind .get fun _ => .bind .lift fun _ => .pure)) (logged_eq_nil rfl)
  | request r =>
    exact .of_announces staged (.of_keepsPlan (.derive_bind r.perform_grows fun _ _ => .pure)
      (.bind .derive fun _ => .pure)) (logged_eq_nil rfl)
  | differentiate address start stop =>
    refine .of_edit staged rfl (by rw [perform, DiscretizationSource.differentiate_eq]) ?_ ?_
    · exact fun t => .of_keepsPlan
        (.bind (Plan.differenced_prepares t start stop) fun _ _ _ => .pure)
        (.bind (Plan.differenced_keepsPlan t start stop) fun _ => .pure)
    · intro t r w' prepared
      obtain ⟨_, _, run, done⟩ := bind_eq_ok.1 prepared
      obtain ⟨-, rfl⟩ := pure_eq_ok.1 done
      have same := Plan.differenced_keepsPlan t start stop w
      rw [leaves_of_ok run] at same
      rw [same]
      exact ⟨staged.dated.hasInstant_iff.1 (Plan.differenced_hasInstant staged.dated run), by
        simp [keys]⟩
  | average address f keys =>
    refine .of_edit staged rfl (by rw [perform, DiscretizationSource.average_eq]) ?_ ?_
    · exact fun t => .bind_keepsPlan (Plan.averaged_announces t f keys)
        (.bind (Plan.averaged_prepares t f keys) fun _ _ _ => .pure) fun _ => .pure
    · intro t r w' prepared
      obtain ⟨_, _, run, done⟩ := bind_eq_ok.1 prepared
      obtain ⟨-, rfl⟩ := pure_eq_ok.1 done
      obtain ⟨nonempty, all⟩ := Plan.averaged_declares run
      obtain ⟨key, member⟩ := List.exists_mem_of_ne_nil _ nonempty
      exact ⟨Plan.instants_ne_nil_of_instant? (all key member), all⟩

/-! ## Runs -/

theorem performAll_concat (calls : List (Call String)) (call : Call String) :
    performAll source (calls ++ [call]) w =
      (call.perform source).leaves (performAll source calls w) := by
  rw [performAll, List.foldl_append]
  rfl

theorem staged_performAll (staged : w.Staged log) (calls : List (Call String)) :
    (performAll source calls w).Staged (log ++ Call.log source calls w) := by
  induction calls generalizing w log with
  | nil =>
    rw [Call.log, List.append_nil]
    exact staged
  | cons call calls ih =>
    rw [Call.log, ← List.append_assoc]
    exact ih (call.keepsStage staged).staged

/-- A run in which no call breaks off conceals nothing. -/
theorem not_conceals_performAll (staged : w.Staged log) (honest : ¬ w.Conceals)
    (calls : List (Call String)) (complete : ∀ before call, before ++ [call] <+: calls →
      ¬ call.BreaksOff source (performAll source before w)) :
    ¬ (performAll source calls w).Conceals := by
  induction calls generalizing w log with
  | nil => exact honest
  | cons call calls ih =>
    have keeps : call.KeepsStage source w log := call.keepsStage staged
    have first : ¬ call.BreaksOff source w := complete [] call ⟨calls, rfl⟩
    refine ih keeps.staged (fun conceals => ?_) fun before next within => ?_
    · exact (keeps.conceals conceals).elim honest first
    · exact complete (call :: before) next (List.cons_prefix_cons.2 ⟨rfl, within⟩)

end Call

/-- A term is differenced between declared instants. -/
theorem DiscretizationSource.differentiate_hasInstant (source : DiscretizationSource)
    {address start stop : String} {w w' : Workspace} (dated : w.Dated)
    (run : source.differentiate address start stop w = .ok () w') : w.HasInstant := by
  rw [differentiate_eq, edit] at run
  simp only [bind_eq_ok, get_eq_ok, lift_eq_ok] at run
  obtain ⟨_, _, ⟨rfl, rfl⟩, _, _, ⟨-, rfl⟩, _, _, ⟨_, _, differenced, -⟩, -⟩ := run
  exact Plan.differenced_hasInstant dated differenced

/-- The stage of a discretization is true after every call of a run, whether the calls succeed or
fail, if and only if no call of it breaks off a declaration. In any case the stage is true unless
no term was edited and it denies the instants that are declared. A term is differenced only
between declared instants, so only when the stage says so, if it is true. -/
theorem DiscretizationSource.stage_truthful (source : DiscretizationSource) (s : Session)
    (calls : List (Call String)) :
    let after := fun calls => Call.performAll source calls ⟨s, {}⟩
    let log := fun calls => Call.log source calls ⟨s, {}⟩
    ((∀ before, before <+: calls → (after before).Truthful (log before)) ↔
      ∀ before call, before ++ [call] <+: calls → ¬ call.BreaksOff source (after before)) ∧
    ((after calls).Truthful (log calls) ∨ log calls = [] ∧ (after calls).Conceals) ∧
    ∀ address start stop last,
      source.differentiate address start stop (after calls) = .ok () last →
        (after calls).HasInstant ∧ ((after calls).Truthful (log calls) →
          (after calls).plan.stage = .instantsDeclared ∨ (after calls).plan.stage = .modified) := by
  intro after log
  have initial : Workspace.Staged ⟨s, {}⟩ [] := .initial s
  have staged (calls) : (after calls).Staged (log calls) := Call.staged_performAll initial calls
  refine ⟨⟨fun truthful before call within broken => ?_, fun complete before within => ?_⟩, ?_, ?_⟩
  · have keeps : call.KeepsStage source (after before) (log before) :=
      call.keepsStage (staged before)
    have conceals := keeps.breaksOff broken
    rw [← Call.performAll_concat] at conceals
    exact (staged _).truthful_iff.1 (truthful _ within) conceals
  · refine (staged before).truthful_iff.2 ?_
    refine Call.not_conceals_performAll initial (by simp [Workspace.Conceals]) before ?_
    exact fun earlier call inside => complete earlier call (inside.trans within)
  · by_cases conceals : (after calls).Conceals
    · refine Or.inr ⟨?_, conceals⟩
      by_contra edited
      have stage := conceals.1
      simp [(staged calls).modified.2 edited] at stage
    · exact Or.inl ((staged calls).truthful_iff.2 conceals)
  · intro address start stop last run
    have declared := source.differentiate_hasInstant (staged calls).dated run
    refine ⟨declared, fun truthful => ?_⟩
    by_cases edited : log calls = []
    · exact Or.inl ((truthful.instantsDeclared edited).2 declared)
    · exact Or.inr (truthful.modified.2 edited)

/-- Of three keys the last is malformed, so the first two instants are declared and the call fails.
The stage stays behind, but a term can be differenced between these instants. -/
theorem DiscretizationSource.stage_conceals : ∃ s t, Session.Reachable {} s ∧
    Term.create s .innerProduct ⟨2⟩ ⟨1⟩ = .ok t ∧
      let w : WeakFormulation := ⟨⟨0⟩, [⟨[⟨.plus, t⟩], []⟩], [⟨1⟩], none⟩
      let calls : List (Call String) := [.newSequence, .declare ["k-1", "k", "k]"]]
      let last := Call.performAll (.formulation w) calls ⟨s, {}⟩
      w.WellFormed s ∧ Call.log (.formulation w) calls ⟨s, {}⟩ = [] ∧ last.HasInstant ∧
        last.plan.stage = .sequenceSet ∧ ¬ last.Truthful [] ∧
        ∃ after, differentiate (.formulation w) "0-0" "k-1" "k" last = .ok () after := by
  obtain ⟨s, reachable, livesA, livesV, livesRate, readsV, outcome⟩ :
      ∃ s, Session.Reachable {} s ∧ s.Lives ⟨0⟩ ⟨0⟩ 1 ∧ s.Lives ⟨1⟩ ⟨0⟩ 1 ∧ s.Lives ⟨2⟩ ⟨0⟩ 1 ∧
        s.Reads ⟨1⟩ .root ∧
        (match Term.create s .innerProduct ⟨2⟩ ⟨1⟩ with
          | .ok t =>
            let source := DiscretizationSource.formulation
              ⟨⟨0⟩, [⟨[⟨.plus, t⟩], []⟩], [⟨1⟩], none⟩
            let calls := [.newSequence, .declare ["k-1", "k", "k]"]]
            let last := Call.performAll source calls ⟨s, {}⟩
            decide (Call.log source calls ⟨s, {}⟩ = [] ∧ last.plan.stage = .sequenceSet ∧
              last.plan.instants ≠ [] ∧
              (match source.differentiate "0-0" "k-1" "k" last with
                | .ok _ _ => true
                | .error _ _ => false) = true)
          | .error _ => false) = true :=
    ⟨Request.performAll {} [.manifold 1, .mesh ⟨0⟩, .space ⟨0⟩ 1 .outer, .root ⟨0⟩ ⟨"a", "a"⟩,
      .root ⟨0⟩ ⟨"v", "v"⟩, .operator .timeDerivative ⟨0⟩], .performAll {} _, by decide +kernel⟩
  obtain ⟨m, foundMesh⟩ := reachable.sound.exists_mesh livesA
  obtain ⟨t, created, mesh⟩ := Term.create_succeeds .innerProduct livesRate livesV foundMesh rfl
  obtain ⟨kind, first, second, -⟩ := Term.create_spec created
  have tested : s.testedForm? ⟨1⟩ = .ok (some ⟨1⟩) :=
    Session.testedForm?_eq_ok_some.2 (.root readsV)
  have wellFormed : WeakFormulation.WellFormed ⟨⟨0⟩, [⟨[⟨.plus, t⟩], []⟩], [⟨1⟩], none⟩ s := by
    refine ⟨WeakFormulation.check_eq_ok.2 ⟨by simp, .cons ⟨Nat.one_pos, ⟨1, livesV⟩, ?_⟩ .nil⟩, ?_⟩
    · simpa [Equation.terms, second, WeakFormulation.TermFits] using ⟨tested, Or.inl mesh⟩
    · simpa [Equation.terms, kind, first, second] using created
  simp only [created, decide_eq_true_eq] at outcome
  obtain ⟨unedited, stage, nonempty, succeeds⟩ := outcome
  have staged : (Call.performAll (.formulation ⟨⟨0⟩, [⟨[⟨.plus, t⟩], []⟩], [⟨1⟩], none⟩)
      [.newSequence, .declare ["k-1", "k", "k]"]] ⟨s, {}⟩).Staged _ :=
    Call.staged_performAll (.initial s) _
  rw [unedited, List.append_nil] at staged
  refine ⟨s, t, reachable, created, wellFormed, unedited, staged.dated.hasInstant_iff.2 nonempty,
    stage, fun truthful => staged.truthful_iff.1 truthful ⟨stage, nonempty⟩, ?_⟩
  split at succeeds
  · exact ⟨_, ‹_›⟩
  · cases succeeds

end Variational
