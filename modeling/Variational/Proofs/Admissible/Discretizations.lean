import Variational.Proofs.Admissible.Systems
import Variational.Proofs.Discretization.Preparation
import Variational.Proofs.Discretization.Runs

/-!
# Discretizations that are answered

A discretization of terms that the session issued, with a plan that refers to issued
entities only, is rejected or leaves such a plan behind. An average is taken over as many
forms as there are keys.
-/

namespace Variational

open Session Discretize
open Refers (references)

variable {s : Session}

theorem Discretize.Prepares.grows {α : Type} {m : Discretize α} {w : Workspace}
    (prepares : m.Prepares w) : m.Grows w := by
  have steps := prepares.steps
  unfold leaves at steps
  unfold Grows after
  cases run : m w with
  | ok a w' => simpa only [run] using steps
  | error failure w' => simpa only [run] using steps

/-! ## Plans -/

theorem Plan.issued_iff {plan : Plan} : s.Issued plan ↔
    s.Issued plan.sequence ∧ s.Issued (plan.instants.map (·.2)) ∧
      s.Issued (plan.edits.map (·.2)) ∧ s.Issued (plan.unknowns.map (·.2)) := by
  rw [← issued_pair (p := (plan.edits.map (·.2), plan.unknowns.map (·.2))),
    ← issued_pair (p := (plan.instants.map (·.2), plan.edits.map (·.2), plan.unknowns.map (·.2))),
    ← issued_pair (p := (plan.sequence, plan.instants.map (·.2), plan.edits.map (·.2),
      plan.unknowns.map (·.2)))]
  rfl

/-- A closed session and a plan that refers to what the session issued. -/
structure Workspace.Closed (w : Workspace) : Prop where
  session : w.session.Closed
  plan : w.session.Issued w.plan

namespace Plan

variable {β : Type} {plan : Plan} {w : Workspace}

theorem update_bind {change : Plan → Plan} {rest : PUnit → Discretize β}
    {Q : Workspace → β → Prop} (answered : (rest ⟨⟩).Answered { w with plan := change w.plan } Q) :
    (update change >>= rest).Answered w Q :=
  answered

section Reading

variable (issued : s.Issued plan)

include issued

theorem issued_instant? {key : String} {instant : TimeInstantId}
    (declared : plan.instant? key = some instant) : s.Issued instant := by
  obtain ⟨entry, found, rfl⟩ := Option.map_eq_some_iff.1 declared
  have instants := (issued_iff.1 issued).2.1
  exact issued_list.1 instants _ (List.mem_map_of_mem (List.mem_of_find?_eq_some found))

theorem declaredInstant_answered (key : String) :
    (plan.declaredInstant key).Answered s.Issued := by
  rw [declaredInstant]
  split
  · rename_i instant declared
    exact issued_instant? issued declared
  · exact .reject

theorem issued_current {initial : Signed Term} (held : s.Issued initial) (position : Position) :
    s.Issued (plan.current position initial) := by
  rw [current]
  cases edited : plan.edits.find? (·.1 = position) with
  | none => exact held
  | some entry =>
    have edits := (issued_iff.1 issued).2.2.1
    exact issued_list.1 edits _ (List.mem_map_of_mem (List.mem_of_find?_eq_some edited))

theorem issued_unknownForms : s.Issued plan.unknownForms := by
  refine issued_list.2 fun f member => ?_
  obtain ⟨entry, listed, rfl⟩ := DiscretizationSource.mem_unknownForms member
  exact issued_list.1 (issued_iff.1 issued).2.2.2 _ (List.mem_map_of_mem listed)

theorem setSequence_answered {sequence : TimeSequenceId} (known : s.Issued sequence) :
    (plan.setSequence sequence).Answered s.Issued := by
  obtain ⟨-, instants, edited⟩ := issued_iff.1 issued
  rw [setSequence]
  split
  · exact .reject
  · refine issued_iff.2 ⟨known, ?_, edited⟩
    dsimp only
    split
    · exact instants
    · exact issued_nil

theorem issued_edit {t : Signed Term} (new : s.Issued t) (position : Position) :
    s.Issued (plan.edit position t) := by
  obtain ⟨sequence, instants, edits, unknowns⟩ := issued_iff.1 issued
  refine issued_iff.2 ⟨sequence, instants, ?_, unknowns⟩
  exact issued_cons.2 ⟨new, edits⟩

theorem issued_addUnknown {f : FormId} (new : s.Issued f) (position : Position) :
    s.Issued (plan.addUnknown position f) := by
  obtain ⟨sequence, instants, edits, unknowns⟩ := issued_iff.1 issued
  refine issued_iff.2 ⟨sequence, instants, edits, issued_list.2 ?_⟩
  refine List.forall_mem_map.2 fun entry member => ?_
  rcases mem_placeUnknown member with rfl | old
  · exact new
  · exact issued_list.1 unknowns _ (List.mem_map_of_mem old)

end Reading

/-! ## Declaring instants -/

section Steps

variable (closed : w.Closed)

include closed

theorem declareKey_answered {sequence : TimeSequenceId} (known : w.session.Issued sequence)
    (key : String) : (declareKey sequence key).Answered w fun w' instant =>
      w'.Closed ∧ w'.session.Issued instant := by
  refine .get_bind ?_
  cases declared : w.plan.instant? key with
  | some instant => exact .pure ⟨closed, issued_instant? closed.plan declared⟩
  | none =>
    refine .derive_bind (TimeInstant.atKey_grows _ _) (TimeInstant.atKey_answered known)
      fun instant s' steps held => update_bind (.pure ⟨⟨closed.session.later steps, ?_⟩, held⟩)
    obtain ⟨sequence', instants, edited⟩ := issued_iff.1 (closed.plan.later steps)
    refine issued_iff.2 ⟨sequence', ?_, edited⟩
    rw [List.map_append, issued_append]
    exact ⟨instants, issued_singleton.2 held⟩

theorem declareKeys_answered {sequence : TimeSequenceId} (known : w.session.Issued sequence)
    (keys : List String) : (keys.mapM (declareKey sequence)).Answered w fun w' instants =>
      w'.Closed ∧ w'.session.Issued instants ∧ instants.length = keys.length := by
  induction keys generalizing w with
  | nil => exact .pure ⟨closed, issued_nil, rfl⟩
  | cons key keys ih =>
    rw [List.mapM_cons]
    refine .bind (declareKey_grows _ _) (declareKey_answered closed known key)
      fun instant mid steps ⟨closed', held⟩ => ?_
    refine .bind (.mapM (fun key _ => declareKey_grows sequence key) _ _)
      (ih closed' (known.later steps)) fun instants w' later ⟨closed'', rest, count⟩ => .pure ?_
    exact ⟨closed'', issued_cons.2 ⟨held.later later, rest⟩, congrArg Nat.succ count⟩

/-- A declaration gives an instant for every key. -/
theorem declare_answered (keys : List String) : (declare keys).Answered w fun w' instants =>
    w'.Closed ∧ w'.session.Issued instants ∧ instants.length = keys.length := by
  refine .get_bind ?_
  cases given : w.plan.sequence with
  | none => exact .reject
  | some sequence =>
    have known := issued_option.1 (issued_iff.1 closed.plan).1 sequence given
    refine .bind (.mapM (fun key _ => declareKey_grows sequence key) _ _)
      (declareKeys_answered closed known keys) fun instants w' _ ⟨closed', held⟩ =>
        update_bind (.pure ⟨⟨closed'.session, ?_⟩, held⟩)
    dsimp only
    split
    · exact closed'.plan
    · exact closed'.plan

end Steps

/-- A form is evaluated once at every instant. -/
theorem evaluateAll_answered (closed : s.Closed) {f : FormId} {instants : List TimeInstantId}
    (issued : s.Issued f) (known : s.Issued instants) :
    (instants.mapM (Form.evaluateAt f)).Answered s fun s' forms =>
      s'.Issued forms ∧ forms.length = instants.length := by
  induction instants generalizing s with
  | nil => exact .pure ⟨issued_nil, rfl⟩
  | cons instant instants ih =>
    obtain ⟨first, others⟩ := issued_cons.1 known
    rw [List.mapM_cons]
    refine .bind (Form.evaluateAt_grows _ _) (Form.evaluateAt_answered closed issued first)
      fun form mid steps held => ?_
    refine .bind (.mapM (fun _ _ => Form.evaluateAt_grows _ _) _ _) (ih (closed.later steps)
      (issued.later steps) (others.later steps))
      fun forms s' later ⟨rest, count⟩ =>
        .pure ⟨issued_cons.2 ⟨held.later later, rest⟩, congrArg Nat.succ count⟩

/-! ## Differencing -/

theorem differentiated?_answered (closed : s.Closed) {t : Term} (issued : s.Issued t) :
    (differentiated? s t).Answered s.Issued := by
  refine .bind (Term.pattern?_answered issued closed) fun pattern _ => ?_
  refine .bind (closed.form_answered (Term.issued_first issued)) fun a held => ?_
  split
  · rename_i u shape
    exact .pure (held.operand (f := u) (by simp [shape, FormExpr.operands]))
  · exact .pure issued_none

theorem differenceQuotient_answered (closed : s.Closed) {u : FormId} {start stop : TimeInstantId}
    (issued : s.Issued u) (begins : s.Issued start) (ends : s.Issued stop) :
    (differenceQuotient u start stop).Answered s Issued := by
  refine .bind (TimeInterval.between_grows _ _) (TimeInterval.between_answered closed begins ends)
    fun interval s₁ steps₁ held₁ => ?_
  have closed₁ := closed.later steps₁
  refine .bind (Form.evaluateAt_grows _ _) (Form.evaluateAt_answered closed₁
    (issued.later steps₁) (begins.later steps₁)) fun before s₂ steps₂ held₂ => ?_
  have closed₂ := closed₁.later steps₂
  refine .bind (Form.evaluateAt_grows _ _) (Form.evaluateAt_answered closed₂
    (issued.later (steps₁.trans steps₂)) (ends.later (steps₁.trans steps₂)))
    fun after s₃ steps₃ held₃ => ?_
  have closed₃ := closed₂.later steps₃
  refine .bind (Form.sub_grows _ _) (Form.sub_answered closed₃ held₃ (held₂.later steps₃))
    fun difference s₄ steps₄ held₄ => ?_
  have divisor : s₄.Issued (Divisor.interval interval) :=
    held₁.later ((steps₂.trans steps₃).trans steps₄)
  refine .bind (Form.divide_grows _ _) (Form.divide_answered (closed₃.later steps₄) held₄ divisor)
    fun quotient s₅ steps₅ held₅ => ?_
  exact .pure (issued_pair.2 ⟨held₅, held₃.later (steps₄.trans steps₅)⟩)

section Edits

variable (closed : w.Closed) {t : Signed Term} (issued : w.session.Issued t)

include closed issued

theorem differenced_answered (start stop : String) :
    (differenced t start stop).Answered w fun w' result =>
      w'.Closed ∧ w'.session.Issued result := by
  refine .get_bind (.lift_bind (differentiated?_answered closed.session (t := t.value) issued)
    fun u held => ?_)
  cases u with
  | none => exact .reject
  | some u =>
    refine .get_bind (.lift_bind (declaredInstant_answered closed.plan start) fun i begins => ?_)
    refine .lift_bind (declaredInstant_answered closed.plan stop) fun j ends => ?_
    refine .derive_bind (differenceQuotient_grows _ _ _)
      (differenceQuotient_answered closed.session held begins ends)
      fun result s' steps difference => .get_bind ?_
    obtain ⟨quotient, after⟩ := issued_pair.1 difference
    have later := closed.session.later steps
    have second := Term.issued_second (t := t.value) (issued.later steps)
    exact .lift_bind (Term.create_answered later t.value.kind quotient second) fun new made =>
      .pure ⟨⟨later, closed.plan.later steps⟩, issued_pair.2 ⟨made, after⟩⟩

theorem differentiate_answered (position : Position) (start stop : String) :
    (differentiate position t start stop).Answered w fun w' _ => w'.Closed := by
  rw [differentiate_eq]
  refine .bind (differenced_prepares t start stop).grows
    (differenced_answered closed issued start stop) fun result w' _ ⟨closed', held⟩ => ?_
  obtain ⟨new, unknown⟩ := issued_pair.1 held
  exact ⟨closed'.session, issued_addUnknown (issued_edit closed'.plan new _) unknown _⟩

end Edits

/-! ## Averaging -/

/-- The evaluations of a form at the instants of keys. -/
def evaluations (f : FormId) (keys : List String) : Discretize (List FormId) := do
  let instants ← declare keys
  (instants.mapM (Form.evaluateAt f) : Derive _)

theorem evaluations_grows (f : FormId) (keys : List String) : (evaluations f keys).Grows w :=
  .bind (declare_grows keys) fun _ _ =>
    .derive (.mapM (fun _ _ => Form.evaluateAt_grows _ _) _ _)

theorem replacedByMean_eq (t : Signed Term) (f : FormId) (keys : List String) :
    replacedByMean t f keys = (do
      match ← evaluations f keys with
      | [] => reject (.structural .noInstants)
      | first :: others =>
        let mean ← (mean first others : Derive _)
        let new ← (t.value.replace f mean : Derive _)
        return ⟨t.sign.compose new.sign, new.value⟩) :=
  (bind_assoc (declare keys) _ _).symm

theorem mean_answered (closed : s.Closed) {first : FormId} {others : List FormId}
    (head : s.Issued first) (tail : s.Issued others) : (mean first others).Answered s Issued := by
  refine .bind (.foldlM (fun _ _ _ => Form.add_grows _ _) _ _ _)
    (.foldlM (fun _ _ _ => Form.add_grows _ _) head fun _ f member s' steps held =>
      Form.add_answered (closed.later steps) held ((issued_list.1 tail f member).later steps))
    fun sum s' steps held => ?_
  split
  · exact .pure held
  · exact Form.divide_answered (closed.later steps) held (issued_of_references_eq_nil rfl)

section Edits

variable (closed : w.Closed) {t : Signed Term} (issued : w.session.Issued t) {f : FormId}
  (known : w.session.Issued f)

include closed issued known

omit issued in
theorem evaluations_answered (keys : List String) :
    (evaluations f keys).Answered w fun w' forms =>
      w'.Closed ∧ w'.session.Issued forms ∧ forms.length = keys.length := by
  refine .bind (declare_grows keys) (declare_answered closed keys)
    fun instants w' steps ⟨closed', instants', count⟩ => ?_
  exact .derive (.mapM (fun _ _ => Form.evaluateAt_grows _ _) _ _)
    (evaluateAll_answered closed'.session (known.later steps) instants')
    fun forms s' later ⟨forms', count'⟩ =>
      ⟨⟨closed'.session.later later, closed'.plan.later later⟩, forms', count'.trans count⟩

theorem replacedByMean_answered (keys : List String) :
    (replacedByMean t f keys).Answered w fun w' new => w'.Closed ∧ w'.session.Issued new := by
  rw [replacedByMean_eq]
  refine .bind (evaluations_grows f keys) (evaluations_answered closed known keys)
    fun forms w₁ steps₁ ⟨closed₁, forms', _⟩ => ?_
  cases forms with
  | nil => exact .reject
  | cons first others =>
    obtain ⟨head, tail⟩ := issued_cons.1 forms'
    refine .derive_bind (mean_grows _ _)
      (mean_answered closed₁.session head tail) fun mean s₂ steps₂ held₂ => ?_
    have closed₂ := closed₁.session.later steps₂
    have term := issued.later (steps₁.trans steps₂)
    refine .derive_bind (Term.replace_grows _ _ _) (Term.replace_answered (t := t.value) term
      closed₂ (known.later (steps₁.trans steps₂)) held₂) fun new s₃ steps₃ held₃ => ?_
    exact .pure ⟨⟨closed₂.later steps₃, closed₁.plan.later (steps₂.trans steps₃)⟩, held₃⟩

theorem averaged_answered (keys : List String) :
    (averaged t f keys).Answered w fun w' new => w'.Closed ∧ w'.session.Issued new := by
  have rest := replacedByMean_answered closed issued known keys
  rw [averaged]
  refine .guard fun _ => .get_bind ?_
  refine .lift_bind (occursIn_answered f (Term.issued_first (t := t.value) issued))
    fun inFirst _ => ?_
  split
  · refine .lift_bind (occursIn_answered f (Term.issued_second (t := t.value) issued))
      fun inSecond _ => ?_
    split
    · exact .lift_bind (closed.session.form_answered known) fun _ _ => trivial
    · exact rest
  · exact rest

theorem average_answered (position : Position) (keys : List String) :
    (average position t f keys).Answered w fun w' _ => w'.Closed := by
  rw [average_eq]
  exact .bind (averaged_prepares t f keys).grows (averaged_answered closed issued known keys)
    fun new w' _ ⟨closed', held⟩ => ⟨closed'.session, issued_edit closed'.plan held _⟩

end Edits

end Plan

/-! ## Sources -/

namespace DiscretizationSource

variable {source : DiscretizationSource} {w : Workspace}

theorem issued_equations (issued : s.Issued source) : s.Issued source.equations := by
  cases source with
  | formulation w => exact WeakFormulation.issued_equations issued
  | ode o =>
    obtain ⟨left, right⟩ := issued_pair.1 (issued_pair.1 issued).1
    exact issued_singleton.2 (issued_pair.2
      ⟨issued_list.2 (List.forall_mem_map.2 (issued_list.1 left)),
        issued_list.2 (List.forall_mem_map.2 (issued_list.1 right))⟩)

theorem issued_testForms (issued : s.Issued source) : s.Issued source.testForms := by
  cases source with
  | formulation w => exact WeakFormulation.issued_testForms issued
  | ode o =>
    have rest := issued_pair.1 (issued_pair.1 (issued_pair.1 issued).2).2
    exact issued_singleton.2 (issued_pair.1 rest.2).2

theorem locate_answered (issued : s.Issued source) (address : String) :
    (source.locate address).Answered fun found => s.Issued found.2 := by
  cases source with
  | ode o => exact .bind (Ode.locate_answered issued address) fun _ held => .pure held
  | formulation w =>
    exact .bind (WeakFormulation.term_answered issued address) fun _ held =>
      .bind (Position.read_answered address) fun _ _ => .pure held

theorem current_answered {plan : Plan} (issued : s.Issued source) (planned : s.Issued plan)
    (address : String) : (source.current plan address).Answered fun found => s.Issued found.2 :=
  .bind (locate_answered issued address) fun _ held =>
    .pure (Plan.issued_current planned held _)

theorem term_answered {plan : Plan} (issued : s.Issued source) (planned : s.Issued plan)
    (address : String) : (source.term plan address).Answered fun _ => True :=
  .bind (current_answered issued planned address) fun _ _ => .pure trivial

theorem newSequence_answered (closed : w.Closed) :
    newSequence.Answered w fun w' _ => w'.Closed := by
  refine .derive_bind TimeSequence.create_grows TimeSequence.create_answered
    fun sequence s' steps known => ?_
  refine .bind (P := fun w' _ => w'.Closed) (.get_bind (.bind .lift fun _ _ => .refl)) ?_
    fun _ _ _ closed' => .pure closed'
  exact .get_bind (.lift_bind (Plan.setSequence_answered (closed.plan.later steps) known)
    fun _ held => ⟨closed.session.later steps, held⟩)

theorem differentiate_answered (closed : w.Closed) (issued : w.session.Issued source)
    (address start stop : String) :
    (source.differentiate address start stop).Answered w fun w' _ => w'.Closed :=
  .get_bind (.lift_bind (current_answered issued closed.plan address) fun found held =>
    Plan.differentiate_answered closed (t := found.2) held found.1 start stop)

theorem average_answered (closed : w.Closed) (issued : w.session.Issued source) (address : String)
    {f : FormId} (known : w.session.Issued f) (keys : List String) :
    (source.average address f keys).Answered w fun w' _ => w'.Closed :=
  .get_bind (.lift_bind (current_answered issued closed.plan address) fun found held =>
    Plan.average_answered closed (t := found.2) held known found.1 keys)

theorem issued_currentEquations {plan : Plan} (issued : s.Issued source)
    (planned : s.Issued plan) : s.Issued (source.currentEquations plan) := by
  refine issued_list.2 fun e member => ?_
  obtain ⟨i, found⟩ := List.mem_iff_getElem?.1 member
  rw [currentEquations, List.getElem?_mapIdx] at found
  obtain ⟨old, listed, rfl⟩ := Option.map_eq_some_iff.1 found
  have held := issued_list.1 (issued_equations issued) old (List.mem_of_getElem? listed)
  exact Equation.issued_mapPositions held fun j t issued => Plan.issued_current planned issued _

theorem finish_answered (closed : s.Closed) {plan : Plan} (issued : s.Issued source)
    (planned : s.Issued plan) : (source.finish s plan).Answered fun _ => True := by
  refine .bind (WeakFormulation.create_answered closed (issued_currentEquations issued planned)
    (issued_testForms issued)) fun w created => ?_
  split
  · exact .pure trivial
  · exact (WeakFormulation.withUnknowns_answered created closed
      (Plan.issued_unknownForms planned)).any

end DiscretizationSource

end Variational
