import Variational.Proofs.Discretization.Runs

/-!
# Two ways to discretize an equation

An equation of a weak formulation is discretized on its own, as an ordinary
differential equation with addresses `j`, or within the formulation, with addresses
`i-j`. The plans of the two differ in the number of the equation that their entries
carry. No step looks at this number, so the two take the same steps.
-/

namespace Variational

/-! ## Plans with entries in one equation -/

/-- The plan with all its entries in one equation. -/
def Plan.inEquation (plan : Plan) (i : Nat) : Plan :=
  { plan with
    edits := plan.edits.map fun entry => (⟨i, entry.1.term⟩, entry.2)
    unknowns := plan.unknowns.map fun entry => (⟨i, entry.1.term⟩, entry.2) }

/-- The workspace with all entries of the plan in one equation. -/
def Workspace.inEquation (w : Workspace) (i : Nat) : Workspace :=
  { w with plan := w.plan.inEquation i }

/-- The result of a step with all entries of the plan in one equation. -/
def Discretize.resultIn {α : Type} (i : Nat) :
    EStateM.Result Failure Workspace α → EStateM.Result Failure Workspace α
  | .ok a w => .ok a (w.inEquation i)
  | .error failure w => .error failure (w.inEquation i)

namespace Plan

variable {plan : Plan} {i j : Nat} {t new : Signed Term}

/-- The current term at a place of the equation does not depend on the number of the equation. -/
theorem current_inEquation (plan : Plan) (i k j : Nat) (t : Signed Term) :
    (plan.inEquation i).current ⟨i, j⟩ t = (plan.inEquation k).current ⟨k, j⟩ t := by
  simp [current, inEquation, List.find?_map, Function.comp_def]

/-- In another equation nothing is edited. -/
theorem current_inEquation_of_ne {p : Position} (other : p.equation ≠ i) :
    (plan.inEquation i).current p t = t := by
  have none : (plan.inEquation i).edits.find? (·.1 = p) = none := by
    simp only [inEquation, List.find?_map, Option.map_eq_none_iff, List.find?_eq_none]
    rintro entry - same
    exact other (by rw [← of_decide_eq_true same])
  rw [current, none]
  rfl

theorem placeUnknown_inEquation (i j : Nat) (f : FormId) (l : List (Position × FormId)) :
    placeUnknown ⟨i, j⟩ f (l.map fun entry => (⟨i, entry.1.term⟩, entry.2)) =
      (placeUnknown ⟨0, j⟩ f (l.map fun entry => (⟨0, entry.1.term⟩, entry.2))).map
        fun entry => (⟨i, entry.1.term⟩, entry.2) := by
  induction l with
  | nil => rfl
  | cons entry rest ih =>
    simp only [List.map_cons, placeUnknown, Position.precedes, ih]
    by_cases same : j = entry.1.term
    · simp [same, Function.comp_def]
    · by_cases before : j < entry.1.term
      · simp [same, before, Function.comp_def]
      · simp [same, before]

/-- An edit in the equation is the same edit whatever the number of the equation. -/
theorem record_inEquation (plan : Plan) (i j : Nat) (new : Signed Term) (unknown : Option FormId) :
    (plan.inEquation i).record ⟨i, j⟩ new unknown =
      ((plan.inEquation 0).record ⟨0, j⟩ new unknown).inEquation i := by
  cases unknown with
  | none => simp [record, edit, inEquation, Function.comp_def]
  | some f =>
    simp only [record, edit, addUnknown, inEquation, List.map_cons, List.map_map,
      Function.comp_def, placeUnknown_inEquation i j f plan.unknowns]

theorem unknownForms_inEquation (plan : Plan) (i : Nat) :
    (plan.inEquation i).unknownForms = plan.unknownForms := by
  simp [unknownForms, inEquation, List.foldl_map]

theorem setSequence_inEquation (plan : Plan) (i : Nat) (sequence : TimeSequenceId) :
    (plan.inEquation i).setSequence sequence =
      (plan.setSequence sequence).map fun plan => plan.inEquation i := by
  have stage : (plan.inEquation i).stage = plan.stage := rfl
  rw [setSequence, setSequence, stage]
  split
  · rfl
  · rfl

end Plan

/-! ## Steps that do not look at positions -/

namespace Discretize

variable {α β : Type}

/-- A step that does not look at the positions of the plan and does not change them. -/
def Placeless (m : Discretize α) : Prop :=
  ∀ w i, m (w.inEquation i) = resultIn i (m w)

namespace Placeless

theorem pure {a : α} : Placeless (Pure.pure a) :=
  fun _ _ => rfl

theorem derive {m : Derive α} : Placeless (liftM m) := by
  intro w i
  have session : (w.inEquation i).session = w.session := rfl
  simp only [liftM, monadLift, MonadLift.monadLift, session]
  cases m w.session <;> rfl

theorem lift {o : Outcome α} : Placeless (liftM o) :=
  derive (m := liftM o)

theorem reject_bind {c : Rejection} {rest : α → Discretize β} :
    Placeless (liftM (reject c : Outcome α) >>= rest) :=
  fun _ _ => rfl

/-- A step that agrees with another one is continued in the same way. -/
theorem continue_eq {m m' : Discretize α} {f : α → Discretize β} {w : Workspace} {i : Nat}
    (first : m (w.inEquation i) = resultIn i (m' w)) (rest : ∀ a, Placeless (f a)) :
    (m >>= f) (w.inEquation i) = resultIn i ((m' >>= f) w) := by
  simp only [Bind.bind, EStateM.bind]
  rw [first]
  cases m' w with
  | ok a mid => exact rest a mid i
  | error failure mid => rfl

theorem bind {m : Discretize α} {f : α → Discretize β} (first : Placeless m)
    (rest : ∀ a, Placeless (f a)) : Placeless (m >>= f) :=
  fun w i => continue_eq (first w i) rest

theorem get_bind {f : Workspace → Discretize β} (same : ∀ w i, f (w.inEquation i) = f w)
    (rest : ∀ w, Placeless (f w)) : Placeless (get >>= f) := by
  intro w i
  change f (w.inEquation i) (w.inEquation i) = resultIn i (f w w)
  rw [same]
  exact rest w w i

theorem update {f : Plan → Plan} (same : ∀ plan i, f (plan.inEquation i) = (f plan).inEquation i) :
    Placeless (Plan.update f) := by
  intro w i
  change EStateM.Result.ok () { w.inEquation i with plan := f (w.plan.inEquation i) } = _
  rw [same]
  rfl

theorem mapM {f : α → Discretize β} (each : ∀ a, Placeless (f a)) (l : List α) :
    Placeless (l.mapM f) := by
  induction l with
  | nil => exact .pure
  | cons a l ih =>
    rw [List.mapM_cons]
    exact .bind (each a) fun _ => .bind ih fun _ => .pure

end Placeless

end Discretize

namespace Plan

open Discretize

theorem declareKey_placeless (sequence : TimeSequenceId) (key : String) :
    Placeless (declareKey sequence key) := by
  refine .get_bind (fun _ _ => rfl) fun w => ?_
  cases w.plan.instant? key with
  | some instant => exact .pure
  | none => exact .bind .derive fun _ => .bind (.update fun _ _ => rfl) fun _ => .pure

theorem declare_placeless (keys : List String) : Placeless (declare keys) := by
  refine .get_bind (fun _ _ => rfl) fun w => ?_
  cases w.plan.sequence with
  | none => exact .lift
  | some sequence =>
    refine .bind (.mapM (declareKey_placeless sequence) keys) fun _ =>
      .bind (.update fun plan i => ?_) fun _ => .pure
    change (if plan.stage ≠ .modified ∧ plan.instants ≠ [] then _ else _) = _
    split
    · rfl
    · rfl

theorem differenced_placeless (t : Signed Term) (start stop : String) :
    Placeless (differenced t start stop) := by
  refine .get_bind (fun _ _ => rfl) fun w => .bind .lift fun u => ?_
  cases u with
  | none => exact .lift
  | some u =>
    exact .get_bind (fun _ _ => rfl) fun _ => .bind .lift fun _ => .bind .lift fun _ =>
      .bind .derive fun _ => .get_bind (fun _ _ => rfl) fun _ => .bind .lift fun _ => .pure

theorem replacedByMean_placeless (t : Signed Term) (f : FormId) (keys : List String) :
    Placeless (replacedByMean t f keys) := by
  refine .bind (declare_placeless keys) fun _ => .bind .derive fun forms => ?_
  cases forms with
  | nil => exact .lift
  | cons first others => exact .bind .derive fun _ => .bind .derive fun _ => .pure

theorem averaged_placeless (t : Signed Term) (f : FormId) (keys : List String) :
    Placeless (averaged t f keys) := by
  have replaces := replacedByMean_placeless t f keys
  rw [averaged]
  split
  · exact .reject_bind
  · refine .get_bind (fun _ _ => rfl) fun _ => .bind .lift fun inFirst => ?_
    split
    · refine .bind .lift fun inSecond => ?_
      split
      · exact .bind .lift fun _ => .reject_bind
      · exact replaces
    · exact replaces

end Plan

theorem Discretize.Placeless.setSequence (sequence : TimeSequenceId) :
    Placeless (DiscretizationSource.setSequence sequence) := by
  intro w i
  have plan : (w.inEquation i).plan = w.plan.inEquation i := rfl
  rw [DiscretizationSource.setSequence_eq, DiscretizationSource.setSequence_eq, plan,
    Plan.setSequence_inEquation]
  cases w.plan.setSequence sequence <;> rfl

/-! ## Spellings of positions -/

namespace DiscretizationSource

/-- The spelled words name the terms of an equation, which has the given number. -/
def Spells (source : DiscretizationSource) (spell : UInt64 → String) (i : Nat) (e : Equation Term) :
    Prop :=
  ∀ (j : UInt64) t, e.get? j.toNat = some t → source.locate (spell j) = .ok (⟨i, j.toNat⟩, t)

/-- A decimal numeral names a term of an ordinary differential equation. -/
theorem ode_spells (o : Ode) : (ode o).Spells (fun j => toString j.toNat) 0 o.plainEquation := by
  intro j t standing
  rw [Ode.get?_plainEquation, Option.map_eq_some_iff] at standing
  obtain ⟨x, found, rfl⟩ := standing
  have located : o.locate (toString j.toNat) = .ok (j.toNat, x) := by
    refine Ode.locate_eq_ok.2 ⟨?_, found⟩
    simpa [toString] using Text.readIndex_toDigits j
  rw [locate, located]
  rfl

/-- Two decimal numerals name a term of a formulation. -/
theorem formulation_spells {w : WeakFormulation} {i : UInt64} {e : Equation Term}
    (known : w.equations[i.toNat]? = some e) :
    (formulation w).Spells (fun j => Position.text ⟨i.toNat, j.toNat⟩) i.toNat e := by
  intro j t standing
  have read := Position.read_text i j
  have found := WeakFormulation.term_eq_ok.2 ⟨_, e, read, known, standing⟩
  rw [locate]
  dsimp only
  rw [found, read]
  rfl

end DiscretizationSource

/-! ## Calls at spelled positions -/

namespace Call

/-- The call with other addresses. -/
def map {A B : Type} (f : A → B) : Call A → Call B
  | .setSequence sequence => .setSequence sequence
  | .newSequence => .newSequence
  | .declare keys => .declare keys
  | .differentiate address start stop => .differentiate (f address) start stop
  | .average address form keys => .average (f address) form keys
  | .term address => .term (f address)
  | .request r => .request r

/-- The address of a call that has one. -/
def address? {A : Type} : Call A → Option A
  | .differentiate address _ _ => some address
  | .average address _ _ => some address
  | .term address => some address
  | _ => none

/-- What a call answers, or why it fails. -/
def answer (source : DiscretizationSource) (call : Call String) (w : Workspace) : Outcome Answer :=
  match call.perform source w with
  | .ok a _ => .ok a
  | .error failure _ => .error failure

/-- The answers of calls that are carried out one after the other. -/
def answers (source : DiscretizationSource) : List (Call String) → Workspace → List (Outcome Answer)
  | [], _ => []
  | call :: calls, w =>
    call.answer source w :: answers source calls ((call.perform source).leaves w)

end Call

open Discretize in
/-- An edit at a spelled position does the same whatever the number of the equation. -/
theorem DiscretizationSource.edit_inEquation {e : Equation Term} {j : UInt64} {t : Signed Term}
    (standing : e.get? j.toNat = some t)
    {prepare : Signed Term → Discretize (Signed Term × Option FormId)}
    (placeless : ∀ t, Placeless (prepare t)) (w : Workspace) :
    ∃ m : Discretize Unit, ∀ (i : Nat) source spell, Spells source spell i e →
      source.edit (spell j) prepare (w.inEquation i) = resultIn i (m w) := by
  refine ⟨prepare ((w.plan.inEquation 0).current ⟨0, j.toNat⟩ t) >>= fun r =>
    Plan.update fun plan => (plan.inEquation 0).record ⟨0, j.toNat⟩ r.1 r.2,
    fun i source spell spells => ?_⟩
  have current : (w.inEquation i).plan.current ⟨i, j.toNat⟩ t =
      (w.plan.inEquation 0).current ⟨0, j.toNat⟩ t := w.plan.current_inEquation i 0 j.toNat t
  rw [edit_of_located (spells j t standing), current]
  simp only [bind, EStateM.bind]
  rw [placeless _ w i]
  cases prepare ((w.plan.inEquation 0).current ⟨0, j.toNat⟩ t) w with
  | ok r w' =>
    change EStateM.Result.ok () { w'.inEquation i with
      plan := (w'.plan.inEquation i).record ⟨i, j.toNat⟩ r.1 r.2 } = _
    rw [Plan.record_inEquation]
    rfl
  | error failure w' => rfl

open Discretize in
/-- A call at a spelled position does the same whatever the number of the equation. -/
theorem Call.perform_inEquation (call : Call UInt64) {e : Equation Term}
    (inRange : ∀ j ∈ call.address?, j.toNat < e.size) (w : Workspace) :
    ∃ r, ∀ (i : Nat) source spell, source.Spells spell i e →
      (call.map spell).perform source (w.inEquation i) = resultIn i r := by
  have stands {j : UInt64} (held : j.toNat < e.size) : ∃ t, e.get? j.toNat = some t := by
    rw [Equation.get?]
    exact ⟨_, List.getElem?_eq_getElem (e.length_terms ▸ held)⟩
  have placeless {m : Discretize Answer} (placeless : Placeless m) :
      ∃ r, ∀ i : Nat, m (w.inEquation i) = resultIn i r := ⟨m w, placeless w⟩
  cases call with
  | setSequence sequence =>
    obtain ⟨r, run⟩ := placeless (.bind (.setSequence sequence) fun _ => .pure)
    exact ⟨r, fun i source spell _ => run i⟩
  | newSequence =>
    obtain ⟨r, run⟩ := placeless (.bind
      (.bind (.derive (m := TimeSequence.create)) fun sequence =>
        .bind (.setSequence sequence) fun _ => .pure) fun _ => .pure)
    exact ⟨r, fun i source spell _ => run i⟩
  | declare keys =>
    obtain ⟨r, run⟩ := placeless (.bind (Plan.declare_placeless keys) fun _ => .pure)
    exact ⟨r, fun i source spell _ => run i⟩
  | differentiate j start stop =>
    obtain ⟨t, standing⟩ := stands (inRange j rfl)
    obtain ⟨m, run⟩ := DiscretizationSource.edit_inEquation standing (fun t =>
      .bind (Plan.differenced_placeless t start stop) fun _ => .pure) w
    refine ⟨(m >>= fun _ => pure .done) w, fun i source spell spells => ?_⟩
    rw [map, perform, DiscretizationSource.differentiate_eq]
    exact Placeless.continue_eq (run i source spell spells) fun _ => .pure
  | average j f keys =>
    obtain ⟨t, standing⟩ := stands (inRange j rfl)
    obtain ⟨m, run⟩ := DiscretizationSource.edit_inEquation standing (fun t =>
      .bind (Plan.averaged_placeless t f keys) fun _ => .pure) w
    refine ⟨(m >>= fun _ => pure .done) w, fun i source spell spells => ?_⟩
    rw [map, perform, DiscretizationSource.average_eq]
    exact Placeless.continue_eq (run i source spell spells) fun _ => .pure
  | term j =>
    obtain ⟨t, standing⟩ := stands (inRange j rfl)
    refine ⟨.ok (.term ((w.plan.inEquation 0).current ⟨0, j.toNat⟩ t)) w,
      fun i source spell spells => ?_⟩
    change (liftM (source.term (w.plan.inEquation i) (spell j)) >>= fun t =>
      pure (Answer.term t) : Discretize Answer) (w.inEquation i) = _
    rw [DiscretizationSource.term, DiscretizationSource.current_of_located _ (spells j t standing),
      ← w.plan.current_inEquation i 0 j.toNat t]
    rfl
  | request r =>
    obtain ⟨r, run⟩ := placeless (.bind (.derive (m := r.perform)) fun _ => .pure)
    exact ⟨r, fun i source spell _ => run i⟩

/-- A call at a spelled position gives the same answer and leaves the same workspace. -/
theorem Call.answer_inEquation (call : Call UInt64) {e : Equation Term}
    (inRange : ∀ j ∈ call.address?, j.toNat < e.size) (w : Workspace) :
    ∃ answer last, ∀ (i : Nat) source spell, DiscretizationSource.Spells source spell i e →
      (call.map spell).answer source (w.inEquation i) = answer ∧
      ((call.map spell).perform source).leaves (w.inEquation i) = Workspace.inEquation last i := by
  obtain ⟨r, run⟩ := call.perform_inEquation inRange w
  cases r with
  | ok a last =>
    refine ⟨.ok a, last, fun i source spell spells => ?_⟩
    rw [Call.answer, Discretize.leaves, run i source spell spells]
    exact ⟨rfl, rfl⟩
  | error failure last =>
    refine ⟨.error failure, last, fun i source spell spells => ?_⟩
    rw [Call.answer, Discretize.leaves, run i source spell spells]
    exact ⟨rfl, rfl⟩

/-- Calls at spelled positions do the same whatever the number of the equation. -/
theorem Call.answers_inEquation (calls : List (Call UInt64)) {e : Equation Term}
    (inRange : ∀ call ∈ calls, ∀ j ∈ call.address?, j.toNat < e.size) (w : Workspace) :
    ∃ results last, ∀ (i : Nat) source spell, DiscretizationSource.Spells source spell i e →
      Call.answers source (calls.map (Call.map spell)) (w.inEquation i) = results ∧
      Call.performAll source (calls.map (Call.map spell)) (w.inEquation i) =
        Workspace.inEquation last i := by
  induction calls generalizing w with
  | nil => exact ⟨[], w, fun i source spell _ => ⟨rfl, rfl⟩⟩
  | cons call calls ih =>
    obtain ⟨answer, w', first⟩ := call.answer_inEquation (inRange call List.mem_cons_self) w
    obtain ⟨results, last, rest⟩ := ih
      (fun call member => inRange call (List.mem_cons_of_mem _ member)) w'
    refine ⟨answer :: results, last, fun i source spell spells => ?_⟩
    obtain ⟨same, leaves⟩ := first i source spell spells
    obtain ⟨same', leaves'⟩ := rest i source spell spells
    rw [List.map_cons, Call.answers, same, leaves, same']
    refine ⟨rfl, ?_⟩
    rw [← leaves', ← leaves]
    rfl

/-! ## Finishing -/

namespace Outcome

variable {α ι : Type} {l : List α}

/-- If all members but one pass a check, the list passes it if this member does. -/
theorem forM_eq_getElem? {f : α → Outcome Unit} {i : Nat} {x : α} (here : l[i]? = some x)
    (others : ∀ k y, k ≠ i → l[k]? = some y → f y = .ok ()) : l.forM f = f x := by
  induction l generalizing i with
  | nil => simp at here
  | cons a l ih =>
    change (f a >>= fun _ => l.forM f) = f x
    cases i with
    | zero =>
      rw [List.getElem?_cons_zero, Option.some.injEq] at here
      have rest : l.forM f = .ok () := forM_eq_ok.2 fun y member => by
        obtain ⟨k, found⟩ := List.mem_iff_getElem?.1 member
        exact others (k + 1) y (Nat.succ_ne_zero k) found
      rw [here, rest]
      cases f x <;> rfl
    | succ i =>
      rw [bind_of_ok (others 0 a (Nat.succ_ne_zero i).symm rfl)]
      exact ih here fun k y other found => others (k + 1) y (by omega) found

/-- Either all members pass some checks, or one member decides all of them. -/
theorem forM_cases {f : ι → α → Outcome Unit} {Fails : α → Prop}
    (each : ∀ x ∈ l, (∀ i, f i x = .ok ()) ∨ Fails x ∧ ∀ i, ∃ failure, f i x = .error failure) :
    (∀ i, l.forM (f i) = .ok ()) ∨ ∃ x ∈ l, Fails x ∧ ∀ i, l.forM (f i) = f i x := by
  induction l with
  | nil => exact Or.inl fun _ => rfl
  | cons a l ih =>
    rcases each a List.mem_cons_self with passes | ⟨fails, decides⟩
    · have skip (i : ι) : (a :: l).forM (f i) = l.forM (f i) := bind_of_ok (passes i) _
      rcases ih fun x member => each x (List.mem_cons_of_mem _ member) with all | ⟨x, member, rest⟩
      · exact Or.inl fun i => (skip i).trans (all i)
      · exact Or.inr ⟨x, List.mem_cons_of_mem _ member, rest.1, fun i => (skip i).trans (rest.2 i)⟩
    · refine Or.inr ⟨a, List.mem_cons_self, fails, fun i => ?_⟩
      obtain ⟨failure, run⟩ := decides i
      change (f i a >>= fun _ => l.forM (f i)) = f i a
      rw [run]
      rfl

end Outcome

namespace WeakFormulation

variable {s : Session} {mesh : MeshId} {v : FormId}

/-- A term without a test form fails the check, and the failure names the equation. -/
theorem checkTerm_of_untested (lives : ∃ k, s.Lives v mesh k) {t : Term}
    (untested : s.Untested t.f2) : ∃ form, ∀ i, checkTerm s mesh i v t =
      reject (.structural (.wronglyTested t.lin i form)) := by
  obtain ⟨k, form, sp, found, -⟩ := lives
  have fetched : s.form v = .ok form := Arena.fetch_eq_ok_iff.2 found
  have none : t.testForm? s = .ok none := untested.testedForm?_eq
  refine ⟨form.lin, fun i => ?_⟩
  rw [checkTerm, Outcome.bind_of_ok none, if_pos (by simp), Outcome.bind_of_ok fetched]
  rfl

/-- The check of an equation of which each term fits or is untested. It fails in the same way
whatever the number of the equation. -/
theorem checkEquation_cases {e : Equation Term} (nonempty : 0 < e.size)
    (lives : ∃ k, s.Lives v mesh k)
    (each : ∀ t ∈ e.terms, TermFits s mesh v t.value ∨ s.Untested t.value.f2) :
    (∀ i, checkEquation s mesh i e v = .ok ()) ∨ ∃ term form, ∀ i, checkEquation s mesh i e v =
      reject (.structural (.wronglyTested term i form)) := by
  have checks (i : Nat) : checkEquation s mesh i e v =
      e.terms.forM fun t => checkTerm s mesh i v t.value := by
    rw [checkEquation, if_neg (Nat.pos_iff_ne_zero.1 nonempty),
      Outcome.bind_of_ok (meshOf_eq_ok.2 lives), if_neg (fun differs => differs rfl)]
  simp only [checks]
  have decides : ∀ t ∈ e.terms, (∀ i, checkTerm s mesh i v t.value = .ok ()) ∨
      s.Untested t.value.f2 ∧ ∀ i, ∃ failure, checkTerm s mesh i v t.value = .error failure := by
    intro t member
    rcases each t member with fits | untested
    · exact Or.inl fun i => checkTerm_eq_ok.2 fits
    · obtain ⟨form, fails⟩ := checkTerm_of_untested lives untested
      exact Or.inr ⟨untested, fun i => ⟨_, fails i⟩⟩
  rcases Outcome.forM_cases decides with passes | ⟨t, -, untested, same⟩
  · exact Or.inl passes
  · obtain ⟨form, fails⟩ := checkTerm_of_untested lives untested
    exact Or.inr ⟨t.value.lin, form, fun i => (same i).trans (fails i)⟩

/-- If all other equations fit, the check is that of one equation. -/
theorem check_eq_checkEquation {equations : List (Equation Term)} {testForms : List FormId}
    {i : Nat} {e : Equation Term} (known : equations[i]? = some e)
    (testForm : testForms[i]? = some v) (same : equations.length = testForms.length)
    (lives : ∀ f ∈ testForms, ∃ k, s.Lives f mesh k)
    (others : ∀ (k : Nat) e v, k ≠ i → equations[k]? = some e → testForms[k]? = some v →
      EquationFits s mesh e v) :
    check s equations testForms = checkEquation s mesh i e v >>= fun _ => pure mesh := by
  have nonempty : ¬ equations.length = 0 := fun empty => by
    rw [List.length_eq_zero_iff.1 empty] at known
    cases known
  have zipped : (equations.zip testForms)[i]? = some (e, v) :=
    List.getElem?_zip_eq_some.2 ⟨known, testForm⟩
  have here : (equations.zip testForms).zipIdx[i]? = some ((e, v), i) := by
    simp [zipped]
  cases testForms with
  | nil => cases testForm
  | cons first rest =>
    unfold check
    rw [if_neg nonempty, if_neg (not_not.2 same)]
    dsimp only
    rw [Outcome.bind_of_ok (meshOf_eq_ok.2 (lives first List.mem_cons_self)),
      Outcome.forM_eq_getElem? here]
    -- The check of every other equation succeeds.
    rintro k ⟨⟨e', v'⟩, n⟩ other found
    rw [List.getElem?_zipIdx, Option.map_eq_some_iff] at found
    obtain ⟨_, found, same⟩ := found
    cases same
    obtain ⟨known', testForm'⟩ := List.getElem?_zip_eq_some.1 found
    exact checkEquation_eq_ok.2 (others k e' v' other known' testForm')

end WeakFormulation

theorem Equation.mapPositions_eq_self {α : Type} {e : Equation α}
    {f : Nat → Signed α → Signed α} (keeps : ∀ j t, f j t = t) : e.mapPositions f = e := by
  rw [mapPositions, mapIdx_eq_self fun k x _ => keeps k x,
    mapIdx_eq_self fun k x _ => keeps (e.left.length + k) x]

namespace DiscretizationSource

variable {s : Session} {plan : Plan}

theorem finish_of_check_error {source : DiscretizationSource} {failure : Failure}
    (fails : WeakFormulation.check s (source.currentEquations plan) source.testForms =
      .error failure) : finish s source plan = .error failure := by
  rw [finish, WeakFormulation.create, fails]
  rfl

variable {w : WeakFormulation} {i : Nat} {o : Ode}

/-- The equation with its current terms is the same alone and within the formulation. -/
theorem currentEquations_known (known : w.equations[i]? = some o.plainEquation) (plan : Plan) :
    ((formulation w).currentEquations (plan.inEquation i))[i]? =
      ((ode o).currentEquations (plan.inEquation 0))[0]? := by
  rw [getElem?_currentEquations, equations, known, Option.map_some]
  simp only [plan.current_inEquation i 0]
  rfl

/-- The other equations of the formulation keep their terms. -/
theorem currentEquations_of_ne {k : Nat} (other : k ≠ i) (plan : Plan) :
    ((formulation w).currentEquations (plan.inEquation i))[k]? = w.equations[k]? := by
  rw [getElem?_currentEquations, equations]
  cases w.equations[k]? with
  | none => rfl
  | some e =>
    exact congrArg some (Equation.mapPositions_eq_self fun j t =>
      Plan.current_inEquation_of_ne other)

/-- The two discretizations are finished with the same equation and the same unknowns, or they
fail for the same term of this equation. -/
theorem finish_inEquation {start : Session} {last : Workspace} {log : List (Position × Edit)}
    (follows : (last.inEquation 0).Follows start (ode o) log)
    (wellFormed : w.WellFormed last.session) (known : w.equations[i]? = some o.plainEquation)
    (testForm : w.testForms[i]? = some o.testForm) :
    (∃ x y e, finish last.session (ode o) (last.plan.inEquation 0) = .ok x ∧
      finish last.session (formulation w) (last.plan.inEquation i) = .ok y ∧
      x.equations = [e] ∧ y.equations[i]? = some e ∧ x.unknowns = y.unknowns) ∨
    ∃ term form, finish last.session (ode o) (last.plan.inEquation 0) =
        reject (.structural (.wronglyTested term 0 form)) ∧
      finish last.session (formulation w) (last.plan.inEquation i) =
        reject (.structural (.wronglyTested term i form)) := by
  let e := o.plainEquation.mapPositions fun j t => (last.plan.inEquation 0).current ⟨0, j⟩ t
  have alone : (ode o).currentEquations (last.plan.inEquation 0) = [e] := rfl
  have within := currentEquations_known known last.plan
  rw [alone, List.getElem?_cons_zero] at within
  obtain ⟨nonempty, fits⟩ := WeakFormulation.check_eq_ok.1 wellFormed.checked
  obtain ⟨v, testForm', size, lives, each⟩ := wellFormed.equationFits known
  cases testForm.symm.trans testForm'
  -- Alone, the equation is checked with number 0.
  have checkAlone : WeakFormulation.check last.session
      ((ode o).currentEquations (last.plan.inEquation 0)) (ode o).testForms =
        WeakFormulation.checkEquation last.session w.mesh 0 e o.testForm >>=
          fun _ => pure w.mesh := by
    refine WeakFormulation.check_eq_checkEquation rfl rfl rfl ?_ ?_
    · rintro f member
      rw [List.mem_singleton.1 member]
      exact lives
    · intro k e v other known
      rw [alone, List.getElem?_singleton, if_neg other] at known
      cases known
  -- Within the formulation, the other equations pass the check as they did before.
  have checkWithin : WeakFormulation.check last.session
      ((formulation w).currentEquations (last.plan.inEquation i)) (formulation w).testForms =
        WeakFormulation.checkEquation last.session w.mesh i e o.testForm >>=
          fun _ => pure w.mesh := by
    refine WeakFormulation.check_eq_checkEquation within testForm
      ((length_currentEquations _).trans fits.length_eq) ?_ ?_
    · intro f member
      obtain ⟨e, -, fit⟩ := exists_mem_of_forall₂ fits member
      exact fit.2.1
    · intro k e v other known testForm
      rw [currentEquations_of_ne other] at known
      obtain ⟨v', testForm', fit⟩ := wellFormed.equationFits known
      cases testForm.symm.trans testForm'
      exact fit
  have evaluated : ∀ i : Nat, ∀ entry ∈ (last.plan.inEquation i).unknowns,
      ∃ binding, last.session.Reads entry.2 (.atInstant binding) := by
    intro i entry member
    obtain ⟨old, recorded, rfl⟩ := List.mem_map.1 member
    exact follows.unknowns (⟨0, old.1.term⟩, old.2) (List.mem_map_of_mem recorded)
  have checked : WeakFormulation.check last.session (ode o).equations (ode o).testForms =
      .ok w.mesh :=
    WeakFormulation.check_eq_ok.2 ⟨List.cons_ne_nil _ _, .cons ⟨size, lives, each⟩ .nil⟩
  have tested : ∀ t ∈ e.terms, WeakFormulation.TermFits last.session w.mesh o.testForm t.value ∨
      last.session.Untested t.value.f2 := by
    intro t' member
    obtain ⟨j, t, standing, rfl⟩ := Equation.mem_mapPositions member
    have found : (ode o).initial? ⟨0, j⟩ = some t := initial?_eq_some.2 ⟨_, rfl, standing⟩
    by_cases averaged : ∃ keys, (⟨0, j⟩, .mean o.testForm keys) ∈ log
    · obtain ⟨keys, averaged⟩ := averaged
      exact Or.inr (follows.current_untested checked found rfl averaged)
    · exact Or.inl (follows.current_fits checked found rfl (not_exists.1 averaged))
  have size' : 0 < e.size := by rwa [Equation.size_mapPositions]
  rcases WeakFormulation.checkEquation_cases size' lives tested with passes | ⟨term, form, fails⟩
  · rw [passes] at checkAlone checkWithin
    obtain ⟨x, finished⟩ := finish_succeeds checkAlone (evaluated 0)
    obtain ⟨y, finished'⟩ := finish_succeeds checkWithin (evaluated i)
    obtain ⟨-, equations, -, unknowns⟩ := finish_cases finished
    obtain ⟨-, equations', -, unknowns'⟩ := finish_cases finished'
    refine Or.inl ⟨x, y, e, finished, finished', equations.trans alone, equations' ▸ within, ?_⟩
    rw [unknowns, unknowns', Plan.unknownForms_inEquation, Plan.unknownForms_inEquation]
  · rw [fails] at checkAlone checkWithin
    exact Or.inr ⟨term, form, finish_of_check_error checkAlone, finish_of_check_error checkWithin⟩

end DiscretizationSource

/-- The two ways to discretize an equation agree. The same calls at positions of the equation,
on the discretization of its ordinary differential equation with addresses `j` and on that of the
formulation with addresses `i-j`, succeed and fail with the same answers and errors, and leave the
same session, the same stage and the same current terms. Then either both are finished, with the
same terms on the two sides of the equation and the same unknowns, or both fail because of the same
term of the equation. -/
theorem WeakFormulation.ode_discretization_agrees {settings : Settings} {s : Session}
    (reachable : Session.Reachable settings s) {w : WeakFormulation} (wellFormed : w.WellFormed s)
    {i : UInt64} {o : Ode} (run : w.ode s i.toNat = .ok o) (calls : List (Call UInt64))
    (inRange : ∀ call ∈ calls, ∀ j ∈ call.address?, j.toNat < o.equation.size) :
    let alone := calls.map (Call.map fun j => toString j.toNat)
    let within := calls.map (Call.map fun j => Position.text ⟨i.toNat, j.toNat⟩)
    let last := Call.performAll (.ode o) alone ⟨s, {}⟩
    let last' := Call.performAll (.formulation w) within ⟨s, {}⟩
    Call.answers (.ode o) alone ⟨s, {}⟩ = Call.answers (.formulation w) within ⟨s, {}⟩ ∧
    last.session = last'.session ∧ last.plan.stage = last'.plan.stage ∧
    (∀ j : UInt64, j.toNat < o.equation.size → ∃ t,
      (DiscretizationSource.ode o).term last.plan (toString j.toNat) = .ok t ∧
      (DiscretizationSource.formulation w).term last'.plan (Position.text ⟨i.toNat, j.toNat⟩) =
        .ok t) ∧
    ((∃ x y e, DiscretizationSource.finish last.session (.ode o) last.plan = .ok x ∧
      DiscretizationSource.finish last'.session (.formulation w) last'.plan = .ok y ∧
      x.equations = [e] ∧ y.equations[i.toNat]? = some e ∧ x.unknowns = y.unknowns) ∨
    ∃ term form, DiscretizationSource.finish last.session (.ode o) last.plan =
        reject (.structural (.wronglyTested term 0 form)) ∧
      DiscretizationSource.finish last'.session (.formulation w) last'.plan =
        reject (.structural (.wronglyTested term i.toNat form))) := by
  obtain ⟨known, testForm⟩ := wellFormed.ode_spec run
  have size : o.plainEquation.size = o.equation.size := by simp [Equation.size, Ode.plainEquation]
  obtain ⟨results, final, runs⟩ :=
    Call.answers_inEquation calls (e := o.plainEquation) (by rwa [size]) ⟨s, {}⟩
  have spells := DiscretizationSource.ode_spells o
  have spells' := DiscretizationSource.formulation_spells known
  obtain ⟨same, alone⟩ := runs 0 _ _ spells
  obtain ⟨same', within⟩ := runs i.toNat _ _ spells'
  -- A plan without entries has none in any equation.
  have empty (i : Nat) : (⟨s, {}⟩ : Workspace).inEquation i = ⟨s, {}⟩ := rfl
  rw [empty] at same alone same' within
  obtain ⟨log, follows⟩ : ∃ log, (final.inEquation 0).Follows s (.ode o) log := by
    have discretizes : (DiscretizationSource.ode o).Discretizes s w := ⟨_, run⟩
    have initial := Workspace.Follows.initial reachable.sound (discretizes.created wellFormed)
    exact ⟨_, alone ▸ initial.performAll _⟩
  intro alone' within' last last'
  rw [show last = final.inEquation 0 from alone, show last' = final.inEquation i.toNat from within]
  refine ⟨same.trans same'.symm, rfl, rfl, fun j held => ?_, ?_⟩
  · obtain ⟨t, standing⟩ : ∃ t, o.plainEquation.get? j.toNat = some t := by
      rw [Equation.get?]
      exact ⟨_, List.getElem?_eq_getElem (by rwa [Equation.length_terms, size])⟩
    refine ⟨(final.plan.inEquation 0).current ⟨0, j.toNat⟩ t, ?_, ?_⟩
    · have located := spells j t standing
      rw [DiscretizationSource.term, DiscretizationSource.current_of_located _ located]
      rfl
    · have located := spells' j t standing
      rw [DiscretizationSource.term, DiscretizationSource.current_of_located _ located,
        ← final.plan.current_inEquation i.toNat 0 j.toNat t]
      rfl
  · exact DiscretizationSource.finish_inEquation follows (wellFormed.mono follows.steps.extends)
      known testForm

/-- On an interval, the second equation of `(a, q) = 0`, `(∂t a, v) = -(a, v)` is discretized
alone and within the formulation. Both reject to difference the second term and succeed with the
rest. -/
theorem WeakFormulation.ode_discretization_agrees_interval :
    ∃ s t x y o, Session.Reachable {} s ∧
      let w : WeakFormulation := ⟨⟨0⟩, [⟨[⟨.plus, y⟩], []⟩, ⟨[⟨.plus, t⟩], [⟨.minus, x⟩]⟩],
        [⟨2⟩, ⟨1⟩], none⟩
      let calls : List (Call UInt64) := [.newSequence, .declare ["k-1", "k"],
        .differentiate 1 "k-1" "k", .differentiate 0 "k-1" "k", .average 1 ⟨0⟩ ["k-1", "k"]]
      let alone := calls.map (Call.map fun j => toString j.toNat)
      let within := calls.map (Call.map fun j => Position.text ⟨1, j.toNat⟩)
      w.WellFormed s ∧ w.ode s 1 = .ok o ∧
      (Call.answers (.ode o) alone ⟨s, {}⟩).map Except.isOk = [true, true, false, true, true] ∧
      Call.answers (.ode o) alone ⟨s, {}⟩ = Call.answers (.formulation w) within ⟨s, {}⟩ ∧
      (Call.performAll (.ode o) alone ⟨s, {}⟩).session =
        (Call.performAll (.formulation w) within ⟨s, {}⟩).session := by
  obtain ⟨s, reachable, livesA, livesV, livesQ, livesRate, readsV, readsQ, outcome⟩ :
      ∃ s, Session.Reachable {} s ∧ s.Lives ⟨0⟩ ⟨0⟩ 1 ∧ s.Lives ⟨1⟩ ⟨0⟩ 1 ∧ s.Lives ⟨2⟩ ⟨0⟩ 1 ∧
        s.Lives ⟨3⟩ ⟨0⟩ 1 ∧ s.Reads ⟨1⟩ .root ∧ s.Reads ⟨2⟩ .root ∧
        (match Term.create s .innerProduct ⟨3⟩ ⟨1⟩, Term.create s .innerProduct ⟨0⟩ ⟨1⟩,
            Term.create s .innerProduct ⟨0⟩ ⟨2⟩ with
          | .ok t, .ok x, .ok y => match WeakFormulation.ode s ⟨⟨0⟩, [⟨[⟨.plus, y⟩], []⟩,
                ⟨[⟨.plus, t⟩], [⟨.minus, x⟩]⟩], [⟨2⟩, ⟨1⟩], none⟩ 1 with
            | .ok o => decide (2 ≤ o.equation.size ∧ (Call.answers (.ode o)
                [.newSequence, .declare ["k-1", "k"], .differentiate "1" "k-1" "k",
                  .differentiate "0" "k-1" "k", .average "1" ⟨0⟩ ["k-1", "k"]] ⟨s, {}⟩).map
                  Except.isOk = [true, true, false, true, true])
            | .error _ => false
          | _, _, _ => false) = true :=
    ⟨Request.performAll {} [.manifold 1, .mesh ⟨0⟩, .space ⟨0⟩ 1 .outer, .root ⟨0⟩ ⟨"a", "a"⟩,
      .root ⟨0⟩ ⟨"v", "v"⟩, .root ⟨0⟩ ⟨"q", "q"⟩, .operator .timeDerivative ⟨0⟩], .performAll {} _,
      by decide +kernel⟩
  obtain ⟨m, foundMesh⟩ := reachable.sound.exists_mesh livesA
  obtain ⟨t, created, mesh⟩ := Term.create_succeeds .innerProduct livesRate livesV foundMesh rfl
  obtain ⟨x, created', mesh'⟩ := Term.create_succeeds .innerProduct livesA livesV foundMesh rfl
  obtain ⟨y, created'', mesh''⟩ := Term.create_succeeds .innerProduct livesA livesQ foundMesh rfl
  obtain ⟨kind, first, second, -⟩ := Term.create_spec created
  obtain ⟨kind', first', second', -⟩ := Term.create_spec created'
  obtain ⟨kind'', first'', second'', -⟩ := Term.create_spec created''
  have tested {f : FormId} (root : s.Reads f .root) : s.testedForm? f = .ok (some f) :=
    Session.testedForm?_eq_ok_some.2 (.root root)
  simp only [created, created', created''] at outcome
  split at outcome
  case h_2 => cases outcome
  rename_i o run
  obtain ⟨size, answers⟩ := of_decide_eq_true outcome
  have wellFormed : WeakFormulation.WellFormed ⟨⟨0⟩, [⟨[⟨.plus, y⟩], []⟩,
      ⟨[⟨.plus, t⟩], [⟨.minus, x⟩]⟩], [⟨2⟩, ⟨1⟩], none⟩ s := by
    refine ⟨WeakFormulation.check_eq_ok.2 ⟨by simp, .cons ⟨Nat.one_pos, ⟨1, livesQ⟩, ?_⟩
      (.cons ⟨Nat.two_pos, ⟨1, livesV⟩, ?_⟩ .nil)⟩, ?_⟩
    · simpa [Equation.terms, second'', WeakFormulation.TermFits] using
        ⟨tested readsQ, Or.inl mesh''⟩
    · simpa [Equation.terms, second, second', WeakFormulation.TermFits] using
        ⟨⟨tested readsV, Or.inl mesh⟩, tested readsV, Or.inl mesh'⟩
    · simpa [Equation.terms, kind, first, second, kind', first', second', kind'', first'',
        second''] using ⟨created'', created, created'⟩
  obtain ⟨same, session, -⟩ := WeakFormulation.ode_discretization_agrees reachable wellFormed
    (i := 1) run [.newSequence, .declare ["k-1", "k"], .differentiate 1 "k-1" "k",
      .differentiate 0 "k-1" "k", .average 1 ⟨0⟩ ["k-1", "k"]] (by
        simpa [Call.address?] using ⟨size, Nat.zero_lt_of_lt size, size⟩)
  exact ⟨s, t, x, y, o, reachable, wellFormed, run, answers, same, session⟩

end Variational
