import Variational.Form.Substitution
import Variational.Proofs.Scalars
import Variational.Proofs.Spaces

/-!
# Forms

Recording forms, and the growth of a session by the algebra of forms. A derived
form is typed: its space is related to the spaces of its operands by the rule of
its expression.
-/

namespace Variational

open Derive

variable {s s' : Session}

namespace Form

/-! ## Recording -/

theorem record_eq (f : Form) : record f s =
    match s.space f.space with
    | .ok _ =>
      if holds : s.forms.Holds f.expr then .ok s.forms.nextId (s.addForm f holds)
      else .error (.foreign .form) s
    | .error failure => .error failure s := by
  rw [record, get_bind]
  cases s.space f.space with
  | error failure => rfl
  | ok sp =>
    by_cases holds : s.forms.Holds f.expr
    · simp only [holds]
      rfl
    · simp only [holds]
      rfl

/-- A form is recorded if its space and its operands belong to the session. -/
theorem record_of_space {f : Form} {sp : Space} (found : s.spaces.get? f.space = some sp)
    (holds : s.forms.Holds f.expr) : record f s = .ok s.forms.nextId (s.addForm f holds) := by
  have fetched : s.space f.space = .ok sp := Arena.fetch_eq_ok_iff.2 found
  simp only [record_eq, fetched, dif_pos holds]

/-- Recording a root form is one step, if its conditions are met. -/
theorem register_grows {space : SpaceId} {labels : Labels} {expr : FormExpr}
    (step : ∀ sp (holds : s.forms.Holds expr), s.spaces.get? space = some sp →
      s.formLabels.Available labels → s.Step (s.addRootForm space labels expr holds)) :
    (register space labels expr).Grows s := by
  refine .get_bind (.lift_bind fun _ available => ?_)
  simp only [Grows, after, bind, EStateM.bind, record_eq]
  cases found : s.space space with
  | error failure => exact .refl
  | ok sp =>
    by_cases holds : s.forms.Holds expr
    · rw [dif_pos holds]
      exact .single (step sp holds (Arena.fetch_eq_ok_iff.1 found)
        (LabelIndex.checkAvailable_eq_ok.1 available))
    · rw [dif_neg holds]

theorem root_grows (space : SpaceId) (labels : Labels) : (root space labels).Grows s :=
  .lift_bind fun _ valid => register_grows fun _ holds found available =>
    .rootForm found valid available holds

/-- A derived form is found, or is recorded for a space of the session. -/
theorem derived_cases {space : SpaceId} {labels : Labels} {expr : FormExpr} {id : FormId}
    (run : derived space labels expr s = .ok id s') :
    (∃ f, s.forms.get? id = some f ∧ f.expr = expr ∧ s' = s) ∨
      ∃ holds : s.forms.Holds expr, id = s.forms.nextId ∧
        s' = s.addForm ⟨space, labels.sym, labels.lin, none, expr⟩ holds := by
  rw [derived, get_bind] at run
  cases known : s.forms.find? (·.expr = expr) with
  | some existing =>
    rw [known] at run
    obtain ⟨rfl, rfl⟩ := pure_eq_ok.1 run
    obtain ⟨f, found, same⟩ := Arena.find?_eq_some known
    exact Or.inl ⟨f, found, of_decide_eq_true same, rfl⟩
  | none =>
    simp only [known, record_eq] at run
    cases found : s.space space with
    | error failure => simp [found] at run
    | ok sp =>
      by_cases holds : s.forms.Holds expr
      · simp only [found, dif_pos holds] at run
        cases run
        exact Or.inr ⟨holds, rfl, rfl⟩
      · simp [found, dif_neg holds] at run

theorem derived_succeeds {space : SpaceId} {sp : Space} (labels : Labels) {expr : FormExpr}
    (found : s.spaces.get? space = some sp) (holds : s.forms.Holds expr) :
    ∃ id s', derived space labels expr s = .ok id s' := by
  rw [derived, get_bind]
  cases known : s.forms.find? (·.expr = expr) with
  | some existing => exact ⟨existing, s, rfl⟩
  | none => exact ⟨_, _, record_of_space found holds⟩

/-- A typed expression grows the session by at most one form. -/
theorem derived_grows {space : SpaceId} {labels : Labels} {expr : FormExpr}
    (composed : expr.isLeaf = false)
    (typed : ∀ sp, s.spaces.get? space = some sp → s.Typed space expr) :
    (derived space labels expr).Grows s := by
  refine .get_bind ?_
  cases known : s.forms.find? (·.expr = expr) with
  | some existing => exact .pure
  | none =>
    simp only [Grows, after, record_eq]
    cases found : s.space space with
    | error failure => exact .refl
    | ok sp =>
      have foundSpace := Arena.fetch_eq_ok_iff.1 found
      by_cases holds : s.forms.Holds expr
      · rw [dif_pos holds]
        exact .single (.derivedForm foundSpace holds composed rfl known (typed sp foundSpace))
      · rw [dif_neg holds]

/-! ## Sums and differences -/

theorem commonSpace_eq_ok {f g : FormId} {action : String} {space : SpaceId}
    (run : commonSpace s f g action = .ok space) :
    ∃ a b, s.forms.get? f = some a ∧ s.forms.get? g = some b ∧ a.space = space ∧
      b.space = space := by
  simp only [commonSpace, Outcome.bind_eq_ok] at run
  obtain ⟨a, foundLeft, b, foundRight, run⟩ := run
  refine ⟨a, b, Arena.fetch_eq_ok_iff.1 foundLeft, Arena.fetch_eq_ok_iff.1 foundRight, ?_⟩
  split at run
  · rename_i same
    cases Outcome.pure_eq_ok.1 run
    exact ⟨rfl, same.symm⟩
  · simp [Outcome.bind_eq_ok] at run

theorem add_grows (f g : FormId) : (add f g).Grows s :=
  .get_bind (.lift_bind fun _ common => .lift_bind fun _ _ => .lift_bind fun _ _ =>
    derived_grows rfl fun _ _ => commonSpace_eq_ok common)

theorem sub_grows (f g : FormId) : (sub f g).Grows s :=
  .get_bind (.lift_bind fun _ common => .lift_bind fun _ _ => .lift_bind fun _ _ =>
    derived_grows rfl fun _ _ => commonSpace_eq_ok common)

/-! ## Multiples -/

theorem divisorScalar_grows (f : FormId) (amount : Divisor) :
    (divisorScalar f amount).Grows s := by
  cases amount with
  | number x =>
    simp only [divisorScalar]
    split
    · exact .get_bind (.lift_bind fun _ _ => .bind .lift fun _ _ run => by
        simp [lift_eq_ok] at run)
    · exact Scalar.ofNumber_grows x
  | scalar id => exact .pure
  | interval id => exact .get_bind (.lift_bind fun _ _ => .pure)

theorem divide_grows (f : FormId) (amount : Divisor) : (divide f amount).Grows s :=
  .bind (divisorScalar_grows f amount) fun _ _ _ =>
    .get_bind (.lift_bind fun a found => .lift_bind fun c foundScalar =>
      derived_grows rfl fun _ _ => ⟨a, c, Arena.fetch_eq_ok_iff.1 found, rfl,
        Arena.fetch_eq_ok_iff.1 foundScalar⟩)

theorem scale_grows (factor : ScalarOperand) (f : FormId) : (scale factor f).Grows s := by
  refine .bind (Scalar.ofOperand_grows factor) fun scalar mid _ => ?_
  refine .get_bind (.lift_bind fun c foundScalar => ?_)
  split
  · exact .pure
  · exact .lift_bind fun a found => derived_grows rfl fun _ _ =>
      ⟨a, c, Arena.fetch_eq_ok_iff.1 found, rfl, Arena.fetch_eq_ok_iff.1 foundScalar⟩

/-! ## Operators -/

theorem unarySpace_grows (op : UnaryOperator) (space : SpaceId) :
    (unarySpace op space).Grows s := by
  cases op with
  | derivative => exact Space.derivative_grows space
  | codifferential => exact Space.codifferential_grows space
  | hodge => exact Space.hodge_grows space
  | trace => exact Space.trace_grows space
  | timeDerivative => exact .pure

/-- An operator relates the space of its operand to the space it maps into. -/
theorem unarySpace_cases {op : UnaryOperator} {source target : SpaceId}
    (run : unarySpace op source s = .ok target s') :
    s'.OperatorRule op source target ∨ op = .timeDerivative ∧ source = target ∧ s = s' := by
  cases op with
  | derivative => exact Or.inl (Space.derivative_rule run)
  | codifferential => exact Or.inl (Space.codifferential_rule run)
  | hodge => exact Or.inl (Space.hodge_rule run)
  | trace => exact Or.inl (Space.trace_rule run)
  | timeDerivative => exact Or.inr ⟨rfl, pure_eq_ok.1 run⟩

theorem unarySpace_rule {op : UnaryOperator} {source target : SpaceId} {sp : Space}
    (run : unarySpace op source s = .ok target s') (found : s'.spaces.get? target = some sp) :
    s'.OperatorRule op source target := by
  rcases unarySpace_cases run with rule | ⟨rfl, rfl, rfl⟩
  · exact rule
  · exact ⟨sp, sp, found, found, rfl⟩

theorem exists_space_of_unarySpace {op : UnaryOperator} {source target : SpaceId} {sp : Space}
    (found : s.spaces.get? source = some sp) (run : unarySpace op source s = .ok target s') :
    ∃ sp', s'.spaces.get? target = some sp' := by
  rcases unarySpace_cases run with ⟨_, dst, -, foundTarget, -⟩ | ⟨rfl, rfl, rfl⟩
  · exact ⟨dst, foundTarget⟩
  · exact ⟨sp, found⟩

theorem apply_grows (op : UnaryOperator) (f : FormId) : (apply op f).Grows s := by
  refine .get_bind (.lift_bind fun a found => ?_)
  refine .bind (unarySpace_grows op a.space) fun target mid run => .get_bind ?_
  have later := (unarySpace_grows op a.space).extends run
  exact derived_grows rfl fun _ foundSpace =>
    ⟨a, later.forms (Arena.fetch_eq_ok_iff.1 found), unarySpace_rule run foundSpace⟩

/-- An operator finds its space and then the form of its expression. -/
theorem apply_cases {op : UnaryOperator} {f g : FormId} (run : apply op f s = .ok g s') :
    ∃ a space mid labels, s.forms.get? f = some a ∧ unarySpace op a.space s = .ok space mid ∧
      derived space labels (.unary op f) mid = .ok g s' := by
  simp only [apply, get_bind, bind_eq_ok, lift_eq_ok] at run
  obtain ⟨a, _, ⟨found, rfl⟩, space, mid, related, run⟩ := run
  exact ⟨a, space, mid, _, Arena.fetch_eq_ok_iff.1 found, related, run⟩

theorem apply_of_ok {op : UnaryOperator} {f : FormId} {a : Form} {space : SpaceId}
    {mid : Session} (found : s.forms.get? f = some a)
    (related : unarySpace op a.space s = .ok space mid)
    (run : ∀ labels, ∃ g s', derived space labels (.unary op f) mid = .ok g s') :
    ∃ g s', apply op f s = .ok g s' := by
  have foundForm : s.form f = .ok a := Arena.fetch_eq_ok_iff.2 found
  rw [apply, get_bind, lift_bind_of_ok foundForm, bind_of_ok related, get_bind]
  exact run _

theorem wedge_grows (f g : FormId) : (wedge f g).Grows s := by
  refine .get_bind (.lift_bind fun a foundLeft => .get_bind (.lift_bind fun b foundRight => ?_))
  refine .bind (Space.wedge_grows a.space b.space) fun target mid run => .get_bind ?_
  have later := (Space.wedge_grows a.space b.space).extends run
  exact derived_grows rfl fun _ _ =>
    ⟨a, b, later.forms (Arena.fetch_eq_ok_iff.1 foundLeft),
      later.forms (Arena.fetch_eq_ok_iff.1 foundRight), Space.wedge_rule run⟩

theorem combine_grows (op : BinaryOperator) (f g : FormId) : (combine op f g).Grows s := by
  cases op with
  | sum => exact add_grows f g
  | difference => exact sub_grows f g
  | wedge => exact wedge_grows f g

/-! ## Evaluation and substitution -/

theorem evaluateAt_grows (f : FormId) (instant : TimeInstantId) :
    (evaluateAt f instant).Grows s := by
  refine .get_bind ?_
  cases unknown : knownEvaluation s f instant with
  | some evaluated => exact .pure
  | none =>
    refine .lift_bind fun a found => ?_
    cases base : a.expr with
    | root =>
      refine .lift_bind fun i foundInstant => register_grows fun sp holds foundSpace available => ?_
      exact .evaluation unknown (Arena.fetch_eq_ok_iff.1 found) base foundSpace
        (Arena.fetch_eq_ok_iff.1 foundInstant) rfl available holds
    | _ => exact .lift

theorem substitute_grows (target replacement f : FormId) :
    (substitute target replacement f).Grows s := by
  induction index : f.index using Nat.strongRecOn generalizing f s with
  | _ i ih =>
    subst index
    rw [substitute]
    split
    · exact .pure
    · refine .get_bind (.lift_bind fun occurs _ => ?_)
      split
      · exact .pure
      · split
        · exact .lift
        · rename_i a found
          have smaller : ∀ g ∈ a.expr.operands, ∀ s, (substitute target replacement g).Grows s :=
            fun g member s => ih g.index (FormTable.operands_lt found member) g rfl
          split
          · exact .pure
          · exact .pure
          · exact .bind (smaller _ (by simp [*, FormExpr.operands]) _) fun _ _ _ => apply_grows _ _
          · exact .bind (smaller _ (by simp [*, FormExpr.operands]) _) fun _ _ _ =>
              .bind (smaller _ (by simp [*, FormExpr.operands]) _) fun _ _ _ => combine_grows _ _ _
          · exact .bind (smaller _ (by simp [*, FormExpr.operands]) _) fun _ _ _ => divide_grows _ _
          · exact .bind (smaller _ (by simp [*, FormExpr.operands]) _) fun _ _ _ => scale_grows _ _

theorem replace_grows (f target replacement : FormId) :
    (replace f target replacement).Grows s :=
  .get_bind (.lift_bind fun _ _ => substitute_grows target replacement f)

end Form

end Variational
