import Variational.Proofs.Evaluation

/-!
# Substituted forms and test forms

`Form.Substituted` says what replacing a form inside another one gives: every topmost
occurrence is replaced and the expression around it is rebuilt. A test form that is
replaced by an evaluated form or by a quotient is no test form any more, and no later
substitution of a root form brings it back.
-/

namespace Variational

open Derive

variable {s s' : Session}

/-! ## Occurrences -/

namespace Session

variable {f g target : FormId}

theorem occursIn_self : s.occursIn f f = .ok true :=
  if_pos rfl

/-- A form occurs in itself and wherever it occurs in an operand. -/
theorem occursIn_iff {form : Form} (found : s.forms.get? f = some form) :
    s.occursIn f target = .ok true ↔
      f = target ∨ ∃ g ∈ form.expr.operands, s.occursIn g target = .ok true := by
  obtain ⟨held, rfl⟩ := List.getElem?_eq_some_iff.1 found
  have within : ∀ g ∈ s.forms.entities[f.index].expr.operands, g.index < s.forms.entities.length :=
    fun g member => Nat.lt_trans (s.forms.operands_before f.index held g member) held
  have below : ∀ g (held : g.index < s.forms.entities.length),
      s.occursIn g target = .ok true ↔ s.forms.occursAt target g.index held = true := by
    intro g held
    by_cases same : g = target
    · subst same
      rw [occursIn, if_pos rfl, FormTable.occursAt]
      simp
    · rw [occursIn, if_neg same, dif_pos held, Except.ok.injEq]
  rw [below f held, FormTable.occursAt]
  simp only [Bool.or_eq_true, decide_eq_true_eq, List.any_eq_true, List.mem_attach, true_and,
    Subtype.exists, EntityId.ext_iff]
  refine or_congr_right (exists_congr fun g => ?_)
  constructor
  · rintro ⟨member, occurs⟩
    exact ⟨member, (below g (within g member)).2 occurs⟩
  · rintro ⟨member, occurs⟩
    exact ⟨member, (below g (within g member)).1 occurs⟩

/-- What occurs in an operand occurs in the form. -/
theorem Reads.occursIn_of_operand {e : FormExpr} (reads : s.Reads f e) (member : g ∈ e.operands)
    (occurs : s.occursIn g target = .ok true) : s.occursIn f target = .ok true := by
  obtain ⟨form, found, rfl⟩ := reads
  exact (occursIn_iff found).2 (Or.inr ⟨g, member, occurs⟩)

/-- What occurs in a form below its top occurs in an operand. -/
theorem Reads.exists_operand {e : FormExpr} (reads : s.Reads f e) (differs : f ≠ target)
    (occurs : s.occursIn f target = .ok true) :
    ∃ g ∈ e.operands, s.occursIn g target = .ok true := by
  obtain ⟨form, found, rfl⟩ := reads
  exact ((occursIn_iff found).1 occurs).resolve_left differs

theorem occursIn_total (target : FormId) {form : Form} (found : s.forms.get? f = some form) :
    ∃ b, s.occursIn f target = .ok b := by
  obtain ⟨held, -⟩ := List.getElem?_eq_some_iff.1 found
  by_cases same : f = target
  · exact ⟨true, if_pos same⟩
  · exact ⟨_, (if_neg same).trans (dif_pos held)⟩

/-- What is not a form and occurs in none of its operands does not occur in it. -/
theorem Reads.occursIn_eq_false {e : FormExpr} (reads : s.Reads f e) (differs : f ≠ target)
    (absent : ∀ g ∈ e.operands, s.occursIn g target = .ok false) :
    s.occursIn f target = .ok false := by
  obtain ⟨form, found, shape⟩ := id reads
  obtain ⟨b, run⟩ := occursIn_total target found
  cases b with
  | false => exact run
  | true =>
    obtain ⟨g, member, occurs⟩ := reads.exists_operand differs run
    cases (absent g member).symm.trans occurs

/-- A form in which another one is looked for is a form of the session. -/
theorem exists_form_of_occursIn {b : Bool} (differs : f ≠ target)
    (run : s.occursIn f target = .ok b) : ∃ form, s.forms.get? f = some form := by
  rw [occursIn, if_neg differs] at run
  split at run
  · exact ⟨_, List.getElem?_eq_getElem ‹_›⟩
  · simp at run

/-- A form stands before the forms in which it occurs. -/
theorem index_le_of_occursIn (occurs : s.occursIn f target = .ok true) :
    target.index ≤ f.index := by
  induction index : f.index using Nat.strongRecOn generalizing f with
  | _ i ih =>
    subst index
    by_cases same : f = target
    · exact same ▸ Nat.le_refl _
    · obtain ⟨form, found⟩ := exists_form_of_occursIn same occurs
      obtain ⟨g, member, below⟩ :=
        Reads.exists_operand (e := form.expr) ⟨form, found, rfl⟩ same occurs
      have before := FormTable.operands_lt found member
      exact Nat.le_trans (ih g.index before below rfl) (Nat.le_of_lt before)

/-- What occurs in a form of the session is a form of the session. -/
theorem exists_form_of_contained {form : Form} (found : s.forms.get? f = some form)
    (occurs : s.occursIn f target = .ok true) : ∃ a, s.forms.get? target = some a := by
  obtain ⟨held, -⟩ := List.getElem?_eq_some_iff.1 found
  have before := index_le_of_occursIn occurs
  exact ⟨_, List.getElem?_eq_getElem (Nat.lt_of_le_of_lt before held)⟩

/-- A root form that is not evaluated does not occur in an evaluated form. -/
theorem EvaluatedAt.occursIn_eq {sequence : TimeSequenceId} {key : String} {r : FormId}
    (evaluated : s.EvaluatedAt sequence f key g) (root : s.Reads r .root) :
    s.occursIn g r = .ok false := by
  obtain ⟨i, -, reads⟩ := evaluated
  refine reads.occursIn_eq_false ?_ (by simp [FormExpr.operands])
  rintro rfl
  cases reads.unique root

/-- What a form contains is settled when it is recorded. -/
theorem Extends.occursIn_iff (later : s.Extends s') {form : Form}
    (found : s.forms.get? f = some form) :
    s'.occursIn f target = .ok true ↔ s.occursIn f target = .ok true := by
  induction index : f.index using Nat.strongRecOn generalizing f form with
  | _ i ih =>
    subst index
    rw [Session.occursIn_iff found, Session.occursIn_iff (later.forms found)]
    refine or_congr_right (exists_congr fun g => and_congr_right fun member => ?_)
    have before := FormTable.operands_lt found member
    obtain ⟨held, -⟩ := List.getElem?_eq_some_iff.1 found
    exact ih g.index before (List.getElem?_eq_getElem (Nat.lt_trans before held)) rfl

theorem Extends.occursIn_eq_ok (later : s.Extends s') {b : Bool}
    (run : s.occursIn f target = .ok b) : s'.occursIn f target = .ok b := by
  by_cases same : f = target
  · subst same
    rw [occursIn_self] at run ⊢
    exact run
  · obtain ⟨form, found⟩ := exists_form_of_occursIn same run
    obtain ⟨b', run'⟩ := occursIn_total target (later.forms found)
    have agrees : s'.occursIn f target = .ok true ↔ s.occursIn f target = .ok true :=
      later.occursIn_iff found
    rw [run', run] at agrees
    rw [run']
    cases b <;> cases b' <;> simp_all

end Session

/-! ## Substitution -/

/-- A form with every topmost occurrence of a target replaced. -/
inductive Form.Substituted (s : Session) (target replacement : FormId) : FormId → FormId → Prop
  | here : Substituted s target replacement target replacement
  | absent {f : FormId} (absent : s.occursIn f target = .ok false) :
    Substituted s target replacement f f
  | unary {f f' g g' : FormId} {op : UnaryOperator} (differs : f ≠ target)
    (occurs : s.occursIn f target = .ok true) (reads : s.Reads f (.unary op g))
    (operand : Substituted s target replacement g g') (reads' : s.Reads f' (.unary op g')) :
    Substituted s target replacement f f'
  | binary {f f' g g' h h' : FormId} {op : BinaryOperator} (differs : f ≠ target)
    (occurs : s.occursIn f target = .ok true) (reads : s.Reads f (.binary op g h))
    (left : Substituted s target replacement g g') (right : Substituted s target replacement h h')
    (reads' : s.Reads f' (.binary op g' h')) : Substituted s target replacement f f'
  | quotient {f f' g g' : FormId} {c : ScalarId} (differs : f ≠ target)
    (occurs : s.occursIn f target = .ok true) (reads : s.Reads f (.quotient g c))
    (dividend : Substituted s target replacement g g') (reads' : s.Reads f' (.quotient g' c)) :
    Substituted s target replacement f f'
  | scaled {f f' g g' : FormId} {c : ScalarId} (differs : f ≠ target)
    (occurs : s.occursIn f target = .ok true) (reads : s.Reads f (.scaled c g))
    (operand : Substituted s target replacement g g')
    (multiple : Form.Multiple s g' (some (.scalar c)) f') : Substituted s target replacement f f'

namespace Form

variable {target replacement f g h : FormId}

theorem Substituted.mono (substituted : Substituted s target replacement f g)
    (steps : s.Steps s') : Substituted s' target replacement f g := by
  have later := steps.extends
  induction substituted with
  | here => exact .here
  | absent absent => exact .absent (later.occursIn_eq_ok absent)
  | unary differs occurs reads _ reads' ih =>
    exact .unary differs (later.occursIn_eq_ok occurs) (later.reads reads) ih (later.reads reads')
  | binary differs occurs reads _ _ reads' left right =>
    exact .binary differs (later.occursIn_eq_ok occurs) (later.reads reads) left right
      (later.reads reads')
  | quotient differs occurs reads _ reads' ih =>
    exact .quotient differs (later.occursIn_eq_ok occurs) (later.reads reads) ih
      (later.reads reads')
  | scaled differs occurs reads _ multiple ih =>
    exact .scaled differs (later.occursIn_eq_ok occurs) (later.reads reads) ih
      (multiple.mono steps)

theorem Multiple.unique (distinct : s.Distinct) {factor : Option ScalarOperand}
    (multiple : Multiple s f factor g) (multiple' : Multiple s f factor h) : g = h := by
  cases multiple with
  | self =>
    cases multiple'
    rfl
  | one stands found _ one =>
    cases multiple' with
    | one => rfl
    | scaled stands' found' _ other =>
      cases stands.symm.trans stands'
      cases found.symm.trans found'
      simp [one] at other
  | scaled stands found _ other reads =>
    cases multiple' with
    | one stands' found' _ one =>
      cases stands.symm.trans stands'
      cases found.symm.trans found'
      simp [one] at other
    | scaled stands' _ _ _ reads' =>
      cases stands.symm.trans stands'
      exact distinct.reads_unique reads reads' (by simp)

/-- A form that contains the target below its top is rebuilt from what it reads. -/
theorem Substituted.inner_cases (substituted : Substituted s target replacement f h)
    (differs : f ≠ target) (occurs : s.occursIn f target = .ok true) {e : FormExpr}
    (reads : s.Reads f e) :
    match e with
    | .root | .atInstant _ => False
    | .unary op g => ∃ g', Substituted s target replacement g g' ∧ s.Reads h (.unary op g')
    | .binary op g k => ∃ g' k', Substituted s target replacement g g' ∧
        Substituted s target replacement k k' ∧ s.Reads h (.binary op g' k')
    | .quotient g c => ∃ g', Substituted s target replacement g g' ∧ s.Reads h (.quotient g' c)
    | .scaled c g => ∃ g', Substituted s target replacement g g' ∧
        Multiple s g' (some (.scalar c)) h := by
  cases substituted with
  | here => exact absurd rfl differs
  | absent absent => simp [absent] at occurs
  | unary _ _ reads' operand rebuilt =>
    cases reads.unique reads'
    exact ⟨_, operand, rebuilt⟩
  | binary _ _ reads' left right rebuilt =>
    cases reads.unique reads'
    exact ⟨_, _, left, right, rebuilt⟩
  | quotient _ _ reads' dividend rebuilt =>
    cases reads.unique reads'
    exact ⟨_, dividend, rebuilt⟩
  | scaled _ _ reads' operand multiple =>
    cases reads.unique reads'
    exact ⟨_, operand, multiple⟩

/-- There is one form that substitution gives. -/
theorem Substituted.unique (distinct : s.Distinct)
    (substituted : Substituted s target replacement f g)
    (substituted' : Substituted s target replacement f h) : g = h := by
  induction substituted generalizing h with
  | here =>
    cases substituted' with
    | here => rfl
    | absent absent => simp [Session.occursIn_self] at absent
    | unary differs | binary differs | quotient differs | scaled differs =>
      exact absurd rfl differs
  | absent absent =>
    cases substituted' with
    | here => simp [Session.occursIn_self] at absent
    | absent => rfl
    | unary _ occurs | binary _ occurs | quotient _ occurs | scaled _ occurs =>
      simp [absent] at occurs
  | unary differs occurs reads _ reads' ih =>
    obtain ⟨g', operand, rebuilt⟩ := substituted'.inner_cases differs occurs reads
    cases ih operand
    exact distinct.reads_unique reads' rebuilt (by simp)
  | binary differs occurs reads _ _ reads' left right =>
    obtain ⟨g', k', first, second, rebuilt⟩ := substituted'.inner_cases differs occurs reads
    cases left first
    cases right second
    exact distinct.reads_unique reads' rebuilt (by simp)
  | quotient differs occurs reads _ reads' ih =>
    obtain ⟨g', dividend, rebuilt⟩ := substituted'.inner_cases differs occurs reads
    cases ih dividend
    exact distinct.reads_unique reads' rebuilt (by simp)
  | scaled differs occurs reads _ multiple ih =>
    obtain ⟨g', operand, multiple'⟩ := substituted'.inner_cases differs occurs reads
    cases ih operand
    exact multiple.unique distinct multiple'

namespace Substituted

theorem eq_of_absent (substituted : Substituted s target replacement f g)
    (absent : s.occursIn f target = .ok false) : g = f := by
  cases substituted with
  | here => simp [Session.occursIn_self] at absent
  | absent => rfl
  | unary _ occurs | binary _ occurs | quotient _ occurs | scaled _ occurs =>
    simp [absent] at occurs

/-- The replacement occurs wherever the target occurred. -/
theorem occursIn_replacement (substituted : Substituted s target replacement f g)
    (occurs : s.occursIn f target = .ok true) : s.occursIn g replacement = .ok true := by
  induction substituted with
  | here => exact Session.occursIn_self
  | absent absent => simp [absent] at occurs
  | unary differs _ reads _ reads' ih | quotient differs _ reads _ reads' ih =>
    obtain ⟨z, member, below⟩ := reads.exists_operand differs occurs
    cases List.mem_singleton.1 member
    exact reads'.occursIn_of_operand List.mem_cons_self (ih below)
  | binary differs _ reads _ _ reads' left right =>
    obtain ⟨z, member, below⟩ := reads.exists_operand differs occurs
    rcases List.mem_cons.1 member with rfl | last
    · exact reads'.occursIn_of_operand List.mem_cons_self (left below)
    · cases List.mem_singleton.1 last
      exact reads'.occursIn_of_operand (List.mem_cons_of_mem _ List.mem_cons_self) (right below)
  | scaled differs _ reads _ multiple ih =>
    obtain ⟨z, member, below⟩ := reads.exists_operand differs occurs
    cases List.mem_singleton.1 member
    cases multiple with
    | one => exact ih below
    | scaled _ _ _ _ reads' => exact reads'.occursIn_of_operand List.mem_cons_self (ih below)

end Substituted

/-- A form that contains the target below its top is rebuilt around its operands. -/
theorem substitute_inner {a : Form} (found : s.forms.get? f = some a) (differs : f ≠ target)
    (occurs : s.occursIn f target = .ok true) :
    substitute target replacement f s = (match a.expr with
      | .root | .atInstant _ => pure f
      | .unary op g => do apply op (← substitute target replacement g)
      | .binary op g h => do
        let left ← substitute target replacement g
        let right ← substitute target replacement h
        combine op left right
      | .quotient g c => do divide (← substitute target replacement g) (.scalar c)
      | .scaled c g => do scale (.scalar c) (← substitute target replacement g)) s := by
  rw [substitute, if_neg differs, get_bind, lift_bind_of_ok occurs, if_neg (by decide)]
  refine congrFun (?_ : (_ : Derive FormId) = _) s
  split
  · rename_i missing
    simp [found] at missing
  · rename_i b found'
    cases found.symm.trans found'
    split <;> simp only [*]

theorem substitute_spec (run : substitute target replacement f s = .ok g s') :
    Substituted s' target replacement f g := by
  induction index : f.index using Nat.strongRecOn generalizing f g s s' with
  | _ i ih =>
    subst index
    by_cases same : f = target
    · rw [substitute, if_pos same] at run
      obtain ⟨rfl, -⟩ := pure_eq_ok.1 run
      exact same ▸ .here
    have later := (substitute_grows target replacement f).extends run
    cases occurs : s.occursIn f target with
    | error failure =>
      rw [substitute, if_neg same, get_bind, occurs] at run
      cases run
    | ok occursIn =>
      cases occursIn with
      | false =>
        rw [substitute, if_neg same, get_bind, lift_bind_of_ok occurs] at run
        obtain ⟨rfl, rfl⟩ := pure_eq_ok.1 run
        exact .absent occurs
      | true =>
        have occurs' := later.occursIn_eq_ok occurs
        obtain ⟨a, found⟩ := Session.exists_form_of_occursIn same occurs
        have before : ∀ x ∈ a.expr.operands, x.index < f.index :=
          fun x member => FormTable.operands_lt found member
        have reads : ∀ {e}, a.expr = e → s'.Reads f e := fun shape =>
          ⟨a, later.forms found, shape⟩
        rw [substitute_inner found same occurs] at run
        cases shape : a.expr with
        | root | atInstant binding =>
          -- nothing but the form itself occurs in a leaf
          rw [Session.occursIn_iff found, shape] at occurs
          simp [FormExpr.operands, same] at occurs
        | unary op x =>
          simp only [shape, FormExpr.operands, List.mem_singleton, forall_eq, bind_eq_ok]
            at before run
          obtain ⟨y, mid, inner, run⟩ := run
          have steps := (apply_grows op y).steps run
          exact .unary same occurs' (reads shape) ((ih _ before inner rfl).mono steps)
            (Session.reads_of_apply run)
        | binary op x z =>
          simp only [shape, FormExpr.operands, List.mem_cons, List.not_mem_nil, or_false,
            forall_eq_or_imp, forall_eq, bind_eq_ok] at before run
          obtain ⟨y, mid, first, y', last, second, run⟩ := run
          have steps := (combine_grows op y y').steps run
          have between := (substitute_grows target replacement z).steps second
          exact .binary same occurs' (reads shape)
            ((ih _ before.1 first rfl).mono (between.trans steps))
            ((ih _ before.2 second rfl).mono steps) (reads_of_combine run)
        | quotient x c =>
          simp only [shape, FormExpr.operands, List.mem_singleton, forall_eq, bind_eq_ok]
            at before run
          obtain ⟨y, mid, inner, run⟩ := run
          have steps := (divide_grows y _).steps run
          exact .quotient same occurs' (reads shape) ((ih _ before inner rfl).mono steps)
            (reads_of_divide_scalar run)
        | scaled c x =>
          simp only [shape, FormExpr.operands, List.mem_singleton, forall_eq, bind_eq_ok]
            at before run
          obtain ⟨y, mid, inner, run⟩ := run
          have steps := (scale_grows _ y).steps run
          exact .scaled same occurs' (reads shape) ((ih _ before inner rfl).mono steps)
            (scale_spec run)

theorem replace_spec (run : replace f target replacement s = .ok g s') :
    Substituted s' target replacement f g := by
  simp only [replace, get_bind, bind_eq_ok, lift_eq_ok] at run
  obtain ⟨_, _, ⟨-, rfl⟩, run⟩ := run
  exact substitute_spec run

end Form

/-- Replacing a form in a term that the session makes of its forms gives the term of the
replaced forms, with the sign it had. -/
theorem Term.replace_spec {t : Term} {target replacement : FormId} {new : Signed Term}
    (created : Term.create s t.kind t.f1 t.f2 = .ok t)
    (run : t.replace target replacement s = .ok new s') :
    new.sign = .plus ∧ ∃ g1 g2, Form.Substituted s' target replacement t.f1 g1 ∧
      Form.Substituted s' target replacement t.f2 g2 ∧
        Term.create s' t.kind g1 g2 = .ok new.value := by
  simp only [Term.replace, bind_eq_ok] at run
  obtain ⟨g1, mid, first, g2, last, second, run⟩ := run
  have growsFirst := (Form.replace_grows t.f1 target replacement).steps first
  have growsSecond := (Form.replace_grows t.f2 target replacement).steps second
  have substituted := (Form.replace_spec first).mono growsSecond
  split at run
  · rename_i unchanged
    obtain ⟨rfl, rfl⟩ := unchanged
    obtain ⟨rfl, rfl⟩ := pure_eq_ok.1 run
    exact ⟨rfl, _, _, substituted, Form.replace_spec second,
      Term.create_mono (growsFirst.extends.trans growsSecond.extends) created⟩
  · simp only [get_bind, bind_eq_ok, lift_eq_ok, pure_eq_ok] at run
    obtain ⟨x, _, ⟨made, rfl⟩, rfl, rfl⟩ := run
    exact ⟨rfl, g1, g2, substituted, Form.replace_spec second, made⟩

/-! ## Test forms -/

namespace Session

/-- A form is a root form, or is made of it by derivatives and traces. -/
inductive Tested (s : Session) (v : FormId) : FormId → Prop
  | root (reads : s.Reads v .root) : Tested s v v
  | operator {f g : FormId} {op : UnaryOperator} (reads : s.Reads f (.unary op g))
    (transparent : op = .derivative ∨ op = .trace) (operand : Tested s v g) : Tested s v f

/-- No root form is found behind the derivatives and traces of a form: there is an evaluated form
or a quotient. -/
inductive Untested (s : Session) : FormId → Prop
  | evaluated {f : FormId} {binding : TimeBinding} (reads : s.Reads f (.atInstant binding)) :
    Untested s f
  | quotient {f g : FormId} {c : ScalarId} (reads : s.Reads f (.quotient g c)) : Untested s f
  | operator {f g : FormId} {op : UnaryOperator} (reads : s.Reads f (.unary op g))
    (transparent : op = .derivative ∨ op = .trace) (operand : Untested s g) : Untested s f

variable {v f g target replacement : FormId}

theorem Tested.isRoot (tested : s.Tested v f) : s.Reads v .root := by
  induction tested with
  | root reads => exact reads
  | operator _ _ _ ih => exact ih

theorem testedForm?_eq_ok_some : s.testedForm? f = .ok (some v) ↔ s.Tested v f := by
  constructor
  · intro run
    induction index : f.index using Nat.strongRecOn generalizing f with
    | _ i ih =>
      subst index
      obtain ⟨form, found⟩ : ∃ form, s.forms.get? f = some form := by
        rw [testedForm?] at run
        split at run
        · exact ⟨_, List.getElem?_eq_getElem ‹_›⟩
        · simp at run
      have before := fun g member => FormTable.operands_lt found (g := g) member
      rw [testedForm?_eq found] at run
      split at run
      · rename_i shape
        cases run
        exact .root ⟨form, found, shape⟩
      · rename_i g shape
        exact .operator ⟨form, found, shape⟩ (Or.inl rfl)
          (ih g.index (before g (by simp [shape, FormExpr.operands])) run rfl)
      · rename_i g shape
        exact .operator ⟨form, found, shape⟩ (Or.inr rfl)
          (ih g.index (before g (by simp [shape, FormExpr.operands])) run rfl)
      · cases run
  · intro tested
    induction tested with
    | root reads =>
      obtain ⟨form, found, shape⟩ := reads
      rw [testedForm?_eq found, shape]
    | operator reads transparent _ ih => rw [testedForm?_of_reads reads transparent, ih]

theorem Untested.testedForm?_eq (untested : s.Untested f) : s.testedForm? f = .ok none := by
  induction untested with
  | evaluated reads | quotient reads =>
    obtain ⟨form, found, shape⟩ := reads
    rw [Session.testedForm?_eq found, shape]
  | operator reads transparent _ ih => rw [testedForm?_of_reads reads transparent, ih]

theorem Tested.occursIn_testForm (tested : s.Tested v f) : s.occursIn f v = .ok true := by
  induction tested with
  | root => exact occursIn_self
  | @operator f x op reads _ _ ih =>
    obtain ⟨form, found, shape⟩ := reads
    exact (occursIn_iff found).2 (Or.inr ⟨x, by simp [shape, FormExpr.operands], ih⟩)

/-- Another root form does not occur in what is made of a root form by derivatives and traces. -/
theorem Tested.occursIn_eq (tested : s.Tested v f) (root : s.Reads target .root)
    (differs : target ≠ v) : s.occursIn f target = .ok false := by
  have absent : ∀ {f form}, s.forms.get? f = some form → s.occursIn f target ≠ .ok true →
      s.occursIn f target = .ok false := by
    intro f form found never
    obtain ⟨b, run⟩ := occursIn_total target found
    cases b with
    | false => exact run
    | true => exact absurd run never
  induction tested with
  | root reads =>
    obtain ⟨form, found, shape⟩ := reads
    refine absent found fun occurs => ?_
    simp [occursIn_iff found, shape, FormExpr.operands, Ne.symm differs] at occurs
  | @operator f g op reads transparent _ ih =>
    obtain ⟨form, found, shape⟩ := reads
    refine absent found fun occurs => ?_
    rw [occursIn_iff found, shape] at occurs
    rcases occurs with same | ⟨x, member, occurs⟩
    · subst same
      cases root.unique ⟨form, found, shape⟩
    · simp only [FormExpr.operands, List.mem_singleton] at member
      subst member
      simp [ih] at occurs

/-- Substituting another root form leaves a test form as it is. -/
theorem Tested.eq_of_substituted (tested : s.Tested v f) (root : s.Reads target .root)
    (differs : target ≠ v) (substituted : Form.Substituted s target replacement f g) : g = f := by
  have absent := tested.occursIn_eq root differs
  cases substituted with
  | here => simp [occursIn_self] at absent
  | absent => rfl
  | unary _ occurs | binary _ occurs | quotient _ occurs | scaled _ occurs =>
    simp [absent] at occurs

/-- Substituting an untested form for the test form leaves no test form. -/
theorem Tested.untested (tested : s.Tested v f) (replaced : s.Untested replacement)
    (substituted : Form.Substituted s v replacement f g) : s.Untested g := by
  induction tested generalizing g with
  | root reads =>
    cases substituted with
    | here => exact replaced
    | absent absent => simp [occursIn_self] at absent
    | unary differs | binary differs | quotient differs | scaled differs =>
      exact absurd rfl differs
  | @operator f x op reads transparent tested ih =>
    have differs : f ≠ v := by
      rintro rfl
      cases tested.isRoot.unique reads
    have occurs := Tested.occursIn_testForm (.operator reads transparent tested)
    obtain ⟨y, operand, rebuilt⟩ := substituted.inner_cases differs occurs reads
    exact .operator rebuilt transparent (ih operand)

/-- Substituting a root form does not make an untested form tested. -/
theorem Untested.substituted (untested : s.Untested f) (root : s.Reads target .root)
    (substituted : Form.Substituted s target replacement f g) : s.Untested g := by
  induction untested generalizing g with
  | evaluated reads =>
    cases substituted with
    | here => cases root.unique reads
    | absent => exact .evaluated reads
    | unary _ _ reads' | binary _ _ reads' | quotient _ _ reads' | scaled _ _ reads' =>
      cases reads.unique reads'
  | quotient reads =>
    cases substituted with
    | here => cases root.unique reads
    | absent => exact .quotient reads
    | unary _ _ reads' | binary _ _ reads' | scaled _ _ reads' => cases reads.unique reads'
    | quotient _ _ _ _ rebuilt => exact .quotient rebuilt
  | operator reads transparent untested ih =>
    cases substituted with
    | here => cases root.unique reads
    | absent => exact .operator reads transparent untested
    | binary _ _ reads' | quotient _ _ reads' | scaled _ _ reads' => cases reads.unique reads'
    | unary _ _ reads' operand rebuilt =>
      cases reads.unique reads'
      exact .operator rebuilt transparent (ih operand)

end Session

end Variational
