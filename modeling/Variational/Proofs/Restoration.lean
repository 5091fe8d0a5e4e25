import Variational.Proofs.Replacement

/-!
# Replacing back

Replacing a form by one that does not occur is undone by replacing back: what stands around the
replacement is recorded already, so every operation gives the form that was there before. As
long as no operator passes a degree on to a space of another degree, nothing is rejected. A
wedge product can hand a degree of its second factor round in between, so that this happens on
the way back only.
-/

namespace Variational

open Derive

variable {settings : Settings} {s s' : Session}

/-! ## Forms around an occurrence -/

namespace Session

variable {f g h target : FormId}

/-- A form stands in another one, around an occurrence of a target. -/
structure Surrounds (s : Session) (f target h : FormId) : Prop where
  inside : s.occursIn f h = .ok true
  around : s.occursIn h target = .ok true
  differs : h ≠ target

/-- A form does not occur in its operands. -/
theorem Reads.ne_of_operand {e : FormExpr} (reads : s.Reads f e) (member : g ∈ e.operands)
    (occurs : s.occursIn g target = .ok true) : f ≠ target := by
  rintro rfl
  obtain ⟨form, found, rfl⟩ := reads
  have before := FormTable.operands_lt found member
  have behind := index_le_of_occursIn occurs
  omega

theorem Surrounds.of_operand {e : FormExpr} (reads : s.Reads f e) (member : g ∈ e.operands)
    (surrounds : s.Surrounds g target h) : s.Surrounds f target h where
  inside := reads.occursIn_of_operand member surrounds.inside
  around := surrounds.around
  differs := surrounds.differs

end Session

/-! ## Substituting back -/

namespace Form.Substituted

variable {f f' g g' target new : FormId}

/-- A form that is rebuilt around its one operand contains the new form below its top. -/
theorem rebuilt_around {e e' : FormExpr} (operand : Substituted s target new g g')
    (differs : f ≠ target) (occurs : s.occursIn f target = .ok true) (reads : s.Reads f e)
    (single : e.operands = [g]) (reads' : s.Reads f' e') (single' : e'.operands = [g']) :
    f' ≠ new ∧ s.occursIn f' new = .ok true := by
  obtain ⟨x, member, below⟩ := reads.exists_operand differs occurs
  rw [single] at member
  cases List.mem_singleton.1 member
  have member' : g' ∈ e'.operands := single' ▸ List.mem_cons_self
  have inside := operand.occursIn_replacement below
  exact ⟨reads'.ne_of_operand member' inside, reads'.occursIn_of_operand member' inside⟩

/-- A form that is rebuilt around two operands contains the new form below its top. -/
theorem rebuilt_around_both {h h' : FormId} {op : BinaryOperator}
    (left : Substituted s target new g g') (right : Substituted s target new h h')
    (differs : f ≠ target) (occurs : s.occursIn f target = .ok true)
    (reads : s.Reads f (.binary op g h)) (reads' : s.Reads f' (.binary op g' h')) :
    f' ≠ new ∧ s.occursIn f' new = .ok true := by
  obtain ⟨y, member, inside⟩ : ∃ y ∈ (FormExpr.binary op g' h').operands,
      s.occursIn y new = .ok true := by
    obtain ⟨x, member, below⟩ := reads.exists_operand differs occurs
    rcases List.mem_pair.1 member with rfl | rfl
    · exact ⟨g', List.mem_pair.2 (Or.inl rfl), left.occursIn_replacement below⟩
    · exact ⟨h', List.mem_pair.2 (Or.inr rfl), right.occursIn_replacement below⟩
  exact ⟨reads'.ne_of_operand member inside, reads'.occursIn_of_operand member inside⟩

/-- Substituting a form that does not occur is undone by substituting back. -/
theorem back (reachable : Session.Reachable settings s)
    (substituted : Substituted s target new f g) (fresh : s.occursIn f new ≠ .ok true) :
    Substituted s new target g f := by
  -- the new form occurs in a rebuilt operand, so no rebuilt form is taken for it
  induction substituted with
  | here => exact .here
  | @absent f absent =>
    have differs : f ≠ target := by
      rintro rfl
      simp [Session.occursIn_self] at absent
    obtain ⟨form, found⟩ := Session.exists_form_of_occursIn differs absent
    obtain ⟨occurs, known⟩ := Session.occursIn_total new found
    cases occurs with
    | false => exact .absent known
    | true => exact absurd known fresh
  | unary differs occurs reads operand reads' ih =>
    obtain ⟨differs', occurs'⟩ := operand.rebuilt_around differs occurs reads rfl reads' rfl
    exact .unary differs' occurs' reads' (ih (reads.absent_operand fresh List.mem_cons_self)) reads
  | binary differs occurs reads left right reads' ihLeft ihRight =>
    obtain ⟨differs', occurs'⟩ := left.rebuilt_around_both right differs occurs reads reads'
    exact .binary differs' occurs' reads'
      (ihLeft (reads.absent_operand fresh (List.mem_pair.2 (Or.inl rfl))))
      (ihRight (reads.absent_operand fresh (List.mem_pair.2 (Or.inr rfl)))) reads
  | quotient differs occurs reads dividend reads' ih =>
    obtain ⟨differs', occurs'⟩ := dividend.rebuilt_around differs occurs reads rfl reads' rfl
    exact .quotient differs' occurs' reads'
      (ih (reads.absent_operand fresh List.mem_cons_self)) reads
  | scaled differs occurs reads operand multiple ih =>
    obtain ⟨x, found, notOne⟩ := reachable.factor_ne_one reads
    cases multiple with
    | one stands found' _ one =>
      cases stands
      cases found.symm.trans found'
      exact absurd one notOne
    | scaled stands found' agrees other reads' =>
      cases stands
      obtain ⟨differs', occurs'⟩ := operand.rebuilt_around differs occurs reads rfl reads' rfl
      exact .scaled differs' occurs' reads' (ih (reads.absent_operand fresh List.mem_cons_self))
        (.scaled rfl found' agrees other reads)

end Form.Substituted

/-! ## Forms that are given again -/

/-- The operands of a form pass a degree on to its space, unless they belong to it. -/
inductive Session.PassesDegree (s : Session) : FormId → Nat → Prop
  | operator {f g : FormId} {op : UnaryOperator} {d : Nat} (moves : op ≠ .timeDerivative)
    (reads : s.Reads f (.unary op g)) (degree : s.formDegree? g = some d) : PassesDegree s f d
  | wedge {f g h : FormId} {d : Nat} (reads : s.Reads f (.binary .wedge g h))
    (degree : (s.formDegree? g).or (s.formDegree? h) = some d) : PassesDegree s f d

/-- A derivation gives a form of the session again. Or it is rejected for the degree of one of
the forms that it asks for, whose operands pass another degree on than its space has by then. -/
inductive Derive.Recalls (m : Derive FormId) (s : Session) (f : FormId) (asked : FormId → Prop) :
    Prop
  | result {s' : Session} (run : m s = .ok f s') (steps : s.Steps s')
  | rejected {h : FormId} {d e : Nat} {lin : String} {last : Session} (among : asked h)
    (passes : last.PassesDegree h d) (held : last.formDegree? h = some e) (differs : d ≠ e)
    (run : m s = .error (.rejected (.state (.degreeFixed lin e d))) last) (steps : s.Steps last)

namespace Derive.Recalls

variable {m m' : Derive FormId} {f g : FormId} {asked asked' : FormId → Prop}

theorem of_ok (run : m s = .ok f s) : m.Recalls s f asked :=
  .result run .refl

theorem congr (same : m s = m' s) (recalls : m'.Recalls s f asked) : m.Recalls s f asked := by
  cases recalls with
  | result run steps => exact .result (same.trans run) steps
  | rejected among passes held differs run steps =>
    exact .rejected among passes held differs (same.trans run) steps

theorem imp (recalls : m.Recalls s f asked) (imp : ∀ h, asked h → asked' h) :
    m.Recalls s f asked' := by
  cases recalls with
  | result run steps => exact .result run steps
  | rejected among passes held differs run steps =>
    exact .rejected (imp _ among) passes held differs run steps

theorem bind {next : FormId → Derive FormId} (first : m.Recalls s f asked)
    (rest : ∀ s', s.Steps s' → (next f).Recalls s' g asked) :
    (m >>= next).Recalls s g asked := by
  cases first with
  | @rejected h d e lin last among passes held differs run steps =>
    have failed : (m >>= next) s =
        .error (.rejected (.state (.degreeFixed lin e d))) last := by
      simp only [Bind.bind, EStateM.bind, run]
    exact .rejected among passes held differs failed steps
  | @result mid run steps =>
    cases rest mid steps with
    | result run' steps' => exact .result ((bind_of_ok run next).trans run') (steps.trans steps')
    | rejected among passes held differs run' steps' =>
      exact .rejected among passes held differs ((bind_of_ok run next).trans run')
        (steps.trans steps')

/-- What is given up to a degree is recalled, if the degree is the one that the operands of the
form pass on. -/
theorem of_givesUpTo {passed : Option Nat} (grows : m.Grows s)
    (gives : m.GivesUpTo f passed (s.formDegree? f) s)
    (passes : ∀ d, passed = some d → s.PassesDegree f d) : m.Recalls s f (· = f) := by
  by_cases agrees : ∀ d e, passed = some d → s.formDegree? f = some e → d = e
  · obtain ⟨s', run⟩ := gives.agreeing agrees
    exact .result run (grows.steps run)
  · push Not at agrees
    obtain ⟨d, e, given, held, differs⟩ := agrees
    obtain ⟨lin, run⟩ := gives.differing d e given held differs
    exact .rejected rfl (passes d given) held differs run .refl

end Derive.Recalls

namespace Form

variable {f g h target new : FormId} {c : ScalarId}

/-- An operator gives its form again. -/
theorem apply_recalls (sound : s.Sound) (distinct : s.Distinct) {op : UnaryOperator}
    (reads : s.Reads f (.unary op g)) : (apply op g).Recalls s f (· = f) := by
  have gives := apply_givesUpTo sound distinct reads
  by_cases moves : op = .timeDerivative
  · subst moves
    -- a time derivative is in the space of its operand, so no degree is passed on
    obtain ⟨form, operand, found, foundOperand, _, _, -, -, same⟩ := sound.rule_of_reads reads
    have degree : s.formDegree? g = s.formDegree? f := by
      rw [formDegree?_eq foundOperand, formDegree?_eq found, same]
    obtain ⟨s', run⟩ := gives.agreeing fun d e given held => by
      rw [degree, held] at given
      exact (Option.some.inj given).symm
    exact .result run ((apply_grows _ g).steps run)
  · exact .of_givesUpTo (apply_grows op g) gives fun d degree => .operator moves reads degree

/-- Two forms are combined to their form again. -/
theorem combine_recalls (sound : s.Sound) (distinct : s.Distinct) {op : BinaryOperator}
    (reads : s.Reads f (.binary op g h)) : (combine op g h).Recalls s f (· = f) := by
  cases op with
  | wedge =>
    exact .of_givesUpTo (wedge_grows g h) (wedge_givesUpTo sound distinct reads)
      fun d degree => .wedge reads degree
  | sum | difference => exact .of_ok (combine_again sound distinct (by simp) reads).1

/-- A multiple is formed again. -/
theorem scale_of_multiple (sound : s.Sound) (distinct : s.Distinct)
    (multiple : Multiple s g (some (.scalar c)) f) : scale (.scalar c) g s = .ok f s := by
  cases multiple with
  | one stands found _ one =>
    cases stands
    exact (scale_of_reads sound distinct rfl found (.inl ⟨one, rfl⟩)).1
  | scaled stands found _ other reads =>
    cases stands
    exact (scale_of_reads sound distinct rfl found (.inr ⟨other, reads⟩)).1

/-- Substituting again gives the same form, up to the degrees that the forms around the new form
are asked for. -/
theorem Substituted.recalls (reachable : Session.Reachable settings s)
    (substituted : Substituted s target new f g) (steps : s.Steps s') :
    (substitute target new f).Recalls s' g (s.Surrounds g new) := by
  induction substituted generalizing s' with
  | here =>
    rw [substitute, if_pos rfl]
    exact .of_ok rfl
  | @absent f absent =>
    have differs : f ≠ target := by
      rintro rfl
      simp [Session.occursIn_self] at absent
    have absent' := steps.extends.occursIn_eq_ok absent
    rw [substitute, if_neg differs]
    refine .of_ok ?_
    rw [get_bind, lift_bind_of_ok absent']
    rfl
  | @unary f f' x x' op differs occurs reads operand reads' ih =>
    obtain ⟨form, found, shape⟩ := id reads
    obtain ⟨differs', occurs'⟩ := operand.rebuilt_around differs occurs reads rfl reads' rfl
    refine .congr (substitute_inner (steps.extends.forms found) differs
      (steps.extends.occursIn_eq_ok occurs)) ?_
    simp only [shape]
    refine .bind ((ih steps).imp fun h => .of_operand reads' List.mem_cons_self) fun mid later => ?_
    have all : s.Steps mid := steps.trans later
    refine (apply_recalls (reachable.sound.steps all) (reachable.distinct.steps all)
      (all.extends.reads reads')).imp ?_
    rintro _ rfl
    exact ⟨Session.occursIn_self, occurs', differs'⟩
  | @binary f f' x x' y y' op differs occurs reads left right reads' ihLeft ihRight =>
    obtain ⟨form, found, shape⟩ := id reads
    obtain ⟨differs', occurs'⟩ := left.rebuilt_around_both right differs occurs reads reads'
    refine .congr (substitute_inner (steps.extends.forms found) differs
      (steps.extends.occursIn_eq_ok occurs)) ?_
    simp only [shape]
    refine .bind ((ihLeft steps).imp fun h => .of_operand reads' (List.mem_pair.2 (Or.inl rfl)))
      fun mid later => ?_
    refine .bind ((ihRight (steps.trans later)).imp fun h =>
      .of_operand reads' (List.mem_pair.2 (Or.inr rfl))) fun last latest => ?_
    have all : s.Steps last := (steps.trans later).trans latest
    refine (combine_recalls (reachable.sound.steps all) (reachable.distinct.steps all)
      (all.extends.reads reads')).imp ?_
    rintro _ rfl
    exact ⟨Session.occursIn_self, occurs', differs'⟩
  | @quotient f f' x x' c differs occurs reads dividend reads' ih =>
    obtain ⟨form, found, shape⟩ := id reads
    refine .congr (substitute_inner (steps.extends.forms found) differs
      (steps.extends.occursIn_eq_ok occurs)) ?_
    simp only [shape]
    refine .bind ((ih steps).imp fun h => .of_operand reads' List.mem_cons_self) fun mid later => ?_
    have all : s.Steps mid := steps.trans later
    exact .of_ok (divide_of_reads (reachable.sound.steps all) (reachable.distinct.steps all) rfl
      (all.extends.reads reads')).1
  | @scaled f f' x x' c differs occurs reads operand multiple ih =>
    obtain ⟨form, found, shape⟩ := id reads
    have around : ∀ h, s.Surrounds x' new h → s.Surrounds f' new h := by
      intro h surrounds
      cases multiple with
      | one => exact surrounds
      | scaled _ _ _ _ reads' => exact surrounds.of_operand reads' List.mem_cons_self
    refine .congr (substitute_inner (steps.extends.forms found) differs
      (steps.extends.occursIn_eq_ok occurs)) ?_
    simp only [shape]
    refine .bind ((ih steps).imp around) fun mid later => ?_
    have all : s.Steps mid := steps.trans later
    exact .of_ok (scale_of_multiple (reachable.sound.steps all) (reachable.distinct.steps all)
      (multiple.mono all))

/-! ## Replacing back -/

/-- Replacing a form by one that does not occur is undone by replacing back, whether or not the
form occurs, whether it is a leaf or derived, and also if it occurs in the one that takes its
place. Then every form around an occurrence is asked for again. The way back gives exactly the
form that was there, or it is rejected for the degree of such a form, to whose space an operator
or a wedge product passes another degree than it has by then. This does not happen if the finite
spaces share one degree. -/
theorem replace_undone (reachable : Session.Reachable settings s)
    (run : replace f target new s = .ok g s') (fresh : s.occursIn f new = .ok false) :
    (replace g new target).Recalls s' f (s'.Surrounds f target) ∧
      ((∃ d, s'.FiniteAt d) → ∃ s'', replace g new target s' = .ok f s'') := by
  have steps : s.Steps s' := (replace_grows f target new).steps run
  have reachable' : Session.Reachable settings s' :=
    reachable.of_request (.replacement f target new) rfl run
  have fresh' : s'.occursIn f new = .ok false := steps.extends.occursIn_eq_ok fresh
  have back : Substituted s' new target g f :=
    (replace_spec run).back reachable' (by simp [fresh'])
  have beside : s'.Beside new target := (beside_of_replace run).symm.mono steps
  obtain ⟨_, ⟨a, foundNew, same⟩, b, foundTarget, same'⟩ := id beside
  have replaces : replace g new target s' = substitute new target g s' := by
    rw [replace, get_bind, lift_bind_of_ok
      (commonSpace_of_eq foundNew foundTarget (same.trans same'.symm) _)]
  have recalls := Derive.Recalls.congr replaces (back.recalls reachable' .refl)
  refine ⟨recalls, fun shared => ?_⟩
  obtain ⟨d, finite⟩ := shared
  have differs : f ≠ new := by
    rintro rfl
    simp [Session.occursIn_self] at fresh
  obtain ⟨form, found⟩ := Session.exists_form_of_occursIn differs fresh
  have known : s'.Beside f g :=
    (replace_yields reachable.sound (beside_of_replace run) found).holds_of_ok run
  obtain ⟨_, -, x, foundNew', -⟩ := known
  obtain ⟨r, last, again⟩ := (replace_yields reachable'.sound beside foundNew').succeeds finite
  cases recalls with
  | result run' => exact ⟨_, run'⟩
  | rejected _ _ _ _ run' => cases again.symm.trans run'

/-- In `d u ∧ u` the form `δ d u`, in which `u` occurs, takes the place of `u` in both places and
is replaced by `u` again. -/
theorem replace_undone_inside : ∃ s s' g, Session.Reachable {} s ∧
    s.occursIn ⟨2⟩ ⟨0⟩ = .ok true ∧ replace ⟨3⟩ ⟨0⟩ ⟨2⟩ s = .ok g s' ∧ g ≠ ⟨3⟩ ∧
    s.occursIn ⟨3⟩ ⟨2⟩ = .ok false ∧
    (replace g ⟨2⟩ ⟨0⟩).Recalls s' ⟨3⟩ (s'.Surrounds ⟨3⟩ ⟨0⟩) ∧
    ∃ s'', replace g ⟨2⟩ ⟨0⟩ s' = .ok ⟨3⟩ s'' := by
  obtain ⟨s, reachable, inside, fresh, replaced⟩ : ∃ s, Session.Reachable {} s ∧
      s.occursIn ⟨2⟩ ⟨0⟩ = .ok true ∧ s.occursIn ⟨3⟩ ⟨2⟩ = .ok false ∧
      (match replace ⟨3⟩ ⟨0⟩ ⟨2⟩ s with
        | .ok g s' => decide (g ≠ ⟨3⟩ ∧ s'.FiniteAt 1)
        | .error _ _ => false) = true :=
    ⟨Request.performAll {} [.manifold 1, .mesh ⟨0⟩, .space ⟨0⟩ 0 .outer, .root ⟨0⟩ ⟨"u", "u"⟩,
      .operator .derivative ⟨0⟩, .operator .codifferential ⟨1⟩, .combination .wedge ⟨1⟩ ⟨0⟩,
      .degrees 1], .performAll {} _, by decide +kernel⟩
  cases run : replace ⟨3⟩ ⟨0⟩ ⟨2⟩ s with
  | error failure s' => simp [run] at replaced
  | ok g s' =>
    rw [run] at replaced
    obtain ⟨other, finite⟩ := of_decide_eq_true replaced
    obtain ⟨recalls, again⟩ := replace_undone reachable run fresh
    exact ⟨s, s', g, reachable, inside, run, other, fresh, recalls, again ⟨1, finite⟩⟩

/-- In `d t ∧ ⋆⋆t` the form `b` takes the place of `t`, and the degree of `⋆t` comes to the space of
`t`. On the way back `d t` is rejected, for the other degree of its space. -/
theorem replace_not_undone : ¬ ∀ (s s' : Session) (f target new g : FormId),
    Session.Reachable {} s → replace f target new s = .ok g s' →
      s.occursIn f new = .ok false → ∃ s'', replace g new target s' = .ok f s'' := by
  intro undone
  obtain ⟨s, reachable, fresh, rejected⟩ : ∃ s, Session.Reachable {} s ∧
      s.occursIn ⟨5⟩ ⟨1⟩ = .ok false ∧
      (match replace ⟨5⟩ ⟨0⟩ ⟨1⟩ s with
        | .ok g s' =>
          match replace g ⟨1⟩ ⟨0⟩ s' with
          | .ok _ _ => false
          | .error _ _ => true
        | .error _ _ => false) = true :=
    ⟨Request.performAll {} [.manifold 1, .mesh ⟨0⟩, .space ⟨0⟩ 0 .outer, .root ⟨0⟩ ⟨"t", "t"⟩,
      .root ⟨0⟩ ⟨"b", "b"⟩, .operator .derivative ⟨0⟩, .operator .hodge ⟨0⟩, .operator .hodge ⟨3⟩,
      .combination .wedge ⟨2⟩ ⟨4⟩, .degree ⟨1⟩ 2, .degree ⟨2⟩ 1], .performAll {} _,
      by decide +kernel⟩
  cases run : replace ⟨5⟩ ⟨0⟩ ⟨1⟩ s with
  | error failure s' => simp [run] at rejected
  | ok g s' =>
    obtain ⟨s'', again⟩ := undone s s' ⟨5⟩ ⟨0⟩ ⟨1⟩ g reachable run fresh
    simp [run, again] at rejected

end Form

end Variational
