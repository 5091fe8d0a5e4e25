import Variational.Discretization.Plan
import Variational.Proofs.Multiples
import Variational.Proofs.Session.Distinct

/-!
# Forms at points in time

Which instants, intervals, evaluated forms and means the requests of a
discretization give. Each is known by what it was requested as, so in a session
there is one of each, and it is the same in every later session.
-/

namespace Variational

open Derive

variable {s s' : Session}

/-! ## Instants and intervals -/

namespace Session

/-- The instant of a sequence at a key. -/
def InstantAt (s : Session) (sequence : TimeSequenceId) (key : String) (i : TimeInstantId) : Prop :=
  ∃ x, s.timeInstants.get? i = some x ∧ x.sequence = sequence ∧ x.key = key

/-- An interval between two instants, of a duration. -/
def IntervalBetween (s : Session) (start stop : TimeInstantId) (duration : ScalarId) : Prop :=
  ∃ id x, s.timeIntervals.get? id = some x ∧ x.start = start ∧ x.stop = stop ∧
    x.duration = duration

variable {sequence : TimeSequenceId} {key : String} {i j : TimeInstantId} {c d : ScalarId}

theorem Extends.instantAt (later : s.Extends s') (known : s.InstantAt sequence key i) :
    s'.InstantAt sequence key i := by
  obtain ⟨x, found, same⟩ := known
  exact ⟨x, later.timeInstants found, same⟩

theorem Extends.intervalBetween (later : s.Extends s') (known : s.IntervalBetween i j c) :
    s'.IntervalBetween i j c := by
  obtain ⟨id, x, found, ends⟩ := known
  exact ⟨id, x, later.timeIntervals found, ends⟩

theorem Distinct.instantAt_unique (distinct : s.Distinct) (known : s.InstantAt sequence key i)
    (known' : s.InstantAt sequence key j) : i = j := by
  obtain ⟨x, found, rfl, rfl⟩ := known
  obtain ⟨y, found', sequence, key⟩ := known'
  exact distinct.timeInstants i j x y found found' ⟨sequence.symm, key.symm⟩

theorem Distinct.intervalBetween_unique (distinct : s.Distinct) (known : s.IntervalBetween i j c)
    (known' : s.IntervalBetween i j d) : c = d := by
  obtain ⟨id, x, found, rfl, rfl, rfl⟩ := known
  obtain ⟨id', y, found', start, stop, rfl⟩ := known'
  cases distinct.timeIntervals id id' x y found found' ⟨start.symm, stop.symm⟩
  cases found.symm.trans found'
  rfl

end Session

theorem TimeInstant.atKey_spec {sequence : TimeSequenceId} {key : String} {i : TimeInstantId}
    (run : atKey sequence key s = .ok i s') : s'.InstantAt sequence key i := by
  simp only [atKey, get_bind, bind_eq_ok, lift_eq_ok] at run
  obtain ⟨t, _, ⟨-, rfl⟩, run⟩ := run
  cases unknown : known s sequence key with
  | some instant =>
    rw [unknown] at run
    obtain ⟨rfl, rfl⟩ := pure_eq_ok.1 run
    obtain ⟨x, found, same⟩ := Arena.find?_eq_some unknown
    exact ⟨x, found, of_decide_eq_true same⟩
  | none =>
    simp only [unknown, bind_eq_ok, lift_eq_ok, set_eq_ok, pure_eq_ok] at run
    obtain ⟨_, _, ⟨-, rfl⟩, _, _, rfl, rfl, rfl⟩ := run
    exact ⟨_, Arena.get?_push_nextId, rfl, rfl⟩

theorem TimeInterval.between_spec {start stop : TimeInstantId} {interval : TimeIntervalId}
    (run : between start stop s = .ok interval s') :
    ∃ x, s'.timeIntervals.get? interval = some x ∧ x.start = start ∧ x.stop = stop := by
  simp only [between, get_bind, bind_eq_ok, lift_eq_ok] at run
  obtain ⟨a, _, ⟨-, rfl⟩, b, _, ⟨-, rfl⟩, run⟩ := run
  rw [guard_eq_ok, guard_eq_ok] at run
  obtain ⟨-, -, run⟩ := run
  cases unknown : known s start stop with
  | some present =>
    rw [unknown] at run
    obtain ⟨rfl, rfl⟩ := pure_eq_ok.1 run
    obtain ⟨x, found, same⟩ := Arena.find?_eq_some unknown
    exact ⟨x, found, of_decide_eq_true same⟩
  | none =>
    simp only [unknown, bind_eq_ok, lift_eq_ok, get_eq_ok, set_eq_ok, pure_eq_ok] at run
    obtain ⟨t, _, ⟨-, rfl⟩, duration, mid, -, _, _, ⟨rfl, rfl⟩, _, _, rfl, rfl, rfl⟩ := run
    exact ⟨_, Arena.get?_push_nextId, rfl, rfl⟩

/-! ## Evaluated forms -/

/-- A registered form is a new root form. -/
theorem Form.register_cases {space : SpaceId} {labels : Labels} {expr : FormExpr} {id : FormId}
    (run : register space labels expr s = .ok id s') :
    ∃ holds : s.forms.Holds expr, id = s.forms.nextId ∧
      s' = s.addRootForm space labels expr holds := by
  simp only [register, get_bind, bind_eq_ok, lift_eq_ok, record_eq] at run
  obtain ⟨_, _, ⟨-, rfl⟩, id', mid, run, rest⟩ := run
  cases found : s.space space with
  | error failure => simp [found] at run
  | ok sp =>
    by_cases holds : s.forms.Holds expr
    · simp only [found, dif_pos holds] at run
      cases run
      obtain ⟨_, _, modified, rfl, rfl⟩ := by simpa only [pure_eq_ok] using rest
      exact ⟨holds, rfl, (EStateM.Result.ok.inj modified).2.symm⟩
    · simp [found, dif_neg holds] at run

namespace Session

/-- A form is a root form at the instant of a sequence at a key. -/
def EvaluatedAt (s : Session) (sequence : TimeSequenceId) (f : FormId) (key : String)
    (e : FormId) : Prop :=
  ∃ i, s.InstantAt sequence key i ∧ s.Reads e (.atInstant ⟨f, sequence, i⟩)

variable {sequence : TimeSequenceId} {f e e' : FormId} {key : String}

theorem Extends.evaluatedAt (later : s.Extends s') (evaluated : s.EvaluatedAt sequence f key e) :
    s'.EvaluatedAt sequence f key e := by
  obtain ⟨i, known, reads⟩ := evaluated
  exact ⟨i, later.instantAt known, later.reads reads⟩

/-- A form that is not a root form is the only one with its expression. -/
theorem Distinct.reads_unique (distinct : s.Distinct) {expr : FormExpr} (reads : s.Reads e expr)
    (reads' : s.Reads e' expr) (derived : expr ≠ .root) : e = e' := by
  obtain ⟨a, found, rfl⟩ := reads
  obtain ⟨b, found', same⟩ := reads'
  exact distinct.eq_of_expr found found' same.symm derived

theorem Distinct.evaluatedAt_unique (distinct : s.Distinct)
    (evaluated : s.EvaluatedAt sequence f key e) (evaluated' : s.EvaluatedAt sequence f key e') :
    e = e' := by
  obtain ⟨i, known, reads⟩ := evaluated
  obtain ⟨i', known', reads'⟩ := evaluated'
  cases distinct.instantAt_unique known known'
  exact distinct.reads_unique reads reads' (by simp)

/-- The base of an evaluated form is a root form. -/
theorem Sound.root_of_evaluated (sound : s.Sound) {binding : TimeBinding}
    (reads : s.Reads e (.atInstant binding)) : s.Reads binding.base .root := by
  obtain ⟨form, found, expr⟩ := reads
  obtain ⟨-, typed, -⟩ := sound.forms found
  rw [expr] at typed
  obtain ⟨base, i, foundBase, root, -⟩ := typed
  exact ⟨base, foundBase, root⟩

end Session

/-- Only root forms are evaluated, and what they are evaluated to is known by the instant. -/
theorem Form.evaluateAt_spec {f e : FormId} {i : TimeInstantId} {sequence : TimeSequenceId}
    {key : String} (sound : s.Sound) (known : s.InstantAt sequence key i)
    (run : evaluateAt f i s = .ok e s') :
    s.Reads f .root ∧ s'.EvaluatedAt sequence f key e := by
  obtain ⟨x, found, rfl, rfl⟩ := known
  rw [evaluateAt, get_bind] at run
  cases unknown : knownEvaluation s f i with
  | some present =>
    rw [unknown] at run
    obtain ⟨rfl, rfl⟩ := pure_eq_ok.1 run
    obtain ⟨a, foundForm, same⟩ := Arena.find?_eq_some unknown
    obtain ⟨-, typed, -⟩ := sound.forms foundForm
    cases shape : a.expr with
    | atInstant binding =>
      simp only [isEvaluation, shape, decide_eq_true_eq] at same
      obtain ⟨rfl, rfl⟩ := same
      rw [shape] at typed
      obtain ⟨base, y, foundBase, root, -, foundInstant, bound⟩ := typed
      cases found.symm.trans foundInstant
      refine ⟨⟨base, foundBase, root⟩, binding.instant, ⟨x, found, rfl, rfl⟩, a, foundForm, ?_⟩
      rw [shape, bound]
    | _ => simp [isEvaluation, shape] at same
  | none =>
    simp only [unknown, bind_eq_ok, lift_eq_ok] at run
    obtain ⟨a, _, ⟨foundForm, rfl⟩, run⟩ := run
    cases root : a.expr with
    | root =>
      simp only [root, bind_eq_ok, lift_eq_ok] at run
      obtain ⟨y, _, ⟨foundInstant, rfl⟩, run⟩ := run
      cases found.symm.trans (Arena.fetch_eq_ok_iff.1 foundInstant)
      obtain ⟨holds, rfl, rfl⟩ := register_cases run
      exact ⟨⟨a, Arena.fetch_eq_ok_iff.1 foundForm, root⟩, i, ⟨x, found, rfl, rfl⟩, _,
        Arena.get?_push_nextId, rfl⟩
    | _ => simp [root, lift_eq_ok] at run

theorem Form.mapM_evaluateAt_spec {f : FormId} {sequence : TimeSequenceId} {keys : List String}
    {instants : List TimeInstantId} {forms : List FormId} (sound : s.Sound)
    (known : List.Forall₂ (s.InstantAt sequence) keys instants)
    (run : instants.mapM (evaluateAt f) s = .ok forms s') :
    List.Forall₂ (s'.EvaluatedAt sequence f) keys forms := by
  induction instants generalizing s keys forms with
  | nil =>
    cases known
    obtain ⟨rfl, -⟩ := pure_eq_ok.1 run
    exact .nil
  | cons i instants ih =>
    cases known with
    | cons instantAt known =>
      simp only [List.mapM_cons, bind_eq_ok, pure_eq_ok] at run
      obtain ⟨e, mid, first, forms, last, rest, rfl, rfl⟩ := run
      have steps := (evaluateAt_grows f i).steps first
      have later := (Grows.mapM (fun i _ => evaluateAt_grows f i) instants mid).extends rest
      exact .cons (later.evaluatedAt (evaluateAt_spec sound instantAt first).2)
        (ih (sound.steps steps) (known.imp fun _ _ => steps.extends.instantAt) rest)

/-! ## Sums, differences and quotients -/

namespace Form

variable {f g h : FormId}

theorem reads_of_add (run : add f g s = .ok h s') : s'.Reads h (.binary .sum f g) := by
  simp only [add, get_bind, bind_eq_ok, lift_eq_ok] at run
  obtain ⟨_, _, ⟨-, rfl⟩, _, _, ⟨-, rfl⟩, _, _, ⟨-, rfl⟩, run⟩ := run
  exact Session.reads_of_derived run

theorem reads_of_sub (run : sub f g s = .ok h s') : s'.Reads h (.binary .difference f g) := by
  simp only [sub, get_bind, bind_eq_ok, lift_eq_ok] at run
  obtain ⟨_, _, ⟨-, rfl⟩, _, _, ⟨-, rfl⟩, _, _, ⟨-, rfl⟩, run⟩ := run
  exact Session.reads_of_derived run

theorem reads_of_wedge (run : wedge f g s = .ok h s') : s'.Reads h (.binary .wedge f g) := by
  simp only [wedge, bind_eq_ok, get_eq_ok, lift_eq_ok] at run
  obtain ⟨_, _, ⟨rfl, rfl⟩, _, _, ⟨-, rfl⟩, _, _, ⟨rfl, rfl⟩, _, _, ⟨-, rfl⟩, _, mid, -, _, _,
    ⟨rfl, rfl⟩, run⟩ := run
  exact Session.reads_of_derived run

theorem reads_of_combine {op : BinaryOperator} (run : combine op f g s = .ok h s') :
    s'.Reads h (.binary op f g) := by
  cases op with
  | sum => exact reads_of_add run
  | difference => exact reads_of_sub run
  | wedge => exact reads_of_wedge run

/-- The scalar of a divisor is that of a number other than zero, the scalar that is given, or the
duration of the interval. -/
theorem divisorScalar_cases {amount : Divisor} {c : ScalarId}
    (run : divisorScalar f amount s = .ok c s') :
    (∃ x, amount = .number x ∧ ¬ (x == 0.0) = true ∧ Scalar.ofNumber x s = .ok c s') ∨
      (amount = .scalar c ∧ s' = s) ∨
      ∃ i t, amount = .interval i ∧ s.timeIntervals.get? i = some t ∧ c = t.duration ∧
        s' = s := by
  cases amount with
  | number x =>
    rw [divisorScalar] at run
    split at run
    · simp [bind_eq_ok, get_eq_ok, lift_eq_ok] at run
    · rename_i nonzero
      exact .inl ⟨x, rfl, nonzero, run⟩
  | scalar id =>
    obtain ⟨rfl, rfl⟩ := pure_eq_ok.1 run
    exact .inr (.inl ⟨rfl, rfl⟩)
  | interval i =>
    simp only [divisorScalar, get_bind, bind_eq_ok, lift_eq_ok, pure_eq_ok] at run
    obtain ⟨t, _, ⟨found, rfl⟩, rfl, rfl⟩ := run
    exact .inr (.inr ⟨i, t, rfl, Arena.fetch_eq_ok_iff.1 found, rfl, rfl⟩)

/-- A quotient is that by the scalar of the divisor. -/
theorem divide_cases {amount : Divisor} (run : divide f amount s = .ok h s') :
    ∃ c mid, divisorScalar f amount s = .ok c mid ∧ mid.Steps s' ∧ s'.Reads h (.quotient f c) := by
  simp only [divide, bind_eq_ok, get_eq_ok, lift_eq_ok] at run
  obtain ⟨c, mid, divisor, _, _, ⟨rfl, rfl⟩, a, _, ⟨found, rfl⟩, x, _, ⟨foundScalar, rfl⟩, run⟩ :=
    run
  have typed : mid.Typed a.space (.quotient f c) :=
    ⟨a, x, Arena.fetch_eq_ok_iff.1 found, rfl, Arena.fetch_eq_ok_iff.1 foundScalar⟩
  exact ⟨c, mid, divisor, (derived_grows rfl fun _ _ => typed).steps run,
    Session.reads_of_derived run⟩

theorem reads_of_divide_scalar {c : ScalarId} (run : divide f (.scalar c) s = .ok h s') :
    s'.Reads h (.quotient f c) := by
  obtain ⟨d, mid, divisor, -, reads⟩ := divide_cases run
  obtain ⟨rfl, -⟩ := pure_eq_ok.1 divisor
  exact reads

theorem reads_of_divide_interval {interval : TimeIntervalId} {x : TimeInterval}
    (found : s.timeIntervals.get? interval = some x)
    (run : divide f (.interval interval) s = .ok h s') : s'.Reads h (.quotient f x.duration) := by
  obtain ⟨d, mid, divisor, -, reads⟩ := divide_cases run
  obtain ⟨_, ⟨⟩, -⟩ | ⟨⟨⟩, -⟩ | ⟨_, y, ⟨⟩, found', rfl, -⟩ := divisorScalar_cases divisor
  cases found.symm.trans found'
  exact reads

/-- A form is the quotient of another one by a number. -/
def QuotientBy (s : Session) (f : FormId) (x : Float) (h : FormId) : Prop :=
  ∃ c k, (ScalarOperand.number x).scalar? s = some c ∧ s.scalars.get? c = some k ∧
    (ScalarOperand.number x).Agrees k ∧ s.Reads h (.quotient f c)

theorem divide_number_spec {x : Float} (run : divide f (.number x) s = .ok h s') :
    QuotientBy s' f x h := by
  obtain ⟨c, mid, divisor, steps, reads⟩ := divide_cases run
  have number : Scalar.ofOperand (.number x) s = .ok c mid := by
    obtain ⟨_, ⟨⟩, -, number⟩ | ⟨⟨⟩, -⟩ | ⟨_, _, ⟨⟩, -⟩ := divisorScalar_cases divisor
    exact number
  obtain ⟨stands, agrees⟩ := Scalar.ofOperand_spec number
  obtain ⟨k, found⟩ : ∃ k, mid.scalars.get? c = some k := by
    rw [Scalar.ofOperand, Scalar.ofNumber, guard_eq_ok] at number
    obtain ⟨-, -, -, k, found, -⟩ := Scalar.register_spec number.2
    exact ⟨k, found⟩
  exact ⟨c, k, steps.scalar?_eq_some stands, steps.extends.scalars found, agrees k found, reads⟩

theorem QuotientBy.mono {x : Float} (quotient : QuotientBy s f x h) (steps : s.Steps s') :
    QuotientBy s' f x h := by
  obtain ⟨c, k, stands, found, agrees, reads⟩ := quotient
  exact ⟨c, k, steps.scalar?_eq_some stands, steps.extends.scalars found, agrees,
    steps.extends.reads reads⟩

/-! ## Means -/

/-- A form is the sum of a form and others, added up one after the other. -/
inductive SumOf (s : Session) : FormId → List FormId → FormId → Prop
  | nil {f : FormId} : SumOf s f [] f
  | cons {f g h r : FormId} {others : List FormId} (added : s.Reads h (.binary .sum f g))
      (rest : SumOf s h others r) : SumOf s f (g :: others) r

/-- A form is the mean of forms: the only one of them, or their sum divided by their number. -/
inductive MeanOf (s : Session) : List FormId → FormId → Prop
  | single {f : FormId} : MeanOf s [f] f
  | several {f g r m : FormId} {others : List FormId} (sum : SumOf s f (g :: others) r)
      (quotient : QuotientBy s r (Float.ofNat (others.length + 2)) m) :
      MeanOf s (f :: g :: others) m

variable {fs : List FormId}

theorem SumOf.mono (sum : SumOf s f fs h) (later : s.Extends s') : SumOf s' f fs h := by
  induction sum with
  | nil => exact .nil
  | cons added _ ih => exact .cons (later.reads added) ih

theorem MeanOf.mono (mean : MeanOf s fs h) (steps : s.Steps s') : MeanOf s' fs h := by
  cases mean with
  | single => exact .single
  | several sum quotient => exact .several (sum.mono steps.extends) (quotient.mono steps)

theorem SumOf.unique (distinct : s.Distinct) (sum : SumOf s f fs g) (sum' : SumOf s f fs h) :
    g = h := by
  induction sum with
  | nil =>
    cases sum'
    rfl
  | cons added _ ih =>
    cases sum' with
    | cons added' rest' =>
      cases distinct.reads_unique added added' (by simp)
      exact ih rest'

theorem QuotientBy.unique (distinct : s.Distinct) {x : Float} (quotient : QuotientBy s f x g)
    (quotient' : QuotientBy s f x h) : g = h := by
  obtain ⟨c, -, stands, -, -, reads⟩ := quotient
  obtain ⟨c', -, stands', -, -, reads'⟩ := quotient'
  cases stands.symm.trans stands'
  exact distinct.reads_unique reads reads' (by simp)

theorem MeanOf.unique (distinct : s.Distinct) (mean : MeanOf s fs g) (mean' : MeanOf s fs h) :
    g = h := by
  cases mean with
  | single =>
    cases mean'
    rfl
  | several sum quotient =>
    cases mean' with
    | several sum' quotient' =>
      cases sum.unique distinct sum'
      exact quotient.unique distinct quotient'

theorem foldlM_add_spec {others : List FormId} (run : others.foldlM add f s = .ok h s') :
    SumOf s' f others h := by
  induction others generalizing f s with
  | nil =>
    obtain ⟨rfl, -⟩ := pure_eq_ok.1 run
    exact .nil
  | cons g others ih =>
    rw [List.foldlM_cons, bind_eq_ok] at run
    obtain ⟨sum, mid, added, run⟩ := run
    have later := (Grows.foldlM (fun _ _ _ => add_grows _ _) _ _ _).extends run
    exact .cons (later.reads (reads_of_add added)) (ih run)

end Form

theorem Plan.mean_spec {first m : FormId} {others : List FormId}
    (run : mean first others s = .ok m s') : Form.MeanOf s' (first :: others) m := by
  rw [mean, bind_eq_ok] at run
  obtain ⟨sum, mid, added, run⟩ := run
  cases others with
  | nil =>
    obtain ⟨rfl, -⟩ := pure_eq_ok.1 added
    obtain ⟨rfl, -⟩ := pure_eq_ok.1 run
    exact .single
  | cons g others =>
    have later := (Form.divide_grows _ _).extends run
    exact .several ((Form.foldlM_add_spec added).mono later) (Form.divide_number_spec run)

end Variational
