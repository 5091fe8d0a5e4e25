import Variational.Proofs.Session.Execution
import Variational.Proofs.StepKey.Reading

/-!
# Evaluating step keys

A step key has a value exactly if it is derivable from the grammar, all of its names are bound and
none of its divisors is zero. The arithmetic of doubles is taken as it is.
-/

namespace Variational.StepKey

variable {key : String} {bindings : List (String × Float)} {values : String → Float}
  {name : String} {x y : Float} {e : Expression}

/-- The first of the bindings of a name. -/
def Binds (bindings : List (String × Float)) (name : String) (x : Float) : Prop :=
  ∃ before after, bindings = before ++ (name, x) :: after ∧ ∀ b ∈ before, b.1 ≠ name

/-- The result of an operation. -/
def Operation.value : Operation → Float → Float → Float
  | .add => (· + ·)
  | .sub => (· - ·)
  | .mul => (· * ·)
  | .div => (· / ·)

namespace Expression

/-- The value of an expression whose names have the given values. -/
def value (values : String → Float) : Expression → Float
  | .number x => x
  | .name text => values text
  | .neg operand => -operand.value values
  | .apply op left right => op.value (left.value values) (right.value values)

/-- The names in an expression. -/
def names : Expression → List String
  | .number _ => []
  | .name text => [text]
  | .neg operand => operand.names
  | .apply _ left right => left.names ++ right.names

/-- The expressions that are divided by. -/
def divisors : Expression → List Expression
  | .number _ | .name _ => []
  | .neg operand => operand.divisors
  | .apply .div left right => left.divisors ++ right.divisors ++ [right]
  | .apply _ left right => left.divisors ++ right.divisors

theorem mem_divisors_apply {op : Operation} {left right d : Expression} :
    d ∈ (apply op left right).divisors ↔
      d ∈ left.divisors ∨ d ∈ right.divisors ∨ d = right ∧ op = .div := by
  cases op <;> simp [divisors]

end Expression

/-! ## Names -/

theorem lookup_eq_some_iff : lookup bindings name = some x ↔ Binds bindings name x := by
  simp only [lookup, Option.map_eq_some_iff, List.find?_eq_some_iff_append, decide_eq_true_eq]
  constructor
  · rintro ⟨⟨_, _⟩, ⟨rfl, before, after, whole, others⟩, rfl⟩
    exact ⟨before, after, whole, fun b member => by simpa using others b member⟩
  · rintro ⟨before, after, whole, others⟩
    exact ⟨(name, x), ⟨rfl, before, after, whole, fun b member => by simpa using others b member⟩,
      rfl⟩

theorem lookup_eq_none_iff : lookup bindings name = none ↔ ∀ x, ¬ Binds bindings name x := by
  simp only [Option.eq_none_iff_forall_ne_some, ne_eq, lookup_eq_some_iff]

/-! ## Trees -/

theorem Operation.eval_eq_ok_iff {op : Operation} {z : Float} :
    op.eval key x y = .ok z ↔ (op = .div → (y == 0.0) = false) ∧ z = op.value x y := by
  cases op with
  | div =>
    rw [eval]
    split
    case isTrue zero => simp [zero]
    case isFalse other =>
      rw [Except.ok.injEq, eq_comm]
      simp [other, value]
  | add | sub | mul =>
    rw [eval, Except.ok.injEq, eq_comm]
    simp [value]

theorem Operation.eval_cases (op : Operation) (x y : Float) :
    (∃ z, op.eval key x y = .ok z) ∨
      ∃ fault, op.eval key x y = reject (.malformed (.stepValue key fault)) := by
  cases op with
  | div =>
    rw [eval]
    split
    · exact .inr ⟨.divisionByZero, rfl⟩
    · exact .inl ⟨x / y, rfl⟩
  | add | sub | mul => exact .inl ⟨_, rfl⟩

/-- Only whole trees have values. -/
theorem exists_toTree_of_eval {tree : Tree} (run : tree.eval key bindings = .ok x) :
    ∃ e : Expression, tree = e.toTree := by
  induction tree generalizing x with
  | number y => exact ⟨.number y, rfl⟩
  | name text => exact ⟨.name text, rfl⟩
  | neg operand ih =>
    rw [Tree.eval, Outcome.bind_eq_ok] at run
    obtain ⟨_, run, -⟩ := run
    obtain ⟨e, rfl⟩ := ih run
    exact ⟨.neg e, rfl⟩
  | apply op left right ihLeft ihRight =>
    simp only [Tree.eval, Outcome.bind_eq_ok] at run
    obtain ⟨_, runLeft, _, runRight, -⟩ := run
    obtain ⟨e, rfl⟩ := ihLeft runLeft
    obtain ⟨e', rfl⟩ := ihRight runRight
    exact ⟨.apply op e e', rfl⟩
  | broken fault => cases run
  | stopped before fault ih =>
    rw [Tree.eval, Outcome.bind_eq_ok] at run
    obtain ⟨_, -, ⟨⟩⟩ := run

/-- An expression with a value has only bound names. -/
theorem Expression.bound_of_eval (run : e.toTree.eval key bindings = .ok x) :
    ∀ name ∈ e.names, ∃ y, lookup bindings name = some y := by
  induction e generalizing x with
  | number => simp [names]
  | name text =>
    simp only [names, List.mem_singleton, forall_eq]
    rw [toTree, Tree.eval] at run
    cases found : lookup bindings text with
    | none => simp [found, reject] at run
    | some y => exact ⟨y, rfl⟩
  | neg operand ih =>
    rw [toTree, Tree.eval, Outcome.bind_eq_ok] at run
    obtain ⟨_, run, -⟩ := run
    exact ih run
  | apply op left right ihLeft ihRight =>
    simp only [toTree, Tree.eval, Outcome.bind_eq_ok] at run
    obtain ⟨_, runLeft, _, runRight, -⟩ := run
    exact fun name member =>
      (List.mem_append.1 member).elim (ihLeft runLeft name) (ihRight runRight name)

/-- If its names are bound, an expression is evaluated to its value, unless it divides by zero. -/
theorem Expression.eval_eq_ok_iff
    (bound : ∀ name ∈ e.names, lookup bindings name = some (values name)) :
    e.toTree.eval key bindings = .ok x ↔
      (∀ d ∈ e.divisors, (d.value values == 0.0) = false) ∧ x = e.value values := by
  induction e generalizing x with
  | number y =>
    rw [toTree, Tree.eval, Except.ok.injEq, eq_comm]
    simp [divisors, value]
  | name text =>
    simp only [toTree, Tree.eval, bound text List.mem_cons_self]
    rw [Except.ok.injEq, eq_comm]
    simp [divisors, value]
  | neg operand ih =>
    simp only [toTree, Tree.eval, Outcome.bind_eq_ok, ih bound, Outcome.pure_eq_ok]
    constructor
    · rintro ⟨_, ⟨nonzero, rfl⟩, rfl⟩
      exact ⟨nonzero, rfl⟩
    · rintro ⟨nonzero, rfl⟩
      exact ⟨_, ⟨nonzero, rfl⟩, rfl⟩
  | apply op left right ihLeft ihRight =>
    have boundLeft name (member : name ∈ left.names) := bound name (List.mem_append_left _ member)
    have boundRight name (member : name ∈ right.names) :=
      bound name (List.mem_append_right _ member)
    simp only [toTree, Tree.eval, Outcome.bind_eq_ok, ihLeft boundLeft, ihRight boundRight,
      Operation.eval_eq_ok_iff, mem_divisors_apply]
    constructor
    · rintro ⟨_, ⟨nonzeroLeft, rfl⟩, _, ⟨nonzeroRight, rfl⟩, nonzero, rfl⟩
      refine ⟨?_, rfl⟩
      rintro d (member | member | ⟨rfl, divides⟩)
      · exact nonzeroLeft d member
      · exact nonzeroRight d member
      · exact nonzero divides
    · rintro ⟨nonzero, rfl⟩
      exact ⟨_, ⟨fun d member => nonzero d (.inl member), rfl⟩,
        _, ⟨fun d member => nonzero d (.inr (.inl member)), rfl⟩,
        fun divides => nonzero right (.inr (.inr ⟨rfl, divides⟩)), rfl⟩

/-- A key without a value is rejected, as malformed or for a name without a binding. -/
theorem Tree.eval_cases (tree : Tree) :
    (∃ x, tree.eval key bindings = .ok x) ∨
      (∃ fault, tree.eval key bindings = reject (.malformed (.stepValue key fault))) ∨
      ∃ name, lookup bindings name = none ∧
        tree.eval key bindings = reject (.instant (.unboundVariable name key)) := by
  induction tree with
  | number x => exact .inl ⟨x, rfl⟩
  | name text =>
    cases found : lookup bindings text with
    | some x => exact .inl ⟨x, by rw [eval, found]⟩
    | none => exact .inr (.inr ⟨text, found, by rw [eval, found]⟩)
  | neg operand ih =>
    rcases ih with ⟨x, run⟩ | ⟨fault, run⟩ | ⟨name, free, run⟩ <;> rw [eval, run]
    · exact .inl ⟨-x, rfl⟩
    · exact .inr (.inl ⟨fault, rfl⟩)
    · exact .inr (.inr ⟨name, free, rfl⟩)
  | apply op left right ihLeft ihRight =>
    rcases ihLeft with ⟨x, run⟩ | ⟨fault, run⟩ | ⟨name, free, run⟩ <;> rw [eval, run]
    · rcases ihRight with ⟨y, run⟩ | ⟨fault, run⟩ | ⟨name, free, run⟩ <;> rw [run]
      · exact (op.eval_cases x y).imp id .inl
      · exact .inr (.inl ⟨fault, rfl⟩)
      · exact .inr (.inr ⟨name, free, rfl⟩)
    · exact .inr (.inl ⟨fault, rfl⟩)
    · exact .inr (.inr ⟨name, free, rfl⟩)
  | broken fault => exact .inr (.inl ⟨fault, rfl⟩)
  | stopped before fault ih =>
    rcases ih with ⟨x, run⟩ | ⟨fault', run⟩ | ⟨name, free, run⟩ <;> rw [eval, run]
    · exact .inr (.inl ⟨fault, rfl⟩)
    · exact .inr (.inl ⟨fault', rfl⟩)
    · exact .inr (.inr ⟨name, free, rfl⟩)

/-! ## Keys -/

/-- A key has a value exactly if it is derivable from the grammar, as an expression of which all
names are bound and no divisor is zero; it is the value of this expression, in which every name
denotes its first binding. A key is derivable as one expression at most. A key without a value is
rejected, as malformed or for a name without a binding. -/
theorem evaluate_exact (key : String) (bindings : List (String × Float)) :
    (∀ x, evaluate key bindings = .ok x ↔
      ∃ (e : Expression) (values : String → Float), Derivable key.toList e ∧
        (∀ name ∈ e.names, Binds bindings name (values name)) ∧
        (∀ d ∈ e.divisors, (d.value values == 0.0) = false) ∧ x = e.value values) ∧
    (∀ e e', Derivable key.toList e → Derivable key.toList e' → e = e') ∧
    ((∃ x, evaluate key bindings = .ok x) ∨
      (∃ fault, evaluate key bindings = reject (.malformed (.stepValue key fault))) ∨
      ∃ name, (∀ x, ¬ Binds bindings name x) ∧
        evaluate key bindings = reject (.instant (.unboundVariable name key))) := by
  refine ⟨fun x => ?_, fun e e' => Derivable.unique, ?_⟩
  · simp only [← lookup_eq_some_iff]
    constructor
    · intro run
      obtain ⟨e, whole⟩ := exists_toTree_of_eval run
      rw [evaluate, whole] at run
      have bound (name : String) (member : name ∈ e.names) :
          lookup bindings name = some ((lookup bindings name).getD 0) := by
        obtain ⟨y, found⟩ := e.bound_of_eval run name member
        rw [found, Option.getD_some]
      exact ⟨e, _, read_iff.1 whole, bound, (e.eval_eq_ok_iff bound).1 run⟩
    · rintro ⟨e, values, derivable, bound, nonzero, rfl⟩
      rw [evaluate, read_iff.2 derivable]
      exact (e.eval_eq_ok_iff bound).2 ⟨nonzero, rfl⟩
  · simp only [← lookup_eq_none_iff]
    exact (read key.toList).eval_cases

end Variational.StepKey
