import Variational.Arena
import Variational.IdSet
import Variational.Labels

/-!
# Forms as data

A form is a leaf — a root form, or a root form evaluated at an instant — or is
derived from earlier forms by an operation. The forms of a session make up a
table in which every form is built from forms that stand before it, so that
recursion over the operands of a form ends.
-/

namespace Variational

/-! ## Expressions -/

/-- The operators on one form. -/
inductive UnaryOperator
  | derivative
  | codifferential
  | hodge
  | trace
  | timeDerivative
deriving DecidableEq, Repr

/-- The operations on two forms. -/
inductive BinaryOperator
  | sum
  | difference
  | wedge
deriving DecidableEq, Repr

/-- The form and the instant that an evaluated form comes from. -/
structure TimeBinding where
  base : FormId
  sequence : TimeSequenceId
  instant : TimeInstantId
deriving DecidableEq, Repr

/-- How a form is built. -/
inductive FormExpr
  | root
  | atInstant (binding : TimeBinding)
  | unary (op : UnaryOperator) (operand : FormId)
  | binary (op : BinaryOperator) (left right : FormId)
  | quotient (dividend : FormId) (divisor : ScalarId)
  | scaled (factor : ScalarId) (operand : FormId)
deriving DecidableEq, Repr

namespace FormExpr

/-- The forms that an expression is directly built from. -/
def operands : FormExpr → List FormId
  | .root | .atInstant _ => []
  | .unary _ f | .quotient f _ | .scaled _ f => [f]
  | .binary _ f g => [f, g]

/-- Whether an expression is that of a root form. -/
def isLeaf : FormExpr → Bool
  | .root | .atInstant _ => true
  | _ => false

theorem operands_eq_nil_iff {e : FormExpr} : e.operands = [] ↔ e.isLeaf = true := by
  cases e <;> simp [operands, isLeaf]

end FormExpr

/-! ## Forms -/

/-- A differential form of a space. -/
structure Form where
  space : SpaceId
  sym : String
  lin : String
  /-- The linguistic label of a root form without its wrapper. -/
  pureLin : Option String
  expr : FormExpr
deriving DecidableEq, Repr

namespace Form

/-- Root forms include evaluated forms. -/
def isRoot (f : Form) : Bool :=
  f.expr.isLeaf

/-- Whether a form is a given root form at a given instant. -/
def isEvaluation (f : Form) (base : FormId) (instant : TimeInstantId) : Bool :=
  match f.expr with
  | .atInstant binding => binding.base = base ∧ binding.instant = instant
  | _ => false

end Form

/-! ## The table of forms -/

/-- The forms of a session. Operands stand before the forms that are built from them. -/
structure FormTable extends Arena .form Form where
  operands_before : ∀ (i : Nat) (held : i < entities.length),
    ∀ g ∈ entities[i].expr.operands, g.index < i

namespace FormTable

/-- The table without forms. -/
def empty : FormTable :=
  ⟨⟨[]⟩, fun _ held => absurd held (Nat.not_lt_zero _)⟩

instance : Inhabited FormTable := ⟨empty⟩

/-- Whether the table holds every operand of an expression. -/
def Holds (table : FormTable) (e : FormExpr) : Prop :=
  ∀ g ∈ e.operands, g.index < table.size

instance (table : FormTable) (e : FormExpr) : Decidable (table.Holds e) :=
  inferInstanceAs (Decidable (∀ g ∈ e.operands, g.index < table.size))

/-- Adds a form of which the table holds the operands. -/
def add (table : FormTable) (f : Form) (holds : table.Holds f.expr) : FormTable where
  toArena := table.toArena.push f
  operands_before := by
    intro i held g member
    have bound : i < table.entities.length + 1 := by simpa [Arena.push] using held
    rcases Nat.lt_or_eq_of_le (Nat.le_of_lt_succ bound) with older | newest
    · refine table.operands_before i older g ?_
      simpa [Arena.push, List.getElem_append_left older] using member
    · subst newest
      have own : g ∈ f.expr.operands := by simpa [Arena.push] using member
      exact holds g own

theorem operands_lt {table : FormTable} {id : FormId} {f : Form}
    (found : table.get? id = some f) {g : FormId} (member : g ∈ f.expr.operands) :
    g.index < id.index := by
  obtain ⟨held, same⟩ := List.getElem?_eq_some_iff.1 found
  exact table.operands_before id.index held g (same ▸ member)

/-! ## Recursion over operands -/

/-- Whether the form `target` is the form at a position or occurs among its operands, at
any depth. -/
def occursAt (table : FormTable) (target : FormId) (i : Nat)
    (held : i < table.entities.length) : Bool :=
  decide (i = target.index) ||
    table.entities[i].expr.operands.attach.any fun ⟨g, member⟩ =>
      table.occursAt target g.index
        (Nat.lt_trans (table.operands_before i held g member) held)
termination_by i
decreasing_by exact table.operands_before i held g member

/-- The leaves that the form at a position is built from. -/
def leavesAt (table : FormTable) (i : Nat) (held : i < table.entities.length) :
    IdSet .form :=
  if table.entities[i].isRoot then
    IdSet.empty.insert ⟨i⟩
  else
    IdSet.unions <| table.entities[i].expr.operands.attach.map fun ⟨g, member⟩ =>
      table.leavesAt g.index (Nat.lt_trans (table.operands_before i held g member) held)
termination_by i
decreasing_by exact table.operands_before i held g member

/-- The root form that is found behind derivatives and traces. -/
def testedAt (table : FormTable) (i : Nat) (held : i < table.entities.length) :
    Option FormId :=
  match shape : table.entities[i].expr with
  | .root => some ⟨i⟩
  | .unary .derivative g | .unary .trace g =>
    have before : g.index < i :=
      table.operands_before i held g (by rw [shape]; exact List.mem_singleton_self g)
    table.testedAt g.index (Nat.lt_trans before held)
  | _ => none
termination_by i

end FormTable

end Variational
