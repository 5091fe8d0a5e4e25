import Variational.Scalar.Arithmetic
import Variational.Space.Operations

/-!
# The algebra of forms

Root forms are created under labels that no other root form uses. A derived form
is recorded once for its expression, so building an expression again gives the
same form. Composed labels group operands that are not root forms.
-/

namespace Variational

namespace Form

/-! ## Recording forms -/

/-- Records a form of which the session holds all operands. -/
def record (f : Form) : Derive FormId := do
  let s ← get
  let _ ← s.space f.space
  if holds : s.forms.Holds f.expr then
    let id := s.forms.nextId
    set { s with forms := s.forms.add f holds }
    return id
  else
    foreign .form

/-- Records a root form under labels that no root form uses. -/
def register (space : SpaceId) (labels : Labels) (expr : FormExpr) : Derive FormId := do
  let s ← get
  s.formLabels.checkAvailable labels
  let id ← record {
    space, expr
    sym := labels.sym
    lin := s.settings.conventions.wrappers.form.wrap labels.lin
    pureLin := some labels.lin }
  modify fun s => { s with formLabels := s.formLabels.insert labels id }
  return id

/-- A new root form of a space. -/
def root (space : SpaceId) (labels : Labels) : Derive FormId := do
  labels.validate .form
  register space labels .root

/-- The derived form of an expression, recorded on first request. -/
def derived (space : SpaceId) (labels : Labels) (expr : FormExpr) : Derive FormId := do
  match (← get).forms.find? (·.expr = expr) with
  | some existing => return existing
  | none => record { space, sym := labels.sym, lin := labels.lin, pureLin := none, expr }

/-! ## Labels of operands -/

/-- The linguistic label of an operand, grouped unless it is a root form. -/
def operandLin (s : Session) (f : Form) : String :=
  if f.isRoot then f.lin else s.settings.conventions.linGlyphs.nonRoot.wrap f.lin

/-- The symbolic label of an operand, grouped unless it is a root form. -/
def operandSym (s : Session) (f : Form) : String :=
  if f.isRoot then f.sym else s.settings.conventions.symGlyphs.nonRoot.wrap f.sym

/-- Whether a form is a sum or a difference, which is grouped after a minus. -/
def isSumLike (f : Form) : Bool :=
  match f.expr with
  | .binary .sum _ _ | .binary .difference _ _ => true
  | _ => false

/-! ## Sums and differences -/

/-- The common space of two forms. -/
def commonSpace (s : Session) (f g : FormId) (action : String) : Outcome SpaceId := do
  let a ← s.form f
  let b ← s.form g
  if a.space = b.space then
    return a.space
  else
    reject (.structural (.differentSpaces action a.lin b.lin
      (← s.space a.space).labels.lin (← s.space b.space).labels.lin))

def add (f g : FormId) : Derive FormId := do
  let s ← get
  let space ← commonSpace s f g "add"
  let a ← s.form f
  let b ← s.form g
  derived space {
    sym := a.sym ++ s.settings.conventions.symGlyphs.plus ++ b.sym
    lin := a.lin ++ s.settings.conventions.linGlyphs.plus ++ b.lin } (.binary .sum f g)

def sub (f g : FormId) : Derive FormId := do
  let s ← get
  let space ← commonSpace s f g "subtract"
  let a ← s.form f
  let b ← s.form g
  let syms := s.settings.conventions.symGlyphs
  let lins := s.settings.conventions.linGlyphs
  derived space {
    sym := a.sym ++ syms.minus ++ (if b.isSumLike then syms.nonRoot.wrap b.sym else b.sym)
    lin := a.lin ++ lins.minus ++ (if b.isSumLike then lins.nonRoot.wrap b.lin else b.lin) }
    (.binary .difference f g)

/-! ## Multiples -/

/-- The scalar that a form is divided by. The number zero is rejected. -/
def divisorScalar (f : FormId) : Divisor → Derive ScalarId
  | .number x => do
    if x == 0.0 then
      reject (.unsupported (.divisionByZero (← (← get).form f).lin))
    Scalar.ofNumber x
  | .scalar id => pure id
  | .interval id => do return (← (← get).timeInterval id).duration

/-- A form divided by a number, a scalar or the duration of an interval. -/
def divide (f : FormId) (amount : Divisor) : Derive FormId := do
  let divisor ← divisorScalar f amount
  let s ← get
  let a ← s.form f
  let c ← s.scalar divisor
  derived a.space {
    sym := s.settings.conventions.symGlyphs.division.join a.sym c.sym
    lin := operandLin s a ++ s.settings.conventions.linGlyphs.division ++ c.lin }
    (.quotient f divisor)

/-- A form multiplied by a scalar. Multiplying by the real scalar one gives the form. -/
def scale (factor : ScalarOperand) (f : FormId) : Derive FormId := do
  let scalar ← Scalar.ofOperand factor
  let s ← get
  let c ← s.scalar scalar
  if c.value == some 1.0 then
    return f
  let a ← s.form f
  derived a.space {
    sym := c.sym ++ operandSym s a
    lin := c.lin ++ s.settings.conventions.linGlyphs.multiply ++ operandLin s a }
    (.scaled scalar f)

/-! ## Differential operators -/

/-- The glyphs of a unary operator. -/
def unaryGlyphs (s : Session) : UnaryOperator → Labels
  | .derivative =>
    ⟨s.settings.conventions.symGlyphs.derivative, s.settings.conventions.linGlyphs.derivative⟩
  | .codifferential =>
    ⟨s.settings.conventions.symGlyphs.codifferential,
      s.settings.conventions.linGlyphs.codifferential⟩
  | .hodge => ⟨s.settings.conventions.symGlyphs.hodge, s.settings.conventions.linGlyphs.hodge⟩
  | .trace => ⟨s.settings.conventions.symGlyphs.trace, s.settings.conventions.linGlyphs.trace⟩
  | .timeDerivative =>
    ⟨s.settings.conventions.symGlyphs.timeDerivative,
      s.settings.conventions.linGlyphs.timeDerivative⟩

/-- The space that a unary operator maps a space into. -/
def unarySpace : UnaryOperator → SpaceId → Derive SpaceId
  | .derivative, space => Space.derivative space
  | .codifferential, space => Space.codifferential space
  | .hodge, space => Space.hodge space
  | .trace, space => Space.trace space
  | .timeDerivative, space => pure space

/-- A unary operator applied to a form. -/
def apply (op : UnaryOperator) (f : FormId) : Derive FormId := do
  let a ← (← get).form f
  let space ← unarySpace op a.space
  let s ← get
  let glyphs := unaryGlyphs s op
  derived space ⟨glyphs.sym ++ operandSym s a, glyphs.lin ++ operandLin s a⟩ (.unary op f)

/-- The wedge product of two forms. -/
def wedge (f g : FormId) : Derive FormId := do
  let a ← (← get).form f
  let b ← (← get).form g
  let space ← Space.wedge a.space b.space
  let s ← get
  derived space {
    sym := operandSym s a ++ s.settings.conventions.symGlyphs.wedge ++ operandSym s b
    lin := operandLin s a ++ s.settings.conventions.linGlyphs.wedge ++ operandLin s b }
    (.binary .wedge f g)

/-- An operation on two forms. -/
def combine : BinaryOperator → FormId → FormId → Derive FormId
  | .sum => add
  | .difference => sub
  | .wedge => wedge

/-! ## Evaluation in time -/

/-- The form that was created for a root form at an instant. -/
def knownEvaluation (s : Session) (f : FormId) (instant : TimeInstantId) : Option FormId :=
  s.forms.find? (·.isEvaluation f instant)

/-- A root form at an abstract instant: a root form that is bound to the form, the
instant and its sequence. An evaluated form cannot be evaluated again. -/
def evaluateAt (f : FormId) (instant : TimeInstantId) : Derive FormId := do
  let s ← get
  match knownEvaluation s f instant with
  | some evaluated => return evaluated
  | none =>
    let a ← s.form f
    match a.expr with
    | .root =>
      let i ← s.timeInstant instant
      register a.space {
        sym := s.settings.conventions.symGlyphs.evaluateAt.join a.sym i.key
        lin := a.pureLin.getD "" ++ s.settings.conventions.linGlyphs.evaluateAt ++ i.labels.lin }
        (.atInstant ⟨f, i.sequence, instant⟩)
    | .atInstant _ => reject (.unsupported (.evaluatedTwice a.lin))
    | _ => reject (.unsupported (.evaluatedDerived a.lin))

end Form

end Variational
