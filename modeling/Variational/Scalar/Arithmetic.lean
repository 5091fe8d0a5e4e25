import Variational.Decimal.Reading
import Variational.Decimal.Writing
import Variational.Session

/-!
# Scalar arithmetic

Real scalars are identified with numbers, and arithmetic on two of them gives a
real scalar. Any other sum or quotient is a derived scalar, known by its
linguistic label, which is composed from those of the operands.
-/

namespace Variational

namespace Scalar

/-- The linguistic label of a number. Zero is written without a sign. -/
def numberLin (x : Float) : String :=
  if x == 0.0 then "0" else Decimal.write x

/-- The symbol of one half. -/
def halfSym : String := "\\dfrac\x7b1\x7d\x7b2\x7d"

/-- The labels of a number. -/
def numberLabels (x : Float) : Labels where
  sym := if x == 0.5 then halfSym else numberLin x
  lin := numberLin x

/-- Whether a label could be that of a number. -/
def isNumberLabel (label : String) : Bool :=
  ((Decimal.read label.toList).any Float.isFinite) || label == halfSym

/-- The root scalar with the given labels and value, recorded on first request. -/
def register (labels : Labels) (value : Option Float) : Derive ScalarId := do
  let s ← get
  let create : Derive ScalarId := do
    s.scalarLabels.checkAvailable labels
    let id := s.scalars.nextId
    set { s with
      scalars := s.scalars.push {
        sym := labels.sym
        lin := s.settings.conventions.wrappers.scalar.wrap labels.lin
        pureLin := some labels.lin
        value }
      scalarLabels := s.scalarLabels.insert labels id }
    return id
  match s.scalarLabels.bySym? labels.sym, s.scalarLabels.byLin? labels.lin with
  | some a, some b =>
    if a = b then
      let present ← s.scalar a
      if present.value == value then
        return a
    create
  | _, _ => create

/-- The real scalar that stands for a finite number. -/
def ofNumber (x : Float) : Derive ScalarId := do
  if !x.isFinite then
    reject (.unsupported (.nonFinite (Decimal.write x)))
  register (numberLabels x) (some x)

/-- The real scalar one. -/
def unit : Derive ScalarId :=
  ofNumber 1.0

/-- The abstract root scalar with a pair of labels. Labels that read as numbers are
reserved for real scalars. -/
def abstract (labels : Labels) : Derive ScalarId := do
  labels.validate .scalar
  match [labels.sym, labels.lin].find? isNumberLabel with
  | some label => reject (.malformed (.reservedNumber label))
  | none => register labels none

/-- The derived scalar with a linguistic label, recorded on first request. -/
def derived (labels : Labels) : Derive ScalarId := do
  let s ← get
  match s.scalars.find? fun c => c.pureLin.isNone && c.lin == labels.lin with
  | some existing => return existing
  | none =>
    let id := s.scalars.nextId
    set { s with
      scalars := s.scalars.push {
        sym := labels.sym, lin := labels.lin, pureLin := none, value := none } }
    return id

/-- The scalar of an operand. -/
def ofOperand : ScalarOperand → Derive ScalarId
  | .number x => ofNumber x
  | .scalar id => pure id

/-- The sum of two scalars. -/
def add (lhs rhs : ScalarOperand) : Derive ScalarId := do
  let left ← ofOperand lhs
  let right ← ofOperand rhs
  let s ← get
  let a ← s.scalar left
  let b ← s.scalar right
  match a.value, b.value with
  | some x, some y => ofNumber (x + y)
  | _, _ =>
    derived {
      sym := a.sym ++ s.settings.conventions.symGlyphs.plus ++ b.sym
      lin := a.lin ++ s.settings.conventions.linGlyphs.plus ++ b.lin }

/-- The quotient of two scalars. -/
def div (lhs rhs : ScalarOperand) : Derive ScalarId := do
  let left ← ofOperand lhs
  let right ← ofOperand rhs
  let s ← get
  let a ← s.scalar left
  let b ← s.scalar right
  match a.value, b.value with
  | some x, some y =>
    if y == 0.0 then
      reject (.unsupported (.divisionByZero a.lin))
    ofNumber (x / y)
  | _, _ =>
    derived {
      sym := s.settings.conventions.symGlyphs.division.join a.sym b.sym
      lin := a.lin ++ s.settings.conventions.linGlyphs.division ++ b.lin }

end Scalar

end Variational
