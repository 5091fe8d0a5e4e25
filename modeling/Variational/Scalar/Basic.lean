import Variational.Kind

/-!
# Scalars as data

A scalar is real, standing for a known number, or abstract. Root scalars have a
pure linguistic label; derived ones have only labels composed from operands.
-/

namespace Variational

/-- A constant scalar. -/
structure Scalar where
  sym : String
  lin : String
  /-- The linguistic label of a root scalar without its wrapper. -/
  pureLin : Option String
  /-- The number that a real scalar stands for. -/
  value : Option Float

namespace Scalar

def isRoot (c : Scalar) : Bool :=
  c.pureLin.isSome

def isReal (c : Scalar) : Bool :=
  c.value.isSome

end Scalar

/-- An operand of scalar arithmetic. -/
inductive ScalarOperand
  | number (x : Float)
  | scalar (id : ScalarId)

/-- What a form can be divided by. An interval stands for its duration. -/
inductive Divisor
  | number (x : Float)
  | scalar (id : ScalarId)
  | interval (id : TimeIntervalId)

end Variational
