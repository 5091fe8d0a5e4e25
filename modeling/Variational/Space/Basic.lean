import Variational.Labels

/-!
# Spaces of forms as data

The space of the `k`-forms of one orientation on a mesh. A space becomes finite
when it is given a polynomial degree.
-/

namespace Variational

/-- The orientation of the forms of a space. -/
inductive Orientation
  | inner
  | outer
  | unknown
deriving DecidableEq, Repr

namespace Orientation

/-- The orientation of the Hodge dual. -/
def dual : Orientation → Orientation
  | .inner => .outer
  | .outer => .inner
  | .unknown => .unknown

def text : Orientation → String
  | .inner => "inner"
  | .outer => "outer"
  | .unknown => "unknown"

/-- Reads an orientation. -/
def read (text : String) : Outcome Orientation :=
  if text = "inner" ∨ text = "i" then .ok .inner
  else if text = "outer" ∨ text = "o" then .ok .outer
  else if text = "unknown" ∨ text = "None" then .ok .unknown
  else reject (.malformed (.orientation text))

/-- The common orientation of two factors, if they have one. -/
def common (a b : Orientation) : Orientation :=
  if a = b then a else .unknown

/-- The part of a space's linguistic label that tells its orientation. -/
def tag : Orientation → String
  | .inner => "-inner"
  | .outer => "-outer"
  | .unknown => ""

/-- The symbol of spaces of an orientation. -/
def symbol : Orientation → String
  | .inner => "\\widetilde\\Lambda"
  | .outer => "\\Lambda"
  | .unknown => "\\Lambda_\x7b?\x7d"

@[simp] theorem dual_dual (o : Orientation) : o.dual.dual = o := by cases o <;> rfl

theorem common_comm (a b : Orientation) : a.common b = b.common a := by
  cases a <;> cases b <;> rfl

end Orientation

/-- The space of the `k`-forms of an orientation on a mesh. -/
structure Space where
  mesh : MeshId
  k : Nat
  orientation : Orientation
  /-- The polynomial degree of a finite space. -/
  degree : Option Nat
  labels : Labels
deriving DecidableEq, Repr

end Variational
