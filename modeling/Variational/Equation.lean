import Variational.Sign

/-!
# Equations

An equation has signed terms on its left and on its right. Its terms are
counted from left to right, and the count continues across the equals sign.
-/

namespace Variational

/-- The two sides of an equals sign. -/
inductive Side
  | left
  | right
deriving DecidableEq, Repr

/-- Signed terms on the left and on the right of an equals sign. -/
@[ext] structure Equation (α : Type) where
  left : List (Signed α) := []
  right : List (Signed α) := []
deriving DecidableEq, Repr

namespace Equation

variable {α β : Type}

/-- The terms of one side. -/
def side (e : Equation α) : Side → List (Signed α)
  | .left => e.left
  | .right => e.right

/-- All terms, the left ones first. -/
def terms (e : Equation α) : List (Signed α) :=
  e.left ++ e.right

/-- The number of terms. -/
def size (e : Equation α) : Nat :=
  e.left.length + e.right.length

/-- The side of the term at a position, and its position within that side. -/
def locate (e : Equation α) (position : Nat) : Option (Side × Nat) :=
  if position < e.left.length then
    some (.left, position)
  else if position < e.size then
    some (.right, position - e.left.length)
  else
    none

/-- The term at a position. -/
def get? (e : Equation α) (position : Nat) : Option (Signed α) :=
  e.terms[position]?

/-- The equation with the term at a place of one side replaced by a list of terms. -/
def splice (e : Equation α) (side : Side) (place : Nat) (new : List (Signed α)) : Equation α :=
  let exchange := fun old : List (Signed α) => old.take place ++ new ++ old.drop (place + 1)
  match side with
  | .left => { e with left := exchange e.left }
  | .right => { e with right := exchange e.right }

/-- Every term changed by a function of its position. -/
def mapPositions (e : Equation α) (f : Nat → Signed α → Signed β) : Equation β :=
  ⟨e.left.mapIdx f, e.right.mapIdx fun place => f (e.left.length + place)⟩

/-- The terms at the given positions, placed on one side. A term that comes from the other
side changes its sign. -/
def placed (e : Equation α) (target : Side) (positions : List Nat) : List (Signed α) :=
  positions.filterMap fun position => do
    let (side, place) ← e.locate position
    let term ← (e.side side)[place]?
    return if side = target then term else term.flipped

/-- The equation with the terms at the given positions on its left and on its right. -/
def rearranged (e : Equation α) (left right : List Nat) : Equation α :=
  ⟨e.placed .left left, e.placed .right right⟩

theorem length_terms (e : Equation α) : e.terms.length = e.size := by
  simp [terms, size]

/-- Looking a term up by its side and place agrees with looking it up by its position. -/
theorem get?_eq_of_locate {e : Equation α} {position place : Nat} {side : Side}
    (located : e.locate position = some (side, place)) :
    e.get? position = (e.side side)[place]? := by
  simp only [locate] at located
  split at located
  · rename_i onLeft
    cases located
    simp [get?, terms, Equation.side, List.getElem?_append_left onLeft]
  · split at located
    · rename_i notLeft _
      cases located
      simp [get?, terms, Equation.side, List.getElem?_append_right (Nat.not_lt.1 notLeft)]
    · cases located

/-- A position is located if and only if it counts a term. -/
theorem locate_isSome_iff {e : Equation α} {position : Nat} :
    (e.locate position).isSome ↔ position < e.size := by
  simp only [locate]
  split
  · rename_i onLeft
    simp only [Option.isSome_some, true_iff, size]
    omega
  · split <;> simp_all

end Equation

end Variational
