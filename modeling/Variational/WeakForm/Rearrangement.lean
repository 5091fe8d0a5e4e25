import Variational.WeakForm.Basic

/-!
# Rearranging equations

A rearrangement such as `0, 3 = 2, 1` lists the positions of all terms of an
equation in their new order on each side. A term that changes side changes its
sign, so the equation keeps its meaning.
-/

namespace Variational

namespace Rearrangement

/-- Reads the positions of one side; a blank side has none. -/
def readSide (pattern : String) (side : List Char) : Outcome (List Nat) :=
  if Text.trim side = [] then
    .ok []
  else
    (Text.pieces ',' (Text.trim side)).mapM fun piece =>
      match Text.readIndex (Text.trim piece) with
      | some position => .ok position
      | none =>
        reject (.index pattern (.notATermPosition (String.ofList (Text.trim piece))))

/-- Reads the positions of both sides. -/
def read (pattern : String) : Outcome (List Nat × List Nat) :=
  match Text.pieces '=' pattern.toList with
  | [left, right] => do
    return (← readSide pattern left, ← readSide pattern right)
  | _ => reject (.malformed (.rearrangement pattern))

/-- Checks that positions count terms of an equation and do not repeat. -/
def checkDistinct (pattern : String) (equation size : Nat) :
    (seen : List Nat) → List Nat → Outcome Unit
  | _, [] => .ok ()
  | seen, position :: rest =>
    if size ≤ position then
      reject (.index pattern (.termCount equation size))
    else if position ∈ seen then
      reject (.structural (.repeatedTerm position pattern))
    else
      checkDistinct pattern equation size (position :: seen) rest

/-- Checks that every term of an equation is listed. -/
def checkComplete (pattern : String) (equation size : Nat) (positions : List Nat) :
    Outcome Unit :=
  match (List.range size).find? (· ∉ positions) with
  | some missing => reject (.structural (.missingTerm missing equation pattern))
  | none => .ok ()

/-- The equation that a rearrangement makes of another one. -/
def apply {α : Type} (pattern : String) (equation : Nat) (e : Equation α) :
    Outcome (Equation α) := do
  let (left, right) ← read pattern
  checkDistinct pattern equation e.size [] (left ++ right)
  checkComplete pattern equation e.size (left ++ right)
  return e.rearranged left right

end Rearrangement

/-- Rearranges equations of a formulation by rules, each of an equation and a pattern. All
rules refer to the equations as they were; of several rules for one equation the last one
counts. -/
def WeakFormulation.rearrange (w : WeakFormulation) (rules : List (Nat × String)) :
    Outcome WeakFormulation := do
  let equations ← rules.foldlM (fun equations (i, pattern) =>
    match w.equations[i]? with
    | none => reject (.index s!"{i}" .noSuchEquation)
    | some e => do return equations.set i (← Rearrangement.apply pattern i e)) w.equations
  return { w with equations }

end Variational
