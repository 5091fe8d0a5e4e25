import Variational.Pde.Basic

/-!
# Equations written as text

An equation such as `du - sP = f` has names of forms on each side, each preceded
by signs. Only a first name may stand without a sign, blank characters do not
matter, and a side that reads `0` has no terms. A run of signs composes to one.
-/

namespace Variational

namespace Pde.Expression

/-- The sign that a character stands for. -/
def sign? : Char → Option Sign
  | '+' => some .plus
  | '-' => some .minus
  | _ => none

/-- The first form with a name. -/
def lookup (expression : String) (names : List (String × FormId)) (name : List Char) :
    Outcome FormId :=
  match names.find? (·.1.toList = name) with
  | some (_, f) => .ok f
  | none => reject (.malformed (.unknownName expression (String.ofList name)))

/-- Reads terms from the characters that are not blank, with the sign and the reversed name
read so far. -/
def readTerms (expression : String) (names : List (String × FormId)) :
    (sign : Sign) → (name : List Char) → List Char → Outcome (List (Signed FormId))
  | _, [], [] => reject (.malformed (.missingName expression))
  | sign, name, [] => do return [⟨sign, ← lookup expression names name.reverse⟩]
  | sign, name, c :: rest =>
    match sign? c with
    | none => readTerms expression names sign (c :: name) rest
    | some next =>
      if name = [] then
        readTerms expression names (sign.compose next) [] rest
      else do
        let f ← lookup expression names name.reverse
        return ⟨sign, f⟩ :: (← readTerms expression names next [] rest)

/-- Reads one side of an equation. -/
def readSide (expression : String) (names : List (String × FormId)) (side : List Char) :
    Outcome (List (Signed FormId)) :=
  if Text.trim side = ['0'] then
    .ok []
  else
    readTerms expression names .plus [] (side.filter fun c => !Text.isBlank c)

/-- Reads an equation. -/
def read (names : List (String × FormId)) (expression : String) : Outcome (Equation FormId) :=
  match Text.pieces '=' expression.toList with
  | [left, right] => do
    let left ← readSide expression names left
    let right ← readSide expression names right
    return ⟨left, right⟩
  | _ => reject (.malformed (.equalsCount expression))

end Pde.Expression

/-- The system of equations written as text, with names for the given forms. -/
def Pde.ofExpressions (s : Session) (names : List (String × FormId))
    (expressions : List String) : Outcome Pde := do
  Pde.create s (← expressions.mapM (Expression.read names))

end Variational
