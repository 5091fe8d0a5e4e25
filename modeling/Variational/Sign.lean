import Variational.Rejection
import Variational.Text.Blank

/-!
# Signs

The sign in front of a term, and values with a sign in front.
-/

namespace Variational

inductive Sign
  | plus
  | minus
deriving DecidableEq, Repr

namespace Sign

/-- The product of two signs. -/
def compose : Sign → Sign → Sign
  | .plus, s => s
  | .minus, .plus => .minus
  | .minus, .minus => .plus

/-- The opposite sign. -/
def flipped : Sign → Sign
  | .plus => .minus
  | .minus => .plus

/-- The written form of a sign. -/
def text : Sign → String
  | .plus => "+"
  | .minus => "-"

/-- Reads a sign, with blank characters around it allowed. -/
def read (text : String) : Outcome Sign :=
  let trimmed := String.ofList (Text.trim text.toList)
  if trimmed = "+" then
    .ok .plus
  else if trimmed = "-" then
    .ok .minus
  else
    reject (.malformed (.sign trimmed))

@[simp] theorem plus_compose (s : Sign) : plus.compose s = s := rfl

@[simp] theorem compose_plus (s : Sign) : s.compose plus = s := by cases s <;> rfl

@[simp] theorem minus_compose (s : Sign) : minus.compose s = s.flipped := by cases s <;> rfl

@[simp] theorem flipped_flipped (s : Sign) : s.flipped.flipped = s := by cases s <;> rfl

/-- Two signs compose to plus if and only if they are equal. -/
theorem compose_eq_plus {s t : Sign} : s.compose t = plus ↔ s = t := by
  cases s <;> cases t <;> decide

theorem compose_assoc (r s t : Sign) : (r.compose s).compose t = r.compose (s.compose t) := by
  cases r <;> cases s <;> cases t <;> rfl

end Sign

/-- A value with a sign in front. -/
structure Signed (α : Type) where
  sign : Sign
  value : α
deriving DecidableEq, Repr

/-- The value with the opposite sign. -/
def Signed.flipped {α : Type} (x : Signed α) : Signed α :=
  ⟨x.sign.flipped, x.value⟩

/-- The same sign in front of another value. -/
def Signed.map {α β : Type} (f : α → β) (x : Signed α) : Signed β :=
  ⟨x.sign, f x.value⟩

end Variational
