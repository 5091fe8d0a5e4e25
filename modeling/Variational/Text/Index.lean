/-!
# Indices written in decimal

An index is a word of 64 bits, written with ASCII digits after an optional plus
sign. Leading zeros are allowed; a text that names a larger number is no index.
-/

namespace Variational.Text

/-- The number that a list of ASCII digits spells in base ten. -/
def digitsValue (digits : List Char) : Nat :=
  digits.foldl (fun value c => 10 * value + (c.toNat - '0'.toNat)) 0

/-- A text without one leading plus sign. -/
def dropPlus : List Char → List Char
  | '+' :: rest => rest
  | cs => cs

/-- The index that a text spells, if it is one. -/
def readIndex (cs : List Char) : Option Nat :=
  let digits := dropPlus cs
  if digits = [] ∨ digits.any (fun c => !c.isDigit) then
    none
  else if digitsValue digits < UInt64.size then
    some (digitsValue digits)
  else
    none

/-- Every index that can be read is a word of 64 bits. -/
theorem readIndex_lt {cs : List Char} {n : Nat} (h : readIndex cs = some n) : n < UInt64.size := by
  simp only [readIndex] at h
  split at h
  · cases h
  · split at h
    · rename_i bounded
      cases h
      exact bounded
    · cases h

/-- The sum of two words of 64 bits, reduced to a word of 64 bits. -/
def wordSum (a b : Nat) : Nat :=
  (a + b) % UInt64.size

theorem wordSum_eq_add {a b : Nat} (h : a + b < UInt64.size) : wordSum a b = a + b :=
  Nat.mod_eq_of_lt h

end Variational.Text
