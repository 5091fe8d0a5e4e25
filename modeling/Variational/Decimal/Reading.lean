import Variational.Text.Index

/-!
# Reading decimal numbers

A decimal number is an optional sign followed by `inf`, `infinity` or `nan` in
any case, or by digits with at most one point among them and an optional
exponent of ten. It denotes the nearest double, a tie going to the even one.
-/

namespace Variational.Decimal

open Variational.Text

/-- The double nearest to `mantissa · 10 ^ exponent`. -/
def nearest (mantissa : Nat) (exponent : Int) : Float :=
  Float.ofScientific mantissa (decide (exponent < 0)) exponent.natAbs

/-- The exponent that an optional sign and a non-empty run of digits spell. -/
def readExponentDigits (cs : List Char) : Option Int :=
  let (negative, digits) := match cs with
    | '-' :: rest => (true, rest)
    | '+' :: rest => (false, rest)
    | rest => (false, rest)
  if digits = [] ∨ digits.any (fun c => !c.isDigit) then
    none
  else if negative then
    some (-(digitsValue digits : Int))
  else
    some (digitsValue digits)

/-- The exponent part of a number; an absent one is zero. -/
def readExponent : List Char → Option Int
  | [] => some 0
  | c :: rest => if c = 'e' ∨ c = 'E' then readExponentDigits rest else none

/-- A number without a sign that is written with digits. -/
def readDigits (cs : List Char) : Option Float :=
  let whole := cs.takeWhile Char.isDigit
  let (fraction, rest) := match cs.dropWhile Char.isDigit with
    | '.' :: after => (after.takeWhile Char.isDigit, after.dropWhile Char.isDigit)
    | after => ([], after)
  if whole ++ fraction = [] then
    none
  else
    (readExponent rest).map fun exponent =>
      nearest (digitsValue (whole ++ fraction)) (exponent - fraction.length)

/-- A number without a sign that is written with a word. -/
def readWord (cs : List Char) : Option Float :=
  let word := String.ofList (cs.map Char.toLower)
  if word = "inf" ∨ word = "infinity" then
    some (1.0 / 0.0)
  else if word = "nan" then
    some (0.0 / 0.0)
  else
    none

/-- A number without a sign. -/
def readUnsigned (cs : List Char) : Option Float :=
  (readDigits cs).or (readWord cs)

/-- The double that a text denotes, if the text is a decimal number. -/
def read : List Char → Option Float
  | '-' :: rest => (readUnsigned rest).map (-·)
  | '+' :: rest => readUnsigned rest
  | cs => readUnsigned cs

end Variational.Decimal
