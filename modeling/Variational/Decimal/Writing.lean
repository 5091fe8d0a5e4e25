import Variational.Decimal.Shortest

/-!
# Writing doubles

A double is written with the fewest digits that read back to it, always in
positional notation and without a point if no digit follows it.
-/

namespace Variational.Decimal

open Float.Model

/-- The positional notation of `d · 10 ^ p`. -/
def positional (d : Nat) (p : Int) : String :=
  let digits := Nat.toDigits 10 d
  let places := (-p).toNat
  if 0 ≤ p then
    String.ofList (digits ++ List.replicate p.toNat '0')
  else if places < digits.length then
    let whole := digits.length - places
    String.ofList (digits.take whole ++ '.' :: digits.drop whole)
  else
    String.ofList ('0' :: '.' :: List.replicate (places - digits.length) '0' ++ digits)

/-- The mark in front of a number of the given sign. -/
def signMark : UnpackedFloat.Sign → String
  | .positive => ""
  | .negative => "-"

/-- The text of a double. -/
def write (x : Float) : String :=
  match x.toModel.unpack with
  | .notANumber => "NaN"
  | .infinity sign => signMark sign ++ "inf"
  | .zero sign => signMark sign ++ "0"
  | .finite sign m e _ =>
    let (d, p) := Rounding.shortest ⟨m, e⟩
    signMark sign ++ positional d p

end Variational.Decimal
