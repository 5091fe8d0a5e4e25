import Variational.Rejection
import Variational.Decimal.Writing

/-!
# Numeric time

A stepping rule divides an interval of time into equal pieces and maps steps,
which may be fractional, to times. Fractions of a step are compared in units of
`10 ^ -8`. Numeric intervals have a positive duration in the order of doubles in
which a value that is not a number equals itself and exceeds every number.
-/

namespace Variational

open Float.Model

/-! ## Integral and fractional parts -/

namespace Decimal

/-- The integral part of a double, rounded toward zero; zero if it is not finite. -/
def integralPart (x : Float) : Int :=
  match x.toModel.unpack with
  | .finite sign m e _ =>
    sign.apply (if 0 ≤ e then m * Nat.pow 2 e.toNat else m / Nat.pow 2 (-e).toNat : Nat)
  | _ => 0

/-- The integer nearest to a double, a half going away from zero; zero if it is not
finite. -/
def nearestInteger (x : Float) : Int :=
  match x.toModel.unpack with
  | .finite sign m e _ =>
    sign.apply
      (if 0 ≤ e then m * Nat.pow 2 e.toNat
      else (2 * m + Nat.pow 2 (-e).toNat) / Nat.pow 2 ((-e).toNat + 1) : Nat)
  | _ => 0

/-- The remainder of a double modulo one, between zero and one. -/
def remainder (x : Float) : Float :=
  if x.isFinite then
    let fraction := x - Float.ofInt (integralPart x)
    if fraction < 0.0 then fraction + 1.0 else fraction
  else
    0.0 / 0.0

end Decimal

/-- The units of `10 ^ -8` in which fractions of a step are counted. -/
def fractionUnits : Nat := 100000000

/-- The fraction of a step in units of `10 ^ -8`, a whole step counting as none. -/
def stepFraction (k : Float) : Int :=
  Decimal.nearestInteger (Decimal.remainder k * Float.ofNat fractionUnits) % fractionUnits

/-! ## Stepping rules -/

/-- The times from `t0` to `tMax` in equal pieces, of which every step covers `factor`. -/
structure Stepping where
  t0 : Float
  tMax : Float
  pieces : Nat
  factor : Nat

namespace Stepping

/-- The rule with the given range, pieces and factor; the range must not be empty, and
there must be pieces to step over. -/
def create (t0 tMax : Float) (pieces factor : Nat) : Outcome Stepping :=
  if ¬ t0 < tMax then
    reject (.instant (.emptyRange (Decimal.write tMax) (Decimal.write t0)))
  else if pieces = 0 ∨ factor = 0 then
    reject (.instant (.noSteps pieces factor))
  else
    .ok ⟨t0, tMax, pieces, factor⟩

/-- The duration of one step. -/
def dt (rule : Stepping) : Float :=
  (rule.tMax - rule.t0) * Float.ofNat rule.factor / Float.ofNat rule.pieces

/-- The largest step. -/
def kMax (rule : Stepping) : Float :=
  Float.ofNat rule.pieces / Float.ofNat rule.factor

/-- How far outside the range a time may lie. -/
def tolerance (rule : Stepping) : Float :=
  1e-10 * (rule.tMax - rule.t0)

/-- Whether a step is a multiple of one piece. -/
def onGrid (rule : Stepping) (k : Float) : Bool :=
  let fraction := stepFraction k
  (List.range rule.factor).any fun i =>
    stepFraction (Float.ofNat i / Float.ofNat rule.factor) == fraction

/-- The time at a step within the range and on the grid. -/
def instant (rule : Stepping) (k : Float) : Outcome Float :=
  let time := rule.t0 + k * rule.dt
  if time < rule.t0 - rule.tolerance then
    reject (.instant (.tooEarly (Decimal.write k) (Decimal.write time) (Decimal.write rule.t0)))
  else if rule.tMax + rule.tolerance < time then
    reject (.instant (.tooLate (Decimal.write k) (Decimal.write time) (Decimal.write rule.tMax)))
  else if !rule.onGrid k then
    reject (.instant (.offGrid (Decimal.write k) rule.factor))
  else
    .ok time

end Stepping

/-! ## Numeric intervals -/

/-- The strict order of doubles with a value that is not a number on top. -/
def Decimal.precedes (x y : Float) : Bool :=
  !x.isNaN && (y.isNaN || decide (x < y))

/-- An interval between two times. -/
structure NumericInterval where
  start : Float
  stop : Float

namespace NumericInterval

/-- The interval between two times, of which the first must precede the second. -/
def create (start stop : Float) : Outcome NumericInterval :=
  if Decimal.precedes start stop then
    .ok ⟨start, stop⟩
  else
    reject (.instant (.emptyInterval (Decimal.write start) (Decimal.write stop)))

/-- The duration. -/
def dt (interval : NumericInterval) : Float :=
  interval.stop - interval.start

end NumericInterval

end Variational
