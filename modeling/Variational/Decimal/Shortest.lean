/-!
# Shortest decimals of doubles

A positive double `m · 2 ^ e` stands for the reals that round to it. Among the
decimals in that interval the shortest lie on the coarsest grid `10 ^ p` that
meets the interval, and of the points of that grid the nearest is taken. All
comparisons are exact, in natural numbers.
-/

namespace Variational.Decimal

/-- The smallest exponent of two of a double. -/
def leastExponent : Int := -1074

/-- The reals that round to `m · 2 ^ e`, with ends counted in units of `2 ^ (e - 2)`.
The ends belong to the interval if and only if `m` is even. Below the least mantissa
of a binade the doubles lie twice as dense, unless the exponent is the least one. -/
structure Rounding where
  m : Nat
  e : Int
deriving DecidableEq, Repr

namespace Rounding

/-- The lower end in units of `2 ^ (e - 2)`. -/
def low (r : Rounding) : Nat :=
  if r.m = Nat.pow 2 52 ∧ leastExponent < r.e then 4 * r.m - 1 else 4 * r.m - 2

/-- The upper end in units of `2 ^ (e - 2)`. -/
def high (r : Rounding) : Nat :=
  4 * r.m + 2

/-- The factor that brings units of `2 ^ (e - 2)` and a grid `10 ^ p` to natural numbers. -/
def unit (r : Rounding) (p : Int) : Nat :=
  Nat.pow 2 (r.e - 2).toNat * Nat.pow 10 (-p).toNat

/-- The width of the grid `10 ^ p` on the scale of `unit`. -/
def step (r : Rounding) (p : Int) : Nat :=
  Nat.pow 2 (2 - r.e).toNat * Nat.pow 10 p.toNat

/-- Whether `d · 10 ^ p` rounds to the double. -/
def holds (r : Rounding) (p : Int) (d : Nat) : Bool :=
  let point := d * r.step p
  if r.m % 2 = 0 then
    decide (r.low * r.unit p ≤ point) && decide (point ≤ r.high * r.unit p)
  else
    decide (r.low * r.unit p < point) && decide (point < r.high * r.unit p)

/-- The point of the grid `10 ^ p` that is nearest to the double among those that round
to it; of two equally near points the upper one. -/
def nearestOn (r : Rounding) (p : Int) : Option Nat :=
  let value := 4 * r.m * r.unit p
  let below := value / r.step p
  match r.holds p below, r.holds p (below + 1) with
  | true, true =>
    if 2 * (value - below * r.step p) < r.step p then some below else some (below + 1)
  | true, false => some below
  | false, true => some (below + 1)
  | false, false => none

/-- Searches the grids from `10 ^ p` to finer ones. -/
def search (r : Rounding) : (steps : Nat) → (p : Int) → Nat × Int
  | 0, p => (0, p)
  | steps + 1, p =>
    match r.nearestOn p with
    | some d => (d, p)
    | none => r.search steps (p - 1)

/-- The number of digits before the point of the upper end. -/
def magnitude (r : Rounding) : Nat :=
  (Nat.toDigits 10 (r.high * Nat.pow 2 (r.e - 2).toNat / Nat.pow 2 (2 - r.e).toNat)).length

/-- The shortest decimal `d · 10 ^ p` that rounds to the double, as the pair `(d, p)`.
The grid `10 ^ leastExponent` holds every double, so the search always ends with a hit. -/
def shortest (r : Rounding) : Nat × Int :=
  r.search (r.magnitude + leastExponent.natAbs + 1) r.magnitude

end Rounding

end Variational.Decimal
