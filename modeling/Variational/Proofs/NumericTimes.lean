import Variational.Proofs.Doubles
import Variational.Proofs.Session.Reachability

/-!
# Times that steps resolve to

A stepping rule refuses a time that is before its range and one that is after it. A value that is
not a number is neither, and it counts as a whole step, so it passes both checks. A numeric
interval refuses a stop that does not exceed its start in the order in which such a value exceeds
every number. So what steps resolve to is in range and intervals have a positive duration, unless a
value is not a number.
-/

namespace Variational

open Decimal Float.Model

/-! ## Stepping rules -/

namespace Stepping

/-- A time lies in the range of a rule, up to the tolerance. -/
def Covers (rule : Stepping) (time : Float) : Prop :=
  rule.t0 - rule.tolerance ≤ time ∧ time ≤ rule.tMax + rule.tolerance

instance (rule : Stepping) (time : Float) : Decidable (rule.Covers time) :=
  inferInstanceAs (Decidable (_ ∧ _))

/-- The time that a step is at, in the range or not. -/
def timeAt (rule : Stepping) (k : Float) : Float :=
  rule.t0 + k * rule.dt

/-- A rule that starts at a number and of which the duration of a step is neither zero nor too
large for a double. -/
structure Regular (rule : Stepping) : Prop where
  start : rule.t0.isFinite = true
  duration : rule.dt.isFinite = true
  moves : (rule.dt == 0.0) = false

variable {rule : Stepping} {t0 tMax k time : Float} {pieces factor : Nat}

theorem create_eq_ok : create t0 tMax pieces factor = .ok rule ↔
    t0 < tMax ∧ pieces ≠ 0 ∧ factor ≠ 0 ∧ rule = ⟨t0, tMax, pieces, factor⟩ := by
  rw [create]
  split
  · rename_i empty
    simp [empty]
  · rename_i nonempty
    split
    · rename_i missing
      refine iff_of_false (by simp) fun given => ?_
      exact missing.elim given.2.1 given.2.2.1
    · rename_i present
      rw [not_or] at present
      simp [not_not.1 nonempty, present, eq_comm]

/-- The tolerance of a range that is not empty is a number. It is infinite if an end is. -/
theorem tolerance_of_lt (nonempty : rule.t0 < rule.tMax) : rule.tolerance.isNaN = false ∧
    (rule.t0.isInf = true ∨ rule.tMax.isInf = true →
      rule.tolerance.toModel.unpack = .infinity .positive) := by
  obtain ⟨start, stop⟩ := isNaN_of_lt nonempty
  constructor
  · have range : (rule.tMax - rule.t0).isNaN = false := by
      rw [← Bool.not_eq_true, isNaN_sub, start, stop, not_beq_of_lt nonempty]
      simp only [Bool.false_eq_true, and_false, or_false, not_false_eq_true]
    have small : (1e-10 : Float).isNaN = false ∧ (1e-10 : Float).isInf = false ∧
        ((1e-10 : Float) == 0.0) = false := by
      decide +kernel
    rw [← Bool.not_eq_true, tolerance, isNaN_mul, range, small.1, small.2.1, small.2.2]
    simp only [Bool.false_eq_true, false_and, or_false, not_false_eq_true]
  · intro infinite
    obtain ⟨m, e, positive, small⟩ : ∃ m e positive,
        (1e-10 : Float).toModel.unpack = .finite .positive m e positive := ⟨_, _, _, rfl⟩
    change (Float.Model.pack (UnpackedFloat.mul .binary64 (1e-10 : Float).toModel.unpack
      (rule.tMax - rule.t0).toModel.unpack)).unpack = _
    rw [small, unpack_sub_of_lt nonempty infinite]
    exact unpack_pack_infinity .positive

/-- Both ends of the range of a rule, widened by the tolerance, are numbers. -/
theorem bounds_of_lt (nonempty : rule.t0 < rule.tMax) :
    (rule.t0 - rule.tolerance).isNaN = false ∧ (rule.tMax + rule.tolerance).isNaN = false := by
  obtain ⟨start, stop⟩ := isNaN_of_lt nonempty
  obtain ⟨number, infinite⟩ := tolerance_of_lt nonempty
  rw [← Bool.not_eq_true, ← Bool.not_eq_true, isNaN_sub, isNaN_add, start, stop, number]
  simp only [Bool.false_eq_true, false_or, not_and, Bool.not_eq_true, Bool.not_eq_false]
  constructor
  · intro low _
    change rule.t0.toModel.unpack.beq rule.tolerance.toModel.unpack = false
    rw [unpack_of_lt nonempty low, infinite (Or.inl low)]
    rfl
  · intro high _
    change rule.tMax.toModel.unpack.beq rule.tolerance.toModel.unpack = true
    rw [unpack_of_gt nonempty high, infinite (Or.inr high)]
    rfl

/-- A rule accepts the steps on its grid of which the time is in range or not a number. -/
theorem instant_eq_ok (nonempty : rule.t0 < rule.tMax) : rule.instant k = .ok time ↔
    time = rule.timeAt k ∧ rule.onGrid k = true ∧ (time.isNaN = true ∨ rule.Covers time) := by
  obtain ⟨lower, upper⟩ := bounds_of_lt nonempty
  have notEarly : ¬ rule.timeAt k < rule.t0 - rule.tolerance ↔ (rule.timeAt k).isNaN = true ∨
      rule.t0 - rule.tolerance ≤ rule.timeAt k := by
    rw [not_lt_iff, lower]
    simp only [Bool.false_eq_true, false_or]
  have notLate : ¬ rule.tMax + rule.tolerance < rule.timeAt k ↔ (rule.timeAt k).isNaN = true ∨
      rule.timeAt k ≤ rule.tMax + rule.tolerance := by
    rw [not_lt_iff, upper]
    simp only [Bool.false_eq_true, false_or]
  have accepted : rule.instant k = .ok time ↔ ¬ rule.timeAt k < rule.t0 - rule.tolerance ∧
      ¬ rule.tMax + rule.tolerance < rule.timeAt k ∧ rule.onGrid k = true ∧
        rule.timeAt k = time := by
    change (if rule.timeAt k < rule.t0 - rule.tolerance then _ else
      if rule.tMax + rule.tolerance < rule.timeAt k then _ else
        if (!rule.onGrid k) = true then _ else Except.ok (rule.timeAt k)) = _ ↔ _
    by_cases early : rule.timeAt k < rule.t0 - rule.tolerance
    · rw [if_pos early]
      exact iff_of_false (by simp) fun given => given.1 early
    by_cases late : rule.tMax + rule.tolerance < rule.timeAt k
    · rw [if_neg early, if_pos late]
      exact iff_of_false (by simp) fun given => given.2.1 late
    rw [if_neg early, if_neg late, and_iff_right early, and_iff_right late]
    cases rule.onGrid k <;> simp
  rw [accepted, notEarly, notLate]
  constructor
  · rintro ⟨notEarly, notLate, grid, rfl⟩
    exact ⟨rfl, grid, or_and_left.2 ⟨notEarly, notLate⟩⟩
  · rintro ⟨rfl, grid, range⟩
    obtain ⟨notEarly, notLate⟩ := or_and_left.1 range
    exact ⟨notEarly, notLate, grid, rfl⟩

/-- The times of a regular rule are numbers, unless a step is not one. -/
theorem Regular.isNaN_timeAt (regular : rule.Regular) : (rule.timeAt k).isNaN = k.isNaN := by
  obtain ⟨start, startFinite⟩ := isFinite_iff.1 regular.start
  obtain ⟨duration, durationFinite⟩ := isFinite_iff.1 regular.duration
  rw [Bool.eq_iff_iff, timeAt, isNaN_add, isNaN_mul]
  simp only [start, startFinite, duration, durationFinite, regular.moves, Bool.false_eq_true,
    false_and, and_false, or_false, false_or]

end Stepping

/-! ## Numeric intervals -/

/-- An interval is made of two times if the first is a number and the second exceeds it or is not a
number. -/
theorem NumericInterval.create_eq_ok {start stop : Float} {interval : NumericInterval} :
    create start stop = .ok interval ↔ interval = ⟨start, stop⟩ ∧ start.isNaN = false ∧
      (stop.isNaN = true ∨ start < stop) := by
  have order : Decimal.precedes start stop = true ↔
      start.isNaN = false ∧ (stop.isNaN = true ∨ start < stop) := by
    simp only [Decimal.precedes, Bool.and_eq_true, Bool.not_eq_true', Bool.or_eq_true,
      decide_eq_true_eq]
  rw [create]
  split
  · rename_i precedes
    rw [Except.ok.injEq, eq_comm, and_iff_left (order.1 precedes)]
  · rename_i fails
    exact iff_of_false (by simp) fun given => fails (order.2 given.2)

/-! ## Resolved instants and intervals -/

/-- Whether a request that changes nothing has a result with a property. -/
instance Outcome.decidableExistsOk {α : Type} (o : Outcome α) (p : α → Prop) [DecidablePred p] :
    Decidable (∃ a, o = .ok a ∧ p a) :=
  match o with
  | .ok a => decidable_of_iff (p a) (by simp)
  | .error _ => isFalse (by simp)

/-- An instant at a step key of a sequence that is specified to a rule. -/
def Session.Ruled (s : Session) (instant : TimeInstantId) (key : String) (rule : Stepping) : Prop :=
  ∃ i t, s.timeInstants.get? instant = some i ∧ i.key = key ∧
    s.timeSequences.get? i.sequence = some t ∧ t.specification = some rule

section Resolution

variable {s : Session} {bindings : List (String × Float)}

theorem Session.ruled_iff {instant : TimeInstantId} {key : String} {rule : Stepping} :
    s.Ruled instant key rule ↔ ((s.timeInstants.get? instant).bind fun i =>
      ((s.timeSequences.get? i.sequence).bind (·.specification)).map fun r =>
        (i.key, r.t0, r.tMax, r.pieces, r.factor)) =
      some (key, rule.t0, rule.tMax, rule.pieces, rule.factor) := by
  simp only [Ruled, Option.bind_eq_some_iff, Option.map_eq_some_iff, Prod.mk.injEq]
  constructor
  · rintro ⟨i, t, found, rfl, foundSequence, specified⟩
    exact ⟨i, found, rule, ⟨t, foundSequence, specified⟩, rfl, rfl, rfl, rfl, rfl⟩
  · rintro ⟨i, found, ⟨t0, tMax, pieces, factor⟩, ⟨t, foundSequence, specified⟩, rfl, same⟩
    obtain ⟨rfl, rfl, rfl, rfl⟩ := same
    exact ⟨i, t, found, rfl, foundSequence, specified⟩

instance (s : Session) (instant : TimeInstantId) (key : String) (rule : Stepping) :
    Decidable (s.Ruled instant key rule) :=
  decidable_of_iff _ Session.ruled_iff.symm

theorem Session.Ruled.resolve_eq_ok {instant : TimeInstantId} {key : String} {rule : Stepping}
    {time : Float} (ruled : s.Ruled instant key rule) :
    TimeInstant.resolve s instant bindings = .ok time ↔
      ∃ k, StepKey.evaluate key bindings = .ok k ∧ rule.instant k = .ok time := by
  obtain ⟨i, t, found, rfl, foundSequence, specified⟩ := ruled
  have fetched : s.timeInstant instant = .ok i := Arena.fetch_eq_ok_iff.2 found
  have fetchedSequence : s.timeSequence i.sequence = .ok t := Arena.fetch_eq_ok_iff.2 foundSequence
  rw [TimeInstant.resolve, Outcome.bind_of_ok fetched, Outcome.bind_of_ok fetchedSequence,
    specified]
  exact Outcome.bind_eq_ok

theorem TimeInterval.resolve_eq_ok {interval : TimeIntervalId} {i : TimeInterval}
    {x : NumericInterval} (found : s.timeIntervals.get? interval = some i) :
    resolve s interval bindings = .ok x ↔
      TimeInstant.resolve s i.start bindings = .ok x.start ∧
        TimeInstant.resolve s i.stop bindings = .ok x.stop ∧
          x.start.isNaN = false ∧ (x.stop.isNaN = true ∨ x.start < x.stop) := by
  have fetched : s.timeInterval interval = .ok i := Arena.fetch_eq_ok_iff.2 found
  rw [resolve, Outcome.bind_of_ok fetched]
  simp only [Outcome.bind_eq_ok, NumericInterval.create_eq_ok]
  constructor
  · rintro ⟨start, first, stop, last, rfl, order⟩
    exact ⟨first, last, order⟩
  · rintro ⟨first, last, order⟩
    exact ⟨x.start, first, x.stop, last, rfl, order⟩

/-- What the instants and the intervals of a session resolve to, for an accepted rule and whatever
the bindings are.

* An instant resolves to the time at its step, if the step is on the grid and the time is in range
  or not a number.
* An interval resolves to the times of its instants, if the first is a number and the second
  exceeds it or is not a number.
* Where nothing overflows, only a step that is not a number has such a time. -/
theorem Stepping.resolution {t0 tMax : Float} {pieces factor : Nat} {rule : Stepping}
    (accepted : Stepping.create t0 tMax pieces factor = .ok rule) :
    (∀ {s : Session} {instant key}, s.Ruled instant key rule → ∀ bindings time,
      TimeInstant.resolve s instant bindings = .ok time ↔
        ∃ k, StepKey.evaluate key bindings = .ok k ∧ time = rule.timeAt k ∧
          rule.onGrid k = true ∧ (time.isNaN = true ∨ rule.Covers time)) ∧
    (∀ {s : Session} {interval i}, s.timeIntervals.get? interval = some i → ∀ bindings x,
      TimeInterval.resolve s interval bindings = .ok x ↔
        TimeInstant.resolve s i.start bindings = .ok x.start ∧
          TimeInstant.resolve s i.stop bindings = .ok x.stop ∧
            x.start.isNaN = false ∧ (x.stop.isNaN = true ∨ x.start < x.stop)) ∧
    (rule.Regular → ∀ k, (rule.timeAt k).isNaN = k.isNaN) := by
  obtain ⟨nonempty, -, -, rfl⟩ := Stepping.create_eq_ok.1 accepted
  refine ⟨fun ruled bindings time => ?_, fun found bindings x => TimeInterval.resolve_eq_ok found,
    fun regular _ => regular.isNaN_timeAt⟩
  rw [ruled.resolve_eq_ok]
  exact exists_congr fun k => and_congr_right fun _ => Stepping.instant_eq_ok nonempty

/-- The first step of the unit interval, which has four pieces and two to a step. -/
theorem Stepping.resolution_unit : Stepping.create 0 1 4 2 = .ok ⟨0, 1, 4, 2⟩ ∧
    ∃ s, Session.Reachable {} s ∧ s.Ruled ⟨1⟩ "k" ⟨0, 1, 4, 2⟩ ∧
      (∃ time, TimeInstant.resolve s ⟨1⟩ [("k", 1)] = .ok time ∧
        (⟨0, 1, 4, 2⟩ : Stepping).Covers time) ∧
      ∃ x, TimeInterval.resolve s ⟨0⟩ [("k", 1)] = .ok x ∧ x.start < x.stop := by
  obtain ⟨s, reachable, ruled, held, ⟨time, run, number⟩, x, runInterval, numbers⟩ :
      ∃ s, Session.Reachable {} s ∧ s.Ruled ⟨1⟩ "k" ⟨0, 1, 4, 2⟩ ∧
        (s.timeIntervals.get? ⟨0⟩).isSome = true ∧
        (∃ time, TimeInstant.resolve s ⟨1⟩ [("k", 1)] = .ok time ∧ ¬ time.isNaN = true) ∧
        ∃ x, TimeInterval.resolve s ⟨0⟩ [("k", 1)] = .ok x ∧ ¬ x.stop.isNaN = true :=
    ⟨Request.performAll {} [.sequence, .specification ⟨0⟩ ⟨0, 1, 4, 2⟩, .intervalAt ⟨0⟩ "k-1" "k"],
      .performAll {} _, by decide +kernel⟩
  obtain ⟨instants, intervals, -⟩ :=
    Stepping.resolution (rfl : Stepping.create 0 1 4 2 = .ok ⟨0, 1, 4, 2⟩)
  obtain ⟨i, found⟩ := Option.isSome_iff_exists.1 held
  obtain ⟨k, -, -, -, range⟩ := (instants ruled _ time).1 run
  obtain ⟨-, -, -, order⟩ := (intervals found _ x).1 runInterval
  exact ⟨rfl, s, reachable, ruled, ⟨time, run, range.resolve_left number⟩,
    x, runInterval, order.resolve_left numbers⟩

/-- A step that is not a number resolves to a time that is not in range, and an interval that stops
there has no duration. The first step of a range that is too long for a double is at such a time as
well. -/
theorem Stepping.resolution_not_number :
    Stepping.create 0 1 4 2 = .ok ⟨0, 1, 4, 2⟩ ∧
    Stepping.create (-1e308) 1e308 4 2 = .ok ⟨-1e308, 1e308, 4, 2⟩ ∧
    ∃ s, Session.Reachable {} s ∧ s.Ruled ⟨0⟩ "k" ⟨0, 1, 4, 2⟩ ∧
      s.Ruled ⟨2⟩ "k" ⟨-1e308, 1e308, 4, 2⟩ ∧
      (∃ time, TimeInstant.resolve s ⟨0⟩ [("k", 0.0 / 0.0)] = .ok time ∧
        ¬ (⟨0, 1, 4, 2⟩ : Stepping).Covers time) ∧
      (∃ x, TimeInterval.resolve s ⟨0⟩ [("k", 0), ("j", 0.0 / 0.0)] = .ok x ∧
        ¬ x.start < x.stop) ∧
      ∃ time, TimeInstant.resolve s ⟨2⟩ [("k", 0)] = .ok time ∧
        ¬ (⟨-1e308, 1e308, 4, 2⟩ : Stepping).Covers time :=
  ⟨rfl, Stepping.create_eq_ok.2 ⟨by decide +kernel, by decide, by decide, rfl⟩,
    Request.performAll {} [.sequence, .sequence, .specification ⟨0⟩ ⟨0, 1, 4, 2⟩,
      .specification ⟨1⟩ ⟨-1e308, 1e308, 4, 2⟩, .intervalAt ⟨0⟩ "k" "j", .instant ⟨1⟩ "k"],
    .performAll {} _, by decide +kernel⟩

end Resolution

end Variational
