import Variational.Scalar.Arithmetic
import Variational.Time.StepKey

/-!
# Abstract time sequences, instants and intervals

Instants are found again by their step key and intervals by their end points. An
interval has an abstract scalar for its duration, with a numbered symbol that
neither an interval nor a scalar uses.
-/

namespace Variational

/-! ## Sequences -/

/-- A new time sequence with the given labels. -/
def TimeSequence.createAs (labels : Labels) : Derive TimeSequenceId := do
  labels.validate .timeSequence
  let s ← get
  s.timeSequenceLabels.checkAvailable labels
  let id := s.timeSequences.nextId
  set { s with
    timeSequences := s.timeSequences.push { labels, specification := none }
    timeSequenceLabels := s.timeSequenceLabels.insert labels id }
  return id

/-- A new time sequence with default labels. -/
def TimeSequence.create : Derive TimeSequenceId := do
  let s ← get
  TimeSequence.createAs
    (s.timeSequenceLabels.nextFree s.settings.conventions.defaults.timeSequence)

/-- Specifies a time sequence to a stepping rule, which is possible only once. -/
def TimeSequence.specify (sequence : TimeSequenceId) (rule : Stepping) : Derive Unit := do
  let s ← get
  let t ← s.timeSequence sequence
  if t.specification.isSome then
    reject (.state (.alreadySpecified t.labels.lin))
  set { s with
    timeSequences := s.timeSequences.set sequence { t with specification := some rule } }

/-! ## Instants -/

namespace TimeInstant

/-- The characters that keys must not have, since composed labels need them. -/
def reservedCharacters : List Char := ['{', '$', '\\', '}', '[', ']', ',']

/-- Checks a step key. -/
def validateKey (key : String) : Outcome Unit :=
  if key.toList = [] ∨ key.toList.any (fun c => Text.isBlank c || c ∈ reservedCharacters) then
    reject (.malformed (.stepKey key))
  else
    .ok ()

/-- The instant that was created for a key of a sequence. -/
def known (s : Session) (sequence : TimeSequenceId) (key : String) : Option TimeInstantId :=
  s.timeInstants.find? fun i => i.sequence = sequence ∧ i.key = key

/-- The instant of a sequence at a step key. -/
def atKey (sequence : TimeSequenceId) (key : String) : Derive TimeInstantId := do
  let s ← get
  let t ← s.timeSequence sequence
  match known s sequence key with
  | some instant => return instant
  | none =>
    validateKey key
    let id := s.timeInstants.nextId
    let labels : Labels := ⟨s!"{t.labels.sym}[{key}]", s!"{t.labels.lin}[{key}]"⟩
    set { s with timeInstants := s.timeInstants.push { sequence, key, labels } }
    return id

/-- The numeric time of an instant of a specified sequence. -/
def resolve (s : Session) (instant : TimeInstantId) (bindings : List (String × Float)) :
    Outcome Float := do
  let i ← s.timeInstant instant
  let t ← s.timeSequence i.sequence
  match t.specification with
  | none => reject (.state (.notSpecified t.labels.lin))
  | some rule => rule.instant (← StepKey.evaluate i.key bindings)

end TimeInstant

/-! ## Intervals -/

namespace TimeInterval

/-- The interval that was created between two instants. -/
def known (s : Session) (start stop : TimeInstantId) : Option TimeIntervalId :=
  s.timeIntervals.find? fun i => i.start = start ∧ i.stop = stop

/-- The first numbered variant of the interval symbol that neither an interval nor a
scalar has. -/
def freeSym (s : Session) : String :=
  let base := s.settings.conventions.defaults.timeIntervalSym
  Labels.numberedSym base <|
    leastBelow (s.timeIntervalLabels.size + s.scalarLabels.size) fun n =>
      !s.timeIntervalLabels.hasSym (Labels.numberedSym base n) &&
        !s.scalarLabels.hasSym (Labels.numberedSym base n)

/-- The interval between two instants of one sequence. -/
def between (start stop : TimeInstantId) : Derive TimeIntervalId := do
  let s ← get
  let a ← s.timeInstant start
  let b ← s.timeInstant stop
  if a.sequence ≠ b.sequence then
    reject (.structural (.differentSequences a.labels.lin b.labels.lin))
  if start = stop then
    reject (.instant (.degenerateInterval a.labels.lin))
  match known s start stop with
  | some interval => return interval
  | none =>
    let t ← s.timeSequence a.sequence
    let labels : Labels := ⟨freeSym s, s!"{t.labels.lin}[{a.key},{b.key}]"⟩
    let duration ← Scalar.abstract labels
    let s ← get
    let id := s.timeIntervals.nextId
    set { s with
      timeIntervals := s.timeIntervals.push {
        sequence := a.sequence, start, stop, labels, duration }
      timeIntervalLabels := s.timeIntervalLabels.insert labels id }
    return id

/-- The interval between the instants of a sequence at two step keys. -/
def atKeys (sequence : TimeSequenceId) (startKey stopKey : String) : Derive TimeIntervalId := do
  let start ← TimeInstant.atKey sequence startKey
  let stop ← TimeInstant.atKey sequence stopKey
  between start stop

/-- The numeric interval of an interval of a specified sequence. -/
def resolve (s : Session) (interval : TimeIntervalId) (bindings : List (String × Float)) :
    Outcome NumericInterval := do
  let i ← s.timeInterval interval
  let start ← TimeInstant.resolve s i.start bindings
  let stop ← TimeInstant.resolve s i.stop bindings
  NumericInterval.create start stop

end TimeInterval

end Variational
