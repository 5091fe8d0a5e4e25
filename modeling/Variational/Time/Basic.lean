import Variational.Labels
import Variational.Time.Stepping

/-!
# Abstract time as data

A time sequence hands out instants, which are known by their step keys, and
intervals between them. A sequence may be specified to a stepping rule, which
gives its instants numeric times.
-/

namespace Variational

/-- A time sequence whose instants are known only by their step keys. Its labels are
pure, without a wrapper. -/
structure TimeSequence where
  labels : Labels
  specification : Option Stepping

/-- The instant of a sequence at a step key. -/
structure TimeInstant where
  sequence : TimeSequenceId
  key : String
  labels : Labels
deriving DecidableEq, Repr

/-- The interval between two instants of a sequence. -/
structure TimeInterval where
  sequence : TimeSequenceId
  start : TimeInstantId
  stop : TimeInstantId
  labels : Labels
  /-- The abstract scalar that stands for the duration. -/
  duration : ScalarId
deriving DecidableEq, Repr

end Variational
