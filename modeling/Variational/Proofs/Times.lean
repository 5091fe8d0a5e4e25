import Variational.Proofs.Scalars

/-!
# Time sequences, instants and intervals

The growth of a session by abstract points in time. An interval is recorded after
the scalar of its duration, which is found under the labels of the interval.
-/

namespace Variational

open Derive

variable {s : Session}

theorem TimeSequence.createAs_grows (labels : Labels) : (createAs labels).Grows s :=
  .lift_bind fun _ valid => .get_bind (.lift_bind fun _ available =>
    .set_bind (.timeSequence valid (LabelIndex.checkAvailable_eq_ok.1 available)) .pure)

theorem TimeSequence.create_grows : create.Grows s :=
  .get_bind (createAs_grows _)

theorem TimeSequence.specify_grows (sequence : TimeSequenceId) (rule : Stepping) :
    (specify sequence rule).Grows s := by
  refine .get_bind (.lift_bind fun t found => .guard (fun absent => ?_) (by simp))
  exact .set (.specification (Arena.fetch_eq_ok_iff.1 found) (by simpa using absent))

theorem TimeInstant.atKey_grows (sequence : TimeSequenceId) (key : String) :
    (atKey sequence key).Grows s := by
  refine .get_bind (.lift_bind fun t found => ?_)
  cases unknown : known s sequence key with
  | some instant => exact .pure
  | none =>
    exact .lift_bind fun _ valid =>
      .set_bind (.timeInstant (Arena.fetch_eq_ok_iff.1 found) unknown valid) .pure

namespace TimeInterval

theorem between_grows (start stop : TimeInstantId) : (between start stop).Grows s := by
  refine .get_bind (.lift_bind fun a foundStart => .lift_bind fun b foundStop => ?_)
  refine .guard (fun common => .guard (fun distinct => ?_) (by simp)) (by simp)
  cases unknown : known s start stop with
  | some interval => exact .pure
  | none =>
    refine .lift_bind fun t found => ?_
    refine .bind (Scalar.abstract_grows _) fun duration mid run => ?_
    -- the duration is recorded first, so everything else is looked up again
    have later := (Scalar.abstract_grows _).extends run
    obtain ⟨change, bySym, byLin, c, foundDuration, value⟩ := Scalar.abstract_spec run
    obtain ⟨t', found', labels, -⟩ := later.timeSequences (Arena.fetch_eq_ok_iff.1 found)
    have unknown' : known mid start stop = none := by
      rcases change with rfl | rfl
      · exact unknown
      · exact unknown
    refine .get_bind (.set_bind (.timeInterval
      (later.timeInstants (Arena.fetch_eq_ok_iff.1 foundStart))
      (later.timeInstants (Arena.fetch_eq_ok_iff.1 foundStop)) (Decidable.not_not.1 common)
      distinct unknown' found' ?_ foundDuration value bySym byLin) .pure)
    rw [labels]

theorem atKeys_grows (sequence : TimeSequenceId) (startKey stopKey : String) :
    (atKeys sequence startKey stopKey).Grows s :=
  .bind (TimeInstant.atKey_grows _ _) fun _ _ _ =>
    .bind (TimeInstant.atKey_grows _ _) fun _ _ _ => between_grows _ _

end TimeInterval

end Variational
