import Variational.Proofs.Answers
import Variational.Proofs.RealScalars

/-!
# Instants, intervals and durations

Instants and intervals are told apart by what they are requested as, in every later session
too. An interval that is not known yet needs a scalar for its duration: its symbol is free
among intervals and scalars, its linguistic label reads as no number, so it is created unless an
abstract scalar has this label. Then the scalar is new, and no two intervals share it.
-/

namespace Variational

open Derive

variable {s s' : Session} {settings : Settings}

/-! ## Abstract scalars -/

namespace Scalar

variable {labels : Labels}

/-- An abstract scalar is asked for by labels that are checked first. -/
theorem abstract_of_valid (valid : labels.validate .scalar = .ok ())
    (sym : isNumberLabel labels.sym = false) (lin : isNumberLabel labels.lin = false) :
    abstract labels s = register labels none s := by
  rw [abstract, lift_bind_of_ok valid]
  simp [sym, lin]

/-- Under a symbol that is free, a new scalar is recorded if the linguistic label is free too. -/
theorem register_of_symbol (free : s.scalarLabels.hasSym labels.sym = false)
    (value : Option Float) : register labels value s =
      if s.scalarLabels.hasLin labels.lin = true then
        .error (.rejected (.identityConflict .scalar labels.lin)) s
      else
        .ok s.scalars.nextId (s.addRootScalar labels value) := by
  have unfound : s.scalarLabels.bySym? labels.sym = none := by
    simpa [LabelIndex.hasSym] using free
  rw [register, get_bind, unfound]
  by_cases taken : s.scalarLabels.hasLin labels.lin = true
  · have refused : s.scalarLabels.checkAvailable labels =
        reject (.identityConflict .scalar labels.lin) := by
      rw [LabelIndex.checkAvailable, if_neg (by simp [free]), if_pos taken]
    rw [if_pos taken, refused]
    rfl
  · rw [if_neg taken]
    exact lift_bind_of_ok (LabelIndex.checkAvailable_eq_ok.2 ⟨free, by simpa using taken⟩) _

end Scalar

/-! ## Sequences of instants -/

namespace Session

/-- The labels of sequences are valid, and instants are those of a sequence of the session. -/
structure Sequenced (s : Session) : Prop where
  valid : ∀ {id t}, s.timeSequences.get? id = some t → t.labels.validate .timeSequence = .ok ()
  held : ∀ {id i}, s.timeInstants.get? id = some i →
    ∃ t, s.timeSequences.get? i.sequence = some t

theorem Sequenced.step (sequenced : s.Sequenced) (step : s.Step s') : s'.Sequenced := by
  have later := step.extends
  have old : ∀ {i : TimeInstant}, (∃ t, s.timeSequences.get? i.sequence = some t) →
      ∃ t, s'.timeSequences.get? i.sequence = some t := by
    rintro i ⟨t, found⟩
    obtain ⟨t', found', -⟩ := later.timeSequences found
    exact ⟨t', found'⟩
  cases step with
  | timeSequence valid =>
    refine ⟨fun found => ?_, fun found => old (sequenced.held found)⟩
    rcases Arena.get?_push_cases found with before | ⟨-, rfl⟩
    · exact sequenced.valid before
    · exact valid
  | @specification id t rule found =>
    refine ⟨@fun id' t' found' => ?_, fun found => old (sequenced.held found)⟩
    change (s.timeSequences.set id _).get? id' = some t' at found'
    rw [Arena.get?_set found] at found'
    split at found'
    · cases found'
      have kept := sequenced.valid found
      exact kept
    · exact sequenced.valid found'
  | timeInstant foundSequence =>
    refine ⟨fun found => sequenced.valid found, fun found => ?_⟩
    rcases Arena.get?_push_cases found with before | ⟨-, rfl⟩
    · exact old (sequenced.held before)
    · exact ⟨_, foundSequence⟩
  | _ => exact ⟨fun found => sequenced.valid found, fun found => sequenced.held found⟩

theorem Reachable.sequenced (reachable : Reachable settings s) : s.Sequenced :=
  reachable.invariant ⟨nofun, nofun⟩ fun sequenced step => sequenced.step step

/-- An abstract root scalar has a linguistic label. -/
def AbstractLin (s : Session) (lin : String) : Prop :=
  ∃ id c, s.scalars.get? id = some c ∧ c.value = none ∧ c.pureLin = some lin

/-- A root scalar with a bracket in its label is abstract. -/
theorem Reachable.abstract_of_bracket (reachable : Reachable settings s) {id : ScalarId}
    {c : Scalar} {lin : String} (found : s.scalars.get? id = some c)
    (pure : c.pureLin = some lin) (bracket : '[' ∈ lin.toList) : c.value = none := by
  cases real : c.value with
  | none => rfl
  | some x =>
    have named := (reachable.scalarsNamed found).1 lin pure
    rw [real] at named
    obtain ⟨finite, labels⟩ := named
    have reads := (Scalar.isNumberLabel_numberLabels finite).2
    rw [← labels, Scalar.isNumberLabel_eq_false bracket (by simp [Decimal.Numeric, Decimal.marks])
      (by decide)] at reads
    cases reads

theorem Reachable.hasLin_iff_abstract (reachable : Reachable settings s) {lin : String}
    (bracket : '[' ∈ lin.toList) : s.scalarLabels.hasLin lin = true ↔ s.AbstractLin lin := by
  rw [reachable.indexed.scalars.hasLin_iff]
  constructor
  · rintro ⟨id, c, labels, found, named, rfl⟩
    obtain ⟨lin, pure, rfl⟩ := Option.map_eq_some_iff.1 named
    exact ⟨id, c, found, reachable.abstract_of_bracket found pure bracket, pure⟩
  · rintro ⟨id, c, found, -, pure⟩
    exact ⟨id, c, ⟨c.sym, lin⟩, found, by rw [Scalar.rootLabels?, pure]; rfl, rfl⟩

end Session

/-! ## New intervals -/

namespace TimeInterval

variable {t : TimeSequence} {a b : TimeInstant} {start stop : TimeInstantId} {i : TimeIntervalId}

/-- The linguistic label of the interval between two instants of a sequence. -/
def linBetween (t : TimeSequence) (a b : TimeInstant) : String :=
  s!"{t.labels.lin}[{a.key},{b.key}]"

/-- The labels of a new interval and of the scalar of its duration. -/
def newLabels (s : Session) (t : TimeSequence) (a b : TimeInstant) : Labels :=
  ⟨freeSym s, linBetween t a b⟩

/-- The session with a new interval and the scalar of its duration. -/
def added (s : Session) (t : TimeSequence) (start stop : TimeInstantId) (a b : TimeInstant) :
    Session :=
  (s.addRootScalar (newLabels s t a b) none).addTimeInterval
    ⟨a.sequence, start, stop, newLabels s t a b, s.scalars.nextId⟩

theorem mem_linBetween {c : Char} : c ∈ (linBetween t a b).toList ↔
    c ∈ t.labels.lin.toList ∨ c ∈ a.key.toList ∨ c ∈ b.key.toList ∨ c ∈ ['[', ',', ']'] := by
  simp only [linBetween, toString, String.toList_append, List.mem_append]
  simp only [String.reduceToList, List.mem_cons]
  tauto

theorem bracket_mem_linBetween (t : TimeSequence) (a b : TimeInstant) :
    '[' ∈ (linBetween t a b).toList :=
  mem_linBetween.2 (by simp)

/-- The default symbol of intervals begins the symbol of every new interval. -/
theorem mem_freeSym (default : s.settings = {}) {c : Char}
    (member : c ∈ ({} : DefaultLabels).timeIntervalSym.toList) : c ∈ (freeSym s).toList := by
  rw [freeSym, default, Labels.numberedSym]
  dsimp only
  split
  · exact member
  · simp only [toString, String.toList_append, List.mem_append]
    exact Or.inl (Or.inl (Or.inl member))

/-- The labels of a new interval are valid labels of an abstract scalar. -/
theorem validate_newLabels (reachable : Session.Reachable {} s)
    (foundStart : s.timeInstants.get? start = some a)
    (foundStop : s.timeInstants.get? stop = some b)
    (found : s.timeSequences.get? a.sequence = some t) :
    (newLabels s t a b).validate .scalar = .ok () := by
  have symbol : 'D' ∈ (newLabels s t a b).sym.toList :=
    mem_freeSym reachable.settings_eq (by decide)
  refine Labels.validate_eq_ok.2 ⟨List.all_eq_false.2 ⟨'D', symbol, by decide⟩, ?_, ?_⟩
  · exact List.ne_nil_of_mem (bracket_mem_linBetween t a b)
  · intro c member reserved
    have unkeyed : ∀ c ∈ Labels.reservedCharacters,
        c ∈ TimeInstant.reservedCharacters ∧ c ∉ ['[', ',', ']'] := by
      simp [Labels.reservedCharacters, TimeInstant.reservedCharacters]
    rcases mem_linBetween.1 member with sequence | first | second | other
    · exact Labels.not_mem_of_validate (reachable.sequenced.valid found) reserved sequence
    · exact not_mem_of_validateKey (reachable.labelled.keys foundStart) (unkeyed c reserved).1 first
    · exact not_mem_of_validateKey (reachable.labelled.keys foundStop) (unkeyed c reserved).1 second
    · exact (unkeyed c reserved).2 other

/-- What a request for an interval that is not known gives. -/
theorem between_of_unknown (reachable : Session.Reachable {} s)
    (foundStart : s.timeInstants.get? start = some a)
    (foundStop : s.timeInstants.get? stop = some b) (common : a.sequence = b.sequence)
    (distinct : start ≠ stop) (found : s.timeSequences.get? a.sequence = some t)
    (unknown : known s start stop = none) : between start stop s =
      if s.scalarLabels.hasLin (linBetween t a b) = true then
        .error (.rejected (.identityConflict .scalar (linBetween t a b))) s
      else
        .ok s.timeIntervals.nextId (added s t start stop a b) := by
  have fetchedStart : s.timeInstant start = .ok a := Arena.fetch_eq_ok_iff.2 foundStart
  have fetchedStop : s.timeInstant stop = .ok b := Arena.fetch_eq_ok_iff.2 foundStop
  have fetched : s.timeSequence a.sequence = .ok t := Arena.fetch_eq_ok_iff.2 found
  -- the symbol has a letter that no number has, and the linguistic label a bracket
  have sym : Scalar.isNumberLabel (newLabels s t a b).sym = false :=
    Scalar.isNumberLabel_eq_false (mem_freeSym reachable.settings_eq (c := 'D') (by decide))
      (by simp [Decimal.Numeric, Decimal.marks]) (by decide)
  have lin : Scalar.isNumberLabel (newLabels s t a b).lin = false :=
    Scalar.isNumberLabel_eq_false (bracket_mem_linBetween t a b)
      (by simp [Decimal.Numeric, Decimal.marks]) (by decide)
  have registered := (Scalar.abstract_of_valid (s := s)
    (validate_newLabels reachable foundStart foundStop found) sym lin).trans
      (Scalar.register_of_symbol (freeSym_free s).2 none)
  rw [between, get_bind, lift_bind_of_ok fetchedStart, lift_bind_of_ok fetchedStop,
    if_neg (not_not.2 common), if_neg distinct, unknown]
  dsimp only
  rw [lift_bind_of_ok fetched]
  by_cases taken : s.scalarLabels.hasLin (linBetween t a b) = true
  · rw [if_pos taken]
    exact bind_of_error (registered.trans (if_pos taken)) _
  · rw [if_neg taken]
    exact bind_of_ok (registered.trans (if_neg taken)) _

/-- A new interval has a new scalar, with a symbol that nothing has. -/
theorem between_spec_of_new (reachable : Session.Reachable {} s)
    (new : s.timeIntervals.get? i = none) (run : between start stop s = .ok i s') :
    ∃ x, s'.timeIntervals.get? i = some x ∧ s.scalars.get? x.duration = none ∧
      ¬ s.scalars.UsesSym Scalar.rootLabels? x.labels.sym ∧
      ¬ s.timeIntervals.UsesSym (some ∘ TimeInterval.labels) x.labels.sym := by
  have asked := run
  simp only [between, get_bind, bind_eq_ok, lift_eq_ok] at run
  obtain ⟨a, _, ⟨foundStart, rfl⟩, b, _, ⟨foundStop, rfl⟩, run⟩ := run
  rw [guard_eq_ok, guard_eq_ok] at run
  obtain ⟨common, distinct, run⟩ := run
  have startHeld := Arena.fetch_eq_ok_iff.1 foundStart
  obtain ⟨t, found⟩ := reachable.sequenced.held startHeld
  cases unknown : known s start stop with
  | some present =>
    rw [unknown] at run
    obtain ⟨rfl, rfl⟩ := pure_eq_ok.1 run
    obtain ⟨x, held, -⟩ := Arena.find?_eq_some unknown
    cases new.symm.trans held
  | none =>
    rw [between_of_unknown reachable startHeld (Arena.fetch_eq_ok_iff.1 foundStop)
      (not_not.1 common) distinct found unknown] at asked
    split at asked
    · cases asked
    cases asked
    have free := freeSym_free s
    refine ⟨_, Arena.get?_push_nextId, ?_, ?_, ?_⟩
    · exact Arena.get?_eq_none_iff.2 le_rfl
    · rw [← reachable.indexed.scalars.hasSym_iff]
      simp [newLabels, free.2]
    · rw [← reachable.indexed.timeIntervals.hasSym_iff]
      simp [newLabels, free.1]

/-- Whether a request for an interval is answered. -/
theorem between_answers (reachable : Session.Reachable {} s)
    (foundStart : s.timeInstants.get? start = some a)
    (foundStop : s.timeInstants.get? stop = some b) (common : a.sequence = b.sequence)
    (distinct : start ≠ stop) (found : s.timeSequences.get? a.sequence = some t) :
    ((known s start stop).isSome ∨ ¬ s.AbstractLin (linBetween t a b) →
      ∃ i s', between start stop s = .ok i s') ∧
    (known s start stop = none → s.AbstractLin (linBetween t a b) →
      between start stop s =
        .error (.rejected (.identityConflict .scalar (linBetween t a b))) s) := by
  have taken := reachable.hasLin_iff_abstract (bracket_mem_linBetween t a b)
  cases unknown : known s start stop with
  | some i =>
    refine ⟨fun _ => ⟨i, s, ?_⟩, nofun⟩
    have fetchedStart : s.timeInstant start = .ok a := Arena.fetch_eq_ok_iff.2 foundStart
    have fetchedStop : s.timeInstant stop = .ok b := Arena.fetch_eq_ok_iff.2 foundStop
    rw [between, get_bind, lift_bind_of_ok fetchedStart, lift_bind_of_ok fetchedStop,
      if_neg (not_not.2 common), if_neg distinct, unknown]
    rfl
  | none =>
    rw [between_of_unknown reachable foundStart foundStop common distinct found unknown]
    refine ⟨fun free => ⟨_, _, if_neg fun label => ?_⟩, fun _ label => if_pos (taken.2 label)⟩
    exact free.elim (by simp) fun unlabelled => unlabelled (taken.1 label)

/-- In later sessions too, no other end points give the same interval. -/
theorem between_inj (first : between start stop s = .ok i s') {last t : Session}
    (later : s'.Steps last) {start' stop' : TimeInstantId} {j : TimeIntervalId}
    (second : between start' stop' last = .ok j t) :
    i = j ↔ start = start' ∧ stop = stop' := by
  constructor
  · rintro rfl
    obtain ⟨x, found, starts, stops⟩ := between_spec first
    obtain ⟨y, found', starts', stops'⟩ := between_spec second
    have kept := (later.extends.trans ((between_grows _ _).extends second)).timeIntervals found
    cases kept.symm.trans found'
    exact ⟨starts.symm.trans starts', stops.symm.trans stops'⟩
  · rintro ⟨rfl, rfl⟩
    cases (between_settled first last later).symm.trans second
    rfl

end TimeInterval

/-- In later sessions too, no other sequence or key gives the same instant. -/
theorem TimeInstant.atKey_inj {sequence sequence' : TimeSequenceId} {key key' : String}
    {i j : TimeInstantId} (first : atKey sequence key s = .ok i s') {last t : Session}
    (later : s'.Steps last) (second : atKey sequence' key' last = .ok j t) :
    i = j ↔ sequence = sequence' ∧ key = key' := by
  constructor
  · rintro rfl
    obtain ⟨x, found, same, keys⟩ := atKey_spec first
    obtain ⟨y, found', same', keys'⟩ := atKey_spec second
    have kept := (later.extends.trans ((atKey_grows _ _).extends second)).timeInstants found
    cases kept.symm.trans found'
    exact ⟨same.symm.trans same', keys.symm.trans keys'⟩
  · rintro ⟨rfl, rfl⟩
    cases (atKey_settled first last later).symm.trans second
    rfl

/-! ## Durations -/

namespace Session

/-- The duration of an interval is the abstract scalar with its labels. -/
theorem Reachable.duration_labelled (reachable : Reachable settings s) {i : TimeIntervalId}
    {x : TimeInterval} (found : s.timeIntervals.get? i = some x) :
    s.ScalarHas x.duration fun c =>
      c.value = none ∧ c.sym = x.labels.sym ∧ c.pureLin = some x.labels.lin := by
  obtain ⟨_, _, _, -, -, -, -, -, -, bySym, byLin⟩ := reachable.labelled.named found
  obtain ⟨c, labels, foundScalar, named, sym⟩ := (reachable.indexed.scalars.bySym _ _).1 bySym
  obtain ⟨c', labels', foundScalar', named', lin'⟩ :=
    (reachable.indexed.scalars.byLin _ _).1 byLin
  cases foundScalar.symm.trans foundScalar'
  cases named.symm.trans named'
  obtain ⟨_, pure, rfl⟩ := Option.map_eq_some_iff.1 named
  have root : c.pureLin = some x.labels.lin := pure.trans (congrArg some lin')
  exact ⟨c, foundScalar, (reachable.duration_abstract found).of_found foundScalar, sym, root⟩

/-- Intervals share neither a symbol nor a duration. -/
theorem Reachable.interval_eq_of_shared (reachable : Reachable settings s) {i j : TimeIntervalId}
    {x y : TimeInterval} (found : s.timeIntervals.get? i = some x)
    (found' : s.timeIntervals.get? j = some y)
    (shared : x.duration = y.duration ∨ x.labels.sym = y.labels.sym) : i = j := by
  refine reachable.indexed.timeIntervals.eq_of_shared found found' rfl rfl (Or.inl ?_)
  rcases shared with same | same
  · obtain ⟨c, foundScalar, -, sym, -⟩ := reachable.duration_labelled found
    obtain ⟨c', foundScalar', -, sym', -⟩ := reachable.duration_labelled found'
    rw [← same] at foundScalar'
    cases foundScalar.symm.trans foundScalar'
    exact sym.symm.trans sym'
  · exact same

/-- How instants, intervals and durations are told apart. -/
structure TimesApart (s : Session) : Prop where
  instants : ∀ {sequence key i after}, TimeInstant.atKey sequence key s = .ok i after →
    ∀ requests {sequence' key' j last},
      TimeInstant.atKey sequence' key' (after.afterAll requests) = .ok j last →
        (i = j ↔ sequence = sequence' ∧ key = key')
  intervals : ∀ {start stop i after}, TimeInterval.between start stop s = .ok i after →
    ∀ requests {start' stop' j last},
      TimeInterval.between start' stop' (after.afterAll requests) = .ok j last →
        (i = j ↔ start = start' ∧ stop = stop')
  answers : ∀ {start stop a b}, s.timeInstants.get? start = some a →
    s.timeInstants.get? stop = some b → a.sequence = b.sequence → start ≠ stop →
      ∃ t, s.timeSequences.get? a.sequence = some t ∧
        ((TimeInterval.known s start stop).isSome ∨
            ¬ s.AbstractLin (TimeInterval.linBetween t a b) →
          ∃ i after, TimeInterval.between start stop s = .ok i after) ∧
        (TimeInterval.known s start stop = none →
          s.AbstractLin (TimeInterval.linBetween t a b) →
            TimeInterval.between start stop s = .error (.rejected
              (.identityConflict .scalar (TimeInterval.linBetween t a b))) s)
  created : ∀ {start stop i after}, TimeInterval.between start stop s = .ok i after →
    s.timeIntervals.get? i = none →
      ∃ x, after.timeIntervals.get? i = some x ∧ s.scalars.get? x.duration = none ∧
        ¬ s.scalars.UsesSym Scalar.rootLabels? x.labels.sym ∧
        ¬ s.timeIntervals.UsesSym (some ∘ TimeInterval.labels) x.labels.sym
  durations : ∀ {i x}, s.timeIntervals.get? i = some x → s.ScalarHas x.duration fun c =>
    c.value = none ∧ c.sym = x.labels.sym ∧ c.pureLin = some x.labels.lin
  distinct : ∀ {i j x y}, s.timeIntervals.get? i = some x → s.timeIntervals.get? j = some y →
    i ≠ j → x.duration ≠ y.duration ∧ x.labels.sym ≠ y.labels.sym

/-- In a session with the default settings, instants are known by their sequence and key and
intervals by their end points, for all later requests too. Two instants of a sequence have an
interval unless an abstract scalar has its label before. A new interval comes with a new abstract
scalar and a symbol that no scalar and no interval had, and no two intervals share them. -/
theorem Reachable.times_apart (reachable : Reachable {} s) : s.TimesApart where
  instants first requests := TimeInstant.atKey_inj first (afterAll_steps _ requests)
  intervals first requests := TimeInterval.between_inj first (afterAll_steps _ requests)
  answers foundStart foundStop common distinct := by
    obtain ⟨t, found⟩ := reachable.sequenced.held foundStart
    exact ⟨t, found,
      TimeInterval.between_answers reachable foundStart foundStop common distinct found⟩
  created run new := TimeInterval.between_spec_of_new reachable new run
  durations found := reachable.duration_labelled found
  distinct found found' different :=
    ⟨fun same => different (reachable.interval_eq_of_shared found found' (Or.inl same)),
      fun same => different (reachable.interval_eq_of_shared found found' (Or.inr same))⟩

/-- Scalars that a user labelled like intervals do not get in the way of their symbols. The label
of one interval is taken, while its reverse has the symbol behind those of the user. -/
theorem times_apart_labelled : ∃ s, Reachable {} s ∧ s.TimesApart ∧
    s.timeIntervals.get? ⟨0⟩ =
      some ⟨⟨0⟩, ⟨1⟩, ⟨0⟩, ⟨"\\Delta t_\x7b2\x7d", "Ts[k,k-1]"⟩, ⟨2⟩⟩ ∧
    TimeInterval.between ⟨0⟩ ⟨1⟩ s =
      .error (.rejected (.identityConflict .scalar "Ts[k-1,k]")) s ∧
    ∃ i after, TimeInterval.between ⟨1⟩ ⟨2⟩ s = .ok i after := by
  obtain ⟨s, reachable, present, before, now, next, sequence, taken, free, unknown⟩ :
      ∃ s, Reachable {} s ∧ s.timeIntervals.get? ⟨0⟩ =
          some ⟨⟨0⟩, ⟨1⟩, ⟨0⟩, ⟨"\\Delta t_\x7b2\x7d", "Ts[k,k-1]"⟩, ⟨2⟩⟩ ∧
        s.timeInstants.get? ⟨0⟩ = some ⟨⟨0⟩, "k-1", ⟨"T[k-1]", "Ts[k-1]"⟩⟩ ∧
        s.timeInstants.get? ⟨1⟩ = some ⟨⟨0⟩, "k", ⟨"T[k]", "Ts[k]"⟩⟩ ∧
        s.timeInstants.get? ⟨2⟩ = some ⟨⟨0⟩, "k+1", ⟨"T[k+1]", "Ts[k+1]"⟩⟩ ∧
        (s.timeSequences.get? ⟨0⟩).map (·.labels.lin) = some "Ts" ∧
        s.scalarLabels.hasLin "Ts[k-1,k]" = true ∧ s.scalarLabels.hasLin "Ts[k,k+1]" = false ∧
        TimeInterval.known s ⟨0⟩ ⟨1⟩ = none :=
    ⟨Request.performAll {} [.scalar ⟨"\\Delta t", "dt"⟩,
      .scalar ⟨"\\Delta t_\x7b1\x7d", "Ts[k-1,k]"⟩, .sequenceAs ⟨"T", "Ts"⟩,
      .instant ⟨0⟩ "k-1", .instant ⟨0⟩ "k", .instant ⟨0⟩ "k+1", .interval ⟨1⟩ ⟨0⟩],
      .performAll {} _, by decide +kernel⟩
  have laws := reachable.times_apart
  have named {t : TimeSequence} (found : s.timeSequences.get? ⟨0⟩ = some t) :
      t.labels.lin = "Ts" := by
    simpa [found] using sequence
  obtain ⟨t, found, -, refused⟩ := laws.answers before now rfl (by decide)
  obtain ⟨t', found', answered, -⟩ := laws.answers now next rfl (by decide)
  have label : TimeInterval.linBetween t ⟨⟨0⟩, "k-1", ⟨"T[k-1]", "Ts[k-1]"⟩⟩
      ⟨⟨0⟩, "k", ⟨"T[k]", "Ts[k]"⟩⟩ = "Ts[k-1,k]" := by
    rw [TimeInterval.linBetween, named found]
    rfl
  have label' : TimeInterval.linBetween t' ⟨⟨0⟩, "k", ⟨"T[k]", "Ts[k]"⟩⟩
      ⟨⟨0⟩, "k+1", ⟨"T[k+1]", "Ts[k+1]"⟩⟩ = "Ts[k,k+1]" := by
    rw [TimeInterval.linBetween, named found']
    rfl
  rw [label] at refused
  rw [label'] at answered
  refine ⟨s, reachable, laws, present, refused unknown ?_, answered (Or.inr fun label => ?_)⟩
  · exact (reachable.hasLin_iff_abstract (by decide)).1 taken
  · simp [(reachable.hasLin_iff_abstract (by decide)).2 label] at free

end Session

end Variational
