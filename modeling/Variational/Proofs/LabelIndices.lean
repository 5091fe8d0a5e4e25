import Variational.Proofs.ArrayLabels
import Variational.Proofs.Session.Distinct

/-!
# Exact label indices

An index of a session lists exactly the root entities of its kind, each under its own
labels, and no two of them share a label. Most labels are checked before they are
recorded. Those of an interval are not: its linguistic label tells between which instants
it is, and its symbol belongs to the scalar that stands for its duration, so an interval
that is not known yet has new labels.
-/

namespace Variational

open Relation

/-! ## Labelled entities of an arena -/

namespace Arena

variable {kind : EntityKind} {α : Type} {arena arena' : Arena kind α} {labels? : α → Option Labels}
  {id : EntityId kind} {x y : α} {labels : Labels}

/-- The labels of the labelled entities of an arena with their ids, in the order of creation. -/
def labelled (arena : Arena kind α) (labels? : α → Option Labels) :
    List (Labels × EntityId kind) :=
  (arena.entities.map labels?).zipIdx.filterMap fun entry =>
    entry.1.map fun labels => (labels, ⟨entry.2⟩)

theorem mem_labelled : (labels, id) ∈ arena.labelled labels? ↔
    ∃ x, arena.get? id = some x ∧ labels? x = some labels := by
  simp only [labelled, List.mem_filterMap, Option.map_eq_some_iff, Prod.exists,
    List.mk_mem_zipIdx_iff_getElem?, List.getElem?_map, Prod.mk.injEq]
  constructor
  · rintro ⟨_, _, ⟨x, found, rfl⟩, _, named, rfl, rfl⟩
    exact ⟨x, found, named⟩
  · rintro ⟨x, found, named⟩
    exact ⟨_, id.index, ⟨x, found, rfl⟩, labels, named, rfl, rfl⟩

theorem labelled_push : (arena.push x).labelled labels? =
    arena.labelled labels? ++ (labels? x).toList.map fun labels => (labels, arena.nextId) := by
  cases named : labels? x <;> simp [labelled, push, List.zipIdx_append, named, nextId, size]

/-- Exchanging an entity for one with the same labels keeps the labels. -/
theorem map_set {β : Type} {f : α → β} (found : arena.get? id = some x) (same : f y = f x) :
    (arena.set id y).entities.map f = arena.entities.map f := by
  obtain ⟨held, rfl⟩ := List.getElem?_eq_some_iff.1 found
  rw [set, List.map_set, same, ← List.getElem_map f (h := by simpa using held),
    List.set_getElem_self]

/-- An entity with a symbolic label. -/
def UsesSym (arena : Arena kind α) (labels? : α → Option Labels) (sym : String) : Prop :=
  ∃ id x labels, arena.get? id = some x ∧ labels? x = some labels ∧ labels.sym = sym

/-- An entity with a linguistic label. -/
def UsesLin (arena : Arena kind α) (labels? : α → Option Labels) (lin : String) : Prop :=
  ∃ id x labels, arena.get? id = some x ∧ labels? x = some labels ∧ labels.lin = lin

end Arena

/-! ## Exact indices -/

namespace LabelIndex

variable {kind : EntityKind} {α : Type} {index index' : LabelIndex kind}
  {arena arena' : Arena kind α} {labels? : α → Option Labels} {id : EntityId kind} {x : α}
  {labels : Labels}

/-- What is found under a key that no two entries share. -/
theorem find?_map_eq_some_iff {β : Type} {entries : List (Labels × β)} {key : Labels → String}
    (distinct : (entries.map (key ·.1)).Nodup) {text : String} {b : β} :
    (entries.find? (key ·.1 = text)).map (·.2) = some b ↔
      ∃ labels, (labels, b) ∈ entries ∧ key labels = text := by
  rw [Option.map_eq_some_iff]
  constructor
  · rintro ⟨⟨labels, b⟩, first, rfl⟩
    exact ⟨labels, List.mem_of_find?_eq_some first, by simpa using List.find?_some first⟩
  · rintro ⟨labels, member, rfl⟩
    cases first : entries.find? (key ·.1 = key labels) with
    | none => simpa using List.find?_eq_none.1 first _ member
    | some entry =>
      have same : key entry.1 = key labels := by simpa using List.find?_some first
      refine ⟨entry, rfl, ?_⟩
      rw [List.inj_on_of_nodup_map distinct (List.mem_of_find?_eq_some first) member same]

/-- An index has one entry for each labelled entity of an arena, and a label leads to the entity
that has it. So no two entities share a label. -/
structure Exact (index : LabelIndex kind) (arena : Arena kind α) (labels? : α → Option Labels) :
    Prop where
  entries : index.entries = arena.labelled labels?
  bySym : ∀ sym id, index.bySym? sym = some id ↔
    ∃ x labels, arena.get? id = some x ∧ labels? x = some labels ∧ labels.sym = sym
  byLin : ∀ lin id, index.byLin? lin = some id ↔
    ∃ x labels, arena.get? id = some x ∧ labels? x = some labels ∧ labels.lin = lin
  size : index.size = arena.entities.countP fun x => (labels? x).isSome

/-- An index lists the labelled entities of an arena, and repeats no label. -/
structure Lists (index : LabelIndex kind) (arena : Arena kind α) (labels? : α → Option Labels) :
    Prop where
  entries : index.entries = arena.labelled labels?
  distinctSym : (index.entries.map (·.1.sym)).Nodup
  distinctLin : (index.entries.map (·.1.lin)).Nodup

namespace Lists

theorem empty : (⟨[]⟩ : LabelIndex kind).Lists (⟨[]⟩ : Arena kind α) labels? :=
  ⟨rfl, List.nodup_nil, List.nodup_nil⟩

theorem of_records {labelsOf : α → Labels} (records : index.Records arena labelsOf) :
    index.Lists arena (some ∘ labelsOf) where
  entries := by
    rw [records.entries, Arena.labelled, List.mapIdx_eq_zipIdx_map, List.zipIdx_map,
      List.filterMap_map, ← List.filterMap_eq_map]
    rfl
  distinctSym := by
    rw [records.map_entries Labels.sym]
    exact records.distinctSym
  distinctLin := by
    rw [records.map_entries Labels.lin]
    exact records.distinctLin

/-- A new entity with free labels is recorded. -/
theorem push (lists : index.Lists arena labels?) (named : labels? x = some labels)
    (available : index.Available labels) :
    (index.insert labels arena.nextId).Lists (arena.push x) labels? := by
  rw [LabelIndex.available_iff] at available
  refine ⟨?_, ?_, ?_⟩
  · rw [insert, lists.entries, Arena.labelled_push, named]
    rfl
  · rw [insert, List.map_append, List.map_singleton, ← List.concat_eq_append]
    exact lists.distinctSym.concat available.1
  · rw [insert, List.map_append, List.map_singleton, ← List.concat_eq_append]
    exact lists.distinctLin.concat available.2

/-- A new entity without labels is not recorded. -/
theorem push_unlabelled (lists : index.Lists arena labels?) (unnamed : labels? x = none) :
    index.Lists (arena.push x) labels? where
  entries := by
    rw [lists.entries, Arena.labelled_push, unnamed]
    simp
  distinctSym := lists.distinctSym
  distinctLin := lists.distinctLin

/-- Entities may change if they keep their labels. -/
theorem congr (lists : index.Lists arena labels?)
    (same : arena'.entities.map labels? = arena.entities.map labels?) :
    index.Lists arena' labels? where
  entries := by rw [lists.entries, Arena.labelled, Arena.labelled, same]
  distinctSym := lists.distinctSym
  distinctLin := lists.distinctLin

theorem mem_entries (lists : index.Lists arena labels?) : (labels, id) ∈ index.entries ↔
    ∃ x, arena.get? id = some x ∧ labels? x = some labels := by
  rw [lists.entries, Arena.mem_labelled]

/-- What is found under a key that no two entries share is the entity with that key. -/
theorem find?_eq_some_iff (lists : index.Lists arena labels?) {key : Labels → String}
    (distinct : (index.entries.map (key ·.1)).Nodup) {text : String} :
    (index.entries.find? (key ·.1 = text)).map (·.2) = some id ↔
      ∃ x labels, arena.get? id = some x ∧ labels? x = some labels ∧ key labels = text := by
  rw [find?_map_eq_some_iff distinct]
  constructor
  · rintro ⟨labels, member, same⟩
    obtain ⟨x, found, named⟩ := lists.mem_entries.1 member
    exact ⟨x, labels, found, named, same⟩
  · rintro ⟨x, labels, found, named, same⟩
    exact ⟨labels, lists.mem_entries.2 ⟨x, found, named⟩, same⟩

/-- An index that lists the labelled entities is exact. -/
theorem exact (lists : index.Lists arena labels?) : index.Exact arena labels? where
  entries := lists.entries
  bySym _ _ := lists.find?_eq_some_iff lists.distinctSym
  byLin _ _ := lists.find?_eq_some_iff lists.distinctLin
  size := by
    have firsts := congrArg (List.countP Option.isSome)
      (List.zipIdx_map_fst 0 (arena.entities.map labels?))
    rw [LabelIndex.size, lists.entries, Arena.labelled, List.length_filterMap_eq_countP]
    simpa only [List.countP_map, Function.comp_def, Option.isSome_map] using firsts

end Lists

namespace Exact

theorem hasSym_iff (exact : index.Exact arena labels?) {sym : String} :
    index.hasSym sym = true ↔ arena.UsesSym labels? sym := by
  simp only [hasSym, Option.isSome_iff_exists, exact.bySym, Arena.UsesSym]

theorem hasLin_iff (exact : index.Exact arena labels?) {lin : String} :
    index.hasLin lin = true ↔ arena.UsesLin labels? lin := by
  simp only [hasLin, Option.isSome_iff_exists, exact.byLin, Arena.UsesLin]

/-- No two entities share a label. -/
theorem eq_of_shared (exact : index.Exact arena labels?) {id id' : EntityId kind} {x x' : α}
    {labels labels' : Labels} (found : arena.get? id = some x) (found' : arena.get? id' = some x')
    (named : labels? x = some labels) (named' : labels? x' = some labels')
    (shared : labels.sym = labels'.sym ∨ labels.lin = labels'.lin) : id = id' := by
  rcases shared with same | same
  · have here := (exact.bySym _ _).2 ⟨x, labels, found, named, same⟩
    have there := (exact.bySym _ _).2 ⟨x', labels', found', named', rfl⟩
    exact Option.some.inj (here.symm.trans there)
  · have here := (exact.byLin _ _).2 ⟨x, labels, found, named, same⟩
    have there := (exact.byLin _ _).2 ⟨x', labels', found', named', rfl⟩
    exact Option.some.inj (here.symm.trans there)

end Exact

/-- An index becomes another one by insertions, each of labels that are free then. -/
def Inserts : LabelIndex kind → LabelIndex kind → Prop :=
  ReflTransGen fun index index' =>
    ∃ labels id, index.Available labels ∧ index' = index.insert labels id

end LabelIndex

/-! ## Labels of root entities -/

/-- The labels of a root form. -/
def Form.rootLabels? (f : Form) : Option Labels :=
  f.pureLin.map (⟨f.sym, ·⟩)

/-- The labels of a root scalar. -/
def Scalar.rootLabels? (c : Scalar) : Option Labels :=
  c.pureLin.map (⟨c.sym, ·⟩)

/-! ## Labels of intervals -/

namespace TimeInterval

variable {lin lin₁ a a₁ b b₁ key : String}

theorem not_mem_of_validateKey {c : Char} (valid : TimeInstant.validateKey key = .ok ())
    (reserved : c ∈ TimeInstant.reservedCharacters) : c ∉ key.toList := by
  intro member
  rw [TimeInstant.validateKey] at valid
  split at valid
  · simp at valid
  · rename_i accepted
    refine accepted (Or.inr (List.any_eq_true.2 ⟨c, member, ?_⟩))
    simp [reserved]

/-- The symbol of a new interval is the first variant that neither an interval nor a scalar has. Its
number is at most the number of symbols that they have. -/
theorem freeSym_isLeast (s : Session) :
    ∃ n, freeSym s = Labels.numberedSym s.settings.conventions.defaults.timeIntervalSym n ∧
      IsLeast {n | s.timeIntervalLabels.hasSym
          (Labels.numberedSym s.settings.conventions.defaults.timeIntervalSym n) = false ∧
        s.scalarLabels.hasSym
          (Labels.numberedSym s.settings.conventions.defaults.timeIntervalSym n) = false} n ∧
      n ≤ s.timeIntervalLabels.symCount + s.scalarLabels.symCount := by
  refine ⟨_, rfl, ?_⟩
  let numbered := Labels.numberedSym s.settings.conventions.defaults.timeIntervalSym
  have free : ∀ n, (!s.timeIntervalLabels.hasSym (numbered n) &&
      !s.scalarLabels.hasSym (numbered n)) = true ↔
        s.timeIntervalLabels.hasSym (numbered n) = false ∧
          s.scalarLabels.hasSym (numbered n) = false := by
    simp
  have injective : Function.Injective numbered := fun _ _ => Labels.numberedSym_injective
  have enough : (s.timeIntervalLabels.entries.map (·.1.sym)).length +
      (s.scalarLabels.entries.map (·.1.sym)).length ≤
        s.timeIntervalLabels.size + s.scalarLabels.size := by
    simp [LabelIndex.size]
  have search := isLeast_of_free injective injective enough fun n => (free n).trans (by
    rw [← LabelIndex.hasSym_iff, ← LabelIndex.hasSym_iff, Bool.not_eq_true, Bool.not_eq_true])
  simpa only [free, LabelIndex.symCount] using search

/-- The symbol of a new interval is free for the interval and for its duration. -/
theorem freeSym_free (s : Session) :
    s.timeIntervalLabels.hasSym (freeSym s) = false ∧
      s.scalarLabels.hasSym (freeSym s) = false := by
  obtain ⟨n, same, least, -⟩ := freeSym_isLeast s
  rw [same]
  exact least.1

/-- The label of an interval tells the label of the sequence and both keys. -/
theorem lin_inj (valid : TimeInstant.validateKey a = .ok ())
    (valid₁ : TimeInstant.validateKey a₁ = .ok ()) (validStop : TimeInstant.validateKey b = .ok ())
    (validStop₁ : TimeInstant.validateKey b₁ = .ok ())
    (same : s!"{lin}[{a},{b}]" = s!"{lin₁}[{a₁},{b₁}]") : lin = lin₁ ∧ a = a₁ ∧ b = b₁ := by
  -- read from the end, the last key stops at the comma and the first one at the bracket
  have texts := congrArg (List.reverse ∘ String.toList) same
  simp only [Function.comp_apply, String.toList_append, toString, List.reverse_append] at texts
  have bare : ∀ {key : String} {c : Char}, TimeInstant.validateKey key = .ok () →
      c ∈ TimeInstant.reservedCharacters → ∀ d ∈ key.toList.reverse, decide (d ≠ c) = true := by
    intro key c valid reserved d member
    refine decide_eq_true fun equal => not_mem_of_validateKey valid reserved ?_
    exact equal ▸ List.mem_reverse.1 member
  obtain ⟨stops, -, rest⟩ := Labels.append_cons_inj (p := fun d => decide (d ≠ ','))
    (bare validStop (by decide)) (bare validStop₁ (by decide)) (by decide) (by decide)
    (List.append_cancel_left texts)
  obtain ⟨starts, -, lins⟩ := Labels.append_cons_inj (p := fun d => decide (d ≠ '['))
    (bare valid (by decide)) (bare valid₁ (by decide)) (by decide) (by decide) rest
  exact ⟨String.toList_injective (List.reverse_injective lins),
    String.toList_injective (List.reverse_injective starts),
    String.toList_injective (List.reverse_injective stops)⟩

end TimeInterval

namespace Session

/-- The labels of an interval: its linguistic label tells the instants, and both labels are those
of its duration. -/
def IntervalNamed (s : Session) (i : TimeInterval) : Prop :=
  ∃ a b t, s.timeInstants.get? i.start = some a ∧ s.timeInstants.get? i.stop = some b ∧
    a.sequence = i.sequence ∧ b.sequence = i.sequence ∧
    s.timeSequences.get? i.sequence = some t ∧
    i.labels.lin = s!"{t.labels.lin}[{a.key},{b.key}]" ∧
    s.scalarLabels.bySym? i.labels.sym = some i.duration ∧
    s.scalarLabels.byLin? i.labels.lin = some i.duration

/-- The indices of forms, scalars, sequences and intervals are exact. -/
structure Labelled (s : Session) : Prop where
  forms : s.formLabels.Lists s.forms.toArena Form.rootLabels?
  scalars : s.scalarLabels.Lists s.scalars Scalar.rootLabels?
  timeSequences : s.timeSequenceLabels.Lists s.timeSequences (some ∘ TimeSequence.labels)
  keys : ∀ {id i}, s.timeInstants.get? id = some i → TimeInstant.validateKey i.key = .ok ()
  named : ∀ {id i}, s.timeIntervals.get? id = some i → s.IntervalNamed i
  timeIntervals : s.timeIntervalLabels.Lists s.timeIntervals (some ∘ TimeInterval.labels)

variable {s s' : Session} {settings : Settings}

theorem Step.intervalNamed (step : s.Step s') {i : TimeInterval} (named : s.IntervalNamed i) :
    s'.IntervalNamed i := by
  obtain ⟨a, b, t, foundStart, foundStop, start, stop, found, lin, bySym, byLin⟩ := named
  have later := step.extends
  obtain ⟨t', found', labels, -⟩ := later.timeSequences found
  exact ⟨a, b, t', later.timeInstants foundStart, later.timeInstants foundStop, start, stop, found',
    by rw [lin, labels], step.bySym?_scalar bySym, step.byLin?_scalar byLin⟩

namespace Labelled

/-- An interval with the linguistic label of the interval between two instants is between them. -/
theorem eq_of_lin (labelled : s.Labelled) (distinct : s.Distinct) {id : TimeIntervalId}
    {i : TimeInterval} {start stop : TimeInstantId} {a b : TimeInstant} {t : TimeSequence}
    (found : s.timeIntervals.get? id = some i) (foundStart : s.timeInstants.get? start = some a)
    (foundStop : s.timeInstants.get? stop = some b) (common : a.sequence = b.sequence)
    (foundSequence : s.timeSequences.get? a.sequence = some t)
    (same : i.labels.lin = s!"{t.labels.lin}[{a.key},{b.key}]") :
    i.start = start ∧ i.stop = stop := by
  obtain ⟨a', b', t', foundStart', foundStop', sequence, sequence', foundSequence', lin, -⟩ :=
    labelled.named found
  obtain ⟨lins, keys, keys'⟩ := TimeInterval.lin_inj (labelled.keys foundStart')
    (labelled.keys foundStart) (labelled.keys foundStop') (labelled.keys foundStop)
    (lin.symm.trans same)
  have sequences : i.sequence = a.sequence :=
    labelled.timeSequences.exact.eq_of_shared foundSequence' foundSequence rfl rfl (Or.inr lins)
  refine ⟨distinct.timeInstants _ _ _ _ foundStart' foundStart ⟨sequence.trans sequences, keys⟩,
    distinct.timeInstants _ _ _ _ foundStop' foundStop ⟨?_, keys'⟩⟩
  rw [sequence', sequences, common]

/-- The labels of an interval that is not known are free. -/
theorem available_of_unknown (labelled : s.Labelled) (distinct : s.Distinct)
    {start stop : TimeInstantId} {a b : TimeInstant} {t : TimeSequence} {duration : ScalarId}
    {labels : Labels} (foundStart : s.timeInstants.get? start = some a)
    (foundStop : s.timeInstants.get? stop = some b) (common : a.sequence = b.sequence)
    (unknown : TimeInterval.known s start stop = none)
    (found : s.timeSequences.get? a.sequence = some t)
    (named : labels.lin = s!"{t.labels.lin}[{a.key},{b.key}]")
    (durationSym : s.scalarLabels.bySym? labels.sym = some duration)
    (durationLin : s.scalarLabels.byLin? labels.lin = some duration) :
    s.timeIntervalLabels.Available labels := by
  have fresh : ∀ {id i}, s.timeIntervals.get? id = some i → i.labels.lin ≠ labels.lin := by
    intro id i foundInterval same
    have ends := labelled.eq_of_lin distinct foundInterval foundStart foundStop common found
      (same.trans named)
    exact of_decide_eq_false (Arena.find?_eq_none.1 unknown id i foundInterval) ends
  refine ⟨Bool.eq_false_iff.2 fun taken => ?_, Bool.eq_false_iff.2 fun taken => ?_⟩
  · -- an interval with the symbol would have the same duration, and so the same label
    obtain ⟨id, i, foundInterval, same⟩ :
        ∃ id i, s.timeIntervals.get? id = some i ∧ i.labels.sym = labels.sym := by
      simpa [Arena.UsesSym] using labelled.timeIntervals.exact.hasSym_iff.1 taken
    obtain ⟨_, _, _, -, -, -, -, -, -, bySym, byLin⟩ := labelled.named foundInterval
    have durations : i.duration = duration := by
      rw [same] at bySym
      exact Option.some.inj (bySym.symm.trans durationSym)
    rw [durations] at byLin
    obtain ⟨c, names, foundScalar, root, lin⟩ := (labelled.scalars.exact.byLin _ _).1 byLin
    obtain ⟨c', names', foundScalar', root', lin'⟩ :=
      (labelled.scalars.exact.byLin _ _).1 durationLin
    cases foundScalar.symm.trans foundScalar'
    cases root.symm.trans root'
    exact fresh foundInterval (lin.symm.trans lin')
  · obtain ⟨id, i, foundInterval, same⟩ :
        ∃ id i, s.timeIntervals.get? id = some i ∧ i.labels.lin = labels.lin := by
      simpa [Arena.UsesLin] using labelled.timeIntervals.exact.hasLin_iff.1 taken
    exact fresh foundInterval same

end Labelled

/-! ## The indices of reachable sessions -/

namespace Step

theorem labelledForms (step : s.Step s')
    (lists : s.formLabels.Lists s.forms.toArena Form.rootLabels?) :
    s'.formLabels.Lists s'.forms.toArena Form.rootLabels? := by
  cases step with
  | rootForm _ _ available => exact lists.push rfl available
  | evaluation _ _ _ _ _ _ available => exact lists.push rfl available
  | derivedForm _ _ _ unlabelled =>
    exact lists.push_unlabelled (by rw [Form.rootLabels?, unlabelled, Option.map_none])
  | _ => exact lists

theorem labelledScalars (step : s.Step s')
    (lists : s.scalarLabels.Lists s.scalars Scalar.rootLabels?) :
    s'.scalarLabels.Lists s'.scalars Scalar.rootLabels? := by
  cases step with
  | rootScalar _ available => exact lists.push rfl available
  | derivedScalar => exact lists.push_unlabelled rfl
  | _ => exact lists

theorem labelledSequences (step : s.Step s')
    (lists : s.timeSequenceLabels.Lists s.timeSequences (some ∘ TimeSequence.labels)) :
    s'.timeSequenceLabels.Lists s'.timeSequences (some ∘ TimeSequence.labels) := by
  cases step with
  | timeSequence _ available => exact lists.push rfl available
  | specification found => exact lists.congr (Arena.map_set found rfl)
  | _ => exact lists

theorem validKeys (step : s.Step s')
    (keys : ∀ {id i}, s.timeInstants.get? id = some i → TimeInstant.validateKey i.key = .ok ())
    {id : TimeInstantId} {i : TimeInstant} (found : s'.timeInstants.get? id = some i) :
    TimeInstant.validateKey i.key = .ok () := by
  cases step with
  | timeInstant _ _ valid =>
    rcases Arena.get?_push_cases found with old | ⟨rfl, rfl⟩
    · exact keys old
    · exact valid
  | _ => exact keys found

theorem intervalsNamed (step : s.Step s')
    (named : ∀ {id i}, s.timeIntervals.get? id = some i → s.IntervalNamed i)
    {id : TimeIntervalId} {i : TimeInterval} (found : s'.timeIntervals.get? id = some i) :
    s'.IntervalNamed i := by
  have later {i : TimeInterval} (named : s.IntervalNamed i) := step.intervalNamed named
  cases step with
  | timeInterval foundStart foundStop common _ _ foundSequence lin _ _ bySym byLin =>
    rcases Arena.get?_push_cases found with old | ⟨rfl, rfl⟩
    · exact later (named old)
    · exact later ⟨_, _, _, foundStart, foundStop, rfl, common.symm, foundSequence, lin, bySym,
        byLin⟩
  | _ => exact later (named found)

/-- The labels of an interval are free when it is recorded. -/
theorem labelledIntervals (step : s.Step s') (labelled : s.Labelled) (distinct : s.Distinct) :
    s'.timeIntervalLabels.Lists s'.timeIntervals (some ∘ TimeInterval.labels) := by
  cases step with
  | timeInterval foundStart foundStop common _ unknown found named _ _ bySym byLin =>
    exact labelled.timeIntervals.push rfl (labelled.available_of_unknown distinct foundStart
      foundStop common unknown found named bySym byLin)
  | _ => exact labelled.timeIntervals

end Step

namespace Labelled

theorem new (settings : Settings) : (Session.new settings).Labelled where
  forms := .empty
  scalars := .empty
  timeSequences := .empty
  keys found := by cases found
  named found := by cases found
  timeIntervals := .empty

theorem step (labelled : s.Labelled) (distinct : s.Distinct) (step : s.Step s') :
    s'.Labelled where
  forms := step.labelledForms labelled.forms
  scalars := step.labelledScalars labelled.scalars
  timeSequences := step.labelledSequences labelled.timeSequences
  keys := step.validKeys labelled.keys
  named := step.intervalsNamed labelled.named
  timeIntervals := step.labelledIntervals labelled distinct

end Labelled

theorem Reachable.labelled (reachable : Reachable settings s) : s.Labelled := by
  have both : s.Labelled ∧ s.Distinct :=
    reachable.invariant (P := fun s => s.Labelled ∧ s.Distinct) ⟨.new settings, .new settings⟩
      fun both step => ⟨both.1.step both.2 step, both.2.step step⟩
  exact both.1

/-- All indices of a session are exact. -/
structure Indexed (s : Session) : Prop where
  manifolds : s.manifoldLabels.Exact s.manifolds (some ∘ Manifold.labels)
  meshes : s.meshLabels.Exact s.meshes (some ∘ Mesh.labels)
  forms : s.formLabels.Exact s.forms.toArena Form.rootLabels?
  scalars : s.scalarLabels.Exact s.scalars Scalar.rootLabels?
  timeSequences : s.timeSequenceLabels.Exact s.timeSequences (some ∘ TimeSequence.labels)
  timeIntervals : s.timeIntervalLabels.Exact s.timeIntervals (some ∘ TimeInterval.labels)
  arrays : s.arrayLabels.Exact s.arrays fun a => some ⟨a.sym, a.pureLin⟩

theorem Reachable.indexed (reachable : Reachable settings s) : s.Indexed where
  manifolds := (LabelIndex.Lists.of_records reachable.sound.manifoldLabels).exact
  meshes := (LabelIndex.Lists.of_records reachable.sound.meshLabels).exact
  forms := reachable.labelled.forms.exact
  scalars := reachable.labelled.scalars.exact
  timeSequences := reachable.labelled.timeSequences.exact
  timeIntervals := reachable.labelled.timeIntervals.exact
  arrays := (LabelIndex.Lists.of_records reachable.sound.arrayLabels).exact

/-! ## Insertions -/

/-- Each index of a session becomes that of another one by insertions of free labels. -/
structure Inserts (s s' : Session) : Prop where
  manifolds : s.manifoldLabels.Inserts s'.manifoldLabels
  meshes : s.meshLabels.Inserts s'.meshLabels
  forms : s.formLabels.Inserts s'.formLabels
  scalars : s.scalarLabels.Inserts s'.scalarLabels
  timeSequences : s.timeSequenceLabels.Inserts s'.timeSequenceLabels
  timeIntervals : s.timeIntervalLabels.Inserts s'.timeIntervalLabels
  arrays : s.arrayLabels.Inserts s'.arrayLabels

theorem Inserts.refl (s : Session) : s.Inserts s :=
  ⟨.refl, .refl, .refl, .refl, .refl, .refl, .refl⟩

theorem Inserts.trans {t : Session} (first : s.Inserts s') (second : s'.Inserts t) :
    s.Inserts t where
  manifolds := first.manifolds.trans second.manifolds
  meshes := first.meshes.trans second.meshes
  forms := first.forms.trans second.forms
  scalars := first.scalars.trans second.scalars
  timeSequences := first.timeSequences.trans second.timeSequences
  timeIntervals := first.timeIntervals.trans second.timeIntervals
  arrays := first.arrays.trans second.arrays

theorem Step.inserts (step : s.Step s') (labelled : s.Labelled) (distinct : s.Distinct) :
    s.Inserts s' := by
  cases step with
  | manifold =>
    exact { Inserts.refl s with
      manifolds := .single ⟨_, _, LabelIndex.nextFree_available _, rfl⟩ }
  | manifoldBoundary _ _ _ available =>
    exact { Inserts.refl s with manifolds := .single ⟨_, _, available, rfl⟩ }
  | mesh _ _ available | meshBoundary _ _ _ _ available =>
    exact { Inserts.refl s with meshes := .single ⟨_, _, available, rfl⟩ }
  | rootScalar _ available =>
    exact { Inserts.refl s with scalars := .single ⟨_, _, available, rfl⟩ }
  | rootForm _ _ available | evaluation _ _ _ _ _ _ available =>
    exact { Inserts.refl s with forms := .single ⟨_, _, available, rfl⟩ }
  | timeSequence _ available =>
    exact { Inserts.refl s with timeSequences := .single ⟨_, _, available, rfl⟩ }
  | timeInterval foundStart foundStop common _ unknown found named _ _ bySym byLin =>
    exact { Inserts.refl s with
      timeIntervals := .single ⟨_, _, labelled.available_of_unknown distinct foundStart foundStop
        common unknown found named bySym byLin, rfl⟩ }
  | array _ available =>
    exact { Inserts.refl s with arrays := .single ⟨_, _, available, rfl⟩ }
  | _ => exact { Inserts.refl s with }

theorem Steps.inserts (steps : s.Steps s') (labelled : s.Labelled) (distinct : s.Distinct) :
    s.Inserts s' := by
  induction steps using ReflTransGen.head_induction_on with
  | refl => exact .refl _
  | head step _ ih =>
    exact (step.inserts labelled distinct).trans (ih (labelled.step distinct step)
      (distinct.step step))

/-! ## Labels that are taken -/

end Session

namespace LabelIndex

variable {kind : EntityKind} {α β : Type} {index : LabelIndex kind} {arena : Arena kind α}
  {labels? : α → Option Labels} {labels : Labels} {s : Session}

/-- A derivation is rejected, with no change, for labels of which an entity has one. The symbolic
label is reported first. -/
def Refuses (arena : Arena kind α) (labels? : α → Option Labels) (labels : Labels)
    (m : Derive β) (s : Session) : Prop :=
  (arena.UsesSym labels? labels.sym →
    m s = .error (.rejected (.identityConflict kind labels.sym)) s) ∧
  (¬ arena.UsesSym labels? labels.sym → arena.UsesLin labels? labels.lin →
    m s = .error (.rejected (.identityConflict kind labels.lin)) s)

/-- A derivation that first checks whether labels are free. -/
theorem Exact.refuses (exact : index.Exact arena labels?) {m : Derive β} {rest : PUnit → Derive β}
    (checks : m s = (liftM (index.checkAvailable labels) >>= rest) s) :
    Refuses arena labels? labels m s := by
  constructor
  · intro used
    rw [checks, checkAvailable, if_pos (exact.hasSym_iff.2 used)]
    rfl
  · intro unused used
    rw [checks, checkAvailable, if_neg (fun taken => unused (exact.hasSym_iff.1 taken)),
      if_pos (exact.hasLin_iff.2 used)]
    rfl

end LabelIndex

namespace Session

variable {s : Session} {settings : Settings} {labels : Labels}

namespace Indexed

theorem refuses_root (indexed : s.Indexed) (valid : labels.validate .form = .ok ())
    (space : SpaceId) :
    LabelIndex.Refuses s.forms.toArena Form.rootLabels? labels (Form.root space labels) s :=
  indexed.forms.refuses (Derive.lift_bind_of_ok valid _)

theorem refuses_cover (indexed : s.Indexed) (valid : labels.validate .mesh = .ok ())
    (manifold : ManifoldId) :
    LabelIndex.Refuses s.meshes (some ∘ Mesh.labels) labels (Mesh.coverAs manifold labels) s :=
  indexed.meshes.refuses (Derive.lift_bind_of_ok valid _)

theorem refuses_sequence (indexed : s.Indexed) (valid : labels.validate .timeSequence = .ok ()) :
    LabelIndex.Refuses s.timeSequences (some ∘ TimeSequence.labels) labels
      (TimeSequence.createAs labels) s :=
  indexed.timeSequences.refuses (Derive.lift_bind_of_ok valid _)

end Indexed

/-- The label indices of every reachable session are exact, for each kind of labelled entity. So
the number of root forms is that of the forms that are leaves, a form is found under a label if and
only if it is the root form with this pure label, every request extends the indices by labels that
are free when they are inserted, and a new form, mesh or sequence is refused without a change if
one of its labels is taken. -/
theorem Reachable.labels_exact (reachable : Reachable settings s) :
    s.Indexed ∧
    s.rootFormCount = s.forms.entities.countP Form.isRoot ∧
    (∀ lin f, s.findRootForm lin = some f ↔
      ∃ form, s.forms.get? f = some form ∧ form.isRoot = true ∧ form.pureLin = some lin) ∧
    (∀ request : Request, s.Inserts (request.perform.after s)) ∧
    ∀ labels : Labels,
      (labels.validate .form = .ok () → ∀ space, LabelIndex.Refuses s.forms.toArena
        Form.rootLabels? labels (Form.root space labels) s) ∧
      (labels.validate .mesh = .ok () → ∀ manifold, LabelIndex.Refuses s.meshes
        (some ∘ Mesh.labels) labels (Mesh.coverAs manifold labels) s) ∧
      (labels.validate .timeSequence = .ok () → LabelIndex.Refuses s.timeSequences
        (some ∘ TimeSequence.labels) labels (TimeSequence.createAs labels) s) := by
  have indexed := reachable.indexed
  have roots {f : FormId} {form : Form} (found : s.forms.get? f = some form) :
      (form.pureLin.isSome = true ↔ form.isRoot = true) := (reachable.sound.forms found).2.2
  refine ⟨indexed, ?_, fun lin f => ?_, fun request => ?_, fun labels =>
    ⟨indexed.refuses_root, indexed.refuses_cover, indexed.refuses_sequence⟩⟩
  · rw [rootFormCount, indexed.forms.size]
    refine List.countP_congr fun form member => ?_
    obtain ⟨i, found⟩ := List.mem_iff_getElem?.1 member
    rw [Form.rootLabels?, Option.isSome_map]
    exact roots (f := ⟨i⟩) found
  · rw [findRootForm, indexed.forms.byLin]
    constructor
    · rintro ⟨form, labels, found, named, rfl⟩
      obtain ⟨lin, pure, rfl⟩ := Option.map_eq_some_iff.1 named
      exact ⟨form, found, (roots found).1 (by rw [pure]; rfl), pure⟩
    · rintro ⟨form, found, -, pure⟩
      exact ⟨form, ⟨form.sym, lin⟩, found, by rw [Form.rootLabels?, pure]; rfl, rfl⟩
  · exact Steps.inserts request.perform_grows reachable.labelled reachable.distinct

/-- In a session with a form at an instant and an interval, a new form is refused if its linguistic
label is taken, and so is one if its symbol is. -/
theorem labels_exact_interval : ∃ s, Reachable {} s ∧ s.Indexed ∧ s.rootFormCount = 2 ∧
    s.findRootForm "u" = some ⟨0⟩ ∧ s.timeIntervals.size = 1 ∧
    Form.root ⟨0⟩ ⟨"w", "u"⟩ s = .error (.rejected (.identityConflict .form "u")) s ∧
    Form.root ⟨0⟩ ⟨"u", "w"⟩ s = .error (.rejected (.identityConflict .form "u")) s := by
  obtain ⟨s, reachable, count, found, intervals, freeSym, takenLin, takenSym⟩ :
      ∃ s, Reachable {} s ∧ s.rootFormCount = 2 ∧ s.findRootForm "u" = some ⟨0⟩ ∧
        s.timeIntervals.size = 1 ∧ s.formLabels.hasSym "w" = false ∧
        s.formLabels.hasLin "u" = true ∧ s.formLabels.hasSym "u" = true :=
    ⟨Request.performAll {} [.manifold 1, .mesh ⟨0⟩, .space ⟨0⟩ 1 .outer, .root ⟨0⟩ ⟨"u", "u"⟩,
      .sequence, .instant ⟨0⟩ "0", .instant ⟨0⟩ "1", .interval ⟨0⟩ ⟨1⟩, .evaluation ⟨0⟩ ⟨1⟩],
      .performAll {} _, by decide +kernel⟩
  obtain ⟨indexed, -, -, -, refuses⟩ := reachable.labels_exact
  have unused : ¬ s.forms.UsesSym Form.rootLabels? "w" := fun used => by
    simp [indexed.forms.hasSym_iff.2 used] at freeSym
  refine ⟨s, reachable, indexed, count, found, intervals, ?_, ?_⟩
  · exact ((refuses ⟨"w", "u"⟩).1 (by decide +kernel) ⟨0⟩).2 unused
      (indexed.forms.hasLin_iff.1 takenLin)
  · exact ((refuses ⟨"u", "w"⟩).1 (by decide +kernel) ⟨0⟩).1 (indexed.forms.hasSym_iff.1 takenSym)

end Session

end Variational
