import Mathlib.Data.Finset.Card
import Mathlib.Order.Bounds.Defs
import Variational.Proofs.Session.Arenas

/-!
# Distinct labels

The numbered variants of a label are distinct, so a variant that is free is found
among as many as there are taken labels. An index that records the labels of an
arena keeps the labels of its entities distinct.
-/

namespace Variational

/-! ## Numbered variants -/

namespace Labels

theorem toString_injective {m n : Nat} (same : (toString m).toList = (toString n).toList) :
    m = n := by
  have digits : Nat.toDigits 10 m = Nat.toDigits 10 n := by
    simpa only [Nat.toString_eq_repr, Nat.toList_repr] using same
  simpa using congrArg (Nat.ofDigitChars 10 · 0) digits

/-- Text after a common beginning that is empty at zero and a number otherwise. -/
theorem eq_of_append_toString {stem : List Char} (opening closing : List Char)
    {f : Nat → List Char} (zero : f 0 = stem)
    (other : ∀ n, n ≠ 0 → f n = stem ++ (opening ++ (toString n).toList ++ closing)) {m n : Nat}
    (same : f m = f n) : m = n := by
  by_cases first : m = 0
  · by_cases second : n = 0
    · rw [first, second]
    · rw [first, zero, other n second] at same
      exact absurd (List.self_eq_append_right.1 same) (by simp)
  · by_cases second : n = 0
    · rw [second, zero, other m first] at same
      exact absurd (List.self_eq_append_right.1 same.symm) (by simp)
    · rw [other m first, other n second] at same
      have inner := List.append_cancel_left same
      exact toString_injective (List.append_cancel_left (List.append_cancel_right inner))

theorem numberedSym_injective {sym : String} {m n : Nat}
    (same : numberedSym sym m = numberedSym sym n) : m = n := by
  refine eq_of_append_toString "_\x7b".toList "\x7d".toList
    (f := fun n => (numberedSym sym n).toList) rfl (fun n positive => ?_)
    (congrArg String.toList same)
  simp [numberedSym, positive, toString]

theorem numbered_lin_injective {labels : Labels} {m n : Nat}
    (same : (labels.numbered m).lin = (labels.numbered n).lin) : m = n := by
  refine eq_of_append_toString [] [] (f := fun n => (labels.numbered n).lin.toList) rfl
    (fun n positive => ?_) (congrArg String.toList same)
  simp [numbered, positive, toString]

@[simp] theorem numbered_sym (labels : Labels) (n : Nat) :
    (labels.numbered n).sym = numberedSym labels.sym n := by
  unfold numbered numberedSym
  split <;> rfl

end Labels

/-! ## Free variants -/

/-- Of two families of distinct texts, some member of each is not in a list. -/
theorem exists_free {f g : Nat → String} (distinctF : Function.Injective f)
    (distinctG : Function.Injective g) (syms lins : List String) :
    ∃ n ≤ syms.length + lins.length, f n ∉ syms ∧ g n ∉ lins := by
  by_contra none
  have covered : Finset.range (syms.length + lins.length + 1) ⊆
      {n ∈ Finset.range (syms.length + lins.length + 1) | f n ∈ syms} ∪
      {n ∈ Finset.range (syms.length + lins.length + 1) | g n ∈ lins} := by
    intro n member
    by_contra outside
    refine none ⟨n, Nat.lt_succ_iff.1 (Finset.mem_range.1 member), ?_, ?_⟩
    · exact fun taken => outside (by simp_all)
    · exact fun taken => outside (by simp_all)
  have bound : ∀ {h : Nat → String} (_ : Function.Injective h) (used : List String) (m : Nat),
      ({n ∈ Finset.range m | h n ∈ used} : Finset Nat).card ≤ used.length := by
    intro h distinct used m
    calc ({n ∈ Finset.range m | h n ∈ used} : Finset Nat).card
        ≤ used.toFinset.card := Finset.card_le_card_of_injOn h (fun n member => by simp_all)
          distinct.injOn
      _ ≤ used.length := List.toFinset_card_le used
  have count := Finset.card_le_card covered
  have union := Finset.card_union_le
    {n ∈ Finset.range (syms.length + lins.length + 1) | f n ∈ syms}
    {n ∈ Finset.range (syms.length + lins.length + 1) | g n ∈ lins}
  have left := bound distinctF syms (syms.length + lins.length + 1)
  have right := bound distinctG lins (syms.length + lins.length + 1)
  rw [Finset.card_range] at count
  omega

/-- A search below a bound ends at the least number with a property, unless all numbers up to the
bound lack it. -/
theorem isLeast_leastBelow {bound : Nat} {p : Nat → Bool} (free : ∃ n ≤ bound, p n = true) :
    IsLeast {n | p n = true} (leastBelow bound p) := by
  rw [leastBelow]
  cases found : (List.range bound).find? p with
  | some n =>
    obtain ⟨holds, -, before⟩ := List.find?_range_eq_some.1 found
    refine ⟨holds, fun m (free : p m = true) => Nat.not_lt.1 fun less => ?_⟩
    simpa [free] using before m less
  | none =>
    have taken : ∀ m < bound, p m = false := by simpa using found
    obtain ⟨n, below, holds⟩ := free
    have last : n = bound :=
      below.antisymm (Nat.not_lt.1 fun less => by simp [taken n less] at holds)
    subst last
    exact ⟨holds, fun m free => Nat.not_lt.1 fun less => by simp [taken m less] at free⟩

/-- A search for a number of which both texts are free ends at the least one. There are at least
as many taken texts. -/
theorem isLeast_of_free {f g : Nat → String} (distinctF : Function.Injective f)
    (distinctG : Function.Injective g) {syms lins : List String} {bound : Nat} {p : Nat → Bool}
    (enough : syms.length + lins.length ≤ bound)
    (free : ∀ n, p n = true ↔ f n ∉ syms ∧ g n ∉ lins) :
    IsLeast {n | p n = true} (leastBelow bound p) ∧
      leastBelow bound p ≤ syms.dedup.length + lins.dedup.length := by
  obtain ⟨n, below, freeSym, freeLin⟩ := exists_free distinctF distinctG syms.dedup lins.dedup
  rw [List.mem_dedup] at freeSym freeLin
  have holds : p n = true := (free n).2 ⟨freeSym, freeLin⟩
  have least : IsLeast {n | p n = true} (leastBelow bound p) := by
    refine isLeast_leastBelow ⟨n, ?_, holds⟩
    have := (List.dedup_sublist syms).length_le
    have := (List.dedup_sublist lins).length_le
    omega
  exact ⟨least, (least.2 holds).trans below⟩

namespace LabelIndex

variable {kind : EntityKind} {α : Type} {index : LabelIndex kind} {labels : Labels}

theorem hasSym_iff {sym : String} :
    index.hasSym sym = true ↔ sym ∈ index.entries.map (·.1.sym) := by
  simp [hasSym, bySym?]

theorem hasLin_iff {lin : String} :
    index.hasLin lin = true ↔ lin ∈ index.entries.map (·.1.lin) := by
  simp [hasLin, byLin?]

theorem available_iff : index.Available labels ↔
    labels.sym ∉ index.entries.map (·.1.sym) ∧ labels.lin ∉ index.entries.map (·.1.lin) := by
  rw [Available, ← hasSym_iff, ← hasLin_iff, Bool.not_eq_true, Bool.not_eq_true]

/-- The number of symbolic labels that are taken. -/
def symCount (index : LabelIndex kind) : Nat :=
  (index.entries.map (·.1.sym)).dedup.length

/-- The number of linguistic labels that are taken. -/
def linCount (index : LabelIndex kind) : Nat :=
  (index.entries.map (·.1.lin)).dedup.length

/-- The first variant of a pair of labels of which neither is taken has a number that is at most
the number of taken labels. -/
theorem nextFree_isLeast (index : LabelIndex kind) (labels : Labels) :
    ∃ n, index.nextFree labels = labels.numbered n ∧
      IsLeast {n | index.Available (labels.numbered n)} n ∧
      n ≤ index.symCount + index.linCount := by
  refine ⟨_, rfl, ?_⟩
  have free : ∀ n, (!index.hasSym (labels.numbered n).sym &&
      !index.hasLin (labels.numbered n).lin) = true ↔ index.Available (labels.numbered n) := by
    simp [Available]
  have enough : (index.entries.map (·.1.sym)).length + (index.entries.map (·.1.lin)).length ≤
      2 * index.size := by
    simp [size, Nat.two_mul]
  have search := isLeast_of_free (f := Labels.numberedSym labels.sym)
    (g := fun n => (labels.numbered n).lin) (fun _ _ => Labels.numberedSym_injective)
    (fun _ _ => Labels.numbered_lin_injective) enough
    fun n => (free n).trans (by rw [available_iff, Labels.numbered_sym])
  simpa only [free, symCount, linCount] using search

/-- The first free variant of a pair of labels is free. -/
theorem nextFree_available (labels : Labels) : index.Available (index.nextFree labels) := by
  obtain ⟨n, same, least, -⟩ := nextFree_isLeast index labels
  rw [same]
  exact least.1

/-! ## Indices of arenas -/

/-- An index that records the labels of all entities of an arena. No two entities share a
label. -/
structure Records (index : LabelIndex kind) (arena : Arena kind α) (labelsOf : α → Labels) :
    Prop where
  entries : index.entries = arena.entities.mapIdx fun i x => (labelsOf x, ⟨i⟩)
  distinctSym : (arena.entities.map fun x => (labelsOf x).sym).Nodup
  distinctLin : (arena.entities.map fun x => (labelsOf x).lin).Nodup

namespace Records

variable {arena : Arena kind α} {labelsOf : α → Labels} {id id' : EntityId kind} {x y : α}

theorem empty : (⟨[]⟩ : LabelIndex kind).Records (⟨[]⟩ : Arena kind α) labelsOf :=
  ⟨rfl, List.nodup_nil, List.nodup_nil⟩

theorem map_entries (records : index.Records arena labelsOf) {β : Type} (f : Labels → β) :
    index.entries.map (fun entry => f entry.1) = arena.entities.map fun x => f (labelsOf x) := by
  rw [records.entries]
  refine List.ext_getElem? fun i => ?_
  simp only [List.getElem?_map, List.getElem?_mapIdx, Option.map_map]
  rfl

/-- Labels are free if no entity has one of them. -/
theorem available_iff (records : index.Records arena labelsOf) : index.Available labels ↔
    ∀ id x, arena.get? id = some x →
      (labelsOf x).sym ≠ labels.sym ∧ (labelsOf x).lin ≠ labels.lin := by
  rw [LabelIndex.available_iff, records.map_entries Labels.sym, records.map_entries Labels.lin]
  constructor
  · intro free id x found
    obtain ⟨freeSym, freeLin⟩ := free
    have member := List.mem_of_getElem? found
    exact ⟨fun same => freeSym (List.mem_map.2 ⟨x, member, same⟩),
      fun same => freeLin (List.mem_map.2 ⟨x, member, same⟩)⟩
  · intro free
    refine ⟨fun taken => ?_, fun taken => ?_⟩
    · obtain ⟨x, member, same⟩ := List.mem_map.1 taken
      obtain ⟨i, found⟩ := List.mem_iff_getElem?.1 member
      exact (free ⟨i⟩ x found).1 same
    · obtain ⟨x, member, same⟩ := List.mem_map.1 taken
      obtain ⟨i, found⟩ := List.mem_iff_getElem?.1 member
      exact (free ⟨i⟩ x found).2 same

/-- Recording a new entity under free labels. -/
theorem push (records : index.Records arena labelsOf) (available : index.Available (labelsOf x)) :
    (index.insert (labelsOf x) arena.nextId).Records (arena.push x) labelsOf := by
  rw [LabelIndex.available_iff, records.map_entries Labels.sym, records.map_entries Labels.lin]
    at available
  refine ⟨?_, ?_, ?_⟩
  · rw [insert, records.entries, Arena.push, List.mapIdx_concat]
    rfl
  · rw [Arena.push, List.map_append, List.map_singleton, ← List.concat_eq_append]
    exact records.distinctSym.concat available.1
  · rw [Arena.push, List.map_append, List.map_singleton, ← List.concat_eq_append]
    exact records.distinctLin.concat available.2

theorem eq_of_sym (records : index.Records arena labelsOf) (found : arena.get? id = some x)
    (found' : arena.get? id' = some y) (same : (labelsOf x).sym = (labelsOf y).sym) : id = id' := by
  obtain ⟨held, rfl⟩ := List.getElem?_eq_some_iff.1 found
  obtain ⟨held', rfl⟩ := List.getElem?_eq_some_iff.1 found'
  have inside : id.index < (arena.entities.map fun x => (labelsOf x).sym).length := by simpa
  have inside' : id'.index < (arena.entities.map fun x => (labelsOf x).sym).length := by simpa
  exact EntityId.ext ((records.distinctSym.getElem_inj_iff).1
    (by simpa using same : (_ : List String)[id.index] = (_ : List String)[id'.index]))

theorem eq_of_lin (records : index.Records arena labelsOf) (found : arena.get? id = some x)
    (found' : arena.get? id' = some y) (same : (labelsOf x).lin = (labelsOf y).lin) : id = id' := by
  obtain ⟨held, rfl⟩ := List.getElem?_eq_some_iff.1 found
  obtain ⟨held', rfl⟩ := List.getElem?_eq_some_iff.1 found'
  have inside : id.index < (arena.entities.map fun x => (labelsOf x).lin).length := by simpa
  have inside' : id'.index < (arena.entities.map fun x => (labelsOf x).lin).length := by simpa
  exact EntityId.ext ((records.distinctLin.getElem_inj_iff).1
    (by simpa using same : (_ : List String)[id.index] = (_ : List String)[id'.index]))

/-- The entity that is found under a label has it. -/
theorem get?_of_byLin? (records : index.Records arena labelsOf) {lin : String}
    (found : index.byLin? lin = some id) :
    ∃ x, arena.get? id = some x ∧ (labelsOf x).lin = lin := by
  rw [LabelIndex.byLin?, Option.map_eq_some_iff] at found
  obtain ⟨entry, first, rfl⟩ := found
  have member := List.mem_of_find?_eq_some first
  rw [records.entries, List.mem_mapIdx] at member
  obtain ⟨i, held, rfl⟩ := member
  exact ⟨_, List.getElem?_eq_getElem held, by simpa using List.find?_some first⟩

end Records

end LabelIndex

end Variational
