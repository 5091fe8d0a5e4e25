import Variational.Labels
import Variational.Arena

/-!
# Arenas and label indices that grow

What an arena holds after an entity is added or exchanged, which entities a
search finds, and which labels are free.
-/

namespace Variational

/-! ## Arenas that grow -/

namespace Arena

variable {kind : EntityKind} {α : Type} {arena : Arena kind α} {id : EntityId kind} {x y : α}

theorem forall_get?_iff {p : α → Prop} :
    (∀ id x, arena.get? id = some x → p x) ↔ ∀ x ∈ arena.entities, p x := by
  constructor
  · intro each x member
    obtain ⟨i, found⟩ := List.mem_iff_getElem?.1 member
    exact each ⟨i⟩ x found
  · intro each id x found
    exact each x (List.mem_of_getElem? found)

theorem get?_push_of_get? (found : arena.get? id = some x) :
    (arena.push y).get? id = some x := by
  have held : id.index < arena.entities.length := (List.getElem?_eq_some_iff.1 found).1
  rw [get?_push, if_neg, found]
  intro new
  subst new
  exact Nat.lt_irrefl _ held

theorem get?_push_nextId : (arena.push x).get? arena.nextId = some x := by
  rw [get?_push, if_pos rfl]

/-- An entity of an extended arena is an old one or the new one. -/
theorem get?_push_cases (found : (arena.push y).get? id = some x) :
    arena.get? id = some x ∨ id = arena.nextId ∧ x = y := by
  rw [get?_push] at found
  split at found
  · rename_i new
    exact Or.inr ⟨new, (Option.some.inj found).symm⟩
  · exact Or.inl found

theorem get?_set (found : arena.get? id = some x) (other : EntityId kind) :
    (arena.set id y).get? other = if other = id then some y else arena.get? other := by
  have held : id.index < arena.entities.length := (List.getElem?_eq_some_iff.1 found).1
  simp only [get?, set, List.getElem?_set, EntityId.ext_iff, if_pos held]
  by_cases same : id.index = other.index
  · rw [if_pos same, if_pos same.symm]
  · rw [if_neg same, if_neg (Ne.symm same)]

theorem lt_size (found : arena.get? id = some x) : id.index < arena.size :=
  (List.getElem?_eq_some_iff.1 found).1

theorem exists_get? (held : id.index < arena.size) : ∃ x, arena.get? id = some x :=
  ⟨_, List.getElem?_eq_getElem held⟩

/-- An arena in which every id of another one has an entity is not smaller. -/
theorem size_le {arena' : Arena kind α}
    (keeps : ∀ {id x}, arena.get? id = some x → ∃ y, arena'.get? id = some y) :
    arena.size ≤ arena'.size := by
  refine Nat.not_lt.1 fun smaller => ?_
  have held : ∃ x, arena.get? ⟨arena'.size⟩ = some x := exists_get? smaller
  obtain ⟨x, found⟩ := held
  obtain ⟨y, found'⟩ := keeps found
  exact Nat.lt_irrefl _ (lt_size found')

theorem find?_eq_some {p : α → Bool} (found : arena.find? p = some id) :
    ∃ x, arena.get? id = some x ∧ p x = true := by
  rw [find?, Option.map_eq_some_iff] at found
  obtain ⟨i, first, rfl⟩ := found
  obtain ⟨held, holds, -⟩ := List.findIdx?_eq_some_iff_getElem.1 first
  exact ⟨_, List.getElem?_eq_getElem held, holds⟩

theorem find?_eq_none {p : α → Bool} :
    arena.find? p = none ↔ ∀ id x, arena.get? id = some x → p x = false := by
  rw [find?, Option.map_eq_none_iff, List.findIdx?_eq_none_iff]
  constructor
  · intro none id x found
    exact none x (List.mem_of_getElem? found)
  · intro none x member
    obtain ⟨i, found⟩ := List.mem_iff_getElem?.1 member
    exact none ⟨i⟩ x found

/-- An entity with a property is the first one with it, if no other entity has it. -/
theorem find?_eq_some_iff {p : α → Bool}
    (unique : ∀ {id id' x y}, arena.get? id = some x → arena.get? id' = some y → p x = true →
      p y = true → id = id') :
    arena.find? p = some id ↔ ∃ x, arena.get? id = some x ∧ p x = true := by
  refine ⟨find?_eq_some, fun ⟨x, found, holds⟩ => ?_⟩
  cases first : arena.find? p with
  | none => simpa [holds] using find?_eq_none.1 first id x found
  | some id' =>
    obtain ⟨y, found', holds'⟩ := find?_eq_some first
    rw [unique found' found holds' holds]

theorem lt_size_of_find? {p : α → Bool} (found : arena.find? p = some id) :
    id.index < arena.size := by
  obtain ⟨x, held, -⟩ := find?_eq_some found
  exact lt_size held

theorem find?_push_of_none {p : α → Bool} (none : arena.find? p = none) (holds : p y = true) :
    (arena.push y).find? p = some arena.nextId := by
  simp only [find?, Option.map_eq_none_iff] at none
  simp [find?, push, nextId, size, List.findIdx?_append, none, holds]

end Arena

/-! ## Labels that are free -/

namespace LabelIndex

variable {kind : EntityKind} {index : LabelIndex kind} {labels : Labels} {id : EntityId kind}

/-- Neither of a pair of labels is taken. -/
def Available (index : LabelIndex kind) (labels : Labels) : Prop :=
  index.hasSym labels.sym = false ∧ index.hasLin labels.lin = false

theorem checkAvailable_eq_ok : index.checkAvailable labels = .ok () ↔ index.Available labels := by
  rw [checkAvailable, Available]
  cases index.hasSym labels.sym <;> cases index.hasLin labels.lin <;> simp [reject]

theorem bySym?_insert (available : index.Available labels) :
    (index.insert labels id).bySym? labels.sym = some id := by
  have none : index.entries.find? (·.1.sym = labels.sym) = none := by
    simpa [hasSym, bySym?] using available.1
  simp [bySym?, insert, List.find?_append, none]

theorem byLin?_insert (available : index.Available labels) :
    (index.insert labels id).byLin? labels.lin = some id := by
  have none : index.entries.find? (·.1.lin = labels.lin) = none := by
    simpa [hasLin, byLin?] using available.2
  simp [byLin?, insert, List.find?_append, none]

theorem bySym?_insert_of_some {other : EntityId kind} {sym : String}
    (found : index.bySym? sym = some other) : (index.insert labels id).bySym? sym = some other := by
  rw [bySym?, Option.map_eq_some_iff] at found
  obtain ⟨entry, first, rfl⟩ := found
  simp [bySym?, insert, List.find?_append, first]

theorem byLin?_insert_of_some {other : EntityId kind} {lin : String}
    (found : index.byLin? lin = some other) : (index.insert labels id).byLin? lin = some other := by
  rw [byLin?, Option.map_eq_some_iff] at found
  obtain ⟨entry, first, rfl⟩ := found
  simp [byLin?, insert, List.find?_append, first]

end LabelIndex

end Variational
