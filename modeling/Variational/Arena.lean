import Variational.Rejection

/-!
# Arenas

An arena holds the entities of one kind in the order of their creation. The id
of an entity is its position, and entities are only ever added, so an id keeps
its meaning as the arena grows.
-/

namespace Variational

/-- The entities of one kind in the order of their creation. -/
@[ext] structure Arena (kind : EntityKind) (α : Type) where
  entities : List α := []
deriving Repr

namespace Arena

variable {kind : EntityKind} {α : Type}

def size (arena : Arena kind α) : Nat :=
  arena.entities.length

/-- The id that the next entity gets. -/
def nextId (arena : Arena kind α) : EntityId kind :=
  ⟨arena.size⟩

def get? (arena : Arena kind α) (id : EntityId kind) : Option α :=
  arena.entities[id.index]?

/-- The entity with an id; an id beyond the arena is foreign. -/
def fetch (arena : Arena kind α) (id : EntityId kind) : Outcome α :=
  match arena.get? id with
  | some entity => .ok entity
  | none => foreign kind

/-- Adds an entity. -/
def push (arena : Arena kind α) (entity : α) : Arena kind α :=
  ⟨arena.entities ++ [entity]⟩

/-- Exchanges the entity with an id. -/
def set (arena : Arena kind α) (id : EntityId kind) (entity : α) : Arena kind α :=
  ⟨arena.entities.set id.index entity⟩

/-- The first entity with a property. -/
def find? (arena : Arena kind α) (p : α → Bool) : Option (EntityId kind) :=
  (arena.entities.findIdx? p).map EntityId.mk

/-- The last entity with a property. -/
def findLast? (arena : Arena kind α) (p : α → Bool) : Option (EntityId kind) :=
  (arena.entities.reverse.findIdx? p).map fun back => ⟨arena.size - 1 - back⟩

/-- The ids of all entities with a property, in the order of creation. -/
def idsWhere (arena : Arena kind α) (p : α → Bool) : List (EntityId kind) :=
  ((arena.entities.zipIdx).filter fun entry => p entry.1).map fun entry => ⟨entry.2⟩

@[simp] theorem size_push (arena : Arena kind α) (entity : α) :
    (arena.push entity).size = arena.size + 1 := by
  simp [size, push]

/-- A new entity is found under the next id, and every older id keeps its meaning. -/
theorem get?_push (arena : Arena kind α) (entity : α) (id : EntityId kind) :
    (arena.push entity).get? id =
      if id = arena.nextId then some entity else arena.get? id := by
  obtain ⟨position⟩ := id
  simp only [get?, push, nextId, size, EntityId.mk.injEq, List.getElem?_append]
  split
  · rename_i held
    rw [if_neg (Nat.ne_of_lt held)]
  · rename_i beyond
    split
    · rename_i next
      simp [next]
    · rename_i other
      have : arena.entities.length < position := by omega
      rw [List.getElem?_eq_none (by simp; omega), List.getElem?_eq_none (by omega)]

theorem get?_eq_none_iff {arena : Arena kind α} {id : EntityId kind} :
    arena.get? id = none ↔ arena.size ≤ id.index := by
  simp [get?, size]

theorem fetch_eq_ok_iff {arena : Arena kind α} {id : EntityId kind} {entity : α} :
    arena.fetch id = .ok entity ↔ arena.get? id = some entity := by
  rw [fetch]
  split <;> simp_all [foreign]

end Arena

end Variational
