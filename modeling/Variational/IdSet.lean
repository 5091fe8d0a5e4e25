import Variational.Kind

/-!
# Finite sets of ids

A set of ids is kept as the list of its members in ascending order, so two sets
with the same members are equal and a printed set has one form.
-/

namespace Variational

/-- The ids of one kind in ascending order, without repetition. -/
@[ext] structure IdSet (kind : EntityKind) where
  ids : List (EntityId kind)
  ascending : ids.Pairwise (·.index < ·.index)
deriving DecidableEq, Repr

namespace IdSet

variable {kind : EntityKind}

/-- Puts an id at its place in an ascending list, unless it is there already. -/
def place (id : EntityId kind) : List (EntityId kind) → List (EntityId kind)
  | [] => [id]
  | first :: rest =>
    if id.index < first.index then
      id :: first :: rest
    else if id = first then
      first :: rest
    else
      first :: place id rest

theorem mem_place {id other : EntityId kind} {ids : List (EntityId kind)} :
    other ∈ place id ids ↔ other = id ∨ other ∈ ids := by
  induction ids with
  | nil => simp [place]
  | cons first rest ih => grind [place]

theorem pairwise_place {id : EntityId kind} {ids : List (EntityId kind)}
    (ascending : ids.Pairwise (·.index < ·.index)) :
    (place id ids).Pairwise (·.index < ·.index) := by
  induction ids with
  | nil => simp [place]
  | cons first rest ih =>
    obtain ⟨below, restAscending⟩ := List.pairwise_cons.1 ascending
    rw [place]
    split
    · rename_i smaller
      refine List.pairwise_cons.2 ⟨fun other member => ?_, ascending⟩
      rcases List.mem_cons.1 member with rfl | later
      · exact smaller
      · exact Nat.lt_trans smaller (below other later)
    · split
      · exact ascending
      · rename_i notSmaller differs
        refine List.pairwise_cons.2 ⟨fun other member => ?_, ih restAscending⟩
        rcases mem_place.1 member with rfl | later
        · have : first.index ≠ other.index := fun same => differs (EntityId.ext same.symm)
          omega
        · exact below other later

/-- The set without members. -/
def empty : IdSet kind := ⟨[], List.Pairwise.nil⟩

/-- The set with one more member. -/
def insert (id : EntityId kind) (s : IdSet kind) : IdSet kind :=
  ⟨place id s.ids, pairwise_place s.ascending⟩

/-- The set with the members of a list. -/
def ofList (ids : List (EntityId kind)) : IdSet kind :=
  ids.foldr insert empty

/-- The set of the ids that are in one of two sets. -/
def union (s t : IdSet kind) : IdSet kind :=
  s.ids.foldr insert t

/-- The union of a list of sets. -/
def unions (sets : List (IdSet kind)) : IdSet kind :=
  sets.foldr union empty

instance : Membership (EntityId kind) (IdSet kind) := ⟨fun s id => id ∈ s.ids⟩

instance (id : EntityId kind) (s : IdSet kind) : Decidable (id ∈ s) :=
  inferInstanceAs (Decidable (id ∈ s.ids))

@[simp] theorem mem_ids {id : EntityId kind} {s : IdSet kind} : id ∈ s.ids ↔ id ∈ s := Iff.rfl

@[simp] theorem not_mem_empty {id : EntityId kind} : id ∉ (empty : IdSet kind) :=
  List.not_mem_nil

@[simp] theorem mem_insert {id other : EntityId kind} {s : IdSet kind} :
    other ∈ s.insert id ↔ other = id ∨ other ∈ s :=
  mem_place

@[simp] theorem mem_ofList {id : EntityId kind} {ids : List (EntityId kind)} :
    id ∈ ofList ids ↔ id ∈ ids := by
  induction ids with
  | nil => simp [ofList]
  | cons first rest ih =>
    change id ∈ (ofList rest).insert first ↔ _
    simp [ih]

@[simp] theorem mem_union {id : EntityId kind} {s t : IdSet kind} :
    id ∈ s.union t ↔ id ∈ s ∨ id ∈ t := by
  suffices general : ∀ ids : List (EntityId kind),
      id ∈ ids.foldr insert t ↔ id ∈ ids ∨ id ∈ t from general s.ids
  intro ids
  induction ids with
  | nil => simp
  | cons first rest ih => simp [ih, or_assoc]

@[simp] theorem mem_unions {id : EntityId kind} {sets : List (IdSet kind)} :
    id ∈ unions sets ↔ ∃ s ∈ sets, id ∈ s := by
  induction sets with
  | nil => simp [unions]
  | cons first rest ih =>
    change id ∈ first.union (unions rest) ↔ _
    simp [ih]

end IdSet

end Variational
