/-!
# Kinds of entities and their ids

Every entity of a session is known by its kind and its position among the
entities of that kind. An id carries the kind in its type.
-/

namespace Variational

/-- The kinds of entities that a session holds. -/
inductive EntityKind
  | manifold
  | mesh
  | space
  | form
  | scalar
  | timeSequence
  | timeInstant
  | timeInterval
  | array
deriving DecidableEq, Repr

/-- The noun that messages use for a kind. -/
def EntityKind.noun : EntityKind → String
  | .manifold => "manifold"
  | .mesh => "mesh"
  | .space => "space"
  | .form => "form"
  | .scalar => "scalar"
  | .timeSequence => "time sequence"
  | .timeInstant => "time instant"
  | .timeInterval => "time interval"
  | .array => "array"

/-- The id of an entity of the given kind: its position in order of creation. -/
@[ext] structure EntityId (kind : EntityKind) where
  index : Nat
deriving DecidableEq, Repr

abbrev ManifoldId := EntityId .manifold
abbrev MeshId := EntityId .mesh
abbrev SpaceId := EntityId .space
abbrev FormId := EntityId .form
abbrev ScalarId := EntityId .scalar
abbrev TimeSequenceId := EntityId .timeSequence
abbrev TimeInstantId := EntityId .timeInstant
abbrev TimeIntervalId := EntityId .timeInterval
abbrev ArrayId := EntityId .array

end Variational
