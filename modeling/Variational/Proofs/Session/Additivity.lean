import Mathlib.Data.List.Forall2
import Variational.Proofs.Session.Reachability

/-!
# Sessions are additive

Whatever is requested, and whether it succeeds or fails, the arenas of a session only get
longer. Their entities stay what they are, but a space may get its degree and a time
sequence its specification, each once.
-/

namespace Variational

/-! ## Arenas that only get longer -/

namespace Arena

variable {kind : EntityKind} {α : Type} {arena arena' : Arena kind α}

/-- The entities of an arena come first in another one, up to a relation. -/
def GrowsTo (R : α → α → Prop) (arena arena' : Arena kind α) : Prop :=
  ∃ kept added, arena'.entities = kept ++ added ∧ List.Forall₂ R arena.entities kept

theorem prefix_of_get? (keeps : ∀ {id x}, arena.get? id = some x → arena'.get? id = some x) :
    arena.entities <+: arena'.entities :=
  List.prefix_iff_getElem?.2 fun i held =>
    keeps (show arena.get? ⟨i⟩ = _ from List.getElem?_eq_getElem held)

theorem growsTo_of_get? {R : α → α → Prop}
    (keeps : ∀ {id x}, arena.get? id = some x → ∃ x', arena'.get? id = some x' ∧ R x x') :
    arena.GrowsTo R arena' := by
  have le : arena.entities.length ≤ arena'.entities.length := size_le fun found => by
    obtain ⟨x', found', -⟩ := keeps found
    exact ⟨x', found'⟩
  refine ⟨arena'.entities.take arena.entities.length, arena'.entities.drop arena.entities.length,
    (List.take_append_drop _ _).symm, List.forall₂_iff_get.2 ⟨?_, fun i held held' => ?_⟩⟩
  · rw [List.length_take, Nat.min_eq_left le]
  · obtain ⟨x', found', related⟩ := keeps
      (show arena.get? ⟨i⟩ = _ from List.getElem?_eq_getElem held)
    obtain ⟨_, rfl⟩ := List.getElem?_eq_some_iff.1 found'
    simpa using related

/-- The first entity with a property stays the first one, if every entity keeps or lacks it. -/
theorem find?_mono {p : α → Bool} {id : EntityId kind}
    (keeps : ∀ {id x}, arena.get? id = some x → ∃ x', arena'.get? id = some x' ∧ p x' = p x)
    (found : arena.find? p = some id) : arena'.find? p = some id := by
  rw [find?, Option.map_eq_some_iff] at found ⊢
  obtain ⟨i, first, rfl⟩ := found
  refine ⟨i, ?_, rfl⟩
  obtain ⟨held, holds, earlier⟩ := List.findIdx?_eq_some_iff_getElem.1 first
  have same : ∀ j (before : j < arena.entities.length), ∃ after : j < arena'.entities.length,
      p arena'.entities[j] = p arena.entities[j] := by
    intro j before
    obtain ⟨x', found', same⟩ := keeps
      (show arena.get? ⟨j⟩ = _ from List.getElem?_eq_getElem before)
    obtain ⟨after, rfl⟩ := List.getElem?_eq_some_iff.1 found'
    exact ⟨after, same⟩
  obtain ⟨held', same'⟩ := same i held
  refine List.findIdx?_eq_some_iff_getElem.2 ⟨held', same'.trans holds, fun j lt => ?_⟩
  obtain ⟨_, lacks⟩ := same j (Nat.lt_trans lt held)
  rw [lacks]
  exact earlier j lt

end Arena

/-! ## Grown sessions -/

/-- A time sequence stays what it is, but it may be specified. -/
def TimeSequence.Becomes (t t' : TimeSequence) : Prop :=
  ∃ specification, t' = { t with specification := specification } ∧
    ∀ rule, t.specification = some rule → specification = some rule

namespace Session

variable {s s' : Session}

/-- The arenas and the tables of a session that has grown. -/
structure Grown (s s' : Session) : Prop where
  settings : s'.settings = s.settings
  manifolds : s.manifolds.entities <+: s'.manifolds.entities
  meshes : s.meshes.entities <+: s'.meshes.entities
  spaces : s.spaces.GrowsTo Space.Becomes s'.spaces
  forms : s.forms.entities <+: s'.forms.entities
  scalars : s.scalars.entities <+: s'.scalars.entities
  timeSequences : s.timeSequences.GrowsTo TimeSequence.Becomes s'.timeSequences
  timeInstants : s.timeInstants.entities <+: s'.timeInstants.entities
  timeIntervals : s.timeIntervals.entities <+: s'.timeIntervals.entities
  arrays : s.arrays.entities <+: s'.arrays.entities
  /-- The instants of a sequence are found under their keys. -/
  instantsByKey : ∀ {sequence key i}, TimeInstant.known s sequence key = some i →
    TimeInstant.known s' sequence key = some i
  /-- The intervals are found under their end points. -/
  intervalsByEnds : ∀ {start stop i}, TimeInterval.known s start stop = some i →
    TimeInterval.known s' start stop = some i

namespace Extends

variable (later : s.Extends s')

include later

theorem knownManifoldBoundary {m b : ManifoldId} (known : s.knownManifoldBoundary m = some b) :
    s'.knownManifoldBoundary m = some b :=
  Arena.find?_mono (fun found => ⟨_, later.manifolds found, rfl⟩) known

theorem knownMeshBoundary {m b : MeshId} (known : s.knownMeshBoundary m = some b) :
    s'.knownMeshBoundary m = some b :=
  Arena.find?_mono (fun found => ⟨_, later.meshes found, rfl⟩) known

theorem knownInstant {sequence : TimeSequenceId} {key : String} {i : TimeInstantId}
    (known : TimeInstant.known s sequence key = some i) :
    TimeInstant.known s' sequence key = some i :=
  Arena.find?_mono (fun found => ⟨_, later.timeInstants found, rfl⟩) known

theorem knownInterval {start stop : TimeInstantId} {i : TimeIntervalId}
    (known : TimeInterval.known s start stop = some i) :
    TimeInterval.known s' start stop = some i :=
  Arena.find?_mono (fun found => ⟨_, later.timeIntervals found, rfl⟩) known

theorem knownEvaluation {f e : FormId} {instant : TimeInstantId}
    (known : Form.knownEvaluation s f instant = some e) :
    Form.knownEvaluation s' f instant = some e :=
  Arena.find?_mono (fun found => ⟨_, later.forms found, rfl⟩) known

/-- A space that becomes finite is found where it was. -/
theorem foundSpace {mesh : MeshId} {k : Nat} {orientation : Orientation} {id : SpaceId}
    (known : s.spaces.find? (fun sp => sp.mesh = mesh ∧ sp.k = k ∧ sp.orientation = orientation) =
      some id) :
    s'.spaces.find? (fun sp => sp.mesh = mesh ∧ sp.k = k ∧ sp.orientation = orientation) =
      some id := by
  refine Arena.find?_mono (fun found => ?_) known
  obtain ⟨sp', found', becomes⟩ := later.spaces found
  exact ⟨sp', found', by rw [becomes.mesh_eq, becomes.k_eq, becomes.orientation_eq]⟩

theorem grown : s.Grown s' where
  settings := later.settings
  manifolds := Arena.prefix_of_get? later.manifolds
  meshes := Arena.prefix_of_get? later.meshes
  spaces := Arena.growsTo_of_get? later.spaces
  forms := Arena.prefix_of_get? later.forms
  scalars := Arena.prefix_of_get? later.scalars
  timeSequences := Arena.growsTo_of_get? fun found => by
    obtain ⟨t', found', labels, fixed⟩ := later.timeSequences found
    refine ⟨t', found', t'.specification, ?_, fun rule specified => ?_⟩
    · rw [← labels]
    · rw [fixed (by rw [specified]; rfl), specified]
  timeInstants := Arena.prefix_of_get? later.timeInstants
  timeIntervals := Arena.prefix_of_get? later.timeIntervals
  arrays := Arena.prefix_of_get? later.arrays
  instantsByKey := later.knownInstant
  intervalsByEnds := later.knownInterval

end Extends

end Session

end Variational
