import Variational.Proofs.ArrayRequests
import Variational.Proofs.LabelIndices

/-!
# Searching for fresh labels

Default labels, the symbols of intervals and the symbols of numbered arrays are found by counting
up from zero until a variant is free. The count has no limit of its own. It ends nevertheless,
whatever the labels are that the variants are made of: the variants differ, and each taken label
blocks at most one of them.
-/

namespace Variational

/-! ## Counting up -/

/-- Counting up from a number, the first number with a property is reached. -/
inductive Search (p : Nat → Prop) : Nat → Nat → Prop
  | found {n : Nat} (holds : p n) : Search p n n
  | next {m n : Nat} (lacks : ¬ p m) (rest : Search p (m + 1) n) : Search p m n

namespace Search

variable {p : Nat → Prop} {m n : Nat}

/-- One step of the count goes past numbers without the property only. -/
theorem isLeast (search : Search p m n) : IsLeast {k | p k ∧ m ≤ k} n := by
  induction search with
  | found holds => exact ⟨⟨holds, le_rfl⟩, fun k later => later.2⟩
  | next lacks _ least =>
    refine ⟨⟨least.1.1, Nat.le_of_succ_le least.1.2⟩, fun k ⟨holds, later⟩ => ?_⟩
    refine least.2 ⟨holds, Nat.lt_of_le_of_ne later ?_⟩
    rintro rfl
    exact lacks holds

/-- The count ends if a number with the property is ahead. -/
theorem of_isLeast (least : IsLeast {k | p k} n) (ahead : m ≤ n) : Search p m n := by
  induction ahead using Nat.decreasingInduction with
  | self => exact .found least.1
  | of_succ k less search => exact .next (fun holds => Nat.not_le.2 less (least.2 holds)) search

/-- The count from zero ends at the least number with the property, and nowhere else. -/
theorem iff_isLeast : Search p 0 n ↔ IsLeast {k | p k} n :=
  ⟨fun search => by simpa using search.isLeast, fun least => of_isLeast least (Nat.zero_le n)⟩

end Search

/-! ## The searches of a session -/

namespace LabelIndex

variable {kind : EntityKind}

/-- The first free variant of labels passes the check of new labels. -/
theorem checkAvailable_nextFree (index : LabelIndex kind) (labels : Labels) :
    index.checkAvailable (index.nextFree labels) = .ok () :=
  checkAvailable_eq_ok.2 (nextFree_available labels)

end LabelIndex

/-- All searches for numbered labels end, for every index and all base labels.

* The search for a free pair ends at the least number of which both variants are unused. This
  number is at most the number of entries of the index, symbolic and linguistic, and the pair passes
  the check of new labels.
* The search for the symbol of an interval ends at the first variant that is free in both indices.
* The search for the symbol of a numbered array ends at the first free variant. -/
theorem numbering_ends :
    (∀ {kind : EntityKind} (index : LabelIndex kind) (labels : Labels),
      ∃ n, index.nextFree labels = labels.numbered n ∧
        Search (fun n => index.hasSym (labels.numbered n).sym = false ∧
          index.hasLin (labels.numbered n).lin = false) 0 n ∧
        IsLeast {n | index.hasSym (labels.numbered n).sym = false ∧
          index.hasLin (labels.numbered n).lin = false} n ∧
        n ≤ index.symCount + index.linCount ∧
        index.checkAvailable (index.nextFree labels) = .ok ()) ∧
    (∀ s : Session, ∃ n,
      TimeInterval.freeSym s =
        Labels.numberedSym s.settings.conventions.defaults.timeIntervalSym n ∧
      Search (fun n => s.timeIntervalLabels.hasSym
          (Labels.numberedSym s.settings.conventions.defaults.timeIntervalSym n) = false ∧
        s.scalarLabels.hasSym
          (Labels.numberedSym s.settings.conventions.defaults.timeIntervalSym n) = false) 0 n ∧
      n ≤ s.timeIntervalLabels.symCount + s.scalarLabels.symCount) ∧
    (∀ (s : Session) (sym : String), ∃ n,
      RootArray.freeSym s sym = Labels.numberedSym sym n ∧
      Search (fun n => s.arrayLabels.hasSym (Labels.numberedSym sym n) = false) 0 n ∧
      n ≤ s.arrayLabels.symCount) := by
  refine ⟨fun index labels => ?_, fun s => ?_, fun s sym => ?_⟩
  · obtain ⟨n, same, least, bound⟩ := index.nextFree_isLeast labels
    exact ⟨n, same, Search.iff_isLeast.2 least, least, bound, index.checkAvailable_nextFree labels⟩
  · obtain ⟨n, same, least, bound⟩ := TimeInterval.freeSym_isLeast s
    exact ⟨n, same, Search.iff_isLeast.2 least, bound⟩
  · obtain ⟨n, same, least, bound⟩ := RootArray.freeSym_isLeast s sym
    exact ⟨n, same, Search.iff_isLeast.2 least, bound⟩

end Variational
