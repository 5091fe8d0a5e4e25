import Variational.Proofs.Block.Cells

/-!
# Sorting terms into columns

Sorting the terms of a block vector puts those that end with the `k`-th target, without
this last link, into column `k` of their row, and keeps the others, all in their
order: `Sorting.run_spec`. No term is lost or repeated: the columns with their
targets put back and the kept terms are a permutation of the row.
-/

namespace Variational

/-! ## Moved and kept terms -/

/-- The terms of a row that move into a column, without their last link. -/
def Sorting.moved (targets : List ArrayId) (k : Nat) (terms : List (Signed Product)) :
    List (Signed Product) :=
  (terms.filter fun t => t.value.column? targets = some k).map (Signed.map Product.withoutLast)

/-- The terms of a row that stay. -/
def Sorting.kept (targets : List ArrayId) (terms : List (Signed Product)) :
    List (Signed Product) :=
  terms.filter fun t => t.value.column? targets = none

namespace Sorting

variable {targets : List ArrayId} {sorting sorting' sorting'' : Sorting} {v : BlockVector}
  {new new' : Nat → List (Signed Product)} {row : Nat} {t : Signed Product}

@[simp] theorem moved_append (k : Nat) (xs ys : List (Signed Product)) :
    moved targets k (xs ++ ys) = moved targets k xs ++ moved targets k ys := by
  simp [moved]

@[simp] theorem kept_append (xs ys : List (Signed Product)) :
    kept targets (xs ++ ys) = kept targets xs ++ kept targets ys := by
  simp [kept]

/-- A sorting to which new terms of every row have been added. -/
structure Adds (targets : List ArrayId) (new : Nat → List (Signed Product))
    (sorting sorting' : Sorting) : Prop where
  size : ∀ {n}, sorting.matrix.HasSize n targets.length →
    sorting'.matrix.HasSize n targets.length
  rows : sorting'.remainder.rows = sorting.remainder.rows
  entry : ∀ i k, sorting'.matrix.entry i k =
    sorting.matrix.entry i k ++ moved targets k (new i)
  row : ∀ i, sorting'.remainder.row i = sorting.remainder.row i ++ kept targets (new i)

namespace Adds

theorem refl : Adds targets (fun _ => []) sorting sorting where
  size hasSize := hasSize
  rows := rfl
  entry _ _ := (List.append_nil _).symm
  row _ := (List.append_nil _).symm

theorem trans (first : Adds targets new sorting sorting')
    (second : Adds targets new' sorting' sorting'') :
    Adds targets (fun i => new i ++ new' i) sorting sorting'' where
  size hasSize := second.size (first.size hasSize)
  rows := second.rows.trans first.rows
  entry i k := by rw [second.entry, first.entry, moved_append, List.append_assoc]
  row i := by rw [second.row, first.row, kept_append, List.append_assoc]

theorem congr (adds : Adds targets new sorting sorting') (same : ∀ i, new i = new' i) :
    Adds targets new' sorting sorting' :=
  funext same ▸ adds

end Adds

/-! ## Sorting runs -/

theorem place_adds (run : sorting.place targets row t = .ok sorting') :
    Adds targets (fun i => if i = row then [t] else []) sorting sorting' := by
  rw [place] at run
  cases column : t.value.column? targets with
  | some k =>
    simp only [column, Outcome.bind_eq_ok, Outcome.pure_eq_ok] at run
    obtain ⟨matrix, pushed, rfl⟩ := run
    obtain ⟨size, entry⟩ := BlockMatrix.push_spec pushed
    refine ⟨size, rfl, fun i l => ?_, fun i => ?_⟩
    · rw [entry]
      by_cases sameRow : i = row
      · by_cases sameColumn : l = k
        · simp [moved, sameRow, sameColumn, column, Signed.map]
        · simp [moved, sameRow, sameColumn, Ne.symm sameColumn, column]
      · simp [moved, sameRow]
    · by_cases sameRow : i = row <;> simp [kept, sameRow, column]
  | none =>
    simp only [column, Outcome.bind_eq_ok, Outcome.pure_eq_ok] at run
    obtain ⟨remainder, pushed, rfl⟩ := run
    obtain ⟨-, rows, entry⟩ := BlockVector.push_spec pushed
    refine ⟨fun size => size, rows, fun i l => ?_, fun i => ?_⟩
    · by_cases sameRow : i = row <;> simp [moved, sameRow, column]
    · rw [entry]
      by_cases sameRow : i = row <;> simp [kept, sameRow, column]

theorem placeRow_adds {terms : List (Signed Product)}
    (run : terms.foldlM (fun sorting t => place targets sorting row t) sorting = .ok sorting') :
    Adds targets (fun i => if i = row then terms else []) sorting sorting' := by
  induction terms generalizing sorting with
  | nil =>
    cases Outcome.pure_eq_ok.1 run
    exact Adds.refl.congr fun i => by split <;> rfl
  | cons t terms ih =>
    rw [List.foldlM_cons] at run
    obtain ⟨mid, first, rest⟩ := Outcome.bind_eq_ok.1 run
    exact ((place_adds first).trans (ih rest)).congr fun i => by split <;> rfl

theorem placeRows_adds {cells : List BlockCell} {start : Nat}
    (run : (cells.zipIdx start).foldlM (fun sorting (cell, row) =>
      cell.terms.foldlM (fun sorting t => place targets sorting row t) sorting) sorting =
        .ok sorting') :
    Adds targets (fun i => if i < start then [] else
      ((cells[i - start]?).map BlockCell.terms).getD []) sorting sorting' := by
  induction cells generalizing sorting start with
  | nil =>
    cases Outcome.pure_eq_ok.1 run
    exact Adds.refl.congr fun i => by simp
  | cons cell cells ih =>
    rw [List.zipIdx_cons, List.foldlM_cons] at run
    obtain ⟨mid, first, rest⟩ := Outcome.bind_eq_ok.1 run
    refine ((placeRow_adds first).trans (ih rest)).congr fun i => ?_
    rcases Nat.lt_trichotomy i start with before | rfl | behind
    · simp [before, Nat.ne_of_lt before, Nat.lt_succ_of_lt before]
    · simp
    · obtain ⟨d, rfl⟩ := Nat.exists_eq_add_of_lt behind
      have next : start + d + 1 - start = d + 1 := by omega
      have next' : start + d + 1 - (start + 1) = d := by omega
      rw [if_neg (by omega), if_neg (by omega), if_neg (by omega), next, next',
        List.getElem?_cons_succ, List.nil_append]

/-- What sorting a block vector makes of its rows. -/
theorem run_spec {r : Sorting} (run : Sorting.run targets v = .ok r) :
    r.matrix.HasSize v.rows targets.length ∧ r.remainder.rows = v.rows ∧
      (∀ i k, r.matrix.entry i k = moved targets k (v.row i)) ∧
      ∀ i, r.remainder.row i = kept targets (v.row i) := by
  have adds := placeRows_adds run
  refine ⟨adds.size (BlockMatrix.hasSize_empty _ _), ?_, fun i k => ?_, fun i => ?_⟩
  · rw [adds.rows, BlockVector.rows_empty]
  · rw [adds.entry, BlockMatrix.entry_empty, List.nil_append]
    rfl
  · rw [adds.row, BlockVector.row_empty, List.nil_append]
    rfl

end Sorting

/-! ## Outlines of terms -/

/-- The factor of a product and its arrays, each with whether it is transposed. -/
abbrev Outline : Type :=
  ScalarId × List (ArrayId × Bool)

/-- An outline with an array added as the last one, not transposed. -/
def Outline.followedBy (a : ArrayId) (o : Outline) : Outline :=
  (o.1, o.2 ++ [(a, false)])

namespace Product

def outline (p : Product) : Outline :=
  (p.factor, p.chain.map fun link => (link.array, link.transposed))

/-- The last link of a product is an array that is not transposed. -/
def EndsWith (p : Product) (a : ArrayId) : Prop :=
  ∃ link, p.chain.getLast? = some link ∧ link.array = a ∧ link.transposed = false

variable {p : Product} {a : ArrayId} {targets : List ArrayId} {k : Nat}

theorem outline_withoutLast (ends : p.EndsWith a) :
    p.withoutLast.outline.followedBy a = p.outline := by
  obtain ⟨link, last, rfl, plain⟩ := ends
  have split := List.dropLast_append_getLast? link last
  rw [outline, outline, withoutLast, Outline.followedBy]
  dsimp only
  conv_rhs => rw [← split]
  rw [List.map_append, List.map_singleton, plain]

theorem column?_eq (p : Product) (targets : List ArrayId) : p.column? targets =
    p.chain.getLast?.bind fun link =>
      if link.transposed then none else targets.idxOf? link.array :=
  rfl

theorem EndsWith.column?_eq (ends : p.EndsWith a) : p.column? targets = targets.idxOf? a := by
  obtain ⟨link, last, rfl, plain⟩ := ends
  rw [Product.column?_eq, last, Option.bind_some, plain]
  rfl

/-- A term goes into the column of the first target that it ends with. -/
theorem column?_eq_some : p.column? targets = some k ↔
    ∃ a, p.EndsWith a ∧ targets.idxOf? a = some k := by
  constructor
  · intro column
    rw [Product.column?_eq] at column
    obtain ⟨link, last, found⟩ := Option.bind_eq_some_iff.1 column
    split at found
    · cases found
    · rename_i plain
      exact ⟨link.array, ⟨link, last, rfl, by simpa using plain⟩, found⟩
  · intro given
    rcases given with ⟨a, ends, found⟩
    rw [ends.column?_eq, found]

theorem column?_eq_none : p.column? targets = none ↔ ∀ a ∈ targets, ¬ p.EndsWith a := by
  constructor
  · intro column a member ends
    rw [ends.column?_eq, List.idxOf?_eq_none_iff] at column
    exact column member
  · intro none
    cases column : p.column? targets with
    | none => rfl
    | some k =>
      obtain ⟨a, ends, found⟩ := column?_eq_some.1 column
      obtain ⟨held, rfl, -⟩ := List.idxOf?_eq_some_iff.1 found
      exact absurd ends (none _ (List.getElem_mem held))

end Product

/-! ## No term is lost -/

/-- The members of a list grouped by a key below a bound, then those without a key. -/
theorem perm_grouped {α : Type} (key : α → Option Nat) (n : Nat) (xs : List α)
    (bounded : ∀ x ∈ xs, ∀ k, key x = some k → k < n) :
    ((List.range n).flatMap (fun k => xs.filter fun x => key x = some k) ++
      xs.filter fun x => key x = none).Perm xs := by
  have below : ∀ n, ((List.range n).flatMap fun k => xs.filter fun x => key x = some k).Perm
      (xs.filter fun x => (key x).any (· < n)) := by
    intro n
    induction n with
    | zero => simp
    | succ n ih =>
      have split := List.filter_append_perm (fun x => (key x).any (· < n))
        (xs.filter fun x => (key x).any (· < n + 1))
      have older : ∀ x, ((key x).any (· < n) && (key x).any (· < n + 1)) = (key x).any (· < n) := by
        intro x
        cases key x <;> simp
        omega
      have newest : ∀ x, (!(key x).any (· < n) && (key x).any (· < n + 1)) =
          decide (key x = some n) := by
        intro x
        rw [Bool.eq_iff_iff]
        cases key x <;> simp
        omega
      simp only [List.filter_filter, older, newest] at split
      rw [List.range_succ, List.flatMap_append, List.flatMap_singleton]
      exact (ih.append_right _).trans split
  have keyed : ∀ x ∈ xs, (key x).any (· < n) = !decide (key x = none) := by
    intro x member
    cases found : key x with
    | none => rfl
    | some k => simpa using bounded x member k found
  have grouped := below n
  rw [List.filter_congr keyed] at grouped
  exact ((grouped.append_right _).trans List.perm_append_comm).trans
    (List.filter_append_perm (fun x => decide (key x = none)) xs)

/-- The terms that move into the columns, with their targets put back, and the terms that
stay are those of the row. -/
theorem Sorting.perm_outlines (targets : List ArrayId) (terms : List (Signed Product)) :
    ((targets.zipIdx.flatMap fun (a, k) => (moved targets k terms).map
        (Signed.map fun p => p.outline.followedBy a)) ++
      (kept targets terms).map (Signed.map Product.outline)).Perm
      (terms.map (Signed.map Product.outline)) := by
  have restored : ∀ entry ∈ targets.zipIdx,
      (moved targets entry.2 terms).map (Signed.map fun p => p.outline.followedBy entry.1) =
        (terms.filter fun t => t.value.column? targets = some entry.2).map
          (Signed.map Product.outline) := by
    intro entry member
    obtain ⟨a, k⟩ := entry
    rw [moved, List.map_map]
    refine List.map_congr_left fun t inside => ?_
    have column := of_decide_eq_true (List.mem_filter.1 inside).2
    obtain ⟨b, ends, found⟩ := Product.column?_eq_some.1 column
    obtain ⟨held, same, -⟩ := List.idxOf?_eq_some_iff.1 found
    have known := List.mk_mem_zipIdx_iff_getElem?.1 member
    rw [List.getElem?_eq_getElem held, same] at known
    cases known
    exact congrArg (Signed.mk t.sign) (Product.outline_withoutLast ends)
  have bounded : ∀ t ∈ terms, ∀ k, t.value.column? targets = some k → k < targets.length := by
    intro t _ k column
    obtain ⟨a, -, found⟩ := Product.column?_eq_some.1 column
    exact (List.idxOf?_eq_some_iff.1 found).1
  have grouped := (perm_grouped _ targets.length terms bounded).map (Signed.map Product.outline)
  rw [List.map_append, List.map_flatMap, List.range_eq_range', ← List.zipIdx_map_snd 0 targets,
    List.flatMap_map] at grouped
  rw [List.flatMap_congr restored]
  exact grouped

end Variational
