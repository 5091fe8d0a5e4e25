import Variational.Block.System
import Variational.Proofs.Session.Execution

/-!
# Rows of vectors and entries of matrices

A block vector is seen as a row of terms for every index, and a block matrix as an
entry of terms for every pair of indices. Adding a product appends it to one row or
entry and leaves the others alone.
-/

namespace Variational

theorem BlockCell.terms_push {cell cell' : BlockCell} {t : Signed Product}
    (run : cell.push t = .ok cell') : cell'.terms = cell.terms ++ [t] := by
  rw [push] at run
  split at run
  · split at run
    · cases run
      rfl
    · simp at run
  · cases run
    rfl

/-! ## Vectors -/

namespace BlockVector

/-- The terms in a row. Rows outside the vector have none. -/
def row (v : BlockVector) (i : Nat) : List (Signed Product) :=
  ((v.get? i).map BlockCell.terms).getD []

variable {v v' : BlockVector} {i : Nat} {t : Signed Product}

@[simp] theorem row_empty (n i : Nat) : (empty n).row i = [] := by
  by_cases inside : i < n <;> simp [row, get?, empty, inside]

@[simp] theorem rows_empty (n : Nat) : (empty n).rows = n := by
  simp [rows, empty]

theorem push_spec (run : v.push i t = .ok v') : i < v.rows ∧ v'.rows = v.rows ∧
    ∀ j, v'.row j = v.row j ++ if j = i then [t] else [] := by
  rw [push] at run
  cases found : v.get? i with
  | none => simp [found] at run
  | some cell =>
    simp only [found, Outcome.bind_eq_ok, Outcome.pure_eq_ok] at run
    obtain ⟨cell', pushed, rfl⟩ := run
    have inside : i < v.cells.length := (List.getElem?_eq_some_iff.1 found).1
    refine ⟨inside, by simp [rows], fun j => ?_⟩
    by_cases same : j = i
    · subst same
      have set : (⟨v.cells.set j cell'⟩ : BlockVector).get? j = some cell' :=
        List.getElem?_set_self inside
      rw [row, row, set, found, if_pos rfl]
      exact BlockCell.terms_push pushed
    · have kept : (⟨v.cells.set i cell'⟩ : BlockVector).get? j = v.get? j :=
        List.getElem?_set_ne (Ne.symm same)
      rw [row, row, kept, if_neg same, List.append_nil]

end BlockVector

/-! ## Matrices -/

namespace BlockMatrix

/-- The terms of an entry. Entries outside the matrix have none. -/
def entry (m : BlockMatrix) (i j : Nat) : List (Signed Product) :=
  ((m.get? i j).map BlockCell.terms).getD []

/-- The matrix has a number of rows, and as many cells in each as it has columns. -/
structure HasSize (m : BlockMatrix) (rows cols : Nat) : Prop where
  width : m.cols = cols
  height : m.rows.length = rows
  cells : ∀ row ∈ m.rows, row.length = cols

variable {m m' : BlockMatrix} {i j rows cols : Nat} {t : Signed Product}

theorem hasSize_empty (rows cols : Nat) : (empty rows cols).HasSize rows cols where
  width := rfl
  height := List.length_replicate
  cells row member := by
    rw [List.eq_of_mem_replicate member, List.length_replicate]

@[simp] theorem entry_empty (rows cols i j : Nat) : (empty rows cols).entry i j = [] := by
  by_cases inside : i < rows
  · by_cases inside' : j < cols <;> simp [entry, get?, empty, inside, inside']
  · simp [entry, get?, empty, inside]

theorem push_spec (run : m.push i j t = .ok m') :
    (∀ {rows cols}, m.HasSize rows cols → m'.HasSize rows cols) ∧
      ∀ k l, m'.entry k l = m.entry k l ++ if k = i ∧ l = j then [t] else [] := by
  rw [push] at run
  cases foundRow : m.rows[i]? with
  | none => simp [foundRow] at run
  | some row =>
    cases found : m.get? i j with
    | none => simp [foundRow, found] at run
    | some cell =>
      simp only [foundRow, found, Outcome.bind_eq_ok, Outcome.pure_eq_ok] at run
      obtain ⟨cell', pushed, rfl⟩ := run
      have insideRow : i < m.rows.length := (List.getElem?_eq_some_iff.1 foundRow).1
      have foundCell : row[j]? = some cell := by
        simpa [get?, foundRow] using found
      have inside : j < row.length := (List.getElem?_eq_some_iff.1 foundCell).1
      refine ⟨fun size => ⟨size.width, by simpa using size.height, fun other member => ?_⟩,
        fun k l => ?_⟩
      · rcases List.mem_or_eq_of_mem_set member with old | rfl
        · exact size.cells other old
        · rw [List.length_set]
          exact size.cells row (List.mem_of_getElem? foundRow)
      · by_cases sameRow : k = i
        · subst sameRow
          have set : (⟨m.cols, m.rows.set k (row.set j cell')⟩ : BlockMatrix).get? k l =
              (row.set j cell')[l]? := by
            simp [get?, insideRow]
          have old : m.get? k l = row[l]? := by
            simp [get?, foundRow]
          rw [entry, entry, set, old]
          by_cases same : l = j
          · subst same
            rw [List.getElem?_set_self inside, foundCell, if_pos ⟨rfl, rfl⟩]
            exact BlockCell.terms_push pushed
          · rw [List.getElem?_set_ne (Ne.symm same), if_neg fun both => same both.2,
              List.append_nil]
        · have kept : (⟨m.cols, m.rows.set i (row.set j cell')⟩ : BlockMatrix).get? k l =
              m.get? k l := by
            simp [get?, List.getElem?_set_ne (Ne.symm sameRow)]
          rw [entry, entry, kept, if_neg fun both => sameRow both.1, List.append_nil]

theorem entry_eq_nil_of_isEmpty (empty : m.isEmpty = true) (i j : Nat) : m.entry i j = [] := by
  rw [entry]
  cases found : m.get? i j with
  | none => rfl
  | some cell =>
    rw [get?] at found
    obtain ⟨row, foundRow, foundCell⟩ := Option.bind_eq_some_iff.1 found
    have all := List.all_eq_true.1 empty row (List.mem_of_getElem? foundRow)
    have all' := List.all_eq_true.1 all cell (List.mem_of_getElem? foundCell)
    simpa [BlockCell.isEmpty] using all'

end BlockMatrix

end Variational
