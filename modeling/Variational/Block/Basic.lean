import Variational.Equation
import Variational.Linear.Basic

/-!
# Block cells, vectors and matrices

A cell holds signed products that are summed. All products of a cell that have a
shape have the same one.
-/

namespace Variational

/-! ## Cells -/

/-- Signed products summed in one block. -/
@[ext] structure BlockCell where
  terms : List (Signed Product) := []
deriving DecidableEq, Repr

namespace BlockCell

def isEmpty (cell : BlockCell) : Bool :=
  cell.terms.isEmpty

def size (cell : BlockCell) : Nat :=
  cell.terms.length

/-- The shape of the first product that has one. -/
def shape? (cell : BlockCell) : Option Shape :=
  cell.terms.findSome? fun t => t.value.shape?

/-- Adds a product, whose shape must be that of the cell if both have one. -/
def push (cell : BlockCell) (t : Signed Product) : Outcome BlockCell :=
  match cell.shape?, t.value.shape? with
  | some old, some new =>
    if old = new then
      .ok ⟨cell.terms ++ [t]⟩
    else
      reject (.structural (.cellShape new.rows new.cols old.rows old.cols))
  | _, _ => .ok ⟨cell.terms ++ [t]⟩

end BlockCell

/-! ## Vectors -/

/-- A column of cells. -/
@[ext] structure BlockVector where
  cells : List BlockCell
deriving DecidableEq, Repr

namespace BlockVector

/-- The column with the given number of empty cells. -/
def empty (rows : Nat) : BlockVector :=
  ⟨List.replicate rows {}⟩

def rows (v : BlockVector) : Nat :=
  v.cells.length

def get? (v : BlockVector) (i : Nat) : Option BlockCell :=
  v.cells[i]?

/-- Whether all cells are empty. -/
def isEmpty (v : BlockVector) : Bool :=
  v.cells.all BlockCell.isEmpty

/-- Adds a product to a cell. -/
def push (v : BlockVector) (i : Nat) (t : Signed Product) : Outcome BlockVector :=
  match v.get? i with
  | none => reject (.index s!"{i}" (.vectorRows v.rows))
  | some cell => do return ⟨v.cells.set i (← cell.push t)⟩

end BlockVector

/-! ## Matrices -/

/-- Rows of cells, all with the same number of columns. -/
@[ext] structure BlockMatrix where
  cols : Nat
  rows : List (List BlockCell)
deriving DecidableEq, Repr

namespace BlockMatrix

/-- The matrix of the given size with empty cells. -/
def empty (rows cols : Nat) : BlockMatrix :=
  ⟨cols, List.replicate rows (List.replicate cols {})⟩

/-- The cell in a row and a column. -/
def get? (m : BlockMatrix) (i j : Nat) : Option BlockCell := do
  let row ← m.rows[i]?
  row[j]?

/-- Whether all cells are empty. -/
def isEmpty (m : BlockMatrix) : Bool :=
  m.rows.all fun row => row.all BlockCell.isEmpty

/-- Adds a product to a cell. -/
def push (m : BlockMatrix) (i j : Nat) (t : Signed Product) : Outcome BlockMatrix :=
  match m.rows[i]?, m.get? i j with
  | some row, some cell => do
    let cell ← cell.push t
    return { m with rows := m.rows.set i (row.set j cell) }
  | _, _ => reject (.index s!"{i},{j}" (.matrixShape m.rows.length m.cols))

end BlockMatrix

end Variational
