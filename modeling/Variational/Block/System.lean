import Variational.Block.Basic
import Variational.WeakForm.Algebraic

/-!
# Block systems

After the test vectors are stripped, the terms of every equation are sorted into
sections `A x`, with a block matrix `A` and a block vector `x` of unknowns, and a
remainder of known data. Gathering moves the terms that end with one of the
given targets into a new section on their side.
-/

namespace Variational

/-- A block matrix times a block vector of unknowns. -/
structure Section where
  matrix : BlockMatrix
  unknowns : BlockVector
deriving DecidableEq, Repr

/-- One side of a block system: its sections, and the terms in none of them. -/
structure BlockSide where
  sections : List Section := []
  remainder : BlockVector
deriving DecidableEq, Repr

/-- A system of equations between sums of sections and remainders. -/
structure BlockSystem where
  testVectors : List ArrayId
  /-- All targets gathered so far, in order. -/
  unknowns : List ArrayId
  left : BlockSide
  right : BlockSide
deriving DecidableEq, Repr

/-- What terms can be gathered for: the vector of a form, or an array. -/
inductive Target
  | form (f : FormId)
  | array (a : ArrayId)
deriving DecidableEq, Repr

/-- How far a system is assembled. -/
inductive AssemblyStatus
  /-- No term is in a section. -/
  | unassembled
  /-- Some terms are in sections, and some known data remains. -/
  | partiallyAssembled
  /-- Every term is in a section. -/
  | assembled
deriving DecidableEq, Repr

/-! ## Building systems -/

/-- A product without the transposed test vector that it starts with. -/
def Product.stripTestVector (s : Session) (testVector : ArrayId) (p : Product) :
    Outcome Product := do
  match p.chain with
  | link :: _ =>
    if link.array = testVector ∧ link.transposed then
      return p.withoutFirst
  | [] => pure ()
  let vector ← s.array testVector
  reject (.structural (.testVector (s.arrayLin vector) (← p.lin s)))

/-- Adds the terms of one side of an equation to a row, without their test vector. -/
def BlockVector.pushStripped (s : Session) (row : Nat) (testVector : ArrayId) (v : BlockVector)
    (terms : List (Signed Product)) : Outcome BlockVector :=
  terms.foldlM (fun v t => do
    v.push row ⟨t.sign, ← t.value.stripTestVector s testVector⟩) v

namespace BlockSystem

/-- The system without sections for equations of products that start with the transposed
test vector of their equation. -/
def ofProducts (s : Session) (testVectors : List ArrayId) (equations : List (Equation Product)) :
    Outcome BlockSystem := do
  if equations.length ≠ testVectors.length then
    reject (.structural (.testVectorCount equations.length testVectors.length))
  let empty := BlockVector.empty equations.length
  let (left, right) ← (equations.zip testVectors).zipIdx.foldlM
    (fun (left, right) ((e, testVector), i) => do
      let left ← left.pushStripped s i testVector e.left
      let right ← right.pushStripped s i testVector e.right
      return (left, right)) (empty, empty)
  return {
    testVectors
    unknowns := []
    left := { remainder := left }
    right := { remainder := right } }

/-- The number of equations. -/
def size (b : BlockSystem) : Nat :=
  b.testVectors.length

def status (b : BlockSystem) : AssemblyStatus :=
  if b.left.sections.isEmpty && b.right.sections.isEmpty then
    .unassembled
  else if b.left.remainder.isEmpty && b.right.remainder.isEmpty then
    .assembled
  else
    .partiallyAssembled

end BlockSystem

/-! ## Gathering terms -/

/-- The first target that a product ends with, if its last link is not transposed. -/
def Product.column? (targets : List ArrayId) (p : Product) : Option Nat := do
  let last ← p.chain.getLast?
  if last.transposed then none else targets.idxOf? last.array

/-- Terms that are being sorted into a matrix and a remainder. -/
structure Sorting where
  matrix : BlockMatrix
  remainder : BlockVector
deriving DecidableEq, Repr

/-- Sorts a term of a row. -/
def Sorting.place (targets : List ArrayId) (sorting : Sorting) (row : Nat) (t : Signed Product) :
    Outcome Sorting :=
  match t.value.column? targets with
  | some column => do
    return { sorting with
      matrix := ← sorting.matrix.push row column ⟨t.sign, t.value.withoutLast⟩ }
  | none => do return { sorting with remainder := ← sorting.remainder.push row t }

/-- Sorts all terms of a column of cells, row by row. -/
def Sorting.run (targets : List ArrayId) (v : BlockVector) : Outcome Sorting :=
  v.cells.zipIdx.foldlM
    (fun sorting (cell, row) =>
      cell.terms.foldlM (fun sorting t => sorting.place targets row t) sorting)
    ⟨.empty v.rows targets.length, .empty v.rows⟩

/-- Gathers the terms of one side. A section is made only if a term goes into it. -/
def BlockSide.gather (side : BlockSide) (targets : List ArrayId) (unknowns : BlockVector) :
    Outcome BlockSide := do
  let sorting ← Sorting.run targets side.remainder
  return {
    sections :=
      if sorting.matrix.isEmpty then side.sections
      else side.sections ++ [⟨sorting.matrix, unknowns⟩]
    remainder := sorting.remainder }

/-- The array of a target. -/
def Target.array? : Target → Derive ArrayId
  | .form f => RootArray.vector f
  | .array a => pure a

/-- The column of the given arrays, each with the factor one. -/
def BlockVector.ofArrays (arrays : List ArrayId) : Derive BlockVector := do
  arrays.zipIdx.foldlM (fun v (a, i) => do
    v.push i ⟨.plus, ← (Product.single a : Derive _)⟩) (BlockVector.empty arrays.length)

namespace BlockSystem

/-- Moves every remaining term that ends with one of the target vectors into a new section
on its side. -/
def gather (b : BlockSystem) (targets : List Target) : Derive BlockSystem := do
  let arrays ← targets.mapM Target.array?
  let unknowns ← BlockVector.ofArrays arrays
  let left ← b.left.gather arrays unknowns
  let right ← b.right.gather arrays unknowns
  return { b with
    left, right
    unknowns := arrays.foldl (fun known a => if a ∈ known then known else known ++ [a])
      b.unknowns }

/-- The product of an algebraic entry; a term that was not converted is rejected. -/
def entryProduct (entry : Signed AlgebraicEntry) : Outcome (Signed Product) :=
  match entry.value.term with
  | .product p => .ok ⟨entry.sign, p⟩
  | .symbolic t =>
    reject (.unsupported (.noAlgebraicForm entry.value.position.text t.lin))

/-- The system of an algebraic system, gathered for its unknowns. -/
def ofAlgebraic (a : AlgebraicSystem) : Derive BlockSystem := do
  let equations ← (a.equations.mapM fun e => do
    return (⟨← e.left.mapM entryProduct, ← e.right.mapM entryProduct⟩ : Equation Product)
      : Outcome _)
  let system ← ofProducts (← get) a.testVectors equations
  system.gather (a.unknowns.map Target.array)

/-- The system of a weak formulation, gathered for its unknowns. -/
def create (w : WeakFormulation) : Derive BlockSystem := do
  ofAlgebraic (← AlgebraicSystem.create w)

end BlockSystem

end Variational
