import Variational.Rejection

/-!
# Arrays as data

A root array is a named vector or matrix. A product is a scalar factor times a
chain of root arrays, each of them possibly transposed.
-/

namespace Variational

/-- The labels of the row and column index sets of an array. -/
structure Shape where
  rows : String
  cols : String
deriving DecidableEq, Repr

def Shape.transposed (shape : Shape) : Shape :=
  ⟨shape.cols, shape.rows⟩

/-- What a root array stands for. -/
inductive ArrayKind
  /-- The coefficient vector of a root form. -/
  | vector (form : FormId)
  | massMatrix (space : SpaceId)
  /-- The incidence matrix of the exterior derivative on a space. -/
  | incidenceMatrix (space : SpaceId)
  /-- The boundary pairing of a form with the test functions of a space. -/
  | wedgeVector (form : FormId) (testSpace : SpaceId)
deriving DecidableEq, Repr

/-- A named vector or matrix. Its linguistic label is pure, without a wrapper. -/
structure RootArray where
  sym : String
  pureLin : String
  shape : Shape
  kind : ArrayKind
deriving DecidableEq, Repr

/-- One factor of a chain, with its shape after transposition. -/
structure Link where
  array : ArrayId
  transposed : Bool
  shape : Shape
deriving DecidableEq, Repr

/-- A scalar factor times a chain of arrays. An empty chain stands for the factor times
the identity and has no shape. -/
structure Product where
  factor : ScalarId
  chain : List Link
deriving DecidableEq, Repr

namespace Product

/-- The first pair of neighbours whose shapes do not fit. -/
def firstBreak : List Link → Option (Link × Link)
  | first :: second :: rest =>
    if first.shape.cols = second.shape.rows then firstBreak (second :: rest)
    else some (first, second)
  | _ => none

/-- The product of a factor and a chain in which neighbouring shapes fit. -/
def create (factor : ScalarId) (chain : List Link) : Outcome Product :=
  match firstBreak chain with
  | some (a, b) =>
    reject (.structural
      (.brokenChain a.shape.rows a.shape.cols b.shape.rows b.shape.cols))
  | none => .ok ⟨factor, chain⟩

/-- The rows of the first link and the columns of the last one. -/
def shape? (p : Product) : Option Shape := do
  let first ← p.chain.head?
  let last ← p.chain.getLast?
  return ⟨first.shape.rows, last.shape.cols⟩

/-- The product without its leftmost array. -/
def withoutFirst (p : Product) : Product :=
  { p with chain := p.chain.tail }

/-- The product without its rightmost array. -/
def withoutLast (p : Product) : Product :=
  { p with chain := p.chain.dropLast }

end Product

end Variational
