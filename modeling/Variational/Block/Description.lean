import Variational.Block.System
import Variational.Document

/-!
# Descriptions of block systems

A description of all blocks for a numeric backend, in which scalars and arrays
are given by their labels, kinds and shapes instead of ids. It is handed over as
a document.
-/

namespace Variational

/-- The description of a link. -/
structure LinkDescription where
  lin : String
  kind : ArrayKind
  transposed : Bool
  shape : Shape
deriving DecidableEq, Repr

/-- The description of a signed product. -/
structure TermDescription where
  sign : Sign
  factor : String
  factorValue : Option Float
  components : List LinkDescription

/-- The description of a cell: those of its terms. -/
abbrev CellDescription := List TermDescription

/-- The description of a section: the rows of its matrix, and its unknowns. -/
structure SectionDescription where
  matrix : List (List CellDescription)
  unknowns : List CellDescription

/-- The description of one side. -/
structure SideDescription where
  sections : List SectionDescription
  remainder : List CellDescription

/-- The description of a block system. -/
structure SystemDescription where
  unknowns : List String
  testVectors : List String
  left : SideDescription
  right : SideDescription

def Link.describe (s : Session) (link : Link) : Outcome LinkDescription := do
  let a ← s.array link.array
  return {
    lin := s.arrayLin a, kind := a.kind, transposed := link.transposed, shape := link.shape }

def Product.describe (s : Session) (t : Signed Product) : Outcome TermDescription := do
  let factor ← s.scalar t.value.factor
  return {
    sign := t.sign
    factor := factor.lin
    factorValue := factor.value
    components := ← t.value.chain.mapM (Link.describe s) }

def BlockCell.describe (s : Session) (cell : BlockCell) : Outcome CellDescription :=
  cell.terms.mapM (Product.describe s)

def BlockVector.describe (s : Session) (v : BlockVector) : Outcome (List CellDescription) :=
  v.cells.mapM (BlockCell.describe s)

def Section.describe (s : Session) (sec : Section) : Outcome SectionDescription := do
  return {
    matrix := ← sec.matrix.rows.mapM fun row => row.mapM (BlockCell.describe s)
    unknowns := ← sec.unknowns.describe s }

def BlockSide.describe (s : Session) (side : BlockSide) : Outcome SideDescription := do
  return {
    sections := ← side.sections.mapM (Section.describe s)
    remainder := ← side.remainder.describe s }

/-- Describes all blocks of a system. -/
def BlockSystem.describe (s : Session) (b : BlockSystem) : Outcome SystemDescription := do
  return {
    unknowns := ← b.unknowns.mapM fun a => return s.arrayLin (← s.array a)
    testVectors := ← b.testVectors.mapM fun a => return s.arrayLin (← s.array a)
    left := ← b.left.describe s
    right := ← b.right.describe s }

/-! ## Descriptions as documents -/

def Shape.toDocument (shape : Shape) : Document :=
  .record [("rows", .text shape.rows), ("cols", .text shape.cols)]

def ArrayKind.toDocument : ArrayKind → Document
  | .vector f => .record [("Vector", .record [("form", .natural f.index)])]
  | .massMatrix space => .record [("MassMatrix", .record [("space", .natural space.index)])]
  | .incidenceMatrix space =>
    .record [("IncidenceMatrix", .record [("space", .natural space.index)])]
  | .wedgeVector f testSpace =>
    .record [("WedgeVector",
      .record [("form", .natural f.index), ("test_space", .natural testSpace.index)])]

def LinkDescription.toDocument (l : LinkDescription) : Document :=
  .record [("lin", .text l.lin), ("kind", l.kind.toDocument), ("transposed", .truth l.transposed),
    ("shape", l.shape.toDocument)]

def TermDescription.toDocument (t : TermDescription) : Document :=
  .record [("sign", .text t.sign.text), ("factor", .text t.factor),
    ("factor_value", (t.factorValue.map Document.number).getD .missing),
    ("components", .list (t.components.map LinkDescription.toDocument))]

def CellDescription.toDocument (c : CellDescription) : Document :=
  .record [("terms", .list (c.map TermDescription.toDocument))]

def SectionDescription.toDocument (d : SectionDescription) : Document :=
  .record [
    ("matrix", .list (d.matrix.map fun row => .list (row.map CellDescription.toDocument))),
    ("unknowns", .list (d.unknowns.map CellDescription.toDocument))]

def SystemDescription.toDocument (d : SystemDescription) : Document :=
  .record [
    ("unknowns", .list (d.unknowns.map .text)),
    ("test_vectors", .list (d.testVectors.map .text)),
    ("left_sections", .list (d.left.sections.map SectionDescription.toDocument)),
    ("left_remainder", .list (d.left.remainder.map CellDescription.toDocument)),
    ("right_sections", .list (d.right.sections.map SectionDescription.toDocument)),
    ("right_remainder", .list (d.right.remainder.map CellDescription.toDocument))]

end Variational
