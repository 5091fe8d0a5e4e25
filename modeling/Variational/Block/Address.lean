import Variational.Block.System

/-!
# Addresses of blocks

A block is addressed by `a-b` or `a-b,c`. Here `a` counts the left sections, the
left remainder unless it is empty, the right sections and the right remainder
unless it is empty. In a section, `b` is a row of the unknowns and `b,c` a cell
of the matrix; in a remainder, `b` is a row.
-/

namespace Variational

/-- A part of a block system that is addressed by one number. -/
inductive Block
  | gathered (s : Section)
  | remainder (v : BlockVector)
deriving DecidableEq, Repr

namespace Block

/-- The cell at a position of a block; another number of positions than the block has is
rejected. -/
def cell (address : String) (block : Block) (positions : List Nat) : Outcome BlockCell :=
  let found : Option (Option BlockCell) :=
    match block, positions with
    | .gathered s, [row] => some (s.unknowns.get? row)
    | .gathered s, [row, column] => some (s.matrix.get? row column)
    | .remainder v, [row] => some (v.get? row)
    | _, _ => none
  match found with
  | none => reject (.index address .positionCount)
  | some none => reject (.index address .outsideBlock)
  | some (some cell) => .ok cell

end Block

/-- The blocks of one side. An empty remainder is not counted. -/
def BlockSide.blocks (side : BlockSide) : List Block :=
  side.sections.map Block.gathered ++
    if side.remainder.isEmpty then [] else [Block.remainder side.remainder]

namespace BlockSystem

/-- All blocks in the order of their numbers. -/
def blocks (b : BlockSystem) : List Block :=
  b.left.blocks ++ b.right.blocks

/-- Reads the number of a block and the positions in it. -/
def readAddress (address : String) : Outcome (Nat × List Nat) := do
  let front := address.toList.takeWhile (· ≠ '-')
  match address.toList.dropWhile (· ≠ '-') with
  | [] => reject (.index address .notABlockAddress)
  | _ :: back =>
    match Text.readIndex (Text.trim front) with
    | none => reject (.index address .blockNotANumber)
    | some block =>
      match (Text.pieces ',' back).mapM fun piece => Text.readIndex (Text.trim piece) with
      | none => reject (.index address .positionNotNumbers)
      | some positions => return (block, positions)

/-- The cell at an address. -/
def cell (b : BlockSystem) (address : String) : Outcome BlockCell := do
  let (number, positions) ← readAddress address
  match b.blocks[number]? with
  | none => reject (.index address (.blockCount b.blocks.length))
  | some block => block.cell address positions

end BlockSystem

end Variational
