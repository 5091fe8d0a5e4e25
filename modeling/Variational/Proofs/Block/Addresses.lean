import Variational.Block.Address
import Variational.Proofs.Block.Conservation
import Variational.Proofs.WeakForm.Patterns

/-!
# Addresses of cells

The blocks of a system are numbered without gaps: the left sections, the left remainder if it
holds terms, the right sections and the right remainder if it holds terms. A text is the
address of a cell exactly if it spells the number of a block and a place in it
(`addresses_exact`). Every cell has one address in decimal, and all other texts are rejected.
-/

namespace Variational

open Text

/-! ## Blocks and their numbers -/

/-- Some cell of the vector has terms. -/
def BlockVector.Occupied (v : BlockVector) : Prop :=
  ∃ cell ∈ v.cells, cell.terms ≠ []

instance (v : BlockVector) : Decidable v.Occupied :=
  inferInstanceAs (Decidable (∃ cell ∈ v.cells, cell.terms ≠ []))

theorem BlockVector.isEmpty_iff {v : BlockVector} : v.isEmpty = true ↔ ¬ v.Occupied := by
  simp [isEmpty, Occupied, BlockCell.isEmpty]

namespace BlockSide

variable {side : BlockSide} {start n : Nat} {block : Block}

/-- The number of blocks of a side: its sections, and its remainder if that is occupied. -/
def blockCount (side : BlockSide) : Nat :=
  side.sections.length + if side.remainder.Occupied then 1 else 0

/-- The blocks of a side with their numbers from a start on: its sections, and then its
remainder if that is occupied. -/
inductive Numbers (side : BlockSide) (start : Nat) : Nat → Block → Prop
  | gathered {a : Nat} {sec : Section} (found : side.sections[a]? = some sec) :
    Numbers side start (start + a) (.gathered sec)
  | remainder (occupied : side.remainder.Occupied) :
    Numbers side start (start + side.sections.length) (.remainder side.remainder)

theorem blocks_eq : side.blocks = side.sections.map .gathered ++
    if side.remainder.Occupied then [.remainder side.remainder] else [] := by
  rw [blocks]
  by_cases occupied : side.remainder.Occupied
  · rw [if_pos occupied, if_neg fun empty => BlockVector.isEmpty_iff.1 empty occupied]
  · rw [if_neg occupied, if_pos (BlockVector.isEmpty_iff.2 occupied)]

theorem length_blocks : side.blocks.length = side.blockCount := by
  rw [blocks_eq, List.length_append, List.length_map, blockCount]
  split <;> rfl

theorem blocks_getElem?_iff (start : Nat) {a : Nat} :
    side.blocks[a]? = some block ↔ side.Numbers start (start + a) block := by
  rw [blocks_eq]
  constructor
  · intro found
    by_cases inside : a < side.sections.length
    · rw [List.getElem?_append_left (by simpa using inside), List.getElem?_map,
        Option.map_eq_some_iff] at found
      obtain ⟨sec, held, rfl⟩ := found
      exact .gathered held
    · rw [List.getElem?_append_right (by simpa using inside), List.length_map] at found
      split at found
      · rename_i occupied
        rw [List.getElem?_singleton] at found
        split at found
        · cases found
          obtain rfl : a = side.sections.length := by omega
          exact .remainder occupied
        · cases found
      · simp at found
  · generalize number : start + a = n
    intro numbers
    cases numbers with
    | gathered found =>
      obtain rfl := Nat.add_left_cancel number
      obtain ⟨inside, -⟩ := List.getElem?_eq_some_iff.1 found
      rw [List.getElem?_append_left (by simpa using inside), List.getElem?_map, found]
      rfl
    | remainder occupied =>
      obtain rfl := Nat.add_left_cancel number
      rw [List.getElem?_append_right (by simp), if_pos occupied]
      simp

theorem Numbers.start_le (numbers : side.Numbers start n block) : start ≤ n := by
  cases numbers <;> exact Nat.le_add_right _ _

end BlockSide

/-! ## Cells and their places -/

/-- A row of a vector, or a row and a column of a matrix. -/
inductive Place
  | row (i : Nat)
  | entry (i j : Nat)
deriving DecidableEq, Repr

/-- The numbers that an address gives for a place. -/
def Place.positions : Place → List Nat
  | .row i => [i]
  | .entry i j => [i, j]

theorem Place.positions_injective : Function.Injective positions := by
  rintro (_ | _) (_ | _) same <;> cases same <;> rfl

namespace Block

variable {block : Block} {place : Place} {cell cell' : BlockCell} {text : String}
  {positions : List Nat} {n : Nat}

/-- The cell at a place of a block: a row of the unknowns or an entry of the matrix of a
section, or a row of a remainder. -/
inductive At : Block → Place → BlockCell → Prop
  | unknown {sec : Section} {i : Nat} {cell : BlockCell}
    (found : sec.unknowns.cells[i]? = some cell) : At (.gathered sec) (.row i) cell
  | entry {sec : Section} {i j : Nat} {row : List BlockCell} {cell : BlockCell}
    (foundRow : sec.matrix.rows[i]? = some row) (found : row[j]? = some cell) :
    At (.gathered sec) (.entry i j) cell
  | known {v : BlockVector} {i : Nat} {cell : BlockCell} (found : v.cells[i]? = some cell) :
    At (.remainder v) (.row i) cell

/-- The places of a block of a system with `n` equations. The matrix of a section has a row for
every equation and a column for every unknown. -/
def Covers (n : Nat) : Block → Place → Prop
  | .gathered sec, .row i => i < sec.unknowns.rows
  | .gathered sec, .entry i j => i < n ∧ j < sec.unknowns.rows
  | .remainder _, .row i => i < n
  | .remainder _, .entry _ _ => False

/-- What stands at positions of a block, if a place of it has so many positions. -/
def find? : Block → List Nat → Option (Option BlockCell)
  | .gathered sec, [row] => some (sec.unknowns.get? row)
  | .gathered sec, [row, column] => some (sec.matrix.get? row column)
  | .remainder v, [row] => some (v.get? row)
  | _, _ => none

theorem cell_eq : block.cell text positions = match block.find? positions with
    | none => reject (.index text .positionCount)
    | some none => reject (.index text .outsideBlock)
    | some (some cell) => .ok cell :=
  rfl

theorem find?_eq_some : block.find? positions = some (some cell) ↔
    ∃ place, positions = place.positions ∧ block.At place cell := by
  constructor
  · intro found
    match block, positions with
    | .gathered sec, [row] => exact ⟨.row row, rfl, .unknown (Option.some.inj found)⟩
    | .gathered sec, [row, column] =>
      obtain ⟨cells, foundRow, foundCell⟩ := Option.bind_eq_some_iff.1 (Option.some.inj found)
      exact ⟨.entry row column, rfl, .entry foundRow foundCell⟩
    | .remainder v, [row] => exact ⟨.row row, rfl, .known (Option.some.inj found)⟩
    | .gathered sec, [] | .gathered sec, _ :: _ :: _ :: _ | .remainder v, [] |
      .remainder v, _ :: _ :: _ => cases found
  · rintro ⟨place, rfl, held⟩
    cases held with
    | unknown found => exact congrArg some found
    | entry foundRow found => exact congrArg some (Option.bind_eq_some_iff.2 ⟨_, foundRow, found⟩)
    | known found => exact congrArg some found

theorem cell_eq_ok : block.cell text positions = .ok cell ↔
    ∃ place, positions = place.positions ∧ block.At place cell := by
  rw [← find?_eq_some, cell_eq]
  match block.find? positions with
  | none => simp
  | some none => simp
  | some (some _) => simp

/-- What is not found is rejected for its address. -/
theorem cell_cases (text : String) (block : Block) (positions : List Nat) :
    (∃ cell, block.cell text positions = .ok cell) ∨
      ∃ fault, block.cell text positions = reject (.index text fault) := by
  rw [cell_eq]
  match block.find? positions with
  | none => exact Or.inr ⟨_, rfl⟩
  | some none => exact Or.inr ⟨_, rfl⟩
  | some (some cell) => exact Or.inl ⟨cell, rfl⟩

/-- The cells of a block stand at its places. -/
theorem exists_at_iff {n : Nat} (tall : ∀ v, block = .remainder v → v.rows = n)
    (sized : ∀ sec, block = .gathered sec → sec.matrix.HasSize n sec.unknowns.rows) :
    (∃ cell, block.At place cell) ↔ block.Covers n place := by
  have held {α : Type} {xs : List α} {i : Nat} (inside : i < xs.length) : ∃ x, xs[i]? = some x :=
    ⟨_, List.getElem?_eq_getElem inside⟩
  constructor
  · rintro ⟨cell, standing⟩
    cases standing with
    | unknown found => exact (List.getElem?_eq_some_iff.1 found).1
    | @entry sec i j row cell foundRow found =>
      have size := sized sec rfl
      refine ⟨size.height ▸ (List.getElem?_eq_some_iff.1 foundRow).1, ?_⟩
      rw [← size.cells row (List.mem_of_getElem? foundRow)]
      exact (List.getElem?_eq_some_iff.1 found).1
    | @known v i cell found => exact tall v rfl ▸ (List.getElem?_eq_some_iff.1 found).1
  · intro covers
    match block, place with
    | .gathered sec, .row i => exact (held covers).imp fun _ => .unknown
    | .gathered sec, .entry i j =>
      have size := sized sec rfl
      obtain ⟨row, foundRow⟩ := held (size.height.symm ▸ covers.1 : i < sec.matrix.rows.length)
      have width := size.cells row (List.mem_of_getElem? foundRow)
      exact (held (width.symm ▸ covers.2 : j < row.length)).imp fun _ => .entry foundRow
    | .remainder v, .row i =>
      have inside : i < v.rows := (tall v rfl).symm ▸ covers
      exact (held inside).imp fun _ => .known
    | .remainder v, .entry i j => exact covers.elim

end Block

/-! ## Addresses -/

/-- The number of a block and a place in it. -/
structure Address where
  block : Nat
  place : Place
deriving DecidableEq, Repr

namespace Address

/-- The address in decimal. -/
def text : Address → String
  | ⟨block, .row i⟩ => s!"{block}-{i}"
  | ⟨block, .entry i j⟩ => s!"{block}-{i},{j}"

/-- The numbers of an address are words of 64 bits. -/
def IsWord (a : Address) : Prop :=
  a.block < UInt64.size ∧ ∀ n ∈ a.place.positions, n < UInt64.size

/-- A text spells an address if it has the number of the block, a hyphen and the numbers of the
place with commas between them. Each number is a word of 64 bits, with an optional plus sign,
leading zeros and blanks around it. -/
def Spelled (a : Address) (text : String) : Prop :=
  ∃ front back, text.toList = front ++ '-' :: back ∧ SpellsIndex front a.block ∧
    Rearrangement.Indices back a.place.positions

variable {a a' : Address} {front back : List Char} {t : String}

theorem toList_text (a : Address) : a.text.toList =
    Nat.toDigits 10 a.block ++ '-' :: Rearrangement.writeSide a.place.positions := by
  match a with
  | ⟨block, .row i⟩ =>
    simp [text, Rearrangement.writeSide, Place.positions, toString, List.intercalate]
  | ⟨block, .entry i j⟩ =>
    simp [text, Rearrangement.writeSide, Place.positions, toString, List.intercalate,
      List.intersperse]

/-- A text is cut at its first hyphen. -/
theorem cut_at_hyphen (absent : '-' ∉ front) (back : List Char) :
    (front ++ '-' :: back).takeWhile (· ≠ '-') = front ∧
      (front ++ '-' :: back).dropWhile (· ≠ '-') = '-' :: back := by
  have plain : ∀ c ∈ front, decide (c ≠ '-') = true := fun c member =>
    decide_eq_true fun same => absent (same ▸ member)
  rw [List.takeWhile_append_of_pos plain, List.dropWhile_append_of_pos plain]
  simp

theorem hyphen_not_mem {n : Nat} (spells : SpellsIndex front n) : '-' ∉ front :=
  spells.not_mem (by decide)

theorem Spelled.unique (spelled : a.Spelled t) (spelled' : a'.Spelled t) : a = a' := by
  obtain ⟨front, back, whole, block, place⟩ := spelled
  obtain ⟨front', back', whole', block', place'⟩ := spelled'
  obtain ⟨first, rest⟩ := cut_at_hyphen (hyphen_not_mem block) back
  obtain ⟨first', rest'⟩ := cut_at_hyphen (hyphen_not_mem block') back'
  rw [← whole] at first rest
  rw [← whole'] at first' rest'
  cases first.symm.trans first'
  cases rest.symm.trans rest'
  have blocks := block.unique block'
  have places := Place.positions_injective (place.unique place')
  cases a
  cases a'
  cases blocks
  cases places
  rfl

/-- An address in decimal is spelled by its own text, and by no other address in decimal. -/
theorem spelled_text : a'.Spelled a.text ↔ a' = a ∧ a.IsWord := by
  have positions : a.place.positions ≠ [] := by
    match a.place with
    | .row _ | .entry _ _ => simp [Place.positions]
  have own : a.IsWord → a.Spelled a.text := by
    rintro ⟨block, place⟩
    exact ⟨_, _, a.toList_text, spellsIndex_toDigits.2 ⟨rfl, block⟩,
      (Rearrangement.indices_writeSide positions).2 ⟨rfl, place⟩⟩
  constructor
  · intro spelled
    have word : a.IsWord := by
      obtain ⟨front, back, whole, block, place⟩ := spelled
      obtain ⟨first, rest⟩ := cut_at_hyphen (hyphen_not_mem block) back
      obtain ⟨first', rest'⟩ := cut_at_hyphen
        (not_mem_toDigits (by decide : '-'.isDigit = false) a.block)
        (Rearrangement.writeSide a.place.positions)
      rw [← whole, toList_text] at first rest
      cases first.symm.trans first'
      cases rest.symm.trans rest'
      exact ⟨(spellsIndex_toDigits.1 block).2,
        ((Rearrangement.indices_writeSide positions).1 place).2⟩
    exact ⟨spelled.unique (own word), word⟩
  · rintro ⟨rfl, word⟩
    exact own word

end Address

/-! ## Reading addresses -/

namespace BlockSystem

/-- An address is read as the numbers that it spells. -/
theorem readAddress_eq_ok {text : String} {n : Nat} {positions : List Nat} :
    readAddress text = .ok (n, positions) ↔ ∃ front back, text.toList = front ++ '-' :: back ∧
      SpellsIndex front n ∧ Rearrangement.Indices back positions := by
  rw [readAddress]
  constructor
  · intro run
    split at run
    · simp at run
    · rename_i c back cut
      have whole := List.takeWhile_append_dropWhile (p := (· ≠ '-')) (l := text.toList)
      have hyphen := List.head?_dropWhile_not (· ≠ '-') text.toList
      rw [cut, List.head?_cons] at hyphen
      obtain rfl : c = '-' := by simpa using hyphen
      rw [cut] at whole
      split at run
      · simp at run
      · rename_i block read
        split at run
        · simp at run
        · rename_i numbers each
          cases Outcome.pure_eq_ok.1 run
          exact ⟨_, back, whole.symm, spellsIndex_iff.2 read,
            Rearrangement.Indices.mapM_readIndex.1 each⟩
  · rintro ⟨front, back, whole, block, place⟩
    obtain ⟨first, rest⟩ := Address.cut_at_hyphen (Address.hyphen_not_mem block) back
    simp only [whole, first, rest, spellsIndex_iff.1 block,
      Rearrangement.Indices.mapM_readIndex.2 place]
    rfl

theorem readAddress_cases (text : String) : (∃ read, readAddress text = .ok read) ∨
    ∃ fault, readAddress text = reject (.index text fault) := by
  unfold readAddress
  dsimp only
  split
  · exact Or.inr ⟨_, rfl⟩
  · split
    · exact Or.inr ⟨_, rfl⟩
    · split
      · exact Or.inr ⟨_, rfl⟩
      · exact Or.inl ⟨_, rfl⟩

/-! ## Cells of a system -/

/-- The blocks of a system with their numbers: those of the left side from zero on, and then
those of the right side. -/
inductive Numbers (b : BlockSystem) : Nat → Block → Prop
  | left {n : Nat} {block : Block} (numbers : b.left.Numbers 0 n block) : Numbers b n block
  | right {n : Nat} {block : Block} (numbers : b.right.Numbers b.left.blockCount n block) :
    Numbers b n block

/-- The cell at an address of a system. -/
def Holds (b : BlockSystem) (a : Address) (cell : BlockCell) : Prop :=
  ∃ block, b.Numbers a.block block ∧ block.At a.place cell

variable {s s' : Session} {b b' : BlockSystem} {n : Nat} {block : Block} {a : Address}
  {text : String} {cell : BlockCell}

theorem blocks_eq_some : b.blocks[n]? = some block ↔ b.Numbers n block := by
  rw [blocks]
  constructor
  · intro found
    by_cases inside : n < b.left.blocks.length
    · rw [List.getElem?_append_left inside, BlockSide.blocks_getElem?_iff 0, Nat.zero_add] at found
      exact .left found
    · have beyond : b.left.blocks.length ≤ n := Nat.not_lt.1 inside
      rw [List.getElem?_append_right beyond, BlockSide.blocks_getElem?_iff b.left.blocks.length,
        Nat.add_sub_cancel' beyond, BlockSide.length_blocks] at found
      exact .right found
  · intro numbers
    cases numbers with
    | left numbers =>
      rw [← Nat.zero_add n, ← BlockSide.blocks_getElem?_iff 0] at numbers
      rw [List.getElem?_append_left (List.getElem?_eq_some_iff.1 numbers).1, numbers]
    | right numbers =>
      have beyond := numbers.start_le
      rw [← Nat.add_sub_cancel' beyond, ← BlockSide.blocks_getElem?_iff] at numbers
      rw [List.getElem?_append_right (BlockSide.length_blocks ▸ beyond), BlockSide.length_blocks,
        numbers]

theorem length_blocks : b.blocks.length = b.left.blockCount + b.right.blockCount := by
  rw [blocks, List.length_append, BlockSide.length_blocks, BlockSide.length_blocks]

/-- A cell is found exactly at the texts that spell its address. -/
theorem cell_eq_ok : b.cell text = .ok cell ↔ ∃ a : Address, a.Spelled text ∧ b.Holds a cell := by
  rw [BlockSystem.cell, Outcome.bind_eq_ok]
  constructor
  · rintro ⟨⟨number, positions⟩, read, run⟩
    dsimp only at run
    split at run
    · simp at run
    · rename_i block found
      obtain ⟨place, rfl, held⟩ := Block.cell_eq_ok.1 run
      exact ⟨⟨number, place⟩, readAddress_eq_ok.1 read, block, blocks_eq_some.1 found, held⟩
  · rintro ⟨⟨number, place⟩, spelled, block, numbers, held⟩
    refine ⟨(number, place.positions), readAddress_eq_ok.2 spelled, ?_⟩
    dsimp only
    rw [blocks_eq_some.2 numbers]
    exact Block.cell_eq_ok.2 ⟨place, rfl, held⟩

theorem cell_cases (b : BlockSystem) (text : String) : (∃ cell, b.cell text = .ok cell) ∨
    ∃ fault, b.cell text = reject (.index text fault) := by
  rw [BlockSystem.cell]
  rcases readAddress_cases text with ⟨⟨number, positions⟩, read⟩ | ⟨fault, read⟩
  · rw [Outcome.bind_of_ok read]
    dsimp only
    split
    · exact Or.inr ⟨_, rfl⟩
    · exact Block.cell_cases _ _ _
  · rw [read]
    exact Or.inr ⟨fault, rfl⟩

end BlockSystem

/-! ## Sizes -/

/-- The blocks of a side have the sizes of the side. -/
theorem BlockSide.Numbers.exists_at_iff {n start k : Nat} {side : BlockSide} {block : Block}
    (numbers : side.Numbers start k block) (sized : side.Sized n) (place : Place) :
    (∃ cell, block.At place cell) ↔ block.Covers n place := by
  cases numbers with
  | gathered found =>
    refine Block.exists_at_iff nofun ?_
    rintro sec ⟨⟩
    exact sized.sections _ (List.mem_of_getElem? found)
  | remainder =>
    refine Block.exists_at_iff ?_ nofun
    rintro v ⟨⟩
    exact sized.remainder

namespace BlockSystem

variable {s s' : Session} {b b' : BlockSystem} {text : String} {cell : BlockCell}

/-- Systems that are set up from products, from an algebraic system or from a weak formulation,
and gathered any number of times. -/
inductive Produced : BlockSystem → Prop
  | products {s : Session} {testVectors : List ArrayId} {equations : List (Equation Product)}
    {b : BlockSystem} (built : ofProducts s testVectors equations = .ok b) : Produced b
  | algebraic {s s' : Session} {a : AlgebraicSystem} {b : BlockSystem}
    (run : ofAlgebraic a s = .ok b s') : Produced b
  | formulation {s s' : Session} {w : WeakFormulation} {b : BlockSystem}
    (run : create w s = .ok b s') : Produced b
  | gather {s s' : Session} {b b' : BlockSystem} {targets : List Target} (earlier : Produced b)
    (run : b.gather targets s = .ok b' s') : Produced b'

theorem sized_ofAlgebraic {a : AlgebraicSystem} (run : ofAlgebraic a s = .ok b s') :
    b.Sized b.size := by
  simp only [ofAlgebraic, Derive.bind_eq_ok, Derive.get_eq_ok, Derive.lift_eq_ok] at run
  obtain ⟨_, _, -, _, _, -, system, _, ⟨built, -⟩, gathered⟩ := run
  exact ((sized_ofProducts built).gather gathered).of_size

theorem Produced.sized (produced : Produced b) : b.Sized b.size := by
  induction produced with
  | products built => exact (sized_ofProducts built).of_size
  | algebraic run => exact sized_ofAlgebraic run
  | formulation run =>
    obtain ⟨a, _, -, run⟩ := Derive.bind_eq_ok.1 run
    exact sized_ofAlgebraic run
  | gather _ run ih => exact (ih.gather run).of_size

/-! ## Addresses of all cells -/

/-- The blocks, the equations and the unknowns of every section can be counted in a word of 64
bits. -/
def Countable (b : BlockSystem) : Prop :=
  b.blocks.length ≤ UInt64.size ∧ b.size ≤ UInt64.size ∧
    ∀ side, ∀ sec ∈ (b.side side).sections, sec.unknowns.rows ≤ UInt64.size

/-- Every cell of a system has an address.

* The blocks have the numbers from zero on, without gaps.
* The rows of a section are those of its unknowns, and its entries those of a matrix with a row
  for every equation. The rows of a remainder are those of the equations.
* A text gives a cell exactly if it spells the address of the cell, and is rejected otherwise.
* A text spells one address at most. Every cell that has words of 64 bits for numbers has
  exactly one address in decimal, and has such numbers if the system can be counted in them. -/
structure Addressed (b : BlockSystem) : Prop where
  numbers : ∀ n block, b.blocks[n]? = some block ↔ b.Numbers n block
  count : b.blocks.length = b.left.blockCount + b.right.blockCount
  places : ∀ n block, b.Numbers n block → ∀ place,
    (∃ cell, block.At place cell) ↔ block.Covers b.size place
  cell : ∀ text cell, b.cell text = .ok cell ↔ ∃ a : Address, a.Spelled text ∧ b.Holds a cell
  rejected : ∀ text, (¬ ∃ (a : Address) (cell : BlockCell), a.Spelled text ∧ b.Holds a cell) →
    ∃ fault, b.cell text = reject (.index text fault)
  unique : ∀ (a a' : Address) text, a.Spelled text → a'.Spelled text → a = a'
  canonical : ∀ (a : Address) cell, b.Holds a cell → a.IsWord →
    ∃! text, (∃ c : Address, c.text = text) ∧ a.Spelled text ∧ b.cell text = .ok cell
  words : b.Countable → ∀ (a : Address) cell, b.Holds a cell → a.IsWord

theorem Numbers.exists_section {n : Nat} {sec : Section} (numbers : b.Numbers n (.gathered sec)) :
    ∃ side, sec ∈ (b.side side).sections := by
  cases numbers with
  | left numbers =>
    cases numbers with
    | gathered found => exact ⟨.left, List.mem_of_getElem? found⟩
  | right numbers =>
    cases numbers with
    | gathered found => exact ⟨.right, List.mem_of_getElem? found⟩

theorem Numbers.exists_at_iff {n : Nat} {block : Block} (numbers : b.Numbers n block)
    (sized : b.Sized b.size) (place : Place) :
    (∃ cell, block.At place cell) ↔ block.Covers b.size place := by
  cases numbers with
  | left numbers => exact numbers.exists_at_iff (sized.sides .left) place
  | right numbers => exact numbers.exists_at_iff (sized.sides .right) place

theorem Holds.isWord {a : Address} (holds : b.Holds a cell) (sized : b.Sized b.size)
    (countable : b.Countable) : a.IsWord := by
  obtain ⟨blocks, equations, unknowns⟩ := countable
  obtain ⟨block, numbers, standing⟩ := holds
  obtain ⟨number, place⟩ := a
  obtain ⟨inside, -⟩ := List.getElem?_eq_some_iff.1 (blocks_eq_some.2 numbers)
  refine ⟨Nat.lt_of_lt_of_le inside blocks, ?_⟩
  have covers := (numbers.exists_at_iff sized place).1 ⟨cell, standing⟩
  have bounded : ∀ {sec}, block = .gathered sec → sec.unknowns.rows ≤ UInt64.size := by
    rintro sec rfl
    obtain ⟨side, member⟩ := numbers.exists_section
    exact unknowns side sec member
  match block, place with
  | .gathered sec, .row i =>
    simpa [Place.positions] using Nat.lt_of_lt_of_le covers (bounded rfl)
  | .gathered sec, .entry i j =>
    simpa [Place.positions] using ⟨Nat.lt_of_lt_of_le covers.1 equations,
      Nat.lt_of_lt_of_le covers.2 (bounded rfl)⟩
  | .remainder v, .row i => simpa [Place.positions] using Nat.lt_of_lt_of_le covers equations
  | .remainder v, .entry i j => exact covers.elim

/-- The cells of a system and their addresses in decimal correspond to each other. -/
theorem addresses_exact (produced : Produced b) : b.Addressed where
  numbers _ _ := blocks_eq_some
  count := length_blocks
  places _ _ numbers := numbers.exists_at_iff produced.sized
  cell _ _ := cell_eq_ok
  rejected text none := by
    refine (b.cell_cases text).resolve_left ?_
    rintro ⟨cell, run⟩
    obtain ⟨a, spelled, holds⟩ := cell_eq_ok.1 run
    exact none ⟨a, cell, spelled, holds⟩
  unique _ _ _ spelled spelled' := spelled.unique spelled'
  canonical a cell holds word := by
    have spelled : a.Spelled a.text := Address.spelled_text.2 ⟨rfl, word⟩
    refine ⟨a.text, ⟨⟨a, rfl⟩, spelled, cell_eq_ok.2 ⟨a, spelled, holds⟩⟩, ?_⟩
    rintro _ ⟨⟨c, rfl⟩, about, -⟩
    obtain ⟨rfl, -⟩ := Address.spelled_text.1 about
    rfl
  words countable _ _ holds := holds.isWord produced.sized countable

/-- From `vᵀ M u - vᵀ v = vᵀ M v` the unknown `u` is gathered. The right remainder is the third
block, and there is no fourth one. -/
theorem addresses_exact_remainders :
    let product := fun arrays : List ArrayId =>
      (⟨⟨0⟩, ⟨⟨0⟩, true, ⟨"1", "n"⟩⟩ :: arrays.map fun a => ⟨a, false, ⟨"n", "1"⟩⟩⟩ : Product)
    let equations : List (Equation Product) :=
      [⟨[⟨.plus, product [⟨2⟩, ⟨1⟩]⟩, ⟨.minus, product [⟨0⟩]⟩], [⟨.plus, product [⟨2⟩, ⟨0⟩]⟩]⟩]
    ∃ (s s' : Session) (b b' : BlockSystem), ofProducts s [⟨0⟩] equations = .ok b ∧
      b.gather [.form ⟨1⟩] s = .ok b' s' ∧ b'.blocks.length = 3 ∧
      (∃ cell, b'.cell " +02 - 00" = .ok cell ∧ b'.right.remainder.cells[0]? = some cell ∧
        ∃! text, (∃ c : Address, c.text = text) ∧ (⟨2, .row 0⟩ : Address).Spelled text ∧
          b'.cell text = .ok cell) ∧
      ∃ fault, b'.cell "3-0" = reject (.index "3-0" fault) := by
  intro product equations
  obtain ⟨s, runs⟩ : ∃ s, (match ofProducts s [⟨0⟩] equations with
      | .ok b => match b.gather [.form ⟨1⟩] s with
        | .ok b' _ => decide (b'.size = 1 ∧ b'.left.blockCount = 2 ∧ b'.right.sections = [] ∧
            b'.right.remainder.Occupied)
        | .error _ _ => false
      | .error _ => false) = true :=
    ⟨Request.performAll {} [.manifold 1, .mesh ⟨0⟩, .space ⟨0⟩ 0 .outer, .degrees 1,
      .root ⟨0⟩ ⟨"v", "v"⟩, .root ⟨0⟩ ⟨"u", "u"⟩, .vector ⟨0⟩, .vector ⟨1⟩, .massMatrix ⟨0⟩],
      by decide +kernel⟩
  split at runs
  · rename_i b built
    split at runs
    · rename_i b' s' gathered
      obtain ⟨size, left, empty, occupied⟩ := of_decide_eq_true runs
      obtain ⟨numbers, count, places, cells, rejected, unique, canonical, -⟩ :=
        addresses_exact (.gather (.products built) gathered)
      have length : b'.blocks.length = 3 := by
        rw [count, left, BlockSide.blockCount, empty, if_pos occupied]
        rfl
      have third : b'.Numbers 2 (.remainder b'.right.remainder) := by
        have last : b'.right.Numbers b'.left.blockCount
            (b'.left.blockCount + b'.right.sections.length) (.remainder b'.right.remainder) :=
          .remainder occupied
        rw [empty, left] at last
        exact .right (left ▸ last)
      obtain ⟨cell, standing⟩ := (places 2 _ third (.row 0)).2 (size ▸ Nat.zero_lt_one)
      have held : b'.right.remainder.cells[0]? = some cell := by
        cases standing with
        | known found => exact found
      have holds : b'.Holds ⟨2, .row 0⟩ cell := ⟨_, third, standing⟩
      have spelled : (⟨2, .row 0⟩ : Address).Spelled " +02 - 00" :=
        ⟨" +02 ".toList, " 00".toList, by decide, spellsIndex_iff.2 (by decide),
          .last (spellsIndex_iff.2 (by decide))⟩
      have beyond : (⟨3, .row 0⟩ : Address).Spelled "3-0" :=
        ⟨"3".toList, "0".toList, by decide, spellsIndex_iff.2 (by decide),
          .last (spellsIndex_iff.2 (by decide))⟩
      refine ⟨s, s', b, b', built, gathered, length, ⟨cell, (cells _ _).2 ⟨_, spelled, holds⟩, held,
        canonical _ cell holds ?_⟩, rejected _ ?_⟩
      · exact ⟨by decide, by decide⟩
      · rintro ⟨a, cell, spelled', block, outside, -⟩
        cases unique _ _ _ spelled' beyond
        obtain ⟨inside, -⟩ := List.getElem?_eq_some_iff.1 ((numbers _ _).2 outside)
        exact absurd inside (by rw [length]; decide)
    · cases runs
  · cases runs

end BlockSystem

end Variational
