import Variational.Proofs.Admissible.Systems
import Variational.Proofs.Block.Dimensions
import Variational.Proofs.ScalarIdentity

/-!
# Descriptions tell block systems apart

Every block system that is built and gathered in a session has a description there, and
under the default settings no other system has the same one. Labels tell the scalars and
the arrays, the cells of a section are described at their places, and a section is made
only if one of its cells is filled, so that its rows tell how many columns it has. The main
statement is `describe_faithful`.
-/

namespace Variational

open Derive Session

variable {s s' : Session}

/-! ## Descriptions member by member -/

namespace Outcome

variable {α β : Type} {f : α → Outcome β} {xs xs' : List α} {ys ys' : List β}

/-- What is described stands where its description stands. -/
theorem getElem?_of_mapM (run : xs.mapM f = .ok ys) (i : Nat) (y : β) :
    ys[i]? = some y ↔ ∃ x, xs[i]? = some x ∧ f x = .ok y := by
  induction xs generalizing ys i with
  | nil =>
    cases pure_eq_ok.1 run
    simp
  | cons x xs ih =>
    simp only [List.mapM_cons, bind_eq_ok, pure_eq_ok] at run
    obtain ⟨z, first, ys, rest, rfl⟩ := run
    cases i with
    | zero => simp [first]
    | succ i => simpa using ih rest i

theorem exists_getElem?_of_mapM (run : xs.mapM f = .ok ys) {i : Nat} {x : α}
    (found : xs[i]? = some x) : ∃ y, ys[i]? = some y ∧ f x = .ok y := by
  obtain ⟨y, -, read⟩ := exists_mem_of_forall₂ (mapM_eq_ok.1 run).flip (List.mem_of_getElem? found)
  exact ⟨y, (getElem?_of_mapM run i y).2 ⟨x, found, read⟩, read⟩

/-- Lists with the same descriptions are the same if their members are. -/
theorem mapM_inj {γ : Type} {g : β → γ} (run : xs.mapM f = .ok ys) (run' : xs'.mapM f = .ok ys')
    (same : ys.map g = ys'.map g)
    (each : ∀ x ∈ xs, ∀ x' ∈ xs', ∀ y y', f x = .ok y → f x' = .ok y' → g y = g y' → x = x') :
    xs = xs' := by
  induction xs generalizing xs' ys ys' with
  | nil =>
    cases pure_eq_ok.1 run
    cases List.map_eq_nil_iff.1 same.symm
    exact (List.forall₂_nil_right_iff.1 (mapM_eq_ok.1 run')).symm
  | cons x xs ih =>
    simp only [List.mapM_cons, bind_eq_ok, pure_eq_ok] at run
    obtain ⟨y, first, ys, rest, rfl⟩ := run
    obtain ⟨y', zs, rfl, head, tail⟩ := List.map_eq_cons_iff.1 same.symm
    obtain ⟨x', xs', first', rest', rfl⟩ := List.forall₂_cons_right_iff.1 (mapM_eq_ok.1 run')
    obtain rfl := each x List.mem_cons_self x' List.mem_cons_self y y' first first' head.symm
    rw [ih rest (mapM_eq_ok.2 rest') tail.symm fun a member a' member' =>
      each a (List.mem_cons_of_mem _ member) a' (List.mem_cons_of_mem _ member')]

theorem eq_of_mapM (run : xs.mapM f = .ok ys) (run' : xs'.mapM f = .ok ys)
    (each : ∀ x x' y, f x = .ok y → f x' = .ok y → x = x') : xs = xs' := by
  refine mapM_inj (g := id) run run' rfl fun x _ x' _ y y' read read' same => ?_
  obtain rfl : y = y' := same
  exact each x x' y read read'

end Outcome

/-! ## Descriptions without values

The value of a factor is not needed to tell the factor, and doubles are compared by value. -/

def TermDescription.withoutValue (t : TermDescription) : TermDescription :=
  { t with factorValue := none }

def CellDescription.withoutValues (cell : CellDescription) : CellDescription :=
  cell.map TermDescription.withoutValue

def SectionDescription.withoutValues (sec : SectionDescription) : SectionDescription where
  matrix := sec.matrix.map fun row => row.map CellDescription.withoutValues
  unknowns := sec.unknowns.map CellDescription.withoutValues

def SideDescription.withoutValues (side : SideDescription) : SideDescription where
  sections := side.sections.map SectionDescription.withoutValues
  remainder := side.remainder.map CellDescription.withoutValues

/-- The description of a system without the values of its factors. -/
def SystemDescription.withoutValues (d : SystemDescription) : SystemDescription :=
  { d with left := d.left.withoutValues, right := d.right.withoutValues }

/-- The description of the cell in a row and a column. -/
def SectionDescription.cell? (sec : SectionDescription) (i j : Nat) : Option CellDescription := do
  let row ← sec.matrix[i]?
  row[j]?

/-- Every cell of a section is described in its row and column, and nothing else is. -/
structure SectionDescription.Shows (s : Session) (x : SectionDescription) (sec : Section) :
    Prop where
  shown : ∀ i j cell, sec.matrix.get? i j = some cell →
    ∃ c, x.cell? i j = some c ∧ cell.describe s = .ok c
  only : ∀ i j c, x.cell? i j = some c →
    ∃ cell, sec.matrix.get? i j = some cell ∧ cell.describe s = .ok c

def SystemDescription.side (d : SystemDescription) : Side → SideDescription
  | .left => d.left
  | .right => d.right

/-! ## Matrices that are not empty -/

namespace BlockMatrix

/-- A matrix with at least one row, so that its rows tell its columns. -/
def Tall (m : BlockMatrix) : Prop :=
  m.rows ≠ [] ∧ ∀ row ∈ m.rows, row.length = m.cols

variable {m m' : BlockMatrix}

theorem Tall.eq_of_rows (tall : m.Tall) (tall' : m'.Tall) (same : m.rows = m'.rows) : m = m' := by
  obtain ⟨row, member⟩ := List.exists_mem_of_ne_nil _ tall.1
  refine BlockMatrix.ext ?_ same
  rw [← tall.2 row member, ← tall'.2 row (same ▸ member)]

theorem HasSize.tall {rows cols : Nat} (size : m.HasSize rows cols) (filled : m.isEmpty = false) :
    m.Tall := by
  refine ⟨fun none => ?_, fun row member => (size.cells row member).trans size.width.symm⟩
  simp [isEmpty, none] at filled

end BlockMatrix

/-- Sections are made only if a term goes into them. -/
theorem BlockSide.tall_of_gather {side side' : BlockSide} {arrays : List ArrayId}
    {unknowns : BlockVector} (run : side.gather arrays unknowns = .ok side')
    (tall : ∀ sec ∈ side.sections, sec.matrix.Tall) : ∀ sec ∈ side'.sections, sec.matrix.Tall := by
  obtain ⟨sorting, sorted, rfl⟩ := gather_eq_ok run
  obtain ⟨size, -⟩ := Sorting.run_spec sorted
  intro sec member
  dsimp only at member
  split at member
  · exact tall sec member
  · rename_i filled
    rcases List.mem_append.1 member with old | new
    · exact tall sec old
    · cases List.mem_singleton.1 new
      exact size.tall (Bool.eq_false_of_not_eq_true filled)

/-! ## Systems of a session -/

namespace BlockSystem

/-- The systems at hand in a session: those of products or of a weak formulation, gathered any
number of times, with any requests in between. All that is passed along belongs to the
session. -/
inductive Obtained (settings : Settings) : Session → BlockSystem → Prop
  | products {s : Session} {testVectors : List ArrayId} {equations : List (Equation Product)}
    {b : BlockSystem} (reachable : Session.Reachable settings s)
    (issued : s.Issued (testVectors, equations))
    (built : ofProducts s testVectors equations = .ok b) : Obtained settings s b
  | formulation {s s' : Session} {w : WeakFormulation} {b : BlockSystem}
    (reachable : Session.Reachable settings s) (issued : s.Issued w)
    (run : create w s = .ok b s') : Obtained settings s' b
  | gather {s s' : Session} {b b' : BlockSystem} {targets : List Target}
    (earlier : Obtained settings s b) (issued : s.Issued targets)
    (run : b.gather targets s = .ok b' s') : Obtained settings s' b'
  | request {s : Session} {b : BlockSystem} (earlier : Obtained settings s b)
    (request : Request) : Obtained settings (request.perform.after s) b

namespace Obtained

variable {settings : Settings} {b : BlockSystem}

theorem reachable (obtained : Obtained settings s b) : Session.Reachable settings s := by
  induction obtained with
  | products reachable => exact reachable
  | formulation reachable _ run => exact reachable.of_request (.blockSystem _) rfl run
  | gather _ _ run ih => exact ih.of_request (.gather _ _) rfl run
  | request _ request ih => exact ih.request request

/-- The scalars and arrays of a system belong to its session. -/
theorem issued (obtained : Obtained settings s b) : s.Issued b := by
  induction obtained with
  | products _ issued built =>
    obtain ⟨tested, equations⟩ := issued_pair.1 issued
    have answered := ofProducts_answered tested equations
    rwa [built] at answered
  | formulation reachable issued run =>
    have answered := create_answered reachable.closed issued
    rwa [Derive.Answered, run] at answered
  | gather earlier issued run ih =>
    have answered := gather_answered earlier.reachable.closed ih issued
    rwa [Derive.Answered, run] at answered
  | request _ request ih => exact ih.later request.perform_grows

theorem tall (obtained : Obtained settings s b) (side : Side) :
    ∀ sec ∈ (b.side side).sections, sec.matrix.Tall := by
  have start {s : Session} {testVectors : List ArrayId} {equations : List (Equation Product)}
      {b : BlockSystem} (built : ofProducts s testVectors equations = .ok b) :
      ∀ sec ∈ (b.side side).sections, sec.matrix.Tall := by
    obtain ⟨-, sides⟩ := ofProducts_spec built
    simp [(sides side).1]
  induction obtained with
  | products _ _ built => exact start built
  | formulation reachable _ run =>
    obtain ⟨_, _, _, _, _, _, -, -, -, -, built, gathered, -⟩ := create_rows reachable.sound run
    obtain ⟨_, _, _, -, -, sides, -⟩ := gather_eq_ok gathered
    exact BlockSide.tall_of_gather (sides side) (start built)
  | gather _ _ run ih =>
    obtain ⟨_, _, _, -, -, sides, -⟩ := gather_eq_ok run
    exact BlockSide.tall_of_gather (sides side) ih
  | request _ _ ih => exact ih

end Obtained

end BlockSystem

/-! ## Every system has a description -/

theorem Session.array_of_issued {a : ArrayId} (issued : s.Issued a) :
    ∃ array, s.array a = .ok array :=
  (Arena.exists_get? (issued_id.1 issued)).imp fun _ => Arena.fetch_eq_ok_iff.2

theorem Link.describe_succeeds {link : Link} (issued : s.Issued link) :
    ∃ d, link.describe s = .ok d := by
  obtain ⟨array, found⟩ := array_of_issued (a := link.array) issued
  exact ⟨_, Outcome.bind_of_ok found _⟩

theorem Product.describe_succeeds {t : Signed Product} (issued : s.Issued t) :
    ∃ d, describe s t = .ok d := by
  obtain ⟨factor, chain⟩ := (issued_pair (p := (t.value.factor, t.value.chain))).1 issued
  obtain ⟨c, found⟩ : ∃ c, s.scalar t.value.factor = .ok c :=
    (Arena.exists_get? (issued_id.1 factor)).imp fun _ => Arena.fetch_eq_ok_iff.2
  obtain ⟨links, described⟩ := Outcome.mapM_total fun link member =>
    Link.describe_succeeds (issued_list.1 chain link member)
  rw [describe, Outcome.bind_of_ok found]
  exact ⟨_, Outcome.bind_of_ok described _⟩

theorem BlockCell.describe_succeeds {cell : BlockCell} (issued : s.Issued cell) :
    ∃ d, cell.describe s = .ok d :=
  Outcome.mapM_total fun t member => Product.describe_succeeds (issued_list.1 issued t member)

theorem BlockVector.describe_succeeds {v : BlockVector} (issued : s.Issued v) :
    ∃ d, v.describe s = .ok d :=
  Outcome.mapM_total fun cell member =>
    BlockCell.describe_succeeds (issued_list.1 issued cell member)

theorem Section.describe_succeeds {sec : Section} (issued : s.Issued sec) :
    ∃ d, sec.describe s = .ok d := by
  obtain ⟨matrix, unknowns⟩ := issued_pair.1 issued
  obtain ⟨rows, described⟩ := Outcome.mapM_total fun row member =>
    Outcome.mapM_total fun cell listed =>
      BlockCell.describe_succeeds (issued_list.1 (issued_list.1 matrix row member) cell listed)
  obtain ⟨column, described'⟩ := BlockVector.describe_succeeds unknowns
  rw [describe, Outcome.bind_of_ok described]
  exact ⟨_, Outcome.bind_of_ok described' _⟩

theorem BlockSide.describe_succeeds {side : BlockSide} (issued : s.Issued side) :
    ∃ d, side.describe s = .ok d := by
  obtain ⟨sections, remainder⟩ := issued_pair.1 issued
  obtain ⟨secs, described⟩ := Outcome.mapM_total fun sec member =>
    Section.describe_succeeds (issued_list.1 sections sec member)
  obtain ⟨column, described'⟩ := BlockVector.describe_succeeds remainder
  rw [describe, Outcome.bind_of_ok described]
  exact ⟨_, Outcome.bind_of_ok described' _⟩

theorem BlockSystem.describe_succeeds {b : BlockSystem} (issued : s.Issued b) :
    ∃ d, b.describe s = .ok d := by
  obtain ⟨testVectors, rest⟩ := issued_pair.1 issued
  obtain ⟨unknowns, sides⟩ := issued_pair.1 rest
  obtain ⟨left, right⟩ := issued_pair.1 sides
  have labels {arrays : List ArrayId} (held : s.Issued arrays) :
      ∃ lins, (arrays.mapM fun a => return s.arrayLin (← s.array a) : Outcome _) = .ok lins :=
    Outcome.mapM_total fun a member =>
      (array_of_issued (issued_list.1 held a member)).elim fun _ found =>
        ⟨_, Outcome.bind_of_ok found _⟩
  obtain ⟨unknownLins, first⟩ := labels unknowns
  obtain ⟨testLins, second⟩ := labels testVectors
  obtain ⟨leftSide, third⟩ := BlockSide.describe_succeeds left
  obtain ⟨rightSide, fourth⟩ := BlockSide.describe_succeeds right
  rw [describe, Outcome.bind_of_ok first, Outcome.bind_of_ok second, Outcome.bind_of_ok third]
  exact ⟨_, Outcome.bind_of_ok fourth _⟩

/-! ## Descriptions are told apart -/

theorem Session.Reachable.arrays_eq_of_lins {settings : Settings}
    (reachable : Session.Reachable settings s) {arrays arrays' : List ArrayId} {lins : List String}
    (run : (arrays.mapM fun a => return s.arrayLin (← s.array a) : Outcome _) = .ok lins)
    (run' : (arrays'.mapM fun a => return s.arrayLin (← s.array a) : Outcome _) = .ok lins) :
    arrays = arrays' := by
  refine Outcome.eq_of_mapM run run' fun a a' lin read read' => ?_
  simp only [Outcome.bind_eq_ok, Outcome.pure_eq_ok] at read read'
  obtain ⟨array, found, rfl⟩ := read
  obtain ⟨array', found', same⟩ := read'
  exact reachable.array_eq_of_lin (Arena.fetch_eq_ok_iff.1 found) (Arena.fetch_eq_ok_iff.1 found')
    same.symm

section Faithful

variable (reachable : Session.Reachable {} s)
include reachable

theorem Link.describe_inj {link link' : Link} {d : LinkDescription}
    (run : link.describe s = .ok d) (run' : link'.describe s = .ok d) : link = link' := by
  obtain ⟨array, transposed, shape⟩ := link
  obtain ⟨array', transposed', shape'⟩ := link'
  simp only [describe, Outcome.bind_eq_ok, Outcome.pure_eq_ok] at run run'
  obtain ⟨a, found, rfl⟩ := run
  obtain ⟨a', found', same⟩ := run'
  rw [LinkDescription.mk.injEq] at same
  obtain ⟨lins, -, rfl, rfl⟩ := same
  obtain rfl := reachable.array_eq_of_lin (Arena.fetch_eq_ok_iff.1 found)
    (Arena.fetch_eq_ok_iff.1 found') lins.symm
  rfl

theorem Product.describe_inj {t t' : Signed Product} {d d' : TermDescription}
    (run : describe s t = .ok d) (run' : describe s t' = .ok d')
    (same : d.withoutValue = d'.withoutValue) : t = t' := by
  obtain ⟨sign, factor, chain⟩ := t
  obtain ⟨sign', factor', chain'⟩ := t'
  simp only [describe, Outcome.bind_eq_ok, Outcome.pure_eq_ok] at run run'
  obtain ⟨c, found, links, described, rfl⟩ := run
  obtain ⟨c', found', links', described', rfl⟩ := run'
  rw [TermDescription.withoutValue, TermDescription.withoutValue, TermDescription.mk.injEq] at same
  obtain ⟨rfl, lins, -, rfl⟩ := same
  obtain rfl := reachable.scalar_eq_of_lin (Arena.fetch_eq_ok_iff.1 found)
    (Arena.fetch_eq_ok_iff.1 found') lins
  obtain rfl := Outcome.eq_of_mapM described described' fun _ _ _ => Link.describe_inj reachable
  rfl

theorem BlockCell.describe_inj {cell cell' : BlockCell} {d d' : CellDescription}
    (run : cell.describe s = .ok d) (run' : cell'.describe s = .ok d')
    (same : d.withoutValues = d'.withoutValues) : cell = cell' :=
  BlockCell.ext <| Outcome.mapM_inj run run' same fun _ _ _ _ _ _ read read' =>
    Product.describe_inj reachable read read'

theorem BlockVector.describe_inj {v v' : BlockVector} {d d' : List CellDescription}
    (run : v.describe s = .ok d) (run' : v'.describe s = .ok d')
    (same : d.map CellDescription.withoutValues = d'.map CellDescription.withoutValues) : v = v' :=
  BlockVector.ext <| Outcome.mapM_inj run run' same fun _ _ _ _ _ _ read read' =>
    BlockCell.describe_inj reachable read read'

/-- The rows of a section are described row by row, so they tell the columns of a matrix that
has a row. -/
theorem Section.describe_inj {sec sec' : Section} (tall : sec.matrix.Tall)
    (tall' : sec'.matrix.Tall) {d d' : SectionDescription} (run : sec.describe s = .ok d)
    (run' : sec'.describe s = .ok d') (same : d.withoutValues = d'.withoutValues) : sec = sec' := by
  obtain ⟨matrix, unknowns⟩ := sec
  obtain ⟨matrix', unknowns'⟩ := sec'
  simp only [describe, Outcome.bind_eq_ok, Outcome.pure_eq_ok] at run run'
  obtain ⟨rows, described, column, describedColumn, rfl⟩ := run
  obtain ⟨rows', described', column', describedColumn', rfl⟩ := run'
  rw [SectionDescription.withoutValues, SectionDescription.withoutValues,
    SectionDescription.mk.injEq] at same
  obtain rfl := BlockVector.describe_inj reachable describedColumn describedColumn' same.2
  have sameRows : matrix.rows = matrix'.rows :=
    Outcome.mapM_inj described described' same.1 fun _ _ _ _ _ _ row row' sameRow =>
      Outcome.mapM_inj row row' sameRow fun _ _ _ _ _ _ read read' =>
        BlockCell.describe_inj reachable read read'
  obtain rfl := tall.eq_of_rows tall' sameRows
  rfl

theorem BlockSide.describe_inj {side side' : BlockSide}
    (tall : ∀ sec ∈ side.sections, sec.matrix.Tall)
    (tall' : ∀ sec ∈ side'.sections, sec.matrix.Tall) {d d' : SideDescription}
    (run : side.describe s = .ok d) (run' : side'.describe s = .ok d')
    (same : d.withoutValues = d'.withoutValues) : side = side' := by
  obtain ⟨sections, remainder⟩ := side
  obtain ⟨sections', remainder'⟩ := side'
  simp only [describe, Outcome.bind_eq_ok, Outcome.pure_eq_ok] at run run'
  obtain ⟨secs, described, column, describedColumn, rfl⟩ := run
  obtain ⟨secs', described', column', describedColumn', rfl⟩ := run'
  rw [SideDescription.withoutValues, SideDescription.withoutValues, SideDescription.mk.injEq]
    at same
  obtain rfl := BlockVector.describe_inj reachable describedColumn describedColumn' same.2
  obtain rfl := Outcome.mapM_inj described described' same.1
    fun sec member sec' member' _ _ => Section.describe_inj reachable (tall sec member)
      (tall' sec' member')
  rfl

namespace BlockSystem

theorem describe_inj {b b' : BlockSystem}
    (tall : ∀ side, ∀ sec ∈ (b.side side).sections, sec.matrix.Tall)
    (tall' : ∀ side, ∀ sec ∈ (b'.side side).sections, sec.matrix.Tall) {d d' : SystemDescription}
    (run : b.describe s = .ok d) (run' : b'.describe s = .ok d')
    (same : d.withoutValues = d'.withoutValues) : b = b' := by
  obtain ⟨testVectors, unknowns, left, right⟩ := b
  obtain ⟨testVectors', unknowns', left', right'⟩ := b'
  simp only [describe, Outcome.bind_eq_ok] at run run'
  obtain ⟨unknownLins, known, testLins, tested, leftSide, describedLeft, rightSide,
    describedRight, described⟩ := run
  obtain ⟨unknownLins', known', testLins', tested', leftSide', describedLeft', rightSide',
    describedRight', described'⟩ := run'
  cases Outcome.pure_eq_ok.1 described
  cases Outcome.pure_eq_ok.1 described'
  rw [SystemDescription.withoutValues, SystemDescription.withoutValues,
    SystemDescription.mk.injEq] at same
  obtain ⟨rfl, rfl, sameLeft, sameRight⟩ := same
  obtain rfl := reachable.arrays_eq_of_lins known known'
  obtain rfl := reachable.arrays_eq_of_lins tested tested'
  obtain rfl := BlockSide.describe_inj reachable (tall .left) (tall' .left) describedLeft
    describedLeft' sameLeft
  obtain rfl := BlockSide.describe_inj reachable (tall .right) (tall' .right) describedRight
    describedRight' sameRight
  rfl

end BlockSystem

end Faithful

namespace BlockSystem

variable {b b' : BlockSystem}

/-- Every section of a system is described at its place. -/
theorem describe_sections {d : SystemDescription} (run : b.describe s = .ok d) (side : Side)
    {k : Nat} {sec : Section} (found : (b.side side).sections[k]? = some sec) :
    ∃ x, (d.side side).sections[k]? = some x ∧ x.Shows s sec := by
  have sides : (b.side side).describe s = .ok (d.side side) := by
    simp only [describe, Outcome.bind_eq_ok, Outcome.pure_eq_ok] at run
    obtain ⟨_, -, _, -, _, left, _, right, rfl⟩ := run
    cases side
    · exact left
    · exact right
  simp only [BlockSide.describe, Outcome.bind_eq_ok, Outcome.pure_eq_ok] at sides
  obtain ⟨secs, described, _, -, same⟩ := sides
  obtain ⟨x, listed, read⟩ := Outcome.exists_getElem?_of_mapM described found
  refine ⟨x, same ▸ listed, ?_⟩
  simp only [Section.describe, Outcome.bind_eq_ok, Outcome.pure_eq_ok] at read
  obtain ⟨rows, rowwise, _, -, rfl⟩ := read
  refine ⟨fun i j cell here => ?_, fun i j c here => ?_⟩
  · obtain ⟨cells, foundRow, here⟩ := Option.bind_eq_some_iff.1 here
    obtain ⟨row, listedRow, cellwise⟩ := Outcome.exists_getElem?_of_mapM rowwise foundRow
    obtain ⟨c, listed, read⟩ := Outcome.exists_getElem?_of_mapM cellwise here
    exact ⟨c, Option.bind_eq_some_iff.2 ⟨row, listedRow, listed⟩, read⟩
  · obtain ⟨row, listedRow, listed⟩ := Option.bind_eq_some_iff.1 here
    obtain ⟨cells, foundRow, cellwise⟩ := (Outcome.getElem?_of_mapM rowwise i row).1 listedRow
    obtain ⟨cell, here, read⟩ := (Outcome.getElem?_of_mapM cellwise j c).1 listed
    exact ⟨cell, Option.bind_eq_some_iff.2 ⟨cells, foundRow, here⟩, read⟩

/-- Descriptions lose nothing. Under the default settings every system at hand in a session has a
description there, and two systems with the same description are the same, the values of
factors left aside. Labels tell the scalars and the arrays of the session, and every cell of
every section is described in its row and column. -/
theorem describe_faithful (obtained : Obtained {} s b) (obtained' : Obtained {} s b') :
    (∃ d, b.describe s = .ok d) ∧
    (∀ d d', b.describe s = .ok d → b'.describe s = .ok d' →
      d.withoutValues = d'.withoutValues → b = b') ∧
    (∀ id id' c c', s.scalars.get? id = some c → s.scalars.get? id' = some c' →
      c.lin = c'.lin → id = id') ∧
    (∀ id id' a a', s.arrays.get? id = some a → s.arrays.get? id' = some a' →
      s.arrayLin a = s.arrayLin a' → id = id') ∧
    ∀ d, b.describe s = .ok d → ∀ side (k : Nat) sec, (b.side side).sections[k]? = some sec →
      ∃ x, (d.side side).sections[k]? = some x ∧ x.Shows s sec := by
  have reachable := obtained.reachable
  exact ⟨describe_succeeds obtained.issued,
    fun d d' run run' same => describe_inj reachable obtained.tall obtained'.tall run run' same,
    fun _ _ _ _ found found' same => reachable.scalar_eq_of_lin found found' same,
    fun _ _ _ _ found found' same => reachable.array_eq_of_lin found found' same,
    fun d run side k sec found => describe_sections run side found⟩

/-- The system of `vᵀ u = -vᵀ u` is described differently before and after it is gathered for
`u`, when the cell in front of `u` is described. -/
theorem describe_faithful_gathered :
    let product := fun link : Link => (⟨⟨0⟩, [⟨⟨0⟩, true, ⟨"1", "n"⟩⟩, link]⟩ : Product)
    let u : Link := ⟨⟨1⟩, false, ⟨"n", "1"⟩⟩
    let equations : List (Equation Product) := [⟨[⟨.plus, product u⟩], [⟨.minus, product u⟩]⟩]
    ∃ s b s' b', ofProducts s [⟨0⟩] equations = .ok b ∧ b.gather [.form ⟨1⟩] s = .ok b' s' ∧
      Obtained {} s' b ∧ Obtained {} s' b' ∧
      ∃ d d', b.describe s' = .ok d ∧ b'.describe s' = .ok d' ∧
        d.withoutValues ≠ d'.withoutValues ∧
        ∃ x c, d'.left.sections[0]? = some x ∧ x.cell? 0 0 = some c := by
  intro product u equations
  obtain ⟨s, reachable, evaluated⟩ : ∃ s, Session.Reachable {} s ∧
      s.Issued (([⟨0⟩], equations) : List ArrayId × List (Equation Product)) ∧
      s.Issued [Target.form ⟨1⟩] ∧ (match ofProducts s [⟨0⟩] equations with
      | .ok b => match b.gather [.form ⟨1⟩] s with
        | .ok b' _ => decide (b ≠ b' ∧ ∃ sec ∈ b'.left.sections[0]?, (sec.matrix.get? 0 0).isSome)
        | .error _ _ => false
      | .error _ => false) = true :=
    ⟨Request.performAll {} [.manifold 1, .mesh ⟨0⟩, .space ⟨0⟩ 0 .outer, .degrees 1,
      .root ⟨0⟩ ⟨"v", "v"⟩, .root ⟨0⟩ ⟨"u", "u"⟩, .vector ⟨0⟩, .vector ⟨1⟩, .singleArray ⟨0⟩],
      .performAll {} _, by decide +kernel⟩
  obtain ⟨issued, targets, evaluated⟩ := evaluated
  split at evaluated
  · rename_i b built
    split at evaluated
    · rename_i b' s' gathered
      obtain ⟨apart, sec, found, filled⟩ := of_decide_eq_true evaluated
      have start : Obtained {} s b := .products reachable issued built
      have before : Obtained {} s' b :=
        Request.after_of_ok (.gather b [.form ⟨1⟩]) rfl gathered ▸ start.request _
      have after : Obtained {} s' b' := .gather start targets gathered
      obtain ⟨⟨d, described⟩, told, -⟩ := describe_faithful before after
      obtain ⟨⟨d', described'⟩, -, -, -, shows⟩ := describe_faithful after before
      obtain ⟨x, here, cells⟩ := shows d' described' .left 0 sec found
      obtain ⟨cell, inside⟩ := Option.isSome_iff_exists.1 filled
      obtain ⟨c, listed, -⟩ := cells.shown 0 0 cell inside
      exact ⟨s, b, s', b', built, gathered, before, after, d, d', described, described',
        fun same => apart (told d d' described described' same), x, c, here, listed⟩
    · cases evaluated
  · cases evaluated

end BlockSystem

end Variational
