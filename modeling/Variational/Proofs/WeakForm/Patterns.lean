import Variational.Proofs.Session.Execution
import Variational.Proofs.Text.Numerals
import Variational.WeakForm.Rearrangement

/-!
# Patterns of rearrangements

The grammar of the patterns that list the positions of an equation's terms on
each side. A pattern is read if and only if the grammar derives it
(`Rearrangement.read_eq_ok_iff`), and every pair of lists of words has a pattern.
-/

namespace Variational

open Text

/-! ## The grammar -/

namespace Rearrangement

/-- Padded indices with commas between them. -/
inductive Indices : List Char → List Nat → Prop
  | last {cs : List Char} {n : Nat} (index : SpellsIndex cs n) : Indices cs [n]
  | more {cs rest : List Char} {n : Nat} {ns : List Nat} (index : SpellsIndex cs n)
    (indices : Indices rest ns) : Indices (cs ++ ',' :: rest) (n :: ns)

/-- The positions of one side: none in a blank text, or indices. -/
inductive SideListing : List Char → List Nat → Prop
  | blank {cs : List Char} (blank : AllBlank cs) : SideListing cs []
  | indices {cs : List Char} {ns : List Nat} (indices : Indices cs ns) : SideListing cs ns

/-- A pattern with exactly one equals sign that lists positions on its two sides. -/
def Lists (pattern : String) (left right : List Nat) : Prop :=
  ∃ l r, pattern.toList = l ++ '=' :: r ∧ '=' ∉ l ∧ '=' ∉ r ∧
    SideListing l left ∧ SideListing r right

end Rearrangement

/-! ## Padding of indices -/

namespace Text.SpellsIndex

variable {before after cs : List Char} {n : Nat}

theorem append_left_iff (blank : AllBlank before) :
    SpellsIndex (before ++ cs) n ↔ SpellsIndex cs n := by
  rw [spellsIndex_iff, spellsIndex_iff, trim_append_left blank]

theorem append_right_iff (blank : AllBlank after) :
    SpellsIndex (cs ++ after) n ↔ SpellsIndex cs n := by
  rw [spellsIndex_iff, spellsIndex_iff, trim_append_right blank]

end Text.SpellsIndex

namespace Rearrangement

namespace Indices

variable {before after cs : List Char} {ns : List Nat}

theorem of_intercalate {parts : List (List Char)} (nonempty : parts ≠ [])
    (each : List.Forall₂ SpellsIndex parts ns) : Indices ([','].intercalate parts) ns := by
  induction each with
  | nil => exact absurd rfl nonempty
  | @cons piece n parts ns index each ih =>
    cases parts with
    | nil =>
      rw [List.forall₂_nil_left_iff] at each
      rw [each]
      simpa [List.intercalate] using Indices.last index
    | cons next parts =>
      have whole : [','].intercalate (piece :: next :: parts) =
          piece ++ ',' :: [','].intercalate (next :: parts) := by
        simp [List.intercalate, List.intersperse]
      rw [whole]
      exact .more index (ih (by simp))

/-- The pieces between the commas spell the indices. -/
theorem iff_pieces : Indices cs ns ↔ List.Forall₂ SpellsIndex (pieces ',' cs) ns := by
  constructor
  · intro indices
    induction indices with
    | last index =>
      rw [pieces_of_not_mem (index.not_mem (by decide))]
      exact .cons index .nil
    | more index _ ih =>
      rw [pieces_append_cons (index.not_mem (by decide))]
      exact .cons index ih
  · intro each
    rw [← intercalate_pieces ',' cs]
    exact of_intercalate (pieces_ne_nil _ _) each

theorem mapM_readIndex :
    (pieces ',' cs).mapM (fun piece => readIndex (trim piece)) = some ns ↔
      Indices cs ns := by
  rw [iff_pieces]
  generalize pieces ',' cs = parts
  induction parts generalizing ns with
  | nil =>
    simp [eq_comm]
  | cons part parts ih =>
    simp only [List.mapM_cons, List.forall₂_cons_left_iff, spellsIndex_iff, ← ih,
      Option.bind_eq_bind, Option.bind_eq_some_iff, Option.pure_def, Option.some.injEq]
    constructor
    · rintro ⟨n, read, ns, each, rfl⟩
      exact ⟨n, ns, read, each, rfl⟩
    · rintro ⟨n, ns, read, each, rfl⟩
      exact ⟨n, read, ns, each, rfl⟩

theorem unique {ms : List Nat} (indices : Indices cs ns) (indices' : Indices cs ms) : ns = ms := by
  have functional : Relator.RightUnique SpellsIndex := fun _ _ _ => SpellsIndex.unique
  exact List.right_unique_forall₂' functional (iff_pieces.1 indices) (iff_pieces.1 indices')

theorem ne_nil (indices : Indices cs ns) : cs ≠ [] := by
  intro empty
  subst empty
  obtain ⟨n, _, index, -⟩ := List.forall₂_cons_left_iff.1 (iff_pieces.1 indices)
  rw [spellsIndex_iff] at index
  cases index

theorem append_left (indices : Indices cs ns) (blank : AllBlank before) :
    Indices (before ++ cs) ns := by
  cases indices with
  | last index => exact .last ((SpellsIndex.append_left_iff blank).2 index)
  | more index indices =>
    rw [← List.append_assoc]
    exact .more ((SpellsIndex.append_left_iff blank).2 index) indices

theorem append_right (indices : Indices cs ns) (blank : AllBlank after) :
    Indices (cs ++ after) ns := by
  induction indices with
  | last index => exact .last ((SpellsIndex.append_right_iff blank).2 index)
  | more index _ ih =>
    rw [List.append_assoc, List.cons_append]
    exact .more index ih

/-- The first index takes the blanks in front with it. -/
theorem dropWhile (indices : Indices cs ns) : Indices (cs.dropWhile isBlank) ns := by
  have strip : ∀ {piece : List Char} {n : Nat}, SpellsIndex piece n →
      SpellsIndex (piece.dropWhile isBlank) n := fun {piece n} index => by
    have front : AllBlank (piece.takeWhile isBlank) := fun c => List.mem_takeWhile_imp
    rwa [← SpellsIndex.append_left_iff front, List.takeWhile_append_dropWhile]
  cases indices with
  | last index => exact .last (strip index)
  | @more piece rest n ns index indices =>
    have stripped := strip index
    rw [List.dropWhile_append]
    split
    · rename_i empty
      -- the first piece is blank only if it spells nothing
      rw [List.isEmpty_iff.1 empty, spellsIndex_iff] at stripped
      cases stripped
    · exact .more stripped indices

/-- The last index takes the blanks at the end with it. -/
theorem dropWhile_reverse (indices : Indices cs ns) :
    Indices (cs.reverse.dropWhile isBlank).reverse ns := by
  induction indices with
  | @last piece n index =>
    have back : AllBlank (piece.reverse.takeWhile isBlank).reverse :=
      fun c member => List.mem_takeWhile_imp (List.mem_reverse.1 member)
    refine .last ((SpellsIndex.append_right_iff back).1 ?_)
    rwa [← List.reverse_append, List.takeWhile_append_dropWhile, List.reverse_reverse]
  | @more piece rest n ns index indices ih =>
    have shape : (piece ++ ',' :: rest).reverse = rest.reverse ++ (',' :: piece.reverse) := by
      simp
    rw [shape, List.dropWhile_append]
    split
    · rename_i empty
      -- the rest is not blank, since it spells an index
      exact absurd (by rw [List.isEmpty_iff.1 empty]; rfl) ih.ne_nil
    · rw [List.reverse_append, List.reverse_cons, List.reverse_reverse, List.append_assoc,
        List.singleton_append]
      exact .more index ih

theorem trim_iff : Indices (trim cs) ns ↔ Indices cs ns := by
  constructor
  · intro indices
    obtain ⟨before, after, front, back, whole⟩ := exists_padding cs
    rw [whole]
    exact (indices.append_left front).append_right back
  · exact fun indices => indices.dropWhile.dropWhile_reverse

end Indices

/-! ## Reading -/

theorem readSide_eq_ok_iff {pattern : String} {cs : List Char} {ns : List Nat} :
    readSide pattern cs = .ok ns ↔ SideListing cs ns := by
  rw [readSide]
  split
  · rename_i blank
    constructor
    · intro read
      cases read
      exact .blank (trim_eq_nil_iff.1 blank)
    · intro listing
      cases listing with
      | blank => rfl
      | indices indices => exact absurd blank (Indices.trim_iff.2 indices).ne_nil
  · rename_i solid
    rw [Outcome.mapM_eq_ok]
    constructor
    · intro each
      refine .indices (Indices.trim_iff.1 (Indices.iff_pieces.2 (each.imp fun piece n run => ?_)))
      rw [spellsIndex_iff]
      revert run
      cases readIndex (trim piece) <;> simp
    · intro listing
      cases listing with
      | blank blank => exact absurd (trim_eq_nil_iff.2 blank) solid
      | indices indices =>
        refine (Indices.iff_pieces.1 (Indices.trim_iff.2 indices)).imp fun piece n index => ?_
        rw [spellsIndex_iff.1 index]

/-- A pattern is read as the lists that it lists. -/
theorem read_eq_ok_iff {pattern : String} {left right : List Nat} :
    read pattern = .ok (left, right) ↔ Lists pattern left right := by
  rw [read]
  constructor
  · intro run
    split at run
    · rename_i l r parts
      obtain ⟨whole, noneLeft, noneRight⟩ := pieces_eq_pair_iff.1 parts
      obtain ⟨_, readLeft, run⟩ := Outcome.bind_eq_ok.1 run
      obtain ⟨_, readRight, run⟩ := Outcome.bind_eq_ok.1 run
      cases Outcome.pure_eq_ok.1 run
      exact ⟨l, r, whole, noneLeft, noneRight, readSide_eq_ok_iff.1 readLeft,
        readSide_eq_ok_iff.1 readRight⟩
    · simp at run
  · intro given
    rcases given with ⟨l, r, whole, noneLeft, noneRight, listsLeft, listsRight⟩
    rw [pieces_eq_pair_iff.2 ⟨whole, noneLeft, noneRight⟩]
    simp only [readSide_eq_ok_iff.2 listsLeft, readSide_eq_ok_iff.2 listsRight]
    rfl

/-! ## Writing -/

/-- The positions of one side in decimal, with commas between them. -/
def writeSide (positions : List Nat) : List Char :=
  [','].intercalate (positions.map (Nat.toDigits 10))

/-- A pattern that lists given positions. -/
def write (left right : List Nat) : String :=
  String.ofList (writeSide left ++ '=' :: writeSide right)

/-- Positions in decimal are read as themselves. -/
theorem indices_writeSide {ns ms : List Nat} (nonempty : ns ≠ []) :
    Indices (writeSide ns) ms ↔ ms = ns ∧ ∀ n ∈ ns, n < UInt64.size := by
  have absent : ∀ part ∈ ns.map (Nat.toDigits 10), ',' ∉ part :=
    List.forall_mem_map.2 fun n _ => not_mem_toDigits (by decide) n
  have each : (fun n => SpellsIndex (Nat.toDigits 10 n)) = fun n m => n < UInt64.size ∧ n = m := by
    funext n m
    rw [spellsIndex_toDigits, and_comm, eq_comm (a := n)]
  rw [Indices.iff_pieces, writeSide, pieces_intercalate (by simpa using nonempty) absent,
    List.forall₂_map_left_iff, each, List.forall₂_and_left, List.forall₂_eq_eq_eq, and_comm,
    eq_comm]

theorem sideListing_writeSide {positions : List Nat} (bounded : ∀ n ∈ positions, n < UInt64.size) :
    SideListing (writeSide positions) positions := by
  cases positions with
  | nil => exact .blank (by simp [writeSide, List.intercalate, AllBlank])
  | cons first rest =>
    refine .indices (.of_intercalate (by simp) ?_)
    refine List.forall₂_map_left_iff.2 (List.forall₂_same.2 fun n member => ?_)
    exact ⟨[], _, [], by simp, by simp [AllBlank], by simp [AllBlank], numeral_toDigits n,
      bounded n member⟩

theorem not_mem_of_sideListing {cs : List Char} {positions : List Nat}
    (listing : SideListing cs positions) : '=' ∉ cs := by
  cases listing with
  | blank blank => exact fun member => absurd (blank '=' member) (by decide)
  | indices indices =>
    induction indices with
    | last index => exact index.not_mem (by decide)
    | more index _ ih =>
      rw [List.mem_append, List.mem_cons, not_or, not_or]
      exact ⟨index.not_mem (by decide), by decide, ih⟩

/-- Every two lists of words are listed by a pattern. -/
theorem lists_write {left right : List Nat} (boundedLeft : ∀ n ∈ left, n < UInt64.size)
    (boundedRight : ∀ n ∈ right, n < UInt64.size) : Lists (write left right) left right := by
  have listsLeft := sideListing_writeSide boundedLeft
  have listsRight := sideListing_writeSide boundedRight
  exact ⟨_, _, String.toList_ofList, not_mem_of_sideListing listsLeft,
    not_mem_of_sideListing listsRight, listsLeft, listsRight⟩

/-- Positions that are listed are words. -/
theorem Lists.lt {pattern : String} {left right : List Nat} (lists : Lists pattern left right)
    {n : Nat} (member : n ∈ left ++ right) : n < UInt64.size := by
  have bounded : ∀ {cs : List Char} {ns : List Nat}, SideListing cs ns → n ∈ ns →
      n < UInt64.size := by
    intro cs ns listing member
    cases listing with
    | blank => cases member
    | indices indices =>
      induction indices with
      | last index =>
        obtain ⟨_, _, _, -, -, -, -, small⟩ := index
        rwa [List.mem_singleton.1 member]
      | more index _ ih =>
        obtain ⟨_, _, _, -, -, -, -, small⟩ := index
        rcases List.mem_cons.1 member with rfl | later
        · exact small
        · exact ih later
  obtain ⟨l, r, -, -, -, listsLeft, listsRight⟩ := lists
  exact (List.mem_append.1 member).elim (bounded listsLeft) (bounded listsRight)

end Rearrangement

end Variational
