import Variational.Proofs.Block.Dimensions

/-!
# Gathering in steps

Gathering for arrays moves the terms of a row that end with an array into the column of the array,
and keeps the terms that end with none of them. What becomes of a term depends only on the array
that it ends with. So it makes no difference whether arrays are gathered for at once or in steps,
nor in which order: `gather_in_steps`.
-/

namespace Variational

open Derive

variable {s s' : Session} {targets first second : List ArrayId} {a : ArrayId}
  {terms : List (Signed Product)}

/-! ## The arrays at the ends of terms -/

/-- The array of the last link, if it is not transposed. -/
def Product.ending? (p : Product) : Option ArrayId :=
  p.chain.getLast?.bind fun link => if link.transposed then none else some link.array

namespace Product

variable {p : Product}

theorem column?_eq_bind (p : Product) (targets : List ArrayId) :
    p.column? targets = p.ending?.bind fun a => targets.idxOf? a := by
  rw [column?_eq, ending?]
  cases p.chain.getLast? with
  | none => rfl
  | some link =>
    rw [Option.bind_some, Option.bind_some]
    split <;> rfl

theorem column?_eq_idxOf (member : a ∈ targets) :
    p.column? targets = some (targets.idxOf a) ↔ p.ending? = some a := by
  obtain ⟨k, found⟩ := Option.isSome_iff_exists.1 (List.isSome_idxOf?.2 member)
  rw [column?_eq_bind, List.idxOf_eq_getD_idxOf?, found, Option.getD_some]
  constructor
  · intro column
    obtain ⟨b, ends, found'⟩ := Option.bind_eq_some_iff.1 column
    obtain ⟨_, same, -⟩ := List.idxOf?_eq_some_iff.1 found
    obtain ⟨_, same', -⟩ := List.idxOf?_eq_some_iff.1 found'
    rw [ends, ← same, ← same']
  · intro ends
    rw [ends, Option.bind_some, found]

theorem column?_eq_none_iff :
    p.column? targets = none ↔ ∀ a ∈ targets, p.ending? ≠ some a := by
  rw [column?_eq_bind]
  cases p.ending? with
  | none => simp
  | some b =>
    rw [Option.bind_some, List.idxOf?_eq_none_iff]
    constructor
    · rintro absent a member ⟨⟩
      exact absent member
    · exact fun other member => other b member rfl

end Product

namespace Sorting

/-- The terms that end with an array, without it. -/
def ending (a : ArrayId) (terms : List (Signed Product)) : List (Signed Product) :=
  (terms.filter fun t => t.value.ending? = some a).map (Signed.map Product.withoutLast)

/-- The first column of a target takes the terms that end with it. -/
theorem moved_idxOf (targets : List ArrayId) (a : ArrayId) (terms : List (Signed Product)) :
    moved targets (targets.idxOf a) terms = if a ∈ targets then ending a terms else [] := by
  split
  case isTrue member => simp only [moved, ending, Product.column?_eq_idxOf member]
  case isFalse absent =>
    rw [moved, List.map_eq_nil_iff, List.filter_eq_nil_iff]
    intro t _
    rw [decide_eq_true_eq, List.idxOf_of_notMem absent]
    intro column
    obtain ⟨b, -, found⟩ := Product.column?_eq_some.1 column
    exact absurd (List.idxOf?_eq_some_iff.1 found).1 (Nat.lt_irrefl _)

theorem kept_eq_filter (targets : List ArrayId) (terms : List (Signed Product)) :
    kept targets terms = terms.filter fun t => ∀ a ∈ targets, t.value.ending? ≠ some a := by
  simp only [kept, Product.column?_eq_none_iff]

/-- Which terms are kept depends on the targets only as a set. -/
theorem kept_congr (same : ∀ a, a ∈ first ↔ a ∈ second) (terms : List (Signed Product)) :
    kept first terms = kept second terms := by
  simp only [kept_eq_filter, same]

theorem kept_targets_append (first second : List ArrayId) (terms : List (Signed Product)) :
    kept (first ++ second) terms = kept second (kept first terms) := by
  simp only [kept_eq_filter, List.filter_filter, List.forall_mem_append, Bool.decide_and,
    Bool.and_comm]

/-- The terms that end with another array than the targets are kept. -/
theorem ending_kept (absent : a ∉ targets) (terms : List (Signed Product)) :
    ending a (kept targets terms) = ending a terms := by
  rw [ending, ending, kept_eq_filter, List.filter_filter]
  congr 1
  refine List.filter_congr fun t _ => ?_
  by_cases ends : t.value.ending? = some a
  · have other : ∀ b ∈ targets, t.value.ending? ≠ some b := by
      rintro b member same
      cases ends.symm.trans same
      exact absent member
    rw [decide_eq_true ends, Bool.true_and]
    exact decide_eq_true other
  · simp [ends]

end Sorting

/-! ## Sides -/

namespace BlockVector

/-- A vector is given by its rows. -/
theorem eq_of_row {v v' : BlockVector} (rows : v.rows = v'.rows) (row : ∀ i, v.row i = v'.row i) :
    v = v' := by
  refine BlockVector.ext (List.ext_getElem rows fun i inside inside' => BlockCell.ext ?_)
  have here := row i
  rwa [BlockVector.row, BlockVector.row, get?, get?, List.getElem?_eq_getElem inside,
    List.getElem?_eq_getElem inside'] at here

end BlockVector

theorem BlockMatrix.isEmpty_of_entry {m : BlockMatrix} (none : ∀ i j, m.entry i j = []) :
    m.isEmpty = true := by
  refine List.all_eq_true.2 fun row member => List.all_eq_true.2 fun cell inside => ?_
  obtain ⟨i, found⟩ := List.mem_iff_getElem?.1 member
  obtain ⟨j, found'⟩ := List.mem_iff_getElem?.1 inside
  have here := none i j
  rw [entry, get?, found] at here
  simpa [found', BlockCell.isEmpty] using here

namespace BlockSide

/-- The terms in a row and the first column of an array, in the section that a side has beyond
those that it had before. There are none if it has no new section. -/
def newCell (before after : BlockSide) (targets : List ArrayId) (i : Nat) (a : ArrayId) :
    List (Signed Product) :=
  after.sections[before.sections.length]?.elim [] fun sec => sec.matrix.entry i (targets.idxOf a)

/-- The effect of gathering for arrays on a side. -/
structure Took (targets : List ArrayId) (before after : BlockSide) : Prop where
  sections : ∃ new : Option Section, after.sections = before.sections ++ new.toList
  rows : after.remainder.rows = before.remainder.rows
  row : ∀ i, after.remainder.row i = Sorting.kept targets (before.remainder.row i)
  cell : ∀ i a, before.newCell after targets i a =
    if a ∈ targets then Sorting.ending a (before.remainder.row i) else []

variable {side side' side'' : BlockSide} {unknowns unknowns' : BlockVector}

theorem took (run : side.gather targets unknowns = .ok side') : side.Took targets side' := by
  obtain ⟨sorting, sorted, rfl⟩ := gather_eq_ok run
  obtain ⟨-, rows, entry, row⟩ := Sorting.run_spec sorted
  cases empty : sorting.matrix.isEmpty with
  | true =>
    refine ⟨⟨none, by simp⟩, rows, row, fun i a => ?_⟩
    rw [← Sorting.moved_idxOf, ← entry, BlockMatrix.entry_eq_nil_of_isEmpty empty]
    simp [newCell]
  | false =>
    refine ⟨⟨some ⟨sorting.matrix, unknowns⟩, by simp⟩, rows, row, fun i a => ?_⟩
    rw [← Sorting.moved_idxOf, ← entry]
    simp [newCell]

/-- Nothing is left to move when the same arrays are gathered for again. -/
theorem eq_of_gather_again (first : side.gather targets unknowns = .ok side')
    (again : side'.gather targets unknowns' = .ok side'') : side'' = side' := by
  have kept (i : Nat) : Sorting.kept targets (side'.remainder.row i) = side'.remainder.row i := by
    rw [(took first).row, ← Sorting.kept_targets_append]
    exact Sorting.kept_congr (by simp) _
  obtain ⟨sorting, sorted, rfl⟩ := gather_eq_ok again
  obtain ⟨-, rows, entry, row⟩ := Sorting.run_spec sorted
  have empty : sorting.matrix.isEmpty = true := by
    refine BlockMatrix.isEmpty_of_entry fun i k => ?_
    rw [entry, Sorting.moved, List.map_eq_nil_iff, List.filter_eq_nil_iff]
    intro t member
    rw [← kept] at member
    have stays := of_decide_eq_true (List.mem_filter.1 member).2
    simp [stays]
  have same : sorting.remainder = side'.remainder :=
    BlockVector.eq_of_row rows fun i => (row i).trans (kept i)
  rw [if_pos empty, same]

end BlockSide

/-! ## Systems -/

namespace BlockSystem

variable {settings : Settings} {b b' b₀ before middle last once other : BlockSystem}
  {shapes : Side → Nat → Shape} {calls : List (List ArrayId)}

/-- The effect of gathering for arrays. -/
structure Took (targets : List ArrayId) (before after : BlockSystem) : Prop where
  testVectors : after.testVectors = before.testVectors
  unknowns : after.unknowns =
    targets.foldl (fun known a => if a ∈ known then known else known ++ [a]) before.unknowns
  sides : ∀ side, (before.side side).Took targets (after.side side)

/-- Gathering at once compared with gathering in two steps. -/
structure AtOnce (first second : List ArrayId) (before middle last once : BlockSystem) :
    Prop where
  unknowns : once.unknowns = last.unknowns
  remainder : ∀ side, (once.side side).remainder = (last.side side).remainder
  sections : ∀ side, ∃ new : Option Section,
    (once.side side).sections = (before.side side).sections ++ new.toList
  cell : ∀ side i a, (before.side side).newCell (once.side side) (first ++ second) i a =
    if a ∈ first then (before.side side).newCell (middle.side side) first i a
    else (middle.side side).newCell (last.side side) second i a

theorem mapM_array (arrays : List ArrayId) (s : Session) :
    (arrays.map Target.array).mapM Target.array? s = .ok arrays s := by
  induction arrays with
  | nil => rfl
  | cons a arrays ih =>
    rw [List.map_cons, List.mapM_cons, bind_of_ok (show Target.array? (.array a) s = .ok a s from rfl),
      bind_of_ok ih]
    rfl

/-- The parts of a run of gathering for arrays. -/
theorem gather_arrays_eq_ok (run : b.gather (targets.map .array) s = .ok b' s') :
    b'.testVectors = b.testVectors ∧ b'.unknowns =
      targets.foldl (fun known a => if a ∈ known then known else known ++ [a]) b.unknowns ∧
    ∃ unknowns, ∀ side, (b.side side).gather targets unknowns = .ok (b'.side side) := by
  rw [gather, bind_of_ok (mapM_array targets s)] at run
  simp only [bind_eq_ok, lift_eq_ok, pure_eq_ok] at run
  obtain ⟨unknowns, _, -, left, _, ⟨gatheredLeft, rfl⟩, right, _, ⟨gatheredRight, rfl⟩, rfl, rfl⟩ :=
    run
  refine ⟨rfl, rfl, unknowns, fun side => ?_⟩
  cases side with
  | left => exact gatheredLeft
  | right => exact gatheredRight

theorem took (run : b.gather (targets.map .array) s = .ok b' s') : b.Took targets b' := by
  obtain ⟨testVectors, known, unknowns, sides⟩ := gather_arrays_eq_ok run
  exact ⟨testVectors, known, fun side => BlockSide.took (sides side)⟩

theorem foldl_known {known : List ArrayId} (all : ∀ a ∈ targets, a ∈ known) :
    targets.foldl (fun known a => if a ∈ known then known else known ++ [a]) known = known := by
  induction targets with
  | nil => rfl
  | cons a targets ih =>
    rw [List.forall_mem_cons] at all
    rw [List.foldl_cons, if_pos all.1, ih all.2]

theorem eq_of_sides (testVectors : b'.testVectors = b.testVectors)
    (unknowns : b'.unknowns = b.unknowns) (sides : ∀ side, b'.side side = b.side side) : b' = b := by
  have left := sides .left
  have right := sides .right
  obtain ⟨_, _, _, _⟩ := b
  obtain ⟨_, _, _, _⟩ := b'
  simp_all [side]

/-- Gathering for the same arrays again changes nothing. -/
theorem eq_of_gather_again {b'' : BlockSystem} {s₁ s₂ : Session}
    (run : b.gather (targets.map .array) s = .ok b' s')
    (again : b'.gather (targets.map .array) s₁ = .ok b'' s₂) : b'' = b' := by
  obtain ⟨-, known, unknowns, sides⟩ := gather_arrays_eq_ok run
  obtain ⟨testVectors, known', unknowns', sides'⟩ := gather_arrays_eq_ok again
  refine eq_of_sides testVectors (known'.trans (foldl_known fun a member => ?_)) fun side =>
    BlockSide.eq_of_gather_again (sides side) (sides' side)
  rw [known]
  exact mem_foldl_unknowns.2 (.inr member)

/-- Gathering in two steps and at once. -/
theorem Took.atOnce (one : before.Took first middle) (two : middle.Took second last)
    (both : before.Took (first ++ second) once) : AtOnce first second before middle last once where
  unknowns := by rw [both.unknowns, two.unknowns, one.unknowns, List.foldl_append]
  remainder side := by
    have one := one.sides side
    have two := two.sides side
    have both := both.sides side
    refine BlockVector.eq_of_row (by rw [both.rows, two.rows, one.rows]) fun i => ?_
    rw [both.row, two.row, one.row, Sorting.kept_targets_append]
  sections side := (both.sides side).sections
  cell side i a := by
    rw [(both.sides side).cell, (one.sides side).cell, (two.sides side).cell, (one.sides side).row]
    by_cases early : a ∈ first
    · simp only [List.mem_append, early, true_or, if_true]
    · simp only [List.mem_append, early, false_or, if_false, Sorting.ending_kept early]

/-- Gathering for the same arrays at once in two orders. -/
theorem Took.swap (both : before.Took (first ++ second) once)
    (swapped : before.Took (second ++ first) other) (side : Side) :
    (other.side side).remainder = (once.side side).remainder ∧
      ∀ i a, (before.side side).newCell (other.side side) (second ++ first) i a =
        (before.side side).newCell (once.side side) (first ++ second) i a := by
  have both := both.sides side
  have swapped := swapped.sides side
  refine ⟨BlockVector.eq_of_row (by rw [swapped.rows, both.rows]) fun i => ?_, fun i a => ?_⟩
  · rw [swapped.row, both.row]
    exact Sorting.kept_congr (by simp [or_comm]) _
  · rw [swapped.cell, both.cell]
    simp only [List.mem_append, or_comm]

/-- Whether others were gathered for before does not change the cells of arrays. -/
theorem Took.newCell_eq (apart : ∀ a ∈ second, a ∉ first) (one : before.Took first middle)
    (two : middle.Took second last) (direct : before.Took second other) (side : Side) (i : Nat)
    (a : ArrayId) : (middle.side side).newCell (last.side side) second i a =
      (before.side side).newCell (other.side side) second i a := by
  rw [(two.sides side).cell, (direct.sides side).cell, (one.sides side).row]
  split
  case isTrue member => rw [Sorting.ending_kept (apart a member)]
  case isFalse => rfl

/-- A system can be gathered for arrays of the session. -/
theorem Dimensioned.gather_arrays (dimensioned : b.Dimensioned s shapes) (offers : s.Offers 1.0)
    (known : ∀ a ∈ targets, ∃ array, s.arrays.get? a = some array) :
    ∃ b' s', b.gather (targets.map .array) s = .ok b' s' ∧ s.Steps s' ∧ b'.Dimensioned s' shapes ∧
      b.Took targets b' := by
  obtain ⟨b', s', run⟩ := dimensioned.gather_of_resolved offers .refl (mapM_array targets s) known
  exact ⟨b', s', run, (b.gather_grows _).steps run, dimensioned.gather run, took run⟩

/-- At every point of a run, in every session from there on, gathering for two lists of arrays at
once gives the unknowns, the remainders and the cells that gathering for one list after the other
gives. If the lists are disjoint, their order changes neither the remainders nor the cells.
Gathering again for the same arrays changes nothing. -/
theorem gather_in_steps (reachable : Session.Reachable settings s) {testVectors : List ArrayId}
    {equations : List (Equation Product)}
    (held : ∀ e ∈ equations, ∀ side, ∀ t ∈ e.side side, s.HoldsProduct t.value)
    (built : ofProducts s testVectors equations = .ok b₀) (run : Gathers s b₀ calls s' b)
    (known : ∀ a ∈ first ++ second, ∃ array, s'.arrays.get? a = some array) :
    ∃ b₁ s₁ b₂ s₂, b.gather (first.map .array) s' = .ok b₁ s₁ ∧
      b₁.gather (second.map .array) s₁ = .ok b₂ s₂ ∧
      (∃ s₃, b₁.gather (first.map .array) s₁ = .ok b₁ s₃) ∧
      ∀ t, s'.Steps t → ∃ b₃ t', b.gather ((first ++ second).map .array) t = .ok b₃ t' ∧
        AtOnce first second b b₁ b₂ b₃ ∧
        (first.Disjoint second → ∃ c₁ t₁ c₂ t₂ c₃ t₃, b.gather (second.map .array) t = .ok c₁ t₁ ∧
          c₁.gather (first.map .array) t₁ = .ok c₂ t₂ ∧
          b.gather ((second ++ first).map .array) t = .ok c₃ t₃ ∧
          AtOnce second first b c₁ c₂ c₃ ∧ ∀ side,
            (c₃.side side).remainder = (b₃.side side).remainder ∧ ∀ i a,
              (b.side side).newCell (c₃.side side) (second ++ first) i a =
                (b.side side).newCell (b₃.side side) (first ++ second) i a ∧
              (c₁.side side).newCell (c₂.side side) first i a =
                (b.side side).newCell (b₁.side side) first i a ∧
              (b.side side).newCell (c₁.side side) second i a =
                (b₁.side side).newCell (b₂.side side) second i a) := by
  obtain ⟨shapes, start⟩ := ofProducts_dimensioned held built
  have here := run.dimensioned start
  have offers : s'.Offers 1.0 :=
    run.steps.offers Scalar.isFinite_one (reachable.offers Scalar.isFinite_one)
  obtain ⟨knownFirst, knownSecond⟩ := List.forall_mem_append.1 known
  obtain ⟨b₁, s₁, run₁, steps₁, there, one⟩ := here.gather_arrays offers knownFirst
  have offers₁ := steps₁.offers Scalar.isFinite_one offers
  obtain ⟨b₂, s₂, run₂, -, -, two⟩ := there.gather_arrays offers₁ fun a member =>
    (knownSecond a member).imp fun _ => steps₁.extends.arrays
  obtain ⟨b₁', s₃, again, -⟩ := there.gather_arrays offers₁ fun a member =>
    (knownFirst a member).imp fun _ => steps₁.extends.arrays
  obtain rfl := eq_of_gather_again run₁ again
  refine ⟨b₁', s₁, b₂, s₂, run₁, run₂, ⟨s₃, again⟩, fun t later => ?_⟩
  have here' := here.mono later.extends
  have offers' := later.offers Scalar.isFinite_one offers
  have known' {targets : List ArrayId} (all : ∀ a ∈ targets, ∃ array, s'.arrays.get? a = some array)
      (a : ArrayId) (member : a ∈ targets) : ∃ array, t.arrays.get? a = some array :=
    (all a member).imp fun _ => later.extends.arrays
  obtain ⟨b₃, t', run₃, -, -, both⟩ := here'.gather_arrays offers' (known' known)
  refine ⟨b₃, t', run₃, one.atOnce two both, fun apart => ?_⟩
  obtain ⟨c₁, t₁, turn₁, steps, there', one'⟩ := here'.gather_arrays offers' (known' knownSecond)
  obtain ⟨c₂, t₂, turn₂, -, -, two'⟩ := there'.gather_arrays
    (steps.offers Scalar.isFinite_one offers') fun a member =>
      (known' knownFirst a member).imp fun _ => steps.extends.arrays
  obtain ⟨c₃, t₃, turn₃, -, -, both'⟩ := here'.gather_arrays offers'
    (known' (List.forall_mem_append.2 ⟨knownSecond, knownFirst⟩))
  refine ⟨c₁, t₁, c₂, t₂, c₃, t₃, turn₁, turn₂, turn₃, one'.atOnce two' both', fun side => ?_⟩
  obtain ⟨remainder, cells⟩ := both.swap both' side
  refine ⟨remainder, fun i a => ⟨cells i a, ?_, ?_⟩⟩
  · exact one'.newCell_eq (fun a early late => apart early late) two' one side i a
  · exact (one.newCell_eq (fun a late early => apart early late) two one' side i a).symm

/-- `vᵀ M u - vᵀ u = -vᵀ M v` gathered for the vector of `u`, then for those of `v` and `u`, and at
once for the three. The cell of `u` takes both terms of the left side. -/
theorem gather_in_steps_overlapping : ∃ (s s₁ s₂ s₃ : Session) (b b₁ b₂ b₃ : BlockSystem),
    b.gather [.array ⟨1⟩] s = .ok b₁ s₁ ∧
      b₁.gather [.array ⟨0⟩, .array ⟨1⟩] s₁ = .ok b₂ s₂ ∧
      b.gather [.array ⟨1⟩, .array ⟨0⟩, .array ⟨1⟩] s = .ok b₃ s₃ ∧
      AtOnce [⟨1⟩] [⟨0⟩, ⟨1⟩] b b₁ b₂ b₃ ∧
      ((b.side .left).newCell (b₃.side .left) [⟨1⟩, ⟨0⟩, ⟨1⟩] 0 ⟨1⟩).length = 2 := by
  obtain ⟨s, equations, reachable, held, known, runs⟩ : ∃ s equations, Session.Reachable {} s ∧
      (∀ e ∈ equations, ∀ t ∈ e.left ++ e.right, Product.firstBreak t.value.chain = none ∧
        ∀ l ∈ t.value.chain, s.link l.array l.transposed = .ok l) ∧
      (∀ a ∈ ([⟨1⟩] ++ [⟨0⟩, ⟨1⟩] : List ArrayId), (s.arrays.get? a).isSome) ∧
      (match ofProducts s [⟨0⟩] equations with
        | .ok b => match b.gather [.array ⟨1⟩] s with
          | .ok b₁ _ => decide (((b.side .left).newCell (b₁.side .left) [⟨1⟩] 0 ⟨1⟩).length = 2)
          | .error _ _ => false
        | .error _ => false) = true := by
    let s := Request.performAll {} [.manifold 1, .mesh ⟨0⟩, .space ⟨0⟩ 0 .outer, .degrees 1,
      .root ⟨0⟩ ⟨"v", "v"⟩, .root ⟨0⟩ ⟨"u", "u"⟩, .vector ⟨0⟩, .vector ⟨1⟩, .massMatrix ⟨0⟩]
    let product := fun arrays : List ArrayId => (⟨⟨0⟩, ((s.link ⟨0⟩ true).toOption.toList ++
      arrays.flatMap fun a => (s.link a false).toOption.toList)⟩ : Product)
    refine ⟨s, [⟨[⟨.plus, product [⟨2⟩, ⟨1⟩]⟩, ⟨.minus, product [⟨1⟩]⟩],
      [⟨.minus, product [⟨2⟩, ⟨0⟩]⟩]⟩], .performAll {} _, ?_, ?_, ?_⟩ <;> decide +kernel
  split at runs
  case h_2 => cases runs
  rename_i b built
  have held' (e : Equation Product) (member : e ∈ equations) (side : Side) (t : Signed Product)
      (inside : t ∈ e.side side) : s.HoldsProduct t.value := by
    obtain ⟨fits, linked⟩ := held e member t (by cases side <;> simp_all [Equation.side])
    exact ⟨Product.firstBreak_eq_none.1 fits, linked⟩
  obtain ⟨b₁, s₁, b₂, s₂, run₁, run₂, -, routes⟩ := gather_in_steps reachable held' built .start
    fun a member => Option.isSome_iff_exists.1 (known a member)
  obtain ⟨b₃, s₃, run₃, once, -⟩ := routes s .refl
  rw [show b.gather [.array ⟨1⟩] s = .ok b₁ s₁ from run₁] at runs
  refine ⟨s, s₁, s₂, s₃, b, b₁, b₂, b₃, run₁, run₂, run₃, once, ?_⟩
  rw [show [⟨1⟩, ⟨0⟩, ⟨1⟩] = [(⟨1⟩ : ArrayId)] ++ [⟨0⟩, ⟨1⟩] from rfl, once.cell,
    if_pos List.mem_cons_self]
  exact of_decide_eq_true runs

end BlockSystem

end Variational
