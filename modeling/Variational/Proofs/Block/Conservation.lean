import Variational.Proofs.Block.Sorting
import Variational.Proofs.Session.Reachability

/-!
# Conservation of terms

Gathering moves terms between the remainder and the sections of a side, and nothing
else. The terms of a side, with the targets of its sections put back, are at every
point of a run the terms that the system was built from: `gather_conserves`.
-/

namespace Variational

open Derive

variable {s s' : Session}

/-! ## Sections and sides -/

/-- A section for gathered arrays: row `k` of its unknowns is plus one times array `k`. -/
structure Section.GatheredFor (s : Session) (n : Nat) (arrays : List ArrayId) (sec : Section) :
    Prop where
  size : sec.matrix.HasSize n arrays.length
  rows : sec.unknowns.rows = arrays.length
  unknown : ∀ k a, arrays[k]? = some a → ∃ one link, s.IsUnit one ∧ s.link a false = .ok link ∧
    sec.unknowns.row k = [⟨.plus, ⟨one, [link]⟩⟩]

/-- The terms in a row of a section, each with the array of its column put back. -/
def Section.outlines (sec : Section) (arrays : List ArrayId) (i : Nat) : List (Signed Outline) :=
  arrays.zipIdx.flatMap fun (a, k) =>
    (sec.matrix.entry i k).map (Signed.map fun p => p.outline.followedBy a)

/-- The terms in a row of a side whose sections were made for the given arrays. -/
def BlockSide.outlines (side : BlockSide) (made : List (List ArrayId)) (i : Nat) :
    List (Signed Outline) :=
  ((made.zip side.sections).flatMap fun (arrays, sec) => sec.outlines arrays i) ++
    (side.remainder.row i).map (Signed.map Product.outline)

/-- A side that holds the terms of every row of an input, as they are in its remainder or
without their last link in its sections. -/
structure BlockSide.Balanced (s : Session) (n : Nat) (input : Nat → List (Signed Product))
    (side : BlockSide) (made : List (List ArrayId)) : Prop where
  rows : side.remainder.rows = n
  sections : List.Forall₂ (Section.GatheredFor s n) made side.sections
  conserved : ∀ i, (side.outlines made i).Perm ((input i).map (Signed.map Product.outline))
  ordered : ∀ i, (side.remainder.row i).Sublist (input i)
  cells : ∀ arrays sec, (arrays, sec) ∈ made.zip side.sections → ∀ i k a, arrays[k]? = some a →
    ∃ terms : List (Signed Product), terms.Sublist (input i) ∧
      (∀ t ∈ terms, t.value.EndsWith a) ∧
      sec.matrix.entry i k = terms.map (Signed.map Product.withoutLast)

theorem Section.GatheredFor.mono {n : Nat} {arrays : List ArrayId} {sec : Section}
    (gathered : sec.GatheredFor s n arrays) (steps : s.Steps s') : sec.GatheredFor s' n arrays := by
  refine ⟨gathered.size, gathered.rows, fun k a known => ?_⟩
  obtain ⟨one, link, unit, found, row⟩ := gathered.unknown k a known
  exact ⟨one, link, steps.isUnit unit, steps.extends.link_eq_ok found, row⟩

theorem BlockSide.Balanced.mono {n : Nat} {input : Nat → List (Signed Product)}
    {side : BlockSide} {made : List (List ArrayId)} (balanced : side.Balanced s n input made)
    (steps : s.Steps s') : side.Balanced s' n input made :=
  { balanced with
    sections := balanced.sections.imp fun _ _ gathered => gathered.mono steps }

/-! ## Gathering on one side -/

namespace BlockSide

variable {side side' : BlockSide} {arrays : List ArrayId} {unknowns : BlockVector} {n : Nat}
  {input : Nat → List (Signed Product)} {made : List (List ArrayId)}

theorem gather_eq_ok (run : side.gather arrays unknowns = .ok side') :
    ∃ sorting, Sorting.run arrays side.remainder = .ok sorting ∧
      side' = ⟨if sorting.matrix.isEmpty then side.sections
        else side.sections ++ [⟨sorting.matrix, unknowns⟩], sorting.remainder⟩ := by
  simp only [gather, Outcome.bind_eq_ok, Outcome.pure_eq_ok] at run
  obtain ⟨sorting, sorted, rfl⟩ := run
  exact ⟨sorting, sorted, rfl⟩

/-- Gathering keeps a side balanced and adds at most one section. -/
theorem Balanced.gather (balanced : side.Balanced s n input made) (steps : s.Steps s')
    (rows : unknowns.rows = arrays.length)
    (unknown : ∀ k a, arrays[k]? = some a → ∃ one link, s'.IsUnit one ∧
      s'.link a false = .ok link ∧ unknowns.row k = [⟨.plus, ⟨one, [link]⟩⟩])
    (run : side.gather arrays unknowns = .ok side') :
    ∃ made', (made' = made ∨ made' = made ++ [arrays]) ∧ side'.Balanced s' n input made' := by
  obtain ⟨sorting, sorted, rfl⟩ := gather_eq_ok run
  obtain ⟨size, height, entry, row⟩ := Sorting.run_spec sorted
  have sections := (balanced.mono steps).sections
  have ordered : ∀ i, (sorting.remainder.row i).Sublist (input i) := fun i =>
    row i ▸ List.filter_sublist.trans (balanced.ordered i)
  have restored : ∀ i, ((⟨sorting.matrix, unknowns⟩ : Section).outlines arrays i ++
      (sorting.remainder.row i).map (Signed.map Product.outline)).Perm
        ((side.remainder.row i).map (Signed.map Product.outline)) := by
    intro i
    simp only [Section.outlines, entry, row]
    exact Sorting.perm_outlines arrays (side.remainder.row i)
  cases empty : sorting.matrix.isEmpty with
  | true =>
    refine ⟨made, Or.inl rfl, ?_⟩
    rw [if_pos rfl]
    refine ⟨height.trans balanced.rows, sections, fun i => ?_, ordered, balanced.cells⟩
    have none : (⟨sorting.matrix, unknowns⟩ : Section).outlines arrays i = [] := by
      simp [Section.outlines, BlockMatrix.entry_eq_nil_of_isEmpty empty]
    have same := restored i
    rw [none, List.nil_append] at same
    exact (same.append_left _).trans (balanced.conserved i)
  | false =>
    refine ⟨made ++ [arrays], Or.inr rfl, ?_⟩
    rw [if_neg Bool.false_ne_true]
    have zipped : (made ++ [arrays]).zip (side.sections ++ [⟨sorting.matrix, unknowns⟩]) =
        made.zip side.sections ++ [(arrays, ⟨sorting.matrix, unknowns⟩)] :=
      List.zip_append balanced.sections.length_eq
    refine ⟨height.trans balanced.rows, ?_, fun i => ?_, ordered, ?_⟩
    · exact List.rel_append sections (.cons ⟨balanced.rows ▸ size, rows, unknown⟩ .nil)
    · rw [outlines, zipped, List.flatMap_append, List.flatMap_singleton, List.append_assoc]
      exact ((restored i).append_left _).trans (balanced.conserved i)
    · rw [zipped]
      intro known sec member
      rcases List.mem_append.1 member with old | new
      · exact balanced.cells known sec old
      · cases List.mem_singleton.1 new
        intro i k a here
        refine ⟨_, List.filter_sublist.trans (balanced.ordered i), fun t inside => ?_, entry i k⟩
        obtain ⟨b, ends, found⟩ :=
          Product.column?_eq_some.1 (of_decide_eq_true (List.mem_filter.1 inside).2)
        obtain ⟨held, same, -⟩ := List.idxOf?_eq_some_iff.1 found
        rw [List.getElem?_eq_getElem held, same] at here
        cases here
        exact ends

/-- The terms that stay end with none of the gathered arrays. -/
theorem not_endsWith_of_gather (run : side.gather arrays unknowns = .ok side') {i : Nat}
    {t : Signed Product} (member : t ∈ side'.remainder.row i) :
    t ∈ side.remainder.row i ∧ ∀ a ∈ arrays, ¬ t.value.EndsWith a := by
  obtain ⟨sorting, sorted, rfl⟩ := gather_eq_ok run
  obtain ⟨-, -, -, row⟩ := Sorting.run_spec sorted
  rw [row] at member
  obtain ⟨old, column⟩ := List.mem_filter.1 member
  exact ⟨old, Product.column?_eq_none.1 (of_decide_eq_true column)⟩

theorem sections_of_gather (run : side.gather arrays unknowns = .ok side') :
    side.sections <+: side'.sections := by
  obtain ⟨sorting, -, rfl⟩ := gather_eq_ok run
  dsimp only
  split
  · exact ⟨[], List.append_nil _⟩
  · exact ⟨_, rfl⟩

/-- The remainder of a side has `n` rows, and the matrices of its sections have `n` rows and a
column for every unknown. -/
structure Sized (n : Nat) (side : BlockSide) : Prop where
  remainder : side.remainder.rows = n
  sections : ∀ sec ∈ side.sections, sec.matrix.HasSize n sec.unknowns.rows

theorem Sized.gather (sized : side.Sized n) (rows : unknowns.rows = arrays.length)
    (run : side.gather arrays unknowns = .ok side') : side'.Sized n := by
  obtain ⟨sorting, sorted, rfl⟩ := gather_eq_ok run
  obtain ⟨size, height, -, -⟩ := Sorting.run_spec sorted
  refine ⟨height.trans sized.remainder, ?_⟩
  dsimp only
  split
  · exact sized.sections
  · intro sec member
    rcases List.mem_append.1 member with old | new
    · exact sized.sections sec old
    · cases List.mem_singleton.1 new
      rw [rows, ← sized.remainder]
      exact size

end BlockSide

/-! ## The vector of unknowns -/

theorem BlockVector.fill_spec {start : Nat} {arrays : List ArrayId} {v v' : BlockVector}
    (run : ((arrays.zipIdx start).foldlM (fun v (a, i) => do
      v.push i ⟨.plus, ← (Product.single a : Derive _)⟩) v : Derive BlockVector) s = .ok v' s') :
    s.Steps s' ∧ v'.rows = v.rows ∧ (∀ k < start, v'.row k = v.row k) ∧
      ∀ k a, arrays[k]? = some a → ∃ one link, s'.IsUnit one ∧ s'.link a false = .ok link ∧
        v'.row (start + k) = v.row (start + k) ++ [⟨.plus, ⟨one, [link]⟩⟩] := by
  induction arrays generalizing start v s with
  | nil =>
    obtain ⟨rfl, rfl⟩ := pure_eq_ok.1 run
    exact ⟨.refl, rfl, fun k _ => rfl, fun k a known => by simp at known⟩
  | cons b arrays ih =>
    simp only [List.zipIdx_cons, List.foldlM_cons, bind_eq_ok, lift_eq_ok] at run
    obtain ⟨mid, s₁, ⟨p, _, single, pushed, rfl⟩, rest⟩ := run
    obtain ⟨-, rows, row⟩ := push_spec pushed
    obtain ⟨steps, rows', before, later⟩ := ih rest
    obtain ⟨one, link, unit, found, rfl⟩ := Product.single_spec single
    refine ⟨((Product.single_grows b).steps single).trans steps, rows'.trans rows,
      fun k earlier => ?_, fun k a known => ?_⟩
    · rw [before k (Nat.lt_succ_of_lt earlier), row, if_neg (Nat.ne_of_lt earlier),
        List.append_nil]
    · cases k with
      | zero =>
        cases known
        refine ⟨one, link, steps.isUnit unit, steps.extends.link_eq_ok found, ?_⟩
        rw [Nat.add_zero, before start (Nat.lt_succ_self start), row, if_pos rfl]
      | succ k =>
        obtain ⟨one', link', unit', found', row'⟩ := later k a known
        refine ⟨one', link', unit', found', ?_⟩
        rw [Nat.add_succ, ← Nat.succ_add, row', row, if_neg (by omega), List.append_nil]

/-- The vector of arrays has plus one times the `k`-th array in row `k`. -/
theorem BlockVector.ofArrays_spec {arrays : List ArrayId} {v : BlockVector}
    (run : ofArrays arrays s = .ok v s') : v.rows = arrays.length ∧
      ∀ k a, arrays[k]? = some a → ∃ one link, s'.IsUnit one ∧ s'.link a false = .ok link ∧
        v.row k = [⟨.plus, ⟨one, [link]⟩⟩] := by
  obtain ⟨-, rows, -, unknown⟩ := fill_spec run
  refine ⟨rows.trans (rows_empty _), fun k a known => ?_⟩
  obtain ⟨one, link, unit, found, row⟩ := unknown k a known
  exact ⟨one, link, unit, found, by simpa using row⟩

/-! ## Systems of products -/

/-- A product without the transposed test vector in front. -/
def Product.Strips (testVector : ArrayId) (t stripped : Signed Product) : Prop :=
  stripped.sign = t.sign ∧ ∃ link : Link, link.array = testVector ∧ link.transposed = true ∧
    t.value = ⟨stripped.value.factor, link :: stripped.value.chain⟩

theorem Product.stripTestVector_eq_ok {testVector : ArrayId} {p q : Product}
    (run : p.stripTestVector s testVector = .ok q) :
    ∃ link : Link, link.array = testVector ∧ link.transposed = true ∧
      p = ⟨q.factor, link :: q.chain⟩ := by
  obtain ⟨factor, chain⟩ := p
  cases chain with
  | nil => simp [stripTestVector, Outcome.bind_eq_ok] at run
  | cons link rest =>
    by_cases front : link.array = testVector ∧ link.transposed
    · simp only [stripTestVector, if_pos front] at run
      cases Outcome.pure_eq_ok.1 run
      exact ⟨link, front.1, front.2, rfl⟩
    · simp [stripTestVector, front, Outcome.bind_eq_ok] at run

theorem BlockVector.pushStripped_spec {row : Nat} {testVector : ArrayId} {v v' : BlockVector}
    {terms : List (Signed Product)} (run : v.pushStripped s row testVector terms = .ok v') :
    v'.rows = v.rows ∧ ∃ new, List.Forall₂ (Product.Strips testVector) terms new ∧
      ∀ i, v'.row i = v.row i ++ if i = row then new else [] := by
  induction terms generalizing v with
  | nil =>
    cases Outcome.pure_eq_ok.1 run
    exact ⟨rfl, [], .nil, fun i => by simp⟩
  | cons t terms ih =>
    rw [pushStripped, List.foldlM_cons, Outcome.bind_eq_ok] at run
    obtain ⟨mid, first, rest⟩ := run
    obtain ⟨q, stripped, pushed⟩ := Outcome.bind_eq_ok.1 first
    obtain ⟨-, rows, entries⟩ := push_spec pushed
    obtain ⟨rows', new, strips, entries'⟩ := ih rest
    refine ⟨rows'.trans rows, ⟨t.sign, q⟩ :: new,
      .cons ⟨rfl, Product.stripTestVector_eq_ok stripped⟩ strips, fun i => ?_⟩
    rw [entries', entries]
    by_cases here : i = row <;> simp [here]

namespace BlockSystem

/-- The left or the right side. -/
def side (b : BlockSystem) : Side → BlockSide
  | .left => b.left
  | .right => b.right

/-- The rows of a pair of vectors after the terms of an equation are added to both. -/
theorem pushEquations_spec {entries : List (Equation Product × ArrayId)} {start : Nat}
    {v v' : BlockVector × BlockVector}
    (run : ((entries.zipIdx start).foldlM (fun (left, right) ((e, testVector), i) => do
      let left ← left.pushStripped s i testVector e.left
      let right ← right.pushStripped s i testVector e.right
      return (left, right)) v : Outcome (BlockVector × BlockVector)) = .ok v') :
    (v'.1.rows = v.1.rows ∧ v'.2.rows = v.2.rows) ∧
      (∀ i < start, v'.1.row i = v.1.row i ∧ v'.2.row i = v.2.row i) ∧
      ∀ j e testVector, entries[j]? = some (e, testVector) →
        (∃ new, List.Forall₂ (Product.Strips testVector) e.left new ∧
          v'.1.row (start + j) = v.1.row (start + j) ++ new) ∧
        ∃ new, List.Forall₂ (Product.Strips testVector) e.right new ∧
          v'.2.row (start + j) = v.2.row (start + j) ++ new := by
  induction entries generalizing start v with
  | nil =>
    cases Outcome.pure_eq_ok.1 run
    exact ⟨⟨rfl, rfl⟩, fun i _ => ⟨rfl, rfl⟩, fun j e u known => by simp at known⟩
  | cons entry entries ih =>
    rw [List.zipIdx_cons, List.foldlM_cons] at run
    obtain ⟨mid, first, rest⟩ := Outcome.bind_eq_ok.1 run
    simp only [Outcome.bind_eq_ok, Outcome.pure_eq_ok] at first
    obtain ⟨left, pushedLeft, right, pushedRight, rfl⟩ := first
    obtain ⟨rowsLeft, newLeft, stripsLeft, rowLeft⟩ := BlockVector.pushStripped_spec pushedLeft
    obtain ⟨rowsRight, newRight, stripsRight, rowRight⟩ :=
      BlockVector.pushStripped_spec pushedRight
    obtain ⟨⟨rowsLeft', rowsRight'⟩, before, later⟩ := ih rest
    refine ⟨⟨rowsLeft'.trans rowsLeft, rowsRight'.trans rowsRight⟩, fun i earlier => ?_,
      fun j e u known => ?_⟩
    · obtain ⟨sameLeft, sameRight⟩ := before i (Nat.lt_succ_of_lt earlier)
      simp [sameLeft, sameRight, rowLeft, rowRight, Nat.ne_of_lt earlier]
    · cases j with
      | zero =>
        cases known
        obtain ⟨sameLeft, sameRight⟩ := before start (Nat.lt_succ_self start)
        exact ⟨⟨newLeft, stripsLeft, by simp [sameLeft, rowLeft]⟩, newRight, stripsRight,
          by simp [sameRight, rowRight]⟩
      | succ j =>
        have apart : start + 1 + j ≠ start := by omega
        have next := later j e u known
        simp only [rowLeft, rowRight, if_neg apart, List.append_nil] at next
        rwa [Nat.add_succ, ← Nat.succ_add]

/-- A system without sections whose rows are the terms of its equations without their test
vectors. -/
theorem ofProducts_spec {testVectors : List ArrayId} {equations : List (Equation Product)}
    {b : BlockSystem} (run : ofProducts s testVectors equations = .ok b) :
    b.unknowns = [] ∧ ∀ side, (b.side side).sections = [] ∧
      (b.side side).remainder.rows = equations.length ∧
      ∀ i e v, equations[i]? = some e → testVectors[i]? = some v →
        List.Forall₂ (Product.Strips v) (e.side side) ((b.side side).remainder.row i) := by
  rw [ofProducts, Outcome.guard_eq_ok] at run
  obtain ⟨-, run⟩ := run
  simp only [Outcome.bind_eq_ok, Outcome.pure_eq_ok] at run
  obtain ⟨⟨left, right⟩, pushed, rfl⟩ := run
  obtain ⟨⟨rowsLeft, rowsRight⟩, -, rows⟩ := pushEquations_spec pushed
  have both := fun i e v (known : equations[i]? = some e) (tested : testVectors[i]? = some v) =>
    rows i e v (List.getElem?_zip_eq_some.2 ⟨known, tested⟩)
  simp only [Nat.zero_add, BlockVector.row_empty, List.nil_append] at both
  refine ⟨rfl, fun side => ?_⟩
  cases side with
  | left =>
    refine ⟨rfl, rowsLeft.trans (BlockVector.rows_empty _), fun i e v known tested => ?_⟩
    obtain ⟨⟨new, strips, row⟩, -⟩ := both i e v known tested
    exact row ▸ strips
  | right =>
    refine ⟨rfl, rowsRight.trans (BlockVector.rows_empty _), fun i e v known tested => ?_⟩
    obtain ⟨-, new, strips, row⟩ := both i e v known tested
    exact row ▸ strips

/-- A system of `n` equations with sides that have as many rows. -/
structure Sized (n : Nat) (b : BlockSystem) : Prop where
  size : b.size = n
  sides : ∀ side, (b.side side).Sized n

theorem Sized.of_size {n : Nat} {b : BlockSystem} (sized : b.Sized n) : b.Sized b.size := by
  obtain rfl := sized.size
  exact sized

theorem testVectorCount {testVectors : List ArrayId} {equations : List (Equation Product)}
    {b : BlockSystem} (run : ofProducts s testVectors equations = .ok b) :
    equations.length = testVectors.length := by
  rw [ofProducts, Outcome.guard_eq_ok] at run
  exact not_not.1 run.1

theorem sized_ofProducts {testVectors : List ArrayId} {equations : List (Equation Product)}
    {b : BlockSystem} (built : ofProducts s testVectors equations = .ok b) :
    b.Sized testVectors.length := by
  refine ⟨?_, fun side => ?_⟩
  · rw [ofProducts, Outcome.guard_eq_ok] at built
    simp only [Outcome.bind_eq_ok, Outcome.pure_eq_ok] at built
    obtain ⟨-, _, -, rfl⟩ := built
    rfl
  · obtain ⟨-, sides⟩ := ofProducts_spec built
    obtain ⟨empty, rows, -⟩ := sides side
    exact ⟨rows.trans (testVectorCount built), by simp [empty]⟩

/-! ## Gathering -/

theorem mem_foldl_unknowns {known arrays : List ArrayId} {a : ArrayId} :
    a ∈ arrays.foldl (fun known a => if a ∈ known then known else known ++ [a]) known ↔
      a ∈ known ∨ a ∈ arrays := by
  induction arrays generalizing known with
  | nil => simp
  | cons b arrays ih =>
    rw [List.foldl_cons, ih, List.mem_cons]
    split
    · rename_i present
      constructor
      · exact Or.imp_right Or.inr
      · intro member
        rcases member with old | rfl | new
        · exact Or.inl old
        · exact Or.inl present
        · exact Or.inr new
    · rw [List.mem_append, List.mem_singleton, or_assoc]

theorem gather_eq_ok {b b' : BlockSystem} {targets : List Target}
    (run : b.gather targets s = .ok b' s') : ∃ arrays mid unknowns,
      targets.mapM Target.array? s = .ok arrays mid ∧
      BlockVector.ofArrays arrays mid = .ok unknowns s' ∧
      (∀ side, (b.side side).gather arrays unknowns = .ok (b'.side side)) ∧
      ∀ a, a ∈ b'.unknowns ↔ a ∈ b.unknowns ∨ a ∈ arrays := by
  simp only [gather, bind_eq_ok, lift_eq_ok, pure_eq_ok] at run
  obtain ⟨arrays, mid, resolved, unknowns, _, column, left, _, ⟨gatheredLeft, rfl⟩, right, _,
    ⟨gatheredRight, rfl⟩, rfl, rfl⟩ := run
  refine ⟨arrays, mid, unknowns, resolved, column, fun side => ?_, fun a => ?_⟩
  · cases side
    · exact gatheredLeft
    · exact gatheredRight
  · exact mem_foldl_unknowns

theorem Sized.gather {n : Nat} {b b' : BlockSystem} {targets : List Target} (sized : b.Sized n)
    (run : b.gather targets s = .ok b' s') : b'.Sized n := by
  obtain ⟨arrays, _, unknowns, -, column, sides, -⟩ := gather_eq_ok run
  refine ⟨?_, fun side =>
    (sized.sides side).gather (BlockVector.ofArrays_spec column).1 (sides side)⟩
  simp only [BlockSystem.gather, bind_eq_ok, lift_eq_ok, pure_eq_ok] at run
  obtain ⟨_, _, -, _, _, -, _, _, -, _, _, -, rfl, -⟩ := run
  exact sized.size

/-- Gathering for target lists one after the other, with any requests in between. Every
list is recorded as the arrays that its targets stand for. -/
inductive Gathers (s : Session) (b : BlockSystem) :
    List (List ArrayId) → Session → BlockSystem → Prop
  | start : Gathers s b [] s b
  | request {calls : List (List ArrayId)} {s' : Session} {b' : BlockSystem}
    (earlier : Gathers s b calls s' b') (request : Request) :
    Gathers s b calls (request.perform.after s') b'
  | gather {calls : List (List ArrayId)} {s' mid s'' : Session} {b' b'' : BlockSystem}
    {targets : List Target} {arrays : List ArrayId} (earlier : Gathers s b calls s' b')
    (resolved : targets.mapM Target.array? s' = .ok arrays mid)
    (run : b'.gather targets s' = .ok b'' s'') : Gathers s b (calls ++ [arrays]) s'' b''

namespace Gathers

variable {b b' : BlockSystem} {calls : List (List ArrayId)} {n : Nat}
  {input : Side → Nat → List (Signed Product)}

theorem steps (run : Gathers s b calls s' b') : s.Steps s' := by
  induction run with
  | start => exact .refl
  | request _ request ih => exact ih.trans request.perform_grows
  | gather _ _ run ih => exact ih.trans ((gather_grows _ _).steps run)

theorem trans {more : List (List ArrayId)} {s'' : Session} {b'' : BlockSystem}
    (run : Gathers s b calls s' b') (later : Gathers s' b' more s'' b'') :
    Gathers s b (calls ++ more) s'' b'' := by
  induction later with
  | start => rwa [List.append_nil]
  | request _ request ih => exact ih.request request
  | gather _ resolved gathered ih =>
    rw [← List.append_assoc]
    exact ih.gather resolved gathered

/-- Both sides stay balanced. -/
theorem balanced (run : Gathers s b calls s' b')
    (start : ∀ side, (b.side side).Balanced s n (input side) []) (side : Side) :
    ∃ made, made.Sublist calls ∧ (b'.side side).Balanced s' n (input side) made := by
  induction run with
  | start => exact ⟨[], .slnil, start side⟩
  | request _ request ih =>
    obtain ⟨made, among, balanced⟩ := ih
    exact ⟨made, among, balanced.mono request.perform_grows⟩
  | @gather calls s₁ mid s₂ b₁ b₂ targets arrays _ resolved run ih =>
    obtain ⟨made, among, balanced⟩ := ih
    obtain ⟨arrays', mid', unknowns, resolved', column, sides, -⟩ := gather_eq_ok run
    cases resolved.symm.trans resolved'
    obtain ⟨rows, unknown⟩ := BlockVector.ofArrays_spec column
    obtain ⟨made', grown, balanced'⟩ :=
      balanced.gather ((b₁.gather_grows targets).steps run) rows unknown (sides side)
    refine ⟨made', ?_, balanced'⟩
    rcases grown with rfl | rfl
    · exact among.trans (List.sublist_append_left _ _)
    · exact among.append (.refl _)

theorem sized (run : Gathers s b calls s' b') (start : b.Sized n) : b'.Sized n := by
  induction run with
  | start => exact start
  | request _ _ ih => exact ih
  | gather _ _ run ih => exact ih.gather run

/-- Sections stay as they are. -/
theorem sections (run : Gathers s b calls s' b') (side : Side) :
    (b.side side).sections <+: (b'.side side).sections := by
  induction run with
  | start => exact ⟨[], List.append_nil _⟩
  | request _ _ ih => exact ih
  | gather _ _ run ih =>
    obtain ⟨arrays, mid, unknowns, -, -, sides, -⟩ := gather_eq_ok run
    exact ih.trans (BlockSide.sections_of_gather (sides side))

theorem mem_unknowns (run : Gathers s b calls s' b') (a : ArrayId) :
    a ∈ b'.unknowns ↔ a ∈ b.unknowns ∨ ∃ call ∈ calls, a ∈ call := by
  induction run with
  | start => simp
  | request _ _ ih => exact ih
  | gather _ resolved run ih =>
    obtain ⟨arrays, mid, unknowns, resolved', -, -, member⟩ := gather_eq_ok run
    cases resolved.symm.trans resolved'
    simp [member, ih, or_assoc, or_and_right, exists_or]

/-- What remains has remained all along. -/
theorem mem_row (run : Gathers s b calls s' b') {side : Side} {i : Nat} {t : Signed Product}
    (member : t ∈ (b'.side side).remainder.row i) : t ∈ (b.side side).remainder.row i := by
  induction run with
  | start => exact member
  | request _ _ ih => exact ih member
  | gather _ _ run ih =>
    obtain ⟨arrays, mid, unknowns, -, -, sides, -⟩ := gather_eq_ok run
    exact ih (BlockSide.not_endsWith_of_gather (sides side) member).1

/-- No remaining term ends with an array that was gathered. -/
theorem not_endsWith (run : Gathers s b calls s' b') (none : b.unknowns = []) (side : Side)
    {i : Nat} {t : Signed Product} (member : t ∈ (b'.side side).remainder.row i) :
    ∀ a ∈ b'.unknowns, ¬ t.value.EndsWith a := by
  induction run with
  | start => simp [none]
  | request _ _ ih => exact ih member
  | gather _ _ run ih =>
    obtain ⟨arrays, mid, unknowns, -, -, sides, known⟩ := gather_eq_ok run
    obtain ⟨old, avoids⟩ := BlockSide.not_endsWith_of_gather (sides side) member
    intro a gathered
    rcases (known a).1 gathered with earlier | new
    · exact ih old a earlier
    · exact avoids a new

end Gathers

/-- Gathering conserves terms. At every point of a run the rows of a side, with the arrays of
its sections put back, are the terms of the equations without their test vectors. Terms keep
their order, sections stay as they are, and no term remains that ends with a gathered array. -/
theorem gather_conserves {testVectors : List ArrayId} {equations : List (Equation Product)}
    {b b' : BlockSystem} {calls : List (List ArrayId)}
    (built : ofProducts s testVectors equations = .ok b) (run : Gathers s b calls s' b') :
    (∀ side, ∃ input : Nat → List (Signed Product),
      (∀ i e v, equations[i]? = some e → testVectors[i]? = some v →
        List.Forall₂ (Product.Strips v) (e.side side) (input i)) ∧
      (∃ made, made.Sublist calls ∧
        (b'.side side).Balanced s' equations.length input made) ∧
      ∀ i, ∀ t ∈ (b'.side side).remainder.row i, ∀ a ∈ b'.unknowns, ¬ t.value.EndsWith a) ∧
    (∀ a, a ∈ b'.unknowns ↔ ∃ call ∈ calls, a ∈ call) ∧
    ∀ more s'' b'', Gathers s' b' more s'' b'' →
      ∀ side, (b'.side side).sections <+: (b''.side side).sections := by
  obtain ⟨none, sides⟩ := ofProducts_spec built
  have start : ∀ side, (b.side side).Balanced s equations.length
      (b.side side).remainder.row [] := by
    intro side
    obtain ⟨empty, rows, -⟩ := sides side
    refine ⟨rows, empty ▸ .nil, fun i => ?_, fun i => .refl _, fun _ _ member => by simp at member⟩
    rw [BlockSide.outlines, List.zip_nil_left, List.flatMap_nil, List.nil_append]
  refine ⟨fun side => ?_, fun a => ?_, fun _ _ _ more side => more.sections side⟩
  · exact ⟨(b.side side).remainder.row, (sides side).2.2, run.balanced start side,
      fun i t member => run.not_endsWith none side member⟩
  · rw [run.mem_unknowns, none]
    simp

/-- Gathering a form and once more its vector from `vᵀ M u - vᵀ u = -vᵀ M v` leaves only the
right side. -/
theorem gather_conserves_twice :
    let product := fun arrays : List ArrayId =>
      (⟨⟨0⟩, ⟨⟨0⟩, true, ⟨"1", "n"⟩⟩ :: arrays.map fun a => ⟨a, false, ⟨"n", "1"⟩⟩⟩ : Product)
    let equations : List (Equation Product) :=
      [⟨[⟨.plus, product [⟨2⟩, ⟨1⟩]⟩, ⟨.minus, product [⟨1⟩]⟩], [⟨.minus, product [⟨2⟩, ⟨0⟩]⟩]⟩]
    ∃ s b s' b', ofProducts s [⟨0⟩] equations = .ok b ∧
      Gathers s b [[⟨1⟩, ⟨1⟩]] s' b' ∧ (∀ a, a ∈ b'.unknowns ↔ a = ⟨1⟩) ∧
      ∀ t ∈ (b'.side .left).remainder.row 0, ¬ t.value.EndsWith ⟨1⟩ := by
  intro product equations
  obtain ⟨s, runs⟩ : ∃ s, (match ofProducts s [⟨0⟩] equations with
      | .ok b => match [Target.form ⟨1⟩, .array ⟨1⟩].mapM Target.array? s,
          b.gather [.form ⟨1⟩, .array ⟨1⟩] s with
        | .ok arrays _, .ok _ _ => decide (arrays = [⟨1⟩, ⟨1⟩])
        | _, _ => false
      | .error _ => false) = true :=
    ⟨Request.performAll {} [.manifold 1, .mesh ⟨0⟩, .space ⟨0⟩ 0 .outer, .degrees 1,
      .root ⟨0⟩ ⟨"v", "v"⟩, .root ⟨0⟩ ⟨"u", "u"⟩, .vector ⟨0⟩, .vector ⟨1⟩, .massMatrix ⟨0⟩],
      by decide +kernel⟩
  split at runs
  · rename_i b built
    split at runs
    · rename_i arrays mid b' s' resolved gathered
      obtain rfl := of_decide_eq_true runs
      have run : Gathers s b [[⟨1⟩, ⟨1⟩]] s' b' := .gather .start resolved gathered
      obtain ⟨sides, unknowns, -⟩ := gather_conserves built run
      have known : ∀ a, a ∈ b'.unknowns ↔ a = ⟨1⟩ := by simpa using unknowns
      obtain ⟨-, -, -, avoids⟩ := sides .left
      exact ⟨s, b, s', b', built, run, known, fun t member => avoids 0 t member _ ((known _).2 rfl)⟩
    · cases runs
  · cases runs

end BlockSystem

end Variational
