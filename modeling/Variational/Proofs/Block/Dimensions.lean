import Variational.Proofs.Block.Remainder
import Variational.Proofs.Numbers

/-!
# Dimensions of blocks

All products in a row of a side that have a shape share it, and so do those of a cell of a
section: their rows are those of the row, and their columns are the rows of the target that
they were gathered for. So no product is ever refused by a cell, and gathering for arrays
and for root forms of finite spaces succeeds. In the system of a weak formulation the rows
are the degrees of freedom of the test form. The main statement is `assembly_dimensions`.
-/

namespace Variational

open Derive

variable {s s' : Session}

/-! ## Shapes of products -/

namespace Product

/-- The product has this shape or none. -/
def HasShape (p : Product) (shape : Shape) : Prop :=
  ∀ given, p.shape? = some given → given = shape

variable {p : Product} {shape : Shape} {rows cols : String} {link : Link}

theorem shape?_eq_some : p.shape? = some shape ↔ ∃ first last, p.chain.head? = some first ∧
    p.chain.getLast? = some last ∧ shape = ⟨first.shape.rows, last.shape.cols⟩ := by
  simp only [shape?, Option.bind_eq_bind, Option.pure_def, Option.bind_eq_some_iff,
    Option.some.injEq, @eq_comm _ _ shape, exists_and_left]

/-- Without its last link, a product has the rows of that link as columns. -/
theorem HasShape.withoutLast (shaped : p.HasShape ⟨rows, cols⟩) (fits : Fits p.chain)
    (last : p.chain.getLast? = some link) : p.withoutLast.HasShape ⟨rows, link.shape.rows⟩ := by
  obtain ⟨front, split⟩ := List.getLast?_eq_some_iff.1 last
  have shorter : p.withoutLast.chain = front := by
    rw [Product.withoutLast, split, List.dropLast_concat]
  intro given some
  obtain ⟨first, m, head, back, rfl⟩ := shape?_eq_some.1 some
  rw [shorter] at head back
  obtain ⟨before, rfl⟩ := List.getLast?_eq_some_iff.1 back
  have fit : m.shape.cols = link.shape.rows := by
    rw [split, Fits, List.append_assoc] at fits
    exact (List.isChain_cons_cons.1 fits.right_of_append).1
  have whole := shaped _ (shape?_eq_some.2
    ⟨first, link, by rw [split, List.head?_append, head, Option.some_or], last, rfl⟩)
  rw [Shape.mk.injEq] at whole
  rw [fit, whole.1]

end Product

/-! ## Products of a session -/

/-- A product of the session: a chain of links to its arrays in which shapes fit. -/
structure Session.HoldsProduct (s : Session) (p : Product) : Prop where
  fits : Product.Fits p.chain
  linked : ∀ l ∈ p.chain, s.link l.array l.transposed = .ok l

namespace Session

variable {p : Product}

theorem Extends.holdsProduct (later : s.Extends s') (holds : s.HoldsProduct p) :
    s'.HoldsProduct p :=
  ⟨holds.fits, fun l member => later.link_eq_ok (holds.linked l member)⟩

theorem Chains.holdsProduct (chains : s.Chains p.chain) : s.HoldsProduct p :=
  ⟨chains.fits, chains.linked⟩

/-- Products that are created from links of the session, and those that a term is converted to,
belong to the session, with or without their first and last links. -/
theorem holdsProduct_of_create {factor : ScalarId} {chain : List Link}
    (linked : ∀ l ∈ chain, ∃ array transposed, s.link array transposed = .ok l)
    (created : Product.create factor chain = .ok p) : s.HoldsProduct p := by
  obtain ⟨fits, rfl⟩ := Product.create_eq_ok.1 created
  refine ⟨fits, fun l member => ?_⟩
  obtain ⟨array, transposed, run⟩ := linked l member
  exact (link_spec run).2.1

theorem holdsProduct_of_single {array : ArrayId} (run : Product.single array s = .ok p s') :
    s'.HoldsProduct p := by
  obtain ⟨one, link, -, linked, rfl⟩ := Product.single_spec run
  refine ⟨List.isChain_singleton _, fun l member => ?_⟩
  rw [List.mem_singleton.1 member]
  exact (link_spec linked).2.1

theorem holdsProduct_of_convert {t : Term} {v : FormId} {p : Signed Product}
    (run : t.convert v s = .ok (.converted p) s') : s'.HoldsProduct p.value :=
  (Term.convert_chains run).holdsProduct

theorem HoldsProduct.withoutFirst (holds : s.HoldsProduct p) : s.HoldsProduct p.withoutFirst :=
  ⟨holds.fits.tail, fun l member => holds.linked l (List.mem_of_mem_tail member)⟩

theorem HoldsProduct.withoutLast (holds : s.HoldsProduct p) : s.HoldsProduct p.withoutLast :=
  ⟨holds.fits.dropLast, fun l member => holds.linked l (List.mem_of_mem_dropLast member)⟩

/-- A product that ends with an array loses a link with the rows of the array. -/
theorem HoldsProduct.hasShape_withoutLast {a : ArrayId} {target : Link} {shape : Shape}
    (holds : s.HoldsProduct p) (shaped : p.HasShape shape) (ends : p.EndsWith a)
    (linked : s.link a false = .ok target) :
    p.withoutLast.HasShape ⟨shape.rows, target.shape.rows⟩ := by
  obtain ⟨link, last, rfl, plain⟩ := ends
  have own := holds.linked link (List.mem_of_getLast? last)
  rw [plain, linked] at own
  cases own
  exact shaped.withoutLast holds.fits last

end Session

/-! ## Cells take products of their shape -/

variable {t : Signed Product} {shape : Shape}

theorem BlockCell.push_of_hasShape {cell : BlockCell}
    (all : ∀ x ∈ cell.terms, x.value.HasShape shape) (new : t.value.HasShape shape) :
    cell.push t = .ok ⟨cell.terms ++ [t]⟩ := by
  rw [push]
  cases old : cell.shape? with
  | none => rfl
  | some given =>
    obtain ⟨x, member, some⟩ := List.exists_of_findSome?_eq_some old
    cases here : t.value.shape? with
    | none => rfl
    | some given' =>
      dsimp only
      rw [all x member given some, new given' here, if_pos rfl]

theorem BlockVector.push_succeeds {v : BlockVector} {i : Nat} (inside : i < v.rows)
    (all : ∀ x ∈ v.row i, x.value.HasShape shape) (new : t.value.HasShape shape) :
    ∃ v', v.push i t = .ok v' := by
  have found : v.get? i = some v.cells[i] := List.getElem?_eq_getElem inside
  simp only [row, found, Option.map_some, Option.getD_some] at all
  rw [push, found]
  dsimp only
  rw [Outcome.bind_of_ok (BlockCell.push_of_hasShape all new)]
  exact ⟨_, rfl⟩

theorem BlockMatrix.push_succeeds {m : BlockMatrix} {i j rows cols : Nat}
    (size : m.HasSize rows cols) (inside : i < rows) (inside' : j < cols)
    (all : ∀ x ∈ m.entry i j, x.value.HasShape shape) (new : t.value.HasShape shape) :
    ∃ m', m.push i j t = .ok m' := by
  obtain rfl := size.height
  have foundRow : m.rows[i]? = some m.rows[i] := List.getElem?_eq_getElem inside
  have inside' : j < m.rows[i].length := size.cells _ (List.getElem_mem inside) ▸ inside'
  have found : m.get? i j = some m.rows[i][j] := by
    simp [get?, foundRow, inside']
  simp only [entry, found, Option.map_some, Option.getD_some] at all
  rw [push, foundRow, found]
  dsimp only
  rw [Outcome.bind_of_ok (BlockCell.push_of_hasShape all new)]
  exact ⟨_, rfl⟩

/-! ## Sorting products of one shape -/

/-- A product fits a row, and the column that it is sorted into. -/
def Product.Sorts (targets : List ArrayId) (widths : Nat → String) (shape : Shape) (p : Product) :
    Prop :=
  p.HasShape shape ∧ ∀ k, p.column? targets = some k → p.withoutLast.HasShape ⟨shape.rows, widths k⟩

namespace Sorting

variable {targets : List ArrayId} {widths : Nat → String} {shapes : Nat → Shape} {rows row : Nat}
  {sorting sorting' : Sorting} {new : Nat → List (Signed Product)}

/-- The products that have been sorted fit their rows and columns. -/
structure Shaped (rows : Nat) (shapes : Nat → Shape) (targets : List ArrayId)
    (widths : Nat → String) (sorting : Sorting) : Prop where
  size : sorting.matrix.HasSize rows targets.length
  height : sorting.remainder.rows = rows
  entry : ∀ i k, ∀ t ∈ sorting.matrix.entry i k, t.value.HasShape ⟨(shapes i).rows, widths k⟩
  row : ∀ i, ∀ t ∈ sorting.remainder.row i, t.value.HasShape (shapes i)

theorem Adds.shaped (adds : Adds targets new sorting sorting')
    (shaped : sorting.Shaped rows shapes targets widths)
    (sorts : ∀ i, ∀ t ∈ new i, t.value.Sorts targets widths (shapes i)) :
    sorting'.Shaped rows shapes targets widths where
  size := adds.size shaped.size
  height := adds.rows.trans shaped.height
  entry i k t member := by
    rw [adds.entry] at member
    rcases List.mem_append.1 member with old | moved
    · exact shaped.entry i k t old
    · obtain ⟨t', inside, rfl⟩ := List.mem_map.1 moved
      obtain ⟨given, column⟩ := List.mem_filter.1 inside
      exact (sorts i t' given).2 k (of_decide_eq_true column)
  row i t member := by
    rw [adds.row] at member
    rcases List.mem_append.1 member with old | kept
    · exact shaped.row i t old
    · exact (sorts i t (List.mem_filter.1 kept).1).1

theorem place_succeeds (shaped : sorting.Shaped rows shapes targets widths) (inside : row < rows)
    {t : Signed Product} (sorts : t.value.Sorts targets widths (shapes row)) :
    ∃ sorting', sorting.place targets row t = .ok sorting' := by
  rw [place]
  cases column : t.value.column? targets with
  | some k =>
    obtain ⟨a, -, found⟩ := Product.column?_eq_some.1 column
    have bounded : k < targets.length := (List.idxOf?_eq_some_iff.1 found).1
    obtain ⟨matrix, pushed⟩ := BlockMatrix.push_succeeds (t := ⟨t.sign, t.value.withoutLast⟩)
      shaped.size inside bounded (shaped.entry row k) (sorts.2 k column)
    dsimp only
    rw [Outcome.bind_of_ok pushed]
    exact ⟨_, rfl⟩
  | none =>
    obtain ⟨remainder, pushed⟩ := BlockVector.push_succeeds (v := sorting.remainder) (t := t)
      (shaped.height ▸ inside) (shaped.row row) sorts.1
    dsimp only
    rw [Outcome.bind_of_ok pushed]
    exact ⟨_, rfl⟩

theorem placeRow_succeeds {terms : List (Signed Product)}
    (shaped : sorting.Shaped rows shapes targets widths) (inside : row < rows)
    (sorts : ∀ t ∈ terms, t.value.Sorts targets widths (shapes row)) :
    ∃ sorting', terms.foldlM (fun sorting t => place targets sorting row t) sorting =
      .ok sorting' := by
  induction terms generalizing sorting with
  | nil => exact ⟨sorting, rfl⟩
  | cons t terms ih =>
    rw [List.forall_mem_cons] at sorts
    obtain ⟨mid, placed⟩ := place_succeeds shaped inside sorts.1
    have next := (place_adds placed).shaped shaped fun i x member => by
      split at member
      · rename_i same
        rw [List.mem_singleton.1 member, same]
        exact sorts.1
      · cases member
    obtain ⟨last, rest⟩ := ih next sorts.2
    exact ⟨last, by rw [List.foldlM_cons, Outcome.bind_of_ok placed, rest]⟩

theorem placeRows_succeeds {cells : List BlockCell} {start : Nat}
    (shaped : sorting.Shaped rows shapes targets widths) (inside : start + cells.length ≤ rows)
    (sorts : ∀ j (cell : BlockCell), cells[j]? = some cell →
      ∀ t ∈ cell.terms, t.value.Sorts targets widths (shapes (start + j))) :
    ∃ sorting', (cells.zipIdx start).foldlM (fun sorting (cell, row) =>
      cell.terms.foldlM (fun sorting t => place targets sorting row t) sorting) sorting =
        .ok sorting' := by
  induction cells generalizing sorting start with
  | nil => exact ⟨sorting, rfl⟩
  | cons cell cells ih =>
    rw [List.length_cons] at inside
    have here := sorts 0 cell rfl
    obtain ⟨mid, placed⟩ := placeRow_succeeds shaped (show start < rows by omega) here
    have next := (placeRow_adds placed).shaped shaped fun i x member => by
      split at member
      · rename_i same
        rw [same]
        exact here x member
      · cases member
    have below : start + 1 + cells.length ≤ rows := by omega
    obtain ⟨last, rest⟩ := ih next below fun j other held => by
      rw [Nat.succ_add_eq_add_succ]
      exact sorts (j + 1) other held
    exact ⟨last, by rw [List.zipIdx_cons, List.foldlM_cons, Outcome.bind_of_ok placed, rest]⟩

/-- Sorting never refuses products that fit their rows and columns. -/
theorem run_succeeds {v : BlockVector}
    (sorts : ∀ i, ∀ t ∈ v.row i, t.value.Sorts targets widths (shapes i)) :
    ∃ r, run targets v = .ok r := by
  have start : (⟨.empty v.rows targets.length, .empty v.rows⟩ : Sorting).Shaped v.rows shapes
      targets widths := by
    refine ⟨BlockMatrix.hasSize_empty _ _, BlockVector.rows_empty _, ?_, ?_⟩ <;> simp
  refine placeRows_succeeds start (by rw [Nat.zero_add, BlockVector.rows])
    fun j cell held t member => sorts _ t ?_
  have row : v.row (0 + j) = cell.terms := by
    rw [Nat.zero_add, BlockVector.row, BlockVector.get?, held]
    rfl
  rwa [row]

end Sorting

/-! ## Sides -/

/-- The products in a row of a side belong to the session and share a shape. Those in a cell of a
section share the rows of the row, and have the rows of their target as columns. -/
structure BlockSide.Dimensioned (s : Session) (shapes : Nat → Shape) (side : BlockSide) : Prop where
  remainder : ∀ i, ∀ t ∈ side.remainder.row i,
    s.HoldsProduct t.value ∧ t.value.HasShape (shapes i)
  sections : ∀ sec ∈ side.sections, ∀ i k, ∀ t ∈ sec.matrix.entry i k, ∃ one target,
    sec.unknowns.row k = [⟨.plus, ⟨one, [target]⟩⟩] ∧ s.link target.array false = .ok target ∧
      s.HoldsProduct t.value ∧ t.value.HasShape ⟨(shapes i).rows, target.shape.rows⟩

namespace BlockSide.Dimensioned

variable {side side' : BlockSide} {shapes : Nat → Shape} {arrays : List ArrayId}
  {unknowns : BlockVector}

theorem mono (dimensioned : side.Dimensioned s shapes) (later : s.Extends s') :
    side.Dimensioned s' shapes where
  remainder i t member := by
    obtain ⟨holds, shaped⟩ := dimensioned.remainder i t member
    exact ⟨later.holdsProduct holds, shaped⟩
  sections sec inside i k t member := by
    obtain ⟨one, target, row, linked, holds, shaped⟩ :=
      dimensioned.sections sec inside i k t member
    exact ⟨one, target, row, later.link_eq_ok linked, later.holdsProduct holds, shaped⟩

/-- Gathering for arrays of the session succeeds on a side. -/
theorem gather_succeeds (dimensioned : side.Dimensioned s shapes)
    (targets : ∀ a ∈ arrays, ∃ target, s.link a false = .ok target) (unknowns : BlockVector) :
    ∃ side', side.gather arrays unknowns = .ok side' := by
  have sorts : ∀ i, ∀ t ∈ side.remainder.row i, t.value.Sorts arrays
      (fun k => ((arrays[k]?.bind fun a => (s.link a false).toOption).elim "" (·.shape.rows)))
      (shapes i) := by
    intro i t member
    obtain ⟨holds, shaped⟩ := dimensioned.remainder i t member
    refine ⟨shaped, fun k column => ?_⟩
    obtain ⟨a, ends, found⟩ := Product.column?_eq_some.1 column
    obtain ⟨held, same, -⟩ := List.idxOf?_eq_some_iff.1 found
    obtain ⟨target, linked⟩ := targets a (same ▸ List.getElem_mem held)
    have fitting := holds.hasShape_withoutLast shaped ends linked
    simpa [List.getElem?_eq_getElem held, same, linked, Except.toOption] using fitting
  obtain ⟨sorting, run⟩ := Sorting.run_succeeds sorts
  exact ⟨_, by rw [gather, Outcome.bind_of_ok run]; rfl⟩

theorem gather (dimensioned : side.Dimensioned s shapes)
    (unknown : ∀ k a, arrays[k]? = some a → ∃ one target,
      s.link a false = .ok target ∧ unknowns.row k = [⟨.plus, ⟨one, [target]⟩⟩])
    (run : side.gather arrays unknowns = .ok side') : side'.Dimensioned s shapes := by
  obtain ⟨sorting, sorted, rfl⟩ := gather_eq_ok run
  obtain ⟨-, -, entry, row⟩ := Sorting.run_spec sorted
  refine ⟨fun i t member => ?_, fun sec inside => ?_⟩
  · rw [row] at member
    exact dimensioned.remainder i t (List.mem_filter.1 member).1
  · dsimp only at inside
    split at inside
    · exact dimensioned.sections sec inside
    rcases List.mem_append.1 inside with old | new
    · exact dimensioned.sections sec old
    · rw [List.mem_singleton.1 new]
      intro i k t member
      rw [entry] at member
      obtain ⟨t', kept, rfl⟩ := List.mem_map.1 member
      obtain ⟨old, column⟩ := List.mem_filter.1 kept
      obtain ⟨holds, shaped⟩ := dimensioned.remainder i t' old
      obtain ⟨a, ends, found⟩ := Product.column?_eq_some.1 (of_decide_eq_true column)
      obtain ⟨held, same, -⟩ := List.idxOf?_eq_some_iff.1 found
      obtain ⟨one, target, linked, row⟩ := unknown k a (List.getElem?_eq_some_iff.2 ⟨held, same⟩)
      obtain ⟨plain, own, -⟩ := Session.link_spec linked
      rw [plain] at own
      exact ⟨one, target, row, own, holds.withoutLast,
        holds.hasShape_withoutLast shaped ends linked⟩

end BlockSide.Dimensioned

/-! ## Targets -/

namespace Session

/-- A session under the default conventions in which the scalar one can be taken. -/
structure Regular (s : Session) : Prop where
  sound : s.Sound
  default : s.settings = {}
  one : s.Offers 1.0

theorem Reachable.regular (reachable : Reachable {} s) : s.Regular where
  sound := reachable.sound
  default := reachable.settings_eq
  one := reachable.offers Scalar.isFinite_one

theorem Regular.steps (regular : s.Regular) (steps : s.Steps s') : s'.Regular where
  sound := regular.sound.steps steps
  default := steps.extends.settings.trans regular.default
  one := steps.offers Scalar.isFinite_one regular.one

/-- An array of the session, or a root form of a finite space. -/
def Admits (s : Session) : Target → Prop
  | .array a => ∃ array, s.arrays.get? a = some array
  | .form f => ∃ form label, s.forms.get? f = some form ∧ form.isRoot = true ∧
      s.dofLabel form.space = .ok label

theorem Extends.admits (later : s.Extends s') {target : Target} (admits : s.Admits target) :
    s'.Admits target := by
  cases target with
  | array a => exact admits.imp fun _ => later.arrays
  | form f =>
    obtain ⟨form, label, found, root, labelled⟩ := admits
    exact ⟨form, label, later.forms found, root, later.dofLabel_eq_ok labelled⟩

end Session

namespace Target

/-- An admitted target stands for an array. -/
theorem array?_succeeds (regular : s.Regular) {target : Target} (admits : s.Admits target) :
    ∃ a s' array, target.array? s = .ok a s' ∧ s'.arrays.get? a = some array := by
  cases target with
  | array a => exact ⟨a, s, admits.choose, rfl, admits.choose_spec⟩
  | form f =>
    obtain ⟨form, label, found, root, labelled⟩ := admits
    obtain ⟨id, s', run⟩ := regular.sound.vector_succeeds regular.default found root labelled
    obtain ⟨-, array, taken, -⟩ := Session.Standard.vector_spec
      ⟨regular.sound, by rw [regular.default]⟩ run
    exact ⟨id, s', array, run, taken⟩

theorem arrays_succeed (regular : s.Regular) {targets : List Target}
    (admits : ∀ t ∈ targets, s.Admits t) : ∃ arrays s', targets.mapM array? s = .ok arrays s' ∧
      s.Steps s' ∧ ∀ a ∈ arrays, ∃ array, s'.arrays.get? a = some array := by
  induction targets generalizing s with
  | nil => exact ⟨[], s, rfl, .refl, by simp⟩
  | cons t targets ih =>
    rw [List.forall_mem_cons] at admits
    obtain ⟨a, mid, array, run, found⟩ := array?_succeeds regular admits.1
    have first := t.array?_grows.steps run
    obtain ⟨arrays, s', rest, later, taken⟩ := ih (regular.steps first) fun t' member =>
      first.extends.admits (admits.2 t' member)
    refine ⟨a :: arrays, s', ?_, first.trans later, ?_⟩
    · rw [List.mapM_cons, bind_of_ok run, bind_of_ok rest]
      rfl
    · rw [List.forall_mem_cons]
      exact ⟨⟨array, later.extends.arrays found⟩, taken⟩

end Target

namespace BlockVector

theorem fill_succeeds {start : Nat} {arrays : List ArrayId} {v : BlockVector}
    (offers : s.Offers 1.0) (found : ∀ a ∈ arrays, ∃ array, s.arrays.get? a = some array)
    (inside : start + arrays.length ≤ v.rows) (free : ∀ k, start ≤ k → v.row k = []) :
    ∃ v' s', ((arrays.zipIdx start).foldlM (fun v (a, i) => do
      v.push i ⟨.plus, ← (Product.single a : Derive _)⟩) v : Derive BlockVector) s =
        .ok v' s' := by
  -- the cells from `start` on are empty, so any product may be pushed there
  induction arrays generalizing start v s with
  | nil => exact ⟨v, s, rfl⟩
  | cons a arrays ih =>
    rw [List.forall_mem_cons] at found
    rw [List.length_cons] at inside
    obtain ⟨one, mid, unit⟩ := Scalar.unit_succeeds offers
    have steps : s.Steps mid := Scalar.unit_grows.steps unit
    obtain ⟨array, here⟩ := found.1
    obtain ⟨link, linked⟩ := Session.link_of_get? (steps.extends.arrays here) false
    have single : (Product.single a : Derive _) s = .ok ⟨one, [link]⟩ mid := by
      rw [Product.single, bind_of_ok unit, get_bind, lift_bind_of_ok linked]
      rfl
    have shaped : (⟨one, [link]⟩ : Product).HasShape link.shape := fun given same =>
      (Option.some.inj same).symm
    obtain ⟨next, pushed⟩ := push_succeeds (t := ⟨.plus, ⟨one, [link]⟩⟩)
      (show start < v.rows by omega) (by simp [free start (Nat.le_refl _)]) shaped
    obtain ⟨-, rows, row⟩ := push_spec pushed
    obtain ⟨v', s', rest⟩ := ih (steps.offers Scalar.isFinite_one offers)
      (fun b member => (found.2 b member).imp fun _ => steps.extends.arrays)
      (show start + 1 + arrays.length ≤ next.rows by omega)
      fun k later => by rw [row, free k (Nat.le_of_succ_le later), if_neg (by omega)]; rfl
    refine ⟨v', s', ?_⟩
    rw [List.zipIdx_cons, List.foldlM_cons, bind_assoc, bind_of_ok single, lift_bind_of_ok pushed,
      rest]

/-- The vector of arrays of the session can be set up. -/
theorem ofArrays_succeeds {arrays : List ArrayId} (offers : s.Offers 1.0)
    (found : ∀ a ∈ arrays, ∃ array, s.arrays.get? a = some array) :
    ∃ v s', ofArrays arrays s = .ok v s' :=
  fill_succeeds offers found (by rw [rows_empty, Nat.zero_add]) fun _ _ => row_empty _ _

end BlockVector

/-! ## Systems -/

namespace BlockSystem

/-- The products in a row of each side share a shape. -/
def Dimensioned (s : Session) (shapes : Side → Nat → Shape) (b : BlockSystem) : Prop :=
  ∀ side, (b.side side).Dimensioned s (shapes side)

variable {shapes : Side → Nat → Shape} {b b' : BlockSystem} {targets : List Target}
  {calls : List (List ArrayId)}

theorem Dimensioned.mono (dimensioned : b.Dimensioned s shapes) (later : s.Extends s') :
    b.Dimensioned s' shapes :=
  fun side => (dimensioned side).mono later

/-- Gathering succeeds once the targets stand for arrays of the session. -/
theorem Dimensioned.gather_of_resolved {mid : Session} {arrays : List ArrayId}
    (dimensioned : b.Dimensioned s shapes) (offers : s.Offers 1.0) (first : s.Steps mid)
    (resolved : targets.mapM Target.array? s = .ok arrays mid)
    (found : ∀ a ∈ arrays, ∃ array, mid.arrays.get? a = some array) :
    ∃ b' s', b.gather targets s = .ok b' s' := by
  obtain ⟨unknowns, last, column⟩ :=
    BlockVector.ofArrays_succeeds (first.offers Scalar.isFinite_one offers) found
  have steps : s.Steps last := first.trans ((BlockVector.ofArrays_grows arrays).steps column)
  have second : mid.Extends last := (BlockVector.ofArrays_grows arrays).extends column
  have linked : ∀ a ∈ arrays, ∃ link, last.link a false = .ok link := fun a member =>
    (found a member).elim fun _ taken => Session.link_of_get? (second.arrays taken) false
  have sides := fun side => (dimensioned.mono steps.extends side).gather_succeeds linked unknowns
  obtain ⟨left, runLeft⟩ := sides .left
  obtain ⟨right, runRight⟩ := sides .right
  simp only [side] at runLeft runRight
  rw [gather, bind_of_ok resolved, bind_of_ok column, lift_bind_of_ok runLeft,
    lift_bind_of_ok runRight]
  exact ⟨_, _, rfl⟩

/-- Gathering for admitted targets succeeds. -/
theorem Dimensioned.gather_succeeds (dimensioned : b.Dimensioned s shapes) (regular : s.Regular)
    (admits : ∀ t ∈ targets, s.Admits t) : ∃ b' s', b.gather targets s = .ok b' s' := by
  obtain ⟨arrays, mid, resolved, first, found⟩ := Target.arrays_succeed regular admits
  exact dimensioned.gather_of_resolved regular.one first resolved found

theorem Dimensioned.gather (dimensioned : b.Dimensioned s shapes)
    (run : b.gather targets s = .ok b' s') : b'.Dimensioned s' shapes := by
  obtain ⟨arrays, mid, unknowns, -, column, sides, -⟩ := gather_eq_ok run
  obtain ⟨-, unknown⟩ := BlockVector.ofArrays_spec column
  have later := (b.gather_grows targets).extends run
  refine fun side => ((dimensioned side).mono later).gather (fun k a here => ?_) (sides side)
  obtain ⟨one, link, -, linked, row⟩ := unknown k a here
  exact ⟨one, link, linked, row⟩

theorem Gathers.dimensioned (run : Gathers s b calls s' b') (start : b.Dimensioned s shapes) :
    b'.Dimensioned s' shapes := by
  induction run with
  | start => exact start
  | request _ request ih =>
    exact fun side => (ih side).mono (Session.Steps.extends request.perform_grows)
  | gather _ _ run ih => exact ih.gather run

end BlockSystem

/-! ## Systems of products -/

/-- The products share a shape, if any of them have one. -/
def Product.Uniform (terms : List (Signed Product)) : Prop :=
  ∃ shape, ∀ t ∈ terms, t.value.HasShape shape

/-- What a cell has taken shares a shape. -/
theorem BlockCell.push_uniform {cell cell' : BlockCell} (uniform : Product.Uniform cell.terms)
    (run : cell.push t = .ok cell') : Product.Uniform cell'.terms := by
  obtain ⟨shape, all⟩ := uniform
  rw [terms_push run]
  cases old : cell.shape? with
  | none =>
    refine ⟨t.value.shape?.getD ⟨"", ""⟩, fun x member => ?_⟩
    rcases List.mem_append.1 member with before | new
    · intro given some
      have none := List.findSome?_eq_none_iff.1 old x before
      rw [none] at some
      cases some
    · rw [List.mem_singleton.1 new]
      intro given some
      rw [some, Option.getD_some]
  | some given =>
    obtain ⟨x, member, some⟩ := List.exists_of_findSome?_eq_some old
    obtain rfl := all x member given some
    refine ⟨given, fun x member => ?_⟩
    rcases List.mem_append.1 member with before | new
    · exact all x before
    · rw [List.mem_singleton.1 new]
      intro given' some'
      rw [push, old, some'] at run
      dsimp only at run
      split at run
      · rename_i same
        exact same.symm
      · cases run

namespace BlockVector

variable {v v' : BlockVector}

theorem push_uniform {i : Nat} (uniform : ∀ j, Product.Uniform (v.row j))
    (run : v.push i t = .ok v') (j : Nat) : Product.Uniform (v'.row j) := by
  obtain ⟨inside, -, rows⟩ := push_spec run
  by_cases same : j = i
  · subst same
    have found : v.get? j = some v.cells[j] := List.getElem?_eq_getElem inside
    have row : v.row j = v.cells[j].terms := by
      simp [BlockVector.row, found]
    rw [push, found] at run
    obtain ⟨cell, pushed, -⟩ := Outcome.bind_eq_ok.1 run
    rw [rows, if_pos rfl, row, ← BlockCell.terms_push pushed]
    exact BlockCell.push_uniform (row ▸ uniform j) pushed
  · rw [rows, if_neg same, List.append_nil]
    exact uniform j

theorem pushStripped_uniform {row : Nat} {testVector : ArrayId} {terms : List (Signed Product)}
    (uniform : ∀ j, Product.Uniform (v.row j))
    (run : v.pushStripped s row testVector terms = .ok v') (j : Nat) :
    Product.Uniform (v'.row j) := by
  induction terms generalizing v with
  | nil =>
    cases Outcome.pure_eq_ok.1 run
    exact uniform j
  | cons t terms ih =>
    rw [pushStripped, List.foldlM_cons, Outcome.bind_eq_ok] at run
    obtain ⟨mid, first, rest⟩ := run
    obtain ⟨q, -, pushed⟩ := Outcome.bind_eq_ok.1 first
    exact ih (push_uniform uniform pushed) rest

end BlockVector

namespace BlockSystem

theorem pushEquations_uniform {entries : List (Equation Product × ArrayId)} {start : Nat}
    {v v' : BlockVector × BlockVector} (left : ∀ j, Product.Uniform (v.1.row j))
    (right : ∀ j, Product.Uniform (v.2.row j))
    (run : ((entries.zipIdx start).foldlM (fun (left, right) ((e, testVector), i) => do
      let left ← left.pushStripped s i testVector e.left
      let right ← right.pushStripped s i testVector e.right
      return (left, right)) v : Outcome (BlockVector × BlockVector)) = .ok v') (j : Nat) :
    Product.Uniform (v'.1.row j) ∧ Product.Uniform (v'.2.row j) := by
  induction entries generalizing start v with
  | nil =>
    cases Outcome.pure_eq_ok.1 run
    exact ⟨left j, right j⟩
  | cons entry entries ih =>
    rw [List.zipIdx_cons, List.foldlM_cons] at run
    obtain ⟨mid, first, rest⟩ := Outcome.bind_eq_ok.1 run
    simp only [Outcome.bind_eq_ok, Outcome.pure_eq_ok] at first
    obtain ⟨vLeft, pushedLeft, vRight, pushedRight, rfl⟩ := first
    exact ih (BlockVector.pushStripped_uniform left pushedLeft)
      (BlockVector.pushStripped_uniform right pushedRight) rest

/-- A system of products of the session has one shape in every row of a side. -/
theorem ofProducts_dimensioned {testVectors : List ArrayId} {equations : List (Equation Product)}
    {b : BlockSystem} (held : ∀ e ∈ equations, ∀ side, ∀ t ∈ e.side side, s.HoldsProduct t.value)
    (built : ofProducts s testVectors equations = .ok b) : ∃ shapes, b.Dimensioned s shapes := by
  have uniform : ∀ side j, Product.Uniform ((b.side side).remainder.row j) := by
    rw [ofProducts, Outcome.guard_eq_ok] at built
    obtain ⟨-, built⟩ := built
    simp only [Outcome.bind_eq_ok, Outcome.pure_eq_ok] at built
    obtain ⟨⟨left, right⟩, pushed, rfl⟩ := built
    have empty : ∀ n j, Product.Uniform ((BlockVector.empty n).row j) := fun n j =>
      ⟨⟨"", ""⟩, by simp⟩
    intro side j
    have both := pushEquations_uniform (empty _) (empty _) pushed j
    cases side with
    | left => exact both.1
    | right => exact both.2
  choose shapes shaped using uniform
  refine ⟨shapes, fun side => ?_⟩
  -- what is pushed lost its test vector, which leaves a chain of the session
  obtain ⟨empty, height, strips⟩ := (ofProducts_spec built).2 side
  refine ⟨fun i t member => ⟨?_, shaped side i t member⟩, by simp [empty]⟩
  have inside : i < equations.length := height ▸ BlockVector.lt_rows_of_mem_row member
  have tested : i < testVectors.length := testVectorCount built ▸ inside
  obtain ⟨q, source, -, front, -, -, whole⟩ := exists_mem_of_forall₂
    (strips i _ _ (List.getElem?_eq_getElem inside) (List.getElem?_eq_getElem tested)) member
  have stripped := (held _ (List.getElem_mem inside) side q source).withoutFirst
  rwa [whole] at stripped

/-! ## Systems of weak formulations -/

/-- What is left of a converted product behind its test vector has a row for every degree of
freedom of the test form, and one column. -/
theorem shape?_of_tests {v : FormId} {front : Link} {p : Product} {label : String}
    (tests : s.Tests v (front :: p.chain)) (fits : Product.Fits (front :: p.chain))
    (labelled : s.RowLabel label (.vector v)) : p.shape? = some ⟨label, "1"⟩ := by
  obtain ⟨front', last, form, same, ends, column, found, rows⟩ := tests
  cases Option.some.inj same
  obtain ⟨form', found', labelled⟩ := labelled
  cases found.symm.trans found'
  cases rows.symm.trans labelled
  rw [List.tail_cons] at ends
  obtain ⟨first, head⟩ : ∃ first, p.chain.head? = some first := by
    cases chain : p.chain with
    | nil => simp [chain] at ends
    | cons first rest => exact ⟨first, rfl⟩
  rw [Product.Fits, List.isChain_cons] at fits
  rw [Product.shape?_eq_some]
  exact ⟨first, last, head, ends, by rw [column, fits.1 first head]⟩

/-- The system of a weak formulation is gathered from a system in which the products of a row
have a row for every degree of freedom of its test form, and one column. -/
theorem create_dimensioned (sound : s.Sound)
    (suffix : s.settings.conventions.linGlyphs.vectorSuffix = "+vec") {w : WeakFormulation}
    {b : BlockSystem} (run : create w s = .ok b s') : ∃ mid testVectors equations system calls,
      ∃ labels : Nat → String, s.Steps mid ∧ testVectors.length = w.testForms.length ∧
        ofProducts mid testVectors equations = .ok system ∧ Gathers mid system calls s' b ∧
        (∀ i v, w.testForms[i]? = some v → mid.RowLabel (labels i) (.vector v)) ∧
        (∀ side i, ∀ t ∈ (system.side side).remainder.row i,
          t.value.shape? = some ⟨labels i, "1"⟩) ∧
        system.Dimensioned mid fun _ i => ⟨labels i, "1"⟩ := by
  obtain ⟨unknowns, ids, testVectors, equations, system, mid, known, steps, -, tests, built,
    gathered, sources⟩ := create_rows sound run
  have chosen : ∀ i : Nat, ∃ label, ∀ v, w.testForms[i]? = some v →
      mid.RowLabel label (.vector v) := by
    intro i
    cases here : w.testForms[i]? with
    | none => exact ⟨"", by simp⟩
    | some v =>
      obtain ⟨inside, rfl⟩ := List.getElem?_eq_some_iff.1 here
      obtain ⟨label, labelled⟩ := tests.get inside (tests.length_eq ▸ inside)
      exact ⟨label, fun v same => Option.some.inj same ▸ labelled⟩
  choose labels labelled using chosen
  have converted : ∀ side i, ∀ t ∈ (system.side side).remainder.row i,
      mid.HoldsProduct t.value ∧ t.value.shape? = some ⟨labels i, "1"⟩ := by
    intro side i t member
    obtain ⟨e, v, front, -, test, x, -, converts⟩ := sources side i t member
    have default : mid.settings.conventions.linGlyphs.vectorSuffix = "+vec" :=
      steps.extends.settings ▸ suffix
    exact ⟨converts.chains.tail.holdsProduct,
      shape?_of_tests (converts.tests default) converts.chains.fits (labelled i v test)⟩
  obtain ⟨arrays, last, column, resolved, -⟩ := gather_eq_ok gathered
  refine ⟨mid, testVectors, equations, system, [arrays], labels, steps, tests.length_eq.symm,
    built, .gather .start resolved gathered, labelled,
    fun side i t member => (converted side i t member).2,
    fun side => ⟨fun i t member => ?_, ?_⟩⟩
  · obtain ⟨holds, shape⟩ := converted side i t member
    exact ⟨holds, fun given same => Option.some.inj (same.symm.trans shape)⟩
  · obtain ⟨empty, -⟩ := (ofProducts_spec built).2 side
    simp [empty]

/-- Systems that are set up in a session: of products of the session, or of a weak
formulation. -/
inductive Built (s : Session) : Session → BlockSystem → Prop
  | products {testVectors : List ArrayId} {equations : List (Equation Product)} {b : BlockSystem}
    (held : ∀ e ∈ equations, ∀ side, ∀ t ∈ e.side side, s.HoldsProduct t.value)
    (built : ofProducts s testVectors equations = .ok b) : Built s s b
  | formulation {w : WeakFormulation} {s' : Session} {b : BlockSystem}
    (run : create w s = .ok b s') : Built s s' b

theorem Built.dimensioned (built : Built s s' b) (reachable : Session.Reachable {} s) :
    s.Steps s' ∧ ∃ shapes, b.Dimensioned s' shapes := by
  cases built with
  | products held built => exact ⟨.refl, ofProducts_dimensioned held built⟩
  | formulation run =>
    have suffix : s.settings.conventions.linGlyphs.vectorSuffix = "+vec" := by
      rw [reachable.settings_eq]
    obtain ⟨mid, _, _, system, calls, labels, -, -, -, run', -, -, start⟩ :=
      create_dimensioned reachable.sound suffix run
    exact ⟨(create_grows _).steps run, _, run'.dimensioned start⟩

/-- The rows and columns of a system match the forms behind them. -/
structure Matches (s : Session) (testForms : List FormId) (labels : Nat → String)
    (b : BlockSystem) : Prop where
  labelled : ∀ i v, testForms[i]? = some v → s.RowLabel (labels i) (.vector v)
  dimensioned : b.Dimensioned s fun _ i => ⟨labels i, "1"⟩
  remainder : ∀ side i, ∀ t ∈ (b.side side).remainder.row i,
    t.value.shape? = some ⟨labels i, "1"⟩
  rows : ∀ side, (b.side side).remainder.rows = testForms.length
  sections : ∀ side, ∀ sec ∈ (b.side side).sections,
    sec.matrix.HasSize testForms.length sec.unknowns.rows

theorem create_matches (reachable : Session.Reachable {} s) {w : WeakFormulation}
    {s₁ : Session} (created : create w s = .ok b s₁) (run : Gathers s₁ b calls s' b') :
    ∃ labels, b'.Matches s' w.testForms labels := by
  have suffix : s.settings.conventions.linGlyphs.vectorSuffix = "+vec" := by
    rw [reachable.settings_eq]
  obtain ⟨mid, testVectors, equations, system, made, labels, -, count, built, before, labelled,
    shaped, start⟩ := create_dimensioned reachable.sound suffix created
  have whole := before.trans run
  have sized : b'.Sized w.testForms.length := whole.sized (count ▸ sized_ofProducts built)
  refine ⟨labels, fun i v here => whole.steps.extends.rowLabel_vector (labelled i v here),
    whole.dimensioned start, fun side i t member => shaped side i t (whole.mem_row member),
    fun side => (sized.sides side).remainder, fun side => (sized.sides side).sections⟩

/-- Blocks have the dimensions of the forms behind them, and assembly does not fail. In the
system of a weak formulation, at every point of a run, the rows of a block are the degrees of
freedom of the test form of its row, its columns the rows of the target of its column, and
every product that remains is a column. Labels of degrees of freedom tell spaces apart. A
system can be gathered for any arrays of the session and root forms of finite spaces. -/
theorem assembly_dimensions (reachable : Session.Reachable {} s) :
    (∀ w b s₁, create w s = .ok b s₁ → ∀ calls s' b', Gathers s₁ b calls s' b' →
      ∃ labels, b'.Matches s' w.testForms labels) ∧
    (∀ b s₁, Built s s₁ b → ∀ calls s' b', Gathers s₁ b calls s' b' →
      ∀ targets : List Target, (∀ t ∈ targets, s'.Admits t) →
        ∃ b'' s'', b'.gather targets s' = .ok b'' s'') ∧
    ∀ space space' label, s.dofLabel space = .ok label → s.dofLabel space' = .ok label →
      space = space' := by
  refine ⟨fun w b s₁ created calls s' b' run => create_matches reachable created run,
    fun b s₁ built calls s' b' run targets admits => ?_,
    fun space space' label first second => reachable.sound.space_eq_of_dofLabel first second⟩
  obtain ⟨before, shapes, start⟩ := built.dimensioned reachable
  exact (run.dimensioned start).gather_succeeds
    (reachable.regular.steps (before.trans run.steps)) admits

/-- The system of `(u, d v) = <tr ⋆u, tr v>` over an interval has a block, and can be gathered
for the boundary vector that remains. -/
theorem assembly_dimensions_interval : ∃ (s s₁ s₂ : Session) (w : WeakFormulation)
    (b b' : BlockSystem) (a : ArrayId), Session.Reachable {} s ∧ create w s = .ok b s₁ ∧
      (∃ sec ∈ (b.side .left).sections, sec.matrix.entry 0 0 ≠ []) ∧
      (∃ labels, b.Matches s₁ w.testForms labels) ∧ b.gather [.array a] s₁ = .ok b' s₂ ∧
      ∃ labels, b'.Matches s₂ w.testForms labels := by
  obtain ⟨s, w, reachable, evaluated⟩ : ∃ s w, Session.Reachable {} s ∧
      (match create w s with
        | .ok b s₁ => decide ((∃ sec ∈ (b.side .left).sections, sec.matrix.entry 0 0 ≠ []) ∧
            ∃ t ∈ (b.side .right).remainder.row 0, ∃ link ∈ t.value.chain,
              link.transposed = false ∧ (s₁.arrays.get? link.array).isSome)
        | .error _ _ => false) = true := by
    let s := Request.performAll {} [.manifold 1, .mesh ⟨0⟩, .space ⟨0⟩ 1 .outer,
      .space ⟨0⟩ 0 .outer, .root ⟨0⟩ ⟨"u", "u"⟩, .root ⟨1⟩ ⟨"v", "v"⟩, .operator .derivative ⟨1⟩,
      .operator .hodge ⟨0⟩, .operator .trace ⟨3⟩, .operator .trace ⟨1⟩, .degrees 1]
    let w : Outcome WeakFormulation := do
      let volume ← Term.create s .innerProduct ⟨0⟩ ⟨2⟩
      let boundary ← Term.create s .dualityPairing ⟨4⟩ ⟨5⟩
      let w ← WeakFormulation.create s [⟨[⟨.plus, volume⟩], [⟨.plus, boundary⟩]⟩] [⟨1⟩]
      w.withUnknowns s [⟨0⟩]
    refine ⟨s, w.toOption.getD ⟨⟨0⟩, [], [], none⟩, .performAll {} _, ?_⟩
    decide +kernel
  cases run : create w s with
  | error failure s₁ => simp [run] at evaluated
  | ok b s₁ =>
    simp only [run] at evaluated
    obtain ⟨block, t, -, link, -, -, known⟩ := of_decide_eq_true evaluated
    have admits : ∀ target ∈ [Target.array link.array], s₁.Admits target := by
      intro target member
      rw [List.mem_singleton.1 member]
      exact Option.isSome_iff_exists.1 known
    obtain ⟨sized, gathers, -⟩ := assembly_dimensions reachable
    obtain ⟨b', s₂, gathered⟩ := gathers b s₁ (.formulation run) [] s₁ b .start _ admits
    exact ⟨s, s₁, s₂, w, b, b', link.array, reachable, run, block, sized w b s₁ run [] s₁ b .start,
      gathered, sized w b s₁ run [[link.array]] s₂ b' (.gather .start rfl gathered)⟩

end BlockSystem

end Variational
