import Variational.Block.Description
import Variational.Proofs.Admissible.Formulations
import Variational.Proofs.Block.Conservation

/-!
# Systems that are answered

Formulations are converted into algebraic systems, sorted into blocks, gathered and described
with ids that the session issued. Cells outside a vector or a matrix are rejected.
-/

namespace Variational

open Session
open Refers (references)

variable {s : Session}

/-! ## Algebraic systems -/

namespace AlgebraicSystem

theorem warn_answered (warning : Warning) : (warn warning).Answered s fun _ _ => True :=
  trivial

theorem convertTerm_answered (closed : s.Closed) {testForm : FormId} (position : Position)
    {t : Signed Term} (issued : s.Issued t) (tested : s.Issued testForm) :
    (convertTerm testForm position t).Answered s Issued := by
  refine .bind (Term.convert_grows _ _) (Term.convert_answered closed issued tested)
    fun conversion s' steps held => ?_
  cases conversion with
  | converted product =>
    exact .get_bind (.lift_bind (Product.isLinear_answered held) fun _ _ => .pure held)
  | unsupported reason =>
    exact .bind (warn_grows _) (warn_answered _) fun _ _ later _ =>
      .pure (issued.later (steps.trans later))

theorem convertSide_answered (closed : s.Closed) {testForm : FormId} (equation start : Nat)
    {terms : List (Signed Term)} (issued : s.Issued terms) (tested : s.Issued testForm) :
    (terms.zipIdx.mapM fun (t, j) => convertTerm testForm ⟨equation, start + j⟩ t).Answered s
      Issued := by
  refine .mapM (fun _ _ => convertTerm_grows _ _ _) fun ⟨t, j⟩ member s' steps => ?_
  exact convertTerm_answered (closed.later steps) _
    ((issued_list.1 issued t (List.fst_mem_of_mem_zipIdx member)).later steps) (tested.later steps)

theorem convertEquation_answered (closed : s.Closed) {testForm : FormId} (equation : Nat)
    {e : Equation Term} (issued : s.Issued e) (tested : s.Issued testForm) :
    (convertEquation equation e testForm).Answered s Issued := by
  obtain ⟨left, right⟩ := issued_pair.1 issued
  have first := convertSide_answered closed equation 0 left tested
  simp only [Nat.zero_add] at first
  refine .bind (.mapM (fun _ _ => convertTerm_grows _ _ _) _ _) first fun left' s' steps held => ?_
  refine .bind (.mapM (fun _ _ => convertTerm_grows _ _ _) _ _) (convertSide_answered
    (closed.later steps) equation e.left.length (right.later steps) (tested.later steps))
    fun right' _ later held' => ?_
  exact .pure (issued_pair.2 ⟨held.later later, held'⟩)

theorem convertEquations_answered (closed : s.Closed) {w : WeakFormulation}
    (issued : s.Issued w) :
    ((w.equations.zip w.testForms).zipIdx.mapM fun ((e, testForm), i) =>
      convertEquation i e testForm).Answered s Issued := by
  refine .mapM (fun _ _ => convertEquation_grows _ _ _) fun entry member s' steps => ?_
  obtain ⟨⟨e, testForm⟩, i⟩ := entry
  obtain ⟨memberE, memberV⟩ := List.of_mem_zip (List.fst_mem_of_mem_zipIdx member)
  have equation := issued_list.1 (WeakFormulation.issued_equations issued) e memberE
  have tested := issued_list.1 (WeakFormulation.issued_testForms issued) testForm memberV
  exact convertEquation_answered (closed.later steps) i (equation.later steps) (tested.later steps)

theorem vectors_grow (forms : List FormId) : (forms.mapM RootArray.vector).Grows s :=
  .mapM (fun f _ => RootArray.vector_grows f) _ _

theorem vectors_answered (closed : s.Closed) {forms : List FormId} (issued : s.Issued forms) :
    (forms.mapM RootArray.vector).Answered s Issued :=
  .mapM (fun f _ => RootArray.vector_grows f) fun f member _ steps =>
    RootArray.vector_answered (closed.later steps) ((issued_list.1 issued f member).later steps)

theorem mem_withoutRepetition {arrays : List ArrayId} {a : ArrayId} :
    a ∈ withoutRepetition arrays ↔ a ∈ arrays := by
  rw [withoutRepetition, BlockSystem.mem_foldl_unknowns]
  simp

theorem create_answered (closed : s.Closed) {w : WeakFormulation} (issued : s.Issued w) :
    (create w).Answered s Issued := by
  rw [create]
  cases given : w.unknowns with
  | none => exact .reject
  | some forms =>
    have forms' := issued_option.1 (WeakFormulation.issued_unknowns issued) forms given
    refine .bind (vectors_grow _) (vectors_answered closed forms')
      fun unknowns s₁ steps₁ held₁ => ?_
    have closed₁ := closed.later steps₁
    have issued₁ := issued.later steps₁
    have tested₁ := WeakFormulation.issued_testForms issued₁
    refine .bind (vectors_grow _) (vectors_answered closed₁ tested₁)
      fun testVectors s₂ steps₂ held₂ => ?_
    have closed₂ := closed₁.later steps₂
    have issued₂ := issued₁.later steps₂
    refine .bind (.mapM (fun _ _ => convertEquation_grows _ _ _) _ _)
      (convertEquations_answered closed₂ issued₂) fun equations s₃ steps₃ held₃ => ?_
    have closed₃ := closed₂.later steps₃
    refine .get_bind (.lift_bind
      (WeakFormulation.elementaryForms_answered (issued₂.later steps₃)) fun elementary known => ?_)
    refine .bind (vectors_grow _) (vectors_answered closed₃ known) fun vectors s₄ steps₄ held₄ => ?_
    have elementaryVectors : s₄.Issued (withoutRepetition vectors) :=
      issued_list.2 fun a member => issued_list.1 held₄ a (mem_withoutRepetition.1 member)
    exact .pure (issued_pair.2 ⟨held₃.later steps₄, issued_pair.2
      ⟨held₁.later ((steps₂.trans steps₃).trans steps₄), issued_pair.2
        ⟨held₂.later (steps₃.trans steps₄), elementaryVectors⟩⟩⟩)

theorem entry_answered {a : AlgebraicSystem} (issued : s.Issued a) (address : String) :
    (a.entry address).Answered s.Issued := by
  refine .bind (Position.read_answered address) fun position _ => ?_
  split
  · exact .reject
  · rename_i e found
    split
    · exact .reject
    · rename_i entry listed
      have held := issued_list.1 (issued_pair.1 issued).1 e (List.mem_of_getElem? found)
      exact .pure (Equation.issued_get? held listed)

end AlgebraicSystem

/-! ## Cells, vectors and matrices -/

theorem BlockCell.issued_empty : s.Issued ({} : BlockCell) :=
  issued_nil

theorem BlockCell.push_answered {cell : BlockCell} {t : Signed Product} (issued : s.Issued cell)
    (new : s.Issued t) : (cell.push t).Answered s.Issued := by
  have held : s.Issued (⟨cell.terms ++ [t]⟩ : BlockCell) :=
    issued_append.2 ⟨issued, issued_singleton.2 new⟩
  rw [push]
  split
  · split
    · exact held
    · exact .reject
  · exact held

namespace BlockVector

theorem issued_empty (rows : Nat) : s.Issued (empty rows) :=
  issued_replicate BlockCell.issued_empty

theorem issued_get? {v : BlockVector} (issued : s.Issued v) {i : Nat} {cell : BlockCell}
    (found : v.get? i = some cell) : s.Issued cell :=
  issued_list.1 issued cell (List.mem_of_getElem? found)

theorem push_answered {v : BlockVector} {t : Signed Product} (issued : s.Issued v) (i : Nat)
    (new : s.Issued t) : (v.push i t).Answered s.Issued := by
  rw [push]
  split
  · exact .reject
  · rename_i cell found
    exact .bind (BlockCell.push_answered (issued_get? issued found) new) fun _ held =>
      .pure (issued_listSet issued held)

end BlockVector

namespace BlockMatrix

theorem issued_empty (rows cols : Nat) : s.Issued (empty rows cols) :=
  issued_replicate (issued_replicate BlockCell.issued_empty)

theorem issued_get? {m : BlockMatrix} (issued : s.Issued m) {i j : Nat} {cell : BlockCell}
    (found : m.get? i j = some cell) : s.Issued cell := by
  obtain ⟨row, foundRow, foundCell⟩ := Option.bind_eq_some_iff.1 found
  exact issued_list.1 (issued_list.1 issued row (List.mem_of_getElem? foundRow)) cell
    (List.mem_of_getElem? foundCell)

theorem push_answered {m : BlockMatrix} {t : Signed Product} (issued : s.Issued m) (i j : Nat)
    (new : s.Issued t) : (m.push i j t).Answered s.Issued := by
  rw [push]
  split
  · rename_i row cell foundRow found
    have held := issued_list.1 issued row (List.mem_of_getElem? foundRow)
    exact .bind (BlockCell.push_answered (issued_get? issued found) new) fun _ held' =>
      .pure (issued_listSet issued (issued_listSet held held'))
  · exact .reject

end BlockMatrix

/-! ## Systems without sections -/

theorem Product.issued_ofChain {p : Product} (issued : s.Issued p) {chain : List Link}
    (part : ∀ link ∈ chain, link ∈ p.chain) : s.Issued ({ p with chain } : Product) :=
  issued_pair.2 ⟨(issued_pair.1 issued).1, issued_list.2 fun link member =>
    issued_list.1 (issued_pair.1 issued).2 link (part link member)⟩

theorem Product.stripTestVector_answered {testVector : ArrayId} {p : Product}
    (issued : s.Issued p) (tested : s.Issued testVector) :
    (p.stripTestVector s testVector).Answered s.Issued := by
  have rejected {Q : Product → Prop} : (do
      let vector ← s.array testVector
      reject (.structural (.testVector (s.arrayLin vector) (← p.lin s))) :
        Outcome Product).Answered Q :=
    .bind (array_answered tested) fun _ _ => .bind (lin_answered issued) fun _ _ => .reject
  rw [stripTestVector]
  split
  · split
    · exact .pure (issued_ofChain issued fun _ => List.mem_of_mem_tail)
    · exact rejected
  · exact rejected

theorem BlockVector.pushStripped_answered {row : Nat} {testVector : ArrayId} {v : BlockVector}
    {terms : List (Signed Product)} (issued : s.Issued v) (tested : s.Issued testVector)
    (new : s.Issued terms) : (v.pushStripped s row testVector terms).Answered s.Issued :=
  .foldlM issued fun _ held t member =>
    .bind (Product.stripTestVector_answered (p := t.value) (issued_list.1 new t member) tested)
      fun _ stripped => push_answered held row stripped

namespace BlockSystem

theorem ofProducts_answered {testVectors : List ArrayId} {equations : List (Equation Product)}
    (tested : s.Issued testVectors) (issued : s.Issued equations) :
    (ofProducts s testVectors equations).Answered s.Issued := by
  rw [ofProducts]
  have empty := BlockVector.issued_empty (s := s) equations.length
  refine .guard fun _ => .bind (.foldlM (Q := s.Issued) (issued_pair.2 ⟨empty, empty⟩)
    fun sides held entry member => ?_) fun sides held => .pure ?_
  · obtain ⟨left, right⟩ := sides
    obtain ⟨⟨e, testVector⟩, i⟩ := entry
    obtain ⟨memberE, memberV⟩ := List.of_mem_zip (List.fst_mem_of_mem_zipIdx member)
    have vector := issued_list.1 tested testVector memberV
    obtain ⟨leftTerms, rightTerms⟩ := issued_pair.1 (issued_list.1 issued e memberE)
    obtain ⟨heldLeft, heldRight⟩ := issued_pair.1 held
    exact .bind (BlockVector.pushStripped_answered heldLeft vector leftTerms) fun _ left' =>
      .bind (BlockVector.pushStripped_answered heldRight vector rightTerms) fun _ right' =>
        .pure (issued_pair.2 ⟨left', right'⟩)
  · have side {remainder : BlockVector} (known : s.Issued remainder) :
        s.Issued ({ remainder } : BlockSide) :=
      issued_pair.2 ⟨issued_nil, known⟩
    obtain ⟨left, right⟩ := sides
    obtain ⟨heldLeft, heldRight⟩ := issued_pair.1 held
    exact issued_pair.2 ⟨tested, issued_pair.2
      ⟨issued_nil, issued_pair.2 ⟨side heldLeft, side heldRight⟩⟩⟩

end BlockSystem

/-! ## Gathering -/

/-- What is being sorted refers to what is in its matrix and its remainder. -/
instance : Refers Sorting := ⟨fun sorting => references (sorting.matrix, sorting.remainder)⟩

namespace Sorting

theorem place_answered {targets : List ArrayId} {sorting : Sorting} {row : Nat}
    {t : Signed Product} (issued : s.Issued sorting) (new : s.Issued t) :
    (sorting.place targets row t).Answered s.Issued := by
  obtain ⟨matrix, remainder⟩ := issued_pair.1 issued
  rw [place]
  split
  · have shorter : s.Issued (⟨t.sign, t.value.withoutLast⟩ : Signed Product) :=
      Product.issued_ofChain (p := t.value) new fun _ => List.mem_of_mem_dropLast
    exact .bind (BlockMatrix.push_answered matrix _ _ shorter) fun _ held =>
      .pure (issued_pair.2 ⟨held, remainder⟩)
  · exact .bind (BlockVector.push_answered remainder _ new) fun _ held =>
      .pure (issued_pair.2 ⟨matrix, held⟩)

theorem run_answered {targets : List ArrayId} {v : BlockVector} (issued : s.Issued v) :
    (run targets v).Answered s.Issued := by
  refine .foldlM (issued_pair.2 ⟨BlockMatrix.issued_empty _ _, BlockVector.issued_empty _⟩)
    fun sorting held ⟨cell, row⟩ member => .foldlM held fun _ held' t listed => ?_
  have terms := issued_list.1 issued cell (List.fst_mem_of_mem_zipIdx member)
  exact place_answered held' (issued_list.1 terms t listed)

end Sorting

theorem BlockSide.gather_answered {side : BlockSide} {targets : List ArrayId}
    {unknowns : BlockVector} (issued : s.Issued side) (known : s.Issued unknowns) :
    (side.gather targets unknowns).Answered s.Issued := by
  obtain ⟨sections, remainder⟩ := issued_pair.1 issued
  refine .bind (Sorting.run_answered remainder) fun sorting held => .pure ?_
  obtain ⟨matrix, rest⟩ := issued_pair.1 held
  refine issued_pair.2 ⟨?_, rest⟩
  dsimp only
  split
  · exact sections
  · exact issued_append.2 ⟨sections,
      issued_singleton.2 (issued_pair.2 ⟨matrix, known⟩)⟩

theorem Target.array?_answered (closed : s.Closed) {target : Target} (issued : s.Issued target) :
    target.array?.Answered s Issued := by
  cases target with
  | form f => exact RootArray.vector_answered closed issued
  | array a => exact .pure issued

theorem BlockVector.ofArrays_answered (closed : s.Closed) {arrays : List ArrayId}
    (issued : s.Issued arrays) : (ofArrays arrays).Answered s Issued := by
  refine .foldlM (fun _ _ _ => .bind (Product.single_grows _) fun _ _ _ => .lift)
    (issued_empty arrays.length) fun v ⟨a, i⟩ member s' steps held => ?_
  have array := issued_list.1 issued a (List.fst_mem_of_mem_zipIdx member)
  exact .bind (Product.single_grows a)
    (Product.single_answered (closed.later steps) (array.later steps)) fun p _ later single =>
      .lift (push_answered (held.later later) i single)

namespace BlockSystem

theorem gather_answered (closed : s.Closed) {b : BlockSystem} {targets : List Target}
    (issued : s.Issued b) (wanted : s.Issued targets) :
    (b.gather targets).Answered s Issued := by
  refine .bind (.mapM (fun t _ => Target.array?_grows t) _ _) (.mapM
    (fun t _ => Target.array?_grows t) fun target member _ steps => Target.array?_answered
      (closed.later steps) ((issued_list.1 wanted target member).later steps))
    fun arrays s₁ steps₁ held₁ => ?_
  refine .bind (BlockVector.ofArrays_grows _)
    (BlockVector.ofArrays_answered (closed.later steps₁) held₁) fun unknowns s₂ steps₂ held₂ => ?_
  obtain ⟨testVectors, rest⟩ := issued_pair.1 (issued.later (steps₁.trans steps₂))
  obtain ⟨known, sides⟩ := issued_pair.1 rest
  obtain ⟨left, right⟩ := issued_pair.1 sides
  refine .lift_bind (BlockSide.gather_answered left held₂) fun left' gathered => ?_
  refine .lift_bind (BlockSide.gather_answered right held₂) fun right' gathered' => .pure ?_
  refine issued_pair.2 ⟨testVectors, issued_pair.2 ⟨issued_list.2 fun a member => ?_,
    issued_pair.2 ⟨gathered, gathered'⟩⟩⟩
  rcases mem_foldl_unknowns.1 member with old | new
  · exact issued_list.1 known a old
  · exact issued_list.1 (held₁.later steps₂) a new

theorem entryProduct_answered {entry : Signed AlgebraicEntry} (issued : s.Issued entry) :
    (entryProduct entry).Answered s.Issued := by
  obtain ⟨sign, position, term, linearity⟩ := entry
  cases term with
  | product p => exact issued
  | symbolic t => exact .reject

theorem ofAlgebraic_answered (closed : s.Closed) {a : AlgebraicSystem} (issued : s.Issued a) :
    (ofAlgebraic a).Answered s Issued := by
  obtain ⟨equations, rest⟩ := issued_pair.1 issued
  obtain ⟨unknowns, vectors⟩ := issued_pair.1 rest
  have products {entries : List (Signed AlgebraicEntry)} (held : s.Issued entries) :
      (entries.mapM entryProduct).Answered s.Issued :=
    .mono (.mapM (Q := s.Issued) fun entry member =>
      entryProduct_answered (issued_list.1 held entry member)) fun _ => issued_list.2
  refine .lift_bind (.mapM (Q := s.Issued) fun e member => ?_) fun equations' held =>
    .get_bind (.lift_bind (ofProducts_answered (issued_pair.1 vectors).1 (issued_list.2 held))
      fun b known => gather_answered closed known ?_)
  · obtain ⟨left, right⟩ := issued_pair.1 (issued_list.1 equations e member)
    exact .bind (products left) fun _ left' => .bind (products right) fun _ right' =>
      .pure (issued_pair.2 ⟨left', right'⟩)
  · exact issued_list.2 (List.forall_mem_map.2 (issued_list.1 unknowns))

theorem create_answered (closed : s.Closed) {w : WeakFormulation} (issued : s.Issued w) :
    (create w).Answered s Issued :=
  .bind (AlgebraicSystem.create_grows w) (AlgebraicSystem.create_answered closed issued)
    fun _ _ steps held => ofAlgebraic_answered (closed.later steps) held

end BlockSystem

/-! ## Reading block systems -/

theorem Block.cell_answered {address : String} {block : Block} {positions : List Nat} :
    (block.cell address positions).Answered fun _ => True := by
  unfold cell
  dsimp only
  split
  · exact .reject
  · exact .reject
  · exact trivial

theorem BlockSystem.readAddress_answered {address : String} :
    (readAddress address).Answered fun _ => True := by
  unfold readAddress
  dsimp only
  split
  · exact .reject
  · split
    · exact .reject
    · split
      · exact .reject
      · exact trivial

theorem BlockSystem.cell_answered {b : BlockSystem} {address : String} :
    (b.cell address).Answered fun _ => True := by
  refine .bind readAddress_answered fun ⟨number, positions⟩ _ => ?_
  dsimp only
  split
  · exact .reject
  · exact Block.cell_answered

theorem Link.describe_answered {link : Link} (issued : s.Issued link) :
    (link.describe s).Answered fun _ => True :=
  .bind (array_answered issued) fun _ _ => trivial

theorem Product.describe_answered {t : Signed Product} (issued : s.Issued t) :
    (describe s t).Answered fun _ => True := by
  obtain ⟨factor, chain⟩ := (issued_pair (p := (t.value.factor, t.value.chain))).1 issued
  exact .bind (scalar_answered factor) fun _ _ => .bind (.mapM fun link member =>
    Link.describe_answered (issued_list.1 chain link member)) fun _ _ => trivial

theorem BlockCell.describe_answered {cell : BlockCell} (issued : s.Issued cell) :
    (cell.describe s).Answered fun _ => True :=
  .any (.mapM fun t member => Product.describe_answered (issued_list.1 issued t member))

theorem BlockVector.describe_answered {v : BlockVector} (issued : s.Issued v) :
    (v.describe s).Answered fun _ => True :=
  .any (.mapM fun cell member => BlockCell.describe_answered (issued_list.1 issued cell member))

theorem Section.describe_answered {sec : Section} (issued : s.Issued sec) :
    (sec.describe s).Answered fun _ => True := by
  obtain ⟨matrix, unknowns⟩ := issued_pair.1 issued
  refine .bind (.any (.mapM (Q := fun _ => True) fun row member => ?_)) fun _ _ =>
    .bind (BlockVector.describe_answered unknowns) fun _ _ => trivial
  exact .any (.mapM fun cell listed =>
    BlockCell.describe_answered (issued_list.1 (issued_list.1 matrix row member) cell listed))

theorem BlockSide.describe_answered {side : BlockSide} (issued : s.Issued side) :
    (side.describe s).Answered fun _ => True := by
  obtain ⟨sections, remainder⟩ := issued_pair.1 issued
  exact .bind (.mapM fun sec member => Section.describe_answered
    (issued_list.1 sections sec member)) fun _ _ =>
      .bind (BlockVector.describe_answered remainder) fun _ _ => trivial

theorem BlockSystem.describe_answered {b : BlockSystem} (issued : s.Issued b) :
    (b.describe s).Answered fun _ => True := by
  obtain ⟨testVectors, rest⟩ := issued_pair.1 issued
  obtain ⟨unknowns, sides⟩ := issued_pair.1 rest
  obtain ⟨left, right⟩ := issued_pair.1 sides
  have labels {arrays : List ArrayId} (held : s.Issued arrays) :
      (arrays.mapM fun a => return s.arrayLin (← s.array a) :
        Outcome (List String)).Answered fun _ => True :=
    .any (.mapM (Q := fun _ => True) fun a member =>
      .bind (array_answered (issued_list.1 held a member)) fun _ _ => trivial)
  exact .bind (labels unknowns) fun _ _ => .bind (labels testVectors) fun _ _ =>
    .bind (BlockSide.describe_answered left) fun _ _ =>
      .bind (BlockSide.describe_answered right) fun _ _ => trivial

end Variational
