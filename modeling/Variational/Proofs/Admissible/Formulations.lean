import Variational.Ode.Basic
import Variational.Pde.Expression
import Variational.Pde.PortHamiltonian
import Variational.Proofs.Admissible.Terms
import Variational.WeakForm.Rearrangement

/-!
# Formulations that are answered

Weak formulations, systems of partial differential equations and ordinary differential
equations are built, read and derived with ids that the session issued, whatever texts
address their terms.
-/

namespace Variational

open Session
open Refers (references)

variable {s : Session}

/-! ## Equations -/

namespace Equation

variable {α : Type} [Refers α] {e : Equation α}

theorem issued_terms : s.Issued e ↔ ∀ t ∈ e.terms, s.Issued t.value :=
  (issued_pair (p := (e.left, e.right))).trans (issued_append.symm.trans issued_list)

theorem issued_get? (issued : s.Issued e) {position : Nat} {t : Signed α}
    (found : e.get? position = some t) : s.Issued t :=
  issued_terms.1 issued t (List.mem_of_getElem? found)

theorem issued_splice (issued : s.Issued e) {new : List (Signed α)} (side : Side) (place : Nat)
    (fresh : s.Issued new) : s.Issued (e.splice side place new) := by
  obtain ⟨left, right⟩ := issued_pair.1 issued
  have exchanged {old : List (Signed α)} (held : s.Issued old) :
      s.Issued (old.take place ++ new ++ old.drop (place + 1)) := by
    refine issued_append.2 ⟨issued_append.2 ⟨?_, fresh⟩, ?_⟩
    · exact issued_list.2 fun t member => issued_list.1 held t (List.mem_of_mem_take member)
    · exact issued_list.2 fun t member => issued_list.1 held t (List.mem_of_mem_drop member)
  cases side with
  | left => exact issued_pair.2 ⟨exchanged left, right⟩
  | right => exact issued_pair.2 ⟨left, exchanged right⟩

theorem issued_mapPositions {β : Type} [Refers β] {f : Nat → Signed α → Signed β}
    (issued : s.Issued e) (keeps : ∀ j t, s.Issued t → s.Issued (f j t)) :
    s.Issued (e.mapPositions f) := by
  have side {terms : List (Signed α)} (held : s.Issued terms) (g : Nat → Nat) :
      s.Issued (terms.mapIdx fun j => f (g j)) := by
    refine issued_list.2 fun t member => ?_
    obtain ⟨j, inside, rfl⟩ := List.mem_mapIdx.1 member
    exact keeps _ _ (issued_list.1 held _ (List.getElem_mem inside))
  obtain ⟨left, right⟩ := issued_pair.1 issued
  exact issued_pair.2 ⟨side left id, side right (e.left.length + ·)⟩

end Equation

/-! ## Addresses -/

theorem Position.readNumber_answered {address : String} {piece : List Char} :
    (readNumber address piece).Answered fun _ => True := by
  rw [readNumber]
  split
  · exact trivial
  · exact .reject

theorem Position.read_answered (address : String) : (read address).Answered fun _ => True := by
  rw [read]
  split
  · exact .bind readNumber_answered fun _ _ => .bind readNumber_answered fun _ _ => trivial
  · exact .reject

/-! ## Weak formulations -/

namespace WeakFormulation

section Checks

variable (closed : s.Closed)

include closed

theorem meshOf_answered {f : FormId} (issued : s.Issued f) :
    (meshOf s f).Answered s.Issued :=
  .bind (closed.form_answered issued) fun _ held =>
    .bind (closed.space_answered (issued_pair.1 held).1) fun _ mesh => .pure mesh

theorem checkTerm_answered {mesh : MeshId} {equation : Nat} {testForm : FormId} {t : Term}
    (issued : s.Issued t) (tested : s.Issued testForm) :
    (checkTerm s mesh equation testForm t).Answered fun _ => True := by
  refine .bind (Term.testForm?_answered issued) fun v _ => ?_
  refine .guard_bind (closed.form_answered tested) fun _ => ?_
  split
  · refine .bind (closed.mesh_answered (Term.issued_mesh issued)) fun m _ => ?_
    split
    · exact .reject
    · exact trivial
  · exact trivial

theorem checkEquation_answered {mesh : MeshId} {equation : Nat} {e : Equation Term}
    {testForm : FormId} (issued : s.Issued e) (tested : s.Issued testForm) :
    (checkEquation s mesh equation e testForm).Answered fun _ => True := by
  rw [checkEquation]
  refine .guard fun _ => .bind (meshOf_answered closed tested) fun own _ => ?_
  refine .guard_bind (closed.form_answered tested) fun _ => .forM fun t member => ?_
  exact checkTerm_answered closed (Equation.issued_terms.1 issued t member) tested

theorem check_answered {equations : List (Equation Term)} {testForms : List FormId}
    (issued : s.Issued equations) (tested : s.Issued testForms) :
    (check s equations testForms).Answered s.Issued := by
  unfold check
  refine .guard fun _ => .guard fun _ => ?_
  split
  · exact .reject
  · rename_i first others _
    have each := issued_list.1 tested
    refine .bind (meshOf_answered closed (each first List.mem_cons_self)) fun mesh held => ?_
    refine .bind (.forM fun ⟨⟨e, testForm⟩, i⟩ member => ?_) fun _ _ => .pure held
    obtain ⟨memberE, memberV⟩ := List.of_mem_zip (List.fst_mem_of_mem_zipIdx member)
    exact checkEquation_answered closed (issued_list.1 issued e memberE) (each testForm memberV)

theorem create_answered {equations : List (Equation Term)} {testForms : List FormId}
    (issued : s.Issued equations) (tested : s.Issued testForms) :
    (create s equations testForms).Answered s.Issued :=
  .bind (check_answered closed issued tested) fun _ mesh =>
    .pure (issued_pair.2 ⟨mesh, issued_pair.2 ⟨issued, issued_pair.2 ⟨tested, issued_none⟩⟩⟩)

end Checks

theorem signSide_answered {equation : Nat} {terms : List Term} {signs : List Sign}
    (issued : s.Issued terms) : (signSide equation terms signs).Answered s.Issued := by
  rw [signSide]
  split
  · exact .reject
  · refine issued_list.2 fun t member => ?_
    obtain ⟨i, found⟩ := List.mem_iff_getElem?.1 member
    obtain ⟨sign, term, -, listed, rfl⟩ := List.getElem?_zipWith_eq_some.1 found
    exact issued_list.1 issued term (List.mem_of_getElem? listed)

theorem ofTables_answered (closed : s.Closed) {terms : List (List Term × List Term)}
    {signs : List (List Sign × List Sign)} {testForms : List FormId} (issued : s.Issued terms)
    (tested : s.Issued testForms) :
    (ofTables s terms signs testForms).Answered fun _ => True := by
  rw [ofTables]
  refine .guard fun _ => .bind (.mapM (Q := s.Issued) fun ⟨⟨t, sign⟩, i⟩ member => ?_)
    fun equations held => (create_answered closed (issued_list.2 held) tested).any
  have memberT := (List.of_mem_zip (List.fst_mem_of_mem_zipIdx member)).1
  obtain ⟨left, right⟩ := issued_pair.1 (issued_list.1 issued t memberT)
  exact .bind (signSide_answered left) fun _ left => .bind (signSide_answered right) fun _ right =>
    .pure (issued_pair.2 ⟨left, right⟩)

variable {w : WeakFormulation} (issued : s.Issued w)

include issued

theorem issued_equations : s.Issued w.equations :=
  (issued_pair.1 (issued_pair.1 issued).2).1

theorem issued_testForms : s.Issued w.testForms :=
  (issued_pair.1 (issued_pair.1 (issued_pair.1 issued).2).2).1

theorem issued_unknowns : s.Issued w.unknowns :=
  (issued_pair.1 (issued_pair.1 (issued_pair.1 issued).2).2).2

theorem withUnknowns_answered (closed : s.Closed) {unknowns : List FormId}
    (new : s.Issued unknowns) : (w.withUnknowns s unknowns).Answered s.Issued := by
  refine .bind (.forM fun u member => ?_) fun _ _ => .pure ?_
  · refine .bind (closed.form_answered (issued_list.1 new u member)) fun f _ => ?_
    split
    · exact .reject
    · exact trivial
  · exact issued_pair.2 ⟨(issued_pair.1 issued).1, issued_pair.2
      ⟨issued_equations issued, issued_pair.2 ⟨issued_testForms issued, new⟩⟩⟩

omit issued in
theorem locate_answered (address : String) : (w.locate address).Answered fun _ => True := by
  refine .bind (Position.read_answered address) fun position _ => ?_
  split
  · exact .reject
  · split
    · exact .reject
    · exact trivial

theorem term_answered (address : String) : (w.term address).Answered s.Issued := by
  refine .bind (Position.read_answered address) fun position _ => ?_
  split
  · exact .reject
  · rename_i e found
    split
    · exact .reject
    · rename_i t listed
      have held := issued_list.1 (issued_equations issued) e (List.mem_of_getElem? found)
      exact .pure (Equation.issued_get? held listed)

theorem elementaryForms_answered : (w.elementaryForms s).Answered s.Issued := by
  refine .bind (.mapM (Q := s.Issued) fun t member => ?_) fun sets held => .pure ?_
  · obtain ⟨e, listed, within⟩ := List.mem_flatMap.1 member
    exact Term.elementaryForms_answered
      (Equation.issued_terms.1 (issued_list.1 (issued_equations issued) e listed) t within)
  · refine issued_ids.2 fun id member => ?_
    obtain ⟨set, listed, within⟩ := IdSet.mem_unions.1 member
    exact issued_ids.1 (held set listed) id within

theorem splice_answered (closed : s.Closed) {equation : Nat} {side : Side} {place : Nat}
    {terms : List (Signed Term)} (new : s.Issued terms) :
    (w.splice s equation side place terms).Answered fun _ => True := by
  refine .bind (check_answered closed (issued_list.2 fun e member => ?_)
    (issued_testForms issued)) fun _ _ => .pure trivial
  obtain ⟨i, found⟩ := List.mem_iff_getElem?.1 member
  rw [List.getElem?_modify] at found
  obtain ⟨old, listed, rfl⟩ := Option.map_eq_some_iff.1 found
  have held := issued_list.1 (issued_equations issued) old (List.mem_of_getElem? listed)
  split
  · exact Equation.issued_splice held side place new
  · exact held

theorem integrateByParts_answered (closed : s.Closed) (address : String) :
    (w.integrateByParts address).Answered s fun _ _ => True := by
  refine .lift_bind (locate_answered address) fun place _ => ?_
  refine .lift_bind (term_answered issued address) fun t held => ?_
  refine .get_bind (.lift_bind (Term.codifferentiated?_answered held closed) fun a known => ?_)
  cases a with
  | none => exact .reject
  | some a =>
    refine .bind (Term.greenTerms_grows _ _)
      (Term.greenTerms_answered closed known (Term.issued_second held))
      fun terms s' steps new => .get_bind (.lift ?_)
    obtain ⟨volume, boundary⟩ := issued_pair.1 new
    refine splice_answered (issued.later steps) (closed.later steps) ?_
    exact issued_cons.2 ⟨volume, issued_singleton.2 boundary⟩

end WeakFormulation

/-! ## Splitting -/

/-- A piece refers to its form and its factor. -/
instance : Refers Piece := ⟨fun piece => references (piece.form, piece.factor)⟩

theorem Piece.issued_zip? {forms : List FormId} {signs : List Sign}
    {factors : Option (List ScalarOperand)} {pieces : List Piece} (issued : s.Issued forms)
    (multiples : s.Issued factors) (zipped : zip? forms signs factors = some pieces) :
    s.Issued pieces := by
  unfold zip? at zipped
  split at zipped
  · cases zipped
  · refine issued_list.2 fun piece member => ?_
    split at zipped
    · cases zipped
      obtain ⟨i, found⟩ := List.mem_iff_getElem?.1 member
      obtain ⟨f, sign, listed, -, rfl⟩ := List.getElem?_zipWith_eq_some.1 found
      exact issued_pair.2 ⟨issued_list.1 issued f (List.mem_of_getElem? listed), issued_none⟩
    · rename_i factors
      split at zipped
      · cases zipped
      · cases zipped
        obtain ⟨i, found⟩ := List.mem_iff_getElem?.1 member
        obtain ⟨p, factor, listed, listed', rfl⟩ := List.getElem?_zipWith_eq_some.1 found
        have form := (List.of_mem_zip (List.mem_of_getElem? listed)).1
        exact issued_pair.2 ⟨issued_list.1 issued p.1 form,
          issued_list.1 (issued_option.1 multiples factors rfl) factor
            (List.mem_of_getElem? listed')⟩

theorem Piece.term_answered (closed : s.Closed) {piece : Piece} {t : Signed Term}
    (issued : s.Issued piece) (old : s.Issued t) (slot : Slot) :
    (piece.term t slot).Answered s Issued := by
  obtain ⟨form, factor⟩ := issued_pair.1 issued
  rw [term]
  cases given : piece.factor with
  | none =>
    exact .bind .pure (.pure form) fun f s' steps new => .get_bind (.lift_bind
      (Term.withForm_answered (closed.later steps) (old.later steps) new) fun _ held => .pure held)
  | some amount =>
    exact .bind (Form.scale_grows _ _)
      (Form.scale_answered closed (issued_option.1 factor amount given) form)
      fun f s' steps new => .get_bind (.lift_bind
        (Term.withForm_answered (closed.later steps) (old.later steps) new) fun _ held =>
          .pure held)

theorem WeakFormulation.split_answered (closed : s.Closed) {w : WeakFormulation}
    (issued : s.Issued w) (address : String) (slot : Slot) {forms : List FormId}
    (signs : List Sign) {factors : Option (List ScalarOperand)} (new : s.Issued forms)
    (multiples : s.Issued factors) :
    (w.split address slot forms signs factors).Answered s fun _ _ => True := by
  rw [split]
  cases zipped : Piece.zip? forms signs factors with
  | none => exact .reject
  | some pieces =>
    have given := issued_list.1 (Piece.issued_zip? new multiples zipped)
    refine .lift_bind (locate_answered address) fun place _ => ?_
    refine .lift_bind (term_answered issued address) fun old held => ?_
    refine .bind (.mapM (fun piece _ => Piece.term_grows piece old slot) _ _)
      (.mapM (fun piece _ => Piece.term_grows piece old slot) fun piece member s' steps =>
        Piece.term_answered (closed.later steps) ((given piece member).later steps)
          (held.later steps) slot) fun terms s' steps terms' => .get_bind (.lift ?_)
    exact splice_answered (issued.later steps) (closed.later steps) terms'

/-! ## Rearranging -/

namespace Rearrangement

theorem readSide_answered {pattern : String} {side : List Char} :
    (readSide pattern side).Answered fun _ => True := by
  rw [readSide]
  split
  · exact trivial
  · refine .any (P := fun positions => ∀ n ∈ positions, True) (.mapM fun piece _ => ?_)
    split
    · exact trivial
    · exact .reject

theorem read_answered {pattern : String} : (read pattern).Answered fun _ => True := by
  rw [read]
  split
  · exact .bind readSide_answered fun _ _ => .bind readSide_answered fun _ _ => trivial
  · exact .reject

theorem checkDistinct_answered {pattern : String} {equation size : Nat} (seen rest : List Nat) :
    (checkDistinct pattern equation size seen rest).Answered fun _ => True := by
  induction rest generalizing seen with
  | nil => exact trivial
  | cons position rest ih =>
    rw [checkDistinct]
    split
    · exact .reject
    · split
      · exact .reject
      · exact ih _

theorem checkComplete_answered {pattern : String} {equation size : Nat} {positions : List Nat} :
    (checkComplete pattern equation size positions).Answered fun _ => True := by
  rw [checkComplete]
  split
  · exact .reject
  · exact trivial

theorem apply_answered {α : Type} {pattern : String} {equation : Nat} {e : Equation α} :
    (apply pattern equation e).Answered fun _ => True :=
  .bind read_answered fun _ _ => .bind (checkDistinct_answered _ _) fun _ _ =>
    .bind checkComplete_answered fun _ _ => trivial

end Rearrangement

theorem WeakFormulation.rearrange_answered {w : WeakFormulation} {rules : List (Nat × String)} :
    (w.rearrange rules).Answered fun _ => True := by
  refine .bind (.foldlM (Q := fun _ => True) trivial fun equations _ rule _ => ?_)
    fun _ _ => trivial
  dsimp only
  split
  · exact .reject
  · exact .bind Rearrangement.apply_answered fun _ _ => trivial

/-! ## Systems of partial differential equations -/

namespace Pde

section Creation

variable (closed : s.Closed)

include closed

theorem equationMesh_answered {equation : Nat} {e : Equation FormId} (issued : s.Issued e) :
    (equationMesh s equation e).Answered s.Issued := by
  have each := Equation.issued_terms.1 issued
  rw [equationMesh]
  split
  · exact .reject
  · rename_i first rest listed
    rw [listed] at each
    refine .bind (closed.form_answered (each first List.mem_cons_self)) fun f held => ?_
    refine .bind (.forM fun other member => ?_) fun _ _ =>
      .bind (closed.space_answered (issued_pair.1 held).1) fun _ mesh => .pure mesh
    refine .bind (closed.form_answered (each other (List.mem_cons_of_mem _ member))) fun g _ => ?_
    split
    · exact .reject
    · exact trivial

theorem commonMesh_answered {equations : List (Equation FormId)} (issued : s.Issued equations)
    (equation : Nat) {mesh : Option MeshId} (known : s.Issued mesh) :
    (commonMesh s equation mesh equations).Answered s.Issued := by
  induction equations generalizing equation mesh with
  | nil => exact known
  | cons e rest ih =>
    obtain ⟨first, others⟩ := issued_cons.1 issued
    refine .bind (equationMesh_answered closed first) fun own held => .guard fun _ => ?_
    exact ih others _ held

theorem create_answered {equations : List (Equation FormId)} (issued : s.Issued equations) :
    (create s equations).Answered s.Issued := by
  refine .bind (commonMesh_answered closed issued 0 issued_none) fun mesh held => ?_
  cases mesh with
  | none => exact .reject
  | some mesh => exact .pure (issued_pair.2 ⟨held, issued_pair.2 ⟨issued, issued_none⟩⟩)

end Creation

section Inspection

variable {p : Pde} (issued : s.Issued p)

include issued

theorem issued_equations : s.Issued p.equations :=
  (issued_pair.1 (issued_pair.1 issued).2).1

theorem issued_unknowns : s.Issued p.unknowns :=
  (issued_pair.1 (issued_pair.1 issued).2).2

theorem elementaryForms_answered : (p.elementaryForms s).Answered fun _ => True := by
  refine .bind (.mapM (Q := s.Issued) fun t member => ?_) fun _ _ => .pure trivial
  obtain ⟨e, listed, within⟩ := List.mem_flatMap.1 member
  exact s.elementaryForms_answered
    (Equation.issued_terms.1 (issued_list.1 (issued_equations issued) e listed) t within)

theorem withUnknowns_answered (closed : s.Closed) {unknowns : List FormId}
    (new : s.Issued unknowns) : (p.withUnknowns s unknowns).Answered fun _ => True := by
  refine .bind (elementaryForms_answered issued) fun elementary _ => ?_
  refine .bind (.forM fun u member => ?_) fun _ _ => .pure trivial
  split
  · exact .bind (closed.form_answered (issued_list.1 new u member)) fun _ _ => .reject
  · exact trivial

end Inspection

theorem testSide_answered (closed : s.Closed) {testForm : FormId} {side : List (Signed FormId)}
    (tested : s.Issued testForm) (issued : s.Issued side) :
    (testSide s testForm side).Answered s.Issued :=
  .mono (.mapM (Q := s.Issued) fun t member =>
    .bind (Term.create_answered closed .innerProduct (issued_list.1 issued t member) tested)
      fun _ held => .pure held) fun _ => issued_list.2

theorem testEquation_answered (closed : s.Closed) {e : Equation FormId} {space : SpaceId}
    (labels : Labels) (issued : s.Issued e) (known : s.Issued space) :
    (testEquation e space labels).Answered s Issued := by
  refine .bind (Form.root_grows _ _) (Form.root_answered known)
    fun testForm s' steps tested => .get_bind ?_
  obtain ⟨left, right⟩ := issued_pair.1 (issued.later steps)
  exact .lift_bind (testSide_answered (closed.later steps) tested left) fun _ left' =>
    .lift_bind (testSide_answered (closed.later steps) tested right) fun _ right' =>
      .pure (issued_pair.2 ⟨issued_pair.2 ⟨left', right'⟩, tested⟩)

theorem test_answered (closed : s.Closed) {p : Pde} {spaces : List SpaceId}
    (labels : List Labels) (issued : s.Issued p) (known : s.Issued spaces) :
    (p.test spaces labels).Answered s fun _ _ => True := by
  rw [test]
  refine .guard fun _ => .bind (.mapM (fun _ _ => testEquation_grows _ _ _) _ _)
    (.mapM (fun _ _ => testEquation_grows _ _ _) fun entry member s' steps => ?_)
    fun tested s' steps held => .get_bind ?_
  · obtain ⟨⟨e, space⟩, labels⟩ := entry
    obtain ⟨memberE, memberS⟩ := List.of_mem_zip (List.of_mem_zip member).1
    exact testEquation_answered (closed.later steps) labels
      ((issued_list.1 (issued_equations issued) e memberE).later steps)
      ((issued_list.1 known space memberS).later steps)
  · have equations : s'.Issued (tested.map (·.1)) := issued_list.2 <|
      List.forall_mem_map.2 fun x member => (issued_pair.1 (issued_list.1 held x member)).1
    have testForms : s'.Issued (tested.map (·.2)) := issued_list.2 <|
      List.forall_mem_map.2 fun x member => (issued_pair.1 (issued_list.1 held x member)).2
    refine .lift_bind (WeakFormulation.create_answered (closed.later steps) equations testForms)
      fun w created => ?_
    cases given : p.unknowns with
    | none => exact .pure trivial
    | some unknowns =>
      have forms := (issued_option.1 (issued_unknowns issued) unknowns given).later steps
      exact .lift (WeakFormulation.withUnknowns_answered created (closed.later steps) forms).any

theorem portHamiltonian_answered (closed : s.Closed) (n p : Nat) :
    (portHamiltonian n p).Answered s fun _ _ => True := by
  rw [portHamiltonian]
  refine .guard fun _ => .bind (Manifold.create_grows n) (Manifold.create_answered n)
    fun manifold s₁ steps₁ held₁ => ?_
  have closed₁ := closed.later steps₁
  refine .bind (Mesh.cover_grows _) (Mesh.cover_answered closed₁ held₁)
    fun mesh s₂ steps₂ held₂ => ?_
  have closed₂ := closed₁.later steps₂
  refine .bind (Space.on_grows _ _ _) (Space.withDegree_answered closed₂ held₂)
    fun spaceA s₃ steps₃ held₃ => ?_
  have closed₃ := closed₂.later steps₃
  refine .bind (Space.on_grows _ _ _) (Space.withDegree_answered closed₃ (held₂.later steps₃))
    fun spaceB s₄ steps₄ held₄ => ?_
  refine .bind (Form.root_grows _ _) (Form.root_answered (held₃.later steps₄))
    fun a s₅ steps₅ held₅ => ?_
  refine .bind (Form.root_grows _ _) (Form.root_answered (held₄.later steps₅))
    fun b s₆ steps₆ held₆ => ?_
  have closed₆ := closed₃.later ((steps₄.trans steps₅).trans steps₆)
  have heldA := held₅.later steps₆
  refine .bind (Form.apply_grows _ _) (Form.apply_answered closed₆ .timeDerivative heldA)
    fun rateA s₇ steps₇ held₇ => ?_
  have closed₇ := closed₆.later steps₇
  refine .bind (Form.apply_grows _ _)
    (Form.apply_answered closed₇ .timeDerivative (held₆.later steps₇))
    fun rateB s₈ steps₈ held₈ => ?_
  have closed₈ := closed₇.later steps₈
  refine .bind (Form.apply_grows _ _) (Form.apply_answered closed₈ .derivative
    (held₆.later (steps₇.trans steps₈))) fun db s₉ steps₉ held₉ => ?_
  have closed₉ := closed₈.later steps₉
  have later := (steps₇.trans steps₈).trans steps₉
  refine .bind (Form.apply_grows _ _) (Form.apply_answered closed₉ .codifferential
    (heldA.later later)) fun deltaA s' steps' held' => .get_bind ?_
  have closed' := closed₉.later steps'
  have equation {x y : FormId} (sign : Sign) (first : s'.Issued x) (second : s'.Issued y) :
      s'.Issued (⟨[⟨.plus, x⟩], [⟨sign, y⟩]⟩ : Equation FormId) :=
    issued_pair.2 ⟨issued_singleton.2 first, issued_singleton.2 second⟩
  have system := Pde.create_answered closed' (issued_cons.2
    ⟨equation .plus (held₇.later ((steps₈.trans steps₉).trans steps')) (held₉.later steps'),
      issued_singleton.2 (equation .minus (held₈.later (steps₉.trans steps')) held')⟩)
  have unknowns : s'.Issued [a, b] := issued_cons.2
    ⟨heldA.later (later.trans steps'), issued_singleton.2 (held₆.later (later.trans steps'))⟩
  exact .lift_bind system fun _ created =>
    .lift_bind (withUnknowns_answered created closed' unknowns) fun _ _ => .pure trivial

end Pde

namespace Pde.Expression

variable {expression : String} {names : List (String × FormId)}
  (issued : s.Issued (names.map (·.2)))

include issued

theorem lookup_answered {name : List Char} : (lookup expression names name).Answered s.Issued := by
  rw [lookup]
  split
  · rename_i f found
    exact issued_list.1 issued f (List.mem_map_of_mem (List.mem_of_find?_eq_some found))
  · exact .reject

theorem readTerms_answered (sign : Sign) (name cs : List Char) :
    (readTerms expression names sign name cs).Answered s.Issued := by
  induction cs generalizing sign name with
  | nil =>
    cases name with
    | nil => exact .reject
    | cons c name =>
      exact .bind (lookup_answered issued) fun f held =>
        .pure (issued_singleton.2 held)
  | cons c rest ih =>
    rw [readTerms]
    split
    · exact ih _ _
    · split
      · exact ih _ _
      · exact .bind (lookup_answered issued) fun f held => .bind (ih _ _) fun terms held' =>
          .pure (issued_cons.2 ⟨held, held'⟩)

theorem readSide_answered {side : List Char} :
    (readSide expression names side).Answered s.Issued := by
  rw [readSide]
  split
  · exact issued_nil
  · exact readTerms_answered issued _ _ _

theorem read_answered : (read names expression).Answered s.Issued := by
  rw [read]
  split
  · exact .bind (readSide_answered issued) fun _ left => .bind (readSide_answered issued)
      fun _ right => .pure (issued_pair.2 ⟨left, right⟩)
  · exact .reject

end Pde.Expression

theorem Pde.ofExpressions_answered (closed : s.Closed) {names : List (String × FormId)}
    (expressions : List String) (issued : s.Issued (names.map (·.2))) :
    (ofExpressions s names expressions).Answered fun _ => True :=
  .bind (.mapM (Q := s.Issued) fun _ _ => Expression.read_answered issued) fun _ held =>
    (create_answered closed (issued_list.2 held)).any

/-! ## Ordinary differential equations -/

namespace Ode

section Creation

variable (closed : s.Closed)

include closed

theorem classify_answered {t : Signed Term} (issued : s.Issued t) :
    (classify s t).Answered s.Issued :=
  .bind (Term.pattern?_answered issued closed) fun _ _ => .pure issued

theorem differentiated?_answered {t : OdeTerm} (issued : s.Issued t) :
    (differentiated? s t).Answered s.Issued := by
  rw [differentiated?]
  split
  · exact .pure issued_none
  · refine .bind (closed.form_answered (Term.issued_first issued)) fun a held => ?_
    split
    · rename_i u shape
      exact .pure (held.operand (f := u) (by simp [shape, FormExpr.operands]))
    · exact .pure issued_none

omit closed in
theorem commonTestForm_answered {terms : List Term} (issued : s.Issued terms) :
    (commonTestForm s terms).Answered fun _ => True := by
  refine .bind (.mapM (Q := fun _ => True) fun t member =>
    Term.testForm?_answered (issued_list.1 issued t member)) fun tested _ => ?_
  split
  · split
    · exact trivial
    · exact .reject
  · exact .reject

theorem create_answered {left right : List (Signed Term)} (first : s.Issued left)
    (second : s.Issued right) : (create s left right).Answered fun _ => True := by
  refine .bind (.mapM (Q := s.Issued) fun t member =>
    classify_answered closed (issued_list.1 first t member)) fun left' held => ?_
  refine .bind (.mapM (Q := s.Issued) fun t member =>
    classify_answered closed (issued_list.1 second t member)) fun right' held' => ?_
  have terms : s.Issued ((left' ++ right').map (·.value)) :=
    issued_list.2 (List.forall_mem_map.2 (List.forall_mem_append.2 ⟨held, held'⟩))
  refine .bind (.mapM (Q := s.Issued) fun t member =>
    differentiated?_answered closed (issued_list.1 terms t member)) fun forms known => ?_
  have differentiated : s.Issued (IdSet.ofList (forms.filterMap id)) := by
    refine issued_ids.2 fun u member => ?_
    obtain ⟨found, listed, same⟩ := List.mem_filterMap.1 (IdSet.mem_ofList.1 member)
    exact issued_option.1 (known found listed) u same
  dsimp only
  split
  · exact .reject_bind
  · refine .bind (P := fun _ => True) (.pure trivial) fun u _ => ?_
    refine .bind (commonTestForm_answered (issued_list.2 (List.forall_mem_map.2 fun t member =>
      issued_list.1 terms t member))) fun v _ => ?_
    exact .bind (.mapM (Q := s.Issued) fun t member =>
      Term.elementaryForms_answered (issued_list.1 terms t member)) fun _ _ => .pure trivial
  · exact .bind (.mapM (Q := s.Issued) fun f member =>
      closed.form_answered (issued_ids.1 differentiated f member)) fun _ _ => .reject_bind

end Creation

theorem withConstants_answered (closed : s.Closed) {o : Ode} {forms : List FormId}
    (issued : s.Issued forms) : (o.withConstants s forms).Answered fun _ => True := by
  refine .bind (.forM fun f member => ?_) fun _ _ => .pure trivial
  split
  · exact .bind (closed.form_answered (issued_list.1 issued f member)) fun _ _ => .reject
  · exact trivial

theorem locate_answered {o : Ode} (issued : s.Issued o) (address : String) :
    (o.locate address).Answered fun found => s.Issued found.2 := by
  rw [locate]
  split
  · exact .reject
  · split
    · rename_i position _ t found
      exact Equation.issued_get? (issued_pair.1 issued).1 found
    · exact .reject

end Ode

theorem WeakFormulation.ode_answered (closed : s.Closed) {w : WeakFormulation}
    (issued : s.Issued w) (equation : Nat) : (w.ode s equation).Answered fun _ => True := by
  rw [ode]
  split
  · exact .reject
  · rename_i e found
    have held := issued_list.1 (issued_equations issued) e (List.mem_of_getElem? found)
    exact Ode.create_answered closed (issued_pair.1 held).1 (issued_pair.1 held).2

end Variational
