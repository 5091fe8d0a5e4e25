import Variational.Proofs.Admissible.Entities
import Variational.WeakForm.Derivation

/-!
# Arrays and terms that are answered

Arrays, products and terms are built from, looked into and converted with ids that the session
issued, and the ids in what they give are issued.
-/

namespace Variational

open Session
open Refers (references)

variable {s : Session}

/-- A converted term refers to what its product refers to. -/
instance : Refers Conversion where
  references
    | .converted product => references product
    | .unsupported _ => []

/-! ## Arrays -/

namespace RootArray

theorem register_answered (closed : s.Closed) {array : RootArray} :
    (register array).Answered s Issued := by
  refine .get_bind ?_
  cases known : s.arrayLabels.byLin? array.pureLin with
  | some existing => exact .pure (issued_of_byLin? closed.arrayLabels known)
  | none =>
    exact .lift_bind LabelIndex.checkAvailable_answered fun _ _ => .set_bind (.pure
      (issued_of_found (x := array) rfl Arena.get?_push_nextId))

theorem registerNumbered_answered (closed : s.Closed) {array : RootArray} :
    (registerNumbered array).Answered s Issued :=
  .get_bind (register_answered closed)

theorem vector_answered (closed : s.Closed) {f : FormId} (issued : s.Issued f) :
    (vector f).Answered s Issued := by
  refine .get_bind (.lift_bind (closed.form_answered issued) fun form held => ?_)
  cases form.pureLin with
  | none => exact .reject
  | some lin =>
    exact .lift_bind (dofLabel_answered closed (issued_pair.1 held).1) fun _ _ =>
      register_answered closed

theorem massMatrix_answered (closed : s.Closed) {space : SpaceId} (issued : s.Issued space) :
    (massMatrix space).Answered s Issued :=
  .get_bind (.lift_bind (dofLabel_answered closed issued) fun _ _ =>
    .lift_bind (closed.space_answered issued) fun _ _ => registerNumbered_answered closed)

theorem incidenceMatrix_answered (closed : s.Closed) {space : SpaceId}
    (issued : s.Issued space) : (incidenceMatrix space).Answered s Issued := by
  refine .bind (Space.derivative_grows space) (Space.derivative_answered closed issued)
    fun target mid steps known => .get_bind ?_
  have later := closed.later steps
  exact .lift_bind (dofLabel_answered later (issued.later steps)) fun _ _ =>
    .lift_bind (dofLabel_answered later known) fun _ _ =>
    .lift_bind (later.space_answered (issued.later steps)) fun _ _ =>
      registerNumbered_answered later

theorem wedgeVector_answered (closed : s.Closed) {f : FormId} {space : SpaceId}
    (issued : s.Issued f) (tested : s.Issued space) : (wedgeVector f space).Answered s Issued := by
  refine .get_bind (.lift_bind (dofLabel_answered closed tested) fun rows _ =>
    .lift_bind (closed.form_answered issued) fun form _ => ?_)
  cases form.pureLin with
  | none => exact .reject
  | some lin =>
    exact .lift_bind (closed.space_answered tested) fun _ _ => register_answered closed

end RootArray

/-! ## Products -/

theorem Session.link_answered {array : ArrayId} {transposed : Bool} (issued : s.Issued array) :
    (s.link array transposed).Answered s.Issued :=
  .bind (array_answered issued) fun _ _ => .pure issued

namespace Product

theorem single_answered (closed : s.Closed) {array : ArrayId} (issued : s.Issued array) :
    (single array).Answered s Issued := by
  refine .bind Scalar.unit_grows (Scalar.unit_answered closed) fun factor mid steps known =>
    .get_bind (.lift_bind (link_answered (issued.later steps)) fun link held => .pure ?_)
  exact issued_pair.2 ⟨known, issued_singleton.2 held⟩

theorem create_answered {factor : ScalarId} {chain : List Link} (known : s.Issued factor)
    (issued : s.Issued chain) : (create factor chain).Answered s.Issued := by
  rw [create]
  split
  · exact .reject
  · exact issued_pair.2 ⟨known, issued⟩

variable {p : Product} (issued : s.Issued p)

include issued

theorem array_answered_of_mem {link : Link} (member : link ∈ p.chain) :
    (s.array link.array).Answered fun _ => True :=
  array_answered (issued_list.1 (issued_pair.1 issued).2 link member)

theorem isLinear_answered : (p.isLinear s).Answered fun _ => True :=
  .bind (.filterM fun _ member => .bind
    (array_answered_of_mem issued (List.mem_of_mem_filter member)) fun _ _ => trivial)
    fun _ _ => trivial

theorem sym_answered : (p.sym s).Answered fun _ => True :=
  .bind (scalar_answered (issued_pair.1 issued).1) fun _ _ => .bind (.mapM fun _ member =>
    .bind (Q := fun _ => True) (array_answered_of_mem issued member) fun _ _ => trivial)
    fun _ _ => trivial

theorem lin_answered : (p.lin s).Answered fun _ => True :=
  .bind (.mapM fun _ member =>
    .bind (Q := fun _ => True) (array_answered_of_mem issued member) fun _ _ => trivial)
    fun _ _ => .bind (scalar_answered (issued_pair.1 issued).1) fun _ _ => trivial

end Product

/-! ## Terms -/

theorem Session.Issued.operand {a : Form} (issued : s.Issued a) {f : FormId}
    (member : f ∈ a.expr.operands) : s.Issued f :=
  issued_id.2 ((issued_pair.1 issued).2.holds f member)

theorem Session.issued_ids {kind : EntityKind} {ids : IdSet kind} :
    s.Issued ids ↔ ∀ id ∈ ids, s.Issued id :=
  issued_list

namespace Term

theorem create_answered (closed : s.Closed) (kind : TermKind) {f1 f2 : FormId}
    (first : s.Issued f1) (second : s.Issued f2) :
    (create s kind f1 f2).Answered s.Issued := by
  refine .bind (closed.form_answered first) fun a held => ?_
  refine .bind (closed.form_answered second) fun b held' => ?_
  refine .bind (closed.space_answered (issued_pair.1 held).1) fun sa mesh => ?_
  refine .bind (closed.space_answered (issued_pair.1 held').1) fun sb _ => .guard fun _ => ?_
  refine .bind (closed.mesh_answered mesh) fun m _ => ?_
  have fits : (checkDegrees kind sa sb m).Answered fun _ => True := by
    cases kind with
    | innerProduct | dualityPairing =>
      rw [checkDegrees]
      split
      · exact .reject
      · exact trivial
  exact .bind fits fun _ _ => .pure (issued_pair.2 ⟨first, issued_pair.2 ⟨second, mesh⟩⟩)

theorem isRoot_answered (closed : s.Closed) {f : FormId} (issued : s.Issued f) :
    (isRoot s f).Answered fun _ => True :=
  .bind (closed.form_answered issued) fun _ _ => trivial

section Inspection

variable {t : Term} (issued : s.Issued t)

include issued

theorem issued_first : s.Issued t.f1 :=
  (issued_pair.1 issued).1

theorem issued_second : s.Issued t.f2 :=
  (issued_pair.1 (issued_pair.1 issued).2).1

theorem issued_mesh : s.Issued t.mesh :=
  (issued_pair.1 (issued_pair.1 issued).2).2

theorem elementaryForms_answered : (t.elementaryForms s).Answered s.Issued := by
  refine .bind (s.elementaryForms_answered (issued_first issued)) fun first held => ?_
  refine .bind (s.elementaryForms_answered (issued_second issued)) fun second held' => ?_
  refine .pure (issued_ids.2 fun id member => ?_)
  rcases IdSet.mem_union.1 member with left | right
  · exact issued_ids.1 held id left
  · exact issued_ids.1 held' id right

theorem testForm?_answered : (t.testForm? s).Answered fun _ => True :=
  testedForm?_answered (issued_second issued)

theorem pattern?_answered (closed : s.Closed) : (t.pattern? s).Answered fun _ => True := by
  refine .bind (closed.form_answered (issued_first issued)) fun a held => ?_
  refine .bind (closed.form_answered (issued_second issued)) fun b held' => ?_
  split
  · -- an inner product: the first form decides, then the second
    split
    · rename_i u shape
      have inner :=
        isRoot_answered closed (held.operand (f := u) (by simp [shape, FormExpr.operands]))
      exact .bind inner fun _ _ => by split <;> exact trivial
    · exact trivial
    · rename_i u shape
      have inner :=
        isRoot_answered closed (held.operand (f := u) (by simp [shape, FormExpr.operands]))
      exact .bind inner fun _ _ => by split <;> exact trivial
    · split
      · exact trivial
      · split
        · exact trivial
        · split
          · rename_i v shape
            have inner :=
              isRoot_answered closed (held'.operand (f := v) (by simp [shape, FormExpr.operands]))
            exact .bind inner fun _ _ => by split <;> exact trivial
          · exact trivial
  · -- a pairing of two traces
    split
    · rename_i h v shape shape'
      have traced : s.Issued h := held.operand (by simp [shape, FormExpr.operands])
      have tested : s.Issued v := held'.operand (by simp [shape', FormExpr.operands])
      refine .bind (isRoot_answered closed tested) fun _ _ => ?_
      split
      · exact trivial
      · refine .bind (closed.form_answered traced) fun c held'' => ?_
        split
        · rename_i u shape''
          have inner :=
            isRoot_answered closed (held''.operand (f := u) (by simp [shape'', FormExpr.operands]))
          exact .bind inner fun _ _ => by split <;> exact trivial
        · exact trivial
    · exact trivial

theorem codifferentiated?_answered (closed : s.Closed) :
    (t.codifferentiated? s).Answered s.Issued := by
  refine .bind (closed.form_answered (issued_first issued)) fun a held => ?_
  split
  · rename_i f _ shape
    exact .pure (held.operand (f := f) (by simp [shape, FormExpr.operands]))
  · exact .pure issued_none

theorem replace_answered (closed : s.Closed) {target replacement : FormId}
    (old : s.Issued target) (new : s.Issued replacement) :
    (t.replace target replacement).Answered s Issued := by
  refine .bind (Form.replace_grows _ _ _)
    (Form.replace_answered closed (issued_first issued) old new) fun f1 mid steps first => ?_
  refine .bind (Form.replace_grows _ _ _) (Form.replace_answered (closed.later steps)
    ((issued_second issued).later steps) (old.later steps) (new.later steps))
    fun f2 s' later second => ?_
  split
  · exact .pure (issued.later (steps.trans later))
  · exact .get_bind (.lift_bind (create_answered ((closed.later steps).later later) t.kind
      (first.later later) second) fun _ held => .pure held)

end Inspection

/-! ## Converting terms -/

theorem splitFactor_answered (closed : s.Closed) {f : FormId} (issued : s.Issued f) :
    (splitFactor f).Answered s Issued := by
  refine .get_bind (.lift_bind (closed.form_answered issued) fun a held => ?_)
  have operands : s.Issued a.expr := (issued_pair.1 held).2
  split
  · rename_i c g shape
    rw [shape] at operands
    exact .pure (issued_pair.2 (issued_pair.1 operands).symm)
  · rename_i g c shape
    rw [shape] at operands
    obtain ⟨dividend, divisor⟩ := issued_pair.1 operands
    exact .bind (Scalar.div_grows _ _)
      (Scalar.div_answered closed (issued_of_references_eq_nil rfl) divisor) fun _ _ steps known =>
        .pure (issued_pair.2 ⟨known, dividend.later steps⟩)
  · exact .bind Scalar.unit_grows (Scalar.unit_answered closed) fun _ _ steps known =>
      .pure (issued_pair.2 ⟨known, issued.later steps⟩)

theorem formChain_answered (closed : s.Closed) {g : FormId} (issued : s.Issued g) :
    (formChain g).Answered s Issued := by
  refine .get_bind (.lift_bind (closed.form_answered issued) fun form held => ?_)
  have space : s.Issued form.space := (issued_pair.1 held).1
  split
  · refine .bind (RootArray.massMatrix_grows _) (RootArray.massMatrix_answered closed space)
      fun mass mid steps known => ?_
    refine .bind (RootArray.vector_grows _) (RootArray.vector_answered (closed.later steps)
      (issued.later steps)) fun vector s' later known' => .get_bind ?_
    exact .lift_bind (link_answered (known.later later)) fun first linked =>
      .lift_bind (link_answered known') fun second linked' =>
        .pure (issued_list.2 (by simpa using ⟨linked, linked'⟩))
  · split
    · rename_i r shape
      have inner : s.Issued r := held.operand (by simp [shape, FormExpr.operands])
      refine .get_bind (.lift_bind (closed.form_answered inner) fun a held' => ?_)
      split
      · exact .pure issued_none
      · refine .bind (RootArray.massMatrix_grows _) (RootArray.massMatrix_answered closed space)
          fun mass s₁ steps₁ known₁ => ?_
        refine .bind (RootArray.incidenceMatrix_grows _) (RootArray.incidenceMatrix_answered
          (closed.later steps₁) ((issued_pair.1 held').1.later steps₁))
          fun incidence s₂ steps₂ known₂ => ?_
        refine .bind (RootArray.vector_grows _) (RootArray.vector_answered
          ((closed.later steps₁).later steps₂) (inner.later (steps₁.trans steps₂)))
          fun vector s₃ steps₃ known₃ => .get_bind ?_
        exact .lift_bind (link_answered (known₁.later (steps₂.trans steps₃))) fun _ linked₁ =>
          .lift_bind (link_answered (known₂.later steps₃)) fun _ linked₂ =>
          .lift_bind (link_answered known₃) fun _ linked₃ =>
            .pure (issued_list.2 (by simpa using ⟨linked₁, linked₂, linked₃⟩))
    · exact .pure issued_none

section Conversion

variable {t : Term} {testForm : FormId} (closed : s.Closed) (issued : s.Issued t)
  (tested : s.Issued testForm)

include closed issued tested

theorem testChain_answered : (t.testChain testForm).Answered s Issued := by
  refine .bind (RootArray.vector_grows _) (RootArray.vector_answered closed tested)
    fun vector mid steps known => .get_bind ?_
  have later := closed.later steps
  refine .lift_bind (link_answered known) fun front linked => ?_
  split
  · exact .pure (issued_singleton.2 linked)
  · refine .get_bind (.lift_bind (later.form_answered ((issued_second issued).later steps))
      fun form _ => ?_)
    split
    · split
      · exact .pure issued_none
      · refine .get_bind (.lift_bind (later.form_answered (tested.later steps)) fun a held => ?_)
        refine .bind (RootArray.incidenceMatrix_grows _)
          (RootArray.incidenceMatrix_answered later (issued_pair.1 held).1)
          fun incidence s' steps' known' => .get_bind ?_
        exact .lift_bind (link_answered known') fun _ linked' =>
          .pure (issued_list.2 (by simpa using ⟨linked.later steps', linked'⟩))
    · exact .pure issued_none

theorem convertInnerProduct_answered : (t.convertInnerProduct testForm).Answered s Issued := by
  refine .bind (testChain_grows t testForm) (testChain_answered closed issued tested)
    fun front s₁ steps₁ held₁ => ?_
  cases front with
  | none => exact .pure (issued_of_references_eq_nil rfl)
  | some front =>
    refine .bind (splitFactor_grows _) (splitFactor_answered (closed.later steps₁)
      ((issued_first issued).later steps₁)) fun split s₂ steps₂ held₂ => ?_
    obtain ⟨factor, rest⟩ := issued_pair.1 held₂
    refine .bind (formChain_grows _) (formChain_answered ((closed.later steps₁).later steps₂) rest)
      fun core s₃ steps₃ held₃ => ?_
    cases core with
    | none => exact .pure (issued_of_references_eq_nil rfl)
    | some core =>
      have chain : s₃.Issued (front ++ core) :=
        issued_append.2 ⟨held₁.later (steps₂.trans steps₃), held₃⟩
      exact .lift_bind (Product.create_answered (factor.later steps₃) chain) fun _ held =>
        .pure held

omit tested in
theorem boundaryForm?_answered : (boundaryForm? s t testForm).Answered s.Issued := by
  refine .bind (closed.form_answered (issued_first issued)) fun a held => ?_
  refine .bind (closed.form_answered (issued_second issued)) fun b _ => ?_
  split
  · rename_i h v shape _
    have traced : s.Issued h := held.operand (by simp [shape, FormExpr.operands])
    split
    · exact .pure issued_none
    · refine .bind (closed.form_answered traced) fun c held' => ?_
      split
      · rename_i u shape'
        have inner : s.Issued u := held'.operand (by simp [shape', FormExpr.operands])
        refine .bind (isRoot_answered closed inner) fun _ _ => ?_
        split
        · exact .pure inner
        · exact .pure issued_none
      · exact .pure issued_none
  · exact .pure issued_none

theorem convertPairing_answered : (t.convertPairing testForm).Answered s Issued := by
  refine .get_bind (.lift_bind (boundaryForm?_answered closed issued) fun u held => ?_)
  cases u with
  | none => exact .pure (issued_of_references_eq_nil rfl)
  | some u =>
    have held : s.Issued u := held
    refine .bind (RootArray.vector_grows _) (RootArray.vector_answered closed tested)
      fun vector s₁ steps₁ known₁ => .get_bind ?_
    have later := closed.later steps₁
    refine .lift_bind (later.form_answered (tested.later steps₁)) fun a space => ?_
    refine .bind (RootArray.wedgeVector_grows _ _) (RootArray.wedgeVector_answered later
      (held.later steps₁) (issued_pair.1 space).1) fun boundary s₂ steps₂ known₂ => ?_
    refine .bind Scalar.unit_grows (Scalar.unit_answered (later.later steps₂))
      fun factor s₃ steps₃ known₃ => .get_bind ?_
    refine .lift_bind (link_answered (known₁.later (steps₂.trans steps₃))) fun first linked => ?_
    refine .lift_bind (link_answered (known₂.later steps₃)) fun second linked' => ?_
    have chain : s₃.Issued [first, second] := issued_list.2 (by simpa using ⟨linked, linked'⟩)
    exact .lift_bind (Product.create_answered known₃ chain) fun _ held => .pure held

theorem convert_answered : (t.convert testForm).Answered s Issued := by
  rw [convert]
  split
  · exact convertInnerProduct_answered closed issued tested
  · exact convertPairing_answered closed issued tested

end Conversion

/-! ## Integration by parts and splitting -/

theorem greenTerms_answered (closed : s.Closed) {a b : FormId} (first : s.Issued a)
    (second : s.Issued b) : (greenTerms a b).Answered s Issued := by
  refine .bind (Form.apply_grows _ _) (Form.apply_answered closed .derivative second)
    fun db s₁ steps₁ known₁ => .get_bind ?_
  have closed₁ := closed.later steps₁
  have first₁ := first.later steps₁
  refine .lift_bind (create_answered closed₁ .innerProduct first₁ known₁) fun volume held => ?_
  refine .bind (Form.apply_grows _ _) (Form.apply_answered closed₁ .hodge first₁)
    fun hodge s₂ steps₂ known₂ => ?_
  have closed₂ := closed₁.later steps₂
  refine .bind (Form.apply_grows _ _) (Form.apply_answered closed₂ .trace known₂)
    fun traceHodge s₃ steps₃ known₃ => ?_
  have closed₃ := closed₂.later steps₃
  refine .bind (Form.apply_grows _ _) (Form.apply_answered closed₃ .trace
    (second.later ((steps₁.trans steps₂).trans steps₃))) fun trace s₄ steps₄ known₄ => .get_bind ?_
  refine .lift_bind (create_answered (closed₃.later steps₄) .dualityPairing
    (known₃.later steps₄) known₄) fun boundary held' => ?_
  exact .pure (issued_pair.2 ⟨held.later ((steps₂.trans steps₃).trans steps₄), held'⟩)

theorem withForm_answered (closed : s.Closed) {t : Term} {slot : Slot} {f : FormId}
    (issued : s.Issued t) (new : s.Issued f) : (t.withForm s slot f).Answered s.Issued := by
  cases slot with
  | first => exact create_answered closed t.kind new (issued_second issued)
  | second => exact create_answered closed t.kind (issued_first issued) new

end Term

end Variational
