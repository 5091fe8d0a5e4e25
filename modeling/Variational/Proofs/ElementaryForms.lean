import Variational.Proofs.Terms
import Variational.WeakForm.Basic

/-!
# Elementary forms

A root form, evaluated or not, is its own elementary form, and a derived form has the
elementary forms of its operands. So every elementary form is a root form. A weak
formulation has the elementary forms of both forms of its terms.
-/

namespace Variational

variable {s s' : Session} {f r : FormId}

namespace Session

/-- A form is one of the root forms that another one is built from. -/
def Elementary (s : Session) (f r : FormId) : Prop :=
  ∃ ids, s.elementaryForms f = .ok ids ∧ r ∈ ids

theorem elementaryForms_total {form : Form} (found : s.forms.get? f = some form) :
    ∃ ids, s.elementaryForms f = .ok ids := by
  obtain ⟨held, -⟩ := List.getElem?_eq_some_iff.1 found
  exact ⟨_, dif_pos held⟩

theorem mem_elementaryForms {ids : IdSet .form} (run : s.elementaryForms f = .ok ids) :
    r ∈ ids ↔ s.Elementary f r := by
  constructor
  · exact fun member => ⟨ids, run, member⟩
  · rintro ⟨ids', run', member⟩
    cases run.symm.trans run'
    exact member

/-- A root form is its own elementary form, a derived form has those of its operands. -/
theorem elementary_iff {form : Form} (found : s.forms.get? f = some form) :
    s.Elementary f r ↔ form.isRoot = true ∧ r = f ∨
      ∃ g ∈ form.expr.operands, s.Elementary g r := by
  obtain ⟨held, rfl⟩ := List.getElem?_eq_some_iff.1 found
  have atIndex : ∀ i (held : i < s.forms.entities.length),
      s.Elementary ⟨i⟩ r ↔ r ∈ s.forms.leavesAt i held := fun i held =>
    (mem_elementaryForms (dif_pos held)).symm
  rw [show s.Elementary f r ↔ _ from atIndex f.index held, FormTable.leavesAt]
  by_cases root : s.forms.entities[f.index].isRoot = true
  · have leaf : s.forms.entities[f.index].expr.operands = [] :=
      FormExpr.operands_eq_nil_iff.2 root
    simp [root, leaf]
  · rw [if_neg root]
    simp only [root, false_and, false_or, IdSet.mem_unions, List.mem_map, List.mem_attach,
      true_and, Subtype.exists, Bool.false_eq_true]
    constructor
    · rintro ⟨ids, ⟨g, member, rfl⟩, held⟩
      exact ⟨g, member, (atIndex g.index _).2 held⟩
    · rintro ⟨g, member, elementary⟩
      exact ⟨_, ⟨g, member, rfl⟩, (atIndex g.index _).1 elementary⟩

/-- The elementary forms depend on the forms of the session alone. -/
theorem elementaryForms_congr (same : s'.forms = s.forms) (f : FormId) :
    s'.elementaryForms f = s.elementaryForms f := by
  simp only [elementaryForms, same]

/-- An elementary form is a root form of the session. -/
theorem Elementary.isRoot (elementary : s.Elementary f r) :
    ∃ form, s.forms.get? r = some form ∧ form.isRoot = true := by
  induction index : f.index using Nat.strongRecOn generalizing f with
  | _ i ih =>
    subst index
    obtain ⟨form, found⟩ : ∃ form, s.forms.get? f = some form := by
      obtain ⟨ids, run, -⟩ := elementary
      rw [elementaryForms] at run
      split at run
      · exact ⟨_, List.getElem?_eq_getElem ‹_›⟩
      · simp at run
    rcases (elementary_iff found).1 elementary with ⟨root, rfl⟩ | ⟨g, member, below⟩
    · exact ⟨form, found, root⟩
    · exact ih g.index (FormTable.operands_lt found member) below rfl

end Session

/-! ## Terms and formulations -/

namespace Term

variable {t : Term} {ids : IdSet .form}

theorem elementaryForms_total (created : create s t.kind t.f1 t.f2 = .ok t) :
    ∃ ids, t.elementaryForms s = .ok ids := by
  obtain ⟨-, -, -, k1, k2, -, ⟨_, _, first, -⟩, ⟨_, _, second, -⟩, -⟩ := create_spec created
  obtain ⟨ids, run⟩ := Session.elementaryForms_total first
  obtain ⟨ids', run'⟩ := Session.elementaryForms_total second
  rw [elementaryForms, run, run']
  exact ⟨_, rfl⟩

theorem mem_elementaryForms (run : t.elementaryForms s = .ok ids) :
    r ∈ ids ↔ s.Elementary t.f1 r ∨ s.Elementary t.f2 r := by
  simp only [elementaryForms, Outcome.bind_eq_ok, Outcome.pure_eq_ok] at run
  obtain ⟨first, ran, second, ran', rfl⟩ := run
  rw [IdSet.mem_union, Session.mem_elementaryForms ran, Session.mem_elementaryForms ran']

end Term

namespace WeakFormulation

variable {w : WeakFormulation} {ids : IdSet .form}

theorem elementaryForms_total (created : ∀ e ∈ w.equations, ∀ t ∈ e.terms,
    Term.create s t.value.kind t.value.f1 t.value.f2 = .ok t.value) :
    ∃ ids, w.elementaryForms s = .ok ids := by
  obtain ⟨sets, run⟩ : ∃ sets, (w.equations.flatMap Equation.terms).mapM
      (fun t => t.value.elementaryForms s) = .ok sets := by
    refine (Outcome.mapM_total fun t member => ?_)
    obtain ⟨e, held, within⟩ := List.mem_flatMap.1 member
    exact Term.elementaryForms_total (created e held t within)
  rw [elementaryForms, run]
  exact ⟨_, rfl⟩

theorem elementaryForms_congr (same : s'.forms = s.forms) :
    w.elementaryForms s' = w.elementaryForms s := by
  simp only [elementaryForms, Term.elementaryForms, Session.elementaryForms_congr same]

theorem mem_elementaryForms (run : w.elementaryForms s = .ok ids) :
    r ∈ ids ↔ ∃ e ∈ w.equations, ∃ t ∈ e.terms,
      s.Elementary t.value.f1 r ∨ s.Elementary t.value.f2 r := by
  simp only [elementaryForms, Outcome.bind_eq_ok, Outcome.pure_eq_ok, Outcome.mapM_eq_ok] at run
  obtain ⟨sets, each, rfl⟩ := run
  rw [IdSet.mem_unions]
  constructor
  · rintro ⟨set, member, held⟩
    obtain ⟨t, within, ran⟩ := exists_mem_of_forall₂ each member
    obtain ⟨e, known, standing⟩ := List.mem_flatMap.1 within
    exact ⟨e, known, t, standing, (Term.mem_elementaryForms ran).1 held⟩
  · rintro ⟨e, known, t, standing, elementary⟩
    obtain ⟨set, member, ran⟩ := exists_mem_of_forall₂ each.flip
      (List.mem_flatMap.2 ⟨e, known, standing⟩)
    exact ⟨set, member, (Term.mem_elementaryForms ran).2 elementary⟩

end WeakFormulation

end Variational
