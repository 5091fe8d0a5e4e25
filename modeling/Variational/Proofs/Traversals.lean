import Mathlib.Logic.Relation
import Variational.Proofs.Admissible.Entities
import Variational.Proofs.FormTrees

/-!
# Traversing forms

Forms are built from forms with smaller ids, so going down to operands ends. What occurs in a form
is what can be reached that way, and its elementary forms are the leaves among this. Replacing
records new forms while it goes down, but it only ever goes down the form that it began with.
-/

namespace Variational

open Derive Relation

variable {s s' mid : Session} {settings : Settings} {f g r target new : FormId}

theorem FormTree.leaves_ne_nil (t : FormTree) : t.leaves ≠ [] := by
  induction t with
  | leaf f => simp [leaves]
  | unary op a ih | quotient a c ih | scaled c a ih => exact ih
  | binary op a b left right => simp [leaves, left]

namespace Session

/-! ## Going down to operands -/

/-- A form is directly built from another one. -/
def Operand (s : Session) (g f : FormId) : Prop :=
  ∃ form, s.forms.get? f = some form ∧ g ∈ form.expr.operands

/-- A root form or an evaluated form of the session. -/
def Leaf (s : Session) (f : FormId) : Prop :=
  ∃ form, s.forms.get? f = some form ∧ form.isRoot = true

theorem Operand.lt (operand : s.Operand g f) : g.index < f.index := by
  obtain ⟨form, found, member⟩ := operand
  exact FormTable.operands_lt found member

theorem operand_wellFounded (s : Session) : WellFounded s.Operand :=
  Subrelation.wf Operand.lt (measure EntityId.index).wf

theorem Reads.operand {e : FormExpr} (reads : s.Reads f e) (member : g ∈ e.operands) :
    s.Operand g f := by
  obtain ⟨form, found, rfl⟩ := reads
  exact ⟨form, found, member⟩

/-- What a form is built from is held by the session. -/
theorem exists_form_of_reflTransGen (below : ReflTransGen s.Operand g f) {form : Form}
    (found : s.forms.get? f = some form) : ∃ a, s.forms.get? g = some a := by
  have le : g.index ≤ f.index := by
    clear found
    induction below with
    | refl => exact Nat.le_refl _
    | tail _ operand ih => exact ih.trans (Nat.le_of_lt operand.lt)
  exact Arena.exists_get? (Nat.lt_of_le_of_lt le (Arena.lt_size found))

/-- What occurs in a form is what going down to operands reaches. -/
theorem occursIn_iff_reflTransGen :
    s.occursIn f target = .ok true ↔ ReflTransGen s.Operand target f := by
  constructor
  · intro occurs
    induction f using (operand_wellFounded s).induction with
    | _ f ih =>
      by_cases same : f = target
      · exact same ▸ .refl
      · obtain ⟨form, found⟩ := exists_form_of_occursIn same occurs
        obtain ⟨g, member, below⟩ := ((occursIn_iff found).1 occurs).resolve_left same
        exact (ih g ⟨form, found, member⟩ below).tail ⟨form, found, member⟩
  · intro below
    induction below with
    | refl => exact occursIn_self
    | tail _ operand ih =>
      obtain ⟨form, found, member⟩ := operand
      exact (occursIn_iff found).2 (Or.inr ⟨_, member, ih⟩)

/-- The elementary forms of a form are the leaves that occur in it. -/
theorem elementary_iff_occursIn {form : Form} (found : s.forms.get? f = some form) :
    s.Elementary f r ↔ s.Leaf r ∧ s.occursIn f r = .ok true := by
  obtain ⟨t, unfolds⟩ := exists_unfolds found
  have agree : s.Leaf r → (s.occursIn f r = .ok true ↔ s.Elementary f r) := by
    rintro ⟨leaf, foundLeaf, isRoot⟩
    rw [unfolds.elementary_iff]
    exact unfolds.occursIn_iff_mem_leaves ⟨leaf, foundLeaf, rfl⟩ isRoot
  constructor
  · exact fun elementary => ⟨elementary.isRoot, (agree elementary.isRoot).2 elementary⟩
  · exact fun ⟨leaf, occurs⟩ => (agree leaf).1 occurs

theorem exists_elementary {form : Form} (found : s.forms.get? f = some form) :
    ∃ r, s.Elementary f r := by
  obtain ⟨t, unfolds⟩ := exists_unfolds found
  obtain ⟨r, member⟩ := List.exists_mem_of_ne_nil _ t.leaves_ne_nil
  exact ⟨r, unfolds.elementary_iff.2 member⟩

/-- A form that is tested with a root form has no other elementary form. -/
theorem Tested.elementary_iff {v : FormId} (tested : s.Tested v f) : s.Elementary f r ↔ r = v := by
  induction tested with
  | root reads =>
    obtain ⟨form, found, shape⟩ := reads
    rw [Session.elementary_iff found, Form.isRoot, shape]
    simp [FormExpr.isLeaf, FormExpr.operands]
  | operator reads _ _ ih =>
    obtain ⟨form, found, shape⟩ := reads
    rw [Session.elementary_iff found, Form.isRoot, shape]
    simpa [FormExpr.isLeaf, FormExpr.operands] using ih

theorem testedForm?_total {form : Form} (found : s.forms.get? f = some form) :
    ∃ r, s.testedForm? f = .ok r := by
  obtain ⟨held, -⟩ := List.getElem?_eq_some_iff.1 found
  exact ⟨_, dif_pos held⟩

/-- What traversing the forms of a session gives. -/
structure Traversed (s : Session) : Prop where
  /-- Operands have smaller ids, so going down to them ends. -/
  before : ∀ {g f}, s.Operand g f → g.index < f.index
  wellFounded : WellFounded s.Operand
  /-- Whether a form occurs in another one is settled by going down. -/
  occurs : ∀ {f}, s.Issued f → ∀ target, ∃ b, s.occursIn f target = .ok b ∧
    (b = true ↔ ReflTransGen s.Operand target f)
  /-- There are elementary forms, and they are the leaves that occur in the form. -/
  elementary : ∀ {f}, s.Issued f → ∃ ids, s.elementaryForms f = .ok ids ∧
    (∃ r, r ∈ ids) ∧ (∀ r ∈ ids, s.Leaf r) ∧
    ∀ t, s.Leaf t → (s.occursIn f t = .ok true ↔ t ∈ ids)
  /-- Occurrence is a partial order. -/
  refl : ∀ f, s.occursIn f f = .ok true
  antisymm : ∀ {f g}, s.occursIn f g = .ok true → s.occursIn g f = .ok true → f = g
  trans : ∀ {f g h}, s.occursIn f g = .ok true → s.occursIn g h = .ok true →
    s.occursIn f h = .ok true

theorem traversed (s : Session) : s.Traversed where
  before := Operand.lt
  wellFounded := operand_wellFounded s
  occurs issued target := by
    obtain ⟨form, found⟩ := Arena.exists_get? (issued_id.1 issued)
    obtain ⟨b, run⟩ := occursIn_total target found
    refine ⟨b, run, ?_⟩
    rw [← occursIn_iff_reflTransGen, run, Except.ok.injEq]
  elementary issued := by
    obtain ⟨form, found⟩ := Arena.exists_get? (issued_id.1 issued)
    obtain ⟨ids, run⟩ := elementaryForms_total found
    obtain ⟨r, elementary⟩ := exists_elementary found
    refine ⟨ids, run, ⟨r, (mem_elementaryForms run).2 elementary⟩, fun r member => ?_,
      fun t leaf => ?_⟩
    · exact ((mem_elementaryForms run).1 member).isRoot
    · rw [mem_elementaryForms run, elementary_iff_occursIn found, and_iff_right leaf]
  refl f := occursIn_self
  antisymm occurs occurs' := EntityId.ext
    ((index_le_of_occursIn occurs').antisymm (index_le_of_occursIn occurs))
  trans occurs occurs' := occursIn_iff_reflTransGen.2
    ((occursIn_iff_reflTransGen.1 occurs').trans (occursIn_iff_reflTransGen.1 occurs))

end Session

/-! ## Replacing -/

namespace Form

/-- Replacing a target inside a form, where `recurse` replaces it inside the operands. -/
def rebuild (target new : FormId) (recurse : FormId → Derive FormId) (f : FormId) :
    Derive FormId := do
  if f = target then
    return new
  let s ← get
  if !(← s.occursIn f target) then
    return f
  match s.forms.get? f with
  | none => foreign .form
  | some a =>
    match a.expr with
    | .root | .atInstant _ => return f
    | .unary op g => do apply op (← recurse g)
    | .binary op g h => do
      let left ← recurse g
      let right ← recurse h
      combine op left right
    | .quotient g c => do divide (← recurse g) (.scalar c)
    | .scaled c g => do scale (.scalar c) (← recurse g)

/-- The calls that replacing makes on the operands of a form. The session of the second call is the
one that the first call leaves behind. -/
inductive Calls (target new : FormId) : Session × FormId → Session × FormId → Prop
  | first {s : Session} {f g : FormId} {e : FormExpr} (differs : f ≠ target)
    (occurs : s.occursIn f target = .ok true) (reads : s.Reads f e)
    (head : e.operands.head? = some g) : Calls target new (s, f) (s, g)
  | second {s mid : Session} {f g h left : FormId} {op : BinaryOperator} (differs : f ≠ target)
    (occurs : s.occursIn f target = .ok true) (reads : s.Reads f (.binary op g h))
    (run : substitute target new g s = .ok left mid) : Calls target new (s, f) (mid, h)

namespace Calls

variable {call caller : Session × FormId}

/-- A call is on an operand of the caller's form, in a session that the caller's leads to. -/
theorem step (calls : Calls target new caller call) :
    caller.1.Steps call.1 ∧ caller.1.Operand call.2 caller.2 := by
  cases calls with
  | first _ _ reads head => exact ⟨.refl, reads.operand (List.mem_of_head? head)⟩
  | second _ _ reads run =>
    exact ⟨(substitute_grows _ _ _).steps run, reads.operand (by simp [FormExpr.operands])⟩

/-- Replacing calls itself on smaller ids only, so it ends. -/
theorem wellFounded (target new : FormId) :
    WellFounded fun call caller => Calls target new caller call :=
  Subrelation.wf (fun calls => calls.step.2.lt)
    (measure fun call : Session × FormId => call.2.index).wf

/-- The calls of a run go down the form that it began with, however the session grows. -/
theorem run (calls : ReflTransGen (Calls target new) (s, f) call) {form : Form}
    (found : s.forms.get? f = some form) :
    s.Steps call.1 ∧ ReflTransGen s.Operand call.2 f := by
  induction calls with
  | refl => exact ⟨.refl, .refl⟩
  | tail _ last ih =>
    obtain ⟨steps, below⟩ := ih
    obtain ⟨next, caller, found', member⟩ := last.step
    -- the form that calls was there when the run began
    obtain ⟨old, foundOld⟩ := Session.exists_form_of_reflTransGen below found
    have same : caller = old :=
      Option.some.inj (found'.symm.trans (steps.extends.forms foundOld))
    exact ⟨steps.trans next, .head ⟨old, foundOld, same ▸ member⟩ below⟩

end Calls

/-- Replacing makes no other calls: what happens to a form is settled by the answers to them. -/
theorem rebuild_eq_substitute {recurse : FormId → Derive FormId}
    (agree : ∀ mid g, Calls target new (s, f) (mid, g) →
      recurse g mid = substitute target new g mid) :
    rebuild target new recurse f s = substitute target new f s := by
  by_cases same : f = target
  · rw [rebuild, substitute, if_pos same, if_pos same]
  cases occurs : s.occursIn f target with
  | error failure =>
    rw [rebuild, substitute, if_neg same, if_neg same, get_bind, get_bind, occurs]
    rfl
  | ok present =>
    cases present with
    | false =>
      rw [rebuild, substitute, if_neg same, if_neg same, get_bind, get_bind,
        lift_bind_of_ok occurs, lift_bind_of_ok occurs]
      rfl
    | true =>
      obtain ⟨a, found⟩ := Session.exists_form_of_occursIn same occurs
      have reads : s.Reads f a.expr := ⟨a, found, rfl⟩
      rw [substitute_inner found same occurs, rebuild, if_neg same, get_bind,
        lift_bind_of_ok occurs, if_neg (by decide)]
      simp only [found]
      cases shape : a.expr with
      | root | atInstant binding => rfl
      | unary op g | quotient g c | scaled c g =>
        exact bind_eq_bind (agree s g (.first same occurs (shape ▸ reads) rfl)) fun _ _ _ => rfl
      | binary op g h =>
        refine bind_eq_bind (agree s g (.first same occurs (shape ▸ reads) rfl))
          fun left mid run => ?_
        exact bind_eq_bind (agree mid h (.second same occurs (shape ▸ reads) run)) fun _ _ _ => rfl

end Form

/-! ## All traversals -/

namespace Session

/-- What replacing inside a form of a session gives. -/
structure Replaced (s : Session) (target new f : FormId) : Prop where
  /-- Replacing is rejected or gives a form of the session that it leaves behind. -/
  answered : (Form.replace f target new).Answered s Issued
  /-- There is no endless sequence of calls. -/
  wellFounded : WellFounded fun call caller => Form.Calls target new caller call
  /-- Every call on the way is on a form of the tree that the run began with, as it was then. -/
  calls : ∀ {mid g}, ReflTransGen (Form.Calls target new) (s, f) (mid, g) →
    s.Steps mid ∧ s.occursIn f g = .ok true ∧ mid.forms.get? g = s.forms.get? g ∧
      ∀ {last h}, Form.Calls target new (mid, g) (last, h) → h.index < g.index
  /-- What a call gives is settled by the calls that it makes. -/
  settled : ∀ {mid g recurse}, ReflTransGen (Form.Calls target new) (s, f) (mid, g) →
    (∀ last h, Form.Calls target new (mid, g) (last, h) →
      recurse h last = Form.substitute target new h last) →
    Form.rebuild target new recurse g mid = Form.substitute target new g mid

theorem Closed.replaced (closed : s.Closed) (issued : s.Issued f) (old : s.Issued target)
    (fresh : s.Issued new) : s.Replaced target new f where
  answered := Form.replace_answered closed issued old fresh
  wellFounded := Form.Calls.wellFounded target new
  calls run := by
    obtain ⟨form, found⟩ := Arena.exists_get? (issued_id.1 issued)
    obtain ⟨steps, below⟩ := Form.Calls.run run found
    obtain ⟨a, held⟩ := exists_form_of_reflTransGen below found
    exact ⟨steps, occursIn_iff_reflTransGen.2 below, (steps.extends.forms held).trans held.symm,
      fun calls => calls.step.2.lt⟩
  settled _ agree := Form.rebuild_eq_substitute agree

/-- Traversing the forms of a reachable session ends, and all traversals agree about what a form is
built from.

* Going down to operands ends, and tells what occurs in a form. The elementary forms are the leaves
  that occur.
* Replacing ends: its calls go down the tree of the form that it began with.
* Looking for a test form ends, and a form with a test form has no other elementary form. -/
theorem Reachable.traversals (reachable : Reachable settings s) :
    s.Traversed ∧
    (∀ {f target new}, s.Issued f → s.Issued target → s.Issued new → s.Replaced target new f) ∧
    (∀ {t : Term}, s.Issued t.f2 → ∃ v, t.testForm? s = .ok v ∧
      ∀ tested, v = some tested → ∃ ids, s.elementaryForms t.f2 = .ok ids ∧
        ∀ r, r ∈ ids ↔ r = tested) := by
  refine ⟨s.traversed, reachable.closed.replaced, fun {t} issued => ?_⟩
  obtain ⟨form, found⟩ := Arena.exists_get? (issued_id.1 issued)
  obtain ⟨v, run⟩ := testedForm?_total found
  refine ⟨v, run, ?_⟩
  rintro tested rfl
  obtain ⟨ids, all⟩ := elementaryForms_total found
  exact ⟨ids, all, fun r => by
    rw [mem_elementaryForms all, (testedForm?_eq_ok_some.1 run).elementary_iff]⟩

/-- The derivative of a sum of `u` and `v`: replacing `v` by `u` in it goes down to the sum. The
derivative of `v` is tested with `v`. -/
theorem traversals_gradient : ∃ s, Reachable {} s ∧ s.Traversed ∧ s.Replaced ⟨1⟩ ⟨0⟩ ⟨4⟩ ∧
    Form.Calls ⟨1⟩ ⟨0⟩ (s, ⟨4⟩) (s, ⟨3⟩) ∧
    ∃ ids, s.elementaryForms ⟨2⟩ = .ok ids ∧ ∀ r, r ∈ ids ↔ r = ⟨1⟩ := by
  obtain ⟨s, reachable, readsV, readsTest, readsSum, readsForm, issued⟩ : ∃ s, Reachable {} s ∧
      s.Reads ⟨1⟩ .root ∧ s.Reads ⟨2⟩ (.unary .derivative ⟨1⟩) ∧
      s.Reads ⟨3⟩ (.binary .sum ⟨0⟩ ⟨1⟩) ∧ s.Reads ⟨4⟩ (.unary .derivative ⟨3⟩) ∧
      s.Issued ([⟨0⟩, ⟨1⟩, ⟨2⟩, ⟨4⟩] : List FormId) :=
    ⟨Request.performAll {} [.manifold 1, .mesh ⟨0⟩, .space ⟨0⟩ 0 .outer, .root ⟨0⟩ ⟨"u", "u"⟩,
      .root ⟨0⟩ ⟨"v", "v"⟩, .operator .derivative ⟨1⟩, .combination .sum ⟨0⟩ ⟨1⟩,
      .operator .derivative ⟨3⟩], .performAll {} _, by decide +kernel⟩
  have issuedForm : ∀ f ∈ ([⟨0⟩, ⟨1⟩, ⟨2⟩, ⟨4⟩] : List FormId), s.Issued f := issued_list.1 issued
  obtain ⟨traversed, replaced, tested⟩ := reachable.traversals
  have inSum : s.occursIn ⟨3⟩ ⟨1⟩ = .ok true :=
    readsSum.occursIn_of_operand (by decide) occursIn_self
  obtain ⟨v, run, only⟩ :=
    tested (t := ⟨.innerProduct, ⟨2⟩, ⟨2⟩, ⟨0⟩, "", ""⟩) (issuedForm ⟨2⟩ (by decide))
  have found : s.testedForm? ⟨2⟩ = .ok (some ⟨1⟩) :=
    testedForm?_eq_ok_some.2 (.operator readsTest (Or.inl rfl) (.root readsV))
  exact ⟨s, reachable, traversed, replaced (issuedForm ⟨4⟩ (by decide)) (issuedForm ⟨1⟩ (by decide))
    (issuedForm ⟨0⟩ (by decide)),
    .first (by decide) (readsForm.occursIn_of_operand (by decide) inSum) readsForm rfl,
    only ⟨1⟩ (Except.ok.inj (run.symm.trans found))⟩

end Session

end Variational
