import Variational.Proofs.Representation
import Variational.Term.Conversion

/-!
# Which terms have an algebraic representation

The rules by which a term is represented by a product of arrays, stated for the
forms of a session.
-/

namespace Variational

/-! ## Root forms -/

/-- The session holds a root form. -/
def Session.HoldsRoot (s : Session) (f : FormId) : Prop :=
  ∃ form, s.forms.get? f = some form ∧ form.isRoot = true

instance (s : Session) (f : FormId) : Decidable (s.HoldsRoot f) :=
  decidable_of_iff ((s.forms.get? f).map Form.isRoot = some true) Option.map_eq_some_iff

namespace Term

variable {s s' : Session}

/-! ## Rules -/

/-- The forms that a test form `v` stands in: `v` as `vᵀ`, and `d v` as `vᵀ Dᵀ`. -/
inductive TestFormed (s : Session) (v : FormId) : FormId → List LinkKind → Prop
  | form : TestFormed s v v [⟨.vector v, true⟩]
  | derivative {f : FormId} {form : Form} (reads : s.Reads f (.unary .derivative v))
      (found : s.forms.get? v = some form) :
      TestFormed s v f [⟨.vector v, true⟩, ⟨.incidenceMatrix form.space, true⟩]

/-- The forms that are expanded: a root form `u` as `M u`, and `d r` as `M D r`. -/
inductive Expanded (s : Session) : FormId → List LinkKind → Prop
  | root {u : FormId} {form : Form} (found : s.forms.get? u = some form)
      (root : form.isRoot = true) :
      Expanded s u [⟨.massMatrix form.space, false⟩, ⟨.vector u, false⟩]
  | derivative {g r : FormId} {form inner : Form} (found : s.forms.get? g = some form)
      (expr : form.expr = .unary .derivative r) (foundRoot : s.forms.get? r = some inner)
      (root : inner.isRoot = true) :
      Expanded s g
        [⟨.massMatrix form.space, false⟩, ⟨.incidenceMatrix inner.space, false⟩,
          ⟨.vector r, false⟩]

/-- A form is a multiple of another one: `g` is one times `g`, and `g / d` is `1 / d` times
`g` with the quotient that scalar arithmetic gives on the way to the second session. -/
inductive Factored (s s' : Session) (f : FormId) : ScalarId → FormId → Prop
  | one {c : ScalarId} (unit : s'.IsUnit c) : Factored s s' f c f
  | scaled {c : ScalarId} {g : FormId} (reads : s.Reads f (.scaled c g)) : Factored s s' f c g
  | quotient {c d : ScalarId} {g : FormId} {before after : Session}
      (reads : s.Reads f (.quotient g d))
      (division : Scalar.div (.number 1.0) (.scalar d) before = .ok c after)
      (earlier : s.Steps before) (later : after.Steps s') : Factored s s' f c g

theorem Factored.later {f : FormId} {c : ScalarId} {g : FormId} {last : Session}
    (factored : Factored s s' f c g) (steps : s'.Steps last) : Factored s last f c g := by
  cases factored with
  | one unit => exact .one (steps.isUnit unit)
  | scaled reads => exact .scaled reads
  | quotient reads division earlier later =>
    exact .quotient reads division earlier (later.trans steps)

/-- The factor and the chain by which a term that is tested with `v` is represented. -/
inductive Represented (s s' : Session) (t : Term) (v : FormId) :
    ScalarId → List LinkKind → Prop
  | innerProduct {c : ScalarId} {g : FormId} {front core : List LinkKind}
      (kind : t.kind = .innerProduct) (test : TestFormed s v t.f2 front)
      (factor : Factored s s' t.f1 c g) (form : Expanded s g core) :
      Represented s s' t v c (front ++ core)
  | dualityPairing {c : ScalarId} {h u : FormId} {form : Form} (kind : t.kind = .dualityPairing)
      (first : s.Reads t.f1 (.unary .trace h)) (hodge : s.Reads h (.unary .hodge u))
      (root : s.HoldsRoot u) (second : s.Reads t.f2 (.unary .trace v))
      (found : s.forms.get? v = some form) (unit : s'.IsUnit c) :
      Represented s s' t v c [⟨.vector v, true⟩, ⟨.wedgeVector u form.space, false⟩]

/-- The terms that are represented, by the expressions of their forms: `(g, v)`, `(c g, v)` and
`(g / c, v)` with `g` a root form or the derivative of one, the same with `d v`, and
`<tr ⋆u, tr v>` with `u` a root form. -/
def Convertible (s : Session) (t : Term) (v : FormId) : Prop :=
  match t.kind with
  | .innerProduct =>
    (t.f2 = v ∨ s.Reads t.f2 (.unary .derivative v)) ∧
    ∃ g, (t.f1 = g ∨ (∃ c, s.Reads t.f1 (.scaled c g)) ∨ ∃ c, s.Reads t.f1 (.quotient g c)) ∧
      (s.HoldsRoot g ∨ ∃ r, s.HoldsRoot r ∧ s.Reads g (.unary .derivative r))
  | .dualityPairing =>
    ∃ h u, s.Reads t.f1 (.unary .trace h) ∧ s.Reads h (.unary .hodge u) ∧ s.HoldsRoot u ∧
      s.Reads t.f2 (.unary .trace v)

/-- The forms of `g` that are expanded. -/
theorem exists_expanded_iff {g : FormId} : (∃ kinds, Expanded s g kinds) ↔
    s.HoldsRoot g ∨ ∃ r, s.HoldsRoot r ∧ s.Reads g (.unary .derivative r) := by
  constructor
  · intro given
    obtain ⟨kinds, expanded⟩ := given
    cases expanded with
    | root found root => exact Or.inl ⟨_, found, root⟩
    | derivative found expr foundRoot root =>
      exact Or.inr ⟨_, ⟨_, foundRoot, root⟩, _, found, expr⟩
  · intro given
    rcases given with ⟨form, found, root⟩ | ⟨r, ⟨inner, foundRoot, root⟩, form, found, expr⟩
    · exact ⟨_, .root found root⟩
    · exact ⟨_, .derivative found expr foundRoot root⟩

/-- The rules are about the forms of a session. -/
theorem TestFormed.of_forms {v f : FormId} {kinds : List LinkKind} (same : s'.forms = s.forms)
    (formed : TestFormed s v f kinds) : TestFormed s' v f kinds := by
  cases formed with
  | form => exact .form
  | derivative reads found => exact .derivative (by rwa [Session.Reads, same]) (same ▸ found)

theorem Expanded.of_forms {g : FormId} {kinds : List LinkKind} (same : s'.forms = s.forms)
    (expanded : Expanded s g kinds) : Expanded s' g kinds := by
  cases expanded with
  | root found root => exact .root (same ▸ found) root
  | derivative found expr foundRoot root =>
    exact .derivative (same ▸ found) expr (same ▸ foundRoot) root

/-- The terms that are represented are convertible. -/
theorem Represented.convertible {t : Term} {v : FormId} {c : ScalarId} {kinds : List LinkKind}
    (represented : Represented s s' t v c kinds) : Convertible s t v := by
  cases represented with
  | innerProduct kind test factor form =>
    rw [Convertible, kind]
    refine ⟨?_, _, ?_, exists_expanded_iff.1 ⟨_, form⟩⟩
    · generalize t.f2 = f2 at test
      cases test with
      | form => exact Or.inl rfl
      | derivative reads => exact Or.inr reads
    · cases factor with
      | one => exact Or.inl rfl
      | scaled reads => exact Or.inr (Or.inl ⟨_, reads⟩)
      | quotient reads => exact Or.inr (Or.inr ⟨_, reads⟩)
  | dualityPairing kind first hodge root second =>
    rw [Convertible, kind]
    exact ⟨_, _, first, hodge, root, second⟩

end Term

end Variational
