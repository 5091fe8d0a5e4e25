import Variational.Proofs.Session.Invariants

/-!
# Entities that are recorded once

A derived form is found again by its expression, an evaluated form by its base and
its instant, an instant by its sequence and its key, and an interval by its end
points. So no two of them are alike, and an entity of a reachable session is known
by what it was requested as.
-/

namespace Variational

/-! ## Arenas without repetition -/

/-- No two entities of an arena are alike. -/
def Arena.Distinct {kind : EntityKind} {α : Type} (arena : Arena kind α)
    (Alike : α → α → Prop) : Prop :=
  ∀ id id' x x', arena.get? id = some x → arena.get? id' = some x' → Alike x x' → id = id'

namespace Arena.Distinct

variable {kind : EntityKind} {α : Type} {arena : Arena kind α} {Alike : α → α → Prop}

theorem empty : Arena.Distinct ({} : Arena kind α) Alike :=
  fun _ _ _ _ found => by cases found

/-- An entity that no recorded one is like can be recorded. -/
theorem push {y : α} (distinct : arena.Distinct Alike)
    (symmetric : ∀ {x x'}, Alike x x' → Alike x' x)
    (fresh : ∀ id x, arena.get? id = some x → ¬ Alike x y) : (arena.push y).Distinct Alike := by
  intro id id' x x' found found' alike
  rcases Arena.get?_push_cases found with old | ⟨rfl, rfl⟩
  · rcases Arena.get?_push_cases found' with old' | ⟨rfl, rfl⟩
    · exact distinct id id' x x' old old' alike
    · exact absurd alike (fresh id x old)
  · rcases Arena.get?_push_cases found' with old' | ⟨rfl, rfl⟩
    · exact absurd (symmetric alike) (fresh id' x' old')
    · rfl

end Arena.Distinct

namespace Session

/-! ## What makes entities alike -/

/-- Two forms with one expression. Root forms have none in common: every one is new. -/
def SameExpression (f g : Form) : Prop :=
  f.expr = g.expr ∧ f.expr ≠ .root

/-- Two instants of one sequence at one key. -/
def SameKey (i j : TimeInstant) : Prop :=
  i.sequence = j.sequence ∧ i.key = j.key

/-- Two intervals between the same instants. -/
def SameEnds (i j : TimeInterval) : Prop :=
  i.start = j.start ∧ i.stop = j.stop

theorem SameExpression.symm {f g : Form} (same : SameExpression f g) : SameExpression g f :=
  ⟨same.1.symm, same.1 ▸ same.2⟩

theorem SameKey.symm {i j : TimeInstant} (same : SameKey i j) : SameKey j i :=
  ⟨same.1.symm, same.2.symm⟩

theorem SameEnds.symm {i j : TimeInterval} (same : SameEnds i j) : SameEnds j i :=
  ⟨same.1.symm, same.2.symm⟩

/-! ## The invariant -/

/-- Entities that are found again are recorded once, and the base of an evaluated form stands
before it. -/
structure Distinct (s : Session) : Prop where
  forms : s.forms.Distinct SameExpression
  timeInstants : s.timeInstants.Distinct SameKey
  timeIntervals : s.timeIntervals.Distinct SameEnds
  bases : ∀ {id f binding}, s.forms.get? id = some f → f.expr = .atInstant binding →
    binding.base.index < id.index

variable {s s' : Session}

namespace Step

theorem distinctForms (step : s.Step s') (distinct : s.forms.Distinct SameExpression) :
    s'.forms.Distinct SameExpression := by
  cases step with
  | rootForm =>
    exact distinct.push (·.symm) fun id x _ same => same.2 same.1
  | @evaluation f a sp instant i labels unknown =>
    refine distinct.push (·.symm) fun id x found same => ?_
    have known := Arena.find?_eq_none.1 unknown id x found
    have expression : x.expr = .atInstant ⟨f, i.sequence, instant⟩ := same.1
    simp [Form.isEvaluation, expression] at known
  | derivedForm _ _ _ _ unknown =>
    refine distinct.push (·.symm) fun id x found same => ?_
    exact of_decide_eq_false (Arena.find?_eq_none.1 unknown id x found) same.1
  | _ => exact distinct

theorem distinctInstants (step : s.Step s') (distinct : s.timeInstants.Distinct SameKey) :
    s'.timeInstants.Distinct SameKey := by
  cases step with
  | timeInstant _ unknown =>
    refine distinct.push (·.symm) fun id x found same => ?_
    exact of_decide_eq_false (Arena.find?_eq_none.1 unknown id x found) same
  | _ => exact distinct

theorem distinctIntervals (step : s.Step s') (distinct : s.timeIntervals.Distinct SameEnds) :
    s'.timeIntervals.Distinct SameEnds := by
  cases step with
  | timeInterval _ _ _ _ unknown =>
    refine distinct.push (·.symm) fun id x found same => ?_
    exact of_decide_eq_false (Arena.find?_eq_none.1 unknown id x found) same
  | _ => exact distinct

theorem bases (step : s.Step s')
    (before : ∀ {id f binding}, s.forms.get? id = some f → f.expr = .atInstant binding →
      binding.base.index < id.index) {id : FormId} {f : Form} {binding : TimeBinding}
    (found : s'.forms.get? id = some f) (bound : f.expr = .atInstant binding) :
    binding.base.index < id.index := by
  cases step with
  | rootForm =>
    rcases Arena.get?_push_cases found with old | ⟨rfl, rfl⟩
    · exact before old bound
    · cases bound
  | derivedForm _ _ derived =>
    rcases Arena.get?_push_cases found with old | ⟨rfl, rfl⟩
    · exact before old bound
    · rw [bound] at derived
      cases derived
  | evaluation _ foundBase =>
    rcases Arena.get?_push_cases found with old | ⟨rfl, rfl⟩
    · exact before old bound
    · cases bound
      exact (List.getElem?_eq_some_iff.1 foundBase).1
  | _ => exact before found bound

end Step

namespace Distinct

theorem new (settings : Settings) : (Session.new settings).Distinct where
  forms := .empty
  timeInstants := .empty
  timeIntervals := .empty
  bases found := by cases found

theorem step (distinct : s.Distinct) (step : s.Step s') : s'.Distinct where
  forms := step.distinctForms distinct.forms
  timeInstants := step.distinctInstants distinct.timeInstants
  timeIntervals := step.distinctIntervals distinct.timeIntervals
  bases := step.bases distinct.bases

theorem steps (distinct : s.Distinct) (steps : s.Steps s') : s'.Distinct := by
  induction steps with
  | refl => exact distinct
  | tail _ step ih => exact ih.step step

/-- A form that is not a root form is known by its expression. -/
theorem eq_of_expr (distinct : s.Distinct) {f g : FormId} {a b : Form}
    (found : s.forms.get? f = some a) (found' : s.forms.get? g = some b)
    (same : a.expr = b.expr) (derived : a.expr ≠ .root) : f = g :=
  distinct.forms f g a b found found' ⟨same, derived⟩

end Distinct

/-- Every reachable session records the entities that are found again once. -/
theorem Reachable.distinct {settings : Settings} (reachable : Reachable settings s) :
    s.Distinct :=
  reachable.invariant (.new settings) fun distinct step => distinct.step step

end Session

end Variational
