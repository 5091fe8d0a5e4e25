import Variational.Proofs.LabelIndices
import Variational.Proofs.Numbers

/-!
# Real scalars and numbers

Real scalars and finite numbers correspond one to one, whatever scalars are taken before or
in between. A root scalar has the labels of its number, or labels that no number has, so a
real scalar is found by the labels of its number and by no other.
-/

namespace Variational

open Derive

variable {s s' : Session} {settings : Settings} {x y : Float} {id : ScalarId} {c : Scalar}

/-! ## Labels of root scalars -/

namespace Session

/-- Root scalars have the labels of their numbers, or labels that no number has, and all real
scalars are root ones. -/
def ScalarsNamed (s : Session) : Prop :=
  ∀ {id c}, s.scalars.get? id = some c →
    (∀ lin, c.pureLin = some lin → ScalarNamed ⟨c.sym, lin⟩ c.value) ∧
      (c.pureLin = none → c.value = none)

theorem Step.scalarsNamed (step : s.Step s') (named : s.ScalarsNamed) : s'.ScalarsNamed := by
  cases step with
  | rootScalar given =>
    intro id c found
    rcases Arena.get?_push_cases found with old | ⟨-, rfl⟩
    · exact named old
    · refine ⟨fun lin pure => ?_, nofun⟩
      cases pure
      exact given
  | derivedScalar =>
    intro id c found
    rcases Arena.get?_push_cases found with old | ⟨-, rfl⟩
    · exact named old
    · exact ⟨nofun, fun _ => rfl⟩
  | _ => exact named

theorem Reachable.scalarsNamed (reachable : Reachable settings s) : s.ScalarsNamed :=
  reachable.invariant (P := ScalarsNamed) nofun fun named step => step.scalarsNamed named

end Session

/-! ## Real scalars -/

namespace Scalar

/-- The real scalar of a number is found by both labels of the number. -/
theorem ofNumber_eq_ok (run : ofNumber x s = .ok id s') : x.isFinite = true ∧
    s'.scalarLabels.bySym? (numberLabels x).sym = some id ∧
    s'.scalarLabels.byLin? (numberLabels x).lin = some id ∧
    s'.ScalarHas id fun c => ∃ y, c.value = some y ∧ (y == x) = true := by
  rw [ofNumber, guard_eq_ok] at run
  obtain ⟨finite, run⟩ := run
  have finite : x.isFinite = true := by simpa using finite
  obtain ⟨-, bySym, byLin, c, found, value⟩ := register_spec run
  refine ⟨finite, bySym, byLin, c, found, ?_⟩
  rcases value with same | agrees
  · exact ⟨x, same, beq_self_of_isFinite finite⟩
  · cases real : c.value with
    | none => simp [real] at agrees
    | some y => exact ⟨y, rfl, by simpa [real] using agrees⟩

/-- A real scalar is the one of its number. -/
theorem ofNumber_of_real (reachable : Session.Reachable settings s)
    (found : s.scalars.get? id = some c) (real : c.value = some x) :
    x.isFinite = true ∧ ofNumber x s = .ok id s := by
  obtain ⟨root, derived⟩ := reachable.scalarsNamed found
  cases pure : c.pureLin with
  | none => cases real.symm.trans (derived pure)
  | some lin =>
    have named := root lin pure
    rw [real] at named
    obtain ⟨finite, labels⟩ := named
    have listed : c.rootLabels? = some (numberLabels x) := by
      rw [rootLabels?, pure, Option.map_some, labels]
    have bySym := (reachable.indexed.scalars.bySym (numberLabels x).sym id).2
      ⟨c, _, found, listed, rfl⟩
    have byLin := (reachable.indexed.scalars.byLin (numberLabels x).lin id).2
      ⟨c, _, found, listed, rfl⟩
    refine ⟨finite, ?_⟩
    have fetched : s.scalar id = .ok c := Arena.fetch_eq_ok_iff.2 found
    have agrees : (c.value == some x) = true := by
      rw [real]
      exact beq_self_of_isFinite finite
    rw [ofNumber, if_neg (by simp [finite])]
    change register (numberLabels x) (some x) s = _
    rw [register, get_bind, bySym, byLin]
    simp only [if_true]
    rw [lift_bind_of_ok fetched, if_pos agrees]
    rfl

/-- Two numbers have one real scalar if and only if they are equal. -/
theorem ofNumber_inj {a b : ScalarId} {t t' : Session} (first : ofNumber x s = .ok a s')
    (later : s'.Steps t) (second : ofNumber y t = .ok b t') : a = b ↔ (x == y) = true := by
  have later : s'.Steps t' := later.trans ((ofNumber_grows y).steps second)
  obtain ⟨finite, bySym, -, c, found, z, real, equal⟩ := ofNumber_eq_ok first
  obtain ⟨finite', bySym', -, c', found', z', real', equal'⟩ := ofNumber_eq_ok second
  constructor
  · rintro rfl
    cases found'.symm.trans ((Session.Steps.extends later).scalars found)
    cases real.symm.trans real'
    have labels := (numberLabels_congr equal).symm.trans (numberLabels_congr equal')
    exact beq_of_shared finite finite' (Or.inl (congrArg Labels.sym labels))
  · intro same
    rw [← numberLabels_congr same] at bySym'
    exact Option.some.inj ((Session.Steps.bySym?_scalar later bySym).symm.trans bySym')

/-- Real scalars and finite numbers correspond one to one in every session that is reached. The
scalar of a finite number can be taken, in particular that of one, and is a real one of an equal
number. Numbers whose scalars are taken at different times have the same one if and only if they
are equal. A real scalar is that of its number. An abstract root scalar has no label of a
finite number. -/
theorem numbers_exact (reachable : Session.Reachable settings s) :
    (∀ x : Float, x.isFinite = true → ∃ id s', ofNumber x s = .ok id s' ∧
      s'.ScalarHas id fun c => ∃ y, c.value = some y ∧ (y == x) = true) ∧
    (∃ id s', unit s = .ok id s') ∧
    (∀ x a s₁, ofNumber x s = .ok a s₁ → ∀ t, s₁.Steps t → ∀ y b t', ofNumber y t = .ok b t' →
      (a = b ↔ (x == y) = true)) ∧
    (∀ id c x, s.scalars.get? id = some c → c.value = some x →
      x.isFinite = true ∧ ofNumber x s = .ok id s) ∧
    ∀ id c lin, s.scalars.get? id = some c → c.value = none → c.pureLin = some lin →
      ∀ x : Float, x.isFinite = true → ∀ label ∈ [c.sym, lin],
        label ≠ (numberLabels x).sym ∧ label ≠ (numberLabels x).lin := by
  have takes : ∀ x : Float, x.isFinite = true → ∃ id s', ofNumber x s = .ok id s' :=
    fun x finite => ofNumber_succeeds finite (reachable.offers finite)
  refine ⟨fun x finite => ?_, takes 1.0 isFinite_one,
    fun x a s₁ first t later y b t' second => ofNumber_inj first later second,
    fun id c x found real => ofNumber_of_real reachable found real,
    fun id c lin found abstract pure x finite label member => ?_⟩
  · obtain ⟨id, s', run⟩ := takes x finite
    exact ⟨id, s', run, (ofNumber_eq_ok run).2.2.2⟩
  · have named := (reachable.scalarsNamed found).1 lin pure
    rw [abstract] at named
    obtain ⟨-, sym, lin⟩ := named
    have unread : isNumberLabel label = false := by
      simp only [List.mem_cons, List.not_mem_nil, or_false] at member
      rcases member with rfl | rfl <;> assumption
    obtain ⟨readSym, readLin⟩ := isNumberLabel_numberLabels finite
    constructor <;> rintro rfl
    · simp [readSym] at unread
    · simp [readLin] at unread

/-- Behind an abstract scalar, an interval and a sum, both zeros have one scalar, which is not
that of one half, and the abstract scalar has none of their labels. -/
theorem numbers_exact_interval : ∃ s, Session.Reachable {} s ∧
    (s.ScalarHas ⟨0⟩ fun c => c.value = none ∧ c.sym ≠ (numberLabels 0.5).sym) ∧
    ∃ a s₁ b s₂ c s₃, ofNumber 0.0 s = .ok a s₁ ∧ ofNumber (-0.0) s₁ = .ok b s₂ ∧
      ofNumber 0.5 s₁ = .ok c s₃ ∧ a = b ∧ a ≠ c := by
  obtain ⟨s, reachable, a, found, abstract, pure⟩ : ∃ s, Session.Reachable {} s ∧
      s.ScalarHas ⟨0⟩ fun c => c.value = none ∧ c.pureLin = some "a" :=
    ⟨Request.performAll {} [.scalar ⟨"a", "a"⟩, .sequence, .instant ⟨0⟩ "k", .instant ⟨0⟩ "l",
      .interval ⟨0⟩ ⟨1⟩, .scalarSum (.scalar ⟨0⟩) (.number 0.5)], .performAll {} _,
      by decide +kernel⟩
  obtain ⟨takes, -, inj, -, apart⟩ := numbers_exact reachable
  have half : (0.5 : Float).isFinite = true := by decide +kernel
  obtain ⟨a₁, s₁, zero, -⟩ := takes 0.0 (by decide +kernel)
  have reachable₁ := reachable.of_request (.number 0.0) rfl zero
  obtain ⟨takes₁, -⟩ := numbers_exact reachable₁
  obtain ⟨b, s₂, negative, -⟩ := takes₁ (-0.0) (by decide +kernel)
  obtain ⟨c, s₃, taken, -⟩ := takes₁ 0.5 half
  refine ⟨s, reachable, ⟨a, found, abstract, ?_⟩, a₁, s₁, b, s₂, c, s₃, zero, negative, taken,
    ?_, ?_⟩
  · exact (apart ⟨0⟩ a "a" found abstract pure 0.5 half a.sym List.mem_cons_self).1
  · exact (inj _ _ _ zero s₁ .refl _ _ _ negative).2 (by decide +kernel)
  · intro same
    exact absurd ((inj _ _ _ zero s₁ .refl _ _ _ taken).1 same) (by decide +kernel)

end Scalar

end Variational
