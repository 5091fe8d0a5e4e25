import Mathlib.Data.List.Forall2
import Variational.Session

/-!
# Running derivation steps

Inversion and evaluation of the operations that derivation steps are written
with. A step that succeeds is taken apart by `Derive.bind_eq_ok` and its
companions; a step whose parts are known to succeed is evaluated by
`Derive.bind_of_ok` and its companions. `Derive.after` is the session that a step
leaves behind, whether it succeeds or fails.
-/

namespace Variational

/-! ## Requests that change nothing -/

namespace Outcome

variable {α β : Type}

theorem bind_eq_ok {m : Outcome α} {f : α → Outcome β} {b : β} :
    m >>= f = .ok b ↔ ∃ a, m = .ok a ∧ f a = .ok b := by
  cases m with
  | error _ => simp [bind, Except.bind]
  | ok a => simp [bind, Except.bind]

theorem bind_of_ok {m : Outcome α} {a : α} (first : m = .ok a) (f : α → Outcome β) :
    m >>= f = f a := by
  rw [first]
  rfl

theorem pure_eq_ok {a b : α} : (pure a : Outcome α) = .ok b ↔ a = b := by
  simp [pure, Except.pure]

@[simp] theorem reject_eq_ok {cause : Rejection} {a : α} :
    (reject cause : Outcome α) = .ok a ↔ False := by
  simp [reject]

@[simp] theorem foreign_eq_ok {kind : EntityKind} {a : α} :
    (foreign kind : Outcome α) = .ok a ↔ False := by
  simp [foreign]

/-- A check that either rejects or lets the request go on. -/
theorem guard_eq_ok {c : Prop} [Decidable c] {cause : Rejection} {f : PUnit → Outcome α} {a : α} :
    (if c then reject cause >>= f else f ⟨⟩) = .ok a ↔ ¬ c ∧ f ⟨⟩ = .ok a := by
  by_cases holds : c
  · simp [holds, bind_eq_ok]
  · simp [holds]

/-- A check of which the rejection reads from a session. -/
theorem guard_bind_eq_ok {c : Prop} [Decidable c] {m : Outcome β} {cause : β → Rejection}
    {f : PUnit → Outcome α} {a : α} :
    (if c then m >>= fun x => reject (cause x) >>= f else f ⟨⟩) = .ok a ↔ ¬ c ∧ f ⟨⟩ = .ok a := by
  by_cases holds : c
  · simp [holds, bind_eq_ok]
  · simp [holds]

theorem mapM_eq_ok {f : α → Outcome β} {xs : List α} {ys : List β} :
    xs.mapM f = .ok ys ↔ List.Forall₂ (fun x y => f x = .ok y) xs ys := by
  induction xs generalizing ys with
  | nil =>
    rw [List.mapM_nil, pure_eq_ok, List.forall₂_nil_left_iff, eq_comm]
  | cons x xs ih =>
    simp only [List.mapM_cons, bind_eq_ok, pure_eq_ok, ih, List.forall₂_cons_left_iff]
    constructor
    · intro given
      rcases given with ⟨y, first, ys, later, rfl⟩
      exact ⟨y, ys, first, later, rfl⟩
    · intro given
      rcases given with ⟨y, ys, first, later, rfl⟩
      exact ⟨y, first, ys, later, rfl⟩

theorem mapM_total {f : α → Outcome β} {xs : List α} (each : ∀ x ∈ xs, ∃ y, f x = .ok y) :
    ∃ ys, xs.mapM f = .ok ys := by
  induction xs with
  | nil => exact ⟨[], rfl⟩
  | cons x xs ih =>
    obtain ⟨y, first⟩ := each x List.mem_cons_self
    obtain ⟨ys, later⟩ := ih fun x member => each x (List.mem_cons_of_mem _ member)
    exact ⟨y :: ys, by rw [List.mapM_cons, first, later]; rfl⟩

theorem forM_eq_ok {f : α → Outcome Unit} {xs : List α} {u : Unit} :
    xs.forM f = .ok u ↔ ∀ x ∈ xs, f x = .ok () := by
  induction xs with
  | nil => simp [List.forM, pure, Except.pure]
  | cons x xs ih =>
    change (f x >>= fun _ => xs.forM f) = .ok u ↔ _
    rw [bind_eq_ok, List.forall_mem_cons]
    simp only [ih]
    constructor
    · intro given
      rcases given with ⟨⟨⟩, first, later⟩
      exact ⟨first, later⟩
    · intro given
      rcases given with ⟨first, later⟩
      exact ⟨⟨⟩, first, later⟩

/-- A test that always succeeds filters as its answers do. -/
theorem filterM_of_ok {f : α → Outcome Bool} {g : α → Bool} {xs : List α}
    (each : ∀ x ∈ xs, f x = .ok (g x)) : xs.filterM f = .ok (xs.filter g) := by
  have aux : ∀ acc, xs.filterAuxM f acc = .ok ((xs.filter g).reverse ++ acc) := by
    induction xs with
    | nil => exact fun _ => rfl
    | cons x xs ih =>
      intro acc
      have rest := ih fun y member => each y (List.mem_cons_of_mem _ member)
      rw [List.filterAuxM, each x List.mem_cons_self]
      refine (rest _).trans ?_
      cases value : g x <;> simp [value]
  rw [List.filterM, aux, List.append_nil]
  simp [bind, Except.bind, pure, Except.pure]

end Outcome

/-- A member of a list that is related to another list is related to a member of that one. -/
theorem exists_mem_of_forall₂ {α β : Type} {R : α → β → Prop} {xs : List α} {ys : List β}
    (related : List.Forall₂ R xs ys) {y : β} (member : y ∈ ys) : ∃ x ∈ xs, R x y := by
  obtain ⟨i, held, rfl⟩ := List.mem_iff_getElem.1 member
  have held' : i < xs.length := related.length_eq ▸ held
  exact ⟨xs[i], List.getElem_mem held', related.get held' held⟩

/-! ## Derivation steps -/

namespace Derive

variable {α β : Type} {s s' : Session}

theorem bind_eq_ok {m : Derive α} {f : α → Derive β} {b : β} :
    (m >>= f) s = .ok b s' ↔ ∃ a mid, m s = .ok a mid ∧ f a mid = .ok b s' := by
  simp only [bind, EStateM.bind]
  cases m s with
  | ok a mid =>
    constructor
    · intro run
      exact ⟨a, mid, rfl, run⟩
    · intro given
      rcases given with ⟨_, _, first, run⟩
      cases first
      exact run
  | error _ _ => simp

theorem pure_eq_ok {a b : α} : (pure a : Derive α) s = .ok b s' ↔ a = b ∧ s = s' := by
  simp [pure, EStateM.pure]

theorem get_eq_ok {r : Session} : (get : Derive Session) s = .ok r s' ↔ s = r ∧ s = s' := by
  change EStateM.Result.ok s s = .ok r s' ↔ s = r ∧ s = s'
  rw [EStateM.Result.ok.injEq]

theorem set_eq_ok {new : Session} {u : PUnit} :
    (set new : Derive PUnit) s = .ok u s' ↔ new = s' := by
  change EStateM.Result.ok ⟨⟩ new = .ok u s' ↔ new = s'
  rw [EStateM.Result.ok.injEq, and_iff_right rfl]

theorem lift_eq_ok {o : Outcome α} {a : α} :
    (liftM o : Derive α) s = .ok a s' ↔ o = .ok a ∧ s = s' := by
  cases o with
  | error _ => simp [liftM, monadLift, MonadLift.monadLift]
  | ok _ => simp [liftM, monadLift, MonadLift.monadLift]

/-- A check that either rejects or lets the step go on. -/
theorem guard_eq_ok {c : Prop} [Decidable c] {cause : Rejection} {f : PUnit → Derive α} {a : α} :
    (if c then liftM (reject cause) >>= f else f ⟨⟩ : Derive α) s = .ok a s' ↔
      ¬ c ∧ f ⟨⟩ s = .ok a s' := by
  by_cases holds : c
  · simp [holds, bind_eq_ok, lift_eq_ok]
  · simp [holds]

theorem bind_of_ok {m : Derive α} {a : α} {mid : Session} (first : m s = .ok a mid)
    (f : α → Derive β) : (m >>= f) s = f a mid := by
  simp only [bind, EStateM.bind, first]

/-- A derivation ends with the first failure. -/
theorem bind_of_error {m : Derive α} {failure : Failure} {mid : Session}
    (first : m s = .error failure mid) (f : α → Derive β) : (m >>= f) s = .error failure mid := by
  simp only [bind, EStateM.bind, first]

/-- Two derivations that begin alike and go on alike are the same. -/
theorem bind_eq_bind {m m' : Derive α} {f f' : α → Derive β} (first : m s = m' s)
    (rest : ∀ a mid, m' s = .ok a mid → f a mid = f' a mid) : (m >>= f) s = (m' >>= f') s := by
  simp only [bind, EStateM.bind, first]
  cases run : m' s with
  | ok a mid => exact rest a mid run
  | error failure mid => rfl

theorem get_bind (f : Session → Derive α) : (get >>= f) s = f s s := rfl

theorem lift_bind_of_ok {o : Outcome α} {a : α} (first : o = .ok a) (f : α → Derive β) :
    (liftM o >>= f : Derive β) s = f a s := by
  rw [first]
  rfl

/-! ## The session after a step -/

/-- The session that a step leaves behind. A step that fails keeps what it registered. -/
def after (m : Derive α) (s : Session) : Session :=
  match m s with
  | .ok _ s' => s'
  | .error _ s' => s'

theorem after_of_ok {m : Derive α} {a : α} (run : m s = .ok a s') : m.after s = s' := by
  rw [after, run]

end Derive

end Variational
