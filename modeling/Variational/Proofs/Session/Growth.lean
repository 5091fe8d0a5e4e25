import Variational.Proofs.Session.Extension

/-!
# Derivations that only grow their session

A derivation grows its session when it leaves behind a session that is reached
by steps, whether it succeeds or fails. Growth is composed along the operations
that derivations are written with.
-/

namespace Variational

namespace Derive

variable {α β : Type} {s s' : Session}

/-- Running a derivation from a session only makes steps of sessions. -/
def Grows (m : Derive α) (s : Session) : Prop :=
  s.Steps (m.after s)

theorem Grows.steps {m : Derive α} {a : α} (grows : m.Grows s) (run : m s = .ok a s') :
    s.Steps s' := by
  rw [Grows, after_of_ok run] at grows
  exact grows

theorem Grows.extends {m : Derive α} {a : α} (grows : m.Grows s) (run : m s = .ok a s') :
    s.Extends s' :=
  (grows.steps run).extends

theorem Grows.pure {a : α} : (Pure.pure a : Derive α).Grows s :=
  .refl

theorem Grows.lift {o : Outcome α} : (liftM o : Derive α).Grows s := by
  cases o with
  | error _ => exact .refl
  | ok _ => exact .refl

theorem Grows.set (step : s.Step s') : (MonadStateOf.set s' : Derive PUnit).Grows s :=
  .single step

theorem Grows.bind {m : Derive α} {f : α → Derive β} (first : m.Grows s)
    (rest : ∀ a s', m s = .ok a s' → (f a).Grows s') : (m >>= f).Grows s := by
  unfold Grows after at first ⊢
  simp only [Bind.bind, EStateM.bind]
  cases run : m s with
  | ok a mid =>
    rw [run] at first
    exact first.trans (rest a mid run)
  | error _ mid =>
    rw [run] at first
    exact first

theorem Grows.get_bind {f : Session → Derive β} (rest : (f s).Grows s) :
    (get >>= f : Derive β).Grows s :=
  rest

theorem Grows.lift_bind {o : Outcome α} {f : α → Derive β}
    (rest : ∀ a, o = .ok a → (f a).Grows s) : (liftM o >>= f : Derive β).Grows s := by
  refine Grows.bind .lift fun a mid run => ?_
  obtain ⟨success, rfl⟩ := lift_eq_ok.1 run
  exact rest a success

theorem Grows.set_bind {f : PUnit → Derive β} (step : s.Step s') (rest : (f ⟨⟩).Grows s') :
    (MonadStateOf.set s' >>= f : Derive β).Grows s :=
  Relation.ReflTransGen.head step rest

theorem Grows.modify {f : Session → Session} (step : s.Step (f s)) :
    (modifyGet fun s => (⟨⟩, f s) : Derive PUnit).Grows s :=
  .single step

/-- A check that either rejects or lets the derivation go on. -/
theorem Grows.guard {c : Prop} [Decidable c] {o : Outcome PUnit} {f : PUnit → Derive α}
    (rest : ¬ c → (f ⟨⟩).Grows s) (fails : ∀ a, o ≠ .ok a) :
    (if c then liftM o >>= f else f ⟨⟩ : Derive α).Grows s := by
  by_cases holds : c
  · rw [if_pos holds]
    exact .lift_bind fun a success => absurd success (fails a)
  · rw [if_neg holds]
    exact rest holds

theorem Grows.mapM {f : α → Derive β} (each : ∀ a s', (f a).Grows s') (l : List α) :
    ∀ s, (l.mapM f).Grows s := by
  induction l with
  | nil => exact fun _ => .pure
  | cons a l ih =>
    intro s
    rw [List.mapM_cons]
    exact .bind (each a s) fun _ _ _ => .bind (ih _) fun _ _ _ => .pure

/-- What each call of a derivation establishes holds of all results after the last call, if
it is kept by steps. -/
theorem mapM_forall₂ {f : α → Derive β} {P : Session → α → β → Prop} {xs : List α}
    {ys : List β} (grows : ∀ a s, (f a).Grows s)
    (keeps : ∀ {s s' a b}, s.Steps s' → P s a b → P s' a b)
    (each : ∀ {a b mid last}, s.Steps mid → f a mid = .ok b last → P last a b)
    (run : xs.mapM f s = .ok ys s') : List.Forall₂ (P s') xs ys := by
  induction xs generalizing s ys with
  | nil =>
    obtain ⟨rfl, rfl⟩ := pure_eq_ok.1 run
    exact .nil
  | cons x xs ih =>
    simp only [List.mapM_cons, bind_eq_ok, pure_eq_ok] at run
    obtain ⟨y, mid, first, ys, last, rest, rfl, rfl⟩ := run
    have steps := (grows x s).steps first
    have later := (Grows.mapM grows xs mid).steps rest
    exact .cons (keeps later (each .refl first)) (ih (fun before => each (steps.trans before)) rest)

theorem Grows.foldlM {f : β → α → Derive β} (each : ∀ b a s', (f b a).Grows s') (l : List α) :
    ∀ b s, (l.foldlM f b).Grows s := by
  induction l with
  | nil => exact fun _ _ => .pure
  | cons a l ih =>
    intro b s
    rw [List.foldlM_cons]
    exact .bind (each b a s) fun _ _ _ => ih _ _

theorem Grows.forM {f : α → Derive PUnit} (each : ∀ a s', (f a).Grows s') (l : List α) :
    ∀ s, (l.forM f).Grows s := by
  induction l with
  | nil => exact fun _ => .pure
  | cons a l ih =>
    intro s
    exact Grows.bind (each a s) fun _ _ _ => ih _

end Derive

end Variational
