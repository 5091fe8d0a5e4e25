import Variational.Proofs.Admissible.References
import Variational.Proofs.Derivations

/-!
# Answered requests

A request is answered if it is rejected, or has a result as it should be. What is not an
answer is the failure for an id that the session never issued. Requests are answered if
the requests are that they are put together from.
-/

namespace Variational

/-- A failure that rejects the request. -/
def Failure.IsRejection : Failure → Prop
  | .rejected _ => True
  | .foreign _ => False

variable {α β : Type}

/-! ## Requests that change nothing -/

namespace Outcome

variable {o : Outcome α} {P : α → Prop} {Q : β → Prop}

/-- A request that changes nothing is rejected, or its result has a property. -/
def Answered (o : Outcome α) (Q : α → Prop) : Prop :=
  match o with
  | .ok a => Q a
  | .error failure => failure.IsRejection

namespace Answered

theorem pure {b : β} (holds : Q b) : (Pure.pure b : Outcome β).Answered Q :=
  holds

theorem reject {cause : Rejection} : (Variational.reject cause : Outcome β).Answered Q :=
  trivial

theorem mono {P' : α → Prop} (answered : o.Answered P) (weaker : ∀ a, P a → P' a) :
    o.Answered P' := by
  cases o with
  | ok a => exact weaker a answered
  | error failure => exact answered

/-- A request is answered, whatever its result is. -/
theorem any (answered : o.Answered P) : o.Answered fun _ => True :=
  answered.mono fun _ _ => trivial

theorem discard (answered : o.Answered P) :
    (Functor.discard o : Outcome Unit).Answered fun _ => True := by
  cases o with
  | ok a => trivial
  | error failure => exact answered

theorem bind {f : α → Outcome β} (first : o.Answered P)
    (rest : ∀ a, P a → (f a).Answered Q) : (o >>= f).Answered Q := by
  cases o with
  | ok a => exact rest a first
  | error failure => exact first

theorem reject_bind {cause : Rejection} {f : α → Outcome β} :
    (Variational.reject cause >>= f).Answered Q :=
  trivial

theorem bind_reject {cause : α → Rejection} {f : PUnit → Outcome β} (first : o.Answered P) :
    (o >>= fun a => Variational.reject (cause a) >>= f).Answered Q :=
  first.bind fun _ _ => .reject

/-- A check that either rejects or lets the request go on. -/
theorem guard {c : Prop} [Decidable c] {cause : Rejection} {f : PUnit → Outcome β}
    (rest : ¬ c → (f ⟨⟩).Answered Q) :
    (if c then Variational.reject cause >>= f else f ⟨⟩ : Outcome β).Answered Q := by
  split
  · exact .reject
  · exact rest ‹_›

/-- A check of which the rejection reads from a session. -/
theorem guard_bind {c : Prop} [Decidable c] {cause : α → Rejection} {f : PUnit → Outcome β}
    (first : o.Answered P) (rest : ¬ c → (f ⟨⟩).Answered Q) :
    (if c then o >>= fun a => Variational.reject (cause a) >>= f else f ⟨⟩ :
      Outcome β).Answered Q := by
  split
  · exact first.bind_reject
  · exact rest ‹_›

theorem mapM {f : α → Outcome β} {as : List α} (each : ∀ a ∈ as, (f a).Answered Q) :
    (as.mapM f).Answered fun bs => ∀ b ∈ bs, Q b := by
  induction as with
  | nil => exact .pure (List.forall_mem_nil _)
  | cons a as ih =>
    rw [List.mapM_cons]
    exact (each a List.mem_cons_self).bind fun b holds =>
      (ih fun a' member => each a' (List.mem_cons_of_mem _ member)).bind fun bs rest =>
        .pure (List.forall_mem_cons.2 ⟨holds, rest⟩)

theorem forM {f : α → Outcome PUnit} {as : List α}
    (each : ∀ a ∈ as, (f a).Answered fun _ => True) : (as.forM f).Answered fun _ => True := by
  induction as with
  | nil => exact .pure trivial
  | cons a as ih =>
    exact bind (each a List.mem_cons_self) fun _ _ =>
      ih fun a' member => each a' (List.mem_cons_of_mem _ member)

theorem foldlM {f : β → α → Outcome β} {as : List α} {b : β} (start : Q b)
    (each : ∀ b, Q b → ∀ a ∈ as, (f b a).Answered Q) : (as.foldlM f b).Answered Q := by
  induction as generalizing b with
  | nil => exact .pure start
  | cons a as ih =>
    rw [List.foldlM_cons]
    exact (each b start a List.mem_cons_self).bind fun b' next =>
      ih next fun b'' holds a' member => each b'' holds a' (List.mem_cons_of_mem _ member)

theorem filterM {f : α → Outcome Bool} {as : List α}
    (each : ∀ a ∈ as, (f a).Answered fun _ => True) :
    (as.filterM f).Answered fun _ => True := by
  suffices aux : ∀ acc, (as.filterAuxM f acc).Answered fun _ => True from
    bind (aux []) fun _ _ => .pure trivial
  induction as with
  | nil => exact fun _ => .pure trivial
  | cons a as ih =>
    exact fun acc => bind (each a List.mem_cons_self) fun _ _ =>
      ih (fun a' member => each a' (List.mem_cons_of_mem _ member)) _

end Answered

end Outcome

/-! ## Derivation steps -/

namespace Derive

variable {m : Derive α} {s s' : Session} {P : Session → α → Prop} {Q : Session → β → Prop}

/-- A derivation step is rejected, or its result and the session it leaves behind are related. -/
def Answered (m : Derive α) (s : Session) (Q : Session → α → Prop) : Prop :=
  match m s with
  | .ok a s' => Q s' a
  | .error failure _ => failure.IsRejection

namespace Answered

theorem pure {b : β} (holds : Q s b) : (Pure.pure b : Derive β).Answered s Q :=
  holds

theorem lift {o : Outcome β} (answered : o.Answered (Q s)) :
    (liftM o : Derive β).Answered s Q := by
  cases o with
  | ok b => exact answered
  | error failure => exact answered

theorem reject {cause : Rejection} :
    (liftM (Variational.reject cause : Outcome β) : Derive β).Answered s Q :=
  trivial

theorem mono {P' : Session → α → Prop} (answered : m.Answered s P)
    (weaker : ∀ s' a, P s' a → P' s' a) : m.Answered s P' := by
  unfold Answered at answered ⊢
  cases run : m s with
  | ok a s' => exact weaker s' a (by simpa only [run] using answered)
  | error failure s' => simpa only [run] using answered

/-- The rest of a derivation is carried out in a larger session. -/
theorem bind {f : α → Derive β} (grows : m.Grows s) (first : m.Answered s P)
    (rest : ∀ a s', s.Steps s' → P s' a → (f a).Answered s' Q) : (m >>= f).Answered s Q := by
  unfold Answered at first ⊢
  simp only [Bind.bind, EStateM.bind]
  cases run : m s with
  | ok a s' =>
    rw [run] at first
    exact rest a s' (grows.steps run) first
  | error failure s' =>
    rw [run] at first
    exact first

/-- The result is computed from that of a derivation. -/
theorem bind_pure {g : α → β} (first : m.Answered s fun s' a => Q s' (g a)) :
    (m >>= fun a => Pure.pure (g a) : Derive β).Answered s Q := by
  unfold Answered at first ⊢
  simp only [Bind.bind, EStateM.bind]
  cases run : m s with
  | ok a s' =>
    rw [run] at first
    exact first
  | error failure s' =>
    rw [run] at first
    exact first

theorem reject_bind {cause : Rejection} {f : α → Derive β} :
    (liftM (Variational.reject cause : Outcome α) >>= f : Derive β).Answered s Q :=
  trivial

theorem get_bind {f : Session → Derive β} (rest : (f s).Answered s Q) :
    (get >>= f : Derive β).Answered s Q :=
  rest

theorem lift_bind {o : Outcome α} {R : α → Prop} {f : α → Derive β} (first : o.Answered R)
    (rest : ∀ a, R a → (f a).Answered s Q) : (liftM o >>= f : Derive β).Answered s Q := by
  cases o with
  | ok a => exact rest a first
  | error failure => exact first

theorem set_bind {f : PUnit → Derive β} (rest : (f ⟨⟩).Answered s' Q) :
    (MonadStateOf.set s' >>= f : Derive β).Answered s Q :=
  rest

/-- A check that either rejects or lets the derivation go on. -/
theorem guard {c : Prop} [Decidable c] {cause : Rejection} {f : PUnit → Derive β}
    (rest : ¬ c → (f ⟨⟩).Answered s Q) :
    (if c then liftM (Variational.reject cause : Outcome PUnit) >>= f else f ⟨⟩ :
      Derive β).Answered s Q := by
  split
  · exact trivial
  · exact rest ‹_›

theorem discard (answered : m.Answered s P) :
    (Functor.discard m : Derive Unit).Answered s fun _ _ => True := by
  unfold Answered at answered ⊢
  simp only [Functor.discard, Functor.mapConst, Function.comp_apply, EStateM.map]
  cases run : m s with
  | ok a s' => trivial
  | error failure s' => simpa only [run] using answered

section Lists

variable [Refers β]

/-- What every call gives is still there after the last call. -/
theorem mapM {f : α → Derive β} {as : List α} (grows : ∀ a s, (f a).Grows s)
    (each : ∀ a ∈ as, ∀ s', s.Steps s' → (f a).Answered s' Session.Issued) :
    (as.mapM f).Answered s Session.Issued := by
  induction as generalizing s with
  | nil => exact .pure (List.forall_mem_nil _)
  | cons a as ih =>
    rw [List.mapM_cons]
    refine .bind (grows a s) (each a List.mem_cons_self s .refl) fun b mid steps issued => ?_
    refine .bind (.mapM grows as mid) (ih fun a' member s' later =>
      each a' (List.mem_cons_of_mem _ member) s' (steps.trans later)) fun bs last later rest => ?_
    exact .pure (Session.issued_cons.2 ⟨issued.later later, rest⟩)

theorem foldlM {f : β → α → Derive β} {as : List α} {b : β} (grows : ∀ b a s, (f b a).Grows s)
    (start : s.Issued b) (each : ∀ b, ∀ a ∈ as, ∀ s', s.Steps s' → s'.Issued b →
      (f b a).Answered s' Session.Issued) : (as.foldlM f b).Answered s Session.Issued := by
  induction as generalizing s b with
  | nil => exact .pure start
  | cons a as ih =>
    rw [List.foldlM_cons]
    refine .bind (grows b a s) (each b a List.mem_cons_self s .refl start)
      fun b' mid steps next => ?_
    exact ih next fun b'' a' member s' later issued =>
      each b'' a' (List.mem_cons_of_mem _ member) s' (steps.trans later) issued

end Lists

theorem forM {f : α → Derive PUnit} {as : List α} (grows : ∀ a s, (f a).Grows s)
    (each : ∀ a ∈ as, ∀ s', s.Steps s' → (f a).Answered s' fun _ _ => True) :
    (as.forM f).Answered s fun _ _ => True := by
  induction as generalizing s with
  | nil => exact .pure trivial
  | cons a as ih =>
    exact .bind (grows a s) (each a List.mem_cons_self s .refl) fun _ _ steps _ =>
      ih fun a' member s' later => each a' (List.mem_cons_of_mem _ member) s' (steps.trans later)

end Answered

end Derive

/-! ## Discretization steps -/

namespace Discretize

variable {m : Discretize α} {w : Workspace} {P : Workspace → α → Prop}
  {Q : Workspace → β → Prop}

/-- A discretization step is rejected, or its result and the workspace it leaves behind are
related. -/
def Answered (m : Discretize α) (w : Workspace) (Q : Workspace → α → Prop) : Prop :=
  match m w with
  | .ok a w' => Q w' a
  | .error failure _ => failure.IsRejection

namespace Answered

theorem pure {b : β} (holds : Q w b) : (Pure.pure b : Discretize β).Answered w Q :=
  holds

theorem reject {cause : Rejection} :
    (liftM (Variational.reject cause : Outcome β) : Discretize β).Answered w Q :=
  trivial

theorem mono {P' : Workspace → α → Prop} (answered : m.Answered w P)
    (weaker : ∀ w' a, P w' a → P' w' a) : m.Answered w P' := by
  unfold Answered at answered ⊢
  cases run : m w with
  | ok a w' => exact weaker w' a (by simpa only [run] using answered)
  | error failure w' => simpa only [run] using answered

/-- A request is answered, whatever it leaves behind. -/
theorem any (answered : m.Answered w P) : m.Answered w fun _ _ => True :=
  answered.mono fun _ _ _ => trivial

theorem bind {f : α → Discretize β} (grows : m.Grows w) (first : m.Answered w P)
    (rest : ∀ a w', w.session.Steps w'.session → P w' a → (f a).Answered w' Q) :
    (m >>= f).Answered w Q := by
  unfold Answered at first ⊢
  unfold Discretize.Grows after at grows
  simp only [Bind.bind, EStateM.bind]
  cases run : m w with
  | ok a w' =>
    rw [run] at first grows
    exact rest a w' grows first
  | error failure w' =>
    rw [run] at first
    exact first

theorem get_bind {f : Workspace → Discretize β} (rest : (f w).Answered w Q) :
    (get >>= f : Discretize β).Answered w Q :=
  rest

theorem lift_bind {o : Outcome α} {R : α → Prop} {f : α → Discretize β} (first : o.Answered R)
    (rest : ∀ a, R a → (f a).Answered w Q) : (liftM o >>= f : Discretize β).Answered w Q := by
  cases o with
  | ok a => exact rest a first
  | error failure => exact first

/-- A derivation step leaves the plan alone. -/
theorem derive_bind {step : Derive α} {R : Session → α → Prop} {f : α → Discretize β}
    (grows : step.Grows w.session) (first : step.Answered w.session R)
    (rest : ∀ a s', w.session.Steps s' → R s' a → (f a).Answered ⟨s', w.plan⟩ Q) :
    (liftM step >>= f : Discretize β).Answered w Q := by
  unfold Derive.Answered at first
  unfold Derive.Grows Derive.after at grows
  unfold Answered
  simp only [Bind.bind, EStateM.bind, liftM, monadLift, MonadLift.monadLift]
  cases run : step w.session with
  | ok a s' =>
    rw [run] at first grows
    exact rest a s' grows first
  | error failure s' =>
    rw [run] at first
    exact first

theorem derive {step : Derive β} {R : Session → β → Prop} (grows : step.Grows w.session)
    (first : step.Answered w.session R)
    (rest : ∀ b s', w.session.Steps s' → R s' b → Q ⟨s', w.plan⟩ b) :
    (liftM step : Discretize β).Answered w Q := by
  rw [← bind_pure (liftM step : Discretize β)]
  exact derive_bind grows first fun b s' steps held => pure (rest b s' steps held)

/-- A check that either rejects or lets the discretization go on. -/
theorem guard {c : Prop} [Decidable c] {cause : Rejection} {f : PUnit → Discretize β}
    (rest : ¬ c → (f ⟨⟩).Answered w Q) :
    (if c then liftM (Variational.reject cause : Outcome PUnit) >>= f else f ⟨⟩ :
      Discretize β).Answered w Q := by
  split
  · exact trivial
  · exact rest ‹_›

theorem discard (answered : m.Answered w P) :
    (Functor.discard m : Discretize Unit).Answered w fun _ _ => True := by
  unfold Answered at answered ⊢
  simp only [Functor.discard, Functor.mapConst, Function.comp_apply, EStateM.map]
  cases run : m w with
  | ok a w' => trivial
  | error failure w' => simpa only [run] using answered

/-- A discretization step that is carried out as a derivation step. -/
theorem onSession {plan : Plan} {s : Session} (answered : m.Answered ⟨s, plan⟩ P) :
    (m.onSession plan).Answered s fun _ _ => True := by
  unfold Answered at answered
  unfold Derive.Answered Discretize.onSession
  cases run : m ⟨s, plan⟩ with
  | ok a w' => trivial
  | error failure w' => simpa only [run] using answered

end Answered

end Discretize

end Variational
