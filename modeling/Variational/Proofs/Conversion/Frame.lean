import Variational.Proofs.Derivations

/-!
# The frame of a conversion

The conversion of a term records spaces, scalars and arrays. Everything else in the
session is left alone, also by a conversion that fails: no form is recorded and no
warning is left behind.
-/

namespace Variational

/-- A session that differs only in its spaces, scalars and arrays. -/
def Session.Equipped (s s' : Session) : Prop :=
  ∃ spaces scalars scalarLabels arrays arrayLabels,
    s' = { s with spaces, scalars, scalarLabels, arrays, arrayLabels }

namespace Session.Equipped

variable {s s' s'' : Session}

theorem refl (s : Session) : s.Equipped s :=
  ⟨s.spaces, s.scalars, s.scalarLabels, s.arrays, s.arrayLabels, rfl⟩

theorem trans (first : s.Equipped s') (second : s'.Equipped s'') : s.Equipped s'' := by
  obtain ⟨_, _, _, _, _, rfl⟩ := first
  obtain ⟨spaces, scalars, scalarLabels, arrays, arrayLabels, rfl⟩ := second
  exact ⟨spaces, scalars, scalarLabels, arrays, arrayLabels, rfl⟩

theorem forms_eq (equipped : s.Equipped s') : s'.forms = s.forms := by
  obtain ⟨_, _, _, _, _, rfl⟩ := equipped
  rfl

theorem warnings_eq (equipped : s.Equipped s') : s'.warnings = s.warnings := by
  obtain ⟨_, _, _, _, _, rfl⟩ := equipped
  rfl

end Session.Equipped

namespace Derive

variable {α β : Type} {s s' : Session}

/-- Running a derivation changes nothing but spaces, scalars and arrays. -/
def Equips (m : Derive α) (s : Session) : Prop :=
  s.Equipped (m.after s)

namespace Equips

theorem equipped {m : Derive α} {a : α} (equips : m.Equips s) (run : m s = .ok a s') :
    s.Equipped s' := by
  rwa [Equips, after_of_ok run] at equips

theorem pure {a : α} : (Pure.pure a : Derive α).Equips s :=
  .refl s

theorem lift {o : Outcome α} : (liftM o : Derive α).Equips s := by
  cases o <;> exact .refl s

theorem set (equipped : s.Equipped s') : (MonadStateOf.set s' : Derive PUnit).Equips s :=
  equipped

theorem bind {m : Derive α} {f : α → Derive β} (first : m.Equips s)
    (rest : ∀ a s', m s = .ok a s' → (f a).Equips s') : (m >>= f).Equips s := by
  unfold Equips after at first ⊢
  simp only [Bind.bind, EStateM.bind]
  cases run : m s with
  | ok a mid =>
    rw [run] at first
    exact first.trans (rest a mid run)
  | error _ mid =>
    rw [run] at first
    exact first

theorem get_bind {f : Session → Derive β} (rest : (f s).Equips s) :
    (get >>= f : Derive β).Equips s :=
  rest

theorem lift_bind {o : Outcome α} {f : α → Derive β} (rest : ∀ a, o = .ok a → (f a).Equips s) :
    (liftM o >>= f : Derive β).Equips s := by
  refine .bind .lift fun a mid run => ?_
  obtain ⟨success, rfl⟩ := lift_eq_ok.1 run
  exact rest a success

theorem set_bind {f : PUnit → Derive β} (equipped : s.Equipped s') (rest : (f ⟨⟩).Equips s') :
    (MonadStateOf.set s' >>= f : Derive β).Equips s :=
  equipped.trans rest

/-- A check that either rejects or lets the derivation go on. -/
theorem guard {c : Prop} [Decidable c] {o : Outcome PUnit} {f : PUnit → Derive α}
    (rest : (f ⟨⟩).Equips s) (fails : ∀ a, o ≠ .ok a) :
    (if c then liftM o >>= f else f ⟨⟩ : Derive α).Equips s := by
  split
  · exact .lift_bind fun a success => absurd success (fails a)
  · exact rest

theorem mapM {f : α → Derive β} (each : ∀ a s', (f a).Equips s') (l : List α) :
    ∀ s, (l.mapM f).Equips s := by
  induction l with
  | nil => exact fun _ => .pure
  | cons a l ih =>
    intro s
    rw [List.mapM_cons]
    exact .bind (each a s) fun _ _ _ => .bind (ih _) fun _ _ _ => .pure

end Equips

end Derive

open Derive

variable {s : Session}

/-! ## Scalars -/

namespace Scalar

theorem register_equips (labels : Labels) (value : Option Float) :
    (register labels value).Equips s := by
  have create : (do
      liftM (s.scalarLabels.checkAvailable labels)
      set (s.addRootScalar labels value)
      return s.scalars.nextId : Derive ScalarId).Equips s :=
    .lift_bind fun _ _ => .set_bind
      ⟨s.spaces, _, _, s.arrays, s.arrayLabels, rfl⟩ .pure
  refine .get_bind ?_
  dsimp only
  split
  · split
    · refine .lift_bind fun present _ => ?_
      split
      · exact .pure
      · exact create
    · exact create
  · exact create

theorem ofNumber_equips (x : Float) : (ofNumber x).Equips s := by
  rw [ofNumber]
  exact .guard (register_equips _ _) (by simp)

theorem unit_equips : unit.Equips s :=
  ofNumber_equips 1.0

theorem derived_equips (labels : Labels) : (derived labels).Equips s := by
  refine .get_bind ?_
  split
  · exact .pure
  · exact .set_bind ⟨s.spaces, _, s.scalarLabels, s.arrays, s.arrayLabels, rfl⟩ .pure

theorem ofOperand_equips (operand : ScalarOperand) : (ofOperand operand).Equips s := by
  cases operand with
  | number x => exact ofNumber_equips x
  | scalar id => exact .pure

theorem div_equips (lhs rhs : ScalarOperand) : (div lhs rhs).Equips s := by
  refine .bind (ofOperand_equips _) fun left _ _ => .bind (ofOperand_equips _) fun right _ _ =>
    .get_bind (.lift_bind fun a _ => .lift_bind fun b _ => ?_)
  split
  · exact .guard (ofNumber_equips _) (by simp)
  · exact derived_equips _

end Scalar

/-! ## Spaces and arrays -/

namespace Space

theorem setDegree_equips (id : SpaceId) (d : Nat) : (setDegree id d).Equips s := by
  refine .get_bind (.lift_bind fun sp _ => ?_)
  split
  · exact .set ⟨_, s.scalars, s.scalarLabels, s.arrays, s.arrayLabels, rfl⟩
  · split
    · exact .lift
    · exact .pure

theorem withDegree_equips (mesh : MeshId) (k : Nat) (orientation : Orientation)
    (degree : Option Nat) : (withDegree mesh k orientation degree).Equips s := by
  refine .get_bind (.lift_bind fun m _ => .guard ?_ (by simp))
  split
  · cases degree with
    | none => exact .pure
    | some d => exact .bind (setDegree_equips _ d) fun _ _ _ => .pure
  · exact .set_bind ⟨_, s.scalars, s.scalarLabels, s.arrays, s.arrayLabels, rfl⟩ .pure

theorem derivative_equips (source : SpaceId) : (derivative source).Equips s :=
  .get_bind (.lift_bind fun _ _ => .get_bind (.lift_bind fun _ _ =>
    .guard (withDegree_equips _ _ _ _) (by simp)))

end Space

namespace RootArray

theorem register_equips (array : RootArray) : (register array).Equips s := by
  refine .get_bind ?_
  split
  · exact .pure
  · exact .lift_bind fun _ _ => .set_bind ⟨s.spaces, s.scalars, s.scalarLabels, _, _, rfl⟩ .pure

theorem registerNumbered_equips (array : RootArray) : (registerNumbered array).Equips s :=
  .get_bind (register_equips _)

theorem vector_equips (f : FormId) : (vector f).Equips s := by
  refine .get_bind (.lift_bind fun form _ => ?_)
  split
  · exact .lift
  · exact .lift_bind fun _ _ => register_equips _

theorem massMatrix_equips (space : SpaceId) : (massMatrix space).Equips s :=
  .get_bind (.lift_bind fun _ _ => .lift_bind fun _ _ => registerNumbered_equips _)

theorem incidenceMatrix_equips (space : SpaceId) : (incidenceMatrix space).Equips s :=
  .bind (Space.derivative_equips space) fun _ _ _ => .get_bind (.lift_bind fun _ _ =>
    .lift_bind fun _ _ => .lift_bind fun _ _ => registerNumbered_equips _)

theorem wedgeVector_equips (f : FormId) (space : SpaceId) : (wedgeVector f space).Equips s := by
  refine .get_bind (.lift_bind fun _ _ => .lift_bind fun form _ => ?_)
  split
  · exact .lift
  · exact .lift_bind fun _ _ => register_equips _

end RootArray

/-! ## Terms -/

namespace Term

theorem splitFactor_equips (f : FormId) : (splitFactor f).Equips s := by
  refine .get_bind (.lift_bind fun a _ => ?_)
  split
  · exact .pure
  · exact .bind (Scalar.div_equips _ _) fun _ _ _ => .pure
  · exact .bind Scalar.unit_equips fun _ _ _ => .pure

theorem formChain_equips (g : FormId) : (formChain g).Equips s := by
  refine .get_bind (.lift_bind fun form _ => ?_)
  split
  · exact .bind (RootArray.massMatrix_equips _) fun _ _ _ => .bind (RootArray.vector_equips _)
      fun _ _ _ => .get_bind (.lift_bind fun _ _ => .lift_bind fun _ _ => .pure)
  · split
    · refine .get_bind (.lift_bind fun inner _ => ?_)
      split
      · exact .pure
      · exact .bind (RootArray.massMatrix_equips _) fun _ _ _ =>
          .bind (RootArray.incidenceMatrix_equips _) fun _ _ _ =>
          .bind (RootArray.vector_equips _) fun _ _ _ => .get_bind (.lift_bind fun _ _ =>
            .lift_bind fun _ _ => .lift_bind fun _ _ => .pure)
    · exact .pure

theorem testChain_equips (t : Term) (testForm : FormId) : (t.testChain testForm).Equips s := by
  refine .bind (RootArray.vector_equips _) fun _ _ _ => .get_bind (.lift_bind fun _ _ => ?_)
  split
  · exact .pure
  · refine .get_bind (.lift_bind fun form _ => ?_)
    split
    · split
      · exact .pure
      · exact .get_bind (.lift_bind fun _ _ => .bind (RootArray.incidenceMatrix_equips _)
          fun _ _ _ => .get_bind (.lift_bind fun _ _ => .pure))
    · exact .pure

theorem convert_equips (t : Term) (testForm : FormId) : (t.convert testForm).Equips s := by
  rw [convert]
  split
  · refine .bind (testChain_equips t testForm) fun front _ _ => ?_
    cases front with
    | none => exact .pure
    | some front =>
      refine .bind (splitFactor_equips _) fun _ _ _ => .bind (formChain_equips _) fun core _ _ => ?_
      cases core with
      | none => exact .pure
      | some core => exact .lift_bind fun _ _ => .pure
  · refine .get_bind (.lift_bind fun u _ => ?_)
    cases u with
    | none => exact .pure
    | some u =>
      exact .bind (RootArray.vector_equips _) fun _ _ _ => .get_bind (.lift_bind fun _ _ =>
        .bind (RootArray.wedgeVector_equips _ _) fun _ _ _ => .bind Scalar.unit_equips
          fun _ _ _ => .get_bind (.lift_bind fun _ _ => .lift_bind fun _ _ =>
            .lift_bind fun _ _ => .pure))

end Term

end Variational
