import Variational.Block.System
import Variational.Discretization.Basic
import Variational.Pde.PortHamiltonian
import Variational.Proofs.Arrays
import Variational.Proofs.Forms
import Variational.Proofs.Times
import Variational.WeakForm.Derivation

/-!
# Composite derivations

Terms, weak formulations, algebraic systems, block systems and discretizations
are derived by operations that grow the session, so these derivations grow it.
-/

namespace Variational

open Derive

variable {s : Session}

/-! ## Terms -/

namespace Term

theorem replace_grows (t : Term) (target replacement : FormId) :
    (t.replace target replacement).Grows s := by
  refine .bind (Form.replace_grows _ _ _) fun f1 _ _ => ?_
  refine .bind (Form.replace_grows _ _ _) fun f2 _ _ => ?_
  split
  · exact .pure
  · exact .get_bind (.lift_bind fun _ _ => .pure)

theorem splitFactor_grows (f : FormId) : (splitFactor f).Grows s := by
  refine .get_bind (.lift_bind fun a _ => ?_)
  split
  · exact .pure
  · exact .bind (Scalar.div_grows _ _) fun _ _ _ => .pure
  · exact .bind Scalar.unit_grows fun _ _ _ => .pure

theorem formChain_grows (g : FormId) : (formChain g).Grows s := by
  refine .get_bind (.lift_bind fun form _ => ?_)
  split
  · exact .bind (RootArray.massMatrix_grows _) fun _ _ _ => .bind (RootArray.vector_grows _)
      fun _ _ _ => .get_bind (.lift_bind fun _ _ => .lift_bind fun _ _ => .pure)
  · split
    · refine .get_bind (.lift_bind fun inner _ => ?_)
      split
      · exact .pure
      · exact .bind (RootArray.massMatrix_grows _) fun _ _ _ =>
          .bind (RootArray.incidenceMatrix_grows _) fun _ _ _ =>
          .bind (RootArray.vector_grows _) fun _ _ _ => .get_bind (.lift_bind fun _ _ =>
            .lift_bind fun _ _ => .lift_bind fun _ _ => .pure)
    · exact .pure

theorem testChain_grows (t : Term) (testForm : FormId) : (t.testChain testForm).Grows s := by
  refine .bind (RootArray.vector_grows _) fun vector mid _ => .get_bind (.lift_bind fun _ _ => ?_)
  split
  · exact .pure
  · refine .get_bind (.lift_bind fun form _ => ?_)
    split
    · split
      · exact .pure
      · exact .get_bind (.lift_bind fun _ _ => .bind (RootArray.incidenceMatrix_grows _)
          fun _ _ _ => .get_bind (.lift_bind fun _ _ => .pure))
    · exact .pure

theorem convert_grows (t : Term) (testForm : FormId) : (t.convert testForm).Grows s := by
  rw [convert]
  split
  · refine .bind (testChain_grows t testForm) fun front mid _ => ?_
    cases front with
    | none => exact .pure
    | some front =>
      refine .bind (splitFactor_grows _) fun split _ _ => ?_
      refine .bind (formChain_grows _) fun core _ _ => ?_
      cases core with
      | none => exact .pure
      | some core => exact .lift_bind fun _ _ => .pure
  · refine .get_bind (.lift_bind fun u _ => ?_)
    cases u with
    | none => exact .pure
    | some u =>
      exact .bind (RootArray.vector_grows _) fun _ _ _ => .get_bind (.lift_bind fun _ _ =>
        .bind (RootArray.wedgeVector_grows _ _) fun _ _ _ => .bind Scalar.unit_grows
          fun _ _ _ => .get_bind (.lift_bind fun _ _ => .lift_bind fun _ _ =>
            .lift_bind fun _ _ => .pure))

theorem greenTerms_grows (a b : FormId) : (greenTerms a b).Grows s :=
  .bind (Form.apply_grows _ _) fun _ _ _ => .get_bind (.lift_bind fun _ _ =>
    .bind (Form.apply_grows _ _) fun _ _ _ => .bind (Form.apply_grows _ _) fun _ _ _ =>
      .bind (Form.apply_grows _ _) fun _ _ _ => .get_bind (.lift_bind fun _ _ => .pure))

end Term

/-! ## Weak formulations -/

theorem Piece.term_grows (piece : Piece) (t : Signed Term) (slot : Slot) :
    (piece.term t slot).Grows s := by
  rw [Piece.term]
  cases piece.factor with
  | none => exact .bind .pure fun _ _ _ => .get_bind (.lift_bind fun _ _ => .pure)
  | some factor =>
    exact .bind (Form.scale_grows _ _) fun _ _ _ => .get_bind (.lift_bind fun _ _ => .pure)

namespace WeakFormulation

theorem integrateByParts_grows (w : WeakFormulation) (address : String) :
    (w.integrateByParts address).Grows s := by
  refine .lift_bind fun place _ => .lift_bind fun signed _ => .get_bind (.lift_bind fun a _ => ?_)
  cases a with
  | none => exact .lift
  | some a =>
    exact .bind (Term.greenTerms_grows _ _) fun _ _ _ => .get_bind .lift

theorem split_grows (w : WeakFormulation) (address : String) (slot : Slot) (forms : List FormId)
    (signs : List Sign) (factors : Option (List ScalarOperand)) :
    (w.split address slot forms signs factors).Grows s := by
  rw [split]
  split
  · exact .lift
  · exact .lift_bind fun _ _ => .lift_bind fun old _ =>
      .bind (.mapM (fun piece _ => Piece.term_grows piece old slot) _ _) fun _ _ _ =>
        .get_bind .lift

end WeakFormulation

/-! ## Systems of partial differential equations -/

namespace Pde

theorem testEquation_grows (e : Equation FormId) (space : SpaceId) (labels : Labels) :
    (testEquation e space labels).Grows s :=
  .bind (Form.root_grows _ _) fun _ _ _ =>
    .get_bind (.lift_bind fun _ _ => .lift_bind fun _ _ => .pure)

theorem test_grows (p : Pde) (spaces : List SpaceId) (labels : List Labels) :
    (p.test spaces labels).Grows s := by
  rw [test]
  refine .guard (fun _ => ?_) (by simp)
  refine .bind (.mapM (fun _ _ => testEquation_grows _ _ _) _ _) fun tested _ _ =>
    .get_bind (.lift_bind fun w _ => ?_)
  cases p.unknowns with
  | none => exact .pure
  | some unknowns => exact .lift

theorem portHamiltonian_grows (n p : Nat) : (portHamiltonian n p).Grows s := by
  rw [portHamiltonian]
  refine .guard (fun _ => ?_) (by simp)
  exact .bind (Manifold.create_grows _) fun _ _ _ => .bind (Mesh.cover_grows _) fun _ _ _ =>
    .bind (Space.on_grows _ _ _) fun _ _ _ => .bind (Space.on_grows _ _ _) fun _ _ _ =>
    .bind (Form.root_grows _ _) fun _ _ _ => .bind (Form.root_grows _ _) fun _ _ _ =>
    .bind (Form.apply_grows _ _) fun _ _ _ => .bind (Form.apply_grows _ _) fun _ _ _ =>
    .bind (Form.apply_grows _ _) fun _ _ _ => .bind (Form.apply_grows _ _) fun _ _ _ =>
    .get_bind (.lift_bind fun _ _ => .lift_bind fun _ _ => .pure)

end Pde

/-! ## Algebraic systems -/

namespace AlgebraicSystem

theorem warn_grows (warning : Warning) : (warn warning).Grows s :=
  .modify (.warning _)

theorem convertTerm_grows (testForm : FormId) (position : Position) (t : Signed Term) :
    (convertTerm testForm position t).Grows s := by
  refine .bind (Term.convert_grows _ _) fun conversion _ _ => ?_
  cases conversion with
  | converted product => exact .get_bind (.lift_bind fun _ _ => .pure)
  | unsupported reason => exact .bind (warn_grows _) fun _ _ _ => .pure

theorem convertEquation_grows (equation : Nat) (e : Equation Term) (testForm : FormId) :
    (convertEquation equation e testForm).Grows s :=
  .bind (.mapM (fun _ _ => convertTerm_grows _ _ _) _ _) fun _ _ _ =>
    .bind (.mapM (fun _ _ => convertTerm_grows _ _ _) _ _) fun _ _ _ => .pure

theorem create_grows (w : WeakFormulation) : (create w).Grows s := by
  rw [create]
  cases w.unknowns with
  | none => exact .lift
  | some forms =>
    have vectors (fs : List FormId) (s : Session) : (fs.mapM RootArray.vector).Grows s :=
      .mapM (fun f _ => RootArray.vector_grows f) _ _
    exact .bind (vectors _ _) fun _ _ _ => .bind (vectors _ _) fun _ _ _ =>
      .bind (.mapM (fun _ _ => convertEquation_grows _ _ _) _ _) fun _ _ _ =>
      .get_bind (.lift_bind fun _ _ => .bind (vectors _ _) fun _ _ _ => .pure)

end AlgebraicSystem

/-! ## Block systems -/

theorem Target.array?_grows (target : Target) : target.array?.Grows s := by
  cases target with
  | form f => exact RootArray.vector_grows f
  | array a => exact .pure

theorem BlockVector.ofArrays_grows (arrays : List ArrayId) : (ofArrays arrays).Grows s :=
  .foldlM (fun _ _ _ => .bind (Product.single_grows _) fun _ _ _ => .lift) _ _ _

namespace BlockSystem

theorem gather_grows (b : BlockSystem) (targets : List Target) : (b.gather targets).Grows s :=
  .bind (.mapM (fun t _ => Target.array?_grows t) _ _) fun _ _ _ =>
    .bind (BlockVector.ofArrays_grows _) fun _ _ _ =>
      .lift_bind fun _ _ => .lift_bind fun _ _ => .pure

theorem ofAlgebraic_grows (a : AlgebraicSystem) : (ofAlgebraic a).Grows s :=
  .lift_bind fun _ _ => .get_bind (.lift_bind fun system _ => gather_grows system _)

theorem create_grows (w : WeakFormulation) : (create w).Grows s :=
  .bind (AlgebraicSystem.create_grows w) fun a _ _ => ofAlgebraic_grows a

end BlockSystem

/-! ## Discretizations -/

namespace Discretize

variable {α β : Type} {w : Workspace}

/-- The session that a discretization step leaves behind. -/
def after (m : Discretize α) (w : Workspace) : Session :=
  match m w with
  | .ok _ w' => w'.session
  | .error _ w' => w'.session

/-- Running a discretization from a workspace only makes steps of sessions. -/
def Grows (m : Discretize α) (w : Workspace) : Prop :=
  w.session.Steps (m.after w)

namespace Grows

theorem pure {a : α} : (Pure.pure a : Discretize α).Grows w :=
  .refl

theorem derive {m : Derive α} (grows : m.Grows w.session) : (liftM m : Discretize α).Grows w := by
  unfold Derive.Grows Derive.after at grows
  simp only [Grows, after, liftM, monadLift, MonadLift.monadLift]
  cases run : m w.session with
  | ok a s' => simpa only [run] using grows
  | error failure s' => simpa only [run] using grows

theorem lift {o : Outcome α} : (liftM o : Discretize α).Grows w :=
  derive (m := liftM o) .lift

theorem bind {m : Discretize α} {f : α → Discretize β} (first : m.Grows w)
    (rest : ∀ a w', (f a).Grows w') : (m >>= f).Grows w := by
  unfold Grows after at first ⊢
  simp only [Bind.bind, EStateM.bind]
  cases run : m w with
  | ok a mid =>
    rw [run] at first
    exact first.trans (rest a mid)
  | error failure mid =>
    rw [run] at first
    exact first

theorem reject_bind {cause : Rejection} {f : α → Discretize β} :
    (liftM (reject cause : Outcome α) >>= f).Grows w :=
  .refl

theorem get_bind {f : Workspace → Discretize β} (rest : (f w).Grows w) :
    (get >>= f : Discretize β).Grows w :=
  rest

theorem mapM {f : α → Discretize β} (each : ∀ a w', (f a).Grows w') (l : List α) :
    ∀ w, (l.mapM f).Grows w := by
  induction l with
  | nil => exact fun _ => pure
  | cons a l ih =>
    intro w
    rw [List.mapM_cons]
    exact bind (each a w) fun _ _ => bind (ih _) fun _ _ => pure

end Grows

end Discretize

namespace Plan

open Discretize

variable {w : Workspace}

theorem update_grows (f : Plan → Plan) : (update f).Grows w :=
  .refl

theorem declareKey_grows (sequence : TimeSequenceId) (key : String) :
    (declareKey sequence key).Grows w := by
  refine .get_bind ?_
  cases w.plan.instant? key with
  | some instant => exact .pure
  | none =>
    exact .bind (.derive (TimeInstant.atKey_grows _ _)) fun _ _ =>
      .bind (update_grows _) fun _ _ => .pure

theorem declare_grows (keys : List String) : (declare keys).Grows w := by
  refine .get_bind ?_
  cases w.plan.sequence with
  | none => exact .lift
  | some sequence =>
    exact .bind (.mapM (fun key _ => declareKey_grows sequence key) _ _) fun _ _ =>
      .bind (update_grows _) fun _ _ => .pure

theorem differenceQuotient_grows (u : FormId) (start stop : TimeInstantId) :
    (differenceQuotient u start stop).Grows s :=
  .bind (TimeInterval.between_grows _ _) fun _ _ _ => .bind (Form.evaluateAt_grows _ _) fun _ _ _ =>
    .bind (Form.evaluateAt_grows _ _) fun _ _ _ => .bind (Form.sub_grows _ _) fun _ _ _ =>
      .bind (Form.divide_grows _ _) fun _ _ _ => .pure

theorem differentiate_grows (position : Position) (term : Signed Term) (start stop : String) :
    (differentiate position term start stop).Grows w := by
  refine .get_bind (.bind .lift fun u _ => ?_)
  cases u with
  | none => exact .lift
  | some u =>
    exact .get_bind (.bind .lift fun _ _ => .bind .lift fun _ _ =>
      .bind (.derive (differenceQuotient_grows _ _ _)) fun _ _ =>
        .get_bind (.bind .lift fun _ _ => update_grows _))

theorem mean_grows (first : FormId) (others : List FormId) : (mean first others).Grows s := by
  refine .bind (.foldlM (fun _ _ _ => Form.add_grows _ _) _ _ _) fun _ _ _ => ?_
  split
  · exact .pure
  · exact Form.divide_grows _ _

/-- Evaluating a form at declared instants, followed by a use of the evaluated forms. -/
theorem evaluations_grow {keys : List String} {f : FormId} {rest : List FormId → Discretize Unit}
    (none : ∀ w, (rest []).Grows w)
    (some : ∀ first others w, (rest (first :: others)).Grows w) :
    (declare keys >>= fun instants =>
      (liftM (instants.mapM (Form.evaluateAt f) : Derive _) >>= rest :
        Discretize Unit)).Grows w := by
  refine .bind (declare_grows keys) fun instants _ => ?_
  refine .bind (.derive (.mapM (fun _ _ => Form.evaluateAt_grows _ _) _ _)) fun forms _ => ?_
  cases forms with
  | nil => exact none _
  | cons first others => exact some first others _

theorem average_grows (position : Position) (term : Signed Term) (f : FormId)
    (keys : List String) : (average position term f keys).Grows w := by
  rw [average]
  split
  · exact .reject_bind
  · refine .get_bind (.bind .lift fun inFirst _ => ?_)
    split
    · refine .bind .lift fun inSecond _ => ?_
      split
      · exact .bind .lift fun _ _ => .reject_bind
      · exact evaluations_grow (fun _ => .lift) fun _ _ _ => .bind (.derive (mean_grows _ _))
          fun _ _ => .bind (.derive (Term.replace_grows _ _ _)) fun _ _ => update_grows _
    · exact evaluations_grow (fun _ => .lift) fun _ _ _ => .bind (.derive (mean_grows _ _))
        fun _ _ => .bind (.derive (Term.replace_grows _ _ _)) fun _ _ => update_grows _

end Plan

end Variational
