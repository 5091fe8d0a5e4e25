import Variational.Proofs.Derivations

/-!
# Reachable sessions

A session is reachable if requests lead to it from a session without entities.
Requests may fail, and a request that fails keeps what it registered. Every
reachable session is reached by steps, so a property that holds without entities
and is kept by every step holds of all reachable sessions.
-/

namespace Variational

open Derive

/-- A request of a time discretization. -/
inductive DiscretizationRequest
  | newSequence
  | declare (keys : List String)
  | differentiate (source : DiscretizationSource) (address start stop : String)
  | average (source : DiscretizationSource) (address : String) (f : FormId) (keys : List String)

/-- What is requested of a session. -/
inductive Request
  | manifold (ndim : Nat)
  | manifoldBoundary (manifold : ManifoldId)
  | mesh (manifold : ManifoldId)
  | meshAs (manifold : ManifoldId) (labels : Labels)
  | meshBoundary (mesh : MeshId)
  | space (mesh : MeshId) (k : Nat) (orientation : Orientation)
  | degree (space : SpaceId) (degree : Nat)
  | degrees (degree : Nat)
  | operatorSpace (op : UnaryOperator) (space : SpaceId)
  | wedgeSpace (left right : SpaceId)
  | number (x : Float)
  | scalar (labels : Labels)
  | scalarSum (left right : ScalarOperand)
  | scalarQuotient (left right : ScalarOperand)
  | root (space : SpaceId) (labels : Labels)
  | operator (op : UnaryOperator) (f : FormId)
  | combination (op : BinaryOperator) (f g : FormId)
  | quotient (f : FormId) (amount : Divisor)
  | multiple (factor : ScalarOperand) (f : FormId)
  | evaluation (f : FormId) (instant : TimeInstantId)
  | replacement (f target replacement : FormId)
  | sequence
  | sequenceAs (labels : Labels)
  | specification (sequence : TimeSequenceId) (rule : Stepping)
  | instant (sequence : TimeSequenceId) (key : String)
  | interval (start stop : TimeInstantId)
  | intervalAt (sequence : TimeSequenceId) (startKey stopKey : String)
  | vector (f : FormId)
  | massMatrix (space : SpaceId)
  | incidenceMatrix (space : SpaceId)
  | wedgeVector (f : FormId) (testSpace : SpaceId)
  | singleArray (array : ArrayId)
  | portHamiltonian (n p : Nat)
  | test (p : Pde) (spaces : List SpaceId) (labels : List Labels)
  | termReplacement (t : Term) (target replacement : FormId)
  | conversion (t : Term) (testForm : FormId)
  | integrateByParts (w : WeakFormulation) (address : String)
  | split (w : WeakFormulation) (address : String) (slot : Slot) (forms : List FormId)
    (signs : List Sign) (factors : Option (List ScalarOperand))
  | algebraicSystem (w : WeakFormulation)
  | blockSystem (w : WeakFormulation)
  | blockSystemOf (a : AlgebraicSystem)
  | gather (b : BlockSystem) (targets : List Target)
  | discretization (plan : Plan) (request : DiscretizationRequest)

namespace Discretize

/-- A discretization step as a derivation step, for a given plan. -/
def onSession {α : Type} (m : Discretize α) (plan : Plan) : Derive α := fun s =>
  match m ⟨s, plan⟩ with
  | .ok result w => .ok result w.session
  | .error failure w => .error failure w.session

theorem Grows.onSession {α : Type} {m : Discretize α} {plan : Plan} {s : Session}
    (grows : m.Grows ⟨s, plan⟩) : (m.onSession plan).Grows s := by
  unfold Grows Discretize.after at grows
  unfold Derive.Grows Derive.after Discretize.onSession
  cases run : m ⟨s, plan⟩ with
  | ok result w => simpa only [run] using grows
  | error failure w => simpa only [run] using grows

end Discretize

/-- Carries a request of a discretization out. -/
def DiscretizationRequest.perform : DiscretizationRequest → Discretize Unit
  | .newSequence => discard DiscretizationSource.newSequence
  | .declare keys => discard (Plan.declare keys)
  | .differentiate source address start stop => source.differentiate address start stop
  | .average source address f keys => source.average address f keys

/-- Carries a request out, for its effect on the session. -/
def Request.perform : Request → Derive Unit
  | .manifold ndim => discard (Manifold.create ndim)
  | .manifoldBoundary m => discard (Manifold.boundary m)
  | .mesh m => discard (Mesh.cover m)
  | .meshAs m labels => discard (Mesh.coverAs m labels)
  | .meshBoundary m => discard (Mesh.boundary m)
  | .space m k orientation => discard (Space.on m k orientation)
  | .degree sp d => Space.setDegree sp d
  | .degrees d => Space.makeFinite d
  | .operatorSpace op source => discard (Form.unarySpace op source)
  | .wedgeSpace left right => discard (Space.wedge left right)
  | .number x => discard (Scalar.ofNumber x)
  | .scalar labels => discard (Scalar.abstract labels)
  | .scalarSum left right => discard (Scalar.add left right)
  | .scalarQuotient left right => discard (Scalar.div left right)
  | .root sp labels => discard (Form.root sp labels)
  | .operator op f => discard (Form.apply op f)
  | .combination op f g => discard (Form.combine op f g)
  | .quotient f amount => discard (Form.divide f amount)
  | .multiple factor f => discard (Form.scale factor f)
  | .evaluation f i => discard (Form.evaluateAt f i)
  | .replacement f target new => discard (Form.replace f target new)
  | .sequence => discard TimeSequence.create
  | .sequenceAs labels => discard (TimeSequence.createAs labels)
  | .specification t rule => TimeSequence.specify t rule
  | .instant t key => discard (TimeInstant.atKey t key)
  | .interval start stop => discard (TimeInterval.between start stop)
  | .intervalAt t startKey stopKey => discard (TimeInterval.atKeys t startKey stopKey)
  | .vector f => discard (RootArray.vector f)
  | .massMatrix sp => discard (RootArray.massMatrix sp)
  | .incidenceMatrix sp => discard (RootArray.incidenceMatrix sp)
  | .wedgeVector f testSpace => discard (RootArray.wedgeVector f testSpace)
  | .singleArray array => discard (Product.single array)
  | .portHamiltonian n p => discard (Pde.portHamiltonian n p)
  | .test p spaces labels => discard (p.test spaces labels)
  | .termReplacement t target new => discard (t.replace target new)
  | .conversion t testForm => discard (t.convert testForm)
  | .integrateByParts w address => discard (w.integrateByParts address)
  | .split w address slot forms signs factors =>
    discard (w.split address slot forms signs factors)
  | .algebraicSystem w => discard (AlgebraicSystem.create w)
  | .blockSystem w => discard (BlockSystem.create w)
  | .blockSystemOf a => discard (BlockSystem.ofAlgebraic a)
  | .gather b targets => discard (b.gather targets)
  | .discretization plan request => request.perform.onSession plan

/-! ## Growth -/

theorem Derive.Grows.discard {α : Type} {m : Derive α} {s : Session} (grows : m.Grows s) :
    (Functor.discard m : Derive Unit).Grows s := by
  unfold Grows after at grows ⊢
  simp only [Functor.discard, Functor.mapConst, Function.comp_apply, EStateM.map]
  cases run : m s with
  | ok a s' => simpa only [run] using grows
  | error failure s' => simpa only [run] using grows

theorem Discretize.Grows.discard {α : Type} {m : Discretize α} {w : Workspace} (grows : m.Grows w) :
    (Functor.discard m : Discretize Unit).Grows w := by
  unfold Grows after at grows ⊢
  simp only [Functor.discard, Functor.mapConst, Function.comp_apply, EStateM.map]
  cases run : m w with
  | ok a w' => simpa only [run] using grows
  | error failure w' => simpa only [run] using grows

theorem DiscretizationRequest.perform_grows (request : DiscretizationRequest) {w : Workspace} :
    request.perform.Grows w := by
  cases request with
  | newSequence =>
    exact .discard (.bind (.derive TimeSequence.create_grows) fun _ _ =>
      .bind (.get_bind (.bind .lift fun _ _ => .refl)) fun _ _ => .pure)
  | declare keys => exact .discard (Plan.declare_grows keys)
  | differentiate source address start stop =>
    exact .get_bind (.bind .lift fun _ _ => Plan.differentiate_grows _ _ _ _)
  | average source address f keys =>
    exact .get_bind (.bind .lift fun _ _ => Plan.average_grows _ _ _ _)

/-- Every request grows the session. -/
theorem Request.perform_grows (request : Request) {s : Session} : request.perform.Grows s := by
  cases request with
  | manifold ndim => exact .discard (Manifold.create_grows ndim)
  | manifoldBoundary m => exact .discard (Manifold.boundary_grows m)
  | mesh m => exact .discard (Mesh.cover_grows m)
  | meshAs m labels => exact .discard (Mesh.coverAs_grows m labels)
  | meshBoundary m => exact .discard (Mesh.boundary_grows m)
  | space m k orientation => exact .discard (Space.on_grows m k orientation)
  | degree sp d => exact Space.setDegree_grows sp d
  | degrees d => exact Space.makeFinite_grows d
  | operatorSpace op space => exact .discard (Form.unarySpace_grows op space)
  | wedgeSpace left right => exact .discard (Space.wedge_grows left right)
  | number x => exact .discard (Scalar.ofNumber_grows x)
  | scalar labels => exact .discard (Scalar.abstract_grows labels)
  | scalarSum left right => exact .discard (Scalar.add_grows left right)
  | scalarQuotient left right => exact .discard (Scalar.div_grows left right)
  | root space labels => exact .discard (Form.root_grows space labels)
  | operator op f => exact .discard (Form.apply_grows op f)
  | combination op f g => exact .discard (Form.combine_grows op f g)
  | quotient f amount => exact .discard (Form.divide_grows f amount)
  | multiple factor f => exact .discard (Form.scale_grows factor f)
  | evaluation f instant => exact .discard (Form.evaluateAt_grows f instant)
  | replacement f target replacement => exact .discard (Form.replace_grows f target replacement)
  | sequence => exact .discard TimeSequence.create_grows
  | sequenceAs labels => exact .discard (TimeSequence.createAs_grows labels)
  | specification sequence rule => exact TimeSequence.specify_grows sequence rule
  | instant sequence key => exact .discard (TimeInstant.atKey_grows sequence key)
  | interval start stop => exact .discard (TimeInterval.between_grows start stop)
  | intervalAt sequence startKey stopKey =>
    exact .discard (TimeInterval.atKeys_grows sequence startKey stopKey)
  | vector f => exact .discard (RootArray.vector_grows f)
  | massMatrix space => exact .discard (RootArray.massMatrix_grows space)
  | incidenceMatrix space => exact .discard (RootArray.incidenceMatrix_grows space)
  | wedgeVector f testSpace => exact .discard (RootArray.wedgeVector_grows f testSpace)
  | singleArray array => exact .discard (Product.single_grows array)
  | portHamiltonian n p => exact .discard (Pde.portHamiltonian_grows n p)
  | test p spaces labels => exact .discard (p.test_grows spaces labels)
  | termReplacement t target replacement => exact .discard (t.replace_grows target replacement)
  | conversion t testForm => exact .discard (t.convert_grows testForm)
  | integrateByParts w address => exact .discard (w.integrateByParts_grows address)
  | split w address slot forms signs factors =>
    exact .discard (w.split_grows address slot forms signs factors)
  | algebraicSystem w => exact .discard (AlgebraicSystem.create_grows w)
  | blockSystem w => exact .discard (BlockSystem.create_grows w)
  | blockSystemOf a => exact .discard (BlockSystem.ofAlgebraic_grows a)
  | gather b targets => exact .discard (b.gather_grows targets)
  | discretization plan request => exact request.perform_grows.onSession

/-! ## Reachability -/

/-- Carries requests out one after the other, starting without entities. -/
def Request.performAll (settings : Settings) (requests : List Request) : Session :=
  requests.foldl (fun s request => request.perform.after s) (Session.new settings)

/-- The session that requests lead to from another one, carried out one after the other. -/
def Session.afterAll (s : Session) (requests : List Request) : Session :=
  requests.foldl (fun s request => request.perform.after s) s

theorem Session.afterAll_steps (s : Session) (requests : List Request) :
    s.Steps (s.afterAll requests) := by
  induction requests generalizing s with
  | nil => exact .refl
  | cons request requests ih => exact request.perform_grows.trans (ih _)

/-- A request leaves the session behind that a successful derivation of its result does. -/
theorem Request.after_of_ok {α : Type} {m : Derive α} {a : α} {s s' : Session} (r : Request)
    (same : r.perform = Functor.discard m) (run : m s = .ok a s') : r.perform.after s = s' := by
  rw [same]
  simp only [Derive.after, Functor.discard, Functor.mapConst, Function.comp_apply, EStateM.map,
    run]

/-- The sessions that requests lead to from a session without entities. -/
inductive Session.Reachable (settings : Settings) : Session → Prop
  | new : Reachable settings (Session.new settings)
  | request {s : Session} (reachable : Reachable settings s) (request : Request) :
    Reachable settings (request.perform.after s)

namespace Session.Reachable

variable {settings : Settings} {s s' : Session}

theorem steps (reachable : Reachable settings s) : (Session.new settings).Steps s := by
  induction reachable with
  | new => exact .refl
  | request _ request ih => exact ih.trans request.perform_grows

/-- An invariant of steps holds of every reachable session. -/
theorem invariant {P : Session → Prop} (initial : P (Session.new settings))
    (step : ∀ {s s'}, P s → s.Step s' → P s') (reachable : Reachable settings s) : P s :=
  reachable.steps.rec initial fun _ last ih => step ih last

theorem afterAll (reachable : Reachable settings s) (requests : List Request) :
    Reachable settings (s.afterAll requests) := by
  induction requests generalizing s with
  | nil => exact reachable
  | cons request requests ih => exact ih (reachable.request request)

/-- The session that a list of requests leads to is reachable. -/
theorem performAll (settings : Settings) (requests : List Request) :
    Reachable settings (Request.performAll settings requests) :=
  afterAll .new requests

/-- What is requested leads to a reachable session, whatever its result is used for. -/
theorem of_request {α : Type} {m : Derive α} {a : α} (reachable : Reachable settings s)
    (r : Request) (same : r.perform = Functor.discard m) (run : m s = .ok a s') :
    Reachable settings s' :=
  Request.after_of_ok r same run ▸ reachable.request r

end Session.Reachable

end Variational
