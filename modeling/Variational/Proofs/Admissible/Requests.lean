import Variational.Proofs.Admissible.Discretizations

/-!
# Requests and inquiries that are answered

A request changes a session; an inquiry only reads it. If a session issued all ids in a
request or an inquiry, it is carried out or rejected for a stated cause, whatever its texts
and numbers are.
-/

namespace Variational

open Session
open Refers (references)

variable {s : Session}

/-! ## Requests -/

instance : Refers DiscretizationRequest where
  references
    | .newSequence | .declare _ => []
    | .differentiate source _ _ _ => references source
    | .average source _ f _ => references (source, f)

/-- The ids that a request is made with. -/
instance : Refers Request where
  references
    | .manifold _ | .degrees _ | .number _ | .scalar _ | .sequence | .sequenceAs _
    | .portHamiltonian _ _ => []
    | .manifoldBoundary m | .mesh m | .meshAs m _ => references m
    | .meshBoundary m | .space m _ _ => references m
    | .degree sp _ | .operatorSpace _ sp | .root sp _ | .massMatrix sp | .incidenceMatrix sp =>
      references sp
    | .wedgeSpace left right => references (left, right)
    | .scalarSum left right | .scalarQuotient left right => references (left, right)
    | .operator _ f | .vector f => references f
    | .combination _ f g => references (f, g)
    | .quotient f amount => references (f, amount)
    | .multiple factor f => references (factor, f)
    | .evaluation f i => references (f, i)
    | .replacement f target new => references (f, target, new)
    | .specification t _ | .instant t _ | .intervalAt t _ _ => references t
    | .interval start stop => references (start, stop)
    | .wedgeVector f testSpace => references (f, testSpace)
    | .singleArray array => references array
    | .test p spaces _ => references (p, spaces)
    | .termReplacement t target new => references (t, target, new)
    | .conversion t testForm => references (t, testForm)
    | .integrateByParts w _ | .algebraicSystem w | .blockSystem w => references w
    | .split w _ _ forms _ factors => references (w, forms, factors)
    | .blockSystemOf a => references a
    | .gather b targets => references (b, targets)
    | .discretization plan request => references (plan, request)

theorem DiscretizationRequest.perform_answered {request : DiscretizationRequest} {w : Workspace}
    (closed : w.Closed) (issued : w.session.Issued request) :
    request.perform.Answered w fun _ _ => True := by
  cases request with
  | newSequence => exact .discard (DiscretizationSource.newSequence_answered closed)
  | declare keys => exact .discard (Plan.declare_answered closed keys)
  | differentiate source address start stop =>
    have source' : w.session.Issued source := issued
    exact .any (DiscretizationSource.differentiate_answered closed source' address start stop)
  | average source address f keys =>
    obtain ⟨source', known⟩ := (issued_pair (p := (source, f))).1 issued
    exact .any (DiscretizationSource.average_answered closed source' _ known _)

/-- A request is carried out or rejected if the session issued its ids. -/
theorem Request.perform_answered (request : Request) (closed : s.Closed)
    (issued : s.Issued request) : request.perform.Answered s fun _ _ => True := by
  cases request with
  | manifold ndim => exact .discard (Manifold.create_answered ndim)
  | manifoldBoundary m => exact .discard (Manifold.boundary_answered closed issued)
  | mesh m => exact .discard (Mesh.cover_answered closed issued)
  | meshAs m labels => exact .discard (Mesh.coverAs_answered closed issued)
  | meshBoundary m => exact .discard (Mesh.boundary_answered closed issued)
  | space m k orientation => exact .discard (Space.withDegree_answered closed issued)
  | degree sp d => exact Space.setDegree_answered closed issued
  | degrees d => exact Space.makeFinite_answered closed d
  | operatorSpace op sp => exact .discard (Form.unarySpace_answered closed op issued)
  | wedgeSpace left right =>
    obtain ⟨first, second⟩ := (issued_pair (p := (left, right))).1 issued
    exact .discard (Space.wedge_answered closed first second)
  | number x => exact .discard (Scalar.ofNumber_answered closed x)
  | scalar labels => exact .discard (Scalar.abstract_answered closed labels)
  | scalarSum left right =>
    obtain ⟨first, second⟩ := (issued_pair (p := (left, right))).1 issued
    exact .discard (Scalar.add_answered closed first second)
  | scalarQuotient left right =>
    obtain ⟨first, second⟩ := (issued_pair (p := (left, right))).1 issued
    exact .discard (Scalar.div_answered closed first second)
  | root sp labels => exact .discard (Form.root_answered issued)
  | operator op f => exact .discard (Form.apply_answered closed op issued)
  | combination op f g =>
    obtain ⟨first, second⟩ := (issued_pair (p := (f, g))).1 issued
    exact .discard (Form.combine_answered closed op first second)
  | quotient f amount =>
    obtain ⟨form, divisor⟩ := (issued_pair (p := (f, amount))).1 issued
    exact .discard (Form.divide_answered closed form divisor)
  | multiple factor f =>
    obtain ⟨multiple, form⟩ := (issued_pair (p := (factor, f))).1 issued
    exact .discard (Form.scale_answered closed multiple form)
  | evaluation f i =>
    obtain ⟨form, instant⟩ := (issued_pair (p := (f, i))).1 issued
    exact .discard (Form.evaluateAt_answered closed form instant)
  | replacement f target new =>
    obtain ⟨form, forms⟩ := (issued_pair (p := (f, target, new))).1 issued
    obtain ⟨old, new'⟩ := issued_pair.1 forms
    exact .discard (Form.replace_answered closed form old new')
  | sequence => exact .discard TimeSequence.create_answered
  | sequenceAs labels => exact .discard (TimeSequence.createAs_answered labels)
  | specification t rule => exact TimeSequence.specify_answered rule issued
  | instant t key => exact .discard (TimeInstant.atKey_answered issued)
  | interval start stop =>
    obtain ⟨first, second⟩ := (issued_pair (p := (start, stop))).1 issued
    exact .discard (TimeInterval.between_answered closed first second)
  | intervalAt t startKey stopKey =>
    exact .discard (TimeInterval.atKeys_answered closed issued)
  | vector f => exact .discard (RootArray.vector_answered closed issued)
  | massMatrix sp => exact .discard (RootArray.massMatrix_answered closed issued)
  | incidenceMatrix sp =>
    exact .discard (RootArray.incidenceMatrix_answered closed issued)
  | wedgeVector f testSpace =>
    obtain ⟨form, space⟩ := (issued_pair (p := (f, testSpace))).1 issued
    exact .discard (RootArray.wedgeVector_answered closed form space)
  | singleArray array => exact .discard (Product.single_answered closed issued)
  | portHamiltonian n p => exact .discard (Pde.portHamiltonian_answered closed n p)
  | test p spaces labels =>
    obtain ⟨pde, spaces'⟩ := (issued_pair (p := (p, spaces))).1 issued
    exact .discard (Pde.test_answered closed labels pde spaces')
  | termReplacement t target new =>
    obtain ⟨term, forms⟩ := (issued_pair (p := (t, target, new))).1 issued
    obtain ⟨old, new'⟩ := issued_pair.1 forms
    exact .discard (Term.replace_answered term closed old new')
  | conversion t testForm =>
    obtain ⟨term, tested⟩ := (issued_pair (p := (t, testForm))).1 issued
    exact .discard (Term.convert_answered closed term tested)
  | integrateByParts w address =>
    exact .discard (WeakFormulation.integrateByParts_answered issued closed address)
  | split w address slot forms signs factors =>
    obtain ⟨formulation, rest⟩ := (issued_pair (p := (w, forms, factors))).1 issued
    obtain ⟨forms', factors'⟩ := issued_pair.1 rest
    exact .discard
      (WeakFormulation.split_answered closed formulation address slot signs forms' factors')
  | algebraicSystem w => exact .discard (AlgebraicSystem.create_answered closed issued)
  | blockSystem w => exact .discard (BlockSystem.create_answered closed issued)
  | blockSystemOf a => exact .discard (BlockSystem.ofAlgebraic_answered closed issued)
  | gather b targets =>
    obtain ⟨system, targets'⟩ := (issued_pair (p := (b, targets))).1 issued
    exact .discard (BlockSystem.gather_answered closed system targets')
  | discretization plan request =>
    obtain ⟨planned, request'⟩ := (issued_pair (p := (plan, request))).1 issued
    have workspace : Workspace.Closed ⟨s, plan⟩ := ⟨closed, planned⟩
    exact Discretize.Answered.onSession (request.perform_answered workspace request')

/-! ## Inquiries -/

/-- What is asked of a session, without a change of it. -/
inductive Inquiry
  | manifold (id : ManifoldId)
  | mesh (id : MeshId)
  | space (id : SpaceId)
  | form (id : FormId)
  | scalar (id : ScalarId)
  | timeSequence (id : TimeSequenceId)
  | timeInstant (id : TimeInstantId)
  | timeInterval (id : TimeIntervalId)
  | array (id : ArrayId)
  | labels (texts : Labels) (kind : EntityKind)
  | dofLabel (space : SpaceId)
  | occursIn (f target : FormId)
  | elementaryForms (f : FormId)
  | testedForm (f : FormId)
  | stepValue (key : String) (bindings : List (String × Float))
  | stepping (t0 tMax : Float) (pieces factor : Nat)
  | steppingInstant (rule : Stepping) (k : Float)
  | numericInterval (start stop : Float)
  | instantValue (instant : TimeInstantId) (bindings : List (String × Float))
  | intervalValue (interval : TimeIntervalId) (bindings : List (String × Float))
  | link (array : ArrayId) (transposed : Bool)
  | product (factor : ScalarId) (chain : List Link)
  | productLinearity (p : Product)
  | productSym (p : Product)
  | productLin (p : Product)
  | term (kind : TermKind) (f1 f2 : FormId)
  | termForms (t : Term)
  | termTestForm (t : Term)
  | termPattern (t : Term)
  | pde (equations : List (Equation FormId))
  | pdeOfExpressions (names : List (String × FormId)) (expressions : List String)
  | pdeUnknowns (p : Pde) (unknowns : List FormId)
  | pdeForms (p : Pde)
  | formulation (equations : List (Equation Term)) (testForms : List FormId)
  | formulationOfTables (terms : List (List Term × List Term))
    (signs : List (List Sign × List Sign)) (testForms : List FormId)
  | formulationUnknowns (w : WeakFormulation) (unknowns : List FormId)
  | formulationForms (w : WeakFormulation)
  | place (w : WeakFormulation) (address : String)
  | termAt (w : WeakFormulation) (address : String)
  | rearrangement (w : WeakFormulation) (rules : List (Nat × String))
  | ode (left right : List (Signed Term))
  | odeOf (w : WeakFormulation) (equation : Nat)
  | odeConstants (o : Ode) (forms : List FormId)
  | odeTermAt (o : Ode) (address : String)
  | entryAt (a : AlgebraicSystem) (address : String)
  | cellTerm (cell : BlockCell) (t : Signed Product)
  | vectorTerm (v : BlockVector) (i : Nat) (t : Signed Product)
  | matrixTerm (m : BlockMatrix) (i j : Nat) (t : Signed Product)
  | blockSystem (testVectors : List ArrayId) (equations : List (Equation Product))
  | cellAt (b : BlockSystem) (address : String)
  | description (b : BlockSystem)
  | planSequence (plan : Plan) (sequence : TimeSequenceId)
  | planTermAt (source : DiscretizationSource) (plan : Plan) (address : String)
  | discretized (source : DiscretizationSource) (plan : Plan)

namespace Inquiry

/-- The ids that an inquiry is made with. -/
instance : Refers Inquiry where
  references
    | .labels _ _ | .stepValue _ _ | .stepping _ _ _ _ | .steppingInstant _ _
    | .numericInterval _ _ => []
    | .manifold id => references id
    | .mesh id => references id
    | .space id | .dofLabel id => references id
    | .form id | .elementaryForms id | .testedForm id => references id
    | .scalar id => references id
    | .timeSequence id => references id
    | .timeInstant id | .instantValue id _ => references id
    | .timeInterval id | .intervalValue id _ => references id
    | .array id | .link id _ => references id
    | .occursIn f target => references (f, target)
    | .product factor chain => references (factor, chain)
    | .productLinearity p | .productSym p | .productLin p => references p
    | .term _ f1 f2 => references (f1, f2)
    | .termForms t | .termTestForm t | .termPattern t => references t
    | .pde equations => references equations
    | .pdeOfExpressions names _ => references (names.map (·.2))
    | .pdeUnknowns p unknowns => references (p, unknowns)
    | .pdeForms p => references p
    | .formulation equations testForms => references (equations, testForms)
    | .formulationOfTables terms _ testForms => references (terms, testForms)
    | .formulationUnknowns w unknowns => references (w, unknowns)
    | .formulationForms w | .place w _ | .termAt w _ | .rearrangement w _ | .odeOf w _ =>
      references w
    | .ode left right => references (left, right)
    | .odeConstants o forms => references (o, forms)
    | .odeTermAt o _ => references o
    | .entryAt a _ => references a
    | .cellTerm cell t => references (cell, t)
    | .vectorTerm v _ t => references (v, t)
    | .matrixTerm m _ _ t => references (m, t)
    | .blockSystem testVectors equations => references (testVectors, equations)
    | .cellAt b _ | .description b => references b
    | .planSequence plan sequence => references (plan, sequence)
    | .planTermAt source plan _ => references (source, plan)
    | .discretized source plan => references (source, plan)

/-- Answers an inquiry, as far as whether there is an answer. -/
def answer (s : Session) : Inquiry → Outcome Unit
  | .manifold id => discard (s.manifold id)
  | .mesh id => discard (s.mesh id)
  | .space id => discard (s.space id)
  | .form id => discard (s.form id)
  | .scalar id => discard (s.scalar id)
  | .timeSequence id => discard (s.timeSequence id)
  | .timeInstant id => discard (s.timeInstant id)
  | .timeInterval id => discard (s.timeInterval id)
  | .array id => discard (s.array id)
  | .labels texts kind => texts.validate kind
  | .dofLabel id => discard (s.dofLabel id)
  | .occursIn f target => discard (s.occursIn f target)
  | .elementaryForms f => discard (s.elementaryForms f)
  | .testedForm f => discard (s.testedForm? f)
  | .stepValue key bindings => discard (StepKey.evaluate key bindings)
  | .stepping t0 tMax pieces factor => discard (Stepping.create t0 tMax pieces factor)
  | .steppingInstant rule k => discard (rule.instant k)
  | .numericInterval start stop => discard (NumericInterval.create start stop)
  | .instantValue instant bindings => discard (TimeInstant.resolve s instant bindings)
  | .intervalValue interval bindings => discard (TimeInterval.resolve s interval bindings)
  | .link id transposed => discard (s.link id transposed)
  | .product factor chain => discard (Product.create factor chain)
  | .productLinearity p => discard (p.isLinear s)
  | .productSym p => discard (p.sym s)
  | .productLin p => discard (p.lin s)
  | .term kind f1 f2 => discard (Term.create s kind f1 f2)
  | .termForms t => discard (t.elementaryForms s)
  | .termTestForm t => discard (t.testForm? s)
  | .termPattern t => discard (t.pattern? s)
  | .pde equations => discard (Pde.create s equations)
  | .pdeOfExpressions names expressions => discard (Pde.ofExpressions s names expressions)
  | .pdeUnknowns p unknowns => discard (p.withUnknowns s unknowns)
  | .pdeForms p => discard (p.elementaryForms s)
  | .formulation equations testForms => discard (WeakFormulation.create s equations testForms)
  | .formulationOfTables terms signs testForms =>
    discard (WeakFormulation.ofTables s terms signs testForms)
  | .formulationUnknowns w unknowns => discard (w.withUnknowns s unknowns)
  | .formulationForms w => discard (w.elementaryForms s)
  | .place w address => discard (w.locate address)
  | .termAt w address => discard (w.term address)
  | .rearrangement w rules => discard (w.rearrange rules)
  | .ode left right => discard (Ode.create s left right)
  | .odeOf w equation => discard (w.ode s equation)
  | .odeConstants o forms => discard (o.withConstants s forms)
  | .odeTermAt o address => discard (o.locate address)
  | .entryAt a address => discard (a.entry address)
  | .cellTerm cell t => discard (cell.push t)
  | .vectorTerm v i t => discard (v.push i t)
  | .matrixTerm m i j t => discard (m.push i j t)
  | .blockSystem testVectors equations =>
    discard (BlockSystem.ofProducts s testVectors equations)
  | .cellAt b address => discard (b.cell address)
  | .description b => discard (b.describe s)
  | .planSequence plan sequence => discard (plan.setSequence sequence)
  | .planTermAt source plan address => discard (source.term plan address)
  | .discretized source plan => discard (source.finish s plan)

end Inquiry

theorem Stepping.create_answered {t0 tMax : Float} {pieces factor : Nat} :
    (create t0 tMax pieces factor).Answered fun _ => True := by
  rw [create]
  split
  · exact .reject
  · split
    · exact .reject
    · exact trivial

/-- An inquiry is answered or rejected if the session issued its ids. -/
theorem Inquiry.answer_answered (inquiry : Inquiry) (closed : s.Closed)
    (issued : s.Issued inquiry) : (inquiry.answer s).Answered fun _ => True := by
  cases inquiry with
  | manifold id => exact .discard (closed.manifold_answered issued)
  | mesh id => exact .discard (closed.mesh_answered issued)
  | space id => exact .discard (closed.space_answered issued)
  | form id => exact .discard (closed.form_answered issued)
  | scalar id => exact .discard (scalar_answered issued)
  | timeSequence id => exact .discard (timeSequence_answered issued)
  | timeInstant id => exact .discard (closed.timeInstant_answered issued)
  | timeInterval id => exact .discard (closed.timeInterval_answered issued)
  | array id => exact .discard (array_answered issued)
  | labels texts kind => exact Labels.validate_answered
  | dofLabel space => exact .discard (dofLabel_answered closed issued)
  | occursIn f target =>
    exact .discard (occursIn_answered target ((issued_pair (p := (f, target))).1 issued).1)
  | elementaryForms f => exact .discard (s.elementaryForms_answered issued)
  | testedForm f => exact .discard (testedForm?_answered issued)
  | stepValue key bindings => exact .discard (StepKey.Tree.eval_answered _)
  | stepping t0 tMax pieces factor => exact .discard Stepping.create_answered
  | steppingInstant rule k => exact .discard Stepping.instant_answered
  | numericInterval start stop => exact .discard NumericInterval.create_answered
  | instantValue instant bindings =>
    exact .discard (TimeInstant.resolve_answered closed issued)
  | intervalValue interval bindings =>
    exact .discard (TimeInterval.resolve_answered closed issued)
  | link array transposed => exact .discard (link_answered issued)
  | product factor chain =>
    obtain ⟨known, chain'⟩ := (issued_pair (p := (factor, chain))).1 issued
    exact .discard (Product.create_answered known chain')
  | productLinearity p => exact .discard (Product.isLinear_answered issued)
  | productSym p => exact .discard (Product.sym_answered issued)
  | productLin p => exact .discard (Product.lin_answered issued)
  | term kind f1 f2 =>
    obtain ⟨first, second⟩ := (issued_pair (p := (f1, f2))).1 issued
    exact .discard (Term.create_answered closed kind first second)
  | termForms t => exact .discard (Term.elementaryForms_answered issued)
  | termTestForm t => exact .discard (Term.testForm?_answered issued)
  | termPattern t => exact .discard (Term.pattern?_answered issued closed)
  | pde equations => exact .discard (Pde.create_answered closed issued)
  | pdeOfExpressions names expressions =>
    exact .discard (Pde.ofExpressions_answered closed expressions issued)
  | pdeUnknowns p unknowns =>
    obtain ⟨pde, unknowns'⟩ := (issued_pair (p := (p, unknowns))).1 issued
    exact .discard (Pde.withUnknowns_answered pde closed unknowns')
  | pdeForms p => exact .discard (Pde.elementaryForms_answered issued)
  | formulation equations testForms =>
    obtain ⟨equations', tested⟩ := (issued_pair (p := (equations, testForms))).1 issued
    exact .discard (WeakFormulation.create_answered closed equations' tested)
  | formulationOfTables terms signs testForms =>
    obtain ⟨terms', tested⟩ := (issued_pair (p := (terms, testForms))).1 issued
    exact .discard (WeakFormulation.ofTables_answered closed terms' tested)
  | formulationUnknowns w unknowns =>
    obtain ⟨formulation, unknowns'⟩ := (issued_pair (p := (w, unknowns))).1 issued
    exact .discard (WeakFormulation.withUnknowns_answered formulation closed unknowns')
  | formulationForms w =>
    exact .discard (WeakFormulation.elementaryForms_answered issued)
  | place w address => exact .discard (WeakFormulation.locate_answered (w := w) address)
  | termAt w address => exact .discard (WeakFormulation.term_answered issued address)
  | rearrangement w rules => exact .discard WeakFormulation.rearrange_answered
  | ode left right =>
    obtain ⟨first, second⟩ := (issued_pair (p := (left, right))).1 issued
    exact .discard (Ode.create_answered closed first second)
  | odeOf w equation => exact .discard (WeakFormulation.ode_answered closed issued _)
  | odeConstants o forms =>
    exact .discard (Ode.withConstants_answered closed ((issued_pair (p := (o, forms))).1 issued).2)
  | odeTermAt o address => exact .discard (Ode.locate_answered issued address)
  | entryAt a address => exact .discard (AlgebraicSystem.entry_answered issued address)
  | cellTerm cell t =>
    obtain ⟨cell', new⟩ := (issued_pair (p := (cell, t))).1 issued
    exact .discard (BlockCell.push_answered cell' new)
  | vectorTerm v i t =>
    obtain ⟨vector, new⟩ := (issued_pair (p := (v, t))).1 issued
    exact .discard (BlockVector.push_answered vector i new)
  | matrixTerm m i j t =>
    obtain ⟨matrix, new⟩ := (issued_pair (p := (m, t))).1 issued
    exact .discard (BlockMatrix.push_answered matrix i j new)
  | blockSystem testVectors equations =>
    obtain ⟨tested, equations'⟩ := (issued_pair (p := (testVectors, equations))).1 issued
    exact .discard (BlockSystem.ofProducts_answered tested equations')
  | cellAt b address => exact .discard BlockSystem.cell_answered
  | description b => exact .discard (BlockSystem.describe_answered issued)
  | planSequence plan sequence =>
    obtain ⟨planned, known⟩ := (issued_pair (p := (plan, sequence))).1 issued
    exact .discard (Plan.setSequence_answered planned known)
  | planTermAt source plan address =>
    obtain ⟨source', planned⟩ := (issued_pair (p := (source, plan))).1 issued
    exact .discard (DiscretizationSource.term_answered source' planned address)
  | discretized source plan =>
    obtain ⟨source', planned⟩ := (issued_pair (p := (source, plan))).1 issued
    exact .discard (DiscretizationSource.finish_answered closed source' planned)

end Variational
