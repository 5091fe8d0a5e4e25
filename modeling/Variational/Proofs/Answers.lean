import Variational.Proofs.ArrayRequests
import Variational.Proofs.Evaluation
import Variational.Proofs.ScalarMeaning
import Variational.Proofs.Session.Additivity

/-!
# Answers that stay

Spaces, boundaries, instants, intervals, evaluated forms, root scalars and root arrays are
found again by what they were requested as. Once such a request was answered, it has the
same answer in every later session, and it changes nothing any more.
-/

namespace Variational

open Derive

variable {s s' : Session}

/-- In every session that steps lead to, a derivation has a result and changes nothing. -/
def Derive.Settled {α : Type} (m : Derive α) (a : α) (s : Session) : Prop :=
  ∀ s', s.Steps s' → m s' = .ok a s'

theorem Derive.Settled.of_some {α : Type} {m : Derive α} {a : α}
    (settles : ∀ {a s'}, m s = .ok a s' → m.Settled a s')
    (run : (some <$> m) s = .ok (some a) s') : (some <$> m).Settled (some a) s' := by
  rw [map_eq_pure_bind, bind_eq_ok] at run
  obtain ⟨b, mid, answered, returned⟩ := run
  obtain ⟨same, rfl⟩ := pure_eq_ok.1 returned
  cases same
  intro last steps
  rw [map_eq_pure_bind]
  exact bind_of_ok (settles answered last steps) _

/-! ## Spaces -/

namespace Space

variable {mesh : MeshId} {k : Nat} {orientation : Orientation} {id : SpaceId}

/-- The space that is found or created is found from then on. -/
theorem found_of_withDegree {degree : Option Nat}
    (run : withDegree mesh k orientation degree s = .ok id s') :
    ∃ m, s'.meshes.get? mesh = some m ∧ k ≤ m.ndim ∧
      s'.spaces.find? (fun sp => sp.mesh = mesh ∧ sp.k = k ∧ sp.orientation = orientation) =
        some id := by
  have later := (withDegree_grows _ _ _ _).extends run
  simp only [withDegree, get_bind, bind_eq_ok, lift_eq_ok] at run
  obtain ⟨m, _, ⟨foundMesh, rfl⟩, run⟩ := run
  rw [guard_eq_ok] at run
  obtain ⟨fits, run⟩ := run
  refine ⟨m, later.meshes (Arena.fetch_eq_ok_iff.1 foundMesh), Nat.not_lt.1 fits, ?_⟩
  cases known : s.spaces.find? fun sp =>
    sp.mesh = mesh ∧ sp.k = k ∧ sp.orientation = orientation with
  | some existing =>
    have same : existing = id := by
      rw [known] at run
      cases degree with
      | none => exact (pure_eq_ok.1 run).1
      | some d =>
        simp only [bind_eq_ok, pure_eq_ok] at run
        obtain ⟨_, _, -, same, -⟩ := run
        exact same
    rw [← same]
    exact later.foundSpace known
  | none =>
    simp only [known, bind_eq_ok, set_eq_ok, pure_eq_ok] at run
    obtain ⟨_, _, rfl, rfl, rfl⟩ := run
    exact Arena.find?_push_of_none known (by simp)

/-- A space that is known and has the degree that is asked for is returned. -/
theorem withDegree_of_found {m : Mesh} {degree : Option Nat}
    (foundMesh : s.meshes.get? mesh = some m) (fits : k ≤ m.ndim)
    (known : s.spaces.find? (fun sp => sp.mesh = mesh ∧ sp.k = k ∧ sp.orientation = orientation) =
      some id)
    (agrees : ∀ d, degree = some d → ∃ sp, s.spaces.get? id = some sp ∧ sp.degree = some d) :
    withDegree mesh k orientation degree s = .ok id s := by
  have fetched : s.mesh mesh = .ok m := Arena.fetch_eq_ok_iff.2 foundMesh
  rw [withDegree, get_bind, lift_bind_of_ok fetched, if_neg (Nat.not_lt.2 fits), known]
  cases degree with
  | none => rfl
  | some d =>
    obtain ⟨sp, found, finite⟩ := agrees d rfl
    have fetchedSpace : s.space id = .ok sp := Arena.fetch_eq_ok_iff.2 found
    have kept : setDegree id d s = .ok () s := by
      rw [setDegree, get_bind, lift_bind_of_ok fetchedSpace, finite]
      exact congrFun (if_neg fun differs => differs rfl) s
    exact bind_of_ok kept _

theorem on_settled (run : on mesh k orientation s = .ok id s') :
    (on mesh k orientation).Settled id s' := by
  obtain ⟨m, foundMesh, fits, known⟩ := found_of_withDegree run
  intro last steps
  exact withDegree_of_found (steps.extends.meshes foundMesh) fits (steps.extends.foundSpace known)
    fun d absent => by cases absent

/-- Deriving from a space that is finite afterwards, the space was finite before. -/
theorem degree_of_derivative {source target : SpaceId} {sp sp' : Space} {degree : Option Nat}
    {d : Nat} (found : s.spaces.get? source = some sp) (same : sp.degree = degree)
    (run : withDegree mesh k orientation degree s = .ok target s')
    (found' : s'.spaces.get? source = some sp') (finite : sp'.degree = some d) :
    degree = some d := by
  subst same
  cases present : sp.degree with
  | some e =>
    obtain ⟨sp'', again, becomes⟩ := ((withDegree_grows _ _ _ _).extends run).spaces found
    cases found'.symm.trans again
    rw [← becomes.degree_eq present, finite]
  | none =>
    -- without a degree, the source of the request is left alone
    rw [present] at run
    have kept : s'.spaces.get? source = some sp := by
      obtain ⟨_, -, -, ⟨_, -, -, -, -, ⟨-, rfl⟩ | ⟨-, absent, -⟩⟩ | ⟨-, rfl⟩⟩ :=
        withDegree_cases run
      · exact found
      · exact absurd rfl absent
      · exact Arena.get?_push_of_get? found
    cases found'.symm.trans kept
    rw [← present, finite]

/-- The space of derivatives of a finite space stays the same. -/
theorem derivative_settled {source target : SpaceId} {label : String}
    (run : derivative source s = .ok target s') (labelled : s'.dofLabel source = .ok label) :
    (derivative source).Settled target s' := by
  simp only [derivative, get_bind, bind_eq_ok, lift_eq_ok] at run
  obtain ⟨sp, _, ⟨found, rfl⟩, m, _, ⟨foundMesh, rfl⟩, run⟩ := run
  rw [guard_eq_ok] at run
  obtain ⟨fits, run⟩ := run
  have later := (withDegree_grows _ _ _ _).extends run
  obtain ⟨sp', d, found', finite, -⟩ := Session.dofLabel_eq_ok_iff.1 labelled
  have degree := degree_of_derivative (Arena.fetch_eq_ok_iff.1 found) rfl run found' finite
  obtain ⟨m', foundMesh', fits', known⟩ := found_of_withDegree run
  obtain ⟨dst, foundTarget, -, -, -, agrees⟩ := withDegree_spec run
  intro last steps
  have both := later.trans steps.extends
  obtain ⟨src, foundSource, becomes⟩ := both.spaces (Arena.fetch_eq_ok_iff.1 found)
  obtain ⟨dst', foundTarget', becomes'⟩ := steps.extends.spaces foundTarget
  have fetched : last.space source = .ok src := Arena.fetch_eq_ok_iff.2 foundSource
  have fetchedMesh : last.mesh src.mesh = .ok m := by
    rw [becomes.mesh_eq]
    exact both.mesh_eq_ok foundMesh
  rw [derivative, get_bind, lift_bind_of_ok fetched, get_bind, lift_bind_of_ok fetchedMesh,
    becomes.k_eq, if_neg fits, becomes.mesh_eq, becomes.orientation_eq, becomes.degree_eq degree]
  refine withDegree_of_found (steps.extends.meshes foundMesh') fits'
    (steps.extends.foundSpace known) fun e same => ⟨dst', foundTarget', ?_⟩
  rw [← same, ← degree]
  exact (becomes'.degree_eq ((agrees (by simp [degree])).trans degree)).trans degree.symm

end Space

/-! ## Boundaries -/

theorem Manifold.boundary_settled {id b : ManifoldId} (run : boundary id s = .ok (some b) s') :
    (boundary id).Settled (some b) s' := by
  intro last steps
  have known := steps.extends.knownManifoldBoundary (knownBoundary_of_boundary run)
  rw [boundary, get_bind, known]
  rfl

theorem Mesh.boundary_settled {id b : MeshId} (run : boundary id s = .ok (some b) s') :
    (boundary id).Settled (some b) s' := by
  intro last steps
  have known := steps.extends.knownMeshBoundary (knownBoundary_of_boundary run)
  rw [boundary, get_bind, known]
  rfl

/-! ## Instants, intervals and evaluated forms -/

theorem TimeInstant.atKey_settled {sequence : TimeSequenceId} {key : String} {i : TimeInstantId}
    (run : atKey sequence key s = .ok i s') : (atKey sequence key).Settled i s' := by
  have later := (atKey_grows sequence key).extends run
  simp only [atKey, get_bind, bind_eq_ok, lift_eq_ok] at run
  obtain ⟨t, _, ⟨foundSequence, rfl⟩, run⟩ := run
  have found : known s' sequence key = some i := by
    cases unknown : known s sequence key with
    | some instant =>
      rw [unknown] at run
      obtain ⟨rfl, rfl⟩ := pure_eq_ok.1 run
      exact unknown
    | none =>
      simp only [unknown, bind_eq_ok, lift_eq_ok, set_eq_ok, pure_eq_ok] at run
      obtain ⟨_, _, ⟨-, rfl⟩, _, _, rfl, rfl, rfl⟩ := run
      exact Arena.find?_push_of_none unknown (by simp)
  intro last steps
  obtain ⟨t', foundLast, -⟩ :=
    (later.trans steps.extends).timeSequences (Arena.fetch_eq_ok_iff.1 foundSequence)
  have fetched : last.timeSequence sequence = .ok t' := Arena.fetch_eq_ok_iff.2 foundLast
  rw [atKey, get_bind, lift_bind_of_ok fetched, steps.extends.knownInstant found]
  rfl

theorem TimeInterval.between_settled {start stop : TimeInstantId} {i : TimeIntervalId}
    (run : between start stop s = .ok i s') : (between start stop).Settled i s' := by
  have later := (between_grows start stop).extends run
  simp only [between, get_bind, bind_eq_ok, lift_eq_ok] at run
  obtain ⟨a, _, ⟨foundStart, rfl⟩, b, _, ⟨foundStop, rfl⟩, run⟩ := run
  rw [guard_eq_ok, guard_eq_ok] at run
  obtain ⟨common, distinct, run⟩ := run
  have found : known s' start stop = some i := by
    cases unknown : known s start stop with
    | some present =>
      rw [unknown] at run
      obtain ⟨rfl, rfl⟩ := pure_eq_ok.1 run
      exact unknown
    | none =>
      simp only [unknown, bind_eq_ok, lift_eq_ok, get_eq_ok, set_eq_ok, pure_eq_ok] at run
      obtain ⟨t, _, ⟨-, rfl⟩, duration, mid, abstracted, _, _, ⟨rfl, rfl⟩, _, _, rfl, rfl, rfl⟩ :=
        run
      -- the scalar of the duration is recorded first, and it is no interval
      have unknown' : known mid start stop = none := by
        obtain ⟨rfl | rfl, -⟩ := Scalar.abstract_spec abstracted
        · exact unknown
        · exact unknown
      exact Arena.find?_push_of_none unknown' (by simp)
  intro last steps
  have both := later.trans steps.extends
  have fetchedStart : last.timeInstant start = .ok a :=
    Arena.fetch_eq_ok_iff.2 (both.timeInstants (Arena.fetch_eq_ok_iff.1 foundStart))
  have fetchedStop : last.timeInstant stop = .ok b :=
    Arena.fetch_eq_ok_iff.2 (both.timeInstants (Arena.fetch_eq_ok_iff.1 foundStop))
  rw [between, get_bind, lift_bind_of_ok fetchedStart, lift_bind_of_ok fetchedStop, if_neg common,
    if_neg distinct, steps.extends.knownInterval found]
  rfl

/-- The form that was evaluated is found from then on. -/
theorem Form.knownEvaluation_of_evaluateAt {f e : FormId} {instant : TimeInstantId}
    (run : evaluateAt f instant s = .ok e s') : knownEvaluation s' f instant = some e := by
  rw [evaluateAt, get_bind] at run
  cases unknown : knownEvaluation s f instant with
  | some present =>
    rw [unknown] at run
    obtain ⟨rfl, rfl⟩ := pure_eq_ok.1 run
    exact unknown
  | none =>
    simp only [unknown, bind_eq_ok, lift_eq_ok] at run
    obtain ⟨a, _, ⟨-, rfl⟩, run⟩ := run
    cases root : a.expr with
    | root =>
      simp only [root, bind_eq_ok, lift_eq_ok] at run
      obtain ⟨i, _, ⟨-, rfl⟩, registered⟩ := run
      obtain ⟨holds, rfl, rfl⟩ := register_cases registered
      exact Arena.find?_push_of_none unknown (by simp [isEvaluation, Session.rootForm])
    | _ => simp [root, lift_eq_ok] at run

theorem Form.evaluateAt_settled {f e : FormId} {instant : TimeInstantId}
    (run : evaluateAt f instant s = .ok e s') : (evaluateAt f instant).Settled e s' := by
  intro last steps
  rw [evaluateAt, get_bind, steps.extends.knownEvaluation (knownEvaluation_of_evaluateAt run)]
  rfl

/-! ## Root scalars -/

namespace Scalar

open Float.Model in
/-- A finite double equals itself. -/
theorem beq_self_of_isFinite {x : Float} (finite : x.isFinite = true) : (x == x) = true := by
  change x.toModel.unpack.beq x.toModel.unpack = true
  have finite : x.toModel.unpack.isFinite = true := finite
  rw [UnpackedFloat.beq, beq_iff_eq]
  cases unpacked : x.toModel.unpack with
  | notANumber | infinity sign => simp [unpacked, UnpackedFloat.isFinite] at finite
  | zero sign => simp [UnpackedFloat.compare]
  | finite sign m e => cases sign <;> simp [UnpackedFloat.compare]

/-- A root scalar that is known by its labels is found again by its value. -/
theorem register_settled {labels : Labels} {value : Option Float} {id : ScalarId}
    (reflexive : (value == value) = true) (run : register labels value s = .ok id s') :
    (register labels value).Settled id s' := by
  obtain ⟨-, bySym, byLin, c, found, agrees⟩ := register_spec run
  have agrees : (c.value == value) = true := by
    rcases agrees with same | agrees
    · rw [same, reflexive]
    · exact agrees
  intro last steps
  have fetched : last.scalar id = .ok c :=
    Arena.fetch_eq_ok_iff.2 (steps.extends.scalars found)
  rw [register, get_bind, steps.bySym?_scalar bySym, steps.byLin?_scalar byLin]
  simp only [if_true]
  rw [lift_bind_of_ok fetched, if_pos agrees]
  rfl

theorem ofNumber_settled {x : Float} {id : ScalarId} (run : ofNumber x s = .ok id s') :
    (ofNumber x).Settled id s' := by
  rw [ofNumber, guard_eq_ok] at run
  obtain ⟨finite, run⟩ := run
  have finite : x.isFinite = true := by simpa using finite
  have settled := register_settled (beq_self_of_isFinite finite) run
  intro last steps
  rw [ofNumber, if_neg (by simp [finite])]
  exact settled last steps

theorem abstract_settled {labels : Labels} {id : ScalarId} (run : abstract labels s = .ok id s') :
    (abstract labels).Settled id s' := by
  simp only [abstract, bind_eq_ok, lift_eq_ok] at run
  obtain ⟨_, _, ⟨valid, rfl⟩, run⟩ := run
  cases reserved : [labels.sym, labels.lin].find? isNumberLabel with
  | some label => simp [reserved, lift_eq_ok] at run
  | none =>
    rw [reserved] at run
    have settled := register_settled rfl run
    intro last steps
    rw [abstract, lift_bind_of_ok valid, reserved]
    exact settled last steps

end Scalar

/-! ## Root arrays -/

theorem Session.Step.byLin?_array {lin : String} {id : ArrayId} (step : s.Step s')
    (known : s.arrayLabels.byLin? lin = some id) : s'.arrayLabels.byLin? lin = some id := by
  cases step with
  | array => exact LabelIndex.byLin?_insert_of_some known
  | _ => exact known

/-- The label of an array stays with it. -/
theorem Session.Steps.byLin?_array {lin : String} {id : ArrayId} (steps : s.Steps s')
    (known : s.arrayLabels.byLin? lin = some id) : s'.arrayLabels.byLin? lin = some id := by
  induction steps with
  | refl => exact known
  | tail _ step ih => exact step.byLin?_array ih

namespace RootArray

variable {id : ArrayId}

/-- An array is found by its linguistic label from then on, whatever its symbol. -/
theorem byLin?_of_register {array : RootArray} (run : register array s = .ok id s') :
    s'.arrayLabels.byLin? array.pureLin = some id := by
  rcases register_cases run with ⟨known, rfl⟩ | ⟨available, rfl, rfl⟩
  · exact known
  · exact LabelIndex.byLin?_insert available

theorem register_of_byLin? {array : RootArray}
    (known : s.arrayLabels.byLin? array.pureLin = some id) : register array s = .ok id s := by
  rw [register, get_bind, known]
  rfl

theorem vector_settled {f : FormId} (run : vector f s = .ok id s') :
    (vector f).Settled id s' := by
  have later := (vector_grows f).extends run
  simp only [vector, get_bind, bind_eq_ok, lift_eq_ok] at run
  obtain ⟨form, _, ⟨found, rfl⟩, run⟩ := run
  cases label : form.pureLin with
  | none => simp [label, lift_eq_ok] at run
  | some lin =>
    simp only [label, bind_eq_ok, lift_eq_ok] at run
    obtain ⟨rows, _, ⟨labelled, rfl⟩, run⟩ := run
    have known := byLin?_of_register run
    intro last steps
    have both := later.trans steps.extends
    rw [vector, get_bind, lift_bind_of_ok (both.form_eq_ok found), label]
    refine (lift_bind_of_ok (both.dofLabel_eq_ok labelled) _).trans (register_of_byLin? ?_)
    rw [both.settings]
    exact steps.byLin?_array known

theorem massMatrix_settled {space : SpaceId} (run : massMatrix space s = .ok id s') :
    (massMatrix space).Settled id s' := by
  have later := (massMatrix_grows space).extends run
  simp only [massMatrix, get_bind, bind_eq_ok, lift_eq_ok] at run
  obtain ⟨rows, _, ⟨labelled, rfl⟩, sp, _, ⟨found, rfl⟩, run⟩ := run
  have known := byLin?_of_register run
  intro last steps
  have both := later.trans steps.extends
  obtain ⟨sp', found', labels, degree⟩ := both.finite_space labelled (Arena.fetch_eq_ok_iff.1 found)
  have fetched : last.space space = .ok sp' := Arena.fetch_eq_ok_iff.2 found'
  rw [massMatrix, get_bind, lift_bind_of_ok (both.dofLabel_eq_ok labelled), lift_bind_of_ok fetched]
  refine register_of_byLin? (steps.byLin?_array ?_)
  rw [labels, degree]
  exact known

theorem wedgeVector_settled {f : FormId} {space : SpaceId}
    (run : wedgeVector f space s = .ok id s') : (wedgeVector f space).Settled id s' := by
  have later := (wedgeVector_grows f space).extends run
  simp only [wedgeVector, get_bind, bind_eq_ok, lift_eq_ok] at run
  obtain ⟨rows, _, ⟨labelled, rfl⟩, form, _, ⟨found, rfl⟩, run⟩ := run
  cases label : form.pureLin with
  | none => simp [label, lift_eq_ok] at run
  | some lin =>
    simp only [label, bind_eq_ok, lift_eq_ok] at run
    obtain ⟨sp, _, ⟨foundSpace, rfl⟩, run⟩ := run
    have known := byLin?_of_register run
    intro last steps
    have both := later.trans steps.extends
    obtain ⟨sp', found', -, degree⟩ :=
      both.finite_space labelled (Arena.fetch_eq_ok_iff.1 foundSpace)
    have fetched : last.space space = .ok sp' := Arena.fetch_eq_ok_iff.2 found'
    rw [wedgeVector, get_bind, lift_bind_of_ok (both.dofLabel_eq_ok labelled),
      lift_bind_of_ok (both.form_eq_ok found), label]
    refine (lift_bind_of_ok fetched _).trans (register_of_byLin? (steps.byLin?_array ?_))
    rw [degree]
    exact known

theorem incidenceMatrix_settled {space : SpaceId} (run : incidenceMatrix space s = .ok id s') :
    (incidenceMatrix space).Settled id s' := by
  simp only [incidenceMatrix, get_bind, bind_eq_ok, lift_eq_ok] at run
  obtain ⟨target, mid, derived, cols, _, ⟨labelledCols, rfl⟩, rows, _, ⟨labelledRows, rfl⟩, sp, _,
    ⟨found, rfl⟩, run⟩ := run
  have recorded : mid.Steps s' := by
    refine Grows.steps (registerNumbered_grows ?_ fun n => ?_) run
    · exact ⟨sp, target, rows, cols, Arena.fetch_eq_ok_iff.1 found, Space.derivative_rule derived,
        labelledCols, labelledRows, rfl, rfl⟩
    · exact ⟨sp, n, Arena.fetch_eq_ok_iff.1 found, rfl⟩
  have known := byLin?_of_register run
  intro last steps
  have both : mid.Extends last := recorded.extends.trans steps.extends
  obtain ⟨sp', found', labels, degree⟩ :=
    both.finite_space labelledCols (Arena.fetch_eq_ok_iff.1 found)
  have fetched : last.space space = .ok sp' := Arena.fetch_eq_ok_iff.2 found'
  rw [incidenceMatrix,
    bind_of_ok (Space.derivative_settled derived labelledCols last (recorded.trans steps)),
    get_bind, lift_bind_of_ok (both.dofLabel_eq_ok labelledCols),
    lift_bind_of_ok (both.dofLabel_eq_ok labelledRows), lift_bind_of_ok fetched]
  refine register_of_byLin? (steps.byLin?_array ?_)
  rw [labels, degree]
  exact known

end RootArray

/-! ## Requests that are answered once -/

/-- What is found again once it was requested. -/
inductive Lookup
  | space (mesh : MeshId) (k : Nat) (orientation : Orientation)
  | manifoldBoundary (manifold : ManifoldId)
  | meshBoundary (mesh : MeshId)
  | instant (sequence : TimeSequenceId) (key : String)
  | interval (start stop : TimeInstantId)
  | evaluation (f : FormId) (instant : TimeInstantId)
  | number (x : Float)
  | scalar (labels : Labels)
  | array (kind : ArrayKind)

namespace Lookup

/-- The kind of what is found. -/
def kind : Lookup → EntityKind
  | .space _ _ _ => .space
  | .manifoldBoundary _ => .manifold
  | .meshBoundary _ => .mesh
  | .instant _ _ => .timeInstant
  | .interval _ _ => .timeInterval
  | .evaluation _ _ => .form
  | .number _ | .scalar _ => .scalar
  | .array _ => .array

/-- Requests an entity. Only a boundary may be absent. -/
def request : (l : Lookup) → Derive (Option (EntityId l.kind))
  | .space mesh k orientation => some <$> Space.on mesh k orientation
  | .manifoldBoundary manifold => Manifold.boundary manifold
  | .meshBoundary mesh => Mesh.boundary mesh
  | .instant sequence key => some <$> TimeInstant.atKey sequence key
  | .interval start stop => some <$> TimeInterval.between start stop
  | .evaluation f i => some <$> Form.evaluateAt f i
  | .number x => some <$> Scalar.ofNumber x
  | .scalar labels => some <$> Scalar.abstract labels
  | .array kind => some <$> kind.request

/-- A request that was answered has this answer from then on. -/
theorem request_settled (l : Lookup) {id : EntityId l.kind}
    (run : l.request s = .ok (some id) s') : l.request.Settled (some id) s' := by
  cases l with
  | space mesh k orientation => exact .of_some Space.on_settled run
  | manifoldBoundary manifold =>
    exact Manifold.boundary_settled (run : Manifold.boundary manifold s = _)
  | meshBoundary mesh => exact Mesh.boundary_settled (run : Mesh.boundary mesh s = _)
  | instant sequence key => exact .of_some TimeInstant.atKey_settled run
  | interval start stop => exact .of_some TimeInterval.between_settled run
  | evaluation f i => exact .of_some Form.evaluateAt_settled run
  | number x => exact .of_some Scalar.ofNumber_settled run
  | scalar labels => exact .of_some Scalar.abstract_settled run
  | array kind =>
    cases kind with
    | vector f => exact .of_some RootArray.vector_settled run
    | massMatrix space => exact .of_some RootArray.massMatrix_settled run
    | incidenceMatrix space => exact .of_some RootArray.incidenceMatrix_settled run
    | wedgeVector f space => exact .of_some RootArray.wedgeVector_settled run

end Lookup

/-- Sessions are additive. After every request, whether it succeeds or fails, the arenas are those
of before with further entities: the entities of before are unchanged, but a space may have got its
degree and a time sequence its specification, which then stay. And what was once found or created
for given arguments is the answer to every later request with these arguments, which changes
nothing any more. -/
theorem Session.additive (s : Session) :
    (∀ request : Request, s.Grown (request.perform.after s)) ∧
    ∀ (l : Lookup) (id : EntityId l.kind) (s' : Session), l.request s = .ok (some id) s' →
      ∀ requests : List Request,
        l.request (s'.afterAll requests) = .ok (some id) (s'.afterAll requests) := by
  refine ⟨fun request => ?_, fun l id s' run requests => ?_⟩
  · have steps : s.Steps (request.perform.after s) := request.perform_grows
    exact steps.extends.grown
  · exact l.request_settled run _ (s'.afterAll_steps requests)

end Variational
