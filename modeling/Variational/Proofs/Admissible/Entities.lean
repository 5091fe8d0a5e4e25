import Variational.Proofs.Admissible.Rules
import Variational.Proofs.ElementaryForms

/-!
# Entities that are answered

Looking an entity up, creating one and composing one is answered if the session issued the
ids that are given, and what it gives is issued.
-/

namespace Variational

open Session

variable {s : Session}

/-! ## Looking entities up -/

theorem Arena.fetch_answered {kind : EntityKind} {α : Type} {arena : Arena kind α}
    {id : EntityId kind} {Q : α → Prop} (held : id.index < arena.size)
    (each : ∀ x, arena.get? id = some x → Q x) : (arena.fetch id).Answered Q := by
  obtain ⟨x, found⟩ := Arena.exists_get? held
  rw [Arena.fetch_eq_ok_iff.2 found]
  exact each x found

namespace Session

namespace Closed

variable (closed : s.Closed)

include closed

theorem manifold_answered {id : ManifoldId} (issued : s.Issued id) :
    (s.manifold id).Answered s.Issued :=
  Arena.fetch_answered (issued_id.1 issued) fun _ => issued_of_get? closed.manifolds

theorem mesh_answered {id : MeshId} (issued : s.Issued id) : (s.mesh id).Answered s.Issued :=
  Arena.fetch_answered (issued_id.1 issued) fun _ => issued_of_get? closed.meshes

theorem space_answered {id : SpaceId} (issued : s.Issued id) : (s.space id).Answered s.Issued :=
  Arena.fetch_answered (issued_id.1 issued) fun _ => issued_of_get? closed.spaces

theorem form_answered {id : FormId} (issued : s.Issued id) : (s.form id).Answered s.Issued :=
  Arena.fetch_answered (issued_id.1 issued) fun _ => issued_of_get? closed.forms

theorem timeInstant_answered {id : TimeInstantId} (issued : s.Issued id) :
    (s.timeInstant id).Answered s.Issued :=
  Arena.fetch_answered (issued_id.1 issued) fun _ => issued_of_get? closed.timeInstants

theorem timeInterval_answered {id : TimeIntervalId} (issued : s.Issued id) :
    (s.timeInterval id).Answered s.Issued :=
  Arena.fetch_answered (issued_id.1 issued) fun _ => issued_of_get? closed.timeIntervals

end Closed

theorem scalar_answered {id : ScalarId} (issued : s.Issued id) :
    (s.scalar id).Answered fun _ => True :=
  Arena.fetch_answered (issued_id.1 issued) fun _ _ => trivial

theorem timeSequence_answered {id : TimeSequenceId} (issued : s.Issued id) :
    (s.timeSequence id).Answered fun _ => True :=
  Arena.fetch_answered (issued_id.1 issued) fun _ _ => trivial

theorem array_answered {id : ArrayId} (issued : s.Issued id) :
    (s.array id).Answered fun _ => True :=
  Arena.fetch_answered (issued_id.1 issued) fun _ _ => trivial

end Session

theorem LabelIndex.checkAvailable_answered {kind : EntityKind} {index : LabelIndex kind}
    {labels : Labels} : (index.checkAvailable labels).Answered fun _ => True := by
  rw [checkAvailable]
  split
  · exact .reject
  · split
    · exact .reject
    · exact trivial

theorem Labels.validate_answered {labels : Labels} {kind : EntityKind} :
    (labels.validate kind).Answered fun _ => True := by
  rw [validate]
  split
  · exact .reject
  · split
    · exact .reject
    · split
      · exact .reject
      · exact trivial

/-! ## Manifolds -/

namespace Manifold

theorem register_answered {ndim : Nat} {labels : Labels} {boundaryOf : Option ManifoldId} :
    (register ndim labels boundaryOf).Answered s Issued :=
  .get_bind (.set_bind (.pure (issued_of_found (x := ⟨ndim, labels, boundaryOf⟩) rfl
    Arena.get?_push_nextId)))

theorem create_answered (ndim : Nat) : (create ndim).Answered s Issued :=
  .get_bind (.guard fun _ => register_answered)

theorem boundary_answered (closed : s.Closed) {id : ManifoldId} (issued : s.Issued id) :
    (boundary id).Answered s Issued := by
  refine .get_bind ?_
  cases known : s.knownManifoldBoundary id with
  | some b => exact .pure (issued_id.2 (Arena.lt_size_of_find? known) : s.Issued b)
  | none =>
    refine .lift_bind (closed.manifold_answered issued) fun m _ => ?_
    split
    · exact .pure issued_none
    · exact .lift_bind LabelIndex.checkAvailable_answered fun _ _ => .bind_pure register_answered

end Manifold

/-! ## Meshes -/

theorem Session.issued_of_coveringMesh {manifold : ManifoldId} {id : MeshId}
    (covering : s.coveringMesh manifold = some id) : s.Issued id := by
  obtain ⟨back, first, rfl⟩ := Option.map_eq_some_iff.1 covering
  obtain ⟨held, -⟩ := List.findIdx?_eq_some_iff_getElem.1 first
  refine issued_id.2 ?_
  change s.meshes.entities.length - 1 - back < s.meshes.entities.length
  rw [List.length_reverse] at held
  omega

namespace Mesh

theorem register_answered (closed : s.Closed) {manifold : ManifoldId} {labels : Labels}
    {inclusion : Option MeshId} (issued : s.Issued manifold) :
    (register manifold labels inclusion).Answered s Issued :=
  .get_bind (.lift_bind (closed.manifold_answered issued) fun m _ =>
    .set_bind (.pure (issued_of_found (x := ⟨manifold, m.ndim, labels, inclusion⟩) rfl
      Arena.get?_push_nextId)))

theorem coverAs_answered (closed : s.Closed) {manifold : ManifoldId} {labels : Labels}
    (issued : s.Issued manifold) : (coverAs manifold labels).Answered s Issued := by
  refine .lift_bind Labels.validate_answered fun _ _ => .get_bind
    (.lift_bind LabelIndex.checkAvailable_answered fun _ _ => ?_)
  cases covering : s.coveringMesh manifold with
  | some existing =>
    exact .lift_bind (closed.manifold_answered issued) fun _ _ =>
      .lift_bind (closed.mesh_answered (issued_of_coveringMesh covering)) fun _ _ => .reject
  | none => exact register_answered closed issued

theorem cover_answered (closed : s.Closed) {manifold : ManifoldId} (issued : s.Issued manifold) :
    (cover manifold).Answered s Issued :=
  .get_bind (coverAs_answered closed issued)

theorem boundary_answered (closed : s.Closed) {id : MeshId} (issued : s.Issued id) :
    (boundary id).Answered s Issued := by
  refine .get_bind ?_
  cases known : s.knownMeshBoundary id with
  | some b => exact .pure (issued_id.2 (Arena.lt_size_of_find? known) : s.Issued b)
  | none =>
    refine .get_bind (.lift_bind (closed.mesh_answered issued) fun m held => ?_)
    refine .bind (Manifold.boundary_grows _)
      (Manifold.boundary_answered closed (issued_pair.1 held).1) fun b mid steps below => ?_
    cases b with
    | none => exact .pure issued_none
    | some b =>
      exact .get_bind (.lift_bind LabelIndex.checkAvailable_answered fun _ _ =>
        .bind_pure (register_answered (closed.later steps) below))

end Mesh

/-! ## Spaces -/

namespace Space

theorem setDegree_answered (closed : s.Closed) {id : SpaceId} {d : Nat} (issued : s.Issued id) :
    (setDegree id d).Answered s fun _ _ => True := by
  refine .get_bind (.lift_bind (closed.space_answered issued) fun sp _ => ?_)
  cases sp.degree with
  | none => exact trivial
  | some present =>
    dsimp only
    split
    · exact .reject
    · exact .pure trivial

theorem withDegree_answered (closed : s.Closed) {mesh : MeshId} {k : Nat}
    {orientation : Orientation} {degree : Option Nat} (issued : s.Issued mesh) :
    (withDegree mesh k orientation degree).Answered s Issued := by
  refine .get_bind (.lift_bind (closed.mesh_answered issued) fun m _ => .guard fun _ => ?_)
  split
  · rename_i id known
    have found : s.Issued id := issued_id.2 (Arena.lt_size_of_find? known)
    cases degree with
    | none => exact .pure found
    | some d =>
      exact .bind (setDegree_grows _ d) (setDegree_answered closed found) fun _ _ steps _ =>
        .pure (found.later steps)
  · exact .set_bind (.pure (issued_of_found
      (x := ⟨mesh, k, orientation, degree, labelsOn m k orientation⟩) rfl Arena.get?_push_nextId))

theorem makeFinite_answered (closed : s.Closed) (d : Nat) :
    (makeFinite d).Answered s fun _ _ => True := by
  refine .get_bind (.forM (fun i _ => setDegree_grows ⟨i⟩ d) fun i member s' steps => ?_)
  have held : s.Issued (⟨i⟩ : SpaceId) := issued_id.2 (List.mem_range.1 member)
  exact setDegree_answered (closed.later steps) (held.later steps)

theorem derivative_answered (closed : s.Closed) {space : SpaceId} (issued : s.Issued space) :
    (derivative space).Answered s Issued :=
  .get_bind (.lift_bind (closed.space_answered issued) fun _ held => .get_bind
    (.lift_bind (closed.mesh_answered held) fun _ _ => .guard fun _ =>
      withDegree_answered closed held))

theorem codifferential_answered (closed : s.Closed) {space : SpaceId}
    (issued : s.Issued space) : (codifferential space).Answered s Issued :=
  .get_bind (.lift_bind (closed.space_answered issued) fun _ held => .guard fun _ =>
    withDegree_answered closed held)

theorem hodge_answered (closed : s.Closed) {space : SpaceId} (issued : s.Issued space) :
    (hodge space).Answered s Issued :=
  .get_bind (.lift_bind (closed.space_answered issued) fun _ held => .get_bind
    (.lift_bind (closed.mesh_answered held) fun _ _ => withDegree_answered closed held))

theorem trace_answered (closed : s.Closed) {space : SpaceId} (issued : s.Issued space) :
    (trace space).Answered s Issued := by
  refine .get_bind (.lift_bind (closed.space_answered issued) fun sp held => ?_)
  refine .bind (Mesh.boundary_grows _) (Mesh.boundary_answered closed held)
    fun b mid steps below => ?_
  cases b with
  | none => exact .reject
  | some b =>
    exact .get_bind (.lift_bind ((closed.later steps).mesh_answered below) fun m _ =>
      .guard fun _ => withDegree_answered (closed.later steps) below)

theorem wedge_answered (closed : s.Closed) {left right : SpaceId} (first : s.Issued left)
    (second : s.Issued right) : (wedge left right).Answered s Issued :=
  .get_bind (.lift_bind (closed.space_answered first) fun _ held => .get_bind
    (.lift_bind (closed.space_answered second) fun _ _ => .guard fun _ => .get_bind
      (.lift_bind (closed.mesh_answered held) fun _ _ => .guard fun _ =>
        withDegree_answered closed held)))

end Space

theorem Session.dofLabel_answered (closed : s.Closed) {space : SpaceId}
    (issued : s.Issued space) : (s.dofLabel space).Answered fun _ => True := by
  refine .bind (closed.space_answered issued) fun sp _ => ?_
  cases sp.degree with
  | none => exact .reject
  | some d => exact trivial

/-! ## Scalars -/

namespace Scalar

theorem register_answered (closed : s.Closed) {labels : Labels} {value : Option Float} :
    (register labels value).Answered s Issued := by
  have create : (do
      liftM (s.scalarLabels.checkAvailable labels)
      set (s.addRootScalar labels value)
      return s.scalars.nextId : Derive ScalarId).Answered s Issued :=
    .lift_bind LabelIndex.checkAvailable_answered fun _ _ =>
      .set_bind (.pure (issued_of_found (x := s.rootScalar labels value) rfl
        Arena.get?_push_nextId))
  refine .get_bind ?_
  cases bySym : s.scalarLabels.bySym? labels.sym with
  | none => exact create
  | some a =>
    have known : s.Issued a := issued_of_bySym? closed.scalarLabels bySym
    cases s.scalarLabels.byLin? labels.lin with
    | none => exact create
    | some b =>
      dsimp only
      split
      · refine .lift_bind (scalar_answered known) fun present _ => ?_
        split
        · exact .pure known
        · exact create
      · exact create

theorem ofNumber_answered (closed : s.Closed) (x : Float) : (ofNumber x).Answered s Issued := by
  rw [ofNumber]
  exact .guard fun _ => register_answered closed

theorem unit_answered (closed : s.Closed) : unit.Answered s Issued :=
  ofNumber_answered closed 1.0

theorem abstract_answered (closed : s.Closed) (labels : Labels) :
    (abstract labels).Answered s Issued := by
  refine .lift_bind Labels.validate_answered fun _ _ => ?_
  split
  · exact .reject
  · exact register_answered closed

theorem derived_answered (labels : Labels) : (derived labels).Answered s Issued := by
  refine .get_bind ?_
  split
  · rename_i id known
    exact .pure (issued_id.2 (Arena.lt_size_of_find? known) : s.Issued id)
  · exact .set_bind (.pure (issued_of_found
      (x := (⟨labels.sym, labels.lin, none, none⟩ : Scalar)) rfl Arena.get?_push_nextId))

theorem ofOperand_answered (closed : s.Closed) {operand : ScalarOperand}
    (issued : s.Issued operand) : (ofOperand operand).Answered s Issued := by
  cases operand with
  | number x => exact ofNumber_answered closed x
  | scalar id => exact .pure issued

/-- What is done with the scalars of two operands. -/
theorem operands_answered (closed : s.Closed) {lhs rhs : ScalarOperand}
    {rest : ScalarId → ScalarId → Derive ScalarId} (first : s.Issued lhs) (second : s.Issued rhs)
    (answered : ∀ left right s', s'.Closed → s'.Issued left → s'.Issued right →
      (rest left right).Answered s' Issued) :
    (do
      let left ← ofOperand lhs
      let right ← ofOperand rhs
      rest left right : Derive ScalarId).Answered s Issued := by
  refine .bind (ofOperand_grows lhs) (ofOperand_answered closed first)
    fun left mid steps known => ?_
  refine .bind (ofOperand_grows rhs)
    (ofOperand_answered (closed.later steps) (second.later steps)) fun right s' later known' => ?_
  exact answered left right s' ((closed.later steps).later later) (known.later later) known'

theorem add_answered (closed : s.Closed) {lhs rhs : ScalarOperand} (first : s.Issued lhs)
    (second : s.Issued rhs) : (add lhs rhs).Answered s Issued := by
  refine operands_answered closed first second fun left right s' closed known known' => ?_
  refine .get_bind (.lift_bind (scalar_answered known) fun a _ =>
    .lift_bind (scalar_answered known') fun b _ => ?_)
  split
  · exact ofNumber_answered closed _
  · exact derived_answered _

theorem div_answered (closed : s.Closed) {lhs rhs : ScalarOperand} (first : s.Issued lhs)
    (second : s.Issued rhs) : (div lhs rhs).Answered s Issued := by
  refine operands_answered closed first second fun left right s' closed known known' => ?_
  refine .get_bind (.lift_bind (scalar_answered known) fun a _ =>
    .lift_bind (scalar_answered known') fun b _ => ?_)
  split
  · exact .guard fun _ => ofNumber_answered closed _
  · exact derived_answered _

end Scalar

/-! ## Abstract and numeric time -/

theorem TimeSequence.createAs_answered (labels : Labels) : (createAs labels).Answered s Issued :=
  .lift_bind Labels.validate_answered fun _ _ => .get_bind
    (.lift_bind LabelIndex.checkAvailable_answered fun _ _ => .set_bind (.pure
      (issued_of_found (x := (⟨labels, none⟩ : TimeSequence)) rfl Arena.get?_push_nextId)))

theorem TimeSequence.create_answered : create.Answered s Issued :=
  .get_bind (createAs_answered _)

theorem TimeSequence.specify_answered {sequence : TimeSequenceId} (rule : Stepping)
    (issued : s.Issued sequence) : (specify sequence rule).Answered s fun _ _ => True :=
  .get_bind (.lift_bind (timeSequence_answered issued) fun _ _ => .guard fun _ => trivial)

namespace StepKey

theorem Operation.eval_answered {key : String} {op : Operation} {x y : Float} :
    (op.eval key x y).Answered fun _ => True := by
  cases op with
  | add | sub | mul => exact trivial
  | div =>
    rw [eval]
    split
    · exact .reject
    · exact trivial

theorem Tree.eval_answered {key : String} {bindings : List (String × Float)} (tree : Tree) :
    (tree.eval key bindings).Answered fun _ => True := by
  induction tree with
  | number x => exact trivial
  | name text =>
    rw [eval]
    split
    · exact trivial
    · exact .reject
  | neg operand ih => exact .bind ih fun _ _ => trivial
  | apply op left right first second =>
    exact .bind first fun _ _ => .bind second fun _ _ => Operation.eval_answered
  | broken fault => exact .reject
  | stopped before fault ih => exact .bind ih fun _ _ => .reject

end StepKey

theorem Stepping.instant_answered {rule : Stepping} {k : Float} :
    (rule.instant k).Answered fun _ => True := by
  rw [instant]
  split
  · exact .reject
  · split
    · exact .reject
    · split
      · exact .reject
      · exact trivial

theorem NumericInterval.create_answered {start stop : Float} :
    (create start stop).Answered fun _ => True := by
  rw [create]
  split
  · exact trivial
  · exact .reject

namespace TimeInstant

theorem validateKey_answered {key : String} : (validateKey key).Answered fun _ => True := by
  rw [validateKey]
  split
  · exact .reject
  · exact trivial

theorem atKey_answered {sequence : TimeSequenceId} {key : String} (issued : s.Issued sequence) :
    (atKey sequence key).Answered s Issued := by
  refine .get_bind (.lift_bind (timeSequence_answered issued) fun t _ => ?_)
  cases found : known s sequence key with
  | some instant => exact .pure (issued_id.2 (Arena.lt_size_of_find? found) : s.Issued instant)
  | none =>
    exact .lift_bind validateKey_answered fun _ _ => .set_bind (.pure (issued_of_found
      (x := ⟨sequence, key, ⟨s!"{t.labels.sym}[{key}]", s!"{t.labels.lin}[{key}]"⟩⟩) rfl
      Arena.get?_push_nextId))

theorem resolve_answered (closed : s.Closed) {instant : TimeInstantId}
    {bindings : List (String × Float)} (issued : s.Issued instant) :
    (resolve s instant bindings).Answered fun _ => True := by
  refine .bind (closed.timeInstant_answered issued) fun i held => ?_
  refine .bind (timeSequence_answered held) fun t _ => ?_
  cases t.specification with
  | none => exact .reject
  | some rule => exact .bind (StepKey.Tree.eval_answered _) fun _ _ => Stepping.instant_answered

end TimeInstant

namespace TimeInterval

theorem between_answered (closed : s.Closed) {start stop : TimeInstantId}
    (first : s.Issued start) (second : s.Issued stop) :
    (between start stop).Answered s Issued := by
  refine .get_bind (.lift_bind (closed.timeInstant_answered first) fun a held =>
    .lift_bind (closed.timeInstant_answered second) fun b _ => .guard fun _ => .guard fun _ => ?_)
  cases found : known s start stop with
  | some interval => exact .pure (issued_id.2 (Arena.lt_size_of_find? found) : s.Issued interval)
  | none =>
    refine .lift_bind (timeSequence_answered held) fun t _ => ?_
    refine .bind (Scalar.abstract_grows _) (Scalar.abstract_answered closed _)
      fun duration mid _ _ => .get_bind (.set_bind (.pure ?_))
    exact issued_of_found rfl Arena.get?_push_nextId

theorem atKeys_answered (closed : s.Closed) {sequence : TimeSequenceId}
    {startKey stopKey : String} (issued : s.Issued sequence) :
    (atKeys sequence startKey stopKey).Answered s Issued := by
  refine .bind (TimeInstant.atKey_grows _ _) (TimeInstant.atKey_answered issued)
    fun start mid steps first => ?_
  refine .bind (TimeInstant.atKey_grows _ _) (TimeInstant.atKey_answered (issued.later steps))
    fun stop s' later second => ?_
  exact between_answered ((closed.later steps).later later) (first.later later) second

theorem resolve_answered (closed : s.Closed) {interval : TimeIntervalId}
    {bindings : List (String × Float)} (issued : s.Issued interval) :
    (resolve s interval bindings).Answered fun _ => True := by
  refine .bind (closed.timeInterval_answered issued) fun i held => ?_
  obtain ⟨-, start, rest⟩ := (issued_pair.1 held).imp_right issued_pair.1
  refine .bind (TimeInstant.resolve_answered closed start) fun _ _ => ?_
  refine .bind (TimeInstant.resolve_answered closed (issued_pair.1 rest).1) fun _ _ => ?_
  exact NumericInterval.create_answered

end TimeInterval

/-! ## Forms -/

namespace Session

theorem Issued.holds {e : FormExpr} (issued : s.Issued e) : s.forms.Holds e := by
  intro g member
  refine issued_id.1 (?_ : s.Issued g)
  cases e with
  | root | atInstant => cases member
  | unary op f => exact List.mem_singleton.1 member ▸ issued
  | binary op f h =>
    rcases List.mem_cons.1 member with rfl | last
    · exact (issued_pair.1 issued).1
    · exact List.mem_singleton.1 last ▸ (issued_pair.1 issued).2
  | quotient f c | scaled c f => exact List.mem_singleton.1 member ▸ (issued_pair.1 issued).1

theorem occursIn_answered {f : FormId} (target : FormId) (issued : s.Issued f) :
    (s.occursIn f target).Answered fun _ => True := by
  rw [occursIn]
  split
  · exact trivial
  · have held : f.index < s.forms.entities.length := issued_id.1 issued
    rw [dif_pos held]
    exact trivial

theorem elementaryForms_answered {f : FormId} (issued : s.Issued f) :
    (s.elementaryForms f).Answered s.Issued := by
  obtain ⟨form, found⟩ := Arena.exists_get? (issued_id.1 issued)
  obtain ⟨ids, run⟩ := elementaryForms_total found
  rw [run]
  refine issued_list.2 fun r member => ?_
  obtain ⟨root, foundRoot, -⟩ := Elementary.isRoot ⟨ids, run, member⟩
  exact issued_of_found rfl foundRoot

theorem testedForm?_answered {f : FormId} (issued : s.Issued f) :
    (s.testedForm? f).Answered fun _ => True := by
  have held : f.index < s.forms.entities.length := issued_id.1 issued
  rw [testedForm?, dif_pos held]
  exact trivial

end Session

namespace Form

theorem register_answered {space : SpaceId} {labels : Labels} {expr : FormExpr}
    (issued : s.Issued space) (operands : s.Issued expr) :
    (register space labels expr).Answered s Issued := by
  obtain ⟨sp, found⟩ := Arena.exists_get? (issued_id.1 issued)
  refine .get_bind (.lift_bind LabelIndex.checkAvailable_answered fun _ _ => ?_)
  have recorded : record (s.rootForm space labels expr) s = _ :=
    record_of_space found operands.holds
  change Derive.Answered (record (s.rootForm space labels expr) >>= _) s _
  rw [Derive.Answered, Derive.bind_of_ok recorded]
  exact issued_of_found (x := s.rootForm space labels expr) rfl Arena.get?_push_nextId

theorem root_answered {space : SpaceId} {labels : Labels} (issued : s.Issued space) :
    (root space labels).Answered s Issued :=
  .lift_bind Labels.validate_answered fun _ _ => register_answered issued issued_root

theorem derived_answered {space : SpaceId} {labels : Labels} {expr : FormExpr}
    (issued : s.Issued space) (operands : s.Issued expr) :
    (derived space labels expr).Answered s Issued := by
  refine .get_bind ?_
  split
  · rename_i id known
    exact .pure (issued_id.2 (Arena.lt_size_of_find? known) : s.Issued id)
  · obtain ⟨sp, found⟩ := Arena.exists_get? (issued_id.1 issued)
    rw [Derive.Answered, record_of_space found operands.holds]
    exact issued_of_found rfl Arena.get?_push_nextId

theorem commonSpace_answered (closed : s.Closed) {f g : FormId} {action : String}
    (first : s.Issued f) (second : s.Issued g) :
    (commonSpace s f g action).Answered s.Issued := by
  refine .bind (closed.form_answered first) fun a held => ?_
  refine .bind (closed.form_answered second) fun b held' => ?_
  split
  · exact .pure (issued_pair.1 held).1
  · exact .bind (closed.space_answered (issued_pair.1 held).1) fun _ _ =>
      .bind (closed.space_answered (issued_pair.1 held').1) fun _ _ => .reject

theorem add_answered (closed : s.Closed) {f g : FormId} (first : s.Issued f)
    (second : s.Issued g) : (add f g).Answered s Issued :=
  .get_bind (.lift_bind (commonSpace_answered closed first second) fun _ space =>
    .lift_bind (closed.form_answered first) fun _ _ =>
    .lift_bind (closed.form_answered second) fun _ _ =>
      derived_answered space (issued_pair.2 ⟨first, second⟩))

theorem sub_answered (closed : s.Closed) {f g : FormId} (first : s.Issued f)
    (second : s.Issued g) : (sub f g).Answered s Issued :=
  .get_bind (.lift_bind (commonSpace_answered closed first second) fun _ space =>
    .lift_bind (closed.form_answered first) fun _ _ =>
    .lift_bind (closed.form_answered second) fun _ _ =>
      derived_answered space (issued_pair.2 ⟨first, second⟩))

theorem divisorScalar_answered (closed : s.Closed) {f : FormId} {amount : Divisor}
    (issued : s.Issued f) (divisor : s.Issued amount) :
    (divisorScalar f amount).Answered s Issued := by
  cases amount with
  | number x =>
    simp only [divisorScalar]
    split
    · exact .get_bind (.lift_bind (closed.form_answered issued) fun _ _ => .reject_bind)
    · exact Scalar.ofNumber_answered closed x
  | scalar id => exact .pure divisor
  | interval id =>
    refine .get_bind (.lift_bind (closed.timeInterval_answered divisor) fun i held => .pure ?_)
    exact (issued_pair.1 (issued_pair.1 (issued_pair.1 held).2).2).2

theorem divide_answered (closed : s.Closed) {f : FormId} {amount : Divisor}
    (issued : s.Issued f) (divisor : s.Issued amount) :
    (divide f amount).Answered s Issued := by
  refine .bind (divisorScalar_grows f amount) (divisorScalar_answered closed issued divisor)
    fun c mid steps known => .get_bind ?_
  refine .lift_bind ((closed.later steps).form_answered (issued.later steps)) fun a held => ?_
  refine .lift_bind (scalar_answered known) fun _ _ => ?_
  exact derived_answered (issued_pair.1 held).1 (issued_pair.2 ⟨issued.later steps, known⟩)

theorem scale_answered (closed : s.Closed) {factor : ScalarOperand} {f : FormId}
    (multiple : s.Issued factor) (issued : s.Issued f) :
    (scale factor f).Answered s Issued := by
  refine .bind (Scalar.ofOperand_grows factor) (Scalar.ofOperand_answered closed multiple)
    fun c mid steps known => .get_bind (.lift_bind (scalar_answered known) fun _ _ => ?_)
  split
  · exact .pure (issued.later steps)
  · refine .lift_bind ((closed.later steps).form_answered (issued.later steps)) fun a held => ?_
    exact derived_answered (issued_pair.1 held).1 (issued_pair.2 ⟨issued.later steps, known⟩)

theorem unarySpace_answered (closed : s.Closed) (op : UnaryOperator) {space : SpaceId}
    (issued : s.Issued space) : (unarySpace op space).Answered s Issued := by
  cases op with
  | derivative => exact Space.derivative_answered closed issued
  | codifferential => exact Space.codifferential_answered closed issued
  | hodge => exact Space.hodge_answered closed issued
  | trace => exact Space.trace_answered closed issued
  | timeDerivative => exact .pure issued

theorem apply_answered (closed : s.Closed) (op : UnaryOperator) {f : FormId}
    (issued : s.Issued f) : (apply op f).Answered s Issued := by
  refine .get_bind (.lift_bind (closed.form_answered issued) fun a held => ?_)
  exact .bind (unarySpace_grows op a.space)
    (unarySpace_answered closed op (issued_pair.1 held).1) fun _ _ steps space =>
      .get_bind (derived_answered space (issued.later steps))

theorem wedge_answered (closed : s.Closed) {f g : FormId} (first : s.Issued f)
    (second : s.Issued g) : (wedge f g).Answered s Issued := by
  refine .get_bind (.lift_bind (closed.form_answered first) fun a held => .get_bind
    (.lift_bind (closed.form_answered second) fun b held' => ?_))
  exact .bind (Space.wedge_grows a.space b.space)
    (Space.wedge_answered closed (issued_pair.1 held).1 (issued_pair.1 held').1)
    fun _ _ steps space => .get_bind
      (derived_answered space (issued_pair.2 ⟨first.later steps, second.later steps⟩))

theorem combine_answered (closed : s.Closed) (op : BinaryOperator) {f g : FormId}
    (first : s.Issued f) (second : s.Issued g) : (combine op f g).Answered s Issued := by
  cases op with
  | sum => exact add_answered closed first second
  | difference => exact sub_answered closed first second
  | wedge => exact wedge_answered closed first second

theorem evaluateAt_answered (closed : s.Closed) {f : FormId} {instant : TimeInstantId}
    (issued : s.Issued f) (bound : s.Issued instant) :
    (evaluateAt f instant).Answered s Issued := by
  refine .get_bind ?_
  cases known : knownEvaluation s f instant with
  | some e => exact .pure (issued_id.2 (Arena.lt_size_of_find? known) : s.Issued e)
  | none =>
    refine .lift_bind (closed.form_answered issued) fun a held => ?_
    cases a.expr with
    | root =>
      refine .lift_bind (closed.timeInstant_answered bound) fun i sequence => ?_
      exact register_answered (issued_pair.1 held).1
        (issued_pair.2 ⟨issued, issued_pair.2 ⟨sequence, bound⟩⟩)
    | _ => exact .reject

theorem substitute_answered (closed : s.Closed) {target replacement f : FormId}
    (new : s.Issued replacement) (issued : s.Issued f) :
    (substitute target replacement f).Answered s Issued := by
  induction index : f.index using Nat.strongRecOn generalizing f s with
  | _ i ih =>
    subst index
    rw [substitute]
    split
    · exact .pure new
    · refine .get_bind (.lift_bind (occursIn_answered target issued) fun occurs _ => ?_)
      split
      · exact .pure issued
      · split
        · rename_i absent
          obtain ⟨a, found⟩ := Arena.exists_get? (issued_id.1 issued)
          cases absent.symm.trans found
        · rename_i a found
          have held : s.Issued a := issued_of_get? closed.forms found
          have operands : s.Issued a.expr := (issued_pair.1 held).2
          have smaller {g : FormId} (member : g ∈ a.expr.operands) {mid : Session}
              (steps : s.Steps mid) : (substitute target replacement g).Answered mid Issued := by
            have operand : s.Issued g := issued_id.2 (operands.holds g member)
            exact ih g.index (FormTable.operands_lt found member) (closed.later steps)
              (new.later steps) (operand.later steps) rfl
          split
          · exact .pure issued
          · exact .pure issued
          · rename_i op g shape
            have member : g ∈ a.expr.operands := by simp [shape, FormExpr.operands]
            exact .bind (substitute_grows _ _ _) (smaller member .refl)
              fun _ _ steps known => apply_answered (closed.later steps) op known
          · rename_i op g h shape
            have left : g ∈ a.expr.operands := by simp [shape, FormExpr.operands]
            have right : h ∈ a.expr.operands := by simp [shape, FormExpr.operands]
            refine .bind (substitute_grows _ _ _) (smaller left .refl) fun _ mid steps first => ?_
            exact .bind (substitute_grows _ _ _) (smaller right steps) fun _ _ later second =>
              combine_answered ((closed.later steps).later later) op (first.later later) second
          · rename_i g c shape
            have member : g ∈ a.expr.operands := by simp [shape, FormExpr.operands]
            rw [shape] at operands
            exact .bind (substitute_grows _ _ _) (smaller member .refl)
              fun _ _ steps known => divide_answered (closed.later steps) known
                ((issued_pair.1 operands).2.later steps)
          · rename_i c g shape
            have member : g ∈ a.expr.operands := by simp [shape, FormExpr.operands]
            rw [shape] at operands
            exact .bind (substitute_grows _ _ _) (smaller member .refl)
              fun _ _ steps known => scale_answered (closed.later steps)
                ((issued_pair.1 operands).2.later steps) known

theorem replace_answered (closed : s.Closed) {f target replacement : FormId}
    (issued : s.Issued f) (old : s.Issued target) (new : s.Issued replacement) :
    (replace f target replacement).Answered s Issued :=
  .get_bind (.lift_bind (commonSpace_answered closed old new) fun _ _ =>
    substitute_answered closed new issued)

end Form

end Variational
