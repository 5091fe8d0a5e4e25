import Variational.Proofs.Discretization.Sources
import Variational.Proofs.Session.Reachability

/-!
# Calls of a discretization

A discretization is used by calls, one after the other, of which each may fail. The
log of a run lists the edits of the calls that succeeded, with the positions that their
addresses name.
-/

namespace Variational

/-! ## Setting the sequence -/

theorem DiscretizationSource.setSequence_eq (sequence : TimeSequenceId) (w : Workspace) :
    setSequence sequence w = match w.plan.setSequence sequence with
      | .ok plan => .ok () { w with plan }
      | .error failure => .error failure w := by
  change ((liftM (w.plan.setSequence sequence) : Discretize Plan) >>= fun plan =>
    modify fun w => { w with plan }) w = _
  cases w.plan.setSequence sequence <;> rfl

/-! ## Edits at an address -/

/-- The plan after an edit, which may make a form unknown. -/
def Plan.record (plan : Plan) (position : Position) (term : Signed Term) : Option FormId → Plan
  | some f => (plan.edit position term).addUnknown position f
  | none => plan.edit position term

namespace DiscretizationSource

variable {source : DiscretizationSource} {address : String} {w : Workspace}
  {prepare : Signed Term → Discretize (Signed Term × Option FormId)}

/-- Prepares an edit of the term at an address and records it at the position of the term. -/
def edit (source : DiscretizationSource) (address : String)
    (prepare : Signed Term → Discretize (Signed Term × Option FormId)) : Discretize Unit := do
  let (position, term) ← source.current (← get).plan address
  let (new, unknown) ← prepare term
  Plan.update fun plan => plan.record position new unknown

theorem differentiate_eq (source : DiscretizationSource) (address start stop : String) :
    source.differentiate address start stop = source.edit address fun t => do
      let (new, after) ← Plan.differenced t start stop
      return (new, some after) := by
  simp only [differentiate, edit, Plan.differentiate_eq, bind_assoc, pure_bind]
  rfl

theorem average_eq (source : DiscretizationSource) (address : String) (f : FormId)
    (keys : List String) : source.average address f keys = source.edit address fun t => do
      return (← Plan.averaged t f keys, none) := by
  simp only [average, edit, Plan.average_eq, bind_assoc, pure_bind]
  rfl

theorem current_of_located {p : Position} {t : Signed Term} (plan : Plan)
    (located : source.locate address = .ok (p, t)) :
    source.current plan address = .ok (p, plan.current p t) := by
  rw [current, located]
  rfl

theorem edit_of_located {p : Position} {t : Signed Term}
    (located : source.locate address = .ok (p, t)) : source.edit address prepare w =
      (prepare (w.plan.current p t) >>= fun r =>
        Plan.update fun plan => plan.record p r.1 r.2) w := by
  change (liftM (source.current w.plan address) >>= _ : Discretize Unit) w = _
  rw [current_of_located w.plan located]
  rfl

theorem edit_of_rejected {failure : Failure} (rejected : source.locate address = .error failure) :
    source.edit address prepare w = .error failure w := by
  have current : source.current w.plan address = .error failure := by
    rw [DiscretizationSource.current, rejected]
    rfl
  change (liftM (source.current w.plan address) >>= _ : Discretize Unit) w = _
  rw [current]
  rfl

end DiscretizationSource

/-! ## Calls -/

/-- A call of a discretization, with addresses of some kind. -/
inductive Call (Address : Type)
  | setSequence (sequence : TimeSequenceId)
  | newSequence
  | declare (keys : List String)
  | differentiate (address : Address) (start stop : String)
  | average (address : Address) (f : FormId) (keys : List String)
  | term (address : Address)
  /-- Anything else that is requested of the session meanwhile. -/
  | request (request : Request)

/-- What a call answers. -/
inductive Answer
  | done
  | sequence (id : TimeSequenceId)
  | term (t : Signed Term)
deriving DecidableEq, Repr

namespace Call

/-- Carries a call out. -/
def perform (source : DiscretizationSource) : Call String → Discretize Answer
  | .setSequence sequence => do
    DiscretizationSource.setSequence sequence
    return .done
  | .newSequence => return .sequence (← DiscretizationSource.newSequence)
  | .declare keys => do
    let _ ← Plan.declare keys
    return .done
  | .differentiate address start stop => do
    source.differentiate address start stop
    return .done
  | .average address f keys => do
    source.average address f keys
    return .done
  | .term address => return .term (← source.term (← get).plan address)
  | .request r => do
    (r.perform : Derive _)
    return .done

/-- Carries calls out one after the other. A call that fails keeps what it changed. -/
def performAll (source : DiscretizationSource) (calls : List (Call String)) (w : Workspace) :
    Workspace :=
  calls.foldl (fun w call => (call.perform source).leaves w) w

/-! ## The log -/

/-- The edit that a call asks for, and the position that it asks it for. -/
def edit? (source : DiscretizationSource) : Call String → Option (Position × Edit)
  | .differentiate address start stop =>
    match source.locate address with
    | .ok (p, _) => some (p, .difference start stop)
    | .error _ => none
  | .average address f keys =>
    match source.locate address with
    | .ok (p, _) => some (p, .mean f keys)
    | .error _ => none
  | _ => none

/-- The edit of a call that succeeds. -/
def logged (source : DiscretizationSource) (call : Call String) (w : Workspace) :
    List (Position × Edit) :=
  match call.perform source w with
  | .ok _ _ => (call.edit? source).toList
  | .error _ _ => []

/-- The edits of the calls that succeed, in their order. -/
def log (source : DiscretizationSource) : List (Call String) → Workspace → List (Position × Edit)
  | [], _ => []
  | call :: calls, w =>
    call.logged source w ++ log source calls ((call.perform source).leaves w)

end Call

/-- The edits at a position. -/
def editsAt (log : List (Position × Edit)) (p : Position) : List Edit :=
  log.filterMap fun entry => if entry.1 = p then some entry.2 else none

variable {log : List (Position × Edit)} {p q : Position} {e : Edit}

theorem mem_editsAt : e ∈ editsAt log p ↔ (p, e) ∈ log := by
  simp [editsAt, List.mem_filterMap, Option.ite_none_right_eq_some]

theorem editsAt_append (log log' : List (Position × Edit)) (p : Position) :
    editsAt (log ++ log') p = editsAt log p ++ editsAt log' p :=
  List.filterMap_append

theorem editsAt_singleton : editsAt [(q, e)] p = if q = p then [e] else [] := by
  by_cases same : q = p <;> simp [editsAt, same]

end Variational
