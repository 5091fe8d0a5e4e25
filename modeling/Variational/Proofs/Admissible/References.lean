import Variational.Block.Description
import Variational.Block.Address
import Variational.Discretization.Basic
import Variational.Pde.Basic
import Variational.Proofs.Session.Reachability

/-!
# References

A value refers to entities by their ids. A session issued an id if it holds an entity of its
kind at its position; what it issued stays issued as the session grows. A session is closed
if it issued every id that its entities and its label indices refer to, and every step
keeps it closed.
-/

namespace Variational

/-! ## Values that refer to entities -/

/-- An id together with its kind. -/
structure Reference where
  kind : EntityKind
  index : Nat
deriving DecidableEq, Repr

/-- Values that refer to entities of a session. -/
class Refers (α : Type) where
  /-- The ids in a value. -/
  references : α → List Reference

open Refers (references)

section Containers

variable {α β : Type} [Refers α] [Refers β]

instance {kind : EntityKind} : Refers (EntityId kind) := ⟨fun id => [⟨kind, id.index⟩]⟩

instance : Refers (Option α) := ⟨fun a => a.elim [] references⟩

instance : Refers (List α) := ⟨fun as => as.flatMap references⟩

instance : Refers (α × β) := ⟨fun p => references p.1 ++ references p.2⟩

instance : Refers (Signed α) := ⟨fun a => references a.value⟩

instance : Refers (Equation α) := ⟨fun e => references (e.left, e.right)⟩

instance {kind : EntityKind} : Refers (IdSet kind) := ⟨fun ids => references ids.ids⟩

instance {kind : EntityKind} : Refers (Arena kind α) := ⟨fun arena => references arena.entities⟩

instance {kind : EntityKind} : Refers (LabelIndex kind) :=
  ⟨fun index => references (index.entries.map (·.2))⟩

end Containers

instance : Refers FormExpr where
  references
    | .root => []
    | .atInstant b => references (b.base, b.sequence, b.instant)
    | .unary _ f => references f
    | .binary _ f g => references (f, g)
    | .quotient f c | .scaled c f => references (f, c)

instance : Refers Manifold := ⟨fun m => references m.boundaryOf⟩

instance : Refers Mesh := ⟨fun m => references (m.manifold, m.inclusion)⟩

instance : Refers Space := ⟨fun sp => references sp.mesh⟩

instance : Refers Form := ⟨fun f => references (f.space, f.expr)⟩

instance : Refers TimeInstant := ⟨fun i => references i.sequence⟩

instance : Refers TimeInterval := ⟨fun i => references (i.sequence, i.start, i.stop, i.duration)⟩

instance : Refers ScalarOperand where
  references
    | .number _ => []
    | .scalar id => references id

instance : Refers Divisor where
  references
    | .number _ => []
    | .scalar id => references id
    | .interval id => references id

instance : Refers ArrayKind where
  references
    | .vector f => references f
    | .massMatrix space | .incidenceMatrix space => references space
    | .wedgeVector f space => references (f, space)

instance : Refers RootArray := ⟨fun array => references array.kind⟩

instance : Refers Link := ⟨fun link => references link.array⟩

instance : Refers Product := ⟨fun p => references (p.factor, p.chain)⟩

instance : Refers Term := ⟨fun t => references (t.f1, t.f2, t.mesh)⟩

instance : Refers WeakFormulation :=
  ⟨fun w => references (w.mesh, w.equations, w.testForms, w.unknowns)⟩

instance : Refers Pde := ⟨fun p => references (p.mesh, p.equations, p.unknowns)⟩

instance : Refers OdeTerm := ⟨fun t => references t.term⟩

instance : Refers Ode :=
  ⟨fun o => references (o.equation, o.elementary, o.constants, o.about, o.testForm)⟩

instance : Refers AlgebraicTerm where
  references
    | .product p => references p
    | .symbolic t => references t

instance : Refers AlgebraicEntry := ⟨fun entry => references entry.term⟩

instance : Refers AlgebraicSystem :=
  ⟨fun a => references (a.equations, a.unknowns, a.testVectors, a.elementaryVectors)⟩

instance : Refers BlockCell := ⟨fun cell => references cell.terms⟩

instance : Refers BlockVector := ⟨fun v => references v.cells⟩

instance : Refers BlockMatrix := ⟨fun m => references m.rows⟩

instance : Refers Section := ⟨fun sec => references (sec.matrix, sec.unknowns)⟩

instance : Refers BlockSide := ⟨fun side => references (side.sections, side.remainder)⟩

instance : Refers BlockSystem :=
  ⟨fun b => references (b.testVectors, b.unknowns, b.left, b.right)⟩

instance : Refers Target where
  references
    | .form f => references f
    | .array a => references a

instance : Refers Plan :=
  ⟨fun plan => references (plan.sequence, plan.instants.map (·.2), plan.edits.map (·.2),
    plan.unknowns.map (·.2))⟩

instance : Refers DiscretizationSource where
  references
    | .ode o => references o
    | .formulation w => references w

/-! ## Issued ids -/

namespace Session

variable {α β : Type} [Refers α] [Refers β] {s s' : Session} {kind : EntityKind}

/-- The number of entities of a kind. -/
def count (s : Session) : EntityKind → Nat
  | .manifold => s.manifolds.size
  | .mesh => s.meshes.size
  | .space => s.spaces.size
  | .form => s.forms.size
  | .scalar => s.scalars.size
  | .timeSequence => s.timeSequences.size
  | .timeInstant => s.timeInstants.size
  | .timeInterval => s.timeIntervals.size
  | .array => s.arrays.size

/-- A session issued all ids in a value. -/
def Issued (s : Session) (a : α) : Prop :=
  ∀ r ∈ references a, r.index < s.count r.kind

instance (s : Session) (a : α) : Decidable (s.Issued a) :=
  inferInstanceAs (Decidable (∀ r ∈ references a, r.index < s.count r.kind))

theorem issued_id {id : EntityId kind} : s.Issued id ↔ id.index < s.count kind := by
  simp [Issued, references]

theorem issued_of_references_eq_nil {a : α} (empty : references a = []) : s.Issued a := by
  simp [Issued, empty]

theorem issued_none : s.Issued (none : Option α) :=
  issued_of_references_eq_nil rfl

theorem issued_root : s.Issued FormExpr.root :=
  issued_of_references_eq_nil rfl

theorem issued_option {a : Option α} : s.Issued a ↔ ∀ x, a = some x → s.Issued x := by
  cases a with
  | none => exact ⟨fun _ _ same => (nomatch same), fun _ => issued_none⟩
  | some x => exact ⟨fun issued _ same => Option.some.inj same ▸ issued, fun each => each x rfl⟩

theorem issued_list {as : List α} : s.Issued as ↔ ∀ a ∈ as, s.Issued a := by
  simp only [Issued, references, List.mem_flatMap]
  exact ⟨fun all a member r within => all r ⟨a, member, within⟩,
    fun each r ⟨a, member, within⟩ => each a member r within⟩

theorem issued_pair {p : α × β} : s.Issued p ↔ s.Issued p.1 ∧ s.Issued p.2 := by
  simp only [Issued, references, List.forall_mem_append]

theorem issued_append {as bs : List α} : s.Issued (as ++ bs) ↔ s.Issued as ∧ s.Issued bs := by
  simp only [issued_list, List.forall_mem_append]

theorem issued_nil : s.Issued ([] : List α) :=
  issued_of_references_eq_nil rfl

theorem issued_cons {a : α} {as : List α} : s.Issued (a :: as) ↔ s.Issued a ∧ s.Issued as := by
  simp only [issued_list, List.forall_mem_cons]

theorem issued_singleton {a : α} : s.Issued [a] ↔ s.Issued a := by
  rw [issued_list, List.forall_mem_singleton]

theorem issued_replicate {n : Nat} {a : α} (issued : s.Issued a) :
    s.Issued (List.replicate n a) :=
  issued_list.2 fun _ member => List.eq_of_mem_replicate member ▸ issued

theorem issued_listSet {as : List α} {i : Nat} {a : α} (issued : s.Issued as)
    (new : s.Issued a) : s.Issued (as.set i a) :=
  issued_list.2 fun b member => (List.mem_or_eq_of_mem_set member).elim
    (issued_list.1 issued b) fun same => same ▸ new

theorem issued_push {arena : Arena kind α} {x : α} :
    s.Issued (arena.push x) ↔ s.Issued arena ∧ s.Issued x := by
  change s.Issued (arena.entities ++ [x]) ↔ s.Issued arena.entities ∧ _
  rw [issued_append, issued_singleton]

theorem issued_set {arena : Arena kind α} {id : EntityId kind} {x : α} (issued : s.Issued arena)
    (new : s.Issued x) : s.Issued (arena.set id x) :=
  issued_listSet issued new

theorem issued_insert {index : LabelIndex kind} {labels : Labels} {id : EntityId kind} :
    s.Issued (index.insert labels id) ↔ s.Issued index ∧ s.Issued id := by
  change s.Issued ((index.entries ++ [(labels, id)]).map (·.2)) ↔
    s.Issued (index.entries.map (·.2)) ∧ _
  rw [List.map_append, issued_append, List.map_singleton, issued_singleton]

theorem issued_of_get? {arena : Arena kind α} {id : EntityId kind} {x : α}
    (issued : s.Issued arena) (found : arena.get? id = some x) : s.Issued x :=
  issued_list.1 issued x (List.mem_of_getElem? found)

theorem issued_of_bySym? {index : LabelIndex kind} {id : EntityId kind} {sym : String}
    (issued : s.Issued index) (found : index.bySym? sym = some id) : s.Issued id := by
  obtain ⟨entry, first, rfl⟩ := Option.map_eq_some_iff.1 found
  exact issued_list.1 issued _ (List.mem_map_of_mem (List.mem_of_find?_eq_some first))

theorem issued_of_byLin? {index : LabelIndex kind} {id : EntityId kind} {lin : String}
    (issued : s.Issued index) (found : index.byLin? lin = some id) : s.Issued id := by
  obtain ⟨entry, first, rfl⟩ := Option.map_eq_some_iff.1 found
  exact issued_list.1 issued _ (List.mem_map_of_mem (List.mem_of_find?_eq_some first))

/-! ## Issued ids of larger sessions -/

theorem Extends.count_le (later : s.Extends s') : ∀ kind, s.count kind ≤ s'.count kind
  | .manifold => Arena.size_le fun found => ⟨_, later.manifolds found⟩
  | .mesh => Arena.size_le fun found => ⟨_, later.meshes found⟩
  | .space => Arena.size_le fun found => (later.spaces found).imp fun _ => And.left
  | .form => Arena.size_le fun found => ⟨_, later.forms found⟩
  | .scalar => Arena.size_le fun found => ⟨_, later.scalars found⟩
  | .timeSequence => Arena.size_le fun found => (later.timeSequences found).imp fun _ => And.left
  | .timeInstant => Arena.size_le fun found => ⟨_, later.timeInstants found⟩
  | .timeInterval => Arena.size_le fun found => ⟨_, later.timeIntervals found⟩
  | .array => Arena.size_le fun found => ⟨_, later.arrays found⟩

theorem Extends.issued (later : s.Extends s') {a : α} (issued : s.Issued a) : s'.Issued a :=
  fun r member => Nat.lt_of_lt_of_le (issued r member) (later.count_le r.kind)

theorem Issued.later {a : α} (issued : s.Issued a) (steps : s.Steps s') : s'.Issued a :=
  steps.extends.issued issued

/-! ## Closed sessions -/

theorem issued_of_found {γ : Type} {arena : Arena kind γ} {id : EntityId kind} {x : γ}
    (counted : arena.size = s.count kind) (found : arena.get? id = some x) : s.Issued id :=
  issued_id.2 (counted ▸ Arena.lt_size found)

/-- A session issued every id that the entities of a session refer to, and those that scalars
and arrays are found under. -/
structure Covers (t s : Session) : Prop where
  manifolds : t.Issued s.manifolds
  meshes : t.Issued s.meshes
  spaces : t.Issued s.spaces
  forms : t.Issued s.forms.toArena
  timeInstants : t.Issued s.timeInstants
  timeIntervals : t.Issued s.timeIntervals
  arrays : t.Issued s.arrays
  scalarLabels : t.Issued s.scalarLabels
  arrayLabels : t.Issued s.arrayLabels

/-- A session issued every id in it. -/
def Closed (s : Session) : Prop :=
  s.Covers s

theorem Extends.covers (later : s.Extends s') {t : Session} (covers : s.Covers t) :
    s'.Covers t where
  manifolds := later.issued covers.manifolds
  meshes := later.issued covers.meshes
  spaces := later.issued covers.spaces
  forms := later.issued covers.forms
  timeInstants := later.issued covers.timeInstants
  timeIntervals := later.issued covers.timeIntervals
  arrays := later.issued covers.arrays
  scalarLabels := later.issued covers.scalarLabels
  arrayLabels := later.issued covers.arrayLabels

/-- The scalars that the expression of a form refers to are there if it is typed. -/
theorem Typed.issued {space : SpaceId} {e : FormExpr} (typed : s.Typed space e)
    (holds : s.forms.Holds e) (derived : e.isLeaf = false) : s.Issued e := by
  have operand {f : FormId} (member : f ∈ e.operands) : s.Issued f := issued_id.2 (holds f member)
  cases e with
  | root | atInstant => cases derived
  | unary op f => exact operand (by simp [FormExpr.operands])
  | binary op f g =>
    exact issued_pair.2
      ⟨operand (by simp [FormExpr.operands]), operand (by simp [FormExpr.operands])⟩
  | quotient f c | scaled c f =>
    obtain ⟨_, _, _, _, foundScalar⟩ := typed
    exact issued_pair.2 ⟨operand (by simp [FormExpr.operands]), issued_of_found rfl foundScalar⟩

theorem Represents.issued {array : RootArray} (represents : s.Represents array) :
    s.Issued array := by
  obtain ⟨sym, pureLin, shape, kind⟩ := array
  cases kind with
  | vector f =>
    obtain ⟨_, _, _, found, -⟩ := represents
    exact issued_of_found rfl found
  | massMatrix space =>
    obtain ⟨_, _, found, -⟩ := represents
    exact issued_of_found rfl found
  | incidenceMatrix space =>
    obtain ⟨_, _, _, _, found, -⟩ := represents
    exact issued_of_found rfl found
  | wedgeVector f space =>
    obtain ⟨_, _, _, _, foundForm, -, foundSpace, -⟩ := represents
    exact issued_pair.2 ⟨issued_of_found rfl foundForm, issued_of_found rfl foundSpace⟩

theorem Closed.step (closed : s.Closed) (step : s.Step s') : s'.Closed := by
  have later := step.extends
  have old : s'.Covers s := later.covers closed
  cases step with
  | manifold => exact { old with manifolds := issued_push.2 ⟨old.manifolds, issued_none⟩ }
  | manifoldBoundary found =>
    exact { old with
      manifolds := issued_push.2 ⟨old.manifolds, later.issued (issued_of_found rfl found)⟩ }
  | mesh found =>
    exact { old with
      meshes := issued_push.2 ⟨old.meshes, issued_pair.2
        ⟨later.issued (issued_of_found rfl found), issued_none⟩⟩ }
  | meshBoundary found _ _ foundManifold =>
    exact { old with
      meshes := issued_push.2 ⟨old.meshes, issued_pair.2
        ⟨later.issued (issued_of_found rfl foundManifold),
          later.issued (issued_of_found rfl found)⟩⟩ }
  | @degree id sp d found =>
    have issued : (s.setSpace id { sp with degree := some d }).Issued sp :=
      issued_of_get? old.spaces found
    exact { old with spaces := issued_set old.spaces issued }
  | space found =>
    exact { old with
      spaces := issued_push.2 ⟨old.spaces, later.issued (issued_of_found rfl found)⟩ }
  | rootScalar =>
    exact { old with
      scalarLabels := issued_insert.2 ⟨old.scalarLabels,
        issued_of_found rfl Arena.get?_push_nextId⟩ }
  | rootForm found =>
    exact { old with
      forms := issued_push.2 ⟨old.forms, issued_pair.2
        ⟨later.issued (issued_of_found rfl found), issued_root⟩⟩ }
  | evaluation _ found _ foundSpace foundInstant =>
    have sequence := issued_of_get? closed.timeInstants foundInstant
    exact { old with
      forms := issued_push.2 ⟨old.forms, issued_pair.2
        ⟨later.issued (issued_of_found rfl foundSpace), issued_pair.2
          ⟨later.issued (issued_of_found rfl found), issued_pair.2
            ⟨later.issued sequence, later.issued (issued_of_found rfl foundInstant)⟩⟩⟩⟩ }
  | derivedForm found holds derived _ _ typed =>
    exact { old with
      forms := issued_push.2 ⟨old.forms, issued_pair.2
        ⟨later.issued (issued_of_found rfl found), later.issued (typed.issued holds derived)⟩⟩ }
  | timeInstant found =>
    exact { old with
      timeInstants := issued_push.2
        ⟨old.timeInstants, later.issued (issued_of_found rfl found)⟩ }
  | timeInterval foundStart foundStop _ _ _ found _ foundDuration =>
    exact { old with
      timeIntervals := issued_push.2 ⟨old.timeIntervals, issued_pair.2
        ⟨later.issued (issued_of_found rfl found), issued_pair.2
          ⟨later.issued (issued_of_found rfl foundStart), issued_pair.2
            ⟨later.issued (issued_of_found rfl foundStop),
              later.issued (issued_of_found rfl foundDuration)⟩⟩⟩⟩ }
  | array represents =>
    exact { old with
      arrays := issued_push.2 ⟨old.arrays, later.issued represents.issued⟩
      arrayLabels := issued_insert.2 ⟨old.arrayLabels,
        issued_of_found rfl Arena.get?_push_nextId⟩ }
  | derivedScalar | timeSequence | specification | warning => exact { old with }

theorem Closed.later (closed : s.Closed) (steps : s.Steps s') : s'.Closed := by
  induction steps with
  | refl => exact closed
  | tail _ step ih => exact ih.step step

/-- Every session that is reached issued every id in it. -/
theorem Reachable.closed {settings : Settings} (reachable : Reachable settings s) : s.Closed := by
  have initial : (Session.new settings).Closed := by
    constructor <;> exact issued_of_references_eq_nil rfl
  exact initial.later reachable.steps

end Session

end Variational
