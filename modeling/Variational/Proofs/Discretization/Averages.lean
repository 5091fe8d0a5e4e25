import Variational.Proofs.Discretization.Means
import Variational.Proofs.WeakForm.Obtained

/-!
# Averaging in several terms

A discretization that does nothing but average one form over the same keys, in terms at
different positions. Where the mean is there already, it is rejected for the degree of a space
alone. What it is finished with differs from the formulation that it started from in these terms
only.
-/

namespace Variational

open Discretize

/-! ## Equations of which some terms are changed -/

namespace Equation

variable {α : Type} {e : Equation α} {side : Side} {f : Nat → Signed α → Signed α}

theorem side_mapPositions (e : Equation α) (side : Side) (f : Nat → Signed α → Signed α) :
    (e.mapPositions f).side side = (e.side side).mapIdx fun k => f (k + e.offset side) := by
  cases side with
  | left => rfl
  | right => simp only [mapPositions, Equation.side, offset, Nat.add_comm]

theorem get?_of_side {k : Nat} {x : Signed α} (found : (e.side side)[k]? = some x) :
    e.get? (k + e.offset side) = some x := by
  obtain ⟨held, -⟩ := List.getElem?_eq_some_iff.1 found
  rw [get?, terms]
  cases side with
  | left => exact (List.getElem?_append_left held).trans found
  | right =>
    rw [offset, List.getElem?_append_right (Nat.le_add_left _ _), Nat.add_sub_cancel]
    exact found

/-- A side of which no term is changed. -/
theorem side_mapPositions_eq_self
    (keeps : ∀ k x, (e.side side)[k]? = some x → f (k + e.offset side) x = x) :
    (e.mapPositions f).side side = e.side side := by
  rw [side_mapPositions, mapIdx_eq_self keeps]

/-- A side of which only the terms of a stretch are changed. -/
theorem side_mapPositions_stretch {before old new after : List (Signed α)}
    (split : e.side side = before ++ old ++ after)
    (inside : ∀ k, new[k]? = old[k]?.map (f (before.length + k + e.offset side)))
    (outside : ∀ k x, (e.side side)[k]? = some x →
      (k < before.length ∨ before.length + old.length ≤ k) → f (k + e.offset side) x = x) :
    (e.mapPositions f).side side = before ++ new ++ after := by
  rw [split] at outside
  rw [side_mapPositions, split, List.mapIdx_append, List.mapIdx_append]
  congr 2
  · refine mapIdx_eq_self fun k x found => outside k x ?_ (Or.inl ?_)
    · obtain ⟨held, -⟩ := List.getElem?_eq_some_iff.1 found
      rw [List.append_assoc, List.getElem?_append_left held, found]
    · exact (List.getElem?_eq_some_iff.1 found).1
  · refine List.mapIdx_eq_iff.2 fun k => ?_
    rw [inside k, Nat.add_comm before.length k]
  · refine mapIdx_eq_self fun k x found => ?_
    refine outside (k + (before ++ old).length) x ?_ (Or.inr ?_)
    · rw [List.getElem?_append_right (Nat.le_add_left _ _), Nat.add_sub_cancel, found]
    · rw [List.length_append]
      exact Nat.le_add_left _ _

end Equation

/-! ## Averaging one form -/

namespace DiscretizationSource

/-- Averages a form over keys of a sequence in the terms at addresses, and finishes. -/
def averageAt (source : DiscretizationSource) (sequence : TimeSequenceId) (u : FormId)
    (keys addresses : List String) : Derive WeakFormulation :=
  Discretize.onSession (do
    setSequence sequence
    addresses.forM fun address => source.average address u keys
    let last ← get
    finish last.session source last.plan) {}

variable {s s' : Session} {source : DiscretizationSource} {sequence : TimeSequenceId} {u : FormId}
  {keys addresses : List String} {address : String} {p : Position} {t : Signed Term}
  {w w' : Workspace} {x : WeakFormulation}

theorem setSequence_initial (s : Session) (sequence : TimeSequenceId) :
    setSequence sequence ⟨s, {}⟩ =
      .ok () ⟨s, { stage := .sequenceSet, sequence := some sequence }⟩ :=
  rfl

theorem averageAt_eq_ok : source.averageAt sequence u keys addresses s = .ok x s' ↔
    ∃ plan, addresses.forM (fun address => source.average address u keys)
        ⟨s, { stage := .sequenceSet, sequence := some sequence }⟩ = .ok () ⟨s', plan⟩ ∧
      finish s' source plan = .ok x := by
  rw [averageAt, onSession_eq_ok]
  constructor
  · rintro ⟨plan, run⟩
    obtain ⟨_, _, set, run⟩ := bind_eq_ok.1 run
    cases set
    obtain ⟨_, last, averaged, run⟩ := bind_eq_ok.1 run
    obtain ⟨finished, rfl⟩ := lift_eq_ok.1 run
    exact ⟨plan, averaged, finished⟩
  · rintro ⟨plan, averaged, finished⟩
    refine ⟨plan, ?_⟩
    rw [Discretize.bind_of_ok (setSequence_initial s sequence), Discretize.bind_of_ok averaged]
    exact lift_eq_ok.2 ⟨finished, rfl⟩

/-- Averaging at an address is to average in its current term, and to record the new one. -/
theorem average_eq_ok (located : source.locate address = .ok (p, t)) :
    source.average address u keys w = .ok () w' ↔
      ∃ new mid, Plan.averaged (w.plan.current p t) u keys w = .ok new mid ∧
        w' = { mid with plan := mid.plan.record p new none } := by
  rw [average_eq, edit_of_located located]
  simp only [bind_eq_ok, pure_eq_ok, update_eq_ok]
  constructor
  · rintro ⟨_, mid, ⟨new, _, averaged, rfl, rfl⟩, rfl⟩
    exact ⟨new, _, averaged, rfl⟩
  · rintro ⟨new, mid, averaged, rfl⟩
    exact ⟨(new, none), mid, ⟨new, mid, averaged, rfl, rfl⟩, rfl⟩

end DiscretizationSource

/-- A discretization in which one form was averaged over the same keys at some positions. -/
structure Workspace.Averages (settings : Settings) (w : Workspace) (start : Session)
    (source : DiscretizationSource) (sequence : TimeSequenceId) (u : FormId) (keys : List String)
    (ps : List Position) : Prop where
  reachable : Session.Reachable settings w.session
  follows : w.Follows start source (ps.map fun p => (p, .mean u keys))
  sequence : w.plan.sequence = some sequence
  unknowns : w.plan.unknowns = []

namespace Workspace.Averages

variable {settings : Settings} {w w' : Workspace} {start s s' : Session}
  {source : DiscretizationSource} {sequence : TimeSequenceId} {u m : FormId}
  {keys addresses : List String} {address : String} {ps qs : List Position} {p : Position}
  {t : Signed Term}

/-- After the sequence is set, nothing is averaged. -/
theorem initial (reachable : Session.Reachable settings s) (created : source.Created s) :
    Workspace.Averages settings ⟨s, { stage := .sequenceSet, sequence := some sequence }⟩ s source
      sequence u keys [] := by
  have set : Plan.setSequence {} sequence =
      .ok { stage := .sequenceSet, sequence := some sequence } := rfl
  have follows := Workspace.Follows.initial reachable.sound created
  exact ⟨reachable, follows.setSequence set, rfl, rfl⟩

/-- An average is one more average. -/
theorem average (averages : w.Averages settings start source sequence u keys ps)
    (located : source.locate address = .ok (p, t))
    (run : source.average address u keys w = .ok () w') :
    w'.Averages settings start source sequence u keys (ps ++ [p]) := by
  have found := DiscretizationSource.initial?_of_locate located
  have created := averages.follows.created_current found
  have left := averages.reachable.leaves source (.average address u keys)
  rw [Call.perform, leaves_bind_pure, leaves_of_ok run] at left
  obtain ⟨new, mid, averaged, rfl⟩ := (DiscretizationSource.average_eq_ok located).1 run
  have prepared := (Plan.averaged_prepares _ u keys).of_ok averaged
  obtain ⟨sequence', same, edited⟩ :=
    Plan.averaged_spec averages.follows.sound averages.follows.dated created averaged
  cases averages.sequence.symm.trans same
  refine ⟨left, ?_, ?_, ?_⟩
  · rw [List.map_append]
    exact averages.follows.record prepared found same edited (by simp)
  · exact Plan.sequence_record.trans (prepared.sequence.trans same)
  · exact prepared.unknowns.trans averages.unknowns

theorem editsAt_eq_nil (fresh : p ∉ ps) {e : Edit} :
    editsAt (ps.map fun p => (p, e)) p = [] := by
  rw [editsAt, List.filterMap_eq_nil_iff]
  rintro entry member
  obtain ⟨q, listed, rfl⟩ := List.mem_map.1 member
  refine if_neg ?_
  rintro rfl
  exact fresh listed

theorem editsAt_eq_singleton (distinct : ps.Nodup) (member : p ∈ ps) {e : Edit} :
    editsAt (ps.map fun p => (p, e)) p = [e] := by
  obtain ⟨before, after, rfl⟩ := List.append_of_mem member
  obtain ⟨fresh, distinct⟩ := List.nodup_middle.1 distinct |> List.nodup_cons.1
  rw [List.mem_append, not_or] at fresh
  have split : (before ++ p :: after).map (fun p => (p, e)) =
      before.map (fun p => (p, e)) ++ ([(p, e)] ++ after.map fun p => (p, e)) := by simp
  rw [split, editsAt_append, editsAt_append, editsAt_singleton, editsAt_eq_nil fresh.1,
    editsAt_eq_nil fresh.2, if_pos rfl]
  rfl

/-- Where nothing was averaged, the term stays. -/
theorem current_eq (averages : w.Averages settings start source sequence u keys ps)
    (fresh : p ∉ ps) (found : source.initial? p = some t) : w.plan.current p t = t := by
  obtain ⟨_, -, edits⟩ := averages.follows.terms
  have edits := edits p t found
  rw [editsAt_eq_nil fresh] at edits
  exact edits.eq_of_nil

/-- Where the form was averaged once, the term is what the average makes of it. -/
theorem edited (averages : w.Averages settings start source sequence u keys ps)
    (distinct : ps.Nodup) (member : p ∈ ps) (found : source.initial? p = some t) :
    w.session.Edited sequence (.mean u keys) t (w.plan.current p t) := by
  obtain ⟨sequence', same, edits⟩ := averages.follows.terms
  have edits := edits p t found
  have nonempty : ps.map (fun p => (p, Edit.mean u keys)) ≠ [] := by
    simp [List.ne_nil_of_mem member]
  cases averages.sequence.symm.trans (same nonempty)
  rw [editsAt_eq_singleton distinct member] at edits
  cases edits with
  | cons first rest => exact rest.eq_of_nil ▸ first

/-- A form that is averaged leaves its mean behind. -/
theorem hasMean (averages : w.Averages settings start source sequence u keys ps)
    (located : source.locate address = .ok (p, t)) (fresh : p ∉ ps)
    (run : source.average address u keys w = .ok () w') :
    ∃ m g1 g2, w'.session.HasMean sequence u keys m ∧
      Form.Substituted w'.session u m t.value.f1 g1 ∧
      Form.Substituted w'.session u m t.value.f2 g2 ∧
      (w'.plan.current p t).sign = t.sign ∧
      Term.create w'.session t.value.kind g1 g2 = .ok (w'.plan.current p t).value := by
  have found := DiscretizationSource.initial?_of_locate located
  have created := averages.follows.created.of_initial? found
  obtain ⟨new, mid, averaged, rfl⟩ := (DiscretizationSource.average_eq_ok located).1 run
  rw [averages.current_eq fresh found] at averaged
  simp only [Plan.current_record, if_true]
  exact Plan.averaged_hasMean averages.follows.sound (averages.reachable.distinct)
    averages.follows.dated averages.sequence created averaged

/-- Where the mean is there, averaging is rejected for degrees alone. -/
theorem average_yields (averages : w.Averages settings start source sequence u keys ps)
    (hasMean : start.HasMean sequence u keys m)
    (located : source.locate address = .ok (p, t)) (fresh : p ∉ ps)
    (occurs : start.occursIn t.value.f1 u = .ok true) :
    (source.average address u keys).Yields w fun _ w' =>
      w'.Averages settings start source sequence u keys (ps ++ [p]) := by
  have follows := averages.follows
  have found := DiscretizationSource.initial?_of_locate located
  have prepares : (Plan.averaged t u keys).Yields w fun _ _ => True :=
    Plan.averaged_yields averages.reachable follows.dated averages.sequence
      (hasMean.mono follows.steps) (follows.created.of_initial? found)
      (follows.steps.extends.occursIn_eq_ok occurs)
  have yields : (source.average address u keys).Yields w fun _ _ => True := by
    refine .congr (by rw [DiscretizationSource.average_eq,
      DiscretizationSource.edit_of_located located, averages.current_eq fresh found]) ?_
    refine Yields.bind (Q := fun _ _ => True) ?_ fun _ _ _ _ => .of_ok rfl trivial
    exact prepares.bind fun _ _ _ _ => .of_ok rfl trivial
  exact yields.runs.imp fun holds => averages.average located holds.2

/-- Averaging at several addresses. -/
theorem forM_yields (averages : w.Averages settings start source sequence u keys ps)
    (hasMean : start.HasMean sequence u keys m)
    (located : List.Forall₂ (fun address p => ∃ t, source.locate address = .ok (p, t) ∧
      start.occursIn t.value.f1 u = .ok true) addresses qs)
    (distinct : (ps ++ qs).Nodup) :
    (addresses.forM fun address => source.average address u keys).Yields w fun _ w' =>
      w'.Averages settings start source sequence u keys (ps ++ qs) := by
  induction located generalizing w ps with
  | nil =>
    refine .of_ok rfl ?_
    rw [List.append_nil]
    exact averages
  | @cons address q addresses qs first _ ih =>
    obtain ⟨t, located, occurs⟩ := first
    have fresh : q ∉ ps := fun member =>
      List.disjoint_of_nodup_append distinct member List.mem_cons_self
    refine Yields.bind (averages.average_yields hasMean located fresh occurs) fun _ w' _ next => ?_
    have rest := ih next (by rwa [List.append_assoc])
    rwa [List.append_assoc] at rest

end Workspace.Averages

namespace DiscretizationSource

variable {settings : Settings} {s : Session} {source : DiscretizationSource}
  {sequence : TimeSequenceId} {u m : FormId} {keys addresses : List String} {ps : List Position}
  {mesh : MeshId}

/-- Averaging a form that is no test form is rejected for degrees alone, where the mean is there. -/
theorem averageAt_yields (reachable : Session.Reachable settings s) (created : source.Created s)
    (checked : WeakFormulation.check s source.equations source.testForms = .ok mesh)
    (hasMean : s.HasMean sequence u keys m)
    (located : List.Forall₂ (fun address p => ∃ t, source.locate address = .ok (p, t) ∧
      s.occursIn t.value.f1 u = .ok true) addresses ps)
    (distinct : ps.Nodup) (other : ∀ p ∈ ps, source.testForms[p.equation]? ≠ some u) :
    (source.averageAt sequence u keys addresses).Yields s fun x s' => ∃ plan,
      Workspace.Averages settings ⟨s', plan⟩ s source sequence u keys ps ∧
        finish s' source plan = .ok x := by
  refine Yields.onSession (Q := fun x w => w.Averages settings s source sequence u keys ps ∧
    finish w.session source w.plan = .ok x) ?_
  refine Yields.bind (Q := fun _ w => w.Averages settings s source sequence u keys [])
    (.of_ok (setSequence_initial s sequence) (.initial reachable created)) fun _ w _ set => ?_
  refine .bind (set.forM_yields hasMean located distinct) fun _ w _ averages => ?_
  have follows := averages.follows
  have passes := follows.check_succeeds (WeakFormulation.check_mono follows.steps.extends checked)
    fun p f keys' averaged => by
      obtain ⟨q, member, same⟩ := List.mem_map.1 averaged
      cases same
      exact other p member
  obtain ⟨x, finished⟩ := finish_succeeds passes follows.unknowns
  exact .get_bind (.lift finished ⟨averages, finished⟩)

end DiscretizationSource

/-! ## Finishing -/

namespace Workspace.Averages

variable {settings : Settings} {s start : Session} {plan : Plan} {w x : WeakFormulation}
  {sequence : TimeSequenceId} {u : FormId} {keys : List String} {ps : List Position} {i : Nat}
  {e : Equation Term} {side : Side} {before old new after : List (Signed Term)}

/-- Averages are finished without unknowns. -/
theorem finish_spec (averages : Workspace.Averages settings ⟨s, plan⟩ start (.formulation w)
      sequence u keys ps) (wellFormed : w.WellFormed s)
    (finished : DiscretizationSource.finish s (.formulation w) plan = .ok x) :
    x.WellFormed s ∧ x = ⟨w.mesh, (DiscretizationSource.formulation w).currentEquations plan,
      w.testForms, none⟩ := by
  obtain ⟨checked, equations, testForms, unknowns⟩ := DiscretizationSource.finish_cases finished
  have well := (averages.follows.finish_spec finished).1
  have none : plan.unknownForms = [] := by
    have empty : plan.unknowns = [] := averages.unknowns
    rw [Plan.unknownForms, empty]
    rfl
  have mesh := wellFormed.mesh_eq (.refl s) checked
  obtain ⟨_, _, _, _⟩ := x
  cases equations
  cases testForms
  cases mesh
  rw [if_pos none] at unknowns
  cases unknowns
  exact ⟨well, rfl⟩

/-- A term of another place stays. -/
theorem keeps (averages : Workspace.Averages settings ⟨s, plan⟩ start (.formulation w)
      sequence u keys ps) {k : Nat} {t : Signed Term} (known : w.equations[i]? = some e)
    (found : (e.side side)[k]? = some t) (fresh : ⟨i, k + e.offset side⟩ ∉ ps) :
    plan.current ⟨i, k + e.offset side⟩ t = t :=
  averages.current_eq fresh
    (DiscretizationSource.initial?_eq_some.2 ⟨e, known, Equation.get?_of_side found⟩)

/-- If the averages are in a stretch of one side of an equation, the rest stays. -/
theorem exists_equation (averages : Workspace.Averages settings ⟨s, plan⟩ start (.formulation w)
      sequence u keys ps) (known : w.equations[i]? = some e)
    (split : e.side side = before ++ old ++ after)
    (within : ∀ p ∈ ps, p.equation = i ∧
      ∃ k < old.length, p.term = before.length + k + e.offset side)
    (inside : ∀ k, new[k]? = old[k]?.map fun t =>
      plan.current ⟨i, before.length + k + e.offset side⟩ t) :
    ∃ e', (DiscretizationSource.formulation w).currentEquations plan = w.equations.set i e' ∧
      e'.side side = before ++ new ++ after ∧
      ∀ other, other ≠ side → e'.side other = e.side other := by
  have size : before.length + old.length ≤ (e.side side).length := by
    rw [split]
    simp
  refine ⟨e.mapPositions fun j t => plan.current ⟨i, j⟩ t, ?_,
    Equation.side_mapPositions_stretch split inside fun k t found outside => ?_,
    fun other differs => Equation.side_mapPositions_eq_self fun k t found => ?_⟩
  · refine List.ext_getElem? fun n => ?_
    rw [DiscretizationSource.getElem?_currentEquations, List.getElem?_set,
      DiscretizationSource.equations]
    by_cases here : i = n
    · subst here
      obtain ⟨held, -⟩ := List.getElem?_eq_some_iff.1 known
      rw [if_pos rfl, if_pos held, known]
      rfl
    · rw [if_neg here]
      cases found : w.equations[n]? with
      | none => rfl
      | some e' =>
        have elsewhere {j : Nat} : ⟨n, j⟩ ∉ ps := fun member => here (within _ member).1.symm
        have unchanged (side : Side) :
            (e'.mapPositions fun j t => plan.current ⟨n, j⟩ t).side side = e'.side side :=
          Equation.side_mapPositions_eq_self fun k t standing =>
            averages.keeps found standing elsewhere
        exact congrArg some (Equation.ext (unchanged .left) (unchanged .right))
  · refine averages.keeps known found fun member => ?_
    obtain ⟨-, n, held, same⟩ := within _ member
    dsimp only at same
    omega
  · refine averages.keeps known found fun member => ?_
    obtain ⟨-, n, held, same⟩ := within _ member
    obtain ⟨inSide, -⟩ := List.getElem?_eq_some_iff.1 found
    cases side with
    | left =>
      cases other with
      | left => exact differs rfl
      | right =>
        simp only [Equation.offset, Equation.side] at same size
        omega
    | right =>
      cases other with
      | left =>
        simp only [Equation.offset, Equation.side] at same inSide
        omega
      | right => exact differs rfl

end Workspace.Averages

end Variational
