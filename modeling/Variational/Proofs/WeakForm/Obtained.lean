import Variational.Proofs.Discretization.Runs
import Variational.Proofs.WeakForm.IntegrationByParts
import Variational.Proofs.WeakForm.Rearrangement
import Variational.Proofs.WeakForm.Splitting

/-!
# Weak formulations stay well-formed

Whatever weak formulations a session gives, by whatever chain of constructions and
derivations, they pass the check of their terms and test forms, in the session as it was
and in every later one. Rearranging and declaring unknowns skip the check, and keep what
it checks for.
-/

namespace Variational

/-! ## Reachable sessions -/

theorem Request.extends_after (r : Request) {s : Session} : s.Extends (r.perform.after s) :=
  Session.Steps.extends r.perform_grows

section Calls

open Discretize

variable {settings : Settings} {w : Workspace}

/-- A discretization step does to the session what it does as a request. -/
theorem Discretize.session_leaves {α : Type} (m : Discretize α) (w : Workspace) :
    (m.leaves w).session = (m.onSession w.plan).after w.session := by
  unfold leaves Derive.after onSession
  cases m w <;> rfl

theorem Discretize.leaves_discard {α : Type} (m : Discretize α) (w : Workspace) :
    (Functor.discard m : Discretize Unit).leaves w = m.leaves w := by
  unfold leaves
  simp only [Functor.discard, Functor.mapConst, Function.comp_apply, EStateM.map]
  cases m w <;> rfl

/-- A call leaves a reachable session, whether it succeeds or fails. -/
theorem Session.Reachable.leaves (reachable : Session.Reachable settings w.session)
    (source : DiscretizationSource) (call : Call String) :
    Session.Reachable settings ((call.perform source).leaves w).session := by
  -- Steps of a discretization are requests of the session.
  have requested (r : DiscretizationRequest) :
      Session.Reachable settings (r.perform.leaves w).session := by
    rw [session_leaves]
    exact reachable.request (.discretization w.plan r)
  cases call with
  | setSequence sequence =>
    rw [Call.perform, leaves_bind_pure, Discretize.leaves, DiscretizationSource.setSequence_eq]
    cases w.plan.setSequence sequence <;> exact reachable
  | newSequence =>
    rw [Call.perform, leaves_bind_pure, ← leaves_discard]
    exact requested .newSequence
  | declare keys =>
    rw [Call.perform, leaves_bind_pure, ← leaves_discard]
    exact requested (.declare keys)
  | differentiate address start stop =>
    rw [Call.perform, leaves_bind_pure]
    exact requested (.differentiate source address start stop)
  | average address f keys =>
    rw [Call.perform, leaves_bind_pure]
    exact requested (.average source address f keys)
  | term address =>
    change Session.Reachable settings
      (Discretize.leaves (liftM (source.term w.plan address) >>= fun t =>
        pure (Answer.term t)) w).session
    rw [leaves_bind_pure]
    cases source.term w.plan address <;> exact reachable
  | request r =>
    rw [Call.perform, leaves_bind_pure]
    have left : ((liftM r.perform : Discretize Unit).leaves w).session =
        r.perform.after w.session := by
      simp only [Discretize.leaves, liftM, monadLift, MonadLift.monadLift, Derive.after]
      cases r.perform w.session <;> rfl
    rw [left]
    exact reachable.request r

theorem Session.Reachable.performAllCalls (source : DiscretizationSource)
    (calls : List (Call String)) (reachable : Session.Reachable settings w.session) :
    Session.Reachable settings (Call.performAll source calls w).session := by
  induction calls generalizing w with
  | nil => exact reachable
  | cons call calls ih => exact ih (reachable.leaves source call)

end Calls

/-! ## Constructions -/

namespace WeakFormulation

variable {s s' : Session} {w w' : WeakFormulation}

/-- The unknowns are root forms, some of them possibly at an instant. -/
def UnknownsAreRoots (w : WeakFormulation) (s : Session) : Prop :=
  ∀ forms, w.unknowns = some forms → ∀ u ∈ forms, ∃ f, s.forms.get? u = some f ∧ f.isRoot = true

theorem UnknownsAreRoots.mono (roots : w.UnknownsAreRoots s) (later : s.Extends s') :
    w.UnknownsAreRoots s' := by
  intro forms declared u member
  obtain ⟨f, found, root⟩ := roots forms declared u member
  exact ⟨f, later.forms found, root⟩

theorem UnknownsAreRoots.congr (roots : w.UnknownsAreRoots s) (same : w'.unknowns = w.unknowns) :
    w'.UnknownsAreRoots s :=
  fun forms declared => roots forms (same ▸ declared)

theorem create_spec {equations : List (Equation Term)} {testForms : List FormId}
    (terms : ∀ e ∈ equations, ∀ t ∈ e.terms,
      Term.create s t.value.kind t.value.f1 t.value.f2 = .ok t.value)
    (run : create s equations testForms = .ok w) : w.WellFormed s ∧ w.UnknownsAreRoots s := by
  simp only [create, Outcome.bind_eq_ok, Outcome.pure_eq_ok] at run
  obtain ⟨mesh, checked, rfl⟩ := run
  refine ⟨⟨checked, terms⟩, fun _ declared => ?_⟩
  cases declared

theorem withUnknowns_spec {forms : List FormId} (wellFormed : w.WellFormed s)
    (run : w.withUnknowns s forms = .ok w') : w'.WellFormed s ∧ w'.UnknownsAreRoots s := by
  simp only [withUnknowns, Outcome.bind_eq_ok, Outcome.pure_eq_ok, Outcome.forM_eq_ok] at run
  obtain ⟨-, roots, rfl⟩ := run
  refine ⟨⟨wellFormed.checked, wellFormed.created⟩, fun _ declared u member => ?_⟩
  cases declared
  obtain ⟨f, fetched, root⟩ := roots u member
  refine ⟨f, Arena.fetch_eq_ok_iff.1 fetched, ?_⟩
  by_contra derived
  rw [if_pos (by simpa using derived)] at root
  simp at root

theorem mem_signSide {i : Nat} {terms : List Term} {signs : List Sign} {l : List (Signed Term)}
    (run : signSide i terms signs = .ok l) {t : Signed Term} (member : t ∈ l) :
    t.value ∈ terms := by
  rw [signSide] at run
  split at run
  · simp at run
  · cases run
    obtain ⟨n, held, rfl⟩ := List.mem_iff_getElem.1 member
    rw [List.getElem_zipWith]
    exact List.getElem_mem _

theorem ofTables_spec {terms : List (List Term × List Term)} {signs : List (List Sign × List Sign)}
    {testForms : List FormId}
    (created : ∀ sides ∈ terms, ∀ t ∈ sides.1 ++ sides.2, Term.create s t.kind t.f1 t.f2 = .ok t)
    (run : ofTables s terms signs testForms = .ok w) : w.WellFormed s ∧ w.UnknownsAreRoots s := by
  simp only [ofTables, Outcome.guard_eq_ok, Outcome.bind_eq_ok] at run
  obtain ⟨-, equations, tabled, run⟩ := run
  refine create_spec (fun e member t term => ?_) run
  obtain ⟨⟨⟨sides, sign⟩, i⟩, entry, made⟩ :=
    exists_mem_of_forall₂ (Outcome.mapM_eq_ok.1 tabled) member
  simp only [Outcome.bind_eq_ok, Outcome.pure_eq_ok] at made
  obtain ⟨left, signedLeft, right, signedRight, rfl⟩ := made
  have known : sides ∈ terms := by
    have zipped := List.mem_of_getElem? (List.mk_mem_zipIdx_iff_getElem?.1 entry)
    exact (List.of_mem_zip zipped).1
  refine created sides known t.value (List.mem_append.2 ?_)
  exact (List.mem_append.1 term).imp (mem_signSide signedLeft) (mem_signSide signedRight)

end WeakFormulation

/-! ## Testing a system -/

namespace Pde

open Derive

variable {s s' : Session}

theorem testSide_spec {v : FormId} {side : List (Signed FormId)} {l : List (Signed Term)}
    (run : testSide s v side = .ok l) {t : Signed Term} (member : t ∈ l) :
    Term.create s t.value.kind t.value.f1 t.value.f2 = .ok t.value := by
  obtain ⟨f, -, made⟩ := exists_mem_of_forall₂ (Outcome.mapM_eq_ok.1 run) member
  simp only [Outcome.bind_eq_ok, Outcome.pure_eq_ok] at made
  obtain ⟨x, created, rfl⟩ := made
  obtain ⟨kind, first, second, -⟩ := Term.create_spec created
  rw [kind, first, second, created]

theorem testEquation_spec {e : Equation FormId} {space : SpaceId} {labels : Labels}
    {tested : Equation Term} {v : FormId}
    (run : testEquation e space labels s = .ok (tested, v) s') :
    ∀ t ∈ tested.terms, Term.create s' t.value.kind t.value.f1 t.value.f2 = .ok t.value := by
  simp only [testEquation, bind_eq_ok, get_eq_ok, lift_eq_ok, pure_eq_ok] at run
  obtain ⟨_, _, root, _, _, ⟨rfl, rfl⟩, left, _, ⟨testedLeft, rfl⟩, right, _,
    ⟨testedRight, rfl⟩, same, rfl⟩ := run
  cases same
  intro t member
  exact (List.mem_append.1 member).elim (testSide_spec testedLeft) (testSide_spec testedRight)

theorem test_spec {p : Pde} {spaces : List SpaceId} {labels : List Labels} {w : WeakFormulation}
    (run : p.test spaces labels s = .ok w s') : w.WellFormed s' ∧ w.UnknownsAreRoots s' := by
  simp only [test, guard_eq_ok, bind_eq_ok, get_eq_ok, lift_eq_ok] at run
  obtain ⟨-, tested, s₁, each, _, _, ⟨rfl, rfl⟩, w₀, _, ⟨created, rfl⟩, run⟩ := run
  have terms : List.Forall₂ (fun _ result => ∀ t ∈ (result : Equation Term × FormId).1.terms,
      Term.create s₁ t.value.kind t.value.f1 t.value.f2 = .ok t.value) _ tested :=
    mapM_forall₂ (P := fun s _ result => ∀ t ∈ (result : Equation Term × FormId).1.terms,
        Term.create s t.value.kind t.value.f1 t.value.f2 = .ok t.value)
      (fun _ _ => testEquation_grows _ _ _)
      (fun steps made t member => Term.create_mono steps.extends (made t member))
      (fun _ run => testEquation_spec run) each
  obtain ⟨wellFormed, roots⟩ := WeakFormulation.create_spec (fun e member t term => by
    obtain ⟨result, listed, rfl⟩ := List.mem_map.1 member
    obtain ⟨_, -, made⟩ := exists_mem_of_forall₂ terms listed
    exact made t term) created
  cases unknowns : p.unknowns with
  | none =>
    rw [unknowns] at run
    obtain ⟨rfl, rfl⟩ := pure_eq_ok.1 run
    exact ⟨wellFormed, roots⟩
  | some forms =>
    rw [unknowns] at run
    obtain ⟨declared, rfl⟩ := lift_eq_ok.1 run
    exact WeakFormulation.withUnknowns_spec wellFormed declared

end Pde

/-! ## Derivations -/

namespace WeakFormulation

variable {s s' : Session} {w w' : WeakFormulation} {address : String}

theorem WellFormed.integrateByParts (wellFormed : w.WellFormed s) (sound : s.Sound)
    (run : w.integrateByParts address s = .ok w' s') :
    w'.WellFormed s' ∧ w'.unknowns = w.unknowns := by
  obtain ⟨i, e, side, before, t, after, a, volume, boundary, addresses, codifferential, green,
    splice⟩ := integrateByParts_eq_ok.1 run
  obtain ⟨k, first, second⟩ := wellFormed.exists_lives sound addresses codifferential
  obtain ⟨formula, createVolume, createBoundary⟩ :=
    Term.greenTerms_spec sound first second green
  have later := (w.integrateByParts_grows address).extends run
  have created : ∀ x ∈ ([⟨t.sign, volume⟩, ⟨t.sign.flipped, boundary⟩] : List (Signed Term)),
      Term.create s' x.value.kind x.value.f1 x.value.f2 = .ok x.value := by
    simpa [formula.volumeKind, formula.boundaryKind] using ⟨createVolume, createBoundary⟩
  exact ⟨wellFormed.of_splice later addresses created splice,
    (addresses.replaced splice).unknowns⟩

theorem WellFormed.split {slot : Slot} {forms : List FormId} {signs : List Sign}
    {factors : Option (List ScalarOperand)} (wellFormed : w.WellFormed s)
    (run : w.split address slot forms signs factors s = .ok w' s') :
    w'.WellFormed s' ∧ w'.unknowns = w.unknowns := by
  have later := (w.split_grows address slot forms signs factors).extends run
  obtain ⟨pieces, i, e, side, before, t, after, new, paired, addresses, terms, splice⟩ :=
    split_eq_ok.1 run
  have created : ∀ x ∈ new, Term.create s' x.value.kind x.value.f1 x.value.f2 = .ok x.value := by
    intro x member
    obtain ⟨p, -, replaces⟩ := exists_mem_of_forall₂ (mapM_term_spec terms) member
    exact replaces.created
  exact ⟨wellFormed.of_splice later addresses created splice,
    (addresses.replaced splice).unknowns⟩

/-- An equation that is rearranged has the terms that it had. -/
theorem exists_equation_of_rearrange {rules : List (Nat × String)}
    (run : w.rearrange rules = .ok w') {i : Nat} {e' : Equation Term}
    (known : w'.equations[i]? = some e') : ∃ e, w.equations[i]? = some e ∧ e'.size = e.size ∧
      (e'.terms.map Signed.value).Perm (e.terms.map Signed.value) := by
  have length := (frame_of_rearrange run).2.2.2
  obtain ⟨held, -⟩ := List.getElem?_eq_some_iff.1 known
  have found := List.getElem?_eq_getElem (length ▸ held)
  refine ⟨_, found, ?_⟩
  rcases getElem?_of_rearrange run found with ⟨-, same⟩ | ⟨pattern, e, -, applied, same⟩
  · cases known.symm.trans same
    exact ⟨rfl, .refl _⟩
  · cases known.symm.trans same
    obtain ⟨left, right, -, perm, rfl⟩ := Rearrangement.apply_eq_ok_iff.1 applied
    exact ⟨Equation.size_rearranged perm, Equation.values_rearranged_perm perm⟩

theorem WellFormed.rearrange {rules : List (Nat × String)} (wellFormed : w.WellFormed s)
    (run : w.rearrange rules = .ok w') : w'.WellFormed s ∧ w'.unknowns = w.unknowns := by
  obtain ⟨mesh, testForms, unknowns, length⟩ := frame_of_rearrange run
  refine ⟨⟨?_, fun e' member t term => ?_⟩, unknowns⟩
  · rw [mesh, testForms]
    refine check_of_fits wellFormed.checked length fun i e' v known testForm => ?_
    obtain ⟨e, known, size, terms⟩ := exists_equation_of_rearrange run known
    obtain ⟨v', testForm', held, lives, each⟩ := wellFormed.equationFits known
    cases testForm.symm.trans testForm'
    refine ⟨size ▸ held, lives, fun t member => ?_⟩
    obtain ⟨x, old, same⟩ := List.mem_map.1 (terms.subset (List.mem_map_of_mem member))
    exact same ▸ each x old
  · obtain ⟨i, known⟩ := List.mem_iff_getElem?.1 member
    obtain ⟨e, known, -, terms⟩ := exists_equation_of_rearrange run known
    obtain ⟨x, old, same⟩ := List.mem_map.1 (terms.subset (List.mem_map_of_mem term))
    exact same ▸ wellFormed.created e (List.mem_of_getElem? known) x old

end WeakFormulation

/-! ## Discretizations -/

/-- A finished discretization of terms of the session is well-formed. -/
theorem Workspace.Follows.finish_spec {w : Workspace} {start : Session}
    {source : DiscretizationSource} {log : List (Position × Edit)} {w' : WeakFormulation}
    (follows : w.Follows start source log)
    (run : DiscretizationSource.finish w.session source w.plan = .ok w') :
    w'.WellFormed w.session ∧ w'.UnknownsAreRoots w.session := by
  obtain ⟨checked, equations, testForms, unknowns⟩ := DiscretizationSource.finish_cases run
  refine ⟨⟨equations ▸ testForms ▸ checked, fun e' member t' term => ?_⟩,
    fun forms declared u member => ?_⟩
  · obtain ⟨i, known⟩ := List.mem_iff_getElem?.1 member
    rw [equations, DiscretizationSource.getElem?_currentEquations, Option.map_eq_some_iff] at known
    obtain ⟨e, known, rfl⟩ := known
    obtain ⟨j, t, standing, rfl⟩ := Equation.mem_mapPositions term
    have found : source.initial? ⟨i, j⟩ = some t :=
      DiscretizationSource.initial?_eq_some.2 ⟨e, known, standing⟩
    obtain ⟨sequence, -, edits⟩ := follows.terms
    exact (edits ⟨i, j⟩ t found).created (follows.created.of_initial? found)
  · rw [unknowns] at declared
    split at declared
    · cases declared
    · cases declared
      obtain ⟨entry, recorded, rfl⟩ := DiscretizationSource.mem_unknownForms member
      obtain ⟨binding, form, found, expr⟩ := follows.unknowns entry recorded
      exact ⟨form, found, by rw [Form.isRoot, expr, FormExpr.isLeaf]⟩

/-! ## Chains of constructions and derivations -/

/-- The ordinary differential equations that a session gives. -/
inductive Ode.Obtained (settings : Settings) : Session → Ode → Prop
  | create {s : Session} {left right : List (Signed Term)} {o : Ode}
    (reachable : Session.Reachable settings s)
    (terms : ∀ t ∈ left ++ right, Term.create s t.value.kind t.value.f1 t.value.f2 = .ok t.value)
    (run : Ode.create s left right = .ok o) : Obtained settings s o
  | withConstants {s : Session} {o o' : Ode} {forms : List FormId}
    (obtained : Obtained settings s o) (run : o.withConstants s forms = .ok o') :
    Obtained settings s o'
  /-- Meanwhile anything is requested of the session, and it may fail. -/
  | request {s : Session} {o : Ode} (obtained : Obtained settings s o) (request : Request) :
    Obtained settings (request.perform.after s) o

/-- The weak formulations that a session gives. -/
inductive WeakFormulation.Obtained (settings : Settings) : Session → WeakFormulation → Prop
  | create {s : Session} {equations : List (Equation Term)} {testForms : List FormId}
    {w : WeakFormulation} (reachable : Session.Reachable settings s)
    (terms : ∀ e ∈ equations, ∀ t ∈ e.terms,
      Term.create s t.value.kind t.value.f1 t.value.f2 = .ok t.value)
    (run : create s equations testForms = .ok w) : Obtained settings s w
  | ofTables {s : Session} {terms : List (List Term × List Term)}
    {signs : List (List Sign × List Sign)} {testForms : List FormId} {w : WeakFormulation}
    (reachable : Session.Reachable settings s)
    (created : ∀ sides ∈ terms, ∀ t ∈ sides.1 ++ sides.2, Term.create s t.kind t.f1 t.f2 = .ok t)
    (run : ofTables s terms signs testForms = .ok w) : Obtained settings s w
  | test {s s' : Session} {p : Pde} {spaces : List SpaceId} {labels : List Labels}
    {w : WeakFormulation} (reachable : Session.Reachable settings s)
    (run : p.test spaces labels s = .ok w s') : Obtained settings s' w
  | withUnknowns {s : Session} {w w' : WeakFormulation} {forms : List FormId}
    (obtained : Obtained settings s w) (run : w.withUnknowns s forms = .ok w') :
    Obtained settings s w'
  | integrateByParts {s s' : Session} {w w' : WeakFormulation} {address : String}
    (obtained : Obtained settings s w) (run : w.integrateByParts address s = .ok w' s') :
    Obtained settings s' w'
  | rearrange {s : Session} {w w' : WeakFormulation} {rules : List (Nat × String)}
    (obtained : Obtained settings s w) (run : w.rearrange rules = .ok w') : Obtained settings s w'
  | split {s s' : Session} {w w' : WeakFormulation} {address : String} {slot : Slot}
    {forms : List FormId} {signs : List Sign} {factors : Option (List ScalarOperand)}
    (obtained : Obtained settings s w)
    (run : w.split address slot forms signs factors s = .ok w' s') : Obtained settings s' w'
  | discretization {s : Session} {w w' : WeakFormulation} (obtained : Obtained settings s w)
    (calls : List (Call String))
    (run : DiscretizationSource.finish (Call.performAll (.formulation w) calls ⟨s, {}⟩).session
      (.formulation w) (Call.performAll (.formulation w) calls ⟨s, {}⟩).plan = .ok w') :
    Obtained settings (Call.performAll (.formulation w) calls ⟨s, {}⟩).session w'
  | odeDiscretization {s : Session} {o : Ode} {w' : WeakFormulation}
    (obtained : Ode.Obtained settings s o) (calls : List (Call String))
    (run : DiscretizationSource.finish (Call.performAll (.ode o) calls ⟨s, {}⟩).session
      (.ode o) (Call.performAll (.ode o) calls ⟨s, {}⟩).plan = .ok w') :
    Obtained settings (Call.performAll (.ode o) calls ⟨s, {}⟩).session w'
  /-- Meanwhile anything is requested of the session, and it may fail. -/
  | request {s : Session} {w : WeakFormulation} (obtained : Obtained settings s w)
    (request : Request) : Obtained settings (request.perform.after s) w

theorem Ode.Obtained.created {settings : Settings} {s : Session} {o : Ode}
    (obtained : Ode.Obtained settings s o) :
    Session.Reachable settings s ∧ (DiscretizationSource.ode o).Created s := by
  induction obtained with
  | create reachable terms run =>
    refine ⟨reachable, fun e member => ?_⟩
    cases List.mem_singleton.1 member
    rw [(Ode.create_spec run).1]
    exact terms
  | withConstants _ run ih =>
    simp only [Ode.withConstants, Outcome.bind_eq_ok, Outcome.pure_eq_ok] at run
    obtain ⟨-, -, rfl⟩ := run
    exact ih
  | request _ r ih =>
    exact ⟨ih.1.request r, fun e member t term =>
      Term.create_mono r.extends_after (ih.2 e member t term)⟩

namespace WeakFormulation

/-- What every constructor and every derivation keeps. -/
structure Valid (settings : Settings) (s : Session) (w : WeakFormulation) : Prop where
  reachable : Session.Reachable settings s
  wellFormed : w.WellFormed s
  unknowns : w.UnknownsAreRoots s

variable {settings : Settings} {s : Session} {w : WeakFormulation}

theorem Valid.request (valid : Valid settings s w) (r : Request) :
    Valid settings (r.perform.after s) w where
  reachable := valid.reachable.request r
  wellFormed := valid.wellFormed.mono r.extends_after
  unknowns := valid.unknowns.mono r.extends_after

theorem Valid.afterAll (valid : Valid settings s w) (requests : List Request) :
    Valid settings (s.afterAll requests) w := by
  induction requests generalizing s with
  | nil => exact valid
  | cons r requests ih => exact ih (valid.request r)

/-- A formulation that is finished after any calls is valid. -/
theorem valid_of_finish {source : DiscretizationSource} (reachable : Session.Reachable settings s)
    (created : source.Created s) {calls : List (Call String)}
    (run : DiscretizationSource.finish (Call.performAll source calls ⟨s, {}⟩).session source
      (Call.performAll source calls ⟨s, {}⟩).plan = .ok w) :
    Valid settings (Call.performAll source calls ⟨s, {}⟩).session w := by
  have follows := (Workspace.Follows.initial reachable.sound created).performAll calls
  obtain ⟨wellFormed, unknowns⟩ := follows.finish_spec run
  exact ⟨reachable.performAllCalls source calls, wellFormed, unknowns⟩

theorem Obtained.valid (obtained : Obtained settings s w) : Valid settings s w := by
  induction obtained with
  | create reachable terms run =>
    obtain ⟨wellFormed, unknowns⟩ := create_spec terms run
    exact ⟨reachable, wellFormed, unknowns⟩
  | ofTables reachable created run =>
    obtain ⟨wellFormed, unknowns⟩ := ofTables_spec created run
    exact ⟨reachable, wellFormed, unknowns⟩
  | @test s s' p spaces labels w reachable run =>
    obtain ⟨wellFormed, unknowns⟩ := Pde.test_spec run
    exact ⟨reachable.of_request (.test p spaces labels) rfl run, wellFormed, unknowns⟩
  | withUnknowns _ run ih =>
    obtain ⟨wellFormed, unknowns⟩ := withUnknowns_spec ih.wellFormed run
    exact ⟨ih.reachable, wellFormed, unknowns⟩
  | @integrateByParts s s' w w' address _ run ih =>
    obtain ⟨wellFormed, same⟩ := ih.wellFormed.integrateByParts ih.reachable.sound run
    have later := (w.integrateByParts_grows address).extends run
    exact ⟨ih.reachable.of_request (.integrateByParts w address) rfl run, wellFormed,
      (ih.unknowns.mono later).congr same⟩
  | rearrange _ run ih =>
    obtain ⟨wellFormed, same⟩ := ih.wellFormed.rearrange run
    exact ⟨ih.reachable, wellFormed, ih.unknowns.congr same⟩
  | @split s s' w w' address slot forms signs factors _ run ih =>
    obtain ⟨wellFormed, same⟩ := ih.wellFormed.split run
    have later := (w.split_grows address slot forms signs factors).extends run
    exact ⟨ih.reachable.of_request (.split w address slot forms signs factors) rfl run, wellFormed,
      (ih.unknowns.mono later).congr same⟩
  | @discretization s w w' _ calls run ih =>
    have created : (DiscretizationSource.formulation w).Created s := ih.wellFormed.created
    exact valid_of_finish ih.reachable created run
  | odeDiscretization obtained calls run =>
    exact valid_of_finish obtained.created.1 obtained.created.2 run
  | request _ r ih => exact ih.request r

/-- Weak formulations stay well-formed. However a formulation was obtained, and whatever is
requested of the session afterwards: it has equations, one test form for each, and each equation
has terms. The test forms live on its mesh. Each term is tested with the test form of its equation,
which is a root form, and lives on the mesh or on a boundary of it. The unknowns are root forms,
and its equations and test forms give it again. -/
theorem Obtained.stays_wellFormed (obtained : Obtained settings s w) (requests : List Request) :
    let s' := s.afterAll requests
    w.equations ≠ [] ∧ w.testForms.length = w.equations.length ∧
    (∀ e ∈ w.equations, 0 < e.size) ∧
    (∀ v ∈ w.testForms, s'.Reads v .root ∧ ∃ k, s'.Lives v w.mesh k) ∧
    (∀ (i : Nat) e v, w.equations[i]? = some e → w.testForms[i]? = some v → ∀ t ∈ e.terms,
      s'.Tested v t.value.f2 ∧
      ∃ k k' m, s'.Lives t.value.f1 t.value.mesh k ∧ s'.Lives t.value.f2 t.value.mesh k' ∧
        s'.meshes.get? t.value.mesh = some m ∧
        (t.value.mesh = w.mesh ∨ m.inclusion = some w.mesh)) ∧
    w.UnknownsAreRoots s' ∧
    WeakFormulation.create s' w.equations w.testForms = .ok { w with unknowns := none } := by
  intro s'
  obtain ⟨reachable, wellFormed, unknowns⟩ := obtained.valid.afterAll requests
  obtain ⟨nonempty, fits⟩ := check_eq_ok.1 wellFormed.checked
  have tested : ∀ (i : Nat) e v, w.equations[i]? = some e → w.testForms[i]? = some v →
      ∀ t ∈ e.terms, s'.Tested v t.value.f2 := by
    intro i e v known testForm t member
    obtain ⟨v', testForm', -, -, each⟩ := wellFormed.equationFits known
    cases testForm.symm.trans testForm'
    exact Session.testedForm?_eq_ok_some.1 (each t member).1
  refine ⟨nonempty, fits.length_eq.symm, fun e member => ?_, fun v member => ?_,
    fun i e v known testForm t member => ⟨tested i e v known testForm t member, ?_⟩, unknowns, ?_⟩
  · obtain ⟨v, -, fit⟩ := exists_mem_of_forall₂ fits.flip member
    exact fit.1
  · obtain ⟨i, testForm⟩ := List.mem_iff_getElem?.1 member
    obtain ⟨held, -⟩ := List.getElem?_eq_some_iff.1 testForm
    have known := List.getElem?_eq_getElem (fits.length_eq.symm ▸ held)
    obtain ⟨v', testForm', size, lives, -⟩ := wellFormed.equationFits known
    cases testForm.symm.trans testForm'
    -- The equation of the test form has a term, which is tested with it.
    obtain ⟨t, term⟩ := List.exists_mem_of_length_pos (Equation.length_terms _ ▸ size)
    exact ⟨(tested i _ v known testForm t term).isRoot, lives⟩
  · obtain ⟨v', testForm', -, -, each⟩ := wellFormed.equationFits known
    have created := wellFormed.created e (List.mem_of_getElem? known) t member
    obtain ⟨-, -, -, k, k', -, first, second, -⟩ := Term.create_spec created
    obtain ⟨m, found⟩ := reachable.sound.exists_mesh first
    refine ⟨k, k', m, first, second, found, ?_⟩
    rcases (each t member).2 with same | ⟨m', found', inclusion⟩
    · exact Or.inl same
    · cases found.symm.trans found'
      exact Or.inr inclusion
  · rw [WeakFormulation.create, wellFormed.checked]
    rfl

/-- The formulation `-(δ a, b) = 0` on an interval is integrated by parts, its terms are exchanged
and `b` is declared unknown. It passes its check again after more requests. -/
theorem Obtained.stays_wellFormed_interval :
    ∃ s w, Obtained {} s w ∧ (w.equations.map fun e => (e.left.length, e.right.length)) = [(1, 1)] ∧
      w.testForms = [⟨1⟩] ∧ w.unknowns = some [⟨1⟩] ∧
      w.UnknownsAreRoots (s.afterAll [.manifold 2, .space ⟨7⟩ 0 .inner]) ∧
      WeakFormulation.create (s.afterAll [.manifold 2, .space ⟨7⟩ 0 .inner]) w.equations
        w.testForms = .ok { w with unknowns := none } := by
  obtain ⟨s, reachable, livesB, livesDelta, outcome⟩ :
      ∃ s, Session.Reachable {} s ∧ s.Lives ⟨1⟩ ⟨0⟩ 0 ∧ s.Lives ⟨2⟩ ⟨0⟩ 0 ∧
        (match Term.create s .innerProduct ⟨2⟩ ⟨1⟩ with
          | .error _ => false
          | .ok t => match WeakFormulation.create s [⟨[⟨.minus, t⟩], []⟩] [⟨1⟩] with
            | .error _ => false
            | .ok w => match w.integrateByParts "0-0" s with
              | .error _ _ => false
              | .ok w₁ s₁ => match w₁.rearrange [(0, "1 = 0")] with
                | .error _ => false
                | .ok w₂ => match w₂.withUnknowns s₁ [⟨1⟩] with
                  | .error _ => false
                  | .ok w₃ => decide ((w₃.equations.map fun e => (e.left.length, e.right.length)) =
                      [(1, 1)] ∧ w₃.testForms = [⟨1⟩] ∧ w₃.unknowns = some [⟨1⟩])) = true :=
    ⟨Request.performAll {} [.manifold 1, .mesh ⟨0⟩, .space ⟨0⟩ 1 .outer, .space ⟨0⟩ 0 .outer,
      .root ⟨0⟩ ⟨"a", "a"⟩, .root ⟨1⟩ ⟨"b", "b"⟩, .operator .codifferential ⟨0⟩], .performAll {} _,
      by decide +kernel⟩
  obtain ⟨m, foundMesh⟩ := reachable.sound.exists_mesh livesB
  obtain ⟨t, created, -⟩ := Term.create_succeeds .innerProduct livesDelta livesB foundMesh rfl
  obtain ⟨kind, first, second, -⟩ := Term.create_spec created
  simp only [created] at outcome
  split at outcome
  · cases outcome
  rename_i w run
  split at outcome
  · cases outcome
  rename_i w₁ s₁ parts
  split at outcome
  · cases outcome
  rename_i w₂ exchanged
  split at outcome
  · cases outcome
  rename_i w₃ declared
  obtain ⟨sides, testForms, unknowns⟩ := of_decide_eq_true outcome
  have start : Obtained {} s w :=
    .create reachable (by simpa [Equation.terms, kind, first, second] using created) run
  have obtained := ((start.integrateByParts parts).rearrange exchanged).withUnknowns declared
  obtain ⟨-, -, -, -, -, roots, passes⟩ :=
    Obtained.stays_wellFormed obtained [.manifold 2, .space ⟨7⟩ 0 .inner]
  exact ⟨s₁, w₃, obtained, sides, testForms, unknowns, roots, passes⟩

end WeakFormulation

end Variational
