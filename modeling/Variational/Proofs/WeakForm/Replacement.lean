import Variational.Proofs.Equations
import Variational.Proofs.WeakForm.Checks
import Variational.WeakForm.Derivation

/-!
# Replacing a term

A term of a weak formulation stands at its address between the terms before and
after it. Replacing it by other terms of the session changes only its equation, and
leaves a well-formed formulation if the check succeeds.
-/

namespace Variational

variable {s s' : Session}

namespace WeakFormulation

variable {w w' : WeakFormulation} {address : String} {i : Nat} {e : Equation Term} {side : Side}
  {before after : List (Signed Term)} {t : Signed Term}

/-! ## The term at an address -/

/-- An address of a term of an equation, between the terms before and after it on a side. -/
def Addresses (w : WeakFormulation) (address : String) (i : Nat) (e : Equation Term) (side : Side)
    (before : List (Signed Term)) (t : Signed Term) (after : List (Signed Term)) : Prop :=
  ∃ j, Position.read address = .ok ⟨i, j⟩ ∧ w.equations[i]? = some e ∧
    e.StandsAt j side before t after

theorem Addresses.locate_eq (addresses : w.Addresses address i e side before t after) :
    w.locate address = .ok (i, side, before.length) := by
  obtain ⟨j, read, known, stands⟩ := addresses
  rw [locate, Outcome.bind_of_ok read]
  simp only [known, stands.locate_eq]
  rfl

theorem Addresses.term_eq (addresses : w.Addresses address i e side before t after) :
    w.term address = .ok t := by
  obtain ⟨j, read, known, stands⟩ := addresses
  rw [term, Outcome.bind_of_ok read]
  simp only [known, stands.get?_eq]
  rfl

theorem exists_addresses {place : Nat} (located : w.locate address = .ok (i, side, place))
    (found : w.term address = .ok t) : ∃ e before after,
      w.Addresses address i e side before t after ∧ before.length = place := by
  simp only [locate, Outcome.bind_eq_ok] at located
  simp only [term, Outcome.bind_eq_ok] at found
  obtain ⟨⟨i', j⟩, read, located⟩ := located
  obtain ⟨p, read', found⟩ := found
  cases read.symm.trans read'
  cases known : w.equations[i']? with
  | none => simp [known] at located
  | some e =>
    simp only [known] at located found
    cases inside : e.locate j with
    | none => simp [inside] at located
    | some spot =>
      cases standing : e.get? j with
      | none => simp [standing] at found
      | some x =>
        simp only [inside] at located
        simp only [standing] at found
        cases Outcome.pure_eq_ok.1 located
        cases Outcome.pure_eq_ok.1 found
        obtain ⟨before, after, stands, length⟩ := Equation.standsAt_of_locate inside standing
        exact ⟨e, before, after, ⟨j, read, known, stands⟩, length⟩

theorem Addresses.known (addresses : w.Addresses address i e side before t after) :
    w.equations[i]? = some e := by
  obtain ⟨_, -, known, -⟩ := addresses
  exact known

theorem Addresses.mem_terms (addresses : w.Addresses address i e side before t after) :
    t ∈ e.terms := by
  obtain ⟨_, -, -, stands⟩ := addresses
  exact stands.mem_terms

/-- An address is that of one term. -/
theorem Addresses.unique {i' : Nat} {e' : Equation Term} {side' : Side}
    {before' after' : List (Signed Term)} {t' : Signed Term}
    (addresses : w.Addresses address i e side before t after)
    (addresses' : w.Addresses address i' e' side' before' t' after') :
    i' = i ∧ e' = e ∧ side' = side ∧ before' = before ∧ t' = t ∧ after' = after := by
  have place := Except.ok.inj (addresses'.locate_eq.symm.trans addresses.locate_eq)
  simp only [Prod.mk.injEq] at place
  obtain ⟨rfl, rfl, length⟩ := place
  obtain ⟨_, -, known, split, -⟩ := addresses
  obtain ⟨_, -, known', split', -⟩ := addresses'
  cases known.symm.trans known'
  obtain ⟨rfl, rest⟩ := List.append_inj (split'.symm.trans split) length
  cases rest
  exact ⟨rfl, rfl, rfl, rfl, rfl, rfl⟩

/-! ## Replacing a term -/

variable {new : List (Signed Term)}

theorem splice_eq_ok {place : Nat} : w.splice s i side place new = .ok w' ↔
    (∃ mesh, check s w'.equations w'.testForms = .ok mesh) ∧
      w' = { w with equations := w.equations.modify i fun e => e.splice side place new } := by
  simp only [splice, withEquations, Outcome.bind_eq_ok, Outcome.pure_eq_ok]
  constructor
  · intro given
    rcases given with ⟨mesh, checked, rfl⟩
    exact ⟨⟨mesh, checked⟩, rfl⟩
  · intro given
    rcases given with ⟨⟨mesh, checked⟩, rfl⟩
    exact ⟨mesh, checked, rfl⟩

/-- Replacing a term only changes its equation. -/
theorem Addresses.of_splice (addresses : w.Addresses address i e side before t after)
    (run : w.splice s' i side before.length new = .ok w') :
    w' = { w with equations := w.equations.set i (e.splice side before.length new) } := by
  obtain ⟨-, rfl⟩ := splice_eq_ok.1 run
  obtain ⟨j, -, known, -⟩ := addresses
  rw [List.modify_eq_set_getElem?, known]
  rfl

/-- A formulation in which other terms stand in the place of a term, between the terms before
and after it, and nothing else is changed. -/
structure Replaced (w w' : WeakFormulation) (i : Nat) (e : Equation Term) (side : Side)
    (before new after : List (Signed Term)) : Prop where
  mesh : w'.mesh = w.mesh
  testForms : w'.testForms = w.testForms
  unknowns : w'.unknowns = w.unknowns
  equations : ∃ e', w'.equations = w.equations.set i e' ∧
    e'.side side = before ++ new ++ after ∧ ∀ other, other ≠ side → e'.side other = e.side other

theorem Addresses.replaced (addresses : w.Addresses address i e side before t after)
    (run : w.splice s' i side before.length new = .ok w') :
    w.Replaced w' i e side before new after := by
  obtain rfl := addresses.of_splice run
  obtain ⟨j, -, -, stands⟩ := addresses
  exact ⟨rfl, rfl, rfl, _, rfl, stands.side_splice, fun other differs =>
    Equation.side_splice_of_ne differs _⟩

/-- Replacing a term by terms of the same total keeps all residuals. -/
theorem Addresses.residuals_eq (addresses : w.Addresses address i e side before t after)
    (run : w.splice s' i side before.length new = .ok w') {G : Type*} [AddCommGroup G]
    {value : Term → G} (same : Equation.total value new = t.valued value) :
    w'.equations.map (Equation.residual value) = w.equations.map (Equation.residual value) := by
  obtain rfl := addresses.of_splice run
  obtain ⟨j, -, known, stands⟩ := addresses
  obtain ⟨held, rfl⟩ := List.getElem?_eq_some_iff.1 known
  rw [List.map_set, stands.residual_splice same, ← List.map_set, List.set_getElem_self]

/-- A formulation with a term replaced by terms of the session is well-formed. -/
theorem WellFormed.of_splice (wellFormed : w.WellFormed s) (later : s.Extends s')
    (addresses : w.Addresses address i e side before t after)
    (created : ∀ x ∈ new, Term.create s' x.value.kind x.value.f1 x.value.f2 = .ok x.value)
    (run : w.splice s' i side before.length new = .ok w') : w'.WellFormed s' := by
  obtain ⟨⟨mesh, checked⟩, rfl⟩ := splice_eq_ok.1 run
  obtain ⟨j, -, known, stands⟩ := addresses
  refine ⟨wellFormed.mesh_eq later checked ▸ checked, fun e' member x term => ?_⟩
  have old : ∀ e ∈ w.equations, x ∈ e.terms →
      Term.create s' x.value.kind x.value.f1 x.value.f2 = .ok x.value :=
    fun e member term => Term.create_mono later (wellFormed.created e member x term)
  obtain ⟨k, found⟩ := List.mem_iff_getElem?.1 member
  rw [List.getElem?_modify] at found
  obtain ⟨e₀, known₀, rfl⟩ := Option.map_eq_some_iff.1 found
  split at term
  · rename_i here
    subst here
    cases known.symm.trans known₀
    rcases stands.mem_terms_splice term with fresh | present
    · exact created x fresh
    · exact old e (List.mem_of_getElem? known) present
  · exact old e₀ (List.mem_of_getElem? known₀) term

/-- The term at an address of a well-formed formulation is a term of the session. -/
theorem WellFormed.created_of_addresses (wellFormed : w.WellFormed s)
    (addresses : w.Addresses address i e side before t after) :
    Term.create s t.value.kind t.value.f1 t.value.f2 = .ok t.value := by
  obtain ⟨j, -, known, stands⟩ := addresses
  exact wellFormed.created e (List.mem_of_getElem? known) t stands.mem_terms

/-- New terms of a well-formed formulation are tested with the test form of their equation. -/
theorem WellFormed.new_tested (wellFormed : w'.WellFormed s)
    (addresses : w.Addresses address i e side before t after)
    (replaced : w.Replaced w' i e side before new after) :
    ∃ v, w.testForms[i]? = some v ∧ ∀ x ∈ new, x.value.testForm? s = .ok (some v) := by
  obtain ⟨-, testForms, -, e', equations, own, -⟩ := replaced
  obtain ⟨j, -, known, -⟩ := addresses
  obtain ⟨held, -⟩ := List.getElem?_eq_some_iff.1 known
  have here : w'.equations[i]? = some e' := by rw [equations, List.getElem?_set_self held]
  obtain ⟨v, tested, fits⟩ := wellFormed.equationFits here
  refine ⟨v, testForms ▸ tested, fun x member => (fits.2.2 x ?_).1⟩
  have inSide : x ∈ e'.side side := by
    rw [own]
    exact List.mem_append_left _ (List.mem_append_right _ member)
  cases side with
  | left => exact List.mem_append_left _ inSide
  | right => exact List.mem_append_right _ inSide

/-- Terms that fit wherever the replaced term fits pass the check. -/
theorem WellFormed.splice_succeeds (wellFormed : w.WellFormed s) (later : s.Extends s')
    (addresses : w.Addresses address i e side before t after) (nonempty : new ≠ [])
    (fits : ∀ x ∈ new, ∀ v, TermFits s w.mesh v t.value → TermFits s' w.mesh v x.value) :
    ∃ w', w.splice s' i side before.length new = .ok w' := by
  obtain ⟨j, -, known, stands⟩ := addresses
  obtain ⟨nonempty', each⟩ := check_eq_ok.1 wellFormed.checked
  refine ⟨_, splice_eq_ok.2 ⟨⟨w.mesh, check_eq_ok.2 ⟨?_, forall₂_modify later each ?_⟩⟩, rfl⟩⟩
  · rwa [Ne, List.modify_eq_nil_iff]
  · intro e' v known' fit
    cases known.symm.trans known'
    obtain ⟨positive, ⟨k, lives⟩, each⟩ := fit
    have size := stands.size_splice new
    have length := List.length_pos_iff.2 nonempty
    refine ⟨by omega, ⟨k, later.lives lives⟩, fun x member => ?_⟩
    rcases stands.mem_terms_splice member with fresh | present
    · exact fits x fresh v (each t stands.mem_terms)
    · exact (each x present).mono later

end WeakFormulation

end Variational
