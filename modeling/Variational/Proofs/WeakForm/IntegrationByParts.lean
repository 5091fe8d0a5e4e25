import Variational.Proofs.Progress
import Variational.Proofs.WeakForm.Replacement

/-!
# Integration by parts

Integration by parts replaces a term `(δ a, b)` in place by `(a, d b)` and the
boundary term `<tr ⋆a, tr b>` with the opposite sign, and so keeps the residual of
every equation under Green's formula. In a ready session it succeeds at every term
`(δ a, b)` on the mesh of the formulation.
-/

namespace Variational

open Derive

variable {s s' : Session} {d : Nat} {a b : FormId}

/-! ## Green's formula -/

namespace Term

variable {t volume boundary : Term}

/-- The term `(δ a, b)`. -/
def IsCodifferential (s : Session) (t : Term) (a : FormId) : Prop :=
  t.kind = .innerProduct ∧ s.Reads t.f1 (.unary .codifferential a)

/-- The terms `(a, d b)` over a mesh and `<tr ⋆a, tr b>` over its boundary. -/
structure Green (s : Session) (mesh : MeshId) (a b : FormId) (volume boundary : Term) : Prop where
  volumeKind : volume.kind = .innerProduct
  volumeFirst : volume.f1 = a
  volumeSecond : s.Reads volume.f2 (.unary .derivative b)
  volumeMesh : volume.mesh = mesh
  boundaryKind : boundary.kind = .dualityPairing
  boundaryFirst : ∃ hodge, s.Reads hodge (.unary .hodge a) ∧
    s.Reads boundary.f1 (.unary .trace hodge)
  boundarySecond : s.Reads boundary.f2 (.unary .trace b)
  boundaryMesh : ∃ m, s.meshes.get? boundary.mesh = some m ∧ m.inclusion = some mesh

theorem codifferentiated?_eq_some :
    codifferentiated? s t = .ok (some a) ↔ IsCodifferential s t a := by
  rw [codifferentiated?, Outcome.bind_eq_ok]
  constructor
  · intro given
    rcases given with ⟨form, found, run⟩
    split at run
    · rename_i kind expr
      cases Outcome.pure_eq_ok.1 run
      exact ⟨kind, form, Arena.fetch_eq_ok_iff.1 found, expr⟩
    · cases Outcome.pure_eq_ok.1 run
  · intro given
    rcases given with ⟨kind, form, found, expr⟩
    refine ⟨form, Arena.fetch_eq_ok_iff.2 found, ?_⟩
    rw [kind, expr]
    rfl

/-- The terms of Green's formula are built from the forms of the session. -/
theorem greenTerms_spec {mesh : MeshId} {k : Nat} (sound : s.Sound) (first : s.Lives a mesh (k + 1))
    (second : s.Lives b mesh k) (run : greenTerms a b s = .ok (volume, boundary) s') :
    Green s' mesh a b volume boundary ∧
      create s' .innerProduct volume.f1 volume.f2 = .ok volume ∧
      create s' .dualityPairing boundary.f1 boundary.f2 = .ok boundary := by
  simp only [greenTerms, bind_eq_ok, get_eq_ok, lift_eq_ok, pure_eq_ok] at run
  obtain ⟨db, s₁, runDb, _, _, ⟨rfl, rfl⟩, vol, _, ⟨createVol, rfl⟩, hodge, s₂, runHodge,
    traceHodge, s₃, runTraceHodge, trace, s₄, runTrace, _, _, ⟨rfl, rfl⟩, bdry, _,
    ⟨createBdry, rfl⟩, same, rfl⟩ := run
  cases same
  have steps₁ := (Form.apply_grows _ _).steps runDb
  have steps₂ := (Form.apply_grows _ _).steps runHodge
  have steps₃ := (Form.apply_grows _ _).steps runTraceHodge
  have steps₄ := (Form.apply_grows _ _).steps runTrace
  have later₂ : s₂.Extends s₄ := steps₃.extends.trans steps₄.extends
  have later₁ : s₁.Extends s₄ := steps₂.extends.trans later₂
  have sound₄ : s₄.Sound := sound.steps (((steps₁.trans steps₂).trans steps₃).trans steps₄)
  obtain ⟨volumeKind, rfl, rfl, _, _, _, livesFirst, -⟩ := create_spec createVol
  obtain ⟨boundaryKind, rfl, rfl, _, _, _, -, livesTrace, -⟩ := create_spec createBdry
  have readsTrace := Session.reads_of_apply runTrace
  obtain ⟨mesh', m, lives', foundMesh, inclusion⟩ := sound₄.lives_trace readsTrace
    ((steps₁.extends.trans later₁).lives second)
  refine ⟨?_, create_mono later₁ createVol, createBdry⟩
  exact {
    volumeKind := volumeKind
    volumeFirst := rfl
    volumeSecond := later₁.reads (Session.reads_of_apply runDb)
    volumeMesh := (livesFirst.unique (steps₁.extends.lives first)).1
    boundaryKind := boundaryKind
    boundaryFirst := ⟨hodge, later₂.reads (Session.reads_of_apply runHodge),
      steps₄.extends.reads (Session.reads_of_apply runTraceHodge)⟩
    boundarySecond := readsTrace
    boundaryMesh := ⟨m, (livesTrace.unique lives').1 ▸ foundMesh, inclusion⟩ }

/-- In a ready session there are the terms of Green's formula. -/
theorem greenTerms_succeeds {mesh : MeshId} {m : Mesh} {k : Nat} (ready : s.Ready d)
    (first : s.Lives a mesh (k + 1)) (second : s.Lives b mesh k)
    (foundMesh : s.meshes.get? mesh = some m) :
    ∃ volume boundary s', greenTerms a b s = .ok (volume, boundary) s' := by
  have bound : k < m.ndim := ready.sound.le_ndim first foundMesh
  obtain ⟨db, s₁, runDb, ready₁⟩ :=
    ready.apply_succeeds .derivative second foundMesh bound
  have later₁ := (Form.apply_grows _ _).extends runDb
  have first₁ := later₁.lives first
  have second₁ := later₁.lives second
  obtain ⟨volume, createVolume, -⟩ := create_succeeds .innerProduct first₁
    (ready₁.sound.lives_derivative (Session.reads_of_apply runDb) second₁)
    (later₁.meshes foundMesh) rfl
  obtain ⟨hodge, s₂, runHodge, ready₂⟩ :=
    ready₁.apply_succeeds .hodge first₁ (later₁.meshes foundMesh) trivial
  have later₂ := (Form.apply_grows _ _).extends runHodge
  have foundMesh₂ := later₂.meshes (later₁.meshes foundMesh)
  have livesHodge := ready₂.sound.lives_hodge (Session.reads_of_apply runHodge)
    (later₂.lives first₁) foundMesh₂
  obtain ⟨traceHodge, s₃, runTraceHodge, ready₃⟩ := ready₂.apply_succeeds .trace livesHodge
    foundMesh₂ (Nat.sub_lt (Nat.zero_lt_of_lt bound) (Nat.succ_pos k))
  have later₃ := (Form.apply_grows _ _).extends runTraceHodge
  obtain ⟨trace, s₄, runTrace, ready₄⟩ := ready₃.apply_succeeds .trace
    (later₃.lives (later₂.lives second₁)) (later₃.meshes foundMesh₂) bound
  have later₄ := (Form.apply_grows _ _).extends runTrace
  -- Both traces live on the one boundary of the mesh.
  obtain ⟨boundary, n, livesFirst, foundBoundary, inclusion⟩ := ready₄.sound.lives_trace
    (later₄.reads (Session.reads_of_apply runTraceHodge))
    (later₄.lives (later₃.lives livesHodge))
  obtain ⟨boundary', n', livesSecond, foundBoundary', inclusion'⟩ := ready₄.sound.lives_trace
    (Session.reads_of_apply runTrace) (later₄.lives (later₃.lives (later₂.lives second₁)))
  cases ready₄.sound.eq_of_inclusion foundBoundary foundBoundary' inclusion inclusion'
  have below := ready₄.sound.ndim_of_inclusion foundBoundary inclusion
    (later₄.meshes (later₃.meshes foundMesh₂))
  have word := ready₄.sound.ndim_lt foundBoundary
  have degrees : DegreesFit n.ndim (m.ndim - (k + 1)) k .dualityPairing := by
    rw [DegreesFit, Text.wordSum_eq_add (by omega)]
    omega
  obtain ⟨boundary, createBoundary, -⟩ :=
    create_succeeds _ livesFirst livesSecond foundBoundary degrees
  refine ⟨volume, boundary, s₄, ?_⟩
  rw [greenTerms, bind_of_ok runDb, get_bind, lift_bind_of_ok createVolume, bind_of_ok runHodge,
    bind_of_ok runTraceHodge, bind_of_ok runTrace, get_bind, lift_bind_of_ok createBoundary]
  rfl

end Term

namespace WeakFormulation

variable {w w' : WeakFormulation} {address : String} {i : Nat} {e : Equation Term} {side : Side}
  {before after : List (Signed Term)} {t : Signed Term}

/-! ## Integration by parts -/

theorem integrateByParts_eq_ok : w.integrateByParts address s = .ok w' s' ↔
    ∃ i e side before t after a volume boundary, w.Addresses address i e side before t after ∧
      t.value.IsCodifferential s a ∧
      Term.greenTerms a t.value.f2 s = .ok (volume, boundary) s' ∧
      w.splice s' i side before.length
        [⟨t.sign, volume⟩, ⟨t.sign.flipped, boundary⟩] = .ok w' := by
  constructor
  · intro run
    simp only [integrateByParts, get_bind, bind_eq_ok, lift_eq_ok] at run
    obtain ⟨⟨i, side, place⟩, _, ⟨located, rfl⟩, t, _, ⟨found, rfl⟩, pattern, _,
      ⟨codifferential, rfl⟩, run⟩ := run
    obtain ⟨e, before, after, addresses, rfl⟩ := exists_addresses located found
    cases pattern with
    | none =>
      obtain ⟨fails, -⟩ := lift_eq_ok.1 run
      simp at fails
    | some a =>
      simp only [get_bind, bind_eq_ok, lift_eq_ok] at run
      obtain ⟨⟨volume, boundary⟩, _, green, splice, rfl⟩ := run
      exact ⟨i, e, side, before, t, after, a, volume, boundary, addresses,
        Term.codifferentiated?_eq_some.1 codifferential, green, splice⟩
  · intro given
    obtain ⟨i, e, side, before, t, after, a, volume, boundary, addresses, codifferential, green,
      splice⟩ := given
    rw [integrateByParts, lift_bind_of_ok addresses.locate_eq]
    dsimp only
    rw [lift_bind_of_ok addresses.term_eq, get_bind,
      lift_bind_of_ok (Term.codifferentiated?_eq_some.2 codifferential)]
    dsimp only
    rw [bind_of_ok green]
    dsimp only
    rw [get_bind]
    exact lift_eq_ok.2 ⟨splice, rfl⟩

/-- The forms of a term `(δ a, b)` live on its mesh, `a` with one degree more. -/
theorem WellFormed.exists_lives (wellFormed : w.WellFormed s) (sound : s.Sound)
    (addresses : w.Addresses address i e side before t after)
    (codifferential : t.value.IsCodifferential s a) :
    ∃ k, s.Lives a t.value.mesh (k + 1) ∧ s.Lives t.value.f2 t.value.mesh k := by
  have created := wellFormed.created_of_addresses addresses
  obtain ⟨-, -, -, k, k', _, first, second, -, same⟩ := Term.create_spec created
  rw [codifferential.1, Term.DegreesFit] at same
  exact ⟨k, sound.lives_codifferential codifferential.2 first, same ▸ second⟩

/-- The terms of Green's formula are tested like the term that they replace. -/
theorem termFits_of_green {mesh : MeshId} {volume boundary : Term} {v : FormId}
    (green : Term.Green s mesh a b volume boundary) (tested : s.testedForm? b = .ok (some v)) :
    TermFits s mesh v volume ∧ TermFits s mesh v boundary := by
  refine ⟨⟨?_, Or.inl green.volumeMesh⟩, ⟨?_, Or.inr green.boundaryMesh⟩⟩
  · rw [Session.testedForm?_of_reads green.volumeSecond (Or.inl rfl), tested]
  · rw [Session.testedForm?_of_reads green.boundarySecond (Or.inr rfl), tested]

/-- Integration by parts replaces a term `(δ a, b)` in place by the two terms of Green's
formula and changes nothing else, so residuals are kept by every valuation that satisfies
the formula. Under default settings it succeeds at every such term on the mesh of the
formulation, unless a user labels a mesh like a boundary or finite spaces differ in their
degrees. -/
theorem integrateByParts_green {settings : Settings} (reachable : Session.Reachable settings s)
    (wellFormed : w.WellFormed s) (address : String) :
    (∀ w' s', w.integrateByParts address s = .ok w' s' →
      w'.WellFormed s' ∧ ∃ i e side before t after a volume boundary e',
        w.Addresses address i e side before t after ∧ t.value.IsCodifferential s a ∧
        Term.Green s' t.value.mesh a t.value.f2 volume boundary ∧
        w'.mesh = w.mesh ∧ w'.testForms = w.testForms ∧ w'.unknowns = w.unknowns ∧
        w'.equations = w.equations.set i e' ∧
        e'.side side = before ++ ⟨t.sign, volume⟩ :: ⟨t.sign.flipped, boundary⟩ :: after ∧
        (∀ other, other ≠ side → e'.side other = e.side other) ∧
        ∀ {G : Type*} [AddCommGroup G] (value : Term → G),
          value t.value = value volume - value boundary →
            w'.equations.map (Equation.residual value) =
              w.equations.map (Equation.residual value)) ∧
    (settings = {} → s.BoundaryLabelsFree → (∃ d, s.FiniteAt d) →
      ∀ i e side before t after a, w.Addresses address i e side before t after →
        t.value.IsCodifferential s a → t.value.mesh = w.mesh →
        ∃ w' s', w.integrateByParts address s = .ok w' s') := by
  have sound := reachable.sound
  refine ⟨?sound, ?complete⟩
  case sound =>
    intro w' s' run
    obtain ⟨i, e, side, before, t, after, a, volume, boundary, addresses, codifferential, green,
      splice⟩ := integrateByParts_eq_ok.1 run
    obtain ⟨k, first, second⟩ := wellFormed.exists_lives sound addresses codifferential
    obtain ⟨formula, createVolume, createBoundary⟩ :=
      Term.greenTerms_spec sound first second green
    have later := (w.integrateByParts_grows address).extends run
    have created : ∀ x ∈ ([⟨t.sign, volume⟩, ⟨t.sign.flipped, boundary⟩] : List (Signed Term)),
        Term.create s' x.value.kind x.value.f1 x.value.f2 = .ok x.value := by
      simpa [formula.volumeKind, formula.boundaryKind] using ⟨createVolume, createBoundary⟩
    have well := wellFormed.of_splice later addresses created splice
    obtain ⟨mesh, testForms, unknowns, e', equations, own, other⟩ := addresses.replaced splice
    refine ⟨well, i, e, side, before, t, after, a, volume, boundary, e', addresses, codifferential,
      formula, mesh, testForms, unknowns, equations, ?_, other, fun value holds =>
        addresses.residuals_eq splice (Equation.total_of_sub holds)⟩
    rw [own, List.append_assoc]
    rfl
  case complete =>
    intro default free ⟨d, finite⟩ i e side before t after a addresses codifferential own
    have ready : s.Ready d := ⟨sound, reachable.settings_eq.trans default, finite, free⟩
    obtain ⟨k, first, second⟩ := wellFormed.exists_lives sound addresses codifferential
    obtain ⟨m, foundMesh⟩ := sound.exists_mesh first
    obtain ⟨volume, boundary, s', green⟩ := Term.greenTerms_succeeds ready first second foundMesh
    have later := (Term.greenTerms_grows a t.value.f2).extends green
    obtain ⟨formula, -⟩ := Term.greenTerms_spec sound first second green
    have fits : ∀ x ∈ [⟨t.sign, volume⟩, (⟨t.sign.flipped, boundary⟩ : Signed Term)], ∀ v,
        TermFits s w.mesh v t.value → TermFits s' w.mesh v x.value := by
      intro x member v tested
      have both := termFits_of_green (own ▸ formula) (later.testedForm?_eq_ok tested.1)
      rcases List.mem_pair.1 member with rfl | rfl
      · exact both.1
      · exact both.2
    obtain ⟨w', splice⟩ := wellFormed.splice_succeeds later addresses (by simp) fits
    exact ⟨w', s', integrateByParts_eq_ok.2 ⟨i, e, side, before, t, after, a, volume, boundary,
      addresses, codifferential, green, splice⟩⟩

/-- On an interval the term of `-(δ a, b) = 0` is replaced by `-(a, d b) + <tr ⋆a, tr b>`. -/
theorem integrateByParts_green_interval :
    ∃ s t, Session.Reachable {} s ∧ s.BoundaryLabelsFree ∧ s.FiniteAt 2 ∧
      Term.create s .innerProduct ⟨2⟩ ⟨1⟩ = .ok t ∧
      let w : WeakFormulation := ⟨⟨0⟩, [⟨[⟨.minus, t⟩], []⟩], [⟨1⟩], none⟩
      w.WellFormed s ∧ ∃ w' s' volume boundary, w.integrateByParts "0-0" s = .ok w' s' ∧
        Term.Green s' ⟨0⟩ ⟨0⟩ ⟨1⟩ volume boundary ∧
        w'.equations = [⟨[⟨.minus, volume⟩, ⟨.plus, boundary⟩], []⟩] := by
  obtain ⟨s, reachable, free, finite, livesB, livesDelta, readsB, readsDelta⟩ :
      ∃ s, Session.Reachable {} s ∧ s.BoundaryLabelsFree ∧ s.FiniteAt 2 ∧ s.Lives ⟨1⟩ ⟨0⟩ 0 ∧
        s.Lives ⟨2⟩ ⟨0⟩ 0 ∧ s.Reads ⟨1⟩ .root ∧ s.Reads ⟨2⟩ (.unary .codifferential ⟨0⟩) :=
    ⟨Request.performAll {} [.manifold 1, .mesh ⟨0⟩, .space ⟨0⟩ 1 .outer, .space ⟨0⟩ 0 .outer,
      .degrees 2, .root ⟨0⟩ ⟨"a", "a"⟩, .root ⟨1⟩ ⟨"b", "b"⟩, .operator .codifferential ⟨0⟩],
      .performAll {} _, by decide +kernel⟩
  obtain ⟨m, foundMesh⟩ := reachable.sound.exists_mesh livesB
  obtain ⟨t, created, mesh⟩ := Term.create_succeeds .innerProduct livesDelta livesB
    foundMesh rfl
  obtain ⟨kind, first, second, -⟩ := Term.create_spec created
  have tested : s.testedForm? t.f2 = .ok (some ⟨1⟩) := by
    obtain ⟨form, found, root⟩ := readsB
    rw [second, Session.testedForm?_eq found, root]
  have wellFormed : WellFormed ⟨⟨0⟩, [⟨[⟨.minus, t⟩], []⟩], [⟨1⟩], none⟩ s := by
    refine ⟨check_eq_ok.2 ⟨by simp, .cons ⟨?_, ⟨0, livesB⟩, ?_⟩ .nil⟩, ?_⟩
    · exact Nat.one_pos
    · simpa [Equation.terms] using ⟨tested, Or.inl mesh⟩
    · simpa [Equation.terms, kind, first, second] using created
  refine ⟨s, t, reachable, free, finite, created, wellFormed, ?_⟩
  obtain ⟨sound, complete⟩ := integrateByParts_green.{0} reachable wellFormed "0-0"
  have here : Addresses ⟨⟨0⟩, [⟨[⟨.minus, t⟩], []⟩], [⟨1⟩], none⟩ "0-0" 0 _ .left []
      ⟨.minus, t⟩ [] := ⟨0, rfl, rfl, rfl, rfl⟩
  obtain ⟨w', s', run⟩ := complete rfl free ⟨2, finite⟩ 0 _ .left [] ⟨.minus, t⟩ [] ⟨0⟩ here
    ⟨kind, first ▸ readsDelta⟩ mesh
  obtain ⟨-, i, e, side, before, t', after, a, volume, boundary, e', there, ⟨-, reads⟩, green,
    -, -, -, exchanged, own, other, -⟩ := sound w' s' run
  -- Both descriptions of the address are about its one term.
  have place := Except.ok.inj (there.locate_eq.symm.trans here.locate_eq)
  simp only [Prod.mk.injEq, List.length_nil, List.length_eq_zero_iff] at place
  obtain ⟨rfl, rfl, rfl⟩ := place
  obtain rfl := Except.ok.inj (there.term_eq.symm.trans here.term_eq)
  obtain ⟨-, -, known, split, -⟩ := there
  cases known
  cases split
  cases reads.unique (first ▸ readsDelta)
  refine ⟨w', s', volume, boundary, run, ?_, ?_⟩
  · rw [mesh, second] at green
    exact green
  · rw [exchanged]
    exact congrArg (fun e => [e]) (Equation.ext own (other .right (by decide)))

end WeakFormulation

end Variational
