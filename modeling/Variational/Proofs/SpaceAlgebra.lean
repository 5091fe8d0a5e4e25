import Variational.Proofs.Rebuilding

/-!
# The algebra of spaces

A session holds one space for every mesh, degree of forms and orientation, and the label of a
space tells which one it is. So the answers of the operators on spaces obey the laws of their
degrees and orientations, whenever in the history of a session they were given. While the finite
spaces share one polynomial degree, an operator fails only for the degree of its operand.
-/

namespace Variational

open Derive

variable {settings : Settings} {s s' : Session} {op : UnaryOperator}
  {source target left right x y z : SpaceId}

namespace Session

/-! ## Answers in the history of a session -/

/-- A derivation was carried out before the session was reached, with the given result. -/
def Answered {α : Type} (settings : Settings) (m : Derive α) (a : α) (s : Session) : Prop :=
  ∃ before after requests, Reachable settings before ∧ m before = .ok a after ∧
    s = after.afterAll requests

/-- What the result of a derivation satisfies right after it, and later sessions keep, holds of
every answer. -/
theorem Answered.holds {α : Type} {m : Derive α} {a : α} {P : Session → Prop}
    (answered : Answered settings m a s) (gives : ∀ {r r'}, m r = .ok a r' → P r')
    (keeps : ∀ {r r' : Session}, r.Extends r' → P r → P r') : P s := by
  obtain ⟨before, after, requests, -, run, rfl⟩ := answered
  exact keeps (after.afterAll_steps requests).extends (gives run)

/-- The laws of the operators on spaces, as far as they have answers. -/
structure SpaceLaws (settings : Settings) (s : Session) : Prop where
  unique : ∀ {x y sx sy}, s.spaces.get? x = some sx → s.spaces.get? y = some sy →
    sx.mesh = sy.mesh → sx.k = sy.k → sx.orientation = sy.orientation → x = y
  labelled : ∀ {mesh m}, s.meshes.get? mesh = some m → ∀ k orientation,
    s.spaces.find? (fun sp => sp.labels.lin = (Space.labelsOn m k orientation).lin) =
      s.spaces.find? fun sp => sp.mesh = mesh ∧ sp.k = k ∧ sp.orientation = orientation
  hodge_hodge : ∀ {x y z}, Answered settings (Space.hodge x) y s →
    Answered settings (Space.hodge y) z s → z = x
  codifferential_derivative : ∀ {x y z}, Answered settings (Space.derivative x) y s →
    Answered settings (Space.codifferential y) z s → z = x
  derivative_codifferential : ∀ {x y z}, Answered settings (Space.codifferential x) y s →
    Answered settings (Space.derivative y) z s → z = x
  trace_derivative : ∀ {x dx tdx tx dtx}, Answered settings (Space.derivative x) dx s →
    Answered settings (Space.trace dx) tdx s → Answered settings (Space.trace x) tx s →
    Answered settings (Space.derivative tx) dtx s → tdx = dtx
  wedge_comm : ∀ {a b ab ba}, Answered settings (Space.wedge a b) ab s →
    Answered settings (Space.wedge b a) ba s → ab = ba
  wedge_assoc : ∀ {a b c ab ab_c bc a_bc}, Answered settings (Space.wedge a b) ab s →
    Answered settings (Space.wedge ab c) ab_c s → Answered settings (Space.wedge b c) bc s →
    Answered settings (Space.wedge a bc) a_bc s → ab_c = a_bc

/-- When the operators on spaces have answers. -/
structure SpaceCalls (s : Session) : Prop where
  derivative : ∀ {x sp m}, s.spaces.get? x = some sp → s.meshes.get? sp.mesh = some m →
    ((∃ y s', Space.derivative x s = .ok y s') ↔ sp.k < m.ndim)
  codifferential : ∀ {x sp}, s.spaces.get? x = some sp →
    ((∃ y s', Space.codifferential x s = .ok y s') ↔ 0 < sp.k)
  hodge : ∀ {x sp}, s.spaces.get? x = some sp → ∃ y s', Space.hodge x s = .ok y s'
  wedge : ∀ {a b sa sb m}, s.spaces.get? a = some sa → s.spaces.get? b = some sb →
    s.meshes.get? sa.mesh = some m → m.ndim < 2 ^ 63 →
    ((∃ y s', Space.wedge a b s = .ok y s') ↔ sa.mesh = sb.mesh ∧ sa.k + sb.k ≤ m.ndim)

end Session

/-! ## Degrees and orientations -/

theorem Text.wordSum_comm (a b : Nat) : wordSum a b = wordSum b a := by
  rw [wordSum, Nat.add_comm, ← wordSum]

theorem Text.wordSum_assoc (a b c : Nat) :
    wordSum (wordSum a b) c = wordSum a (wordSum b c) := by
  simp only [wordSum, Nat.mod_add_mod, Nat.add_mod_mod, Nat.add_assoc]

theorem Orientation.common_assoc (a b c : Orientation) :
    (a.common b).common c = a.common (b.common c) := by
  cases a <;> cases b <;> cases c <;> rfl

/-! ## Spaces and their labels -/

theorem Arena.find?_congr {kind : EntityKind} {α : Type} {arena : Arena kind α} {p q : α → Bool}
    (same : ∀ id a, arena.get? id = some a → p a = q a) : arena.find? p = arena.find? q := by
  have lists (l : List α) (same : ∀ a ∈ l, p a = q a) : l.findIdx? p = l.findIdx? q := by
    induction l with
    | nil => rfl
    | cons a l ih =>
      rw [List.forall_mem_cons] at same
      rw [List.findIdx?_cons, List.findIdx?_cons, same.1, ih same.2]
  refine congrArg (Option.map EntityId.mk) (lists _ fun a member => ?_)
  obtain ⟨i, found⟩ := List.mem_iff_getElem?.1 member
  exact same ⟨i⟩ a found

namespace Session

/-- Looking a space up by its label finds the space of the mesh, the degree and the orientation
that the label is composed from. -/
theorem Sound.find?_label (sound : s.Sound) {mesh : MeshId} {m : Mesh}
    (found : s.meshes.get? mesh = some m) (k : Nat) (orientation : Orientation) :
    s.spaces.find? (fun sp => sp.labels.lin = (Space.labelsOn m k orientation).lin) =
      s.spaces.find? fun sp => sp.mesh = mesh ∧ sp.k = k ∧ sp.orientation = orientation := by
  refine Arena.find?_congr fun id sp foundSpace => decide_eq_decide.2 ?_
  obtain ⟨m', found', -, labels⟩ := sound.spaces foundSpace
  rw [labels]
  constructor
  · intro same
    obtain ⟨rfl, rfl, lins⟩ := Space.labelsOn_inj same
    exact ⟨sound.meshLabels.eq_of_lin found' found lins, rfl, rfl⟩
  · rintro ⟨rfl, rfl, rfl⟩
    cases found.symm.trans found'
    rfl

/-! ## Laws of the rules -/

namespace Sound

theorem inverse_derivative (sound : s.Sound) (rule : s.OperatorRule .derivative x y)
    (rule' : s.OperatorRule .codifferential y z) : z = x := by
  obtain ⟨src, mid, found, foundMid, mesh, k, orientation⟩ := rule
  obtain ⟨mid', dst, foundMid', foundTarget, mesh', k', orientation'⟩ := rule'
  cases foundMid.symm.trans foundMid'
  exact sound.distinctSpaces foundTarget found (mesh'.trans mesh) (by omega)
    (orientation'.trans orientation)

theorem inverse_codifferential (sound : s.Sound) (rule : s.OperatorRule .codifferential x y)
    (rule' : s.OperatorRule .derivative y z) : z = x := by
  obtain ⟨src, mid, found, foundMid, mesh, k, orientation⟩ := rule
  obtain ⟨mid', dst, foundMid', foundTarget, mesh', k', orientation'⟩ := rule'
  cases foundMid.symm.trans foundMid'
  exact sound.distinctSpaces foundTarget found (mesh'.trans mesh) (by omega)
    (orientation'.trans orientation)

theorem inverse_hodge (sound : s.Sound) (rule : s.OperatorRule .hodge x y)
    (rule' : s.OperatorRule .hodge y z) : z = x := by
  obtain ⟨src, mid, found, foundMid, mesh, orientation, m, foundMesh, k⟩ := rule
  obtain ⟨mid', dst, foundMid', foundTarget, mesh', orientation', m', foundMesh', k'⟩ := rule'
  cases foundMid.symm.trans foundMid'
  rw [mesh] at foundMesh'
  cases foundMesh.symm.trans foundMesh'
  obtain ⟨m', foundMesh', fits, -⟩ := sound.spaces found
  cases foundMesh.symm.trans foundMesh'
  exact sound.distinctSpaces foundTarget found (mesh'.trans mesh) (by omega)
    (by rw [orientation', orientation, Orientation.dual_dual])

theorem trace_derivative (sound : s.Sound) {dx tdx tx dtx : SpaceId}
    (derived : s.OperatorRule .derivative x dx) (tracedDerived : s.OperatorRule .trace dx tdx)
    (traced : s.OperatorRule .trace x tx) (derivedTraced : s.OperatorRule .derivative tx dtx) :
    tdx = dtx := by
  obtain ⟨a, da, found, foundD, mesh, k, orientation⟩ := derived
  obtain ⟨da', tda, foundD', foundTD, k₁, orientation₁, b, foundB, inclusion⟩ := tracedDerived
  obtain ⟨a', ta, found', foundT, k₂, orientation₂, b', foundB', inclusion'⟩ := traced
  obtain ⟨ta', dta, foundT', foundDT, mesh₃, k₃, orientation₃⟩ := derivedTraced
  cases found.symm.trans found'
  cases foundD.symm.trans foundD'
  cases foundT.symm.trans foundT'
  rw [mesh] at inclusion
  have below : tda.mesh = ta.mesh := sound.eq_of_inclusion foundB foundB' inclusion inclusion'
  refine sound.distinctSpaces foundTD foundDT (below.trans mesh₃.symm) (by omega) ?_
  rw [orientation₁, orientation, orientation₃, orientation₂]

theorem wedge_comm (sound : s.Sound) {ab ba : SpaceId} (rule : s.WedgeRule left right ab)
    (rule' : s.WedgeRule right left ba) : ab = ba := by
  obtain ⟨a, b, p, foundA, foundB, foundP, common, mesh, k, orientation⟩ := rule
  obtain ⟨b', a', q, foundB', foundA', foundQ, common', mesh', k', orientation'⟩ := rule'
  cases foundA.symm.trans foundA'
  cases foundB.symm.trans foundB'
  refine sound.distinctSpaces foundP foundQ (mesh.trans (common.trans mesh'.symm)) ?_ ?_
  · rw [k, k', Text.wordSum_comm]
  · rw [orientation, orientation', Orientation.common_comm]

theorem wedge_assoc (sound : s.Sound) {a b c ab ab_c bc a_bc : SpaceId}
    (rule : s.WedgeRule a b ab) (first : s.WedgeRule ab c ab_c) (rule' : s.WedgeRule b c bc)
    (second : s.WedgeRule a bc a_bc) : ab_c = a_bc := by
  obtain ⟨sa, sb, sab, foundA, foundB, foundAB, common, mesh, k, orientation⟩ := rule
  obtain ⟨sab', sc, p, foundAB', foundC, foundP, common₁, mesh₁, k₁, orientation₁⟩ := first
  obtain ⟨sb', sc', sbc, foundB', foundC', foundBC, common₂, mesh₂, k₂, orientation₂⟩ := rule'
  obtain ⟨sa', sbc', q, foundA', foundBC', foundQ, common₃, mesh₃, k₃, orientation₃⟩ := second
  cases foundA.symm.trans foundA'
  cases foundB.symm.trans foundB'
  cases foundC.symm.trans foundC'
  cases foundAB.symm.trans foundAB'
  cases foundBC.symm.trans foundBC'
  refine sound.distinctSpaces foundP foundQ (mesh₁.trans (mesh.trans mesh₃.symm)) ?_ ?_
  · rw [k₁, k, k₃, k₂, Text.wordSum_assoc]
  · rw [orientation₁, orientation, orientation₃, orientation₂, Orientation.common_assoc]

end Sound

/-! ## Calls -/

namespace FiniteAt

variable {d : Nat} {sp : Space} {m : Mesh}

theorem derivative_succeeds_iff (finite : s.FiniteAt d) (found : s.spaces.get? x = some sp)
    (foundMesh : s.meshes.get? sp.mesh = some m) :
    (∃ y s', Space.derivative x s = .ok y s') ↔ sp.k < m.ndim := by
  have fetched : s.space x = .ok sp := Arena.fetch_eq_ok_iff.2 found
  have fetchedMesh : s.mesh sp.mesh = .ok m := Arena.fetch_eq_ok_iff.2 foundMesh
  rw [Space.derivative, get_bind, lift_bind_of_ok fetched, get_bind, lift_bind_of_ok fetchedMesh]
  constructor
  · rintro ⟨y, s', run⟩
    exact Nat.not_le.1 (guard_eq_ok.1 run).1
  · intro fits
    rw [if_neg (Nat.not_le.2 fits)]
    exact finite.withDegree_succeeds _ foundMesh fits (finite x sp found)

theorem codifferential_succeeds_iff (finite : s.FiniteAt d) (sound : s.Sound)
    (found : s.spaces.get? x = some sp) :
    (∃ y s', Space.codifferential x s = .ok y s') ↔ 0 < sp.k := by
  have fetched : s.space x = .ok sp := Arena.fetch_eq_ok_iff.2 found
  obtain ⟨m, foundMesh, bound, -⟩ := sound.spaces found
  rw [Space.codifferential, get_bind, lift_bind_of_ok fetched]
  constructor
  · rintro ⟨y, s', run⟩
    exact Nat.pos_iff_ne_zero.2 (guard_eq_ok.1 run).1
  · intro positive
    rw [if_neg (Nat.pos_iff_ne_zero.1 positive)]
    exact finite.withDegree_succeeds _ foundMesh (Nat.le_trans (Nat.sub_le _ _) bound)
      (finite x sp found)

theorem hodge_succeeds (finite : s.FiniteAt d) (sound : s.Sound)
    (found : s.spaces.get? x = some sp) : ∃ y s', Space.hodge x s = .ok y s' := by
  have fetched : s.space x = .ok sp := Arena.fetch_eq_ok_iff.2 found
  obtain ⟨m, foundMesh, -⟩ := sound.spaces found
  have fetchedMesh : s.mesh sp.mesh = .ok m := Arena.fetch_eq_ok_iff.2 foundMesh
  rw [Space.hodge, get_bind, lift_bind_of_ok fetched, get_bind, lift_bind_of_ok fetchedMesh]
  exact finite.withDegree_succeeds _ foundMesh (Nat.sub_le _ _) (finite x sp found)

/-- Below the dimension `2^63` the degrees of two factors add up to a word. -/
theorem wedge_succeeds_iff (finite : s.FiniteAt d) (sound : s.Sound) {a b : SpaceId}
    {sa sb : Space} (foundA : s.spaces.get? a = some sa) (foundB : s.spaces.get? b = some sb)
    (foundMesh : s.meshes.get? sa.mesh = some m) (small : m.ndim < 2 ^ 63) :
    (∃ y s', Space.wedge a b s = .ok y s') ↔ sa.mesh = sb.mesh ∧ sa.k + sb.k ≤ m.ndim := by
  have fetchedA : s.space a = .ok sa := Arena.fetch_eq_ok_iff.2 foundA
  have fetchedB : s.space b = .ok sb := Arena.fetch_eq_ok_iff.2 foundB
  have fetchedMesh : s.mesh sa.mesh = .ok m := Arena.fetch_eq_ok_iff.2 foundMesh
  have exact_sum (common : sa.mesh = sb.mesh) : Text.wordSum sa.k sb.k = sa.k + sb.k := by
    obtain ⟨m', foundMesh', boundA, -⟩ := sound.spaces foundA
    cases foundMesh.symm.trans foundMesh'
    obtain ⟨m', foundMesh', boundB, -⟩ := sound.spaces foundB
    rw [← common] at foundMesh'
    cases foundMesh.symm.trans foundMesh'
    refine Text.wordSum_eq_add ?_
    have : UInt64.size = 2 ^ 64 := rfl
    omega
  rw [Space.wedge, get_bind, lift_bind_of_ok fetchedA, get_bind, lift_bind_of_ok fetchedB]
  constructor
  · rintro ⟨y, s', run⟩
    obtain ⟨same, run⟩ := guard_eq_ok.1 run
    have common : sa.mesh = sb.mesh := Decidable.not_not.1 same
    dsimp only at run
    rw [get_bind, lift_bind_of_ok fetchedMesh] at run
    have bound := Nat.not_lt.1 (guard_eq_ok.1 run).1
    rw [exact_sum common] at bound
    exact ⟨common, bound⟩
  · rintro ⟨common, bound⟩
    rw [if_neg fun differs => differs common]
    dsimp only
    rw [get_bind, lift_bind_of_ok fetchedMesh, exact_sum common, if_neg (Nat.not_lt.2 bound)]
    refine finite.withDegree_succeeds _ foundMesh bound ?_
    rcases finite a sa foundA with absent | shared
    · rw [absent, Option.none_or]
      exact finite b sb foundB
    · exact .inr (by rw [shared, Option.some_or])

end FiniteAt

/-! ## Reachable sessions -/

namespace Answered

theorem derivative_rule (answered : Answered settings (Space.derivative x) y s) :
    s.OperatorRule .derivative x y :=
  answered.holds Space.derivative_rule fun later rule => later.operatorRule rule

theorem codifferential_rule (answered : Answered settings (Space.codifferential x) y s) :
    s.OperatorRule .codifferential x y :=
  answered.holds Space.codifferential_rule fun later rule => later.operatorRule rule

theorem hodge_rule (answered : Answered settings (Space.hodge x) y s) :
    s.OperatorRule .hodge x y :=
  answered.holds Space.hodge_rule fun later rule => later.operatorRule rule

theorem trace_rule (answered : Answered settings (Space.trace x) y s) :
    s.OperatorRule .trace x y :=
  answered.holds Space.trace_rule fun later rule => later.operatorRule rule

theorem wedge_rule (answered : Answered settings (Space.wedge left right) y s) :
    s.WedgeRule left right y :=
  answered.holds Space.wedge_rule fun later rule => later.wedgeRule rule

end Answered

theorem Sound.spaceLaws (sound : s.Sound) (settings : Settings) : s.SpaceLaws settings where
  unique := sound.distinctSpaces
  labelled := sound.find?_label
  hodge_hodge first second := sound.inverse_hodge first.hodge_rule second.hodge_rule
  codifferential_derivative first second :=
    sound.inverse_derivative first.derivative_rule second.codifferential_rule
  derivative_codifferential first second :=
    sound.inverse_codifferential first.codifferential_rule second.derivative_rule
  trace_derivative derived tracedDerived traced derivedTraced :=
    sound.trace_derivative derived.derivative_rule tracedDerived.trace_rule traced.trace_rule
      derivedTraced.derivative_rule
  wedge_comm first second := sound.wedge_comm first.wedge_rule second.wedge_rule
  wedge_assoc rule first rule' second :=
    sound.wedge_assoc rule.wedge_rule first.wedge_rule rule'.wedge_rule second.wedge_rule

theorem FiniteAt.spaceCalls {d : Nat} (finite : s.FiniteAt d) (sound : s.Sound) :
    s.SpaceCalls where
  derivative found foundMesh := finite.derivative_succeeds_iff found foundMesh
  codifferential found := finite.codifferential_succeeds_iff sound found
  hodge found := finite.hodge_succeeds sound found
  wedge foundA foundB foundMesh small :=
    finite.wedge_succeeds_iff sound foundA foundB foundMesh small

/-- In every reachable session spaces are unique and are told apart by their labels, and the
answers of the operators obey the laws. If the finite spaces share one polynomial degree, exactly
the calls whose degrees fit have an answer. -/
theorem Reachable.spaceAlgebra (reachable : Reachable settings s) :
    s.SpaceLaws settings ∧ ((∃ d, s.FiniteAt d) → s.SpaceCalls) :=
  ⟨reachable.sound.spaceLaws settings,
    fun ⟨_, finite⟩ => finite.spaceCalls reachable.sound⟩

/-- On a surface an outer and an inner 1-form have a wedge product, an inner 1-form and a 2-form
have none, and the dual of the dual of the outer 1-forms is their space again. -/
theorem spaceAlgebra_surface : ∃ s, Reachable {} s ∧ (∃ d, s.FiniteAt d) ∧
    (∃ y s', Space.wedge ⟨0⟩ ⟨1⟩ s = .ok y s') ∧ ¬ (∃ y s', Space.wedge ⟨1⟩ ⟨2⟩ s = .ok y s') ∧
    ∀ y z, Answered {} (Space.hodge ⟨0⟩) y s → Answered {} (Space.hodge y) z s → z = ⟨0⟩ := by
  obtain ⟨s, reachable, finite, mesh, outer, inner, top⟩ : ∃ s, Reachable {} s ∧ s.FiniteAt 1 ∧
      (s.meshes.get? ⟨0⟩).map Mesh.ndim = some 2 ∧
      (s.spaces.get? ⟨0⟩).map (fun sp => (sp.mesh, sp.k)) = some (⟨0⟩, 1) ∧
      (s.spaces.get? ⟨1⟩).map (fun sp => (sp.mesh, sp.k)) = some (⟨0⟩, 1) ∧
      (s.spaces.get? ⟨2⟩).map (fun sp => (sp.mesh, sp.k)) = some (⟨0⟩, 2) :=
    ⟨Request.performAll {} [.manifold 2, .mesh ⟨0⟩, .space ⟨0⟩ 1 .outer, .space ⟨0⟩ 1 .inner,
      .space ⟨0⟩ 2 .outer, .degree ⟨0⟩ 1], .performAll {} _, by decide +kernel⟩
  simp only [Option.map_eq_some_iff, Prod.mk.injEq] at mesh outer inner top
  obtain ⟨m, foundMesh, two⟩ := mesh
  obtain ⟨a, foundA, meshA, degreeA⟩ := outer
  obtain ⟨b, foundB, meshB, degreeB⟩ := inner
  obtain ⟨c, foundC, meshC, degreeC⟩ := top
  obtain ⟨laws, calls⟩ := Reachable.spaceAlgebra reachable
  have answers := calls ⟨1, finite⟩
  refine ⟨s, reachable, ⟨1, finite⟩, ?_, ?_, fun y z => laws.hodge_hodge⟩
  · exact (answers.wedge foundA foundB (meshA ▸ foundMesh) (by omega)).2
      ⟨meshA.trans meshB.symm, by omega⟩
  · intro product
    have fits := ((answers.wedge foundB foundC (meshB ▸ foundMesh) (by omega)).1 product).2
    omega

end Session

end Variational
