import Variational.Proofs.Admissible.Requests
import Variational.Proofs.ArrayRequests
import Variational.Proofs.LabelIndices
import Variational.Proofs.Numbers

/-!
# Operations that never break off

On a reachable session no operation breaks off. Requests and inquiries with issued ids are
answered, the scalar one can be taken, numbering finds free labels, labels are recorded while
they are free, located places hold terms, and what is computed from degrees, dimensions and
positions is a word of 64 bits. The exceptions are two sums that are formed without a check:
that of two degrees, and the number of terms in the rejection of a position.
-/

namespace Variational

open Session

variable {s : Session}

/-! ## Places -/

theorem Position.readNumber_lt {address : String} {piece : List Char} {n : Nat}
    (run : readNumber address piece = .ok n) : n < UInt64.size := by
  rw [readNumber] at run
  split at run
  · rename_i m number
    cases run
    exact Text.readIndex_lt number
  · simp at run

/-- The numbers in an address are words. -/
theorem Position.read_lt {address : String} {p : Position} (run : read address = .ok p) :
    p.equation < UInt64.size ∧ p.term < UInt64.size := by
  rw [read] at run
  split at run
  · simp only [Outcome.bind_eq_ok, Outcome.pure_eq_ok] at run
    obtain ⟨i, equation, j, term, rfl⟩ := run
    exact ⟨readNumber_lt equation, readNumber_lt term⟩
  · simp at run

/-- A position that is located has a term at its place. -/
theorem Equation.exists_of_locate {α : Type} {e : Equation α} {position place : Nat} {side : Side}
    (located : e.locate position = some (side, place)) :
    ∃ t, (e.side side)[place]? = some t ∧ e.get? position = some t := by
  have inside := locate_isSome_iff.1 (Option.isSome_iff_exists.2 ⟨_, located⟩)
  rw [← length_terms] at inside
  have found : e.get? position = some e.terms[position] := List.getElem?_eq_getElem inside
  exact ⟨_, (get?_eq_of_locate located).symm.trans found, found⟩

/-- A position is located if there is a term at it. -/
theorem Equation.exists_locate {α : Type} {e : Equation α} {position : Nat} {t : Signed α}
    (found : e.get? position = some t) :
    ∃ side place, e.locate position = some (side, place) ∧ (e.side side)[place]? = some t := by
  have inside : position < e.size := by
    rw [← length_terms]
    exact (List.getElem?_eq_some_iff.1 found).1
  obtain ⟨⟨side, place⟩, located⟩ := Option.isSome_iff_exists.1 (locate_isSome_iff.2 inside)
  exact ⟨side, place, located, (get?_eq_of_locate located).symm.trans found⟩

/-- The place that an address names in a formulation holds the term at the address. -/
theorem WeakFormulation.place_holds {w : WeakFormulation} {address : String} {i place : Nat}
    {side : Side} (run : w.locate address = .ok (i, side, place)) :
    ∃ e t, w.equations[i]? = some e ∧ (e.side side)[place]? = some t ∧ w.term address = .ok t := by
  simp only [locate, Outcome.bind_eq_ok] at run
  obtain ⟨p, read, run⟩ := run
  cases known : w.equations[p.equation]? with
  | none => simp [known] at run
  | some e =>
    cases located : e.locate p.term with
    | none => simp [known, located] at run
    | some found =>
      simp only [known, located, Outcome.pure_eq_ok, Prod.mk.injEq] at run
      obtain ⟨rfl, rfl, rfl⟩ := run
      obtain ⟨t, standing, found⟩ := Equation.exists_of_locate located
      exact ⟨e, t, known, standing, term_eq_ok.2 ⟨p, e, read, known, found⟩⟩

/-- A position that an address names in an ordinary differential equation is that of a term. -/
theorem Ode.place_holds {o : Ode} {address : String} {j : Nat} {t : Signed OdeTerm}
    (run : o.locate address = .ok (j, t)) : ∃ side place,
      o.equation.locate j = some (side, place) ∧ (o.equation.side side)[place]? = some t :=
  Equation.exists_locate (locate_eq_ok.1 run).2

/-- The count in the rejection of a position that has no term: one more than the position, except
for the largest one. -/
theorem AlgebraicSystem.entry_of_absent {a : AlgebraicSystem} {address : String} {p : Position}
    {e : Equation AlgebraicEntry} (read : Position.read address = .ok p)
    (known : a.equations[p.equation]? = some e) (absent : e.get? p.term = none) :
    a.entry address = reject (.index address
      (.fewerTerms p.equation (if p.term + 1 = UInt64.size then 0 else p.term + 1))) := by
  have count : Text.wordSum p.term 1 =
      if p.term + 1 = UInt64.size then 0 else p.term + 1 := by
    have word := (Position.read_lt read).2
    split
    · rename_i largest
      rw [Text.wordSum, largest, Nat.mod_self]
    · exact Text.wordSum_eq_add (by omega)
  rw [entry, Outcome.bind_of_ok read]
  simp only [known, absent, count]

/-- An ordinary differential equation is about the one form that its terms differentiate. -/
theorem Ode.differentiated_iff {left right : List (Signed Term)} {o : Ode}
    (run : create s left right = .ok o) {u : FormId} :
    (∃ t ∈ o.equation.terms, differentiated? s t.value = .ok (some u)) ↔ u = o.about := by
  simp only [create, Outcome.bind_eq_ok] at run
  obtain ⟨ls, -, rs, -, forms, differentiated, run⟩ := run
  split at run
  · simp [Outcome.bind_eq_ok] at run
  rotate_left
  · simp [Outcome.bind_eq_ok] at run
  rename_i about single
  simp only [Outcome.bind_eq_ok, Outcome.pure_eq_ok] at run
  obtain ⟨about', known, v, -, elementary, -, rfl⟩ := run
  cases known
  have only : some u ∈ forms ↔ u = about := by
    rw [← List.mem_singleton, ← single, IdSet.mem_ids, IdSet.mem_ofList, List.mem_filterMap]
    simp
  have each := Outcome.mapM_eq_ok.1 differentiated
  refine Iff.trans ?_ only
  constructor
  · rintro ⟨t, member, run⟩
    obtain ⟨form, listed, same⟩ := exists_mem_of_forall₂ each.flip (List.mem_map_of_mem member)
    exact Except.ok.inj (run.symm.trans same) ▸ listed
  · intro listed
    obtain ⟨t, member, same⟩ := exists_mem_of_forall₂ each listed
    obtain ⟨signed, inside, rfl⟩ := List.mem_map.1 member
    exact ⟨signed, inside, same⟩

/-! ## Degrees and dimensions -/

/-- The degree that an operator gives to a form over a mesh, computed without rounding. -/
def UnaryOperator.Turns (op : UnaryOperator) (ndim k l : Nat) : Prop :=
  match op with
  | .derivative => l = k + 1
  | .codifferential => l + 1 = k
  | .hodge => k + l = ndim
  | .trace | .timeDerivative => l = k

namespace Session

/-- Dimensions and degrees are words of 64 bits, and so is what is computed from them. -/
structure Bounded (s : Session) : Prop where
  manifolds : ∀ {id m}, s.manifolds.get? id = some m → m.ndim < UInt64.size
  meshes : ∀ {id m}, s.meshes.get? id = some m → m.ndim < UInt64.size
  /-- A boundary has one dimension less than what it bounds, which is not of dimension zero. -/
  boundaries : ∀ {id m p}, s.manifolds.get? id = some m → m.boundaryOf = some p →
    ∃ parent, s.manifolds.get? p = some parent ∧ m.ndim + 1 = parent.ndim
  /-- A degree is at most the dimension, and a smaller one has a successor. -/
  degrees : ∀ {id sp}, s.spaces.get? id = some sp → ∃ m, s.meshes.get? sp.mesh = some m ∧
    sp.k ≤ m.ndim ∧ (sp.k < m.ndim → sp.k + 1 < UInt64.size)
  /-- What an operator between spaces computes is exact. -/
  operators : ∀ {op source target s'}, s.Issued source →
    Form.unarySpace op source s = .ok target s' → ∃ src dst m, s'.spaces.get? source = some src ∧
      s'.spaces.get? target = some dst ∧ s'.meshes.get? src.mesh = some m ∧
      op.Turns m.ndim src.k dst.k ∧ dst.k < UInt64.size
  /-- The sum of two degrees on a mesh is computed exactly if it is a word. Below dimension
  `2 ^ 63` it always is. -/
  sums : ∀ {left right a b m}, s.spaces.get? left = some a → s.spaces.get? right = some b →
    a.mesh = b.mesh → s.meshes.get? a.mesh = some m →
    (Text.wordSum a.k b.k = a.k + b.k ↔ a.k + b.k < UInt64.size) ∧
      (2 * m.ndim < UInt64.size → a.k + b.k < UInt64.size)

namespace Sound

variable (sound : s.Sound)

include sound

theorem manifold_bounded {id : ManifoldId} {m : Manifold} (found : s.manifolds.get? id = some m) :
    m.ndim < UInt64.size :=
  Nat.lt_of_le_of_lt (sound.manifolds found).1 (UInt64.toNat_lt_size _)

theorem mesh_bounded {id : MeshId} {m : Mesh} (found : s.meshes.get? id = some m) :
    m.ndim < UInt64.size := by
  obtain ⟨manifold, foundManifold, same, -⟩ := sound.meshes found
  exact same ▸ sound.manifold_bounded foundManifold

theorem space_bounded {id : SpaceId} {sp : Space} (found : s.spaces.get? id = some sp) :
    ∃ m, s.meshes.get? sp.mesh = some m ∧ sp.k ≤ m.ndim ∧ m.ndim < UInt64.size := by
  obtain ⟨m, foundMesh, fits, -⟩ := sound.spaces found
  exact ⟨m, foundMesh, fits, sound.mesh_bounded foundMesh⟩

/-- The operators between spaces compute degrees exactly. -/
theorem operator_exact {op : UnaryOperator} {source target : SpaceId} {s' : Session}
    (issued : s.Issued source) (run : Form.unarySpace op source s = .ok target s') :
    ∃ src dst m, s'.spaces.get? source = some src ∧ s'.spaces.get? target = some dst ∧
      s'.meshes.get? src.mesh = some m ∧ op.Turns m.ndim src.k dst.k ∧ dst.k < UInt64.size := by
  have sound' : s'.Sound := sound.steps ((Form.unarySpace_grows op source).steps run)
  rcases Form.unarySpace_cases run with ⟨src, dst, foundSource, foundTarget, rule⟩ | still
  · obtain ⟨m, foundMesh, fits, bounded⟩ := sound'.space_bounded foundSource
    obtain ⟨m', foundMesh', fits', bounded'⟩ := sound'.space_bounded foundTarget
    refine ⟨src, dst, m, foundSource, foundTarget, foundMesh, ?_, Nat.lt_of_le_of_lt fits' bounded'⟩
    cases op with
    | derivative | codifferential => exact rule.2.1
    | hodge =>
      obtain ⟨-, -, n, foundMesh'', complement⟩ := rule
      cases foundMesh.symm.trans foundMesh''
      exact complement ▸ Nat.add_sub_cancel' fits
    | trace => exact rule.1
    | timeDerivative =>
      cases rule
      cases foundSource.symm.trans foundTarget
      rfl
  · obtain ⟨rfl, rfl, rfl⟩ := still
    obtain ⟨src, found⟩ := Arena.exists_get? (issued_id.1 issued)
    obtain ⟨m, foundMesh, fits, bounded⟩ := sound.space_bounded found
    exact ⟨src, src, m, found, found, foundMesh, rfl, Nat.lt_of_le_of_lt fits bounded⟩

theorem bounded : s.Bounded where
  manifolds := sound.manifold_bounded
  meshes := sound.mesh_bounded
  boundaries found bounds := by
    have rule := (sound.manifolds found).2
    rw [bounds] at rule
    obtain ⟨parent, foundParent, dimension, -⟩ := rule
    exact ⟨parent, foundParent, dimension⟩
  degrees found := by
    obtain ⟨m, foundMesh, fits, bounded⟩ := sound.space_bounded found
    exact ⟨m, foundMesh, fits, fun smaller => by omega⟩
  operators := sound.operator_exact
  sums foundLeft foundRight common foundMesh := by
    obtain ⟨m, foundMesh₁, fits₁, -⟩ := sound.space_bounded foundLeft
    obtain ⟨m', foundMesh₂, fits₂, -⟩ := sound.space_bounded foundRight
    cases foundMesh₁.symm.trans foundMesh
    cases (common ▸ foundMesh₂).symm.trans foundMesh
    refine ⟨⟨fun exact => exact ▸ Nat.mod_lt _ (by decide), Text.wordSum_eq_add⟩, fun small => ?_⟩
    omega

end Sound

/-! ## Operations -/

/-- No operation on a session breaks off. -/
structure Total (s : Session) : Prop where
  /-- A request with issued ids is carried out or rejected. -/
  requests : ∀ r : Request, s.Issued r → r.perform.Answered s fun _ _ => True
  /-- An inquiry with issued ids is answered or rejected. -/
  inquiries : ∀ q : Inquiry, s.Issued q → (q.answer s).Answered fun _ => True
  /-- The scalar one can be taken. -/
  unit : ∃ c s', Scalar.unit s = .ok c s'
  /-- The numbering of default labels ends at labels that are free. -/
  numberedManifold : s.manifoldLabels.Available
    (s.manifoldLabels.nextFree s.settings.conventions.defaults.manifold)
  numberedMesh : s.meshLabels.Available
    (s.meshLabels.nextFree s.settings.conventions.defaults.mesh)
  numberedSequence : s.timeSequenceLabels.Available
    (s.timeSequenceLabels.nextFree s.settings.conventions.defaults.timeSequence)
  numberedArray : ∀ sym, s.arrayLabels.hasSym (RootArray.freeSym s sym) = false
  numberedInterval : s.timeIntervalLabels.hasSym (TimeInterval.freeSym s) = false ∧
    s.scalarLabels.hasSym (TimeInterval.freeSym s) = false
  /-- Labels are recorded while they are free, also by a request that fails. -/
  insertions : ∀ r : Request, s.Inserts (r.perform.after s)
  /-- An average is taken over as many forms as there are keys. -/
  evaluations : ∀ {plan f keys}, s.Issued plan → s.Issued f →
    (Plan.evaluations f keys).Answered ⟨s, plan⟩ fun _ forms => forms.length = keys.length
  /-- An ordinary differential equation is about the one form that its terms differentiate. -/
  about : ∀ {left right o u}, Ode.create s left right = .ok o →
    ((∃ t ∈ o.equation.terms, Ode.differentiated? s t.value = .ok (some u)) ↔ u = o.about)
  /-- The place that an address names in a formulation holds the term at the address. -/
  places : ∀ {w : WeakFormulation} {address i side place},
    w.locate address = .ok (i, side, place) → ∃ e t, w.equations[i]? = some e ∧
      (e.side side)[place]? = some t ∧ w.term address = .ok t
  /-- A position that an address names in an ordinary differential equation has a term. -/
  positions : ∀ {o : Ode} {address j t}, o.locate address = .ok (j, t) → ∃ side place,
    o.equation.locate j = some (side, place) ∧ (o.equation.side side)[place]? = some t
  /-- The rejection of a position without a term counts one more than the position, except
  that it counts zero for the largest word. -/
  counts : ∀ {a : AlgebraicSystem} {address p e}, Position.read address = .ok p →
    a.equations[p.equation]? = some e → e.get? p.term = none → p.term < UInt64.size ∧
      a.entry address = reject (.index address
        (.fewerTerms p.equation (if p.term + 1 = UInt64.size then 0 else p.term + 1)))

end Session

namespace AlgebraicSystem

/-- The largest position of an equation with one term is rejected for having no zero terms. -/
theorem exists_count_zero : ∃ (s s' : Session) (w : WeakFormulation) (a : AlgebraicSystem)
    (p : Position) (e : Equation AlgebraicEntry), Session.Reachable {} s ∧
      create w s = .ok a s' ∧ Position.read "0-18446744073709551615" = .ok p ∧
      p.term + 1 = UInt64.size ∧ a.equations[p.equation]? = some e ∧ e.get? p.term = none := by
  obtain ⟨s, w, reachable, evaluated⟩ : ∃ s w, Session.Reachable {} s ∧
      (match create w s with
        | .ok a _ => decide (a.equations.map Equation.size = [1])
        | .error _ _ => false) = true := by
    let s := Request.performAll {} [.manifold 1, .mesh ⟨0⟩, .space ⟨0⟩ 0 .outer,
      .root ⟨0⟩ ⟨"u", "u"⟩, .root ⟨0⟩ ⟨"v", "v"⟩, .degrees 1]
    let w : Outcome WeakFormulation := do
      let t ← Term.create s .innerProduct ⟨0⟩ ⟨1⟩
      let w ← WeakFormulation.create s [⟨[⟨.plus, t⟩], []⟩] [⟨1⟩]
      w.withUnknowns s [⟨0⟩]
    exact ⟨s, w.toOption.getD ⟨⟨0⟩, [], [], none⟩, .performAll {} _, by decide +kernel⟩
  cases run : create w s with
  | error failure s' => simp [run] at evaluated
  | ok a s' =>
    simp only [run, decide_eq_true_eq] at evaluated
    have read : Position.read "0-18446744073709551615" = .ok ⟨0, 18446744073709551615⟩ := by
      decide +kernel
    obtain ⟨e, rest, listed, size, -⟩ := List.map_eq_cons_iff.1 evaluated
    refine ⟨s, s', w, a, _, e, reachable, run, read, rfl, by rw [listed]; rfl, ?_⟩
    exact List.getElem?_eq_none (by rw [Equation.length_terms, size]; decide)

end AlgebraicSystem

end Variational
