import Variational.Proofs.Session.Invariants

/-!
# Where forms live, and terms

A form lives on a mesh with a degree. The operators move it as they move forms of
its space, and two forms make up a term if they live on one mesh with degrees that
fit the kind of the term.
-/

namespace Variational

open Derive

namespace Session

/-- A form of the session is a `k`-form on a mesh. -/
def Lives (s : Session) (f : FormId) (mesh : MeshId) (k : Nat) : Prop :=
  ∃ form sp, s.forms.get? f = some form ∧ s.spaces.get? form.space = some sp ∧
    sp.mesh = mesh ∧ sp.k = k

/-- A form of the session belongs to a space. -/
def InSpace (s : Session) (f : FormId) (space : SpaceId) : Prop :=
  ∃ form, s.forms.get? f = some form ∧ form.space = space

/-- A form of the session has an expression. -/
def Reads (s : Session) (f : FormId) (e : FormExpr) : Prop :=
  ∃ form, s.forms.get? f = some form ∧ form.expr = e

variable {s s' : Session} {f g : FormId} {mesh mesh' : MeshId} {k k' : Nat}

theorem lives_iff : s.Lives f mesh k ↔ ((s.forms.get? f).bind fun form =>
    (s.spaces.get? form.space).map fun sp => (sp.mesh, sp.k)) = some (mesh, k) := by
  simp only [Option.bind_eq_some_iff, Option.map_eq_some_iff, Prod.mk.injEq]
  constructor
  · intro given
    rcases given with ⟨form, sp, found, foundSpace, same⟩
    exact ⟨form, found, sp, foundSpace, same⟩
  · intro given
    rcases given with ⟨form, found, sp, foundSpace, same⟩
    exact ⟨form, sp, found, foundSpace, same⟩

instance : Decidable (s.Lives f mesh k) :=
  decidable_of_iff _ lives_iff.symm

instance (e : FormExpr) : Decidable (s.Reads f e) :=
  decidable_of_iff ((s.forms.get? f).map Form.expr = some e) Option.map_eq_some_iff

instance (space : SpaceId) : Decidable (s.InSpace f space) :=
  decidable_of_iff ((s.forms.get? f).map Form.space = some space) Option.map_eq_some_iff

theorem Extends.lives (later : s.Extends s') (lives : s.Lives f mesh k) : s'.Lives f mesh k := by
  obtain ⟨form, sp, found, foundSpace, rfl, rfl⟩ := lives
  obtain ⟨sp', foundSpace', becomes⟩ := later.spaces foundSpace
  exact ⟨form, sp', later.forms found, foundSpace', becomes.mesh_eq, becomes.k_eq⟩

theorem Extends.reads (later : s.Extends s') {e : FormExpr} (reads : s.Reads f e) :
    s'.Reads f e := by
  obtain ⟨form, found, rfl⟩ := reads
  exact ⟨form, later.forms found, rfl⟩

theorem Extends.inSpace (later : s.Extends s') {space : SpaceId} (inSpace : s.InSpace f space) :
    s'.InSpace f space := by
  obtain ⟨form, found, same⟩ := inSpace
  exact ⟨form, later.forms found, same⟩

theorem Reads.unique {e e' : FormExpr} (reads : s.Reads f e) (reads' : s.Reads f e') : e = e' := by
  obtain ⟨form, found, rfl⟩ := reads
  obtain ⟨form', found', rfl⟩ := reads'
  cases found.symm.trans found'
  rfl

theorem InSpace.unique {space space' : SpaceId} (inSpace : s.InSpace f space)
    (inSpace' : s.InSpace f space') : space = space' := by
  obtain ⟨form, found, rfl⟩ := inSpace
  obtain ⟨form', found', rfl⟩ := inSpace'
  cases found.symm.trans found'
  rfl

theorem Lives.unique (lives : s.Lives f mesh k) (lives' : s.Lives f mesh' k') :
    mesh = mesh' ∧ k = k' := by
  obtain ⟨form, sp, found, foundSpace, rfl, rfl⟩ := lives
  obtain ⟨form', sp', found', foundSpace', rfl, rfl⟩ := lives'
  cases found.symm.trans found'
  cases foundSpace.symm.trans foundSpace'
  exact ⟨rfl, rfl⟩

/-! ## Operators -/

theorem reads_of_derived {space : SpaceId} {labels : Labels} {expr : FormExpr}
    (run : Form.derived space labels expr s = .ok g s') : s'.Reads g expr := by
  rcases Form.derived_cases run with ⟨form, found, same, rfl⟩ | ⟨holds, rfl, rfl⟩
  · exact ⟨form, found, same⟩
  · exact ⟨_, Arena.get?_push_nextId, rfl⟩

theorem reads_of_apply {op : UnaryOperator} (run : Form.apply op f s = .ok g s') :
    s'.Reads g (.unary op f) := by
  obtain ⟨a, space, mid, labels, -, -, derived⟩ := Form.apply_cases run
  exact reads_of_derived derived

namespace Sound

/-- A form of degree `k` lives on a mesh of at least that dimension. -/
theorem le_ndim (sound : s.Sound) (lives : s.Lives f mesh k) {m : Mesh}
    (foundMesh : s.meshes.get? mesh = some m) : k ≤ m.ndim := by
  obtain ⟨form, sp, found, foundSpace, rfl, rfl⟩ := lives
  obtain ⟨m', foundMesh', fits, -⟩ := sound.spaces foundSpace
  cases foundMesh.symm.trans foundMesh'
  exact fits

theorem exists_mesh (sound : s.Sound) (lives : s.Lives f mesh k) :
    ∃ m, s.meshes.get? mesh = some m := by
  obtain ⟨form, sp, found, foundSpace, rfl, rfl⟩ := lives
  obtain ⟨m, foundMesh, -, -⟩ := sound.spaces foundSpace
  exact ⟨m, foundMesh⟩

/-- The rule of the operator relates a form to its operand. -/
theorem rule_of_reads (sound : s.Sound) {op : UnaryOperator} (reads : s.Reads g (.unary op f)) :
    ∃ form operand, s.forms.get? g = some form ∧ s.forms.get? f = some operand ∧
      s.OperatorRule op operand.space form.space := by
  obtain ⟨form, found, expr⟩ := reads
  obtain ⟨-, typed, -⟩ := sound.forms found
  rw [expr] at typed
  obtain ⟨operand, foundOperand, rule⟩ := typed
  exact ⟨form, operand, found, foundOperand, rule⟩

/-- A space has one space of derivatives. -/
theorem derivative_unique (sound : s.Sound) {source target target' : SpaceId}
    (rule : s.OperatorRule .derivative source target)
    (rule' : s.OperatorRule .derivative source target') : target = target' := by
  obtain ⟨src, dst, foundSource, found, sameMesh, degree, orientation⟩ := rule
  obtain ⟨src', dst', foundSource', found', sameMesh', degree', orientation'⟩ := rule'
  cases foundSource.symm.trans foundSource'
  exact sound.distinctSpaces found found' (sameMesh.trans sameMesh'.symm)
    (degree.trans degree'.symm) (orientation.trans orientation'.symm)

theorem lives_derivative (sound : s.Sound) (reads : s.Reads g (.unary .derivative f))
    (lives : s.Lives f mesh k) : s.Lives g mesh (k + 1) := by
  obtain ⟨form, operand, found, foundOperand, src, dst, foundSource, foundTarget, rule⟩ :=
    sound.rule_of_reads reads
  obtain ⟨rfl, rfl⟩ := Lives.unique ⟨operand, src, foundOperand, foundSource, rfl, rfl⟩ lives
  exact ⟨form, dst, found, foundTarget, rule.1, rule.2.1⟩

theorem lives_codifferential (sound : s.Sound) (reads : s.Reads g (.unary .codifferential f))
    (lives : s.Lives g mesh k) : s.Lives f mesh (k + 1) := by
  obtain ⟨form, operand, found, foundOperand, src, dst, foundSource, foundTarget, rule⟩ :=
    sound.rule_of_reads reads
  obtain ⟨rfl, rfl⟩ := Lives.unique ⟨form, dst, found, foundTarget, rfl, rfl⟩ lives
  exact ⟨operand, src, foundOperand, foundSource, rule.1.symm, rule.2.1.symm⟩

theorem lives_hodge (sound : s.Sound) (reads : s.Reads g (.unary .hodge f))
    (lives : s.Lives f mesh k) {m : Mesh} (foundMesh : s.meshes.get? mesh = some m) :
    s.Lives g mesh (m.ndim - k) := by
  obtain ⟨form, operand, found, foundOperand, src, dst, foundSource, foundTarget, rule⟩ :=
    sound.rule_of_reads reads
  obtain ⟨rfl, rfl⟩ := Lives.unique ⟨operand, src, foundOperand, foundSource, rfl, rfl⟩ lives
  obtain ⟨sameMesh, -, m', foundMesh', degree⟩ := rule
  cases foundMesh.symm.trans foundMesh'
  exact ⟨form, dst, found, foundTarget, sameMesh, degree⟩

theorem lives_trace (sound : s.Sound) (reads : s.Reads g (.unary .trace f))
    (lives : s.Lives f mesh k) : ∃ boundary b, s.Lives g boundary k ∧
      s.meshes.get? boundary = some b ∧ b.inclusion = some mesh := by
  obtain ⟨form, operand, found, foundOperand, src, dst, foundSource, foundTarget, rule⟩ :=
    sound.rule_of_reads reads
  obtain ⟨rfl, rfl⟩ := Lives.unique ⟨operand, src, foundOperand, foundSource, rfl, rfl⟩ lives
  obtain ⟨degree, -, b, foundBoundary, inclusion⟩ := rule
  exact ⟨dst.mesh, b, ⟨form, dst, found, foundTarget, rfl, degree⟩, foundBoundary, inclusion⟩

/-- A mesh has one boundary. -/
theorem eq_of_inclusion (sound : s.Sound) {b b' : Mesh} (found : s.meshes.get? mesh = some b)
    (found' : s.meshes.get? mesh' = some b') {p : MeshId} (inclusion : b.inclusion = some p)
    (inclusion' : b'.inclusion = some p) : mesh = mesh' := by
  obtain ⟨_, -, -, boundary⟩ := sound.meshes found
  obtain ⟨_, -, -, boundary'⟩ := sound.meshes found'
  obtain ⟨parent, foundParent, labels, -⟩ := boundary p inclusion
  obtain ⟨parent', foundParent', labels', -⟩ := boundary' p inclusion'
  cases foundParent.symm.trans foundParent'
  exact sound.meshLabels.eq_of_sym found found' (by rw [labels, labels'])

/-- The boundary of a mesh has one dimension less. -/
theorem ndim_of_inclusion (sound : s.Sound) {b m : Mesh} {boundary : MeshId}
    (found : s.meshes.get? boundary = some b) (inclusion : b.inclusion = some mesh)
    (foundMesh : s.meshes.get? mesh = some m) : b.ndim + 1 = m.ndim := by
  obtain ⟨below, foundBelow, ndim, bounds⟩ := sound.meshes found
  obtain ⟨parent, foundParent, -, boundaryOf⟩ := bounds mesh inclusion
  cases foundMesh.symm.trans foundParent
  obtain ⟨manifold, foundManifold, ndim', -⟩ := sound.meshes foundMesh
  have manifoldSound := (sound.manifolds foundBelow).2
  rw [boundaryOf] at manifoldSound
  obtain ⟨above, foundAbove, succ, -⟩ := manifoldSound
  cases foundManifold.symm.trans foundAbove
  omega

/-- Dimensions are words. -/
theorem ndim_lt (sound : s.Sound) {m : Mesh} (foundMesh : s.meshes.get? mesh = some m) :
    m.ndim < UInt64.size := by
  obtain ⟨manifold, foundManifold, ndim, -⟩ := sound.meshes foundMesh
  have bound := (sound.manifolds foundManifold).1
  have word := s.settings.embeddingDim.toNat_lt_size
  omega

end Sound

end Session

/-! ## Terms -/

namespace Term

variable {s s' : Session} {kind : TermKind} {f1 f2 : FormId} {t : Term}

/-- The degrees of two forms that make up a term on a mesh of dimension `n`. -/
def DegreesFit (n k1 k2 : Nat) : TermKind → Prop
  | .innerProduct => k1 = k2
  | .dualityPairing => Text.wordSum k1 k2 = n

theorem checkDegrees_eq_ok {a b : Space} {m : Mesh} :
    checkDegrees kind a b m = .ok () ↔ DegreesFit m.ndim a.k b.k kind := by
  cases kind with
  | innerProduct =>
    by_cases same : a.k = b.k <;> simp [checkDegrees, DegreesFit, same]
  | dualityPairing =>
    by_cases same : Text.wordSum a.k b.k = m.ndim <;> simp [checkDegrees, DegreesFit, same]

theorem create_spec (run : create s kind f1 f2 = .ok t) :
    t.kind = kind ∧ t.f1 = f1 ∧ t.f2 = f2 ∧ ∃ k1 k2 m, s.Lives f1 t.mesh k1 ∧
      s.Lives f2 t.mesh k2 ∧ s.meshes.get? t.mesh = some m ∧ DegreesFit m.ndim k1 k2 kind := by
  simp only [create, Outcome.bind_eq_ok] at run
  obtain ⟨a, foundFirst, b, foundSecond, sa, foundSpace, sb, foundSpace', run⟩ := run
  rw [Outcome.guard_eq_ok] at run
  obtain ⟨common, run⟩ := run
  simp only [Outcome.bind_eq_ok, Outcome.pure_eq_ok] at run
  obtain ⟨m, foundMesh, _, degrees, rfl⟩ := run
  have sameMesh : sb.mesh = sa.mesh := (Decidable.not_not.1 common).symm
  exact ⟨rfl, rfl, rfl, sa.k, sb.k, m,
    ⟨a, sa, Arena.fetch_eq_ok_iff.1 foundFirst, Arena.fetch_eq_ok_iff.1 foundSpace, rfl, rfl⟩,
    ⟨b, sb, Arena.fetch_eq_ok_iff.1 foundSecond, Arena.fetch_eq_ok_iff.1 foundSpace', sameMesh,
      rfl⟩, Arena.fetch_eq_ok_iff.1 foundMesh, checkDegrees_eq_ok.1 degrees⟩

variable (kind) in
theorem create_succeeds {mesh : MeshId} {m : Mesh} {k1 k2 : Nat} (first : s.Lives f1 mesh k1)
    (second : s.Lives f2 mesh k2) (foundMesh : s.meshes.get? mesh = some m)
    (degrees : DegreesFit m.ndim k1 k2 kind) :
    ∃ t, create s kind f1 f2 = .ok t ∧ t.mesh = mesh := by
  obtain ⟨a, sa, found, foundSpace, rfl, rfl⟩ := first
  obtain ⟨b, sb, found', foundSpace', sameMesh, rfl⟩ := second
  have run : ∃ t, create s kind f1 f2 = .ok t := by
    simp only [create, Outcome.bind_eq_ok]
    apply Exists.intro
    refine ⟨a, Arena.fetch_eq_ok_iff.2 found, b, Arena.fetch_eq_ok_iff.2 found', sa,
      Arena.fetch_eq_ok_iff.2 foundSpace, sb, Arena.fetch_eq_ok_iff.2 foundSpace', ?_⟩
    rw [Outcome.guard_eq_ok]
    refine ⟨fun differs => differs sameMesh.symm, ?_⟩
    simp only [Outcome.bind_eq_ok, Outcome.pure_eq_ok]
    exact ⟨m, Arena.fetch_eq_ok_iff.2 foundMesh, (), checkDegrees_eq_ok.2 degrees, rfl⟩
  obtain ⟨t, run⟩ := run
  obtain ⟨-, -, -, k1, k2, -, lives, -⟩ := create_spec run
  exact ⟨t, run, (lives.unique ⟨a, sa, found, foundSpace, rfl, rfl⟩).1⟩

/-- A term is the same in every later session. -/
theorem create_mono (later : s.Extends s') (run : create s kind f1 f2 = .ok t) :
    create s' kind f1 f2 = .ok t := by
  simp only [create, Outcome.bind_eq_ok] at run ⊢
  obtain ⟨a, foundFirst, b, foundSecond, sa, foundSpace, sb, foundSpace', run⟩ := run
  rw [Outcome.guard_eq_ok] at run
  obtain ⟨common, run⟩ := run
  simp only [Outcome.bind_eq_ok, Outcome.pure_eq_ok] at run
  obtain ⟨m, foundMesh, _, degrees, rfl⟩ := run
  obtain ⟨sa', found, becomes⟩ := later.spaces (Arena.fetch_eq_ok_iff.1 foundSpace)
  obtain ⟨sb', found', becomes'⟩ := later.spaces (Arena.fetch_eq_ok_iff.1 foundSpace')
  refine ⟨a, later.form_eq_ok foundFirst, b, later.form_eq_ok foundSecond, sa',
    Arena.fetch_eq_ok_iff.2 found, sb', Arena.fetch_eq_ok_iff.2 found', ?_⟩
  rw [becomes.mesh_eq, becomes'.mesh_eq, Outcome.guard_eq_ok]
  refine ⟨common, ?_⟩
  simp only [Outcome.bind_eq_ok, Outcome.pure_eq_ok]
  refine ⟨m, later.mesh_eq_ok foundMesh, (), ?_, ?_⟩
  · rw [checkDegrees_eq_ok, becomes.k_eq, becomes'.k_eq]
    exact checkDegrees_eq_ok.1 degrees
  · simp only [glyphs, Session.meshLin, later.settings]

end Term

/-! ## Test forms -/

namespace Session

variable {s s' : Session} {f g : FormId}

/-- The test form of a form is found in the forms that it is built from. -/
theorem testedForm?_eq {form : Form} (found : s.forms.get? f = some form) :
    s.testedForm? f = match form.expr with
      | .root => .ok (some f)
      | .unary .derivative g | .unary .trace g => s.testedForm? g
      | _ => .ok none := by
  obtain ⟨held, rfl⟩ := List.getElem?_eq_some_iff.1 found
  have within : ∀ g ∈ s.forms.entities[f.index].expr.operands, g.index < s.forms.entities.length :=
    fun g member => Nat.lt_trans (s.forms.operands_before f.index held g member) held
  rw [testedForm?, dif_pos held, FormTable.testedAt]
  split
  · simp only [*]
  · rename_i shape
    simp only [shape, FormExpr.operands, List.mem_singleton, forall_eq] at within
    simp only [shape]
    rw [testedForm?, dif_pos within]
  · rename_i shape
    simp only [shape, FormExpr.operands, List.mem_singleton, forall_eq] at within
    simp only [shape]
    rw [testedForm?, dif_pos within]
  · rename_i notRoot notDerivative notTrace
    split
    · exact absurd ‹_› notRoot
    · exact absurd ‹_› (notDerivative _)
    · exact absurd ‹_› (notTrace _)
    · rfl

theorem Extends.testedForm?_eq_ok (later : s.Extends s') {r : Option FormId}
    (run : s.testedForm? f = .ok r) : s'.testedForm? f = .ok r := by
  induction index : f.index using Nat.strongRecOn generalizing f with
  | _ i ih =>
    subst index
    have held : f.index < s.forms.entities.length := by
      by_contra beyond
      rw [testedForm?, dif_neg beyond] at run
      simp at run
    have found : s.forms.get? f = some s.forms.entities[f.index] := List.getElem?_eq_getElem held
    have before := fun g member => FormTable.operands_lt found (g := g) member
    rw [testedForm?_eq found] at run
    rw [testedForm?_eq (later.forms found)]
    split at run
    · exact run
    · rename_i g shape
      exact ih g.index (before g (by simp [shape, FormExpr.operands])) run rfl
    · rename_i g shape
      exact ih g.index (before g (by simp [shape, FormExpr.operands])) run rfl
    · exact run

/-- Derivatives and traces are tested with what their operand is tested with. -/
theorem testedForm?_of_reads {op : UnaryOperator} (reads : s.Reads g (.unary op f))
    (transparent : op = .derivative ∨ op = .trace) : s.testedForm? g = s.testedForm? f := by
  obtain ⟨form, found, expr⟩ := reads
  rw [testedForm?_eq found, expr]
  rcases transparent with rfl | rfl <;> rfl

end Session

end Variational
