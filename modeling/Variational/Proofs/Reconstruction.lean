import Variational.Proofs.Answers
import Variational.Proofs.Terms

/-!
# Building an expression again

A form that is derived from others is found again by its expression. Before it is looked
up, an operator finds the space of the form and passes a degree on to it. The space may
have got another degree in the meantime, and then the operator is rejected although the
form is there. Otherwise the form is the answer again.
-/

namespace Variational

open Derive

variable {s s' : Session}

/-! ## Degrees that are passed on -/

/-- The polynomial degree of a space, if it is finite. -/
def Session.degree? (s : Session) (space : SpaceId) : Option Nat :=
  (s.spaces.get? space).bind Space.degree

/-- The polynomial degree of the space of a form, if it is finite. -/
def Session.formDegree? (s : Session) (f : FormId) : Option Nat :=
  (s.forms.get? f).bind fun form => s.degree? form.space

/-- A derivation has a result, unless it passes a degree on to a space of another degree. Then it
is rejected and changes nothing. -/
structure Derive.GivesUpTo {α : Type} (m : Derive α) (a : α) (passed held : Option Nat)
    (s : Session) : Prop where
  agreeing : (∀ d e, passed = some d → held = some e → d = e) → ∃ s', m s = .ok a s'
  differing : ∀ d e, passed = some d → held = some e → d ≠ e →
    ∃ lin, m s = .error (.rejected (.state (.degreeFixed lin e d))) s

namespace Derive.GivesUpTo

variable {α β : Type} {m : Derive α} {a : α} {passed held : Option Nat}

theorem of_ok (run : m s = .ok a s') (same : passed = held) : m.GivesUpTo a passed held s where
  agreeing _ := ⟨s', run⟩
  differing d e given present differs := by
    rw [given, present] at same
    exact absurd (Option.some.inj same) differs

theorem congr {m' : Derive α} (same : m s = m' s) (gives : m'.GivesUpTo a passed held s) :
    m.GivesUpTo a passed held s where
  agreeing agrees := same ▸ gives.agreeing agrees
  differing d e given present differs := same ▸ gives.differing d e given present differs

theorem bind {f : α → Derive β} {b : β} (gives : m.GivesUpTo a passed held s)
    (rest : ∀ s', m s = .ok a s' → ∃ s'', f a s' = .ok b s'') :
    (m >>= f).GivesUpTo b passed held s where
  agreeing agrees := by
    obtain ⟨mid, run⟩ := gives.agreeing agrees
    rw [bind_of_ok run]
    exact rest mid run
  differing d e given present differs := by
    obtain ⟨lin, run⟩ := gives.differing d e given present differs
    exact ⟨lin, by simp only [Bind.bind, EStateM.bind, run]⟩

end Derive.GivesUpTo

/-! ## Spaces -/

namespace Session.Sound

variable {space source target left right : SpaceId} {sp : Space}

/-- The space of a mesh, a degree of forms and an orientation is found. -/
theorem findSpace_eq (sound : s.Sound) (found : s.spaces.get? space = some sp) :
    s.spaces.find? (fun x => x.mesh = sp.mesh ∧ x.k = sp.k ∧ x.orientation = sp.orientation) =
      some space := by
  cases known : s.spaces.find? fun x =>
    x.mesh = sp.mesh ∧ x.k = sp.k ∧ x.orientation = sp.orientation with
  | none => exact absurd (Arena.find?_eq_none.1 known space sp found) (by simp)
  | some other =>
    obtain ⟨x, foundOther, same⟩ := Arena.find?_eq_some known
    obtain ⟨mesh, k, orientation⟩ := of_decide_eq_true same
    rw [sound.distinctSpaces foundOther found mesh k orientation]

theorem degree?_eq (found : s.spaces.get? space = some sp) : s.degree? space = sp.degree := by
  rw [Session.degree?, found]
  rfl

/-- A degree is given to a space that has no other one. -/
theorem setDegree_givesUpTo (found : s.spaces.get? space = some sp) (d : Nat) :
    (Space.setDegree space d).GivesUpTo () (some d) sp.degree s := by
  have fetched : s.space space = .ok sp := Arena.fetch_eq_ok_iff.2 found
  rw [Space.setDegree]
  cases finite : sp.degree with
  | none =>
    refine ⟨fun _ => ⟨s.setSpace space { sp with degree := some d }, ?_⟩, fun _ _ _ absent => ?_⟩
    · rw [get_bind, lift_bind_of_ok fetched, finite]
      rfl
    · cases absent
  | some present =>
    refine ⟨fun agrees => ⟨s, ?_⟩, fun _ _ given held differs => ⟨sp.labels.lin, ?_⟩⟩
    · have same : d = present := agrees d present rfl rfl
      rw [get_bind, lift_bind_of_ok fetched, finite]
      exact congrFun (if_neg fun differs => differs same.symm) s
    · cases given
      cases held
      rw [get_bind, lift_bind_of_ok fetched, finite]
      exact congrFun (if_pos differs.symm) s

/-- A space of the session is the answer when it is asked for with a degree that it can have. -/
theorem withDegree_givesUpTo (sound : s.Sound) (found : s.spaces.get? space = some sp)
    (degree : Option Nat) :
    (Space.withDegree sp.mesh sp.k sp.orientation degree).GivesUpTo space degree sp.degree s := by
  obtain ⟨m, foundMesh, fits, -⟩ := sound.spaces found
  have known := sound.findSpace_eq found
  cases degree with
  | none =>
    exact ⟨fun _ => ⟨s, Space.withDegree_of_found foundMesh fits known nofun⟩, nofun⟩
  | some d =>
    have fetched : s.mesh sp.mesh = .ok m := Arena.fetch_eq_ok_iff.2 foundMesh
    have asked : Space.withDegree sp.mesh sp.k sp.orientation (some d) s =
        (Space.setDegree space d >>= fun _ => pure space : Derive SpaceId) s := by
      rw [Space.withDegree, get_bind, lift_bind_of_ok fetched, if_neg (Nat.not_lt.2 fits), known]
    exact .congr asked ((setDegree_givesUpTo found d).bind fun s' _ => ⟨s', rfl⟩)

/-- The boundary of a mesh is found by the mesh that it includes. -/
theorem boundary_of_inclusion (sound : s.Sound) {mesh boundary : MeshId} {b : Mesh}
    (found : s.meshes.get? boundary = some b) (inclusion : b.inclusion = some mesh) :
    Mesh.boundary mesh s = .ok (some boundary) s := by
  have known : s.knownMeshBoundary mesh = some boundary := by
    cases known : s.knownMeshBoundary mesh with
    | none => exact absurd (Arena.find?_eq_none.1 known boundary b found) (by simp [inclusion])
    | some other =>
      obtain ⟨b', found', same⟩ := Arena.find?_eq_some known
      rw [sound.eq_of_inclusion found' found (of_decide_eq_true same) inclusion]
  rw [Mesh.boundary, get_bind, known]
  rfl

/-- An operator whose target is in the session asks for it with the degree of its source. -/
theorem unarySpace_eq (sound : s.Sound) {op : UnaryOperator} (moves : op ≠ .timeDerivative)
    {src dst : Space} (rule : s.OperatorRule op source target)
    (foundSource : s.spaces.get? source = some src) (found : s.spaces.get? target = some dst) :
    Form.unarySpace op source s =
      Space.withDegree dst.mesh dst.k dst.orientation src.degree s := by
  obtain ⟨src', dst', foundSource', found', related⟩ := rule
  cases foundSource.symm.trans foundSource'
  cases found.symm.trans found'
  obtain ⟨m, foundMesh, fits, -⟩ := sound.spaces foundSource
  obtain ⟨n, foundTarget, fitsTarget, -⟩ := sound.spaces found
  have fetched : s.space source = .ok src := Arena.fetch_eq_ok_iff.2 foundSource
  have fetchedMesh : s.mesh src.mesh = .ok m := Arena.fetch_eq_ok_iff.2 foundMesh
  have fetchedTarget : s.mesh dst.mesh = .ok n := Arena.fetch_eq_ok_iff.2 foundTarget
  cases op with
  | derivative =>
    obtain ⟨mesh, degree, orientation⟩ := related
    rw [mesh] at foundTarget
    cases foundMesh.symm.trans foundTarget
    rw [Form.unarySpace, Space.derivative, get_bind, lift_bind_of_ok fetched, get_bind,
      lift_bind_of_ok fetchedMesh, if_neg (by omega), mesh, degree, orientation]
  | codifferential =>
    obtain ⟨mesh, degree, orientation⟩ := related
    rw [Form.unarySpace, Space.codifferential, get_bind, lift_bind_of_ok fetched,
      if_neg (by omega), mesh, ← degree, orientation]
    rfl
  | hodge =>
    obtain ⟨mesh, orientation, m', foundMesh', degree⟩ := related
    cases foundMesh.symm.trans foundMesh'
    rw [Form.unarySpace, Space.hodge, get_bind, lift_bind_of_ok fetched, get_bind,
      lift_bind_of_ok fetchedMesh, mesh, degree, orientation]
  | trace =>
    obtain ⟨degree, orientation, b, foundBoundary, inclusion⟩ := related
    cases foundTarget.symm.trans foundBoundary
    rw [Form.unarySpace, Space.trace, get_bind, lift_bind_of_ok fetched,
      bind_of_ok (sound.boundary_of_inclusion foundBoundary inclusion)]
    dsimp only
    rw [get_bind, lift_bind_of_ok fetchedTarget, if_neg (by omega), degree, orientation]
  | timeDerivative => exact absurd rfl moves

/-- The space that an operator maps into is the answer again. -/
theorem unarySpace_givesUpTo (sound : s.Sound) {op : UnaryOperator}
    (rule : s.OperatorRule op source target) :
    (Form.unarySpace op source).GivesUpTo target (s.degree? source) (s.degree? target) s := by
  obtain ⟨src, dst, foundSource, found, related⟩ := id rule
  rw [degree?_eq foundSource, degree?_eq found]
  by_cases moves : op = .timeDerivative
  · subst moves related
    cases foundSource.symm.trans found
    exact .of_ok rfl rfl
  · exact .congr (sound.unarySpace_eq moves rule foundSource found)
      (sound.withDegree_givesUpTo found src.degree)

/-- A wedge product whose space is in the session asks for it with the first degree of its
factors. -/
theorem wedgeSpace_eq (sound : s.Sound) (rule : s.WedgeRule left right target) {a b dst : Space}
    (foundLeft : s.spaces.get? left = some a) (foundRight : s.spaces.get? right = some b)
    (found : s.spaces.get? target = some dst) :
    Space.wedge left right s =
      Space.withDegree dst.mesh dst.k dst.orientation (a.degree.or b.degree) s := by
  obtain ⟨a', b', dst', foundLeft', foundRight', found', common, mesh, degree, orientation⟩ := rule
  cases foundLeft.symm.trans foundLeft'
  cases foundRight.symm.trans foundRight'
  cases found.symm.trans found'
  obtain ⟨n, foundMesh, fits, -⟩ := sound.spaces found
  rw [mesh] at foundMesh
  have fetchedLeft : s.space left = .ok a := Arena.fetch_eq_ok_iff.2 foundLeft
  have fetchedRight : s.space right = .ok b := Arena.fetch_eq_ok_iff.2 foundRight
  have fetchedMesh : s.mesh a.mesh = .ok n := Arena.fetch_eq_ok_iff.2 foundMesh
  rw [Space.wedge, get_bind, lift_bind_of_ok fetchedLeft, get_bind, lift_bind_of_ok fetchedRight,
    if_neg (not_not.2 common)]
  dsimp only
  rw [get_bind, lift_bind_of_ok fetchedMesh, if_neg (by omega), mesh, degree, orientation]

/-- The space of wedge products is the answer again. -/
theorem wedgeSpace_givesUpTo (sound : s.Sound) (rule : s.WedgeRule left right target) :
    (Space.wedge left right).GivesUpTo target ((s.degree? left).or (s.degree? right))
      (s.degree? target) s := by
  obtain ⟨a, b, dst, foundLeft, foundRight, found, -⟩ := id rule
  rw [degree?_eq foundLeft, degree?_eq foundRight, degree?_eq found]
  exact .congr (sound.wedgeSpace_eq rule foundLeft foundRight found)
    (sound.withDegree_givesUpTo found (a.degree.or b.degree))

end Session.Sound

/-! ## Forms -/

theorem Scalar.ofOperand_settled {operand : ScalarOperand} {c : ScalarId}
    (run : ofOperand operand s = .ok c s') : (ofOperand operand).Settled c s' := by
  cases operand with
  | number x => exact ofNumber_settled run
  | scalar id =>
    obtain ⟨rfl, -⟩ := pure_eq_ok.1 run
    exact fun _ _ => rfl

namespace Form

variable {f g h : FormId}

/-- A derived form of the session is the answer again. -/
theorem derived_of_reads (distinct : s.Distinct) {expr : FormExpr} (reads : s.Reads g expr)
    (composed : expr ≠ .root) (space : SpaceId) (labels : Labels) :
    derived space labels expr s = .ok g s := by
  obtain ⟨form, found, same⟩ := reads
  have known : s.forms.find? (·.expr = expr) = some g := by
    cases known : s.forms.find? (·.expr = expr) with
    | none => exact absurd (Arena.find?_eq_none.1 known g form found) (by simp [same])
    | some other =>
      obtain ⟨x, foundOther, sameExpr⟩ := Arena.find?_eq_some known
      have sameExpr : x.expr = expr := of_decide_eq_true sameExpr
      rw [distinct.eq_of_expr foundOther found (sameExpr.trans same.symm) (sameExpr ▸ composed)]
  rw [derived, get_bind, known]
  rfl

theorem formDegree?_eq {form : Form} (found : s.forms.get? f = some form) :
    s.formDegree? f = s.degree? form.space := by
  rw [Session.formDegree?, found]
  rfl

/-- An operator is applied again. -/
theorem apply_givesUpTo (sound : s.Sound) (distinct : s.Distinct) {op : UnaryOperator}
    (reads : s.Reads g (.unary op f)) :
    (apply op f).GivesUpTo g (s.formDegree? f) (s.formDegree? g) s := by
  obtain ⟨form, operand, found, foundOperand, rule⟩ := sound.rule_of_reads reads
  have fetched : s.form f = .ok operand := Arena.fetch_eq_ok_iff.2 foundOperand
  rw [formDegree?_eq foundOperand, formDegree?_eq found]
  -- once the space is found, the look-up cannot fail
  have gives := (sound.unarySpace_givesUpTo rule).bind (f := fun space => do
    let s ← get
    let glyphs := unaryGlyphs s op
    derived space ⟨glyphs.sym ++ operandSym s operand, glyphs.lin ++ operandLin s operand⟩
      (.unary op f)) fun mid run => by
    have steps := (unarySpace_grows op operand.space).steps run
    refine ⟨mid, (get_bind _).trans ?_⟩
    exact derived_of_reads (distinct.steps steps) (steps.extends.reads reads) (by simp) _ _
  refine .congr ?_ gives
  rw [apply, get_bind, lift_bind_of_ok fetched]

/-- A wedge product is formed again. -/
theorem wedge_givesUpTo (sound : s.Sound) (distinct : s.Distinct)
    (reads : s.Reads h (.binary .wedge f g)) :
    (wedge f g).GivesUpTo h ((s.formDegree? f).or (s.formDegree? g)) (s.formDegree? h) s := by
  obtain ⟨form, found, expr⟩ := id reads
  obtain ⟨-, typed, -⟩ := sound.forms found
  rw [expr] at typed
  obtain ⟨a, b, foundLeft, foundRight, rule⟩ := typed
  have fetchedLeft : s.form f = .ok a := Arena.fetch_eq_ok_iff.2 foundLeft
  have fetchedRight : s.form g = .ok b := Arena.fetch_eq_ok_iff.2 foundRight
  rw [formDegree?_eq foundLeft, formDegree?_eq foundRight, formDegree?_eq found]
  have gives := (sound.wedgeSpace_givesUpTo rule).bind (f := fun space => do
    let s ← get
    derived space {
      sym := operandSym s a ++ s.settings.conventions.symGlyphs.wedge ++ operandSym s b
      lin := operandLin s a ++ s.settings.conventions.linGlyphs.wedge ++ operandLin s b }
      (.binary .wedge f g)) fun mid run => by
    have steps := (Space.wedge_grows a.space b.space).steps run
    refine ⟨mid, (get_bind _).trans ?_⟩
    exact derived_of_reads (distinct.steps steps) (steps.extends.reads reads) (by simp) _ _
  refine .congr ?_ gives
  rw [wedge, get_bind, lift_bind_of_ok fetchedLeft, get_bind, lift_bind_of_ok fetchedRight]

/-- Two forms of one space have it in common. -/
theorem commonSpace_of_eq {a b : Form} (found : s.forms.get? f = some a)
    (found' : s.forms.get? g = some b) (same : a.space = b.space) (action : String) :
    commonSpace s f g action = .ok a.space := by
  have fetched : s.form f = .ok a := Arena.fetch_eq_ok_iff.2 found
  have fetched' : s.form g = .ok b := Arena.fetch_eq_ok_iff.2 found'
  rw [commonSpace, Outcome.bind_of_ok fetched, Outcome.bind_of_ok fetched', if_pos same]
  rfl

/-- A sum or a difference is formed again. -/
theorem combine_again {op : BinaryOperator} (sound : s.Sound) (distinct : s.Distinct)
    (linear : op ≠ .wedge) (reads : s.Reads h (.binary op f g)) :
    combine op f g s = .ok h s ∧ s.formDegree? f = s.formDegree? h := by
  obtain ⟨form, found, expr⟩ := id reads
  obtain ⟨-, typed, -⟩ := sound.forms found
  rw [expr] at typed
  have again := derived_of_reads distinct reads (by simp)
  cases op with
  | wedge => exact absurd rfl linear
  | sum | difference =>
    obtain ⟨a, b, foundLeft, foundRight, same, same'⟩ := typed
    have fetchedLeft : s.form f = .ok a := Arena.fetch_eq_ok_iff.2 foundLeft
    have fetchedRight : s.form g = .ok b := Arena.fetch_eq_ok_iff.2 foundRight
    refine ⟨?_, by rw [formDegree?_eq foundLeft, formDegree?_eq found, same]⟩
    simp only [combine, add, sub]
    rw [get_bind,
      lift_bind_of_ok (commonSpace_of_eq foundLeft foundRight (same.trans same'.symm) _),
      lift_bind_of_ok fetchedLeft, lift_bind_of_ok fetchedRight]
    exact again _ _

/-- The scalar of a divisor stays the same. -/
theorem divisorScalar_settled {amount : Divisor} {c : ScalarId}
    (run : divisorScalar f amount s = .ok c s') : (divisorScalar f amount).Settled c s' := by
  intro last steps
  obtain ⟨x, rfl, nonzero, number⟩ | ⟨rfl, -⟩ | ⟨i, t, rfl, found, rfl, rfl⟩ :=
    divisorScalar_cases run
  · rw [divisorScalar, if_neg nonzero]
    exact Scalar.ofNumber_settled number last steps
  · rfl
  · have fetched : last.timeInterval i = .ok t :=
      Arena.fetch_eq_ok_iff.2 (steps.extends.timeIntervals found)
    rw [divisorScalar, get_bind, lift_bind_of_ok fetched]
    rfl

/-- A quotient by a scalar of the session is formed again. -/
theorem divide_of_reads {amount : Divisor} {c : ScalarId} (sound : s.Sound)
    (distinct : s.Distinct) (divisor : divisorScalar f amount s = .ok c s)
    (reads : s.Reads h (.quotient f c)) :
    divide f amount s = .ok h s ∧ s.formDegree? f = s.formDegree? h := by
  obtain ⟨form, found, expr⟩ := id reads
  obtain ⟨-, typed, -⟩ := sound.forms found
  rw [expr] at typed
  obtain ⟨a, x, foundForm, same, foundScalar⟩ := typed
  have fetched : s.form f = .ok a := Arena.fetch_eq_ok_iff.2 foundForm
  have fetchedScalar : s.scalar c = .ok x := Arena.fetch_eq_ok_iff.2 foundScalar
  refine ⟨?_, by rw [formDegree?_eq foundForm, formDegree?_eq found, same]⟩
  rw [divide, bind_of_ok divisor, get_bind, lift_bind_of_ok fetched, lift_bind_of_ok fetchedScalar]
  exact derived_of_reads distinct reads (by simp) _ _

/-- A quotient is formed again. -/
theorem divide_again {amount : Divisor} {last : Session} (run : divide f amount s = .ok h s')
    (steps : s'.Steps last) (sound : last.Sound) (distinct : last.Distinct) :
    divide f amount last = .ok h last ∧ last.formDegree? f = last.formDegree? h := by
  obtain ⟨c, mid, divisor, recorded, reads⟩ := divide_cases run
  exact divide_of_reads sound distinct (divisorScalar_settled divisor last (recorded.trans steps))
    (steps.extends.reads reads)

/-- A multiple by a scalar of the session is formed again. The real scalar one gives the form
itself. -/
theorem scale_of_reads {factor : ScalarOperand} {c : ScalarId} {x : Scalar} (sound : s.Sound)
    (distinct : s.Distinct) (operand : Scalar.ofOperand factor s = .ok c s)
    (foundScalar : s.scalars.get? c = some x)
    (multiple : (x.value == some 1.0) = true ∧ h = f ∨
      (x.value == some 1.0) = false ∧ s.Reads h (.scaled c f)) :
    scale factor f s = .ok h s ∧ s.formDegree? f = s.formDegree? h := by
  have fetchedScalar : s.scalar c = .ok x := Arena.fetch_eq_ok_iff.2 foundScalar
  rw [scale, bind_of_ok operand, get_bind, lift_bind_of_ok fetchedScalar]
  rcases multiple with ⟨one, rfl⟩ | ⟨other, reads⟩
  · exact ⟨congrFun (if_pos one) s, rfl⟩
  · obtain ⟨form, found, expr⟩ := id reads
    obtain ⟨-, typed, -⟩ := sound.forms found
    rw [expr] at typed
    obtain ⟨a, -, foundForm, same, -⟩ := typed
    have fetched : s.form f = .ok a := Arena.fetch_eq_ok_iff.2 foundForm
    refine ⟨?_, by rw [formDegree?_eq foundForm, formDegree?_eq found, same]⟩
    rw [if_neg (by simp [other]), lift_bind_of_ok fetched]
    exact derived_of_reads distinct reads (by simp) _ _

/-- A multiple is formed again. -/
theorem scale_again {factor : ScalarOperand} {last : Session} (run : scale factor f s = .ok h s')
    (steps : s'.Steps last) (sound : last.Sound) (distinct : last.Distinct) :
    scale factor f last = .ok h last ∧ last.formDegree? f = last.formDegree? h := by
  obtain ⟨c, x, mid, operand, recorded, found, multiple⟩ := scale_cases run
  have later : mid.Steps last := recorded.trans steps
  refine scale_of_reads sound distinct (Scalar.ofOperand_settled operand last later)
    (later.extends.scalars found) ?_
  exact multiple.imp id fun ⟨other, reads⟩ => ⟨other, steps.extends.reads reads⟩

end Form

/-! ## Constructions -/

/-- A way to build a form from others. -/
inductive Construction
  | operator (op : UnaryOperator) (f : FormId)
  | combination (op : BinaryOperator) (f g : FormId)
  | quotient (f : FormId) (amount : Divisor)
  | multiple (factor : ScalarOperand) (f : FormId)

namespace Construction

/-- Builds the form. -/
def build : Construction → Derive FormId
  | .operator op f => Form.apply op f
  | .combination op f g => Form.combine op f g
  | .quotient f amount => Form.divide f amount
  | .multiple factor f => Form.scale factor f

/-- The degree that the operands pass on to the space of the form. -/
def passed (s : Session) : Construction → Option Nat
  | .combination .wedge f g => (s.formDegree? f).or (s.formDegree? g)
  | .operator _ f | .combination _ f _ | .quotient f _ | .multiple _ f => s.formDegree? f

/-- Whether the form is in the space of its operands. -/
def keepsSpace : Construction → Bool
  | .operator .timeDerivative _ | .combination .sum _ _ | .combination .difference _ _
  | .quotient _ _ | .multiple _ _ => true
  | .operator _ _ | .combination .wedge _ _ => false

variable {settings : Settings} {c : Construction} {g : FormId}

theorem build_grows (c : Construction) : c.build.Grows s := by
  cases c with
  | operator op f => exact Form.apply_grows op f
  | combination op f g => exact Form.combine_grows op f g
  | quotient f amount => exact Form.divide_grows f amount
  | multiple factor f => exact Form.scale_grows factor f

/-- What was built is built again in a later session, up to the degree that is passed on. -/
theorem build_givesUpTo {last : Session} (run : c.build s = .ok g s') (steps : s'.Steps last)
    (sound : last.Sound) (distinct : last.Distinct) :
    c.build.GivesUpTo g (c.passed last) (last.formDegree? g) last := by
  cases c with
  | operator op f =>
    exact Form.apply_givesUpTo sound distinct (steps.extends.reads (Session.reads_of_apply run))
  | combination op f f' =>
    have reads := steps.extends.reads (Form.reads_of_combine run)
    cases op with
    | wedge => exact Form.wedge_givesUpTo sound distinct reads
    | sum | difference =>
      obtain ⟨again, same⟩ := Form.combine_again sound distinct (by simp) reads
      exact .of_ok again same
  | quotient f amount =>
    obtain ⟨again, same⟩ := Form.divide_again run steps sound distinct
    exact .of_ok again same
  | multiple factor f =>
    obtain ⟨again, same⟩ := Form.scale_again run steps sound distinct
    exact .of_ok again same

/-- A form in the space of its operands has their degree. -/
theorem passed_eq {last : Session} (keeps : c.keepsSpace = true) (run : c.build s = .ok g s')
    (steps : s'.Steps last) (sound : last.Sound) (distinct : last.Distinct) :
    c.passed last = last.formDegree? g := by
  cases c with
  | operator op f =>
    cases op with
    | timeDerivative =>
      obtain ⟨form, operand, found, foundOperand, _, _, -, -, same⟩ :=
        sound.rule_of_reads (steps.extends.reads (Session.reads_of_apply run))
      rw [passed, Form.formDegree?_eq foundOperand, Form.formDegree?_eq found, same]
    | _ => cases keeps
  | combination op f f' =>
    have reads := steps.extends.reads (Form.reads_of_combine run)
    cases op with
    | wedge => cases keeps
    | sum | difference => exact (Form.combine_again sound distinct (by simp) reads).2
  | quotient f amount => exact (Form.divide_again run steps sound distinct).2
  | multiple factor f => exact (Form.scale_again run steps sound distinct).2

/-- Building a form again. After any requests, a construction that gave a form gives the same form
again, unless its operands pass another degree on than the space of the form has by then; in that
case it is rejected for the degree and changes nothing. Sums, differences, quotients, multiples and
time derivatives are in the space of their operands, and always give the same form again. -/
theorem build_again (reachable : Session.Reachable settings s) (run : c.build s = .ok g s')
    (requests : List Request) :
    c.build.GivesUpTo g (c.passed (s'.afterAll requests))
        ((s'.afterAll requests).formDegree? g) (s'.afterAll requests) ∧
      (c.keepsSpace = true → ∃ s'', c.build (s'.afterAll requests) = .ok g s'') := by
  have steps := s'.afterAll_steps requests
  have all : s.Steps (s'.afterAll requests) := (c.build_grows.steps run).trans steps
  have sound := reachable.sound.steps all
  have distinct := reachable.distinct.steps all
  have gives := build_givesUpTo run steps sound distinct
  refine ⟨gives, fun keeps => gives.agreeing fun d e given held => ?_⟩
  rw [passed_eq keeps run steps sound distinct, held] at given
  exact (Option.some.inj given).symm

/-- A derivative is built again after its space got the degree of the space of its operand, and is
rejected after its space got another one. -/
theorem build_again_interval : ∃ s s', Session.Reachable {} s ∧
    (operator .derivative ⟨0⟩).build s = .ok ⟨1⟩ s' ∧
    (∃ s'', (operator .derivative ⟨0⟩).build
      (s'.afterAll [.degree ⟨0⟩ 1, .degree ⟨1⟩ 1]) = .ok ⟨1⟩ s'') ∧
    ∃ lin, (operator .derivative ⟨0⟩).build (s'.afterAll [.degree ⟨0⟩ 1, .degree ⟨1⟩ 2]) =
      .error (.rejected (.state (.degreeFixed lin 2 1)))
        (s'.afterAll [.degree ⟨0⟩ 1, .degree ⟨1⟩ 2]) := by
  obtain ⟨s, reachable, built⟩ : ∃ s, Session.Reachable {} s ∧
      (match (operator .derivative ⟨0⟩).build s with
        | .ok g s' =>
          let same := s'.afterAll [.degree ⟨0⟩ 1, .degree ⟨1⟩ 1]
          let other := s'.afterAll [.degree ⟨0⟩ 1, .degree ⟨1⟩ 2]
          decide (g = ⟨1⟩ ∧ same.formDegree? ⟨0⟩ = some 1 ∧ same.formDegree? ⟨1⟩ = some 1 ∧
            other.formDegree? ⟨0⟩ = some 1 ∧ other.formDegree? ⟨1⟩ = some 2)
        | .error _ _ => false) = true :=
    ⟨Request.performAll {} [.manifold 1, .mesh ⟨0⟩, .space ⟨0⟩ 0 .outer, .root ⟨0⟩ ⟨"u", "u"⟩],
      .performAll {} _, by decide +kernel⟩
  cases run : (operator .derivative ⟨0⟩).build s with
  | error failure s' => simp [run] at built
  | ok g s' =>
    rw [run] at built
    obtain ⟨rfl, passedSame, heldSame, passedOther, heldOther⟩ := of_decide_eq_true built
    refine ⟨s, s', reachable, run, ?_, ?_⟩
    · refine (build_again reachable run _).1.agreeing fun d e given held => ?_
      cases given.symm.trans passedSame
      cases held.symm.trans heldSame
      rfl
    · exact (build_again reachable run _).1.differing 1 2 passedOther heldOther (by decide)

/-- A derivative is not built again after other degrees were given to its space and to that of its
operand. -/
theorem build_not_again : ¬ ∀ (s s' : Session) (c : Construction) (g : FormId),
    Session.Reachable {} s → c.build s = .ok g s' →
      ∀ requests : List Request, ∃ s'', c.build (s'.afterAll requests) = .ok g s'' := by
  intro again
  obtain ⟨s, reachable, rejected⟩ : ∃ s, Session.Reachable {} s ∧
      (match (operator .derivative ⟨0⟩).build s with
        | .ok _ s' =>
          match (operator .derivative ⟨0⟩).build
            (s'.afterAll [.degree ⟨0⟩ 1, .degree ⟨1⟩ 2]) with
          | .ok _ _ => false
          | .error _ _ => true
        | .error _ _ => false) = true :=
    ⟨Request.performAll {} [.manifold 1, .mesh ⟨0⟩, .space ⟨0⟩ 0 .outer, .root ⟨0⟩ ⟨"u", "u"⟩],
      .performAll {} _, by decide +kernel⟩
  cases run : (operator .derivative ⟨0⟩).build s with
  | error failure s' => simp [run] at rejected
  | ok g s' =>
    obtain ⟨s'', rerun⟩ := again s s' _ g reachable run [.degree ⟨0⟩ 1, .degree ⟨1⟩ 2]
    simp [run, rerun] at rejected

end Construction

end Variational
