import Variational.Proofs.Multiples
import Variational.Proofs.Progress
import Variational.Proofs.Reconstruction
import Variational.Proofs.Substitution

/-!
# Operators on forms beside others

An operator that has been applied to one form can be applied to every form of the same space,
and its result is in the same space again. The only rejection left is that of a degree which is
passed on to a space of another degree, and it cannot happen as long as all finite spaces share
one degree.
-/

namespace Variational

open Derive

variable {s s' : Session}

/-! ## Derivations up to degrees -/

/-- A derivation has a result, and finite spaces that share one degree still do. Or it is
rejected for the degree of a space, and then the finite spaces did not share one. -/
inductive Derive.Yields {α : Type} (m : Derive α) (s : Session) (Q : α → Session → Prop) : Prop
  | result {a : α} {s' : Session} (run : m s = .ok a s') (steps : s.Steps s')
    (shared : ∀ d, s.FiniteAt d → s'.FiniteAt d) (holds : Q a s')
  | rejected {lin : String} {present asked : Nat} {s' : Session}
    (run : m s = .error (.rejected (.state (.degreeFixed lin present asked))) s')
    (mixed : ∀ d, ¬ s.FiniteAt d)

namespace Derive

variable {α β : Type} {m m' : Derive α} {Q P : α → Session → Prop} {R : β → Session → Prop}

namespace Yields

theorem congr (same : m s = m' s) (yields : m'.Yields s Q) : m.Yields s Q := by
  cases yields with
  | result run steps shared holds => exact .result (same.trans run) steps shared holds
  | rejected run mixed => exact .rejected (same.trans run) mixed

theorem imp (yields : m.Yields s Q) (imp : ∀ {a s'}, s.Steps s' → Q a s' → P a s') :
    m.Yields s P := by
  cases yields with
  | result run steps shared holds => exact .result run steps shared (imp steps holds)
  | rejected run mixed => exact .rejected run mixed

/-- The result is that of a run. -/
theorem runs (yields : m.Yields s Q) : m.Yields s fun a s' => Q a s' ∧ m s = .ok a s' := by
  cases yields with
  | result run steps shared holds => exact .result run steps shared ⟨holds, run⟩
  | rejected run mixed => exact .rejected run mixed

/-- A derivation that is known to have a result without changing the session. -/
theorem of_ok {a : α} (run : m s = .ok a s) (holds : Q a s) : m.Yields s Q :=
  .result run .refl (fun _ finite => finite) holds

theorem pure {a : α} (holds : Q a s) : (Pure.pure a : Derive α).Yields s Q :=
  .of_ok rfl holds

theorem bind {f : α → Derive β} (first : m.Yields s Q)
    (rest : ∀ a s', s.Steps s' → Q a s' → (f a).Yields s' R) : (m >>= f).Yields s R := by
  cases first with
  | @rejected lin present asked last run mixed =>
    have failed : (m >>= f) s =
        .error (.rejected (.state (.degreeFixed lin present asked))) last := by
      simp only [Bind.bind, EStateM.bind, run]
    exact .rejected failed mixed
  | @result a mid run steps shared holds =>
    have next := bind_of_ok run f
    cases rest a mid steps holds with
    | result run' steps' shared' holds' =>
      exact .result (next.trans run') (steps.trans steps')
        (fun d finite => shared' d (shared d finite)) holds'
    | rejected run' mixed =>
      exact .rejected (next.trans run') fun d finite => mixed d (shared d finite)

theorem get_bind {f : Session → Derive β} (rest : (f s).Yields s R) :
    ((MonadStateOf.get : Derive Session) >>= f).Yields s R :=
  .congr (Derive.get_bind f) rest

theorem lift_bind {o : Outcome α} {a : α} {f : α → Derive β} (run : o = .ok a)
    (rest : (f a).Yields s R) : ((liftM o : Derive α) >>= f).Yields s R :=
  .congr (lift_bind_of_ok run f) rest

/-- In a session whose finite spaces share one degree there is a result. -/
theorem succeeds (yields : m.Yields s Q) {d : Nat} (finite : s.FiniteAt d) :
    ∃ a s', m s = .ok a s' := by
  cases yields with
  | result run => exact ⟨_, _, run⟩
  | rejected _ mixed => exact absurd finite (mixed d)

theorem holds_of_ok (yields : m.Yields s Q) {a : α} (run : m s = .ok a s') : Q a s' := by
  cases yields with
  | result run' _ _ holds =>
    cases run.symm.trans run'
    exact holds
  | rejected run' => cases run.symm.trans run'

end Yields

/-- What is given up to a degree is yielded, if both degrees are among those of the session. -/
theorem GivesUpTo.yields {a : α} {passed held : Option Nat} (gives : m.GivesUpTo a passed held s)
    (grows : m.Grows s)
    (among : ∀ d, s.FiniteAt d → ∀ e, passed = some e ∨ held = some e → e = d)
    (shared : ∀ {s' d}, m s = .ok a s' → s.FiniteAt d → s'.FiniteAt d) :
    m.Yields s fun b _ => b = a := by
  by_cases agrees : ∀ d e, passed = some d → held = some e → d = e
  · obtain ⟨s', run⟩ := gives.agreeing agrees
    exact .result run (grows.steps run) (fun _ => shared run) rfl
  · push Not at agrees
    obtain ⟨d, e, given, present, differs⟩ := agrees
    obtain ⟨lin, run⟩ := gives.differing d e given present differs
    refine .rejected run fun c finite => differs ?_
    rw [among c finite d (Or.inl given), among c finite e (Or.inr present)]

end Derive

/-! ## Spaces -/

namespace Session

variable {source target left right : SpaceId}

theorem FiniteAt.eq_of_degree {d e : Nat} (finite : s.FiniteAt d) {id : SpaceId} {sp : Space}
    (found : s.spaces.get? id = some sp) (held : sp.degree = some e) : e = d := by
  rcases finite id sp found with absent | shared
  · simp [held] at absent
  · exact Option.some.inj (held.symm.trans shared)

namespace Sound

/-- A space that is asked for with a degree of the session is the answer, up to degrees. -/
theorem withDegree_yields (sound : s.Sound) {space : SpaceId} {sp : Space}
    (found : s.spaces.get? space = some sp) {degree : Option Nat}
    (among : ∀ d, s.FiniteAt d → degree = none ∨ degree = some d) :
    (Space.withDegree sp.mesh sp.k sp.orientation degree).Yields s fun id _ => id = space := by
  refine (sound.withDegree_givesUpTo found degree).yields (Space.withDegree_grows _ _ _ _) ?_ ?_
  · rintro d finite e (asked | held)
    · rcases among d finite with absent | shared
      · simp [asked] at absent
      · exact Option.some.inj (asked.symm.trans shared)
    · exact finite.eq_of_degree found held
  · exact fun run finite => finite.of_withDegree (among _ finite) run

theorem unarySpace_yields (sound : s.Sound) {op : UnaryOperator}
    (rule : s.OperatorRule op source target) :
    (Form.unarySpace op source).Yields s fun space _ => space = target := by
  obtain ⟨src, dst, foundSource, found, related⟩ := id rule
  by_cases moves : op = .timeDerivative
  · subst moves related
    exact .pure rfl
  · exact .congr (sound.unarySpace_eq moves rule foundSource found)
      (sound.withDegree_yields found fun d finite => finite source src foundSource)

theorem wedgeSpace_yields (sound : s.Sound) (rule : s.WedgeRule left right target) :
    (Space.wedge left right).Yields s fun space _ => space = target := by
  obtain ⟨a, b, dst, foundLeft, foundRight, found, -⟩ := id rule
  refine .congr (sound.wedgeSpace_eq rule foundLeft foundRight found)
    (sound.withDegree_yields found fun d finite => ?_)
  rcases finite left a foundLeft with absent | shared
  · rw [absent, Option.none_or]
    exact finite right b foundRight
  · exact Or.inr (by rw [shared, Option.some_or])

end Sound

end Session

/-! ## Forms of one space -/

namespace Session

variable {f f' g g' h h' : FormId} {op : UnaryOperator}

/-- Two forms of the session belong to one space. -/
def Beside (s : Session) (f g : FormId) : Prop :=
  ∃ space, s.InSpace f space ∧ s.InSpace g space

namespace Beside

theorem refl {form : Form} (found : s.forms.get? f = some form) : s.Beside f f :=
  ⟨form.space, ⟨form, found, rfl⟩, form, found, rfl⟩

theorem symm (beside : s.Beside f g) : s.Beside g f := by
  obtain ⟨space, first, second⟩ := beside
  exact ⟨space, second, first⟩

theorem trans (beside : s.Beside f g) (beside' : s.Beside g h) : s.Beside f h := by
  obtain ⟨space, first, middle⟩ := beside
  obtain ⟨space', middle', last⟩ := beside'
  cases middle.unique middle'
  exact ⟨space, first, last⟩

theorem mono (beside : s.Beside f g) (steps : s.Steps s') : s'.Beside f g := by
  obtain ⟨space, first, second⟩ := beside
  exact ⟨space, steps.extends.inSpace first, steps.extends.inSpace second⟩

/-- Forms of one space live on one mesh with one degree. -/
theorem lives (beside : s.Beside f g) {mesh : MeshId} {k : Nat} (lives : s.Lives f mesh k) :
    s.Lives g mesh k := by
  obtain ⟨space, ⟨a, found, same⟩, b, found', same'⟩ := beside
  obtain ⟨a', sp, foundForm, foundSpace, onMesh, ofDegree⟩ := lives
  cases found.symm.trans foundForm
  exact ⟨b, sp, found', by rw [same', ← same]; exact foundSpace, onMesh, ofDegree⟩

end Beside

namespace Sound

/-- A space is taken to one space by an operator. -/
theorem operatorRule_unique (sound : s.Sound) {source target target' : SpaceId}
    (rule : s.OperatorRule op source target) (rule' : s.OperatorRule op source target') :
    target = target' := by
  obtain ⟨src, dst, foundSource, found, related⟩ := rule
  obtain ⟨src', dst', foundSource', found', related'⟩ := rule'
  cases foundSource.symm.trans foundSource'
  cases op with
  | derivative | codifferential =>
    obtain ⟨mesh, degree, orientation⟩ := related
    obtain ⟨mesh', degree', orientation'⟩ := related'
    exact sound.distinctSpaces found found' (mesh.trans mesh'.symm) (by omega)
      (orientation.trans orientation'.symm)
  | hodge =>
    obtain ⟨mesh, orientation, m, foundMesh, degree⟩ := related
    obtain ⟨mesh', orientation', m', foundMesh', degree'⟩ := related'
    cases foundMesh.symm.trans foundMesh'
    exact sound.distinctSpaces found found' (mesh.trans mesh'.symm) (degree.trans degree'.symm)
      (orientation.trans orientation'.symm)
  | trace =>
    obtain ⟨degree, orientation, b, foundMesh, inclusion⟩ := related
    obtain ⟨degree', orientation', b', foundMesh', inclusion'⟩ := related'
    exact sound.distinctSpaces found found'
      (sound.eq_of_inclusion foundMesh foundMesh' inclusion inclusion')
      (degree.trans degree'.symm) (orientation.trans orientation'.symm)
  | timeDerivative => exact related.trans related'.symm

theorem wedgeRule_unique (sound : s.Sound) {left right target target' : SpaceId}
    (rule : s.WedgeRule left right target) (rule' : s.WedgeRule left right target') :
    target = target' := by
  obtain ⟨a, b, dst, foundLeft, foundRight, found, -, mesh, degree, orientation⟩ := rule
  obtain ⟨a', b', dst', foundLeft', foundRight', found', -, mesh', degree', orientation'⟩ := rule'
  cases foundLeft.symm.trans foundLeft'
  cases foundRight.symm.trans foundRight'
  exact sound.distinctSpaces found found' (mesh.trans mesh'.symm) (degree.trans degree'.symm)
    (orientation.trans orientation'.symm)

end Sound

namespace Beside

/-- An operator takes forms of one space into one space. -/
theorem unary (beside : s.Beside g g') (sound : s.Sound) (reads : s.Reads f (.unary op g))
    (reads' : s.Reads f' (.unary op g')) : s.Beside f f' := by
  obtain ⟨space, ⟨a, found, rfl⟩, a', found', same⟩ := beside
  obtain ⟨b, x, foundForm, foundOperand, rule⟩ := sound.rule_of_reads reads
  obtain ⟨b', x', foundForm', foundOperand', rule'⟩ := sound.rule_of_reads reads'
  cases found.symm.trans foundOperand
  cases found'.symm.trans foundOperand'
  rw [same] at rule'
  exact ⟨b.space, ⟨b, foundForm, rfl⟩, b', foundForm', (sound.operatorRule_unique rule rule').symm⟩

theorem binary {op : BinaryOperator} (left : s.Beside g g') (right : s.Beside h h')
    (sound : s.Sound) (reads : s.Reads f (.binary op g h))
    (reads' : s.Reads f' (.binary op g' h')) : s.Beside f f' := by
  obtain ⟨space, ⟨a, found, rfl⟩, a', found', same⟩ := left
  obtain ⟨space', ⟨b, known, rfl⟩, b', known', same'⟩ := right
  obtain ⟨x, foundForm, expr⟩ := reads
  obtain ⟨x', foundForm', expr'⟩ := reads'
  have typed := (sound.forms foundForm).2.1
  have typed' := (sound.forms foundForm').2.1
  rw [expr] at typed
  rw [expr'] at typed'
  refine ⟨x.space, ⟨x, foundForm, rfl⟩, x', foundForm', ?_⟩
  cases op with
  | wedge =>
    obtain ⟨y, z, foundLeft, foundRight, rule⟩ := typed
    obtain ⟨y', z', foundLeft', foundRight', rule'⟩ := typed'
    cases found.symm.trans foundLeft
    cases found'.symm.trans foundLeft'
    cases known.symm.trans foundRight
    cases known'.symm.trans foundRight'
    rw [same, same'] at rule'
    exact (sound.wedgeRule_unique rule rule').symm
  | sum | difference =>
    obtain ⟨y, z, foundLeft, -, inSpace, -⟩ := typed
    obtain ⟨y', z', foundLeft', -, inSpace', -⟩ := typed'
    cases found.symm.trans foundLeft
    cases found'.symm.trans foundLeft'
    rw [← inSpace, ← inSpace', same]

/-- A quotient is in the space of its dividend. -/
theorem of_quotient (sound : s.Sound) {c : ScalarId} (reads : s.Reads f (.quotient g c)) :
    s.Beside g f := by
  obtain ⟨x, found, expr⟩ := reads
  have typed := (sound.forms found).2.1
  rw [expr] at typed
  obtain ⟨a, -, foundOperand, inSpace, -⟩ := typed
  exact ⟨x.space, ⟨a, foundOperand, inSpace⟩, x, found, rfl⟩

/-- A multiple is in the space of its operand. -/
theorem of_scaled (sound : s.Sound) {c : ScalarId} (reads : s.Reads f (.scaled c g)) :
    s.Beside g f := by
  obtain ⟨x, found, expr⟩ := reads
  have typed := (sound.forms found).2.1
  rw [expr] at typed
  obtain ⟨a, -, foundOperand, inSpace, -⟩ := typed
  exact ⟨x.space, ⟨a, foundOperand, inSpace⟩, x, found, rfl⟩

theorem of_multiple (sound : s.Sound) {form : Form} (found : s.forms.get? g = some form)
    {factor : Option ScalarOperand} (multiple : Form.Multiple s g factor f) : s.Beside g f := by
  cases multiple with
  | self | one => exact .refl found
  | scaled _ _ _ _ reads => exact .of_scaled sound reads

end Beside

end Session

/-- Substitution among forms of one space takes a form to one of its space. -/
theorem Form.Substituted.beside {f g target new : FormId} (sound : s.Sound)
    (beside : s.Beside target new) (substituted : Form.Substituted s target new f g) :
    s.Beside f g := by
  induction substituted with
  | here => exact beside
  | @absent f absent =>
    have differs : f ≠ target := by
      rintro rfl
      simp [Session.occursIn_self] at absent
    obtain ⟨form, found⟩ := Session.exists_form_of_occursIn differs absent
    exact .refl found
  | unary _ _ reads _ reads' ih => exact ih.unary sound reads reads'
  | binary _ _ reads _ _ reads' left right => exact left.binary right sound reads reads'
  | quotient _ _ reads _ reads' ih =>
    exact ((Session.Beside.of_quotient sound reads).symm.trans ih).trans
      (.of_quotient sound reads')
  | scaled _ _ reads _ multiple ih =>
    obtain ⟨_, -, form, found, -⟩ := id ih
    exact ((Session.Beside.of_scaled sound reads).symm.trans ih).trans
      (.of_multiple sound found multiple)

/-! ## Rebuilding -/

/-- A typed expression is made of forms of the session. -/
theorem Session.Typed.holds {space : SpaceId} {e : FormExpr} (typed : s.Typed space e)
    (composed : e.isLeaf = false) : s.forms.Holds e := by
  have held : ∀ {f : FormId} {a : Form}, s.forms.get? f = some a → f.index < s.forms.size :=
    fun found => (List.getElem?_eq_some_iff.1 found).1
  intro g member
  cases e with
  | root | atInstant binding => cases composed
  | unary op f =>
    obtain ⟨a, found, -⟩ := typed
    exact List.mem_singleton.1 member ▸ held found
  | binary op f h =>
    have both : f.index < s.forms.size ∧ h.index < s.forms.size := by
      cases op with
      | sum | difference | wedge =>
        obtain ⟨a, b, left, right, -⟩ := typed
        exact ⟨held left, held right⟩
    rcases List.mem_pair.1 member with rfl | rfl
    · exact both.1
    · exact both.2
  | quotient f c | scaled c f =>
    obtain ⟨a, -, found, -⟩ := typed
    exact List.mem_singleton.1 member ▸ held found

namespace Form

variable {f f' g g' h h' : FormId} {c : ScalarId}

/-- A typed expression has a form. -/
theorem derived_yields {space : SpaceId} {sp : Space} {expr : FormExpr}
    (found : s.spaces.get? space = some sp) (composed : expr.isLeaf = false)
    (typed : s.Typed space expr) (labels : Labels) :
    (derived space labels expr).Yields s fun g s' => s'.Reads g expr := by
  obtain ⟨g, s', run⟩ := derived_succeeds labels found (typed.holds composed)
  refine .result run ((derived_grows composed fun _ _ => typed).steps run) (fun d finite => ?_)
    (Session.reads_of_derived run)
  rcases derived_cases run with ⟨-, -, -, rfl⟩ | ⟨-, -, rfl⟩
  · exact finite
  · exact finite

/-- An operator that was applied to a form is applied to another form of its space. -/
theorem apply_yields (sound : s.Sound) {op : UnaryOperator} (reads : s.Reads f (.unary op g))
    (beside : s.Beside g g') :
    (apply op g').Yields s fun f' s' => s'.Reads f' (.unary op g') ∧ s'.Beside f f' := by
  have known : (apply op g').Yields s fun f' s' => s'.Reads f' (.unary op g') := by
    obtain ⟨space, ⟨a, found, rfl⟩, b, foundOperand, same⟩ := beside
    obtain ⟨form, x, -, foundForm, rule⟩ := sound.rule_of_reads reads
    cases found.symm.trans foundForm
    have fetched : s.form g' = .ok b := Arena.fetch_eq_ok_iff.2 foundOperand
    rw [← same] at rule
    refine .get_bind (.lift_bind fetched ((sound.unarySpace_yields rule).runs.bind ?_))
    rintro _ mid steps ⟨rfl, run⟩
    obtain ⟨_, _, foundSource, -⟩ := rule
    obtain ⟨dst, foundSpace⟩ := exists_space_of_unarySpace foundSource run
    have typed : mid.Typed form.space (.unary op g') :=
      ⟨b, steps.extends.forms foundOperand, unarySpace_rule run foundSpace⟩
    exact .get_bind (derived_yields foundSpace rfl typed _)
  refine known.imp fun steps reads' => ⟨reads', ?_⟩
  exact (beside.mono steps).unary (sound.steps steps) (steps.extends.reads reads) reads'

theorem wedge_yields (sound : s.Sound) (reads : s.Reads f (.binary .wedge g h))
    (left : s.Beside g g') (right : s.Beside h h') :
    (wedge g' h').Yields s fun f' s' => s'.Reads f' (.binary .wedge g' h') := by
  obtain ⟨_, ⟨a, found, rfl⟩, a', foundLeft, same⟩ := left
  obtain ⟨_, ⟨b, known, rfl⟩, b', foundRight, same'⟩ := right
  obtain ⟨form, foundForm, expr⟩ := reads
  have typed := (sound.forms foundForm).2.1
  rw [expr] at typed
  obtain ⟨x, y, found', known', rule⟩ := typed
  cases found.symm.trans found'
  cases known.symm.trans known'
  have fetched : s.form g' = .ok a' := Arena.fetch_eq_ok_iff.2 foundLeft
  have fetched' : s.form h' = .ok b' := Arena.fetch_eq_ok_iff.2 foundRight
  rw [← same, ← same'] at rule
  refine .get_bind (.lift_bind fetched (.get_bind (.lift_bind fetched'
    ((sound.wedgeSpace_yields rule).runs.bind ?_))))
  rintro _ mid steps ⟨rfl, run⟩
  have related := Space.wedge_rule run
  obtain ⟨_, _, dst, -, -, foundSpace, -⟩ := id related
  have typed : mid.Typed form.space (.binary .wedge g' h') :=
    ⟨a', b', steps.extends.forms foundLeft, steps.extends.forms foundRight, related⟩
  exact .get_bind (derived_yields foundSpace rfl typed _)

/-- Two forms of one space have a sum and a difference. -/
theorem linear_yields (sound : s.Sound) {op : BinaryOperator} (linear : op ≠ .wedge)
    (beside : s.Beside g h) :
    (combine op g h).Yields s fun f s' => s'.Reads f (.binary op g h) := by
  obtain ⟨_, ⟨a, found, rfl⟩, b, found', same⟩ := beside
  obtain ⟨⟨sp, foundSpace⟩, -⟩ := sound.forms found
  have common (action : String) : commonSpace s g h action = .ok a.space :=
    commonSpace_of_eq found found' same.symm action
  have fetched : s.form g = .ok a := Arena.fetch_eq_ok_iff.2 found
  have fetched' : s.form h = .ok b := Arena.fetch_eq_ok_iff.2 found'
  cases op with
  | wedge => exact absurd rfl linear
  | sum =>
    have typed : s.Typed a.space (.binary .sum g h) := ⟨a, b, found, found', rfl, same⟩
    exact .get_bind (.lift_bind (common _) (.lift_bind fetched (.lift_bind fetched'
      (derived_yields foundSpace rfl typed _))))
  | difference =>
    have typed : s.Typed a.space (.binary .difference g h) := ⟨a, b, found, found', rfl, same⟩
    exact .get_bind (.lift_bind (common _) (.lift_bind fetched (.lift_bind fetched'
      (derived_yields foundSpace rfl typed _))))

/-- The operands of a sum or a difference belong to one space. -/
theorem operands_beside (sound : s.Sound) {op : BinaryOperator} (linear : op ≠ .wedge)
    (reads : s.Reads f (.binary op g h)) : s.Beside g h := by
  obtain ⟨form, found, expr⟩ := reads
  have typed := (sound.forms found).2.1
  rw [expr] at typed
  cases op with
  | wedge => exact absurd rfl linear
  | sum | difference =>
    obtain ⟨a, b, foundLeft, foundRight, inSpace, inSpace'⟩ := typed
    exact ⟨form.space, ⟨a, foundLeft, inSpace⟩, b, foundRight, inSpace'⟩

/-- The operands of a combination are replaced by forms of their spaces. -/
theorem combine_yields (sound : s.Sound) {op : BinaryOperator} (reads : s.Reads f (.binary op g h))
    (left : s.Beside g g') (right : s.Beside h h') :
    (combine op g' h').Yields s fun f' s' =>
      s'.Reads f' (.binary op g' h') ∧ s'.Beside f f' := by
  have known : (combine op g' h').Yields s fun f' s' => s'.Reads f' (.binary op g' h') := by
    by_cases linear : op = .wedge
    · subst linear
      exact wedge_yields sound reads left right
    · exact linear_yields sound linear
        ((left.symm.trans (operands_beside sound linear reads)).trans right)
  refine known.imp fun steps reads' => ⟨reads', ?_⟩
  exact (left.mono steps).binary (right.mono steps) (sound.steps steps)
    (steps.extends.reads reads) reads'

/-- A form is divided by a scalar of the session. -/
theorem divide_yields (sound : s.Sound) {form : Form} (found : s.forms.get? g = some form)
    {x : Scalar} (foundScalar : s.scalars.get? c = some x) :
    (divide g (.scalar c)).Yields s fun f s' => s'.Reads f (.quotient g c) ∧ s'.Beside g f := by
  obtain ⟨⟨sp, foundSpace⟩, -⟩ := sound.forms found
  have fetched : s.form g = .ok form := Arena.fetch_eq_ok_iff.2 found
  have fetchedScalar : s.scalar c = .ok x := Arena.fetch_eq_ok_iff.2 foundScalar
  have typed : s.Typed form.space (.quotient g c) := ⟨form, x, found, rfl, foundScalar⟩
  have known : (divide g (.scalar c)).Yields s fun f s' => s'.Reads f (.quotient g c) := by
    rw [divide, divisorScalar, pure_bind]
    exact .get_bind (.lift_bind fetched (.lift_bind fetchedScalar
      (derived_yields foundSpace rfl typed _)))
  exact known.imp fun steps reads => ⟨reads, .of_quotient (sound.steps steps) reads⟩

/-- A form is multiplied by a scalar of the session. -/
theorem scale_yields (sound : s.Sound) {form : Form} (found : s.forms.get? g = some form)
    {x : Scalar} (foundScalar : s.scalars.get? c = some x) :
    (scale (.scalar c) g).Yields s fun f s' => s'.Beside g f := by
  obtain ⟨⟨sp, foundSpace⟩, -⟩ := sound.forms found
  have fetched : s.form g = .ok form := Arena.fetch_eq_ok_iff.2 found
  have fetchedScalar : s.scalar c = .ok x := Arena.fetch_eq_ok_iff.2 foundScalar
  have typed : s.Typed form.space (.scaled c g) := ⟨form, x, found, rfl, foundScalar⟩
  by_cases one : (x.value == some 1.0) = true
  · have same : scale (.scalar c) g s = .ok g s := by
      rw [scale, Scalar.ofOperand, pure_bind, get_bind, lift_bind_of_ok fetchedScalar, if_pos one]
      rfl
    exact .congr same (.pure (.refl found))
  · have known : (scale (.scalar c) g).Yields s fun f s' => s'.Reads f (.scaled c g) := by
      rw [scale, Scalar.ofOperand, pure_bind]
      refine .get_bind (.lift_bind fetchedScalar ?_)
      rw [if_neg one]
      exact .lift_bind fetched (derived_yields foundSpace rfl typed _)
    exact known.imp fun steps reads => .of_scaled (sound.steps steps) reads

/-- Substitution among forms of one space takes every form to one of its space. -/
theorem substitute_yields (sound : s.Sound) {target new : FormId} (beside : s.Beside target new)
    {form : Form} (found : s.forms.get? f = some form) :
    (substitute target new f).Yields s fun g s' => s'.Beside f g := by
  -- operands stand before the form, so the induction is on its index
  induction index : f.index using Nat.strongRecOn generalizing f form s with
  | _ i ih =>
    subst index
    by_cases same : f = target
    · subst same
      rw [substitute, if_pos rfl]
      exact .pure beside
    · obtain ⟨occurs, known⟩ := Session.occursIn_total target found
      cases occurs with
      | false =>
        rw [substitute, if_neg same]
        exact .get_bind (.lift_bind known (.pure (.refl found)))
      | true =>
        refine .congr (substitute_inner found same known) ?_
        have reads : ∀ {e}, form.expr = e → s.Reads f e := fun shape => ⟨form, found, shape⟩
        have typed := (sound.forms found).2.1
        have before : ∀ g ∈ form.expr.operands, g.index < f.index :=
          fun g member => FormTable.operands_lt found member
        cases shape : form.expr with
        | root | atInstant binding => exact .pure (.refl found)
        | unary op g =>
          rw [shape] at typed before
          obtain ⟨a, foundOperand, -⟩ := typed
          refine (ih _ (before g (by simp [FormExpr.operands])) sound beside foundOperand rfl).bind
            fun g' mid steps rebuilt => ?_
          exact (apply_yields (sound.steps steps) (steps.extends.reads (reads shape)) rebuilt).imp
            fun _ done => done.2
        | binary op g h =>
          have holds := (sound.forms found).2.1.holds (by rw [shape]; rfl)
          rw [shape] at holds before
          have left := holds g (by simp [FormExpr.operands])
          have right := holds h (by simp [FormExpr.operands])
          refine (ih _ (before g (by simp [FormExpr.operands])) sound beside
            (List.getElem?_eq_getElem left) rfl).bind fun g' mid steps rebuilt => ?_
          refine (ih _ (before h (by simp [FormExpr.operands])) (sound.steps steps)
            (beside.mono steps) (steps.extends.forms (List.getElem?_eq_getElem right)) rfl).bind
            fun h' last later rebuilt' => ?_
          have all : s.Steps last := steps.trans later
          exact (combine_yields (sound.steps all) (all.extends.reads (reads shape))
            (rebuilt.mono later) rebuilt').imp fun _ done => done.2
        | quotient g c =>
          rw [shape] at typed before
          obtain ⟨a, x, foundOperand, -, foundScalar⟩ := typed
          refine (ih _ (before g (by simp [FormExpr.operands])) sound beside foundOperand rfl).bind
            fun g' mid steps rebuilt => ?_
          obtain ⟨_, -, b, foundNew, -⟩ := id rebuilt
          refine (divide_yields (sound.steps steps) foundNew
            (steps.extends.scalars foundScalar)).imp fun later done => ?_
          have whole := Session.Beside.of_quotient sound (reads shape)
          exact ((whole.mono (steps.trans later)).symm.trans (rebuilt.mono later)).trans done.2
        | scaled c g =>
          rw [shape] at typed before
          obtain ⟨a, x, foundOperand, -, foundScalar⟩ := typed
          refine (ih _ (before g (by simp [FormExpr.operands])) sound beside foundOperand rfl).bind
            fun g' mid steps rebuilt => ?_
          obtain ⟨_, -, b, foundNew, -⟩ := id rebuilt
          refine (scale_yields (sound.steps steps) foundNew
            (steps.extends.scalars foundScalar)).imp fun later done => ?_
          have whole := Session.Beside.of_scaled sound (reads shape)
          exact ((whole.mono (steps.trans later)).symm.trans (rebuilt.mono later)).trans done

/-- A form is replaced by one of its space only. -/
theorem beside_of_replace {target new : FormId} (run : replace f target new s = .ok g s') :
    s.Beside target new := by
  simp only [replace, get_bind, bind_eq_ok, lift_eq_ok] at run
  obtain ⟨space, _, ⟨common, -⟩, -⟩ := run
  obtain ⟨a, b, found, found', same, same'⟩ := commonSpace_eq_ok common
  exact ⟨space, ⟨a, found, same⟩, b, found', same'⟩

/-- Replacing a form by one of its space is rejected for degrees alone. -/
theorem replace_yields (sound : s.Sound) {target new : FormId} (beside : s.Beside target new)
    {form : Form} (found : s.forms.get? f = some form) :
    (replace f target new).Yields s fun g s' => s'.Beside f g := by
  obtain ⟨_, ⟨a, foundTarget, same⟩, b, foundNew, same'⟩ := id beside
  refine .get_bind (.lift_bind
    (commonSpace_of_eq foundTarget foundNew (same.trans same'.symm) _) ?_)
  exact substitute_yields sound beside found

end Form

/-! ## Terms -/

namespace Term

variable {t : Term}

/-- Forms of the spaces of the forms of a term make up a term on its mesh. -/
theorem create_beside {g h : FormId} (created : create s t.kind t.f1 t.f2 = .ok t)
    (first : s.Beside t.f1 g) (second : s.Beside t.f2 h) :
    ∃ x, create s t.kind g h = .ok x ∧ x.mesh = t.mesh := by
  obtain ⟨-, -, -, _, _, _, lives, lives', foundMesh, degrees⟩ := create_spec created
  exact create_succeeds t.kind (first.lives lives) (second.lives lives') foundMesh degrees

/-- Replacing a form of a term by one of its space is rejected for degrees alone. -/
theorem replace_yields (sound : s.Sound) (created : create s t.kind t.f1 t.f2 = .ok t)
    {target new : FormId} (beside : s.Beside target new) :
    (t.replace target new).Yields s fun _ _ => True := by
  obtain ⟨-, -, -, _, _, _, ⟨a, _, found, -⟩, ⟨b, _, found', -⟩, -⟩ := create_spec created
  refine (Form.replace_yields sound beside found).bind fun g mid steps first => ?_
  refine (Form.replace_yields (sound.steps steps) (beside.mono steps)
    (steps.extends.forms found')).bind fun h last steps' second => ?_
  split
  · exact .pure trivial
  · have later : s.Extends last := steps.extends.trans steps'.extends
    obtain ⟨x, made, -⟩ := create_beside (create_mono later created) (first.mono steps') second
    exact .get_bind (.lift_bind made (.pure trivial))

end Term

end Variational
