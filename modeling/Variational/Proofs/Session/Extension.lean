import Variational.Proofs.Session.Execution
import Variational.Proofs.Session.Steps

/-!
# Sessions that extend sessions

A session only grows: entities stay what they are, apart from a space that
becomes finite and a time sequence that is specified. So what is known about the
entities of a session, such as the typing of a form, is known in every later one.
-/

namespace Variational

/-- A space stays what it is, but it may become finite. -/
def Space.Becomes (sp sp' : Space) : Prop :=
  ∃ degree, sp' = { sp with degree := degree } ∧ ∀ d, sp.degree = some d → degree = some d

namespace Space.Becomes

theorem refl (sp : Space) : sp.Becomes sp :=
  ⟨sp.degree, rfl, fun _ present => present⟩

theorem trans {a b c : Space} (first : a.Becomes b) (second : b.Becomes c) : a.Becomes c := by
  obtain ⟨d, rfl, keeps⟩ := first
  obtain ⟨e, rfl, keeps'⟩ := second
  exact ⟨e, rfl, fun x present => keeps' x (keeps x present)⟩

variable {sp sp' : Space}

theorem mesh_eq (becomes : sp.Becomes sp') : sp'.mesh = sp.mesh := by
  obtain ⟨_, rfl, -⟩ := becomes
  rfl

theorem k_eq (becomes : sp.Becomes sp') : sp'.k = sp.k := by
  obtain ⟨_, rfl, -⟩ := becomes
  rfl

theorem orientation_eq (becomes : sp.Becomes sp') : sp'.orientation = sp.orientation := by
  obtain ⟨_, rfl, -⟩ := becomes
  rfl

theorem labels_eq (becomes : sp.Becomes sp') : sp'.labels = sp.labels := by
  obtain ⟨_, rfl, -⟩ := becomes
  rfl

theorem degree_eq (becomes : sp.Becomes sp') {d : Nat} (finite : sp.degree = some d) :
    sp'.degree = some d := by
  obtain ⟨_, rfl, keeps⟩ := becomes
  exact keeps d finite

end Space.Becomes

namespace Session

/-- A later session holds every entity of an earlier one. -/
structure Extends (s s' : Session) : Prop where
  settings : s'.settings = s.settings
  manifolds : ∀ {id m}, s.manifolds.get? id = some m → s'.manifolds.get? id = some m
  meshes : ∀ {id m}, s.meshes.get? id = some m → s'.meshes.get? id = some m
  spaces : ∀ {id sp}, s.spaces.get? id = some sp →
    ∃ sp', s'.spaces.get? id = some sp' ∧ sp.Becomes sp'
  forms : ∀ {id f}, s.forms.get? id = some f → s'.forms.get? id = some f
  scalars : ∀ {id c}, s.scalars.get? id = some c → s'.scalars.get? id = some c
  timeSequences : ∀ {id t}, s.timeSequences.get? id = some t →
    ∃ t', s'.timeSequences.get? id = some t' ∧ t'.labels = t.labels ∧
      (t.specification.isSome → t' = t)
  timeInstants : ∀ {id i}, s.timeInstants.get? id = some i → s'.timeInstants.get? id = some i
  timeIntervals : ∀ {id i}, s.timeIntervals.get? id = some i → s'.timeIntervals.get? id = some i
  arrays : ∀ {id a}, s.arrays.get? id = some a → s'.arrays.get? id = some a

theorem Extends.refl (s : Session) : s.Extends s where
  settings := rfl
  manifolds found := found
  meshes found := found
  spaces found := ⟨_, found, .refl _⟩
  forms found := found
  scalars found := found
  timeSequences found := ⟨_, found, rfl, fun _ => rfl⟩
  timeInstants found := found
  timeIntervals found := found
  arrays found := found

theorem Extends.trans {s t u : Session} (first : s.Extends t) (second : t.Extends u) :
    s.Extends u where
  settings := second.settings.trans first.settings
  manifolds found := second.manifolds (first.manifolds found)
  meshes found := second.meshes (first.meshes found)
  spaces found := by
    obtain ⟨mid, foundMid, becomes⟩ := first.spaces found
    obtain ⟨last, foundLast, becomes'⟩ := second.spaces foundMid
    exact ⟨last, foundLast, becomes.trans becomes'⟩
  forms found := second.forms (first.forms found)
  scalars found := second.scalars (first.scalars found)
  timeSequences found := by
    obtain ⟨mid, foundMid, labels, fixed⟩ := first.timeSequences found
    obtain ⟨last, foundLast, labels', fixed'⟩ := second.timeSequences foundMid
    refine ⟨last, foundLast, labels'.trans labels, fun specified => ?_⟩
    have same := fixed specified
    subst same
    exact fixed' specified
  timeInstants found := second.timeInstants (first.timeInstants found)
  timeIntervals found := second.timeIntervals (first.timeIntervals found)
  arrays found := second.arrays (first.arrays found)

variable {s s' : Session}

theorem Step.extends (step : s.Step s') : s.Extends s' := by
  cases step with
  | manifold | manifoldBoundary =>
    exact { Extends.refl s with manifolds := Arena.get?_push_of_get? }
  | mesh | meshBoundary => exact { Extends.refl s with meshes := Arena.get?_push_of_get? }
  | space =>
    exact { Extends.refl s with
      spaces := fun found => ⟨_, Arena.get?_push_of_get? found, .refl _⟩ }
  | @degree id sp d found absent =>
    refine { Extends.refl s with spaces := @fun other sp' found' => ?_ }
    change ∃ last, (s.spaces.set id { sp with degree := some d }).get? other = some last ∧ _
    rw [Arena.get?_set found]
    split
    · rename_i same
      subst same
      rw [found] at found'
      cases found'
      exact ⟨_, rfl, some d, rfl, fun e present => absurd (absent ▸ present) (by simp)⟩
    · exact ⟨_, found', .refl _⟩
  | rootScalar | derivedScalar =>
    exact { Extends.refl s with scalars := Arena.get?_push_of_get? }
  | rootForm | evaluation | derivedForm =>
    exact { Extends.refl s with forms := Arena.get?_push_of_get? }
  | timeSequence =>
    exact { Extends.refl s with
      timeSequences := fun found => ⟨_, Arena.get?_push_of_get? found, rfl, fun _ => rfl⟩ }
  | @specification id t rule found absent =>
    refine { Extends.refl s with timeSequences := @fun other t' found' => ?_ }
    change ∃ last, (s.timeSequences.set id { t with specification := some rule }).get? other =
      some last ∧ _
    rw [Arena.get?_set found]
    split
    · rename_i same
      subst same
      rw [found] at found'
      cases found'
      exact ⟨_, rfl, rfl, fun specified => absurd specified (by simp [absent])⟩
    · exact ⟨_, found', rfl, fun _ => rfl⟩
  | timeInstant => exact { Extends.refl s with timeInstants := Arena.get?_push_of_get? }
  | timeInterval => exact { Extends.refl s with timeIntervals := Arena.get?_push_of_get? }
  | array => exact { Extends.refl s with arrays := Arena.get?_push_of_get? }
  | warning => exact { Extends.refl s with }

theorem Steps.extends (steps : s.Steps s') : s.Extends s' := by
  induction steps with
  | refl => exact .refl s
  | tail _ step ih => exact ih.trans step.extends

/-! ## What is known stays known -/

theorem dofLabel_eq_ok_iff {space : SpaceId} {label : String} : s.dofLabel space = .ok label ↔
    ∃ sp d, s.spaces.get? space = some sp ∧ sp.degree = some d ∧
      label = s!"{sp.labels.lin}-{d}" := by
  rw [dofLabel, Outcome.bind_eq_ok]
  constructor
  · intro given
    rcases given with ⟨sp, found, run⟩
    cases finite : sp.degree with
    | none => simp [finite] at run
    | some d =>
      rw [finite] at run
      exact ⟨sp, d, Arena.fetch_eq_ok_iff.1 found, finite, (Outcome.pure_eq_ok.1 run).symm⟩
  · intro given
    rcases given with ⟨sp, d, found, finite, rfl⟩
    refine ⟨sp, Arena.fetch_eq_ok_iff.2 found, ?_⟩
    rw [finite]
    rfl

namespace Extends

variable (later : s.Extends s')

include later

theorem form_eq_ok {id : FormId} {f : Form} (found : s.form id = .ok f) : s'.form id = .ok f :=
  Arena.fetch_eq_ok_iff.2 (later.forms (Arena.fetch_eq_ok_iff.1 found))

theorem mesh_eq_ok {id : MeshId} {m : Mesh} (found : s.mesh id = .ok m) : s'.mesh id = .ok m :=
  Arena.fetch_eq_ok_iff.2 (later.meshes (Arena.fetch_eq_ok_iff.1 found))

theorem array_eq_ok {id : ArrayId} {a : RootArray} (found : s.array id = .ok a) :
    s'.array id = .ok a :=
  Arena.fetch_eq_ok_iff.2 (later.arrays (Arena.fetch_eq_ok_iff.1 found))

theorem link_eq_ok {array : ArrayId} {transposed : Bool} {link : Link}
    (found : s.link array transposed = .ok link) : s'.link array transposed = .ok link := by
  obtain ⟨a, foundArray, rest⟩ := Outcome.bind_eq_ok.1 found
  exact Outcome.bind_eq_ok.2 ⟨a, later.array_eq_ok foundArray, rest⟩

theorem dofLabel_eq_ok {space : SpaceId} {label : String} (found : s.dofLabel space = .ok label) :
    s'.dofLabel space = .ok label := by
  obtain ⟨sp, d, foundSpace, finite, rfl⟩ := dofLabel_eq_ok_iff.1 found
  obtain ⟨sp', foundSpace', becomes⟩ := later.spaces foundSpace
  exact dofLabel_eq_ok_iff.2
    ⟨sp', d, foundSpace', becomes.degree_eq finite, by rw [becomes.labels_eq]⟩

/-- A finite space keeps its labels and its degree. -/
theorem finite_space {space : SpaceId} {sp : Space} {label : String}
    (labelled : s.dofLabel space = .ok label) (found : s.spaces.get? space = some sp) :
    ∃ sp', s'.spaces.get? space = some sp' ∧ sp'.labels = sp.labels ∧ sp'.degree = sp.degree := by
  obtain ⟨sp', found', becomes⟩ := later.spaces found
  obtain ⟨_, d, same, present, -⟩ := dofLabel_eq_ok_iff.1 labelled
  cases found.symm.trans same
  exact ⟨sp', found', becomes.labels_eq, (becomes.degree_eq present).trans present.symm⟩

theorem operatorRule {op : UnaryOperator} {source target : SpaceId}
    (rule : s.OperatorRule op source target) : s'.OperatorRule op source target := by
  obtain ⟨src, dst, foundSource, foundTarget, related⟩ := rule
  obtain ⟨src', foundSource', becomes⟩ := later.spaces foundSource
  obtain ⟨dst', foundTarget', becomes'⟩ := later.spaces foundTarget
  refine ⟨src', dst', foundSource', foundTarget', ?_⟩
  cases op with
  | derivative | codifferential | timeDerivative =>
    simpa only [becomes.mesh_eq, becomes.k_eq, becomes.orientation_eq, becomes'.mesh_eq,
      becomes'.k_eq, becomes'.orientation_eq] using related
  | hodge =>
    obtain ⟨mesh, orientation, m, foundMesh, degree⟩ := related
    simp only [becomes.mesh_eq, becomes.k_eq, becomes.orientation_eq, becomes'.mesh_eq,
      becomes'.k_eq, becomes'.orientation_eq]
    exact ⟨mesh, orientation, m, later.meshes foundMesh, degree⟩
  | trace =>
    obtain ⟨degree, orientation, b, foundMesh, inclusion⟩ := related
    simp only [becomes.mesh_eq, becomes.k_eq, becomes.orientation_eq, becomes'.mesh_eq,
      becomes'.k_eq, becomes'.orientation_eq]
    exact ⟨degree, orientation, b, later.meshes foundMesh, inclusion⟩

theorem wedgeRule {left right target : SpaceId} (rule : s.WedgeRule left right target) :
    s'.WedgeRule left right target := by
  obtain ⟨a, b, dst, foundLeft, foundRight, foundTarget, related⟩ := rule
  obtain ⟨a', foundLeft', becomesLeft⟩ := later.spaces foundLeft
  obtain ⟨b', foundRight', becomesRight⟩ := later.spaces foundRight
  obtain ⟨dst', foundTarget', becomes⟩ := later.spaces foundTarget
  refine ⟨a', b', dst', foundLeft', foundRight', foundTarget', ?_⟩
  simpa only [becomesLeft.mesh_eq, becomesLeft.k_eq, becomesLeft.orientation_eq,
    becomesRight.mesh_eq, becomesRight.k_eq, becomesRight.orientation_eq, becomes.mesh_eq,
    becomes.k_eq, becomes.orientation_eq] using related

theorem typed {space : SpaceId} {e : FormExpr} (typed : s.Typed space e) : s'.Typed space e := by
  cases e with
  | root => trivial
  | atInstant binding =>
    obtain ⟨base, i, foundBase, root, same, foundInstant, sequence⟩ := typed
    exact ⟨base, i, later.forms foundBase, root, same, later.timeInstants foundInstant, sequence⟩
  | unary op f =>
    obtain ⟨a, found, rule⟩ := typed
    exact ⟨a, later.forms found, later.operatorRule rule⟩
  | binary op f g =>
    cases op with
    | sum | difference =>
      obtain ⟨a, b, foundLeft, foundRight, spaces⟩ := typed
      exact ⟨a, b, later.forms foundLeft, later.forms foundRight, spaces⟩
    | wedge =>
      obtain ⟨a, b, foundLeft, foundRight, rule⟩ := typed
      exact ⟨a, b, later.forms foundLeft, later.forms foundRight, later.wedgeRule rule⟩
  | quotient f c | scaled c f =>
    obtain ⟨a, x, found, same, foundScalar⟩ := typed
    exact ⟨a, x, later.forms found, same, later.scalars foundScalar⟩

theorem represents {array : RootArray} (represents : s.Represents array) :
    s'.Represents array := by
  obtain ⟨sym, pureLin, shape, kind⟩ := array
  cases kind with
  | vector f =>
    obtain ⟨form, lin, rows, found, label, labelled, named, shape⟩ := represents
    exact ⟨form, lin, rows, later.forms found, label, later.dofLabel_eq_ok labelled,
      by rw [named, later.settings], shape⟩
  | massMatrix space =>
    obtain ⟨sp, rows, found, labelled, named, shape⟩ := represents
    obtain ⟨sp', found', labels, degree⟩ := later.finite_space labelled found
    exact ⟨sp', rows, found', later.dofLabel_eq_ok labelled, by rw [labels, degree, named], shape⟩
  | incidenceMatrix space =>
    obtain ⟨sp, target, rows, cols, found, rule, labelledCols, labelledRows, named, shape⟩ :=
      represents
    obtain ⟨sp', found', labels, degree⟩ := later.finite_space labelledCols found
    exact ⟨sp', target, rows, cols, found', later.operatorRule rule,
      later.dofLabel_eq_ok labelledCols, later.dofLabel_eq_ok labelledRows,
      by rw [labels, degree, named], shape⟩
  | wedgeVector f space =>
    obtain ⟨form, lin, sp, rows, found, label, foundSpace, labelled, named, shape⟩ := represents
    obtain ⟨sp', found', labels, degree⟩ := later.finite_space labelled foundSpace
    exact ⟨form, lin, sp', rows, later.forms found, label, found', later.dofLabel_eq_ok labelled,
      by rw [degree, named], shape⟩

theorem symbolizes {array : RootArray} (symbolizes : s.Symbolizes array) :
    s'.Symbolizes array := by
  obtain ⟨sym, pureLin, shape, kind⟩ := array
  cases kind with
  | vector f =>
    obtain ⟨form, found, root, same⟩ := symbolizes
    exact ⟨form, later.forms found, root, by rw [same, later.settings]⟩
  | massMatrix space | incidenceMatrix space =>
    obtain ⟨sp, n, found, same⟩ := symbolizes
    obtain ⟨sp', found', becomes⟩ := later.spaces found
    exact ⟨sp', n, found', by rw [same, becomes.k_eq]⟩
  | wedgeVector f space =>
    obtain ⟨form, found, root, same⟩ := symbolizes
    exact ⟨form, later.forms found, root, same⟩

end Extends

end Session

end Variational
