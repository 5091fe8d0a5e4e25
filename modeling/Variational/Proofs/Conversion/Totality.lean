import Variational.Proofs.Conversion.Exactness
import Variational.Proofs.Degrees
import Variational.Proofs.Divisions
import Variational.Proofs.Rebuilding

/-!
# Conversions that succeed

Where all spaces are finite with one degree, an inner product of two forms of one space is
converted or left unsupported, but its conversion does not fail. The arrays that it asks for can
be labelled, the space of derivatives is there already, and the chains of the test form and of
the expanded form meet in the space of the two forms.
-/

namespace Variational

open Derive

variable {s s' : Session} {d : Nat}

/-! ## Sessions with finite spaces -/

namespace Session

/-- A session that is reached without recording a form or a space. -/
structure Furnishes (s s' : Session) : Prop extends s.Prepares s' where
  spaces : s'.spaces = s.spaces

theorem Furnishes.refl (s : Session) : s.Furnishes s :=
  ⟨.refl s, rfl⟩

theorem Furnishes.trans {t u : Session} (first : s.Furnishes t) (second : t.Furnishes u) :
    s.Furnishes u :=
  ⟨first.toPrepares.trans second.toPrepares, second.spaces.trans first.spaces⟩

/-- A session under the default conventions in which every space has the degree `d` and every
finite number can be taken as a scalar. -/
structure Discretized (s : Session) (d : Nat) : Prop where
  sound : s.Sound
  default : s.settings = {}
  finite : ∀ {id sp}, s.spaces.get? id = some sp → sp.degree = some d
  numbers : ∀ {x : Float}, x.isFinite = true → s.Offers x

namespace Discretized

theorem furnishes (discretized : s.Discretized d) (furnishes : s.Furnishes s') :
    s'.Discretized d where
  sound := discretized.sound.steps furnishes.steps
  default := furnishes.steps.extends.settings.trans discretized.default
  finite found := discretized.finite (furnishes.spaces ▸ found)
  numbers finite := furnishes.steps.offers finite (discretized.numbers finite)

theorem standard (discretized : s.Discretized d) : s.Standard :=
  ⟨discretized.sound, by rw [discretized.default]⟩

theorem exists_dofLabel (discretized : s.Discretized d) {space : SpaceId} {sp : Space}
    (found : s.spaces.get? space = some sp) : ∃ label, s.dofLabel space = .ok label :=
  ⟨_, dofLabel_eq_ok_iff.2 ⟨sp, d, found, discretized.finite found, rfl⟩⟩

theorem exists_dofLabel_of_inSpace (discretized : s.Discretized d) {f : FormId}
    {space : SpaceId} (inSpace : s.InSpace f space) : ∃ label, s.dofLabel space = .ok label := by
  obtain ⟨form, found, rfl⟩ := inSpace
  obtain ⟨⟨sp, foundSpace⟩, -⟩ := discretized.sound.forms found
  exact discretized.exists_dofLabel foundSpace

/-- The space of derivatives is found as it is, if it is there. -/
theorem derivative_eq_ok (discretized : s.Discretized d) {source target : SpaceId}
    (rule : s.OperatorRule .derivative source target) :
    Space.derivative source s = .ok target s := by
  obtain ⟨src, dst, foundSource, found, -⟩ := id rule
  obtain ⟨m, foundMesh, fits, -⟩ := discretized.sound.spaces found
  have asked : Space.derivative source s =
      Space.withDegree dst.mesh dst.k dst.orientation src.degree s :=
    discretized.sound.unarySpace_eq (by decide) rule foundSource found
  rw [asked]
  refine Space.withDegree_of_found foundMesh fits (discretized.sound.findSpace_eq found)
    fun e given => ⟨dst, found, ?_⟩
  rw [discretized.finite found, ← given, discretized.finite foundSource]

end Discretized

theorem StandsFor.exists_link {id : ArrayId} {kind : ArrayKind} (stands : s.StandsFor id kind)
    (transposed : Bool) : ∃ link, s.link id transposed = .ok link := by
  obtain ⟨a, found, -⟩ := stands
  exact link_of_get? found transposed

theorem Extends.holdsRoot (later : s.Extends s') {f : FormId} (root : s.HoldsRoot f) :
    s'.HoldsRoot f := by
  obtain ⟨form, found, isRoot⟩ := root
  exact ⟨form, later.forms found, isRoot⟩

end Session

/-! ## Derivations that succeed -/

namespace Derive

variable {α β : Type} {m m' : Derive α}

/-- A derivation has a result, and records no form and no space on the way to it. -/
def Delivers (m : Derive α) (s : Session) : Prop :=
  ∃ a s', m s = .ok a s' ∧ s.Furnishes s'

namespace Delivers

theorem pure {a : α} : (Pure.pure a : Derive α).Delivers s :=
  ⟨a, s, rfl, .refl s⟩

theorem bind {f : α → Derive β} (first : m.Delivers s)
    (rest : ∀ a s', m s = .ok a s' → s.Furnishes s' → (f a).Delivers s') :
    (m >>= f).Delivers s := by
  obtain ⟨a, mid, run, furnishes⟩ := first
  obtain ⟨b, last, run', furnishes'⟩ := rest a mid run furnishes
  exact ⟨b, last, (bind_of_ok run f).trans run', furnishes.trans furnishes'⟩

theorem get_bind {f : Session → Derive β} (rest : (f s).Delivers s) :
    (get >>= f : Derive β).Delivers s :=
  rest

theorem lift_bind {o : Outcome α} {a : α} {f : α → Derive β} (run : o = .ok a)
    (rest : (f a).Delivers s) : (liftM o >>= f : Derive β).Delivers s := by
  rw [run]
  exact rest

/-- A first part that is known to change nothing. -/
theorem bind_of_known {f : α → Derive β} {a : α} (known : m s = .ok a s)
    (rest : (f a).Delivers s) : (m >>= f).Delivers s := by
  obtain ⟨b, last, run, furnishes⟩ := rest
  exact ⟨b, last, (bind_of_ok known f).trans run, furnishes⟩

theorem mapM {f : α → Derive β} {xs : List α}
    (each : ∀ x ∈ xs, ∀ s', s.Furnishes s' → (f x).Delivers s') : (xs.mapM f).Delivers s := by
  induction xs generalizing s with
  | nil => exact .pure
  | cons x xs ih =>
    rw [List.forall_mem_cons] at each
    rw [List.mapM_cons]
    refine .bind (each.1 s (.refl s)) fun y mid _ first => ?_
    exact .bind (ih fun x' member last later => each.2 x' member last (first.trans later))
      fun ys _ _ _ => .pure

end Delivers

end Derive

/-! ## Scalars -/

/-- A scalar is abstract, or a number other than zero that has a finite reciprocal. -/
def Scalar.Invertible (c : Scalar) : Prop :=
  ∀ y ∈ c.value, (y == 0.0) = false ∧ (1.0 / y).isFinite = true

namespace Scalar

instance (c : Scalar) : Decidable c.Invertible :=
  inferInstanceAs (Decidable (∀ y ∈ c.value, (y == 0.0) = false ∧ (1.0 / y).isFinite = true))

open Float.Model in
/-- What compares equal to one divides as one does. -/
theorem div_eq_of_one {x y : Float} (one : (x == 1.0) = true) : x / y = 1.0 / y := by
  rcases unpack_of_beq one with same | ⟨_, _, -, zero⟩
  · change Float.ofModel (pack (UnpackedFloat.div .binary64 x.toModel.unpack _)) =
      Float.ofModel (pack (UnpackedFloat.div .binary64 (1.0 : Float).toModel.unpack _))
    rw [same]
  · cases zero

theorem ofNumber_delivers (discretized : s.Discretized d) {x : Float}
    (finite : x.isFinite = true) : (ofNumber x).Delivers s := by
  obtain ⟨id, s', run⟩ := ofNumber_succeeds finite (discretized.numbers finite)
  refine ⟨id, s', run, ⟨(ofNumber_grows x).steps run, ofNumber_forms run⟩, ?_⟩
  rw [ofNumber, guard_eq_ok] at run
  obtain ⟨rfl | rfl, -⟩ := register_spec run.2 <;> rfl

theorem unit_delivers (discretized : s.Discretized d) : unit.Delivers s :=
  ofNumber_delivers discretized isFinite_one

theorem derived_delivers {labels : Labels} (composed : s.ScalarComposed labels) :
    (derived labels).Delivers s := by
  cases known : s.scalars.find? fun c => c.pureLin.isNone && c.lin == labels.lin with
  | some existing =>
    refine .get_bind ?_
    rw [known]
    exact .pure
  | none =>
    refine .get_bind ?_
    rw [known]
    exact ⟨_, _, rfl, ⟨.single (.derivedScalar composed known), rfl⟩, rfl⟩

/-- An invertible scalar has a reciprocal. -/
theorem reciprocal_delivers (discretized : s.Discretized d) {c : ScalarId}
    (invertible : s.ScalarHas c Invertible) :
    (div (.number 1.0) (.scalar c)).Delivers s := by
  obtain ⟨b, found, invertible⟩ := invertible
  refine .bind (unit_delivers discretized) fun one mid taken furnishes => ?_
  refine .bind_of_known (a := c) rfl (.get_bind ?_)
  obtain ⟨-, -, a, foundOne, value⟩ := unit_spec taken
  have foundDivisor := furnishes.steps.extends.scalars found
  refine .lift_bind (Arena.fetch_eq_ok_iff.2 foundOne)
    (.lift_bind (Arena.fetch_eq_ok_iff.2 foundDivisor) ?_)
  cases left : a.value with
  | none =>
    rw [left] at value
    cases value
  | some x =>
    rw [left] at value
    cases right : b.value with
    | none => exact derived_delivers ⟨one, c, a, b, foundOne, foundDivisor, .inr right, .inr rfl⟩
    | some y =>
      obtain ⟨nonzero, finite⟩ := invertible y right
      rw [← div_eq_of_one value] at finite
      dsimp only
      rw [if_neg (by simp [nonzero])]
      exact ofNumber_delivers (discretized.furnishes furnishes) finite

end Scalar

/-! ## Arrays -/

namespace RootArray

theorem register_furnishes {array : RootArray} {id : ArrayId} (represents : s.Represents array)
    (symbolizes : s.Symbolizes array) (run : register array s = .ok id s') : s.Furnishes s' := by
  rcases register_cases run with ⟨-, rfl⟩ | ⟨available, -, rfl⟩
  · exact .refl _
  · exact ⟨⟨.single (.array represents available symbolizes), rfl⟩, rfl⟩

theorem registerNumbered_delivers {array : RootArray} (represents : s.Represents array)
    (symbolizes : ∀ n, s.Symbolizes { array with sym := Labels.numberedSym array.sym n }) :
    (registerNumbered array).Delivers s := by
  have represents : s.Represents { array with sym := freeSym s array.sym } := represents
  refine .get_bind ?_
  obtain ⟨id, s', run⟩ : ∃ id s',
      register { array with sym := freeSym s array.sym } s = .ok id s' :=
    register_succeeds fun _ => freeSym_free s array.sym
  exact ⟨id, s', run, register_furnishes represents (symbolizes _) run⟩

theorem register_delivers (discretized : s.Discretized d) {array : RootArray}
    (represents : s.Represents array) (symbolizes : s.Symbolizes array)
    (depends : array.dependsOnForm = true) (distinguishes : s.Distinguishes array.kind) :
    (register array).Delivers s := by
  obtain ⟨id, s', run⟩ := discretized.sound.register_succeeds discretized.default represents
    symbolizes depends distinguishes
  exact ⟨id, s', run, register_furnishes represents symbolizes run⟩

variable {space target : SpaceId}

/-- A root form has a coefficient vector. -/
theorem vector_delivers (discretized : s.Discretized d) {f : FormId} {form : Form}
    (found : s.forms.get? f = some form) (root : form.isRoot = true) : (vector f).Delivers s := by
  obtain ⟨-, -, named⟩ := discretized.sound.forms found
  obtain ⟨lin, label⟩ := Option.isSome_iff_exists.1 (named.2 root)
  obtain ⟨rows, labelled⟩ := discretized.exists_dofLabel_of_inSpace ⟨form, found, rfl⟩
  refine .get_bind (.lift_bind (Arena.fetch_eq_ok_iff.2 found) ?_)
  rw [label]
  exact .lift_bind labelled (register_delivers discretized
    ⟨form, lin, rows, found, label, labelled, rfl, rfl⟩ ⟨form, found, by rw [label]; rfl, rfl⟩ rfl
    trivial)

/-- A space has a mass matrix. -/
theorem massMatrix_delivers (discretized : s.Discretized d) {sp : Space}
    (found : s.spaces.get? space = some sp) : (massMatrix space).Delivers s := by
  obtain ⟨label, labelled⟩ := discretized.exists_dofLabel found
  exact .get_bind (.lift_bind labelled (.lift_bind (Arena.fetch_eq_ok_iff.2 found)
    (registerNumbered_delivers ⟨sp, label, found, labelled, rfl, rfl⟩
      fun n => ⟨sp, n, found, rfl⟩)))

/-- A space of which the space of derivatives is there has an incidence matrix. -/
theorem incidenceMatrix_delivers (discretized : s.Discretized d)
    (rule : s.OperatorRule .derivative space target) : (incidenceMatrix space).Delivers s := by
  obtain ⟨src, dst, found, foundTarget, -⟩ := id rule
  obtain ⟨cols, labelled⟩ := discretized.exists_dofLabel found
  obtain ⟨rows, labelled'⟩ := discretized.exists_dofLabel foundTarget
  exact .bind_of_known (discretized.derivative_eq_ok rule) (.get_bind (.lift_bind labelled
    (.lift_bind labelled' (.lift_bind (Arena.fetch_eq_ok_iff.2 found)
      (registerNumbered_delivers ⟨src, target, rows, cols, found, rule, labelled, labelled', rfl,
        rfl⟩ fun n => ⟨src, n, found, rfl⟩)))))

end RootArray

/-! ## Chains -/

namespace Term

variable {t : Term} {f g v : FormId} {c : ScalarId} {space : SpaceId} {label : String}
  {kinds : List LinkKind} {links : List Link}

/-- A form is in the space of what is left of it when its factor is split off. -/
theorem Factored.beside (prepared : s.Prepares s') (sound : s'.Sound)
    (factored : Factored s s' f c g) {form : Form} (found : s.forms.get? f = some form) :
    s'.Beside f g := by
  cases factored with
  | one => exact .refl (prepared.steps.extends.forms found)
  | scaled reads => exact (Session.Beside.of_scaled sound (prepared.reads_iff.2 reads)).symm
  | quotient reads => exact (Session.Beside.of_quotient sound (prepared.reads_iff.2 reads)).symm

/-- The incidence matrix that stands for a derivative has the rows of its space. -/
theorem shape_of_derivative (sound : s.Sound) {link : Link} {transposed : Bool} {r : FormId}
    {operand : Form} (reads : s.Reads f (.unary .derivative r))
    (found : s.forms.get? r = some operand) (inSpace : s.InSpace f space)
    (isLink : s.IsLink link ⟨.incidenceMatrix operand.space, transposed⟩) :
    ∃ rows cols, s.dofLabel space = .ok rows ∧ s.dofLabel operand.space = .ok cols ∧
      link.shape = if transposed then ⟨cols, rows⟩ else ⟨rows, cols⟩ := by
  obtain ⟨target, rows, cols, rule, labelledCols, labelledRows, shape⟩ :=
    sound.shape_incidenceMatrix isLink
  obtain ⟨derived, operand', foundDerived, foundOperand, rule'⟩ := sound.rule_of_reads reads
  cases found.symm.trans foundOperand
  cases inSpace.unique ⟨derived, foundDerived, rfl⟩
  cases sound.operatorRule_unique rule rule'
  exact ⟨rows, cols, labelledRows, labelledCols, shape⟩

/-- The chain of a test form ends in the space of the form that it stands in. -/
theorem TestFormed.fits (sound : s.Sound) (formed : TestFormed s v f kinds)
    (inSpace : s.InSpace f space) (labelled : s.dofLabel space = .ok label)
    (linked : links.Forall₂ s.IsLink kinds) :
    Product.Fits links ∧ ∀ last ∈ links.getLast?, last.shape.cols = label := by
  cases formed with
  | form =>
    obtain _ | ⟨isFront, ⟨⟩⟩ := linked
    obtain ⟨form, rows, found, labelledForm, shape⟩ := sound.shape_vector isFront
    cases inSpace.unique ⟨form, found, rfl⟩
    cases labelled.symm.trans labelledForm
    refine ⟨List.isChain_singleton _, fun last ends => ?_⟩
    cases ends
    exact congrArg Shape.cols shape
  | derivative reads found =>
    obtain _ | ⟨isFront, _ | ⟨isBack, ⟨⟩⟩⟩ := linked
    obtain ⟨form, rows, foundForm, labelledForm, shape⟩ := sound.shape_vector isFront
    cases found.symm.trans foundForm
    obtain ⟨rows', cols, labelledRows, labelledCols, shape'⟩ :=
      shape_of_derivative sound reads found inSpace isBack
    cases labelled.symm.trans labelledRows
    cases labelledForm.symm.trans labelledCols
    have fit := (congrArg Shape.cols shape).trans (congrArg Shape.rows shape').symm
    refine ⟨List.isChain_cons_cons.2 ⟨fit, List.isChain_singleton _⟩, fun last ends => ?_⟩
    cases ends
    exact congrArg Shape.cols shape'

/-- The chain of an expanded form starts in the space of the form. -/
theorem Expanded.fits (sound : s.Sound) (expanded : Expanded s g kinds)
    (inSpace : s.InSpace g space) (labelled : s.dofLabel space = .ok label)
    (linked : links.Forall₂ s.IsLink kinds) :
    Product.Fits links ∧ ∀ first ∈ links.head?, first.shape.rows = label := by
  cases expanded with
  | root found root =>
    obtain _ | ⟨isMass, _ | ⟨isBack, ⟨⟩⟩⟩ := linked
    cases inSpace.unique ⟨_, found, rfl⟩
    obtain ⟨rows, labelledMass, shape⟩ := sound.shape_massMatrix isMass
    obtain ⟨form, rows', foundForm, labelledForm, shape'⟩ := sound.shape_vector isBack
    cases found.symm.trans foundForm
    cases labelled.symm.trans labelledMass
    cases labelled.symm.trans labelledForm
    have fit := (congrArg Shape.cols shape).trans (congrArg Shape.rows shape').symm
    refine ⟨List.isChain_cons_cons.2 ⟨fit, List.isChain_singleton _⟩, fun first starts => ?_⟩
    cases starts
    exact congrArg Shape.rows shape
  | derivative found expr foundRoot root =>
    obtain _ | ⟨isMass, _ | ⟨isMiddle, _ | ⟨isBack, ⟨⟩⟩⟩⟩ := linked
    cases inSpace.unique ⟨_, found, rfl⟩
    obtain ⟨rows, labelledMass, shape⟩ := sound.shape_massMatrix isMass
    obtain ⟨rows', cols, labelledRows, labelledCols, shape'⟩ :=
      shape_of_derivative sound ⟨_, found, expr⟩ foundRoot ⟨_, found, rfl⟩ isMiddle
    obtain ⟨inner, rows'', foundInner, labelledRoot, shape''⟩ := sound.shape_vector isBack
    cases foundRoot.symm.trans foundInner
    cases labelled.symm.trans labelledMass
    cases labelled.symm.trans labelledRows
    cases labelledCols.symm.trans labelledRoot
    have fit := (congrArg Shape.cols shape).trans (congrArg Shape.rows shape').symm
    have fit' := (congrArg Shape.cols shape').trans (congrArg Shape.rows shape'').symm
    refine ⟨List.isChain_cons_cons.2 ⟨fit, List.isChain_cons_cons.2
      ⟨fit', List.isChain_singleton _⟩⟩, fun first starts => ?_⟩
    cases starts
    exact congrArg Shape.rows shape

/-- The chains of a test form and of an expanded form fit if the two forms are in one space. -/
theorem fits_append (discretized : s.Discretized d) {f2 : FormId} {front core : List Link}
    {frontKinds coreKinds : List LinkKind} (beside : s.Beside g f2)
    (formed : TestFormed s v f2 frontKinds) (expanded : Expanded s g coreKinds)
    (frontLinks : front.Forall₂ s.IsLink frontKinds)
    (coreLinks : core.Forall₂ s.IsLink coreKinds) : Product.Fits (front ++ core) := by
  obtain ⟨space, first, second⟩ := beside
  obtain ⟨label, labelled⟩ := discretized.exists_dofLabel_of_inSpace first
  obtain ⟨fits, ends⟩ := formed.fits discretized.sound second labelled frontLinks
  obtain ⟨fits', starts⟩ := expanded.fits discretized.sound first labelled coreLinks
  refine List.isChain_append.2 ⟨fits, fits', fun last isLast first isFirst => ?_⟩
  rw [ends last isLast, starts first isFirst]

/-! ## Inner products -/

/-- An inner product of two forms of one space, the first one of which is not a quotient by a
number without a finite reciprocal. -/
structure WithinSpace (s : Session) (t : Term) : Prop where
  kind : t.kind = .innerProduct
  beside : s.Beside t.f1 t.f2
  divisor : ∀ g c, s.Reads t.f1 (.quotient g c) → s.ScalarHas c Scalar.Invertible

theorem WithinSpace.prepares (within : t.WithinSpace s) (prepares : s.Prepares s') :
    t.WithinSpace s' where
  kind := within.kind
  beside := within.beside.mono prepares.steps
  divisor g c reads :=
    prepares.steps.extends.scalarHas (within.divisor g c (prepares.reads_iff.1 reads))

theorem testChain_delivers (discretized : s.Discretized d) (root : s.HoldsRoot v) {second : Form}
    (found : s.forms.get? t.f2 = some second) : (t.testChain v).Delivers s := by
  obtain ⟨form, foundTest, isRoot⟩ := root
  refine .bind (RootArray.vector_delivers discretized foundTest isRoot)
    fun vector mid taken first => ?_
  obtain ⟨-, stands⟩ := discretized.standard.vector_spec taken
  obtain ⟨front, linked⟩ := stands.exists_link true
  refine .get_bind (.lift_bind linked ?_)
  split
  case isTrue => exact .pure
  case isFalse =>
    have foundSecond := first.steps.extends.forms found
    refine .get_bind (.lift_bind (Arena.fetch_eq_ok_iff.2 foundSecond) ?_)
    split
    case h_2 => exact .pure
    case h_1 w expr =>
      split
      case isTrue => exact .pure
      case isFalse same =>
        obtain rfl := Decidable.not_not.1 same
        have after := discretized.furnishes first
        have foundTest := first.steps.extends.forms foundTest
        obtain ⟨_, operand, -, foundOperand, rule⟩ :=
          after.sound.rule_of_reads ⟨second, foundSecond, expr⟩
        cases foundTest.symm.trans foundOperand
        refine .get_bind (.lift_bind (Arena.fetch_eq_ok_iff.2 foundTest)
          (.bind (RootArray.incidenceMatrix_delivers after rule)
            fun incidence last taken' _ => ?_))
        obtain ⟨-, stands'⟩ := after.standard.incidenceMatrix_spec taken'
        obtain ⟨back, linked'⟩ := stands'.exists_link true
        exact .get_bind (.lift_bind linked' .pure)

theorem splitFactor_delivers (discretized : s.Discretized d) {form : Form}
    (found : s.forms.get? f = some form)
    (divisor : ∀ g c, s.Reads f (.quotient g c) → s.ScalarHas c Scalar.Invertible) :
    (splitFactor f).Delivers s := by
  refine .get_bind (.lift_bind (Arena.fetch_eq_ok_iff.2 found) ?_)
  split
  case h_1 => exact .pure
  case h_2 g c expr =>
    exact .bind (Scalar.reciprocal_delivers discretized (divisor g c ⟨form, found, expr⟩))
      fun _ _ _ _ => .pure
  case h_3 => exact .bind (Scalar.unit_delivers discretized) fun _ _ _ _ => .pure

theorem formChain_delivers (discretized : s.Discretized d) {form : Form}
    (found : s.forms.get? g = some form) : (formChain g).Delivers s := by
  obtain ⟨⟨sp, foundSpace⟩, -, -⟩ := discretized.sound.forms found
  have mass := RootArray.massMatrix_delivers discretized foundSpace
  refine .get_bind (.lift_bind (Arena.fetch_eq_ok_iff.2 found) ?_)
  split
  case isTrue root =>
    refine .bind mass fun mass mid takenMass first => ?_
    have after := discretized.furnishes first
    refine .bind (RootArray.vector_delivers after (first.steps.extends.forms found) root)
      fun vector last takenVector second => ?_
    obtain ⟨-, standsMass⟩ := discretized.standard.massMatrix_spec takenMass
    obtain ⟨-, standsVector⟩ := after.standard.vector_spec takenVector
    obtain ⟨front, linkedFront⟩ := (second.steps.extends.standsFor standsMass).exists_link false
    obtain ⟨back, linkedBack⟩ := standsVector.exists_link false
    exact .get_bind (.lift_bind linkedFront (.lift_bind linkedBack .pure))
  case isFalse =>
    split
    case h_2 => exact .pure
    case h_1 r expr =>
      obtain ⟨_, inner, foundForm, foundRoot, rule⟩ :=
        discretized.sound.rule_of_reads ⟨form, found, expr⟩
      cases found.symm.trans foundForm
      refine .get_bind (.lift_bind (Arena.fetch_eq_ok_iff.2 foundRoot) ?_)
      split
      case isTrue => exact .pure
      case isFalse root =>
        refine .bind mass fun mass mid takenMass first => ?_
        have after := discretized.furnishes first
        refine .bind (RootArray.incidenceMatrix_delivers after
          (first.steps.extends.operatorRule rule)) fun incidence next takenIncidence second => ?_
        have after' := after.furnishes second
        refine .bind (RootArray.vector_delivers after'
          ((first.trans second).steps.extends.forms foundRoot) (by simpa using root))
          fun vector last takenVector third => ?_
        obtain ⟨-, standsMass⟩ := discretized.standard.massMatrix_spec takenMass
        obtain ⟨-, standsIncidence⟩ := after.standard.incidenceMatrix_spec takenIncidence
        obtain ⟨-, standsVector⟩ := after'.standard.vector_spec takenVector
        obtain ⟨front, linkedFront⟩ :=
          ((second.trans third).steps.extends.standsFor standsMass).exists_link false
        obtain ⟨middle, linkedMiddle⟩ :=
          (third.steps.extends.standsFor standsIncidence).exists_link false
        obtain ⟨back, linkedBack⟩ := standsVector.exists_link false
        exact .get_bind (.lift_bind linkedFront (.lift_bind linkedMiddle
          (.lift_bind linkedBack .pure)))

/-- The conversion of an inner product within a space does not fail. -/
theorem convert_delivers (discretized : s.Discretized d) (root : s.HoldsRoot v)
    (within : t.WithinSpace s) : (t.convert v).Delivers s := by
  have standard := discretized.standard
  obtain ⟨space, ⟨form, found, -⟩, second, foundSecond, -⟩ := within.beside
  rw [convert, within.kind]
  refine .bind (testChain_delivers discretized root foundSecond) fun front mid tested first => ?_
  obtain ⟨-, frontChain⟩ := testChain_spec standard tested
  have after := discretized.furnishes first
  cases front with
  | none => exact .pure
  | some front =>
    obtain ⟨frontKinds, formed, frontLinks⟩ := frontChain
    refine .bind (splitFactor_delivers after (first.steps.extends.forms found)
      (within.prepares first.toPrepares).divisor) fun split next splits second => ?_
    obtain ⟨factor, g⟩ := split
    obtain ⟨-, factored, -⟩ := splitFactor_spec first.toPrepares splits
    have both := first.trans second
    have after' := discretized.furnishes both
    have beside := factored.beside both.toPrepares after'.sound found
    obtain ⟨_, -, rest, foundRest, -⟩ := id beside
    refine .bind (formChain_delivers after' foundRest) fun core last expands third => ?_
    obtain ⟨-, coreChain⟩ := formChain_spec both.toPrepares after'.standard expands
    cases core with
    | none => exact .pure
    | some core =>
      obtain ⟨coreKinds, expanded, coreLinks⟩ := coreChain
      have whole := both.trans third
      have fits : Product.Fits (front ++ core) :=
        fits_append (discretized.furnishes whole)
          ((beside.mono third.steps).symm.trans (within.beside.mono whole.steps))
          (formed.of_forms whole.forms) (expanded.of_forms whole.forms)
          (frontLinks.imp fun _ _ => (second.trans third).steps.extends.isLink) coreLinks
      exact .lift_bind (Product.create_eq_ok.2 ⟨fits, rfl⟩) .pure

end Term

end Variational
