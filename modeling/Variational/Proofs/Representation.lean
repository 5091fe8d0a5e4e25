import Variational.Proofs.ArrayLabels

/-!
# Taking root arrays

An array that is asked for is found under its label, or is new. Under the default
conventions it stands for what it was asked for in both cases. Only the test space
of a boundary vector may be another one of the same degree.
-/

namespace Variational

open Derive

variable {s s' : Session}

/-- What a link of a chain stands for. -/
structure LinkKind where
  kind : ArrayKind
  transposed : Bool

namespace Session

/-! ## Sessions that prepare arrays -/

/-- A session that is reached without recording a form. -/
structure Prepares (s s' : Session) : Prop where
  steps : s.Steps s'
  forms : s'.forms = s.forms

theorem Prepares.refl (s : Session) : s.Prepares s :=
  ⟨.refl, rfl⟩

theorem Prepares.trans {t u : Session} (first : s.Prepares t) (second : t.Prepares u) :
    s.Prepares u :=
  ⟨first.steps.trans second.steps, second.forms.trans first.forms⟩

theorem Prepares.reads_iff (prepares : s.Prepares s') {f : FormId} {e : FormExpr} :
    s'.Reads f e ↔ s.Reads f e := by
  simp only [Reads, prepares.forms]

/-- A sound session that labels coefficient vectors by default. -/
structure Standard (s : Session) : Prop where
  sound : s.Sound
  suffix : s.settings.conventions.linGlyphs.vectorSuffix = "+vec"

theorem Reachable.standard (reachable : Reachable {} s) : s.Standard :=
  ⟨reachable.sound, by rw [reachable.settings_eq]⟩

theorem Standard.steps (standard : s.Standard) (steps : s.Steps s') : s'.Standard :=
  ⟨standard.sound.steps steps, by
    rw [steps.extends.settings]
    exact standard.suffix⟩

theorem Prepares.standard (prepares : s.Prepares s') (standard : s.Standard) : s'.Standard :=
  standard.steps prepares.steps

/-! ## What the arrays stand for -/

/-- An array of the session stands for a form, a space or an operator. -/
def StandsFor (s : Session) (id : ArrayId) (kind : ArrayKind) : Prop :=
  ∃ a, s.arrays.get? id = some a ∧ a.kind = kind

instance (s : Session) (id : ArrayId) (kind : ArrayKind) : Decidable (s.StandsFor id kind) :=
  decidable_of_iff ((s.arrays.get? id).map RootArray.kind = some kind) Option.map_eq_some_iff

theorem Extends.standsFor (later : s.Extends s') {id : ArrayId} {kind : ArrayKind}
    (stands : s.StandsFor id kind) : s'.StandsFor id kind := by
  obtain ⟨a, found, same⟩ := stands
  exact ⟨a, later.arrays found, same⟩

theorem StandsFor.unique {id : ArrayId} {kind kind' : ArrayKind} (stands : s.StandsFor id kind)
    (stands' : s.StandsFor id kind') : kind = kind' := by
  obtain ⟨a, found, rfl⟩ := stands
  obtain ⟨a', found', rfl⟩ := stands'
  cases found.symm.trans found'
  rfl

theorem StandsFor.mem {id : ArrayId} {kind : ArrayKind} (stands : s.StandsFor id kind) :
    kind ∈ s.arrays.entities.map RootArray.kind := by
  obtain ⟨a, found, rfl⟩ := stands
  exact List.mem_map_of_mem (List.mem_of_getElem? found)

namespace Standard

variable {id : ArrayId} {f : FormId} {space : SpaceId}

theorem register_spec (standard : s.Standard) {array : RootArray}
    (run : RootArray.register array s = .ok id s') (represents : s.Represents array) :
    s'.forms = s.forms ∧ ∃ a, s'.arrays.get? id = some a ∧ array.kind.Like a.kind := by
  rcases RootArray.register_cases run with ⟨known, rfl⟩ | ⟨-, rfl, rfl⟩
  · obtain ⟨a, found, same⟩ := standard.sound.arrayLabels.get?_of_byLin? known
    exact ⟨rfl, a, found, standard.sound.like_of_pureLin represents
      (standard.sound.arrays found) standard.suffix same.symm⟩
  · refine ⟨rfl, array, Arena.get?_push_nextId, ?_⟩
    cases array.kind <;> rfl

theorem registerNumbered_spec (standard : s.Standard) {array : RootArray}
    (run : RootArray.registerNumbered array s = .ok id s') (represents : s.Represents array) :
    s'.forms = s.forms ∧ ∃ a, s'.arrays.get? id = some a ∧ array.kind.Like a.kind := by
  rw [RootArray.registerNumbered, get_bind] at run
  have taken := standard.register_spec run represents
  exact taken

theorem vector_spec (standard : s.Standard) (run : RootArray.vector f s = .ok id s') :
    s.Prepares s' ∧ s'.StandsFor id (.vector f) := by
  have steps := (RootArray.vector_grows f).steps run
  simp only [RootArray.vector, get_bind, bind_eq_ok, lift_eq_ok] at run
  obtain ⟨form, _, ⟨found, rfl⟩, run⟩ := run
  cases label : form.pureLin with
  | none => simp [label, lift_eq_ok] at run
  | some lin =>
    simp only [label, bind_eq_ok, lift_eq_ok] at run
    obtain ⟨rows, _, ⟨labelled, rfl⟩, run⟩ := run
    obtain ⟨forms, a, foundArray, like⟩ := standard.register_spec run
      ⟨form, lin, rows, Arena.fetch_eq_ok_iff.1 found, label, labelled, rfl, rfl⟩
    exact ⟨⟨steps, forms⟩, a, foundArray, like.symm⟩

theorem massMatrix_spec (standard : s.Standard) (run : RootArray.massMatrix space s = .ok id s') :
    s.Prepares s' ∧ s'.StandsFor id (.massMatrix space) := by
  have steps := (RootArray.massMatrix_grows space).steps run
  simp only [RootArray.massMatrix, get_bind, bind_eq_ok, lift_eq_ok] at run
  obtain ⟨rows, _, ⟨labelled, rfl⟩, sp, _, ⟨found, rfl⟩, run⟩ := run
  obtain ⟨forms, a, foundArray, like⟩ := standard.registerNumbered_spec run
    ⟨sp, rows, Arena.fetch_eq_ok_iff.1 found, labelled, rfl, rfl⟩
  exact ⟨⟨steps, forms⟩, a, foundArray, like.symm⟩

theorem incidenceMatrix_spec (standard : s.Standard)
    (run : RootArray.incidenceMatrix space s = .ok id s') :
    s.Prepares s' ∧ s'.StandsFor id (.incidenceMatrix space) := by
  have steps := (RootArray.incidenceMatrix_grows space).steps run
  simp only [RootArray.incidenceMatrix, bind_eq_ok, get_eq_ok, lift_eq_ok] at run
  obtain ⟨target, mid, derivative, _, _, ⟨rfl, rfl⟩, cols, _, ⟨labelledCols, rfl⟩, rows, _,
    ⟨labelledRows, rfl⟩, sp, _, ⟨found, rfl⟩, run⟩ := run
  have first : s.Prepares mid :=
    ⟨(Space.derivative_grows space).steps derivative, Space.derivative_forms derivative⟩
  obtain ⟨forms, a, foundArray, like⟩ := (first.standard standard).registerNumbered_spec run
    ⟨sp, target, rows, cols, Arena.fetch_eq_ok_iff.1 found, Space.derivative_rule derivative,
      labelledCols, labelledRows, rfl, rfl⟩
  exact ⟨⟨steps, forms.trans first.forms⟩, a, foundArray, like.symm⟩

/-- The label of a boundary vector leaves its test space open. -/
theorem wedgeVector_spec (standard : s.Standard)
    (run : RootArray.wedgeVector f space s = .ok id s') :
    s.Prepares s' ∧ ∃ other, s'.StandsFor id (.wedgeVector f other) := by
  have steps := (RootArray.wedgeVector_grows f space).steps run
  simp only [RootArray.wedgeVector, get_bind, bind_eq_ok, lift_eq_ok] at run
  obtain ⟨rows, _, ⟨labelled, rfl⟩, form, _, ⟨found, rfl⟩, run⟩ := run
  cases label : form.pureLin with
  | none => simp [label, lift_eq_ok] at run
  | some lin =>
    simp only [label, bind_eq_ok, lift_eq_ok] at run
    obtain ⟨sp, _, ⟨foundSpace, rfl⟩, run⟩ := run
    obtain ⟨forms, ⟨sym, pureLin, shape, kind⟩, foundArray, like⟩ := standard.register_spec run
      ⟨form, lin, sp, rows, Arena.fetch_eq_ok_iff.1 found, label,
        Arena.fetch_eq_ok_iff.1 foundSpace, labelled, rfl, rfl⟩
    cases kind with
    | wedgeVector g other =>
      cases like
      exact ⟨⟨steps, forms⟩, other, _, foundArray, rfl⟩
    | _ => cases like

end Standard

/-! ## Links -/

/-- An array of the session can be linked to. -/
theorem link_of_get? {id : ArrayId} {a : RootArray} (found : s.arrays.get? id = some a)
    (transposed : Bool) : ∃ link, s.link id transposed = .ok link := by
  have fetched : s.array id = .ok a := Arena.fetch_eq_ok_iff.2 found
  rw [Session.link, Outcome.bind_of_ok fetched]
  exact ⟨_, rfl⟩

/-- A link to an array that stands for something. -/
def IsLink (s : Session) (link : Link) (item : LinkKind) : Prop :=
  ∃ id, s.StandsFor id item.kind ∧ s.link id item.transposed = .ok link

theorem Extends.isLink (later : s.Extends s') {link : Link} {item : LinkKind}
    (isLink : s.IsLink link item) : s'.IsLink link item := by
  obtain ⟨id, stands, linked⟩ := isLink
  exact ⟨id, later.standsFor stands, later.link_eq_ok linked⟩

theorem IsLink.array {link : Link} {kind : ArrayKind} {transposed : Bool}
    (isLink : s.IsLink link ⟨kind, transposed⟩) : ∃ a, s.arrays.get? link.array = some a ∧
      a.kind = kind ∧ link.transposed = transposed ∧
        link.shape = if transposed then a.shape.transposed else a.shape := by
  obtain ⟨id, ⟨a, found, same⟩, linked⟩ := isLink
  simp only [Session.link, Outcome.bind_eq_ok, Outcome.pure_eq_ok] at linked
  obtain ⟨a', found', rfl⟩ := linked
  cases found.symm.trans (Arena.fetch_eq_ok_iff.1 found')
  exact ⟨a, found, same, rfl, rfl⟩

namespace Sound

variable {link : Link} {f : FormId} {space : SpaceId} {transposed : Bool}

theorem shape_vector (sound : s.Sound) (isLink : s.IsLink link ⟨.vector f, transposed⟩) :
    ∃ form rows, s.forms.get? f = some form ∧ s.dofLabel form.space = .ok rows ∧
      link.shape = if transposed then ⟨"1", rows⟩ else ⟨rows, "1"⟩ := by
  obtain ⟨⟨sym, pureLin, shape, kind⟩, found, rfl, -, same⟩ := isLink.array
  obtain ⟨form, lin, rows, foundForm, -, labelled, -, rfl⟩ := sound.arrays found
  exact ⟨form, rows, foundForm, labelled, same⟩

theorem shape_massMatrix (sound : s.Sound) (isLink : s.IsLink link ⟨.massMatrix space, false⟩) :
    ∃ rows, s.dofLabel space = .ok rows ∧ link.shape = ⟨rows, rows⟩ := by
  obtain ⟨⟨sym, pureLin, shape, kind⟩, found, rfl, -, same⟩ := isLink.array
  obtain ⟨sp, rows, -, labelled, -, rfl⟩ := sound.arrays found
  exact ⟨rows, labelled, same⟩

theorem shape_incidenceMatrix (sound : s.Sound)
    (isLink : s.IsLink link ⟨.incidenceMatrix space, transposed⟩) :
    ∃ target rows cols, s.OperatorRule .derivative space target ∧ s.dofLabel space = .ok cols ∧
      s.dofLabel target = .ok rows ∧
      link.shape = if transposed then ⟨cols, rows⟩ else ⟨rows, cols⟩ := by
  obtain ⟨⟨sym, pureLin, shape, kind⟩, found, rfl, -, same⟩ := isLink.array
  obtain ⟨sp, target, rows, cols, -, rule, labelledCols, labelledRows, -, rfl⟩ :=
    sound.arrays found
  exact ⟨target, rows, cols, rule, labelledCols, labelledRows, same⟩

theorem shape_wedgeVector (sound : s.Sound)
    (isLink : s.IsLink link ⟨.wedgeVector f space, false⟩) :
    ∃ rows, s.dofLabel space = .ok rows ∧ link.shape = ⟨rows, "1"⟩ := by
  obtain ⟨⟨sym, pureLin, shape, kind⟩, found, rfl, -, same⟩ := isLink.array
  obtain ⟨form, lin, sp, rows, -, -, -, labelled, -, rfl⟩ := sound.arrays found
  exact ⟨rows, labelled, same⟩

end Sound

end Session

/-! ## Chains -/

namespace Product

/-- The shapes of neighbours fit. -/
def Fits (chain : List Link) : Prop :=
  chain.IsChain fun first second => first.shape.cols = second.shape.rows

theorem firstBreak_eq_none {chain : List Link} : firstBreak chain = none ↔ Fits chain := by
  unfold Fits
  fun_induction firstBreak chain with
  | case1 first second rest fits ih => rw [ih, List.isChain_cons_cons, and_iff_right fits]
  | case2 first second rest breaks => simp [breaks]
  | case3 chain short =>
    cases chain with
    | nil => simp
    | cons first rest =>
      cases rest with
      | nil => simp
      | cons second rest => exact absurd rfl (short first second rest)

/-- A product is created if its chain fits. -/
theorem create_eq_ok {factor : ScalarId} {chain : List Link} {p : Product} :
    create factor chain = .ok p ↔ Fits chain ∧ p = ⟨factor, chain⟩ := by
  rw [create, ← firstBreak_eq_none]
  cases breaks : firstBreak chain with
  | none => simp [eq_comm]
  | some pair => simp

end Product

end Variational
