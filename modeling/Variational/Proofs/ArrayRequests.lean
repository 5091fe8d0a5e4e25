import Variational.Proofs.Representation

/-!
# Requests for root arrays

A root array is requested by what it stands for. Under the default conventions the
symbol of an array tells what it stands for as well as its linguistic label does, so a
request meets no array that stands for something else, with one exception: the labels
of a boundary vector leave its test space open. The main statement is
`request_identifies`.
-/

namespace Variational

open Derive

variable {s s' : Session}

/-! ## Steps that meet no taken label -/

/-- The failure of a request for an array of which a label is taken. -/
def Failure.arrayConflict (label : String) : Failure :=
  .rejected (.identityConflict .array label)

/-- A request does not fail for a label of an array. -/
def Outcome.MeetsNoArray {α : Type} (o : Outcome α) : Prop :=
  ∀ label, o ≠ .error (.arrayConflict label)

/-- A step does not fail for a label of an array. -/
def Derive.MeetsNoArray {α : Type} (m : Derive α) (s : Session) : Prop :=
  ∀ label s', m s ≠ .error (.arrayConflict label) s'

namespace Outcome.MeetsNoArray

variable {α β : Type}

theorem fetch {kind : EntityKind} (arena : Arena kind α) (id : EntityId kind) :
    (arena.fetch id).MeetsNoArray := by
  intro label
  rw [Arena.fetch]
  cases arena.get? id <;> simp [foreign, Failure.arrayConflict]

theorem dofLabel (s : Session) (space : SpaceId) : (s.dofLabel space).MeetsNoArray := by
  intro label
  rw [Session.dofLabel]
  cases found : s.space space with
  | error failure =>
    intro same
    cases same
    exact fetch s.spaces space label found
  | ok sp =>
    rw [Outcome.bind_of_ok rfl]
    cases sp.degree <;> simp [reject, Failure.arrayConflict, pure, Except.pure]

end Outcome.MeetsNoArray

namespace Derive.MeetsNoArray

variable {α β : Type}

theorem of_ok {m : Derive α} (run : ∃ a s', m s = .ok a s') : m.MeetsNoArray s := by
  obtain ⟨a, s', run⟩ := run
  intro label last
  simp [run]

theorem pure {a : α} : (Pure.pure a : Derive α).MeetsNoArray s :=
  of_ok ⟨a, s, rfl⟩

theorem lift {o : Outcome α} (clear : o.MeetsNoArray) : (liftM o : Derive α).MeetsNoArray s := by
  intro label s' run
  cases o with
  | error failure =>
    cases run
    exact clear label rfl
  | ok a => cases run

theorem bind {m : Derive α} {f : α → Derive β} (first : m.MeetsNoArray s)
    (rest : ∀ a s', m s = .ok a s' → (f a).MeetsNoArray s') : (m >>= f).MeetsNoArray s := by
  intro label s' run
  simp only [Bind.bind, EStateM.bind] at run
  cases step : m s with
  | ok a mid =>
    rw [step] at run
    exact rest a mid step label s' run
  | error failure mid =>
    rw [step] at run
    cases run
    exact first label s' step

theorem get_bind {f : Session → Derive β} (rest : (f s).MeetsNoArray s) :
    (get >>= f : Derive β).MeetsNoArray s :=
  rest

theorem lift_bind {o : Outcome α} {f : α → Derive β} (clear : o.MeetsNoArray)
    (rest : ∀ a, o = .ok a → (f a).MeetsNoArray s) :
    (liftM o >>= f : Derive β).MeetsNoArray s := by
  refine bind (lift clear) fun a mid run => ?_
  obtain ⟨success, rfl⟩ := lift_eq_ok.1 run
  exact rest a success

theorem guard {c : Prop} [Decidable c] {o : Outcome PUnit} {f : PUnit → Derive α}
    (clear : o.MeetsNoArray) (rest : ∀ x, (f x).MeetsNoArray s) :
    (if c then liftM o >>= f else f ⟨⟩ : Derive α).MeetsNoArray s := by
  split
  · exact lift_bind clear fun x _ => rest x
  · exact rest ⟨⟩

end Derive.MeetsNoArray

namespace Space

theorem setDegree_meetsNoArray (space : SpaceId) (d : Nat) :
    (setDegree space d).MeetsNoArray s := by
  refine .get_bind (.lift_bind (.fetch _ _) fun sp _ => ?_)
  cases sp.degree with
  | none => exact .of_ok ⟨_, _, rfl⟩
  | some present =>
    dsimp only
    split
    · exact .lift (by simp [Outcome.MeetsNoArray, reject, Failure.arrayConflict])
    · exact .pure

theorem withDegree_meetsNoArray (mesh : MeshId) (k : Nat) (orientation : Orientation)
    (degree : Option Nat) : (withDegree mesh k orientation degree).MeetsNoArray s := by
  refine .get_bind (.lift_bind (.fetch _ _) fun m _ => .guard ?_ fun _ => ?_)
  · simp [Outcome.MeetsNoArray, reject, Failure.arrayConflict]
  · split
    · cases degree with
      | none => exact .pure
      | some d => exact .bind (setDegree_meetsNoArray _ d) fun _ _ _ => .pure
    · exact .of_ok ⟨_, _, rfl⟩

theorem derivative_meetsNoArray (space : SpaceId) : (derivative space).MeetsNoArray s := by
  refine .get_bind (.lift_bind (.fetch _ _) fun sp _ => .get_bind (.lift_bind (.fetch _ _)
    fun m _ => .guard ?_ fun _ => withDegree_meetsNoArray _ _ _ _))
  simp [Outcome.MeetsNoArray, reject, Failure.arrayConflict]

end Space

/-! ## Symbols -/

namespace Labels

theorem numberedSym_toList (sym : String) (n : Nat) :
    ∃ back, (numberedSym sym n).toList = sym.toList ++ back := by
  rw [numberedSym]
  split
  · exact ⟨[], (List.append_nil _).symm⟩
  · exact ⟨'_' :: '{' :: (Nat.toDigits 10 n ++ ['}']), by simp [toString]⟩

end Labels

/-- The letter after the backslash with which the symbols of arrays begin. -/
def ArrayKind.letter : ArrayKind → Char
  | .vector _ => 'v'
  | .massMatrix _ | .incidenceMatrix _ => 'm'
  | .wedgeVector _ _ => 'b'

namespace Session

variable {a a' : RootArray}

/-- Arrays that stand for the same have one linguistic label. -/
theorem Represents.pureLin_eq (represents : s.Represents a) (represents' : s.Represents a')
    (same : a.kind = a'.kind) : a.pureLin = a'.pureLin := by
  obtain ⟨sym, pureLin, shape, kind⟩ := a
  obtain ⟨sym', pureLin', shape', kind'⟩ := a'
  cases same
  cases kind with
  | vector f =>
    obtain ⟨form, lin, rows, found, label, -, named, -⟩ := represents
    obtain ⟨form', lin', rows', found', label', -, named', -⟩ := represents'
    cases found.symm.trans found'
    cases label.symm.trans label'
    exact named.trans named'.symm
  | massMatrix space =>
    obtain ⟨sp, rows, found, -, named, -⟩ := represents
    obtain ⟨sp', rows', found', -, named', -⟩ := represents'
    cases found.symm.trans found'
    exact named.trans named'.symm
  | incidenceMatrix space =>
    obtain ⟨sp, target, rows, cols, found, -, -, -, named, -⟩ := represents
    obtain ⟨sp', target', rows', cols', found', -, -, -, named', -⟩ := represents'
    cases found.symm.trans found'
    exact named.trans named'.symm
  | wedgeVector f space =>
    obtain ⟨form, lin, sp, rows, found, label, foundSpace, -, named, -⟩ := represents
    obtain ⟨form', lin', sp', rows', found', label', foundSpace', -, named', -⟩ := represents'
    cases found.symm.trans found'
    cases label.symm.trans label'
    cases foundSpace.symm.trans foundSpace'
    exact named.trans named'.symm

/-- A session holds at most one array for everything that arrays stand for. -/
theorem Sound.eq_of_standsFor_both (sound : s.Sound) {id id' : ArrayId} {kind : ArrayKind}
    (stands : s.StandsFor id kind) (stands' : s.StandsFor id' kind) : id = id' := by
  obtain ⟨a, found, rfl⟩ := stands
  obtain ⟨a', found', same⟩ := stands'
  exact sound.arrayLabels.eq_of_lin found found'
    ((sound.arrays found).pureLin_eq (sound.arrays found') same.symm)

theorem Symbolizes.letter_eq (symbolizes : s.Symbolizes a)
    (glyphs : s.settings.conventions.symGlyphs.vector = ⟨"\\vec\x7b", "\x7d"⟩) :
    a.sym.toList[1]? = some a.kind.letter := by
  obtain ⟨sym, pureLin, shape, kind⟩ := a
  cases kind with
  | vector f =>
    obtain ⟨form, -, -, same⟩ := symbolizes
    rw [same, glyphs]
    simp [Wrapper.wrap, ArrayKind.letter]
  | massMatrix space | incidenceMatrix space =>
    obtain ⟨sp, n, -, same⟩ := symbolizes
    obtain ⟨back, numbered⟩ := Labels.numberedSym_toList _ n
    rw [same, numbered]
    simp [toString, ArrayKind.letter]
  | wedgeVector f space =>
    obtain ⟨form, -, -, same⟩ := symbolizes
    rw [same]
    simp [toString, ArrayKind.letter]

theorem Sound.form_eq_of_sym (sound : s.Sound) {id id' : FormId} {f f' : Form}
    (found : s.forms.get? id = some f) (found' : s.forms.get? id' = some f')
    (root : f.pureLin.isSome = true) (root' : f'.pureLin.isSome = true) (same : f.sym = f'.sym) :
    id = id' := by
  obtain ⟨lin, named⟩ := Option.isSome_iff_exists.1 root
  obtain ⟨lin', named'⟩ := Option.isSome_iff_exists.1 root'
  have taken := (sound.formLabels found named).2
  rw [same, (sound.formLabels found' named').2] at taken
  exact (Option.some.inj taken).symm

/-- Arrays with one symbol stand for the same, up to the test space of a boundary vector, if
their symbols are not numbered. -/
theorem Sound.like_of_sym (sound : s.Sound) (symbolizes : s.Symbolizes a)
    (symbolizes' : s.Symbolizes a')
    (glyphs : s.settings.conventions.symGlyphs.vector = ⟨"\\vec\x7b", "\x7d"⟩)
    (depends : a.dependsOnForm = true) (same : a.sym = a'.sym) : a.kind.Like a'.kind := by
  have letters : a.kind.letter = a'.kind.letter := by
    have letter := symbolizes.letter_eq glyphs
    rw [same, symbolizes'.letter_eq glyphs] at letter
    exact (Option.some.inj letter).symm
  obtain ⟨sym, pureLin, shape, kind⟩ := a
  obtain ⟨sym', pureLin', shape', kind'⟩ := a'
  cases kind with
  | vector f =>
    cases kind' with
    | vector g =>
      obtain ⟨form, found, root, named⟩ := symbolizes
      obtain ⟨form', found', root', named'⟩ := symbolizes'
      have texts := congrArg String.toList (named.symm.trans (same.trans named'))
      simp only [Wrapper.wrap, String.toList_append] at texts
      have syms := List.append_cancel_left (List.append_cancel_right texts)
      obtain rfl := sound.form_eq_of_sym found found' root root' (String.toList_injective syms)
      rfl
    | _ => exact absurd letters (by simp [ArrayKind.letter])
  | wedgeVector f space =>
    cases kind' with
    | wedgeVector g space' =>
      obtain ⟨form, found, root, named⟩ := symbolizes
      obtain ⟨form', found', root', named'⟩ := symbolizes'
      have texts := congrArg String.toList (named.symm.trans (same.trans named'))
      simp only [toString, String.toList_append] at texts
      have syms := List.append_cancel_left (List.append_cancel_right texts)
      exact sound.form_eq_of_sym found found' root root' (String.toList_injective syms)
    | _ => exact absurd letters (by simp [ArrayKind.letter])
  | _ => cases depends

end Session

/-! ## Registering arrays -/

namespace RootArray

/-- The symbol of a new numbered array is the first variant that no array has. Its number is at most
the number of symbols that arrays have. -/
theorem freeSym_isLeast (s : Session) (sym : String) :
    ∃ n, freeSym s sym = Labels.numberedSym sym n ∧
      IsLeast {n | s.arrayLabels.hasSym (Labels.numberedSym sym n) = false} n ∧
      n ≤ s.arrayLabels.symCount := by
  refine ⟨_, rfl, ?_⟩
  have free : ∀ n, (!s.arrayLabels.hasSym (Labels.numberedSym sym n)) = true ↔
      s.arrayLabels.hasSym (Labels.numberedSym sym n) = false := by
    simp
  have injective : Function.Injective (Labels.numberedSym sym) := fun _ _ =>
    Labels.numberedSym_injective
  -- no linguistic label is looked at
  have enough : (s.arrayLabels.entries.map (·.1.sym)).length + ([] : List String).length ≤
      s.arrayLabels.size := by
    simp [LabelIndex.size]
  have search := isLeast_of_free injective injective enough fun n => (free n).trans (by
    rw [← LabelIndex.hasSym_iff, Bool.not_eq_true, and_iff_left List.not_mem_nil])
  simpa only [free, LabelIndex.symCount, List.dedup_nil, List.length_nil, Nat.add_zero] using search

theorem freeSym_free (s : Session) (sym : String) :
    s.arrayLabels.hasSym (freeSym s sym) = false := by
  obtain ⟨n, same, least, -⟩ := freeSym_isLeast s sym
  rw [same]
  exact least.1

/-- Registering succeeds if no other array has the symbol. -/
theorem register_succeeds {array : RootArray}
    (free : s.arrayLabels.byLin? array.pureLin = none → s.arrayLabels.hasSym array.sym = false) :
    ∃ id s', register array s = .ok id s' := by
  rw [register, get_bind]
  cases known : s.arrayLabels.byLin? array.pureLin with
  | some existing => exact ⟨existing, s, rfl⟩
  | none =>
    have available : s.arrayLabels.checkAvailable ⟨array.sym, array.pureLin⟩ = .ok () :=
      LabelIndex.checkAvailable_eq_ok.2 ⟨free known, by simp [LabelIndex.hasLin, known]⟩
    exact ⟨_, _, lift_bind_of_ok available _⟩

theorem registerNumbered_meetsNoArray (array : RootArray) :
    (registerNumbered array).MeetsNoArray s :=
  .get_bind (.of_ok (register_succeeds fun _ => freeSym_free s array.sym))

/-- A boundary vector is found, or is new. -/
theorem wedgeVector_cases {f : FormId} {space : SpaceId} {id : ArrayId}
    (run : wedgeVector f space s = .ok id s') :
    s' = s ∨ s'.StandsFor id (.wedgeVector f space) := by
  simp only [wedgeVector, get_bind, bind_eq_ok, lift_eq_ok] at run
  obtain ⟨rows, _, ⟨-, rfl⟩, form, _, ⟨-, rfl⟩, run⟩ := run
  cases label : form.pureLin with
  | none => simp [label, lift_eq_ok] at run
  | some lin =>
    simp only [label, bind_eq_ok, lift_eq_ok] at run
    obtain ⟨sp, _, ⟨-, rfl⟩, run⟩ := run
    rcases register_cases run with ⟨-, same⟩ | ⟨-, rfl, rfl⟩
    · exact Or.inl same
    · exact Or.inr ⟨_, Arena.get?_push_nextId, rfl⟩

end RootArray

/-! ## Requests -/

/-- Requests the array that stands for something. -/
def ArrayKind.request : ArrayKind → Derive ArrayId
  | .vector f => RootArray.vector f
  | .massMatrix space => RootArray.massMatrix space
  | .incidenceMatrix space => RootArray.incidenceMatrix space
  | .wedgeVector f space => RootArray.wedgeVector f space

namespace Session

/-- No boundary vector of the requested form has another test space. Other requests are always
told apart. -/
def Distinguishes (s : Session) : ArrayKind → Prop
  | .wedgeVector f space => ∀ id other, s.StandsFor id (.wedgeVector f other) → other = space
  | _ => True

/-- The rows of what arrays stand for are labelled by the degrees of freedom of a space: that of
the form, that of the operator's target, or the test space. -/
def RowLabel (s : Session) (label : String) : ArrayKind → Prop
  | .vector f => ∃ form, s.forms.get? f = some form ∧ s.dofLabel form.space = .ok label
  | .massMatrix space => s.dofLabel space = .ok label
  | .incidenceMatrix space =>
    ∃ target, s.OperatorRule .derivative space target ∧ s.dofLabel target = .ok label
  | .wedgeVector _ space => s.dofLabel space = .ok label

theorem Represents.rowLabel {a : RootArray} (represents : s.Represents a) :
    s.RowLabel a.shape.rows a.kind := by
  obtain ⟨sym, pureLin, shape, kind⟩ := a
  cases kind with
  | vector f =>
    obtain ⟨form, lin, rows, found, -, labelled, -, rfl⟩ := represents
    exact ⟨form, found, labelled⟩
  | massMatrix space =>
    obtain ⟨sp, rows, -, labelled, -, rfl⟩ := represents
    exact labelled
  | incidenceMatrix space =>
    obtain ⟨sp, target, rows, cols, -, rule, -, labelled, -, rfl⟩ := represents
    exact ⟨target, rule, labelled⟩
  | wedgeVector f space =>
    obtain ⟨form, lin, sp, rows, -, -, -, labelled, -, rfl⟩ := represents
    exact labelled

/-- All boundary vectors of a form have its symbol. -/
theorem Sound.eq_of_wedgeVectors (sound : s.Sound) {id id' : ArrayId} {f : FormId}
    {space space' : SpaceId} (stands : s.StandsFor id (.wedgeVector f space))
    (stands' : s.StandsFor id' (.wedgeVector f space')) : id = id' ∧ space = space' := by
  obtain ⟨⟨sym, pureLin, shape, kind⟩, found, rfl⟩ := stands
  obtain ⟨⟨sym', pureLin', shape', kind'⟩, found', rfl⟩ := stands'
  obtain ⟨form, foundForm, -, named⟩ := sound.arraySymbols found
  obtain ⟨form', foundForm', -, named'⟩ := sound.arraySymbols found'
  cases foundForm.symm.trans foundForm'
  obtain rfl := sound.arrayLabels.eq_of_sym found found' (named.trans named'.symm)
  cases found.symm.trans found'
  exact ⟨rfl, rfl⟩

/-- A request under the default conventions registers or finds an array that stands for what was
requested, up to the test space of a boundary vector. -/
theorem Standard.request_spec (standard : s.Standard) {kind : ArrayKind} {id : ArrayId}
    (run : kind.request s = .ok id s') :
    s.Prepares s' ∧ (s'.StandsFor id kind ↔ s.Distinguishes kind) := by
  cases kind with
  | vector f =>
    obtain ⟨prepares, stands⟩ := standard.vector_spec run
    exact ⟨prepares, iff_of_true stands trivial⟩
  | massMatrix space =>
    obtain ⟨prepares, stands⟩ := standard.massMatrix_spec run
    exact ⟨prepares, iff_of_true stands trivial⟩
  | incidenceMatrix space =>
    obtain ⟨prepares, stands⟩ := standard.incidenceMatrix_spec run
    exact ⟨prepares, iff_of_true stands trivial⟩
  | wedgeVector f space =>
    obtain ⟨prepares, other, stands⟩ := standard.wedgeVector_spec run
    have sound := (prepares.standard standard).sound
    refine ⟨prepares, fun right id' space' known => ?_, fun distinguishes => ?_⟩
    · exact (sound.eq_of_wedgeVectors (prepares.steps.extends.standsFor known) right).2
    · rcases RootArray.wedgeVector_cases run with rfl | new
      · rwa [distinguishes id other stands] at stands
      · exact new

/-- An array meets no array that stands for something else. -/
theorem Sound.register_succeeds (sound : s.Sound) (default : s.settings = {})
    {array : RootArray} (represents : s.Represents array) (symbolizes : s.Symbolizes array)
    (depends : array.dependsOnForm = true) (distinguishes : s.Distinguishes array.kind) :
    ∃ id s', RootArray.register array s = .ok id s' := by
  refine RootArray.register_succeeds fun unknown => ?_
  by_contra taken
  rw [Bool.not_eq_false, LabelIndex.hasSym_iff, sound.arrayLabels.map_entries Labels.sym] at taken
  obtain ⟨a, member, same⟩ := List.mem_map.1 taken
  obtain ⟨i, found⟩ := List.mem_iff_getElem?.1 member
  have foundArray : s.arrays.get? ⟨i⟩ = some a := found
  have like := sound.like_of_sym symbolizes (sound.arraySymbols foundArray)
    (by rw [default]) depends same.symm
  -- The array stands for the same, so its linguistic label is known.
  have kinds : a.kind = array.kind := by
    cases kind : array.kind with
    | wedgeVector f space =>
      cases kind' : a.kind with
      | wedgeVector g other =>
        rw [kind, kind'] at like
        obtain rfl : f = g := like
        rw [kind] at distinguishes
        rw [distinguishes ⟨i⟩ other ⟨a, foundArray, kind'⟩]
      | _ => simp [kind, kind', ArrayKind.Like] at like
    | _ => simpa [kind, ArrayKind.Like, eq_comm] using like
  have lin := (sound.arrays foundArray).pureLin_eq represents kinds
  have known : s.arrayLabels.hasLin array.pureLin = true := by
    rw [LabelIndex.hasLin_iff, sound.arrayLabels.map_entries Labels.lin]
    exact List.mem_map.2 ⟨a, member, lin⟩
  simp [LabelIndex.hasLin, unknown] at known

/-- A root form of a finite space has a coefficient vector. -/
theorem Sound.vector_succeeds (sound : s.Sound) (default : s.settings = {}) {f : FormId}
    {form : Form} {rows : String} (found : s.forms.get? f = some form)
    (root : form.isRoot = true) (labelled : s.dofLabel form.space = .ok rows) :
    ∃ id s', RootArray.vector f s = .ok id s' := by
  obtain ⟨-, -, named⟩ := sound.forms found
  obtain ⟨lin, label⟩ := Option.isSome_iff_exists.1 (named.2 root)
  have fetched : s.form f = .ok form := Arena.fetch_eq_ok_iff.2 found
  rw [RootArray.vector, get_bind, lift_bind_of_ok fetched, label]
  dsimp only
  rw [lift_bind_of_ok labelled]
  exact sound.register_succeeds default ⟨form, lin, rows, found, label, labelled, rfl, rfl⟩
    ⟨form, found, by rw [label]; rfl, rfl⟩ rfl trivial

theorem Sound.request_meetsNoArray (sound : s.Sound) (default : s.settings = {})
    {kind : ArrayKind} (distinguishes : s.Distinguishes kind) : kind.request.MeetsNoArray s := by
  cases kind with
  | vector f =>
    refine .get_bind (.lift_bind (.fetch _ _) fun form found => ?_)
    cases label : form.pureLin with
    | none => exact .lift (by simp [Outcome.MeetsNoArray, reject, Failure.arrayConflict])
    | some lin =>
      have foundForm := Arena.fetch_eq_ok_iff.1 found
      exact .lift_bind (.dofLabel _ _) fun rows labelled => .of_ok (sound.register_succeeds default
        ⟨form, lin, rows, foundForm, label, labelled, rfl, rfl⟩
        ⟨form, foundForm, by rw [label]; rfl, rfl⟩ rfl trivial)
  | massMatrix space =>
    exact .get_bind (.lift_bind (.dofLabel _ _) fun _ _ => .lift_bind (.fetch _ _) fun _ _ =>
      RootArray.registerNumbered_meetsNoArray _)
  | incidenceMatrix space =>
    exact .bind (Space.derivative_meetsNoArray space) fun _ _ _ => .get_bind
      (.lift_bind (.dofLabel _ _) fun _ _ => .lift_bind (.dofLabel _ _) fun _ _ =>
        .lift_bind (.fetch _ _) fun _ _ => RootArray.registerNumbered_meetsNoArray _)
  | wedgeVector f space =>
    refine .get_bind (.lift_bind (.dofLabel _ _) fun rows labelled =>
      .lift_bind (.fetch _ _) fun form found => ?_)
    cases label : form.pureLin with
    | none => exact .lift (by simp [Outcome.MeetsNoArray, reject, Failure.arrayConflict])
    | some lin =>
      have foundForm := Arena.fetch_eq_ok_iff.1 found
      exact .lift_bind (.fetch _ _) fun sp foundSpace => .of_ok (sound.register_succeeds default
        ⟨form, lin, sp, rows, foundForm, label, Arena.fetch_eq_ok_iff.1 foundSpace, labelled, rfl,
          rfl⟩ ⟨form, foundForm, by rw [label]; rfl, rfl⟩ rfl distinguishes)

end Session

/-! ## What requests tell -/

namespace ArrayKind

/-- Root arrays are identified by what they stand for. A request that succeeds gives an array
that stands for exactly what was requested, with the rows of its space, and a later request
gives the same array exactly if it is the same request. No request fails for an array that was
registered before. All this is so unless the form has a boundary vector for another test
space. -/
theorem request_identifies (reachable : Session.Reachable {} s) (kind : ArrayKind) :
    (∀ id s', kind.request s = .ok id s' →
      (s.Distinguishes kind ↔ ∃ a, s'.arrays.get? id = some a ∧ a.kind = kind ∧
        s'.RowLabel a.shape.rows kind) ∧
      (s.Distinguishes kind → ∀ requests kind' id' s'',
        (s'.afterAll requests).Distinguishes kind' →
          kind'.request (s'.afterAll requests) = .ok id' s'' → (id' = id ↔ kind' = kind))) ∧
    (s.Distinguishes kind →
      ∀ label s', kind.request s ≠ .error (.rejected (.identityConflict .array label)) s') := by
  refine ⟨fun id s' run => ?_, fun distinguishes =>
    reachable.sound.request_meetsNoArray reachable.settings_eq distinguishes⟩
  obtain ⟨prepares, right⟩ := reachable.standard.request_spec run
  have standard := prepares.standard reachable.standard
  refine ⟨⟨fun distinguishes => ?_, fun given => ?_⟩,
    fun distinguishes requests kind' id' s'' distinguishes' run' => ?_⟩
  · obtain ⟨a, found, same⟩ := right.2 distinguishes
    exact ⟨a, found, same, same ▸ (standard.sound.arrays found).rowLabel⟩
  · obtain ⟨a, found, same, -⟩ := given
    exact right.1 ⟨a, found, same⟩
  · have steps := s'.afterAll_steps requests
    obtain ⟨prepares', right'⟩ := (standard.steps steps).request_spec run'
    have later : s'.Steps s'' := steps.trans prepares'.steps
    have stands : s''.StandsFor id kind := later.extends.standsFor (right.2 distinguishes)
    have stands' : s''.StandsFor id' kind' := right'.2 distinguishes'
    constructor
    · rintro rfl
      exact stands'.unique stands
    · rintro rfl
      exact (standard.steps later).sound.eq_of_standsFor_both stands' stands

/-- Beside a coefficient vector and a mass matrix, a boundary vector over an interval is none of
them, and stays apart from the coefficient vector. -/
theorem request_identifies_interval : ∃ (s s' : Session) (id : ArrayId),
    Session.Reachable {} s ∧ s.Distinguishes (.wedgeVector ⟨0⟩ ⟨0⟩) ∧
      (wedgeVector ⟨0⟩ ⟨0⟩).request s = .ok id s' ∧
      (∃ a, s'.arrays.get? id = some a ∧ a.kind = .wedgeVector ⟨0⟩ ⟨0⟩ ∧
        s'.dofLabel ⟨0⟩ = .ok a.shape.rows) ∧
      ∀ requests id' s'', (vector ⟨0⟩).request (s'.afterAll requests) = .ok id' s'' → id' ≠ id := by
  obtain ⟨s, reachable, kinds, evaluated⟩ : ∃ s, Session.Reachable {} s ∧
      s.arrays.entities.map RootArray.kind = [.vector ⟨0⟩, .massMatrix ⟨0⟩] ∧
      (match (wedgeVector ⟨0⟩ ⟨0⟩).request s with
        | .ok _ _ => true
        | .error _ _ => false) = true :=
    ⟨Request.performAll {} [.manifold 1, .mesh ⟨0⟩, .space ⟨0⟩ 0 .outer, .degrees 2,
      .root ⟨0⟩ ⟨"u", "u"⟩, .vector ⟨0⟩, .massMatrix ⟨0⟩], .performAll {} _, by decide +kernel⟩
  have distinguishes : s.Distinguishes (.wedgeVector ⟨0⟩ ⟨0⟩) := by
    intro id other stands
    have member := stands.mem
    simp [kinds] at member
  obtain ⟨each, -⟩ := request_identifies reachable (.wedgeVector ⟨0⟩ ⟨0⟩)
  cases run : (wedgeVector ⟨0⟩ ⟨0⟩).request s with
  | error failure s' => simp [run] at evaluated
  | ok id s' =>
    obtain ⟨right, apart⟩ := each id s' run
    refine ⟨s, s', id, reachable, distinguishes, run, right.1 distinguishes,
      fun requests id' s'' run' same => ?_⟩
    cases (apart distinguishes requests (.vector ⟨0⟩) id' s'' trivial run').1 same

/-- The labels of a boundary vector leave its test space open. With one of `u` for the space of
inner `0`-forms there, one for the outer `0`-forms of the same degree is answered with that one,
and one for the outer `1`-forms of another degree is rejected. -/
theorem request_confuses : ∃ (s s' : Session) (id : ArrayId), Session.Reachable {} s ∧
    (wedgeVector ⟨0⟩ ⟨1⟩).request s = .ok id s' ∧ s'.StandsFor id (.wedgeVector ⟨0⟩ ⟨0⟩) ∧
      ∃ label s'', (wedgeVector ⟨0⟩ ⟨2⟩).request s =
        .error (.rejected (.identityConflict .array label)) s'' := by
  obtain ⟨s, reachable, found, conflict⟩ : ∃ s, Session.Reachable {} s ∧
      (match (wedgeVector ⟨0⟩ ⟨1⟩).request s with
        | .ok id s' => decide (s'.StandsFor id (.wedgeVector ⟨0⟩ ⟨0⟩))
        | .error _ _ => false) = true ∧
      (match (wedgeVector ⟨0⟩ ⟨2⟩).request s with
        | .error (.rejected (.identityConflict .array _)) _ => true
        | _ => false) = true :=
    ⟨Request.performAll {} [.manifold 1, .mesh ⟨0⟩, .space ⟨0⟩ 0 .inner, .space ⟨0⟩ 0 .outer,
      .space ⟨0⟩ 1 .outer, .degree ⟨0⟩ 1, .degree ⟨1⟩ 1, .degree ⟨2⟩ 2, .root ⟨2⟩ ⟨"u", "u"⟩,
      .wedgeVector ⟨0⟩ ⟨0⟩], .performAll {} _, by decide +kernel⟩
  cases run : (wedgeVector ⟨0⟩ ⟨1⟩).request s with
  | error failure s' => simp [run] at found
  | ok id s' =>
    rw [run] at found
    refine ⟨s, s', id, reachable, run, of_decide_eq_true found, ?_⟩
    split at conflict
    · rename_i label s'' rejected
      exact ⟨label, s'', rejected⟩
    · cases conflict

end ArrayKind

end Variational
