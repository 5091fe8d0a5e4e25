import Variational.Proofs.Discretization.Preparation
import Variational.Proofs.Text.Numerals

/-!
# What a discretization starts from

The terms of a source are known by their positions, and an address of a source names
one of them. The ordinary differential equation of an equation of a well-formed weak
formulation has the terms and the test form of that equation. The current equations of
a discretization have the shape of the equations that it started from.
-/

namespace Variational

/-! ## Terms at positions -/

namespace Equation

variable {α β : Type} {e : Equation α} {f : Nat → Signed α → Signed β}

theorem get?_mapPositions (j : Nat) : (e.mapPositions f).get? j = (e.get? j).map (f j) := by
  rw [get?, get?, terms, terms, mapPositions, List.getElem?_append, List.getElem?_append,
    List.length_mapIdx]
  split
  · rw [List.getElem?_mapIdx]
  · rename_i beyond
    rw [List.getElem?_mapIdx, Nat.add_sub_cancel' (Nat.not_lt.1 beyond)]

/-- A list of which no member is changed. -/
theorem mapIdx_eq_self {l : List α} {f : Nat → α → α}
    (keeps : ∀ k x, l[k]? = some x → f k x = x) : l.mapIdx f = l := by
  refine List.mapIdx_eq_iff.2 fun k => ?_
  cases found : l[k]? with
  | none => rfl
  | some x => rw [Option.map_some, keeps k x found]

theorem size_mapPositions : (e.mapPositions f).size = e.size := by
  simp [size, mapPositions]

theorem mem_mapPositions {t' : Signed β} (member : t' ∈ (e.mapPositions f).terms) :
    ∃ j t, e.get? j = some t ∧ f j t = t' := by
  obtain ⟨j, standing⟩ := List.mem_iff_getElem?.1 member
  change (e.mapPositions f).get? j = some t' at standing
  rw [get?_mapPositions, Option.map_eq_some_iff] at standing
  obtain ⟨t, standing, same⟩ := standing
  exact ⟨j, t, standing, same⟩

end Equation

/-- The address of a term names it. -/
theorem Position.read_text (i j : UInt64) :
    Position.read (Position.text ⟨i.toNat, j.toNat⟩) = .ok ⟨i.toNat, j.toNat⟩ := by
  have absent := Text.not_mem_toDigits (by decide : '-'.isDigit = false)
  have spelled : (Position.text ⟨i.toNat, j.toNat⟩).toList =
      Nat.toDigits 10 i.toNat ++ '-' :: Nat.toDigits 10 j.toNat := by
    simp [Position.text, toString]
  have parts := Text.pieces_eq_pair_iff.2 ⟨spelled, absent _, absent _⟩
  simp only [Position.read, parts, Position.readNumber, Text.readIndex_toDigits]
  rfl

namespace WeakFormulation

theorem term_eq_ok {w : WeakFormulation} {address : String} {t : Signed Term} :
    w.term address = .ok t ↔ ∃ p e, Position.read address = .ok p ∧
      w.equations[p.equation]? = some e ∧ e.get? p.term = some t := by
  simp only [term, Outcome.bind_eq_ok]
  refine exists_congr fun p => ?_
  constructor
  · rintro ⟨read, run⟩
    cases known : w.equations[p.equation]? with
    | none => simp [known] at run
    | some e =>
      cases found : e.get? p.term with
      | none => simp [known, found] at run
      | some x =>
        simp only [known, found] at run
        exact ⟨e, read, rfl, by rw [found, Outcome.pure_eq_ok.1 run]⟩
  · rintro ⟨e, read, known, found⟩
    exact ⟨read, by simp only [known, found]; rfl⟩

variable {s : Session} {mesh : MeshId} {equations : List (Equation Term)} {testForms : List FormId}

/-- Equations that pass the check pass it in every later session. -/
theorem check_mono {s' : Session} (later : s.Extends s')
    (checked : check s equations testForms = .ok mesh) :
    check s' equations testForms = .ok mesh := by
  obtain ⟨nonempty, fits⟩ := check_eq_ok.1 checked
  exact check_eq_ok.2 ⟨nonempty, fits.imp fun e v fit => fit.mono later⟩

/-- An equation that passes the check fits the test form of its number. -/
theorem fits_of_check (checked : check s equations testForms = .ok mesh) {i : Nat}
    {e : Equation Term} (known : equations[i]? = some e) :
    ∃ v, testForms[i]? = some v ∧ EquationFits s mesh e v := by
  obtain ⟨-, fits⟩ := check_eq_ok.1 checked
  obtain ⟨held, rfl⟩ := List.getElem?_eq_some_iff.1 known
  have held' : i < testForms.length := fits.length_eq ▸ held
  exact ⟨testForms[i], List.getElem?_eq_getElem held', fits.get held held'⟩

/-- As many equations that fit the same test forms pass the check too. -/
theorem check_of_fits {equations' : List (Equation Term)}
    (checked : check s equations testForms = .ok mesh)
    (same : equations'.length = equations.length)
    (fits : ∀ (i : Nat) e v, equations'[i]? = some e → testForms[i]? = some v →
      EquationFits s mesh e v) :
    check s equations' testForms = .ok mesh := by
  obtain ⟨nonempty, old⟩ := check_eq_ok.1 checked
  have length := same.trans old.length_eq
  refine check_eq_ok.2 ⟨fun empty => nonempty ?_, List.forall₂_iff_get.2 ⟨length, ?_⟩⟩
  · rw [empty] at same
    exact List.length_eq_zero_iff.1 same.symm
  · intro i held held'
    exact fits i _ _ (List.getElem?_eq_getElem held) (List.getElem?_eq_getElem held')

end WeakFormulation

/-! ## Ordinary differential equations -/

namespace Ode

variable {s : Session} {o : Ode}

theorem get?_plainEquation (j : Nat) : o.plainEquation.get? j = (o.equation.get? j).map plain := by
  rw [Equation.get?, Equation.get?, Equation.terms, Equation.terms, plainEquation,
    ← List.map_append, List.getElem?_map]

theorem locate_eq_ok {address : String} {j : Nat} {t : Signed OdeTerm} :
    o.locate address = .ok (j, t) ↔
      Text.readIndex (Text.trim address.toList) = some j ∧ o.equation.get? j = some t := by
  rw [locate]
  cases Text.readIndex (Text.trim address.toList) with
  | none => simp
  | some position =>
    dsimp only
    cases found : o.equation.get? position with
    | none =>
      simp only [Outcome.reject_eq_ok, false_iff, not_and, Option.some.injEq]
      rintro rfl
      simp [found]
    | some x =>
      simp only [Except.ok.injEq, Prod.mk.injEq, Option.some.injEq]
      constructor
      · rintro ⟨rfl, rfl⟩
        exact ⟨rfl, found⟩
      · rintro ⟨rfl, found'⟩
        exact ⟨rfl, Option.some.inj (found.symm.trans found')⟩

theorem plain_of_classify {t : Signed Term} {x : Signed OdeTerm} (run : classify s t = .ok x) :
    plain x = t := by
  simp only [classify, Outcome.bind_eq_ok, Outcome.pure_eq_ok] at run
  obtain ⟨pattern, -, rfl⟩ := run
  rfl

theorem map_plain_of_classify {ts : List (Signed Term)} {xs : List (Signed OdeTerm)}
    (each : List.Forall₂ (fun t x => classify s t = .ok x) ts xs) : xs.map plain = ts := by
  induction each with
  | nil => rfl
  | cons first _ ih => rw [List.map_cons, plain_of_classify first, ih]

theorem commonTestForm_spec {terms : List Term} {v : FormId}
    (run : commonTestForm s terms = .ok v) :
    terms ≠ [] ∧ ∀ t ∈ terms, t.testForm? s = .ok (some v) := by
  rw [commonTestForm, Outcome.bind_eq_ok] at run
  obtain ⟨tested, each, run⟩ := run
  have each := Outcome.mapM_eq_ok.1 each
  split at run
  · rename_i u rest
    split at run
    · rename_i same
      cases Outcome.pure_eq_ok.1 run
      refine ⟨fun empty => by simp [empty] at each, fun t member => ?_⟩
      obtain ⟨r, member', run⟩ := exists_mem_of_forall₂ each.flip member
      rcases List.mem_cons.1 member' with rfl | other
      · exact run
      · rw [run, eq_of_beq (List.all_eq_true.1 same r other)]
    · simp at run
  · simp at run

/-- An ordinary differential equation keeps its terms, which have one test form. -/
theorem create_spec {left right : List (Signed Term)} (run : create s left right = .ok o) :
    o.plainEquation = ⟨left, right⟩ ∧ left ++ right ≠ [] ∧
      ∀ t ∈ left ++ right, s.testedForm? t.value.f2 = .ok (some o.testForm) := by
  simp only [create, Outcome.bind_eq_ok] at run
  obtain ⟨ls, classifiedLeft, rs, classifiedRight, us, -, run⟩ := run
  split at run
  · simp [Outcome.bind_eq_ok] at run
  rotate_left
  · simp [Outcome.bind_eq_ok] at run
  simp only [Outcome.bind_eq_ok, Outcome.pure_eq_ok] at run
  obtain ⟨about, -, v, common, elementary, -, rfl⟩ := run
  have sameLeft := map_plain_of_classify (Outcome.mapM_eq_ok.1 classifiedLeft)
  have sameRight := map_plain_of_classify (Outcome.mapM_eq_ok.1 classifiedRight)
  have same : (((⟨ls, rs⟩ : Equation OdeTerm).terms.map (·.value)).map (·.term)) =
      (left ++ right).map (·.value) := by
    rw [← sameLeft, ← sameRight, Equation.terms]
    simp [plain, Signed.map, Function.comp_def]
  rw [same] at common
  obtain ⟨nonempty, each⟩ := commonTestForm_spec common
  refine ⟨by rw [plainEquation, sameLeft, sameRight], by simpa using nonempty, fun t member => ?_⟩
  exact each t.value (List.mem_map_of_mem member)

end Ode

/-- The ordinary differential equation of an equation has its terms and its test form. -/
theorem WeakFormulation.WellFormed.ode_spec {s : Session} {w : WeakFormulation}
    (wellFormed : w.WellFormed s) {i : Nat} {o : Ode} (run : w.ode s i = .ok o) :
    w.equations[i]? = some o.plainEquation ∧ w.testForms[i]? = some o.testForm := by
  rw [WeakFormulation.ode] at run
  cases known : w.equations[i]? with
  | none => simp [known] at run
  | some e =>
    rw [known] at run
    obtain ⟨same, nonempty, tested⟩ := Ode.create_spec run
    obtain ⟨v, testForm, -, -, fits⟩ := wellFormed.equationFits known
    obtain ⟨t, member⟩ := List.exists_mem_of_ne_nil _ nonempty
    have own := (fits t member).1
    rw [tested t member] at own
    cases own
    exact ⟨congrArg some same.symm, testForm⟩

namespace DiscretizationSource

variable {source : DiscretizationSource}

/-- The term at a position before any edit. -/
def initial? (source : DiscretizationSource) (p : Position) : Option (Signed Term) :=
  source.equations[p.equation]?.bind fun e => e.get? p.term

theorem initial?_eq_some {p : Position} {t : Signed Term} : source.initial? p = some t ↔
    ∃ e, source.equations[p.equation]? = some e ∧ e.get? p.term = some t :=
  Option.bind_eq_some_iff

/-- An address names the position of a term. -/
theorem initial?_of_locate {address : String} {p : Position} {t : Signed Term}
    (located : source.locate address = .ok (p, t)) : source.initial? p = some t := by
  rw [initial?_eq_some]
  cases source with
  | ode o =>
    simp only [locate, Outcome.bind_eq_ok, Outcome.pure_eq_ok] at located
    obtain ⟨⟨j, x⟩, found, same⟩ := located
    cases same
    refine ⟨o.plainEquation, rfl, ?_⟩
    rw [Ode.get?_plainEquation, (Ode.locate_eq_ok.1 found).2]
    rfl
  | formulation w =>
    simp only [locate, Outcome.bind_eq_ok, Outcome.pure_eq_ok] at located
    obtain ⟨x, found, q, read, same⟩ := located
    cases same
    obtain ⟨q', e, read', known, standing⟩ := WeakFormulation.term_eq_ok.1 found
    cases read.symm.trans read'
    exact ⟨e, known, standing⟩

/-! ## Sources of a weak formulation -/

/-- The terms of a source are terms of the session. -/
def Created (source : DiscretizationSource) (s : Session) : Prop :=
  ∀ e ∈ source.equations, ∀ t ∈ e.terms,
    Term.create s t.value.kind t.value.f1 t.value.f2 = .ok t.value

/-- A discretization of a weak formulation starts from the formulation itself, or from the
ordinary differential equation of one of its equations. -/
def Discretizes (source : DiscretizationSource) (s : Session) (w : WeakFormulation) : Prop :=
  match source with
  | .formulation w' => w' = w
  | .ode o => ∃ i, w.ode s i = .ok o

variable {s : Session} {w : WeakFormulation}

theorem Created.of_initial? (created : source.Created s) {p : Position} {t : Signed Term}
    (initial : source.initial? p = some t) :
    Term.create s t.value.kind t.value.f1 t.value.f2 = .ok t.value := by
  obtain ⟨e, known, found⟩ := initial?_eq_some.1 initial
  exact created e (List.mem_of_getElem? known) t (List.mem_of_getElem? found)

/-- The equations of a source are equations of the formulation, with their test forms. -/
theorem Discretizes.getElem? (discretizes : source.Discretizes s w) (wellFormed : w.WellFormed s)
    {i : Nat} {e : Equation Term} (known : source.equations[i]? = some e) :
    ∃ (k : Nat) (v : FormId), w.equations[k]? = some e ∧ w.testForms[k]? = some v ∧
      source.testForms[i]? = some v := by
  cases source with
  | formulation w' =>
    cases discretizes
    obtain ⟨v, testForm, -⟩ := wellFormed.equationFits known
    exact ⟨i, v, known, testForm, testForm⟩
  | ode o =>
    obtain ⟨k, run⟩ := discretizes
    obtain ⟨held, testForm⟩ := wellFormed.ode_spec run
    obtain ⟨rfl, rfl⟩ : i = 0 ∧ o.plainEquation = e := by
      simpa [equations, List.getElem?_singleton] using known
    exact ⟨k, o.testForm, held, testForm, rfl⟩

/-- A source of a well-formed formulation passes the check of its terms and test forms. -/
theorem Discretizes.checked (discretizes : source.Discretizes s w) (wellFormed : w.WellFormed s) :
    WeakFormulation.check s source.equations source.testForms = .ok w.mesh := by
  cases source with
  | formulation w' =>
    cases discretizes
    exact wellFormed.checked
  | ode o =>
    obtain ⟨i, run⟩ := discretizes
    obtain ⟨known, testForm⟩ := wellFormed.ode_spec run
    obtain ⟨v, testForm', fits⟩ := wellFormed.equationFits known
    cases testForm.symm.trans testForm'
    exact WeakFormulation.check_eq_ok.2 ⟨List.cons_ne_nil _ _, .cons fits .nil⟩

theorem Discretizes.created (discretizes : source.Discretizes s w) (wellFormed : w.WellFormed s) :
    source.Created s := by
  cases source with
  | formulation w' =>
    cases discretizes
    exact wellFormed.created
  | ode o =>
    obtain ⟨i, run⟩ := discretizes
    intro e member
    cases List.mem_singleton.1 member
    exact wellFormed.created _ (List.mem_of_getElem? (wellFormed.ode_spec run).1)

/-! ## Current equations -/

theorem getElem?_currentEquations (plan : Plan) (i : Nat) : (source.currentEquations plan)[i]? =
    source.equations[i]?.map fun e => e.mapPositions fun j t => plan.current ⟨i, j⟩ t :=
  List.getElem?_mapIdx

theorem length_currentEquations (plan : Plan) :
    (source.currentEquations plan).length = source.equations.length :=
  List.length_mapIdx

end DiscretizationSource

end Variational
