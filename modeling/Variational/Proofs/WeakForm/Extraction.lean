import Variational.Proofs.Discretization.Sources
import Variational.Proofs.ElementaryForms

/-!
# Extracting ordinary differential equations

An equation of a well-formed weak formulation is an ordinary differential equation exactly if
its terms differentiate one root form in time. Its terms keep their positions, sides and signs,
and those that differentiate the form are marked. Otherwise the extraction is rejected for what
the terms differentiate, and never for their test forms.
-/

namespace Variational

variable {s : Session}

/-! ## Terms that differentiate a form -/

namespace Term

variable {t : Term} {u : FormId}

/-- A term is the inner product of the time derivative of a root form. -/
def Differentiates (s : Session) (t : Term) (u : FormId) : Prop :=
  t.kind = .innerProduct ∧ s.Reads t.f1 (.unary .timeDerivative u) ∧
    ∃ f, s.forms.get? u = some f ∧ f.isRoot = true

theorem Differentiates.unique {u' : FormId} (differentiates : t.Differentiates s u)
    (differentiates' : t.Differentiates s u') : u = u' := by
  cases differentiates.2.1.unique differentiates'.2.1
  rfl

theorem Differentiates.kind_expr {a : Form} (differentiates : t.Differentiates s u)
    (found : s.forms.get? t.f1 = some a) :
    t.kind = .innerProduct ∧ a.expr = .unary .timeDerivative u := by
  obtain ⟨kind, ⟨a', again, expr⟩, -⟩ := differentiates
  cases found.symm.trans again
  exact ⟨kind, expr⟩

/-- The forms that a form is built from are forms of the session. -/
theorem exists_operand {f g : FormId} {a : Form} (fetched : s.form f = .ok a)
    (member : g ∈ a.expr.operands) :
    ∃ b, s.forms.get? g = some b ∧ isRoot s g = .ok b.isRoot := by
  have found := Arena.fetch_eq_ok_iff.1 fetched
  have before := FormTable.operands_lt found member
  obtain ⟨held, -⟩ := List.getElem?_eq_some_iff.1 found
  have operand := List.getElem?_eq_getElem (Nat.lt_trans before held)
  exact ⟨_, operand, Outcome.bind_of_ok (Arena.fetch_eq_ok_iff.2 operand) _⟩

section Patterns

variable {a b : Form} (fetched : s.form t.f1 = .ok a) (fetched' : s.form t.f2 = .ok b)
include fetched fetched'

theorem pattern?_timeDerivative (kind : t.kind = .innerProduct)
    (expr : a.expr = .unary .timeDerivative u) : ∃ f, s.forms.get? u = some f ∧
      t.pattern? s = .ok (if f.isRoot then some .timeDerivative else none) := by
  obtain ⟨f, foundOperand, root⟩ :=
    exists_operand fetched (g := u) (by simp [expr, FormExpr.operands])
  refine ⟨f, foundOperand, ?_⟩
  rw [pattern?, Outcome.bind_of_ok fetched, Outcome.bind_of_ok fetched', kind]
  dsimp only
  rw [expr]
  dsimp only
  rw [Outcome.bind_of_ok root]
  cases f.isRoot <;> rfl

theorem pattern?_innerProduct (kind : t.kind = .innerProduct)
    (other : ∀ u, a.expr ≠ .unary .timeDerivative u) :
    ∃ p, t.pattern? s = .ok p ∧ p ≠ some .timeDerivative := by
  rw [pattern?, Outcome.bind_of_ok fetched, Outcome.bind_of_ok fetched', kind]
  dsimp only
  split
  · rename_i u expr
    exact absurd expr (other u)
  · exact ⟨_, rfl, by simp⟩
  · rename_i u expr
    obtain ⟨c, -, root⟩ := exists_operand fetched (g := u) (by simp [expr, FormExpr.operands])
    rw [Outcome.bind_of_ok root]
    split <;> exact ⟨_, rfl, by simp⟩
  · split
    · exact ⟨_, rfl, by simp⟩
    · split
      · exact ⟨_, rfl, by simp⟩
      · split
        · rename_i v expr
          obtain ⟨c, -, root⟩ :=
            exists_operand fetched' (g := v) (by simp [expr, FormExpr.operands])
          rw [Outcome.bind_of_ok root]
          split <;> exact ⟨_, rfl, by simp⟩
        · exact ⟨_, rfl, by simp⟩

theorem pattern?_dualityPairing (kind : t.kind = .dualityPairing) :
    ∃ p, t.pattern? s = .ok p ∧ p ≠ some .timeDerivative := by
  rw [pattern?, Outcome.bind_of_ok fetched, Outcome.bind_of_ok fetched', kind]
  dsimp only
  split
  · rename_i h v expr expr'
    obtain ⟨c, foundTraced, -⟩ :=
      exists_operand fetched (g := h) (by simp [expr, FormExpr.operands])
    obtain ⟨d, -, root⟩ := exists_operand fetched' (g := v) (by simp [expr', FormExpr.operands])
    have traced : s.form h = .ok c := Arena.fetch_eq_ok_iff.2 foundTraced
    rw [Outcome.bind_of_ok root]
    split
    · exact ⟨_, rfl, by simp⟩
    · rw [Outcome.bind_of_ok traced]
      split
      · rename_i u expr''
        obtain ⟨x, -, root⟩ :=
          exists_operand traced (g := u) (by simp [expr'', FormExpr.operands])
        rw [Outcome.bind_of_ok root]
        split <;> exact ⟨_, rfl, by simp⟩
      · exact ⟨_, rfl, by simp⟩
  · exact ⟨_, rfl, by simp⟩

/-- A term of the session has a pattern, which is that of a time derivative exactly if it
differentiates a root form. -/
theorem pattern?_spec : ∃ p, t.pattern? s = .ok p ∧
    (p = some .timeDerivative ↔ ∃ u, t.Differentiates s u) := by
  have found := Arena.fetch_eq_ok_iff.1 fetched
  by_cases derivative : t.kind = .innerProduct ∧ ∃ u, a.expr = .unary .timeDerivative u
  · obtain ⟨kind, u, expr⟩ := derivative
    obtain ⟨f, foundOperand, run⟩ := pattern?_timeDerivative fetched fetched' kind expr
    refine ⟨_, run, ?_⟩
    rw [ite_eq_left_iff]
    constructor
    · intro root
      have isRoot : f.isRoot = true := by
        by_contra unlike
        simpa using root unlike
      exact ⟨u, kind, ⟨a, found, expr⟩, f, foundOperand, isRoot⟩
    · rintro ⟨u', differentiates⟩ unlike
      cases expr.symm.trans (differentiates.kind_expr found).2
      obtain ⟨-, -, f', again, isRoot⟩ := differentiates
      cases foundOperand.symm.trans again
      exact absurd isRoot unlike
  · have run : ∃ p, t.pattern? s = .ok p ∧ p ≠ some .timeDerivative := by
      cases kind : t.kind with
      | innerProduct =>
        exact pattern?_innerProduct fetched fetched' kind fun u expr => derivative ⟨kind, u, expr⟩
      | dualityPairing => exact pattern?_dualityPairing fetched fetched' kind
    obtain ⟨p, run, differs⟩ := run
    refine ⟨p, run, fun same => absurd same differs, ?_⟩
    rintro ⟨u, differentiates⟩
    obtain ⟨kind, expr⟩ := differentiates.kind_expr found
    exact absurd ⟨kind, u, expr⟩ derivative

end Patterns

end Term

/-- A root form is differentiated in time by a term of an equation. -/
def Equation.Differentiates (s : Session) (e : Equation Term) (u : FormId) : Prop :=
  ∃ t ∈ e.terms, t.value.Differentiates s u

/-! ## Marked terms -/

namespace Ode

variable {o : Ode} {e : Equation Term} {t : Signed Term} {x : Signed OdeTerm} {v : FormId}

/-- A term is marked as a time derivative of first order exactly if it differentiates a root
form. -/
def Marks (s : Session) (t : Signed Term) (x : Signed OdeTerm) : Prop :=
  plain x = t ∧ ((∃ u, t.value.Differentiates s u) ∧
      x.value.derivative = some (1, .timeDerivative) ∨
    (¬ ∃ u, t.value.Differentiates s u) ∧ x.value.derivative = none)

theorem Marks.term (marks : Marks s t x) : x.value.term = t.value :=
  congrArg Signed.value marks.1

theorem Marks.isSome_iff (marks : Marks s t x) :
    x.value.derivative.isSome = true ↔ ∃ u, t.value.Differentiates s u := by
  rcases marks.2 with ⟨differentiates, derivative⟩ | ⟨none, derivative⟩
  · simp [derivative, differentiates]
  · simp [derivative, none]

theorem classify_spec (created : Term.create s t.value.kind t.value.f1 t.value.f2 = .ok t.value) :
    ∃ x, classify s t = .ok x ∧ Marks s t x := by
  obtain ⟨-, -, -, _, _, _, ⟨a, _, found, -⟩, ⟨b, _, found', -⟩, -⟩ := Term.create_spec created
  obtain ⟨p, run, marked⟩ :=
    Term.pattern?_spec (Arena.fetch_eq_ok_iff.2 found) (Arena.fetch_eq_ok_iff.2 found')
  refine ⟨_, Outcome.bind_of_ok run _, rfl, ?_⟩
  by_cases differentiates : ∃ u, t.value.Differentiates s u
  · refine Or.inl ⟨differentiates, ?_⟩
    rw [marked.2 differentiates]
    rfl
  · refine Or.inr ⟨differentiates, ?_⟩
    rw [← marked] at differentiates
    match p with
    | none => rfl
    | some .codifferential | some .rootRoot | some .derivativeRoot | some .rootDerivative
    | some .traceHodgeTrace => rfl
    | some .timeDerivative => exact absurd rfl differentiates

/-- What a marked term differentiates is found. -/
theorem differentiated?_spec (marks : Marks s t x) {a : Form}
    (found : s.forms.get? t.value.f1 = some a) :
    ∃ r, differentiated? s x.value = .ok r ∧
      ∀ u, r = some u ↔ t.value.Differentiates s u := by
  have fetched : s.form x.value.term.f1 = .ok a := by
    rw [marks.term]
    exact Arena.fetch_eq_ok_iff.2 found
  rcases marks.2 with ⟨⟨u, differentiates⟩, derivative⟩ | ⟨none, derivative⟩
  · obtain ⟨a', again, expr⟩ := differentiates.2.1
    cases found.symm.trans again
    refine ⟨some u, ?_, fun u' => ?_⟩
    · rw [differentiated?, derivative]
      refine (Outcome.bind_of_ok fetched _).trans ?_
      rw [expr]
      rfl
    · rw [Option.some.injEq]
      exact ⟨fun same => same ▸ differentiates, fun other => differentiates.unique other⟩
  · refine ⟨.none, by rw [differentiated?, derivative]; rfl, fun u => ?_⟩
    exact ⟨nofun, fun differentiates => absurd ⟨u, differentiates⟩ none⟩

/-- Terms with one test form have it in common. -/
theorem commonTestForm_of_tested {terms : List Term} (nonempty : terms ≠ [])
    (tested : ∀ t ∈ terms, t.testForm? s = .ok (some v)) : commonTestForm s terms = .ok v := by
  obtain ⟨first, rest, rfl⟩ := List.exists_cons_of_ne_nil nonempty
  have run : (first :: rest).mapM (fun t => t.testForm? s) =
      .ok ((first :: rest).map fun _ => some v) := by
    rw [Outcome.mapM_eq_ok, List.forall₂_map_right_iff, List.forall₂_same]
    exact tested
  rw [commonTestForm, Outcome.bind_of_ok run, List.map_cons]
  simp only
  rw [if_pos (by simp)]
  rfl

/-- The greatest of orders that are all one. -/
theorem foldl_max_of_ones {orders : List Nat} (nonempty : orders ≠ [])
    (ones : ∀ n ∈ orders, n = 1) : orders.foldl max 0 = 1 := by
  obtain ⟨first, rest, rfl⟩ := List.exists_cons_of_ne_nil nonempty
  obtain ⟨rfl, others⟩ := List.forall_mem_cons.1 ones
  rw [List.foldl_cons, List.eq_replicate_of_mem others]
  generalize rest.length = n
  induction n with
  | zero => rfl
  | succ n ih =>
    rw [List.replicate_succ, List.foldl_cons]
    exact ih

/-- The terms of both sides can be marked. -/
theorem exists_marked {side : List (Signed Term)} (created : ∀ t ∈ side,
    Term.create s t.value.kind t.value.f1 t.value.f2 = .ok t.value) :
    ∃ marked, side.mapM (classify s) = .ok marked ∧ List.Forall₂ (Marks s) side marked := by
  obtain ⟨marked, run⟩ := Outcome.mapM_total fun t member => (classify_spec (created t member)).imp
    fun _ classified => classified.1
  refine ⟨marked, run, List.forall₂_iff_get.2 ⟨(Outcome.mapM_eq_ok.1 run).length_eq, ?_⟩⟩
  intro i held held'
  obtain ⟨x, classified, marks⟩ := classify_spec (created _ (List.getElem_mem held))
  have same := (Outcome.mapM_eq_ok.1 run).get held held'
  cases classified.symm.trans same
  exact marks

/-- The forms that marked terms differentiate. -/
theorem exists_differentiated {terms : List (Signed Term)} {marked : List (Signed OdeTerm)}
    (created : ∀ t ∈ terms, Term.create s t.value.kind t.value.f1 t.value.f2 = .ok t.value)
    (marks : List.Forall₂ (Marks s) terms marked) :
    ∃ rs, (marked.map (·.value)).mapM (differentiated? s) = .ok rs ∧
      ∀ u, u ∈ IdSet.ofList (rs.filterMap id) ↔ ∃ t ∈ terms, t.value.Differentiates s u := by
  have each : ∀ {t x}, t ∈ terms → Marks s t x → ∃ r, differentiated? s x.value = .ok r ∧
      ∀ u, r = some u ↔ t.value.Differentiates s u := by
    intro t x member marks
    obtain ⟨-, -, -, _, _, _, ⟨a, _, found, -⟩, -⟩ := Term.create_spec (created t member)
    exact differentiated?_spec marks found
  obtain ⟨rs, run⟩ : ∃ rs, (marked.map (·.value)).mapM (differentiated? s) = .ok rs := by
    refine Outcome.mapM_total fun y member => ?_
    obtain ⟨x, listed, rfl⟩ := List.mem_map.1 member
    obtain ⟨t, held, mark⟩ := exists_mem_of_forall₂ marks listed
    exact (each held mark).imp fun _ found => found.1
  refine ⟨rs, run, fun u => ?_⟩
  have results := Outcome.mapM_eq_ok.1 run
  rw [List.forall₂_map_left_iff] at results
  rw [IdSet.mem_ofList, List.mem_filterMap]
  constructor
  · rintro ⟨r, listed, same⟩
    obtain ⟨x, member, given⟩ := exists_mem_of_forall₂ results listed
    obtain ⟨t, held, mark⟩ := exists_mem_of_forall₂ marks member
    obtain ⟨r', given', differentiates⟩ := each held mark
    cases given.symm.trans given'
    exact ⟨t, held, (differentiates u).1 same⟩
  · rintro ⟨t, held, differentiated⟩
    obtain ⟨x, member, mark⟩ := exists_mem_of_forall₂ marks.flip held
    obtain ⟨r, listed, given⟩ := exists_mem_of_forall₂ results.flip member
    obtain ⟨r', given', differentiates⟩ := each held mark
    cases given.symm.trans given'
    exact ⟨r, listed, (differentiates u).2 differentiated⟩

/-- Marking keeps the terms. -/
theorem terms_of_marks {terms : List (Signed Term)} {marked : List (Signed OdeTerm)}
    (marks : List.Forall₂ (Marks s) terms marked) :
    (marked.map (·.value)).map (·.term) = terms.map (·.value) := by
  rw [List.map_map, ← List.forall₂_eq_eq_eq, List.forall₂_map_left_iff, List.forall₂_map_right_iff]
  exact marks.flip.imp fun _ _ mark => Marks.term mark

/-- The elementary forms of marked terms. -/
theorem exists_elementary {terms : List (Signed Term)} {marked : List (Signed OdeTerm)}
    (created : ∀ t ∈ terms, Term.create s t.value.kind t.value.f1 t.value.f2 = .ok t.value)
    (marks : List.Forall₂ (Marks s) terms marked) :
    ∃ sets, (marked.map (·.value)).mapM (·.term.elementaryForms s) = .ok sets ∧
      ∀ r, r ∈ IdSet.unions sets ↔
        ∃ t ∈ terms, s.Elementary t.value.f1 r ∨ s.Elementary t.value.f2 r := by
  obtain ⟨sets, run⟩ := Outcome.mapM_total fun t member =>
    Term.elementaryForms_total (created t member)
  have whole : (marked.map (·.value)).mapM (·.term.elementaryForms s) = .ok sets := by
    have each : ((marked.map (·.value)).map (·.term)).mapM (·.elementaryForms s) = .ok sets := by
      rw [terms_of_marks marks, List.mapM_map]
      exact run
    rwa [List.mapM_map] at each
  refine ⟨sets, whole, fun r => ?_⟩
  have each := Outcome.mapM_eq_ok.1 run
  rw [IdSet.mem_unions]
  constructor
  · rintro ⟨set, listed, held⟩
    obtain ⟨t, member, ran⟩ := exists_mem_of_forall₂ each listed
    exact ⟨t, member, (Term.mem_elementaryForms ran).1 held⟩
  · rintro ⟨t, member, elementary⟩
    obtain ⟨set, listed, ran⟩ := exists_mem_of_forall₂ each.flip member
    exact ⟨set, listed, (Term.mem_elementaryForms ran).2 elementary⟩

/-- The orders of marked terms are those of first derivatives. -/
theorem order_of_marks {terms : List (Signed Term)} {marked : List (Signed OdeTerm)}
    (marks : List.Forall₂ (Marks s) terms marked)
    (differentiated : ∃ t ∈ terms, ∃ u, t.value.Differentiates s u) :
    ((marked.map (·.value)).filterMap fun t => t.derivative.map (·.1)).foldl max 0 = 1 := by
  refine foldl_max_of_ones ?_ fun n member => ?_
  · obtain ⟨t, held, u, differentiates⟩ := differentiated
    obtain ⟨x, member, mark⟩ := exists_mem_of_forall₂ marks.flip held
    rcases mark.2 with ⟨-, derivative⟩ | ⟨none, -⟩
    · exact List.ne_nil_of_mem (List.mem_filterMap.2
        ⟨x.value, List.mem_map_of_mem member, by rw [derivative]; rfl⟩)
    · exact absurd ⟨u, differentiates⟩ none
  · obtain ⟨y, listed, order⟩ := List.mem_filterMap.1 member
    obtain ⟨x, member, rfl⟩ := List.mem_map.1 listed
    obtain ⟨t, -, mark⟩ := exists_mem_of_forall₂ marks member
    rcases mark.2 with ⟨-, derivative⟩ | ⟨-, derivative⟩
    · rw [derivative] at order
      exact (Option.some.inj order).symm
    · rw [derivative] at order
      cases order

/-- How the terms of an equation are marked, and what they differentiate, decides what the
extraction gives. -/
theorem create_eq (created : ∀ t ∈ e.terms,
      Term.create s t.value.kind t.value.f1 t.value.f2 = .ok t.value)
    (nonempty : e.terms ≠ [])
    (tested : ∀ t ∈ e.terms, s.testedForm? t.value.f2 = .ok (some v)) :
    ∃ (left right : List (Signed OdeTerm)) (forms elementary : IdSet .form) (lins : List String),
      List.Forall₂ (Marks s) e.left left ∧ List.Forall₂ (Marks s) e.right right ∧
      (∀ u, u ∈ forms ↔ e.Differentiates s u) ∧
      (∀ r, r ∈ elementary ↔ ∃ t ∈ e.terms, s.Elementary t.value.f1 r ∨
        s.Elementary t.value.f2 r) ∧
      create s e.left e.right = match forms.ids with
        | [] => reject (.pattern .noTimeDerivative)
        | [u] => .ok ⟨⟨left, right⟩, elementary, IdSet.empty, u, 1, v⟩
        | _ => reject (.pattern (.severalDifferentiated lins)) := by
  obtain ⟨createdLeft, createdRight⟩ := List.forall_mem_append.1 created
  obtain ⟨left, markedLeft, marksLeft⟩ := exists_marked createdLeft
  obtain ⟨right, markedRight, marksRight⟩ := exists_marked createdRight
  have marks : List.Forall₂ (Marks s) e.terms (⟨left, right⟩ : Equation OdeTerm).terms :=
    List.rel_append marksLeft marksRight
  obtain ⟨rs, differentiated, forms⟩ := exists_differentiated created marks
  obtain ⟨sets, gathered, elementary⟩ := exists_elementary created marks
  have common : commonTestForm s
      (((⟨left, right⟩ : Equation OdeTerm).terms.map (·.value)).map (·.term)) = .ok v := by
    rw [terms_of_marks marks]
    refine commonTestForm_of_tested (by simpa using nonempty) fun t member => ?_
    obtain ⟨x, held, rfl⟩ := List.mem_map.1 member
    exact tested x held
  obtain ⟨named, found⟩ : ∃ named, (IdSet.ofList (rs.filterMap id)).ids.mapM s.form = .ok named :=
    Outcome.mapM_total fun u member => by
      obtain ⟨t, -, -, -, f, found, -⟩ := (forms u).1 (IdSet.mem_ids.1 member)
      exact ⟨f, Arena.fetch_eq_ok_iff.2 found⟩
  refine ⟨left, right, IdSet.ofList (rs.filterMap id), IdSet.unions sets, named.map (·.lin),
    marksLeft, marksRight, forms, elementary, ?_⟩
  rw [create, Outcome.bind_of_ok markedLeft, Outcome.bind_of_ok markedRight]
  dsimp only
  rw [Outcome.bind_of_ok differentiated]
  cases ids : (IdSet.ofList (rs.filterMap id)).ids with
  | nil => rfl
  | cons u others =>
    cases others with
    | nil =>
      have about : u ∈ IdSet.ofList (rs.filterMap id) := by
        rw [← IdSet.mem_ids, ids]
        exact List.mem_cons_self
      obtain ⟨t, held, differentiates⟩ := (forms u).1 about
      have order := order_of_marks marks ⟨t, held, u, differentiates⟩
      dsimp only
      rw [Outcome.bind_of_ok (Outcome.pure_eq_ok.2 rfl), Outcome.bind_of_ok common,
        Outcome.bind_of_ok gathered, order]
      rfl
    | cons u' rest =>
      rw [ids] at found
      dsimp only
      rw [Outcome.bind_of_ok found]
      rfl

end Ode

/-! ## Extracting -/

/-- A set has exactly one element exactly if it lists one. -/
theorem IdSet.existsUnique_mem_iff {kind : EntityKind} (set : IdSet kind) :
    (∃! id, id ∈ set) ↔ ∃ id, set.ids = [id] := by
  simp only [← IdSet.mem_ids]
  match ids : set.ids with
  | [] => simp
  | [id] => exact ⟨fun _ => ⟨id, rfl⟩, fun _ => ⟨id, List.mem_cons_self, by simp⟩⟩
  | first :: second :: rest =>
    refine ⟨?_, by simp⟩
    rintro ⟨id, -, only⟩
    have ascending := set.ascending
    rw [ids] at ascending
    have before := (List.pairwise_cons.1 ascending).1 second List.mem_cons_self
    rw [only first List.mem_cons_self, only second (by simp)] at before
    exact absurd before (Nat.lt_irrefl _)

namespace WeakFormulation

variable {w : WeakFormulation} {i : Nat} {e : Equation Term} {o : Ode}

/-- An ordinary differential equation has the terms of an equation of a formulation, in the same
places and under the same addresses, and marks those that differentiate the form that it is
about. -/
structure Extracts (w : WeakFormulation) (s : Session) (i : Nat) (e : Equation Term) (o : Ode) :
    Prop where
  about : ∀ u, e.Differentiates s u ↔ u = o.about
  order : o.order = 1
  testForm : w.testForms[i]? = some o.testForm
  elementary : ∀ r, r ∈ o.elementary ↔
    ∃ t ∈ e.terms, s.Elementary t.value.f1 r ∨ s.Elementary t.value.f2 r
  places : ∀ j, o.equation.locate j = e.locate j
  terms : ∀ j, (o.equation.get? j).map Ode.plain = e.get? j
  marks : ∀ j x, o.equation.get? j = some x →
    (x.value.derivative.isSome = true ↔ x.value.term.Differentiates s o.about)
  addresses : ∀ n m : UInt64, n.toNat = i → ∀ t,
    (∃ x, o.locate (toString m.toNat) = .ok (m.toNat, x) ∧ Ode.plain x = t) ↔
      w.term (Position.text ⟨i, m.toNat⟩) = .ok t

/-- What an equation of a well-formed formulation gives. -/
theorem WellFormed.ode_eq (wellFormed : w.WellFormed s) (known : w.equations[i]? = some e) :
    ∃ (left right : List (Signed OdeTerm)) (forms elementary : IdSet .form) (lins : List String)
      (v : FormId), w.testForms[i]? = some v ∧
      List.Forall₂ (Ode.Marks s) e.left left ∧ List.Forall₂ (Ode.Marks s) e.right right ∧
      (∀ u, u ∈ forms ↔ e.Differentiates s u) ∧
      (∀ r, r ∈ elementary ↔ ∃ t ∈ e.terms, s.Elementary t.value.f1 r ∨
        s.Elementary t.value.f2 r) ∧
      w.ode s i = match forms.ids with
        | [] => reject (.pattern .noTimeDerivative)
        | [u] => .ok ⟨⟨left, right⟩, elementary, IdSet.empty, u, 1, v⟩
        | _ => reject (.pattern (.severalDifferentiated lins)) := by
  obtain ⟨v, testForm, positive, -, fits⟩ := wellFormed.equationFits known
  have nonempty : e.terms ≠ [] := by
    refine List.ne_nil_of_length_pos ?_
    simpa [Equation.terms, Equation.size] using positive
  obtain ⟨left, right, forms, elementary, lins, marksLeft, marksRight, about, built, run⟩ :=
    Ode.create_eq (wellFormed.created e (List.mem_of_getElem? known)) nonempty
      fun t member => (fits t member).1
  refine ⟨left, right, forms, elementary, lins, v, testForm, marksLeft, marksRight, about, built,
    ?_⟩
  rw [ode, known]
  exact run

/-- What is extracted has the terms of the equation. -/
theorem WellFormed.ode_extracts (wellFormed : w.WellFormed s) (known : w.equations[i]? = some e)
    (run : w.ode s i = .ok o) : w.Extracts s i e o := by
  obtain ⟨left, right, forms, elementary, lins, v, testForm, marksLeft, marksRight, about, built,
    same⟩ := wellFormed.ode_eq known
  rw [run] at same
  match ids : forms.ids with
  | [] =>
    rw [ids] at same
    cases same
  | _ :: _ :: _ =>
    rw [ids] at same
    cases same
  | [u] =>
    rw [ids] at same
    cases same
    have only : ∀ u', e.Differentiates s u' ↔ u' = u := by
      intro u'
      rw [← about, ← IdSet.mem_ids, ids, List.mem_singleton]
    have plain := (wellFormed.ode_spec run).1
    cases known.symm.trans plain
    have terms := fun j => (Ode.get?_plainEquation
      (o := ⟨⟨left, right⟩, elementary, IdSet.empty, u, 1, v⟩) j).symm
    refine ⟨only, rfl, testForm, built, fun j => ?_, terms, fun j x standing => ?_,
      fun n m number t => ?_⟩
    · simp only [Equation.locate, Equation.size, marksLeft.length_eq, marksRight.length_eq]
      rfl
    · obtain ⟨t, held, mark⟩ := exists_mem_of_forall₂ (List.rel_append marksLeft marksRight)
        (List.mem_of_getElem? standing)
      rw [mark.isSome_iff, mark.term]
      refine ⟨?_, fun differentiates => ⟨u, differentiates⟩⟩
      rintro ⟨u', differentiates⟩
      cases (only u').1 ⟨t, held, differentiates⟩
      exact differentiates
    · subst number
      rw [term_eq_ok, Position.read_text]
      have read : Text.readIndex (Text.trim (toString m.toNat).toList) = some m.toNat := by
        simpa [toString] using Text.readIndex_toDigits m
      simp only [Ode.locate_eq_ok, read, true_and]
      constructor
      · rintro ⟨x, standing, rfl⟩
        exact ⟨_, _, rfl, known, (terms m.toNat).symm.trans (by rw [standing]; rfl)⟩
      · rintro ⟨p, e', same, known', standing⟩
        cases same
        cases known.symm.trans known'
        rw [← terms, Option.map_eq_some_iff] at standing
        exact standing

/-- Extracting an equation is rejected for its index exactly if there is no such equation.
Otherwise it succeeds exactly if the terms differentiate one root form in time, and is rejected for
its pattern if they do not, never for its test forms. What is extracted is about this form, with the
terms of the equation in their places. -/
theorem WellFormed.ode_exact (wellFormed : w.WellFormed s) (i : Nat) :
    ((∃ text reason, w.ode s i = reject (.index text reason)) ↔ w.equations[i]? = none) ∧
    (∀ cause, w.ode s i ≠ reject (.structural cause)) ∧
    ∀ e, w.equations[i]? = some e →
      ((∃ o, w.ode s i = .ok o) ↔ ∃! u, e.Differentiates s u) ∧
      ((¬ ∃! u, e.Differentiates s u) → ∃ cause, w.ode s i = reject (.pattern cause)) ∧
      ∀ o, w.ode s i = .ok o → w.Extracts s i e o := by
  cases known : w.equations[i]? with
  | none =>
    have run : w.ode s i = reject (.index (toString i) (.equationCount w.equations.length)) := by
      rw [ode, known]
    refine ⟨⟨fun _ => rfl, fun _ => ⟨_, _, run⟩⟩, fun cause same => ?_, by simp⟩
    cases run.symm.trans same
  | some e =>
    obtain ⟨left, right, forms, elementary, lins, v, -, -, -, about, -, run⟩ :=
      wellFormed.ode_eq known
    have unique : (∃! u, e.Differentiates s u) ↔ ∃ u, forms.ids = [u] := by
      rw [← forms.existsUnique_mem_iff]
      simp only [about]
    have extracts := fun o => wellFormed.ode_extracts (o := o) known
    have outcome : (∃ u o, forms.ids = [u] ∧ w.ode s i = .ok o) ∨
        (∃ cause, (∀ u, forms.ids ≠ [u]) ∧ w.ode s i = reject (.pattern cause)) := by
      cases ids : forms.ids with
      | nil =>
        rw [ids] at run
        exact Or.inr ⟨_, by simp, run⟩
      | cons u others =>
        rw [ids] at run
        cases others with
        | nil => exact Or.inl ⟨u, _, rfl, run⟩
        | cons => exact Or.inr ⟨_, by simp, run⟩
    rcases outcome with ⟨u, o, single, ran⟩ | ⟨cause, several, ran⟩
    · refine ⟨⟨?_, by simp⟩, fun cause same => ?_, ?_⟩
      · rintro ⟨_, _, same⟩
        cases ran.symm.trans same
      · cases ran.symm.trans same
      · rintro _ ⟨⟩
        exact ⟨⟨fun _ => unique.2 ⟨u, single⟩, fun _ => ⟨o, ran⟩⟩,
          fun none => absurd (unique.2 ⟨u, single⟩) none, extracts⟩
    · refine ⟨⟨?_, by simp⟩, fun cause' same => ?_, ?_⟩
      · rintro ⟨_, _, same⟩
        cases ran.symm.trans same
      · cases ran.symm.trans same
      · rintro _ ⟨⟩
        refine ⟨⟨?_, fun one => ?_⟩, fun _ => ⟨cause, ran⟩, extracts⟩
        · rintro ⟨_, same⟩
          cases ran.symm.trans same
        · obtain ⟨u, single⟩ := unique.1 one
          exact absurd single (several u)

/-- The equation `(∂t u, v) = (u, v)` is extracted. The equation `(u, v) = 0` is not, and there is
no other one. -/
theorem WellFormed.ode_exact_decay : ∃ s w, WellFormed w s ∧ w.equations.length = 2 ∧
    (∃ e o, w.equations[0]? = some e ∧ w.ode s 0 = .ok o ∧ w.Extracts s 0 e o ∧
      o.about = ⟨0⟩) ∧
    (∃ cause, w.ode s 1 = reject (.pattern cause)) ∧
    ∃ text reason, w.ode s 2 = reject (.index text reason) := by
  obtain ⟨s, reachable, livesU, livesV, livesDerivative, derivative, root, other, tested⟩ :
      ∃ s, Session.Reachable {} s ∧ s.Lives ⟨0⟩ ⟨0⟩ 1 ∧ s.Lives ⟨1⟩ ⟨0⟩ 1 ∧
        s.Lives ⟨2⟩ ⟨0⟩ 1 ∧
        (s.forms.get? ⟨2⟩).map (·.expr) = some (.unary .timeDerivative ⟨0⟩) ∧
        (s.forms.get? ⟨0⟩).map (·.isRoot) = some true ∧
        (s.forms.get? ⟨0⟩).map (·.expr.operands) = some [] ∧
        s.testedForm? ⟨1⟩ = .ok (some ⟨1⟩) :=
    ⟨Request.performAll {} [.manifold 1, .mesh ⟨0⟩, .space ⟨0⟩ 1 .outer, .root ⟨0⟩ ⟨"u", "u"⟩,
      .root ⟨0⟩ ⟨"v", "v"⟩, .operator .timeDerivative ⟨0⟩], .performAll {} _, by decide +kernel⟩
  obtain ⟨m, foundMesh⟩ := reachable.sound.exists_mesh livesU
  obtain ⟨a, createdA, meshA⟩ :=
    Term.create_succeeds .innerProduct livesDerivative livesV foundMesh rfl
  obtain ⟨b, createdB, meshB⟩ := Term.create_succeeds .innerProduct livesU livesV foundMesh rfl
  obtain ⟨kindA, firstA, secondA, -⟩ := Term.create_spec createdA
  obtain ⟨kindB, firstB, secondB, -⟩ := Term.create_spec createdB
  obtain ⟨fu, foundU, rootU⟩ := Option.map_eq_some_iff.1 root
  have differentiates : a.Differentiates s ⟨0⟩ :=
    ⟨kindA, by rw [firstA]; exact Option.map_eq_some_iff.1 derivative, fu, foundU, rootU⟩
  have undifferentiated : ∀ u, ¬ b.Differentiates s u := by
    rintro u ⟨-, ⟨f, found, expr⟩, -⟩
    rw [firstB] at found
    rw [found, Option.map_some, expr] at other
    cases other
  have fits : ∀ t ∈ [a, b], TermFits s ⟨0⟩ ⟨1⟩ t := by
    simp only [List.forall_mem_cons]
    exact ⟨⟨by rw [secondA]; exact tested, Or.inl meshA⟩,
      ⟨by rw [secondB]; exact tested, Or.inl meshB⟩, nofun⟩
  let e : Equation Term := ⟨[⟨.plus, a⟩], [⟨.plus, b⟩]⟩
  let e' : Equation Term := ⟨[⟨.plus, b⟩], []⟩
  have passes : check s [e, e'] [⟨1⟩, ⟨1⟩] = .ok ⟨0⟩ := by
    refine check_eq_ok.2 ⟨by simp, .cons ⟨by simp [e, Equation.size], ⟨1, livesV⟩, ?_⟩
      (.cons ⟨by simp [e', Equation.size], ⟨1, livesV⟩, ?_⟩ .nil)⟩
    · simpa [e, Equation.terms] using fits
    · simpa [e', Equation.terms] using fits b (by simp)
  have wellFormed : WellFormed ⟨⟨0⟩, [e, e'], [⟨1⟩, ⟨1⟩], none⟩ s := by
    refine ⟨passes, ?_⟩
    simp [e, e', Equation.terms, kindA, firstA, secondA, kindB, firstB, secondB, createdA, createdB]
  have about : e.Differentiates s ⟨0⟩ := ⟨⟨.plus, a⟩, by simp [e, Equation.terms], differentiates⟩
  have one : ∃! u, e.Differentiates s u := by
    refine ⟨⟨0⟩, about, ?_⟩
    rintro u ⟨t, member, differentiated⟩
    simp only [e, Equation.terms, List.cons_append, List.nil_append, List.mem_pair] at member
    rcases member with rfl | rfl
    · exact differentiated.unique differentiates
    · exact absurd differentiated (undifferentiated u)
  have none : ¬ ∃! u, e'.Differentiates s u := by
    rintro ⟨u, ⟨t, member, differentiated⟩, -⟩
    simp only [e', Equation.terms, List.append_nil, List.mem_singleton] at member
    cases member
    exact undifferentiated u differentiated
  obtain ⟨o, run⟩ := ((wellFormed.ode_exact 0).2.2 e rfl).1.2 one
  have extracts := ((wellFormed.ode_exact 0).2.2 e rfl).2.2 o run
  exact ⟨s, _, wellFormed, rfl,
    ⟨e, o, rfl, run, extracts, ((extracts.about ⟨0⟩).1 about).symm⟩,
    ((wellFormed.ode_exact 1).2.2 e' rfl).2.1 none, (wellFormed.ode_exact 2).1.2 rfl⟩

end WeakFormulation

end Variational
