import Mathlib.Data.List.Nodup
import Variational.Proofs.Answers
import Variational.Proofs.Conversion.Frame
import Variational.Proofs.Conversion.Runs
import Variational.Proofs.Discretization.Sources
import Variational.Proofs.ElementaryForms

/-!
# Algebraic systems of weak formulations

The algebraic system of a weak formulation has an entry for every term, at the position of
the term and with its sign: the product that the term is converted into, which is linear, or
the term itself, of which a warning is left behind. So an address names an entry if and only
if it names a term.
-/

namespace Variational

open Derive

variable {s s' : Session}

/-! ## Linear products -/

/-- Whether a link makes a product depend on a form. -/
def LinkKind.dependsOnForm (item : LinkKind) : Bool :=
  !item.transposed && match item.kind with
    | .vector _ | .wedgeVector _ _ => true
    | _ => false

/-- A product is linear if at most one of its links makes it depend on a form. -/
theorem Product.isLinear_of_links {p : Product} {kinds : List LinkKind}
    (links : p.chain.Forall₂ s.IsLink kinds) :
    p.isLinear s = .ok (decide (kinds.countP LinkKind.dependsOnForm ≤ 1)) := by
  let depends (link : Link) : Bool := (s.arrays.get? link.array).any RootArray.dependsOnForm
  have found {link : Link} {item : LinkKind} (isLink : s.IsLink link item) :
      ∃ a, s.array link.array = .ok a ∧ depends link = a.dependsOnForm ∧
        (!link.transposed && a.dependsOnForm) = item.dependsOnForm := by
    obtain ⟨a, known, same, transposed, -⟩ := isLink.array
    refine ⟨a, Arena.fetch_eq_ok_iff.2 known, by simp [depends, known], ?_⟩
    obtain ⟨kind, flag⟩ := item
    obtain rfl : a.kind = kind := same
    obtain rfl : link.transposed = flag := transposed
    rfl
  have count : (p.chain.filter fun link => !link.transposed && depends link).length =
      kinds.countP LinkKind.dependsOnForm := by
    rw [← List.countP_eq_length_filter]
    generalize p.chain = chain at links
    induction links with
    | nil => rfl
    | cons first _ ih =>
      obtain ⟨a, -, same, agrees⟩ := found first
      rw [List.countP_cons, List.countP_cons, ih, same, agrees]
  rw [isLinear, Outcome.bind_of_ok (Outcome.filterM_of_ok (g := depends) fun link member => ?_),
    List.filter_filter]
  · simp only [Bool.and_comm, count]
    rfl
  · obtain ⟨item, -, isLink⟩ := exists_mem_of_forall₂ links.flip (List.mem_filter.1 member).1
    obtain ⟨a, known, same, -⟩ := found isLink
    rw [known, same]
    rfl

/-- One form stands behind the test form of a represented term. -/
theorem Term.Represented.countP_eq_one {t : Term} {v : FormId} {c : ScalarId}
    {kinds : List LinkKind} (represented : Term.Represented s s' t v c kinds) :
    kinds.countP LinkKind.dependsOnForm = 1 := by
  cases represented with
  | innerProduct _ test _ form =>
    rw [List.countP_append]
    generalize t.f2 = f2 at test
    cases test <;> cases form <;> rfl
  | dualityPairing => rfl

/-! ## Entries -/

/-- Whether an entry keeps its term as it is. -/
def AlgebraicEntry.isSymbolic (entry : AlgebraicEntry) : Bool :=
  match entry.term with
  | .product _ => false
  | .symbolic _ => true

namespace AlgebraicSystem

/-- The entries of all equations, in their order. -/
def entries (a : AlgebraicSystem) : List (Signed AlgebraicEntry) :=
  a.equations.flatMap Equation.terms

/-- What is made of a signed term, which is tested with the form `v`, between two sessions: the
entry of the product that it is converted into, or of the term itself. -/
inductive MadeFrom (s s' : Session) (v : FormId) (position : Position) (t : Signed Term) :
    Signed AlgebraicEntry → Prop
  | product {before after : Session} {p : Product} (earlier : s.Steps before)
    (run : t.value.convert v before = .ok (.converted ⟨.plus, p⟩) after)
    (later : after.Steps s') :
    MadeFrom s s' v position t ⟨t.sign, position, .product p, .linear⟩
  | symbolic {before after : Session} {reason : Unconvertible} (earlier : s.Steps before)
    (run : t.value.convert v before = .ok (.unsupported reason) after)
    (later : after.Steps s') :
    MadeFrom s s' v position t ⟨t.sign, position, .symbolic t.value, .unknown⟩

/-- A warning tells why the term of an entry was kept, between two sessions. -/
def WarnsOf (s s' : Session) (entry : Signed AlgebraicEntry) (warning : Warning) : Prop :=
  ∃ t v before after reason, entry.value.term = .symbolic t ∧ s.Steps before ∧
    t.convert v before = .ok (.unsupported reason) after ∧ after.Steps s' ∧
    warning = .keptVerbatim entry.value.position.text reason.text

/-- Between two sessions, a warning was left behind for each symbolic entry, in their order, and
no form was recorded. -/
structure Warned (s s' : Session) (entries : List (Signed AlgebraicEntry)) : Prop where
  steps : s.Steps s'
  forms : s'.forms = s.forms
  warnings : ∃ new, s'.warnings = s.warnings ++ new ∧
    List.Forall₂ (WarnsOf s s') (entries.filter fun entry => entry.value.isSymbolic) new

variable {v : FormId} {position : Position} {t : Signed Term} {entry : Signed AlgebraicEntry}
  {base last mid : Session}

theorem MadeFrom.within (made : MadeFrom s s' v position t entry) (before : base.Steps s)
    (after : s'.Steps last) : MadeFrom base last v position t entry := by
  cases made with
  | product earlier run later => exact .product (before.trans earlier) run (later.trans after)
  | symbolic earlier run later => exact .symbolic (before.trans earlier) run (later.trans after)

theorem WarnsOf.within {warning : Warning} (warns : WarnsOf s s' entry warning)
    (before : base.Steps s) (after : s'.Steps last) : WarnsOf base last entry warning := by
  obtain ⟨t, v, first, second, reason, kept, earlier, run, later, same⟩ := warns
  exact ⟨t, v, first, second, reason, kept, before.trans earlier, run, later.trans after, same⟩

namespace Warned

theorem refl (s : Session) : Warned s s [] :=
  ⟨.refl, rfl, [], (List.append_nil _).symm, .nil⟩

theorem trans {first second : List (Signed AlgebraicEntry)} (warned : Warned s mid first)
    (warned' : Warned mid s' second) : Warned s s' (first ++ second) := by
  obtain ⟨steps, forms, new, added, each⟩ := warned
  obtain ⟨steps', forms', new', added', each'⟩ := warned'
  refine ⟨steps.trans steps', forms'.trans forms, new ++ new', ?_, ?_⟩
  · rw [added', added, List.append_assoc]
  · rw [List.filter_append]
    exact List.rel_append (each.imp fun _ _ warns => warns.within .refl steps')
      (each'.imp fun _ _ warns => warns.within steps .refl)

/-- Recording spaces, scalars and arrays leaves no warning. -/
theorem of_equipped (steps : s.Steps s') (equipped : s.Equipped s') : Warned s s' [] :=
  ⟨steps, equipped.forms_eq, [], by rw [equipped.warnings_eq, List.append_nil], .nil⟩

theorem standard {entries : List (Signed AlgebraicEntry)} (warned : Warned s s' entries)
    (standard : s.Standard) : s'.Standard :=
  standard.steps warned.steps

/-- The warnings of calls follow each other. -/
theorem mapM {α β : Type} {f : α → Derive β} (listed : β → List (Signed AlgebraicEntry))
    {xs : List α} {ys : List β} (standard : s.Standard)
    (each : ∀ {x y mid last}, mid.Standard → f x mid = .ok y last → Warned mid last (listed y))
    (run : xs.mapM f s = .ok ys s') : Warned s s' (ys.flatMap listed) := by
  induction xs generalizing s ys with
  | nil =>
    obtain ⟨rfl, rfl⟩ := pure_eq_ok.1 run
    exact .refl s
  | cons x xs ih =>
    simp only [List.mapM_cons, bind_eq_ok, pure_eq_ok] at run
    obtain ⟨y, mid, first, ys, last, rest, rfl, rfl⟩ := run
    have warned := each standard first
    exact warned.trans (ih (warned.standard standard) rest)

end Warned

/-! ## Converting terms -/

theorem convertTerm_spec (standard : s.Standard)
    (run : convertTerm v position t s = .ok entry s') :
    MadeFrom s s' v position t entry ∧ Warned s s' [entry] := by
  simp only [convertTerm, bind_eq_ok] at run
  obtain ⟨conversion, mid, converted, run⟩ := run
  obtain ⟨prepares, follows⟩ := Term.convert_spec standard converted
  have quiet := Warned.of_equipped prepares.steps
    ((Term.convert_equips t.value v).equipped converted)
  cases conversion with
  | converted p =>
    obtain ⟨⟨factor, chain⟩, sign⟩ : ∃ q, p = ⟨.plus, q⟩ := ⟨p.value, by
      rw [← follows.1]⟩
    subst sign
    obtain ⟨-, -, kinds, represented, links⟩ := follows
    have linear := Product.isLinear_of_links links
    rw [represented.countP_eq_one] at linear
    simp only [bind_eq_ok, get_eq_ok, lift_eq_ok, pure_eq_ok] at run
    obtain ⟨_, _, ⟨rfl, rfl⟩, answer, _, ⟨asked, rfl⟩, rfl, rfl⟩ := run
    cases linear.symm.trans asked
    exact ⟨.product .refl converted .refl, quiet.steps, quiet.forms, quiet.warnings⟩
  | unsupported reason =>
    simp only [bind_eq_ok, pure_eq_ok] at run
    obtain ⟨_, _, warned, rfl, rfl⟩ := run
    obtain ⟨-, rfl⟩ := EStateM.Result.ok.inj warned
    have step : mid.Steps { mid with warnings := mid.warnings ++
        [.keptVerbatim position.text reason.text] } := .single (.warning _)
    have same : mid.warnings = s.warnings :=
      ((Term.convert_equips t.value v).equipped converted).warnings_eq
    refine ⟨.symbolic .refl converted step, prepares.steps.trans step, prepares.forms,
      [.keptVerbatim position.text reason.text], by rw [← same], ?_⟩
    exact .cons ⟨t.value, v, s, mid, reason, rfl, .refl, converted, step, rfl⟩ .nil

/-- An equation of entries has the terms of an equation at their positions. -/
structure EquationMade (s s' : Session) (v : FormId) (i : Nat) (e : Equation Term)
    (converted : Equation AlgebraicEntry) : Prop where
  left : converted.left.length = e.left.length
  right : converted.right.length = e.right.length
  each : ∀ {j t}, e.get? j = some t →
    ∃ entry, converted.get? j = some entry ∧ MadeFrom s s' v ⟨i, j⟩ t entry

theorem EquationMade.within {i : Nat} {e : Equation Term} {converted : Equation AlgebraicEntry}
    (made : EquationMade s s' v i e converted) (before : base.Steps s) (after : s'.Steps last) :
    EquationMade base last v i e converted where
  left := made.left
  right := made.right
  each standing := by
    obtain ⟨entry, found, made⟩ := made.each standing
    exact ⟨entry, found, made.within before after⟩

/-- The terms of one side are converted one by one. -/
theorem convertTerms_spec (standard : s.Standard) (place : Nat → Position)
    {terms : List (Signed Term)} {entries : List (Signed AlgebraicEntry)}
    (run : (terms.zipIdx.mapM fun x => convertTerm v (place x.2) x.1) s = .ok entries s') :
    entries.length = terms.length ∧ (∀ j t, terms[j]? = some t →
      ∃ entry, entries[j]? = some entry ∧ MadeFrom s s' v (place j) t entry) ∧
      Warned s s' entries := by
  have made := mapM_forall₂
    (P := fun last (x : Signed Term × Nat) entry => MadeFrom s last v (place x.2) x.1 entry)
    (fun _ _ => convertTerm_grows _ _ _) (fun steps given => given.within .refl steps)
    (fun steps run => (convertTerm_spec (standard.steps steps) run).1.within steps .refl) run
  have warned := Warned.mapM (fun entry => [entry]) standard
    (fun standard run => (convertTerm_spec standard run).2) run
  have lengths : terms.length = entries.length := by simpa using made.length_eq
  refine ⟨lengths.symm, fun j t standing => ?_, by simpa using warned⟩
  obtain ⟨held, rfl⟩ := List.getElem?_eq_some_iff.1 standing
  have given := made.get (by simpa using held) (lengths ▸ held)
  exact ⟨_, List.getElem?_eq_getElem (lengths ▸ held), by simpa using given⟩

theorem convertEquation_spec (standard : s.Standard) {i : Nat} {e : Equation Term}
    {converted : Equation AlgebraicEntry} (run : convertEquation i e v s = .ok converted s') :
    EquationMade s s' v i e converted ∧ Warned s s' converted.terms := by
  simp only [convertEquation, bind_eq_ok, pure_eq_ok] at run
  obtain ⟨left, mid, runLeft, right, last, runRight, rfl, rfl⟩ := run
  obtain ⟨length, made, warned⟩ := convertTerms_spec standard (fun j => ⟨i, j⟩) runLeft
  obtain ⟨length', made', warned'⟩ :=
    convertTerms_spec (warned.standard standard) (fun j => ⟨i, e.left.length + j⟩) runRight
  refine ⟨⟨length, length', @fun j t standing => ?_⟩, warned.trans warned'⟩
  rw [Equation.get?, Equation.terms] at standing ⊢
  rw [List.getElem?_append] at standing ⊢
  simp only [length]
  split at standing
  · rename_i onLeft
    rw [if_pos onLeft]
    obtain ⟨entry, found, given⟩ := made j t standing
    exact ⟨entry, found, given.within .refl warned'.steps⟩
  · rename_i onRight
    rw [if_neg onRight]
    obtain ⟨entry, found, given⟩ := made' _ t standing
    rw [Nat.add_sub_cancel' (Nat.not_lt.1 onRight)] at given
    exact ⟨entry, found, given.within warned.steps .refl⟩

/-! ## Vectors -/

/-- The vectors of forms, which are the answers to the same requests from then on. -/
theorem vectors_spec (standard : s.Standard) {fs : List FormId} {ids : List ArrayId}
    (run : fs.mapM RootArray.vector s = .ok ids s') :
    Warned s s' [] ∧ ∀ last, s'.Steps last → List.Forall₂ (fun f id =>
      RootArray.vector f last = .ok id last ∧ last.StandsFor id (.vector f)) fs ids := by
  have steps := (Grows.mapM (fun f _ => RootArray.vector_grows f) fs s).steps run
  have equipped := (Equips.mapM (fun f _ => RootArray.vector_equips f) fs s).equipped run
  have settled := mapM_forall₂ (P := fun last f id => (RootArray.vector f).Settled id last ∧
      last.StandsFor id (.vector f))
    (fun f _ => RootArray.vector_grows f)
    (fun steps given =>
      ⟨fun last later => given.1 last (steps.trans later), steps.extends.standsFor given.2⟩)
    (fun before run =>
      ⟨RootArray.vector_settled run, ((standard.steps before).vector_spec run).2⟩) run
  exact ⟨.of_equipped steps equipped, fun last later => settled.imp fun f id given =>
    ⟨given.1 last later, later.extends.standsFor given.2⟩⟩

/-- Different forms have different vectors. -/
theorem nodup_vectors {fs : List FormId} {ids : List ArrayId} (distinct : fs.Nodup)
    (each : List.Forall₂ (fun f id =>
      RootArray.vector f s = .ok id s ∧ s.StandsFor id (.vector f)) fs ids) : ids.Nodup := by
  refine (List.rel_nodup ⟨fun f id g first second => ?_, fun f id id' first second => ?_⟩ each).1
    distinct
  · cases first.2.unique second.2
    rfl
  · cases first.1.symm.trans second.1
    rfl

theorem withoutRepetition_of_nodup {α : Type} [DecidableEq α] {xs : List α} (distinct : xs.Nodup) :
    withoutRepetition xs = xs := by
  rw [withoutRepetition]
  induction xs using List.reverseRecOn with
  | nil => rfl
  | append_singleton xs x ih =>
    obtain ⟨rest, -, apart⟩ := List.nodup_append.1 distinct
    rw [List.foldl_append, ih rest]
    exact if_neg fun member => apart x member x List.mem_cons_self rfl

/-- The equations of an algebraic system are made of those of a formulation. -/
structure SystemMade (s s' : Session) (w : WeakFormulation) (a : AlgebraicSystem) : Prop where
  length : a.equations.length = w.equations.length
  each : ∀ {i e}, w.equations[i]? = some e → ∃ v converted, w.testForms[i]? = some v ∧
    a.equations[i]? = some converted ∧ EquationMade s s' v i e converted

/-- An algebraic system is made of a formulation with as many test forms as equations. -/
theorem create_made (standard : s.Standard) {w : WeakFormulation}
    (same : w.equations.length = w.testForms.length) {a : AlgebraicSystem}
    (run : create w s = .ok a s') :
    SystemMade s s' w a ∧ Warned s s' a.entries ∧
    (∃ forms, w.unknowns = some forms ∧
      List.Forall₂ (fun f id => RootArray.vector f s' = .ok id s') forms a.unknowns) ∧
    List.Forall₂ (fun f id => RootArray.vector f s' = .ok id s') w.testForms a.testVectors ∧
    ∃ elementary, w.elementaryForms s = .ok elementary ∧ a.elementaryVectors.Nodup ∧
      List.Forall₂ (fun f id => RootArray.vector f s' = .ok id s') elementary.ids
        a.elementaryVectors := by
  rw [create] at run
  cases known : w.unknowns with
  | none => simp [known, lift_eq_ok] at run
  | some forms =>
    simp only [known, bind_eq_ok, get_eq_ok, lift_eq_ok, pure_eq_ok] at run
    obtain ⟨unknowns, s₁, asked, tests, s₂, tested, equations, s₃, converted, _, _, ⟨rfl, rfl⟩,
      elementary, _, ⟨listed, rfl⟩, vectors, last, taken, rfl, rfl⟩ := run
    obtain ⟨first, unknowns⟩ := vectors_spec standard asked
    obtain ⟨second, tests⟩ := vectors_spec (first.standard standard) tested
    have standard₂ := second.standard (first.standard standard)
    have third := Warned.mapM Equation.terms standard₂
      (fun standard run => (convertEquation_spec standard run).2) converted
    obtain ⟨fourth, vectors⟩ := vectors_spec (third.standard standard₂) taken
    have made := mapM_forall₂
      (P := fun last (x : (Equation Term × FormId) × Nat) e' =>
        EquationMade s₂ last x.1.2 x.2 x.1.1 e')
      (fun _ _ => convertEquation_grows _ _ _) (fun steps given => given.within .refl steps)
      (fun steps run =>
        (convertEquation_spec (standard₂.steps steps) run).1.within steps .refl) converted
    have lengths : w.equations.length = equations.length := by
      simpa [List.length_zip, same] using made.length_eq
    have before := first.trans second
    have after := third.trans fourth
    rw [List.append_nil] at before after
    have ascending : elementary.ids.Nodup := by
      refine elementary.ascending.imp ?_
      rintro f g below rfl
      exact Nat.lt_irrefl _ below
    have distinct := nodup_vectors ascending (vectors last .refl)
    rw [WeakFormulation.elementaryForms_congr (before.trans third).forms] at listed
    refine ⟨⟨lengths.symm, @fun i e standing => ?_⟩, before.trans after, ⟨forms, rfl, ?_⟩, ?_,
      elementary, listed, ?_, ?_⟩
    · obtain ⟨held, rfl⟩ := List.getElem?_eq_some_iff.1 standing
      have tested : i < w.testForms.length := same ▸ held
      have heldPair : i < (w.equations.zip w.testForms).zipIdx.length := by
        simpa [List.length_zip] using ⟨held, tested⟩
      have given := made.get heldPair (lengths ▸ held)
      simp only [List.get_eq_getElem, List.getElem_zipIdx, List.getElem_zip, Nat.zero_add] at given
      exact ⟨_, _, List.getElem?_eq_getElem tested, List.getElem?_eq_getElem (lengths ▸ held),
        given.within before.steps fourth.steps⟩
    · exact (unknowns last (second.steps.trans after.steps)).imp fun _ _ both => both.1
    · exact (tests last after.steps).imp fun _ _ both => both.1
    · rwa [withoutRepetition_of_nodup distinct]
    · rw [withoutRepetition_of_nodup distinct]
      exact (vectors last .refl).imp fun _ _ both => both.1

/-! ## Looking entries up -/

theorem entry_eq_ok {a : AlgebraicSystem} {address : String} : a.entry address = .ok entry ↔
    ∃ p e, Position.read address = .ok p ∧ a.equations[p.equation]? = some e ∧
      e.get? p.term = some entry := by
  simp only [AlgebraicSystem.entry, Outcome.bind_eq_ok]
  refine exists_congr fun p => ?_
  constructor
  · rintro ⟨read, run⟩
    cases known : a.equations[p.equation]? with
    | none => simp [known] at run
    | some e =>
      cases found : e.get? p.term with
      | none => simp [known, found] at run
      | some x =>
        simp only [known, found] at run
        exact ⟨e, read, rfl, by rw [found, Outcome.pure_eq_ok.1 run]⟩
  · rintro ⟨e, read, known, found⟩
    exact ⟨read, by simp only [known, found]; rfl⟩

namespace SystemMade

variable {w : WeakFormulation} {a : AlgebraicSystem}

/-- A term at a position is a term of the formulation if and only if there is an entry. -/
theorem exists_get?_iff (made : SystemMade s s' w a) (p : Position) :
    (∃ e entry, a.equations[p.equation]? = some e ∧ e.get? p.term = some entry) ↔
      ∃ e t, w.equations[p.equation]? = some e ∧ e.get? p.term = some t := by
  constructor
  · rintro ⟨converted, entry, held, place⟩
    have held' : p.equation < w.equations.length :=
      made.length ▸ (List.getElem?_eq_some_iff.1 held).1
    obtain ⟨v, _, -, known, equation⟩ := made.each (List.getElem?_eq_getElem held')
    cases held.symm.trans known
    have inside : p.term < converted.size := by
      rw [← Equation.length_terms]
      exact (List.getElem?_eq_some_iff.1 place).1
    rw [Equation.size, equation.left, equation.right, ← Equation.size,
      ← Equation.length_terms] at inside
    exact ⟨_, _, List.getElem?_eq_getElem held', List.getElem?_eq_getElem inside⟩
  · rintro ⟨e, t, standing, place⟩
    obtain ⟨v, converted, -, held, equation⟩ := made.each standing
    obtain ⟨entry, found, -⟩ := equation.each place
    exact ⟨converted, entry, held, found⟩

/-- An address of a term names the entry that is made of it. -/
theorem entry_of_term (made : SystemMade s s' w a) {address : String}
    (named : w.term address = .ok t) : ∃ p v entry, Position.read address = .ok p ∧
      w.testForms[p.equation]? = some v ∧ a.entry address = .ok entry ∧
      MadeFrom s s' v p t entry := by
  obtain ⟨p, e, read, standing, place⟩ := WeakFormulation.term_eq_ok.1 named
  obtain ⟨v, converted, tested, held, equation⟩ := made.each standing
  obtain ⟨entry, found, given⟩ := equation.each place
  exact ⟨p, v, entry, read, tested, entry_eq_ok.2 ⟨p, converted, read, held, found⟩, given⟩

theorem exists_entry_iff (made : SystemMade s s' w a) (address : String) :
    (∃ entry, a.entry address = .ok entry) ↔ ∃ t, w.term address = .ok t := by
  constructor
  · rintro ⟨entry, found⟩
    obtain ⟨p, converted, read, held, place⟩ := entry_eq_ok.1 found
    obtain ⟨e, t, standing, place⟩ := (made.exists_get?_iff p).1 ⟨converted, entry, held, place⟩
    exact ⟨t, WeakFormulation.term_eq_ok.2 ⟨p, e, read, standing, place⟩⟩
  · rintro ⟨t, named⟩
    obtain ⟨_, _, entry, -, -, found, -⟩ := made.entry_of_term named
    exact ⟨entry, found⟩

/-- Every entry is made of a term. -/
theorem exists_of_mem (made : SystemMade s s' w a) (member : entry ∈ a.entries) :
    ∃ v position t, MadeFrom s s' v position t entry := by
  obtain ⟨converted, inside, within⟩ := List.mem_flatMap.1 member
  obtain ⟨i, held⟩ := List.mem_iff_getElem?.1 inside
  obtain ⟨j, place⟩ := List.mem_iff_getElem?.1 within
  obtain ⟨e, t, standing, found⟩ :=
    (made.exists_get?_iff ⟨i, j⟩).1 ⟨converted, entry, held, place⟩
  obtain ⟨v, _, -, known, equation⟩ := made.each standing
  cases held.symm.trans known
  obtain ⟨_, place', given⟩ := equation.each found
  cases Option.some.inj (place.symm.trans place')
  exact ⟨v, ⟨i, j⟩, t, given⟩

end SystemMade

/-- A system is linear if all its entries are. -/
theorem isLinear_iff {a : AlgebraicSystem} :
    a.isLinear = true ↔ ∀ entry ∈ a.entries, entry.value.linearity = .linear := by
  simp only [isLinear, entries, List.all_eq_true, decide_eq_true_eq, List.mem_flatMap]
  constructor
  · rintro each entry ⟨e, inside, within⟩
    exact each e inside entry within
  · exact fun each e inside entry within => each entry ⟨e, inside, within⟩

/-- The algebraic system of a weak formulation mirrors it. In a session under the default
settings, it has the equations of the formulation with one entry for each term, on the same side
and at the same position, of which the address names the term; an entry has the sign of its term,
and keeps the term as it is if it is symbolic. The symbolic entries were warned about, in their
order. An address names an entry if and only if it names a term, and the entry is made of that
term. The system is linear if and only if no entry is symbolic, and then all are linear. The
vectors are those of the unknowns, of the test forms and, in ascending order and each once, of
the elementary forms. -/
theorem mirrors (reachable : Session.Reachable {} s) {w : WeakFormulation}
    (wellFormed : w.WellFormed s) {a : AlgebraicSystem} (run : create w s = .ok a s') :
    a.equations.length = w.equations.length ∧
    (∀ i e, w.equations[i]? = some e → ∃ converted, a.equations[i]? = some converted ∧
      converted.left.length = e.left.length ∧ converted.right.length = e.right.length ∧
      ∀ j t, e.get? j = some t → ∃ entry, converted.get? j = some entry ∧
        entry.value.position = ⟨i, j⟩ ∧ entry.sign = t.sign ∧
        (∀ x, entry.value.term = .symbolic x → x = t.value) ∧
        (i < UInt64.size → j < UInt64.size →
          w.term entry.value.position.text = .ok t)) ∧
    (∃ new, s'.warnings = s.warnings ++ new ∧
      List.Forall₂ (WarnsOf s s') (a.entries.filter fun entry => entry.value.isSymbolic) new) ∧
    (∀ address, ((∃ entry, a.entry address = .ok entry) ↔ ∃ t, w.term address = .ok t) ∧
      ∀ t, w.term address = .ok t → ∃ p v entry, Position.read address = .ok p ∧
        w.testForms[p.equation]? = some v ∧ a.entry address = .ok entry ∧
        MadeFrom s s' v p t entry) ∧
    ((a.isLinear = true ↔ ∀ entry ∈ a.entries, entry.value.isSymbolic = false) ∧
      (a.isLinear = true ↔ ∀ entry ∈ a.entries, entry.value.linearity = .linear)) ∧
    (∃ forms, w.unknowns = some forms ∧
      List.Forall₂ (fun f id => RootArray.vector f s' = .ok id s') forms a.unknowns) ∧
    List.Forall₂ (fun f id => RootArray.vector f s' = .ok id s') w.testForms a.testVectors ∧
    ∃ elementary, w.elementaryForms s = .ok elementary ∧ a.elementaryVectors.Nodup ∧
      List.Forall₂ (fun f id => RootArray.vector f s' = .ok id s') elementary.ids
        a.elementaryVectors := by
  have sameLength := (WeakFormulation.check_eq_ok.1 wellFormed.checked).2.length_eq
  obtain ⟨made, warned, unknowns, tests, vectors⟩ :=
    create_made reachable.standard sameLength run
  refine ⟨made.length, fun i e standing => ?_, warned.warnings, fun address =>
      ⟨made.exists_entry_iff address, fun t named => made.entry_of_term named⟩,
    ⟨isLinear_iff.trans (forall₂_congr fun entry member => ?_), isLinear_iff⟩, unknowns, tests,
    vectors⟩
  · obtain ⟨v, converted, tested, held, equation⟩ := made.each standing
    refine ⟨converted, held, equation.left, equation.right, fun j t place => ?_⟩
    obtain ⟨entry, found, given⟩ := equation.each place
    have position : entry.value.position = ⟨i, j⟩ := by cases given <;> rfl
    refine ⟨entry, found, position, by cases given <;> rfl, fun x kept => ?_, fun hi hj => ?_⟩
    · cases given with
      | product => cases kept
      | symbolic => exact (AlgebraicTerm.symbolic.inj kept).symm
    · have read := Position.read_text (UInt64.ofNatLT i hi) (UInt64.ofNatLT j hj)
      rw [UInt64.toNat_ofNatLT, UInt64.toNat_ofNatLT, ← position] at read
      exact WeakFormulation.term_eq_ok.2 ⟨_, e, read, by rwa [position], by rwa [position]⟩
  · obtain ⟨_, _, _, given⟩ := made.exists_of_mem member
    cases given <;> simp [AlgebraicEntry.isSymbolic]

/-- On an interval, the term `(a, v)` of `(∂t a, v) = -(a, v)` is converted, and the other one is
kept with a warning. -/
theorem mirrors_decay :
    ∃ s s' t x a, Session.Reachable {} s ∧ Term.create s .innerProduct ⟨2⟩ ⟨1⟩ = .ok t ∧
      Term.create s .innerProduct ⟨0⟩ ⟨1⟩ = .ok x ∧
      let w : WeakFormulation := ⟨⟨0⟩, [⟨[⟨.plus, t⟩], [⟨.minus, x⟩]⟩], [⟨1⟩], some [⟨0⟩]⟩
      w.WellFormed s ∧ create w s = .ok a s' ∧ a.isLinear = false ∧
      (∃ entry, a.entry " 0 - 01" = .ok entry ∧ entry.sign = .minus) ∧
      ∃ new, s'.warnings = s.warnings ++ new ∧ new ≠ [] := by
  obtain ⟨s, reachable, livesA, livesV, livesRate, readsV, outcome⟩ :
      ∃ s, Session.Reachable {} s ∧ s.Lives ⟨0⟩ ⟨0⟩ 1 ∧ s.Lives ⟨1⟩ ⟨0⟩ 1 ∧ s.Lives ⟨2⟩ ⟨0⟩ 1 ∧
        s.Reads ⟨1⟩ .root ∧
        (match Term.create s .innerProduct ⟨2⟩ ⟨1⟩, Term.create s .innerProduct ⟨0⟩ ⟨1⟩ with
          | .ok t, .ok x => match create
              ⟨⟨0⟩, [⟨[⟨.plus, t⟩], [⟨.minus, x⟩]⟩], [⟨1⟩], some [⟨0⟩]⟩ s with
            | .ok a _ => a.entries.map fun entry => (entry.sign, entry.value.linearity)
            | .error _ _ => []
          | _, _ => []) = [(.plus, .unknown), (.minus, .linear)] :=
    ⟨Request.performAll {} [.manifold 1, .mesh ⟨0⟩, .space ⟨0⟩ 1 .outer, .root ⟨0⟩ ⟨"a", "a"⟩,
      .root ⟨0⟩ ⟨"v", "v"⟩, .operator .timeDerivative ⟨0⟩, .degrees 2], .performAll {} _,
      by decide +kernel⟩
  obtain ⟨m, foundMesh⟩ := reachable.sound.exists_mesh livesA
  obtain ⟨t, created, mesh⟩ := Term.create_succeeds .innerProduct livesRate livesV foundMesh rfl
  obtain ⟨x, created', mesh'⟩ := Term.create_succeeds .innerProduct livesA livesV foundMesh rfl
  obtain ⟨kind, first, second, -⟩ := Term.create_spec created
  obtain ⟨kind', first', second', -⟩ := Term.create_spec created'
  have tested : s.testedForm? ⟨1⟩ = .ok (some ⟨1⟩) :=
    Session.testedForm?_eq_ok_some.2 (.root readsV)
  have wellFormed : WeakFormulation.WellFormed
      ⟨⟨0⟩, [⟨[⟨.plus, t⟩], [⟨.minus, x⟩]⟩], [⟨1⟩], some [⟨0⟩]⟩ s := by
    refine ⟨WeakFormulation.check_eq_ok.2 ⟨by simp, .cons ⟨Nat.two_pos, ⟨1, livesV⟩, ?_⟩ .nil⟩, ?_⟩
    · simpa [Equation.terms, second, second', WeakFormulation.TermFits] using
        ⟨⟨tested, Or.inl mesh⟩, tested, Or.inl mesh'⟩
    · simpa [Equation.terms, kind, first, second, kind', first', second'] using
        ⟨created, created'⟩
  simp only [created, created'] at outcome
  split at outcome
  on_goal 2 => cases outcome
  rename_i a s' run
  obtain ⟨-, -, ⟨new, warnings, each⟩, named, ⟨converted, linear⟩, -⟩ :=
    mirrors reachable wellFormed run
  have kept : ∃ entry ∈ a.entries, (entry.sign, entry.value.linearity) = (.plus, .unknown) :=
    List.mem_map.1 (outcome ▸ List.mem_cons_self)
  have nonlinear : ¬a.isLinear = true := fun all => by
    obtain ⟨entry, member, made⟩ := kept
    cases (linear.1 all entry member).symm.trans (Prod.mk.inj made).2
  refine ⟨s, s', t, x, a, reachable, created, created', wellFormed, run,
    Bool.not_eq_true _ ▸ nonlinear, ?_, new, warnings, ?_⟩
  · obtain ⟨_, _, entry, _, _, found, given⟩ := (named " 0 - 01").2 ⟨.minus, x⟩ rfl
    exact ⟨entry, found, by cases given <;> rfl⟩
  · rintro rfl
    refine nonlinear (converted.2 fun entry member => ?_)
    simpa using List.filter_eq_nil_iff.1 (List.forall₂_nil_right_iff.1 each) entry member

end AlgebraicSystem

end Variational
