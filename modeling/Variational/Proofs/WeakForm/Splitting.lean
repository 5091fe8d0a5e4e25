import Mathlib
import Variational.Proofs.Multiples
import Variational.Proofs.Session.Reachability
import Variational.Proofs.WeakForm.Replacement

/-!
# Splitting

Splitting replaces a term in place by one term per piece, of which the slot holds the
multiple of the piece. It keeps the residual of every equation under all values of
terms that are linear in the slot, if the form in the slot has the value of the signed
sum of the multiples.
-/

namespace Variational

open Derive

variable {s s' : Session}

/-! ## Slots -/

/-- The slot that a slot is not. -/
def Slot.other : Slot → Slot
  | .first => .second
  | .second => .first

namespace Term

/-- The form in a slot. -/
def form (t : Term) : Slot → FormId
  | .first => t.f1
  | .second => t.f2

variable {t x : Term} {slot : Slot} {f : FormId}

theorem withForm_spec (run : withForm s t slot f = .ok x) :
    x.kind = t.kind ∧ x.form slot = f ∧ x.form slot.other = t.form slot.other ∧
      create s x.kind x.f1 x.f2 = .ok x := by
  cases slot with
  | first =>
    obtain ⟨kind, first, second, -⟩ := create_spec run
    refine ⟨kind, first, second, ?_⟩
    rw [kind, first, second]
    exact run
  | second =>
    obtain ⟨kind, first, second, -⟩ := create_spec run
    refine ⟨kind, second, first, ?_⟩
    rw [kind, first, second]
    exact run

end Term

/-! ## Pieces -/

namespace Piece

/-- Pieces that list forms, signs and optional factors. -/
structure Lists (pieces : List Piece) (forms : List FormId) (signs : List Sign)
    (factors : Option (List ScalarOperand)) : Prop where
  nonempty : pieces ≠ []
  forms_eq : pieces.map Piece.form = forms
  signs_eq : pieces.map Piece.sign = signs
  factors_eq : match factors with
    | none => ∀ p ∈ pieces, p.factor = none
    | some factors => pieces.map Piece.factor = factors.map some

variable {forms : List FormId} {signs : List Sign} {factors : Option (List ScalarOperand)}
  {pieces : List Piece}

theorem lists_of_zip? (paired : zip? forms signs factors = some pieces) :
    Lists pieces forms signs factors := by
  simp only [zip?] at paired
  split at paired
  · cases paired
  · rename_i same
    obtain ⟨nonempty, same⟩ := not_or.1 same
    have same := Decidable.not_not.1 same
    have positive := List.length_pos_iff.2 nonempty
    cases factors with
    | none =>
      cases paired
      refine ⟨List.length_pos_iff.1 (by simpa [← same] using positive), ?_, ?_, ?_⟩
      · exact List.ext_getElem (by simp [same]) (by simp)
      · exact List.ext_getElem (by simp [same]) (by simp)
      · intro p member
        obtain ⟨i, held, rfl⟩ := List.mem_iff_getElem.1 member
        rw [List.getElem_zipWith]
    | some factors =>
      simp only [ite_not] at paired
      split at paired
      · rename_i equal
        cases paired
        refine ⟨List.length_pos_iff.1 (by simpa [← same, equal] using positive), ?_, ?_, ?_⟩
        · exact List.ext_getElem (by simp [same, equal]) (by simp)
        · exact List.ext_getElem (by simp [same, equal]) (by simp)
        · exact List.ext_getElem (by simp [same, equal]) (by simp)
      · cases paired

/-- Lists without a common positive length make up no pieces. -/
theorem zip?_eq_none (unequal : ¬ ∃ n, 0 < n ∧ forms.length = n ∧ signs.length = n ∧
    ∀ l, factors = some l → l.length = n) : zip? forms signs factors = none := by
  simp only [zip?]
  split
  · rfl
  · rename_i same
    obtain ⟨nonempty, same⟩ := not_or.1 same
    have positive := List.length_pos_iff.2 nonempty
    have same := (Decidable.not_not.1 same).symm
    cases factors with
    | none => exact absurd ⟨forms.length, positive, rfl, same, by simp⟩ unequal
    | some factors =>
      exact if_pos fun equal => unequal ⟨forms.length, positive, rfl, same, by simpa using equal⟩

/-- A term that takes the place of another one for a piece: its slot holds the multiple of the
piece, and its sign is composed with that of the piece. -/
structure Replaces (s : Session) (t : Signed Term) (slot : Slot) (piece : Piece)
    (x : Signed Term) : Prop where
  sign : x.sign = t.sign.compose piece.sign
  kind : x.value.kind = t.value.kind
  multiple : Form.Multiple s piece.form piece.factor (x.value.form slot)
  other : x.value.form slot.other = t.value.form slot.other
  created : Term.create s x.value.kind x.value.f1 x.value.f2 = .ok x.value

variable {piece : Piece} {t x : Signed Term} {slot : Slot}

theorem Replaces.mono (replaces : piece.Replaces s t slot x) (steps : s.Steps s') :
    piece.Replaces s' t slot x where
  sign := replaces.sign
  kind := replaces.kind
  multiple := replaces.multiple.mono steps
  other := replaces.other
  created := Term.create_mono steps.extends replaces.created

theorem term_spec (run : piece.term t slot s = .ok x s') : piece.Replaces s' t slot x := by
  have placed : ∀ {f : FormId} {y : Term}, Form.Multiple s' piece.form piece.factor f →
      t.value.withForm s' slot f = .ok y →
      piece.Replaces s' t slot ⟨t.sign.compose piece.sign, y⟩ := by
    intro f y multiple run
    obtain ⟨kind, here, other, created⟩ := Term.withForm_spec run
    exact ⟨rfl, kind, here ▸ multiple, other, created⟩
  rw [term] at run
  cases factor : piece.factor with
  | none =>
    simp only [factor, bind_eq_ok, get_eq_ok, lift_eq_ok, pure_eq_ok] at run
    obtain ⟨f, _, ⟨rfl, rfl⟩, _, _, ⟨rfl, rfl⟩, y, _, ⟨run, rfl⟩, rfl, rfl⟩ := run
    exact placed (factor ▸ .self) run
  | some operand =>
    simp only [factor, bind_eq_ok, get_eq_ok, lift_eq_ok, pure_eq_ok] at run
    obtain ⟨f, _, scaled, _, _, ⟨rfl, rfl⟩, y, _, ⟨run, rfl⟩, rfl, rfl⟩ := run
    exact placed (factor ▸ Form.scale_spec scaled) run

end Piece

/-! ## Values that are linear in a slot -/

/-- The values that a sign turns values into. -/
def Sign.hom {G : Type*} [AddCommGroup G] : Sign → G →+ G
  | .plus => AddMonoidHom.id G
  | .minus => negAddMonoidHom

theorem Sign.hom_compose {G : Type*} [AddCommGroup G] (a b : Sign) (x : G) :
    (a.compose b).hom x = a.hom (b.hom x) := by
  cases a <;> cases b <;> simp [hom, compose]

theorem Sign.map_hom {V G : Type*} [AddCommGroup V] [AddCommGroup G] (L : V →+ G) (a : Sign)
    (v : V) : L (a.hom v) = a.hom (L v) := by
  cases a <;> simp [hom]

theorem Signed.valued_eq_hom {α : Type} {G : Type*} [AddCommGroup G] (value : α → G)
    (t : Signed α) : t.valued value = t.sign.hom (value t.value) := by
  obtain ⟨sign, x⟩ := t
  cases sign <;> rfl

namespace Session.Valuation

variable {R V G : Type*} [CommRing R] [AddCommGroup V] [Module R V] [AddCommGroup G]
  (I : s.Valuation R V)

/-- The multiple of a piece with its sign. -/
def piece (p : Piece) : V :=
  p.sign.hom (I.factor p.factor • I.form p.form)

/-- The values of the terms that differ from a term at most in a slot are additive in the
value of the form that the slot holds. -/
def LinearIn (value : Term → G) (t : Term) (slot : Slot) (L : V →+ G) : Prop :=
  ∀ x, Term.create s x.kind x.f1 x.f2 = .ok x → x.kind = t.kind →
    x.form slot.other = t.form slot.other → value x = L (I.form (x.form slot))

variable {I} {value : Term → G} {L : V →+ G} {t : Signed Term} {slot : Slot}

/-- The term of a piece has the value that the piece has in the slot. -/
theorem valued_of_replaces {p : Piece} {x : Signed Term} (linear : I.LinearIn value t.value slot L)
    (replaces : p.Replaces s t slot x) : x.valued value = t.sign.hom (L (I.piece p)) := by
  calc x.valued value
      = (t.sign.compose p.sign).hom (L (I.form (x.value.form slot))) := by
        rw [Signed.valued_eq_hom, replaces.sign,
          linear x.value replaces.created replaces.kind replaces.other]
    _ = t.sign.hom (p.sign.hom (L (I.factor p.factor • I.form p.form))) := by
        rw [I.form_multiple replaces.multiple, Sign.hom_compose]
    _ = t.sign.hom (L (I.piece p)) := by rw [piece, Sign.map_hom L]

/-- Terms for pieces that sum up to the form in the slot sum up to the term. -/
theorem total_of_replaces {pieces : List Piece} {new : List (Signed Term)}
    (linear : I.LinearIn value t.value slot L)
    (created : Term.create s t.value.kind t.value.f1 t.value.f2 = .ok t.value)
    (replaced : List.Forall₂ (fun p x => p.Replaces s t slot x) pieces new)
    (sum : I.form (t.value.form slot) = (pieces.map I.piece).sum) :
    Equation.total value new = t.valued value := by
  have each : new.map (Signed.valued value) = pieces.map fun p => t.sign.hom (L (I.piece p)) := by
    clear sum
    induction replaced with
    | nil => rfl
    | cons first rest ih => rw [List.map_cons, List.map_cons, ih, valued_of_replaces linear first]
  calc Equation.total value new
      = (pieces.map fun p => t.sign.hom (L (I.piece p))).sum := by rw [Equation.total, each]
    _ = t.sign.hom (L (pieces.map I.piece).sum) := by
        rw [map_list_sum, map_list_sum, List.map_map, List.map_map]
        rfl
    _ = t.valued value := by
        rw [← sum, Signed.valued_eq_hom, linear t.value created rfl rfl]

end Session.Valuation

/-! ## Splitting -/

namespace WeakFormulation

variable {w w' : WeakFormulation} {address : String} {i : Nat} {e : Equation Term} {side : Side}
  {before after new : List (Signed Term)} {t : Signed Term} {slot : Slot} {forms : List FormId}
  {signs : List Sign} {factors : Option (List ScalarOperand)} {pieces : List Piece}

theorem split_eq_ok : w.split address slot forms signs factors s = .ok w' s' ↔
    ∃ pieces i e side before t after new, Piece.zip? forms signs factors = some pieces ∧
      w.Addresses address i e side before t after ∧
      pieces.mapM (fun piece => piece.term t slot) s = .ok new s' ∧
      w.splice s' i side before.length new = .ok w' := by
  constructor
  · intro run
    rw [split] at run
    cases paired : Piece.zip? forms signs factors with
    | none =>
      rw [paired] at run
      simp [lift_eq_ok] at run
    | some pieces =>
      simp only [paired, bind_eq_ok, get_eq_ok, lift_eq_ok] at run
      obtain ⟨⟨i, side, place⟩, _, ⟨located, rfl⟩, t, _, ⟨found, rfl⟩, new, _, terms, _, _,
        ⟨rfl, rfl⟩, splice, rfl⟩ := run
      obtain ⟨e, before, after, addresses, rfl⟩ := exists_addresses located found
      exact ⟨pieces, i, e, side, before, t, after, new, rfl, addresses, terms, splice⟩
  · intro given
    obtain ⟨pieces, i, e, side, before, t, after, new, paired, addresses, terms, splice⟩ := given
    rw [split, paired]
    dsimp only
    rw [lift_bind_of_ok addresses.locate_eq]
    dsimp only
    rw [lift_bind_of_ok addresses.term_eq, bind_of_ok terms, get_bind]
    exact lift_eq_ok.2 ⟨splice, rfl⟩

/-- The terms of all pieces of a term. -/
theorem mapM_term_spec (run : pieces.mapM (fun piece => piece.term t slot) s = .ok new s') :
    List.Forall₂ (fun p x => p.Replaces s' t slot x) pieces new :=
  mapM_forall₂ (P := fun s p x => p.Replaces s t slot x)
    (fun p _ => Piece.term_grows p t slot) (fun steps replaces => replaces.mono steps)
    (fun _ run => Piece.term_spec run) run

/-- Splitting replaces a term in place by one term per piece and changes nothing else, so
residuals are kept by all values of terms that are linear in the slot and under which the
signed multiples of the pieces sum up to the form in the slot. -/
theorem split_linear (wellFormed : w.WellFormed s) (address : String) (slot : Slot)
    (forms : List FormId) (signs : List Sign) (factors : Option (List ScalarOperand)) :
    (∀ w' s', w.split address slot forms signs factors s = .ok w' s' →
      w'.WellFormed s' ∧ ∃ i e side before t after pieces new v,
        w.Addresses address i e side before t after ∧ Piece.Lists pieces forms signs factors ∧
        List.Forall₂ (fun p x => p.Replaces s' t slot x) pieces new ∧
        w.Replaced w' i e side before new after ∧ w.testForms[i]? = some v ∧
        (∀ x ∈ new, x.value.testForm? s' = .ok (some v)) ∧
        ∀ {R V G : Type*} [CommRing R] [AddCommGroup V] [Module R V] [AddCommGroup G]
          (I : s'.Valuation R V) (value : Term → G) (L : V →+ G), I.LinearIn value t.value slot L →
            I.form (t.value.form slot) = (pieces.map I.piece).sum →
              w'.equations.map (Equation.residual value) =
                w.equations.map (Equation.residual value)) ∧
    (s.Extends ((w.split address slot forms signs factors).after s) ∧
      ∀ other : WeakFormulation, other.WellFormed s →
        other.WellFormed ((w.split address slot forms signs factors).after s)) ∧
    ((¬ ∃ n, 0 < n ∧ forms.length = n ∧ signs.length = n ∧ ∀ l, factors = some l → l.length = n) →
      w.split address slot forms signs factors s =
        .error (.rejected (.structural (.splitLengths address))) s) := by
  refine ⟨?success, ?kept, ?lengths⟩
  case success =>
    intro w' s' run
    have later := (w.split_grows address slot forms signs factors).extends run
    obtain ⟨pieces, i, e, side, before, t, after, new, paired, addresses, terms, splice⟩ :=
      split_eq_ok.1 run
    have replaced := mapM_term_spec terms
    have created : ∀ x ∈ new, Term.create s' x.value.kind x.value.f1 x.value.f2 = .ok x.value := by
      intro x member
      obtain ⟨p, -, replaces⟩ := exists_mem_of_forall₂ replaced member
      exact replaces.created
    have well := wellFormed.of_splice later addresses created splice
    have exchanged := addresses.replaced splice
    obtain ⟨v, tested, each⟩ := well.new_tested addresses exchanged
    refine ⟨well, i, e, side, before, t, after, pieces, new, v, addresses,
      Piece.lists_of_zip? paired, replaced, exchanged, tested, each, ?_⟩
    intro R V G _ _ _ _ I value L linear sum
    have own := Term.create_mono later (wellFormed.created_of_addresses addresses)
    exact addresses.residuals_eq splice
      (Session.Valuation.total_of_replaces linear own replaced sum)
  case kept =>
    have later := Session.Steps.extends (w.split_grows address slot forms signs factors (s := s))
    exact ⟨later, fun other well => well.mono later⟩
  case lengths =>
    intro unequal
    rw [split, Piece.zip?_eq_none unequal]
    rfl

/-- The term of `-(a, v) = 0` is split into the pieces of `2 p - q`. With values that make
`a` this difference, the residual stays. -/
theorem split_linear_difference :
    ∃ s s' t w', Session.Reachable {} s ∧ Term.create s .innerProduct ⟨0⟩ ⟨3⟩ = .ok t ∧
      let w : WeakFormulation := ⟨⟨0⟩, [⟨[⟨.minus, t⟩], []⟩], [⟨3⟩], none⟩
      w.WellFormed s ∧
        w.split "0-0" .first [⟨1⟩, ⟨2⟩] [.plus, .minus] (some [.number 2.0, .number 1.0]) s =
          .ok w' s' ∧
        w'.WellFormed s' ∧ s'.Reads ⟨4⟩ (.scaled ⟨0⟩ ⟨1⟩) ∧
        (w'.equations.map fun e => e.left.map fun x => (x.sign, x.value.f1)) =
          [[(.minus, ⟨4⟩), (.plus, ⟨2⟩)]] ∧
        ∃ I : s'.Valuation ℤ (ℤ × ℤ), I.form ⟨0⟩ = (2, -1) ∧
          w'.equations.map (Equation.residual fun t => I.form t.f1) = [-(2, -1)] := by
  obtain ⟨s, reachable, livesA, livesV, readsV, outcome⟩ :
      ∃ s, Session.Reachable {} s ∧ s.Lives ⟨0⟩ ⟨0⟩ 1 ∧ s.Lives ⟨3⟩ ⟨0⟩ 1 ∧ s.Reads ⟨3⟩ .root ∧
        (match Term.create s .innerProduct ⟨0⟩ ⟨3⟩ with
          | .ok t => match split ⟨⟨0⟩, [⟨[⟨.minus, t⟩], []⟩], [⟨3⟩], none⟩ "0-0" .first [⟨1⟩, ⟨2⟩]
              [.plus, .minus] (some [.number 2.0, .number 1.0]) s with
            | .ok w' s' => decide (
              s'.forms.entities.map Form.expr = [.root, .root, .root, .root, .scaled ⟨0⟩ ⟨1⟩] ∧
              (s'.scalars.get? ⟨0⟩).map (·.value == some 1.0) = some false ∧
              (ScalarOperand.number 2.0).scalar? s' = some ⟨0⟩ ∧
              (ScalarOperand.number 1.0).scalar? s' = some ⟨1⟩ ∧
              (w'.equations.map fun e => e.left.map fun x => (x.sign, x.value.f1)) =
                [[(.minus, ⟨4⟩), (.plus, ⟨2⟩)]])
            | .error _ _ => false
          | .error _ => false) = true :=
    ⟨Request.performAll {} [.manifold 1, .mesh ⟨0⟩, .space ⟨0⟩ 1 .outer, .root ⟨0⟩ ⟨"a", "a"⟩,
      .root ⟨0⟩ ⟨"p", "p"⟩, .root ⟨0⟩ ⟨"q", "q"⟩, .root ⟨0⟩ ⟨"v", "v"⟩], .performAll {} _,
      by decide +kernel⟩
  obtain ⟨m, foundMesh⟩ := reachable.sound.exists_mesh livesA
  obtain ⟨t, created, mesh⟩ := Term.create_succeeds .innerProduct livesA livesV foundMesh rfl
  obtain ⟨kind, first, second, -⟩ := Term.create_spec created
  have tested : s.testedForm? t.f2 = .ok (some ⟨3⟩) := by
    obtain ⟨form, found, root⟩ := readsV
    rw [second, Session.testedForm?_eq found, root]
  have wellFormed : WellFormed ⟨⟨0⟩, [⟨[⟨.minus, t⟩], []⟩], [⟨3⟩], none⟩ s := by
    refine ⟨check_eq_ok.2 ⟨by simp, .cons ⟨?_, ⟨1, livesV⟩, ?_⟩ .nil⟩, ?_⟩
    · exact Nat.one_pos
    · simpa [Equation.terms] using ⟨tested, Or.inl mesh⟩
    · simpa [Equation.terms, kind, first, second] using created
  simp only [created] at outcome
  split at outcome
  case h_2 => cases outcome
  rename_i w' s' run
  obtain ⟨exprs, notOne, two, one, placed⟩ := of_decide_eq_true outcome
  have scaledOnly : ∀ {f c g}, s'.Reads f (.scaled c g) → f = ⟨4⟩ ∧ c = ⟨0⟩ ∧ g = ⟨1⟩ := by
    rintro ⟨f⟩ c g ⟨form, found, expr⟩
    have listed : (s'.forms.entities.map Form.expr)[f]? = some (.scaled c g) := by
      rw [List.getElem?_map]
      exact Option.map_eq_some_iff.2 ⟨form, found, expr⟩
    rw [exprs] at listed
    rcases f with _ | _ | _ | _ | _ | f <;> simp at listed
    obtain ⟨rfl, rfl⟩ := listed
    exact ⟨rfl, rfl, rfl⟩
  let I : s'.Valuation ℤ (ℤ × ℤ) := {
    scalar := fun c => if c = ⟨0⟩ then 2 else 1
    form := fun f => [(2, -1), (1, 0), (0, 1), (0, 0), (2, 0)].getD f.index 0
    scalar_one := by
      intro c x found isOne
      refine if_neg fun same => ?_
      rw [← same, found, Option.map_some, isOne] at notOne
      cases notOne
    form_scaled := by
      intro f c g reads
      obtain ⟨rfl, rfl, rfl⟩ := scaledOnly reads
      rfl }
  obtain ⟨success, -⟩ := split_linear.{0, 0, 0} wellFormed "0-0" .first [⟨1⟩, ⟨2⟩] [.plus, .minus]
    (some [.number 2.0, .number 1.0])
  obtain ⟨well, i, e, side, before, t', after, pieces, new, v, addresses, lists, -, -, -, -,
    keeps⟩ := success w' s' run
  have here : Addresses ⟨⟨0⟩, [⟨[⟨.minus, t⟩], []⟩], [⟨3⟩], none⟩ "0-0" 0 _ .left []
      ⟨.minus, t⟩ [] := ⟨0, rfl, rfl, rfl, rfl⟩
  obtain rfl := Except.ok.inj (addresses.term_eq.symm.trans here.term_eq)
  obtain ⟨-, formsEq, signsEq, factorsEq⟩ := lists
  obtain ⟨p, _, rfl, formP, restEq⟩ := List.map_eq_cons_iff.1 formsEq
  obtain ⟨q, _, rfl, formQ, tailEq⟩ := List.map_eq_cons_iff.1 restEq
  obtain rfl := List.map_eq_nil_iff.1 tailEq
  simp only [List.map_cons, List.map_nil, List.cons.injEq, and_true] at signsEq factorsEq
  have valueP : I.piece p = (2, 0) := by
    rw [Session.Valuation.piece, signsEq.1, factorsEq.1, formP, Session.Valuation.factor, two]
    rfl
  have valueQ : I.piece q = -(0, 1) := by
    rw [Session.Valuation.piece, signsEq.2, factorsEq.2, formQ, Session.Valuation.factor, one]
    rfl
  have sum : I.form (t.form .first) = ([p, q].map I.piece).sum := by
    rw [List.map_cons, List.map_cons, valueP, valueQ, Term.form, first]
    rfl
  refine ⟨s, s', t, w', reachable, created, wellFormed, run, well, ?_, placed, I, rfl, ?_⟩
  · have listed : (s'.forms.entities.map Form.expr)[4]? = some (.scaled ⟨0⟩ ⟨1⟩) := by
      rw [exprs]
      rfl
    rw [List.getElem?_map] at listed
    exact Option.map_eq_some_iff.1 listed
  · rw [keeps I (fun t => I.form t.f1) (.id _) (fun _ _ _ _ => rfl) sum]
    rw [List.map_singleton, Equation.residual, Equation.total, Equation.total, List.map_singleton,
      List.sum_singleton, Signed.valued, first]
    rfl
end WeakFormulation

end Variational
