import Variational.Proofs.DecimalReading
import Variational.Proofs.Equations
import Variational.Proofs.Evaluation
import Variational.Proofs.FormTrees
import Variational.Proofs.ScalarMeaning

/-!
# Values of forms

The forms of a space are interpreted in a rational vector space by a meaning of the operations of
forms, of which nothing is known but what sums and quotients by real scalars are, and by values
of the leaves. Then every form has one value. To replace a leaf is to change its value, and the
mean of leaves has the arithmetic mean of their values.
-/

namespace Variational

universe v

/-! ## Counts -/

namespace Scalar

open Float.Model in
/-- A finite double other than zero is another number. -/
theorem rational_ne_zero {x : Float} (finite : x.isFinite = true) (nonzero : ¬ (x == 0.0) = true) :
    rational x ≠ 0 := by
  have finite : x.toModel.unpack.isFinite = true := finite
  rw [beq_zero_iff] at nonzero
  rw [rational]
  cases unpacked : x.toModel.unpack with
  | notANumber | infinity sign => simp [unpacked, UnpackedFloat.isFinite] at finite
  | zero sign => exact absurd ⟨sign, unpacked⟩ nonzero
  | finite sign m e positive =>
    have nonzero : (m : ℚ) ≠ 0 := Nat.cast_ne_zero.2 positive.ne'
    have power : (2 : ℚ) ^ e ≠ 0 := zpow_ne_zero e two_ne_zero
    cases sign <;> simp [UnpackedFloat.Sign.apply, nonzero, power]

/-- Natural numbers up to `2 ^ 53` are doubles. -/
theorem rational_ofNat {n : Nat} (short : n ≤ 2 ^ 53) : rational (Float.ofNat n) = n := by
  rcases Nat.eq_zero_or_pos n with rfl | positive
  · decide +kernel
  obtain ⟨r, canonical, bounded, value⟩ : ∃ r : Decimal.Rounding, r.Canonical ∧ r.e ≤ 971 ∧
      (r.m * 2 ^ r.e : ℚ) = n := by
    rcases short.lt_or_eq with short | rfl
    · obtain ⟨k, -, -, canonical, value⟩ := Decimal.exists_canonical positive short
      exact ⟨_, canonical, by dsimp only; omega, value⟩
    · exact ⟨⟨2 ^ 52, 1⟩, ⟨by decide, by decide, by decide, fun _ => le_rfl⟩, by decide,
        by norm_num⟩
  have meets : r.Meets (n * 10 ^ (0 : Int)) := by
    rw [zpow_zero, mul_one, ← value]
    exact canonical.meets_self
  have nearest : Float.ofNat n = Decimal.nearest n 0 := rfl
  rw [rational, nearest, Decimal.unpack_nearest canonical bounded meets]
  simpa [Float.Model.UnpackedFloat.Sign.apply] using value

end Scalar

/-! ## Meanings -/

/-- The space of a form. -/
def Session.home (s : Session) (f : FormId) : SpaceId :=
  ((s.forms.get? f).map Form.space).getD ⟨0⟩

theorem Session.home_of_get? {s : Session} {f : FormId} {form : Form}
    (found : s.forms.get? f = some form) : s.home f = form.space := by
  rw [home, found]
  rfl

/-- A form stays in its space when it is evaluated. -/
theorem Session.EvaluatedAt.home_eq {s : Session} {sequence : TimeSequenceId} {u e : FormId}
    {key : String} (sound : s.Sound) (evaluated : s.EvaluatedAt sequence u key e) :
    s.home e = s.home u := by
  obtain ⟨i, -, form, found, expr⟩ := evaluated
  have typed := (sound.forms found).2.1
  rw [expr] at typed
  obtain ⟨base, -, foundBase, -, space, -⟩ := typed
  rw [home_of_get? found, home_of_get? foundBase, space]

/-- What the operations of forms do to values, each of which is a vector of the space of some
forms. Sums of forms of one space are sums, and a quotient by a real scalar other than zero is
one. -/
structure Session.Meaning (s : Session) (V : SpaceId → Type v) [∀ i, AddCommGroup (V i)]
    [∀ i, Module ℚ (V i)] where
  unary : UnaryOperator → (Σ i, V i) → Σ i, V i
  binary : BinaryOperator → (Σ i, V i) → (Σ i, V i) → Σ i, V i
  quotient : ScalarId → (Σ i, V i) → Σ i, V i
  scaled : ScalarId → (Σ i, V i) → Σ i, V i
  binary_sum : ∀ {i} (x y : V i), binary .sum ⟨i, x⟩ ⟨i, y⟩ = ⟨i, x + y⟩
  quotient_real : ∀ {c k r i} (x : V i), s.scalars.get? c = some k → k.value = some r →
    Scalar.rational r ≠ 0 → quotient c ⟨i, x⟩ = ⟨i, (Scalar.rational r)⁻¹ • x⟩

/-- In all vector spaces there is a meaning: unary operators and factors change nothing, and values
of one space are added up. -/
instance (s : Session) (V : SpaceId → Type v) [∀ i, AddCommGroup (V i)] [∀ i, Module ℚ (V i)] :
    Inhabited (s.Meaning V) where
  default := {
    unary := fun _ x => x
    binary := fun _ x y => if same : x.1 = y.1 then ⟨y.1, same ▸ x.2 + y.2⟩ else x
    quotient := fun c x => ⟨x.1, (((s.scalars.get? c).bind Scalar.value).elim 1
      Scalar.rational)⁻¹ • x.2⟩
    scaled := fun _ x => x
    binary_sum := fun x y => dif_pos rfl
    quotient_real := fun x found value _ => by simp [found, value] }

/-- Values of the leaves. A form has one in every space, of which that in its own space counts. -/
abbrev LeafValues (V : SpaceId → Type v) :=
  ∀ i, FormId → V i

variable {s : Session} {V : SpaceId → Type v} [∀ i, AddCommGroup (V i)] [∀ i, Module ℚ (V i)]

/-- The values of the leaves after one leaf is given another value. -/
def LeafValues.update (ρ : LeafValues V) (u : FormId) (x : ∀ i, V i) : LeafValues V :=
  fun i => Function.update (ρ i) u (x i)

/-- The sum of the values of leaves, divided by a count of them. -/
def LeafValues.mean (ρ : LeafValues V) (count : ℚ) (fs : List FormId) (i : SpaceId) : V i :=
  count⁻¹ • (fs.map (ρ i)).sum

namespace Session.Meaning

variable (m : s.Meaning V) (ρ : LeafValues V)

/-- The value of a tree. -/
def value : FormTree → Σ i, V i
  | .leaf f => ⟨s.home f, ρ (s.home f) f⟩
  | .unary op a => m.unary op (value a)
  | .binary op a b => m.binary op (value a) (value b)
  | .quotient a c => m.quotient c (value a)
  | .scaled c a => m.scaled c (value a)

/-- A form has a value: that of its tree. -/
def Denotes (f : FormId) (x : Σ i, V i) : Prop :=
  ∃ t, s.Unfolds f t ∧ m.value ρ t = x

variable {m ρ} {f g h u new : FormId} {x y : Σ i, V i}

variable (m ρ) in
theorem exists_denotes {form : Form} (found : s.forms.get? f = some form) :
    ∃ x, m.Denotes ρ f x := by
  obtain ⟨t, unfolds⟩ := exists_unfolds found
  exact ⟨_, t, unfolds, rfl⟩

namespace Denotes

/-- A form has one value. -/
theorem unique (denotes : m.Denotes ρ f x) (denotes' : m.Denotes ρ f y) : x = y := by
  obtain ⟨t, unfolds, rfl⟩ := denotes
  obtain ⟨t', unfolds', rfl⟩ := denotes'
  rw [unfolds.unique unfolds']

theorem leaf {e : FormExpr} (reads : s.Reads f e) (isLeaf : e.isLeaf = true) :
    m.Denotes ρ f ⟨s.home f, ρ (s.home f) f⟩ :=
  ⟨.leaf f, .leaf reads isLeaf, rfl⟩

theorem evaluated {sequence : TimeSequenceId} {key : String} (sound : s.Sound)
    (evaluated : s.EvaluatedAt sequence u key f) :
    m.Denotes ρ f ⟨s.home u, ρ (s.home u) f⟩ := by
  obtain ⟨i, -, reads⟩ := id evaluated
  rw [← evaluated.home_eq sound]
  exact .leaf reads rfl

theorem binary {op : BinaryOperator} (reads : s.Reads h (.binary op f g))
    (left : m.Denotes ρ f x) (right : m.Denotes ρ g y) : m.Denotes ρ h (m.binary op x y) := by
  obtain ⟨t, unfolds, rfl⟩ := left
  obtain ⟨t', unfolds', rfl⟩ := right
  exact ⟨.binary op t t', .binary reads unfolds unfolds', rfl⟩

theorem quotient {c : ScalarId} (reads : s.Reads h (.quotient f c)) (dividend : m.Denotes ρ f x) :
    m.Denotes ρ h (m.quotient c x) := by
  obtain ⟨t, unfolds, rfl⟩ := dividend
  exact ⟨.quotient t c, .quotient reads unfolds, rfl⟩

end Denotes

/-! ## Replacing a leaf -/

/-- Replacing a leaf in a tree is to give the leaf the value of what replaces it. -/
theorem value_replace_leaf {r : FormTree} {z : ∀ i, V i}
    (same : m.value ρ r = ⟨s.home u, z (s.home u)⟩) (t : FormTree) :
    m.value ρ (t.replace (.leaf u) r) = m.value (ρ.update u z) t := by
  induction t with
  | leaf f =>
    by_cases here : f = u
    · subst here
      rw [FormTree.replace_self, same, value, LeafValues.update, Function.update_self]
    · rw [FormTree.replace, if_neg (by simpa using here), value, value, LeafValues.update,
        Function.update_of_ne here]
  | unary op a ih | quotient a c ih | scaled c a ih =>
    rw [FormTree.replace, if_neg (by simp), value, value, ih]
  | binary op a b left right =>
    rw [FormTree.replace, if_neg (by simp), value, value, left, right]

/-- A form in which a leaf is replaced has the value that the form has if the leaf is given the
value of what replaces it. -/
theorem Denotes.of_substituted {settings : Settings} {z : ∀ i, V i} {e : FormExpr}
    (reachable : Session.Reachable settings s) (reads : s.Reads u e) (isLeaf : e.isLeaf = true)
    (substituted : Form.Substituted s u new f g)
    (replaced : m.Denotes ρ new ⟨s.home u, z (s.home u)⟩)
    (denotes : m.Denotes (ρ.update u z) f x) : m.Denotes ρ g x := by
  obtain ⟨t, unfolds, rfl⟩ := denotes
  obtain ⟨r, unfolds', same⟩ := replaced
  exact ⟨_, substituted.unfolds reachable unfolds (.leaf reads isLeaf) unfolds',
    value_replace_leaf same t⟩

/-! ## Means -/

/-- A sum of forms of a space. -/
theorem Denotes.of_sumOf {i : SpaceId} {others : List FormId} {y : V i}
    (sum : Form.SumOf s f others g) (first : m.Denotes ρ f ⟨i, y⟩)
    (each : ∀ h ∈ others, m.Denotes ρ h ⟨i, ρ i h⟩) :
    m.Denotes ρ g ⟨i, y + (others.map (ρ i)).sum⟩ := by
  induction sum generalizing y with
  | nil =>
    rw [List.map_nil, List.sum_nil, add_zero]
    exact first
  | @cons f h k _ others added _ ih =>
    have next : m.Denotes ρ k ⟨i, y + ρ i h⟩ := by
      rw [← m.binary_sum]
      exact .binary added first (each h List.mem_cons_self)
    have rest := ih next fun h member => each h (List.mem_cons_of_mem _ member)
    rwa [List.map_cons, List.sum_cons, ← add_assoc]

/-- A quotient by a number other than zero. -/
theorem Denotes.of_quotientBy {i : SpaceId} {r : Float} {y : V i}
    (quotient : Form.QuotientBy s f r g) (nonzero : Scalar.rational r ≠ 0)
    (dividend : m.Denotes ρ f ⟨i, y⟩) : m.Denotes ρ g ⟨i, (Scalar.rational r)⁻¹ • y⟩ := by
  obtain ⟨c, k, -, found, ⟨r', value, agrees⟩, reads⟩ := quotient
  have same : Scalar.rational r' = Scalar.rational r := by
    rcases agrees with rfl | equal
    · rfl
    · exact Scalar.rational_eq_of_beq equal
  rw [← same] at nonzero ⊢
  rw [← m.quotient_real y found value nonzero]
  exact .quotient reads dividend

/-- The mean of forms of a space has the mean of their values. -/
theorem Denotes.of_meanOf {i : SpaceId} {fs : List FormId} (mean : Form.MeanOf s fs g)
    (nonzero : Scalar.rational (Float.ofNat fs.length) ≠ 0)
    (each : ∀ f ∈ fs, m.Denotes ρ f ⟨i, ρ i f⟩) :
    m.Denotes ρ g ⟨i, ρ.mean (Scalar.rational (Float.ofNat fs.length)) fs i⟩ := by
  cases mean with
  | single =>
    have one : Scalar.rational (Float.ofNat 1) = 1 := by
      exact_mod_cast Scalar.rational_ofNat (n := 1) (by decide)
    simp only [LeafValues.mean, List.length_singleton, one, inv_one, one_smul, List.map_cons,
      List.map_nil, List.sum_singleton]
    exact each _ List.mem_cons_self
  | @several f h r _ others sum quotient =>
    have total := Denotes.of_sumOf sum (each f List.mem_cons_self)
      fun h member => each h (List.mem_cons_of_mem _ member)
    exact .of_quotientBy quotient nonzero total

/-! ## Values of terms -/

section Terms

variable {G : Type*} [AddCommGroup G] {pairing : TermKind → MeshId → (Σ i, V i) → (Σ i, V i) → G}
  {m : s.Meaning V} {ρ : LeafValues V} {t t' : Signed Term} {y z : G}

/-- A term has a value: that of the pairing of the values of its forms, with its sign. -/
def TermDenotes (m : s.Meaning V) (pairing : TermKind → MeshId → (Σ i, V i) → (Σ i, V i) → G)
    (ρ : LeafValues V) (t : Signed Term) (y : G) : Prop :=
  ∃ a b, m.Denotes ρ t.value.f1 a ∧ m.Denotes ρ t.value.f2 b ∧
    t.valued (fun t => pairing t.kind t.mesh a b) = y

variable (m pairing ρ) in
theorem exists_termDenotes
    (created : Term.create s t.value.kind t.value.f1 t.value.f2 = .ok t.value) :
    ∃ y, m.TermDenotes pairing ρ t y := by
  obtain ⟨-, -, -, _, _, _, ⟨_, _, found, -⟩, ⟨_, _, found', -⟩, -⟩ := Term.create_spec created
  obtain ⟨a, first⟩ := m.exists_denotes ρ found
  obtain ⟨b, second⟩ := m.exists_denotes ρ found'
  exact ⟨_, a, b, first, second, rfl⟩

namespace TermDenotes

/-- A term has one value. -/
theorem unique (denotes : m.TermDenotes pairing ρ t y) (denotes' : m.TermDenotes pairing ρ t z) :
    y = z := by
  obtain ⟨a, b, first, second, rfl⟩ := denotes
  obtain ⟨a', b', first', second', rfl⟩ := denotes'
  rw [first.unique first', second.unique second']

/-- A term in both forms of which a leaf is replaced has the value that the term has if the leaf is
given the value of what replaces it. -/
theorem of_substituted {settings : Settings} {u new : FormId} {x : ∀ i, V i} {e : FormExpr}
    (reachable : Session.Reachable settings s) (reads : s.Reads u e) (isLeaf : e.isLeaf = true)
    (replaced : m.Denotes ρ new ⟨s.home u, x (s.home u)⟩)
    (first : Form.Substituted s u new t.value.f1 t'.value.f1)
    (second : Form.Substituted s u new t.value.f2 t'.value.f2) (sign : t'.sign = t.sign)
    (kind : t'.value.kind = t.value.kind) (mesh : t'.value.mesh = t.value.mesh)
    (denotes : m.TermDenotes pairing (ρ.update u x) t y) : m.TermDenotes pairing ρ t' y := by
  obtain ⟨a, b, denotes, denotes', rfl⟩ := denotes
  refine ⟨a, b, .of_substituted reachable reads isLeaf first replaced denotes,
    .of_substituted reachable reads isLeaf second replaced denotes', ?_⟩
  rw [Signed.valued, Signed.valued, sign, kind, mesh]

end TermDenotes

end Terms

end Session.Meaning

end Variational
