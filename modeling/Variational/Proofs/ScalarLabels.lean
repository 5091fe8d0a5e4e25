import Mathlib.Algebra.Field.Rat
import Variational.Proofs.ArrayLabels

/-!
# What the labels of scalars spell

The linguistic label of a derived scalar is composed from those of its operands without
any grouping, so it spells a list of root scalars with an operation between any two
neighbours. Labels spell one such list only. Read with quotients before sums, and from
left to right, the label of every sum has the sum of the values, while the label of a
quotient has the quotient if no sum is divided and nothing but a root divides.
-/

namespace Variational

/-- The operations on two scalars. -/
inductive ScalarOperator
  | sum
  | quotient
deriving DecidableEq, Repr

namespace ScalarOperator

/-- The glyph between two operands. -/
def glyph : ScalarOperator → String
  | .sum => ({} : LinGlyphs).plus
  | .quotient => ({} : LinGlyphs).division

def apply : ScalarOperator → ℚ → ℚ → ℚ
  | .sum, x, y => x + y
  | .quotient, x, y => x / y

theorem glyph_append_ne_nil (op : ScalarOperator) (back : List Char) :
    op.glyph.toList ++ back ≠ [] := by
  cases op <;> simp [glyph]

/-- Glyphs begin with a blank and differ in the character behind it. -/
theorem glyph_append_inj {op op' : ScalarOperator} {back back' : List Char}
    (same : op.glyph.toList ++ back = op'.glyph.toList ++ back') : op = op' ∧ back = back' := by
  cases op <;> cases op'
  · exact ⟨rfl, List.append_cancel_left same⟩
  · simp [glyph] at same
  · simp [glyph] at same
  · exact ⟨rfl, List.append_cancel_left same⟩

end ScalarOperator

/-- The label of a root scalar in the label of a derived one. -/
def Scalar.rootLin (lin : String) : String :=
  ({} : RootWrappers).scalar.wrap lin

/-- The label of a root scalar ends at its first brace. -/
theorem Scalar.rootLin_append_inj {lin lin' : String} {back back' : List Char}
    (plain : '}' ∉ lin.toList) (plain' : '}' ∉ lin'.toList)
    (same : (rootLin lin).toList ++ back = (rootLin lin').toList ++ back') :
    lin = lin' ∧ back = back' := by
  simp only [rootLin, Wrapper.wrap, String.toList_append, List.append_assoc] at same
  have inner : lin.toList ++ '}' :: back = lin'.toList ++ '}' :: back' :=
    List.append_cancel_left same
  have unbraced : ∀ {text : List Char}, '}' ∉ text → ∀ c ∈ text, decide (c ≠ '}') = true :=
    fun plain c member => decide_eq_true fun brace => plain (brace ▸ member)
  obtain ⟨lins, -, backs⟩ :=
    Labels.append_cons_inj (unbraced plain) (unbraced plain') (by decide) (by decide) inner
  exact ⟨String.toList_injective lins, backs⟩

/-- The labels of root scalars, with the operations between them. -/
@[ext] structure ScalarSpelling where
  head : String
  rest : List (ScalarOperator × String)
deriving DecidableEq, Repr

namespace ScalarSpelling

def textOf : List (ScalarOperator × String) → List Char
  | [] => []
  | (op, lin) :: rest => op.glyph.toList ++ ((Scalar.rootLin lin).toList ++ textOf rest)

/-- The label that is spelled. -/
def text (p : ScalarSpelling) : List Char :=
  (Scalar.rootLin p.head).toList ++ textOf p.rest

/-- No label of a root scalar has a closing brace. -/
def Plain (p : ScalarSpelling) : Prop :=
  '}' ∉ p.head.toList ∧ ∀ x ∈ p.rest, '}' ∉ x.2.toList

/-! ## Spellings are told apart -/

theorem textOf_inj {xs ys : List (ScalarOperator × String)} (plain : ∀ x ∈ xs, '}' ∉ x.2.toList)
    (plain' : ∀ y ∈ ys, '}' ∉ y.2.toList) (same : textOf xs = textOf ys) : xs = ys := by
  induction xs generalizing ys with
  | nil =>
    cases ys with
    | nil => rfl
    | cons y ys => exact absurd same.symm (ScalarOperator.glyph_append_ne_nil _ _)
  | cons x xs ih =>
    cases ys with
    | nil => exact absurd same (ScalarOperator.glyph_append_ne_nil _ _)
    | cons y ys =>
      obtain ⟨op, lin⟩ := x
      obtain ⟨op', lin'⟩ := y
      rw [List.forall_mem_cons] at plain plain'
      obtain ⟨rfl, texts⟩ := ScalarOperator.glyph_append_inj same
      obtain ⟨rfl, rests⟩ := Scalar.rootLin_append_inj plain.1 plain'.1 texts
      rw [ih plain.2 plain'.2 rests]

/-- A label spells one list of root scalars and operations. -/
theorem text_inj {p q : ScalarSpelling} (plain : p.Plain) (plain' : q.Plain)
    (same : p.text = q.text) : p = q := by
  obtain ⟨heads, rests⟩ := Scalar.rootLin_append_inj plain.1 plain'.1 same
  exact ScalarSpelling.ext heads (textOf_inj plain.2 plain'.2 rests)

/-! ## Joined spellings -/

/-- Two spellings with an operation between them. -/
def joined (p : ScalarSpelling) (op : ScalarOperator) (q : ScalarSpelling) : ScalarSpelling :=
  ⟨p.head, p.rest ++ (op, q.head) :: q.rest⟩

theorem textOf_append (xs ys : List (ScalarOperator × String)) :
    textOf (xs ++ ys) = textOf xs ++ textOf ys := by
  induction xs with
  | nil => rfl
  | cons x xs ih => simp [textOf, ih]

theorem text_joined (p : ScalarSpelling) (op : ScalarOperator) (q : ScalarSpelling) :
    (p.joined op q).text = p.text ++ (op.glyph.toList ++ q.text) := by
  simp [joined, text, textOf_append, textOf]

theorem Plain.joined {p q : ScalarSpelling} (plain : p.Plain) (plain' : q.Plain)
    (op : ScalarOperator) : (p.joined op q).Plain := by
  refine ⟨plain.1, fun x member => ?_⟩
  rcases List.mem_append.1 member with front | back
  · exact plain.2 x front
  · rcases List.mem_cons.1 back with rfl | later
    · exact plain'.1
    · exact plain'.2 x later

/-! ## Values -/

variable (ρ : String → ℚ)

/-- The value of the operations behind a value, quotients before sums. -/
def valueFrom : ℚ → List (ScalarOperator × String) → ℚ
  | x, [] => x
  | x, (.sum, lin) :: rest => x + valueFrom (ρ lin) rest
  | x, (.quotient, lin) :: rest => valueFrom (x / ρ lin) rest

/-- The value of a spelling, for values of the root scalars. -/
def value (p : ScalarSpelling) : ℚ :=
  valueFrom ρ (ρ p.head) p.rest

theorem valueFrom_append_sum (x : ℚ) (xs ys : List (ScalarOperator × String)) (lin : String) :
    valueFrom ρ x (xs ++ (.sum, lin) :: ys) =
      valueFrom ρ x xs + valueFrom ρ (ρ lin) ys := by
  induction xs generalizing x with
  | nil => rfl
  | cons y xs ih =>
    obtain ⟨op, lin'⟩ := y
    cases op with
    | sum => rw [List.cons_append, valueFrom, ih, valueFrom, add_assoc]
    | quotient => rw [List.cons_append, valueFrom, ih, valueFrom]

theorem valueFrom_append_quotient {x : ℚ} {xs : List (ScalarOperator × String)}
    (unsummed : ∀ y ∈ xs, y.1 = .quotient) (lin : String) :
    valueFrom ρ x (xs ++ [(.quotient, lin)]) = valueFrom ρ x xs / ρ lin := by
  induction xs generalizing x with
  | nil => rfl
  | cons y xs ih =>
    obtain ⟨op, lin'⟩ := y
    rw [List.forall_mem_cons] at unsummed
    obtain rfl : op = .quotient := unsummed.1
    rw [List.cons_append, valueFrom, ih unsummed.2, valueFrom]

/-- The label of a sum is read as the sum. -/
theorem value_joined_sum (p q : ScalarSpelling) :
    (p.joined .sum q).value ρ = p.value ρ + q.value ρ :=
  valueFrom_append_sum ρ _ _ _ _

/-- The label of a quotient without a sum is read as the quotient by a root scalar. -/
theorem value_joined_quotient {p q : ScalarSpelling} (unsummed : ∀ x ∈ p.rest, x.1 = .quotient)
    (root : q.rest = []) : (p.joined .quotient q).value ρ = p.value ρ / q.value ρ := by
  rw [value, joined, root, valueFrom_append_quotient ρ unsummed, value, value, root]
  rfl

/-- A spelling with a sum in it has the glyph of sums. -/
theorem glyph_infix_textOf {xs : List (ScalarOperator × String)} {op : ScalarOperator}
    {lin : String} (member : (op, lin) ∈ xs) : op.glyph.toList <:+: textOf xs := by
  obtain ⟨front, back, rfl⟩ := List.append_of_mem member
  rw [textOf_append, textOf]
  exact ⟨textOf front, _, by rw [List.append_assoc]⟩

theorem unsummed_of_text {p : ScalarSpelling}
    (unsummed : ¬ ScalarOperator.sum.glyph.toList <:+: p.text) :
    ∀ x ∈ p.rest, x.1 = .quotient := by
  rintro ⟨op, lin⟩ member
  cases op with
  | quotient => rfl
  | sum =>
    have inner := glyph_infix_textOf member
    exact absurd (inner.trans (List.suffix_append _ _).isInfix) unsummed

end ScalarSpelling

end Variational
