import Mathlib.Data.List.TakeWhile
import Variational.Text.Blank
import Variational.Text.Index
import Variational.Text.Pieces

/-!
# Numerals and padding

Which texts are read as an index, and what trimming and cutting a text do to the
parts that it is put together from.
-/

namespace Variational.Text

variable {cs before after rest : List Char} {m n : Nat}

/-! ## Padding -/

/-- Only blank characters. -/
def AllBlank (cs : List Char) : Prop :=
  ∀ c ∈ cs, isBlank c = true

theorem dropWhile_of_allBlank (blank : AllBlank cs) : cs.dropWhile isBlank = [] :=
  List.dropWhile_eq_nil_iff.2 blank

theorem trim_append_left (blank : AllBlank before) : trim (before ++ cs) = trim cs := by
  rw [trim, List.dropWhile_append, dropWhile_of_allBlank blank]
  rfl

/-- Dropping the blanks in front commutes with padding at the end. -/
theorem trim_append_right (blank : AllBlank after) : trim (cs ++ after) = trim cs := by
  have reversed : AllBlank after.reverse := fun c member => blank c (List.mem_reverse.1 member)
  rw [trim, trim, List.dropWhile_append]
  split
  · rename_i empty
    rw [List.isEmpty_iff.1 empty, dropWhile_of_allBlank blank]
  · rw [List.reverse_append, List.dropWhile_append, dropWhile_of_allBlank reversed]
    rfl

theorem trim_eq_self (solid : ∀ c ∈ cs, isBlank c = false) : trim cs = cs := by
  have keeps : ∀ xs : List Char, (∀ c ∈ xs, isBlank c = false) → xs.dropWhile isBlank = xs := by
    intro xs solid
    cases xs with
    | nil => rfl
    | cons c xs => rw [List.dropWhile_cons, solid c List.mem_cons_self, if_neg (by simp)]
  rw [trim, keeps cs solid, keeps cs.reverse fun c member => solid c (List.mem_reverse.1 member),
    List.reverse_reverse]

/-- A text is its trimmed text with blanks around it. -/
theorem exists_padding (cs : List Char) :
    ∃ before after, AllBlank before ∧ AllBlank after ∧ cs = before ++ trim cs ++ after := by
  have front : AllBlank (cs.takeWhile isBlank) := fun c => List.mem_takeWhile_imp
  have back : AllBlank (((cs.dropWhile isBlank).reverse.takeWhile isBlank).reverse) :=
    fun c member => List.mem_takeWhile_imp (List.mem_reverse.1 member)
  refine ⟨_, _, front, back, ?_⟩
  rw [trim, List.append_assoc, ← List.reverse_append, List.takeWhile_append_dropWhile,
    List.reverse_reverse, List.takeWhile_append_dropWhile]

theorem trim_eq_nil_iff : trim cs = [] ↔ AllBlank cs := by
  constructor
  · intro empty c member
    obtain ⟨before, after, front, back, whole⟩ := exists_padding cs
    rw [empty, List.append_nil] at whole
    rw [whole] at member
    exact (List.mem_append.1 member).elim (front c) (back c)
  · intro blank
    rw [← List.append_nil cs, trim_append_left blank]
    rfl

/-! ## Cutting at a separator -/

theorem pieces_of_not_mem {separator : Char} (absent : separator ∉ cs) :
    pieces separator cs = [cs] := by
  induction cs with
  | nil => rfl
  | cons c rest ih =>
    rw [List.mem_cons, not_or] at absent
    rw [pieces, if_neg (Ne.symm absent.1), ih absent.2]

theorem pieces_append_cons {separator : Char} (absent : separator ∉ cs) :
    pieces separator (cs ++ separator :: rest) = cs :: pieces separator rest := by
  induction cs with
  | nil => rw [List.nil_append, pieces, if_pos rfl]
  | cons c cs ih =>
    rw [List.mem_cons, not_or] at absent
    rw [List.cons_append, pieces, if_neg (Ne.symm absent.1), ih absent.2]

/-- Cutting undoes joining. -/
theorem pieces_intercalate {separator : Char} {parts : List (List Char)} (nonempty : parts ≠ [])
    (absent : ∀ part ∈ parts, separator ∉ part) :
    pieces separator ([separator].intercalate parts) = parts := by
  induction parts with
  | nil => exact absurd rfl nonempty
  | cons part parts ih =>
    obtain ⟨first, others⟩ := List.forall_mem_cons.1 absent
    cases parts with
    | nil => simpa [List.intercalate] using pieces_of_not_mem first
    | cons next parts =>
      have whole : [separator].intercalate (part :: next :: parts) =
          part ++ separator :: [separator].intercalate (next :: parts) := by
        simp [List.intercalate, List.intersperse]
      rw [whole, pieces_append_cons first, ih (by simp) others]

/-- A text is cut into two pieces if it holds the separator once. -/
theorem pieces_eq_pair_iff {separator : Char} {left right : List Char} :
    pieces separator cs = [left, right] ↔
      cs = left ++ separator :: right ∧ separator ∉ left ∧ separator ∉ right := by
  constructor
  · intro parts
    refine ⟨?_, ?_, ?_⟩
    · rw [← intercalate_pieces separator cs, parts]
      simp [List.intercalate, List.intersperse]
    · exact not_mem_of_mem_pieces (parts ▸ List.mem_cons_self)
    · exact not_mem_of_mem_pieces (parts ▸ List.mem_cons_of_mem _ List.mem_cons_self)
  · intro given
    rcases given with ⟨rfl, absentLeft, absentRight⟩
    rw [pieces_append_cons absentLeft, pieces_of_not_mem absentRight]

/-! ## Numerals -/

/-- A text that spells a number in base ten: ASCII digits after an optional plus sign. -/
inductive Numeral : List Char → Nat → Prop
  | digits {cs : List Char} (nonempty : cs ≠ []) (digits : ∀ c ∈ cs, c.isDigit = true) :
    Numeral cs (digitsValue cs)
  | plus {cs : List Char} (nonempty : cs ≠ []) (digits : ∀ c ∈ cs, c.isDigit = true) :
    Numeral ('+' :: cs) (digitsValue cs)

theorem readIndex_of_digits (nonempty : cs ≠ []) (digits : ∀ c ∈ cs, c.isDigit = true)
    (bounded : digitsValue cs < UInt64.size) (plain : dropPlus before = cs) :
    readIndex before = some (digitsValue cs) := by
  simp only [readIndex, plain]
  rw [if_neg, if_pos bounded]
  simpa [nonempty] using digits

theorem dropPlus_of_digits (digits : ∀ c ∈ cs, c.isDigit = true) : dropPlus cs = cs := by
  cases cs with
  | nil => rfl
  | cons c cs =>
    have : c ≠ '+' := by
      intro sign
      subst sign
      exact absurd (digits '+' List.mem_cons_self) (by decide)
    simp [dropPlus, this]

/-- The texts that are read as an index are the numerals of words of 64 bits. -/
theorem readIndex_eq_some_iff : readIndex cs = some n ↔ Numeral cs n ∧ n < UInt64.size := by
  constructor
  · intro read
    refine ⟨?_, readIndex_lt read⟩
    simp only [readIndex] at read
    split at read
    · cases read
    · rename_i valid
      split at read
      · cases read
        simp only [List.any_eq_true, not_or, not_exists, not_and] at valid
        have digits : ∀ c ∈ dropPlus cs, c.isDigit = true := fun c member => by
          simpa using valid.2 c member
        revert valid digits
        unfold dropPlus
        split
        · exact fun valid digits => .plus valid.1 digits
        · exact fun valid digits => .digits valid.1 digits
      · cases read
  · intro given
    rcases given with ⟨numeral, bounded⟩
    cases numeral with
    | digits nonempty digits =>
      exact readIndex_of_digits nonempty digits bounded (dropPlus_of_digits digits)
    | plus nonempty digits => exact readIndex_of_digits nonempty digits bounded rfl

theorem Numeral.unique (numeral : Numeral cs m) (numeral' : Numeral cs n) : m = n := by
  cases numeral with
  | digits _ digits =>
    cases numeral' with
    | digits => rfl
    | plus => exact absurd (digits '+' List.mem_cons_self) (by decide)
  | plus _ digits =>
    cases numeral' with
    | digits _ plain => exact absurd (plain '+' List.mem_cons_self) (by decide)
    | plus => rfl

/-- A character of a numeral is a digit or a plus sign. -/
theorem Numeral.mem (numeral : Numeral cs n) {c : Char} (member : c ∈ cs) :
    c.isDigit = true ∨ c = '+' := by
  cases numeral with
  | digits _ digits => exact Or.inl (digits c member)
  | plus _ digits =>
    rcases List.mem_cons.1 member with rfl | later
    · exact Or.inr rfl
    · exact Or.inl (digits c later)

theorem isBlank_of_isDigit {c : Char} (digit : c.isDigit = true) : isBlank c = false := by
  simp only [Char.isDigit, ge_iff_le, Bool.and_eq_true, decide_eq_true_eq] at digit
  have low : 48 ≤ c.toNat := digit.1
  have high : c.toNat ≤ 57 := digit.2
  simp only [isBlank, Bool.or_eq_false_iff, Bool.and_eq_false_iff, decide_eq_false_iff_not,
    beq_eq_false_iff_ne, ne_eq]
  omega

theorem Numeral.trim (numeral : Numeral cs n) : trim cs = cs := by
  refine trim_eq_self fun c member => ?_
  rcases numeral.mem member with digit | rfl
  · exact isBlank_of_isDigit digit
  · decide

/-- The decimal digits of a number spell it. -/
theorem numeral_toDigits (n : Nat) : Numeral (Nat.toDigits 10 n) n := by
  have spelled : digitsValue (Nat.toDigits 10 n) = n := Nat.ofDigitChars_ten_toDigits
  have numeral := Numeral.digits (Nat.toDigits_ne_nil (n := n) (b := 10)) fun c member =>
    Nat.isDigit_of_mem_toDigits (by decide) (by decide) member
  rwa [spelled] at numeral

/-! ## Padded indices -/

/-- A numeral of a word of 64 bits with blanks around it. -/
def SpellsIndex (cs : List Char) (n : Nat) : Prop :=
  ∃ before core after, cs = before ++ core ++ after ∧ AllBlank before ∧ AllBlank after ∧
    Numeral core n ∧ n < UInt64.size

theorem spellsIndex_iff : SpellsIndex cs n ↔ readIndex (trim cs) = some n := by
  rw [readIndex_eq_some_iff]
  constructor
  · intro given
    rcases given with ⟨before, core, after, rfl, front, back, numeral, bounded⟩
    rw [trim_append_right back, trim_append_left front, numeral.trim]
    exact ⟨numeral, bounded⟩
  · intro given
    rcases given with ⟨numeral, bounded⟩
    obtain ⟨before, after, front, back, whole⟩ := exists_padding cs
    exact ⟨before, _, after, whole, front, back, numeral, bounded⟩

/-- A padded index holds none of the separators between indices. -/
theorem SpellsIndex.not_mem (spells : SpellsIndex cs n) {c : Char}
    (separator : c ∈ [',', '=', '-']) : c ∉ cs := by
  have apart : isBlank c = false ∧ c.isDigit = false ∧ c ≠ '+' := by
    simp only [List.mem_cons, List.not_mem_nil, or_false] at separator
    rcases separator with rfl | rfl | rfl <;> decide
  obtain ⟨solid, digit, plus⟩ := apart
  obtain ⟨before, core, after, rfl, front, back, numeral, -⟩ := spells
  intro member
  rw [List.mem_append, List.mem_append] at member
  rcases member with (inFront | inCore) | inBack
  · exact absurd (front c inFront) (by simp [solid])
  · rcases numeral.mem inCore with isDigit | same
    · exact absurd isDigit (by simp [digit])
    · exact plus same
  · exact absurd (back c inBack) (by simp [solid])

theorem SpellsIndex.unique (spells : SpellsIndex cs m) (spells' : SpellsIndex cs n) : m = n := by
  rw [spellsIndex_iff] at spells spells'
  exact Option.some.inj (spells.symm.trans spells')

/-- The decimal digits of a number spell it alone, and only if it is a word. -/
theorem spellsIndex_toDigits : SpellsIndex (Nat.toDigits 10 n) m ↔ m = n ∧ n < UInt64.size := by
  rw [spellsIndex_iff, (numeral_toDigits n).trim, readIndex_eq_some_iff]
  constructor
  · rintro ⟨numeral, bounded⟩
    obtain rfl := numeral.unique (numeral_toDigits n)
    exact ⟨rfl, bounded⟩
  · rintro ⟨rfl, bounded⟩
    exact ⟨numeral_toDigits _, bounded⟩

theorem not_mem_toDigits {c : Char} (digit : c.isDigit = false) (n : Nat) :
    c ∉ Nat.toDigits 10 n := by
  intro member
  have isDigit := Nat.isDigit_of_mem_toDigits (by decide) (by decide) member
  rw [digit] at isDigit
  cases isDigit

theorem readIndex_toDigits (n : UInt64) :
    readIndex (trim (Nat.toDigits 10 n.toNat)) = some n.toNat := by
  have numeral := numeral_toDigits n.toNat
  rw [numeral.trim]
  exact readIndex_eq_some_iff.2 ⟨numeral, n.toNat_lt⟩

end Variational.Text
