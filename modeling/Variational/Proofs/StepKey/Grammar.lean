import Mathlib.Data.List.DropRight
import Mathlib.Data.List.TakeWhile
import Variational.Proofs.Text.Numerals
import Variational.Time.StepKey

/-!
# The grammar of step keys

A step key spells a sequence of tokens, with blank characters allowed before each of them and at
the end. The expression of the key is derived from the tokens. A chain of operands is derived
from the left, so that its operations associate to the left.
-/

namespace Variational.StepKey

open Text (AllBlank isBlank)

/-- What a step key stands for. -/
inductive Expression
  | number (x : Float)
  | name (text : String)
  | neg (operand : Expression)
  | apply (op : Operation) (left right : Expression)

inductive Token
  | number (text : List Char)
  | name (text : List Char)
  | symbol (c : Char)

/-- The characters that are tokens of their own. -/
def symbols : List Char := ['+', '-', '*', '/', '(', ')']

/-- A text begins with a token and goes on with the given rest. Numbers and names are runs that
the rest does not continue. -/
inductive Begins : Token → List Char → List Char → Prop
  | number {text rest : List Char} (nonempty : text ≠ [])
      (run : ∀ c ∈ text, isNumberChar c = true)
      (maximal : ∀ c ∈ rest.head?, isNumberChar c = false) :
      Begins (.number text) (text ++ rest) rest
  | name {c : Char} {text rest : List Char} (start : isNameStart c = true)
      (run : ∀ d ∈ text, isNameChar d = true)
      (maximal : ∀ d ∈ rest.head?, isNameChar d = false) :
      Begins (.name (c :: text)) (c :: text ++ rest) rest
  | symbol {c : Char} {rest : List Char} (symbol : c ∈ symbols) :
      Begins (.symbol c) (c :: rest) rest

/-- The tokens that a text spells. -/
inductive Spelled : List Char → List Token → Prop
  | done {cs : List Char} (blank : AllBlank cs) : Spelled cs []
  | token {blanks cs rest : List Char} {t : Token} {ts : List Token} (blank : AllBlank blanks)
      (begins : Begins t cs rest) (spelled : Spelled rest ts) : Spelled (blanks ++ cs) (t :: ts)

/-- The levels of the grammar, from the weakest to the tightest. -/
inductive Level
  | sum
  | product
  | factor

/-- The operations that join the operands of a level. -/
def Level.operation? : Level → Char → Option Operation
  | .sum => sumOperation?
  | .product => productOperation?
  | .factor => fun _ => none

/-- The level of the operands of a level. -/
def Level.operand : Level → Level
  | .sum => .product
  | .product => .factor
  | .factor => .factor

/-- The expressions that a sequence of tokens is derived as. -/
inductive Derives : Level → List Token → Expression → Prop
  | operand {level : Level} {ts : List Token} {e : Expression}
      (derives : Derives level.operand ts e) : Derives level ts e
  | join {level : Level} {c : Char} {op : Operation} {ts us : List Token} {e e' : Expression}
      (left : Derives level ts e) (joins : level.operation? c = some op)
      (right : Derives level.operand us e') :
      Derives level (ts ++ .symbol c :: us) (.apply op e e')
  | plus {ts : List Token} {e : Expression} (operand : Derives .factor ts e) :
      Derives .factor (.symbol '+' :: ts) e
  | minus {ts : List Token} {e : Expression} (operand : Derives .factor ts e) :
      Derives .factor (.symbol '-' :: ts) (.neg e)
  | number {text : List Char} {x : Float} (denotes : Decimal.read text = some x) :
      Derives .factor [.number text] (.number x)
  | name {text : List Char} : Derives .factor [.name text] (.name (String.ofList text))
  | group {ts : List Token} {e : Expression} (inner : Derives .sum ts e) :
      Derives .factor (.symbol '(' :: ts ++ [.symbol ')']) e

/-- A key is derivable from the grammar, as the given expression. -/
def Derivable (key : List Char) (e : Expression) : Prop :=
  ∃ ts, Spelled key ts ∧ Derives .sum ts e

/-! ## Characters -/

section Characters

variable {c : Char} {op : Operation}

theorem isLetter_of_isBlank (blank : isBlank c = true) : Text.isLetter c = false := by
  have point : c.toNat ∈ [9, 10, 11, 12, 13, 0x20, 0x85, 0xa0, 0x1680, 0x2000, 0x2001, 0x2002,
      0x2003, 0x2004, 0x2005, 0x2006, 0x2007, 0x2008, 0x2009, 0x200a, 0x2028, 0x2029, 0x202f,
      0x205f, 0x3000] := by
    simp only [isBlank, Bool.or_eq_true, Bool.and_eq_true, decide_eq_true_eq, beq_iff_eq] at blank
    simp only [List.mem_cons, List.not_mem_nil, or_false]
    omega
  have absent : ∀ n ∈ [9, 10, 11, 12, 13, 0x20, 0x85, 0xa0, 0x1680, 0x2000, 0x2001, 0x2002,
      0x2003, 0x2004, 0x2005, 0x2006, 0x2007, 0x2008, 0x2009, 0x200a, 0x2028, 0x2029, 0x202f,
      0x205f, 0x3000], Text.inRanges Text.alphabeticRanges n = false := by decide +kernel
  exact absent _ point

theorem isLetter_of_isDigit (digit : c.isDigit = true) : Text.isLetter c = false := by
  have absent : ∀ k < 10, Text.inRanges Text.alphabeticRanges (48 + k) = false := by
    decide +kernel
  simp only [Char.isDigit, ge_iff_le, Bool.and_eq_true, decide_eq_true_eq] at digit
  have lower : 48 ≤ c.toNat := digit.1
  have upper : c.toNat ≤ 57 := digit.2
  have point : c.toNat = 48 + (c.toNat - 48) := by omega
  rw [Text.isLetter, point]
  exact absent _ (by omega)

theorem isBlank_of_isNumberChar (number : isNumberChar c = true) : isBlank c = false := by
  simp only [isNumberChar, Bool.or_eq_true, beq_iff_eq] at number
  rcases number with digit | rfl
  · exact Text.isBlank_of_isDigit digit
  · decide

theorem isBlank_of_isNameStart (start : isNameStart c = true) : isBlank c = false := by
  by_contra blank
  rw [Bool.not_eq_false] at blank
  simp only [isNameStart, isLetter_of_isBlank blank, Bool.false_or, beq_iff_eq] at start
  subst start
  revert blank
  decide

theorem isNameChar_of_isNameStart (start : isNameStart c = true) : isNameChar c = true := by
  simp only [isNameStart, Bool.or_eq_true] at start
  simp only [isNameChar, Text.isLetterOrNumeral, Bool.or_eq_true]
  tauto

theorem isNumberChar_of_isNameStart (start : isNameStart c = true) : isNumberChar c = false := by
  by_contra number
  simp only [Bool.not_eq_false, isNumberChar, Bool.or_eq_true, beq_iff_eq] at number
  rcases number with digit | rfl
  · simp only [isNameStart, isLetter_of_isDigit digit, Bool.false_or, beq_iff_eq] at start
    subst start
    revert digit
    decide
  · revert start
    decide +kernel

theorem isBlank_of_mem_symbols (symbol : c ∈ symbols) : isBlank c = false := by
  have solid : symbols.all (fun c => !isBlank c) = true := by decide
  simpa using List.all_eq_true.1 solid c symbol

/-- A symbol is no part of a number and begins no name. -/
theorem not_symbol (run : isNumberChar c = true ∨ isNameStart c = true) : c ∉ symbols := by
  have other : symbols.all (fun c => !isNumberChar c && !isNameStart c) = true := by
    decide +kernel
  intro symbol
  have apart := List.all_eq_true.1 other c symbol
  simp only [Bool.and_eq_true, Bool.not_eq_true'] at apart
  simp [apart] at run

theorem sumOperation?_eq_some (joins : sumOperation? c = some op) : c = '+' ∨ c = '-' := by
  unfold sumOperation? at joins
  split at joins
  · exact .inl rfl
  · exact .inr rfl
  · cases joins

theorem productOperation?_eq_some (joins : productOperation? c = some op) :
    c = '*' ∨ c = '/' := by
  unfold productOperation? at joins
  split at joins
  · exact .inl rfl
  · exact .inr rfl
  · cases joins

theorem Level.mem_symbols {level : Level} (joins : level.operation? c = some op) :
    c ∈ symbols := by
  cases level with
  | sum => rcases sumOperation?_eq_some joins with rfl | rfl <;> simp [symbols]
  | product => rcases productOperation?_eq_some joins with rfl | rfl <;> simp [symbols]
  | factor => cases joins

/-- An operation of a level does not join operands of tighter levels. -/
theorem Level.operand_operation? {level : Level} (joins : level.operation? c = some op) :
    level.operand.operation? c = none := by
  cases level with
  | sum => rcases sumOperation?_eq_some joins with rfl | rfl <;> rfl
  | product | factor => rfl

end Characters

/-! ## Tokens -/

section Tokens

variable {cs rest : List Char} {t : Token} {ts : List Token}

theorem skipBlank_idem (cs : List Char) : skipBlank (skipBlank cs) = skipBlank cs :=
  List.dropWhile_idempotent _ cs

theorem length_skipBlank (cs : List Char) : (skipBlank cs).length ≤ cs.length :=
  List.length_dropWhile_le _ cs

theorem exists_blanks (cs : List Char) : ∃ blanks, AllBlank blanks ∧ cs = blanks ++ skipBlank cs :=
  ⟨cs.takeWhile isBlank, fun _ => List.mem_takeWhile_imp, List.takeWhile_append_dropWhile.symm⟩

theorem Begins.head (begins : Begins t cs rest) : ∃ c tail, cs = c :: tail ∧
    (t = .symbol c ∧ c ∈ symbols ∨ isNumberChar c = true ∨ isNameStart c = true) := by
  cases begins with
  | @number text _ nonempty run =>
    obtain ⟨c, tail, rfl⟩ := List.exists_cons_of_ne_nil nonempty
    exact ⟨c, tail ++ rest, rfl, .inr (.inl (run c List.mem_cons_self))⟩
  | @name c text _ start => exact ⟨c, text ++ rest, rfl, .inr (.inr start)⟩
  | @symbol c _ symbol => exact ⟨c, rest, rfl, .inl ⟨rfl, symbol⟩⟩

/-- A token begins with a character that is not blank. -/
theorem Begins.solid (begins : Begins t cs rest) : ∃ c tail, cs = c :: tail ∧ isBlank c = false := by
  obtain ⟨c, tail, whole, ⟨-, symbol⟩ | number | start⟩ := begins.head
  · exact ⟨c, tail, whole, isBlank_of_mem_symbols symbol⟩
  · exact ⟨c, tail, whole, isBlank_of_isNumberChar number⟩
  · exact ⟨c, tail, whole, isBlank_of_isNameStart start⟩

theorem Begins.length_lt (begins : Begins t cs rest) : rest.length < cs.length := by
  cases begins with
  | number nonempty =>
    have := List.length_pos_iff.2 nonempty
    simp only [List.length_append]
    omega
  | name | symbol => simp only [List.length_append, List.length_cons]; omega

theorem Spelled.skipBlank_eq_nil (spelled : Spelled cs []) : skipBlank cs = [] := by
  cases spelled with
  | done blank => exact Text.dropWhile_of_allBlank blank

/-- The first token of a text stands behind its blanks. -/
theorem Spelled.begins (spelled : Spelled cs (t :: ts)) :
    ∃ rest, Begins t (skipBlank cs) rest ∧ Spelled rest ts ∧ rest.length < cs.length := by
  cases spelled with
  | @token blanks cs rest _ _ blank begins spelled =>
    obtain ⟨c, tail, rfl, solid⟩ := begins.solid
    have skipped : skipBlank (blanks ++ c :: tail) = c :: tail := by
      rw [skipBlank, List.dropWhile_append, Text.dropWhile_of_allBlank blank, List.dropWhile_cons,
        solid]
      rfl
    have shorter := begins.length_lt
    refine ⟨rest, by rwa [skipped], spelled, ?_⟩
    rw [List.length_append]
    omega

theorem Spelled.behind (spelled : Spelled rest ts) (begins : Begins t cs rest) :
    Spelled cs (t :: ts) := by
  rw [← List.nil_append cs]
  exact .token (by simp [AllBlank]) begins spelled

theorem Spelled.of_begins (begins : Begins t (skipBlank cs) rest) (spelled : Spelled rest ts) :
    Spelled cs (t :: ts) := by
  obtain ⟨blanks, blank, whole⟩ := exists_blanks cs
  rw [whole]
  exact .token blank begins spelled

/-- Blanks in front of a text spell nothing. -/
theorem spelled_skipBlank : Spelled (skipBlank cs) ts ↔ Spelled cs ts := by
  constructor
  · intro spelled
    cases ts with
    | nil =>
      refine .done (List.dropWhile_eq_nil_iff.1 ?_)
      rw [← skipBlank, ← skipBlank_idem]
      exact spelled.skipBlank_eq_nil
    | cons t ts =>
      obtain ⟨rest, begins, spelled, -⟩ := spelled.begins
      rw [skipBlank_idem] at begins
      exact .of_begins begins spelled
  · intro spelled
    cases ts with
    | nil =>
      rw [spelled.skipBlank_eq_nil]
      exact .done (by simp [AllBlank])
    | cons t ts =>
      obtain ⟨rest, begins, spelled, -⟩ := spelled.begins
      rw [← skipBlank_idem] at begins
      exact .of_begins begins spelled

/-- The longest run is the token. -/
theorem takeWhile_run {p : Char → Bool} {text : List Char} (run : ∀ c ∈ text, p c = true)
    (maximal : ∀ c ∈ rest.head?, p c = false) :
    (text ++ rest).takeWhile p = text ∧ (text ++ rest).dropWhile p = rest := by
  have stops : rest.takeWhile p = [] ∧ rest.dropWhile p = rest := by
    cases rest with
    | nil => exact ⟨rfl, rfl⟩
    | cons c rest => simp [maximal c rfl]
  rw [List.takeWhile_append_of_pos run, List.dropWhile_append_of_pos run, stops.1, stops.2,
    List.append_nil]
  exact ⟨rfl, rfl⟩

/-- What is left behind a longest run does not continue it. -/
theorem head?_dropWhile (p : Char → Bool) (cs : List Char) :
    ∀ c ∈ (cs.dropWhile p).head?, p c = false := by
  intro c member
  have := List.head?_dropWhile_not p cs
  simp_all

end Tokens

end Variational.StepKey
