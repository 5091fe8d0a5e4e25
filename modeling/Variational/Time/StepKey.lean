import Variational.Rejection
import Variational.Decimal.Reading
import Variational.Text.Blank
import Variational.Text.Letter

/-!
# Step keys

The key of a time instant, such as `k-1/2`, is an arithmetic expression:

    sum     := product (('+' | '-') product)*
    product := factor (('*' | '/') factor)*
    factor  := ('+' | '-') factor | number | name | '(' sum ')'

with blank characters allowed between tokens. A key is read into a tree, and the
tree is evaluated from left to right. A tree records where reading broke off, so
that the first fault in reading order decides between several.
-/

namespace Variational.StepKey

/-- The operations between two operands. -/
inductive Operation
  | add
  | sub
  | mul
  | div
deriving DecidableEq, Repr

/-- A step key as a tree. -/
inductive Tree
  | number (x : Float)
  | name (text : String)
  | neg (operand : Tree)
  | apply (op : Operation) (left right : Tree)
  /-- Reading broke off here. -/
  | broken (fault : KeyFault)
  /-- Reading broke off after the given part. -/
  | stopped (before : Tree) (fault : KeyFault)

/-! ## Reading -/

/-- A text without leading blank characters. -/
def skipBlank (cs : List Char) : List Char :=
  cs.dropWhile Text.isBlank

def isNumberChar (c : Char) : Bool :=
  c.isDigit || c == '.'

def isNameStart (c : Char) : Bool :=
  Text.isLetter c || c == '_'

def isNameChar (c : Char) : Bool :=
  Text.isLetterOrNumeral c || c == '_'

/-- The operations of a sum. -/
def sumOperation? : Char → Option Operation
  | '+' => some .add
  | '-' => some .sub
  | _ => none

/-- The operations of a product. -/
def productOperation? : Char → Option Operation
  | '*' => some .mul
  | '/' => some .div
  | _ => none

/-- The rest of a chain of operands that associates to the left: as long as the next
character is one of the operations, it and one more operand are added. The number of
steps need not exceed the length of the text. -/
def readTail (operation? : Char → Option Operation) (operand : List Char → Tree × List Char) :
    (steps : Nat) → Tree → List Char → Tree × List Char
  | 0, tree, cs => (tree, cs)
  | steps + 1, tree, cs =>
    match skipBlank cs with
    | [] => (tree, [])
    | c :: rest =>
      match operation? c with
      | none => (tree, c :: rest)
      | some op =>
        let (right, after) := operand rest
        readTail operation? operand steps (.apply op tree right) after

/-- A chain of operands that associates to the left. -/
def readChain (operation? : Char → Option Operation) (operand : List Char → Tree × List Char)
    (cs : List Char) : Tree × List Char :=
  let (first, rest) := operand cs
  readTail operation? operand rest.length first rest

/-- A sum of products of factors. -/
def readSum (factor : List Char → Tree × List Char) : List Char → Tree × List Char :=
  readChain sumOperation? (readChain productOperation? factor)

/-- A number: the longest run of digits and points. -/
def readNumber (cs : List Char) : Tree × List Char :=
  let text := cs.takeWhile isNumberChar
  let tree := match Decimal.read text with
    | some x => .number x
    | none => .broken (.badNumber (String.ofList text))
  (tree, cs.dropWhile isNumberChar)

/-- A name: the longest run of letters, numerals and underscores. -/
def readName (cs : List Char) : Tree × List Char :=
  (.name (String.ofList (cs.takeWhile isNameChar)), cs.dropWhile isNameChar)

/-- A factor. Signs and parentheses nest no deeper than the text is long. -/
def readFactor : (depth : Nat) → List Char → Tree × List Char
  | 0, cs => (.broken .unexpectedEnd, cs)
  | depth + 1, cs =>
    match skipBlank cs with
    | [] => (.broken .unexpectedEnd, [])
    | '+' :: rest => readFactor depth rest
    | '-' :: rest =>
      let (operand, after) := readFactor depth rest
      (.neg operand, after)
    | '(' :: rest =>
      let (inner, after) := readSum (readFactor depth) rest
      match skipBlank after with
      | ')' :: closed => (inner, closed)
      | unclosed => (.stopped inner .unbalanced, unclosed)
    | c :: rest =>
      if isNumberChar c then readNumber (c :: rest)
      else if isNameStart c then readName (c :: rest)
      else (.broken (.unexpectedCharacter c), c :: rest)

/-- Reads a whole key. -/
def read (key : List Char) : Tree :=
  let (tree, rest) := readSum (readFactor (key.length + 1)) key
  match skipBlank rest with
  | [] => tree
  | c :: _ => .stopped tree (.unexpectedCharacter c)

/-! ## Evaluating -/

/-- The value of a name: its first binding. -/
def lookup (bindings : List (String × Float)) (name : String) : Option Float :=
  (bindings.find? (·.1 = name)).map (·.2)

/-- The result of an operation; a zero divisor is rejected. -/
def Operation.eval (key : String) : Operation → Float → Float → Outcome Float
  | .add, x, y => .ok (x + y)
  | .sub, x, y => .ok (x - y)
  | .mul, x, y => .ok (x * y)
  | .div, x, y =>
    if y == 0.0 then reject (.malformed (.stepValue key .divisionByZero)) else .ok (x / y)

/-- The value of a tree, computed from left to right. -/
def Tree.eval (key : String) (bindings : List (String × Float)) : Tree → Outcome Float
  | .number x => .ok x
  | .name text =>
    match lookup bindings text with
    | some x => .ok x
    | none => reject (.instant (.unboundVariable text key))
  | .neg operand => do return -(← operand.eval key bindings)
  | .apply op left right => do
    let x ← left.eval key bindings
    let y ← right.eval key bindings
    op.eval key x y
  | .broken fault => reject (.malformed (.stepValue key fault))
  | .stopped before fault => do
    let _ ← before.eval key bindings
    reject (.malformed (.stepValue key fault))

/-- The value of a step key with the given values of its names. -/
def evaluate (key : String) (bindings : List (String × Float)) : Outcome Float :=
  (read key.toList).eval key bindings

end Variational.StepKey
