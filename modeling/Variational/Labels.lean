import Variational.Rejection
import Variational.Text.Blank

/-!
# Labels of entities

A root entity has a symbolic and a linguistic label. A label index records the
labels of the root entities of one kind, so that no two of them share a label.
Entities without labels of their own get the first free numbered variant of a
default label.
-/

namespace Variational

/-- The symbolic and the linguistic label of an entity. -/
@[ext] structure Labels where
  sym : String
  lin : String
deriving DecidableEq, Repr

namespace Labels

/-- The characters that wrappers and operators of composed labels need. -/
def reservedCharacters : List Char := ['{', '$', '\\', '}']

/-- Checks labels that a user supplies for a new root entity: the symbolic label has a
character that is not blank, and the linguistic label is not empty and has no reserved
character. -/
def validate (labels : Labels) (kind : EntityKind) : Outcome Unit :=
  if labels.sym.toList.all Text.isBlank then
    reject (.malformed (.blankSymbol kind))
  else if labels.lin.toList = [] then
    reject (.malformed (.emptyLabel kind))
  else
    match labels.lin.toList.find? (· ∈ reservedCharacters) with
    | some c => reject (.malformed (.reservedCharacter labels.lin kind c))
    | none => .ok ()

/-- The variants of a symbol: the symbol itself, then the symbol with a subscript. -/
def numberedSym (sym : String) (n : Nat) : String :=
  if n = 0 then sym else s!"{sym}_\x7b{n}\x7d"

/-- The variants of a pair of labels. -/
def numbered (labels : Labels) (n : Nat) : Labels :=
  if n = 0 then labels else ⟨numberedSym labels.sym n, s!"{labels.lin}{n}"⟩

end Labels

/-- The least number below a bound with a property, or the bound if there is none. -/
def leastBelow (bound : Nat) (p : Nat → Bool) : Nat :=
  ((List.range bound).find? p).getD bound

/-- The labels of the root entities of one kind, in the order of their registration. -/
structure LabelIndex (kind : EntityKind) where
  entries : List (Labels × EntityId kind) := []
deriving DecidableEq, Repr

namespace LabelIndex

variable {kind : EntityKind}

/-- The entity with a symbolic label. -/
def bySym? (index : LabelIndex kind) (sym : String) : Option (EntityId kind) :=
  (index.entries.find? (·.1.sym = sym)).map (·.2)

/-- The entity with a linguistic label. -/
def byLin? (index : LabelIndex kind) (lin : String) : Option (EntityId kind) :=
  (index.entries.find? (·.1.lin = lin)).map (·.2)

/-- Whether a symbolic label is taken. -/
def hasSym (index : LabelIndex kind) (sym : String) : Bool :=
  (index.bySym? sym).isSome

/-- Whether a linguistic label is taken. -/
def hasLin (index : LabelIndex kind) (lin : String) : Bool :=
  (index.byLin? lin).isSome

/-- The number of registered entities. -/
def size (index : LabelIndex kind) : Nat :=
  index.entries.length

/-- Rejects labels of which one is taken; the symbolic label is looked at first. -/
def checkAvailable (index : LabelIndex kind) (labels : Labels) : Outcome Unit :=
  if index.hasSym labels.sym then
    reject (.identityConflict kind labels.sym)
  else if index.hasLin labels.lin then
    reject (.identityConflict kind labels.lin)
  else
    .ok ()

/-- Records the labels of a new entity. Both labels must be available. -/
def insert (index : LabelIndex kind) (labels : Labels) (id : EntityId kind) : LabelIndex kind :=
  ⟨index.entries ++ [(labels, id)]⟩

/-- The first numbered variant of a pair of labels of which neither is taken. Each entry
takes at most two variants, which bounds the search. -/
def nextFree (index : LabelIndex kind) (labels : Labels) : Labels :=
  labels.numbered <| leastBelow (2 * index.size) fun n =>
    !index.hasSym (labels.numbered n).sym && !index.hasLin (labels.numbered n).lin

end LabelIndex

end Variational
