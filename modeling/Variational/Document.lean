/-!
# Documents

A document is a tree of numbers, texts, lists and records, such as a
configuration file or an exported system consists of.
-/

namespace Variational

/-- A tree of numbers, texts, lists and records. -/
inductive Document
  | missing
  | truth (b : Bool)
  | natural (n : Nat)
  /-- A number that is not written as a natural one. -/
  | number (x : Float)
  | text (s : String)
  | list (items : List Document)
  | record (members : List (String × Document))
deriving Inhabited

namespace Document

/-- Reads a number of 64 bits. -/
def word? : Document → Option UInt64
  | .natural n => if n < UInt64.size then some (UInt64.ofNat n) else none
  | _ => none

theorem word?_toNat (n : UInt64) : word? (.natural n.toNat) = some n := by
  have bound : n.toNat < UInt64.size := n.toNat_lt_size
  simp only [word?, if_pos bound, UInt64.ofNat_toNat]

/-- Reads a text. -/
def text? : Document → Option String
  | .text s => some s
  | _ => none

/-- The members of a record with the given names. A record may also be written as the list
of its values in the order of their names. -/
def members (names : List String) : Document → Option (List (String × Document))
  | .record members => some members
  | .list items => if items.length ≤ names.length then some (names.zip items) else none
  | _ => none

/-- Reads a member that has to be there. -/
def required {α : Type} (members : List (String × Document)) (name : String)
    (read : Document → Option α) : Option α := do
  read (← members.lookup name)

/-- Reads a member, or gives its default if it is missing. -/
def optional {α : Type} (members : List (String × Document)) (name : String)
    (read : Document → Option α) (standard : α) : Option α :=
  match members.lookup name with
  | some d => read d
  | none => some standard

end Document

end Variational
