import Variational.WeakForm.Basic

/-!
# Integration by parts and splitting

Both replace the term at an address by several terms in the same place, and
check the new terms against the test form of their equation.
-/

namespace Variational

/-! ## Integration by parts -/

/-- The form `a` of an inner product of `δ a`. -/
def Term.codifferentiated? (s : Session) (t : Term) : Outcome (Option FormId) := do
  match t.kind, (← s.form t.f1).expr with
  | .innerProduct, .unary .codifferential a => return some a
  | _, _ => return none

/-- The terms `(a, d b)` and `<tr ⋆a, tr b>`. -/
def Term.greenTerms (a b : FormId) : Derive (Term × Term) := do
  let db ← Form.apply .derivative b
  let volume ← Term.create (← get) .innerProduct a db
  let hodge ← Form.apply .hodge a
  let traceHodge ← Form.apply .trace hodge
  let trace ← Form.apply .trace b
  let boundary ← Term.create (← get) .dualityPairing traceHodge trace
  return (volume, boundary)

/-- Replaces the term `(δ a, b)` at an address by `(a, d b)` with the same sign, followed
by the boundary term `<tr ⋆a, tr b>` with the opposite sign. -/
def WeakFormulation.integrateByParts (w : WeakFormulation) (address : String) :
    Derive WeakFormulation := do
  let (equation, side, place) ← w.locate address
  let signed ← w.term address
  match ← signed.value.codifferentiated? (← get) with
  | none => reject (.pattern (.notIntegrable signed.value.lin))
  | some a =>
    let (volume, boundary) ← Term.greenTerms a signed.value.f2
    w.splice (← get) equation side place
      [⟨signed.sign, volume⟩, ⟨signed.sign.flipped, boundary⟩]

/-! ## Splitting -/

/-- A form of a term. -/
inductive Slot
  | first
  | second
deriving DecidableEq, Repr

/-- Reads a slot. -/
def Slot.read (text : String) : Outcome Slot :=
  if text = "f0" then .ok .first
  else if text = "f1" then .ok .second
  else reject (.malformed (.slot text))

/-- The term with another form in a slot. -/
def Term.withForm (s : Session) (t : Term) (slot : Slot) (f : FormId) : Outcome Term :=
  match slot with
  | .first => Term.create s t.kind f t.f2
  | .second => Term.create s t.kind t.f1 f

/-- A form that a term is split into, with its sign and its factor. -/
structure Piece where
  form : FormId
  sign : Sign
  factor : Option ScalarOperand

/-- Pairs up pieces, signs and factors, if there are equally many. -/
def Piece.zip? (forms : List FormId) (signs : List Sign)
    (factors : Option (List ScalarOperand)) : Option (List Piece) :=
  if forms = [] ∨ forms.length ≠ signs.length then
    none
  else
    match factors with
    | none => some (forms.zipWith (fun f sign => ⟨f, sign, none⟩) signs)
    | some factors =>
      if factors.length ≠ forms.length then
        none
      else
        some ((forms.zip signs).zipWith (fun p factor => ⟨p.1, p.2, some factor⟩) factors)

/-- The term with the multiple of a piece in a slot. -/
def Piece.term (piece : Piece) (t : Signed Term) (slot : Slot) : Derive (Signed Term) := do
  let f ← match piece.factor with
    | some factor => Form.scale factor piece.form
    | none => pure piece.form
  return ⟨t.sign.compose piece.sign, ← t.value.withForm (← get) slot f⟩

/-- Splits the term at an address into one term per piece. The form in the slot is replaced
by the multiple of the piece, and the sign of the piece is composed with that of the term. -/
def WeakFormulation.split (w : WeakFormulation) (address : String) (slot : Slot)
    (forms : List FormId) (signs : List Sign) (factors : Option (List ScalarOperand)) :
    Derive WeakFormulation := do
  match Piece.zip? forms signs factors with
  | none => reject (.structural (.splitLengths address))
  | some pieces =>
    let (equation, side, place) ← w.locate address
    let old ← w.term address
    let terms ← pieces.mapM fun piece => piece.term old slot
    w.splice (← get) equation side place terms

end Variational
