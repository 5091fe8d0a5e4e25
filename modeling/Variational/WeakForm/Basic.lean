import Variational.Equation
import Variational.Term.Basic
import Variational.Text.Pieces

/-!
# Weak formulations

A weak formulation has one test form per equation, and every term of an equation
is tested with the equation's test form. Terms are addressed by texts `i-j`: the
equation `i`, and the position `j` of the term in it, which continues across the
equals sign. Derivations give new formulations and leave the old ones alone.
-/

namespace Variational

/-! ## Addresses of terms -/

/-- The address of a term: its equation, and its position in the equation. -/
@[ext] structure Position where
  equation : Nat
  term : Nat
deriving DecidableEq, Repr

namespace Position

def text (p : Position) : String :=
  s!"{p.equation}-{p.term}"

/-- Reads one number of an address; blank characters around it are allowed. -/
def readNumber (address : String) (piece : List Char) : Outcome Nat :=
  match Text.readIndex (Text.trim piece) with
  | some n => .ok n
  | none => reject (.index address (.notANumber (String.ofList piece)))

/-- Reads an address `i-j`. -/
def read (address : String) : Outcome Position :=
  match Text.pieces '-' address.toList with
  | [equation, term] => do
    return ⟨← readNumber address equation, ← readNumber address term⟩
  | _ => reject (.index address .notATermAddress)

/-- The order of positions: by equation, then by term. -/
def precedes (p q : Position) : Bool :=
  p.equation < q.equation || (p.equation == q.equation && p.term < q.term)

end Position

/-! ## Formulations -/

/-- Equations of terms on a mesh and its boundary, with a test form for each. -/
structure WeakFormulation where
  mesh : MeshId
  equations : List (Equation Term)
  testForms : List FormId
  unknowns : Option (List FormId)
deriving DecidableEq, Repr

namespace WeakFormulation

/-- The mesh that a form lives on. -/
def meshOf (s : Session) (f : FormId) : Outcome MeshId := do
  return (← s.space (← s.form f).space).mesh

/-- Checks a term of an equation: it is tested with the equation's test form and lives on
the mesh of the formulation or on its boundary. -/
def checkTerm (s : Session) (mesh : MeshId) (equation : Nat) (testForm : FormId) (t : Term) :
    Outcome Unit := do
  if (← t.testForm? s) ≠ some testForm then
    reject (.structural (.wronglyTested t.lin equation (← s.form testForm).lin))
  if t.mesh ≠ mesh then
    if (← s.mesh t.mesh).inclusion ≠ some mesh then
      reject (.structural (.termMesh t.lin))

/-- Checks one equation and its test form. -/
def checkEquation (s : Session) (mesh : MeshId) (equation : Nat) (e : Equation Term)
    (testForm : FormId) : Outcome Unit := do
  if e.size = 0 then
    reject (.structural (.emptyEquation equation))
  if (← meshOf s testForm) ≠ mesh then
    reject (.structural (.testFormMesh (← s.form testForm).lin))
  e.terms.forM fun t => checkTerm s mesh equation testForm t.value

/-- Checks equations against their test forms, giving the mesh of the test forms. -/
def check (s : Session) (equations : List (Equation Term)) (testForms : List FormId) :
    Outcome MeshId := do
  if equations.length = 0 then
    reject (.structural .noWeakEquations)
  if equations.length ≠ testForms.length then
    reject (.structural (.testFormCount equations.length testForms.length))
  match testForms with
  | [] => reject (.structural .noWeakEquations)
  | first :: _ =>
    let mesh ← meshOf s first
    (equations.zip testForms).zipIdx.forM fun ((e, testForm), i) =>
      checkEquation s mesh i e testForm
    return mesh

/-- The weak formulation with the given equations, one for every test form. -/
def create (s : Session) (equations : List (Equation Term)) (testForms : List FormId) :
    Outcome WeakFormulation := do
  let mesh ← check s equations testForms
  return { mesh, equations, testForms, unknowns := none }

/-- Puts the signs of one side in front of its terms. -/
def signSide (equation : Nat) (terms : List Term) (signs : List Sign) :
    Outcome (List (Signed Term)) :=
  if terms.length ≠ signs.length then
    reject (.structural (.sideLengths equation terms.length signs.length))
  else
    .ok (signs.zipWith Signed.mk terms)

/-- The weak formulation with equations given by tables of terms and of signs, which have
the same shape. A side is a pair of the left and the right list. -/
def ofTables (s : Session) (terms : List (List Term × List Term))
    (signs : List (List Sign × List Sign)) (testForms : List FormId) :
    Outcome WeakFormulation := do
  if terms.length ≠ signs.length then
    reject (.structural (.tableLengths terms.length signs.length))
  let equations ← (terms.zip signs).zipIdx.mapM fun ((t, sign), i) => do
    let left ← signSide i t.1 sign.1
    let right ← signSide i t.2 sign.2
    return (⟨left, right⟩ : Equation Term)
  create s equations testForms

/-- Declares the unknowns, which are root forms. -/
def withUnknowns (s : Session) (w : WeakFormulation) (unknowns : List FormId) :
    Outcome WeakFormulation := do
  unknowns.forM fun u => do
    let f ← s.form u
    if !f.isRoot then
      reject (.unsupported (.unknownNotRoot f.lin))
  return { w with unknowns := some unknowns }

/-- The equation, side and place of the term at an address. -/
def locate (w : WeakFormulation) (address : String) : Outcome (Nat × Side × Nat) := do
  let position ← Position.read address
  match w.equations[position.equation]? with
  | none => reject (.index address (.equationCount w.equations.length))
  | some e =>
    match e.locate position.term with
    | none => reject (.index address (.termCount position.equation e.size))
    | some (side, place) => return (position.equation, side, place)

/-- The term at an address. -/
def term (w : WeakFormulation) (address : String) : Outcome (Signed Term) := do
  let position ← Position.read address
  match w.equations[position.equation]? with
  | none => reject (.index address (.equationCount w.equations.length))
  | some e =>
    match e.get? position.term with
    | none => reject (.index address (.termCount position.equation e.size))
    | some term => return term

/-- The root forms that the terms are built from. -/
def elementaryForms (s : Session) (w : WeakFormulation) : Outcome (IdSet .form) := do
  let terms := w.equations.flatMap Equation.terms
  return IdSet.unions (← terms.mapM fun t => t.value.elementaryForms s)

/-- The formulation with new equations for the same test forms, which are checked. -/
def withEquations (s : Session) (w : WeakFormulation) (equations : List (Equation Term)) :
    Outcome WeakFormulation := do
  let _ ← check s equations w.testForms
  return { w with equations }

/-- The formulation with the term at a place replaced by other terms, which are checked. -/
def splice (s : Session) (w : WeakFormulation) (equation : Nat) (side : Side) (place : Nat)
    (terms : List (Signed Term)) : Outcome WeakFormulation :=
  w.withEquations s (w.equations.modify equation fun e => e.splice side place terms)

end WeakFormulation

end Variational
