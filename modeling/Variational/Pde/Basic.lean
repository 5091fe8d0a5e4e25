import Variational.WeakForm.Basic

/-!
# Systems of partial differential equations

A system has equations of forms on one mesh, and all forms of an equation lie in
one space. Testing a system pairs the forms of every equation with a new root
form, which gives a weak formulation.
-/

namespace Variational

/-- Equations of forms on one mesh. -/
structure Pde where
  mesh : MeshId
  equations : List (Equation FormId)
  unknowns : Option (List FormId)
deriving DecidableEq, Repr

namespace Pde

/-- Checks that all forms of an equation lie in one space, and gives its mesh. -/
def equationMesh (s : Session) (equation : Nat) (e : Equation FormId) : Outcome MeshId := do
  match e.terms with
  | [] => reject (.structural (.emptyEquation equation))
  | first :: rest =>
    let f ← s.form first.value
    rest.forM fun other => do
      let g ← s.form other.value
      if g.space ≠ f.space then
        reject (.structural (.equationSpaces equation f.lin g.lin))
    return (← s.space f.space).mesh

/-- Checks equations from a given number on, all on one mesh with those before. -/
def commonMesh (s : Session) : Nat → Option MeshId → List (Equation FormId) →
    Outcome (Option MeshId)
  | _, mesh, [] => .ok mesh
  | equation, mesh, e :: rest => do
    let own ← equationMesh s equation e
    if mesh.isSome ∧ mesh ≠ some own then
      reject (.structural (.equationMesh equation))
    commonMesh s (equation + 1) (some own) rest

/-- The system with the given equations. -/
def create (s : Session) (equations : List (Equation FormId)) : Outcome Pde := do
  match ← commonMesh s 0 none equations with
  | none => reject (.structural .noEquations)
  | some mesh => return { mesh, equations, unknowns := none }

/-- The root forms that a system is built from. -/
def elementaryForms (s : Session) (p : Pde) : Outcome (IdSet .form) := do
  let terms := p.equations.flatMap Equation.terms
  return IdSet.unions (← terms.mapM fun t => s.elementaryForms t.value)

/-- Declares the unknowns, which are root forms of the system. -/
def withUnknowns (s : Session) (p : Pde) (unknowns : List FormId) : Outcome Pde := do
  let elementary ← p.elementaryForms s
  unknowns.forM fun u => do
    if u ∉ elementary then
      reject (.structural (.notInSystem (← s.form u).lin))
  return { p with unknowns := some unknowns }

/-- The inner products of the forms of one side with a test form. -/
def testSide (s : Session) (testForm : FormId) (side : List (Signed FormId)) :
    Outcome (List (Signed Term)) :=
  side.mapM fun t => do return ⟨t.sign, ← Term.create s .innerProduct t.value testForm⟩

/-- Tests one equation with a new root form of a space. -/
def testEquation (e : Equation FormId) (space : SpaceId) (labels : Labels) :
    Derive (Equation Term × FormId) := do
  let testForm ← Form.root space labels
  let s ← get
  let left ← testSide s testForm e.left
  let right ← testSide s testForm e.right
  return (⟨left, right⟩, testForm)

/-- Tests every equation with a new root form of its space under its labels. The unknowns of
the system become those of the weak formulation. -/
def test (p : Pde) (spaces : List SpaceId) (labels : List Labels) : Derive WeakFormulation := do
  if spaces.length ≠ p.equations.length ∨ labels.length ≠ p.equations.length then
    reject (.structural (.testCounts p.equations.length spaces.length labels.length))
  let tested ← ((p.equations.zip spaces).zip labels).mapM fun ((e, space), labels) =>
    testEquation e space labels
  let s ← get
  let w ← WeakFormulation.create s (tested.map (·.1)) (tested.map (·.2))
  match p.unknowns with
  | some unknowns => w.withUnknowns s unknowns
  | none => return w

end Pde

end Variational
