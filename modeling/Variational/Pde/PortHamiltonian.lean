import Variational.Pde.Basic

/-!
# The canonical port-Hamiltonian system

The system `∂t a = d b`, `∂t b = -δ a` for an outer `p`-form `a` and an outer
`(p - 1)`-form `b` on a new mesh.
-/

namespace Variational

/-- The canonical port-Hamiltonian system on a new mesh of dimension `n`, with its unknowns
`a` and `b`. -/
def Pde.portHamiltonian (n p : Nat) : Derive (Pde × FormId × FormId) := do
  if p = 0 ∨ n < p then
    reject (.structural (.portHamiltonianDegrees n p))
  let manifold ← Manifold.create n
  let mesh ← Mesh.cover manifold
  let spaceA ← Space.on mesh p .outer
  let spaceB ← Space.on mesh (p - 1) .outer
  let a ← Form.root spaceA ⟨s!"\\alpha^\x7b{p}\x7d", s!"a{p}"⟩
  let b ← Form.root spaceB ⟨s!"\\beta^\x7b{p - 1}\x7d", s!"b{p - 1}"⟩
  let rateA ← Form.apply .timeDerivative a
  let rateB ← Form.apply .timeDerivative b
  let db ← Form.apply .derivative b
  let deltaA ← Form.apply .codifferential a
  let s ← get
  let system ← Pde.create s [
    ⟨[⟨.plus, rateA⟩], [⟨.plus, db⟩]⟩,
    ⟨[⟨.plus, rateB⟩], [⟨.minus, deltaA⟩]⟩]
  return (← system.withUnknowns s [a, b], a, b)

end Variational
