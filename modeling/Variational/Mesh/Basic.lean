import Variational.Labels

/-!
# Manifolds and meshes as data

Only identity, dimension and boundary structure matter to a derivation, so
manifolds and meshes carry labels and topology but no geometry.
-/

namespace Variational

/-- An abstract manifold. Its labels are pure, without a wrapper. -/
structure Manifold where
  ndim : Nat
  labels : Labels
  /-- The manifold that this one is the boundary of. -/
  boundaryOf : Option ManifoldId
deriving DecidableEq, Repr

/-- A mesh that covers a manifold. Its labels are pure, without a wrapper. -/
structure Mesh where
  manifold : ManifoldId
  ndim : Nat
  labels : Labels
  /-- The mesh that this one is the boundary of. -/
  inclusion : Option MeshId
deriving DecidableEq, Repr

end Variational
