import Mathlib
import Variational.Proofs.Session.Distinct
import Variational.Proofs.Terms

/-!
# The typing of forms

Every form of a reachable session follows the rule of its expression, fits its mesh
and is built from earlier forms, and a derived form is recorded once. The degree of
a wedge product is the sum of the degrees of its factors unless that sum is no word
of 64 bits.
-/

namespace Variational

namespace Session

variable {s : Session} {f g h : FormId} {mesh mesh' : MeshId} {k l : Nat}

/-! ## Degrees -/

namespace Sound

/-- The degrees of a form and of its Hodge dual add up to the dimension of the mesh. -/
theorem hodge_degree (sound : s.Sound) (reads : s.Reads g (.unary .hodge f))
    (lives : s.Lives f mesh k) {m : Mesh} (found : s.meshes.get? mesh = some m) :
    ∃ l, s.Lives g mesh l ∧ k + l = m.ndim :=
  ⟨m.ndim - k, sound.lives_hodge reads lives found,
    Nat.add_sub_cancel' (sound.le_ndim lives found)⟩

/-- A wedge product lives on the common mesh of its factors, with the sum of their degrees as a
word. -/
theorem lives_wedge (sound : s.Sound) (reads : s.Reads h (.binary .wedge f g))
    (left : s.Lives f mesh k) (right : s.Lives g mesh' l) :
    mesh' = mesh ∧ s.Lives h mesh (Text.wordSum k l) := by
  obtain ⟨form, found, expr⟩ := reads
  obtain ⟨-, typed, -⟩ := sound.forms found
  rw [expr] at typed
  obtain ⟨a, b, foundLeft, foundRight, sa, sb, dst, foundA, foundB, foundTarget, common, rule⟩ :=
    typed
  obtain ⟨rfl, rfl⟩ := Lives.unique ⟨a, sa, foundLeft, foundA, rfl, rfl⟩ left
  obtain ⟨rfl, rfl⟩ := Lives.unique ⟨b, sb, foundRight, foundB, rfl, rfl⟩ right
  exact ⟨common.symm, form, dst, found, foundTarget, rule.1, rule.2.1⟩

/-- The degree of a wedge product is the sum of the degrees exactly if that sum is a word. -/
theorem wedge_degree (sound : s.Sound) (reads : s.Reads h (.binary .wedge f g))
    (left : s.Lives f mesh k) (right : s.Lives g mesh' l) :
    s.Lives h mesh (k + l) ↔ k + l < UInt64.size := by
  have lives := (sound.lives_wedge reads left right).2
  constructor
  · intro added
    have reduced : Text.wordSum k l = k + l := (lives.unique added).2
    rw [← reduced]
    exact Nat.mod_lt _ (by decide)
  · intro bounded
    rwa [Text.wordSum_eq_add bounded] at lives

end Sound

/-! ## Typed sessions -/

/-- What the forms of a session satisfy. -/
structure WellTyped (s : Session) : Prop where
  /-- Every form belongs to a space, which fits its mesh. -/
  fits : ∀ {id f}, s.forms.get? id = some f → ∃ sp m, s.spaces.get? f.space = some sp ∧
    s.meshes.get? sp.mesh = some m ∧ sp.k ≤ m.ndim
  /-- The space of a form is related to those of its operands by the rule of its expression. -/
  typed : ∀ {id f}, s.forms.get? id = some f → s.Typed f.space f.expr
  hodge : ∀ {f g mesh m k}, s.Reads g (.unary .hodge f) → s.Lives f mesh k →
    s.meshes.get? mesh = some m → ∃ l, s.Lives g mesh l ∧ k + l = m.ndim
  wedge : ∀ {f g h mesh mesh' k l}, s.Reads h (.binary .wedge f g) → s.Lives f mesh k →
    s.Lives g mesh' l → (s.Lives h mesh (k + l) ↔ k + l < UInt64.size)
  /-- Forms are built from earlier forms. -/
  operands : ∀ {id f}, s.forms.get? id = some f → ∀ g ∈ f.expr.operands, g.index < id.index
  bases : ∀ {id f binding}, s.forms.get? id = some f → f.expr = .atInstant binding →
    binding.base.index < id.index
  /-- Exactly the root forms have a pure label. -/
  labelled : ∀ {id f}, s.forms.get? id = some f →
    (f.pureLin.isSome = true ↔ f.expr.isLeaf = true)
  /-- A derived form, or a root form at an instant, is the only one with its expression. -/
  recordedOnce : ∀ {id id' f f'}, s.forms.get? id = some f → s.forms.get? id' = some f' →
    f.expr = f'.expr → f.expr ≠ .root → id = id'

end Session

end Variational
