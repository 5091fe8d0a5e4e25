import Variational.Proofs.FormTrees
import Variational.Proofs.Rebuilding

/-!
# Replacement is substitution

Replacing a form inside another one succeeds for forms of one space, as long as the finite
spaces share one degree. Its result is in the space of the form, and the tree of the result is
the tree of the form with every topmost occurrence of the target replaced by the tree of the
replacement. A term is replaced whenever both of its forms are.
-/

namespace Variational

open Derive

variable {settings : Settings} {s s' : Session}

/-! ## Forms -/

/-- A form of a later session is another form with a target replaced. -/
structure Form.ReplacedBy (s s' : Session) (f target new g : FormId) : Prop where
  space : ∀ space, s.InSpace f space → s'.InSpace g space
  tree : ∃ t u v, s.Unfolds f t ∧ s.Unfolds target u ∧ s.Unfolds new v ∧
    s'.Unfolds g (t.replace u v)
  leaves : ∀ e, s.Reads target e → e.isLeaf = true → s.occursIn f target = .ok true →
    ∀ r, s'.Elementary g r ↔ s.Elementary f r ∧ r ≠ target ∨ s.Elementary new r

namespace Form

variable {f g target new : FormId} {a b c : Form}

/-- Forms of different spaces do not replace each other. -/
theorem replace_rejected (sound : s.Sound) (foundTarget : s.forms.get? target = some b)
    (foundNew : s.forms.get? new = some c) (differs : b.space ≠ c.space) (f : FormId) :
    ∃ x y, s.spaces.get? b.space = some x ∧ s.spaces.get? c.space = some y ∧
      replace f target new s = .error (.rejected (.structural
        (.differentSpaces "replace" b.lin c.lin x.labels.lin y.labels.lin))) s := by
  obtain ⟨⟨x, foundSpace⟩, -⟩ := sound.forms foundTarget
  obtain ⟨⟨y, foundSpace'⟩, -⟩ := sound.forms foundNew
  have fetched : s.form target = .ok b := Arena.fetch_eq_ok_iff.2 foundTarget
  have fetched' : s.form new = .ok c := Arena.fetch_eq_ok_iff.2 foundNew
  have fetchedSpace : s.space b.space = .ok x := Arena.fetch_eq_ok_iff.2 foundSpace
  have fetchedSpace' : s.space c.space = .ok y := Arena.fetch_eq_ok_iff.2 foundSpace'
  have unequal : commonSpace s target new "replace" = .error (.rejected (.structural
      (.differentSpaces "replace" b.lin c.lin x.labels.lin y.labels.lin))) := by
    rw [commonSpace, Outcome.bind_of_ok fetched, Outcome.bind_of_ok fetched', if_neg differs,
      Outcome.bind_of_ok fetchedSpace, Outcome.bind_of_ok fetchedSpace']
    rfl
  refine ⟨x, y, foundSpace, foundSpace', ?_⟩
  rw [replace, get_bind, unequal]
  rfl

/-- What a replacement gives. -/
theorem replacedBy_of_replace (reachable : Session.Reachable settings s)
    (found : s.forms.get? f = some a) (run : replace f target new s = .ok g s') :
    ReplacedBy s s' f target new g := by
  have later := (replace_grows f target new).extends run
  have reachable' : Session.Reachable settings s' :=
    reachable.of_request (.replacement f target new) rfl run
  have among := beside_of_replace run
  obtain ⟨space, ⟨b, foundTarget, -⟩, c, foundNew, -⟩ := id among
  obtain ⟨t, unfolds⟩ := Session.exists_unfolds found
  obtain ⟨u, known⟩ := Session.exists_unfolds foundTarget
  obtain ⟨v, replaced⟩ := Session.exists_unfolds foundNew
  have tree : s'.Unfolds g (t.replace u v) :=
    (replace_spec run).unfolds reachable' (later.unfolds unfolds) (later.unfolds known)
      (later.unfolds replaced)
  refine ⟨fun other inSpace => ?_, ⟨t, u, v, unfolds, known, replaced, tree⟩,
    fun e reads isLeaf occurs r => ?_⟩
  · have beside : s'.Beside f g :=
      (replace_yields reachable.sound among found).holds_of_ok run
    obtain ⟨space', first, second⟩ := beside
    exact first.unique (later.inSpace inSpace) ▸ second
  · cases known.unique (.leaf reads isLeaf)
    have present : target ∈ t.leaves := (unfolds.occursIn_iff_mem_leaves reads isLeaf).1 occurs
    rw [tree.elementary_iff, unfolds.elementary_iff, replaced.elementary_iff,
      FormTree.mem_leaves_replace_leaf]
    simp [present]

end Form

/-! ## Terms -/

/-- A term is replaced whenever both of its forms are, one after the other. It keeps its kind and
its mesh, and its sign is plus. -/
theorem Term.replace_of_forms (sound : s.Sound) {t : Term}
    (created : Term.create s t.kind t.f1 t.f2 = .ok t) {target new g1 g2 : FormId} {mid : Session}
    (first : Form.replace t.f1 target new s = .ok g1 mid)
    (second : Form.replace t.f2 target new mid = .ok g2 s') :
    ∃ x, t.replace target new s = .ok ⟨.plus, x⟩ s' ∧ x.kind = t.kind ∧ x.mesh = t.mesh ∧
      x.f1 = g1 ∧ x.f2 = g2 := by
  obtain ⟨-, -, -, _, _, _, ⟨a, _, found, -⟩, ⟨b, _, found', -⟩, -⟩ := Term.create_spec created
  have toMid := (Form.replace_grows t.f1 target new).steps first
  have fromMid := (Form.replace_grows t.f2 target new).steps second
  have beside := Form.beside_of_replace first
  rw [Term.replace, bind_of_ok first, bind_of_ok second]
  by_cases unchanged : g1 = t.f1 ∧ g2 = t.f2
  · rw [if_pos unchanged]
    exact ⟨t, rfl, rfl, rfl, unchanged.1.symm, unchanged.2.symm⟩
  · have first' : mid.Beside t.f1 g1 := (Form.replace_yields sound beside found).holds_of_ok first
    have second' : s'.Beside t.f2 g2 := (Form.replace_yields (sound.steps toMid)
      (beside.mono toMid) (toMid.extends.forms found')).holds_of_ok second
    have later : s.Extends s' := toMid.extends.trans fromMid.extends
    obtain ⟨x, made, onMesh⟩ :=
      Term.create_beside (Term.create_mono later created) (first'.mono fromMid) second'
    obtain ⟨kind, f1, f2, -⟩ := Term.create_spec made
    rw [if_neg unchanged, get_bind, lift_bind_of_ok made]
    exact ⟨x, rfl, kind, onMesh, f1, f2⟩

/-! ## Sessions -/

namespace Session

/-- Replacement is substitution. Forms of different spaces do not replace each other. Forms of
one space do wherever the finite spaces share one degree, and what is found instead of a form is
what its tree becomes by substitution. A term is replaced whenever both of its forms are. -/
theorem replacement_substitutes (reachable : Reachable settings s) :
    (∀ f a, s.forms.get? f = some a → ∃! t, s.Unfolds f t) ∧
    (∀ f target new a b c, s.forms.get? f = some a → s.forms.get? target = some b →
      s.forms.get? new = some c →
      (b.space ≠ c.space → ∃ x y, s.spaces.get? b.space = some x ∧
        s.spaces.get? c.space = some y ∧
        Form.replace f target new s = .error (.rejected (.structural
          (.differentSpaces "replace" b.lin c.lin x.labels.lin y.labels.lin))) s) ∧
      (b.space = c.space → (∃ d, s.FiniteAt d) →
        ∃ g s', Form.replace f target new s = .ok g s') ∧
      ∀ g s', Form.replace f target new s = .ok g s' → Form.ReplacedBy s s' f target new g) ∧
    ∀ t target new g1 g2 mid s', Term.create s t.kind t.f1 t.f2 = .ok t →
      Form.replace t.f1 target new s = .ok g1 mid →
      Form.replace t.f2 target new mid = .ok g2 s' →
      ∃ x, t.replace target new s = .ok ⟨.plus, x⟩ s' ∧ x.kind = t.kind ∧ x.mesh = t.mesh ∧
        x.f1 = g1 ∧ x.f2 = g2 := by
  refine ⟨fun f a found => ?_, fun f target new a b c found foundTarget foundNew =>
    ⟨fun differs => ?_, fun same ⟨d, finite⟩ => ?_, fun g s' run => ?_⟩,
    fun t target new g1 g2 mid s' created first second => ?_⟩
  · obtain ⟨t, unfolds⟩ := exists_unfolds found
    exact ⟨t, unfolds, fun u unfolds' => unfolds'.unique unfolds⟩
  · exact Form.replace_rejected reachable.sound foundTarget foundNew differs f
  · exact (Form.replace_yields reachable.sound
      ⟨b.space, ⟨b, foundTarget, rfl⟩, c, foundNew, same.symm⟩ found).succeeds finite
  · exact Form.replacedBy_of_replace reachable found run
  · exact Term.replace_of_forms reachable.sound created first second

/-- In `d u ∧ d u` the derivative `d u` is replaced by `d v` in both places, `d v` is not put in
the place of `u`, and `(d u, d u)` becomes `(d v, d v)` for `v` in the place of `u`. -/
theorem replacement_substitutes_derivatives : ∃ s, Reachable {} s ∧
    (∃ g s', Form.replace ⟨4⟩ ⟨2⟩ ⟨3⟩ s = .ok g s' ∧
      s'.Unfolds g (.binary .wedge (.unary .derivative (.leaf ⟨1⟩))
        (.unary .derivative (.leaf ⟨1⟩)))) ∧
    (∃ failure, Form.replace ⟨4⟩ ⟨0⟩ ⟨3⟩ s = .error failure s) ∧
    ∃ t x s', Term.create s .innerProduct ⟨2⟩ ⟨2⟩ = .ok t ∧
      t.replace ⟨0⟩ ⟨1⟩ s = .ok ⟨.plus, x⟩ s' ∧ x.kind = .innerProduct ∧ x.mesh = t.mesh ∧
      x.f1 = ⟨3⟩ ∧ x.f2 = ⟨3⟩ := by
  obtain ⟨s, reachable, finite, u, v, du, dv, product, spaces, made, replaced⟩ :
      ∃ s, Reachable {} s ∧ s.FiniteAt 1 ∧ s.Reads ⟨0⟩ .root ∧ s.Reads ⟨1⟩ .root ∧
      s.Reads ⟨2⟩ (.unary .derivative ⟨0⟩) ∧ s.Reads ⟨3⟩ (.unary .derivative ⟨1⟩) ∧
      s.Reads ⟨4⟩ (.binary .wedge ⟨2⟩ ⟨2⟩) ∧
      (s.InSpace ⟨0⟩ ⟨0⟩ ∧ s.InSpace ⟨1⟩ ⟨0⟩ ∧ s.InSpace ⟨2⟩ ⟨1⟩ ∧ s.InSpace ⟨3⟩ ⟨1⟩) ∧
      (match Term.create s .innerProduct ⟨2⟩ ⟨2⟩ with
        | .ok _ => true
        | .error _ => false) = true ∧
      (match (do return (← Form.replace ⟨2⟩ ⟨0⟩ ⟨1⟩, ← Form.replace ⟨2⟩ ⟨0⟩ ⟨1⟩)) s with
        | .ok (g, h) _ => decide (g = ⟨3⟩ ∧ h = ⟨3⟩)
        | .error _ _ => false) = true :=
    ⟨Request.performAll {} [.manifold 2, .mesh ⟨0⟩, .space ⟨0⟩ 0 .outer, .root ⟨0⟩ ⟨"u", "u"⟩,
      .root ⟨0⟩ ⟨"v", "v"⟩, .operator .derivative ⟨0⟩, .operator .derivative ⟨1⟩,
      .combination .wedge ⟨2⟩ ⟨2⟩, .degrees 1], .performAll {} _, by decide +kernel⟩
  obtain ⟨-, forms, terms⟩ := replacement_substitutes reachable
  obtain ⟨⟨a, foundU, inU⟩, ⟨b, foundV, inV⟩, ⟨c, foundDu, inDu⟩, e, foundDv, inDv⟩ := spaces
  obtain ⟨w, foundW, -⟩ := id product
  have treeDu : s.Unfolds ⟨2⟩ (.unary .derivative (.leaf ⟨0⟩)) := .unary du (.leaf u rfl)
  have treeDv : s.Unfolds ⟨3⟩ (.unary .derivative (.leaf ⟨1⟩)) := .unary dv (.leaf v rfl)
  have inner := forms ⟨4⟩ ⟨2⟩ ⟨3⟩ w c e foundW foundDu foundDv
  have outer := forms ⟨4⟩ ⟨0⟩ ⟨3⟩ w a e foundW foundU foundDv
  refine ⟨s, reachable, ?_, ?_, ?_⟩
  · obtain ⟨g, s', run⟩ := inner.2.1 (inDu.trans inDv.symm) ⟨1, finite⟩
    obtain ⟨t, x, y, unfolds, known, replaced, tree⟩ := (inner.2.2 g s' run).tree
    cases unfolds.unique (.binary product treeDu treeDu)
    cases known.unique treeDu
    cases replaced.unique treeDv
    exact ⟨g, s', run, tree⟩
  · obtain ⟨x, y, -, -, run⟩ := outer.1 (by rw [inU, inDv]; decide)
    exact ⟨_, run⟩
  · cases create : Term.create s .innerProduct ⟨2⟩ ⟨2⟩ with
    | error failure => simp [create] at made
    | ok t =>
      obtain ⟨kind, f1, f2, -⟩ := Term.create_spec create
      have created : Term.create s t.kind t.f1 t.f2 = .ok t := by rw [kind, f1, f2, create]
      cases first : Form.replace ⟨2⟩ ⟨0⟩ ⟨1⟩ s with
      | error failure mid => simp [Bind.bind, EStateM.bind, first] at replaced
      | ok g mid =>
        cases second : Form.replace ⟨2⟩ ⟨0⟩ ⟨1⟩ mid with
        | error failure last => simp [Bind.bind, EStateM.bind, first, second] at replaced
        | ok h last =>
          simp only [bind_of_ok first, bind_of_ok second] at replaced
          obtain ⟨rfl, rfl⟩ := of_decide_eq_true replaced
          obtain ⟨x, run, kind', mesh, f1', f2'⟩ := terms t ⟨0⟩ ⟨1⟩ ⟨3⟩ ⟨3⟩ mid last created
            (f1 ▸ first) (f2 ▸ second)
          exact ⟨t, x, last, rfl, run, kind'.trans kind, mesh, f1', f2'⟩

end Session

end Variational
