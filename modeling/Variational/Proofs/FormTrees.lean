import Variational.Proofs.Divisors
import Variational.Proofs.ElementaryForms
import Variational.Proofs.Substitution

/-!
# Expression trees of forms

The ids of a form unfold to a tree of operations. Its leaves are the root forms and the
evaluated forms, which stand for themselves, and scalars are named by their ids. Derived forms
are recorded once, so two forms with the same tree are the same form. Substitution of forms is
substitution in their trees.
-/

namespace Variational

/-- What a form unfolds to. -/
inductive FormTree
  | leaf (f : FormId)
  | unary (op : UnaryOperator) (operand : FormTree)
  | binary (op : BinaryOperator) (left right : FormTree)
  | quotient (dividend : FormTree) (divisor : ScalarId)
  | scaled (factor : ScalarId) (operand : FormTree)
deriving DecidableEq, Repr

namespace FormTree

/-- The tree with every topmost occurrence of a target replaced. -/
def replace (t target replacement : FormTree) : FormTree :=
  if t = target then
    replacement
  else
    match t with
    | leaf f => leaf f
    | unary op a => unary op (a.replace target replacement)
    | binary op a b => binary op (a.replace target replacement) (b.replace target replacement)
    | quotient a c => quotient (a.replace target replacement) c
    | scaled c a => scaled c (a.replace target replacement)

/-- The leaves of a tree, from left to right. -/
def leaves : FormTree → List FormId
  | leaf f => [f]
  | unary _ a | quotient a _ | scaled _ a => a.leaves
  | binary _ a b => a.leaves ++ b.leaves

variable {t target replacement : FormTree} {f r : FormId}

theorem replace_self : t.replace t replacement = replacement := by
  rw [replace.eq_def, if_pos rfl]

/-- Replacing a leaf puts the leaves of the replacement in its place. -/
theorem mem_leaves_replace_leaf : r ∈ (t.replace (leaf f) replacement).leaves ↔
    r ∈ t.leaves ∧ r ≠ f ∨ f ∈ t.leaves ∧ r ∈ replacement.leaves := by
  induction t with
  | leaf g =>
    by_cases same : g = f
    · subst same
      simp [replace_self, leaves]
    · simp only [replace, leaf.injEq, if_neg same, leaves, List.mem_singleton]
      constructor
      · rintro rfl
        exact Or.inl ⟨rfl, same⟩
      · rintro (⟨rfl, -⟩ | ⟨rfl, -⟩)
        · rfl
        · exact absurd rfl same
  | unary op a ih | quotient a c ih | scaled c a ih => simpa [replace, leaves] using ih
  | binary op a b left right =>
    simp only [replace, leaves, reduceCtorEq, if_false, List.mem_append, left, right]
    rw [or_and_right, or_and_right, or_or_or_comm]

end FormTree

/-! ## Trees of the forms of a session -/

/-- A form of the session unfolds to a tree. -/
inductive Session.Unfolds (s : Session) : FormId → FormTree → Prop
  | leaf {f : FormId} {e : FormExpr} (reads : s.Reads f e) (isLeaf : e.isLeaf = true) :
    Unfolds s f (.leaf f)
  | unary {f g : FormId} {op : UnaryOperator} {t : FormTree} (reads : s.Reads f (.unary op g))
    (operand : Unfolds s g t) : Unfolds s f (.unary op t)
  | binary {f g h : FormId} {op : BinaryOperator} {t u : FormTree}
    (reads : s.Reads f (.binary op g h)) (left : Unfolds s g t) (right : Unfolds s h u) :
    Unfolds s f (.binary op t u)
  | quotient {f g : FormId} {c : ScalarId} {t : FormTree} (reads : s.Reads f (.quotient g c))
    (dividend : Unfolds s g t) : Unfolds s f (.quotient t c)
  | scaled {f g : FormId} {c : ScalarId} {t : FormTree} (reads : s.Reads f (.scaled c g))
    (operand : Unfolds s g t) : Unfolds s f (.scaled c t)

namespace Session

variable {s s' : Session} {f g r target replacement : FormId} {t u : FormTree}

theorem exists_unfolds {form : Form} (found : s.forms.get? f = some form) :
    ∃ t, s.Unfolds f t := by
  induction index : f.index using Nat.strongRecOn generalizing f form with
  | _ i ih =>
    subst index
    have below : ∀ g ∈ form.expr.operands, ∃ t, s.Unfolds g t := by
      intro g member
      have before := FormTable.operands_lt found member
      obtain ⟨held, -⟩ := List.getElem?_eq_some_iff.1 found
      exact ih g.index before (List.getElem?_eq_getElem (Nat.lt_trans before held)) rfl
    have reads : ∀ {e}, form.expr = e → s.Reads f e := fun shape => ⟨form, found, shape⟩
    cases shape : form.expr with
    | root => exact ⟨_, .leaf (reads shape) rfl⟩
    | atInstant binding => exact ⟨_, .leaf (reads shape) rfl⟩
    | unary op g =>
      obtain ⟨t, operand⟩ := below g (by simp [shape, FormExpr.operands])
      exact ⟨_, .unary (reads shape) operand⟩
    | binary op g h =>
      obtain ⟨t, left⟩ := below g (by simp [shape, FormExpr.operands])
      obtain ⟨u, right⟩ := below h (by simp [shape, FormExpr.operands])
      exact ⟨_, .binary (reads shape) left right⟩
    | quotient g c =>
      obtain ⟨t, dividend⟩ := below g (by simp [shape, FormExpr.operands])
      exact ⟨_, .quotient (reads shape) dividend⟩
    | scaled c g =>
      obtain ⟨t, operand⟩ := below g (by simp [shape, FormExpr.operands])
      exact ⟨_, .scaled (reads shape) operand⟩

/-- The tree of a form is settled when it is recorded. -/
theorem Extends.unfolds (later : s.Extends s') (unfolds : s.Unfolds f t) : s'.Unfolds f t := by
  induction unfolds with
  | leaf reads isLeaf => exact .leaf (later.reads reads) isLeaf
  | unary reads _ ih => exact .unary (later.reads reads) ih
  | binary reads _ _ left right => exact .binary (later.reads reads) left right
  | quotient reads _ ih => exact .quotient (later.reads reads) ih
  | scaled reads _ ih => exact .scaled (later.reads reads) ih

/-- What does not occur in a form does not occur in its operands. -/
theorem Reads.absent_operand {e : FormExpr} (reads : s.Reads f e)
    (absent : s.occursIn f target ≠ .ok true) (member : g ∈ e.operands) :
    s.occursIn g target ≠ .ok true :=
  fun occurs => absent (reads.occursIn_of_operand member occurs)

namespace Unfolds

/-- What a form unfolds to begins with what it reads. -/
theorem of_reads (unfolds : s.Unfolds f t) {e : FormExpr} (reads : s.Reads f e) :
    match e with
    | .root | .atInstant _ => t = .leaf f
    | .unary op g => ∃ a, s.Unfolds g a ∧ t = .unary op a
    | .binary op g h => ∃ a b, s.Unfolds g a ∧ s.Unfolds h b ∧ t = .binary op a b
    | .quotient g c => ∃ a, s.Unfolds g a ∧ t = .quotient a c
    | .scaled c g => ∃ a, s.Unfolds g a ∧ t = .scaled c a := by
  cases unfolds with
  | leaf reads' isLeaf =>
    cases reads.unique reads'
    cases e with
    | root | atInstant binding => rfl
    | _ => cases isLeaf
  | unary reads' operand =>
    cases reads.unique reads'
    exact ⟨_, operand, rfl⟩
  | binary reads' left right =>
    cases reads.unique reads'
    exact ⟨_, _, left, right, rfl⟩
  | quotient reads' dividend =>
    cases reads.unique reads'
    exact ⟨_, dividend, rfl⟩
  | scaled reads' operand =>
    cases reads.unique reads'
    exact ⟨_, operand, rfl⟩

theorem exists_form (unfolds : s.Unfolds f t) : ∃ form, s.forms.get? f = some form := by
  cases unfolds with
  | leaf reads | unary reads | binary reads | quotient reads | scaled reads =>
    obtain ⟨form, found, -⟩ := reads
    exact ⟨form, found⟩

/-- A form has one tree. -/
theorem unique (unfolds : s.Unfolds f t) (unfolds' : s.Unfolds f u) : t = u := by
  induction unfolds generalizing u with
  | @leaf f e reads isLeaf =>
    have same := unfolds'.of_reads reads
    cases e with
    | root | atInstant binding => exact same.symm
    | _ => cases isLeaf
  | unary reads _ ih =>
    obtain ⟨a, operand, rfl⟩ := unfolds'.of_reads reads
    rw [ih operand]
  | binary reads _ _ ihLeft ihRight =>
    obtain ⟨a, b, left, right, rfl⟩ := unfolds'.of_reads reads
    rw [ihLeft left, ihRight right]
  | quotient reads _ ih =>
    obtain ⟨a, dividend, rfl⟩ := unfolds'.of_reads reads
    rw [ih dividend]
  | scaled reads _ ih =>
    obtain ⟨a, operand, rfl⟩ := unfolds'.of_reads reads
    rw [ih operand]

/-- A tree is the tree of one form. -/
theorem eq_of_tree (distinct : s.Distinct) (unfolds : s.Unfolds f t) (unfolds' : s.Unfolds g t) :
    f = g := by
  induction unfolds generalizing g with
  | leaf =>
    cases unfolds' with
    | leaf => rfl
  | unary reads _ ih =>
    cases unfolds' with
    | unary reads' operand =>
      cases ih operand
      exact distinct.reads_unique reads reads' (by simp)
  | binary reads _ _ ihLeft ihRight =>
    cases unfolds' with
    | binary reads' left right =>
      cases ihLeft left
      cases ihRight right
      exact distinct.reads_unique reads reads' (by simp)
  | quotient reads _ ih =>
    cases unfolds' with
    | quotient reads' dividend =>
      cases ih dividend
      exact distinct.reads_unique reads reads' (by simp)
  | scaled reads _ ih =>
    cases unfolds' with
    | scaled reads' operand =>
      cases ih operand
      exact distinct.reads_unique reads reads' (by simp)

/-- The elementary forms of a form are the leaves of its tree. -/
theorem elementary_iff (unfolds : s.Unfolds f t) : s.Elementary f r ↔ r ∈ t.leaves := by
  induction unfolds with
  | leaf reads isLeaf =>
    obtain ⟨form, found, rfl⟩ := reads
    rw [Session.elementary_iff found, FormExpr.operands_eq_nil_iff.2 isLeaf]
    simp [Form.isRoot, isLeaf, FormTree.leaves]
  | unary reads _ ih | quotient reads _ ih | scaled reads _ ih =>
    obtain ⟨form, found, shape⟩ := reads
    rw [Session.elementary_iff found, Form.isRoot, shape]
    simpa [FormExpr.operands, FormExpr.isLeaf, FormTree.leaves] using ih
  | binary reads _ _ left right =>
    obtain ⟨form, found, shape⟩ := reads
    rw [Session.elementary_iff found, Form.isRoot, shape]
    simp [FormExpr.operands, FormExpr.isLeaf, FormTree.leaves, left, right]

/-- A root form or an evaluated form occurs in a form exactly if it is a leaf of its tree. -/
theorem occursIn_iff_mem_leaves (unfolds : s.Unfolds f t) {e : FormExpr} (reads : s.Reads r e)
    (isLeaf : e.isLeaf = true) : s.occursIn f r = .ok true ↔ r ∈ t.leaves := by
  have composed : ∀ {f e'}, s.Reads f e' → e'.isLeaf = false → f ≠ r := by
    rintro f e' reads' derived rfl
    cases reads.unique reads'
    simp [isLeaf] at derived
  induction unfolds with
  | leaf reads' isLeaf' =>
    obtain ⟨form, found, rfl⟩ := reads'
    rw [occursIn_iff found, FormExpr.operands_eq_nil_iff.2 isLeaf']
    simp [FormTree.leaves, eq_comm]
  | unary reads' _ ih | quotient reads' _ ih | scaled reads' _ ih =>
    have differs := composed reads' rfl
    obtain ⟨form, found, shape⟩ := reads'
    rw [occursIn_iff found, shape]
    simp [differs, FormExpr.operands, FormTree.leaves, ih]
  | binary reads' _ _ left right =>
    have differs := composed reads' rfl
    obtain ⟨form, found, shape⟩ := reads'
    rw [occursIn_iff found, shape]
    simp [differs, FormExpr.operands, FormTree.leaves, left, right]

/-! ## Substitution -/

/-- Different forms have different trees. -/
theorem tree_ne (distinct : s.Distinct) (unfolds : s.Unfolds f t) (known : s.Unfolds target u)
    (differs : f ≠ target) : t ≠ u := by
  rintro rfl
  exact differs (unfolds.eq_of_tree distinct known)

/-- The tree of a form without an occurrence of the target stays as it is. -/
theorem replace_of_absent (distinct : s.Distinct) (unfolds : s.Unfolds f t)
    (known : s.Unfolds target u) (absent : s.occursIn f target ≠ .ok true)
    (replacement : FormTree) : t.replace u replacement = t := by
  have differs : ∀ {f}, s.occursIn f target ≠ .ok true → f ≠ target := by
    rintro f absent rfl
    exact absent occursIn_self
  induction unfolds with
  | leaf reads isLeaf =>
    rw [FormTree.replace, if_neg ((leaf reads isLeaf).tree_ne distinct known (differs absent))]
  | unary reads operand ih =>
    rw [FormTree.replace, if_neg ((unary reads operand).tree_ne distinct known (differs absent)),
      ih (reads.absent_operand absent (by simp [FormExpr.operands]))]
  | binary reads left right ihLeft ihRight =>
    rw [FormTree.replace,
      if_neg ((binary reads left right).tree_ne distinct known (differs absent)),
      ihLeft (reads.absent_operand absent (by simp [FormExpr.operands])),
      ihRight (reads.absent_operand absent (by simp [FormExpr.operands]))]
  | quotient reads dividend ih =>
    rw [FormTree.replace,
      if_neg ((quotient reads dividend).tree_ne distinct known (differs absent)),
      ih (reads.absent_operand absent (by simp [FormExpr.operands]))]
  | scaled reads operand ih =>
    rw [FormTree.replace, if_neg ((scaled reads operand).tree_ne distinct known (differs absent)),
      ih (reads.absent_operand absent (by simp [FormExpr.operands]))]

end Unfolds

end Session

/-- Substitution of forms is substitution in their trees. -/
theorem Form.Substituted.unfolds {settings : Settings} {s : Session} {f g target new : FormId}
    {t u v : FormTree} (reachable : Session.Reachable settings s)
    (substituted : Substituted s target new f g) (unfolds : s.Unfolds f t)
    (known : s.Unfolds target u) (replaced : s.Unfolds new v) :
    s.Unfolds g (t.replace u v) := by
  have distinct := reachable.distinct
  induction substituted generalizing t with
  | here =>
    rw [unfolds.unique known, FormTree.replace_self]
    exact replaced
  | absent absent =>
    rw [unfolds.replace_of_absent distinct known (by simp [absent])]
    exact unfolds
  | unary differs _ reads _ reads' ih =>
    have other := unfolds.tree_ne distinct known differs
    obtain ⟨a, operand, rfl⟩ := unfolds.of_reads reads
    rw [FormTree.replace, if_neg other]
    exact .unary reads' (ih operand)
  | binary differs _ reads _ _ reads' ihLeft ihRight =>
    have other := unfolds.tree_ne distinct known differs
    obtain ⟨a, b, left, right, rfl⟩ := unfolds.of_reads reads
    rw [FormTree.replace, if_neg other]
    exact .binary reads' (ihLeft left) (ihRight right)
  | quotient differs _ reads _ reads' ih =>
    have other := unfolds.tree_ne distinct known differs
    obtain ⟨a, dividend, rfl⟩ := unfolds.of_reads reads
    rw [FormTree.replace, if_neg other]
    exact .quotient reads' (ih dividend)
  | scaled differs _ reads _ multiple ih =>
    have other := unfolds.tree_ne distinct known differs
    obtain ⟨a, operand, rfl⟩ := unfolds.of_reads reads
    rw [FormTree.replace, if_neg other]
    obtain ⟨x, found, notOne⟩ := reachable.factor_ne_one reads
    -- a multiple of the session is no multiple by one, which would be its operand
    cases multiple with
    | one stands found' _ one =>
      cases stands
      cases found.symm.trans found'
      exact absurd one notOne
    | scaled stands _ _ _ reads' =>
      cases stands
      exact .scaled reads' (ih operand)

/-- A leaf is not left where it is replaced by a form in which it does not occur. -/
theorem Form.Substituted.occursIn_target_eq {settings : Settings} {s : Session}
    {f g target new : FormId} {e : FormExpr} (reachable : Session.Reachable settings s)
    (substituted : Substituted s target new f g) (reads : s.Reads target e)
    (isLeaf : e.isLeaf = true) {form form' : Form} (found : s.forms.get? f = some form)
    (found' : s.forms.get? new = some form') (absent : s.occursIn new target = .ok false) :
    s.occursIn g target = .ok false := by
  obtain ⟨t, unfolds⟩ := Session.exists_unfolds found
  obtain ⟨r, replaced⟩ := Session.exists_unfolds found'
  have tree := substituted.unfolds reachable unfolds (.leaf reads isLeaf) replaced
  obtain ⟨a, known⟩ := tree.exists_form
  obtain ⟨b, run⟩ := Session.occursIn_total target known
  cases b with
  | false => exact run
  | true =>
    have present := (tree.occursIn_iff_mem_leaves reads isLeaf).1 run
    rcases FormTree.mem_leaves_replace_leaf.1 present with ⟨-, other⟩ | ⟨-, inside⟩
    · exact absurd rfl other
    · cases absent.symm.trans ((replaced.occursIn_iff_mem_leaves reads isLeaf).2 inside)

end Variational
