import Variational.Form.Algebra

/-!
# Substitution in forms

Replacing a form inside another one rebuilds the expression around every topmost
occurrence. Recursion is on the position of the form, since operands stand
before the forms that are built from them.
-/

namespace Variational

namespace Form

/-- The form with every topmost occurrence of a target replaced. A form without an
occurrence stays as it is. -/
def substitute (target replacement : FormId) (f : FormId) : Derive FormId := do
  if f = target then
    return replacement
  let s ← get
  if !(← s.occursIn f target) then
    return f
  match found : s.forms.get? f with
  | none => foreign .form
  | some a =>
    match shape : a.expr with
    | .root | .atInstant _ => return f
    | .unary op g =>
      have : g.index < f.index := FormTable.operands_lt found (by simp [shape, FormExpr.operands])
      apply op (← substitute target replacement g)
    | .binary op g h =>
      have : g.index < f.index := FormTable.operands_lt found (by simp [shape, FormExpr.operands])
      have : h.index < f.index := FormTable.operands_lt found (by simp [shape, FormExpr.operands])
      let left ← substitute target replacement g
      let right ← substitute target replacement h
      combine op left right
    | .quotient g c =>
      have : g.index < f.index := FormTable.operands_lt found (by simp [shape, FormExpr.operands])
      divide (← substitute target replacement g) (.scalar c)
    | .scaled c g =>
      have : g.index < f.index := FormTable.operands_lt found (by simp [shape, FormExpr.operands])
      scale (.scalar c) (← substitute target replacement g)
termination_by f.index

/-- Replaces a form inside another one by a form of the same space. -/
def replace (f target replacement : FormId) : Derive FormId := do
  let _ ← commonSpace (← get) target replacement "replace"
  substitute target replacement f

end Form

end Variational
