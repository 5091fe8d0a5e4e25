import Variational.Linear.Arrays
import Variational.Term.Basic

/-!
# Terms as products of arrays

With `v` the test form, `u` a root form and `c` a scalar, the terms with an
algebraic representation are

- `(u, v)`, `(c u, v)` and `(u / c, v)`, giving `c vᵀ M u`,
- `(d u, v)` with the same factors, giving `c vᵀ M D u`,
- each of the above with `d v` in place of `v`, giving `c vᵀ Dᵀ M ...`,
- `<tr ⋆u, tr v>`, giving `vᵀ b(u)`.
-/

namespace Variational

/-- Why a term, given by its linguistic label, has no algebraic representation. -/
inductive Unconvertible
  | secondForm (term : String)
  | firstForm (term : String)
  | boundaryTerm (term : String)
deriving DecidableEq, Repr

def Unconvertible.text : Unconvertible → String
  | .secondForm term =>
    s!"second form of {term} is neither the test form nor its exterior derivative"
  | .firstForm term =>
    s!"first form of {term} is neither a root form nor the exterior derivative of one"
  | .boundaryTerm term => s!"{term} is not of the form <tr ⋆u, tr v>"

/-- The outcome of converting a term. -/
inductive Conversion
  | converted (product : Signed Product)
  | unsupported (reason : Unconvertible)
deriving DecidableEq, Repr

namespace Term

/-- The coefficient and the rest of `c u` and `u / c`. Other forms have coefficient one. -/
def splitFactor (f : FormId) : Derive (ScalarId × FormId) := do
  match (← (← get).form f).expr with
  | .scaled c g => return (c, g)
  | .quotient g c => return (← Scalar.div (.number 1.0) (.scalar c), g)
  | _ => return (← Scalar.unit, f)

/-- The chain `M u` or `M D u` for a root form `u` or the derivative `d u` of one. -/
def formChain (g : FormId) : Derive (Option (List Link)) := do
  let form ← (← get).form g
  if form.isRoot then
    let mass ← RootArray.massMatrix form.space
    let vector ← RootArray.vector g
    let s ← get
    return some [← s.link mass false, ← s.link vector false]
  match form.expr with
  | .unary .derivative r =>
    let inner ← (← get).form r
    if !inner.isRoot then
      return none
    let mass ← RootArray.massMatrix form.space
    let incidence ← RootArray.incidenceMatrix inner.space
    let vector ← RootArray.vector r
    let s ← get
    return some [← s.link mass false, ← s.link incidence false, ← s.link vector false]
  | _ => return none

/-- The links of the test form `v`, or of its derivative `d v`, if the second form of a
term is one of the two. -/
def testChain (t : Term) (testForm : FormId) : Derive (Option (List Link)) := do
  let vector ← RootArray.vector testForm
  let front ← (← get).link vector true
  if t.f2 = testForm then
    return some [front]
  match (← (← get).form t.f2).expr with
  | .unary .derivative v =>
    if v ≠ testForm then
      return none
    let incidence ← RootArray.incidenceMatrix (← (← get).form testForm).space
    return some [front, ← (← get).link incidence true]
  | _ => return none

/-- Converts an inner product. -/
def convertInnerProduct (t : Term) (testForm : FormId) : Derive Conversion := do
  match ← testChain t testForm with
  | none => return .unsupported (.secondForm t.lin)
  | some front =>
    let (factor, g) ← splitFactor t.f1
    match ← formChain g with
    | none => return .unsupported (.firstForm t.lin)
    | some core => return .converted ⟨.plus, ← Product.create factor (front ++ core)⟩

/-- The root form `u` of a pairing `<tr ⋆u, tr v>` with the given test form `v`. -/
def boundaryForm? (s : Session) (t : Term) (testForm : FormId) : Outcome (Option FormId) := do
  match (← s.form t.f1).expr, (← s.form t.f2).expr with
  | .unary .trace h, .unary .trace v =>
    if v ≠ testForm then
      return none
    match (← s.form h).expr with
    | .unary .hodge u => if ← isRoot s u then return some u else return none
    | _ => return none
  | _, _ => return none

/-- Converts a duality pairing. -/
def convertPairing (t : Term) (testForm : FormId) : Derive Conversion := do
  match ← boundaryForm? (← get) t testForm with
  | none => return .unsupported (.boundaryTerm t.lin)
  | some u =>
    let vector ← RootArray.vector testForm
    let boundary ← RootArray.wedgeVector u (← (← get).form testForm).space
    let factor ← Scalar.unit
    let s ← get
    return .converted
      ⟨.plus, ← Product.create factor [← s.link vector true, ← s.link boundary false]⟩

/-- Converts a term that is tested with the given root form. Failures are left to terms
whose spaces are not finite or whose arrays do not chain. -/
def convert (t : Term) (testForm : FormId) : Derive Conversion :=
  match t.kind with
  | .innerProduct => convertInnerProduct t testForm
  | .dualityPairing => convertPairing t testForm

end Term

end Variational
