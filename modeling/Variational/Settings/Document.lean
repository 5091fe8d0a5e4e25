import Variational.Document
import Variational.Settings

/-!
# Settings as documents

The document of the settings of a session has a record for every group of
settings. A member of a record may be missing and then has its default. Wrappers
and pairs of labels have no defaults, so all their members are needed. Members
with other names are ignored.
-/

namespace Variational

open Document

/-! ## Wrappers and labels -/

namespace Wrapper

def toDocument (w : Wrapper) : Document :=
  .record [("start", .text w.opening), ("end", .text w.closing)]

def ofDocument? (d : Document) : Option Wrapper := do
  let m ← d.members ["start", "end"]
  return ⟨← required m "start" text?, ← required m "end" text?⟩

end Wrapper

namespace PairWrapper

def toDocument (w : PairWrapper) : Document :=
  .record [("start", .text w.opening), ("middle", .text w.middle), ("end", .text w.closing)]

def ofDocument? (d : Document) : Option PairWrapper := do
  let m ← d.members ["start", "middle", "end"]
  return ⟨← required m "start" text?, ← required m "middle" text?, ← required m "end" text?⟩

end PairWrapper

namespace Labels

def toDocument (labels : Labels) : Document :=
  .record [("sym", .text labels.sym), ("lin", .text labels.lin)]

def ofDocument? (d : Document) : Option Labels := do
  let m ← d.members ["sym", "lin"]
  return ⟨← required m "sym" text?, ← required m "lin" text?⟩

end Labels

/-! ## Conventions -/

namespace RootWrappers

def names : List String :=
  ["form", "scalar", "time_sequence", "time_interval", "time_instant", "array", "mesh",
    "manifold"]

def toDocument (w : RootWrappers) : Document :=
  .record <| names.zip <|
    [w.form, w.scalar, w.timeSequence, w.timeInterval, w.timeInstant, w.array, w.mesh,
      w.manifold].map Wrapper.toDocument

def ofDocument? (d : Document) : Option RootWrappers := do
  let m ← d.members names
  let std : RootWrappers := {}
  let wrapper := fun name => optional m name Wrapper.ofDocument?
  return {
    form := ← wrapper "form" std.form
    scalar := ← wrapper "scalar" std.scalar
    timeSequence := ← wrapper "time_sequence" std.timeSequence
    timeInterval := ← wrapper "time_interval" std.timeInterval
    timeInstant := ← wrapper "time_instant" std.timeInstant
    array := ← wrapper "array" std.array
    mesh := ← wrapper "mesh" std.mesh
    manifold := ← wrapper "manifold" std.manifold }

end RootWrappers

namespace LinGlyphs

def names : List String :=
  ["plus", "minus", "wedge", "hodge", "d", "codifferential", "time_derivative", "trace",
    "inner_product", "duality_pairing", "division", "multiply", "evaluate_at", "transpose",
    "non_root", "array_factor_separator", "array_connector", "vector_suffix"]

def toDocument (g : LinGlyphs) : Document :=
  .record <| names.zip [.text g.plus, .text g.minus, .text g.wedge, .text g.hodge,
    .text g.derivative, .text g.codifferential, .text g.timeDerivative, .text g.trace,
    g.innerProduct.toDocument, g.dualityPairing.toDocument, .text g.division, .text g.multiply,
    .text g.evaluateAt, .text g.transpose, g.nonRoot.toDocument, .text g.arrayFactorSeparator,
    .text g.arrayConnector, .text g.vectorSuffix]

def ofDocument? (d : Document) : Option LinGlyphs := do
  let m ← d.members names
  let std : LinGlyphs := {}
  let text := fun name => optional m name text?
  let pair := fun name => optional m name PairWrapper.ofDocument?
  return {
    plus := ← text "plus" std.plus
    minus := ← text "minus" std.minus
    wedge := ← text "wedge" std.wedge
    hodge := ← text "hodge" std.hodge
    derivative := ← text "d" std.derivative
    codifferential := ← text "codifferential" std.codifferential
    timeDerivative := ← text "time_derivative" std.timeDerivative
    trace := ← text "trace" std.trace
    innerProduct := ← pair "inner_product" std.innerProduct
    dualityPairing := ← pair "duality_pairing" std.dualityPairing
    division := ← text "division" std.division
    multiply := ← text "multiply" std.multiply
    evaluateAt := ← text "evaluate_at" std.evaluateAt
    transpose := ← text "transpose" std.transpose
    nonRoot := ← optional m "non_root" Wrapper.ofDocument? std.nonRoot
    arrayFactorSeparator := ← text "array_factor_separator" std.arrayFactorSeparator
    arrayConnector := ← text "array_connector" std.arrayConnector
    vectorSuffix := ← text "vector_suffix" std.vectorSuffix }

end LinGlyphs

namespace SymGlyphs

def names : List String :=
  ["plus", "minus", "wedge", "hodge", "d", "codifferential", "time_derivative", "trace",
    "inner_product", "duality_pairing", "division", "evaluate_at", "vector", "transpose",
    "non_root"]

def toDocument (g : SymGlyphs) : Document :=
  .record <| names.zip [.text g.plus, .text g.minus, .text g.wedge, .text g.hodge,
    .text g.derivative, .text g.codifferential, .text g.timeDerivative, .text g.trace,
    g.innerProduct.toDocument, g.dualityPairing.toDocument, g.division.toDocument,
    g.evaluateAt.toDocument, g.vector.toDocument, .text g.transpose, g.nonRoot.toDocument]

def ofDocument? (d : Document) : Option SymGlyphs := do
  let m ← d.members names
  let std : SymGlyphs := {}
  let text := fun name => optional m name text?
  let wrapper := fun name => optional m name Wrapper.ofDocument?
  let pair := fun name => optional m name PairWrapper.ofDocument?
  return {
    plus := ← text "plus" std.plus
    minus := ← text "minus" std.minus
    wedge := ← text "wedge" std.wedge
    hodge := ← text "hodge" std.hodge
    derivative := ← text "d" std.derivative
    codifferential := ← text "codifferential" std.codifferential
    timeDerivative := ← text "time_derivative" std.timeDerivative
    trace := ← text "trace" std.trace
    innerProduct := ← pair "inner_product" std.innerProduct
    dualityPairing := ← pair "duality_pairing" std.dualityPairing
    division := ← pair "division" std.division
    evaluateAt := ← pair "evaluate_at" std.evaluateAt
    vector := ← wrapper "vector" std.vector
    transpose := ← text "transpose" std.transpose
    nonRoot := ← wrapper "non_root" std.nonRoot }

end SymGlyphs

namespace DefaultLabels

def names : List String :=
  ["manifold", "mesh", "time_sequence", "time_interval_sym"]

def toDocument (labels : DefaultLabels) : Document :=
  .record <| names.zip [labels.manifold.toDocument, labels.mesh.toDocument,
    labels.timeSequence.toDocument, .text labels.timeIntervalSym]

def ofDocument? (d : Document) : Option DefaultLabels := do
  let m ← d.members names
  let std : DefaultLabels := {}
  let labels := fun name => optional m name Labels.ofDocument?
  return {
    manifold := ← labels "manifold" std.manifold
    mesh := ← labels "mesh" std.mesh
    timeSequence := ← labels "time_sequence" std.timeSequence
    timeIntervalSym := ← optional m "time_interval_sym" text? std.timeIntervalSym }

end DefaultLabels

namespace Conventions

def names : List String :=
  ["lin_wrappers", "lin_ops", "sym_ops", "defaults"]

def toDocument (c : Conventions) : Document :=
  .record <| names.zip [c.wrappers.toDocument, c.linGlyphs.toDocument, c.symGlyphs.toDocument,
    c.defaults.toDocument]

def ofDocument? (d : Document) : Option Conventions := do
  let m ← d.members names
  let std : Conventions := {}
  return {
    wrappers := ← optional m "lin_wrappers" RootWrappers.ofDocument? std.wrappers
    linGlyphs := ← optional m "lin_ops" LinGlyphs.ofDocument? std.linGlyphs
    symGlyphs := ← optional m "sym_ops" SymGlyphs.ofDocument? std.symGlyphs
    defaults := ← optional m "defaults" DefaultLabels.ofDocument? std.defaults }

theorem ofDocument?_toDocument (c : Conventions) : ofDocument? c.toDocument = some c := rfl

end Conventions

/-! ## Settings -/

namespace Settings

def names : List String :=
  ["embedding_space_dim", "repr"]

/-- The document of all settings. -/
def toDocument (s : Settings) : Document :=
  .record <| names.zip [.natural s.embeddingDim.toNat, s.conventions.toDocument]

/-- Reads settings; a member of the wrong type is not accepted. -/
def ofDocument? (d : Document) : Option Settings := do
  let m ← d.members names
  let std : Settings := {}
  return {
    embeddingDim := ← optional m "embedding_space_dim" word? std.embeddingDim
    conventions := ← optional m "repr" Conventions.ofDocument? std.conventions }

/-- Settings are read back from their document. -/
theorem ofDocument?_toDocument (s : Settings) : ofDocument? s.toDocument = some s := by
  change ((word? (.natural s.embeddingDim.toNat)).bind fun dim =>
    (Conventions.ofDocument? s.conventions.toDocument).bind fun c =>
      some (⟨dim, c⟩ : Settings)) = some s
  rw [word?_toNat, Conventions.ofDocument?_toDocument]
  rfl

end Settings

end Variational
