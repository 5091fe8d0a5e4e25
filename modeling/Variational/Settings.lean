import Variational.Labels

/-!
# Settings of a session

The dimension of the surrounding space and all conventions for texts: what is
written around the linguistic labels of root entities, the glyphs of operators
in composed labels, and the labels of entities that are created without any.
-/

namespace Variational

/-- Texts around one label. -/
structure Wrapper where
  opening : String
  closing : String
deriving DecidableEq, Repr

def Wrapper.wrap (w : Wrapper) (inner : String) : String :=
  w.opening ++ inner ++ w.closing

/-- Texts around and between two labels. -/
structure PairWrapper where
  opening : String
  middle : String
  closing : String
deriving DecidableEq, Repr

def PairWrapper.join (w : PairWrapper) (left right : String) : String :=
  w.opening ++ left ++ w.middle ++ right ++ w.closing

/-- What is written around the linguistic label of a root entity of each kind. -/
structure RootWrappers where
  form : Wrapper := ⟨"\\textsf\x7b", "\x7d"⟩
  scalar : Wrapper := ⟨"\\textsc\x7b", "\x7d"⟩
  timeSequence : Wrapper := ⟨"\\textit\x7b", "\x7d"⟩
  timeInterval : Wrapper := ⟨"\\texttt\x7b", "\x7d"⟩
  timeInstant : Wrapper := ⟨"\\textsl\x7b", "\x7d"⟩
  array : Wrapper := ⟨"\\textbf\x7b", "\x7d"⟩
  mesh : Wrapper := ⟨"\\textrm\x7b", "\x7d"⟩
  manifold : Wrapper := ⟨"\\underline\x7b", "\x7d"⟩
deriving DecidableEq, Repr

/-- The glyphs of composed linguistic labels. -/
structure LinGlyphs where
  plus : String := " $+$ "
  minus : String := " $-$ "
  wedge : String := " $\\wedge$ "
  hodge : String := "$\\star$ "
  derivative : String := "$\\mathrm\x7bd\x7d$ "
  codifferential : String := "$\\mathrm\x7bd\x7d^\x7b\\ast\x7d$ "
  timeDerivative : String := "$\\partial_\x7bt\x7d$ "
  trace : String := "\\emph\x7btr\x7d "
  innerProduct : PairWrapper := ⟨"$($", "\\emph\x7b,\x7d ", "$)$ \\emph\x7bover\x7d "⟩
  dualityPairing : PairWrapper := ⟨"$<$", "\\emph\x7b,\x7d ", "$>$ \\emph\x7bover\x7d "⟩
  division : String := " \\emph\x7bdivided by\x7d "
  multiply : String := " \\emph\x7bmultiply\x7d "
  evaluateAt : String := "@"
  transpose : String := "-transpose"
  /-- Placed around operands that are not root forms. -/
  nonRoot : Wrapper := ⟨"\\\x7b", "\\\x7d"⟩
  arrayFactorSeparator : String := "\\\x7b*\\\x7d"
  arrayConnector : String := "\\\x7b@\\\x7d"
  vectorSuffix : String := "+vec"
deriving DecidableEq, Repr

/-- The glyphs of composed symbolic labels. -/
structure SymGlyphs where
  plus : String := "+"
  minus : String := "-"
  wedge : String := "\x7b\\wedge\x7d"
  hodge : String := "\x7b\\star\x7d"
  derivative : String := "\\mathrm\x7bd\x7d"
  codifferential : String := "\\mathrm\x7bd\x7d^\x7b\\ast\x7d"
  timeDerivative : String := "\\partial_\x7bt\x7d"
  trace : String := "\\mathrm\x7btr\x7d"
  innerProduct : PairWrapper := ⟨"\\left(", ",", "\\right)"⟩
  dualityPairing : PairWrapper := ⟨"\\left<", ",", "\\right>"⟩
  division : PairWrapper := ⟨"\\dfrac\x7b", "\x7d\x7b", "\x7d"⟩
  evaluateAt : PairWrapper := ⟨"\\left.", "\\right|^\x7b(", ")\x7d"⟩
  vector : Wrapper := ⟨"\\vec\x7b", "\x7d"⟩
  transpose : String := "^\x7b\\mathsf\x7bT\x7d\x7d"
  /-- Placed around operands that are not root forms. -/
  nonRoot : Wrapper := ⟨"\\left(", "\\right)"⟩
deriving DecidableEq, Repr

/-- The labels of entities that are created without labels of their own. -/
structure DefaultLabels where
  manifold : Labels := ⟨"\\mathcal\x7bM\x7d", "Manifold"⟩
  mesh : Labels := ⟨"\\mathfrak\x7bM\x7d", "Mesh"⟩
  timeSequence : Labels := ⟨"\\mathtt\x7bT\x7d^S", "Ts"⟩
  timeIntervalSym : String := "\\Delta t"
deriving DecidableEq, Repr

/-- All conventions for the texts of a session. -/
structure Conventions where
  wrappers : RootWrappers := {}
  linGlyphs : LinGlyphs := {}
  symGlyphs : SymGlyphs := {}
  defaults : DefaultLabels := {}
deriving DecidableEq, Repr

/-- The settings of a session. -/
structure Settings where
  /-- The dimension of the space that manifolds are embedded in. -/
  embeddingDim : UInt64 := 3
  conventions : Conventions := {}
deriving DecidableEq, Repr

end Variational
