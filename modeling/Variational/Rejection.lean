import Variational.Kind

/-!
# Causes of failure

A request is *rejected* for a cause of one of eight kinds; every cause has a
message. A request that names an entity which its session never issued is
*foreign*, which is told apart from every rejection.
-/

namespace Variational

/-! ## Operands that do not fit together -/

/-- Operands on different meshes or spaces, or with incompatible shapes. -/
inductive Mismatch
  | formDegree (k ndim : Nat) (mesh : String)
  | wedgeAcrossMeshes (left right : String)
  | differentSpaces (action left right leftSpace rightSpace : String)
  | differentSequences (left right : String)
  | brokenChain (leftRows leftCols rightRows rightCols : String)
  | pairAcrossMeshes (left right : String)
  | innerProductDegrees (left right : Nat)
  | pairingDegrees (left right ndim : Nat)
  | emptyEquation (equation : Nat)
  | equationSpaces (equation : Nat) (left right : String)
  | equationMesh (equation : Nat)
  | noEquations
  | notInSystem (form : String)
  | testCounts (equations spaces labels : Nat)
  | noWeakEquations
  | testFormCount (equations testForms : Nat)
  | testFormMesh (form : String)
  | wronglyTested (term : String) (equation : Nat) (testForm : String)
  | termMesh (term : String)
  | tableLengths (terms signs : Nat)
  | sideLengths (equation terms signs : Nat)
  | repeatedTerm (position : Nat) (pattern : String)
  | missingTerm (position equation : Nat) (pattern : String)
  | splitLengths (index : String)
  | mixedTestForms
  | notInOde (form : String)
  | noInstants
  | cellShape (newRows newCols rows cols : String)
  | testVectorCount (equations testVectors : Nat)
  | testVector (vector term : String)
  | portHamiltonianDegrees (n p : Nat)
deriving DecidableEq, Repr

def Mismatch.text : Mismatch → String
  | .formDegree k ndim mesh =>
    s!"cannot have {k}-forms on the {ndim}-dimensional mesh {mesh}"
  | .wedgeAcrossMeshes left right =>
    s!"wedge product of forms in {left} and {right} on different meshes"
  | .differentSpaces action left right leftSpace rightSpace =>
    s!"cannot {action} {left} and {right}: they are in the different spaces " ++
      s!"{leftSpace} and {rightSpace}"
  | .differentSequences left right =>
    s!"instants {left} and {right} belong to different time sequences"
  | .brokenChain leftRows leftCols rightRows rightCols =>
    s!"cannot chain an array of shape ({leftRows}, {leftCols}) " ++
      s!"with an array of shape ({rightRows}, {rightCols})"
  | .pairAcrossMeshes left right =>
    s!"cannot pair {left} and {right}: they live on different meshes"
  | .innerProductDegrees left right =>
    s!"inner product of a {left}-form and a {right}-form"
  | .pairingDegrees left right ndim =>
    s!"duality pairing of a {left}-form and a {right}-form over a {ndim}-dimensional mesh"
  | .emptyEquation equation => s!"equation {equation} has no terms"
  | .equationSpaces equation left right =>
    s!"equation {equation}: {left} and {right} are in different spaces"
  | .equationMesh equation =>
    s!"equation {equation} lives on a different mesh than the previous equations"
  | .noEquations => "a PDE needs at least one equation"
  | .notInSystem form => s!"{form} is not an elementary form of the PDE"
  | .testCounts equations spaces labels =>
    s!"{equations} equations need {equations} test spaces and labels, " ++
      s!"got {spaces} spaces and {labels} labels"
  | .noWeakEquations => "a weak formulation needs at least one equation"
  | .testFormCount equations testForms => s!"{equations} equations but {testForms} test forms"
  | .testFormMesh form => s!"test form {form} lives on a different mesh"
  | .wronglyTested term equation testForm =>
    s!"term {term} of equation {equation} is not tested with {testForm}"
  | .termMesh term => s!"term {term} is neither on the mesh nor on its boundary"
  | .tableLengths terms signs => s!"{terms} equations of terms but {signs} equations of signs"
  | .sideLengths equation terms signs => s!"equation {equation}: {terms} terms but {signs} signs"
  | .repeatedTerm position pattern => s!"term {position} appears more than once in \"{pattern}\""
  | .missingTerm position equation pattern =>
    s!"term {position} of equation {equation} is missing from \"{pattern}\""
  | .splitLengths index => s!"split of {index} needs equally many pieces, signs and factors"
  | .mixedTestForms => "all terms of an ODE must be tested with the same root form"
  | .notInOde form => s!"{form} is not an elementary form of the ODE"
  | .noInstants => "averaging needs at least one time instant"
  | .cellShape newRows newCols rows cols =>
    s!"cannot add a term of shape ({newRows}, {newCols}) to a block of shape ({rows}, {cols})"
  | .testVectorCount equations testVectors =>
    s!"{equations} equations but {testVectors} test vectors"
  | .testVector vector term => s!"cannot remove the test vector {vector} from {term}"
  | .portHamiltonianDegrees n p =>
    s!"the canonical port-Hamiltonian system needs 1 <= p <= n, got n = {n} and p = {p}"

/-! ## Operations without a meaning for their operands -/

/-- An operation that has no meaning, or no known one, for its operands. -/
inductive Unsupported
  | embedding (ndim embeddingDim : Nat)
  | derivative (k ndim : Nat)
  | codifferential
  | traceWithoutBoundary (space : String)
  | traceDegree (k ndim : Nat)
  | wedgeDegree (left right ndim : Nat)
  | nonFinite (number : String)
  | divisionByZero (dividend : String)
  | evaluatedTwice (form : String)
  | evaluatedDerived (form : String)
  | vectorOfDerived (form : String)
  | boundaryVectorOfDerived (form : String)
  | unknownNotRoot (form : String)
  | noAlgebraicForm (index term : String)
deriving DecidableEq, Repr

def Unsupported.text : Unsupported → String
  | .embedding ndim embeddingDim =>
    s!"cannot embed a manifold of dimension {ndim} in a space of dimension {embeddingDim}"
  | .derivative k ndim => s!"exterior derivative of {k}-forms on a {ndim}-dimensional mesh"
  | .codifferential => "codifferential of 0-forms"
  | .traceWithoutBoundary space => s!"trace of forms in {space}: mesh has no boundary"
  | .traceDegree k ndim => s!"trace of {k}-forms on the {ndim}-dimensional boundary"
  | .wedgeDegree left right ndim =>
    s!"wedge product of a {left}-form and a {right}-form on a {ndim}-dimensional mesh"
  | .nonFinite number => s!"non-finite constant {number}"
  | .divisionByZero dividend => s!"division of {dividend} by zero"
  | .evaluatedTwice form => s!"{form} is already evaluated at a time instant"
  | .evaluatedDerived form =>
    s!"only root forms can be evaluated at a time instant, {form} is not a root form"
  | .vectorOfDerived form =>
    s!"only root forms have coefficient vectors, {form} is not a root form"
  | .boundaryVectorOfDerived form => s!"boundary vector of the non-root form {form}"
  | .unknownNotRoot form => s!"unknowns must be root forms, {form} is not"
  | .noAlgebraicForm index term => s!"term {index} ({term}) has no algebraic representation"

/-! ## Terms of the wrong shape -/

/-- A term or an equation without the shape that an operation is defined for. -/
inductive PatternMiss
  | notIntegrable (term : String)
  | noTimeDerivative
  | severalDifferentiated (forms : List String)
  | notDifferentiable (term : String)
  | notContained (form term : String)
deriving DecidableEq, Repr

def PatternMiss.text : PatternMiss → String
  | .notIntegrable term => s!"integration by parts needs a term (δa, b), got {term}"
  | .noTimeDerivative => "not a valid ODE: no term is a time derivative"
  | .severalDifferentiated forms =>
    "an ODE must be about a single form, found time derivatives of " ++
      String.intercalate ", " forms
  | .notDifferentiable term => s!"cannot differentiate {term}: it is not of the form (∂t u, w)"
  | .notContained form term => s!"{form} does not occur in {term}"

/-! ## Points in time -/

/-- A time that lies outside its sequence, off its grid, or cannot be computed.
Times and steps are given by their text. -/
inductive BadInstant
  | emptyInterval (start stop : String)
  | emptyRange (tMax t0 : String)
  | noSteps (pieces factor : Nat)
  | tooEarly (step time t0 : String)
  | tooLate (step time tMax : String)
  | offGrid (step : String) (factor : Nat)
  | degenerateInterval (instant : String)
  | unboundVariable (name key : String)
deriving DecidableEq, Repr

def BadInstant.text : BadInstant → String
  | .emptyInterval start stop =>
    s!"interval [{start}, {stop}] does not have a positive duration"
  | .emptyRange tMax t0 => s!"t_max = {tMax} must be larger than t_0 = {t0}"
  | .noSteps pieces factor =>
    s!"number of intervals ({pieces}) and factor ({factor}) must be positive"
  | .tooEarly step time t0 => s!"step {step} is at t = {time}, before t_0 = {t0}"
  | .tooLate step time tMax => s!"step {step} is at t = {time}, after t_max = {tMax}"
  | .offGrid step factor => s!"step {step} is not a multiple of 1/{factor}"
  | .degenerateInterval instant => s!"interval from {instant} to itself"
  | .unboundVariable name key => s!"step variable {name} in \"{key}\" is not bound"

/-! ## Indices -/

/-- What is wrong with an index. -/
inductive IndexFault
  | notATermAddress
  | notANumber (text : String)
  | equationCount (equations : Nat)
  | termCount (equation terms : Nat)
  | notATermPosition (text : String)
  | noSuchEquation
  | notAPosition
  | odeTermCount (terms : Nat)
  | fewerTerms (equation terms : Nat)
  | vectorRows (rows : Nat)
  | matrixShape (rows cols : Nat)
  | notABlockAddress
  | blockNotANumber
  | positionNotNumbers
  | blockCount (blocks : Nat)
  | positionCount
  | outsideBlock
deriving DecidableEq, Repr

def IndexFault.text : IndexFault → String
  | .notATermAddress => "expected the form \"i-j\""
  | .notANumber text => s!"{text} is not a non-negative integer"
  | .equationCount equations => s!"there are only {equations} equations"
  | .termCount equation terms => s!"equation {equation} has only {terms} terms"
  | .notATermPosition text => s!"{text} is not a term index"
  | .noSuchEquation => "no such equation"
  | .notAPosition => "expected a non-negative integer"
  | .odeTermCount terms => s!"the ODE has only {terms} terms"
  | .fewerTerms equation terms => s!"equation {equation} has fewer than {terms} terms"
  | .vectorRows rows => s!"block vector has {rows} rows"
  | .matrixShape rows cols => s!"block matrix has shape ({rows}, {cols})"
  | .notABlockAddress => "expected \"a-b\" or \"a-b,c\""
  | .blockNotANumber => "block is not a non-negative integer"
  | .positionNotNumbers => "position is not a list of non-negative integers"
  | .blockCount blocks => s!"there are only {blocks} blocks"
  | .positionCount => "wrong number of positions for this block"
  | .outsideBlock => "position out of range"

/-! ## Texts -/

/-- Why a step key has no value. -/
inductive KeyFault
  | unexpectedCharacter (c : Char)
  | unexpectedEnd
  | unbalanced
  | badNumber (text : String)
  | divisionByZero
deriving DecidableEq, Repr

def KeyFault.text : KeyFault → String
  | .unexpectedCharacter c => s!"unexpected character '{c}'"
  | .unexpectedEnd => "unexpected end of key"
  | .unbalanced => "unbalanced parenthesis"
  | .badNumber text => s!"failed to parse {text} as f64: invalid float literal"
  | .divisionByZero => "division by zero"

/-- A label or another text that is not allowed or has no meaning. -/
inductive Malformed
  | blankSymbol (kind : EntityKind)
  | emptyLabel (kind : EntityKind)
  | reservedCharacter (label : String) (kind : EntityKind) (c : Char)
  | reservedNumber (label : String)
  | sign (text : String)
  | orientation (text : String)
  | slot (text : String)
  | stepKey (key : String)
  | stepValue (key : String) (fault : KeyFault)
  | equalsCount (expression : String)
  | unknownName (expression name : String)
  | missingName (expression : String)
  | rearrangement (pattern : String)
deriving DecidableEq, Repr

def Malformed.text : Malformed → String
  | .blankSymbol kind => s!"symbolic label of a {kind.noun} must not be blank"
  | .emptyLabel kind => s!"linguistic label of a {kind.noun} must not be empty"
  | .reservedCharacter label kind c =>
    s!"linguistic label \"{label}\" of a {kind.noun} contains the reserved character '{c}'"
  | .reservedNumber label => s!"\"{label}\" is reserved for a real scalar"
  | .sign text => s!"sign must be '+' or '-', got \"{text}\""
  | .orientation text =>
    s!"orientation must be one of inner, i, outer, o, unknown or None, got \"{text}\""
  | .slot text => s!"slot must be f0 or f1, got \"{text}\""
  | .stepKey key =>
    s!"\"{key}\" is not a valid step key: keys must be non-empty and must not contain whitespace, " ++
      "brackets, commas, '$' or '\\'"
  | .stepValue key fault => s!"cannot evaluate step key \"{key}\": " ++ fault.text
  | .equalsCount expression => s!"expression \"{expression}\" must contain exactly one '='"
  | .unknownName expression name =>
    s!"cannot parse expression \"{expression}\": unknown name {name}"
  | .missingName expression => s!"cannot parse expression \"{expression}\": expected a name"
  | .rearrangement pattern => s!"rearrangement \"{pattern}\" must contain exactly one '='"

/-! ## Requests that come too early or too late -/

/-- A request that the present state does not admit. -/
inductive BadState
  | alreadyCovered (manifold mesh : String)
  | degreeFixed (space : String) (degree requested : Nat)
  | notFinite (space : String)
  | alreadySpecified (sequence : String)
  | notSpecified (sequence : String)
  | sequenceFixed
  | noSequence
  | instantNotDeclared (key : String)
  | noUnknowns
deriving DecidableEq, Repr

def BadState.text : BadState → String
  | .alreadyCovered manifold mesh => s!"manifold {manifold} is already covered by mesh {mesh}"
  | .degreeFixed space degree requested =>
    s!"space {space} is already finite with degree {degree}, cannot change it to {requested}"
  | .notFinite space => s!"space {space} is not finite"
  | .alreadySpecified sequence => s!"time sequence {sequence} is already specified"
  | .notSpecified sequence => s!"time sequence {sequence} is not specified"
  | .sequenceFixed => "cannot change the time sequence after terms were discretized"
  | .noSequence => "set the time sequence before declaring time instants"
  | .instantNotDeclared key => s!"time instant {key} is not defined"
  | .noUnknowns => "set the unknowns of the weak formulation first"

/-! ## Rejections and failures -/

/-- The cause for which a request is rejected. -/
inductive Rejection
  | identityConflict (kind : EntityKind) (label : String)
  | structural (cause : Mismatch)
  | unsupported (cause : Unsupported)
  | pattern (cause : PatternMiss)
  | instant (cause : BadInstant)
  | index (address : String) (fault : IndexFault)
  | malformed (cause : Malformed)
  | state (cause : BadState)
deriving DecidableEq, Repr

/-- The message of a rejection. -/
def Rejection.message : Rejection → String
  | .identityConflict kind label =>
    s!"A root {kind.noun} with label \"{label}\" is already registered."
  | .structural cause => "Structural mismatch: " ++ cause.text
  | .unsupported cause => "Unsupported operation: " ++ cause.text
  | .pattern cause => "Pattern mismatch: " ++ cause.text
  | .instant cause => "Invalid time instant: " ++ cause.text
  | .index address fault => s!"Index \"{address}\" is illegal: " ++ fault.text
  | .malformed cause => "Invalid representation: " ++ cause.text
  | .state cause => "Invalid state: " ++ cause.text

/-- Why a request has no result: it is rejected, or it names an entity of the given kind
that its session does not hold. -/
inductive Failure
  | rejected (cause : Rejection)
  | foreign (kind : EntityKind)
deriving DecidableEq, Repr

/-- The result of a request that changes nothing. -/
abbrev Outcome := Except Failure

/-- Rejects a request. -/
def reject {α : Type} (cause : Rejection) : Outcome α :=
  .error (.rejected cause)

/-- Fails for an id that the session does not hold. -/
def foreign {α : Type} (kind : EntityKind) : Outcome α :=
  .error (.foreign kind)

end Variational
