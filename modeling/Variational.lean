import Variational.Arena
import Variational.Block.Address
import Variational.Block.Basic
import Variational.Block.Description
import Variational.Block.System
import Variational.Decimal.Reading
import Variational.Decimal.Shortest
import Variational.Decimal.Writing
import Variational.Discretization.Basic
import Variational.Discretization.Plan
import Variational.Document
import Variational.Equation
import Variational.Form.Algebra
import Variational.Form.Basic
import Variational.Form.Substitution
import Variational.IdSet
import Variational.Kind
import Variational.Labels
import Variational.Linear.Arrays
import Variational.Linear.Basic
import Variational.Mesh.Basic
import Variational.Mesh.Registration
import Variational.Ode.Basic
import Variational.Pde.Basic
import Variational.Pde.Expression
import Variational.Pde.PortHamiltonian
import Variational.Proofs.Admissible.Discretizations
import Variational.Proofs.Admissible.Entities
import Variational.Proofs.Admissible.Formulations
import Variational.Proofs.Admissible.Operations
import Variational.Proofs.Admissible.References
import Variational.Proofs.Admissible.Requests
import Variational.Proofs.Admissible.Rules
import Variational.Proofs.Admissible.Systems
import Variational.Proofs.Admissible.Terms
import Variational.Proofs.Answers
import Variational.Proofs.ArrayLabels
import Variational.Proofs.ArrayRequests
import Variational.Proofs.Arrays
import Variational.Proofs.Block.Addresses
import Variational.Proofs.Block.Cells
import Variational.Proofs.Block.Conservation
import Variational.Proofs.Block.Descriptions
import Variational.Proofs.Block.Dimensions
import Variational.Proofs.Block.Remainder
import Variational.Proofs.Block.Sorting
import Variational.Proofs.Block.Successive
import Variational.Proofs.Boundaries
import Variational.Proofs.Conversion.Chains
import Variational.Proofs.Conversion.Exactness
import Variational.Proofs.Conversion.Frame
import Variational.Proofs.Conversion.Interpretation
import Variational.Proofs.Conversion.Rules
import Variational.Proofs.Conversion.Runs
import Variational.Proofs.Conversion.Totality
import Variational.Proofs.Coverings
import Variational.Proofs.DecimalReading
import Variational.Proofs.Decimals
import Variational.Proofs.Degrees
import Variational.Proofs.Derivations
import Variational.Proofs.Discretization.Agreement
import Variational.Proofs.Discretization.Calls
import Variational.Proofs.Discretization.Edits
import Variational.Proofs.Discretization.Preparation
import Variational.Proofs.Discretization.Runs
import Variational.Proofs.Discretization.Sequences
import Variational.Proofs.Discretization.Sources
import Variational.Proofs.Discretization.Stages
import Variational.Proofs.Discretization.Unknowns
import Variational.Proofs.Discretization.Values
import Variational.Proofs.Divisions
import Variational.Proofs.Divisors
import Variational.Proofs.Doubles
import Variational.Proofs.Durations
import Variational.Proofs.ElementaryForms
import Variational.Proofs.Equations
import Variational.Proofs.Evaluation
import Variational.Proofs.EvaluationLabels
import Variational.Proofs.Expressions
import Variational.Proofs.FormTyping
import Variational.Proofs.Forms
import Variational.Proofs.FreshLabels
import Variational.Proofs.Geometry
import Variational.Proofs.LabelIndices
import Variational.Proofs.Labels
import Variational.Proofs.Multiples
import Variational.Proofs.Numbers
import Variational.Proofs.NumericTimes
import Variational.Proofs.Progress
import Variational.Proofs.RealScalars
import Variational.Proofs.Reconstruction
import Variational.Proofs.Replacement
import Variational.Proofs.Representation
import Variational.Proofs.Restoration
import Variational.Proofs.Rounding
import Variational.Proofs.ScalarIdentity
import Variational.Proofs.ScalarLabels
import Variational.Proofs.ScalarMeaning
import Variational.Proofs.Scalars
import Variational.Proofs.Session.Additivity
import Variational.Proofs.Session.Arenas
import Variational.Proofs.Session.Execution
import Variational.Proofs.Session.Extension
import Variational.Proofs.Session.Growth
import Variational.Proofs.Session.Invariants
import Variational.Proofs.Session.Reachability
import Variational.Proofs.Session.Steps
import Variational.Proofs.SpaceAlgebra
import Variational.Proofs.Spaces
import Variational.Proofs.StepKey.Evaluation
import Variational.Proofs.Substitution
import Variational.Proofs.Terms
import Variational.Proofs.Text.Numerals
import Variational.Proofs.Times
import Variational.Proofs.Traversals
import Variational.Proofs.WeakForm.AlgebraicSystems
import Variational.Proofs.WeakForm.Averaging
import Variational.Proofs.WeakForm.Checks
import Variational.Proofs.WeakForm.Extraction
import Variational.Proofs.WeakForm.FiniteSpaces
import Variational.Proofs.WeakForm.IntegrationByParts
import Variational.Proofs.WeakForm.Obtained
import Variational.Proofs.WeakForm.Patterns
import Variational.Proofs.WeakForm.Rearrangement
import Variational.Proofs.WeakForm.Replacement
import Variational.Proofs.WeakForm.Splitting
import Variational.Proofs.WeakForm.Testing
import Variational.Rejection
import Variational.Scalar.Arithmetic
import Variational.Scalar.Basic
import Variational.Session
import Variational.Settings
import Variational.Settings.Document
import Variational.Sign
import Variational.Space.Basic
import Variational.Space.Operations
import Variational.Term.Basic
import Variational.Term.Conversion
import Variational.Text.Blank
import Variational.Text.Index
import Variational.Text.Letter
import Variational.Text.Pieces
import Variational.Time.Basic
import Variational.Time.Operations
import Variational.Time.StepKey
import Variational.Time.Stepping
import Variational.WeakForm.Algebraic
import Variational.WeakForm.Basic
import Variational.WeakForm.Derivation
import Variational.WeakForm.Rearrangement
