import EmbeddingAttack.Arithmetic.Bezout
import EmbeddingAttack.Arithmetic.Modular
import EmbeddingAttack.Arithmetic.Prime
import EmbeddingAttack.Arithmetic.Words
import EmbeddingAttack.Attack.CostModel
import EmbeddingAttack.Attack.Forecast
import EmbeddingAttack.Attack.Lookahead
import EmbeddingAttack.Attack.Loop
import EmbeddingAttack.Attack.Outcome
import EmbeddingAttack.Attack.ParameterFile
import EmbeddingAttack.Attack.Parameters
import EmbeddingAttack.Attack.Preparation
import EmbeddingAttack.Attack.Report
import EmbeddingAttack.Attack.RunContext
import EmbeddingAttack.Attack.Schedule
import EmbeddingAttack.Attack.Solution
import EmbeddingAttack.Attack.TimingTable
import EmbeddingAttack.Attack.Tracer
import EmbeddingAttack.CommandLine.Arguments
import EmbeddingAttack.CommandLine.Mixer
import EmbeddingAttack.CommandLine.Program
import EmbeddingAttack.Decimal.Binary
import EmbeddingAttack.Decimal.Notation
import EmbeddingAttack.Decimal.Reader
import EmbeddingAttack.Decimal.Rounding
import EmbeddingAttack.Decimal.Shortest
import EmbeddingAttack.Embedding
import EmbeddingAttack.Engine.Basic
import EmbeddingAttack.Engine.Journal
import EmbeddingAttack.Engine.JournalReport
import EmbeddingAttack.Engine.Reference
import EmbeddingAttack.Engine.Scripted
import EmbeddingAttack.Estimate
import EmbeddingAttack.Failure
import EmbeddingAttack.Failure.Message
import EmbeddingAttack.FileTree
import EmbeddingAttack.Instance.Basic
import EmbeddingAttack.Instance.Challenge
import EmbeddingAttack.Instance.Directory
import EmbeddingAttack.Instance.FileName
import EmbeddingAttack.Instance.Synthetic
import EmbeddingAttack.Json.Number
import EmbeddingAttack.Json.Reader
import EmbeddingAttack.Json.Value
import EmbeddingAttack.Json.Writer
import EmbeddingAttack.Lattice.Basis
import EmbeddingAttack.Lattice.BlockSearch
import EmbeddingAttack.Lattice.Enumeration
import EmbeddingAttack.Lattice.FreeDimensions
import EmbeddingAttack.Lattice.FreeDimensionsText
import EmbeddingAttack.Lattice.Insertion
import EmbeddingAttack.Lattice.IntMatrix
import EmbeddingAttack.Lattice.LLL
import EmbeddingAttack.Lattice.NearestPlane
import EmbeddingAttack.Lattice.Statistics
import EmbeddingAttack.Lattice.Tour
import EmbeddingAttack.Main
import EmbeddingAttack.Path
import EmbeddingAttack.Profile.Basic
import EmbeddingAttack.Profile.GaussianHeuristic
import EmbeddingAttack.Profile.Simulation
import EmbeddingAttack.Scalar
import EmbeddingAttack.Table
import EmbeddingAttack.Text.Blank
import EmbeddingAttack.Text.Integer
import EmbeddingAttack.Text.Invisible
import EmbeddingAttack.Text.Quoted
import EmbeddingAttack.Trials
import EmbeddingAttack.Trials.Report
import EmbeddingAttack.Proofs.Arithmetic.Bezout
import EmbeddingAttack.Proofs.Arithmetic.Prime
import EmbeddingAttack.Proofs.Computation
import EmbeddingAttack.Proofs.Lattice.InsertionLattice
import EmbeddingAttack.Proofs.Lattice.Preservation
import EmbeddingAttack.Proofs.Lattice.Operations
import EmbeddingAttack.Proofs.Embedding.ColumnLattice
import EmbeddingAttack.Proofs.Embedding.KannanLattice
import EmbeddingAttack.Proofs.Arithmetic.Fraction
import EmbeddingAttack.Proofs.Attack.GoalReached
import EmbeddingAttack.Proofs.Engine.Alongside
import EmbeddingAttack.Proofs.Attack.Soundness
import EmbeddingAttack.Proofs.Arithmetic.RealScalar
import EmbeddingAttack.Proofs.Lattice.BlockNorm
import EmbeddingAttack.Proofs.Lattice.ShellWalk
import EmbeddingAttack.Proofs.Lattice.ShortestVector
import EmbeddingAttack.Proofs.Lattice.CachedData
import EmbeddingAttack.Proofs.Lattice.Recomputation
import EmbeddingAttack.Proofs.Lattice.Tours
import EmbeddingAttack.Proofs.Lattice.Freshness
import EmbeddingAttack.Proofs.Lattice.GramSchmidt
import EmbeddingAttack.Proofs.Lattice.ExactUpdates
import EmbeddingAttack.Proofs.Lattice.Reducedness
import EmbeddingAttack.Proofs.Engine.Recording
import EmbeddingAttack.Proofs.Engine.InStep
import EmbeddingAttack.Proofs.Attack.WholeRun
import EmbeddingAttack.Proofs.Attack.Telemetry
import EmbeddingAttack.Proofs.Attack.TraceCounts
import EmbeddingAttack.Proofs.Attack.TraceTrail
import EmbeddingAttack.Proofs.Attack.TraceAccount
import EmbeddingAttack.Proofs.Lattice.GramDeterminant
import EmbeddingAttack.Proofs.Lattice.Potential
import EmbeddingAttack.Proofs.Lattice.InsertedRow
import EmbeddingAttack.Proofs.Lattice.BlockTransformation
import EmbeddingAttack.Proofs.Lattice.ProjectedBlock
import EmbeddingAttack.Proofs.Lattice.ExactInsertion
import EmbeddingAttack.Proofs.Lattice.LiftNorm
import EmbeddingAttack.Proofs.Lattice.FirstVector
import EmbeddingAttack.Proofs.Attack.SearchTime
import EmbeddingAttack.Proofs.Attack.LookaheadTimes
import EmbeddingAttack.Proofs.Engine.Watching
import EmbeddingAttack.Proofs.Attack.SearchDecision
import EmbeddingAttack.Proofs.Attack.SearchBudget
import EmbeddingAttack.Proofs.Attack.SearchCoverage
import EmbeddingAttack.Proofs.Decimal.Notation
import EmbeddingAttack.Proofs.Text.Lines
import EmbeddingAttack.Proofs.Text.Integer
import EmbeddingAttack.Proofs.Instance.ChallengeText
import EmbeddingAttack.Proofs.Text.Layout
import EmbeddingAttack.Proofs.Text.Literal
import EmbeddingAttack.Proofs.Instance.ChallengeFormat
import EmbeddingAttack.Proofs.Embedding.Subsystem
import EmbeddingAttack.Proofs.Instance.Generated
import EmbeddingAttack.Proofs.Files.Changes
import EmbeddingAttack.Proofs.Files.FileName
import EmbeddingAttack.Proofs.Trials.ReportOrder
import EmbeddingAttack.Proofs.Trials.SolutionFiles
import EmbeddingAttack.Proofs.Lattice.Refusals
import EmbeddingAttack.Proofs.Lattice.BlockImprovement
import EmbeddingAttack.Proofs.Lattice.WindowSearch
import EmbeddingAttack.Proofs.Lattice.RangeReduction
import EmbeddingAttack.Proofs.Lattice.EnumerationWalk
import EmbeddingAttack.Proofs.Lattice.CheckedBasis
import EmbeddingAttack.Proofs.Lattice.CheckedSearch
import EmbeddingAttack.Proofs.Profile.Simulation
import EmbeddingAttack.Proofs.Lattice.TourWindows
import EmbeddingAttack.Proofs.Attack.ScaleInvariance
import EmbeddingAttack.Proofs.Attack.CheapestParameters
import EmbeddingAttack.Proofs.Attack.SearchWindow
import EmbeddingAttack.Proofs.Profile.Recurrence
import EmbeddingAttack.Proofs.Profile.Composition
import EmbeddingAttack.Proofs.Attack.SuccessDimension
import EmbeddingAttack.Proofs.Attack.SteppedRange
import EmbeddingAttack.Proofs.Text.Parts
import EmbeddingAttack.Proofs.Attack.ExplicitSchedule
import EmbeddingAttack.Proofs.Attack.DefaultSchedule
import EmbeddingAttack.Proofs.Lattice.DependentRows
import EmbeddingAttack.Proofs.Lattice.EnumerationBudget
import EmbeddingAttack.Proofs.Arithmetic.Cofactors
import EmbeddingAttack.Proofs.Instance.PrimeModulus
import EmbeddingAttack.Proofs.Lattice.NearestPlane
