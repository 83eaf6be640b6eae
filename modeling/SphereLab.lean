import SphereLab.CommandLine.Options
import SphereLab.CommandLine.Request
import SphereLab.DataFile.Header
import SphereLab.DataFile.Table
import SphereLab.DataFile.Variables
import SphereLab.Decimal.Digits
import SphereLab.Decimal.Dyadic
import SphereLab.Decimal.General
import SphereLab.Decimal.Numeral
import SphereLab.Decimal.Style
import SphereLab.DensityProfile
import SphereLab.Directory
import SphereLab.Failure
import SphereLab.Figure.Basic
import SphereLab.Figure.Canvas
import SphereLab.Figure.Drawing
import SphereLab.Filing
import SphereLab.Formula.Basic
import SphereLab.Formula.CSource
import SphereLab.Formula.Compiled
import SphereLab.Formula.Eval
import SphereLab.Formula.LaTeX
import SphereLab.Formula.Layout
import SphereLab.FreeEnergy.Estimate
import SphereLab.FreeEnergy.Report
import SphereLab.FreeEnergy.Schedule
import SphereLab.FreeEnergy.Sweep
import SphereLab.Jobs.Grid
import SphereLab.Jobs.Job
import SphereLab.Jobs.SphereCount
import SphereLab.LeastSquares.LevenbergMarquardt
import SphereLab.LeastSquares.Linear
import SphereLab.Outside
import SphereLab.PairCorrelation.Ansatz
import SphereLab.PairCorrelation.DataSet
import SphereLab.PairCorrelation.Figures
import SphereLab.PairCorrelation.Fit
import SphereLab.PairCorrelation.Panels
import SphereLab.PairCorrelation.Publication
import SphereLab.PairCorrelation.Reference
import SphereLab.PairCorrelation.Report
import SphereLab.PairCorrelation.Smoothing
import SphereLab.PairCorrelation.Study
import SphereLab.PathText
import SphereLab.Scalar
import SphereLab.Session
import SphereLab.Settings
import SphereLab.Shell.Arithmetic
import SphereLab.Shell.Calls
import SphereLab.Shell.Command
import SphereLab.Shell.Execution
import SphereLab.Shell.Expansion
import SphereLab.Shell.Filters
import SphereLab.Shell.LineExpression
import SphereLab.Shell.Pattern
import SphereLab.Shell.Program
import SphereLab.Shell.Reading
import SphereLab.Shell.State
import SphereLab.Shell.Token
import SphereLab.Shell.Tools
import SphereLab.Text.Blank
import SphereLab.Text.Document
import SphereLab.Text.Quoted
import SphereLab.Text.Timestamp
import SphereLab.Text.Unprintable
import SphereLab.Proofs.Formula.Symbols
import SphereLab.Proofs.Formula.NormalForm
import SphereLab.Proofs.Scalar.Exact
import SphereLab.Proofs.Scalar.Word
import SphereLab.Proofs.Scalar.Marked
import SphereLab.Proofs.LeastSquares.Descent
import SphereLab.Proofs.Formula.Simplification
import SphereLab.Proofs.Decimal.Numerals
import SphereLab.Proofs.Directory.Growth
import SphereLab.Proofs.Directory.Paths
import SphereLab.Proofs.FreeEnergy.Commands
import SphereLab.Proofs.FreeEnergy.Calls
import SphereLab.Proofs.FreeEnergy.Resumption
import SphereLab.Proofs.Double.Reading
import SphereLab.Proofs.Double.Value
import SphereLab.Proofs.Double.Nearest
import SphereLab.Proofs.Double.Rounding
import SphereLab.Proofs.Double.Units
import SphereLab.Proofs.Formula.Rounded
import SphereLab.Proofs.Formula.Program
import SphereLab.Proofs.PairCorrelation.Ansatz
import SphereLab.Proofs.Scalar.Elementary
import SphereLab.Proofs.Double.Range
import SphereLab.Proofs.FreeEnergy.Soundness
import SphereLab.Proofs.Decimal.Shortest
import SphereLab.Proofs.Decimal.HalfEven
import SphereLab.Proofs.Decimal.General
import SphereLab.Proofs.Decimal.Fixed
import SphereLab.Proofs.CExpression.Grammar
import SphereLab.Proofs.CExpression.Parser
import SphereLab.Proofs.CExpression.Header
import SphereLab.Proofs.CExpression.Writing
import SphereLab.Proofs.Formula.LayoutText
import SphereLab.Proofs.Formula.CSource
import SphereLab.Proofs.Formula.Compilation
import SphereLab.Proofs.PairCorrelation.Unwrapping
import SphereLab.Proofs.PairCorrelation.Model
import SphereLab.Proofs.PairCorrelation.Publication
import SphereLab.Proofs.FreeEnergy.Identity
import SphereLab.Proofs.FreeEnergy.Trace
import SphereLab.Proofs.Formula.Algebra
import SphereLab.Proofs.Formula.Powers
import SphereLab.Proofs.Formula.Composition
import SphereLab.Proofs.LaTeX.Grammar
import SphereLab.Proofs.LaTeX.Parser
import SphereLab.Proofs.LaTeX.Symbols
import SphereLab.Proofs.Formula.LaTeXText
import SphereLab.Proofs.Formula.LaTeX
import SphereLab.Proofs.Jobs.Grid
import SphereLab.Proofs.Jobs.Stems
import SphereLab.Proofs.Directory.Components
import SphereLab.Proofs.Directory.Overwriting
import SphereLab.Proofs.DensityProfile.Targets
import SphereLab.Proofs.Figure.Straight
import SphereLab.Proofs.Figure.Strokes
import SphereLab.Proofs.Figure.Layers
import SphereLab.Proofs.Figure.Cells
import SphereLab.Proofs.Figure.PlotArea
import SphereLab.Proofs.Decimal.Grammar
import SphereLab.Proofs.DataFile.Table
import SphereLab.Proofs.Directory.Sharing
import SphereLab.Proofs.FreeEnergy.Separation
import SphereLab.Proofs.LeastSquares.Calls
import SphereLab.Proofs.LeastSquares.Budget
import SphereLab.Proofs.LeastSquares.Ignored
import SphereLab.Proofs.PairCorrelation.DecayRate
import SphereLab.Proofs.Text.Pieces
import SphereLab.Proofs.DataFile.LastEntry
import SphereLab.Proofs.Figure.Walk
import SphereLab.Proofs.LeastSquares.Solver
import SphereLab.Proofs.PairCorrelation.DataSet
import SphereLab.Proofs.PairCorrelation.WorstPoint
import SphereLab.Proofs.PairCorrelation.Panels
import SphereLab.Proofs.PairCorrelation.Ticks
import SphereLab.Proofs.PairCorrelation.Windows
import SphereLab.Proofs.FreeEnergy.Halving
import SphereLab.Proofs.PairCorrelation.Smoothing
import SphereLab.Proofs.Figure.Ranges
import SphereLab.Proofs.PairCorrelation.Reference
import SphereLab.Proofs.PairCorrelation.ContactValue
import SphereLab.Proofs.Formula.Evaluation
import SphereLab.Proofs.Formula.Laws
import SphereLab.Proofs.Double.Infinite
import SphereLab.Proofs.Double.Errors
import SphereLab.Proofs.PairCorrelation.Decimals
import SphereLab.Proofs.LaTeX.Numerals
import SphereLab.Proofs.Formula.LaTeXNumerals
import SphereLab.Proofs.Formula.Numerals
