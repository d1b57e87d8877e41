import Formulary.Session.Cache
import Formulary.Session.Calculator
import Formulary.Expr.Build
import Formulary.Function.Samples
import Formulary.Proofs.Table
import Formulary.Proofs.Expr.Inlining
import Formulary.Proofs.Expr.Written
import Formulary.Proofs.Text.LetterCase
import Formulary.Proofs.Calculator.ListingOrder
import Formulary.Proofs.Calculator.MissingNames
import Formulary.Proofs.Calculator.Precedence
import Formulary.Proofs.Calculator.Recasing
import Formulary.Proofs.Calculator.Restoring
import Formulary.Proofs.Calculator.Results
import Formulary.Proofs.Calculator.Solution
import Formulary.Proofs.Calculator.Sufficiency
import Formulary.Proofs.Calculator.Handlers
import Formulary.Proofs.Calculator.Visibility
import Formulary.Proofs.Session.Caching
import Formulary.Proofs.Session.FrameStack
import Formulary.Proofs.Session.Registering
import Formulary.Proofs.DependencyGraph.Circles
import Formulary.Proofs.DependencyGraph.Edges
import Formulary.Proofs.Calculator.Naming
import Formulary.Proofs.Calculator.Circles
import Formulary.Proofs.Calculator.PassedOn
import Formulary.Proofs.Mapping.RoundTrip
import Formulary.Proofs.Expr.Unfolding
import Formulary.Proofs.Expr.Agreement
import Formulary.Proofs.Token.Spacing
import Formulary.Proofs.Session.History
import Formulary.Proofs.Calculator.Independence
import Formulary.Proofs.Session.Lookup
import Formulary.Proofs.Function.Aggregates
import Formulary.Proofs.Function.Texts
import Formulary.Proofs.Expr.Concatenation
import Formulary.Proofs.Function.Counts
import Formulary.Proofs.Function.WholeNumbers
import Formulary.Proofs.Number.Precision
import Formulary.Proofs.Expr.Folding
import Formulary.Proofs.DependencyGraph.Layers
