import ArithFormula.Worksheet
import ArithFormula.Proofs.Decimal.Spelling
import ArithFormula.Proofs.Text.Parameters
import ArithFormula.Proofs.Expr.Composition
import ArithFormula.Proofs.Decimal.NumberText
import ArithFormula.Proofs.Expr.Canonical
import ArithFormula.Proofs.Expr.Limit
import ArithFormula.Proofs.Binary64.Nearest
import ArithFormula.Proofs.Expr.Grammar
import ArithFormula.Proofs.Binary64.Places
import ArithFormula.Proofs.Binary64.KeptPlaces
import ArithFormula.Proofs.Answer.Literals
import ArithFormula.Proofs.Text.Openings
import ArithFormula.Proofs.Expr.ShownCalls
import ArithFormula.Proofs.Binary64.RoundedTwice
import ArithFormula.Proofs.Answer.Results
import ArithFormula.Proofs.Error.Wording
import ArithFormula.Proofs.Answer.Distinct
import ArithFormula.Proofs.Expr.Divisors
import ArithFormula.Proofs.Expr.Defects
import ArithFormula.Proofs.Text.Layout
import ArithFormula.Proofs.Expr.Layout
import ArithFormula.Proofs.Decimal.FewestPlaces
import ArithFormula.Proofs.Decimal.PlainText
import ArithFormula.Proofs.Answer.Precision
import ArithFormula.Proofs.Text.Separators
import ArithFormula.Proofs.Expr.ParameterList
import ArithFormula.Proofs.Expr.Overflow
import ArithFormula.Proofs.Answer.Tolerance
import ArithFormula.Proofs.Binary64.Exact
import ArithFormula.Proofs.Binary64.FaithfulPlaces
import ArithFormula.Proofs.Expr.IgnoredText
import ArithFormula.Proofs.Expr.Readings
import ArithFormula.Proofs.Binary64.OrderedPlaces
import ArithFormula.Proofs.Binary64.RoundedTwiceAway
import ArithFormula.Proofs.Expr.BlankEnds
import ArithFormula.Proofs.Expr.ReadingCount
import ArithFormula.Proofs.Decimal.Overflow
import ArithFormula.Proofs.Expr.ByteScans
import ArithFormula.Proofs.Expr.Unparenthesized
import ArithFormula.Proofs.Expr.CallParts
