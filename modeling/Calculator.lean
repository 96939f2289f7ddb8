import Calculator.Main
import Calculator.Evaluation.Compiled
import Calculator.Proofs.Syntax.Exactness
import Calculator.Proofs.Simplification.Value
import Calculator.Proofs.Printing.Lossless
import Calculator.Proofs.Expression.Height
import Calculator.Proofs.Evaluation.Compiled
import Calculator.Proofs.Evaluation.Depth
import Calculator.Proofs.Syntax.Height
import Calculator.Proofs.Polynomial.Canonical
import Calculator.Proofs.Binary64.Zero
import Calculator.Proofs.Evaluation.Agreement
import Calculator.Proofs.Simplification.Literal
import Calculator.Proofs.Simplification.NormalForm
import Calculator.Proofs.Syntax.Parts
import Calculator.Proofs.Polynomial.Ring
import Calculator.Proofs.Document.RoundTrip
import Calculator.Proofs.Syntax.Limit
import Calculator.Proofs.Syntax.Placement
import Calculator.Proofs.Syntax.Diagnostics
import Calculator.Proofs.Polynomial.Division
import Calculator.Proofs.Real.Power
import Calculator.Proofs.Real.Scalar
import Calculator.Proofs.Real.Folding
import Calculator.Proofs.Evaluation.Substitution
import Calculator.Proofs.Simplification.Reachable
import Calculator.Proofs.Settings.RoundTrip
import Calculator.Proofs.Syntax.Parameters
import Calculator.Proofs.Binary64.Residue
