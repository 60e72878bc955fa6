import AngleCalc.Scanner
import AngleCalc.Session.Basic
import AngleCalc.Proofs.Display.Accuracy
import AngleCalc.Proofs.Expression.Forms
import AngleCalc.Proofs.Expression.Literals
import AngleCalc.Proofs.Expression.Naming
import AngleCalc.Proofs.Expression.Rejection
import AngleCalc.Proofs.Expression.Resolution
import AngleCalc.Proofs.Lexeme.Scanning
import AngleCalc.Proofs.Session.Dependence
import AngleCalc.Proofs.Session.Echo
import AngleCalc.Proofs.Sexagesimal.Literals
import AngleCalc.Proofs.Symbols.Splittable
import AngleCalc.Proofs.Lexeme.Cuts
import AngleCalc.Proofs.Expression.Spacing
import AngleCalc.Proofs.Lexeme.Faults
import AngleCalc.Proofs.Expression.Faults
import AngleCalc.Proofs.FixedPoint.SquareRoot
import AngleCalc.Proofs.Power.Exact
import AngleCalc.Proofs.Expression.ZeroPowers
import AngleCalc.Proofs.Display.Engineering
import AngleCalc.Proofs.Sexagesimal.RoundTrip
import AngleCalc.Proofs.Decimal.Length
import AngleCalc.Proofs.Decimal.Notation
import AngleCalc.Proofs.FixedPoint.FixedNotation
import AngleCalc.Proofs.Display.Exact
import AngleCalc.Proofs.Postfix.Order
import AngleCalc.Proofs.Postfix.Groups
import AngleCalc.Proofs.FixedPoint.Euler
import AngleCalc.Proofs.FixedPoint.Machin
