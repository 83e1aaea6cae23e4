import Immittance.Session
import Immittance.Proofs.Expression.Grammar
import Immittance.Proofs.ErrorSet
import Immittance.Proofs.Decimal.RoundTrip
import Immittance.Proofs.Circuit.Parts
import Immittance.Proofs.Session.Histories
import Immittance.Proofs.Expression.Layout
import Immittance.Proofs.Text.Casing
import Immittance.Proofs.Decimal.Denotation
import Immittance.Proofs.Decimal.Residue
import Immittance.Proofs.Decimal.Arithmetic
import Immittance.Proofs.Decimal.RoundingError
import Immittance.Proofs.Expression.Tokens
import Immittance.Proofs.Expression.Casing
import Immittance.Proofs.Expression.Cuts
import Immittance.Proofs.Expression.Origin
import Immittance.Proofs.Expression.Unmatched
import Immittance.Proofs.Expression.Scan
import Immittance.Proofs.Impedance.Blame
import Immittance.Proofs.Description.Turns
import Immittance.Proofs.Description.Value
import Immittance.Proofs.Description.Unique
import Immittance.Proofs.Description.Leaves
import Immittance.Proofs.Impedance.Group
import Immittance.Proofs.Impedance.Conditions
import Immittance.Proofs.Impedance.Exact
import Immittance.Proofs.Decimal.Sign
import Immittance.Proofs.Impedance.Passive
import Immittance.Proofs.Session.Batch
import Immittance.Proofs.Calculation.Layout
import Immittance.Proofs.Calculation.Loading
import Immittance.Proofs.Calculation.Comparing
import Immittance.Proofs.Calculation.Faults
import Immittance.Proofs.Document.Ordered
import Immittance.Proofs.Impedance.Nesting
import Immittance.Proofs.Impedance.Resistive
import Immittance.Proofs.Reporting
import Immittance.Proofs.Decimal.Extremes
import Immittance.Proofs.Impedance.Reciprocal
import Immittance.Proofs.Impedance.Cancellation
import Immittance.Proofs.Calculation.Names
import Immittance.Proofs.Calculation.Duplicates
import Immittance.Proofs.Quantity.Outcome
import Immittance.Proofs.Description.Reading
import Immittance.Proofs.Report.Reading
import Immittance.Proofs.Session.Journal
