import DiceFormula.ByName
import DiceFormula.Server.Tools
import DiceFormula.Proofs.Formula.BareDice
import DiceFormula.Proofs.Formula.Patterns
import DiceFormula.Proofs.Formula.Reading
import DiceFormula.Proofs.Roll.Range
import DiceFormula.Proofs.Roll.Uniformity
import DiceFormula.Proofs.Page.Threading
import DiceFormula.Proofs.Roll.Mean
import DiceFormula.Proofs.Formula.Written
import DiceFormula.Proofs.Formula.Size
import DiceFormula.Proofs.Page.Notices
import DiceFormula.Proofs.Formula.Faults
import DiceFormula.Proofs.Text.Places
import DiceFormula.Proofs.Formula.Spans
import DiceFormula.Proofs.Formula.Segments
import DiceFormula.Proofs.Formula.Discovered
import DiceFormula.Proofs.Page.Refusals
import DiceFormula.Proofs.Roll.Causality
import DiceFormula.Proofs.Page.Causality
import DiceFormula.Proofs.Roll.Reach
import DiceFormula.Proofs.Page.Joining
import DiceFormula.Proofs.Text.Alike
import DiceFormula.Proofs.Formula.Alike
import DiceFormula.Proofs.Page.Alike
import DiceFormula.Proofs.Roll.Sequence
import DiceFormula.Proofs.Formula.Sums
import DiceFormula.Proofs.Formula.Order
import DiceFormula.Proofs.Roll.Accounting
import DiceFormula.Proofs.Page.Accounting
import DiceFormula.Proofs.Roll.Idle
import DiceFormula.Proofs.Server.Sessions
import DiceFormula.Proofs.Roll.Draw
import DiceFormula.Proofs.Roll.Singles
import DiceFormula.Proofs.Roll.Supply
import DiceFormula.Proofs.Formula.Returns
import DiceFormula.Proofs.Page.LineBreaks
import DiceFormula.Proofs.Roll.Stopping
import DiceFormula.Proofs.Formula.Rounding
import DiceFormula.Proofs.Formula.Layout
import DiceFormula.Proofs.Page.ReadBack
import DiceFormula.Proofs.Server.Settings
