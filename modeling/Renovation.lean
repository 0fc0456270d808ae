import Renovation.Main
import Renovation.Proofs.Budget.Markups
import Renovation.Proofs.Configuration.Refusal
import Renovation.Proofs.Datum.Conversion
import Renovation.Proofs.Datum.Readers
import Renovation.Proofs.Decimal.Climb
import Renovation.Proofs.Decimal.Difference
import Renovation.Proofs.Decimal.Nearest
import Renovation.Proofs.Decimal.Overflow
import Renovation.Proofs.Decimal.Sum
import Renovation.Proofs.Decimal.Units
import Renovation.Proofs.Decimal.Whole
import Renovation.Proofs.Decimal.Written
import Renovation.Proofs.Document.Legible
import Renovation.Proofs.Document.Pieces
import Renovation.Proofs.Document.ReadingBack
import Renovation.Proofs.EnergyLabel.Bounds
import Renovation.Proofs.EnergyLabel.Steps
import Renovation.Proofs.Exact
import Renovation.Proofs.Exact.Cost
import Renovation.Proofs.Formula.Canonical
import Renovation.Proofs.Formula.Chain
import Renovation.Proofs.Formula.Exact
import Renovation.Proofs.Formula.Implied
import Renovation.Proofs.Formula.Leading
import Renovation.Proofs.Formula.Lookup
import Renovation.Proofs.Formula.Misplaced
import Renovation.Proofs.Formula.Operand
import Renovation.Proofs.Formula.Overflow
import Renovation.Proofs.Formula.Progress
import Renovation.Proofs.Formula.Renaming
import Renovation.Proofs.Formula.Replay
import Renovation.Proofs.Formula.Sign
import Renovation.Proofs.Formula.Trail
import Renovation.Proofs.Maintenance.Compounding
import Renovation.Proofs.Maintenance.Ending
import Renovation.Proofs.Maintenance.Matching
import Renovation.Proofs.Maintenance.Progression
import Renovation.Proofs.Maintenance.Stopping
import Renovation.Proofs.Maintenance.Usable
import Renovation.Proofs.Maintenance.Years
import Renovation.Proofs.Measure.Order
import Renovation.Proofs.Measure.Reading
import Renovation.Proofs.Measure.Spelling
import Renovation.Proofs.Measure.Upkeep
import Renovation.Proofs.Outcome
import Renovation.Proofs.PriceLine.Aggregate
import Renovation.Proofs.PriceLine.Containment
import Renovation.Proofs.PriceLine.Exact
import Renovation.Proofs.PriceLine.Overflow
import Renovation.Proofs.Project.Conservation
import Renovation.Proofs.Project.Order
import Renovation.Proofs.Project.Returning
import Renovation.Proofs.Project.Totals
import Renovation.Proofs.Project.Warnings
import Renovation.Proofs.Report.Agreement
import Renovation.Proofs.Report.Equation
import Renovation.Proofs.Report.Namesakes
import Renovation.Proofs.Report.Numeral
import Renovation.Proofs.Report.Overview
import Renovation.Proofs.Report.ReadingBack
import Renovation.Proofs.Run.ExitCode
import Renovation.Proofs.Run.Faults
import Renovation.Proofs.Run.Files
import Renovation.Proofs.RunLog.History
import Renovation.Proofs.RunLog.Numbers
import Renovation.Proofs.RunLog.Plain
import Renovation.Proofs.Settings.Merging
