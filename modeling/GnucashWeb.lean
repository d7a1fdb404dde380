import GnucashWeb.Validation.AssertBalanced
import GnucashWeb.Slots.ListOrder
import GnucashWeb.Business.Sessions
import GnucashWeb.Inventory.Balance
import GnucashWeb.Inventory.Interleaving
import GnucashWeb.Webhook.Fence
import GnucashWeb.Locks.Deadlock
import GnucashWeb.QuickAdd.Sync
import GnucashWeb.Stripe.Deliveries
import GnucashWeb.Fees.Consistency
import GnucashWeb.Numbering.Distinct
import GnucashWeb.CostBasis.Coverage
import GnucashWeb.Lots.BasisRuns
import GnucashWeb.Reconcile.Interleaving
import GnucashWeb.Schedule.Interleaving
import GnucashWeb.SimpleFin.ExactlyOnce
import GnucashWeb.SimpleFin.Represented
import GnucashWeb.SimpleFin.Retry
import GnucashWeb.Edits.Reconciled
import GnucashWeb.BankStatements.Matching
import GnucashWeb.RecurringInvoices.Once
import GnucashWeb.FundingRules.Once
import GnucashWeb.CloseBook.Zeroed
import GnucashWeb.AccountTree.Forested
import GnucashWeb.Payslips.Once
import GnucashWeb.TwoFactor.SingleUse
import GnucashWeb.TimeTracking.Billed
import GnucashWeb.EmailIngest.Once
import GnucashWeb.ReportSchedules.Once
import GnucashWeb.Estimates.Once
import GnucashWeb.Reimbursements.Coupled
import GnucashWeb.Reports.Agreement
import GnucashWeb.Reports.TieOut
import GnucashWeb.Lots.Slices
import GnucashWeb.CostBasis.PoolRuns
import GnucashWeb.Lots.TradeBalance
import GnucashWeb.Lots.TransferPieces
import GnucashWeb.Lots.AveragePool
import GnucashWeb.Membership.Coverage
import GnucashWeb.Depreciation.Once
import GnucashWeb.XmlImport.AccountOrder
import GnucashWeb.Audit.Snapshots
import GnucashWeb.Business.Fifo
import GnucashWeb.Business.PostingBalance
import GnucashWeb.Inventory.Layers
import GnucashWeb.Recurrence.Occurrences
import GnucashWeb.Lots.ScrubOrder
import GnucashWeb.Lots.WashSales
import GnucashWeb.Schedule.EditKeeps
import GnucashWeb.MathEval.Evaluate
import GnucashWeb.BankStatements.Csv
import GnucashWeb.Imports.LocaleNumber
import GnucashWeb.Packages.Recognized
import GnucashWeb.CalendarFeed.Ics
import GnucashWeb.Qif.Balanced
import GnucashWeb.Budgets.Progress
import GnucashWeb.Mortgage.Schedule
import GnucashWeb.Ledger.Decimal
import GnucashWeb.Reports.FxRevaluation
import GnucashWeb.Reports.CsvExport
