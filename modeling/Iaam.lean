import Iaam.Lib.Outcome
import Iaam.Lib.Tree
import Iaam.Lib.Runs
import Iaam.Lib.Search
import Iaam.Lib.Totals
import Iaam.Lib.Chains
import Iaam.Numeric
import Iaam.Ids
import Iaam.Money
import Iaam.Event.Kind
import Iaam.Event.Envelope
import Iaam.Event.Validate
import Iaam.Event.Correction
import Iaam.Event.Declared
import Iaam.Journal.Chain
import Iaam.Rules
import Iaam.Projection.Balances
import Iaam.Projection.Ownership
import Iaam.Projection.Lots
import Iaam.Projection.Flows
import Iaam.Category
import Iaam.Valuation
import Iaam.Quotation
import Iaam.Report.Balances
import Iaam.Report.Assets
import Iaam.Returns
import Iaam.Projection.MoneyFlow
import Iaam.Projection.State
import Iaam.Projection.Invariants
import Iaam.Projection.Project
import Iaam.Reconciliation.Ledger
import Iaam.Theorems.Discrepancy
import Iaam.Theorems.ReplayOrder
import Iaam.Theorems.ImportOrder
import Iaam.Theorems.Incremental
import Iaam.Theorems.LegMatching
import Iaam.Theorems.Gate
import Iaam.Theorems.Disposal
import Iaam.Theorems.LotOps
import Iaam.Theorems.LotSteps
import Iaam.Theorems.PositiveLots
import Iaam.Theorems.BasisConserved
import Iaam.Theorems.LotsMatch
import Iaam.Theorems.BasisGaps
import Iaam.Theorems.AtomicEntry
import Iaam.Theorems.AtomicPayment
import Iaam.Theorems.AtomicDisposal
import Iaam.Theorems.Atomicity
import Iaam.Theorems.MoneyFlow
import Iaam.Theorems.ExternalMoney
import Iaam.Theorems.InternalTransfers
import Iaam.Theorems.Windows
import Iaam.Theorems.Corrections
import Iaam.Theorems.EventChain
import Iaam.Ingest.Classification
import Iaam.Ingest.Operation
import Iaam.Ingest.Observation
import Iaam.App.Correction
import Iaam.App.TransferPairing
import Iaam.App.Classification
import Iaam.Theorems.Amendments
import Iaam.Theorems.Operations
import Iaam.Theorems.TransferPairing
import Iaam.Theorems.Reclassification
import Iaam.Theorems.Recompute
import Iaam.Reconciliation.Anchor
import Iaam.Reconciliation.Observed
import Iaam.Reconciliation.Check
import Iaam.App.Retraction
import Iaam.Theorems.Figures
import Iaam.Theorems.Observed
import Iaam.Theorems.Comparison
import Iaam.Theorems.Intervals
import Iaam.Theorems.Retraction
import Iaam.Theorems.MissingHistory
import Iaam.Reconciliation.Build
import Iaam.Theorems.Surfacing
import Iaam.Theorems.GroupOrder
import Iaam.Theorems.Taint
import Iaam.Theorems.CategoryRules
import Iaam.Theorems.CategoryPreview
import Iaam.Journal.CategoryIndex
import Iaam.Theorems.CategoryIndex
import Iaam.Theorems.Snapshot
import Iaam.Lib.Numbered
import Iaam.Journal.Codes
import Iaam.Journal.Rows
import Iaam.Journal.Text
import Iaam.Journal.RowCodec
import Iaam.Theorems.RowText
import Iaam.Theorems.RowCodec
import Iaam.Theorems.Suppression
import Iaam.Theorems.OneValue
import Iaam.Theorems.FlowSeries
import Iaam.Theorems.Fingerprint
import Iaam.Theorems.PriceChannels
import Iaam.DataQuality
import Iaam.Theorems.Defects
import Iaam.Lib.Spells
import Iaam.Perimeter
import Iaam.Theorems.NegativeCash
import Iaam.Projection.ActiveInstruments
import Iaam.Theorems.HeldInstruments
import Iaam.Theorems.OutsideAccounts
import Iaam.Lib.Lexical
import Iaam.Lib.Versions
import Iaam.Store.Stamp
import Iaam.Theorems.Stamp
import Iaam.Store.Schedule
import Iaam.Theorems.ScheduleHistory
import Iaam.Store.Market
import Iaam.Theorems.Lease
import Iaam.Store.ImportSession
import Iaam.Theorems.ImportSession
import Iaam.Batch
import Iaam.Theorems.Batch
import Iaam.Cashflow
import Iaam.ZeroReinvestment
import Iaam.Theorems.Cohorts
import Iaam.Theorems.Offers
import Iaam.Lib.Matching
import Iaam.Ingest.Mirror
import Iaam.Ingest.Intake
import Iaam.App.SessionReading
import Iaam.App.MirroredMovements
import Iaam.App.SessionPlan
import Iaam.Theorems.SessionPlan
import Iaam.Theorems.Mirror
import Iaam.Theorems.MirroredMovements
import Iaam.Store.Journal
import Iaam.Theorems.JournalStore
import Iaam.Lib.Calls
import Iaam.App.SessionCommit
import Iaam.Theorems.Undrawn
import Iaam.Theorems.SessionCommit
import Iaam.Theorems.CommitRuns
import Iaam.Theorems.ReceivedIncome
import Iaam.Theorems.Fifo
import Iaam.Store.Bundle
import Iaam.Theorems.Lineage
import Iaam.Theorems.MirrorGroups
import Iaam.Theorems.MirrorNumbering
import Iaam.Theorems.RefiledCash
import Iaam.Theorems.RefiledEvidence
import Iaam.Theorems.Normalization
import Iaam.Xirr
import Iaam.Lib.Signs
import Iaam.Lib.Blocks
import Iaam.Theorems.SignChanges
import Iaam.Theorems.LotPanics
import Iaam.App.Jobs
import Iaam.Theorems.Completeness
import Iaam.App.SessionStamp
import Iaam.Theorems.SessionStamp
import Iaam.Theorems.OwnershipSound
import Iaam.Lib.Pairs
import Iaam.PostingMatch
import Iaam.Theorems.PostingMatch
import Iaam.Theorems.CashflowPlan
import Iaam.Theorems.OfferPrincipal
import Iaam.Theorems.CashflowHorizon
import Iaam.Theorems.HeldToMaturity
import Iaam.Allocation
import Iaam.Theorems.Amortisation
import Iaam.TradeAllocation
import Iaam.Lib.Remainders
import Iaam.Theorems.TradeAllocation
import Iaam.Theorems.PriceSelection
import Iaam.Projection.Offers
import Iaam.Theorems.OfferBook
import Iaam.Theorems.ClaimComparison
import Iaam.Lib.Fractions
import Iaam.Exact
import Iaam.Theorems.Exact
import Iaam.Theorems.EarliestAcquired
import Iaam.Lib.Delimited
import Iaam.AllocationInputs
import Iaam.Theorems.AllocationInputs
import Iaam.Lib.Pages
import Iaam.Lib.Fields
import Iaam.Journal.Query
import Iaam.App.Journal
import Iaam.Theorems.JournalPages
import Iaam.Lib.SortedMap
import Iaam.Lib.Sliding
import Iaam.Http.Budgets
import Iaam.Http.Tally
import Iaam.Theorems.TallyBooks
import Iaam.Http.TallyFile
import Iaam.Theorems.TallySends
import Iaam.Theorems.TallySound
import Iaam.Theorems.TallyRecords
import Iaam.Theorems.TallyRun
import Iaam.App.Sync
import Iaam.Theorems.Sync
import Iaam.Theorems.SyncRuns
