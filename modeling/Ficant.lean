import Ficant.Lib.SortedMap
import Ficant.Lib.Decimal
import Ficant.Lib.DecimalGrid
import Ficant.Lib.Bytes
import Ficant.Lib.Except
import Ficant.Lib.StableSort
import Ficant.Lib.Decoder
import Ficant.Lib.Transaction
import Ficant.Lib.RelyGuarantee
import Ficant.Lib.Fields
import Ficant.Lib.Grid
import Ficant.Lib.LinearExtension
import Ficant.Primitives
import Ficant.Primitives.EpochDate
import Ficant.Primitives.DecimalText
import Ficant.Primitives.FixedDecimal
import Ficant.Primitives.HashText
import Ficant.Primitives.NaiveTime
import Ficant.Market.Bar
import Ficant.Market.BarRules
import Ficant.Market.Fact
import Ficant.Market.Definition
import Ficant.Data.BarIngest
import Ficant.Data.InstrumentMapping
import Ficant.Data.BarSnapshot
import Ficant.Data.BarRoundTrip
import Ficant.Data.SnapshotVerification
import Ficant.Data.SnapshotFidelity
import Ficant.Data.BarPartition
import Ficant.Replay.Book
import Ficant.Replay.Constraints
import Ficant.Replay.Execution
import Ficant.Replay.Ledger
import Ficant.Replay.ConstraintMaximality
import Ficant.Replay.LedgerRules
import Ficant.Replay.Reconciliation
import Ficant.Replay.LedgerFailure
import Ficant.Replay.LedgerRuns
import Ficant.Replay.Policy
import Ficant.Replay.Encoding
import Ficant.Replay.Identity
import Ficant.Replay.SubjectState
import Ficant.Replay.Run
import Ficant.Replay.Rules
import Ficant.Replay.Lockstep
import Ficant.Replay.Settlement
import Ficant.Replay.Participation
import Ficant.Replay.Conservation
import Ficant.Replay.NoLookAhead
import Ficant.Replay.AppendStability
import Ficant.Replay.Calibration
import Ficant.Replay.ParameterGrid
import Ficant.Research.RunJournal
import Ficant.Research.JournalBytes
import Ficant.Research.ExperimentRun
import Ficant.Research.Artifact
import Ficant.Research.ResearchGraph
import Ficant.Research.GraphOrder
import Ficant.Research.GraphAcceptance
import Ficant.Runtime.GraphExecution
import Ficant.Runtime.GraphReplay
import Ficant.Runtime.Journal
import Ficant.Runtime.OutputEnvelope
import Ficant.Runtime.FormalEvidence
import Ficant.Runtime.ReproducibilityIdentity
import Ficant.Runtime.IdentityBytes
import Ficant.Runtime.NativeExecution
import Ficant.Application.Fingerprint
import Ficant.Application.ValueFingerprint
import Ficant.Application.FingerprintBinding
import Ficant.Application.Governance
import Ficant.Application.GovernanceReplay
import Ficant.Execution.Tables
import Ficant.Execution.LeaseQueue
import Ficant.Execution.JournalStore
import Ficant.Execution.JournalRefinement
import Ficant.Platform.Registry
import Ficant.Platform.Revocation
import Ficant.Catalog.Hierarchy
import Ficant.Catalog.Membership
import Ficant.Lib.Chunks
import Ficant.Research.PositionSnapshot
import Ficant.Research.Coverage
import Ficant.Lib.RoundedProduct
import Ficant.Primitives.FixedArithmetic
import Ficant.Portfolio.Performance
import Ficant.Research.Exposure
import Ficant.Portfolio.Compounding
import Ficant.Lib.Index
import Ficant.Overview.Context
import Ficant.Portfolio.Materialisation
import Ficant.Portfolio.Completeness
import Ficant.Lib.LowestTerms
import Ficant.Research.KeyRateDv01
import Ficant.Research.DataHealth
import Ficant.Lib.Months
import Ficant.Kernel.Dates
import Ficant.Kernel.Schedules
import Ficant.Research.ExposureBinding
import Ficant.Research.SnapshotBinding
import Ficant.Lib.WeightedMean
import Ficant.Overview.Decimals
import Ficant.Overview.Averages
import Ficant.Overview.ExactAverages
import Ficant.Research.DecimalAddition
import Ficant.Overview.Metrics
import Ficant.Application.DerivedIdentity
import Ficant.Analytics.Bond
import Ficant.Kernel.EpochDays
import Ficant.Futures.DeliveryRule
import Ficant.Kernel.Deliverability
import Ficant.Kernel.BusinessDays
import Ficant.Kernel.Cashflows
import Ficant.Kernel.FullSchedule
import Ficant.Kernel.BondEngine
import Ficant.Kernel.CashflowList
import Ficant.Kernel.CashflowCompleteness
import Ficant.Kernel.CalendarHonesty
import Ficant.Lib.RunningGreatest
import Ficant.Futures.DeliverableInput
import Ficant.Futures.Quotes
import Ficant.Futures.Basket
import Ficant.Analytics.InputValues
import Ficant.Analytics.CarryRoll
import Ficant.Futures.InputFingerprint
import Ficant.Futures.DeliveryArtifact
import Ficant.Futures.DeliveryReplay
import Ficant.Lib.Interpolation
import Ficant.Analytics.Errors
import Ficant.Analytics.YieldCurve
import Ficant.Research.KeyRateAxis
import Ficant.Research.KeyRateLocality
import Ficant.Tax.Treatment
import Ficant.Storage.DefinitionPayload
import Ficant.Storage.FactPayload
import Ficant.Storage.PayloadFields
import Ficant.Storage.RecordPayload
import Ficant.Storage.SnapshotPayload
import Ficant.Tax.RulePack
import Ficant.Tax.AuthorityProof
import Ficant.Lib.Reader
import Ficant.Runtime.MaterializedInput
import Ficant.Runtime.MaterializedRoundTrip
