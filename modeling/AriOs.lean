import AriOs.Async.Prog
import AriOs.Async.Monitor
import AriOs.Async.Pool
import AriOs.Async.Sum
import AriOs.Async.Environment
import AriOs.Async.Outcome
import AriOs.Async.Refine
import AriOs.Async.Routine
import AriOs.Async.Slots
import AriOs.Async.Solo
import AriOs.Async.Transition
import AriOs.Storage.Table
import AriOs.Storage.Total
import AriOs.Storage.Transaction
import AriOs.Storage.FiniteMap
import AriOs.Storage.OrderedMap
import AriOs.Storage.Weight
import AriOs.Storage.Merkle
import AriOs.Storage.Blocks
import AriOs.Storage.Runs
import AriOs.Storage.StableSort
import AriOs.Observability.AuditRoots
import AriOs.Autonomy.Jobs
import AriOs.Autonomy.JobLifecycle
import AriOs.Autonomy.JobRuns
import AriOs.Autonomy.JobFencing
import AriOs.Autonomy.EventBus
import AriOs.Autonomy.EventPayload
import AriOs.Autonomy.MarketTrigger
import AriOs.Autonomy.TriggerModes
import AriOs.Autonomy.EventDurability
import AriOs.Autonomy.EventOffsets
import AriOs.Autonomy.EventDelivery
import AriOs.Autonomy.EventRedelivery
import AriOs.Autonomy.Delegation
import AriOs.Autonomy.DelegationLifecycle
import AriOs.Autonomy.DelegationCancel
import AriOs.Autonomy.DelegationTree
import AriOs.Js.Number
import AriOs.Js.Throw
import AriOs.Js.Value
import AriOs.Js.BigintTags
import AriOs.Kernel.Contracts
import AriOs.Kernel.PolicyEngine
import AriOs.Kernel.Store
import AriOs.Kernel.TradeGateway
import AriOs.Kernel.Custody
import AriOs.Kernel.Interleaving
import AriOs.Kernel.Broadcast
import AriOs.Kernel.Shortfall
import AriOs.Kernel.Preview
import AriOs.Kernel.SpendCaps
import AriOs.Kernel.Reconciler
import AriOs.Kernel.Parties
import AriOs.Kernel.OneWay
import AriOs.Kernel.Money
import AriOs.Kernel.ProcessLock
import AriOs.Execution.Approvals
import AriOs.Execution.ApprovalConsumption
import AriOs.Execution.ApprovalTransactions
import AriOs.Signer.Transaction
import AriOs.Signer.Policy
import AriOs.Signer.PolicyFile
import AriOs.Signer.PolicySoundness
import AriOs.Signer.FeeCeiling
import AriOs.Signer.FrameDecoder
import AriOs.Signer.Authorization
import AriOs.Signer.Service
import AriOs.Signer.SingleUse
import AriOs.Signer.Resolution
import AriOs.Signer.Settlement
import AriOs.Signer.Retrieval
import AriOs.Execution.Control
import AriOs.Execution.LedgerRuns
import AriOs.Execution.LedgerRefinement
import AriOs.Execution.LedgerReconcile
import AriOs.Execution.Simulation
import AriOs.Execution.RpcSimulator
import AriOs.Execution.AssetDeltas
import AriOs.Execution.TradingControl
import AriOs.Storage.FileTree
import AriOs.Storage.SessionStore
import AriOs.Storage.SessionHistory
import AriOs.Cognition.Memory
import AriOs.Cognition.MemoryBatches
import AriOs.Cognition.Skills
import AriOs.Cognition.SkillUpdates
import AriOs.Cognition.SkillDigest
import AriOs.Cognition.SkillLoads
import AriOs.Cognition.SkillPaths
import AriOs.Cognition.SkillWrites
import AriOs.Cognition.SkillReads
import AriOs.Cognition.SkillFiles
import AriOs.Cognition.SkillAgreement
import AriOs.Cognition.Context
import AriOs.Cognition.ContextPruning
import AriOs.Cognition.ContextHandoff
import AriOs.Market.Ohlcv
import AriOs.Market.CandleLaws
import AriOs.Plugins.Installer
import AriOs.Perps.Drift
import AriOs.Perps.Liquidation
import AriOs.Perps.Intent
import AriOs.Perps.Exposure
import AriOs.Perps.Guards
import AriOs.Perps.Admission
import AriOs.Perps.Evaluation
import AriOs.LiveTrading.Store
import AriOs.LiveTrading.ExecutionStore
import AriOs.LiveTrading.Persistence
import AriOs.LiveTrading.EvidenceStorage
import AriOs.LiveTrading.Orchestrator
import AriOs.LiveTrading.Lifecycle
import AriOs.LiveTrading.Effects
import AriOs.LiveTrading.Expiry
import AriOs.LiveTrading.Finality
import AriOs.LiveTrading.Commitment
import AriOs.LiveTrading.Capacity
import AriOs.LiveTrading.SingleAuthorization
import AriOs.LiveTrading.ExecuteFailure
import AriOs.LiveTrading.ApprovalBinding
import AriOs.Js.Json
import AriOs.Js.Stringify
import AriOs.Js.Record
import AriOs.Js.Joined
import AriOs.Execution.CanonicalText
import AriOs.Execution.AuthorizationIssuer
import AriOs.Execution.AuthorizationVerification
import AriOs.Execution.AuthorizationAgreement
import AriOs.Arith.ConstantProduct
import AriOs.Arith.Decimal
import AriOs.Arith.LittleEndian
import AriOs.Pools.Intent
import AriOs.Pools.PumpCurve
import AriOs.Pools.PumpAccount
import AriOs.Pools.PumpBuy
import AriOs.Pools.PriorityFee
import AriOs.Storage.RollingWindow
import AriOs.Pools.Rebalance
import AriOs.Pools.RebalanceLimits
import AriOs.Pools.RebalanceMonotone
import AriOs.Pools.BinRanges
import AriOs.Pools.DepositPlan
import AriOs.Arith.Apportion
import AriOs.Arith.Binary64
import AriOs.Arith.Gregorian
import AriOs.Gateway.Core
import AriOs.Gateway.Idempotency
import AriOs.Gateway.RunStore
import AriOs.Gateway.MemoryRuns
import AriOs.Gateway.AgentApi
import AriOs.Gateway.RunStoreAgreement
import AriOs.Gateway.Isolation
import AriOs.Gateway.Channels
import AriOs.Gateway.TelegramRunner
import AriOs.Strategy.Store
import AriOs.Strategy.Runner
import AriOs.Strategy.Pause
import AriOs.Strategy.Executor
import AriOs.Strategy.Budget
import AriOs.Js.Canonical
import AriOs.Autonomy.JobIdentity
import AriOs.Autonomy.JobIdempotency
import AriOs.Js.Numeral
import AriOs.Autonomy.Schedule
import AriOs.Autonomy.CronGrammar
import AriOs.Autonomy.CronCalendar
import AriOs.Autonomy.Scheduler
import AriOs.Autonomy.SchedulerRuns
import AriOs.Chains.SolanaRpc
import AriOs.Chains.Expired
import AriOs.Chains.Balances
import AriOs.Market.FeedLiveness
import AriOs.Agent.Runtime
import AriOs.Agent.ToolLifecycle
import AriOs.Agent.ToolBudget
import AriOs.Control.KillSwitch
import AriOs.Observability.Redaction
import AriOs.Tools.Authority
