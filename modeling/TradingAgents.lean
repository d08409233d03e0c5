import TradingAgents.ProofKit.Dict
import TradingAgents.Kernel.Value
import TradingAgents.Kernel.Graph
import TradingAgents.Kernel.GraphFacts
import TradingAgents.Kernel.GraphPostgres
import TradingAgents.Contracts.Documents
import TradingAgents.Contracts.Positions
import TradingAgents.Monitor.Reconcile
import TradingAgents.Monitor.Mirror
import TradingAgents.Contracts.AttemptKeys
import TradingAgents.Execution.FillAttempts
import TradingAgents.Contracts.BrokerLifecycle
import TradingAgents.Contracts.RunPosture
import TradingAgents.Execution.Orders
import TradingAgents.Execution.DeliberationGate
import TradingAgents.Execution.PmExecution
import TradingAgents.Contracts.BrokerStops
import TradingAgents.ProofKit.Runs
import TradingAgents.Execution.StopWrites
import TradingAgents.Execution.StatusRefresh
import TradingAgents.Execution.StopLiveness
import TradingAgents.Execution.StopPass
import TradingAgents.Execution.StopProtection
import TradingAgents.Execution.StopRuns
import TradingAgents.Kernel.Writes
import TradingAgents.Contracts.PositionSync
import TradingAgents.Orchestration.ResumePlan
import TradingAgents.Orchestration.Resume
import TradingAgents.Orchestration.ResumeWrites
import TradingAgents.Orchestration.ResumeChild
import TradingAgents.Orchestration.ResumeRecovery
import TradingAgents.Kernel.AppendOnly
import TradingAgents.Kernel.Traversal
import TradingAgents.Execution.AttemptChains
import TradingAgents.Supervisor.Flags
import TradingAgents.Execution.StageFlow
import TradingAgents.Execution.StageRuns
import TradingAgents.Kernel.WorkLoop
import TradingAgents.Kernel.WorkLoopRuns
import TradingAgents.PortfolioManager.Concentration
import TradingAgents.PortfolioManager.Risk
import TradingAgents.PortfolioManager.BookFacts
import TradingAgents.PortfolioManager.RiskBounds
import TradingAgents.Contracts.PositionBasis
import TradingAgents.Execution.RefreshReads
import TradingAgents.Execution.RefreshRuns
import TradingAgents.Execution.ReplayRuns
import TradingAgents.Execution.ExitRetries
import TradingAgents.Kernel.ReadyEvents
import TradingAgents.Kernel.RequestConsumer
import TradingAgents.Forecaster.HeldPlan
import TradingAgents.Provider.Ingest
import TradingAgents.Master.ActivationReplay
import TradingAgents.Deliberator.ReplyInbox
import TradingAgents.Deliberator.ReplyInboxRuns
import TradingAgents.Master.ActivationRuns
import TradingAgents.Kernel.FaultGraph
import TradingAgents.Kernel.FaultRuns
import TradingAgents.Execution.DivergenceEpisodes
import TradingAgents.Execution.DivergenceFlags
import TradingAgents.Execution.DivergenceRuns
import TradingAgents.Orchestration.FillOutcomes
import TradingAgents.PortfolioManager.OrderDecision
import TradingAgents.Orchestration.CountedOrders
import TradingAgents.Orchestration.ExecutedRuns
import TradingAgents.ProofKit.Moment
import TradingAgents.Kernel.Listing
import TradingAgents.Orchestration.HoldAnswers
import TradingAgents.Orchestration.HumanDispatch
import TradingAgents.Orchestration.DispatchFires
import TradingAgents.Orchestration.DispatchRuns
import TradingAgents.Deliberator.TurnLedger
import TradingAgents.Deliberator.TurnLedgerRuns
import TradingAgents.Surfaces.ReadCache
import TradingAgents.PortfolioManager.RunEvaluation
import TradingAgents.Master.CredentialCheck
import TradingAgents.Master.CredentialRuns
import TradingAgents.Master.Remediation
import TradingAgents.Master.RemediationRuns
import TradingAgents.Forecaster.BarrierSettlement
import TradingAgents.Forecaster.SettlementRuns
import TradingAgents.ProofKit.Windows
import TradingAgents.Reporter.BookWindow
import TradingAgents.Reporter.BookRuns
import TradingAgents.ProofKit.Turns
import TradingAgents.Replay.Broker
import TradingAgents.Replay.Book
import TradingAgents.Replay.Ledger
import TradingAgents.Replay.Marks
import TradingAgents.Replay.Day
import TradingAgents.Replay.Session
import TradingAgents.Replay.LedgerRuns
import TradingAgents.ProofKit.StableSort
import TradingAgents.Replay.NoLookahead
import TradingAgents.PortfolioManager.BookRebuild
import TradingAgents.PortfolioManager.ExitIsolation
import TradingAgents.Orchestration.ShadowBook
import TradingAgents.Orchestration.ShadowStable
import TradingAgents.Execution.OrderPages
import TradingAgents.Orchestration.PlacementCuts
import TradingAgents.Orchestration.AnswerCursor
import TradingAgents.Execution.StopRealign
import TradingAgents.Execution.RealignWrites
import TradingAgents.Execution.RealignRuns
import TradingAgents.Deliberator.ModelChain
import TradingAgents.PortfolioManager.RunSnapshot
import TradingAgents.Forecaster.BarrierPaths
import TradingAgents.Kernel.RetryDelay
import TradingAgents.Master.ModelChoice
import TradingAgents.Kernel.KeyScan
import TradingAgents.Master.ModelExpansion
import TradingAgents.Master.SecretCache
import TradingAgents.Contracts.StopWidth
import TradingAgents.Execution.StopLevels
import TradingAgents.Execution.OneStopLevel
import TradingAgents.Orchestration.ResumeStart
import TradingAgents.Orchestration.DegradedRuns
import TradingAgents.Orchestration.CloneVeto
import TradingAgents.Orchestration.HistoryWindow
import TradingAgents.Analyst.StopTargetOutcome
import TradingAgents.Forecaster.BarrierGarch
import TradingAgents.ProofKit.SetEdits
import TradingAgents.ProofKit.Spans
import TradingAgents.Researcher.Backtest
import TradingAgents.Sp500.Chain
import TradingAgents.Sp500.Membership
import TradingAgents.Kernel.FaultIncidents
import TradingAgents.Deliberator.ReviewRecord
import TradingAgents.Deliberator.ReviewRuns
import TradingAgents.Deliberation.Debate
import TradingAgents.Deliberation.ReplayChunks
import TradingAgents.Deliberation.ReplayRefinement
import TradingAgents.Deliberation.ReplaySweep
import TradingAgents.Deliberation.ResumedSweep
import TradingAgents.Kernel.EhloRetry
import TradingAgents.Kernel.GraphVocabulary
import TradingAgents.Kernel.ServeLoop
import TradingAgents.Master.BootActivation
import TradingAgents.Master.FleetPreflight
import TradingAgents.Master.ReadinessRuns
import TradingAgents.ProofKit.GateChain
import TradingAgents.ProofKit.LeastSquares
import TradingAgents.ProofKit.Tally
import TradingAgents.Scanner.Beta
import TradingAgents.Scanner.Filters
import TradingAgents.Scanner.Ranking
import TradingAgents.Analyst.SignalSelection
import TradingAgents.Analyst.Pillars
import TradingAgents.ProofKit.NearGreedy
import TradingAgents.ProofKit.WeightedMean
import TradingAgents.Analyst.StopTarget
import TradingAgents.Analyst.AnalysisOutcomes
import TradingAgents.Operator.Interpret
import TradingAgents.ProofKit.Keeps
import TradingAgents.ProofKit.Series
import TradingAgents.Reporter.Performance
import TradingAgents.Supervisor.Gate
import TradingAgents.Surfaces.CommandRuns
