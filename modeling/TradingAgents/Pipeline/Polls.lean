import TradingAgents.Contracts.PositionSync
import TradingAgents.Execution.PmExecution

/-! The graph polls of the pipeline's agents: each agent finds the nodes of its input label that
lack its processed edge. -/

namespace TradingAgents.Pipeline

open Kernel ProofKit

def ingestedEdge : String := "INGESTED_BY"

def scannedEdge : String := "SCANNED_BY"

def analyzedEdge : String := "ANALYZED_BY"

def evaluatedEdge : String := "EVALUATED_BY"

def monitoredEdge : String := "MONITORED_BY"

def reportedEdge : String := "REPORTED_BY"

def scanDerivedFromEdge : String := "DERIVED_FROM"

/-- Execution: RunRequests with no execution-authored broker snapshot. -/
def findPendingPositionSync (g : PipelineGraph) : List PipelineNode :=
  g.pendingNodes runRequestLabel snapshotRefreshEdge

/-- Provider: RunRequests with no downstream MarketData. -/
def findPendingIngest (g : PipelineGraph) : List PipelineNode :=
  g.pendingNodes runRequestLabel ingestedEdge

/-- Scanner: MarketData with no downstream ScanRun. -/
def findPendingScan (g : PipelineGraph) : List PipelineNode :=
  g.pendingNodes "MarketData" scannedEdge

/-- The MarketData that a ScanRun was derived from. -/
def marketNode (g : PipelineGraph) (scanRun : NodeKey) : Option PipelineNode :=
  firstChild g scanRun scanDerivedFromEdge

/-- The run of a MarketData, a text. -/
def marketRunId (market : PipelineNode) : String := ((market.get "run_id").str?).getD ""

def bookSyncAttempted (g : PipelineGraph) (scanRun : PipelineNode) : Bool :=
  match marketNode g scanRun.nodeKey with
  | none => false
  | some market => positionBookSyncAttempted g (marketRunId market)

/-- Analyst: synced ScanRuns with no downstream AnalystRun. -/
def findPendingAnalysis (g : PipelineGraph) : List PipelineNode :=
  (g.pendingNodes "ScanRun" analyzedEdge).filter (bookSyncAttempted g)

/-- Portfolio manager: AnalystRuns with no downstream PMRun. -/
def findPendingEvaluation (g : PipelineGraph) : List PipelineNode :=
  g.pendingNodes "AnalystRun" evaluatedEdge

/-- Monitor: ExecutionRuns with no downstream MonitorRun. -/
def findPendingMonitor (g : PipelineGraph) : List PipelineNode :=
  g.pendingNodes "ExecutionRun" monitoredEdge

/-- Reporter: MonitorRuns with no downstream Snapshot, sync markers apart. -/
def findPendingReport (g : PipelineGraph) : List PipelineNode :=
  (g.pendingNodes "MonitorRun" reportedEdge).filter fun n =>
    !(n.get "phase").pyEq (.str positionSyncPhase)

end TradingAgents.Pipeline
