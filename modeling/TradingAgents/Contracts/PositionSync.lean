import TradingAgents.Contracts.RunPosture

/-! The head-of-run position-book sync: the marker that shows that a run attempted its broker sync.
-/

namespace TradingAgents

open Kernel

def positionSyncEdge : String := "POSITION_SYNCED_BY"

def snapshotRefreshEdge : String := "REFRESHES"

def positionSyncPhase : String := "sync"

/-- The children of a node by one edge type. -/
def children (g : PipelineGraph) (n : NodeKey) (edge : String) : List PipelineNode :=
  g.descendants n 1 (some [edge])

def firstChild (g : PipelineGraph) (n : NodeKey) (edge : String) : Option PipelineNode :=
  (children g n edge).head?

def isSyncMarker (n : PipelineNode) : Bool :=
  decide (n.label = "MonitorRun") && (n.get "phase").pyEq (.str positionSyncPhase)

/-- The monitor's sync marker of a RunRequest. -/
def positionSyncMarker (g : PipelineGraph) (request : NodeKey) : Option PipelineNode :=
  (children g request positionSyncEdge).find? isSyncMarker

/-- Whether a run has a fresh or stale monitor sync marker. -/
def positionBookSyncAttempted (g : PipelineGraph) (runId : String) : Bool :=
  match g.getNode runRequestLabel (runRequestKey runId) with
  | none => false
  | some request =>
    match positionSyncMarker g request.nodeKey with
    | none => false
    | some marker =>
      let status := marker.get "position_book_status"
      status.pyEq (.str "fresh") || status.pyEq (.str "stale")

end TradingAgents
