import TradingAgents.Pipeline.Polls

/-! What the agents of the stages read of the node they work on and of its lineage, before they work
on it. -/

namespace TradingAgents.Pipeline

open Kernel ProofKit

/-- What the validation of a stored snapshot accepts, and which values name a day when they are
rendered as a text. -/
structure SnapshotReaders where
  marketData : Value Document → Bool
  regimeContext : Value Document → Bool
  isoDate : Value Document → Bool

/-- The first upstream node by an edge type. -/
def firstParent (g : PipelineGraph) (n : NodeKey) (edge : String) : Option PipelineNode :=
  (g.ancestors n 1 (some [edge])).head?

/-! ### One node -/

/-- A property that a validation must accept. -/
def requireValid (n : PipelineNode) (name : String) (accepts : Value Document → Bool) :
    Except HandlerError Unit := do
  let v ← n.require name
  if accepts v then pure () else .error (.validation name)

/-- A value that a loop can run over. -/
def iterable : Value Document → Bool
  | .list _ => true
  | .str _ => true
  | .doc _ => true
  | _ => false

def isCandidateSet : Value Document → Bool
  | .doc (.candidateSet _) => true
  | _ => false

def isRecommendationSet : Value Document → Bool
  | .doc (.recommendationSet _) => true
  | _ => false

def isOrderIntentSet : Value Document → Bool
  | .doc (.orderIntentSet _) => true
  | _ => false

def readMarket (r : SnapshotReaders) (market : PipelineNode) : Except HandlerError Unit :=
  requireValid market "snapshot" r.marketData

/-- Scanner: the snapshot, the tickers and the end of the window. -/
def scanMarketReads (r : SnapshotReaders) (n : PipelineNode) : Except HandlerError Unit := do
  readMarket r n
  requireValid n "tickers" iterable
  requireValid n "window_end" r.isoDate

/-- Analyst: the candidates. -/
def analyzeScanReads (n : PipelineNode) : Except HandlerError Unit :=
  requireValid n "candidate_set" isCandidateSet

/-- Portfolio manager: the recommendations. -/
def evaluateAnalystReads (n : PipelineNode) : Except HandlerError Unit :=
  requireValid n "recommendation_set" isRecommendationSet

/-- Execution: the orders. -/
def executePmReads (n : PipelineNode) : Except HandlerError Unit :=
  requireValid n "order_intent_set" isOrderIntentSet

/-- Reporter: the PMRun that the MonitorRun is about. -/
def reportMonitorReads (n : PipelineNode) : Except HandlerError Unit := do
  let _ ← n.require "source_run_id"

/-! ### Its lineage -/

/-- The regime of a market's run, where there is one. -/
def readRegime (r : SnapshotReaders) (g : PipelineGraph) (market : PipelineNode) :
    Except HandlerError Unit := do
  let _ ← market.require "run_id"
  match g.getNode "RegimeContext" ("regime-context:" ++ marketRunId market) with
  | none => pure ()
  | some regime => requireValid regime "snapshot" r.regimeContext

/-- Portfolio manager: the MarketData behind an AnalystRun. -/
def analystMarket (g : PipelineGraph) (analystRun : NodeKey) : Option PipelineNode :=
  (firstParent g analystRun analyzedEdge).bind fun scan => marketNode g scan.nodeKey

/-- Monitor: the MarketData behind a PMRun. -/
def pmMarket (g : PipelineGraph) (pmRun : NodeKey) : Option PipelineNode :=
  (firstParent g pmRun evaluatedEdge).bind fun analyst => analystMarket g analyst.nodeKey

/-- Monitor: the MarketData behind an ExecutionRun. -/
def executionMarket (g : PipelineGraph) (executionRun : NodeKey) : Option PipelineNode :=
  (firstParent g executionRun Execution.executedEdge).bind fun pmRun => pmMarket g pmRun.nodeKey

/-! ### Facts -/

/-- A parent by an edge that no other edge of its type rivals. -/
theorem firstParent_eq {g : PipelineGraph} {e : Edge} {parent : PipelineNode} (he : e ∈ g.edges)
    (hne : e.parent ≠ e.child) (hget : g.nodes.get? e.parent = some parent)
    (hone : ∀ e' ∈ g.edges, e'.child = e.child → e'.edgeType = e.edgeType → e'.parent = e.parent) :
    firstParent g e.child e.edgeType = some parent := by
  have hmem : parent ∈ g.ancestors e.child 1 (some [e.edgeType]) :=
    Graph.mem_ancestors_one.mpr ⟨e, he, rfl, List.mem_singleton_self _, hne, hget⟩
  have hall : ∀ n ∈ g.ancestors e.child 1 (some [e.edgeType]), n = parent := by
    intro n hn
    obtain ⟨e', he', hchild, htype, -, hn⟩ := Graph.mem_ancestors_one.mp hn
    rw [hone e' he' hchild (List.mem_singleton.mp htype), hget] at hn
    exact (Option.some.inj hn).symm
  unfold firstParent
  cases hlist : g.ancestors e.child 1 (some [e.edgeType]) with
  | nil =>
    rw [hlist] at hmem
    cases hmem
  | cons n rest => exact congrArg some (hall n (hlist ▸ List.mem_cons_self))

/-- A required property is read alike off two nodes that hold it alike. -/
theorem requireValid_congr {n n' : PipelineNode} {name : String} {accepts : Value Document → Bool}
    (h : n.props.get? name = n'.props.get? name) :
    requireValid n name accepts = requireValid n' name accepts := by
  unfold requireValid Kernel.Node.require
  rw [h]

/-- The regime that is read of a market of a known run. -/
theorem readRegime_of_run (r : SnapshotReaders) (g : PipelineGraph) {market : PipelineNode}
    {runId : String} (hrun : market.props.get? "run_id" = some (.str runId)) :
    readRegime r g market = (g.getNode "RegimeContext" ("regime-context:" ++ runId)).elim (.ok ())
      fun regime => requireValid regime "snapshot" r.regimeContext := by
  have hid : marketRunId market = runId := by
    rw [marketRunId, Node.get, Props.get, hrun]
    rfl
  have hrequire : market.require "run_id" = .ok (.str runId) := by
    rw [Kernel.Node.require, hrun]
  rw [readRegime, hrequire, hid]
  cases g.getNode "RegimeContext" ("regime-context:" ++ runId) <;> rfl

end TradingAgents.Pipeline
