import TradingAgents.Contracts.PositionSync

/-! The stages of a run, the artifact that each leaves in the graph, and the walk along the
artifacts of one run.  A resume links the artifacts of the stages before the one it resumes from. -/

namespace TradingAgents.Orchestration

open Kernel ProofKit

inductive ResumeStage where
  | positionSync
  | provider
  | scanner
  | analyst
  | pm
  | execution
  | monitor
  | reporter
deriving DecidableEq, Repr

def ResumeStage.value : ResumeStage → String
  | positionSync => "position_sync"
  | provider => "provider"
  | scanner => "scanner"
  | analyst => "analyst"
  | pm => "pm"
  | execution => "execution"
  | monitor => "monitor"
  | reporter => "reporter"

def resumeStages : List ResumeStage :=
  [.positionSync, .provider, .scanner, .analyst, .pm, .execution, .monitor, .reporter]

/-- The place of a stage in the order of a run. -/
def ResumeStage.index (stage : ResumeStage) : Nat := resumeStages.idxOf stage

/-- The names under which a run's nodes are held, the request that starts it and its artifacts. -/
inductive ChainKey where
  | runRequest
  | positionSync
  | marketData
  | scanRun
  | analystRun
  | pmRun
  | deliberationRun
  | executionRun
  | monitorRun
  | snapshot
deriving DecidableEq, Repr

def ChainKey.value : ChainKey → String
  | runRequest => "RunRequest"
  | positionSync => "PositionSync"
  | marketData => "MarketData"
  | scanRun => "ScanRun"
  | analystRun => "AnalystRun"
  | pmRun => "PMRun"
  | deliberationRun => "DeliberationRun"
  | executionRun => "ExecutionRun"
  | monitorRun => "MonitorRun"
  | snapshot => "Snapshot"

/-- The label of the node that is cloned under a name. -/
def ChainKey.label : ChainKey → String
  | positionSync => "MonitorRun"
  | key => key.value

/-- One stage output that can be linked into a child run. -/
structure ResumeArtifact where
  stage : ResumeStage
  chainKey : ChainKey
  label : String
  edge : String
  parent : ChainKey
deriving DecidableEq

def artifacts : List ResumeArtifact := [
  ⟨.positionSync, .positionSync, "MonitorRun", "POSITION_SYNCED_BY", .runRequest⟩,
  ⟨.provider, .marketData, "MarketData", "INGESTED_BY", .runRequest⟩,
  ⟨.scanner, .scanRun, "ScanRun", "SCANNED_BY", .marketData⟩,
  ⟨.analyst, .analystRun, "AnalystRun", "ANALYZED_BY", .scanRun⟩,
  ⟨.pm, .pmRun, "PMRun", "EVALUATED_BY", .analystRun⟩,
  ⟨.execution, .executionRun, "ExecutionRun", "EXECUTED_BY", .pmRun⟩,
  ⟨.monitor, .monitorRun, "MonitorRun", "MONITORED_BY", .executionRun⟩,
  ⟨.reporter, .snapshot, "Snapshot", "REPORTED_BY", .monitorRun⟩]

/-- The artifacts that must exist before a resume from a stage. -/
def requiredArtifacts (stage : ResumeStage) : List ResumeArtifact := artifacts.take stage.index

def linkedFromEdge : String := "LINKED_FROM"

def derivedFromEdge : String := "DERIVED_FROM"

def resumesEdge : String := "RESUMES"

def regimeContextLabel : String := "RegimeContext"

/-- The artifacts whose clone links a side branch again, and the edge that carries it. -/
def sideBranchEdge : ChainKey → Option String
  | .analystRun => some "FORECAST_BY"
  | .pmRun => some "DELIBERATED_BY"
  | _ => none

/-- The edges of a run from stage to stage, with the artifact each leads to. -/
def chain : List (String × ChainKey) := [
  ("INGESTED_BY", .marketData),
  ("SCANNED_BY", .scanRun),
  ("ANALYZED_BY", .analystRun),
  ("EVALUATED_BY", .pmRun),
  ("EXECUTED_BY", .executionRun),
  ("MONITORED_BY", .monitorRun),
  ("REPORTED_BY", .snapshot)]

/-- The nodes found at one stage of a walk: the artifact, and with a PMRun its deliberation. -/
def withArtifact (g : PipelineGraph) (key : ChainKey) (node : PipelineNode)
    (nodes : Dict ChainKey PipelineNode) : Dict ChainKey PipelineNode :=
  let nodes := nodes.set key node
  if key = .pmRun then
    match firstChild g node.nodeKey "DELIBERATED_BY" with
    | none => nodes
    | some deliberation => nodes.set .deliberationRun deliberation
  else nodes

/-- The artifacts along the chain from `current`, added to those found so far. -/
def walkFrom (g : PipelineGraph) : List (String × ChainKey) → NodeKey →
    Dict ChainKey PipelineNode → Dict ChainKey PipelineNode
  | [], _, nodes => nodes
  | (edge, key) :: rest, current, nodes =>
    match firstChild g current edge with
    | none => nodes
    | some child => walkFrom g rest child.nodeKey (withArtifact g key child nodes)

/-- The nodes of one run that stand in the graph, by their stage artifact. -/
def walkChain (g : PipelineGraph) (runId : String) : Dict ChainKey PipelineNode :=
  match g.getNode runRequestLabel (runRequestKey runId) with
  | none => .empty
  | some request =>
    let nodes := Dict.empty.set .runRequest request
    let nodes := match positionSyncMarker g request.nodeKey with
      | none => nodes
      | some sync => nodes.set .positionSync sync
    walkFrom g chain request.nodeKey nodes

/-! ### The tables -/

theorem label_eq {a : ResumeArtifact} (h : a ∈ artifacts) : a.label = a.chainKey.label := by
  revert a
  decide

theorem mem_artifacts_of_required {stage : ResumeStage} {a : ResumeArtifact}
    (h : a ∈ requiredArtifacts stage) : a ∈ artifacts := List.mem_of_mem_take h

/-! ### The walk -/

theorem firstChild_stands {g : PipelineGraph} {n : NodeKey} {edge : String} {child : PipelineNode}
    (h : firstChild g n edge = some child) : g.nodes.get? child.nodeKey = some child := by
  have hmem : child ∈ children g n edge := List.mem_of_mem_head? h
  obtain ⟨e, -, -, hget⟩ := Graph.mem_descendants_one.mp hmem
  rwa [g.named _ _ hget]

theorem positionSyncMarker_stands {g : PipelineGraph} {n : NodeKey} {marker : PipelineNode}
    (h : positionSyncMarker g n = some marker) : g.nodes.get? marker.nodeKey = some marker := by
  obtain ⟨e, -, -, hget⟩ := Graph.mem_descendants_one.mp (List.mem_of_find?_eq_some h)
  rwa [g.named _ _ hget]

/-- Every node held stands in the graph. -/
def Standing (g : PipelineGraph) (nodes : Dict ChainKey PipelineNode) : Prop :=
  ∀ k n, nodes.get? k = some n → g.nodes.get? n.nodeKey = some n

theorem Standing.set {g : PipelineGraph} {nodes : Dict ChainKey PipelineNode}
    (h : Standing g nodes) {key : ChainKey} {node : PipelineNode}
    (hnode : g.nodes.get? node.nodeKey = some node) : Standing g (nodes.set key node) := by
  intro k n hn
  rw [Dict.get?_set] at hn
  split at hn
  · cases hn; exact hnode
  · exact h k n hn

theorem Standing.withArtifact {g : PipelineGraph} {nodes : Dict ChainKey PipelineNode}
    (h : Standing g nodes) {key : ChainKey} {node : PipelineNode}
    (hnode : g.nodes.get? node.nodeKey = some node) :
    Standing g (Orchestration.withArtifact g key node nodes) := by
  unfold Orchestration.withArtifact
  simp only
  split
  · split
    · exact h.set hnode
    · rename_i hdelib
      exact (h.set hnode).set (firstChild_stands hdelib)
  · exact h.set hnode

theorem Standing.walkFrom {g : PipelineGraph} {stages : List (String × ChainKey)}
    {current : NodeKey} {nodes : Dict ChainKey PipelineNode} (h : Standing g nodes) :
    Standing g (Orchestration.walkFrom g stages current nodes) := by
  induction stages generalizing current nodes with
  | nil => exact h
  | cons stage stages ih =>
    rw [Orchestration.walkFrom]
    split
    · exact h
    · rename_i child hchild
      exact ih (h.withArtifact (firstChild_stands hchild))

/-- The nodes of a walk stand in the graph. -/
theorem walkChain_standing (g : PipelineGraph) (runId : String) :
    Standing g (walkChain g runId) := by
  have hempty : Standing g .empty := fun k n h => by simp at h
  unfold walkChain
  split
  · exact hempty
  · rename_i request hrequest
    have hstands : g.nodes.get? request.nodeKey = some request := by
      rw [g.named _ _ hrequest]; exact hrequest
    refine Standing.walkFrom ?_
    split
    · exact hempty.set hstands
    · rename_i sync hsync
      exact (hempty.set hstands).set (positionSyncMarker_stands hsync)

end TradingAgents.Orchestration
