import TradingAgents.Kernel.Writes
import TradingAgents.Orchestration.ResumePlan

/-! The placement of a resumed run: a child RunRequest that supersedes a source run, with a clone of
every upstream artifact, written one node or edge at a time.  Other agents read and write between
any two writes, so a placement is a list of steps, each of which reads the graph as it stands and
then makes its writes in order. -/

namespace TradingAgents.Orchestration

open Kernel ProofKit

/-- What a resume returns. -/
structure ResumePlacement where
  childRunId : String
  nodeKey : String
  resumeFrom : ResumeStage
  linked : List String
  created : Bool
deriving DecidableEq

def childId (sourceRunId : String) (stage : ResumeStage) : String :=
  sourceRunId ++ "-resume-" ++ stage.value

/-- `str.lower` of an artifact's name. -/
def ChainKey.lower (key : ChainKey) : String := String.ofList (key.value.toList.map Char.toLower)

def cloneKey (child : String) (key : ChainKey) : String :=
  "resume-link:" ++ child ++ ":" ++ key.lower

/-- The node of a child run that stands for a stage artifact: the child request, or a clone. -/
def cloneOf (child : String) : ChainKey → NodeKey
  | .runRequest => (runRequestLabel, runRequestKey child)
  | key => (key.label, cloneKey child key)

def regimeKey (runId : String) : String := "regime-context:" ++ runId

def regimeOf (child : String) : NodeKey := (regimeContextLabel, regimeKey child)

/-- A linked source as a placement reports it. -/
def nodeRef (n : PipelineNode) : String := n.label ++ ":" ++ n.key

/-- What a step of a placement adds: its writes, and the references it reports. -/
structure Linked where
  writes : List (Write Document)
  refs : List String := []

/-- A read of the graph, and what is then written. -/
abbrev Step := PipelineGraph → Except HandlerError Linked

/-- `list` of a property. -/
def listOf (v : Value Document) : Except HandlerError (Value Document) :=
  match v with
  | .list xs => .ok (.list xs)
  | .str s => .ok (.list (s.toList.map fun c => .str (String.singleton c)))
  | _ => .error (.validation "tickers")

/-- The child request and its link to the source request. -/
def placeRequest (source : PipelineNode) (sourceRunId : String) (stage : ResumeStage)
    (resumedAt : String) : Step := fun _ => do
  let child := childId sourceRunId stage
  let tickers ← listOf ((source.props.get? "tickers").getD (.list []))
  let request := cloneOf child .runRequest
  pure { writes := [
    .merge request.1 request.2 (.ofList [
      ("run_id", .str child),
      ("tickers", tickers),
      ("requested_at", source.get "requested_at"),
      ("resume_from", .str stage.value),
      ("source_run_id", .str sourceRunId),
      ("resumed_at", .str resumedAt)]),
    .link ⟨request, source.nodeKey, resumesEdge⟩] }

/-- An order set under the clone's run id. -/
def relinkOrderSet (s : OrderIntentSet) (key : String) : OrderIntentSet :=
  { s with
    runId := key
    provenance := { s.provenance with runId := key, graphNodeId := some ("PMRun:" ++ key) } }

/-- The properties of a clone. -/
def linkedProps (key : ChainKey) (source : PipelineNode) (child : String) :
    Except HandlerError (Props Document) :=
  let props := (source.props.set "linked_from_key" (.str source.key)).set "resume_run_id"
    (.str child)
  match key with
  | .positionSync => .ok (props.set "source_run_id" (.str child))
  | .marketData => .ok (props.set "run_id" (.str child))
  | .pmRun =>
    match props.get? "order_intent_set" with
    | none => .error (.keyError "order_intent_set")
    | some (.doc (.orderIntentSet s)) =>
      let orderSet := relinkOrderSet s (cloneKey child .pmRun)
      .ok (props.set "order_intent_set" (.doc (.orderIntentSet orderSet)))
    | some _ => .error (.validation "order_intent_set")
  | .executionRun => .ok (props.set "source_pm_run_id" (.str (cloneKey child .pmRun)))
  | .monitorRun =>
    .ok ((props.set "source_run_id" (.str (cloneKey child .pmRun))).set "exec_run_id"
      (.str (cloneKey child .executionRun)))
  | _ => .ok props

/-- The edges of a clone to its parent and to its source. -/
def artifactEdges (child : String) (a : ResumeArtifact) (source : NodeKey) : List Edge :=
  let clone := (a.label, cloneKey child a.chainKey)
  [⟨cloneOf child a.parent, clone, a.edge⟩, ⟨clone, source, linkedFromEdge⟩] ++
    if a.chainKey = .scanRun then [⟨clone, cloneOf child .marketData, derivedFromEdge⟩] else []

/-- The clone of one artifact, with its edges. -/
def linkArtifact (child : String) (a : ResumeArtifact) (source : PipelineNode) : Step := fun _ => do
  let props ← linkedProps a.chainKey source child
  pure {
    writes := .merge a.label (cloneKey child a.chainKey) props ::
      (artifactEdges child a source.nodeKey).map .link
    refs := [nodeRef source] }

/-- The edge of a clone to the side branch of its source. -/
def sideEdges (g : PipelineGraph) (child : String) (a : ResumeArtifact) (source : NodeKey) :
    List Edge :=
  match sideBranchEdge a.chainKey with
  | none => []
  | some edge =>
    match firstChild g source edge with
    | none => []
    | some side => [⟨(a.label, cloneKey child a.chainKey), side.nodeKey, edge⟩]

def linkSideBranch (child : String) (a : ResumeArtifact) (source : PipelineNode) : Step := fun g =>
  .ok { writes := (sideEdges g child a source.nodeKey).map .link }

/-- The regime of the source's market data, when the market data is among the clones. -/
def regimeSource (g : PipelineGraph) (nodes : Dict ChainKey PipelineNode)
    (required : List ResumeArtifact) : Option PipelineNode :=
  if ChainKey.marketData ∈ required.map ResumeArtifact.chainKey then
    match nodes.get? .marketData with
    | none => none
    | some market =>
      g.getNode regimeContextLabel (regimeKey (((market.get "run_id").str?).getD ""))
  else none

def linkRegime (child : String) (nodes : Dict ChainKey PipelineNode)
    (required : List ResumeArtifact) : Step := fun g =>
  match regimeSource g nodes required with
  | none => .ok { writes := [] }
  | some source => .ok {
      writes := [
        .merge regimeContextLabel (regimeKey child)
          ((source.props.set "run_id" (.str child)).set "linked_from_key" (.str source.key)),
        .link ⟨regimeOf child, source.nodeKey, linkedFromEdge⟩]
      refs := [nodeRef source] }

/-- The steps that clone one artifact. -/
def artifactSteps (child : String) (nodes : Dict ChainKey PipelineNode) (a : ResumeArtifact) :
    List Step :=
  match nodes.get? a.chainKey with
  | none => []
  | some source => [linkArtifact child a source, linkSideBranch child a source]

/-- All steps of a placement. -/
def placementSteps (source : PipelineNode) (sourceRunId : String) (stage : ResumeStage)
    (nodes : Dict ChainKey PipelineNode) (resumedAt : String) : List Step :=
  let child := childId sourceRunId stage
  let required := requiredArtifacts stage
  placeRequest source sourceRunId stage resumedAt ::
    (required.flatMap (artifactSteps child nodes) ++ [linkRegime child nodes required])

/-- Steps taken one after the other with nothing between them, and what they added. -/
def runSteps : List Step → PipelineGraph → Except HandlerError (Linked × PipelineGraph)
  | [], g => .ok (⟨[], []⟩, g)
  | s :: rest, g => do
    let added ← s g
    let g ← liftGraph (g.writeAll added.writes)
    let (later, g) ← runSteps rest g
    pure (⟨added.writes ++ later.writes, added.refs ++ later.refs⟩, g)

/-- The linked references of an existing child, read from its clones. -/
def linkedRefs (g : PipelineGraph) (child : NodeKey) : List String :=
  (g.descendants child 8 (some (artifacts.map ResumeArtifact.edge))).filterMap fun clone =>
    (firstChild g clone.nodeKey linkedFromEdge).map nodeRef

/-- The request and the artifacts that a resume starts from, all of them present. -/
def resumeSource (g : PipelineGraph) (sourceRunId : String) (stage : ResumeStage) :
    Except HandlerError (PipelineNode × Dict ChainKey PipelineNode) :=
  match g.getNode runRequestLabel (runRequestKey sourceRunId) with
  | none => .error (.validation ("unknown source run: " ++ sourceRunId))
  | some source =>
    let nodes := walkChain g sourceRunId
    match (requiredArtifacts stage).find? fun a => (nodes.get? a.chainKey).isNone with
    | some a => .error (.validation ("cannot resume from " ++ stage.value ++ ": upstream " ++
        a.chainKey.value ++ " is missing"))
    | none => .ok (source, nodes)

/-- Place an immutable child run, linking the stages before the one it resumes from; a child that
stands already is returned as it is. -/
def resumeRun (g : PipelineGraph) (sourceRunId : String) (stage : ResumeStage)
    (resumedAt : String) : Except HandlerError (ResumePlacement × PipelineGraph) := do
  let (source, nodes) ← resumeSource g sourceRunId stage
  let child := childId sourceRunId stage
  match g.getNode runRequestLabel (runRequestKey child) with
  | some current =>
    pure (⟨child, runRequestKey child, stage, linkedRefs g current.nodeKey, false⟩, g)
  | none => do
    let (added, g) ← runSteps (placementSteps source sourceRunId stage nodes resumedAt) g
    pure (⟨child, runRequestKey child, stage, added.refs, true⟩, g)

end TradingAgents.Orchestration
