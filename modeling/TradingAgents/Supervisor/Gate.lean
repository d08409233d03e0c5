import TradingAgents.Execution.StageFlow
import TradingAgents.Operator.Interpret
import TradingAgents.Orchestration.Resume

/-! The supervisor's gate for typed intents: permanent refusals first, then the stage requests that
execution decides on, the confirmations, and the routes of the capability matrix. -/

namespace TradingAgents.Supervisor

open Kernel ProofKit
open Execution (ExecutionStage PromoteStageRequest PromoteStageResult StageSettings promoteStage)
open Operator (IntentFamily TypedIntent GraphM mergeM addEdgeM)
open Orchestration (ResumeStage ResumePlacement resumeStages)

/-! ### The tables -/

/-- The reason to forbid an intent for good. -/
def isHardNo (intent : TypedIntent) : Option String :=
  let params := intent.parameters
  if params.get? "stage" = some "live" ∧ intent.family = .run then
    some "live-stage trading is not enabled in this build phase"
  else if params.get? "bypass_gate" = some "true" then
    some "bypassing the capability gate is permanently forbidden"
  else if params.get? "disable_supervisor" = some "true" then
    some "disabling the supervisor is permanently forbidden"
  else none

structure RouteSpec where
  agent : Option String
  capability : Option String
  available : Bool

def RouteSpec.routedTo (spec : RouteSpec) : Option String :=
  match spec.agent, spec.capability with
  | some agent, some capability => some (agent ++ "." ++ capability)
  | _, _ => none

def capabilityMatrix : IntentFamily → RouteSpec
  | .status => ⟨some "reporter", some "report", true⟩
  | .explain => ⟨some "reporter", some "narrative", true⟩
  | .run => ⟨some "orchestration", some "execute_run", true⟩
  | .approve => ⟨some "supervisor", some "resolve_flag", true⟩
  | .reject => ⟨none, none, false⟩
  | .modify => ⟨none, none, false⟩
  | .mode => ⟨none, none, false⟩
  | .stage => ⟨some "execution", some "promote_stage", true⟩
  | .pause => ⟨none, none, false⟩
  | .resume => ⟨some "orchestration", some "resume_run", true⟩

def buildPhases : Dict String String :=
  .ofList [("reject", "P7"), ("modify", "P7"), ("mode", "P8"), ("pause", "P8")]

def notAvailableReason (family : IntentFamily) : Except HandlerError String :=
  match buildPhases.get? family.value with
  | some phase => .ok ("not available in current build phase: " ++ family.value ++ " requires " ++
      phase)
  | none => .error (.keyError family.value)

/-! ### The results and the writes -/

structure DispatchResult where
  accepted : Bool
  routedTo : Option String := none
  rejection : Option String := none
  provenance : Provenance
deriving DecidableEq

def rejected (runId reason : String) : DispatchResult :=
  { accepted := false, rejection := some reason, provenance := ⟨runId, "supervisor", none⟩ }

def provenance (runId label key : String) : Provenance :=
  ⟨runId, "supervisor", some (label ++ ":" ++ key)⟩

def messageLabel : String := "Message"

/-- Write one idempotent dispatcher step message node. -/
def writeMessage (runId stepName status now : String) : GraphM PipelineNode := do
  let key := runId ++ ":" ++ stepName
  let g ← get
  let props := [("run_id", Value.str runId), ("step", .str stepName), ("status", .str status)]
  mergeM messageLabel key (.ofList (if (g.getNode messageLabel key).isNone then
    props ++ [("created_at", .str now)] else props))

/-- A write of the store that is all or nothing. -/
def liftWrite (write : PipelineGraph → Except HandlerError PipelineGraph) : GraphM Unit := do
  match write (← get) with
  | .ok g => set g
  | .error e => throw e

/-- `resolve_flag` for a severity as it is stored. -/
def resolveFlagNamed (subjectRef severity now : String) : GraphM Bool := do
  let g ← get
  let flagKey := "flag:" ++ subjectRef ++ ":" ++ severity
  let key := "resolution:" ++ flagKey
  match g.getNode flagLabel flagKey with
  | none => pure false
  | some flag =>
    match g.getNode flagResolutionLabel key with
    | some _ => pure true
    | none =>
      let resolution ← mergeM flagResolutionLabel key (.ofList [("subject_ref", .str subjectRef),
        ("severity", .str severity), ("resolved_at", .str now)])
      addEdgeM resolution flag "RESOLVES"
      pure true

def severityOf (flag : PipelineNode) : String := ((flag.get "severity").str?).getD "critical"

/-- Resolve the first unresolved flag of a subject. -/
def resolveFlagBySubject (subjectRef now : String) : GraphM Bool := do
  let g ← get
  if subjectRef = "" then pure false
  else
    match (g.listNodes flagLabel).find? fun flag =>
        decide (flag.get "subject_ref" = .str subjectRef) && (g.getNode flagResolutionLabel
          ("resolution:flag:" ++ subjectRef ++ ":" ++ severityOf flag)).isNone with
    | none => pure false
    | some flag => resolveFlagNamed subjectRef (severityOf flag) now

/-! ### The gate -/

/-- The agents behind the gate's bus: a result, or the text of an error message. -/
structure GatePeers where
  promoteStage : PromoteStageRequest → GraphM (Except String PromoteStageResult)
  resumeRun : String → ResumeStage → GraphM (Except String ResumePlacement)

/-- `execution.promote_stage` on the bus: what raises there is answered as an error. -/
def executionPeer (faultText : HandlerError → String) (avgApprovalRate : List PipelineNode → ℚ)
    (settings : StageSettings) (now : String) (request : PromoteStageRequest) :
    GraphM (Except String PromoteStageResult) := do
  match promoteStage avgApprovalRate settings (← get) request now with
  | .ok (g, result) => set g; pure (.ok result)
  | .error e => pure (.error (faultText e))

def needsConfirmation (intent : TypedIntent) : Bool :=
  intent.requiresConfirmation && decide (intent.parameters.get? "confirmed" ≠ some "true")

/-- A parameter, or the one that stands in for it where it is missing or empty. -/
def parameterOr (intent : TypedIntent) (name other : String) : String :=
  match intent.parameters.get? name with
  | some value => if value = "" then (intent.parameters.get? other).getD "" else value
  | none => (intent.parameters.get? other).getD ""

/-- `_resume_stage`. -/
def resumeStage (intent : TypedIntent) : String := parameterOr intent "from_stage" "stage"

def brokerResumeStages : List ResumeStage :=
  [.positionSync, .provider, .scanner, .analyst, .pm, .execution]

def confirmationReason (intent : TypedIntent) : String :=
  let base := "Confirm the typed resume intent to create a superseding child run."
  if intent.family = .resume then
    if resumeStage intent ∈ brokerResumeStages.map ResumeStage.value then
      base ++ " Broker consequence: " ++
        "re-running from this stage can submit new orders at the broker" ++ "."
    else base
  else "confirmation required - resubmit with confirmed=true"

def dispatchResume (peers : GatePeers) (intent : TypedIntent) (now : String) :
    GraphM DispatchResult := do
  let runId := intent.provenance.runId
  match resumeStages.find? fun stage => decide (stage.value = resumeStage intent) with
  | none => pure (rejected runId ("invalid resume stage: " ++ resumeStage intent))
  | some stage =>
    match ← peers.resumeRun ((intent.parameters.get? "run_id").getD "") stage with
    | .error text => pure (rejected runId text)
    | .ok placement =>
      let _ ← writeMessage runId intent.family.value "dispatched" now
      pure {
        accepted := true
        routedTo := some "orchestration.resume_run"
        provenance := ⟨placement.childRunId, "orchestration",
          some ("RunRequest:" ++ placement.nodeKey)⟩ }

def dispatchStage (peers : GatePeers) (intent : TypedIntent) : GraphM DispatchResult := do
  let runId := intent.provenance.runId
  let target := parameterOr intent "stage" "target"
  match ExecutionStage.all.find? fun stage => decide (stage.value = target) with
  | none => pure (rejected runId ("invalid stage target: " ++ target))
  | some stage =>
    let request : PromoteStageRequest := {
      targetStage := stage
      reason := "operator stage request via " ++ intent.provenance.sourceAgent
      confirmed := decide (intent.parameters.get? "confirmed" = some "true") }
    match ← peers.promoteStage request with
    | .error text => pure (rejected runId text)
    | .ok result =>
      if result.accepted then pure {
        accepted := true
        routedTo := some "execution.promote_stage"
        provenance := result.provenance }
      else pure (rejected runId result.reason)

/-- Route an intent that nothing withholds. -/
def dispatchRouted (peers : GatePeers) (intent : TypedIntent) (now : String) :
    GraphM DispatchResult := do
  let runId := intent.provenance.runId
  if intent.parameters.get? "confirmed" = some "true" then
    liftWrite fun g => resolveFlag g runId .warn now
  if !(capabilityMatrix intent.family).available then
    match notAvailableReason intent.family with
    | .ok reason => pure (rejected runId reason)
    | .error e => throw e
  else
    if intent.family = .approve then
      let _ ← resolveFlagBySubject (parameterOr intent "subject" "target") now
    if intent.family = .resume then dispatchResume peers intent now
    else
      let node ← writeMessage runId intent.family.value "dispatched" now
      pure {
        accepted := true
        routedTo := (capabilityMatrix intent.family).routedTo
        provenance := provenance runId messageLabel node.key }

/-- Gate one intent: refuse it, ask for its confirmation, or route it. -/
def dispatchIntent (peers : GatePeers) (intent : TypedIntent) (now : String) :
    GraphM DispatchResult := do
  let runId := intent.provenance.runId
  match isHardNo intent with
  | some reason => pure (rejected runId reason)
  | none =>
    if intent.family = .stage then dispatchStage peers intent
    else if needsConfirmation intent then
      liftWrite fun g => writeFlag g runId .warn (confirmationReason intent) now
      pure (rejected runId (confirmationReason intent))
    else dispatchRouted peers intent now

/-- The capability: what raises in the gate is a refusal. -/
def dispatch (peers : GatePeers) (intent : TypedIntent) (now : String) : GraphM DispatchResult :=
  tryCatch (dispatchIntent peers intent now) fun _ =>
    pure (rejected intent.provenance.runId "supervisor dispatch failed")

end TradingAgents.Supervisor
