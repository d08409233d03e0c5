import TradingAgents.Supervisor.Gate

/-! The command tool of the operator's surfaces: a text is interpreted, questions are answered, and
every other intent goes to the supervisor's gate, confirmed only if its caller says so. -/

namespace TradingAgents.Surfaces

open Kernel ProofKit
open Operator (GraphM HumanCommand ModelCall OperatorKit TypedIntent interpret explain
  requestCorrelation)
open Execution (StageSettings)
open Orchestration (ResumePlacement ResumeStage)
open Supervisor (DispatchResult GatePeers dispatch executionPeer)

/-- The argument `confirmed` of a call: the truth value `True`, something else that counts as true,
or nothing that does. -/
inductive ConfirmedArg where
  | isTrue
  | truthy
  | falsy
deriving DecidableEq, Repr

structure CommandArgs where
  text : String
  actor : String := "assistant"
  channel : String := "mcp"
  runId : String := ""
  requestId : String := ""
  confirmed : ConfirmedArg := .falsy

/-- The answer to a call; an entry that it does not have is `none`. -/
structure ToolAnswer where
  accepted : Bool
  outcome : String
  message : String
  auditId : String
  runId : Option String := none
  routedTo : Option String := none
  reason : Option String := none
  typedIntent : Option TypedIntent := none

inductive ToolResult where
  | answer (answer : ToolAnswer)
  | error (text : String)

/-- What the tool calls, and what the agents behind the gate are set up with. -/
structure SurfaceContext where
  operator : OperatorKit
  statusSummary : PipelineGraph → String
  faultText : HandlerError → String
  avgApprovalRate : List PipelineNode → ℚ
  stage : StageSettings
  resumeRun : String → ResumeStage → GraphM (Except String ResumePlacement)

/-- The agents behind the gate, at one time. -/
def SurfaceContext.peers (ctx : SurfaceContext) (now : String) : GatePeers where
  promoteStage := executionPeer ctx.faultText ctx.avgApprovalRate ctx.stage now
  resumeRun := ctx.resumeRun

/-- One call of the tool: its arguments, the requests to the model that it makes, and its time. -/
structure CommandCall where
  args : CommandArgs
  reading : ModelCall
  explaining : ModelCall
  words : String
  now : String

def grounded (text runId : String) : String :=
  if runId = "" then text else text ++ "\nSelected run: " ++ runId

def requestIdOf (args : CommandArgs) : Option String :=
  if args.requestId = "" then none else some args.requestId

/-- Ask the operator for an explanation that is grounded in the run. -/
def operatorExplanation (ctx : SurfaceContext) (subject : String) (call : CommandCall) :
    GraphM ToolResult :=
  let subject := grounded subject call.args.runId
  let audit := requestCorrelation ctx.operator (requestIdOf call.args)
    ["explain", subject, "operator"]
  tryCatch
    (do
      let words ← explain ctx.operator subject (requestIdOf call.args) call.explaining call.words
      pure (.answer {
        accepted := true
        outcome := "answer"
        message := words
        auditId := "audit:" ++ audit
        runId := some call.args.runId }))
    fun e => pure (.error (ctx.faultText e))

/-- The outcome that the surface shows of a dispatch. -/
def dispatchOutcome (intent : TypedIntent) (result : DispatchResult) (confirmed : ConfirmedArg) :
    String :=
  if intent.requiresConfirmation ∧ confirmed = .falsy then "needs_confirmation"
  else if result.accepted then
    if confirmed = .falsy then "dispatched" else "confirmed_dispatch"
  else "refused"

/-- `rejection or f"Command routed to {routed_to}."` -/
def dispatchMessage (result : DispatchResult) : String :=
  let rejection := result.rejection.getD ""
  if rejection = "" then "Command routed to " ++ result.routedTo.getD "None" ++ "." else rejection

/-- Interpret one bounded command and apply the supervisor gate. -/
def commandTool (ctx : SurfaceContext) (call : CommandCall) : GraphM ToolResult := do
  let args := call.args
  let text := grounded args.text args.runId
  if args.channel ∉ ["dashboard", "phone", "mcp"] then
    throw (.validation ("unsupported command channel: " ++ args.channel))
  let result ←
    interpret ctx.operator ⟨text, args.actor, args.channel, requestIdOf args⟩ call.reading
  let auditId := "audit:" ++ requestCorrelation ctx.operator (requestIdOf args)
    [args.actor, args.channel, text]
  match result.intent with
  | none =>
    pure (.answer {
      accepted := false
      outcome := result.outcome.value
      message := result.message
      auditId := auditId
      reason := some result.message })
  | some intent =>
    let intent := if intent.family = .resume ∧ args.runId ≠ "" then
      intent.withParameter "run_id" args.runId else intent
    if intent.family = .explain then
      let subject := (intent.parameters.get? "subject").getD ""
      operatorExplanation ctx (if subject = "" then args.text else subject) call
    else if intent.family = .status then
      let message := ctx.statusSummary (← get)
      pure (.answer {
        accepted := true
        outcome := "answer"
        message := message
        auditId := auditId
        typedIntent := some intent })
    else
      let intent' := if args.confirmed = .isTrue then intent.withParameter "confirmed" "true"
        else intent
      let result ← dispatch (ctx.peers call.now) intent' call.now
      pure (.answer {
        accepted := result.accepted
        outcome := dispatchOutcome intent result args.confirmed
        message := dispatchMessage result
        auditId := auditId
        routedTo := result.routedTo
        reason := result.rejection
        typedIntent := some intent })

end TradingAgents.Surfaces
