import TradingAgents.Orchestration.ScheduledDispatch

/-! One fire of the answer-aware dispatcher and one answer on the dashboard, with what each of them
does to the holds, the answers and the request of a run. -/

namespace TradingAgents.Orchestration

open Kernel ProofKit

/-! ### Telegram -/

/-- One valid answer of a callback update. -/
structure TelegramAnswer where
  updateId : Int
  answer : Answer
  runId : String
  callbackQueryId : String

/-- How Telegram answers the calls of one fire, an error being what the call raised or reported; and
the message and the verdict of the daily brief, when one is due, composed and sent. -/
structure TelegramReplies where
  polled : Except String (List TelegramAnswer)
  acked : TelegramAnswer → Except String Bool
  confirmed : Except String Bool
  holdNotice : Except String (Option Int)
  degradedNotice : Except String (Option Int)
  brief : Option (Int × String)

/-- A failed call becomes a fault and the fallback. -/
def faultSafe {α : Type} (call : Except String α) (fallback : α) : Dispatch α :=
  match call with
  | .ok a => pure a
  | .error message => do
    modify fun d => { d with faults := d.faults ++ [message] }
    pure fallback

def send (s : Sent) : Dispatch PUnit := modify fun d => { d with sent := d.sent ++ [s] }

/-- The scheduled day encoded in a run id, when it is valid. -/
def answerAsOf (setup : DispatchSetup) (runId : String) (fallback : Day) : Day :=
  let pre := "sched-".toList
  let text := if pre <+: runId.toList then .ofList (runId.toList.drop pre.length) else runId
  (setup.dayFromIso text).getD fallback

/-- The fact that a Telegram answer is recorded as. -/
def TelegramAnswer.fact (setup : DispatchSetup) (answer : TelegramAnswer) (asOf : Day)
    (now : Moment) : AnswerFact where
  runId := answer.runId
  asOf := answerAsOf setup answer.runId asOf
  answer := answer.answer
  source := .telegram
  answeredAt := now
  updateId := answer.updateId

/-- Write the polled answers and clear only the handled update range. -/
def pollAnswers (setup : DispatchSetup) (telegram : TelegramReplies) (asOf : Day) (now : Moment) :
    Dispatch PUnit := do
  let answers ← faultSafe telegram.polled []
  let highest ← answers.foldlM (fun highest answer => do
    let recorded ← recordAnswer setup.backend (answer.fact setup asOf now)
    if recorded then
      send (.ackButton answer.callbackQueryId "Answer recorded")
      let _ ← faultSafe (telegram.acked answer) false
      pure (max highest answer.updateId)
    else pure highest) (0 : Int)
  if highest ≠ 0 then
    send (.confirm highest)
    let _ ← faultSafe telegram.confirmed false
    pure ⟨⟩
  else pure ⟨⟩

/-! ### One fire -/

def activeHold (b : Backend) (g : PipelineGraph) (runId : String) : Option PipelineNode :=
  (b.listNodes g runHoldLabel).find? (holdsRun runId)

def answeredProps (answer : Answer) : Props Document :=
  .ofList [("answered_with", .str answer.value)]

def markAnswer (hold : Option PipelineNode) (answer : Option Answer) : Dispatch PUnit :=
  match hold, answer with
  | some hold, some answer =>
    if (hold.props.get? "answered_with").isNone then do
      let _ ← graphMerge runHoldLabel hold.key (answeredProps answer)
      pure ⟨⟩
    else pure ⟨⟩
  | _, _ => pure ⟨⟩

def briefProps (now : Moment) (messageId : Int) (verdict : String) : Props Document := .ofList [
  ("brief_sent_at", .str now.isoformat),
  ("brief_message_id", .int messageId),
  ("brief_verdict", .str verdict)]

/-- Attempt today's brief; a refused write becomes a fault and the fire goes on. -/
def briefSafely (runId : String) (asOf : Day) (now : Moment) (brief : Option (Int × String)) :
    Dispatch PUnit := do
  let d ← get
  match d.graph.getNode runRequestLabel (runRequestKey runId), brief with
  | some request, some (messageId, verdict) =>
    if asOf = now.date ∧ (request.props.get? "brief_sent_at").isNone then
      match d.graph.mergeNode runRequestLabel request.key (briefProps now messageId verdict) with
      | .ok (g, _) => set { d with graph := g }
      | .error e =>
        set { d with
          faults := d.faults ++ ["daily brief not sent for " ++ runId ++ ": " ++ e.text] }
    else pure ⟨⟩
  | _, _ => pure ⟨⟩

def noticeProps (now : Moment) (messageId : Int) : Props Document := .ofList [
  ("notified_at", .str now.isoformat),
  ("notice_message_id", .int messageId)]

def degradedNoticeProps (now : Moment) (messageId : Int) : Props Document := .ofList [
  ("degraded_notified_at", .str now.isoformat),
  ("degraded_notice_message_id", .int messageId)]

/-- Send one notice about a node that has none of the kind yet, and leave its mark on the node. -/
def notifyOnce (label key markName : String) (notice : Sent) (reply : Except String (Option Int))
    (mark : Int → Props Document) : Dispatch PUnit := do
  let d ← get
  match d.graph.getNode label key with
  | none => pure ⟨⟩
  | some n =>
    if (n.props.get? markName).isNone then
      send notice
      let messageId ← faultSafe reply none
      match messageId with
      | some messageId => do
        let _ ← graphMerge label n.key (mark messageId)
        pure ⟨⟩
      | none => pure ⟨⟩
    else pure ⟨⟩

def notifyNewHold (setup : DispatchSetup) (telegram : TelegramReplies)
    (result : ScheduledDispatchResult) (now : Moment) : Dispatch PUnit :=
  notifyOnce runHoldLabel (result.nodeKey.getD "") "notified_at"
    (.holdNotice result.runId result.failures (actByText setup now)) telegram.holdNotice
    (noticeProps now)

def notifyDegradedRun (telegram : TelegramReplies) (result : ScheduledDispatchResult)
    (now : Moment) : Dispatch PUnit :=
  notifyOnce runRequestLabel (result.nodeKey.getD "") "degraded_notified_at"
    (.degradedNotice result.runId result.failures) telegram.degradedNotice
    (degradedNoticeProps now)

/-- The part of a fire that places or holds a run which no earlier fire placed. -/
def placeOrHold (setup : DispatchSetup) (decision : ScheduledDispatchDecision) (asOf : Day)
    (now : Moment) (telegram : TelegramReplies) (hold : Option PipelineNode)
    (answer : Option Answer) : Dispatch ScheduledDispatchResult :=
  if isActionTime now = false then pure (outsideWindow decision.runId now hold)
  else match answer with
    | some .skipToday => pure { action := .skipped, runId := decision.runId, reason := "operator" }
    | some .runNow => placeOverride setup decision.runId asOf decision.reason
    | none => do
      let result ← placeScheduledRun setup asOf now
      if result.action = .held then
        notifyNewHold setup telegram result now
      else if result.action = .placed ∧ result.runPosture = .degraded then
        notifyDegradedRun telegram result now
      else pure ⟨⟩
      pure result

/-- The part of a fire after its answers are known. -/
def actOnAnswer (setup : DispatchSetup) (decision : ScheduledDispatchDecision) (asOf : Day)
    (now : Moment) (telegram : TelegramReplies) (hold : Option PipelineNode)
    (answer : Option Answer) : Dispatch ScheduledDispatchResult := do
  markAnswer hold answer
  briefSafely decision.runId asOf now telegram.brief
  let d ← get
  match alreadyPlaced d.graph decision.runId with
  | some placed =>
    if isActionTime now = true ∧ placed.runPosture = .degraded then
      notifyDegradedRun telegram placed now
    else pure ⟨⟩
    pure placed
  | none => placeOrHold setup decision asOf now telegram hold answer

/-- Run one answer-aware dispatcher fire. -/
def dispatchWithHumanAnswer (setup : DispatchSetup) (asOf : Day) (now : Moment)
    (telegram : TelegramReplies) : Dispatch ScheduledDispatchResult := do
  let decision ← decideScheduledRun setup.calendar asOf
  if decision.action = .skip then
    pure { action := .skipped, runId := decision.runId, reason := decision.reason }
  else
    let d ← get
    let hold := activeHold setup.backend d.graph decision.runId
    if hold.isSome then pollAnswers setup telegram asOf now else pure ⟨⟩
    let d ← get
    let answer := effectiveAnswer setup.backend d.graph decision.runId
    actOnAnswer setup decision asOf now telegram hold answer

/-! ### The dashboard -/

/-- The request of a dashboard answer, with the two members of its body. -/
structure HoldAnswerRequest where
  isPost : Bool
  runId : Value Document
  answer : Value Document

/-- A hold that is still to be answered. -/
def awaitsAnswer (runId : String) (n : PipelineNode) : Bool :=
  holdsRun runId n && (n.props.get? "answered_with").isNone

/-- Validate a dashboard choice and append the shared answer fact. -/
def handleHoldAnswer (setup : DispatchSetup) (request : HoldAnswerRequest) (now : Moment) :
    Dispatch (Nat × List (String × String)) :=
  if request.isPost = false then pure (405, [("error", "POST only")])
  else match request.runId, Answer.ofValue request.answer with
    | .str runId, some answer => do
      let d ← get
      match (setup.backend.listNodes d.graph runHoldLabel).find? (awaitsAnswer runId) with
      | none => pure (404, [("error", "no active hold")])
      | some hold => do
        let asOf := (setup.dayFromIso (valueText (hold.get "as_of"))).getD now.date
        let _ ← recordAnswer setup.backend
          { runId, asOf, answer, source := .dashboard, answeredAt := now, updateId := 0 }
        pure (200, [("run_id", runId), ("answer", answer.value)])
    | _, _ => pure (400, [("error", "run_id and answer are required")])

end TradingAgents.Orchestration
