import TradingAgents.Orchestration.HoldAnswers

/-! The scheduled dispatcher.  A fire reads what earlier fires left in the graph: the hold of its
run, the answers to it and the run's request.  It polls Telegram while a hold stands, places the run
inside the placing window when the fleet is ready or a human says so, and holds it otherwise. -/

namespace TradingAgents.Orchestration

open Kernel ProofKit

def runHoldLabel : String := "RunHold"

def fleetPreflightLabel : String := "FleetPreflight"

structure TradingCalendar where
  isTradingSession : Day → Bool
  windowEnd : Day

structure OrchestratorSettings where
  universeName : String
  preflightMaxAgeMinutes : Int
  operatorTimezone : String

/-- What a request declares beside its run and its tickers. -/
structure RequestDefaults where
  lookbackDays : Int
  requiredHistoryBars : Int
  benchmarkTicker : String

/-- What the dispatcher runs with.  `fromIso` reads an aware timestamp as the microseconds of its
instant, `localClock` gives the hour and the minute of a moment in a time zone that is known. -/
structure DispatchSetup where
  backend : Backend
  calendar : TradingCalendar
  settings : OrchestratorSettings
  members : String → List String
  degradableAgents : List String
  requestDefaults : Day → RequestDefaults
  fromIso : String → Option Int
  dayFromIso : String → Option Day
  localClock : String → Option (Moment → Nat × Nat)

/-! ### Fleet readiness -/

inductive ReadinessState where
  | ready
  | degraded
  | failing
  | unknown
deriving DecidableEq, Repr

def ReadinessState.value : ReadinessState → String
  | ready => "ready"
  | degraded => "degraded"
  | failing => "failing"
  | unknown => "unknown"

structure Readiness where
  state : ReadinessState
  preflightKey : String
  checkedAt : String
  failures : List String

/-- `tuple(str(item) for item in props.get(name, ()))`. -/
def textsOf (n : PipelineNode) (name : String) : List String :=
  match n.get name with
  | .list xs => xs.map valueText
  | _ => []

/-- `text.split(":", k)`. -/
def splitColons : Nat → List Char → List (List Char)
  | 0, text => [text]
  | k + 1, text =>
    match text.dropWhile (· ≠ ':') with
    | [] => [text]
    | _ :: rest => text.takeWhile (· ≠ ':') :: splitColons k rest

def isDegradableFailure (failure : String) (agents : List String) : Bool :=
  match splitColons 3 failure.toList with
  | [kind, agentType, check, reason] =>
    decide (String.ofList kind ∈ ["unrecoverable", "unexpected", "transient"]) &&
      decide (String.ofList agentType ∈ agents) && !check.isEmpty && !reason.isEmpty
  | _ => false

def allFailuresDegradable (failures agents : List String) : Bool :=
  !failures.isEmpty && !agents.isEmpty && failures.all fun item => isDegradableFailure item agents

section

variable (setup : DispatchSetup)

def preflightCheckedAt (n : PipelineNode) : Option Int :=
  match n.get "checked_at" with
  | .str raw => setup.fromIso raw
  | _ => none

/-- The newest preflight that can be read, the first listed of equals. -/
def latestPreflight (nodes : List PipelineNode) : Option (Int × PipelineNode) :=
  nodes.foldl (fun latest n =>
    match preflightCheckedAt setup n, latest with
    | none, _ => latest
    | some t, none => some (t, n)
    | some t, some (best, _) => if best < t then some (t, n) else latest) none

def fleetReadiness (g : PipelineGraph) (now : Moment) : Readiness :=
  match latestPreflight setup (setup.backend.listNodes g fleetPreflightLabel) with
  | none => ⟨.unknown, "", "", []⟩
  | some (t, n) =>
    let checkedValue := (n.props.get? "checked_at").elim "" valueText
    if setup.settings.preflightMaxAgeMinutes * 60000000 < now.micros - t then
      ⟨.unknown, n.key, checkedValue, []⟩
    else
      let failures := textsOf n "failures"
      let state :=
        if n.get "passed" = .bool true then .ready
        else if allFailuresDegradable failures setup.degradableAgents then .degraded
        else .failing
      ⟨state, n.key, checkedValue, failures⟩

end

/-! ### The gate -/

def isActiveRunHold (n : PipelineNode) : Bool :=
  decide (n.get "state" = .str "held") && (n.props.get? "released_at").isNone

/-- An unreleased hold of a run. -/
def holdsRun (runId : String) (n : PipelineNode) : Bool :=
  decide (n.get "run_id" = .str runId) && isActiveRunHold n

structure DispatchHold where
  state : ReadinessState
  nodeKey : String
  failures : List String

def holdProps (runId : String) (asOf : Day) (now : Moment) (state : ReadinessState)
    (readiness : Readiness) : Props Document := .ofList [
  ("run_id", .str runId),
  ("as_of", .str asOf.isoformat),
  ("held_at", .str now.isoformat),
  ("state", .str "held"),
  ("readiness_state", .str state.value),
  ("preflight_key", .str readiness.preflightKey),
  ("failures", .list (readiness.failures.map .str))]

def releaseProps (now : Moment) : Props Document := .ofList [("released_at", .str now.isoformat)]

/-- Write an append-only hold, or release a prior hold for a ready fleet. -/
def holdUnreadyRun (setup : DispatchSetup) (runId : String) (asOf : Day) (now : Moment)
    (readiness : Readiness) : Dispatch (Option DispatchHold) := do
  let d ← get
  let holds := (setup.backend.listNodes d.graph runHoldLabel).filter fun n =>
    n.get "run_id" = .str runId
  let activeHold := holds.find? isActiveRunHold
  if readiness.state = .ready ∨ readiness.state = .degraded then
    match activeHold with
    | some hold => do
      let _ ← graphMerge runHoldLabel hold.key (releaseProps now)
      pure none
    | none => pure none
  else
    let holdState := if readiness.state = .unknown then .unknown else .failing
    match activeHold with
    | some hold => pure (some ⟨holdState, hold.key, readiness.failures⟩)
    | none => do
      let holdKey := "hold:" ++ runId
      let nodeKey := if holds.isEmpty then holdKey else holdKey ++ ":" ++ toString holds.length
      let written ← graphMerge runHoldLabel nodeKey (holdProps runId asOf now holdState readiness)
      pure (some ⟨holdState, written.key, readiness.failures⟩)

/-! ### Results and time boundaries -/

inductive DispatchAction where
  | placed
  | alreadyPlaced
  | skipped
  | held
deriving DecidableEq, Repr

structure ScheduledDispatchResult where
  action : DispatchAction
  runId : String
  reason : String
  nodeKey : Option String := none
  tickers : List String := []
  readinessState : Option ReadinessState := none
  failures : List String := []
  runPosture : RunPosture := .normal

def scheduledRunId (day : Day) : String := "sched-" ++ day.isoformat

/-- The minute of the day of the cron tick that a fire belongs to. -/
def fireTick (now : Moment) : Nat := now.hour * 60 + (now.minute - now.minute % 10)

def actionStart : Nat := 22 * 60 + 30

def actBy : Nat := 23 * 60 + 10

def isActionTime (now : Moment) : Bool :=
  decide (actionStart ≤ fireTick now) && decide (fireTick now ≤ actBy)

/-- `f"{hour:02}:{minute:02}"`. -/
def clockText (hour minute : Nat) : String :=
  .ofList (digits 2 hour ++ ':' :: digits 2 minute)

/-- The answer deadline in the operator's time first and UTC second. -/
def actByText (setup : DispatchSetup) (now : Moment) : String :=
  let utc := clockText 23 10 ++ " UTC"
  match setup.localClock setup.settings.operatorTimezone with
  | none => utc
  | some zone =>
    let deadline := zone (.ofClock now.date 23 10 0 0)
    let city := (setup.settings.operatorTimezone.toList.reverse.takeWhile (· ≠ '/')).reverse
    clockText deadline.1 deadline.2 ++ " " ++ .ofList city ++ " (" ++ utc ++ ")"

def outsideWindow (runId : String) (now : Moment) (hold : Option PipelineNode) :
    ScheduledDispatchResult :=
  let side := if fireTick now < actionStart then "before" else "after"
  let reason := side ++ " the placing window, " ++ clockText 22 30 ++ " to " ++ clockText 23 10 ++
    " UTC"
  match hold with
  | none => { action := .skipped, runId, reason }
  | some hold =>
    { action := .held, runId, reason, nodeKey := some hold.key,
      failures := textsOf hold "failures" }

/-- The run an earlier fire placed. -/
def alreadyPlaced (g : PipelineGraph) (runId : String) : Option ScheduledDispatchResult :=
  (g.getNode runRequestLabel (runRequestKey runId)).map fun n =>
    let posture := runPosture (some n.props)
    { action := .alreadyPlaced, runId, reason := "placed by an earlier fire", nodeKey := some n.key
      tickers := textsOf n "tickers"
      failures := if posture = .degraded then textsOf n "degraded_by" else []
      runPosture := posture }

/-! ### Placement -/

inductive ScheduledAction where
  | place
  | skip
deriving DecidableEq, Repr

structure ScheduledDispatchDecision where
  action : ScheduledAction
  runId : String
  reason : String

def decideScheduledRun (calendar : TradingCalendar) (asOf : Day) :
    Dispatch ScheduledDispatchDecision :=
  let runId := scheduledRunId asOf
  if ¬ asOf ≤ calendar.windowEnd then
    throw (.calendarWindowExceeded (asOf.isoformat ++
      " is beyond the NYSE calendar window ending " ++ calendar.windowEnd.isoformat))
  else if calendar.isTradingSession asOf then
    pure ⟨.place, runId, "NYSE trading session"⟩
  else
    pure ⟨.skip, runId, asOf.isoformat ++ " is not a NYSE trading session"⟩

def requestProps (runId : String) (tickers : List String) (asOf : Day)
    (defaults : RequestDefaults) : Props Document := .ofList [
  ("run_id", .str runId),
  ("tickers", .list (tickers.map .str)),
  ("requested_at", .str asOf.isoformat),
  ("lookback_days", .int defaults.lookbackDays),
  ("required_history_bars", .int defaults.requiredHistoryBars),
  ("benchmark_ticker", .str defaults.benchmarkTicker)]

/-- Write the single RunRequest node that triggers a run. -/
def placeRunRequest (setup : DispatchSetup) (runId : String) (tickers : List String) (asOf : Day) :
    Dispatch PipelineNode :=
  graphMerge runRequestLabel (runRequestKey runId)
    (requestProps runId tickers asOf (setup.requestDefaults asOf))

def noTickers (setup : DispatchSetup) : DispatchError :=
  .valueError ("universe '" ++ setup.settings.universeName ++ "' has no tickers")

/-- Place the normal day-keyed run despite a failed readiness check. -/
def placeOverride (setup : DispatchSetup) (runId : String) (asOf : Day) (reason : String) :
    Dispatch ScheduledDispatchResult := do
  let tickers := setup.members setup.settings.universeName
  if tickers.isEmpty then throw (noTickers setup)
  else
    let n ← placeRunRequest setup runId tickers asOf
    pure { action := .placed, runId, reason, nodeKey := some n.key, tickers }

def postureProps (readiness : Readiness) : Props Document := .ofList [
  ("run_posture", .str RunPosture.degraded.value),
  ("degraded_by", .list (readiness.failures.map .str))]

/-- The placement of a run that the gate has let through. -/
def placeReadyRun (setup : DispatchSetup) (asOf : Day) (decision : ScheduledDispatchDecision)
    (readiness : Readiness) : Dispatch ScheduledDispatchResult := do
  let tickers := setup.members setup.settings.universeName
  if tickers.isEmpty then throw (noTickers setup)
  else
    let n ← placeRunRequest setup decision.runId tickers asOf
    if readiness.state = .degraded then
      let _ ← graphMerge runRequestLabel n.key (postureProps readiness)
      pure
        { action := .placed, runId := decision.runId, reason := decision.reason
          nodeKey := some n.key, tickers, failures := readiness.failures, runPosture := .degraded }
    else
      pure
        { action := .placed, runId := decision.runId, reason := decision.reason
          nodeKey := some n.key, tickers }

/-- Place the scheduled RunRequest, or cleanly skip non-trading sessions. -/
def placeScheduledRun (setup : DispatchSetup) (asOf : Day) (now : Moment) :
    Dispatch ScheduledDispatchResult := do
  let decision ← decideScheduledRun setup.calendar asOf
  if decision.action = .skip then
    pure { action := .skipped, runId := decision.runId, reason := decision.reason }
  else
    let d ← get
    let readiness := fleetReadiness setup d.graph now
    let hold ← holdUnreadyRun setup decision.runId asOf now readiness
    match hold with
    | some hold =>
      pure
        { action := .held, runId := decision.runId, reason := decision.reason
          nodeKey := some hold.nodeKey, readinessState := some hold.state
          failures := hold.failures }
    | none => placeReadyRun setup asOf decision readiness

end TradingAgents.Orchestration
