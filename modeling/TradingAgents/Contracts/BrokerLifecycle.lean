import TradingAgents.Contracts.Documents

/-! Lifecycle predicates for execution's broker facts: which statuses end an order, and whether a
stop fact still protects a position. -/

namespace TradingAgents.BrokerLifecycle

open Kernel

/-- The lower-case text of a status.  A value that is neither a text nor a number has none: the
store writes statuses as texts, and every status set holds words only. -/
def normalise : Value Document → String
  | .str s => String.ofList (s.toList.map Char.toLower)
  | .int n => if n = 0 then "" else toString n
  | .bool true => "true"
  | _ => ""

def terminalFillBrokerStatuses : List String := ["filled", "rejected"]

def resolvedUnfilledBrokerStatuses : List String := ["canceled", "cancelled", "expired"]

def completedExitBrokerStatuses : List String := ["filled", "partial", "partially_filled"]

def filledBrokerStatuses : List String := ["filled"]

/-- A non-empty string property. -/
def truthyStr : Value Document → Option String
  | .str s => if s = "" then none else some s
  | _ => none

/-- Whether a Fill's `broker_status` stops future refresh. -/
def isTerminalFillBrokerStatus (v : Value Document) : Bool :=
  decide (normalise v ∈ terminalFillBrokerStatuses)

def effectiveFillStatus (fill : PipelineNode) : String :=
  normalise ((fill.props.get? "broker_status").getD (fill.get "status"))

/-- Whether a prior exit Fill already completed the sell decision. -/
def isCompletedExitFill (fill : PipelineNode) : Bool :=
  decide (effectiveFillStatus fill ∈ completedExitBrokerStatuses)

/-- Whether a Fill has reached a filled broker outcome. -/
def isFilledFill (fill : PipelineNode) : Bool :=
  decide (effectiveFillStatus fill ∈ filledBrokerStatuses)

/-- Whether a buy Fill has reached a filled broker outcome. -/
def isFilledBuyFill (fill : PipelineNode) : Bool :=
  (fill.get "side").pyEq (.str "buy") && isFilledFill fill

def endedMarkers : List String := ["cancelled_at", "replaced_at"]

/-- The Fill that carries the broker truth for one stop fact. -/
def siblingFillForBrokerStop (g : PipelineGraph) (stop : PipelineNode) : Option PipelineNode :=
  match g.getNode "Fill" stop.key with
  | some fill => some fill
  | none =>
    match truthyStr (stop.get "broker_order_id") with
    | none => none
    | some orderId =>
      (g.listNodes "Fill").find? fun n => (n.get "broker_order_id").pyEq (.str orderId)

/-- Whether a stop fact carries a marker that ends it. -/
def isEnded (stop : PipelineNode) : Bool :=
  endedMarkers.any fun name => (truthyStr (stop.get name)).isSome

/-- Whether a BrokerStopOrder still protects a position. -/
def isLiveBrokerStopFact (g : PipelineGraph) (stop : PipelineNode) : Bool :=
  if isEnded stop then false
  else match siblingFillForBrokerStop g stop with
    | none => true
    | some fill => !isTerminalFillBrokerStatus (fill.get "broker_status")

end TradingAgents.BrokerLifecycle
