import Mathlib
import TradingAgents.Execution.StatusRefresh
import TradingAgents.Execution.StopPass
import TradingAgents.ProofKit.Effects

/-! The realignment of a placement pass as a program: it reads the broker's orders once, and for
each protected position whose live stop rests off its decided price asks the broker to replace the
stop in place and then writes the replacement.  Any call of the broker may be refused or raise. -/

namespace TradingAgents.Execution

open Kernel ProofKit BrokerLifecycle BrokerStops

/-- One holding of the broker snapshot that the pass goes by. -/
structure Holding where
  ticker : String
  quantity : Int
  marketValueCents : Int
deriving DecidableEq

/-- One broker order the graph waits on: its broker id, which may be empty, and its key. -/
structure OrderRef where
  brokerOrderId : String
  idempotencyKey : String
deriving DecidableEq

/-- A broker as the realignment meets it: its answer to the read of the run start's orders, and to
each replacement; a refusal or an exception is a text. -/
structure StopBroker where
  orders : List OrderRef → Except String (List BrokerFill)
  replaceStop : String → Int → String → Except String BrokerFill

/-- A position to realign: its plan and its live stop. -/
abbrev Target := BrokerStopThresholdPlan × BrokerStopOrder

/-- A replacement that the broker was asked for, with its answer. -/
structure ReplaceCall where
  plan : BrokerStopThresholdPlan
  stop : BrokerStopOrder
  key : String
  answer : Except String BrokerFill

inductive ReplaceFault where
  | failed
  | skipped
  | refused
deriving DecidableEq, Repr

def ReplaceFault.errorType : ReplaceFault → String
  | failed => "StopReplaceFailed"
  | skipped => "StopReplaceSkipped"
  | refused => "StopReplaceRefused"

/-- The warning that a stop was left where it rests. -/
structure RealignFault where
  errorType : String
  message : String
  target : Target
  reason : String
  extra : Option (String × String)

/-- The graph, the replacements asked for, and the warnings. -/
structure RealignState where
  graph : PipelineGraph
  calls : List ReplaceCall
  faults : List RealignFault

/-- A realignment program: what it wrote before it raised stays. -/
abbrev Realign (α : Type) := EStateM HandlerError RealignState α

/-- An amount of cents in dollars, rounded to the cent. -/
def dollars (cents : ℚ) : String :=
  let whole := (roundHalfEven cents).natAbs
  let rest := whole % 100
  (if cents < 0 then "-" else "") ++ toString (whole / 100) ++ "." ++
    (if rest < 10 then "0" else "") ++ toString rest

def Realign.record (kind : ReplaceFault) (target : Target) (reason : String)
    (extra : Option (String × String) := none) : Realign Unit :=
  modify fun s => { s with
    faults := s.faults ++ [{
      errorType := kind.errorType
      message := "stop for " ++ target.1.threshold.ticker ++ " not replaced: " ++ reason ++ "; " ++
        dollars target.2.stopPriceCents ++ " stays live"
      target := target
      reason := reason
      extra := extra }] }

/-- One write of the graph. -/
def Realign.write (f : PipelineGraph → Except HandlerError PipelineGraph) : Realign Unit := do
  let s ← get
  match f s.graph with
  | .ok g => set { s with graph := g }
  | .error e => throw e

/-- The status of each order the broker reports. -/
def orderStatuses (orders : List BrokerFill) : Dict String (Option String) :=
  .ofList (orders.map fun order => (order.brokerOrderId, order.orderStatus))

def marketValues (holdings : List Holding) : Dict String Int :=
  .ofList (holdings.map fun h => (h.ticker, h.marketValueCents))

/-- The orders that a realignment asks the broker for. -/
def waitingStops (targets : List Target) : List OrderRef :=
  targets.map fun target => ⟨target.2.brokerOrderId, target.2.key⟩

/-- The broker's order statuses, when they can be read. -/
def readOrderStatuses (broker : StopBroker) (targets : List Target) :
    Realign (Option (Dict String (Option String))) :=
  match broker.orders (waitingStops targets) with
  | .ok orders => pure (some (orderStatuses orders))
  | .error text => do
    targets.forM fun target =>
      Realign.record .failed target ("broker orders unreadable: " ++ text)
    pure none

/-- Record a replacement that the broker made: the new order's Fill and fact, and then the marker of
the old fact. -/
def recordReplacement (now : Timestamp) (target : Target) (key : String) (fill : BrokerFill) :
    Realign Unit := do
  let s ← get
  match writeStopFill s.graph target.1 key fill with
  | .error e => throw e
  | .ok (g, fillNode) =>
    set { s with graph := g }
    Realign.write fun g => writeStopOrder g fillNode target.1 key fill now (some target.2)
    Realign.write fun g => markReplaced g target.2 key fill now

def replaceableOrderStatus : String := "new"

/-- A text, unless it is missing or empty. -/
def orUnknown (text : Option String) : String :=
  match text with
  | none => "unknown"
  | some s => if s = "" then "unknown" else s

/-- Move one stop, unless its order is not `new` or its decided price is not below the market. -/
def realignStop (broker : StopBroker) (now : Timestamp) (statuses : Dict String (Option String))
    (values : Dict String Int) (target : Target) : Realign Unit :=
  let (plan, stop) := target
  let status := (statuses.get? stop.brokerOrderId).join
  let value := (values.get? plan.threshold.ticker).getD 0
  if status ≠ some replaceableOrderStatus then
    let shown := orUnknown status
    Realign.record .skipped target
      ("broker order status is " ++ shown ++ ", not " ++ replaceableOrderStatus)
      (some ("order_status", shown))
  else if value ≤ plan.stopCents * plan.threshold.quantity then
    let price := dollars ((value : ℚ) / plan.threshold.quantity)
    Realign.record .refused target
      ("decided stop " ++ dollars plan.stopCents ++ " is at or above the price " ++ price)
      (some ("price", price))
  else do
    let s ← get
    let key := freeBrokerStopOrderKey s.graph plan.threshold.positionRef plan.threshold.ticker
    let answer := broker.replaceStop stop.brokerOrderId plan.stopCents key
    modify fun s => { s with calls := s.calls ++ [⟨plan, stop, key, answer⟩] }
    match answer with
    | .error text => Realign.record .failed target text
    | .ok fill => recordReplacement now target key fill

/-- Replace each protected position's live stop that rests off its decided price. -/
def realignBrokerStops (broker : StopBroker) (now : Timestamp) (holdings : List Holding)
    (plans : List BrokerStopThresholdPlan) : Realign Unit := do
  let s ← get
  match mismatched s.graph plans with
  | [] => pure ()
  | targets =>
    match ← readOrderStatuses broker targets with
    | none => pure ()
    | some statuses =>
      targets.forM (realignStop broker now statuses (marketValues holdings))

/-- The positions that a placement found protected: one plan for each position, in the quantity that
the broker holds. -/
structure ProtectedPlans (holdings : List Holding) where
  plans : List BrokerStopThresholdPlan
  distinct : (plans.map fun plan => plan.threshold.positionRef).Nodup
  held : ∀ plan ∈ plans, 0 < plan.threshold.quantity ∧
    ∃ h ∈ holdings, h.ticker = plan.threshold.ticker ∧ h.quantity = plan.threshold.quantity

end TradingAgents.Execution
