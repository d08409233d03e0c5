import Mathlib
import TradingAgents.Contracts.PositionBasis
import TradingAgents.Contracts.StopWidth
import TradingAgents.Execution.StopWrites
import TradingAgents.ProofKit.Grouping

/-! The stop level of a held position as three agents compute it: execution for the stop that it
places at the broker, the shared contract for the analyst, and the monitor for its exit.  The first
two take the weighted price of the ticker's lots, the monitor the lot's own. -/

namespace TradingAgents.Execution

open Kernel ProofKit BrokerLifecycle BrokerStops Positions StopWidth

variable (p : Numerals) (digest : String → String)

/-! ### The threshold of a ticker -/

/-- The stop inputs of one active position. -/
structure StopLot where
  quantity : Int
  openedPriceCents : Int
  stopPct : ℚ
  stopPctSource : StopWidthSource
deriving DecidableEq

/-- The price of the lots together, weighted by quantity and rounded to the cent. -/
def weightedPriceCents (lots : List StopLot) : Int :=
  let quantity : Int := (lots.map StopLot.quantity).sum
  let numerator : Int := (lots.map fun lot => lot.openedPriceCents * lot.quantity).sum
  roundHalfUp ((numerator : ℚ) / quantity)

/-- The threshold of the lots of one ticker, if they carry one width and a positive quantity. -/
def thresholdOf (ticker positionRef : String) (lots : List StopLot) :
    Except HandlerError PositionStopThreshold :=
  match (lots.map StopLot.stopPct).dedup with
  | [stopPct] =>
    if (lots.map StopLot.quantity).sum ≤ 0 then
      .error (.validation ("active lots for " ++ ticker ++ " carry non-positive quantity"))
    else
      .ok ⟨ticker, (lots.map StopLot.quantity).sum, positionRef, weightedPriceCents lots, stopPct⟩
  | _ =>
    .error (.validation ("active lots for " ++ ticker ++ " carry different stop_pct values"))

def lacksInputs (ticker : String) : HandlerError :=
  .validation ("active lot for " ++ ticker ++ " lacks stop threshold inputs")

def sortedByKey (nodes : List PipelineNode) : List PipelineNode :=
  nodes.insertionSort fun a b => a.key ≤ b.key

/-- The groups of a book in the order of their tickers. -/
def sortedGroups (groups : Dict String (List PipelineNode)) : List (String × List PipelineNode) :=
  groups.entries.insertionSort fun a b => a.1 ≤ b.1

/-! ### The shared contract -/

def stopLot (g : PipelineGraph) (ticker : String) (n : PipelineNode) :
    Except HandlerError StopLot :=
  let read : Except HandlerError StopLot := do
    let quantity ← p.intOf (← n.require "quantity")
    let opened ← p.intOf (← n.require "opened_price_cents")
    let decided ← decidedStopPct p g n none
    pure ⟨quantity, opened, decided.stopPct, decided.source⟩
  match read with
  | .ok lot => .ok lot
  | .error _ => .error (lacksInputs ticker)

def stopThreshold (g : PipelineGraph) (group : String × List PipelineNode) :
    Except HandlerError PositionStopThreshold := do
  let nodes := sortedByKey group.2
  let lots ← nodes.mapM (stopLot p g group.1)
  thresholdOf group.1 (positionRefForKeys digest (nodes.map Node.key)) lots

/-- The active positions under their tickers; one without a ticker raises. -/
def activeNodesByTicker (g : PipelineGraph) :
    Except HandlerError (Dict String (List PipelineNode)) := do
  let named ← (activePositionNodes g).mapM fun n => do
    let ticker ← tickerOf n
    pure (ticker, n)
  pure (groupBy Prod.fst Prod.snd named)

def openPositionStopThresholds (g : PipelineGraph) :
    Except HandlerError (List PositionStopThreshold) := do
  let groups ← activeNodesByTicker g
  (sortedGroups groups).mapM (stopThreshold p digest g)

structure OpenPosition where
  ticker : String
  quantity : Int
  positionRef : String
deriving DecidableEq

def openPosition (group : String × List PipelineNode) : Except HandlerError OpenPosition := do
  let quantities ← group.2.mapM fun n => do
    p.intOf (← n.require "quantity")
  pure ⟨group.1, quantities.sum, positionRefForKeys digest (group.2.map Node.key)⟩

/-- The held tickers with their quantities together. -/
def openPositions (g : PipelineGraph) : Except HandlerError (List OpenPosition) := do
  let groups ← activeNodesByTicker g
  (sortedGroups groups).mapM (openPosition p digest)

/-! ### Execution -/

/-- A property as an integer; a truth value is refused. -/
def intProp (n : PipelineNode) (name : String) : Except HandlerError Int := do
  match ← n.require name with
  | .bool _ => .error (.validation name)
  | v => p.intOf v

/-- One lot of a plan.  What it lacks is reported under its ticker, except an absent property, which
is not caught. -/
def planLot (g : PipelineGraph) (ticker : String) (fallback : ℚ) (n : PipelineNode) :
    Except HandlerError StopLot :=
  let read : Except HandlerError StopLot := do
    let quantity ← intProp p n "quantity"
    let opened ← intProp p n "opened_price_cents"
    let decided ← decidedStopPct p g n (some fallback)
    pure ⟨quantity, opened, decided.stopPct, decided.source⟩
  match read with
  | .ok lot => .ok lot
  | .error (.validation _) => .error (lacksInputs ticker)
  | .error e => .error e

/-- The weakest source of the lots. -/
def weakestSource (lots : List StopLot) : StopPctSource :=
  if ∃ lot ∈ lots, lot.stopPctSource = .fallback then .fallback
  else if ∃ lot ∈ lots, lot.stopPctSource = .lineage then .lineage else .position

def thresholdPlan (g : PipelineGraph) (refs : Dict String String) (fallback : ℚ)
    (group : String × List PipelineNode) : Except HandlerError BrokerStopThresholdPlan := do
  let ref ← match refs.get? group.1 with
    | some ref => .ok ref
    | none => .error (.keyError group.1)
  let lots ← (sortedByKey group.2).mapM (planLot p g group.1 fallback)
  let threshold ← thresholdOf group.1 ref lots
  pure ⟨threshold, weakestSource lots, .activePosition⟩

structure BrokerStopThresholdPlans where
  plans : List BrokerStopThresholdPlan
  errors : List (String × String)

/-- One ticker's plan, or the reason why it has none. -/
def planGroup (g : PipelineGraph) (refs : Dict String String) (fallback : ℚ)
    (planned : BrokerStopThresholdPlans) (group : String × List PipelineNode) :
    Except HandlerError BrokerStopThresholdPlans :=
  match thresholdPlan p g refs fallback group with
  | .ok plan => .ok { planned with plans := planned.plans ++ [plan] }
  | .error (.validation reason) =>
    .ok { planned with errors := planned.errors ++ [(group.1, reason)] }
  | .error e => .error e

def brokerStopThresholds (g : PipelineGraph) (fallback : ℚ) :
    Except HandlerError BrokerStopThresholdPlans := do
  let named := (activePositionNodes g).filter fun n => decide (textOr (n.get "ticker") ≠ "")
  let groups := groupBy (fun n => textOr (n.get "ticker")) id named
  let held ← openPositions p digest g
  let refs := Dict.ofList (held.map fun position => (position.ticker, position.positionRef))
  (sortedGroups groups).foldlM (planGroup p g refs fallback) ⟨[], []⟩

/-! ### The monitor -/

/-- What the exit rule reads of a position. -/
structure ExitPosition where
  openedPriceCents : Int
  stopPct : ℚ
deriving DecidableEq

def exitPosition (g : PipelineGraph) (n : PipelineNode) : Except HandlerError ExitPosition := do
  let opened ← p.intOf (← n.require "opened_price_cents")
  let decided ← decidedStopPct p g n none
  pure ⟨opened, decided.stopPct⟩

/-- The level at or below which the monitor sees the stop breached. -/
def ExitPosition.stopCents (e : ExitPosition) : Int := stopPriceCents e.openedPriceCents e.stopPct

def PositionStopThreshold.stopCents (t : PositionStopThreshold) : Int :=
  stopPriceCents t.openedPriceCents t.stopPct

/-! ### One level -/

/-- Position nodes as their writers store them: a named ticker, a positive quantity and a price. -/
def Written (g : PipelineGraph) : Prop :=
  ∀ n ∈ activePositionNodes g, ∃ row, row? n = some row ∧ row.ticker ≠ "" ∧ 0 < row.quantity

/-- A position whose width is decided without a fallback. -/
def HasStopInputs (g : PipelineGraph) (n : PipelineNode) : Prop :=
  ∃ d, decidedStopPct p g n none = .ok d

/-- The stop placed at the broker for a position's ticker, the contract's threshold and the
monitor's exit are at one number of cents. -/
def LevelsAgree (g : PipelineGraph) (fallback : ℚ) (n : PipelineNode) : Prop :=
  ∃ planned plan thresholds threshold exit,
    brokerStopThresholds p digest g fallback = .ok planned ∧ plan ∈ planned.plans ∧
    plan.threshold.ticker = textOr (n.get "ticker") ∧
    openPositionStopThresholds p digest g = .ok thresholds ∧ threshold ∈ thresholds ∧
    threshold.ticker = textOr (n.get "ticker") ∧ exitPosition p g n = .ok exit ∧
    plan.stopCents = threshold.stopCents ∧ threshold.stopCents = exit.stopCents

/-- Any two open positions of one ticker have one width, and one stop level at their own prices. -/
def OneLevel (g : PipelineGraph) : Prop :=
  ∀ n ∈ activePositionNodes g, ∀ m ∈ activePositionNodes g, ∀ row row' d d',
    row? n = some row → row? m = some row' → row.ticker = row'.ticker →
    decidedStopPct p g n none = .ok d → decidedStopPct p g m none = .ok d' →
    d.stopPct = d'.stopPct ∧
      stopPriceCents row.openedPriceCents d.stopPct =
        stopPriceCents row'.openedPriceCents d'.stopPct

end TradingAgents.Execution
