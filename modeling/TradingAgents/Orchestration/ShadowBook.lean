import Mathlib
import TradingAgents.Forecaster.BarrierSettlement
import TradingAgents.Orchestration.FillOutcomes
import TradingAgents.ProofKit.StableSort

/-! The shadow book: every recommendation of the analyst against the price some trading days later,
read off the market snapshots that the graph holds.  A price is the one that the earliest snapshot
shows of a day; the trading days are those that some snapshot shows a bar of. -/

namespace TradingAgents.Orchestration

open Kernel ProofKit ProofKit.Fallible

/-- A close of a market snapshot; a day is its ordinal. -/
structure ShadowBar where
  ticker : String
  barDate : Int
  close : ℚ
  close_pos : 0 < close

/-- What the shadow book reads with the contracts and the standard library: the bars of a stored
snapshot, if it is valid, and the day of a time stamp. -/
structure ShadowReaders where
  marketBars : Value Document → Option (List ShadowBar)
  stampDate : String → Option Int

inductive Disposition where
  | taken
  | blockedCapacity
  | blockedOther
  | notActionable
deriving DecidableEq, Repr

inductive OutcomeStatus where
  | scored
  | unpriceable
  | notYetElapsed
deriving DecidableEq, Repr

/-- One recommendation evaluated at one forward horizon. -/
structure ShadowOutcome where
  recommendationRef : String
  analystRunId : String
  asOf : Int
  ticker : String
  action : String
  confidence : ℚ
  technicalScore : ℚ
  horizon : Int
  disposition : Disposition
  dispositionReason : Option String
  status : OutcomeStatus
  referencePrice : Option ℚ
  forwardPrice : Option ℚ
  forwardReturn : Option ℚ
deriving DecidableEq

namespace Shadow

def marketDataLabel : String := "MarketData"
def scanRunLabel : String := "ScanRun"
def derivedFrom : String := "DERIVED_FROM"
def analystRunLabel : String := "AnalystRun"
def recommendationLabel : String := "Recommendation"
def pmRunLabel : String := "PMRun"
def capacityReason : String := "max_positions"

/-! ### Prices -/

/-- The closes by ticker and day, and the days that some bar bears. -/
structure History where
  closes : Dict String (Dict Int ℚ)
  dates : List Int
  nodup : dates.Nodup

def History.empty : History := ⟨.empty, [], List.nodup_nil⟩

def setDefault (d : Dict Int ℚ) (k : Int) (v : ℚ) : Dict Int ℚ :=
  match d.get? k with
  | some _ => d
  | none => d.set k v

/-- One bar: its day counts as a trading day, and its close if there is none of that day. -/
def recordBar (h : History) (bar : ShadowBar) : History where
  closes := h.closes.set bar.ticker
    (setDefault ((h.closes.get? bar.ticker).getD .empty) bar.barDate bar.close)
  dates := h.dates.insert bar.barDate
  nodup := h.nodup.insert

/-- `MarketData.model_validate` of the snapshot that a node holds. -/
def snapshotBars (r : ShadowReaders) (node : PipelineNode) :
    Except HandlerError (List ShadowBar) := do
  match r.marketBars (← node.require "snapshot") with
  | some bars => .ok bars
  | none => .error (.validation "snapshot")

def recordNode (r : ShadowReaders) (h : History) (node : PipelineNode) :
    Except HandlerError History := do
  let bars ← snapshotBars r node
  pure (bars.foldl recordBar h)

/-- The text by which snapshots are ordered. -/
def windowEnd (node : PipelineNode) : String :=
  match node.props.get? "window_end" with
  | some v => valueText v
  | none => ""

/-- The append-stable price history: the snapshots in the order of their windows. -/
def marketHistory (r : ShadowReaders) (nodes : List PipelineNode) : Except HandlerError History :=
  -- the sort reads the window of every node first
  if nodes.all fun node => (node.props.get? "window_end").isSome then
    (nodes.insertionSort fun a b =>
      toLex (windowEnd a, a.key) ≤ toLex (windowEnd b, b.key)).foldlM (recordNode r) .empty
  else .error (.keyError "window_end")

/-- The days in order. -/
def History.tradingDates (h : History) : List Int := h.dates.insertionSort (· ≤ ·)

/-- The close of a ticker on a day. -/
def History.price (h : History) (ticker : String) (day : Int) : Option ℚ :=
  ((h.closes.get? ticker).getD .empty).get? day

/-- The snapshot that an analyst run consumed. -/
def sourceMarket (r : ShadowReaders) (g : PipelineGraph) (analystRun : PipelineNode) :
    Except HandlerError (Option (List ShadowBar)) := do
  let scanId ← analystRun.require "source_scan_run_id"
  match g.getNode scanRunLabel (valueText scanId) with
  | none => .ok none
  | some scanRun =>
    match (g.descendants scanRun.nodeKey 1 (some [derivedFrom])).head? with
    | none => .ok none
    | some marketNode => do
      let bars ← snapshotBars r marketNode
      pure (some bars)

/-- The last close at or before the day of the analyst; that of the first of several bars of one
day. -/
def referencePrice (market : Option (List ShadowBar)) (ticker : String) (asOf : Int) : Option ℚ :=
  (((market.getD []).filter fun bar =>
    decide (bar.ticker = ticker) && decide (bar.barDate ≤ asOf)).maxOn? ShadowBar.barDate).map
      ShadowBar.close

/-- The trading day that many trading days after the recommendation. -/
def targetDate (tradingDates : List Int) (asOf horizon : Int) : Option Int :=
  let future := tradingDates.filter fun day => decide (asOf < day)
  if horizon ≤ future.length then future[horizon.toNat - 1]? else none

/-! ### Joins -/

/-- The order set that a PM run holds. -/
def orderIntentSet (node : PipelineNode) : Except HandlerError OrderIntentSet := do
  match ← node.require "order_intent_set" with
  | .doc (.orderIntentSet orders) => .ok orders
  | _ => .error (.validation "order_intent_set")

/-- One recommendation, under the analyst run that its key names. -/
def groupRecommendation (grouped : Dict String (List PipelineNode)) (node : PipelineNode) :
    Except HandlerError (Dict String (List PipelineNode)) := do
  let ticker ← node.require "ticker"
  let suffix := (":" ++ valueText ticker).toList
  if suffix.isSuffixOf node.key.toList then
    let runId := String.ofList (node.key.toList.take (node.key.toList.length - suffix.length))
    match grouped.get? runId with
    | some nodes => pure (grouped.set runId (nodes ++ [node]))
    | none => .error (.validation ("Recommendation " ++ node.key ++ " has no matching AnalystRun"))
  else .error (.validation ("malformed Recommendation key: " ++ node.key))

/-- The recommendations of each analyst run. -/
def recommendationsByAnalyst (g : PipelineGraph) (analystRuns : List PipelineNode) :
    Except HandlerError (Dict String (List PipelineNode)) := do
  let grouped ← (g.listNodes recommendationLabel).foldlM groupRecommendation
    (.ofList (analystRuns.map fun node => (node.key, [])))
  pure (grouped.mapValues fun nodes => nodes.insertionSort fun a b => a.key ≤ b.key)

/-- The order set of each analyst run; the last PM run by key wins. -/
def pmOrdersByAnalyst (g : PipelineGraph) : Except HandlerError (Dict String OrderIntentSet) :=
  ((g.listNodes pmRunLabel).insertionSort fun a b => a.key ≤ b.key).foldlM (fun orders node =>
    match node.props.get? "source_analyst_run_id" with
    | none => pure orders
    | some runId => do
      let set ← orderIntentSet node
      pure (orders.set (valueText runId) set)) .empty

/-! ### Outcomes -/

def disposition (ticker : String) (orders : Option OrderIntentSet) : Disposition × Option String :=
  match orders with
  | none => (.notActionable, none)
  | some orders =>
    if orders.approved.any fun order => decide (order.ticker = ticker) then (.taken, none)
    else
      match (orders.rejected.find? fun item => decide (item.ticker = ticker)).map
          RejectedOrder.reason with
      | none => (.notActionable, none)
      | some reason =>
        if reason = capacityReason then (.blockedCapacity, some reason)
        else (.blockedOther, some reason)

/-- The status, forward price and return of an outcome by a price history. -/
def priced (h : History) (o : ShadowOutcome) : ShadowOutcome :=
  let target := targetDate h.tradingDates o.asOf o.horizon
  let forward := target.bind (h.price o.ticker)
  match o.referencePrice, target, forward with
  | some reference, some _, some forward =>
    { o with
      status := .scored
      forwardPrice := some forward
      forwardReturn := some (forward / reference - 1) }
  | some _, none, _ =>
    { o with status := .notYetElapsed, forwardPrice := none, forwardReturn := none }
  | _, _, _ => { o with status := .unpriceable, forwardPrice := none, forwardReturn := none }

/-- What the outcomes of one recommendation share. -/
structure OutcomeContext where
  analystRun : PipelineNode
  recommendation : PipelineNode
  ticker : String
  reference : Option ℚ
  asOf : Int
  disposition : Disposition
  reason : Option String

def outcome (h : History) (c : OutcomeContext) (horizon : Int) :
    Except HandlerError ShadowOutcome := do
  let action ← c.recommendation.require "action"
  let confidence ← Forecaster.requireFloat c.recommendation "confidence"
  let technicalScore ← Forecaster.requireFloat c.recommendation "technical_score"
  pure (priced h {
    recommendationRef := c.recommendation.label ++ ":" ++ c.recommendation.key
    analystRunId := c.analystRun.key
    asOf := c.asOf
    ticker := c.ticker
    action := valueText action
    confidence
    technicalScore
    horizon
    disposition := c.disposition
    dispositionReason := c.reason
    status := .unpriceable
    referencePrice := c.reference
    forwardPrice := none
    forwardReturn := none })

/-- The outcomes of one recommendation, after those collected so far. -/
def recommendationOutcomes (h : History) (horizons : List Int) (analystRun : PipelineNode)
    (market : Option (List ShadowBar)) (orders : Option OrderIntentSet) (asOf : Int)
    (outcomes : List ShadowOutcome) (recommendation : PipelineNode) :
    Except HandlerError (List ShadowOutcome) := do
  let ticker ← recommendation.require "ticker"
  let c : OutcomeContext := {
    analystRun
    recommendation
    ticker := valueText ticker
    reference := referencePrice market (valueText ticker) asOf
    asOf
    disposition := (disposition (valueText ticker) orders).1
    reason := (disposition (valueText ticker) orders).2 }
  horizons.foldlM (fun outcomes horizon => do
    let o ← outcome h c horizon
    pure (outcomes ++ [o])) outcomes

/-- The outcomes of one analyst run, after those collected so far. -/
def runOutcomes (r : ShadowReaders) (g : PipelineGraph) (h : History) (horizons : List Int)
    (recommendations : Dict String (List PipelineNode)) (pmOrders : Dict String OrderIntentSet)
    (outcomes : List ShadowOutcome) (analystRun : PipelineNode) :
    Except HandlerError (List ShadowOutcome) :=
  match (recommendations.get? analystRun.key).getD [] with
  | [] => pure outcomes
  | runRecommendations => do
    let market ← sourceMarket r g analystRun
    let createdAt ← analystRun.require "created_at"
    match r.stampDate (valueText createdAt) with
    | none => .error (.validation "created_at")
    | some asOf =>
      runRecommendations.foldlM (recommendationOutcomes h horizons analystRun market
        (pmOrders.get? analystRun.key) asOf) outcomes

/-- The text by which analyst runs are ordered. -/
def createdText (node : PipelineNode) : String :=
  match node.props.get? "created_at" with
  | some v => valueText v
  | none => ""

/-- The analyst runs in the order of their creation. -/
def analystRuns (g : PipelineGraph) : List PipelineNode :=
  (g.listNodes analystRunLabel).insertionSort fun a b =>
    toLex (createdText a, a.key) ≤ toLex (createdText b, b.key)

/-- Reconstruct all recommendation outcomes. -/
def deriveShadowBook (r : ShadowReaders) (g : PipelineGraph) (horizons : List Int) :
    Except HandlerError (List ShadowOutcome) := do
  if horizons.isEmpty || horizons.any fun horizon => decide (horizon < 1) then
    .error (.validation "horizons must contain positive trading-day counts")
  else
    let recommendations ← recommendationsByAnalyst g (analystRuns g)
    let h ← marketHistory r (g.listNodes marketDataLabel)
    let pmOrders ← pmOrdersByAnalyst g
    (analystRuns g).foldlM (runOutcomes r g h horizons recommendations pmOrders) []

end Shadow

end TradingAgents.Orchestration
