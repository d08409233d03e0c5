import TradingAgents.Contracts.BrokerStops
import TradingAgents.Execution.Orders

/-! The graph facts of broker stops: the Fill of a stop submission, the BrokerStopOrder fact of an
accepted one, and the markers that end a fact.  What the broker answers is an argument of each
operation. -/

namespace TradingAgents.Execution

open Kernel ProofKit BrokerLifecycle BrokerStops

def stopFillEdge : String := "STOPS_WITH"

/-- A time as `datetime.now().isoformat()` gives it, which is never empty. -/
structure Timestamp where
  text : String
  nonempty : text ≠ "" := by decide
deriving DecidableEq

/-- Aggregated stop threshold inputs for one held ticker; `stopPct` is the exact value of the
stored float. -/
structure PositionStopThreshold where
  ticker : String
  quantity : Int
  positionRef : String
  openedPriceCents : Int
  stopPct : ℚ
deriving DecidableEq

inductive StopPctSource where
  | lineage
  | position
  | fallback
deriving DecidableEq, Repr

def StopPctSource.value : StopPctSource → String
  | lineage => "lineage"
  | position => "position"
  | fallback => "fallback"

inductive StopDerivation where
  | activePosition
  | pendingFill
deriving DecidableEq, Repr

def StopDerivation.value : StopDerivation → String
  | activePosition => "active_position"
  | pendingFill => "pending_fill"

/-- One threshold plus the provenance of the stop it will place. -/
structure BrokerStopThresholdPlan where
  threshold : PositionStopThreshold
  stopPctSource : StopPctSource
  derivedFrom : StopDerivation
deriving DecidableEq

/-- A number rounded to an integer, ties to the even one. -/
def roundHalfEven (q : ℚ) : Int :=
  let below := q.floor
  if q - below < 1 / 2 then below
  else if 1 / 2 < q - below then below + 1
  else if below % 2 = 0 then below else below + 1

/-- The integer-cent stop threshold of an opened position. -/
def stopPriceCents (openedPriceCents : Int) (stopPct : ℚ) : Int :=
  openedPriceCents * (10000 - roundHalfEven (stopPct * 10000)) / 10000

def BrokerStopThresholdPlan.stopCents (plan : BrokerStopThresholdPlan) : Int :=
  stopPriceCents plan.threshold.openedPriceCents plan.threshold.stopPct

def stopFillProps (plan : BrokerStopThresholdPlan) (key : String) (fill : BrokerFill) :
    Props Document :=
  .ofList [
    ("ticker", .str plan.threshold.ticker),
    ("side", .str Side.sell.value),
    ("quantity", .int plan.threshold.quantity),
    ("price_cents", .int plan.stopCents),
    ("price_currency", .str fill.price.currency),
    ("broker_order_id", .str fill.brokerOrderId),
    ("status", .str fill.status.value),
    ("reason", textOrNull fill.reason),
    ("position_ref", .str plan.threshold.positionRef),
    ("stop_order_key", .str key),
    ("stop_pct", .num plan.threshold.stopPct),
    ("stop_pct_source", .str plan.stopPctSource.value),
    ("derived_from", .str plan.derivedFrom.value)]

/-- Whether a stop submission must open a new attempt. -/
def forcesNewAttempt (g : PipelineGraph) (key : String) (fill : BrokerFill) : Bool :=
  decide (fill.status = .rejected) && !(fillAttemptChain g key).isEmpty

/-- Append the stop submission attempt as an execution-owned Fill. -/
def writeStopFill (g : PipelineGraph) (plan : BrokerStopThresholdPlan) (key : String)
    (fill : BrokerFill) : Except HandlerError (PipelineGraph × PipelineNode) :=
  let attempt := selectFillAttempt g key (stopFillProps plan key fill) (forcesNewAttempt g key fill)
  liftGraph (g.mergeNode fillLabel attempt.key attempt.props)

def stopOrderProps (plan : BrokerStopThresholdPlan) (fill : BrokerFill) (placedAt : Timestamp)
    (replaces : Option BrokerStopOrder) : Props Document :=
  .ofList ([
    ("ticker", .str plan.threshold.ticker),
    ("position_ref", .str plan.threshold.positionRef),
    ("stop_price_cents", .int plan.stopCents),
    ("stop_pct", .num plan.threshold.stopPct),
    ("stop_pct_source", .str plan.stopPctSource.value),
    ("derived_from", .str plan.derivedFrom.value),
    ("broker_order_id", .str fill.brokerOrderId),
    ("placed_at", .str placedAt.text)] ++
    match replaces with
    | none => []
    | some old => [("replaces", .str old.key), ("replaces_broker_order_id", .str old.brokerOrderId)])

/-- Append the BrokerStopOrder fact of an accepted stop and join its Fill to it. -/
def writeStopOrder (g : PipelineGraph) (fillNode : PipelineNode) (plan : BrokerStopThresholdPlan)
    (key : String) (fill : BrokerFill) (placedAt : Timestamp) (replaces : Option BrokerStopOrder) :
    Except HandlerError PipelineGraph := do
  let (g, stop) ← liftGraph (g.mergeNode brokerStopOrderLabel key
    (stopOrderProps plan fill placedAt replaces))
  liftGraph (g.addEdge fillNode.nodeKey stop.nodeKey stopFillEdge)

/-- Record one broker-native stop that was submitted under `key`. -/
def placeStop (g : PipelineGraph) (plan : BrokerStopThresholdPlan) (key : String)
    (fill : BrokerFill) (now : Timestamp) : Except HandlerError PipelineGraph := do
  let (g, fillNode) ← writeStopFill g plan key fill
  if fill.status = .rejected then pure g
  else writeStopOrder g fillNode plan key fill now none

/-- The cancellation fact of a stop that the broker cancelled. -/
def cancelStop (g : PipelineGraph) (order : BrokerStopOrder) (now : Timestamp) :
    Except HandlerError PipelineGraph := do
  let (g, _) ← liftGraph (g.mergeNode brokerStopOrderLabel order.key
    (.ofList [("cancelled_at", .str now.text)]))
  pure g

/-- Append the replacement marker to the old fact. -/
def markReplaced (g : PipelineGraph) (old : BrokerStopOrder) (key : String) (fill : BrokerFill)
    (now : Timestamp) : Except HandlerError PipelineGraph := do
  let (g, _) ← liftGraph (g.mergeNode brokerStopOrderLabel old.key (.ofList [
    ("replaced_at", .str now.text),
    ("replaced_by", .str key),
    ("replaced_by_broker_order_id", .str fill.brokerOrderId)]))
  pure g

/-- Record a stop that the broker moved in place to `key`. -/
def replaceStop (g : PipelineGraph) (plan : BrokerStopThresholdPlan) (old : BrokerStopOrder)
    (key : String) (fill : BrokerFill) (now : Timestamp) : Except HandlerError PipelineGraph := do
  let (g, fillNode) ← writeStopFill g plan key fill
  let g ← writeStopOrder g fillNode plan key fill now (some old)
  markReplaced g old key fill now

/-! ### What the writes change -/

/-- The Fill of a submission under `key` is recorded under that key itself: no Fill stands there
yet, or the one there agrees with the submission. -/
def RecordsUnderKey (g : PipelineGraph) (plan : BrokerStopThresholdPlan) (key : String)
    (fill : BrokerFill) : Prop :=
  attemptFits g key (stopFillProps plan key fill) (forcesNewAttempt g key fill) 0 = true

instance (g : PipelineGraph) (plan : BrokerStopThresholdPlan) (key : String) (fill : BrokerFill) :
    Decidable (RecordsUnderKey g plan key fill) := inferInstanceAs (Decidable (_ = true))

/-- The Fill node that a stop submission under `key` wrote. -/
structure StopFillWritten (g g' : PipelineGraph) (key : String) (fill : BrokerFill)
    (node : PipelineNode) : Prop where
  grows : FillsGrow g g'
  extends_ : g.Extends g'
  edges : g'.edges = g.edges
  stands : g'.getNode fillLabel node.key = some node
  label : node.label = fillLabel
  brokerOrderId : node.props.get? "broker_order_id" = some (.str fill.brokerOrderId)
  brokerKey : node.props.get? "broker_idempotency_key" = some (.str key)
  status : node.props.get? "status" = some (.str fill.status.value)
  brokerStatus : node.props.get? "broker_status" =
    (g.getNode fillLabel node.key).bind fun current => current.props.get? "broker_status"

theorem attemptProps_get? (plan : BrokerStopThresholdPlan) (key : String) (fill : BrokerFill)
    (n : Nat) :
    let props := withAttemptProps (stopFillProps plan key fill) key n
    props.get? "broker_order_id" = some (.str fill.brokerOrderId) ∧
      props.get? "broker_idempotency_key" = some (.str key) ∧
      props.get? "status" = some (.str fill.status.value) ∧ props.get? "broker_status" = none := by
  simp [withAttemptProps, stopFillProps, Dict.ofList]

theorem writeStopFill_ok {g g' : PipelineGraph} {plan : BrokerStopThresholdPlan} {key : String}
    {fill : BrokerFill} {node : PipelineNode}
    (h : writeStopFill g plan key fill = .ok (g', node)) :
    StopFillWritten g g' key fill node ∧ (RecordsUnderKey g plan key fill → node.key = key) := by
  unfold writeStopFill at h
  simp only [liftGraph_eq_ok] at h
  obtain ⟨hkey, hprops, -, hmin⟩ := selectFillAttempt_spec g key (stopFillProps plan key fill)
    (forcesNewAttempt g key fill)
  generalize selectFillAttempt g key (stopFillProps plan key fill) (forcesNewAttempt g key fill) =
    attempt at h hkey hprops hmin
  obtain ⟨hid, hbkey, hstatus, hbstatus⟩ := attemptProps_get? plan key fill attempt.ordinal
  rw [← hprops] at hid hbkey hstatus hbstatus
  have hget := Graph.mergeNode_get? h
  have hgrow := mergeFill_grows hbstatus h
  have hext := Graph.mergeNode_extends h
  obtain ⟨rfl, hlabel, hnkey, -⟩ := Graph.mergeNode_ok h
  refine ⟨⟨hgrow, hext, rfl, by rw [Graph.getNode_put, if_pos ⟨hlabel.symm, rfl⟩], hlabel,
    ?_, ?_, ?_, ?_⟩, fun hrecords => ?_⟩
  · rw [hget, hid]; rfl
  · rw [hget, hbkey]; rfl
  · rw [hget, hstatus]; rfl
  · rw [hget, hbstatus, hnkey]; rfl
  · have hzero : attempt.ordinal = 0 := by
      by_contra hne
      have := hmin 0 (Nat.pos_of_ne_zero hne)
      rw [hrecords] at this; cases this
    rw [hnkey, hkey, hzero]
    rfl

/-- The fact that an accepted stop under a free key wrote, joined to its Fill. -/
structure StopOrderWritten (g g' : PipelineGraph) (fillNode stop : PipelineNode) (key : String) :
    Prop where
  nodes : ∀ label k, g'.getNode label k =
    if label = brokerStopOrderLabel ∧ k = key then some stop else g.getNode label k
  edges : ∀ e, e ∈ g'.edges ↔ e = ⟨fillNode.nodeKey, (brokerStopOrderLabel, key), stopFillEdge⟩ ∨
    e ∈ g.edges
  extends_ : g.Extends g'

theorem writeStopOrder_ok {g g' : PipelineGraph} {fillNode : PipelineNode}
    {plan : BrokerStopThresholdPlan} {key : String} {now : Timestamp} {fill : BrokerFill}
    {replaces : Option BrokerStopOrder} (hfree : g.getNode brokerStopOrderLabel key = none)
    (h : writeStopOrder g fillNode plan key fill now replaces = .ok g') :
    StopOrderWritten g g' fillNode
      ⟨brokerStopOrderLabel, key, stopOrderProps plan fill now replaces, 1⟩ key := by
  obtain ⟨⟨g₁, stop⟩, hm, h⟩ := Fallible.bind_eq_ok.mp h
  rw [liftGraph_eq_ok] at hm
  have hext := Graph.mergeNode_extends hm
  rw [Graph.mergeNode_fresh _ hfree] at hm
  cases hm
  rw [liftGraph_eq_ok] at h
  obtain ⟨hnodes, -, -, hedges⟩ := Graph.addEdge_ok h
  refine ⟨fun label k => ?_, fun e => ?_, hext.trans (Graph.addEdge_extends h)⟩
  · rw [Graph.getNode_of_nodes_eq hnodes, Graph.getNode_put]
  · rw [hedges, Graph.edges_put]
    split
    · rename_i hin
      constructor
      · exact .inr
      · rintro (rfl | he)
        · exact hin
        · exact he
    · rw [List.mem_append, List.mem_singleton]
      exact or_comm

theorem stopOrderProps_get? (plan : BrokerStopThresholdPlan) (fill : BrokerFill) (now : Timestamp)
    (replaces : Option BrokerStopOrder) :
    (stopOrderProps plan fill now replaces).get? "broker_order_id" = some (.str fill.brokerOrderId) ∧
      (stopOrderProps plan fill now replaces).get? "position_ref" =
        some (.str plan.threshold.positionRef) ∧
      (stopOrderProps plan fill now replaces).get? "cancelled_at" = none ∧
      (stopOrderProps plan fill now replaces).get? "replaced_at" = none := by
  cases replaces <;> simp [stopOrderProps, Dict.ofList]

end TradingAgents.Execution
