import TradingAgents.Contracts.PositionBasis
import TradingAgents.Execution.StatusRefresh

/-! The whole refresh of a pending Fill: each read of its order is kept as a fact of its own, a
status goes onto the Fill with its price, and a sell that the broker executed gets its realised
profit.  One reading of the clock stands for those of a pass. -/

namespace TradingAgents.Execution

open Kernel ProofKit BrokerLifecycle Positions

def brokerOrderStatusLabel : String := "BrokerOrderStatus"
def refreshesEdge : String := "REFRESHES"
def executesEdge : String := "EXECUTES"

def orderStatusKey (fillKey now : String) : String :=
  "broker-order-status:" ++ fillKey ++ ":" ++ now

def intOrNull : Option Int → Value Document
  | some n => .int n
  | none => .null

/-- Append one broker status read and link it to the Fill it refreshes. -/
def writeOrderStatus (g : PipelineGraph) (fillNode : PipelineNode) (fill : BrokerFill)
    (now : String) : Except HandlerError PipelineGraph := do
  let (g, status) ← liftGraph (g.mergeNode brokerOrderStatusLabel (orderStatusKey fillNode.key now)
    (.ofList [
      ("fill_key", .str fillNode.key),
      ("ticker", .str fill.ticker),
      ("quantity", .int fill.quantity),
      ("filled_quantity", intOrNull fill.filledQuantity),
      ("broker_order_id", .str fill.brokerOrderId),
      ("status", .str fill.status.value),
      ("reason", textOrNull fill.reason),
      ("price_cents", .int (moneyToCents fill.price)),
      ("created_at", .str now)]))
  liftGraph (g.addEdge status.nodeKey fillNode.nodeKey refreshesEdge)

/-- The price of this refresh's profit: the recorded one unless the read completes the Fill. -/
def exitPriceCents (node : PipelineNode) (fill : BrokerFill) : Int :=
  if completesPartialFill node fill then moneyToCents fill.price
  else ((node.props.get? "broker_price_cents").bind Value.int?).getD (moneyToCents fill.price)

def needsRealizedPnl (node : PipelineNode) (fill : BrokerFill) : Bool :=
  decide (fill.side = .sell) && decide (fill.status = .filled ∨ fill.status = .partially) &&
    ((node.props.get? "realized_pnl_cents").isNone || completesPartialFill node fill) &&
    (node.props.get? "pnl_unresolved_at").isNone

/-- The position a Fill exits, from its own property or from the order it executes. -/
def positionRefFromOrder (g : PipelineGraph) (node : PipelineNode) : Option String :=
  match truthyStr (node.get "position_ref") with
  | some ref => some ref
  | none =>
    match (g.descendants node.nodeKey 1 (some [executesEdge])).head? with
    | none => none
    | some order => truthyStr (order.get "position_ref")

/-- The profit of a read at its exit price, if the entry basis resolves. -/
def resolvedPnl (digest : String → String) (g : PipelineGraph) (node : PipelineNode)
    (fill : BrokerFill) : Except HandlerError (Option Int) :=
  match positionRefFromOrder g node with
  | none => pure none
  | some ref => do
    let basis ← positionBasisForRef digest g ref fill.ticker
    pure (pnlFromBasis basis (executedQuantity fill) (exitPriceCents node fill))

def realizedPnlProps (digest : String → String) (g : PipelineGraph) (node : PipelineNode)
    (fill : BrokerFill) (now : String) : Except HandlerError (Props Document) :=
  if !needsRealizedPnl node fill then pure .empty
  else do
    match ← resolvedPnl digest g node fill with
    | none => pure (.ofList [("pnl_unresolved_at", .str now)])
    | some pnl => pure (.ofList [("realized_pnl_cents", .int pnl)])

/-- Append the read of one Fill and what follows from it. -/
def refreshRead (digest : String → String) (reports : List BrokerFill) (now : String)
    (g : PipelineGraph) (node : PipelineNode) : Except HandlerError PipelineGraph :=
  if !awaitsBroker node then pure g
  else match reportFor reports node with
    | none => pure g
    | some fill => do
      let g ← writeOrderStatus g node fill now
      if fill.status = .pending then pure g
      else do
        let pnl ← realizedPnlProps digest g node fill now
        let props := (brokerStatusProps node fill now).update pnl
        if props.entries = [] then pure g
        else do
          let (g, _) ← liftGraph (g.mergeNode fillLabel node.key props)
          pure g

/-- Refresh every Fill that waits on the broker. -/
def refreshReads (digest : String → String) (g : PipelineGraph) (reports : List BrokerFill)
    (now : String) : Except HandlerError PipelineGraph :=
  (g.listNodes fillLabel).foldlM (refreshRead digest reports now) g

end TradingAgents.Execution
