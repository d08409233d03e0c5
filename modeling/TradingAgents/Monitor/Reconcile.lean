import TradingAgents.Contracts.Positions
import TradingAgents.ProofKit.Fallible
import TradingAgents.ProofKit.Text

/-! Broker-snapshot adoption for monitor-owned Position nodes, with the other write of the monitor
that makes a Position. -/

namespace TradingAgents.Monitor

open Kernel ProofKit Positions

/-- The exit-rule defaults that an adopted position carries. -/
structure MonitorSettings where
  defaultStopPct : ℚ := 5 / 100
  defaultTargetPct : ℚ := 10 / 100
  defaultHorizonDays : Int := 14

/-- The holdings a snapshot lists: malformed items, blank tickers and empty quantities are
skipped. -/
def holdings (snapshot : PipelineNode) : List SnapshotHolding :=
  match snapshot.get "holdings" with
  | .list items =>
    (items.filterMap fun
      | .doc (.holding h) => some h
      | _ => none).filter fun h => decide (h.ticker ≠ "") && decide (0 < h.quantity)
  | _ => []

def textOf (n : PipelineNode) (name : String) : Except HandlerError String := do
  let v ← n.require name
  match v.str? with
  | some s => pure s
  | none => .error (.validation name)

def intOf (n : PipelineNode) (name : String) : Except HandlerError Int := do
  let v ← n.require name
  match v.int? with
  | some i => pure i
  | none => .error (.validation name)

def positionsByTicker (nodes : List PipelineNode) :
    Except HandlerError (Dict String (List PipelineNode)) :=
  nodes.foldlM (fun grouped n => do
    let ticker ← textOf n "ticker"
    pure (grouped.set ticker ((grouped.get? ticker).getD [] ++ [n]))) .empty

/-- The first candidate with the holding's quantity and average price. -/
def matchingPosition : List PipelineNode → SnapshotHolding →
    Except HandlerError (Option PipelineNode)
  | [], _ => pure none
  | n :: rest, h => do
    let quantity ← intOf n "quantity"
    if quantity ≠ h.quantity then matchingPosition rest h
    else
      let price ← intOf n "opened_price_cents"
      if price = h.avgEntryCents then pure (some n) else matchingPosition rest h

/-- The content-derived key of an adopted holding. -/
def brokerKey (h : SnapshotHolding) : String :=
  "broker:" ++ h.ticker ++ ":" ++ toString h.quantity ++ ":" ++ toString h.avgEntryCents

def brokerProps (runId createdAt : Value Document) (snapshot : PipelineNode) (h : SnapshotHolding)
    (settings : MonitorSettings) : Props Document :=
  .ofList [
    ("run_id", runId),
    ("ticker", .str h.ticker),
    ("opened_price_cents", .int h.avgEntryCents),
    ("quantity", .int h.quantity),
    ("stop_pct", .num settings.defaultStopPct),
    ("target_pct", .num settings.defaultTargetPct),
    ("horizon_days", .int settings.defaultHorizonDays),
    ("opened_at", createdAt),
    ("status", .str "open"),
    ("degraded", .bool true),
    ("provenance", .str "reconciled-from-broker"),
    ("source_snapshot", .str snapshot.key),
    ("broker_market_value_cents", .int h.marketValueCents)]

def createBrokerPosition (g : PipelineGraph) (snapshot : PipelineNode) (h : SnapshotHolding)
    (settings : MonitorSettings) : Except HandlerError (PipelineGraph × PipelineNode) :=
  match g.getNode positionLabel (brokerKey h) with
  | some current => pure (g, current)
  | none => do
    let runId ← snapshot.require "run_id"
    let createdAt ← snapshot.require "created_at"
    liftGraph (g.mergeNode positionLabel (brokerKey h)
      (brokerProps runId createdAt snapshot h settings))

/-- A closure fact on a position, unless the position carried it when it was read. -/
def markClosed (flag : String) (props : Props Document) (g : PipelineGraph) (n : PipelineNode) :
    Except HandlerError PipelineGraph :=
  if flag ∈ n.props.keys then pure g
  else do
    let (g', _) ← liftGraph (g.mergeNode positionLabel n.key props)
    pure g'

def markSuperseded (g : PipelineGraph) (n replacement snapshot : PipelineNode) :
    Except HandlerError PipelineGraph :=
  markClosed "broker_superseded_by"
    (.ofList [("broker_superseded_by", .str replacement.key),
      ("broker_superseded_snapshot", .str snapshot.key)]) g n

def markAbsent (g : PipelineGraph) (n snapshot : PipelineNode) :
    Except HandlerError PipelineGraph :=
  markClosed "broker_absent"
    (.ofList [("broker_absent", .bool true), ("broker_absent_snapshot", .str snapshot.key)]) g n

/-- The position that stands for a holding: the matching candidate, else a broker position. -/
def standingPosition (g : PipelineGraph) (snapshot : PipelineNode) (settings : MonitorSettings)
    (candidates : List PipelineNode) (h : SnapshotHolding) :
    Except HandlerError (PipelineGraph × PipelineNode) := do
  match ← matchingPosition candidates h with
  | some n => pure (g, n)
  | none => createBrokerPosition g snapshot h settings

/-- Adopt one holding: every candidate but the position that stands for it is superseded. -/
def reconcileHolding (snapshot : PipelineNode) (settings : MonitorSettings)
    (activeByTicker : Dict String (List PipelineNode)) (g : PipelineGraph) (h : SnapshotHolding) :
    Except HandlerError PipelineGraph := do
  let candidates := (activeByTicker.get? h.ticker).getD []
  let (g, kept) ← standingPosition g snapshot settings candidates h
  candidates.foldlM (fun g n =>
    if n.key ≠ kept.key then markSuperseded g n kept snapshot else pure g) g

/-- Adopt one fresh broker snapshot into monitor-owned Position nodes. -/
def reconcilePositionsFromSnapshot (g : PipelineGraph) (snapshot : PipelineNode)
    (settings : MonitorSettings) : Except HandlerError PipelineGraph :=
  if (snapshot.get "status").pyEq (.str "fresh") then do
    let rows := holdings snapshot
    let activeByTicker ← positionsByTicker (activePositionNodes g)
    let held := rows.map SnapshotHolding.ticker
    let g ← rows.foldlM (reconcileHolding snapshot settings activeByTicker) g
    activeByTicker.entries.foldlM (fun g p =>
      if p.1 ∈ held then pure g else p.2.foldlM (fun g n => markAbsent g n snapshot) g) g
  else pure g

/-- What the monitor opens a position from. -/
structure PositionDraft where
  runId : String
  ticker : String
  openedPriceCents : Int
  quantity : Int
  stopPct : ℚ
  targetPct : ℚ
  horizonDays : Int
  openedAt : String
  degraded : Bool

def PositionDraft.key (d : PositionDraft) : String := d.runId ++ ":" ++ d.ticker

def PositionDraft.props (d : PositionDraft) : Props Document :=
  .ofList [
    ("run_id", .str d.runId),
    ("ticker", .str d.ticker),
    ("opened_price_cents", .int d.openedPriceCents),
    ("quantity", .int d.quantity),
    ("stop_pct", .num d.stopPct),
    ("target_pct", .num d.targetPct),
    ("horizon_days", .int d.horizonDays),
    ("opened_at", .str d.openedAt),
    ("status", .str "open"),
    ("degraded", .bool d.degraded)]

/-- Idempotently open one Position node and connect it to its fill. -/
def openPosition (g : PipelineGraph) (d : PositionDraft) (fill : PipelineNode) :
    Except HandlerError PipelineGraph :=
  match g.getNode positionLabel d.key with
  | some current => liftGraph (g.addEdge fill.nodeKey current.nodeKey "OPENS")
  | none => do
    let (g', n) ← liftGraph (g.mergeNode positionLabel d.key d.props)
    liftGraph (g'.addEdge fill.nodeKey n.nodeKey "OPENS")

/-! ### Keys -/

theorem brokerKey_injective {h h' : SnapshotHolding} (hk : brokerKey h = brokerKey h') :
    h.ticker = h'.ticker ∧ h.quantity = h'.quantity ∧ h.avgEntryCents = h'.avgEntryCents := by
  have free : ∀ i : Int, ¬ Text.Holds ':' (toString i) := fun i =>
    Text.not_holds_int (by decide) (by decide)
  obtain ⟨hleft, hprice⟩ := Text.split_right (c := ':') (free _) (free _) hk
  obtain ⟨hticker, hquantity⟩ := Text.split_right (c := ':') (free _) (free _) hleft
  exact ⟨by simpa using hticker,
    Text.toString_int_injective hquantity, Text.toString_int_injective hprice⟩

/-! ### Reads -/

theorem textOf_eq_ok {n : PipelineNode} {name s : String} (h : n.get name = .str s) :
    textOf n name = .ok s := by
  rw [textOf, Node.require_of_get h nofun]
  rfl

theorem intOf_eq_ok {n : PipelineNode} {name : String} {i : Int} (h : n.get name = .int i) :
    intOf n name = .ok i := by
  rw [intOf, Node.require_of_get h nofun]
  rfl

end TradingAgents.Monitor
