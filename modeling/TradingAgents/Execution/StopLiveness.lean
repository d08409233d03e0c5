import TradingAgents.Execution.StatusRefresh
import TradingAgents.Execution.StopWrites
import TradingAgents.ProofKit.Runs

/-! Which Fill decides whether a stop fact is live: the system of the operations that write Fills
and stop facts, in any order and with any answers of the broker, and what holds of its runs in which
every accepted stop has its Fill recorded under the stop key itself. -/

namespace TradingAgents.Execution

open Kernel ProofKit BrokerLifecycle BrokerStops

/-- One operation on the Fills and stop facts, with what the broker answered to it; `merge` and
`link` are the writes of other agents. -/
inductive StopOp where
  | submit (fill : BrokerFill) (orderSet : OrderIntentSet)
  | place (plan : BrokerStopThresholdPlan) (fill : BrokerFill) (now : Timestamp)
  | replace (plan : BrokerStopThresholdPlan) (old : BrokerStopOrder) (fill : BrokerFill)
      (now : Timestamp)
  | cancel (order : BrokerStopOrder) (now : Timestamp)
  | refresh (reports : List BrokerFill) (now : String)
  | merge (label key : String) (props : Props Document)
  | link (parent child : NodeKey) (edgeType : String)

/-- A merge by an agent that owns neither the Fills nor the stop facts. -/
def mergeElsewhere (g : PipelineGraph) (label key : String) (props : Props Document) :
    Except HandlerError PipelineGraph :=
  if label = fillLabel ∨ label = brokerStopOrderLabel then .error (.validation label)
  else do
    let (g, _) ← liftGraph (g.mergeNode label key props)
    pure g

/-- An edge by an agent that does not join Fills to stop facts. -/
def linkElsewhere (g : PipelineGraph) (parent child : NodeKey) (edgeType : String) :
    Except HandlerError PipelineGraph :=
  if edgeType = stopFillEdge then .error (.validation edgeType)
  else liftGraph (g.addEdge parent child edgeType)

/-- One operation: a stop is placed under the next free key, if no fact is live, a live fact is
replaced under the first free key, and only live facts are cancelled or replaced. -/
def StopOp.apply (g : PipelineGraph) : StopOp → Except HandlerError PipelineGraph
  | submit fill orderSet => writeFill g fill orderSet
  | place plan fill now =>
    match nextBrokerStopOrderKey g plan.threshold.positionRef plan.threshold.ticker with
    | none => .ok g
    | some key => placeStop g plan key fill now
  | replace plan old fill now =>
    if old ∈ activeBrokerStopOrders g then
      replaceStop g plan old
        (freeBrokerStopOrderKey g plan.threshold.positionRef plan.threshold.ticker) fill now
    else .ok g
  | cancel order now => if order ∈ activeBrokerStopOrders g then cancelStop g order now else .ok g
  | refresh reports now => refreshPendingFills g reports now
  | merge label key props => mergeElsewhere g label key props
  | link parent child edgeType => linkElsewhere g parent child edgeType

/-- Every stop that this operation records as accepted has its Fill recorded under the stop key. -/
def StopOp.Recorded (g : PipelineGraph) : StopOp → Prop
  | place plan fill _ => fill.status ≠ .rejected → ∀ key,
      nextBrokerStopOrderKey g plan.threshold.positionRef plan.threshold.ticker = some key →
        RecordsUnderKey g plan key fill
  | replace plan _ fill _ => RecordsUnderKey g plan
      (freeBrokerStopOrderKey g plan.threshold.positionRef plan.threshold.ticker) fill
  | _ => True

/-- The Fill attempt of a stop fact's own order: the Fill joined to the fact, with its broker order
id. -/
def OwnFill (g : PipelineGraph) (stop fill : PipelineNode) : Prop :=
  g.nodes.get? fill.nodeKey = some fill ∧
    ⟨fill.nodeKey, stop.nodeKey, stopFillEdge⟩ ∈ g.edges ∧
      fill.get "broker_order_id" = stop.get "broker_order_id"

/-- A stop fact is counted live exactly when it carries no ending marker and the Fill of its own
order, of which there is one, has no terminal broker status. -/
def LiveByOwnFill (g : PipelineGraph) (stop : PipelineNode) : Prop :=
  ∃ fill, OwnFill g stop fill ∧ (∀ other, OwnFill g stop other → other = fill) ∧
    (isLiveBrokerStopFact g stop = true ↔
      (∀ name ∈ endedMarkers, stop.props.get? name = none) ∧
        isTerminalFillBrokerStatus (fill.get "broker_status") = false)

/-- A marker of a stop fact is absent or a time. -/
def Stamped (stop : PipelineNode) (name : String) : Prop :=
  stop.props.get? name = none ∨ ∃ t : Timestamp, stop.props.get? name = some (.str t.text)

/-- Every stop fact is joined to the Fill under its own key, to no other Fill, and carries that
Fill's broker order id. -/
structure Joined (g : PipelineGraph) : Prop where
  fills : ∀ key stop, g.getNode brokerStopOrderLabel key = some stop →
    ∃ fill orderId, g.getNode fillLabel key = some fill ∧
      fill.props.get? "broker_order_id" = some (.str orderId) ∧
      stop.props.get? "broker_order_id" = some (.str orderId)
  edges : ∀ key parent, (g.getNode brokerStopOrderLabel key).isSome →
    (⟨parent, (brokerStopOrderLabel, key), stopFillEdge⟩ ∈ g.edges ↔ parent = (fillLabel, key))
  stamped : ∀ key stop, g.getNode brokerStopOrderLabel key = some stop →
    ∀ name ∈ endedMarkers, Stamped stop name

theorem isEnded_eq_false {stop : PipelineNode} (h : ∀ name ∈ endedMarkers, Stamped stop name) :
    isEnded stop = false ↔ ∀ name ∈ endedMarkers, stop.props.get? name = none := by
  rw [isEnded, List.any_eq_false]
  refine forall₂_congr fun name hname => ?_
  rcases h name hname with hnone | ⟨t, ht⟩
  · simp [Node.get, Props.get, hnone, truthyStr]
  · simp [Node.get, Props.get, ht, truthyStr, t.nonempty]

theorem Joined.live {g : PipelineGraph} (h : Joined g) {key : String} {stop : PipelineNode}
    (hstop : g.getNode brokerStopOrderLabel key = some stop) : LiveByOwnFill g stop := by
  obtain ⟨fill, orderId, hfill, hid, hsid⟩ := h.fills key stop hstop
  obtain ⟨hl, rfl⟩ := Graph.getNode_nodeKey hstop
  obtain ⟨hfl, hfk⟩ := Graph.getNode_nodeKey hfill
  have hkey : stop.nodeKey = (brokerStopOrderLabel, stop.key) := by rw [Node.nodeKey, hl]
  have hfkey : fill.nodeKey = (fillLabel, stop.key) := by rw [Node.nodeKey, hfl, hfk]
  have hedges := h.edges stop.key
  rw [hstop] at hedges
  refine ⟨fill, ⟨by rw [hfkey]; exact hfill, ?_, ?_⟩, fun other hother => ?_, ?_⟩
  · rw [hkey]; exact (hedges fill.nodeKey rfl).mpr hfkey
  · rw [Node.get, Node.get, Props.get, Props.get, hid, hsid]
  · obtain ⟨hget, hedge, -⟩ := hother
    rw [hkey] at hedge
    rw [(hedges other.nodeKey rfl).mp hedge] at hget
    exact Option.some.inj (hget.symm.trans hfill)
  · have hsib : siblingFillForBrokerStop g stop = some fill := by
      rw [siblingFillForBrokerStop, show g.getNode "Fill" stop.key = some fill from hfill]
    rw [← isEnded_eq_false (h.stamped stop.key stop hstop)]
    unfold isLiveBrokerStopFact
    rw [hsib]
    cases isEnded stop <;> simp

/-- Writes that leave the stop facts, their Fills and the edges between them as they are, but for
properties added. -/
structure KeepsStops (g g' : PipelineGraph) : Prop where
  extends_ : g.Extends g'
  stops : ∀ key stop', g'.getNode brokerStopOrderLabel key = some stop' →
    ∃ stop, g.getNode brokerStopOrderLabel key = some stop ∧
      ∀ name ∈ endedMarkers, Stamped stop name → Stamped stop' name
  edges : ∀ e, e.edgeType = stopFillEdge → (e ∈ g'.edges ↔ e ∈ g.edges)

theorem Joined.keeps {g g' : PipelineGraph} (h : Joined g) (hk : KeepsStops g g') : Joined g' := by
  refine ⟨fun key stop' hstop' => ?_, fun key parent hsome => ?_, fun key stop' hstop' => ?_⟩
  · obtain ⟨stop, hstop, -⟩ := hk.stops key stop' hstop'
    obtain ⟨fill, orderId, hfill, hid, hsid⟩ := h.fills key stop hstop
    obtain ⟨stop'', hstop'', hsgrows⟩ := hk.extends_.nodes _ _ _ hstop
    obtain ⟨fill', hfill', hfgrows⟩ := hk.extends_.nodes _ _ _ hfill
    cases hstop'.symm.trans hstop''
    exact ⟨fill', orderId, hfill', hfgrows.get_str (by decide) hid,
      hsgrows.get_str (by decide) hsid⟩
  · obtain ⟨stop', hstop'⟩ := Option.isSome_iff_exists.mp hsome
    obtain ⟨stop, hstop, -⟩ := hk.stops key stop' hstop'
    rw [hk.edges _ rfl]
    exact h.edges key parent (by rw [hstop]; rfl)
  · obtain ⟨stop, hstop, hstamped⟩ := hk.stops key stop' hstop'
    exact fun name hname => hstamped name hname (h.stamped key stop hstop name hname)

theorem KeepsStops.of_same {g g' : PipelineGraph} (hext : g.Extends g')
    (hsame : ∀ key, g'.getNode brokerStopOrderLabel key = g.getNode brokerStopOrderLabel key)
    (hedges : ∀ e, e.edgeType = stopFillEdge → (e ∈ g'.edges ↔ e ∈ g.edges)) : KeepsStops g g' :=
  ⟨hext, fun key stop hstop => ⟨stop, by rw [← hsame, hstop], fun _ _ h => h⟩, hedges⟩

theorem FillsGrow.keepsStops {g g' : PipelineGraph} (h : FillsGrow g g') (hext : g.Extends g')
    (hedges : ∀ e, e.edgeType = stopFillEdge → (e ∈ g'.edges ↔ e ∈ g.edges)) : KeepsStops g g' :=
  .of_same hext (fun key => h.others _ _ (by decide)) hedges

theorem writeFill_keepsStops {g g' : PipelineGraph} {fill : BrokerFill} {orderSet : OrderIntentSet}
    (h : writeFill g fill orderSet = .ok g') : KeepsStops g g' := by
  obtain ⟨hgrow, hext, hedges⟩ := writeFill_ok h
  exact hgrow.keepsStops hext fun e he => hedges e (by rw [he]; decide)

theorem StopFillWritten.keepsStops {g g' : PipelineGraph} {key : String} {fill : BrokerFill}
    {node : PipelineNode} (h : StopFillWritten g g' key fill node) : KeepsStops g g' :=
  h.grows.keepsStops h.extends_ fun e _ => by rw [h.edges]

theorem Refreshed.extends_ {g g' : PipelineGraph} {reports : List BrokerFill}
    (h : Refreshed reports g g') : g.Extends g' := by
  refine ⟨fun label key n hn => ?_, h.edges ▸ List.prefix_rfl⟩
  by_cases hl : label = fillLabel
  · subst hl
    obtain ⟨after, hafter, href⟩ := h.fills key n hn
    exact ⟨after, hafter, href.grows⟩
  · exact ⟨n, (h.others label key hl).trans hn, .refl n⟩

theorem Refreshed.keepsStops {g g' : PipelineGraph} {reports : List BrokerFill}
    (h : Refreshed reports g g') : KeepsStops g g' :=
  .of_same h.extends_ (fun key => h.others _ _ (by decide)) fun e _ => by rw [h.edges]

theorem mergeOther_keepsStops {g g' : PipelineGraph} {label key : String} {props : Props Document}
    {n : PipelineNode} (hl : label ≠ brokerStopOrderLabel)
    (h : g.mergeNode label key props = .ok (g', n)) : KeepsStops g g' := by
  have hext := Graph.mergeNode_extends h
  obtain ⟨rfl, hnl, -⟩ := Graph.mergeNode_ok h
  refine .of_same hext (fun k => ?_) fun e _ => Iff.rfl
  rw [Graph.getNode_put, if_neg]
  rintro ⟨heq, -⟩
  exact hl (hnl.symm.trans heq.symm)

/-- A merge of markers into a stop fact that stands. -/
theorem markStop_keepsStops {g g' : PipelineGraph} {key : String} {props : Props Document}
    {n : PipelineNode} (hstands : (g.getNode brokerStopOrderLabel key).isSome)
    (hmarks : ∀ name ∈ endedMarkers, props.get? name = none ∨
      ∃ t : Timestamp, props.get? name = some (.str t.text))
    (h : g.mergeNode brokerStopOrderLabel key props = .ok (g', n)) : KeepsStops g g' := by
  have hext := Graph.mergeNode_extends h
  have hget := Graph.mergeNode_get? h
  obtain ⟨rfl, hl, hk, -⟩ := Graph.mergeNode_ok h
  obtain ⟨old, hold⟩ := Option.isSome_iff_exists.mp hstands
  refine ⟨hext, fun k stop' hstop' => ?_, fun e _ => Iff.rfl⟩
  rw [Graph.getNode_put] at hstop'
  split at hstop'
  · rename_i heq
    cases hstop'
    refine ⟨old, by rw [heq.2, hk, hold], fun name hname hstamped => ?_⟩
    rw [Stamped, hget, hold]
    rcases hmarks name hname with hnone | ⟨t, ht⟩
    · rw [hnone]; exact hstamped
    · exact .inr ⟨t, by rw [ht]; rfl⟩
  · exact ⟨stop', hstop', fun _ _ hs => hs⟩

theorem mergeElsewhere_keepsStops {g g' : PipelineGraph} {label key : String}
    {props : Props Document} (h : mergeElsewhere g label key props = .ok g') : KeepsStops g g' := by
  unfold mergeElsewhere at h
  split at h
  · cases h
  · rename_i hl
    obtain ⟨⟨g₁, n⟩, hm, hret⟩ := Fallible.bind_eq_ok.mp h
    cases hret
    exact mergeOther_keepsStops (fun heq => hl (.inr heq)) (liftGraph_eq_ok.mp hm)

theorem linkElsewhere_keepsStops {g g' : PipelineGraph} {parent child : NodeKey} {edgeType : String}
    (h : linkElsewhere g parent child edgeType = .ok g') : KeepsStops g g' := by
  unfold linkElsewhere at h
  split at h
  · cases h
  · rename_i ht
    rw [liftGraph_eq_ok] at h
    obtain ⟨hnodes, -, -, hedges⟩ := Graph.addEdge_ok h
    refine .of_same (Graph.addEdge_extends h) (fun _ => Graph.getNode_of_nodes_eq hnodes _ _)
      fun e he => ?_
    rw [hedges]
    split
    · exact Iff.rfl
    · rw [List.mem_append, List.mem_singleton]
      refine ⟨fun hmem => hmem.resolve_right ?_, .inl⟩
      rintro rfl
      exact ht he

theorem stands_of_active {g : PipelineGraph} {order : BrokerStopOrder}
    (h : order ∈ activeBrokerStopOrders g) : (g.getNode brokerStopOrderLabel order.key).isSome := by
  obtain ⟨n, hn, -, -, rfl⟩ := mem_activeBrokerStopOrders.mp h
  rw [show (brokerStopOrder n).key = n.key from rfl, hn]
  rfl

theorem cancelStop_keepsStops {g g' : PipelineGraph} {order : BrokerStopOrder} {now : Timestamp}
    (hstands : (g.getNode brokerStopOrderLabel order.key).isSome)
    (h : cancelStop g order now = .ok g') : KeepsStops g g' := by
  obtain ⟨⟨g₁, n⟩, hm, hret⟩ := Fallible.bind_eq_ok.mp h
  cases hret
  refine markStop_keepsStops hstands ?_ (liftGraph_eq_ok.mp hm)
  simp [endedMarkers, Dict.ofList]

theorem markReplaced_keepsStops {g g' : PipelineGraph} {old : BrokerStopOrder} {key : String}
    {now : Timestamp} {fill : BrokerFill}
    (hstands : (g.getNode brokerStopOrderLabel old.key).isSome)
    (h : markReplaced g old key fill now = .ok g') : KeepsStops g g' := by
  obtain ⟨⟨g₁, n⟩, hm, hret⟩ := Fallible.bind_eq_ok.mp h
  cases hret
  refine markStop_keepsStops hstands ?_ (liftGraph_eq_ok.mp hm)
  simp [endedMarkers, Dict.ofList]

/-! ### Accepted stops -/

/-- A fact written beside the Fill under its own key is joined to that Fill alone: its key was free,
so no edge could stand at it before. -/
theorem Joined.writeStopOrder {g g' : PipelineGraph} (h : Joined g) {fillNode : PipelineNode}
    {plan : BrokerStopThresholdPlan} {key : String} {now : Timestamp} {fill : BrokerFill}
    {replaces : Option BrokerStopOrder} (hfree : g.getNode brokerStopOrderLabel key = none)
    (hfill : g.getNode fillLabel key = some fillNode)
    (hid : fillNode.props.get? "broker_order_id" = some (.str fill.brokerOrderId))
    (hok : writeStopOrder g fillNode plan key fill now replaces = .ok g') : Joined g' := by
  have hw := writeStopOrder_ok hfree hok
  obtain ⟨hfl, hfk⟩ := Graph.getNode_nodeKey hfill
  have hfkey : fillNode.nodeKey = (fillLabel, key) := by rw [Node.nodeKey, hfl, hfk]
  have hother : ∀ label k, label ≠ brokerStopOrderLabel → g'.getNode label k = g.getNode label k :=
    fun label k hl => by rw [hw.nodes, if_neg fun hc => hl hc.1]
  refine ⟨fun k stop hstop => ?_, fun k parent hsome => ?_, fun k stop hstop name hname => ?_⟩
  · rw [hw.nodes] at hstop
    split at hstop
    · rename_i heq
      cases hstop
      rw [heq.2]
      exact ⟨fillNode, fill.brokerOrderId, (hother _ _ (by decide)).trans hfill, hid,
        (stopOrderProps_get? plan fill now replaces).1⟩
    · obtain ⟨f, orderId, hf, hfid, hsid⟩ := h.fills k stop hstop
      exact ⟨f, orderId, (hother _ _ (by decide)).trans hf, hfid, hsid⟩
  · rw [hw.edges]
    by_cases hk : k = key
    · subst hk
      have hnone : ∀ p, ⟨p, (brokerStopOrderLabel, k), stopFillEdge⟩ ∉ g.edges := fun p he => by
        have := Graph.mem_keys_iff.mp (g.closed _ he).2
        rw [hfree] at this; cases this
      simp only [hnone, or_false, Edge.mk.injEq, and_true, hfkey]
    · rw [hw.nodes, if_neg fun hc => hk hc.2] at hsome
      simp only [Edge.mk.injEq, Prod.mk.injEq, hk, and_false, false_and, false_or]
      exact h.edges k parent hsome
  · rw [hw.nodes] at hstop
    split at hstop
    · cases hstop
      obtain ⟨-, -, hcancelled, hreplaced⟩ := stopOrderProps_get? plan fill now replaces
      refine .inl ?_
      rcases List.mem_pair.mp hname with rfl | rfl
      · exact hcancelled
      · exact hreplaced
    · exact h.stamped k stop hstop name hname

theorem Joined.placeStop {g g' : PipelineGraph} (h : Joined g) {plan : BrokerStopThresholdPlan}
    {key : String} {now : Timestamp} {fill : BrokerFill}
    (hfree : g.getNode brokerStopOrderLabel key = none)
    (hrecords : fill.status ≠ .rejected → RecordsUnderKey g plan key fill)
    (hok : Execution.placeStop g plan key fill now = .ok g') : Joined g' := by
  obtain ⟨⟨g₁, fillNode⟩, hfill, hok⟩ := Fallible.bind_eq_ok.mp hok
  obtain ⟨hw, hkey⟩ := writeStopFill_ok hfill
  have hj := h.keeps hw.keepsStops
  simp only at hok
  split at hok
  · cases hok; exact hj
  · rename_i hstatus
    refine hj.writeStopOrder ?_ ?_ hw.brokerOrderId hok
    · rw [hw.grows.others _ _ (by decide), hfree]
    · rw [← hkey (hrecords hstatus)]; exact hw.stands

theorem Joined.replaceStop {g g' : PipelineGraph} (h : Joined g) {plan : BrokerStopThresholdPlan}
    {old : BrokerStopOrder} {key : String} {now : Timestamp} {fill : BrokerFill}
    (hfree : g.getNode brokerStopOrderLabel key = none)
    (hstands : (g.getNode brokerStopOrderLabel old.key).isSome)
    (hrecords : RecordsUnderKey g plan key fill)
    (hok : Execution.replaceStop g plan old key fill now = .ok g') : Joined g' := by
  obtain ⟨⟨g₁, fillNode⟩, hfill, hok⟩ := Fallible.bind_eq_ok.mp hok
  obtain ⟨g₂, horder, hok⟩ := Fallible.bind_eq_ok.mp hok
  obtain ⟨hw, hkey⟩ := writeStopFill_ok hfill
  have hfree₁ : g₁.getNode brokerStopOrderLabel key = none := by
    rw [hw.grows.others _ _ (by decide), hfree]
  have hj := (h.keeps hw.keepsStops).writeStopOrder hfree₁
    (by rw [← hkey hrecords]; exact hw.stands) hw.brokerOrderId horder
  refine hj.keeps (markReplaced_keepsStops ?_ hok)
  rw [(writeStopOrder_ok hfree₁ horder).nodes]
  split
  · rfl
  · rw [hw.grows.others _ _ (by decide)]; exact hstands

/-- Every operation whose accepted stop is recorded under its key keeps the facts joined. -/
theorem Joined.apply {g g' : PipelineGraph} (h : Joined g) {op : StopOp} (hrec : op.Recorded g)
    (hok : op.apply g = .ok g') : Joined g' := by
  cases op with
  | submit fill orderSet => exact h.keeps (writeFill_keepsStops hok)
  | place plan fill now =>
    simp only [StopOp.apply] at hok
    split at hok
    · cases hok; exact h
    · rename_i key hkey
      exact h.placeStop (nextBrokerStopOrderKey_free hkey) (fun hs => hrec hs key hkey) hok
  | replace plan old fill now =>
    simp only [StopOp.apply] at hok
    split at hok
    · rename_i hactive
      exact h.replaceStop (freeBrokerStopOrderKey_free _ _ _) (stands_of_active hactive) hrec hok
    · cases hok; exact h
  | cancel order now =>
    simp only [StopOp.apply] at hok
    split at hok
    · rename_i hactive
      exact h.keeps (cancelStop_keepsStops (stands_of_active hactive) hok)
    · cases hok; exact h
  | refresh reports now => exact h.keeps (refreshPendingFills_ok hok).keepsStops
  | merge label key props => exact h.keeps (mergeElsewhere_keepsStops hok)
  | link parent child edgeType => exact h.keeps (linkElsewhere_keepsStops hok)

/-- In every run whose accepted stops are recorded under their own keys, every stop fact of every
state reached is live exactly as the Fill of its own order says. -/
theorem live_by_own_fill {g : PipelineGraph}
    (h : Reach StopOp.apply (fun g op => op.Recorded g) (· = Graph.empty) g) {key : String}
    {stop : PipelineNode} (hstop : g.getNode brokerStopOrderLabel key = some stop) :
    LiveByOwnFill g stop := by
  have hempty : Joined (Graph.empty : PipelineGraph) :=
    ⟨fun _ _ hn => (by cases hn), fun _ _ hn => (by cases hn), fun _ _ hn => (by cases hn)⟩
  have hj : Joined g := h.invariant (fun s hs => hs ▸ hempty)
    fun _ _ _ hP hrec hok => hP.apply hrec hok
  exact hj.live hstop

def acmePlan : BrokerStopThresholdPlan :=
  ⟨⟨"ACME", 10, "p1", 10000, 1 / 10⟩, .position, .activePosition⟩

def acmeReply (key orderId : String) (status : FillStatus) : BrokerFill :=
  { idempotencyKey := key, ticker := "ACME", side := .sell, quantity := 10
    price := ⟨90, "USD"⟩, brokerOrderId := orderId, status := status }

def firstStamp : Timestamp := ⟨"t1", by decide⟩

def secondStamp : Timestamp := ⟨"t2", by decide⟩

def placeAcme : StopOp :=
  .place acmePlan (acmeReply "stop:p1:ACME" "order-1" .pending) firstStamp

theorem live_by_own_fill_acme : ∃ g stop, placeAcme.apply Graph.empty = .ok g ∧
    g.getNode brokerStopOrderLabel "stop:p1:ACME" = some stop ∧ LiveByOwnFill g stop := by
  have htest : Fallible.check
      (fun g => (g.getNode brokerStopOrderLabel "stop:p1:ACME").isSome)
      (placeAcme.apply Graph.empty) = true := by decide +kernel
  obtain ⟨g, hg, hsome⟩ := Fallible.check_eq_true.mp htest
  obtain ⟨stop, hstop⟩ := Option.isSome_iff_exists.mp hsome
  have hkey : nextBrokerStopOrderKey Graph.empty "p1" "ACME" = some "stop:p1:ACME" := by
    decide +kernel
  have hrec : placeAcme.Recorded Graph.empty := by
    intro _ key hnext
    rw [show key = "stop:p1:ACME" from Option.some.inj (hnext.symm.trans hkey)]
    decide +kernel
  exact ⟨g, stop, hg, hstop, live_by_own_fill (.step placeAcme (.start rfl) hrec hg) hstop⟩

/-- A stop that is rejected, then accepted under the same key, and then ended by the broker. -/
def retriedStop : List StopOp := [
  .place acmePlan (acmeReply "stop:p1:ACME" "rejected:stop:p1:ACME" .rejected) firstStamp,
  .place acmePlan (acmeReply "stop:p1:ACME" "order-1" .pending) secondStamp,
  .refresh [acmeReply "stop:p1:ACME" "order-1" .rejected] "t3"]

/-- The stop of the retried key counts as live although the Fill of its own order is terminal. -/
def misjudgedLive (g : PipelineGraph) : Bool :=
  match g.getNode brokerStopOrderLabel "stop:p1:ACME", g.getNode fillLabel "stop:p1:ACME#1" with
  | some stop, some fill =>
    isLiveBrokerStopFact g stop && isTerminalFillBrokerStatus (fill.get "broker_status") &&
      decide (⟨fill.nodeKey, stop.nodeKey, stopFillEdge⟩ ∈ g.edges) &&
      decide (fill.get "broker_order_id" = stop.get "broker_order_id")
  | _, _ => false

theorem retried_stop_misjudged : ¬ ∀ g, Reach StopOp.apply (fun _ _ => True) (· = Graph.empty) g →
    ∀ key stop, g.getNode brokerStopOrderLabel key = some stop → LiveByOwnFill g stop := by
  intro hall
  have htest : Fallible.check misjudgedLive
    (retriedStop.foldlM StopOp.apply Graph.empty) = true := by
    decide +kernel
  obtain ⟨g, hg, hlive⟩ := Fallible.check_eq_true.mp htest
  unfold misjudgedLive at hlive
  split at hlive
  · rename_i stop fill hstop hfill
    simp only [Bool.and_eq_true, decide_eq_true_eq] at hlive
    obtain ⟨⟨⟨hlive, hterminal⟩, hedge⟩, hid⟩ := hlive
    obtain ⟨own, -, huniq, hiff⟩ := hall g (.of_foldlM (.start rfl) hg) _ stop hstop
    obtain ⟨hfl, hfk⟩ := Graph.getNode_nodeKey hfill
    have hfkey : fill.nodeKey = (fillLabel, "stop:p1:ACME#1") := by rw [Node.nodeKey, hfl, hfk]
    rw [← huniq fill ⟨by rw [hfkey]; exact hfill, hedge, hid⟩, hterminal] at hiff
    cases (hiff.mp hlive).2
  · cases hlive

end TradingAgents.Execution
