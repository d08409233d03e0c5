import TradingAgents.Execution.Orders

/-! The refresh of pending Fills from broker reads: which Fills still wait on the broker, which read
belongs to a Fill, and the status properties a read appends. -/

namespace TradingAgents.Execution

open Kernel ProofKit BrokerLifecycle

/-- Whether a Fill still waits on the broker's account. -/
def awaitsBroker (fill : PipelineNode) : Bool :=
  (fill.get "status").pyEq (.str FillStatus.pending.value) &&
    !isTerminalFillBrokerStatus (fill.get "broker_status")

/-- The read of a Fill's order: the last one under its client key, else the last one with its broker
order id. -/
def reportFor (reports : List BrokerFill) (node : PipelineNode) : Option BrokerFill :=
  let byKey := reports.reverse.find? fun f => f.idempotencyKey = brokerIdempotencyKey node
  match byKey with
  | some f => some f
  | none =>
    match node.get "broker_order_id" with
    | .str orderId => reports.reverse.find? fun f => f.brokerOrderId = orderId ∧ orderId ≠ ""
    | _ => none

/-- Whether this read is the only allowed advancement of a recorded status. -/
def completesPartialFill (node : PipelineNode) (fill : BrokerFill) : Bool :=
  (node.get "broker_status").pyEq (.str "partial") && decide (fill.status = .filled)

def shouldWriteStatus (node : PipelineNode) (fill : BrokerFill) : Bool :=
  (node.props.get? "broker_status").isNone || completesPartialFill node fill

def shouldWritePrice (node : PipelineNode) (fill : BrokerFill) : Bool :=
  decide (fill.status = .filled ∨ fill.status = .partially) &&
    ((node.props.get? "broker_price_cents").isNone || completesPartialFill node fill)

/-- The Fill properties of one broker status observation. -/
def brokerStatusProps (node : PipelineNode) (fill : BrokerFill) (now : String) : Props Document :=
  .ofList (
    (if shouldWriteStatus node fill then [
      ("broker_status", .str fill.status.value),
      ("broker_status_broker_order_id", .str fill.brokerOrderId),
      ("broker_status_refreshed_at", .str now)] ++
      (if fill.status = .filled then [("broker_filled_quantity", .int (executedQuantity fill))]
        else [])
    else []) ++
    if shouldWritePrice node fill then [("broker_price_cents", .int (moneyToCents fill.price))]
    else [])

/-- Append what the broker says of one Fill. -/
def refreshFill (reports : List BrokerFill) (now : String) (g : PipelineGraph)
    (node : PipelineNode) : Except HandlerError PipelineGraph :=
  if !awaitsBroker node then pure g
  else match reportFor reports node with
    | none => pure g
    | some fill =>
      if fill.status = .pending then pure g
      else do
        let props := brokerStatusProps node fill now
        if props.entries = [] then pure g
        else do
          let (g, _) ← liftGraph (g.mergeNode fillLabel node.key props)
          pure g

/-- Append broker status evidence to the Fills that wait on it. -/
def refreshPendingFills (g : PipelineGraph) (reports : List BrokerFill) (now : String) :
    Except HandlerError PipelineGraph :=
  (g.listNodes fillLabel).foldlM (refreshFill reports now) g

/-! ### What a refresh changes -/

/-- A Fill after a refresh: it keeps its properties, and a changed broker status is that of the read
of its order, which is not pending. -/
structure RefreshedFill (reports : List BrokerFill) (before after : PipelineNode) : Prop where
  grows : Graph.NodeGrows before after
  status : after.props.get? "broker_status" = before.props.get? "broker_status" ∨
    (awaitsBroker before = true ∧ ∃ fill, reportFor reports before = some fill ∧
      fill.status ≠ .pending ∧
      after.props.get? "broker_status" = some (.str fill.status.value))

theorem RefreshedFill.refl (reports : List BrokerFill) (n : PipelineNode) :
    RefreshedFill reports n n := ⟨.refl n, .inl rfl⟩

theorem brokerStatusProps_get? (node : PipelineNode) (fill : BrokerFill) (now : String) :
    (brokerStatusProps node fill now).get? "broker_status" =
      if shouldWriteStatus node fill then some (.str fill.status.value) else none := by
  unfold brokerStatusProps
  cases shouldWriteStatus node fill <;> cases shouldWritePrice node fill <;>
    by_cases hf : fill.status = .filled <;> simp [hf, Dict.ofList]

/-- What the refresh of one Fill leaves: no other node and no edge changes. -/
structure RefreshedOne (reports : List BrokerFill) (g g' : PipelineGraph) (node : PipelineNode) :
    Prop where
  fill : ∃ after, g'.getNode fillLabel node.key = some after ∧ RefreshedFill reports node after
  others : ∀ label key, (label, key) ≠ (fillLabel, node.key) →
    g'.getNode label key = g.getNode label key
  edges : g'.edges = g.edges

theorem refreshFill_ok {reports : List BrokerFill} {now : String} {g g' : PipelineGraph}
    {node : PipelineNode} (hnode : g.getNode fillLabel node.key = some node)
    (h : refreshFill reports now g node = .ok g') : RefreshedOne reports g g' node := by
  have hsame : RefreshedOne reports g g node :=
    ⟨⟨node, hnode, .refl reports node⟩, fun _ _ _ => rfl, rfl⟩
  unfold refreshFill at h
  split at h
  · cases h; exact hsame
  rename_i hawaits
  split at h
  · cases h; exact hsame
  rename_i fill hfill
  split at h
  · cases h; exact hsame
  rename_i hpending
  simp only at h
  split at h
  · cases h; exact hsame
  obtain ⟨⟨g₁, after⟩, hm, hret⟩ := Fallible.bind_eq_ok.mp h
  cases hret
  rw [liftGraph_eq_ok] at hm
  have hgrows := Graph.mergeNode_grows hm hnode
  have hstatus := Graph.mergeNode_get? hm "broker_status"
  rw [hnode, brokerStatusProps_get?] at hstatus
  obtain ⟨rfl, hl, hk, -⟩ := Graph.mergeNode_ok hm
  refine ⟨⟨after, by rw [Graph.getNode_put, if_pos ⟨hl.symm, hk.symm⟩], hgrows, ?_⟩, ?_, rfl⟩
  · split at hstatus
    · exact .inr ⟨by simpa using hawaits, fill, hfill, hpending, hstatus⟩
    · exact .inl hstatus
  · intro label key hne
    rw [Graph.getNode_put, if_neg]
    rintro ⟨rfl, rfl⟩
    exact hne (by rw [hl, hk])

/-- What a refresh leaves: nothing but the Fills changes, and each of these as `RefreshedFill`
says. -/
structure Refreshed (reports : List BrokerFill) (g g' : PipelineGraph) : Prop where
  others : ∀ label key, label ≠ fillLabel → g'.getNode label key = g.getNode label key
  edges : g'.edges = g.edges
  fills : ∀ key node, g.getNode fillLabel key = some node →
    ∃ after, g'.getNode fillLabel key = some after ∧ RefreshedFill reports node after

theorem refreshPendingFills_ok {g g' : PipelineGraph} {reports : List BrokerFill} {now : String}
    (h : refreshPendingFills g reports now = .ok g') : Refreshed reports g g' := by
  -- the Fills done are refreshed and the others stand as they stood
  have hloop := Fallible.foldlM_induction (P := fun done t =>
      (∀ label key, (label ≠ fillLabel ∨ key ∉ done.map Node.key) →
        t.getNode label key = g.getNode label key) ∧ t.edges = g.edges ∧
      ∀ n ∈ done, ∃ after, t.getNode fillLabel n.key = some after ∧ RefreshedFill reports n after)
    h ⟨fun _ _ _ => rfl, rfl, by simp⟩ ?_
  · obtain ⟨hothers, hedges, hfills⟩ := hloop
    refine ⟨fun label key hl => hothers label key (.inl hl), hedges, fun key node hnode => ?_⟩
    obtain ⟨hl, rfl⟩ := Graph.getNode_nodeKey hnode
    exact hfills node (Graph.mem_listNodes.mpr ⟨hl, hnode⟩)
  · intro done n rest t t' hl hP hok
    obtain ⟨hothers, hedges, hfills⟩ := hP
    have hnodup := Graph.nodup_listNodes_keys g fillLabel
    rw [hl, List.map_append, List.nodup_append] at hnodup
    have hfree : n.key ∉ done.map Node.key := fun hmem => hnodup.2.2 _ hmem _ (by simp) rfl
    have hn := (Graph.mem_listNodes.mp (show n ∈ g.listNodes fillLabel by rw [hl]; simp)).2
    have hone := refreshFill_ok ((hothers _ _ (.inr hfree)).trans hn) hok
    refine ⟨fun label key hkey => ?_, hone.edges.trans hedges, fun m hm => ?_⟩
    · simp only [List.map_append, List.map_cons, List.map_nil, List.mem_append,
        List.mem_singleton, not_or] at hkey
      rw [hone.others label key, hothers label key (hkey.imp_right And.left)]
      rintro heq
      cases heq
      exact hkey.elim (· rfl) (·.2 rfl)
    · rcases List.mem_append.mp hm with hdone | hlast
      · obtain ⟨after, ha, href⟩ := hfills m hdone
        refine ⟨after, (hone.others _ _ fun heq => ?_).trans ha, href⟩
        exact hfree ((Prod.mk.inj heq).2 ▸ List.mem_map_of_mem hdone)
      · rw [List.mem_singleton.mp hlast]; exact hone.fill

end TradingAgents.Execution
