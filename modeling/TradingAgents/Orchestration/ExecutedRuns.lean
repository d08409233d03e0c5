import TradingAgents.Orchestration.CountedOrders
import TradingAgents.Orchestration.ResumeChild

/-! Execution runs as their writers leave them.  A decision emits the intents of its run and a
resume emits none; a pass over the run records a fill under the key of each order it handles, and
links the run to its outcome. -/

namespace TradingAgents.Orchestration

open Kernel ProofKit Execution PortfolioManager

/-! ### Fills of a pass -/

section

variable {g g' : PipelineGraph} {orderSet : OrderIntentSet} {config : OrderToleranceConfig}

/-- A recorded fill is new under its attempt's key or was there before. -/
theorem writeFill_fill {fill : BrokerFill} (h : writeFill g fill orderSet = .ok g') {key : String}
    {node : PipelineNode} (hn : g'.getNode fillLabel key = some node) :
    g.getNode fillLabel key = some node ∨
      ((∃ n, key = fillAttemptKey fill.idempotencyKey n) ∧
        node.props.get? "status" = some (.str fill.status.value) ∧
        ∀ name ∈ ["drop_reason", "broker_status"], node.props.get? name =
          (g.getNode fillLabel key).bind fun m => m.props.get? name) := by
  obtain ⟨⟨g₁, written⟩, hm, hlink⟩ := Fallible.bind_eq_ok.mp h
  rw [liftGraph_eq_ok] at hm
  obtain ⟨hkey, hprops, -⟩ := selectFillAttempt_spec g fill.idempotencyKey (fillProps fill orderSet)
    false
  have hget := Graph.mergeNode_get? hm
  obtain ⟨rfl, hl, hk, -⟩ := Graph.mergeNode_ok hm
  have hsame : g'.getNode fillLabel key = (g.put written).getNode fillLabel key := by
    simp only at hlink
    split at hlink
    · cases hlink; rfl
    split at hlink
    · cases hlink; rfl
    rw [liftGraph_eq_ok] at hlink
    exact Graph.getNode_of_nodes_eq (Graph.addEdge_ok hlink).1 _ _
  rw [hsame, Graph.getNode_put] at hn
  split at hn
  · rename_i heq
    cases hn
    refine .inr ⟨⟨_, heq.2.trans (hk.trans hkey)⟩, ?_, fun name hname => ?_⟩
    · rw [hget, hprops, (orderAttempt_get? _ _ _ _).2]
      rfl
    · have hskip : name ∉ orderNames ∧ name ∉ outcomeNames := by
        simp only [List.mem_cons, List.not_mem_nil, or_false] at hname
        rcases hname with rfl | rfl <;> decide
      rw [hget, hprops, orderAttempt_none fill orderSet hskip.1 hskip.2, heq.2, hk]
      rfl
  · exact .inl hn

/-- The fills under the names of the approved intents are those of handled orders. -/
def FillsOf (config : OrderToleranceConfig) (g : PipelineGraph) (approved : List OrderIntent)
    (runId : String) (handled : OrderIntent × BrokerOrder → Prop) : Prop :=
  ∀ intent ∈ approved, ∀ fill, g.getNode fillLabel (nameOf runId intent) = some fill →
    ∃ item, handled item ∧ orderFromIntent config runId item.1 = .ok item.2 ∧
      item.1.ticker = intent.ticker ∧ item.1.action = intent.action ∧ ¬ ExitOfPosition item.1

theorem FillsOf.mono {approved : List OrderIntent} {runId : String}
    {handled handled' : OrderIntent × BrokerOrder → Prop}
    (h : FillsOf config g approved runId handled)
    (hle : ∀ item, handled item → handled' item) : FillsOf config g approved runId handled' :=
  fun intent hi fill hfill => (h intent hi fill hfill).imp fun item hitem =>
    ⟨hle item hitem.1, hitem.2⟩

/-- A fill recorded for a handled order. -/
theorem FillsOf.write {approved : List OrderIntent} {runId : String}
    (hminted : "pm-run-".toList <+: runId.toList ∨ "resume-link:".toList <+: runId.toList)
    {handled : OrderIntent × BrokerOrder → Prop} (h : FillsOf config g approved runId handled)
    {item : OrderIntent × BrokerOrder} (hitem : handled item)
    (hok : orderFromIntent config runId item.1 = .ok item.2) {fill : BrokerFill}
    (hkey : fill.idempotencyKey = item.2.idempotencyKey)
    (hw : writeFill g fill orderSet = .ok g') : FillsOf config g' approved runId handled := by
  intro intent hi node hn
  rcases writeFill_fill hw hn with hold | ⟨⟨n, hattempt⟩, -⟩
  · exact h intent hi node hold
  · rw [hkey] at hattempt
    obtain ⟨hexit, -, hticker, haction⟩ := name_of_attempt hminted hok hattempt
    exact ⟨item, hitem, hok, hticker.symm, haction.symm, hexit⟩

/-- A submit pass records fills of the orders that it hands to the broker. -/
theorem foldl_submitIntent_fills (orderSet : OrderIntentSet) (approved : List OrderIntent)
    {runId : String}
    (hminted : "pm-run-".toList <+: runId.toList ∨ "resume-link:".toList <+: runId.toList)
    {reply : Nat → BrokerOrder → BrokerReply}
    (hecho : ∀ n order, (submitOrder order (reply n order)).idempotencyKey = order.idempotencyKey)
    {all items : List (OrderIntent × BrokerOrder)}
    (hitems : ∀ item ∈ items, item ∈ all ∧ orderFromIntent config runId item.1 = .ok item.2)
    (st : SubmitState)
    (h : FillsOf config st.graph approved runId fun item => item ∈ all ∧ item.2 ∈ st.submissions) :
    FillsOf config (items.foldl (submitIntent reply orderSet) st).graph approved runId fun item =>
      item ∈ all ∧ item.2 ∈ (items.foldl (submitIntent reply orderSet) st).submissions := by
  induction items generalizing st with
  | nil => exact h
  | cons item items ih =>
    refine ih (fun i hi => hitems i (List.mem_cons_of_mem item hi)) _ ?_
    obtain ⟨hmem, hok⟩ := hitems item List.mem_cons_self
    have hmono : FillsOf config st.graph approved runId
        fun i => i ∈ all ∧ i.2 ∈ st.submissions ++ [item.2] :=
      h.mono fun i hi => ⟨hi.1, List.mem_append_left _ hi.2⟩
    unfold submitIntent
    split
    · exact h
    · simp only
      split
      · rename_i t hw
        exact hmono.write hminted ⟨hmem, List.mem_append_right _ (List.mem_singleton_self _)⟩ hok
          (hecho _ _) hw
      · exact hmono

/-- A fill that execution recorded as a refusal, and that the broker never reported on. -/
def Refused (fill : PipelineNode) : Prop :=
  fill.props.get? "drop_reason" = none ∧ fill.props.get? "broker_status" = none ∧
    fill.props.get? "status" = some (.str "rejected")

theorem Refused.outcome {fill : PipelineNode} (h : Refused fill) : outcome fill = .unfilled := by
  obtain ⟨hdrop, hbroker, hstatus⟩ := h
  have heff : effectiveStatus fill = "rejected" := by
    simp [effectiveStatus, Node.get, Props.get, hdrop, hbroker, hstatus, Value.truthy, valueText]
  rw [Orchestration.outcome, heff]
  rfl

/-- The gate of a stage that is not paper-safe records refusals. -/
theorem foldlM_rejected_refused {approved : List OrderIntent} {runId text : String}
    {orders : List BrokerOrder}
    (hok : (orders.map fun order => rejectedBrokerFill order text).foldlM
      (fun g fill => writeFill g fill orderSet) g = .ok g')
    (hfresh : ∀ intent ∈ approved, g.getNode fillLabel (nameOf runId intent) = none) :
    ∀ intent ∈ approved, ∀ fill, g'.getNode fillLabel (nameOf runId intent) = some fill →
      Refused fill := by
  refine Fallible.foldlM_induction (P := fun _ t => ∀ intent ∈ approved, ∀ fill,
    t.getNode fillLabel (nameOf runId intent) = some fill → Refused fill) hok ?_ ?_
  · intro intent hi fill hfill
    rw [hfresh intent hi] at hfill
    cases hfill
  · intro done fill rest t t' hsplit ht hw intent hi node hn
    rcases writeFill_fill hw hn with hold | ⟨-, hstatus, hother⟩
    · exact ht intent hi node hold
    · have hrejected : fill.status = .rejected := by
        have hmem : fill ∈ orders.map fun order => rejectedBrokerFill order text := by
          rw [hsplit]; simp
        obtain ⟨order, -, rfl⟩ := List.mem_map.mp hmem
        rfl
      rw [hrejected] at hstatus
      have hnone : ∀ name ∈ ["drop_reason", "broker_status"], node.props.get? name = none := by
        intro name hname
        rw [hother name hname]
        cases hold : t.getNode fillLabel (nameOf runId intent) with
        | none => rfl
        | some m =>
          obtain ⟨hdrop, hbroker, -⟩ := ht intent hi m hold
          simp only [List.mem_cons, List.not_mem_nil, or_false] at hname
          rcases hname with rfl | rfl
          exacts [hdrop, hbroker]
      exact ⟨hnone _ (by simp), hnone _ (by simp), hstatus⟩

/-- What the fills of a pass leave as it was: every node but the Fills, and every edge but those of
a fill to its intent. -/
structure FillsOnly (g t : PipelineGraph) : Prop where
  nodes : ∀ label key, label ≠ fillLabel → t.getNode label key = g.getNode label key
  grows : g.Extends t
  edges : ∀ e : Edge, e.edgeType ≠ "EXECUTES" → (e ∈ t.edges ↔ e ∈ g.edges)

theorem FillsOnly.refl (g : PipelineGraph) : FillsOnly g g :=
  ⟨fun _ _ _ => rfl, .refl g, fun _ _ => Iff.rfl⟩

theorem FillsOnly.write {t t' : PipelineGraph} (h : FillsOnly g t) {fill : BrokerFill}
    (hw : writeFill t fill orderSet = .ok t') : FillsOnly g t' := by
  obtain ⟨hfills, hext, hedges⟩ := writeFill_ok hw
  exact ⟨fun label key hne => (hfills.others label key hne).trans (h.nodes label key hne),
    h.grows.trans hext, fun e he => (hedges e he).trans (h.edges e he)⟩

theorem foldl_submitIntent_only (reply : Nat → BrokerOrder → BrokerReply)
    (items : List (OrderIntent × BrokerOrder)) {st : SubmitState} (h : FillsOnly g st.graph) :
    FillsOnly g (items.foldl (submitIntent reply orderSet) st).graph := by
  induction items generalizing st with
  | nil => exact h
  | cons item items ih =>
    refine ih ?_
    unfold submitIntent
    split
    · exact h
    · simp only
      split
      · rename_i t hw
        exact h.write hw
      · exact h

/-- What a submit pass over a run without fills has recorded. -/
theorem runSubmit_fills (approved : List OrderIntent)
    (hminted : "pm-run-".toList <+: orderSet.runId.toList ∨
      "resume-link:".toList <+: orderSet.runId.toList)
    {reply : Nat → BrokerOrder → BrokerReply}
    (hecho : ∀ n order, (submitOrder order (reply n order)).idempotencyKey = order.idempotencyKey)
    {settings : ExecutionSettings} {st : SubmitState}
    (hfresh : ∀ intent ∈ approved, g.getNode fillLabel (nameOf orderSet.runId intent) = none)
    (hok : runSubmit reply settings g orderSet = .ok st) :
    FillsOnly g st.graph ∧ ∃ put : List (OrderIntent × BrokerOrder),
      (∀ item ∈ put, item.1 ∈ orderSet.approved ∧
        orderFromIntent settings.tolerance orderSet.runId item.1 = .ok item.2) ∧
      (∀ order, order ∈ st.submissions ↔ ∃ item ∈ put, item.2 = order) ∧
      FillsOf settings.tolerance st.graph approved orderSet.runId
        (fun item => item.1 ∈ orderSet.approved) ∧
      ∀ intent ∈ approved, (∀ item ∈ put, item.1.ticker ≠ intent.ticker) →
        ∀ fill, st.graph.getNode fillLabel (nameOf orderSet.runId intent) = some fill →
          outcome fill = .unfilled := by
  have hstart : ∀ handled, FillsOf settings.tolerance g approved orderSet.runId handled := by
    intro handled intent hi fill hfill
    rw [hfresh intent hi] at hfill
    cases hfill
  obtain ⟨orders, ho, hpass⟩ := Fallible.bind_eq_ok.mp hok
  obtain ⟨-, hzip⟩ := mapM_orderFromIntent ho
  split at hpass
  · cases hpass
    have hsub := foldl_submitIntent reply orderSet (orderSet.approved.zip orders) g
    have hfills := foldl_submitIntent_fills orderSet approved hminted
      hecho (fun item hi => ⟨hi, (hzip item hi).2⟩) { graph := g } (hstart _)
    refine ⟨foldl_submitIntent_only reply _ (.refl g), (orderSet.approved.zip orders).filter
      fun item => decide (item.2 ∈ ((orderSet.approved.zip orders).foldl
        (submitIntent reply orderSet) { graph := g }).submissions), fun item hi =>
      hzip item (List.mem_of_mem_filter hi), fun order => ⟨fun hord => ?_, ?_⟩,
      hfills.mono fun item hi => (hzip item hi.1).1, fun intent hi hno fill hfill => ?_⟩
    · obtain ⟨item, hitem, rfl⟩ := hsub.orders order hord
      exact ⟨item, List.mem_filter.mpr ⟨hitem, decide_eq_true hord⟩, rfl⟩
    · rintro ⟨item, hitem, rfl⟩
      exact of_decide_eq_true (List.mem_filter.mp hitem).2
    · obtain ⟨item, ⟨hmem, hhanded⟩, -, hticker, -⟩ := hfills intent hi fill hfill
      exact absurd hticker (hno item (List.mem_filter.mpr ⟨hmem, decide_eq_true hhanded⟩))
  · obtain ⟨t, hrejected, hret⟩ := Fallible.bind_eq_ok.mp hpass
    cases hret
    refine ⟨?_, [], fun item hi => absurd hi List.not_mem_nil, fun order => by simp, ?_,
      fun intent hi _ fill hfill =>
        (foldlM_rejected_refused hrejected hfresh intent hi fill hfill).outcome⟩
    · exact Fallible.foldlM_induction (P := fun _ t => FillsOnly g t) hrejected (.refl g)
        fun _ _ _ _ _ _ ht hw => ht.write hw
    · refine Fallible.foldlM_induction (P := fun _ t => FillsOf settings.tolerance t approved
        orderSet.runId fun item => item.1 ∈ orderSet.approved) hrejected (hstart _)
        fun done fill rest t t' hsplit ht hw => ?_
      have hmem : fill ∈ orders.map fun order => rejectedBrokerFill order
          ("stage " ++ (currentStageFromGraph g settings.stage).value ++
            " requires live broker gating") := by
        rw [hsplit]; simp
      obtain ⟨order, horder, rfl⟩ := List.mem_map.mp hmem
      obtain ⟨intent, hintent, hof⟩ := Fallible.mem_of_mapM ho horder
      have hhandled : (fun item : OrderIntent × BrokerOrder => item.1 ∈ orderSet.approved)
          (intent, order) := hintent
      exact ht.write hminted hhandled hof rfl hw

/-! ### The runs of the writers -/

/-- The order intents of a run stay what its decision emitted. -/
theorem emitted_of_decision {runId createdAt analystRunId : String} {analystKey : Option String}
    {approved : List OrderIntent} {rejected : List RejectedOrder} {t : PipelineGraph}
    (hfree : g.getNode pmRunNodeLabel runId = none)
    (hok : writeOrderDecision g runId createdAt analystRunId analystKey approved rejected = .ok g')
    (hext : g'.Extends t)
    (hnew : ∀ e ∈ t.edges, e ∉ g'.edges → e.child = (pmRunNodeLabel, runId) →
      e.edgeType ≠ emittedByEdge) : Emitted t runId approved :=
  ((writeOrderDecision_written hfree hok).extends hext hnew).emitted

/-- A resume writes no order intent for its PM run. -/
theorem ancestors_of_clone {sourceRunId resumedAt : String} {stage : ResumeStage}
    {source : PipelineNode} {nodes : Dict ChainKey PipelineNode} {added : Linked}
    (h : Placeable g sourceRunId stage source nodes)
    (hw : PlacementWrote g sourceRunId stage source nodes resumedAt added g') {t : PipelineGraph}
    (hnew : ∀ e ∈ t.edges, e ∉ g'.edges → e.edgeType ≠ orderEdge) :
    t.ancestors (cloneOf (childId sourceRunId stage) .pmRun) 1 (some [orderEdge]) = [] := by
  rw [List.eq_nil_iff_forall_not_mem]
  intro n hn
  obtain ⟨e, he, hchild, htype, -⟩ := Graph.mem_ancestors_one.mp hn
  rw [List.mem_singleton] at htype
  have hmem : e ∈ g'.edges := by
    by_contra hnot
    exact hnew e he hnot htype
  rw [hw.edges_eq h] at hmem
  rcases List.mem_append.mp hmem with hold | hadded
  · have hstands := (g.closed e hold).2
    rw [hchild] at hstands
    exact h.untouched (some .pmRun) hstands
  · obtain ⟨name, hname, -⟩ := placementEdges_parent hadded
    have htypes : orderEdge ∉ (childTags stage).map Prod.snd := by
      cases stage <;> decide
    exact htypes (List.mem_map.mpr ⟨_, hname, htype⟩)

/-- The only parent of a run that no node was linked to before. -/
theorem ancestors_of_anchor {t : PipelineGraph} {settings : ExecutionSettings} {node : PipelineNode}
    {runId : String} {status : DeliberationStatus} {blockedCount : Nat} {st : SubmitState}
    (hnode : st.graph.getNode node.label node.key = some node)
    (hlabel : node.label = pmRunNodeLabel)
    (hfree : st.graph.getNode "ExecutionRun" (executionRunId "submit" runId) = none)
    (hok : anchorExecution settings node runId status blockedCount st = .ok t) :
    ∃ run : PipelineNode, run.nodeKey = ("ExecutionRun", executionRunId "submit" runId) ∧
      (t.ancestors run.nodeKey 1 (some [pmEdge])).head? = some node ∧
      (∀ label key, label ≠ "ExecutionRun" → t.getNode label key = st.graph.getNode label key) ∧
      st.graph.Extends t ∧
      ∀ e ∈ t.edges, e ∉ st.graph.edges → e.edgeType = executedEdge := by
  obtain ⟨⟨g₁, run⟩, hm, hlink⟩ := Fallible.bind_eq_ok.mp hok
  rw [liftGraph_eq_ok] at hm hlink
  have hext := (Graph.mergeNode_extends hm).trans (Graph.addEdge_extends hlink)
  obtain ⟨rfl, hl, hk, -⟩ := Graph.mergeNode_ok hm
  obtain ⟨hnodes, -, -, -⟩ := Graph.addEdge_ok hlink
  have hget := Graph.getNode_of_nodes_eq hnodes
  have hothers : ∀ label key, label ≠ "ExecutionRun" →
      t.getNode label key = st.graph.getNode label key := by
    intro label key hne
    rw [hget, Graph.getNode_put, if_neg]
    rintro ⟨rfl, -⟩
    exact hne hl
  have hkey : run.nodeKey = ("ExecutionRun", executionRunId "submit" runId) := Prod.ext hl hk
  have hne : node.nodeKey ≠ run.nodeKey := by
    rw [hkey]
    exact fun he => absurd ((Prod.mk.inj he).1.symm.trans hlabel) (by decide)
  have hparent : t.nodes.get? node.nodeKey = some node := by
    refine (hothers node.label node.key ?_).trans hnode
    rw [hlabel]
    decide
  -- no edge led to the run before
  have honly : ∀ n ∈ t.ancestors run.nodeKey 1 (some [pmEdge]), n = node := by
    intro n hn
    obtain ⟨e, he, hchild, -, -, hn⟩ := Graph.mem_ancestors_one.mp hn
    rcases (mem_addEdge hlink).mp he with hold | rfl
    · have hstands := (st.graph.closed e hold).2
      rw [hchild, hkey] at hstands
      exact absurd hstands (Dict.notMem_keys_iff.mpr hfree)
    · exact Option.some.inj (hn.symm.trans hparent)
  have hmem : node ∈ t.ancestors run.nodeKey 1 (some [pmEdge]) :=
    Graph.mem_ancestors_one.mpr ⟨_, (mem_addEdge hlink).mpr (.inr rfl), rfl,
      List.mem_singleton_self _, hne, hparent⟩
  refine ⟨run, hkey, ?_, hothers, hext, fun e he hnew => ?_⟩
  · obtain ⟨first, rest, hcons⟩ := List.exists_cons_of_ne_nil (List.ne_nil_of_mem hmem)
    rw [hcons, List.head?_cons, honly first (by rw [hcons]; exact List.mem_cons_self)]
  · rcases (mem_addEdge hlink).mp he with hold | rfl
    · exact absurd hold hnew
    · rfl

/-- A pass over a PM run without fills, whose broker answers under the keys it is given, leaves an
execution run with the orders that the pass handed to the broker. -/
theorem executedRun_of_pass {fromIso : String → Option Int} {settings : ExecutionSettings}
    {reply : Nat → BrokerOrder → BrokerReply} {node : PipelineNode} {reads : GraphReads}
    {exec : PmExecution} {s : OrderIntentSet} {t : PipelineGraph}
    (hecho : ∀ n order, (submitOrder order (reply n order)).idempotencyKey = order.idempotencyKey)
    (hs : orderIntentSet? node = some s) (hlabel : node.label = pmRunNodeLabel)
    (hrunId : s.runId = node.key)
    (hminted : "pm-run-".toList <+: node.key.toList ∨ "resume-link:".toList <+: node.key.toList)
    (halike : ∀ order ∈ s.approved, ∀ other ∈ s.approved, order.ticker = other.ticker →
      order.action = other.action ∧ order.positionRef = other.positionRef)
    (hnode : reads.submit.getNode node.label node.key = some node)
    (hfresh : ∀ intent ∈ s.approved, reads.submit.getNode fillLabel (nameOf s.runId intent) = none)
    (hfree : reads.submit.getNode "ExecutionRun" (executionRunId "submit" s.runId) = none)
    (hok : executePmNode fromIso reply settings node reads = .ok exec)
    (hanchored : exec.anchored = .ok t)
    (hemitted : ∀ u : PipelineGraph, reads.submit.Extends u →
      (∀ e ∈ u.edges, e ∉ reads.submit.edges → e.edgeType ≠ orderEdge) →
      match node.props.get? "linked_from_key" with
      | none => Emitted u node.key s.approved
      | some _ => u.ancestors node.nodeKey 1 (some [orderEdge]) = []) :
    ∃ r : ExecutedRun t, r.pmRun = node ∧ r.orderSet = s ∧
      ∀ order, order ∈ exec.submission.submissions ↔ ∃ item ∈ r.put, item.2 = order := by
  obtain ⟨s', hs', hrest⟩ := Fallible.bind_eq_ok.mp hok
  cases Option.some.inj (hs.symm.trans (requireOrderIntentSet_eq_ok.mp hs'))
  obtain ⟨kept, hkept, hrest⟩ := Fallible.bind_eq_ok.mp hrest
  obtain ⟨-, -, hrest⟩ := Fallible.bind_eq_ok.mp hrest
  obtain ⟨st, hst, hret⟩ := Fallible.bind_eq_ok.mp hrest
  cases hret
  let filtered := (applyDeliberationPosture kept (deliberationStatus fromIso reads.classified node s
    reads.now settings.deliberationGraceSeconds) settings.deliberationPosture).1
  have hid : filtered.runId = s.runId := by
    rw [show filtered.runId = kept.runId from runId_applyDeliberationPosture,
      (dropVetoed_ok hkept).1]
  have hsub : ∀ intent ∈ filtered.approved, intent ∈ s.approved := fun intent hi =>
    ((mem_dropVetoed hkept).mp (mem_applyDeliberationPosture.mp hi).1).1
  have hminted' : "pm-run-".toList <+: filtered.runId.toList ∨
      "resume-link:".toList <+: filtered.runId.toList := by
    rw [hid, hrunId]
    exact hminted
  obtain ⟨honly, put, hput, hsubmitted, hfills, hidle⟩ := runSubmit_fills s.approved
    hminted' hecho (by rw [hid]; exact hfresh) hst
  rw [show filtered.runId = s.runId from hid] at hput hfills hidle
  have hnode' : st.graph.getNode node.label node.key = some node :=
    (honly.nodes _ _ (by rw [hlabel]; decide)).trans hnode
  have hfree' : st.graph.getNode "ExecutionRun" (executionRunId "submit" filtered.runId) = none := by
    rw [hid]
    exact (honly.nodes _ _ (by decide)).trans hfree
  obtain ⟨run, hkey, hhead, hothers, hext, hedges⟩ := ancestors_of_anchor hnode' hlabel hfree'
    hanchored
  have hfillLabel : ∀ key, t.getNode fillLabel key = st.graph.getNode fillLabel key :=
    fun key => hothers _ _ (by decide)
  refine ⟨{
    run, pmRun := node, orderSet := s, config := settings.tolerance, put
    executed := hhead
    label_eq := hlabel
    payload := hs
    runId_eq := hrunId
    minted := hminted
    emitted := hemitted t (honly.grows.trans hext) fun e he hnew htype => ?_
    orders := fun item hi => ⟨hsub _ (hput item hi).1, (hput item hi).2⟩
    strayless := fun intent hi hno => ?_
    idle := fun intent hi hno fill hfill => hidle intent hi hno fill
      ((hfillLabel _).symm.trans hfill) }, rfl, rfl, hsubmitted⟩
  · by_cases hold : e ∈ st.graph.edges
    · exact hnew ((honly.edges e (by rw [htype]; decide)).mp hold)
    · exact absurd ((hedges e he hold).symm.trans htype) (by decide)
  · by_contra hne
    obtain ⟨fill, hfill⟩ := Option.ne_none_iff_exists'.mp hne
    obtain ⟨item, hmem, hof, hticker, haction, hexit⟩ := hfills intent hi fill
      ((hfillLabel _).symm.trans hfill)
    obtain ⟨-, href⟩ := halike item.1 (hsub _ hmem) intent hi hticker
    obtain ⟨side, hside, -⟩ := Fallible.bind_eq_ok.mp hof
    have hof' : orderFromIntent settings.tolerance s.runId intent =
        .ok ⟨orderKey s.runId intent side, intent.ticker, side, intent.quantity, intent.estPrice,
          resolveOrderTolerance intent side settings.tolerance⟩ := by
      rw [orderFromIntent, ← haction, hside]
      rfl
    exact hno _ hof' (key_eq_nameOf hof' fun h => hexit ⟨haction.trans h.1, href ▸ h.2⟩)

end

end TradingAgents.Orchestration
