import TradingAgents.Execution.Orders

/-! The write path of a portfolio decision: one PMRun, an OrderIntent for each approved order, and a
Rejection for each refused one. -/

namespace TradingAgents.PortfolioManager

open Kernel ProofKit Execution

def pmRunNodeLabel : String := "PMRun"

def orderIntentLabel : String := "OrderIntent"

def rejectionLabel : String := "Rejection"

def emittedByEdge : String := "EMITTED_BY"

/-- The properties of an order intent that the modelled functions read. -/
def intentProps (order : TradingAgents.OrderIntent) : Props Document := .ofList [
  ("ticker", .str order.ticker),
  ("action", .str order.action.value),
  ("quantity", .int order.quantity),
  ("est_price_cents", .int (moneyToCents order.estPrice)),
  ("est_price_currency", .str order.estPrice.currency),
  ("position_ref", textOrNull order.positionRef)]

/-- The edge of a decision to the recommendation it answers. -/
def linkRecommendation (g : PipelineGraph) (node : PipelineNode) (analystKey : Option String)
    (ticker edgeType : String) : Except HandlerError PipelineGraph :=
  match analystKey with
  | none => .ok g
  | some key =>
    match g.getNode "Recommendation" (key ++ ":" ++ ticker) with
    | none => .ok g
    | some recommendation => liftGraph (g.addEdge node.nodeKey recommendation.nodeKey edgeType)

/-- One approved order under its run. -/
def writeIntent (runId : String) (analystKey : Option String) (g : PipelineGraph)
    (order : TradingAgents.OrderIntent) : Except HandlerError PipelineGraph := do
  let (g, node) ← liftGraph
    (g.mergeNode orderIntentLabel (runId ++ ":" ++ order.ticker) (intentProps order))
  let g ← liftGraph (g.addEdge node.nodeKey (pmRunNodeLabel, runId) emittedByEdge)
  linkRecommendation g node analystKey order.ticker "APPROVES"

/-- One refused order under its run. -/
def writeRejection (runId : String) (analystKey : Option String) (g : PipelineGraph)
    (rejection : TradingAgents.RejectedOrder) : Except HandlerError PipelineGraph := do
  let (g, node) ← liftGraph (g.mergeNode rejectionLabel (runId ++ ":" ++ rejection.ticker)
    (.ofList [("ticker", .str rejection.ticker), ("reason", .str rejection.reason)]))
  let g ← liftGraph (g.addEdge node.nodeKey (pmRunNodeLabel, runId) "REJECTED_IN")
  linkRecommendation g node analystKey rejection.ticker "REJECTS"

/-- Write one PM run and its order intents; `runId` is freshly drawn. -/
def writeOrderDecision (g : PipelineGraph) (runId createdAt analystRunId : String)
    (analystKey : Option String) (approved : List TradingAgents.OrderIntent)
    (rejected : List TradingAgents.RejectedOrder) :
    Except HandlerError PipelineGraph := do
  let (g, _) ← liftGraph (g.mergeNode pmRunNodeLabel runId (.ofList [
    ("approved_count", .int approved.length),
    ("rejected_count", .int rejected.length),
    ("source_analyst_run_id", .str analystRunId),
    ("created_at", .str createdAt)]))
  let g ← approved.foldlM (writeIntent runId analystKey) g
  rejected.foldlM (writeRejection runId analystKey) g

/-! ### What a decision leaves -/

/-- The order intents that a PM run emitted are those of its approved orders: each stands under the
run and its ticker, with the ticker and the action of the order. -/
structure Emitted (g : PipelineGraph) (runId : String)
    (approved : List TradingAgents.OrderIntent) : Prop where
  only : ∀ n ∈ g.ancestors (pmRunNodeLabel, runId) 1 (some [emittedByEdge]),
    ∃ order ∈ approved, n.nodeKey = (orderIntentLabel, runId ++ ":" ++ order.ticker) ∧
      n.props.get? "ticker" = some (.str order.ticker) ∧
      n.props.get? "action" = some (.str order.action.value)
  every : ∀ order ∈ approved, ∃ n ∈ g.ancestors (pmRunNodeLabel, runId) 1 (some [emittedByEdge]),
    n.nodeKey = (orderIntentLabel, runId ++ ":" ++ order.ticker)
  alike : ∀ order ∈ approved, ∀ other ∈ approved, order.ticker = other.ticker →
    order.action = other.action ∧ order.positionRef = other.positionRef

section

variable {g g' t t' : PipelineGraph} {runId : String} {analystKey : Option String}
  {approved done : List TradingAgents.OrderIntent}

/-- The order intents written so far, with their edges to the run. -/
structure Written (runId : String) (done : List TradingAgents.OrderIntent)
    (t : PipelineGraph) : Prop where
  edges : ∀ e ∈ t.edges, e.child = (pmRunNodeLabel, runId) → e.edgeType = emittedByEdge →
    ∃ order ∈ done, e.parent = (orderIntentLabel, runId ++ ":" ++ order.ticker)
  nodes : ∀ order ∈ done,
    (⟨(orderIntentLabel, runId ++ ":" ++ order.ticker), (pmRunNodeLabel, runId), emittedByEdge⟩ :
      Edge) ∈ t.edges ∧
    ∃ n, t.getNode orderIntentLabel (runId ++ ":" ++ order.ticker) = some n ∧
      n.props.get? "ticker" = some (.str order.ticker) ∧
      n.props.get? "action" = some (.str order.action.value) ∧
      n.props.get? "position_ref" = some (textOrNull order.positionRef)

theorem textOrNull_canon {a b : Option String} (h : (textOrNull a).canon = (textOrNull b).canon) :
    a = b := by
  cases a <;> cases b <;> simp_all [textOrNull, Value.canon]

theorem action_value_injective {a b : Action} (h : a.value = b.value) : a = b := by
  cases a <;> cases b <;> first | rfl | exact absurd h (by decide)

/-- What stands of the written intents stands in every later graph. -/
theorem Written.extends (h : Written runId done t) (hext : t.Extends t')
    (hnew : ∀ e ∈ t'.edges, e ∉ t.edges → e.child = (pmRunNodeLabel, runId) →
      e.edgeType ≠ emittedByEdge) : Written runId done t' := by
  refine ⟨fun e he hchild htype => ?_, fun order ho => ?_⟩
  · by_cases hold : e ∈ t.edges
    · exact h.edges e hold hchild htype
    · exact absurd htype (hnew e he hold hchild)
  · obtain ⟨hedge, n, hn, hticker, haction, href⟩ := h.nodes order ho
    obtain ⟨n', hn', hgrows⟩ := hext.nodes _ _ n hn
    refine ⟨hext.edges.subset hedge, n', hn', hgrows.get_str (by decide) hticker,
      hgrows.get_str (by decide) haction, ?_⟩
    obtain ⟨w, hw, hcanon⟩ := hgrows "position_ref" _ (by decide) href
    rw [hw]
    cases hr : order.positionRef with
    | none =>
      rw [hr] at hcanon
      cases w <;> simp_all [textOrNull, Value.canon]
    | some s =>
      rw [hr] at hcanon
      cases w <;> simp_all [textOrNull, Value.canon]

theorem mem_addEdge {parent child : NodeKey} {edgeType : String}
    (h : t.addEdge parent child edgeType = .ok t') {e : Edge} :
    e ∈ t'.edges ↔ e ∈ t.edges ∨ e = ⟨parent, child, edgeType⟩ := by
  obtain ⟨-, -, -, hedges⟩ := Graph.addEdge_ok h
  rw [hedges]
  split
  · exact ⟨.inl, fun he => he.elim id fun he => he ▸ ‹_›⟩
  · rw [List.mem_append, List.mem_singleton]

/-- A link to a recommendation adds no order intent of the run. -/
theorem Written.link (h : Written runId done t) {node : PipelineNode} {ticker : String}
    (edgeType : String)
    (hne : edgeType ≠ emittedByEdge)
    (hok : linkRecommendation t node analystKey ticker edgeType = .ok t') :
    Written runId done t' := by
  unfold linkRecommendation at hok
  split at hok
  · cases hok; exact h
  split at hok
  · cases hok; exact h
  rw [liftGraph_eq_ok] at hok
  refine h.extends (Graph.addEdge_extends hok) fun e he hnew _ htype => ?_
  rcases (mem_addEdge hok).mp he with hold | rfl
  · exact hnew hold
  · exact hne htype

/-- One approved order. -/
theorem Written.intent (h : Written runId done t) {order : TradingAgents.OrderIntent}
    (hok : writeIntent runId analystKey t order = .ok t') :
    Written runId (done ++ [order]) t' := by
  obtain ⟨⟨t₁, node⟩, hm, hedges⟩ := Fallible.bind_eq_ok.mp hok
  obtain ⟨t₂, he, hlink⟩ := Fallible.bind_eq_ok.mp hedges
  rw [liftGraph_eq_ok] at hm he
  have hext := Graph.mergeNode_extends hm
  have hget := Graph.mergeNode_get? hm
  obtain ⟨rfl, hl, hk, -⟩ := Graph.mergeNode_ok hm
  have hold : Written runId done (t.put node) :=
    h.extends hext fun e he hnew _ => absurd he hnew
  have hedge : node.nodeKey = (orderIntentLabel, runId ++ ":" ++ order.ticker) :=
    Prod.ext hl hk
  have hext' := Graph.addEdge_extends he
  have hsome : ∃ n, t₂.getNode orderIntentLabel (runId ++ ":" ++ order.ticker) = some n ∧
      n.props.get? "ticker" = some (.str order.ticker) ∧
      n.props.get? "action" = some (.str order.action.value) ∧
      n.props.get? "position_ref" = some (textOrNull order.positionRef) := by
    refine ⟨node, ?_, ?_, ?_, ?_⟩
    · rw [Graph.getNode_of_nodes_eq (Graph.addEdge_ok he).1, Graph.getNode_put,
        if_pos ⟨hl.symm, hk.symm⟩]
    all_goals rw [hget]; rfl
  refine Written.link ?_ "APPROVES" (by decide) hlink
  refine ⟨fun e hmem hchild htype => ?_, fun o ho => ?_⟩
  · rcases (mem_addEdge he).mp hmem with hmem | rfl
    · obtain ⟨o, ho, hparent⟩ := hold.edges e hmem hchild htype
      exact ⟨o, List.mem_append_left _ ho, hparent⟩
    · exact ⟨order, by simp, hedge⟩
  · rcases List.mem_append.mp ho with ho | ho
    · obtain ⟨hedge', n, hn, hprops⟩ := hold.nodes o ho
      refine ⟨hext'.edges.subset hedge', n, ?_, hprops⟩
      rw [Graph.getNode_of_nodes_eq (Graph.addEdge_ok he).1]
      exact hn
    · rw [List.mem_singleton] at ho
      subst ho
      exact ⟨(mem_addEdge he).mpr (.inr (by rw [hedge])), hsome⟩

/-- One refused order. -/
theorem Written.rejection (h : Written runId done t) {rejection : TradingAgents.RejectedOrder}
    (hok : writeRejection runId analystKey t rejection = .ok t') : Written runId done t' := by
  obtain ⟨⟨t₁, node⟩, hm, hedges⟩ := Fallible.bind_eq_ok.mp hok
  obtain ⟨t₂, he, hlink⟩ := Fallible.bind_eq_ok.mp hedges
  rw [liftGraph_eq_ok] at hm he
  have hext := Graph.mergeNode_extends hm
  obtain ⟨rfl, -⟩ := Graph.mergeNode_ok hm
  have hold : Written runId done (t.put node) :=
    h.extends hext fun e he hnew _ => absurd he hnew
  refine Written.link ?_ "REJECTS" (by decide) hlink
  refine hold.extends (Graph.addEdge_extends he) fun e hmem hnew _ htype => ?_
  rcases (mem_addEdge he).mp hmem with hmem | rfl
  · exact hnew hmem
  · exact absurd (show "REJECTED_IN" = emittedByEdge from htype) (by decide)

theorem Written.emitted (h : Written runId approved g) : Emitted g runId approved := by
  have hne : ∀ ticker, (orderIntentLabel, runId ++ ":" ++ ticker) ≠ (pmRunNodeLabel, runId) :=
    fun ticker he => absurd (Prod.mk.inj he).1 (by decide)
  refine ⟨fun n hn => ?_, fun order ho => ?_, fun order ho other ho' hticker => ?_⟩
  · obtain ⟨e, he, hchild, htype, -, hget⟩ := Graph.mem_ancestors_one.mp hn
    obtain ⟨order, ho, hparent⟩ := h.edges e he hchild (List.mem_singleton.mp htype)
    obtain ⟨-, m, hm, hticker, haction, -⟩ := h.nodes order ho
    rw [hparent] at hget
    cases hm.symm.trans hget
    exact ⟨order, ho, g.named _ n hget, hticker, haction⟩
  · obtain ⟨hedge, n, hn, -⟩ := h.nodes order ho
    exact ⟨n, Graph.mem_ancestors_one.mpr ⟨_, hedge, rfl, by simp, hne _, hn⟩, g.named _ n hn⟩
  · obtain ⟨-, n, hn, -, haction, href⟩ := h.nodes order ho
    obtain ⟨-, m, hm, -, haction', href'⟩ := h.nodes other ho'
    rw [hticker, hm] at hn
    cases hn
    have hact := Option.some.inj (haction.symm.trans haction')
    have hpos := Option.some.inj (href.symm.trans href')
    exact ⟨action_value_injective (Value.str.inj hact), textOrNull_canon (by rw [hpos])⟩

/-- A decision under a run id that no node bears leaves the intents of its approved orders. -/
theorem writeOrderDecision_written {createdAt analystRunId : String}
    {rejected : List TradingAgents.RejectedOrder} (hfree : g.getNode pmRunNodeLabel runId = none)
    (hok : writeOrderDecision g runId createdAt analystRunId analystKey approved rejected =
      .ok g') : Written runId approved g' := by
  obtain ⟨⟨g₁, run⟩, hm, hloops⟩ := Fallible.bind_eq_ok.mp hok
  obtain ⟨g₂, hintents, hrejections⟩ := Fallible.bind_eq_ok.mp hloops
  rw [liftGraph_eq_ok] at hm
  obtain ⟨rfl, -⟩ := Graph.mergeNode_ok hm
  have hstart : Written runId [] (g.put run) := by
    refine ⟨fun e he hchild => ?_, fun order ho => absurd ho List.not_mem_nil⟩
    have hmem := (g.closed e he).2
    rw [hchild] at hmem
    exact absurd hmem (Dict.notMem_keys_iff.mpr hfree)
  have happroved : Written runId approved g₂ :=
    Fallible.foldlM_induction (P := fun done t => Written runId done t) hintents hstart
      fun done order rest t t' _ ht hstep => ht.intent hstep
  exact Fallible.foldlM_induction (P := fun _ t => Written runId approved t) hrejections happroved
    fun _ _ _ _ _ _ ht hstep => ht.rejection hstep

end

end TradingAgents.PortfolioManager
