import TradingAgents.Execution.StopRuns
import TradingAgents.Execution.StopRealign

/-! What a realignment leaves of the protection: a replaced position is live on the replacement's
fact unless the Fill that already stands under its key has ended, and the pass touches nothing
else. -/

namespace TradingAgents.Execution

open Kernel ProofKit BrokerLifecycle BrokerStops

/-- The properties that mark a replaced fact. -/
def replacementMarks : List String := ["replaced_at", "replaced_by", "replaced_by_broker_order_id"]

/-- The Fills and the stop facts are of the first schema version. -/
def Versioned (g : PipelineGraph) : Prop :=
  ∀ label key n, label = fillLabel ∨ label = brokerStopOrderLabel →
    g.getNode label key = some n → n.schemaVersion = 1

/-- The stop facts as execution writes them: each has a Fill under its key and names its position,
and one that is not ended carries no mark of a replacement. -/
structure StopFacts (g : PipelineGraph) : Prop where
  filed : ∀ key stop, g.getNode brokerStopOrderLabel key = some stop →
    (g.getNode fillLabel key).isSome
  named : ∀ key stop, g.getNode brokerStopOrderLabel key = some stop →
    ∃ ref, stop.props.get? "position_ref" = some (.str ref)
  unmarked : ∀ key stop, g.getNode brokerStopOrderLabel key = some stop → isEnded stop = false →
    ∀ name ∈ replacementMarks, stop.props.get? name = none
  version : Versioned g

/-- A fact is marked as replaced. -/
def isReplaced (g : PipelineGraph) (key : String) : Bool :=
  match g.getNode brokerStopOrderLabel key with
  | none => false
  | some stop => (truthyStr (stop.get "replaced_at")).isSome

/-- A live stop fact protects the position. -/
def Guards (g : PipelineGraph) (ref : String) : Prop := ∃ key, LiveKey g key ref

/-- No Fill under the key has ended at the broker. -/
def ClearKey (g : PipelineGraph) (key : String) : Prop :=
  ∀ current ∈ g.getNode fillLabel key,
    isTerminalFillBrokerStatus (current.get "broker_status") = false

section

variable {g g' : PipelineGraph} {key : String}

/-! ### Live facts -/

theorem StopFacts.isLive_iff (h : StopFacts g) {stop : PipelineNode} {ref : String}
    (hstop : g.getNode brokerStopOrderLabel stop.key = some stop)
    (href : stop.props.get? "position_ref" = some (.str ref)) :
    isLiveBrokerStopFact g stop = true ↔ LiveKey g stop.key ref := by
  obtain ⟨fill, hfill⟩ := Option.isSome_iff_exists.mp (h.filed _ _ hstop)
  exact isLive_iff_liveKey hstop href hfill

theorem brokerStopOrder_positionRef {stop : PipelineNode} {ref : String}
    (href : stop.props.get? "position_ref" = some (.str ref)) :
    (brokerStopOrder stop).positionRef = ref := by
  simp [brokerStopOrder, Node.get, Props.get, href, textOr, Value.str?]

/-- A stop that readers see as live is live under its key. -/
theorem StopFacts.liveKey (h : StopFacts g) {order : BrokerStopOrder}
    (hactive : order ∈ activeBrokerStopOrders g) : LiveKey g order.key order.positionRef := by
  obtain ⟨n, hn, -, hlive, rfl⟩ := mem_activeBrokerStopOrders.mp hactive
  obtain ⟨ref, href⟩ := h.named n.key n hn
  rw [brokerStopOrder_positionRef href]
  exact (h.isLive_iff hn href).mp hlive

/-- A live key has a stop that readers see as live. -/
theorem StopFacts.exists_active (h : StopFacts g) {ref : String} (hlive : LiveKey g key ref) :
    ∃ order ∈ activeBrokerStopOrders g, order.key = key ∧ order.positionRef = ref := by
  obtain ⟨n, -, hn, href, -⟩ := id hlive
  obtain ⟨hl, rfl⟩ := Graph.getNode_nodeKey hn
  exact ⟨brokerStopOrder n, mem_activeBrokerStopOrders.mpr
    ⟨n, hn, hl, (h.isLive_iff hn href).mpr hlive, rfl⟩, rfl, brokerStopOrder_positionRef href⟩

theorem StopFacts.mem_refs (h : StopFacts g) {ref : String} :
    ref ∈ activeBrokerStopRefs g ↔ Guards g ref := by
  rw [activeBrokerStopRefs, List.mem_map]
  constructor
  · rintro ⟨order, hactive, rfl⟩
    exact ⟨order.key, h.liveKey hactive⟩
  · rintro ⟨key, hlive⟩
    obtain ⟨order, hactive, -, href⟩ := h.exists_active hlive
    exact ⟨order, hactive, href⟩

/-! ### The writes of a replacement -/

theorem Versioned.mergeNode (h : Versioned g) {label : String} {props : Props Document}
    {n : PipelineNode} (hm : g.mergeNode label key props = .ok (g', n)) : Versioned g' := by
  obtain ⟨rfl, -, -, hversion, -⟩ := Graph.mergeNode_ok hm
  intro label' key' m hl hget
  rw [Graph.getNode_put] at hget
  split at hget
  · cases hget; exact hversion
  · exact h label' key' m hl hget

theorem Versioned.addEdge (h : Versioned g) {parent child : NodeKey} {edgeType : String}
    (hadd : g.addEdge parent child edgeType = .ok g') : Versioned g' := by
  intro label key' m hl hget
  rw [Graph.getNode_of_nodes_eq (Graph.addEdge_ok hadd).1] at hget
  exact h label key' m hl hget

theorem Versioned.writeStopFill (h : Versioned g) {plan : BrokerStopThresholdPlan}
    {fill : BrokerFill} {node : PipelineNode}
    (hok : Execution.writeStopFill g plan key fill = .ok (g', node)) : Versioned g' :=
  h.mergeNode (liftGraph_eq_ok.mp hok)

theorem Versioned.writeStopOrder (h : Versioned g) {plan : BrokerStopThresholdPlan}
    {fill : BrokerFill} {node : PipelineNode} {now : Timestamp} {replaces : Option BrokerStopOrder}
    (hok : Execution.writeStopOrder g node plan key fill now replaces = .ok g') : Versioned g' := by
  obtain ⟨⟨g₁, stop⟩, hm, hadd⟩ := Fallible.bind_eq_ok.mp hok
  exact (h.mergeNode (liftGraph_eq_ok.mp hm)).addEdge (liftGraph_eq_ok.mp hadd)

theorem Versioned.markReplaced (h : Versioned g) {old : BrokerStopOrder} {fill : BrokerFill}
    {now : Timestamp} (hok : Execution.markReplaced g old key fill now = .ok g') :
    Versioned g' := by
  obtain ⟨⟨g₁, n⟩, hm, hret⟩ := Fallible.bind_eq_ok.mp hok
  cases hret
  exact h.mergeNode (liftGraph_eq_ok.mp hm)

/-- No write of a stop's Fill is refused. -/
theorem StopFacts.writeStopFill (h : StopFacts g) (plan : BrokerStopThresholdPlan) (key : String)
    (fill : BrokerFill) : ∃ g₁ node, Execution.writeStopFill g plan key fill = .ok (g₁, node) := by
  unfold Execution.writeStopFill
  simp only [liftGraph_eq_ok]
  obtain ⟨hkey, hprops, hfits, -⟩ := selectFillAttempt_spec g key (stopFillProps plan key fill)
    (forcesNewAttempt g key fill)
  generalize selectFillAttempt g key (stopFillProps plan key fill) (forcesNewAttempt g key fill) =
    attempt at hkey hprops hfits
  rw [attemptFits, ← hkey] at hfits
  cases hcurrent : g.getNode fillLabel attempt.key with
  | none => exact ⟨_, _, Graph.mergeNode_fresh _ hcurrent⟩
  | some current =>
    rw [hcurrent] at hfits
    simp only [Bool.and_eq_true, ← hprops] at hfits
    have hok := appendProps_of_compatible hfits.2
    exact ⟨_, _, Graph.mergeNode_of_noConflict hcurrent (h.version _ _ _ (.inl rfl) hcurrent)
      (Graph.appendProps_ok_iff.mp hok).1⟩

/-- The fact of a stop under a free key is written beside its Fill. -/
theorem writeStopOrder_fresh {node : PipelineNode} (plan : BrokerStopThresholdPlan)
    (fill : BrokerFill) (now : Timestamp) (replaces : Option BrokerStopOrder)
    (hfree : g.getNode brokerStopOrderLabel key = none)
    (hnode : g.getNode node.label node.key = some node) :
    ∃ g₂, writeStopOrder g node plan key fill now replaces = .ok g₂ := by
  have hmerge := Graph.mergeNode_fresh (stopOrderProps plan fill now replaces) hfree
  generalize (⟨brokerStopOrderLabel, key, stopOrderProps plan fill now replaces, 1⟩ :
    PipelineNode) = stop at hmerge
  have hp : node.nodeKey ∈ (g.put stop).nodes.keys := by
    refine Graph.mem_keys_iff.mpr ?_
    rw [Graph.getNode_put]
    split
    · rfl
    · rw [hnode]; rfl
  have hc : stop.nodeKey ∈ (g.put stop).nodes.keys :=
    Graph.mem_keys_iff.mpr (by rw [Graph.getNode_put, if_pos ⟨rfl, rfl⟩]; rfl)
  refine ⟨(g.put stop).link ⟨node.nodeKey, stop.nodeKey, stopFillEdge⟩ hp hc, ?_⟩
  unfold writeStopOrder
  rw [liftGraph_eq_ok.mpr hmerge]
  exact liftGraph_eq_ok.mpr (Graph.addEdge_eq_link stopFillEdge hp hc)

/-- The marker of a fact that carries none is written. -/
theorem markReplaced_fresh {old : BrokerStopOrder} {stop : PipelineNode} (key : String)
    (fill : BrokerFill) (now : Timestamp)
    (hold : g.getNode brokerStopOrderLabel old.key = some stop)
    (hversion : stop.schemaVersion = 1)
    (hunmarked : ∀ name ∈ replacementMarks, stop.props.get? name = none) :
    ∃ g₃, markReplaced g old key fill now = .ok g₃ := by
  unfold markReplaced
  generalize hmarks : (.ofList [("replaced_at", .str now.text), ("replaced_by", .str key),
    ("replaced_by_broker_order_id", .str fill.brokerOrderId)] : Props Document) = marks
  have hfree : ∀ name, ¬ Graph.Conflicts stop.props marks name := by
    rintro name ⟨v, w, hv, hw, -⟩
    have hmem : name ∈ replacementMarks := by
      rw [← hmarks] at hw
      by_contra hne
      simp only [replacementMarks, List.mem_cons, List.not_mem_nil, or_false, not_or] at hne
      simp [Dict.ofList, hne] at hw
    rw [hunmarked name hmem] at hv
    cases hv
  rw [liftGraph_eq_ok.mpr (Graph.mergeNode_of_noConflict hold hversion hfree)]
  exact ⟨_, rfl⟩

/-- After the Fill of a replacement is written, the Fill under its key has the broker status of the
Fill that stood there, if one did. -/
theorem StopFillWritten.underKey {fill : BrokerFill} {node : PipelineNode}
    {plan : BrokerStopThresholdPlan} (hw : StopFillWritten g g' key fill node)
    (hkey : RecordsUnderKey g plan key fill → node.key = key) :
    ∃ after, g'.getNode fillLabel key = some after ∧
      (isTerminalFillBrokerStatus (after.get "broker_status") = false ↔ ClearKey g key) := by
  cases hcurrent : g.getNode fillLabel key with
  | none =>
    have hk := hkey (recordsUnderKey_of_free hcurrent)
    refine ⟨node, hk ▸ hw.stands, ?_⟩
    have hnull : node.get "broker_status" = .null := by
      rw [Node.get, Props.get, hw.brokerStatus, hk, hcurrent]; rfl
    rw [hnull, ClearKey, hcurrent]
    exact iff_of_true (by decide) (by simp)
  | some current =>
    obtain ⟨after, hafter, -, hstatus⟩ := hw.grows.fills key current hcurrent
    refine ⟨after, hafter, ?_⟩
    rw [ClearKey, hcurrent, Node.get, Props.get, hstatus]
    simp [Node.get, Props.get]

/-- What the writes of a replacement leave of the stop facts: the old fact is dead, and the new one
is live for its position unless the Fill under its key has ended. -/
structure ReplacedStop (g g' : PipelineGraph) (ref old key : String) : Prop where
  facts : StopFacts g'
  live : ∀ k r, LiveKey g' k r ↔ (k = key ∧ r = ref ∧ ClearKey g key) ∨ (k ≠ old ∧ LiveKey g k r)
  marked : ∀ k, isReplaced g' k = true → isReplaced g k = true ∨ k = old

/-- The fact of a replacement beside its Fill, before the old fact is marked. -/
theorem StopFacts.recorded (h : StopFacts g) {plan : BrokerStopThresholdPlan} {fill : BrokerFill}
    {now : Timestamp} {replaces : Option BrokerStopOrder} {g₁ : PipelineGraph} {node : PipelineNode}
    (hfree : g.getNode brokerStopOrderLabel key = none)
    (hfill : Execution.writeStopFill g plan key fill = .ok (g₁, node))
    (horder : writeStopOrder g₁ node plan key fill now replaces = .ok g') :
    StopFacts g' ∧ (∀ k r, LiveKey g' k r ↔
      (k = key ∧ r = plan.threshold.positionRef ∧ ClearKey g key) ∨ LiveKey g k r) ∧
      ∀ k, isReplaced g' k = isReplaced g k := by
  obtain ⟨hw, hkey⟩ := writeStopFill_ok hfill
  have hstops : ∀ k, g₁.getNode brokerStopOrderLabel k = g.getNode brokerStopOrderLabel k :=
    fun k => hw.grows.others _ k (by decide)
  have ho := writeStopOrder_ok ((hstops key).trans hfree) horder
  obtain ⟨-, hposition, hcancelled, hreplaced⟩ := stopOrderProps_get? plan fill now replaces
  have hmarks : ∀ name ∈ replacementMarks, (stopOrderProps plan fill now replaces).get? name =
      none := by
    intro name hname
    simp only [replacementMarks, List.mem_cons, List.not_mem_nil, or_false] at hname
    rcases hname with rfl | rfl | rfl <;> cases replaces <;> simp [stopOrderProps, Dict.ofList]
  generalize stopOrderProps plan fill now replaces = props
    at ho hposition hcancelled hreplaced hmarks
  have hnew : g'.getNode brokerStopOrderLabel key =
      some ⟨brokerStopOrderLabel, key, props, 1⟩ := by rw [ho.nodes, if_pos ⟨rfl, rfl⟩]
  have hold : ∀ k, k ≠ key → g'.getNode brokerStopOrderLabel k = g.getNode brokerStopOrderLabel k :=
    fun k hk => by rw [ho.nodes, if_neg fun hc => hk hc.2, hstops]
  have hfills : ∀ k, g'.getNode fillLabel k = g₁.getNode fillLabel k :=
    fun k => by rw [ho.nodes, if_neg fun hc => absurd hc.1 (by decide)]
  obtain ⟨after, hafter, hclear⟩ := hw.underKey hkey
  have hunended : isEnded (⟨brokerStopOrderLabel, key, props, 1⟩ : PipelineNode) = false := by
    simp [isEnded, endedMarkers, Node.get, Props.get, hcancelled, hreplaced, truthyStr]
  have hkept : FillsKept g g' := fun k current hc => by
    obtain ⟨grown, hgrown, hrest⟩ := hw.grows.fills k current hc
    exact ⟨grown, (hfills k).trans hgrown, hrest⟩
  refine ⟨⟨fun k stop hs => ?_, fun k stop hs => ?_, fun k stop hs hend => ?_,
    (h.version.writeStopFill hfill).writeStopOrder horder⟩, fun k r => ?_, fun k => ?_⟩
  · by_cases hk : k = key
    · rw [hk, hfills, hafter]; rfl
    · rw [hold k hk] at hs
      obtain ⟨current, hc⟩ := Option.isSome_iff_exists.mp (h.filed k stop hs)
      obtain ⟨grown, hgrown, -⟩ := hkept k current hc
      rw [hgrown]; rfl
  · by_cases hk : k = key
    · rw [hk, hnew] at hs
      cases hs
      exact ⟨_, hposition⟩
    · rw [hold k hk] at hs
      exact h.named k stop hs
  · by_cases hk : k = key
    · rw [hk, hnew] at hs
      cases hs
      exact hmarks
    · rw [hold k hk] at hs
      exact h.unmarked k stop hs hend
  · by_cases hk : k = key
    · subst hk
      have hdead : ¬ LiveKey g k r := by
        rintro ⟨stop, -, hs, -⟩
        rw [hfree] at hs; cases hs
      simp only [hdead, or_false, true_and]
      constructor
      · rintro ⟨stop, current, hs, hr, -, hc, hterminal⟩
        rw [hnew] at hs
        rw [hfills, hafter] at hc
        cases hs; cases hc
        rw [hposition] at hr
        cases hr
        exact ⟨rfl, hclear.mp hterminal⟩
      · rintro ⟨rfl, hc⟩
        exact ⟨_, after, hnew, hposition, hunended, (hfills k).trans hafter, hclear.mpr hc⟩
    · simp only [hk, false_and, false_or]
      exact ⟨fun hlive => hlive.shrink_filed (hold k hk) hkept (h.filed k),
        fun hlive => hlive.grow (hold k hk) hkept⟩
  · by_cases hk : k = key
    · rw [hk, isReplaced, isReplaced, hnew, hfree]
      simp [Node.get, Props.get, hreplaced, truthyStr]
    · rw [isReplaced, isReplaced, hold k hk]

/-- A marker ends one fact and keeps the others as they are. -/
theorem StopFacts.ended (h : StopFacts g) (hend : EndedAt g g' key)
    (hstands : (g.getNode brokerStopOrderLabel key).isSome) (hversion : Versioned g') :
    StopFacts g' := by
  obtain ⟨stop, hstop⟩ := Option.isSome_iff_exists.mp hstands
  obtain ⟨after, hafter, hgrows, hdead⟩ := hend.stop stop hstop
  refine ⟨fun k n hn => ?_, fun k n hn => ?_, fun k n hn hlive => ?_, hversion⟩
  · rw [hend.fills]
    obtain ⟨m, hm⟩ := Option.isSome_iff_exists.mp ((hend.isSome_iff hstands k).mp (by rw [hn]; rfl))
    exact h.filed k m hm
  · by_cases hk : k = key
    · rw [hk, hafter] at hn
      cases hn
      obtain ⟨ref, href⟩ := h.named _ _ hstop
      exact ⟨ref, hgrows.get_str (by decide) href⟩
    · rw [hend.stops hk] at hn
      exact h.named k n hn
  · by_cases hk : k = key
    · rw [hk, hafter] at hn
      cases hn
      rw [hdead] at hlive; cases hlive
    · rw [hend.stops hk] at hn
      exact h.unmarked k n hn hlive

theorem EndedAt.isReplaced (hend : EndedAt g g' key) {k : String}
    (hk : Execution.isReplaced g' k = true) : Execution.isReplaced g k = true ∨ k = key := by
  by_cases hkey : k = key
  · exact .inr hkey
  · rw [Execution.isReplaced, hend.stops hkey] at hk
    exact .inl hk

/-- The three writes of a replacement go through. -/
theorem StopFacts.replaced (h : StopFacts g) (plan : BrokerStopThresholdPlan)
    {old : BrokerStopOrder} (fill : BrokerFill) (now : Timestamp) {ref : String}
    (hlive : LiveKey g old.key ref) (hfree : g.getNode brokerStopOrderLabel key = none) :
    ∃ g₁ node g₂ g₃, Execution.writeStopFill g plan key fill = .ok (g₁, node) ∧
      writeStopOrder g₁ node plan key fill now (some old) = .ok g₂ ∧
      markReplaced g₂ old key fill now = .ok g₃ ∧
      ReplacedStop g g₃ plan.threshold.positionRef old.key key := by
  obtain ⟨g₁, node, hfill⟩ := h.writeStopFill plan key fill
  have hw := (writeStopFill_ok hfill).1
  have hfree₁ : g₁.getNode brokerStopOrderLabel key = none :=
    (hw.grows.others _ _ (by decide)).trans hfree
  obtain ⟨g₂, horder⟩ := writeStopOrder_fresh plan fill now (some old) hfree₁
    (by rw [hw.label]; exact hw.stands)
  obtain ⟨hfacts, hlive₂, hmarked⟩ := h.recorded hfree hfill horder
  obtain ⟨stop, -, hstop, -, hended, -⟩ := (hlive₂ _ _).mpr (.inr hlive)
  obtain ⟨g₃, hmark⟩ := markReplaced_fresh key fill now hstop
    (hfacts.version _ _ _ (.inr rfl) hstop) (hfacts.unmarked _ _ hstop hended)
  have hend := markReplaced_ended hmark
  have hstands : (g₂.getNode brokerStopOrderLabel old.key).isSome := by rw [hstop]; rfl
  refine ⟨g₁, node, g₂, g₃, hfill, horder, hmark,
    hfacts.ended hend hstands (hfacts.version.markReplaced hmark), fun k r => ?_, fun k hk => ?_⟩
  · rw [hend.liveKey_iff hstands, hlive₂]
    constructor
    · rintro ⟨hne, hnew | hlive⟩
      · exact .inl hnew
      · exact .inr ⟨hne, hlive⟩
    · rintro (⟨rfl, hrest⟩ | ⟨hne, hlive⟩)
      · refine ⟨?_, .inl ⟨rfl, hrest⟩⟩
        rintro rfl
        obtain ⟨_, -, hs, -⟩ := hlive
        rw [hfree] at hs; cases hs
      · exact ⟨hne, .inr hlive⟩
  · rw [← hmarked]
    exact hend.isReplaced hk

/-! ### Every graph that the operations reach -/

theorem StopFacts.grow (h : StopFacts g)
    (hstops : ∀ k, g'.getNode brokerStopOrderLabel k = g.getNode brokerStopOrderLabel k)
    (hfills : ∀ k, (g.getNode fillLabel k).isSome → (g'.getNode fillLabel k).isSome)
    (hversion : Versioned g') : StopFacts g' := by
  refine ⟨fun k n hn => ?_, fun k n hn => ?_, fun k n hn => ?_, hversion⟩
  · rw [hstops] at hn
    exact hfills k (h.filed k n hn)
  · rw [hstops] at hn
    exact h.named k n hn
  · rw [hstops] at hn
    exact h.unmarked k n hn

theorem StopFacts.quiet (h : StopFacts g) (hquiet : Quiet g g') (hversion : Versioned g') :
    StopFacts g' := by
  refine h.grow hquiet.stops (fun k hk => ?_) hversion
  obtain ⟨current, hcurrent⟩ := Option.isSome_iff_exists.mp hk
  obtain ⟨grown, hgrown, -⟩ := hquiet.fills k current hcurrent
  rw [hgrown]; rfl

theorem Versioned.writeFill (h : Versioned g) {fill : BrokerFill} {orderSet : OrderIntentSet}
    (hok : Execution.writeFill g fill orderSet = .ok g') : Versioned g' := by
  obtain ⟨⟨g₁, node⟩, hm, hrest⟩ := Fallible.bind_eq_ok.mp hok
  have hv := h.mergeNode (liftGraph_eq_ok.mp hm)
  simp only at hrest
  split at hrest
  · cases hrest; exact hv
  split at hrest
  · cases hrest; exact hv
  exact hv.addEdge (liftGraph_eq_ok.mp hrest)

theorem Versioned.refreshFill (h : Versioned g) {reports : List BrokerFill} {now : String}
    {node : PipelineNode} (hok : Execution.refreshFill reports now g node = .ok g') :
    Versioned g' := by
  unfold Execution.refreshFill at hok
  split at hok
  · cases hok; exact h
  split at hok
  · cases hok; exact h
  split at hok
  · cases hok; exact h
  simp only at hok
  split at hok
  · cases hok; exact h
  obtain ⟨⟨g₁, after⟩, hm, hret⟩ := Fallible.bind_eq_ok.mp hok
  cases hret
  exact h.mergeNode (liftGraph_eq_ok.mp hm)

theorem Versioned.mergeElsewhere (h : Versioned g) {label : String} {props : Props Document}
    (hok : Execution.mergeElsewhere g label key props = .ok g') : Versioned g' := by
  unfold Execution.mergeElsewhere at hok
  split at hok
  · cases hok
  · obtain ⟨⟨g₁, n⟩, hm, hret⟩ := Fallible.bind_eq_ok.mp hok
    cases hret
    exact h.mergeNode (liftGraph_eq_ok.mp hm)

theorem Versioned.linkElsewhere (h : Versioned g) {parent child : NodeKey} {edgeType : String}
    (hok : Execution.linkElsewhere g parent child edgeType = .ok g') : Versioned g' := by
  unfold Execution.linkElsewhere at hok
  split at hok
  · cases hok
  · exact h.addEdge (liftGraph_eq_ok.mp hok)

/-- Every operation keeps the stop facts as execution writes them. -/
theorem StopFacts.apply (h : StopFacts g) {op : StopOp} (hok : op.apply g = .ok g') :
    StopFacts g' := by
  cases op with
  | submit fill orderSet =>
    exact h.quiet (writeFill_ok hok).1.quiet (h.version.writeFill hok)
  | place plan fill now =>
    simp only [StopOp.apply] at hok
    split at hok
    · cases hok; exact h
    rename_i key hkey
    obtain ⟨⟨g₁, node⟩, hfill, hrest⟩ := Fallible.bind_eq_ok.mp hok
    simp only at hrest
    split at hrest
    · cases hrest
      exact h.quiet (writeStopFill_ok hfill).1.grows.quiet (h.version.writeStopFill hfill)
    · exact (h.recorded (nextBrokerStopOrderKey_free hkey) hfill hrest).1
  | replace plan old fill now =>
    simp only [StopOp.apply] at hok
    split at hok
    · rename_i hactive
      obtain ⟨⟨g₁, node⟩, hfill, hrest⟩ := Fallible.bind_eq_ok.mp hok
      obtain ⟨g₂, horder, hmark⟩ := Fallible.bind_eq_ok.mp hrest
      obtain ⟨hfacts, hlive, -⟩ := h.recorded (freeBrokerStopOrderKey_free _ _ _) hfill horder
      obtain ⟨stop, -, hstop, -⟩ := (hlive _ _).mpr (.inr (h.liveKey hactive))
      exact hfacts.ended (markReplaced_ended hmark) (by rw [hstop]; rfl)
        (hfacts.version.markReplaced hmark)
    · cases hok; exact h
  | cancel order now =>
    simp only [StopOp.apply] at hok
    split at hok
    · rename_i hactive
      obtain ⟨⟨g₁, n⟩, hm, hret⟩ := Fallible.bind_eq_ok.mp hok
      cases hret
      exact h.ended (cancelStop_ended hok) (stands_of_active hactive)
        (h.version.mergeNode (liftGraph_eq_ok.mp hm))
    · cases hok; exact h
  | refresh reports now =>
    have href := refreshPendingFills_ok hok
    refine h.grow (fun k => href.others _ k (by decide)) (fun k hk => ?_) ?_
    · obtain ⟨current, hcurrent⟩ := Option.isSome_iff_exists.mp hk
      obtain ⟨after, hafter, -⟩ := href.fills k current hcurrent
      rw [hafter]; rfl
    · exact Fallible.foldlM_induction (P := fun _ t => Versioned t) hok h.version
        fun _ _ _ _ _ _ hv hstep => hv.refreshFill hstep
  | merge label key props =>
    exact h.quiet (mergeElsewhere_quiet hok) (h.version.mergeElsewhere hok)
  | link parent child edgeType =>
    exact h.quiet (linkElsewhere_quiet hok) (h.version.linkElsewhere hok)

theorem StopFacts.reach
    (h : Reach StopOp.apply (fun _ _ => True) (· = Graph.empty) g) : StopFacts g := by
  refine h.invariant (fun s hs => ?_) fun _ _ _ hP _ hok => hP.apply hok
  subst hs
  exact ⟨fun _ _ hn => (by cases hn), fun _ _ hn => (by cases hn), fun _ _ hn => (by cases hn),
    fun _ _ _ _ hn => (by cases hn)⟩

end

end TradingAgents.Execution
