import TradingAgents.Execution.PmExecution
import TradingAgents.Orchestration.FillOutcomes
import TradingAgents.PortfolioManager.OrderDecision

/-! Which orders of an execution run the outcome counts see.  The reader builds each fill's key from
the PM run, the ticker and the action; the writer keys an exit by its position, numbers a later
attempt, and gives a resumed PM run no order intents of its own.  Where the two agree every order is
counted once, in its own bucket, and the acceptance then fails a run whose orders all ended
unfilled. -/

namespace TradingAgents.Orchestration

open Kernel ProofKit Execution PortfolioManager

/-! ### Fill keys -/

/-- The key under which the reader looks for the fill of an intent. -/
def nameOf (runId : String) (intent : OrderIntent) : String :=
  runId ++ ":" ++ intent.ticker ++ ":" ++ intent.action.value

theorem action_colon (a : Action) : ¬ Text.Holds ':' a.value := by
  cases a <;> decide

theorem action_last (a : Action) : ∃ c, a.value.toList.getLast? = some c ∧ c.isDigit = false := by
  cases a
  exacts [⟨'y', by decide⟩, ⟨'l', by decide⟩, ⟨'d', by decide⟩]

/-- A name is no later attempt of a name, and it holds the ticker and the action. -/
theorem attempt_of_name {runId : String} {intent other : OrderIntent} {n : Nat}
    (h : nameOf runId other = fillAttemptKey (nameOf runId intent) n) :
    n = 0 ∧ other.ticker = intent.ticker ∧ other.action = intent.action := by
  cases n with
  | zero =>
    have hname : nameOf runId other = nameOf runId intent := h
    obtain ⟨hleft, haction⟩ := Text.split_right (c := ':') (action_colon _) (action_colon _) hname
    exact ⟨rfl, String.append_right_inj _ |>.mp hleft, action_value_injective haction⟩
  | succ n =>
    -- the attempt's key ends in a digit
    have hl := congrArg (fun s : String => s.toList.getLast?) h
    obtain ⟨c, hc, hdigit⟩ := action_last other.action
    simp only [fillAttemptKey, attemptKey, Nat.succ_ne_zero, if_false, nameOf,
      String.toList_append, List.getLast?_append, hc, Option.some_or] at hl
    cases hd : (toString (n + 1)).toList.getLast? with
    | none =>
      have hnil := List.getLast?_eq_none_iff.mp hd
      have hrepr : Nat.toDigits 10 (n + 1) = [] := by rw [← Nat.toList_repr]; exact hnil
      exact absurd hrepr Nat.toDigits_ne_nil
    | some d =>
      rw [hd, Option.some_or] at hl
      have hdd := Text.isDigit_of_mem_repr (List.mem_of_getLast? hd)
      rw [← Option.some.inj hl, hdigit] at hdd
      cases hdd

/-- An order intent is an exit that names the position it closes. -/
def ExitOfPosition (intent : OrderIntent) : Prop :=
  intent.action = .sell ∧ intent.positionRef ≠ none

/-- An order that is no exit of a position is keyed as the reader expects. -/
theorem key_eq_nameOf {config : OrderToleranceConfig} {runId : String} {intent : OrderIntent}
    {order : BrokerOrder} (hok : orderFromIntent config runId intent = .ok order)
    (h : ¬ ExitOfPosition intent) :
    order.idempotencyKey = nameOf runId intent := by
  obtain ⟨side, hside, hret⟩ := Fallible.bind_eq_ok.mp hok
  cases hret
  have hvalue : side.value = intent.action.value := by
    rcases brokerSide_eq_ok.mp hside with ⟨ha, rfl⟩ | ⟨ha, rfl⟩ <;> rw [ha] <;> rfl
  show orderKey runId intent side = _
  rw [orderKey]
  split
  · rename_i ref haction href
    exact absurd ⟨haction, by rw [href]; exact Option.some_ne_none ref⟩ h
  · rw [nameOf, hvalue]

/-- The key of an exit of a position is no key that the reader builds: a PM run draws its key, and a
resumed one is named after its child run. -/
theorem name_of_attempt {config : OrderToleranceConfig} {runId : String}
    (hminted : "pm-run-".toList <+: runId.toList ∨ "resume-link:".toList <+: runId.toList)
    {intent other : OrderIntent} {order : BrokerOrder}
    (hok : orderFromIntent config runId intent = .ok order) {n : Nat}
    (heq : nameOf runId other = fillAttemptKey order.idempotencyKey n) :
    ¬ ExitOfPosition intent ∧ n = 0 ∧ other.ticker = intent.ticker ∧
      other.action = intent.action := by
  have hexit : ¬ ExitOfPosition intent := by
    intro h
    obtain ⟨side, hside, hret⟩ := Fallible.bind_eq_ok.mp hok
    cases hret
    obtain ⟨ref, href⟩ := Option.ne_none_iff_exists'.mp h.2
    have hkey : orderKey runId intent side =
        "exit:" ++ ref ++ ":" ++ intent.ticker ++ ":sell" := by
      rw [orderKey, h.1, href]
    have hexit : "exit:".toList <+: (nameOf runId other).toList := by
      rw [heq]
      show _ <+: (fillAttemptKey (orderKey runId intent side) n).toList
      rw [hkey, fillAttemptKey, attemptKey]
      split <;> simp only [String.toList_append, List.append_assoc] <;>
        exact List.prefix_append _ _
    have hrun : runId.toList <+: (nameOf runId other).toList := by
      rw [nameOf]
      simp only [String.toList_append, List.append_assoc]
      exact List.prefix_append _ _
    have hhead : ∀ pre : String, pre.toList <+: runId.toList →
        "exit:".toList <+: pre.toList ∨ pre.toList <+: "exit:".toList := fun pre hpre =>
      List.prefix_or_prefix_of_prefix hexit (hpre.trans hrun)
    rcases hminted with h | h
    · exact absurd (hhead _ h) (by decide)
    · exact absurd (hhead _ h) (by decide)
  rw [key_eq_nameOf hok hexit] at heq
  exact ⟨hexit, attempt_of_name heq⟩

/-! ### The verdict -/

/-- The values of the only stage of its name. -/
theorem get?_observed {before after : List StageView} (stage : StageView)
    (hreached : stage.reached = true) (hname : ∀ s ∈ before ++ after, s.name ≠ stage.name) :
    (Dict.ofList (((before ++ stage :: after).filter StageView.reached).map fun s =>
      (s.name, s.observed))).get? stage.name = some stage.observed := by
  have hnot : stage.name ∉
      (((after.filter StageView.reached).map fun s => (s.name, s.observed)).map Prod.fst) := by
    rw [List.map_map]
    intro hmem
    obtain ⟨s, hs, heq⟩ := List.mem_map.mp hmem
    exact hname s (List.mem_append_right _ (List.mem_of_mem_filter hs)) heq
  rw [List.filter_append, List.filter_cons_of_pos hreached, List.map_append, List.map_cons,
    Dict.ofList, Dict.setAll_append, Dict.setAll_cons, Dict.get?_setAll_of_notMem _ hnot,
    Dict.get?_set_self]

/-- A boundary that failed is not passed over. -/
theorem not_passed {stages : List StageView} {crossChecks : List CrossCheck}
    {result : AcceptanceResult} (hok : accept stages crossChecks = .ok result) (check : CrossCheck)
    (hcheck : check ∈ crossChecks) {b : Breach} (hfail : b.severity = .fail)
    (hb : check (.ofList ((stages.filter StageView.reached).map fun s => (s.name, s.observed))) =
      some b) : result.passed = false ∧ b ∈ result.breaches := by
  obtain ⟨own, -, hret⟩ := Fallible.bind_eq_ok.mp hok
  cases hret
  have hmem : b ∈ own.flatten ++ crossChecks.filterMap fun check => check
      (.ofList ((stages.filter StageView.reached).map fun s => (s.name, s.observed))) :=
    List.mem_append_right _ (List.mem_filterMap.mpr ⟨check, hcheck, hb⟩)
  exact ⟨List.all_eq_false.mpr ⟨b, hmem, by simp [hfail]⟩, hmem⟩

/-- An execution breach leaves no room for the verdict of a run without trades. -/
theorem isNoTrade_of_breach {stages : List StageView} {found : List Breach} {evidence : Bool}
    (h : (⟨"execution", "filled", .fail⟩ : Breach) ∈ found) :
    isNoTrade stages found evidence = false := by
  have hnot : ((found.filter fun b => decide (b.severity = .fail)).map fun b =>
      (b.stage, b.key)).all (fun b => decide (b ∈ noTradeBreaches)) = false := by
    refine List.all_eq_false.mpr ⟨("execution", "filled"), List.mem_map.mpr ⟨_,
      List.mem_filter.mpr ⟨h, rfl⟩, rfl⟩, by decide⟩
  unfold isNoTrade
  cases stages.find? fun s => decide (s.name = "analyst") with
  | none => simp
  | some analyst => simp only [hnot, Bool.and_false]

/-- A run whose fills were all resolved unfilled fails. -/
theorem verdict_of_unfilled {g : PipelineGraph} {run : PipelineNode} {before after : List StageView}
    {evidence : Bool} {result : TradingAcceptanceResult}
    (hname : ∀ s ∈ before ++ after, s.name ≠ "execution")
    (hok : evaluateStages (before ++ executionView g run :: after) evidence = .ok result)
    (hne : runFills g run ≠ []) (hall : ∀ fill ∈ runFills g run, outcome fill = .unfilled) :
    result.verdict = .fail := by
  have hcount : ∀ o, o ≠ .unfilled →
      (runFills g run).countP (fun f => decide (outcome f = o)) = 0 := fun o ho => by
    rw [List.countP_eq_zero]
    intro fill hfill
    rw [hall fill hfill]
    simp [Ne.symm ho]
  have hunfilled : (runFills g run).countP (fun f => decide (outcome f = .unfilled)) =
      (runFills g run).length := by
    rw [List.countP_eq_length]
    intro fill hfill
    simp [hall fill hfill]
  have hlength : (runFills g run).length ≠ 0 := fun h => hne (List.length_eq_zero_iff.mp h)
  obtain ⟨accepted, haccept, hret⟩ := Fallible.bind_eq_ok.mp hok
  have hobserved := get?_observed (executionView g run) rfl hname
  have hbreach : ordersMustFill (.ofList (((before ++ executionView g run :: after).filter
      StageView.reached).map fun s => (s.name, s.observed))) =
        some ⟨"execution", "filled", .fail⟩ := by
    have hint : ∀ key, observedInt (.ofList (((before ++ executionView g run :: after).filter
        StageView.reached).map fun s => (s.name, s.observed))) "execution" key =
        observedInt (.ofList [("execution", (executionView g run).observed)]) "execution" key := by
      intro key
      rw [observedInt, observedInt, show (Dict.get? _ "execution") = _ from hobserved]
      rfl
    rw [ordersMustFill, hint, hint, hint]
    have horders : observedInt (.ofList [("execution", (executionView g run).observed)])
        "execution" "orders" = some ((runFills g run).length : Int) := by
      show some ((fillOutcomes g run).submitted : Int) = _
      rw [FillOutcomes.submitted, fillOutcomes, hcount _ (by decide), hunfilled,
        hcount _ (by decide), Nat.zero_add, Nat.add_zero]
    have hfilled : observedInt (.ofList [("execution", (executionView g run).observed)])
        "execution" "filled" = some 0 := by
      show some ((fillOutcomes g run).filled : Int) = _
      rw [fillOutcomes, hcount _ (by decide)]
      rfl
    have hresolved : observedInt (.ofList [("execution", (executionView g run).observed)])
        "execution" "unfilled" = some ((runFills g run).length : Int) := by
      show some ((fillOutcomes g run).unfilled : Int) = _
      rw [fillOutcomes, hunfilled]
    rw [horders, hfilled, hresolved]
    exact if_pos ⟨by exact_mod_cast hlength, rfl, rfl⟩
  obtain ⟨hpassed, hmem⟩ := not_passed haccept ordersMustFill (by simp [conservation])
    rfl hbreach
  cases hret
  rw [hpassed, isNoTrade_of_breach hmem]
  rfl

/-! ### Execution runs -/

/-- An execution run as the writers leave it: its PM run with the order set that was executed, the
tolerance settings, and the orders that were put to the broker, each with its intent. -/
structure ExecutedRun (g : PipelineGraph) where
  run : PipelineNode
  pmRun : PipelineNode
  orderSet : OrderIntentSet
  config : OrderToleranceConfig
  put : List (OrderIntent × BrokerOrder)
  executed : (g.ancestors run.nodeKey 1 (some [pmEdge])).head? = some pmRun
  label_eq : pmRun.label = pmRunNodeLabel
  payload : orderIntentSet? pmRun = some orderSet
  runId_eq : orderSet.runId = pmRun.key
  /-- A PM run draws its key, and a resumed one is named after its child run. -/
  minted : "pm-run-".toList <+: pmRun.key.toList ∨ "resume-link:".toList <+: pmRun.key.toList
  /-- A decision writes the order intents of its run, and a resume writes none. -/
  emitted : match pmRun.props.get? "linked_from_key" with
    | none => Emitted g pmRun.key orderSet.approved
    | some _ => g.ancestors pmRun.nodeKey 1 (some [orderEdge]) = []
  orders : ∀ item ∈ put, item.1 ∈ orderSet.approved ∧
    orderFromIntent config orderSet.runId item.1 = .ok item.2
  /-- A fill is recorded under the key of its order only. -/
  strayless : ∀ intent ∈ orderSet.approved,
    (∀ order, orderFromIntent config orderSet.runId intent = .ok order →
      order.idempotencyKey ≠ nameOf orderSet.runId intent) →
    g.getNode fillLabel (nameOf orderSet.runId intent) = none
  /-- An order that was not put to the broker has at most the outcome of a refusal. -/
  idle : ∀ intent ∈ orderSet.approved, (∀ item ∈ put, item.1.ticker ≠ intent.ticker) →
    ∀ fill, g.getNode fillLabel (nameOf orderSet.runId intent) = some fill →
      outcome fill = .unfilled

/-- A fill of an order: its key is the order's or that of a later attempt. -/
def OwnFill (brokerKey : String) (fill : PipelineNode) : Prop :=
  ∃ n, fill.key = fillAttemptKey brokerKey n

/-- The first recorded attempt of an order is in the bucket of the latest one. -/
def FirstIsLatest (g : PipelineGraph) (brokerKey : String) : Prop :=
  ∃ first latest, g.getNode fillLabel brokerKey = some first ∧
    latestFillAttempt g brokerKey = some latest ∧ outcome first = outcome latest

namespace ExecutedRun

variable {g : PipelineGraph}

/-- The PM run is a clone that a resume wrote. -/
def resumed (r : ExecutedRun g) : Prop := r.pmRun.props.get? "linked_from_key" ≠ none

/-- The counts see every order put to the broker once, in the bucket of its latest recorded outcome,
and no order of another run. -/
structure Counted (r : ExecutedRun g) : Prop where
  once : ∀ item ∈ r.put, ∃ before fill after, runFills g r.run = before ++ fill :: after ∧
    OwnFill item.2.idempotencyKey fill ∧
    (∀ other ∈ before ++ after, ¬ OwnFill item.2.idempotencyKey other) ∧
    ∃ latest, latestFillAttempt g item.2.idempotencyKey = some latest ∧
      outcome fill = outcome latest
  own : ∀ fill ∈ runFills g r.run, ∃ intent ∈ r.orderSet.approved, ∃ order,
    orderFromIntent r.config r.orderSet.runId intent = .ok order ∧ OwnFill order.idempotencyKey fill

/-- No verdict on the run passes over orders that all ended unfilled. -/
def VerdictHolds (r : ExecutedRun g) : Prop :=
  ∀ before after evidence result, (∀ s ∈ before ++ after, s.name ≠ "execution") →
    evaluateStages (before ++ executionView g r.run :: after) evidence = .ok result →
    r.put ≠ [] →
    (∀ item ∈ r.put, ∃ latest, latestFillAttempt g item.2.idempotencyKey = some latest ∧
      outcome latest = .unfilled) →
    result.verdict ≠ .pass ∧ result.verdict ≠ .unproven

/-! ### The reader's fills -/

theorem runFills_eq (r : ExecutedRun g) : runFills g r.run =
    (g.ancestors r.pmRun.nodeKey 1 (some [orderEdge])).filterMap
      (intentFill g (fillSource r.pmRun)) := by
  rw [runFills, r.executed]

theorem runFills_resumed (r : ExecutedRun g) (h : r.resumed) : runFills g r.run = [] := by
  have hem := r.emitted
  obtain ⟨v, hv⟩ := Option.ne_none_iff_exists'.mp h
  rw [hv] at hem
  rw [r.runFills_eq, hem]
  rfl

theorem emitted_of_not_resumed (r : ExecutedRun g) (h : ¬ r.resumed) :
    Emitted g r.pmRun.key r.orderSet.approved := by
  have hem := r.emitted
  rw [not_not.mp h] at hem
  exact hem

theorem nodeKey_pmRun (r : ExecutedRun g) : r.pmRun.nodeKey = (pmRunNodeLabel, r.pmRun.key) :=
  Prod.ext r.label_eq rfl

/-- What the reader finds for an order intent of the run. -/
theorem intentFill_eq (r : ExecutedRun g) (h : ¬ r.resumed) {n : PipelineNode}
    (hn : n ∈ g.ancestors r.pmRun.nodeKey 1 (some [orderEdge])) :
    ∃ intent ∈ r.orderSet.approved,
      n.nodeKey = (orderIntentLabel, r.pmRun.key ++ ":" ++ intent.ticker) ∧
      intentFill g (fillSource r.pmRun) n =
        g.getNode fillLabel (nameOf r.orderSet.runId intent) := by
  rw [r.nodeKey_pmRun] at hn
  obtain ⟨intent, hi, hkey, hticker, haction⟩ := (r.emitted_of_not_resumed h).only n hn
  have hsource : fillSource r.pmRun = r.orderSet.runId := by
    rw [fillSource, not_not.mp h, r.runId_eq]
  refine ⟨intent, hi, hkey, ?_⟩
  rw [intentFill, hsource]
  simp only [Node.get, Props.get, hticker, haction, Option.getD_some, valueText, nameOf]

/-- A fill that the reader found stands under the name of an approved intent. -/
theorem fill_name (r : ExecutedRun g) (h : ¬ r.resumed) {fill : PipelineNode}
    (hfill : fill ∈ runFills g r.run) : ∃ intent ∈ r.orderSet.approved,
      fill.key = nameOf r.orderSet.runId intent ∧
      g.getNode fillLabel (nameOf r.orderSet.runId intent) = some fill := by
  rw [r.runFills_eq, List.mem_filterMap] at hfill
  obtain ⟨n, hn, hfound⟩ := hfill
  obtain ⟨intent, hi, -, heq⟩ := r.intentFill_eq h hn
  rw [heq] at hfound
  exact ⟨intent, hi, (Graph.getNode_nodeKey hfound).2, hfound⟩

/-- The fill that stands under the name of an approved intent is found once. -/
theorem split_runFills (r : ExecutedRun g) (h : ¬ r.resumed) {intent : OrderIntent}
    (hi : intent ∈ r.orderSet.approved) {fill : PipelineNode}
    (hfill : g.getNode fillLabel (nameOf r.orderSet.runId intent) = some fill) :
    ∃ before after, runFills g r.run = before ++ fill :: after ∧
      ∀ other ∈ before ++ after, ¬ OwnFill (nameOf r.orderSet.runId intent) other := by
  have hem := r.emitted_of_not_resumed h
  obtain ⟨n, hn, hkey⟩ := hem.every intent hi
  rw [← r.nodeKey_pmRun] at hn
  obtain ⟨left, right, hsplit⟩ := List.append_of_mem hn
  have hnodup := Graph.nodup_ancestors_one g r.pmRun.nodeKey [orderEdge]
  have hsplit' : g.ancestors r.pmRun.nodeKey 1 (some [orderEdge]) = left ++ n :: right := hsplit
  have hticker : ∀ other : OrderIntent, r.pmRun.key ++ ":" ++ other.ticker =
      r.pmRun.key ++ ":" ++ intent.ticker → other.ticker = intent.ticker :=
    fun other heq => String.append_right_inj _ |>.mp heq
  -- the node of the intent leads to its fill
  have hfound : intentFill g (fillSource r.pmRun) n = some fill := by
    obtain ⟨other, ho, hkey', heq⟩ := r.intentFill_eq h hn
    have hsame := hticker other (Prod.mk.inj (hkey'.symm.trans hkey)).2
    obtain ⟨haction, -⟩ := hem.alike other ho intent hi hsame
    rw [heq, ← hfill, nameOf, nameOf, hsame, haction]
  refine ⟨left.filterMap (intentFill g (fillSource r.pmRun)),
    right.filterMap (intentFill g (fillSource r.pmRun)), ?_, ?_⟩
  · rw [r.runFills_eq, hsplit', List.filterMap_append, List.filterMap_cons_some hfound]
  · rintro f hf ⟨k, hk⟩
    rw [← List.filterMap_append] at hf
    obtain ⟨m, hm, hfm⟩ := List.mem_filterMap.mp hf
    have hmem : m ∈ g.ancestors r.pmRun.nodeKey 1 (some [orderEdge]) := by
      rw [hsplit']
      rcases List.mem_append.mp hm with hm | hm
      · exact List.mem_append_left _ hm
      · exact List.mem_append_right _ (List.mem_cons_of_mem n hm)
    obtain ⟨other, -, hkey', heq⟩ := r.intentFill_eq h hmem
    rw [heq] at hfm
    rw [(Graph.getNode_nodeKey hfm).2] at hk
    obtain ⟨-, hsame, -⟩ := attempt_of_name hk
    -- another node of the same ticker would be the same node
    have hnode : m.nodeKey = n.nodeKey := by rw [hkey', hkey, hsame]
    rw [hsplit', List.map_append, List.map_cons] at hnodup
    have hnot := (List.nodup_middle.mp hnodup)
    rw [List.nodup_cons, ← List.map_append] at hnot
    exact hnot.1 (hnode ▸ List.mem_map_of_mem hm)

/-- Where the reader's key is the writer's every order is counted. -/
theorem counted_of_keys (r : ExecutedRun g) (h : ¬ r.resumed)
    (hput : ∀ item ∈ r.put, ¬ ExitOfPosition item.1 ∧ FirstIsLatest g item.2.idempotencyKey) :
    r.Counted := by
  refine ⟨fun item hitem => ?_, fun fill hfill => ?_⟩
  · obtain ⟨hi, hok⟩ := r.orders item hitem
    obtain ⟨hexit, first, latest, hfirst, hlatest, hsame⟩ := hput item hitem
    have hkey := key_eq_nameOf hok hexit
    obtain ⟨before, after, hsplit, hothers⟩ := r.split_runFills h hi (hkey ▸ hfirst)
    exact ⟨before, first, after, hsplit, ⟨0, (Graph.getNode_nodeKey hfirst).2⟩, hkey ▸ hothers,
      latest, hlatest, hsame⟩
  · obtain ⟨intent, hi, hname, hget⟩ := r.fill_name h hfill
    by_contra hnone
    push Not at hnone
    have hstray := r.strayless intent hi fun order hok heq =>
      hnone intent hi order hok ⟨0, by rw [hname, ← heq]; rfl⟩
    rw [hget] at hstray
    cases hstray

/-- An order that is counted has the key that the reader builds, and its first attempt is in the
bucket of its latest. -/
theorem Counted.keys {r : ExecutedRun g} (hc : r.Counted) {item : OrderIntent × BrokerOrder}
    (hitem : item ∈ r.put) : ¬ r.resumed ∧ ¬ ExitOfPosition item.1 ∧
      FirstIsLatest g item.2.idempotencyKey := by
  obtain ⟨before, fill, after, hsplit, ⟨k, hown⟩, -, latest, hlatest, hsame⟩ := hc.once item hitem
  have hmem : fill ∈ runFills g r.run := by rw [hsplit]; simp
  have hfresh : ¬ r.resumed := by
    intro hresumed
    rw [r.runFills_resumed hresumed] at hmem
    exact List.not_mem_nil hmem
  obtain ⟨-, hok⟩ := r.orders item hitem
  obtain ⟨intent, -, hname, hget⟩ := r.fill_name hfresh hmem
  obtain ⟨hexit, rfl, -⟩ := name_of_attempt (r.runId_eq ▸ r.minted) hok (hname.symm.trans hown)
  refine ⟨hfresh, hexit, fill, latest, ?_, hlatest, hsame⟩
  rw [← show fill.key = item.2.idempotencyKey from hown, hname]
  exact hget

theorem counted_iff (r : ExecutedRun g) : r.Counted ↔ r.put = [] ∨ ¬ r.resumed ∧
    ∀ item ∈ r.put, ¬ ExitOfPosition item.1 ∧ FirstIsLatest g item.2.idempotencyKey := by
  constructor
  · intro hc
    rcases List.eq_nil_or_concat r.put with hnil | ⟨rest, last, hput⟩
    · exact .inl hnil
    · have hlast : last ∈ r.put := by rw [hput]; simp
      exact .inr ⟨(hc.keys hlast).1, fun item hitem => (hc.keys hitem).2⟩
  · rintro (hnil | ⟨hfresh, hput⟩)
    · by_cases hresumed : r.resumed
      · refine ⟨fun item hitem => ?_, fun fill hfill => ?_⟩
        · rw [hnil] at hitem
          exact absurd hitem List.not_mem_nil
        · rw [r.runFills_resumed hresumed] at hfill
          exact absurd hfill List.not_mem_nil
      · refine r.counted_of_keys hresumed fun item hitem => ?_
        rw [hnil] at hitem
        exact absurd hitem List.not_mem_nil
    · exact r.counted_of_keys hfresh hput

/-- The fills of a counted run whose orders all ended unfilled are unfilled. -/
theorem Counted.unfilled {r : ExecutedRun g} (hc : r.Counted) (hne : r.put ≠ [])
    (hall : ∀ item ∈ r.put, ∃ latest, latestFillAttempt g item.2.idempotencyKey = some latest ∧
      outcome latest = .unfilled) :
    runFills g r.run ≠ [] ∧ ∀ fill ∈ runFills g r.run, outcome fill = .unfilled := by
  obtain ⟨item, hitem⟩ := List.exists_mem_of_ne_nil _ hne
  have hfresh := (hc.keys hitem).1
  refine ⟨fun hnil => ?_, fun fill hfill => ?_⟩
  · obtain ⟨before, f, after, hsplit, -⟩ := hc.once item hitem
    rw [hnil] at hsplit
    exact absurd hsplit.symm (by simp)
  · obtain ⟨intent, hi, -, hget⟩ := r.fill_name hfresh hfill
    by_cases hput : ∃ item ∈ r.put, item.1.ticker = intent.ticker
    · -- the intent is that of an order put to the broker
      obtain ⟨other, hother, hticker⟩ := hput
      obtain ⟨ho, hok⟩ := r.orders other hother
      obtain ⟨haction, -⟩ := (r.emitted_of_not_resumed hfresh).alike _ ho intent hi hticker
      obtain ⟨-, hexit, first, latest, hfirst, hlatest, hsame⟩ := hc.keys hother
      have hkey : other.2.idempotencyKey = nameOf r.orderSet.runId intent := by
        rw [key_eq_nameOf hok hexit, nameOf, nameOf, hticker, haction]
      obtain ⟨latest', hlatest', hunfilled⟩ := hall other hother
      cases hlatest.symm.trans hlatest'
      rw [hkey, hget] at hfirst
      cases hfirst
      exact hsame.trans hunfilled
    · push Not at hput
      exact r.idle intent hi hput fill hget

/-- The counts and the verdict are those of the orders that the run put to the broker exactly when
it put none, or its PM run is no resume clone and each order is keyed by the run and has its latest
outcome in the bucket of the first one. -/
theorem outcomes_of_own_orders_iff (r : ExecutedRun g) :
    r.Counted ∧ r.VerdictHolds ↔ r.put = [] ∨ ¬ r.resumed ∧
      ∀ item ∈ r.put, ¬ ExitOfPosition item.1 ∧ FirstIsLatest g item.2.idempotencyKey := by
  rw [← r.counted_iff]
  refine and_iff_left_of_imp fun hc before after evidence result hname hok hne hall => ?_
  obtain ⟨hsome, hunfilled⟩ := hc.unfilled hne hall
  rw [verdict_of_unfilled hname hok hsome hunfilled]
  exact ⟨by decide, by decide⟩

end ExecutedRun

/-! ### Two runs -/

section OneOrder

variable (intent : OrderIntent) (fill : PipelineNode)

def decidedRun : PipelineNode := ⟨"PMRun", "pm-run-1", .ofList [("order_intent_set",
  .doc (.orderIntentSet ⟨"pm-run-1", [intent], [], ⟨"pm-run-1", "portfolio_manager", none⟩⟩))], 1⟩

def intentNode : PipelineNode :=
  ⟨orderIntentLabel, "pm-run-1" ++ ":" ++ intent.ticker, intentProps intent, 1⟩

def submittedRun : PipelineNode :=
  ⟨"ExecutionRun", "execution-submit-pm-run-1", .ofList [("submitted", .int 1)], 1⟩

def oneOrderNodes : PipelineGraph :=
  (((Graph.empty.put (decidedRun intent)).put (intentNode intent)).put submittedRun).put fill

theorem oneOrderNodes_keys : (decidedRun intent).nodeKey ∈ (oneOrderNodes intent fill).nodes.keys ∧
    (intentNode intent).nodeKey ∈ (oneOrderNodes intent fill).nodes.keys ∧
    submittedRun.nodeKey ∈ (oneOrderNodes intent fill).nodes.keys := by
  simp [oneOrderNodes, Graph.put]

/-- A run with one approved order and the fill recorded for it. -/
def oneOrderGraph : PipelineGraph :=
  ((oneOrderNodes intent fill).link ⟨(intentNode intent).nodeKey, (decidedRun intent).nodeKey,
    orderEdge⟩ (oneOrderNodes_keys intent fill).2.1 (oneOrderNodes_keys intent fill).1).link
      ⟨(decidedRun intent).nodeKey, submittedRun.nodeKey, pmEdge⟩
      (oneOrderNodes_keys intent fill).1 (oneOrderNodes_keys intent fill).2.2

end OneOrder

def rejectedFill (key : String) (status : String) : PipelineNode :=
  ⟨"Fill", key, .ofList [("status", .str "pending"), ("broker_status", .str status)], 1⟩

def buyIntent : OrderIntent := ⟨"AAPL", .buy, 2, ⟨100, "USD"⟩, none, none, le_of_lt one_lt_two⟩

def exitIntent : OrderIntent := ⟨"AMD", .sell, 1, ⟨90, "USD"⟩, none, some "p1", le_refl 1⟩

theorem oneOrder_emitted (intent : OrderIntent) (fill : PipelineNode)
    (hintents : (oneOrderGraph intent fill).ancestors ("PMRun", "pm-run-1") 1 (some [orderEdge]) =
      [intentNode intent]) : Emitted (oneOrderGraph intent fill) "pm-run-1" [intent] := by
  refine ⟨fun n hn => ⟨intent, by simp, ?_⟩, fun order ho => ⟨intentNode intent, ?_, ?_⟩,
    fun order ho other ho' _ => ?_⟩
  · rw [show n = intentNode intent from List.mem_singleton.mp (hintents ▸ hn)]
    exact ⟨rfl, rfl, rfl⟩
  · exact hintents ▸ List.mem_singleton_self _
  · rw [List.mem_singleton.mp ho]
    rfl
  · rw [List.mem_singleton.mp ho, List.mem_singleton.mp ho']
    exact ⟨rfl, rfl⟩

/-- A run whose one buy the broker filled. -/
def filledRun : ExecutedRun (oneOrderGraph buyIntent (rejectedFill "pm-run-1:AAPL:buy" "filled"))
    where
  run := submittedRun
  pmRun := decidedRun buyIntent
  orderSet := ⟨"pm-run-1", [buyIntent], [], ⟨"pm-run-1", "portfolio_manager", none⟩⟩
  config := {}
  put := [(buyIntent, ⟨"pm-run-1:AAPL:buy", "AAPL", .buy, 2, ⟨100, "USD"⟩,
    resolveOrderTolerance buyIntent .buy {}⟩)]
  executed := rfl
  label_eq := rfl
  payload := rfl
  runId_eq := rfl
  minted := .inl (by decide)
  emitted := oneOrder_emitted _ _ rfl
  orders := by
    intro item hitem
    rw [List.mem_singleton.mp hitem]
    exact ⟨List.mem_singleton_self _, rfl⟩
  strayless := by
    intro intent hi hno
    rw [List.mem_singleton.mp hi] at hno
    exact absurd rfl (hno _ rfl)
  idle := by
    intro intent hi hno
    rw [List.mem_singleton.mp hi] at hno
    exact absurd rfl (hno _ (List.mem_singleton_self _))

theorem filledRun_counted : filledRun.Counted ∧ filledRun.VerdictHolds := by
  refine filledRun.outcomes_of_own_orders_iff.mpr (.inr ⟨fun h => h rfl, fun item hitem => ?_⟩)
  rw [List.mem_singleton.mp hitem]
  exact ⟨fun hexit => absurd hexit.1 (by decide), _, _, rfl, rfl, rfl⟩

/-- A run whose one exit of a position the broker rejected. -/
def rejectedExitRun : ExecutedRun (oneOrderGraph exitIntent
    (rejectedFill "exit:p1:AMD:sell" "rejected")) where
  run := submittedRun
  pmRun := decidedRun exitIntent
  orderSet := ⟨"pm-run-1", [exitIntent], [], ⟨"pm-run-1", "portfolio_manager", none⟩⟩
  config := {}
  put := [(exitIntent, ⟨"exit:p1:AMD:sell", "AMD", .sell, 1, ⟨90, "USD"⟩,
    resolveOrderTolerance exitIntent .sell {}⟩)]
  executed := rfl
  label_eq := rfl
  payload := rfl
  runId_eq := rfl
  minted := .inl (by decide)
  emitted := oneOrder_emitted _ _ rfl
  orders := by
    intro item hitem
    rw [List.mem_singleton.mp hitem]
    exact ⟨List.mem_singleton_self _, rfl⟩
  strayless := by
    intro intent hi _
    rw [List.mem_singleton.mp hi]
    rfl
  idle := by
    intro intent hi hno
    rw [List.mem_singleton.mp hi] at hno
    exact absurd rfl (hno _ (List.mem_singleton_self _))

/-- The rejected exit is not counted, and the run passes. -/
theorem rejectedExitRun_passes : ¬ ∀ (g : PipelineGraph) (r : ExecutedRun g),
    r.Counted ∧ r.VerdictHolds := by
  intro hall
  have hpass : evaluateStages ([] ++ executionView (oneOrderGraph exitIntent
      (rejectedFill "exit:p1:AMD:sell" "rejected")) rejectedExitRun.run :: []) false =
      .ok ⟨.pass, []⟩ := rfl
  refine ((hall _ rejectedExitRun).2 [] [] false _ (fun s hs => absurd hs List.not_mem_nil) hpass
    (List.cons_ne_nil _ _) fun item hitem => ?_).1 rfl
  rw [List.mem_singleton.mp hitem]
  exact ⟨_, rfl, rfl⟩

end TradingAgents.Orchestration
