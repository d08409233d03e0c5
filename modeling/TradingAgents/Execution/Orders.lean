import TradingAgents.Contracts.BrokerLifecycle
import TradingAgents.Execution.FillAttempts
import TradingAgents.Execution.OrderTolerance
import TradingAgents.ProofKit.Fallible

/-! Orders, fills, and the submit core that the bus and the work loop share: one broker submission
for each approved intent, but for exits that are already complete, and none outside the paper-safe
stages. -/

namespace TradingAgents.Execution

open Kernel ProofKit BrokerLifecycle

/-- One broker submission derived from an order intent. -/
structure BrokerOrder where
  idempotencyKey : String
  ticker : String
  side : Side
  quantity : Nat
  limitPrice : Money
  tolerance : OrderToleranceEvidence
deriving DecidableEq

inductive FillStatus where
  | filled
  | partially
  | rejected
  | pending
deriving DecidableEq, Repr

def FillStatus.value : FillStatus → String
  | filled => "filled"
  | partially => "partial"
  | rejected => "rejected"
  | pending => "pending"

/-- The broker's account of one order. -/
structure BrokerFill where
  idempotencyKey : String
  ticker : String
  side : Side
  quantity : Int
  price : Money
  brokerOrderId : String
  status : FillStatus
  reason : Option String := none
  submittedAt : Option String := none
  orderType : Option String := none
  timeInForce : Option String := none
  tolerance : Option OrderToleranceEvidence := none
  orderStatus : Option String := none
  filledQuantity : Option Int := none
deriving DecidableEq

/-- The shares the broker executed: its filled quantity, else the order's. -/
def executedQuantity (fill : BrokerFill) : Int :=
  match fill.filledQuantity with
  | some q => q
  | none => if fill.status = .filled ∨ fill.status = .partially then fill.quantity else 0

inductive ExecutionStage where
  | paper
  | brokerShadow
  | liveManual
  | liveAutopilot
deriving DecidableEq, Repr

def ExecutionStage.value : ExecutionStage → String
  | paper => "paper"
  | brokerShadow => "broker_shadow"
  | liveManual => "live_manual"
  | liveAutopilot => "live_autopilot"

def ExecutionStage.all : List ExecutionStage := [paper, brokerShadow, liveManual, liveAutopilot]

/-- The stages in which execution submits to the broker. -/
def ExecutionStage.paperSafe (s : ExecutionStage) : Bool :=
  decide (s = paper) || decide (s = brokerShadow)

inductive DeliberationPosture where
  | advisory
  | binding
deriving DecidableEq, Repr

structure ExecutionSettings where
  stage : ExecutionStage := .paper
  deliberationGraceSeconds : Nat := 900
  deliberationPosture : DeliberationPosture := .binding
  tolerance : OrderToleranceConfig := {}

/-- How a call of the broker's `submit` ends. -/
inductive BrokerReply where
  | filled (f : BrokerFill)
  | rejectedError (f : BrokerFill)
  | failed (text : String)

def brokerSide : Action → Except HandlerError Side
  | .buy => .ok .buy
  | .sell => .ok .sell
  | .hold => .error (.validation "execution can submit only buy or sell order intents")

/-- The client key of an intent's order: an exit is keyed by the position it closes. -/
def orderKey (runId : String) (intent : OrderIntent) (side : Side) : String :=
  match intent.action, intent.positionRef with
  | .sell, some ref => "exit:" ++ ref ++ ":" ++ intent.ticker ++ ":sell"
  | _, _ => runId ++ ":" ++ intent.ticker ++ ":" ++ side.value

def orderFromIntent (config : OrderToleranceConfig) (runId : String) (intent : OrderIntent) :
    Except HandlerError BrokerOrder := do
  let side ← brokerSide intent.action
  pure ⟨orderKey runId intent side, intent.ticker, side, intent.quantity, intent.estPrice,
    resolveOrderTolerance intent side config⟩

/-- A durable rejected outcome for a submission that failed. -/
def rejectedBrokerFill (order : BrokerOrder) (reason : String) : BrokerFill where
  idempotencyKey := order.idempotencyKey
  ticker := order.ticker
  side := order.side
  quantity := order.quantity
  price := order.limitPrice
  brokerOrderId := "rejected:" ++ order.idempotencyKey
  status := .rejected
  reason := some reason
  tolerance := some order.tolerance

/-- A broker outcome with the tolerance of its order. -/
def attachOrderTolerance (fill : BrokerFill) (evidence : OrderToleranceEvidence) : BrokerFill :=
  { fill with tolerance := some evidence }

def submitOrder (order : BrokerOrder) : BrokerReply → BrokerFill
  | .filled f => attachOrderTolerance f order.tolerance
  | .rejectedError f => attachOrderTolerance f order.tolerance
  | .failed text => rejectedBrokerFill order text

def textProp (name : String) (text : Option String) : List (String × Value Document) :=
  (text.map fun s => (name, Value.str s)).toList

/-- What a Fill records of its order besides the outcome. -/
def orderProps (fill : BrokerFill) : List (String × Value Document) :=
  textProp "submitted_at" fill.submittedAt ++ textProp "order_type" fill.orderType ++
    textProp "time_in_force" fill.timeInForce ++ orderToleranceProps fill.tolerance

def fillProps (fill : BrokerFill) (orderSet : OrderIntentSet) : Props Document :=
  .ofList ([
    ("ticker", .str fill.ticker),
    ("side", .str fill.side.value),
    ("quantity", .int fill.quantity),
    ("price_cents", .int (moneyToCents fill.price)),
    ("price_currency", .str fill.price.currency),
    ("broker_order_id", .str fill.brokerOrderId),
    ("status", .str fill.status.value),
    ("reason", textOrNull fill.reason)] ++ orderProps fill ++
    [("source_run_id", .str orderSet.runId)])

/-- The PMRun key that an order set's provenance names. -/
def pmRunKey (orderSet : OrderIntentSet) : Option String :=
  match orderSet.provenance.graphNodeId with
  | none => none
  | some id =>
    if "PMRun:".toList.isPrefixOf id.toList then some (String.ofList (id.toList.drop 6)) else none

/-- Write one idempotency-keyed fill with its order lineage. -/
def writeFill (g : PipelineGraph) (fill : BrokerFill) (orderSet : OrderIntentSet) :
    Except HandlerError PipelineGraph := do
  let attempt := selectFillAttempt g fill.idempotencyKey (fillProps fill orderSet)
  let (g, node) ← liftGraph (g.mergeNode fillLabel attempt.key attempt.props)
  match pmRunKey orderSet with
  | none => pure g
  | some key =>
    match g.getNode "OrderIntent" (key ++ ":" ++ fill.ticker) with
    | none => pure g
    | some order => liftGraph (g.addEdge node.nodeKey order.nodeKey "EXECUTES")

/-- The latest graph-authored stage, or the configured one. -/
def currentStageFromGraph (g : PipelineGraph) (default : ExecutionStage) : ExecutionStage :=
  let stamp (n : PipelineNode) : String := ((n.get "transitioned_at").str?).getD ""
  let latest := (g.listNodes "StageTransition").foldl (fun best n =>
    match best with
    | none => some n
    | some b => if stamp b < stamp n then some n else some b) none
  match latest with
  | none => default
  | some n =>
    (ExecutionStage.all.find? fun s => (n.get "to_stage").pyEq (.str s.value)).getD default

/-- The fill of an exit that an earlier attempt completed. -/
def completedExitFill (g : PipelineGraph) (intent : OrderIntent) (order : BrokerOrder) :
    Option PipelineNode :=
  match intent.action, intent.positionRef with
  | .sell, some _ =>
    match latestFillAttempt g order.idempotencyKey with
    | some fill => if isCompletedExitFill fill then some fill else none
    | none => none
  | _, _ => none

/-- Where a submit pass stands: the orders handed to the broker so far, the fills recorded, and the
completed exits skipped. -/
structure SubmitState where
  graph : PipelineGraph
  submissions : List BrokerOrder := []
  fills : List BrokerFill := []
  skipped : List OrderIntent := []

/-- One intent of a submit pass; a fault while its fill is written is contained. -/
def submitIntent (reply : Nat → BrokerOrder → BrokerReply) (orderSet : OrderIntentSet)
    (st : SubmitState) (item : OrderIntent × BrokerOrder) : SubmitState :=
  match completedExitFill st.graph item.1 item.2 with
  | some _ => { st with skipped := st.skipped ++ [item.1] }
  | none =>
    let fill := submitOrder item.2 (reply st.submissions.length item.2)
    match writeFill st.graph fill orderSet with
    | .ok g => { st with
        graph := g
        submissions := st.submissions ++ [item.2]
        fills := st.fills ++ [fill] }
    | .error _ => { st with submissions := st.submissions ++ [item.2] }

/-- The rejected fills recorded in a stage that is not paper-safe. -/
def liveGateRejected (g : PipelineGraph) (orderSet : OrderIntentSet) (orders : List BrokerOrder)
    (stage : ExecutionStage) : Except HandlerError SubmitState := do
  let fills := orders.map fun order =>
    rejectedBrokerFill order ("stage " ++ stage.value ++ " requires live broker gating")
  let g ← fills.foldlM (fun g fill => writeFill g fill orderSet) g
  pure { graph := g, fills := fills }

/-- Submit an approved order set through the broker and persist its fills. -/
def runSubmit (reply : Nat → BrokerOrder → BrokerReply) (settings : ExecutionSettings)
    (g : PipelineGraph) (orderSet : OrderIntentSet) : Except HandlerError SubmitState := do
  let stage := currentStageFromGraph g settings.stage
  let orders ← orderSet.approved.mapM (orderFromIntent settings.tolerance orderSet.runId)
  if stage.paperSafe then
    pure ((orderSet.approved.zip orders).foldl (submitIntent reply orderSet) { graph := g })
  else liveGateRejected g orderSet orders stage

def orderNames : List String :=
  "submitted_at" :: "order_type" :: "time_in_force" :: orderToleranceNames

theorem orderProps_names (fill : BrokerFill) : ∀ p ∈ orderProps fill, p.1 ∈ orderNames := by
  intro p hp
  simp only [orderProps, textProp, List.mem_append, Option.mem_toList,
    Option.map_eq_some_iff] at hp
  rcases hp with ((⟨s, -, rfl⟩ | ⟨s, -, rfl⟩) | ⟨s, -, rfl⟩) | hp
  · exact List.mem_cons_self
  · exact List.mem_cons_of_mem _ List.mem_cons_self
  · exact List.mem_cons_of_mem _ (List.mem_cons_of_mem _ List.mem_cons_self)
  · exact List.mem_cons_of_mem _ (List.mem_cons_of_mem _ (List.mem_cons_of_mem _
      (orderToleranceProps_names _ p hp)))

/-- A property of the outcome is read past what the Fill records of its order. -/
theorem fillProps_get? (fill : BrokerFill) (orderSet : OrderIntentSet) {name : String}
    (h : name ∉ orderNames) :
    (fillProps fill orderSet).get? name = (Dict.ofList [
      ("ticker", .str fill.ticker),
      ("side", .str fill.side.value),
      ("quantity", .int fill.quantity),
      ("price_cents", .int (moneyToCents fill.price)),
      ("price_currency", .str fill.price.currency),
      ("broker_order_id", .str fill.brokerOrderId),
      ("status", .str fill.status.value),
      ("reason", textOrNull fill.reason),
      ("source_run_id", .str orderSet.runId)]).get? name := by
  have hskip : name ∉ (orderProps fill).map Prod.fst := by
    intro hmem
    obtain ⟨p, hp, rfl⟩ := List.mem_map.mp hmem
    exact h (orderProps_names fill p hp)
  simp only [fillProps, Dict.ofList, Dict.setAll_append, Dict.setAll_cons, Dict.setAll_nil,
    Dict.get?_set, Dict.get?_setAll_of_notMem _ hskip]

theorem orderAttempt_get? (fill : BrokerFill) (orderSet : OrderIntentSet) (key : String)
    (ordinal : Nat) :
    (withAttemptProps (fillProps fill orderSet) key ordinal).get? "broker_idempotency_key" =
        some (.str key) ∧
      (withAttemptProps (fillProps fill orderSet) key ordinal).get? "status" =
        some (.str fill.status.value) := by
  have hstatus := fillProps_get? fill orderSet (show "status" ∉ orderNames by decide)
  simp [withAttemptProps, hstatus, Dict.ofList]

def outcomeNames : List String :=
  ["ticker", "side", "quantity", "price_cents", "price_currency", "broker_order_id", "status",
    "reason", "source_run_id", "broker_idempotency_key", "attempt_ordinal"]

/-- A recorded attempt has no other properties. -/
theorem orderAttempt_none (fill : BrokerFill) (orderSet : OrderIntentSet) {name : String}
    (horder : name ∉ orderNames) (houtcome : name ∉ outcomeNames) {key : String} {ordinal : Nat} :
    (withAttemptProps (fillProps fill orderSet) key ordinal).get? name = none := by
  simp only [outcomeNames, List.mem_cons, List.not_mem_nil, or_false, not_or] at houtcome
  simp [withAttemptProps, fillProps_get? fill orderSet horder, Dict.ofList, houtcome]

theorem fillProps_brokerStatus (fill : BrokerFill) (orderSet : OrderIntentSet) (key : String)
    (n : Nat) : (withAttemptProps (fillProps fill orderSet) key n).get? "broker_status" = none :=
  orderAttempt_none fill orderSet (by decide) (by decide)

/-- A recorded fill grows the Fills and adds at most one edge, to the intent it executes. -/
theorem writeFill_ok {g g' : PipelineGraph} {fill : BrokerFill} {orderSet : OrderIntentSet}
    (h : writeFill g fill orderSet = .ok g') :
    FillsGrow g g' ∧ g.Extends g' ∧
      ∀ e, e.edgeType ≠ "EXECUTES" → (e ∈ g'.edges ↔ e ∈ g.edges) := by
  obtain ⟨⟨g₁, node⟩, hm, h⟩ := Fallible.bind_eq_ok.mp h
  rw [liftGraph_eq_ok] at hm
  obtain ⟨-, hprops, -⟩ := selectFillAttempt_spec g fill.idempotencyKey (fillProps fill orderSet)
    false
  have hgrow := mergeFill_grows (by rw [hprops]; exact fillProps_brokerStatus _ _ _ _) hm
  have hext := Graph.mergeNode_extends hm
  have hedges : g₁.edges = g.edges := by
    obtain ⟨rfl, -⟩ := Graph.mergeNode_ok hm
    rfl
  have hdone : FillsGrow g g₁ ∧ g.Extends g₁ ∧
      ∀ e, e.edgeType ≠ "EXECUTES" → (e ∈ g₁.edges ↔ e ∈ g.edges) :=
    ⟨hgrow, hext, fun e _ => by rw [hedges]⟩
  simp only at h
  split at h
  · cases h; exact hdone
  split at h
  · cases h; exact hdone
  rw [liftGraph_eq_ok] at h
  obtain ⟨hnodes, -, -, hadd⟩ := Graph.addEdge_ok h
  have hget := Graph.getNode_of_nodes_eq hnodes
  refine ⟨⟨fun label key hl => (hget label key).trans (hgrow.others label key hl),
    fun key current hc => ?_⟩, hext.trans (Graph.addEdge_extends h), fun e he => ?_⟩
  · rw [hget]; exact hgrow.fills key current hc
  · rw [hadd, ← hedges]
    split
    · exact Iff.rfl
    · rw [List.mem_append, List.mem_singleton]
      refine ⟨fun hmem => hmem.resolve_right ?_, .inl⟩
      rintro rfl
      exact he rfl

/-! ### What a submit pass hands to the broker -/

theorem brokerSide_eq_ok {a : Action} {side : Side} :
    brokerSide a = .ok side ↔ (a = .buy ∧ side = .buy) ∨ (a = .sell ∧ side = .sell) := by
  cases a <;> cases side <;> simp [brokerSide]

theorem orderFromIntent_ok {config : OrderToleranceConfig} {runId : String} {intent : OrderIntent}
    {order : BrokerOrder} (h : orderFromIntent config runId intent = .ok order) :
    order.ticker = intent.ticker ∧
      ((intent.action = .buy ∧ order.side = .buy) ∨
        (intent.action = .sell ∧ order.side = .sell)) := by
  obtain ⟨side, hside, hret⟩ := Fallible.bind_eq_ok.mp h
  cases hret
  exact ⟨rfl, brokerSide_eq_ok.mp hside⟩

theorem orderFromIntent_total (config : OrderToleranceConfig) (runId : String)
    {intent : OrderIntent} (h : intent.action ≠ .hold) :
    ∃ order, orderFromIntent config runId intent = .ok order := by
  cases ha : intent.action with
  | buy => exact ⟨_, by rw [orderFromIntent, ha]; rfl⟩
  | sell => exact ⟨_, by rw [orderFromIntent, ha]; rfl⟩
  | hold => exact (h ha).elim

/-- What a submit pass over the items `done` has done: every order it handed to the broker is the
order of one of them, and each of them was handed over or skipped as a completed exit. -/
structure Submitted (done : List (OrderIntent × BrokerOrder)) (st : SubmitState) : Prop where
  orders : ∀ order ∈ st.submissions, ∃ item ∈ done, item.2 = order
  items : ∀ item ∈ done, item.2 ∈ st.submissions ∨ item.1 ∈ st.skipped
  skipped : ∀ intent ∈ st.skipped, intent.action = .sell ∧ intent.positionRef.isSome

theorem completedExitFill_some {g : PipelineGraph} {intent : OrderIntent} {order : BrokerOrder}
    {fill : PipelineNode} (h : completedExitFill g intent order = some fill) :
    intent.action = .sell ∧ intent.positionRef.isSome := by
  unfold completedExitFill at h
  split at h
  · rename_i ref ha href; exact ⟨ha, by rw [href]; rfl⟩
  · cases h

theorem submitIntent_submitted (reply : Nat → BrokerOrder → BrokerReply)
    (orderSet : OrderIntentSet) {done : List (OrderIntent × BrokerOrder)} {st : SubmitState}
    (item : OrderIntent × BrokerOrder) (h : Submitted done st) :
    Submitted (done ++ [item]) (submitIntent reply orderSet st item) := by
  unfold submitIntent
  split
  · rename_i fill hfill
    refine ⟨fun order ho => ?_, fun i hi => ?_, fun intent hi => ?_⟩
    · obtain ⟨i, hi, heq⟩ := h.orders order ho
      exact ⟨i, by simp [hi], heq⟩
    · rcases List.mem_append.mp hi with hdone | hlast
      · rcases h.items i hdone with hs | hs
        · exact .inl hs
        · exact .inr (by simp [hs])
      · rw [List.mem_singleton.mp hlast]; exact .inr (by simp)
    · rcases List.mem_append.mp hi with hold | hnew
      · exact h.skipped intent hold
      · rw [List.mem_singleton.mp hnew]; exact completedExitFill_some hfill
  · have hcases : ∀ st' : SubmitState, st'.submissions = st.submissions ++ [item.2] →
        st'.skipped = st.skipped → Submitted (done ++ [item]) st' := by
      intro st' hsub hskip
      refine ⟨fun order ho => ?_, fun i hi => ?_, fun intent hi => ?_⟩
      · rw [hsub] at ho
        rcases List.mem_append.mp ho with hold | hnew
        · obtain ⟨i, hi, heq⟩ := h.orders order hold
          exact ⟨i, by simp [hi], heq⟩
        · exact ⟨item, by simp, (List.mem_singleton.mp hnew).symm⟩
      · rw [hsub, hskip]
        rcases List.mem_append.mp hi with hdone | hlast
        · rcases h.items i hdone with hs | hs
          · exact .inl (by simp [hs])
          · exact .inr hs
        · rw [List.mem_singleton.mp hlast]; exact .inl (by simp)
      · rw [hskip] at hi; exact h.skipped intent hi
    simp only
    split <;> exact hcases _ rfl rfl

theorem foldl_submitIntent (reply : Nat → BrokerOrder → BrokerReply) (orderSet : OrderIntentSet)
    (items : List (OrderIntent × BrokerOrder)) (g : PipelineGraph) :
    Submitted items (items.foldl (submitIntent reply orderSet) { graph := g }) := by
  suffices ∀ rest done st, Submitted done st →
      Submitted (done ++ rest) (rest.foldl (submitIntent reply orderSet) st) from
    this items [] _ ⟨by simp, by simp, by simp⟩
  intro rest
  induction rest with
  | nil => intro done st h; simpa using h
  | cons item rest ih =>
    intro done st h
    have := ih (done ++ [item]) _ (submitIntent_submitted reply orderSet item h)
    simpa using this

theorem mapM_orderFromIntent {config : OrderToleranceConfig} {runId : String}
    {intents : List OrderIntent} {orders : List BrokerOrder}
    (h : intents.mapM (orderFromIntent config runId) = .ok orders) :
    (∀ intent ∈ intents, ∃ order, orderFromIntent config runId intent = .ok order ∧
        (intent, order) ∈ intents.zip orders) ∧
      ∀ item ∈ intents.zip orders, item.1 ∈ intents ∧
        orderFromIntent config runId item.1 = .ok item.2 := by
  induction intents generalizing orders with
  | nil => cases h; simp
  | cons intent rest ih =>
    obtain ⟨order, tail, ho, ht, rfl⟩ := Fallible.mapM_cons_eq_ok.mp h
    obtain ⟨hall, hzip⟩ := ih ht
    refine ⟨fun i hi => ?_, fun item hitem => ?_⟩
    · rcases List.mem_cons.mp hi with rfl | hi
      · exact ⟨order, ho, by simp⟩
      · obtain ⟨o, ho, hmem⟩ := hall i hi
        exact ⟨o, ho, by simp [hmem]⟩
    · rw [List.zip_cons_cons] at hitem
      rcases List.mem_cons.mp hitem with rfl | hitem
      · exact ⟨List.mem_cons_self, ho⟩
      · exact ⟨List.mem_cons_of_mem _ (hzip item hitem).1, (hzip item hitem).2⟩

theorem mapM_orderFromIntent_total (config : OrderToleranceConfig) (runId : String)
    {intents : List OrderIntent} (h : ∀ intent ∈ intents, intent.action ≠ .hold) :
    ∃ orders, intents.mapM (orderFromIntent config runId) = .ok orders :=
  Fallible.mapM_total fun intent hintent => orderFromIntent_total config runId (h intent hintent)

/-- What a submit pass hands to the broker: orders of approved intents only; in a paper-safe stage
every approved intent but the completed exits, and in another stage nothing. -/
structure SubmitOutcome (settings : ExecutionSettings) (g : PipelineGraph)
    (orderSet : OrderIntentSet) (st : SubmitState) : Prop where
  orders : ∀ order ∈ st.submissions, ∃ intent ∈ orderSet.approved,
    orderFromIntent settings.tolerance orderSet.runId intent = .ok order
  intents : (currentStageFromGraph g settings.stage).paperSafe = true →
    ∀ intent ∈ orderSet.approved, intent ∈ st.skipped ∨
      ∃ order ∈ st.submissions,
        orderFromIntent settings.tolerance orderSet.runId intent = .ok order
  skipped : ∀ intent ∈ st.skipped, intent.action = .sell ∧ intent.positionRef.isSome
  gated : (currentStageFromGraph g settings.stage).paperSafe = false → st.submissions = []

theorem runSubmit_outcome {reply : Nat → BrokerOrder → BrokerReply} {settings : ExecutionSettings}
    {g : PipelineGraph} {orderSet : OrderIntentSet} {st : SubmitState}
    (h : runSubmit reply settings g orderSet = .ok st) : SubmitOutcome settings g orderSet st := by
  obtain ⟨orders, ho, h⟩ := Fallible.bind_eq_ok.mp h
  obtain ⟨hall, hzip⟩ := mapM_orderFromIntent ho
  split at h
  · rename_i hsafe
    cases h
    have hsub := foldl_submitIntent reply orderSet (orderSet.approved.zip orders) g
    refine ⟨fun order hord => ?_, fun _ intent hi => ?_, hsub.skipped, fun hn => ?_⟩
    · obtain ⟨item, hitem, rfl⟩ := hsub.orders order hord
      exact ⟨item.1, hzip item hitem⟩
    · obtain ⟨order, hord, hmem⟩ := hall intent hi
      rcases hsub.items _ hmem with hs | hs
      · exact .inr ⟨order, hs, hord⟩
      · exact .inl hs
    · rw [hsafe] at hn; cases hn
  · rename_i hlive
    obtain ⟨g', -, h⟩ := Fallible.bind_eq_ok.mp h
    cases h
    exact ⟨by simp, fun hs => (hlive hs).elim, by simp, fun _ => rfl⟩

theorem runSubmit_total {settings : ExecutionSettings} {g : PipelineGraph}
    {orderSet : OrderIntentSet} (reply : Nat → BrokerOrder → BrokerReply)
    (hsafe : (currentStageFromGraph g settings.stage).paperSafe = true)
    (hactions : ∀ intent ∈ orderSet.approved, intent.action ≠ .hold) :
    ∃ st, runSubmit reply settings g orderSet = .ok st := by
  obtain ⟨orders, ho⟩ := mapM_orderFromIntent_total settings.tolerance orderSet.runId hactions
  exact ⟨_, by simp only [runSubmit, ho, Fallible.ok_bind, hsafe, if_true]; rfl⟩

end TradingAgents.Execution
