import TradingAgents.Execution.DeliberationGate

/-! Execution of one graph-pulled PMRun: the poll that finds it, the gate, the submission and the
ExecutionRun that anchors the result.  Other agents write to the graph between the reads of one
pass, so a pass is given the graph at each of its reads. -/

namespace TradingAgents.Execution

open Kernel ProofKit

def executedEdge : String := "EXECUTED_BY"

/-- A deterministic execution run id. -/
def executionRunId (kind sourceRunId : String) : String :=
  "execution-" ++ kind ++ "-" ++ sourceRunId

def isDropped (fill : BrokerFill) : Bool :=
  "dropped:".toList.isPrefixOf (fill.reason.getD "").toList

/-- The counts of an execution result. -/
structure ExecutionResult where
  runId : String
  submitted : Nat
  rejected : Nat
  dropped : Nat
  skipped : Nat
deriving DecidableEq

def executionResult (runId : String) (fills : List BrokerFill) (skipped : Nat) :
    ExecutionResult where
  runId := runId
  submitted := fills.countP fun fill => decide (fill.status ≠ .rejected)
  rejected := fills.countP fun fill => decide (fill.status = .rejected) && !isDropped fill
  dropped := fills.countP isDropped
  skipped := skipped

def DeliberationPosture.value : DeliberationPosture → String
  | advisory => "advisory"
  | binding => "binding"

/-- The graph and the clock as one execution of a PMRun reads them: to classify it, to drop the
vetoed tickers, and to submit.  Before the submission the broker is reconciled and the stops are
settled, and either may raise. -/
structure GraphReads where
  classified : PipelineGraph
  now : Int
  vetoed : PipelineGraph
  submit : PipelineGraph
  runStart : Except HandlerError Unit := .ok ()

/-- What one execution of a PMRun did: how it was classified, how many intents the posture blocked,
what was handed to the broker, and the graph with the ExecutionRun, when that could be written. -/
structure PmExecution where
  status : DeliberationStatus
  blockedCount : Nat
  submission : SubmitState
  anchored : Except HandlerError PipelineGraph

/-- Write the ExecutionRun of a submission and link the PMRun to it. -/
def anchorExecution (settings : ExecutionSettings) (node : PipelineNode) (runId : String)
    (status : DeliberationStatus) (blockedCount : Nat) (st : SubmitState) :
    Except HandlerError PipelineGraph := do
  let result := executionResult (executionRunId "submit" runId) st.fills st.skipped.length
  let (g, run) ← liftGraph (st.graph.mergeNode "ExecutionRun" result.runId (.ofList [
    ("source_pm_run_id", .str runId),
    ("submitted", .int result.submitted),
    ("rejected", .int result.rejected),
    ("skipped", .int (result.skipped + blockedCount)),
    ("deliberation_status", .str status.value),
    ("deliberation_posture", .str settings.deliberationPosture.value),
    ("deliberation_blocked_count", .int blockedCount)]))
  liftGraph (g.addEdge node.nodeKey run.nodeKey executedEdge)

/-- The order set of a PMRun, as `props["order_intent_set"]` reads and validates it. -/
def requireOrderIntentSet (node : PipelineNode) : Except HandlerError OrderIntentSet := do
  match ← node.require "order_intent_set" with
  | .doc (.orderIntentSet s) => pure s
  | _ => .error (.validation "order_intent_set")

section Clock

variable (fromIso : String → Option Int)

/-- The PMRuns ready to submit: unexecuted, and not awaiting a veto. -/
def findPending (g : PipelineGraph) (now : Int) (settings : ExecutionSettings) :
    Except HandlerError (List PipelineNode) :=
  Fallible.filter (fun node => do pure !(← isWaiting fromIso g node now settings))
    (g.pendingNodes pmRunLabel executedEdge)

/-- Submit one PMRun's orders from the graph and link the ExecutionRun back to it. -/
def executePmNode (reply : Nat → BrokerOrder → BrokerReply) (settings : ExecutionSettings)
    (node : PipelineNode) (reads : GraphReads) : Except HandlerError PmExecution := do
  let orderSet ← requireOrderIntentSet node
  let status := deliberationStatus fromIso reads.classified node orderSet reads.now
    settings.deliberationGraceSeconds
  let kept ← dropVetoed reads.vetoed node.nodeKey orderSet
  let filtered := applyDeliberationPosture kept status settings.deliberationPosture
  reads.runStart
  let st ← runSubmit reply settings reads.submit filtered.1
  pure ⟨status, filtered.2, st, anchorExecution settings node filtered.1.runId status filtered.2 st⟩

end Clock

/-- The bus path: the order set of an orders-ready event is submitted as it comes, with no gate. -/
def onOrdersReady (reply : Nat → BrokerOrder → BrokerReply) (settings : ExecutionSettings)
    (g : PipelineGraph) (event : PipelineNode) : Except HandlerError SubmitState := do
  match ← event.require "orders" with
  | .doc (.orderIntentSet s) => runSubmit reply settings g s
  | _ => .error (.validation "orders")

/-! ### The poll -/

theorem orderIntentSet?_eq_some {node : PipelineNode} {s : OrderIntentSet} :
    orderIntentSet? node = some s ↔
      node.props.get? "order_intent_set" = some (.doc (.orderIntentSet s)) := by
  unfold orderIntentSet?
  constructor
  · intro h
    split at h
    · rename_i s' hget; rw [hget, Option.some.inj h]
    · cases h
  · intro h; rw [h]

theorem requireOrderIntentSet_eq_ok {node : PipelineNode} {s : OrderIntentSet} :
    requireOrderIntentSet node = .ok s ↔ orderIntentSet? node = some s := by
  rw [orderIntentSet?_eq_some]
  unfold requireOrderIntentSet Node.require
  constructor
  · intro h
    obtain ⟨v, hv, h⟩ := Fallible.bind_eq_ok.mp h
    split at hv
    · rename_i w hget
      cases hv
      split at h
      · cases h; exact hget
      · cases h
    · cases hv
  · intro h; rw [h]; rfl

theorem isWaiting_eq (fromIso : String → Option Int) {g : PipelineGraph} {node : PipelineNode}
    {s : OrderIntentSet} (h : orderIntentSet? node = some s) (now : Int)
    (settings : ExecutionSettings) :
    isWaiting fromIso g node now settings = .ok (decide (deliberationStatus fromIso g node s now
      settings.deliberationGraceSeconds = .waiting)) := by
  rw [orderIntentSet?_eq_some] at h
  unfold isWaiting
  rw [show node.get "order_intent_set" = .doc (.orderIntentSet s) by simp [Node.get, Props.get, h]]

/-- The poll returns exactly the unexecuted PMRuns that do not wait. -/
theorem mem_findPending {fromIso : String → Option Int} {g : PipelineGraph} {now : Int}
    {settings : ExecutionSettings} {found : List PipelineNode}
    (h : findPending fromIso g now settings = .ok found) {node : PipelineNode} :
    node ∈ found ↔ node ∈ g.pendingNodes pmRunLabel executedEdge ∧
      isWaiting fromIso g node now settings = .ok false := by
  rw [Fallible.mem_filter h]
  refine and_congr_right fun _ => ?_
  cases isWaiting fromIso g node now settings with
  | ok w => cases w <;> simp
  | error e => simp

/-- A pass over one PMRun that the poll found: the graph only grows and the clock does not run
backwards from the poll to the last read of the pass. -/
structure Pickup (fromIso : String → Option Int) (settings : ExecutionSettings) where
  polled : PipelineGraph
  polledAt : Int
  found : List PipelineNode
  reads : GraphReads
  found_eq : findPending fromIso polled polledAt settings = .ok found
  polled_classified : polled.Extends reads.classified
  classified_vetoed : reads.classified.Extends reads.vetoed
  polled_now : polledAt ≤ reads.now

section Pickup

variable {fromIso : String → Option Int} {settings : ExecutionSettings}

theorem runPosture_eq_degraded {props : Option (Props Document)} :
    runPosture props = .degraded ↔
      ∃ p, props = some p ∧ p.get? "run_posture" = some (.str "degraded") := by
  cases props with
  | none => simp [runPosture]
  | some p =>
    simp only [runPosture, Value.pyEq_str, RunPosture.value, Props.get, Option.some.injEq,
      exists_eq_left']
    cases hp : p.get? "run_posture" with
    | none => simp
    | some v => by_cases hv : v = .str "degraded" <;> simp [hv]

theorem isDegradedRun_mono {g g' : PipelineGraph} (h : g.Extends g') {orderSet : OrderIntentSet}
    (hd : isDegradedRun g orderSet = true) : isDegradedRun g' orderSet = true := by
  simp only [isDegradedRun, decide_eq_true_eq, runPosture_eq_degraded] at hd ⊢
  obtain ⟨p, hp, hget⟩ := hd
  obtain ⟨n, hn, rfl⟩ := Option.map_eq_some_iff.mp hp
  obtain ⟨n', hn', hgrows⟩ := h.nodes _ _ n hn
  exact ⟨n'.props, by rw [hn']; rfl, hgrows.get_str (by decide) hget⟩

/-- A PMRun that the poll found is not classified as waiting. -/
theorem Pickup.not_waiting (p : Pickup fromIso settings) {node : PipelineNode} {s : OrderIntentSet}
    (hmem : node ∈ p.found) (hs : orderIntentSet? node = some s) :
    deliberationStatus fromIso p.reads.classified node s p.reads.now
      settings.deliberationGraceSeconds ≠ .waiting := by
  have hpoll := ((mem_findPending p.found_eq).mp hmem).2
  rw [isWaiting_eq fromIso hs] at hpoll
  have hready := of_decide_eq_false (Except.ok.inj hpoll)
  intro hwait
  rw [deliberationStatus_waiting_iff] at hwait
  obtain ⟨hunlinked, hbuy, hnormal, hgrace⟩ := hwait
  refine hready (deliberationStatus_waiting_iff fromIso |>.mpr ⟨?_, hbuy, ?_, ?_⟩)
  · by_contra hlinked
    obtain ⟨d, hd⟩ := Option.ne_none_iff_exists'.mp hlinked
    obtain ⟨d', hd', -⟩ := linkedDeliberation_mono p.polled_classified hd
    rw [hunlinked] at hd'; cases hd'
  · by_contra hdeg
    have := isDegradedRun_mono p.polled_classified (Bool.eq_true_of_not_eq_false hdeg)
    rw [hnormal] at this; cases this
  · by_contra hover
    have := graceOver_mono fromIso p.polled_now (Bool.eq_true_of_not_eq_false hover)
    rw [hgrace] at this; cases this

/-! ### What a gated pass hands to the broker -/

/-- How a pass that went through came to its submission: the veto, the posture filter and the submit
core, one after the other. -/
theorem executePmNode_ok {reply : Nat → BrokerOrder → BrokerReply} {node : PipelineNode}
    {reads : GraphReads} {exec : PmExecution} {s : OrderIntentSet}
    (hs : orderIntentSet? node = some s)
    (h : executePmNode fromIso reply settings node reads = .ok exec) :
    ∃ kept, dropVetoed reads.vetoed node.nodeKey s = .ok kept ∧
      exec.status = deliberationStatus fromIso reads.classified node s reads.now
        settings.deliberationGraceSeconds ∧
      SubmitOutcome settings reads.submit
        (applyDeliberationPosture kept exec.status settings.deliberationPosture).1
        exec.submission := by
  obtain ⟨s', hs', h⟩ := Fallible.bind_eq_ok.mp h
  cases Option.some.inj (hs.symm.trans (requireOrderIntentSet_eq_ok.mp hs'))
  obtain ⟨kept, hkept, h⟩ := Fallible.bind_eq_ok.mp h
  obtain ⟨-, -, h⟩ := Fallible.bind_eq_ok.mp h
  obtain ⟨st, hst, h⟩ := Fallible.bind_eq_ok.mp h
  cases h
  exact ⟨kept, hkept, rfl, runSubmit_outcome hst⟩

/-- Under the binding posture no buy survives without a linked deliberation. -/
theorem Pickup.linked_of_buy (p : Pickup fromIso settings)
    (hbinding : settings.deliberationPosture = .binding) {node : PipelineNode}
    {s kept : OrderIntentSet} (hmem : node ∈ p.found) (hs : orderIntentSet? node = some s)
    (hkept : dropVetoed p.reads.vetoed node.nodeKey s = .ok kept) {intent : OrderIntent}
    (hi : intent ∈ (applyDeliberationPosture kept (deliberationStatus fromIso p.reads.classified
      node s p.reads.now settings.deliberationGraceSeconds)
      settings.deliberationPosture).1.approved)
    (hbuy : intent.action = .buy) :
    linkedDeliberation p.reads.vetoed node.nodeKey ≠ none := by
  intro hnone
  obtain ⟨hik, hfree⟩ := mem_applyDeliberationPosture.mp hi
  obtain ⟨hheld, hproceeded⟩ := hfree hbuy
  have hunlinked : linkedDeliberation p.reads.classified node.nodeKey = none := by
    by_contra hlinked
    obtain ⟨d, hd⟩ := Option.ne_none_iff_exists'.mp hlinked
    obtain ⟨d', hd', -⟩ := linkedDeliberation_mono p.classified_vetoed hd
    rw [hnone] at hd'; cases hd'
  have hsbuy : hasBuy s = true := by
    obtain ⟨-, hcase⟩ := dropVetoed_ok hkept
    rcases hcase with ⟨-, rfl⟩ | ⟨d, v, hd, -⟩
    · exact hasBuy_iff.mpr ⟨intent, hik, hbuy⟩
    · rw [hnone] at hd; cases hd
  have hwait := p.not_waiting hmem hs
  -- with a buy and no deliberation the classification is one of the three that block or wait
  rw [deliberationStatus_unlinked fromIso hunlinked, hsbuy] at hheld hproceeded hwait
  simp only [Bool.not_true, Bool.false_eq_true, if_false] at hheld hproceeded hwait
  split at hheld
  · exact hheld rfl
  · rename_i hdeg
    rw [if_neg hdeg] at hproceeded hwait
    split at hproceeded
    · exact hproceeded hbinding rfl
    · rename_i hgrace
      exact hwait (if_neg hgrace)

/-- The linked deliberation reviewed the tickers of these orders and vetoed none of them. -/
def Cleared (g : PipelineGraph) (pmRun : NodeKey) (ticker : String) : Prop :=
  ∃ delib vetoed, linkedDeliberation g pmRun = some delib ∧
    vetoedTickers delib = .ok vetoed ∧ isVetoed vetoed ticker = false

/-- The linked deliberation, if there is one, does not veto this ticker. -/
def NotVetoed (g : PipelineGraph) (pmRun : NodeKey) (ticker : String) : Prop :=
  ∀ delib, linkedDeliberation g pmRun = some delib →
    ∃ vetoed, vetoedTickers delib = .ok vetoed ∧ isVetoed vetoed ticker = false

theorem mem_dropVetoed {g : PipelineGraph} {pmRun : NodeKey} {s kept : OrderIntentSet}
    (h : dropVetoed g pmRun s = .ok kept) {intent : OrderIntent} :
    intent ∈ kept.approved ↔ intent ∈ s.approved ∧ NotVetoed g pmRun intent.ticker := by
  obtain ⟨-, ⟨hnone, rfl⟩ | ⟨d, v, hd, hv, hmem⟩⟩ := dropVetoed_ok h
  · simp [NotVetoed, hnone]
  · rw [hmem]
    simp [NotVetoed, hd, hv]

/-- What the gate gives of a pass over a PMRun: a buy reaches the broker only when the linked
deliberation cleared its ticker, and in a paper-safe stage every approved sell that is not vetoed
reaches the broker or was completed before. -/
structure Gated (settings : ExecutionSettings) (node : PipelineNode) (s : OrderIntentSet)
    (reads : GraphReads) (exec : PmExecution) : Prop where
  buys : ∀ order ∈ exec.submission.submissions, order.side = .buy →
    Cleared reads.vetoed node.nodeKey order.ticker
  sells : (currentStageFromGraph reads.submit settings.stage).paperSafe = true →
    ∀ intent ∈ s.approved, intent.action = .sell →
      NotVetoed reads.vetoed node.nodeKey intent.ticker →
      intent ∈ exec.submission.skipped ∨ ∃ order ∈ exec.submission.submissions,
        orderFromIntent settings.tolerance s.runId intent = .ok order

theorem Pickup.gated (p : Pickup fromIso settings)
    (hbinding : settings.deliberationPosture = .binding)
    {reply : Nat → BrokerOrder → BrokerReply} {node : PipelineNode} {s : OrderIntentSet}
    {exec : PmExecution} (hmem : node ∈ p.found) (hs : orderIntentSet? node = some s)
    (h : executePmNode fromIso reply settings node p.reads = .ok exec) :
    Gated settings node s p.reads exec := by
  obtain ⟨kept, hkept, hstatus, hout⟩ := executePmNode_ok hs h
  have hrun : (applyDeliberationPosture kept exec.status settings.deliberationPosture).1.runId =
      s.runId := by
    rw [runId_applyDeliberationPosture, (dropVetoed_ok hkept).1]
  refine ⟨fun order ho hside => ?_, fun hsafe intent hi hsell hfree => ?_⟩
  · obtain ⟨intent, hi, horder⟩ := hout.orders order ho
    obtain ⟨hticker, hact⟩ := orderFromIntent_ok horder
    have hbuy : intent.action = .buy := by
      rcases hact with ⟨ha, -⟩ | ⟨-, hs⟩
      · exact ha
      · rw [hside] at hs; cases hs
    have hlinked := p.linked_of_buy hbinding hmem hs hkept (hstatus ▸ hi) hbuy
    obtain ⟨d, hd⟩ := Option.ne_none_iff_exists'.mp hlinked
    have hkeep := (mem_dropVetoed hkept).mp (mem_applyDeliberationPosture.mp hi).1
    obtain ⟨v, hv, hclear⟩ := hkeep.2 d hd
    exact ⟨d, v, hd, hv, hticker ▸ hclear⟩
  · have hi' : intent ∈
        (applyDeliberationPosture kept exec.status settings.deliberationPosture).1.approved :=
      mem_applyDeliberationPosture.mpr ⟨(mem_dropVetoed hkept).mpr ⟨hi, hfree⟩,
        fun hbuy => by rw [hsell] at hbuy; cases hbuy⟩
    rw [← hrun]
    exact hout.intents hsafe intent hi'

/-- The poll leaves an unexecuted PMRun for later exactly while it carries a buy, has no linked
deliberation, does not belong to a degraded run and is younger than the grace. -/
theorem Pickup.withheld_iff (p : Pickup fromIso settings) {node : PipelineNode}
    {s : OrderIntentSet} (hs : orderIntentSet? node = some s)
    (hpending : node ∈ p.polled.pendingNodes pmRunLabel executedEdge) :
    node ∉ p.found ↔ linkedDeliberation p.polled node.nodeKey = none ∧ hasBuy s = true ∧
      isDegradedRun p.polled s = false ∧
      graceOver fromIso node p.polledAt settings.deliberationGraceSeconds = false := by
  rw [mem_findPending p.found_eq, isWaiting_eq fromIso hs, ← deliberationStatus_waiting_iff]
  simp [hpending]

/-- In a paper-safe stage, when every approved intent is a buy or a sell and the vetoed tickers, if
any, can be read, the pass goes through exactly when its run start does. -/
theorem executePmNode_ok_iff {reply : Nat → BrokerOrder → BrokerReply} {node : PipelineNode}
    {reads : GraphReads} {s kept : OrderIntentSet} (hs : orderIntentSet? node = some s)
    (hsafe : (currentStageFromGraph reads.submit settings.stage).paperSafe = true)
    (hactions : ∀ intent ∈ s.approved, intent.action ≠ .hold)
    (hkept : dropVetoed reads.vetoed node.nodeKey s = .ok kept) :
    (∃ exec, executePmNode fromIso reply settings node reads = .ok exec) ↔
      reads.runStart = .ok () := by
  have hfiltered : ∀ intent ∈ (applyDeliberationPosture kept (deliberationStatus fromIso
      reads.classified node s reads.now settings.deliberationGraceSeconds)
      settings.deliberationPosture).1.approved, intent.action ≠ .hold := fun intent hi =>
    hactions intent ((mem_dropVetoed hkept).mp (mem_applyDeliberationPosture.mp hi).1).1
  constructor
  · rintro ⟨exec, h⟩
    obtain ⟨s', -, hrest⟩ := Fallible.bind_eq_ok.mp h
    obtain ⟨kept', -, hrest⟩ := Fallible.bind_eq_ok.mp hrest
    obtain ⟨_, hstart, -⟩ := Fallible.bind_eq_ok.mp hrest
    exact hstart
  · intro hstart
    obtain ⟨st, hst⟩ := runSubmit_total reply hsafe hfiltered
    exact ⟨_, Fallible.bind_eq_ok.mpr ⟨s, requireOrderIntentSet_eq_ok.mpr hs,
      Fallible.bind_eq_ok.mpr ⟨kept, hkept, Fallible.bind_eq_ok.mpr ⟨(), hstart,
        Fallible.bind_eq_ok.mpr ⟨st, hst, rfl⟩⟩⟩⟩⟩

end Pickup

/-- A poll in which no exit waits: every unexecuted PMRun with an approved sell that no deliberation
vetoes is returned. -/
def SellsNeverWait (fromIso : String → Option Int) (g : PipelineGraph) (now : Int)
    (settings : ExecutionSettings) : Prop :=
  ∃ found, findPending fromIso g now settings = .ok found ∧
    ∀ node ∈ g.pendingNodes pmRunLabel executedEdge, ∀ s, orderIntentSet? node = some s →
      (∃ intent ∈ s.approved, intent.action = .sell ∧ NotVetoed g node.nodeKey intent.ticker) →
      node ∈ found

def mixedSet : OrderIntentSet where
  runId := "pm-run-1"
  approved := [⟨"AAPL", .buy, 2, ⟨100, "USD"⟩, none, none, by decide⟩,
    ⟨"AMD", .sell, 1, ⟨90, "USD"⟩, none, some "p1", by decide⟩]
  rejected := []
  provenance := ⟨"pm-run-1", "portfolio_manager", some "PMRun:pm-run-1"⟩

def mixedRun : PipelineNode where
  label := "PMRun"
  key := "pm-run-1"
  props := .ofList [("created_at", .str "2026-08-08T05:36:00+00:00"),
    ("order_intent_set", .doc (.orderIntentSet mixedSet))]

def mixedGraph : PipelineGraph := Graph.empty.put mixedRun

/-- The orders-ready event of the same order set. -/
def mixedEvent : PipelineNode where
  label := "OrderIntentResult"
  key := "orders:run-1"
  props := .ofList [("orders", .doc (.orderIntentSet mixedSet))]

/-- A PMRun with a buy and a sell waits as a whole inside the grace, and on the bus its buy reaches
the broker although no deliberation has come. -/
theorem mixed_run_waits : ¬ SellsNeverWait (fun _ => some 0) mixedGraph 0 {} ∧
    linkedDeliberation mixedGraph mixedRun.nodeKey = none ∧
    ∃ st, onOrdersReady (fun _ _ => .failed "down") {} mixedGraph mixedEvent = .ok st ∧
      ∃ order ∈ st.submissions, order.side = .buy := by
  refine ⟨?_, rfl, ?_⟩
  · rintro ⟨found, hfound, hall⟩
    have hnone : findPending (fun _ => some 0) mixedGraph 0 {} = .ok [] := rfl
    have hpending : mixedRun ∈ mixedGraph.pendingNodes pmRunLabel executedEdge :=
      List.mem_singleton.mpr rfl
    have hunlinked : linkedDeliberation mixedGraph mixedRun.nodeKey = none := rfl
    have hmem := hall mixedRun hpending mixedSet rfl
      ⟨⟨"AMD", .sell, 1, ⟨90, "USD"⟩, none, some "p1", by decide⟩, by simp [mixedSet], rfl,
        fun d hd => by rw [hunlinked] at hd; cases hd⟩
    rw [Except.ok.inj (hfound.symm.trans hnone)] at hmem
    cases hmem
  · have hbuys : Fallible.check (fun st : SubmitState =>
        st.submissions.any fun order => decide (order.side = .buy))
        (onOrdersReady (fun _ _ => .failed "down") {} mixedGraph mixedEvent) = true := by
      decide +kernel
    obtain ⟨st, hst, hany⟩ := Fallible.check_eq_true.mp hbuys
    obtain ⟨order, horder, hside⟩ := List.any_eq_true.mp hany
    exact ⟨st, hst, order, horder, of_decide_eq_true hside⟩

/-- Under the binding posture, on the graph path: a pass over a PMRun that the poll found is gated
as `Gated` says, in a paper-safe stage it goes through when its run start does, and the poll
withholds a PMRun only inside its grace. -/
theorem binding_gates {fromIso : String → Option Int} {settings : ExecutionSettings}
    (p : Pickup fromIso settings) (hbinding : settings.deliberationPosture = .binding)
    (reply : Nat → BrokerOrder → BrokerReply) {node : PipelineNode} {s : OrderIntentSet}
    (hs : orderIntentSet? node = some s)
    (hpending : node ∈ p.polled.pendingNodes pmRunLabel executedEdge) :
    (node ∈ p.found → ∀ exec, executePmNode fromIso reply settings node p.reads = .ok exec →
      Gated settings node s p.reads exec) ∧
    (∀ kept, dropVetoed p.reads.vetoed node.nodeKey s = .ok kept →
      (currentStageFromGraph p.reads.submit settings.stage).paperSafe = true →
      (∀ intent ∈ s.approved, intent.action ≠ .hold) →
      ((∃ exec, executePmNode fromIso reply settings node p.reads = .ok exec) ↔
        p.reads.runStart = .ok ())) ∧
    (node ∉ p.found ↔ linkedDeliberation p.polled node.nodeKey = none ∧ hasBuy s = true ∧
      isDegradedRun p.polled s = false ∧
      graceOver fromIso node p.polledAt settings.deliberationGraceSeconds = false) :=
  ⟨fun hmem _ h => p.gated hbinding hmem hs h,
    fun _ hkept hsafe hactions => executePmNode_ok_iff hs hsafe hactions hkept,
    p.withheld_iff hs hpending⟩

/-- The mixed run, picked up when its grace is over and no deliberation has come. -/
def latePickup : Pickup (fun _ => some 0) {} where
  polled := mixedGraph
  polledAt := 900000000
  found := [mixedRun]
  reads := {
    classified := mixedGraph
    now := 900000000
    vetoed := mixedGraph
    submit := mixedGraph }
  found_eq := rfl
  polled_classified := .refl _
  classified_vetoed := .refl _
  polled_now := le_rfl

theorem binding_gates_late : ∃ exec,
    executePmNode (fun _ => some 0) (fun _ _ => .failed "down") {} mixedRun latePickup.reads =
      .ok exec ∧ Gated {} mixedRun mixedSet latePickup.reads exec := by
  have hpending : mixedRun ∈ latePickup.polled.pendingNodes pmRunLabel executedEdge :=
    List.mem_singleton.mpr rfl
  obtain ⟨hgated, htotal, -⟩ := binding_gates latePickup rfl (fun _ _ => .failed "down")
    (show orderIntentSet? mixedRun = some mixedSet from rfl) hpending
  obtain ⟨exec, hexec⟩ := (htotal mixedSet rfl rfl (by decide)).mpr rfl
  exact ⟨exec, hexec, hgated (List.mem_singleton.mpr rfl) exec hexec⟩

end TradingAgents.Execution
