import TradingAgents.Orchestration.ScheduledDispatch
import TradingAgents.Pipeline.Polls

/-! Runs that the dispatcher places with the degraded posture, and what execution does with their
PMRuns.  The posture stands on the request of the run; the gate asks for it under the id of the
PMRun, which is another. -/

namespace TradingAgents.Orchestration

open Kernel ProofKit Pipeline Execution

/-! ### A degraded run -/

/-- The stages of a run, from its request to its PMRun. -/
structure StageChain (g : PipelineGraph) (request pmRun : NodeKey) : Prop where
  stages : ∃ market scan analyst, ⟨request, market, ingestedEdge⟩ ∈ g.edges ∧
    ⟨market, scan, scannedEdge⟩ ∈ g.edges ∧ ⟨scan, analyst, analyzedEdge⟩ ∈ g.edges ∧
    ⟨analyst, pmRun, evaluatedEdge⟩ ∈ g.edges

/-- A request declares the degraded posture. -/
def DeclaresDegraded (g : PipelineGraph) (runId : String) : Prop :=
  runPosture ((g.getNode runRequestLabel (runRequestKey runId)).map Node.props) = .degraded

/-- A PMRun of a run that the dispatcher placed degraded, with the id that the portfolio manager
gave it.  Only the dispatcher writes a posture, on the requests of its own runs. -/
structure DegradedRun (g : PipelineGraph) (asOf : Day) (node : PipelineNode) (s : OrderIntentSet) :
    Prop where
  declared : DeclaresDegraded g (scheduledRunId asOf)
  chain : StageChain g (runRequestLabel, runRequestKey (scheduledRunId asOf)) node.nodeKey
  orderSet : orderIntentSet? node = some s
  minted : "pm-run-".toList <+: s.runId.toList
  postures : ∀ runId, DeclaresDegraded g runId → ∃ day, runId = scheduledRunId day

/-- A scheduled run has no PMRun's id. -/
theorem scheduledRunId_ne_minted {runId : String} (h : "pm-run-".toList <+: runId.toList)
    (day : Day) : runId ≠ scheduledRunId day := by
  rintro rfl
  rw [scheduledRunId, String.toList_append] at h
  have hsched : "sched-".toList.take 1 <+: "sched-".toList ++ day.isoformat.toList :=
    (List.take_prefix _ _).trans (List.prefix_append _ _)
  have hpm : "pm-run-".toList.take 1 <+: "sched-".toList ++ day.isoformat.toList :=
    (List.take_prefix _ _).trans h
  exact absurd (List.prefix_of_prefix_length_le hpm hsched (by decide)) (by decide)

section Gate

variable {fromIso : String → Option Int} {settings : ExecutionSettings} {g : PipelineGraph}
  {asOf : Day} {node : PipelineNode} {s kept : OrderIntentSet} {reads : GraphReads}
  {reply : Nat → BrokerOrder → BrokerReply} {exec : PmExecution}

/-- The gate does not find the posture. -/
theorem DegradedRun.not_found (h : DegradedRun g asOf node s) : isDegradedRun g s = false := by
  by_contra hdegraded
  have hdeclared : DeclaresDegraded g s.runId := by
    rw [Bool.not_eq_false, isDegradedRun, decide_eq_true_eq] at hdegraded
    exact hdegraded
  obtain ⟨day, hday⟩ := h.postures s.runId hdeclared
  exact scheduledRunId_ne_minted h.minted day hday

/-- What a degraded run is to do at one pass: it does not wait, no buy reaches the broker, and every
approved sell that is not vetoed does or was completed before. -/
structure HoldsBuys (fromIso : String → Option Int) (settings : ExecutionSettings)
    (node : PipelineNode) (s : OrderIntentSet) (reads : GraphReads) (exec : PmExecution) :
    Prop where
  ready : isWaiting fromIso reads.classified node reads.now settings = .ok false
  buys : ∀ order ∈ exec.submission.submissions, order.side ≠ .buy
  sells : ∀ intent ∈ s.approved, intent.action = .sell →
    NotVetoed reads.vetoed node.nodeKey intent.ticker →
      intent ∈ exec.submission.skipped ∨ ∃ order ∈ exec.submission.submissions,
        orderFromIntent settings.tolerance s.runId intent = .ok order

/-- The state in which the gate does it for every run: nothing makes it wait; in a paper-safe stage
every approved buy is vetoed, or has no deliberation under the binding posture; in another stage,
where nothing is submitted, every approved sell is vetoed. -/
def GateHolds (fromIso : String → Option Int) (settings : ExecutionSettings) (node : PipelineNode)
    (s : OrderIntentSet) (reads : GraphReads) : Prop :=
  (linkedDeliberation reads.classified node.nodeKey = none → hasBuy s = true →
    graceOver fromIso node reads.now settings.deliberationGraceSeconds = true) ∧
  if (currentStageFromGraph reads.submit settings.stage).paperSafe = true then
    ∀ intent ∈ s.approved, intent.action = .buy →
      NotVetoed reads.vetoed node.nodeKey intent.ticker →
        linkedDeliberation reads.classified node.nodeKey = none ∧
          settings.deliberationPosture = .binding
  else ∀ intent ∈ s.approved, intent.action = .sell →
    ¬ NotVetoed reads.vetoed node.nodeKey intent.ticker

/-- A degraded run waits as any other. -/
theorem DegradedRun.ready_iff (h : DegradedRun reads.classified asOf node s) :
    isWaiting fromIso reads.classified node reads.now settings = .ok false ↔
      (linkedDeliberation reads.classified node.nodeKey = none → hasBuy s = true →
        graceOver fromIso node reads.now settings.deliberationGraceSeconds = true) := by
  rw [isWaiting_eq fromIso h.orderSet, Except.ok.injEq, decide_eq_false_iff_not,
    deliberationStatus_waiting_iff, h.not_found]
  constructor
  · intro hnot hunlinked hbuy
    by_contra hgrace
    exact hnot ⟨hunlinked, hbuy, rfl, Bool.eq_false_of_not_eq_true hgrace⟩
  · rintro hgrace ⟨hunlinked, hbuy, -, hwaits⟩
    rw [hgrace hunlinked hbuy] at hwaits
    cases hwaits

/-- A buy of a run that does not wait survives the posture unless it has no deliberation under the
binding one. -/
theorem DegradedRun.survives_iff (h : DegradedRun reads.classified asOf node s)
    (hready : linkedDeliberation reads.classified node.nodeKey = none → hasBuy s = true →
      graceOver fromIso node reads.now settings.deliberationGraceSeconds = true)
    (hkept : dropVetoed reads.vetoed node.nodeKey s = .ok kept) {intent : OrderIntent}
    (hbuy : intent.action = .buy) :
    intent ∈ (applyDeliberationPosture kept (deliberationStatus fromIso reads.classified node s
        reads.now settings.deliberationGraceSeconds) settings.deliberationPosture).1.approved ↔
      (intent ∈ s.approved ∧ NotVetoed reads.vetoed node.nodeKey intent.ticker) ∧
        ¬ (linkedDeliberation reads.classified node.nodeKey = none ∧
          settings.deliberationPosture = .binding) := by
  rw [mem_applyDeliberationPosture, mem_dropVetoed hkept]
  refine and_congr_right fun hmem => ?_
  rw [imp_iff_right hbuy]
  have hbuys : hasBuy s = true := hasBuy_iff.mpr ⟨intent, hmem.1, hbuy⟩
  cases hlinked : linkedDeliberation reads.classified node.nodeKey with
  | some delib =>
    have hstatus : deliberationStatus fromIso reads.classified node s reads.now
        settings.deliberationGraceSeconds = .applied ∨ deliberationStatus fromIso reads.classified
          node s reads.now settings.deliberationGraceSeconds = .appliedFailedOpen :=
      deliberationStatus_linked fromIso hlinked
    rcases hstatus with hstatus | hstatus <;> simp [hstatus]
  | none =>
    rw [deliberationStatus_unlinked fromIso hlinked, hbuys, h.not_found, hready hlinked hbuys]
    simp

/-- In a stage that is not paper-safe nothing is submitted, and nothing counts as completed. -/
theorem skipped_of_unsafe
    (hexec : executePmNode fromIso reply settings node reads = .ok exec)
    (hgated : (currentStageFromGraph reads.submit settings.stage).paperSafe = false) :
    exec.submission.skipped = [] := by
  obtain ⟨s', -, hexec⟩ := Fallible.bind_eq_ok.mp hexec
  obtain ⟨kept, -, hexec⟩ := Fallible.bind_eq_ok.mp hexec
  obtain ⟨-, -, hexec⟩ := Fallible.bind_eq_ok.mp hexec
  obtain ⟨st, hsubmit, hexec⟩ := Fallible.bind_eq_ok.mp hexec
  cases hexec
  obtain ⟨orders, -, hsubmit⟩ := Fallible.bind_eq_ok.mp hsubmit
  rw [hgated, if_neg (by decide)] at hsubmit
  obtain ⟨rejected, -, hsubmit⟩ := Fallible.bind_eq_ok.mp hsubmit
  cases hsubmit
  rfl

/-- In a paper-safe stage no buy is submitted exactly when none survives. -/
theorem SubmitOutcome.no_buys_iff {orderSet : OrderIntentSet} {st : SubmitState}
    (hout : SubmitOutcome settings g orderSet st)
    (hsafe : (currentStageFromGraph g settings.stage).paperSafe = true) :
    (∀ order ∈ st.submissions, order.side ≠ .buy) ↔
      ∀ intent ∈ orderSet.approved, intent.action ≠ .buy := by
  constructor
  · intro hnone intent hintent hbuy
    rcases hout.intents hsafe intent hintent with hskipped | ⟨order, horder, hof⟩
    · rw [(hout.skipped intent hskipped).1] at hbuy
      cases hbuy
    · rcases (orderFromIntent_ok hof).2 with ⟨-, hside⟩ | ⟨hsell, -⟩
      · exact hnone order horder hside
      · rw [hsell] at hbuy
        cases hbuy
  · intro hnone order horder hside
    obtain ⟨intent, hintent, hof⟩ := hout.orders order horder
    rcases (orderFromIntent_ok hof).2 with ⟨hbuy, -⟩ | ⟨-, hsell⟩
    · exact hnone intent hintent hbuy
    · rw [hsell] at hside
      cases hside

/-- In a paper-safe stage the approved sells that are not vetoed reach the broker. -/
theorem SubmitOutcome.sells_submitted {status : DeliberationStatus} {st : SubmitState}
    (hkept : dropVetoed reads.vetoed node.nodeKey s = .ok kept)
    (hout : SubmitOutcome settings reads.submit
      (applyDeliberationPosture kept status settings.deliberationPosture).1 st)
    (hsafe : (currentStageFromGraph reads.submit settings.stage).paperSafe = true)
    {intent : OrderIntent} (hintent : intent ∈ s.approved) (hsell : intent.action = .sell)
    (hfree : NotVetoed reads.vetoed node.nodeKey intent.ticker) :
    intent ∈ st.skipped ∨ ∃ order ∈ st.submissions,
      orderFromIntent settings.tolerance s.runId intent = .ok order := by
  have hrun : (applyDeliberationPosture kept status settings.deliberationPosture).1.runId =
      s.runId := by
    rw [runId_applyDeliberationPosture, (dropVetoed_ok hkept).1]
  rw [← hrun]
  refine hout.intents hsafe intent (mem_applyDeliberationPosture.mpr
    ⟨(mem_dropVetoed hkept).mpr ⟨hintent, hfree⟩, fun hbuy => ?_⟩)
  rw [hsell] at hbuy
  cases hbuy

/-- A pass over a PMRun of a degraded run holds its buys exactly when the gate would do so for any
run: the posture plays no part. -/
theorem degraded_buys_held_iff (h : DegradedRun reads.classified asOf node s)
    (hexec : executePmNode fromIso reply settings node reads = .ok exec) :
    HoldsBuys fromIso settings node s reads exec ↔ GateHolds fromIso settings node s reads := by
  obtain ⟨kept, hkept, hstatus, hout⟩ := executePmNode_ok h.orderSet hexec
  rw [hstatus] at hout
  cases hsafe : (currentStageFromGraph reads.submit settings.stage).paperSafe with
  | true =>
    have hnone := SubmitOutcome.no_buys_iff hout hsafe
    unfold GateHolds
    rw [if_pos hsafe]
    constructor
    · rintro ⟨hready, hbuys, -⟩
      refine ⟨h.ready_iff.mp hready, fun intent hintent hbuy hfree => ?_⟩
      by_contra hnot
      exact hnone.mp hbuys intent
        ((h.survives_iff (h.ready_iff.mp hready) hkept hbuy).mpr ⟨⟨hintent, hfree⟩, hnot⟩) hbuy
    · rintro ⟨hready, hall⟩
      refine ⟨h.ready_iff.mpr hready, hnone.mpr fun intent hintent hbuy => ?_,
        fun intent hintent hsell hfree =>
          SubmitOutcome.sells_submitted hkept hout hsafe hintent hsell hfree⟩
      obtain ⟨⟨happroved, hfree⟩, hnot⟩ := (h.survives_iff hready hkept hbuy).mp hintent
      exact hnot (hall intent happroved hbuy hfree)
  | false =>
    have hempty := hout.gated hsafe
    have hskipped := skipped_of_unsafe hexec hsafe
    unfold GateHolds
    rw [if_neg (by rw [hsafe]; decide)]
    constructor
    · rintro ⟨hready, -, hsells⟩
      refine ⟨h.ready_iff.mp hready, fun intent hintent hsell hfree => ?_⟩
      rcases hsells intent hintent hsell hfree with hin | ⟨order, horder, -⟩
      · rw [hskipped] at hin
        exact List.not_mem_nil hin
      · rw [hempty] at horder
        exact List.not_mem_nil horder
    · rintro ⟨hready, hall⟩
      refine ⟨h.ready_iff.mpr hready, fun order horder => ?_,
        fun intent hintent hsell hfree => absurd hfree (hall intent hintent hsell)⟩
      rw [hempty] at horder
      exact absurd horder List.not_mem_nil

end Gate

/-! ### One degraded run -/

def degradedDay : Day := .ofFields 2026 1 7 (by decide)

def degradedRequest : PipelineNode where
  label := runRequestLabel
  key := runRequestKey (scheduledRunId degradedDay)
  props := .ofList [("run_id", .str (scheduledRunId degradedDay)), ("run_posture", .str "degraded")]

def stageNode (label : String) : PipelineNode := ⟨label, label ++ ":1", .empty, 1⟩

/-- A degraded run up to the PMRun of a buy and a sell. -/
def degradedGraph : PipelineGraph :=
  let nodes : PipelineGraph := ((((Graph.empty.put degradedRequest).put (stageNode "MarketData")).put
    (stageNode "ScanRun")).put (stageNode "AnalystRun")).put mixedRun
  (((nodes.link ⟨degradedRequest.nodeKey, (stageNode "MarketData").nodeKey, ingestedEdge⟩
    (by decide) (by decide)).link
    ⟨(stageNode "MarketData").nodeKey, (stageNode "ScanRun").nodeKey, scannedEdge⟩
      (by decide) (by decide)).link
    ⟨(stageNode "ScanRun").nodeKey, (stageNode "AnalystRun").nodeKey, analyzedEdge⟩
      (by decide) (by decide)).link
    ⟨(stageNode "AnalystRun").nodeKey, mixedRun.nodeKey, evaluatedEdge⟩ (by decide) (by decide)

theorem degradedGraph_run : DegradedRun degradedGraph degradedDay mixedRun mixedSet where
  declared := runPosture_eq_degraded.mpr ⟨_, rfl, by decide⟩
  chain := ⟨(stageNode "MarketData").nodeKey, (stageNode "ScanRun").nodeKey,
    (stageNode "AnalystRun").nodeKey, by decide, by decide, by decide, by decide⟩
  orderSet := rfl
  minted := by decide
  postures := by
    intro runId hdeclared
    obtain ⟨p, hp, -⟩ := runPosture_eq_degraded.mp hdeclared
    obtain ⟨n, hn, -⟩ := Option.map_eq_some_iff.mp hp
    have hmem := Graph.mem_keys_of_getNode hn
    have hkeys : degradedGraph.nodes.keys = [degradedRequest.nodeKey,
        (stageNode "MarketData").nodeKey, (stageNode "ScanRun").nodeKey,
        (stageNode "AnalystRun").nodeKey, mixedRun.nodeKey] := rfl
    rw [hkeys] at hmem
    refine ⟨degradedDay, ?_⟩
    rcases List.mem_cons.mp hmem with hreq | hother
    · have hkey : runRequestKey runId = runRequestKey (scheduledRunId degradedDay) :=
        congrArg Prod.snd hreq
      exact String.append_right_inj _ |>.mp hkey
    · have hlabel : runRequestLabel ∈ ["MarketData", "ScanRun", "AnalystRun", pmRunLabel] :=
        List.mem_map_of_mem (f := Prod.fst) hother
      exact absurd hlabel (by decide)

def lateReads : GraphReads := ⟨degradedGraph, 900000000, degradedGraph, degradedGraph, .ok ()⟩

/-- Under the binding posture a late pass holds the buy of the degraded run, as of any run. -/
theorem degraded_buys_held_iff_binding : ∃ exec,
    executePmNode (fun _ => some 0) (fun _ _ => .failed "down") {} mixedRun lateReads = .ok exec ∧
      HoldsBuys (fun _ => some 0) {} mixedRun mixedSet lateReads exec := by
  have hok : Fallible.check (fun _ => true)
      (executePmNode (fun _ => some 0) (fun _ _ => .failed "down") {} mixedRun lateReads) = true := by
    decide +kernel
  obtain ⟨exec, hexec, -⟩ := Fallible.check_eq_true.mp hok
  refine ⟨exec, hexec, (degraded_buys_held_iff degradedGraph_run hexec).mpr ⟨fun _ _ => rfl, ?_⟩⟩
  rw [if_pos (by decide)]
  exact fun _ _ _ _ => ⟨rfl, rfl⟩

/-- Under the advisory posture it submits the buy. -/
theorem degraded_buy_submitted : ∃ exec, DegradedRun degradedGraph degradedDay mixedRun mixedSet ∧
    executePmNode (fun _ => some 0) (fun _ _ => .failed "down")
      { deliberationPosture := .advisory } mixedRun lateReads = .ok exec ∧
    ¬ HoldsBuys (fun _ => some 0) { deliberationPosture := .advisory } mixedRun mixedSet lateReads
      exec := by
  have hok : Fallible.check (fun e => e.submission.submissions.any fun o => decide (o.side = .buy))
      (executePmNode (fun _ => some 0) (fun _ _ => .failed "down")
        { deliberationPosture := .advisory } mixedRun lateReads) = true := by decide +kernel
  obtain ⟨exec, hexec, hbuys⟩ := Fallible.check_eq_true.mp hok
  obtain ⟨order, horder, hside⟩ := List.any_eq_true.mp hbuys
  exact ⟨exec, degradedGraph_run, hexec, fun h => h.buys order horder (of_decide_eq_true hside)⟩

end TradingAgents.Orchestration
