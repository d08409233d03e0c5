import TradingAgents.Contracts.RunPosture
import TradingAgents.Execution.Orders

/-! The deliberation gate: whether a PMRun may be submitted yet, given its deliberation veto, and
which of its approved intents survive.  `fromIso` reads a timestamp: the instant, in microseconds,
that an aware ISO text names, and nothing for a naive or unreadable one; every result holds for
every such reader. -/

namespace TradingAgents.Execution

open Kernel ProofKit

def deliberatedEdge : String := "DELIBERATED_BY"

def pmRunLabel : String := "PMRun"

inductive DeliberationStatus where
  | applied
  | appliedFailedOpen
  | notRequired
  | waiting
  | heldDegraded
  | proceededUnvetoed
deriving DecidableEq, Repr

def DeliberationStatus.value : DeliberationStatus → String
  | applied => "applied"
  | appliedFailedOpen => "applied_failed_open"
  | notRequired => "not_required"
  | waiting => "waiting"
  | heldDegraded => "held_degraded"
  | proceededUnvetoed => "proceeded_unvetoed"

/-- The DeliberationRun linked to a PMRun, if the veto has run. -/
def linkedDeliberation (g : PipelineGraph) (pmRun : NodeKey) : Option PipelineNode :=
  (g.descendants pmRun 1 (some [deliberatedEdge])).head?

/-- The tickers whose review failed open. -/
def failedOpenTickers (delib : PipelineNode) : List String :=
  match delib.get "failed_open_tickers" with
  | .list xs => xs.filterMap Value.str?
  | _ => []

/-- Whether the approved set opens exposure. -/
def hasBuy (orderSet : OrderIntentSet) : Bool :=
  orderSet.approved.any fun intent => decide (intent.action = .buy)

/-- Whether the RunRequest under the order set's run id declares the degraded posture. -/
def isDegradedRun (g : PipelineGraph) (orderSet : OrderIntentSet) : Bool :=
  decide (runPosture ((g.getNode runRequestLabel (runRequestKey orderSet.runId)).map Node.props) =
    .degraded)

/-- The vetoed tickers of a deliberation; only a list or a text can be iterated. -/
def vetoedTickers (delib : PipelineNode) : Except HandlerError (List (Value Document)) :=
  match delib.props.get? "vetoed_tickers" with
  | none => .ok []
  | some (.list xs) => .ok xs
  | some (.str s) => .ok (s.toList.map fun c => .str (String.singleton c))
  | some _ => .error (.validation "vetoed_tickers")

def isVetoed (vetoed : List (Value Document)) (ticker : String) : Bool :=
  vetoed.any fun v => v.pyEq (.str ticker)

/-- The order set without the tickers that its deliberation vetoed. -/
def dropVetoed (g : PipelineGraph) (pmRun : NodeKey) (orderSet : OrderIntentSet) :
    Except HandlerError OrderIntentSet :=
  match linkedDeliberation g pmRun with
  | none => .ok orderSet
  | some delib => do
    let vetoed ← vetoedTickers delib
    pure { orderSet with
      approved := orderSet.approved.filter fun intent => !isVetoed vetoed intent.ticker }

section Clock

variable (fromIso : String → Option Int)

/-- Microseconds since the PMRun was written, when that can be read. -/
def ageMicros (pmRun : PipelineNode) (now : Int) : Option Int :=
  match pmRun.get "created_at" with
  | .str raw => (fromIso raw).map (now - ·)
  | _ => none

/-- Whether the grace of a PMRun is over; an unreadable age counts as over. -/
def graceOver (pmRun : PipelineNode) (now : Int) (graceSeconds : Nat) : Bool :=
  match ageMicros fromIso pmRun now with
  | none => true
  | some age => decide ((graceSeconds : Int) * 1000000 ≤ age)

/-- Classify a PMRun against its veto. -/
def deliberationStatus (g : PipelineGraph) (pmRun : PipelineNode) (orderSet : OrderIntentSet)
    (now : Int) (graceSeconds : Nat) : DeliberationStatus :=
  match linkedDeliberation g pmRun.nodeKey with
  | some delib => if failedOpenTickers delib ≠ [] then .appliedFailedOpen else .applied
  | none =>
    if !hasBuy orderSet then .notRequired
    else if isDegradedRun g orderSet then .heldDegraded
    else if graceOver fromIso pmRun now graceSeconds then .proceededUnvetoed
    else .waiting

/-- The order set that a PMRun carries. -/
def orderIntentSet? (pmRun : PipelineNode) : Option OrderIntentSet :=
  match pmRun.props.get? "order_intent_set" with
  | some (.doc (.orderIntentSet s)) => some s
  | _ => none

/-- Whether a PMRun is still inside its deliberation grace window. -/
def isWaiting (g : PipelineGraph) (pmRun : PipelineNode) (now : Int)
    (settings : ExecutionSettings) : Except HandlerError Bool :=
  match pmRun.get "order_intent_set" with
  | .null => .ok false
  | .doc (.orderIntentSet s) =>
    .ok (decide (deliberationStatus fromIso g pmRun s now settings.deliberationGraceSeconds =
      .waiting))
  | _ => .error (.validation "order_intent_set")

end Clock

/-- Drop buy exposure of a degraded run, and under the binding posture of a run whose grace is over
with no deliberation. -/
def applyDeliberationPosture (orderSet : OrderIntentSet) (status : DeliberationStatus)
    (posture : DeliberationPosture) : OrderIntentSet × Nat :=
  if status ≠ .heldDegraded ∧ (posture ≠ .binding ∨ status ≠ .proceededUnvetoed) then (orderSet, 0)
  else
    let survivors := orderSet.approved.filter fun intent => decide (intent.action ≠ .buy)
    ({ orderSet with approved := survivors }, orderSet.approved.length - survivors.length)

/-! ### The gate's cases -/

theorem hasBuy_iff {orderSet : OrderIntentSet} :
    hasBuy orderSet = true ↔ ∃ intent ∈ orderSet.approved, intent.action = .buy := by
  simp [hasBuy]

theorem isVetoed_iff {vetoed : List (Value Document)} {ticker : String} :
    isVetoed vetoed ticker = true ↔ .str ticker ∈ vetoed := by
  simp only [isVetoed, List.any_eq_true, Value.pyEq_str, decide_eq_true_eq]
  constructor
  · rintro ⟨v, hv, rfl⟩; exact hv
  · intro h; exact ⟨_, h, rfl⟩

/-- A deliberation once linked stays the linked one, under any later writes. -/
theorem linkedDeliberation_mono {g g' : PipelineGraph} (h : Graph.Extends g g') {pmRun : NodeKey}
    {delib : PipelineNode} (hd : linkedDeliberation g pmRun = some delib) :
    ∃ delib', linkedDeliberation g' pmRun = some delib' ∧ delib'.nodeKey = delib.nodeKey ∧
      Graph.NodeGrows delib delib' := by
  unfold linkedDeliberation at hd ⊢
  rw [Graph.head?_descendants_one] at hd ⊢
  obtain ⟨e, he, hnode⟩ := Option.bind_eq_some_iff.mp hd
  have hk := g.named _ _ hnode
  obtain ⟨n', hn', hgrows⟩ := h.nodes e.child.1 e.child.2 delib hnode
  have hn'' : g'.nodes.get? e.child = some n' := hn'
  refine ⟨n', ?_, (g'.named _ _ hn'').trans hk.symm, hgrows⟩
  rw [h.find?_edges he]
  exact hn''

section Clock

variable (fromIso : String → Option Int)

theorem graceOver_mono {pmRun : PipelineNode} {t t' : Int} {grace : Nat} (h : t ≤ t')
    (hover : graceOver fromIso pmRun t grace = true) :
    graceOver fromIso pmRun t' grace = true := by
  unfold graceOver ageMicros at *
  cases hc : pmRun.get "created_at" with
  | str raw =>
    rw [hc] at hover
    cases hf : fromIso raw with
    | none => simp [hf]
    | some created =>
      simp only [hf, Option.map_some, decide_eq_true_eq] at hover ⊢
      omega
  | _ => simp

/-- A PMRun waits exactly when it carries a buy, has no linked deliberation, does not belong to a
degraded run, and its grace is not over. -/
theorem deliberationStatus_waiting_iff {g : PipelineGraph} {pmRun : PipelineNode}
    {orderSet : OrderIntentSet} {now : Int} {grace : Nat} :
    deliberationStatus fromIso g pmRun orderSet now grace = .waiting ↔
      linkedDeliberation g pmRun.nodeKey = none ∧ hasBuy orderSet = true ∧
        isDegradedRun g orderSet = false ∧ graceOver fromIso pmRun now grace = false := by
  unfold deliberationStatus
  cases linkedDeliberation g pmRun.nodeKey with
  | some delib => simp only [reduceCtorEq, false_and, iff_false]; split <;> simp
  | none =>
    cases hasBuy orderSet <;> cases isDegradedRun g orderSet <;>
      cases graceOver fromIso pmRun now grace <;> simp

theorem deliberationStatus_unlinked {g : PipelineGraph} {pmRun : PipelineNode}
    {orderSet : OrderIntentSet} {now : Int} {grace : Nat}
    (hnone : linkedDeliberation g pmRun.nodeKey = none) :
    deliberationStatus fromIso g pmRun orderSet now grace =
      if !hasBuy orderSet then .notRequired
      else if isDegradedRun g orderSet then .heldDegraded
      else if graceOver fromIso pmRun now grace then .proceededUnvetoed
      else .waiting := by
  rw [deliberationStatus, hnone]

theorem deliberationStatus_linked {g : PipelineGraph} {pmRun delib : PipelineNode}
    {orderSet : OrderIntentSet} {now : Int} {grace : Nat}
    (hd : linkedDeliberation g pmRun.nodeKey = some delib) :
    deliberationStatus fromIso g pmRun orderSet now grace = .applied ∨
      deliberationStatus fromIso g pmRun orderSet now grace = .appliedFailedOpen := by
  simp only [deliberationStatus, hd]
  split
  · exact .inr rfl
  · exact .inl rfl

end Clock

/-- The posture filter keeps every intent that is not a buy. -/
theorem mem_applyDeliberationPosture {orderSet : OrderIntentSet} {status : DeliberationStatus}
    {posture : DeliberationPosture} {intent : OrderIntent} :
    intent ∈ (applyDeliberationPosture orderSet status posture).1.approved ↔
      intent ∈ orderSet.approved ∧ (intent.action = .buy → status ≠ .heldDegraded ∧
        (posture = .binding → status ≠ .proceededUnvetoed)) := by
  unfold applyDeliberationPosture
  split
  · rename_i h
    refine ⟨fun hi => ⟨hi, fun _ => ⟨h.1, fun hb => ?_⟩⟩, And.left⟩
    exact h.2.resolve_left (not_not.mpr hb)
  · rename_i h
    simp only [List.mem_filter, decide_eq_true_eq]
    refine and_congr_right fun _ => ⟨fun hne hbuy => (hne hbuy).elim, fun himp hbuy => h ?_⟩
    obtain ⟨hheld, hbinding⟩ := himp hbuy
    refine ⟨hheld, ?_⟩
    by_cases hb : posture = .binding
    · exact .inr (hbinding hb)
    · exact .inl hb

theorem runId_applyDeliberationPosture {orderSet : OrderIntentSet} {status : DeliberationStatus}
    {posture : DeliberationPosture} :
    (applyDeliberationPosture orderSet status posture).1.runId = orderSet.runId := by
  unfold applyDeliberationPosture
  split <;> rfl

/-- The veto drops exactly the vetoed tickers of the linked deliberation. -/
theorem dropVetoed_ok {g : PipelineGraph} {pmRun : NodeKey} {orderSet kept : OrderIntentSet}
    (h : dropVetoed g pmRun orderSet = .ok kept) :
    kept.runId = orderSet.runId ∧
      ((linkedDeliberation g pmRun = none ∧ kept = orderSet) ∨
        ∃ delib vetoed, linkedDeliberation g pmRun = some delib ∧
          vetoedTickers delib = .ok vetoed ∧
          ∀ intent, intent ∈ kept.approved ↔
            intent ∈ orderSet.approved ∧ isVetoed vetoed intent.ticker = false) := by
  unfold dropVetoed at h
  split at h
  · rename_i hnone
    cases h
    exact ⟨rfl, .inl ⟨hnone, rfl⟩⟩
  · rename_i delib hsome
    obtain ⟨vetoed, hv, hret⟩ := Fallible.bind_eq_ok.mp h
    cases hret
    refine ⟨rfl, .inr ⟨delib, vetoed, hsome, hv, fun intent => ?_⟩⟩
    simp

end TradingAgents.Execution
