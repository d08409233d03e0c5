import Mathlib.Tactic.NormNum
import TradingAgents.Execution.Orders
import TradingAgents.Execution.StopWrites
import TradingAgents.Supervisor.Flags

/-! Stage promotion: a demotion is applied at once, a promotion by one stage is applied when its
request is confirmed and the flag of its target is resolved, and any other request for the next
stage is measured against the evidence and raises that flag. -/

namespace TradingAgents.Execution

open Kernel ProofKit Supervisor

def stageTransitionLabel : String := "StageTransition"

/-- The execution settings with the tunables of the stage gate.  A float is the number it stores
exactly. -/
structure StageSettings extends ExecutionSettings where
  minPromotionRuns : Nat := 10
  minApprovalRate : ℚ := 6305039478318694 / 9007199254740992
  runs_range : 3 ≤ minPromotionRuns ∧ minPromotionRuns ≤ 200 := by decide
  rate_range : 0 ≤ minApprovalRate ∧ minApprovalRate ≤ 1 := by norm_num

structure PromoteStageRequest where
  targetStage : ExecutionStage
  reason : String
  confirmed : Bool := false

structure PromoteStageResult where
  accepted : Bool
  previousStage : ExecutionStage
  currentStage : ExecutionStage
  reason : String
  provenance : Provenance

/-! ### The stage gate -/

structure StageEvidence where
  snapshotCount : Nat
  avgApprovalRate : ℚ
  criticalFaultCount : Nat

/-- `STAGE_ORDER.index`. -/
def ExecutionStage.index (s : ExecutionStage) : Nat := ExecutionStage.all.idxOf s

/-- The evidence in the Snapshot and Fault nodes; the mean of the rates that the snapshots hold is a
float computation, given as `avgApprovalRate`. -/
def collectStageEvidence (avgApprovalRate : List PipelineNode → ℚ) (g : PipelineGraph) :
    StageEvidence :=
  let snapshots := g.listNodes "Snapshot"
  ⟨snapshots.length, avgApprovalRate snapshots,
    ((g.listNodes "Fault").filter fun n => (n.get "severity").pyEq (.str "critical")).length⟩

/-- A number with two decimals, rounded half to even. -/
def twoDecimals (q : ℚ) : String :=
  let cents := roundHalfEven (q * 100)
  let digits := toString (cents.natAbs % 100)
  (if cents < 0 then "-" else "") ++ toString (cents.natAbs / 100) ++ "." ++
    (if digits.length = 1 then "0" ++ digits else digits)

/-- Whether the evidence is sufficient, and why. -/
def checkPromotionAllowed (evidence : StageEvidence) (settings : StageSettings) : Bool × String :=
  if evidence.snapshotCount < settings.minPromotionRuns then
    (false, "need " ++ toString settings.minPromotionRuns ++ " runs; have " ++
      toString evidence.snapshotCount)
  else if evidence.avgApprovalRate < settings.minApprovalRate then
    (false, "approval_rate " ++ twoDecimals evidence.avgApprovalRate ++ " below " ++
      twoDecimals settings.minApprovalRate)
  else if evidence.criticalFaultCount > 0 then
    (false, toString evidence.criticalFaultCount ++ " critical fault(s) unresolved")
  else (true, "evidence gate passed")

def isValidPromotion (fromStage toStage : ExecutionStage) : Bool :=
  if toStage = .liveAutopilot then false else decide (toStage.index = fromStage.index + 1)

def isValidDemotion (fromStage toStage : ExecutionStage) : Bool :=
  decide (toStage.index < fromStage.index)

/-! ### The flow -/

def stageTransitionProps (fromStage toStage : ExecutionStage) (reason now : String) :
    Props Document :=
  .ofList [
    ("from_stage", .str fromStage.value),
    ("to_stage", .str toStage.value),
    ("reason", .str reason),
    ("transitioned_at", .str now)]

def stageTransitionKey (toStage : ExecutionStage) (now : String) : String :=
  "stage:" ++ toStage.value ++ ":" ++ now

/-- Append one immutable StageTransition node. -/
def writeStageTransition (g : PipelineGraph) (fromStage toStage : ExecutionStage)
    (reason now : String) : Except HandlerError (PipelineGraph × PipelineNode) :=
  liftGraph (g.mergeNode stageTransitionLabel (stageTransitionKey toStage now)
    (stageTransitionProps fromStage toStage reason now))

def promoteSubjectRef (target : ExecutionStage) : String := "stage_promote:" ++ target.value

def flagResolved (g : PipelineGraph) (subjectRef : String) : Bool :=
  (g.getNode flagResolutionLabel (resolutionKey subjectRef .info)).isSome

def stageResult (accepted : Bool) (previousStage currentStage : ExecutionStage) (reason : String)
    (node : Option PipelineNode := none) : PromoteStageResult :=
  ⟨accepted, previousStage, currentStage, reason,
    ⟨"stage-promotion", "execution", node.map fun n => n.label ++ ":" ++ n.key⟩⟩

def applyTransition (g : PipelineGraph) (fromStage toStage : ExecutionStage)
    (reason resultReason now : String) :
      Except HandlerError (PipelineGraph × PromoteStageResult) := do
  let (g, node) ← writeStageTransition g fromStage toStage reason now
  pure (g, stageResult true fromStage toStage resultReason (some node))

/-- Apply the stage transition gate and return the operator-facing result. -/
def promoteStage (avgApprovalRate : List PipelineNode → ℚ) (settings : StageSettings)
    (g : PipelineGraph) (request : PromoteStageRequest) (now : String) :
    Except HandlerError (PipelineGraph × PromoteStageResult) :=
  let current := currentStageFromGraph g settings.stage
  let target := request.targetStage
  if isValidDemotion current target then
    applyTransition g current target request.reason "demotion applied" now
  else if !isValidPromotion current target then
    pure (g, stageResult false current current
      ("invalid transition " ++ current.value ++ "->" ++ target.value))
  else if request.confirmed && flagResolved g (promoteSubjectRef target) then
    applyTransition g current target request.reason "promotion confirmed and applied" now
  else
    let (allowed, reason) :=
      checkPromotionAllowed (collectStageEvidence avgApprovalRate g) settings
    if !allowed then pure (g, stageResult false current current reason)
    else do
      let g ← writeFlag g (promoteSubjectRef target) .info
        ("Promote execution stage " ++ current.value ++ "->" ++ target.value) now
      pure (g, stageResult false current current
        ("confirmation required - approve stage:promote:" ++ target.value ++ " to proceed"))

/-! ### The stage that the transitions give -/

/-- Every StageTransition is as `writeStageTransition` wrote it. -/
def TransitionsWritten (g : PipelineGraph) : Prop :=
  ∀ key n, g.getNode stageTransitionLabel key = some n → ∃ fromStage toStage reason now,
    n = ⟨stageTransitionLabel, stageTransitionKey toStage now,
      stageTransitionProps fromStage toStage reason now, 1⟩

theorem currentStage_of_lists {g g' : PipelineGraph}
    (h : g'.listNodes stageTransitionLabel = g.listNodes stageTransitionLabel)
    (default : ExecutionStage) :
    currentStageFromGraph g' default = currentStageFromGraph g default := by
  unfold stageTransitionLabel at h
  unfold currentStageFromGraph
  rw [h]

/-- A further transition gives its own stage or leaves the stage as it is. -/
theorem currentStage_append {g g' : PipelineGraph} {n : PipelineNode} {target : ExecutionStage}
    (h : g'.listNodes stageTransitionLabel = g.listNodes stageTransitionLabel ++ [n])
    (hto : n.get "to_stage" = .str target.value) (default : ExecutionStage) :
    currentStageFromGraph g' default = target ∨
      currentStageFromGraph g' default = currentStageFromGraph g default := by
  unfold stageTransitionLabel at h
  have hfind : (ExecutionStage.all.find? fun s => (n.get "to_stage").pyEq (.str s.value)).getD
      default = target := by
    rw [hto]
    cases target <;> rfl
  simp only [currentStageFromGraph, h, List.foldl_append, List.foldl_cons, List.foldl_nil]
  generalize List.foldl _ none (g.listNodes "StageTransition") = latest
  cases latest with
  | none => exact .inl hfind
  | some best =>
    by_cases hlt : ((best.get "transitioned_at").str?).getD "" <
        ((n.get "transitioned_at").str?).getD ""
    · simp only [if_pos hlt]
      exact .inl hfind
    · simp only [if_neg hlt]
      exact .inr trivial

/-- Every transition is stamped before a time. -/
def StampedBefore (g : PipelineGraph) (now : String) : Prop :=
  ∀ n ∈ g.listNodes stageTransitionLabel, ((n.get "transitioned_at").str?).getD "" < now

theorem latest_mem {α : Type} {pick : Option α → α → Option α}
    (hpick : ∀ best x y, pick best x = some y → y = x ∨ best = some y) {l : List α} {y : α} :
    ∀ {best}, l.foldl pick best = some y → y ∈ l ∨ best = some y := by
  induction l with
  | nil => exact fun h => .inr h
  | cons x l ih =>
    intro best h
    rcases ih h with hmem | hbest
    · exact .inl (List.mem_cons_of_mem x hmem)
    · rcases hpick best x y hbest with rfl | hbefore
      · exact .inl List.mem_cons_self
      · exact .inr hbefore

/-- A further transition that is stamped after all others gives the stage. -/
theorem currentStage_append_latest {g g' : PipelineGraph} {n : PipelineNode}
    {target : ExecutionStage} {now : String}
    (h : g'.listNodes stageTransitionLabel = g.listNodes stageTransitionLabel ++ [n])
    (hto : n.get "to_stage" = .str target.value) (hat : n.get "transitioned_at" = .str now)
    (hbefore : StampedBefore g now) (default : ExecutionStage) :
    currentStageFromGraph g' default = target := by
  unfold stageTransitionLabel at h
  have hfind : (ExecutionStage.all.find? fun s => (n.get "to_stage").pyEq (.str s.value)).getD
      default = target := by
    rw [hto]
    cases target <;> rfl
  simp only [currentStageFromGraph, h, List.foldl_append, List.foldl_cons, List.foldl_nil]
  generalize hlatest : List.foldl _ none (g.listNodes "StageTransition") = latest
  cases latest with
  | none => exact hfind
  | some best =>
    have hmem : best ∈ g.listNodes stageTransitionLabel := by
      have hnone : none ≠ some best := (Option.some_ne_none best).symm
      refine (latest_mem (fun best x y hy => ?_) hlatest).resolve_right hnone
      cases best with
      | none => exact .inl (Option.some.inj hy).symm
      | some b =>
        dsimp only at hy
        split at hy
        · exact .inl (Option.some.inj hy).symm
        · exact .inr hy
    have hlt : ((best.get "transitioned_at").str?).getD "" <
        ((n.get "transitioned_at").str?).getD "" := by
      rw [hat]
      exact hbefore best hmem
    simp only [if_pos hlt]
    exact hfind

theorem stageTransitionProps_get? (fromStage toStage : ExecutionStage) (reason now : String) :
    let props := stageTransitionProps fromStage toStage reason now
    props.get? "from_stage" = some (.str fromStage.value) ∧
      props.get? "to_stage" = some (.str toStage.value) ∧
      props.get? "reason" = some (.str reason) ∧
      props.get? "transitioned_at" = some (.str now) := by
  simp [stageTransitionProps, Dict.ofList]

theorem ExecutionStage.value_injective : Function.Injective ExecutionStage.value := by
  intro a b h
  cases a <;> cases b <;> first | rfl | exact absurd h (by decide)

/-- What a written transition changes: the stage becomes its target or stays, and nothing but
StageTransition nodes changes. -/
structure TransitionApplied (g g' : PipelineGraph) (target : ExecutionStage) : Prop where
  written : TransitionsWritten g'
  stage : ∀ default, currentStageFromGraph g' default = target ∨
    currentStageFromGraph g' default = currentStageFromGraph g default
  others : ∀ label key, label ≠ stageTransitionLabel →
    g'.getNode label key = g.getNode label key

/-- A transition merged under the key of another one that agrees with it changes nothing. -/
theorem stageTransition_agrees {fromStage toStage fromStage' toStage' : ExecutionStage}
    {reason now reason' now' : String}
    (h : ∀ name, ¬ Graph.Conflicts (stageTransitionProps fromStage toStage reason now)
      (stageTransitionProps fromStage' toStage' reason' now') name) :
    fromStage = fromStage' ∧ toStage = toStage' ∧ reason = reason' ∧ now = now' := by
  obtain ⟨hfrom, hto, hreason, hat⟩ := stageTransitionProps_get? fromStage toStage reason now
  obtain ⟨hfrom', hto', hreason', hat'⟩ :=
    stageTransitionProps_get? fromStage' toStage' reason' now'
  have hsame : ∀ name a b, (stageTransitionProps fromStage toStage reason now).get? name =
      some (.str a) → (stageTransitionProps fromStage' toStage' reason' now').get? name =
      some (.str b) → name ∉ Graph.partialCompletionProps → a = b := by
    intro name a b ha hb hname
    by_contra hne
    refine h name ⟨_, _, ha, hb, ?_, by simp [Graph.isPartialCompletion, hname]⟩
    simp [Value.pyEq_str, hne]
  exact ⟨ExecutionStage.value_injective (hsame _ _ _ hfrom hfrom' (by decide)),
    ExecutionStage.value_injective (hsame _ _ _ hto hto' (by decide)),
    hsame _ _ _ hreason hreason' (by decide), hsame _ _ _ hat hat' (by decide)⟩

/-- The node of a written transition, which is new or stands as it is written. -/
theorem writeStageTransition_node {g g' : PipelineGraph} {fromStage toStage : ExecutionStage}
    {reason now : String} {n : PipelineNode} (hg : TransitionsWritten g)
    (h : writeStageTransition g fromStage toStage reason now = .ok (g', n)) :
    n = ⟨stageTransitionLabel, stageTransitionKey toStage now,
      stageTransitionProps fromStage toStage reason now, 1⟩ ∧ g' = g.put n ∧
    (g.getNode n.label n.key = none ∨ g.getNode n.label n.key = some n) := by
  unfold writeStageTransition at h
  rw [liftGraph_eq_ok] at h
  obtain ⟨rfl, hlabel, hkey, hversion, ⟨hfresh, hprops⟩ | ⟨current, hcurrent, -, hconf, hprops⟩⟩ :=
    Graph.mergeNode_ok h
  · have hnode : n = ⟨stageTransitionLabel, stageTransitionKey toStage now,
        stageTransitionProps fromStage toStage reason now, 1⟩ := by
      cases n
      simp_all
    subst hnode
    exact ⟨rfl, rfl, .inl hfresh⟩
  · obtain ⟨fromStage', toStage', reason', now', rfl⟩ := hg _ _ hcurrent
    obtain ⟨rfl, rfl, rfl, rfl⟩ := stageTransition_agrees hconf
    -- the node that stands is the one written
    have hnode : n = ⟨stageTransitionLabel, stageTransitionKey toStage' now',
        stageTransitionProps fromStage' toStage' reason' now', 1⟩ := by
      have hupdate : n.props = stageTransitionProps fromStage' toStage' reason' now' := by
        rw [hprops]
        exact Dict.setAll_of_get? fun p hp => Dict.mem_entries_iff.mp hp
      cases n
      simp_all
    subst hnode
    exact ⟨rfl, rfl, .inr hcurrent⟩

theorem put_of_stands {g : PipelineGraph} {n : PipelineNode}
    (h : g.getNode n.label n.key = some n) : (g.put n).nodes = g.nodes :=
  Dict.set_of_get? h

theorem writeStageTransition_ok {g g' : PipelineGraph} {fromStage toStage : ExecutionStage}
    {reason now : String} {n : PipelineNode} (hg : TransitionsWritten g)
    (h : writeStageTransition g fromStage toStage reason now = .ok (g', n)) :
    TransitionApplied g g' toStage := by
  obtain ⟨rfl, rfl, hfresh | hstands⟩ := writeStageTransition_node hg h
  · refine ⟨fun key m hm => ?_, fun default => ?_, fun label key hne => ?_⟩
    · rw [Graph.getNode_put] at hm
      split at hm
      · exact ⟨fromStage, toStage, reason, now, (Option.some.inj hm).symm⟩
      · exact hg key m hm
    · exact currentStage_append (Graph.listNodes_put_fresh hfresh)
        (get_eq_str.mpr (stageTransitionProps_get? _ _ _ _).2.1) default
    · rw [Graph.getNode_put, if_neg]
      exact fun heq => hne heq.1
  · have hnodes := put_of_stands hstands
    have hget := Graph.getNode_of_nodes_eq hnodes
    refine ⟨fun key m hm => ?_, fun default => .inr ?_, fun label key _ => hget label key⟩
    · rw [hget] at hm
      exact hg key m hm
    · exact currentStage_of_lists (Graph.listNodes_of_nodes_eq hnodes _) default

/-- A written transition stands, and it gives the stage if it is stamped after all others. -/
theorem writeStageTransition_stands {g g' : PipelineGraph} {fromStage toStage : ExecutionStage}
    {reason now : String} {n : PipelineNode} (hg : TransitionsWritten g)
    (h : writeStageTransition g fromStage toStage reason now = .ok (g', n)) :
    g'.getNode stageTransitionLabel (stageTransitionKey toStage now) =
      some ⟨stageTransitionLabel, stageTransitionKey toStage now,
        stageTransitionProps fromStage toStage reason now, 1⟩ ∧
    (StampedBefore g now → ∀ default, currentStageFromGraph g' default = toStage) := by
  obtain ⟨rfl, rfl, hfresh | hstands⟩ := writeStageTransition_node hg h
  · obtain ⟨-, hto, -, hat⟩ := stageTransitionProps_get? fromStage toStage reason now
    exact ⟨by rw [Graph.getNode_put, if_pos ⟨rfl, rfl⟩], fun hbefore =>
      currentStage_append_latest (Graph.listNodes_put_fresh hfresh) (get_eq_str.mpr hto)
        (get_eq_str.mpr hat) hbefore⟩
  · refine ⟨by rw [Graph.getNode_put, if_pos ⟨rfl, rfl⟩], fun hbefore => ?_⟩
    -- a transition that stands has the stamp already
    have hlt := hbefore _ (Graph.mem_listNodes.mpr ⟨rfl, hstands⟩)
    rw [get_eq_str.mpr (stageTransitionProps_get? fromStage toStage reason now).2.2.2] at hlt
    exact absurd hlt (lt_irrefl now)

/-! ### What a request does -/

/-- Whether a request is measured against the evidence and the evidence is sufficient. -/
def passesGate (avgApprovalRate : List PipelineNode → ℚ) (settings : StageSettings)
    (g : PipelineGraph) (request : PromoteStageRequest) : Bool :=
  isValidPromotion (currentStageFromGraph g settings.stage) request.targetStage &&
    !(request.confirmed && flagResolved g (promoteSubjectRef request.targetStage)) &&
    (checkPromotionAllowed (collectStageEvidence avgApprovalRate g) settings).1

theorem isValidPromotion_iff {fromStage toStage : ExecutionStage} :
    isValidPromotion fromStage toStage = true ↔
      toStage ≠ .liveAutopilot ∧ toStage.index = fromStage.index + 1 := by
  simp [isValidPromotion]

/-- A request is applied as a demotion or as a promotion whose flag is resolved, or it raises the
flag of its target after the evidence gate, or it changes nothing. -/
theorem promoteStage_ok {avgApprovalRate : List PipelineNode → ℚ} {settings : StageSettings}
    {g g' : PipelineGraph} {request : PromoteStageRequest} {now : String}
    {result : PromoteStageResult} (hg : TransitionsWritten g)
    (h : promoteStage avgApprovalRate settings g request now = .ok (g', result)) :
    (result.accepted = true ∧ TransitionApplied g g' request.targetStage ∧
      (request.targetStage.index < (currentStageFromGraph g settings.stage).index ∨
        (isValidPromotion (currentStageFromGraph g settings.stage) request.targetStage = true ∧
          flagResolved g (promoteSubjectRef request.targetStage) = true))) ∨
    (result.accepted = false ∧ passesGate avgApprovalRate settings g request = true ∧
      FlagRaised g g' (promoteSubjectRef request.targetStage) .info) ∨
    (result.accepted = false ∧ passesGate avgApprovalRate settings g request = false ∧ g' = g) := by
  have happly : ∀ {reason resultReason : String} {fromStage : ExecutionStage},
      applyTransition g fromStage request.targetStage reason resultReason now = .ok (g', result) →
      result.accepted = true ∧ TransitionApplied g g' request.targetStage := by
    intro reason resultReason fromStage hok
    obtain ⟨⟨g₁, node⟩, hw, hret⟩ := Fallible.bind_eq_ok.mp hok
    cases hret
    exact ⟨rfl, writeStageTransition_ok hg hw⟩
  unfold promoteStage at h
  simp only at h
  split at h
  · rename_i hdemotion
    obtain ⟨haccepted, happlied⟩ := happly h
    exact .inl ⟨haccepted, happlied, .inl (of_decide_eq_true hdemotion)⟩
  split at h
  · rename_i hinvalid
    cases h
    refine .inr (.inr ⟨rfl, ?_, rfl⟩)
    rw [Bool.not_eq_true'] at hinvalid
    simp [passesGate, hinvalid]
  rename_i hvalid
  have hvalid : isValidPromotion (currentStageFromGraph g settings.stage) request.targetStage =
      true := by simpa using hvalid
  split at h
  · rename_i hconfirmed
    obtain ⟨haccepted, happlied⟩ := happly h
    exact .inl ⟨haccepted, happlied, .inr ⟨hvalid, (Bool.and_eq_true_iff.mp hconfirmed).2⟩⟩
  rename_i hunconfirmed
  rw [Bool.not_eq_true] at hunconfirmed
  split at h
  · rename_i hdenied
    cases h
    refine .inr (.inr ⟨rfl, ?_, rfl⟩)
    rw [Bool.not_eq_true'] at hdenied
    simp [passesGate, hdenied]
  · rename_i hallowed
    obtain ⟨g₁, hw, hret⟩ := Fallible.bind_eq_ok.mp h
    cases hret
    refine .inr (.inl ⟨rfl, ?_, writeFlag_ok hw⟩)
    have hallowed : (checkPromotionAllowed (collectStageEvidence avgApprovalRate g) settings).1 =
        true := by simpa using hallowed
    simp [passesGate, hvalid, hunconfirmed, hallowed]

end TradingAgents.Execution
