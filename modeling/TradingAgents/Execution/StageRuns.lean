import TradingAgents.Execution.StageFlow
import TradingAgents.ProofKit.Runs

/-! Runs of the stage flow: requests, the human answers to flags, and the writes that change the
evidence, in any order and at any clock readings.  The resolution of a target's flag is never used
up, so a target that was promoted to before can be promoted to again on the old one. -/

namespace TradingAgents.Execution

open Kernel ProofKit Supervisor

/-- A rise of the stage, with what preceded it since the last transition: whether a request for the
new stage passed the evidence gate, whether its flag was resolved, and whether the flag was fresh.
-/
structure StageRise where
  previous : ExecutionStage
  current : ExecutionStage
  passed : Bool
  resolved : Bool
  fresh : Bool

/-- The store, the store as the last transition left it, the targets whose requests have passed the
evidence gate since and the targets whose flags have been resolved since, and the rises so far. -/
structure StageWorld where
  graph : PipelineGraph
  before : PipelineGraph
  passed : List ExecutionStage := []
  resolved : List ExecutionStage := []
  rises : List StageRise := []

/-- A request, a human answer to a flag, or the writes of other flows. -/
inductive StageEvent where
  | request (request : PromoteStageRequest) (now : String)
  | resolve (subjectRef : String) (severity : Severity) (now : String)
  | elsewhere (g : PipelineGraph)

/-- Whether the flag of a promotion to `target` stands. -/
def promotionFlagged (g : PipelineGraph) (target : ExecutionStage) : Bool :=
  (g.getNode flagLabel (flagKey (promoteSubjectRef target) .info)).isSome

def promotionResolved (g : PipelineGraph) (target : ExecutionStage) : Bool :=
  flagResolved g (promoteSubjectRef target)

/-- The target's flag was not resolved when the last transition was written, and either it was not
raised then or a request for the target has passed the evidence gate since. -/
def StageWorld.fresh (w : StageWorld) (target : ExecutionStage) : Bool :=
  !promotionResolved w.before target &&
    (!promotionFlagged w.before target || decide (target ∈ w.passed))

/-- The rises so far when the store becomes `g`. -/
def StageWorld.risesTo (w : StageWorld) (settings : StageSettings) (g : PipelineGraph) :
    List StageRise :=
  let previous := currentStageFromGraph w.graph settings.stage
  let current := currentStageFromGraph g settings.stage
  if previous.index < current.index then
    w.rises ++ [⟨previous, current, decide (current ∈ w.passed), decide (current ∈ w.resolved),
      w.fresh current⟩]
  else w.rises

def StageWorld.step (avgApprovalRate : List PipelineNode → ℚ) (settings : StageSettings)
    (w : StageWorld) : StageEvent → Except HandlerError StageWorld
  | .request request now => do
    let (g, result) ← promoteStage avgApprovalRate settings w.graph request now
    if result.accepted then pure ⟨g, g, [], [], w.risesTo settings g⟩
    else
      let passed := if passesGate avgApprovalRate settings w.graph request then
        request.targetStage :: w.passed else w.passed
      pure { w with graph := g, passed, rises := w.risesTo settings g }
  | .resolve subjectRef severity now => do
    let g ← resolveFlag w.graph subjectRef severity now
    let answered := ExecutionStage.all.filter fun target =>
      promotionResolved g target && !promotionResolved w.graph target
    pure { w with graph := g, resolved := answered ++ w.resolved, rises := w.risesTo settings g }
  | .elsewhere g => pure { w with graph := g, rises := w.risesTo settings g }

/-- The writes of other flows leave the transitions and the flags of promotions as they are. -/
def StageWorld.Aside (w : StageWorld) : StageEvent → Prop
  | .elsewhere g => g.listNodes stageTransitionLabel = w.graph.listNodes stageTransitionLabel ∧
      ∀ target, promotionFlagged g target = promotionFlagged w.graph target ∧
        promotionResolved g target = promotionResolved w.graph target
  | _ => True

/-- Nothing was requested, raised or resolved yet. -/
def NoStageHistory (w : StageWorld) : Prop :=
  w.graph.listNodes stageTransitionLabel = [] ∧
    (∀ target, promotionFlagged w.graph target = false ∧
      promotionResolved w.graph target = false) ∧
    w.before = w.graph ∧ w.passed = [] ∧ w.resolved = [] ∧ w.rises = []

/-- Every rise is by one stage and not to the last one, and since the last transition before it a
request for the new stage passed the evidence gate and a human resolved the flag of that request. -/
def StageAuthorised (w : StageWorld) : Prop :=
  ∀ rise ∈ w.rises, rise.current.index = rise.previous.index + 1 ∧
    rise.current ≠ .liveAutopilot ∧ rise.passed = true ∧ rise.resolved = true

/-- Every rise was to a stage whose flag was fresh. -/
def FreshFlags (w : StageWorld) : Prop := ∀ rise ∈ w.rises, rise.fresh = true

/-! ### The invariant -/

/-- Where the flow stands: what the flags and resolutions say about the requests since the last
transition, and what is known of every rise so far. -/
structure StageInvariant (w : StageWorld) : Prop where
  transitions : TransitionsWritten w.graph
  flagged : ∀ target, promotionFlagged w.graph target = true →
    promotionFlagged w.before target = true ∨ target ∈ w.passed
  answered : ∀ target, promotionResolved w.graph target = true →
    promotionResolved w.before target = true ∨ target ∈ w.resolved
  kept : ∀ target, promotionResolved w.before target = true →
    promotionResolved w.graph target = true
  since : ∀ target ∈ w.resolved, promotionResolved w.before target = false
  raised : ∀ target, promotionResolved w.graph target = true →
    promotionFlagged w.graph target = true
  rises : ∀ rise ∈ w.rises, rise.current.index = rise.previous.index + 1 ∧
    rise.current ≠ .liveAutopilot ∧
    ((rise.passed = true ∧ rise.resolved = true) ↔ rise.fresh = true)

section Invariant

variable {w : StageWorld} {settings : StageSettings} {g : PipelineGraph}

theorem StageInvariant.start (h : NoStageHistory w) : StageInvariant w := by
  obtain ⟨hlist, hclean, hbefore, hpassed, hresolved, hrises⟩ := h
  refine ⟨fun key n hn => ?_, fun target ht => ?_, fun target ht => ?_, fun target ht => ?_, ?_,
    fun target ht => ?_, ?_⟩
  · obtain ⟨hlabel, hkey⟩ := Graph.getNode_nodeKey hn
    have hmem : n ∈ w.graph.listNodes stageTransitionLabel :=
      Graph.mem_listNodes.mpr ⟨hlabel, hkey ▸ hn⟩
    rw [hlist] at hmem
    cases hmem
  · rw [(hclean target).1] at ht
    cases ht
  · rw [(hclean target).2] at ht
    cases ht
  · rw [hbefore] at ht
    exact ht
  · simp [hresolved]
  · rw [(hclean target).2] at ht
    cases ht
  · simp [hrises]

theorem risesTo_of_lists
    (h : g.listNodes stageTransitionLabel = w.graph.listNodes stageTransitionLabel) :
    w.risesTo settings g = w.rises := by
  unfold StageWorld.risesTo
  rw [currentStage_of_lists h]
  exact if_neg (Nat.lt_irrefl _)

theorem transitionsWritten_of_lists
    (h : g.listNodes stageTransitionLabel = w.graph.listNodes stageTransitionLabel)
    (hw : TransitionsWritten w.graph) : TransitionsWritten g := by
  intro key n hn
  obtain ⟨hlabel, hkey⟩ := Graph.getNode_nodeKey hn
  have hmem : n ∈ g.listNodes stageTransitionLabel :=
    Graph.mem_listNodes.mpr ⟨hlabel, hkey ▸ hn⟩
  rw [h] at hmem
  exact hw n.key n (Graph.mem_listNodes.mp hmem).2

theorem promotionFlagKey_injective {target target' : ExecutionStage}
    (h : flagKey (promoteSubjectRef target) .info = flagKey (promoteSubjectRef target') .info) :
    target = target' := by
  revert h
  cases target <;> cases target' <;> decide

theorem promotionFlagged_of_raised {target t : ExecutionStage}
    (h : FlagRaised w.graph g (promoteSubjectRef target) .info) (hne : t ≠ target) :
    promotionFlagged g t = promotionFlagged w.graph t := by
  rw [promotionFlagged, h.others _ _ (.inr fun hkey => hne (promotionFlagKey_injective hkey))]
  rfl

/-- What is known of a rise to a target whose flag is resolved. -/
theorem StageInvariant.rise (h : StageInvariant w) {target : ExecutionStage}
    (hresolved : promotionResolved w.graph target = true) :
    (target ∈ w.passed ∧ target ∈ w.resolved) ↔ w.fresh target = true := by
  simp only [StageWorld.fresh, Bool.and_eq_true, Bool.or_eq_true, Bool.not_eq_true',
    decide_eq_true_eq]
  constructor
  · rintro ⟨hpassed, hanswered⟩
    exact ⟨h.since target hanswered, .inr hpassed⟩
  · rintro ⟨hold, hflag⟩
    have hanswered : target ∈ w.resolved := by
      refine (h.answered target hresolved).resolve_left fun hbefore => ?_
      rw [hold] at hbefore
      cases hbefore
    refine ⟨?_, hanswered⟩
    rcases hflag with hunflagged | hpassed
    · refine (h.flagged target (h.raised target hresolved)).resolve_left fun hbefore => ?_
      rw [hunflagged] at hbefore
      cases hbefore
    · exact hpassed

/-- A transition that was applied to the store. -/
theorem StageInvariant.applied (h : StageInvariant w) {target : ExecutionStage}
    (happlied : TransitionApplied w.graph g target)
    (hallowed : target.index < (currentStageFromGraph w.graph settings.stage).index ∨
      (isValidPromotion (currentStageFromGraph w.graph settings.stage) target = true ∧
        promotionResolved w.graph target = true)) :
    StageInvariant ⟨g, g, [], [], w.risesTo settings g⟩ := by
  have hflag : ∀ t, promotionFlagged g t = promotionFlagged w.graph t := fun t => by
    rw [promotionFlagged, happlied.others _ _ (by decide)]
    rfl
  have hanswer : ∀ t, promotionResolved g t = promotionResolved w.graph t := fun t => by
    rw [promotionResolved, flagResolved, happlied.others _ _ (by decide)]
    rfl
  refine ⟨happlied.written, fun _ ht => .inl ht, fun _ ht => .inl ht, fun _ ht => ht, by simp,
    fun t ht => ?_, fun rise hrise => ?_⟩
  · rw [hflag]
    rw [hanswer] at ht
    exact h.raised t ht
  · simp only [StageWorld.risesTo] at hrise
    split at hrise
    · rename_i hlt
      rcases List.mem_append.mp hrise with hold | hnew
      · exact h.rises rise hold
      · rcases happlied.stage settings.stage with hstage | hstage
        · rw [hstage] at hlt hnew
          rcases hallowed with hdown | ⟨hvalid, hresolved⟩
          · omega
          · obtain ⟨hne, hindex⟩ := isValidPromotion_iff.mp hvalid
            rw [List.mem_singleton.mp hnew]
            refine ⟨hindex, hne, ?_⟩
            simp only [decide_eq_true_eq]
            exact h.rise hresolved
        · rw [hstage] at hlt
          omega
    · exact h.rises rise hrise

/-- A flag raised after the evidence gate. -/
theorem StageInvariant.raisedFlag (h : StageInvariant w) {target : ExecutionStage}
    (hraised : FlagRaised w.graph g (promoteSubjectRef target) .info) :
    StageInvariant { w with
      graph := g, passed := target :: w.passed, rises := w.risesTo settings g } := by
  have hlists := hraised.lists stageTransitionLabel (by decide)
  have hanswer : ∀ t, promotionResolved g t = promotionResolved w.graph t := fun t => by
    rw [promotionResolved, flagResolved, hraised.others _ _ (.inl (by decide))]
    rfl
  rw [risesTo_of_lists hlists]
  refine ⟨transitionsWritten_of_lists hlists h.transitions, fun t ht => ?_, fun t ht => ?_,
    fun t ht => ?_, h.since, fun t ht => ?_, h.rises⟩
  · by_cases heq : t = target
    · exact .inr (by simp [heq])
    · rw [promotionFlagged_of_raised hraised heq] at ht
      rcases h.flagged t ht with hbefore | hpassed
      · exact .inl hbefore
      · exact .inr (List.mem_cons_of_mem _ hpassed)
  · rw [hanswer] at ht
    exact h.answered t ht
  · rw [hanswer]
    exact h.kept t ht
  · rw [hanswer] at ht
    by_cases heq : t = target
    · rw [heq]
      exact hraised.stands
    · rw [promotionFlagged_of_raised hraised heq]
      exact h.raised t ht

/-- The answer of a human to a flag. -/
theorem StageInvariant.resolvedFlag (h : StageInvariant w) {subjectRef : String}
    {severity : Severity} (hanswered : FlagAnswered w.graph g subjectRef severity) :
    StageInvariant { w with
      graph := g
      resolved := ExecutionStage.all.filter (fun target =>
        promotionResolved g target && !promotionResolved w.graph target) ++ w.resolved
      rises := w.risesTo settings g } := by
  have hlists := hanswered.lists stageTransitionLabel (by decide)
  have hflag : ∀ t, promotionFlagged g t = promotionFlagged w.graph t := fun t => by
    rw [promotionFlagged, hanswered.others _ _ (.inl (by decide))]
    rfl
  have hnew : ∀ t, t ∈ ExecutionStage.all.filter (fun target =>
      promotionResolved g target && !promotionResolved w.graph target) ↔
      promotionResolved g t = true ∧ promotionResolved w.graph t = false := by
    intro t
    have hall : t ∈ ExecutionStage.all := by cases t <;> decide
    simp [List.mem_filter, hall]
  rw [risesTo_of_lists hlists]
  refine ⟨transitionsWritten_of_lists hlists h.transitions, fun t ht => ?_, fun t ht => ?_,
    fun t ht => ?_, fun t ht => ?_, fun t ht => ?_, h.rises⟩
  · rw [hflag] at ht
    exact h.flagged t ht
  · by_cases hold : promotionResolved w.graph t = true
    · rcases h.answered t hold with hbefore | hresolved
      · exact .inl hbefore
      · exact .inr (List.mem_append_right _ hresolved)
    · exact .inr (List.mem_append_left _ ((hnew t).mpr ⟨ht, by simpa using hold⟩))
  · exact hanswered.kept _ _ (h.kept t ht)
  · rcases List.mem_append.mp ht with hfresh | hold
    · by_contra hbefore
      have hkept := h.kept t (by simpa using hbefore)
      rw [((hnew t).mp hfresh).2] at hkept
      cases hkept
    · exact h.since t hold
  · rw [hflag]
    by_cases hkey : resolutionKey (promoteSubjectRef t) .info = resolutionKey subjectRef severity
    · rcases hanswered.flagged with hsame | hflagged
      · rw [promotionResolved, flagResolved, hkey, hsame, ← hkey] at ht
        exact h.raised t ht
      · have hflagKey : flagKey (promoteSubjectRef t) .info = flagKey subjectRef severity := by
          have hl := congrArg String.toList hkey
          simp only [resolutionKey, String.toList_append, List.append_cancel_left_eq] at hl
          exact String.toList_inj.mp hl
        rw [promotionFlagged, hflagKey]
        exact hflagged
    · rw [promotionResolved, flagResolved, hanswered.others _ _ (.inr hkey)] at ht
      exact h.raised t ht

/-- The writes of other flows. -/
theorem StageInvariant.elsewhere (h : StageInvariant w)
    (haside : w.Aside (.elsewhere g)) :
    StageInvariant { w with graph := g, rises := w.risesTo settings g } := by
  obtain ⟨hlists, hflags⟩ := haside
  rw [risesTo_of_lists hlists]
  refine ⟨transitionsWritten_of_lists hlists h.transitions, fun t ht => ?_, fun t ht => ?_,
    fun t ht => ?_, h.since, fun t ht => ?_, h.rises⟩
  · rw [(hflags t).1] at ht
    exact h.flagged t ht
  · rw [(hflags t).2] at ht
    exact h.answered t ht
  · rw [(hflags t).2]
    exact h.kept t ht
  · rw [(hflags t).1]
    rw [(hflags t).2] at ht
    exact h.raised t ht

theorem StageInvariant.step {avgApprovalRate : List PipelineNode → ℚ} {w' : StageWorld}
    (h : StageInvariant w) (event : StageEvent) (haside : w.Aside event)
    (hok : w.step avgApprovalRate settings event = .ok w') : StageInvariant w' := by
  cases event with
  | request request now =>
    obtain ⟨⟨g, result⟩, hp, hret⟩ := Fallible.bind_eq_ok.mp hok
    rcases promoteStage_ok h.transitions hp with
      ⟨haccepted, happlied, hallowed⟩ | ⟨haccepted, hgate, hraised⟩ | ⟨haccepted, hgate, rfl⟩
    · simp only [haccepted, if_true] at hret
      cases hret
      exact h.applied happlied hallowed
    · simp only [haccepted, hgate, if_true, Bool.false_eq_true, if_false] at hret
      cases hret
      exact h.raisedFlag hraised
    · simp only [haccepted, hgate, Bool.false_eq_true, if_false] at hret
      cases hret
      exact h.elsewhere ⟨rfl, fun _ => ⟨rfl, rfl⟩⟩
  | resolve subjectRef severity now =>
    obtain ⟨g, hr, hret⟩ := Fallible.bind_eq_ok.mp hok
    cases hret
    exact h.resolvedFlag (resolveFlag_ok hr)
  | elsewhere g =>
    cases hok
    exact h.elsewhere haside

end Invariant

/-- In every run, every rise is authorised exactly where every rise was to a stage whose flag was
fresh; that it is by one stage, and never to the last one, holds in either case. -/
theorem stage_authorised_iff {avgApprovalRate : List PipelineNode → ℚ} {settings : StageSettings}
    {w : StageWorld}
    (h : Reach (StageWorld.step avgApprovalRate settings) StageWorld.Aside NoStageHistory w) :
    (∀ rise ∈ w.rises, rise.current.index = rise.previous.index + 1 ∧
      rise.current ≠ .liveAutopilot) ∧ (StageAuthorised w ↔ FreshFlags w) := by
  have hinv : StageInvariant w := h.invariant (fun _ hs => .start hs)
    fun _ event _ hs haside hok => hs.step event haside hok
  refine ⟨fun rise hrise => ?_, fun hall rise hrise => ?_, fun hall rise hrise => ?_⟩
  · obtain ⟨hindex, hne, -⟩ := hinv.rises rise hrise
    exact ⟨hindex, hne⟩
  · obtain ⟨-, -, hpassed, hresolved⟩ := hall rise hrise
    exact (hinv.rises rise hrise).2.2.mp ⟨hpassed, hresolved⟩
  · obtain ⟨hindex, hne, hiff⟩ := hinv.rises rise hrise
    obtain ⟨hpassed, hresolved⟩ := hiff.mpr (hall rise hrise)
    exact ⟨hindex, hne, hpassed, hresolved⟩

/-- A store with three Snapshots, enough for the least number of runs. -/
def snapshotWorld : StageWorld :=
  let g : PipelineGraph := ((Graph.empty.put ⟨"Snapshot", "s1", .empty, 1⟩).put
    ⟨"Snapshot", "s2", .empty, 1⟩).put ⟨"Snapshot", "s3", .empty, 1⟩
  { graph := g, before := g }

theorem noStageHistory_snapshotWorld : NoStageHistory snapshotWorld := by
  refine ⟨rfl, fun target => ?_, rfl, rfl, rfl, rfl⟩
  cases target <;> decide +kernel

def threeRuns : StageSettings := { minPromotionRuns := 3 }

def promoteToShadow (confirmed : Bool) (now : String) : StageEvent :=
  .request ⟨.brokerShadow, "evidence is in", confirmed⟩ now

/-- A request that raises the flag, its resolution, and the confirmed request. -/
def firstPromotion : List StageEvent :=
  [promoteToShadow false "t1", .resolve "stage_promote:broker_shadow" .info "t2",
    promoteToShadow true "t3"]

theorem first_promotion_authorised : ∃ w,
    firstPromotion.foldlM (StageWorld.step (fun _ => 1) threeRuns) snapshotWorld = .ok w ∧
      w.rises.length = 1 ∧ StageAuthorised w := by
  have hrun : Fallible.check
      (fun w : StageWorld => decide (w.rises.length = 1) && w.rises.all StageRise.fresh)
      (firstPromotion.foldlM (StageWorld.step (fun _ => 1) threeRuns) snapshotWorld) = true := by
    decide +kernel
  obtain ⟨w, hw, hcheck⟩ := Fallible.check_eq_true.mp hrun
  rw [Bool.and_eq_true, decide_eq_true_eq, List.all_eq_true] at hcheck
  obtain ⟨hlength, hfresh⟩ := hcheck
  have hreach : Reach (StageWorld.step (fun _ => 1) threeRuns) StageWorld.Aside NoStageHistory w :=
    Reach.of_allowed (.start noStageHistory_snapshotWorld)
      (by simp [firstPromotion, promoteToShadow, StageWorld.Aside]) hw
  exact ⟨w, hw, hlength, (stage_authorised_iff hreach).2.mpr hfresh⟩

/-- The first promotion, a demotion, and the confirmed request once more. -/
def promotedAgain : List StageEvent :=
  firstPromotion ++ [.request ⟨.paper, "step back", false⟩ "t4", promoteToShadow true "t5"]

/-- The second rise has neither a pass of the evidence gate nor a resolution of its own. -/
theorem promoted_again_unauthorised : ∃ w,
    Reach (StageWorld.step (fun _ => 1) threeRuns) StageWorld.Aside NoStageHistory w ∧
      ¬ StageAuthorised w := by
  have hrun : Fallible.check
      (fun w : StageWorld => w.rises.any fun rise => !rise.passed && !rise.resolved)
      (promotedAgain.foldlM (StageWorld.step (fun _ => 1) threeRuns) snapshotWorld) = true := by
    decide +kernel
  obtain ⟨w, hw, hcheck⟩ := Fallible.check_eq_true.mp hrun
  obtain ⟨rise, hrise, hneither⟩ := List.any_eq_true.mp hcheck
  refine ⟨w, ?_, fun hall => ?_⟩
  · exact Reach.of_allowed (.start noStageHistory_snapshotWorld)
      (by simp [promotedAgain, firstPromotion, promoteToShadow, StageWorld.Aside]) hw
  · obtain ⟨-, -, hpassed, -⟩ := hall rise hrise
    simp [hpassed] at hneither

end TradingAgents.Execution
