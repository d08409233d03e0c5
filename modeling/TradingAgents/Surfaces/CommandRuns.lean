import TradingAgents.Execution.StageRuns
import TradingAgents.ProofKit.Keeps
import TradingAgents.Surfaces.CommandTool

/-! Runs of commands.  Whatever the model answers, commands that nobody confirms raise flags and
lower the execution stage, and that is all: they resolve no flag, send no message and never raise
the stage. -/

namespace TradingAgents.Surfaces

open Kernel ProofKit
open Execution (ExecutionStage PromoteStageRequest PromoteStageResult StageSettings StampedBefore
  TransitionsWritten applyTransition currentStageFromGraph currentStage_of_lists isValidPromotion
  promoteStage promoteSubjectRef stageTransitionKey stageTransitionLabel stageTransitionProps
  transitionsWritten_of_lists writeStageTransition writeStageTransition_ok
  writeStageTransition_stands)
open Operator
open Supervisor

/-! ### What is left of a command that nobody confirms -/

/-- A pending flag that asks: to confirm an intent, or to approve the promotion to the next
stage. -/
inductive Asks : PipelineNode → Prop where
  | confirmation (intent : TypedIntent) (now : String) (h : needsConfirmation intent = true) :
      Asks ⟨flagLabel, flagKey intent.provenance.runId .warn,
        flagProps intent.provenance.runId .warn (confirmationReason intent) now "pending", 1⟩
  | approval (fromStage target : ExecutionStage) (now : String)
      (h : isValidPromotion fromStage target = true) :
      Asks ⟨flagLabel, flagKey (promoteSubjectRef target) .info,
        flagProps (promoteSubjectRef target) .info
          ("Promote execution stage " ++ fromStage.value ++ "->" ++ target.value) now "pending", 1⟩

/-- From `g` to `g'` the stage has not risen, no flag was answered, no message was written, and the
flags that were raised ask for a confirmation or for the approval of a promotion. -/
structure Unescalated (settings : StageSettings) (g g' : PipelineGraph) : Prop where
  written : TransitionsWritten g'
  stage : (currentStageFromGraph g' settings.stage).index ≤
    (currentStageFromGraph g settings.stage).index
  answers : ∀ key, g'.getNode flagResolutionLabel key = g.getNode flagResolutionLabel key
  messages : ∀ key, g'.getNode messageLabel key = g.getNode messageLabel key
  flags : ∀ key n, g.getNode flagLabel key = some n → g'.getNode flagLabel key = some n
  raised : ∀ key n, g.getNode flagLabel key = none → g'.getNode flagLabel key = some n →
    n.key = key ∧ Asks n

/-- And no transition was written either. -/
structure Asking (settings : StageSettings) (g g' : PipelineGraph) : Prop
    extends Unescalated settings g g' where
  transitions : g'.listNodes stageTransitionLabel = g.listNodes stageTransitionLabel

/-- A transition to a lower stage was written, stamped with the time of the call; it gives the stage
if those that stood are all stamped before it. -/
structure Demoted (settings : StageSettings) (now : String) (g g' : PipelineGraph) : Prop
    extends Unescalated settings g g' where
  lowered : ∃ target reason, target.index < (currentStageFromGraph g settings.stage).index ∧
    g'.getNode stageTransitionLabel (stageTransitionKey target now) =
      some ⟨stageTransitionLabel, stageTransitionKey target now,
        stageTransitionProps (currentStageFromGraph g settings.stage) target reason now, 1⟩ ∧
    (StampedBefore g now → currentStageFromGraph g' settings.stage = target)

theorem Unescalated.trans {settings : StageSettings} {g g₁ g₂ : PipelineGraph}
    (h : Unescalated settings g g₁) (h' : Unescalated settings g₁ g₂) :
    Unescalated settings g g₂ where
  written := h'.written
  stage := h'.stage.trans h.stage
  answers key := (h'.answers key).trans (h.answers key)
  messages key := (h'.messages key).trans (h.messages key)
  flags key n hn := h'.flags key n (h.flags key n hn)
  raised := by
    intro key n hfree hflag
    cases hmid : g₁.getNode flagLabel key with
    | none => exact h'.raised key n hmid hflag
    | some m =>
      rw [h'.flags key m hmid] at hflag
      cases hflag
      exact h.raised key _ hfree hmid

namespace Asking

variable {settings : StageSettings} {g g₁ g₂ : PipelineGraph} {label key : String}
  {props : Props Document} {n : PipelineNode}

theorem refl (h : TransitionsWritten g) : Asking settings g g :=
  ⟨⟨h, le_refl _, fun _ => rfl, fun _ => rfl, fun _ _ h => h,
    fun _ _ h h' => absurd (h.symm.trans h') nofun⟩, rfl⟩

theorem trans (h : Asking settings g g₁) (h' : Asking settings g₁ g₂) : Asking settings g g₂ :=
  ⟨h.toUnescalated.trans h'.toUnescalated, h'.transitions.trans h.transitions⟩

/-- Other writes leave the flags, their answers, the messages and the transitions as they are. -/
theorem of_aside (h : TransitionsWritten g)
    (hnodes : ∀ label ∈ [flagLabel, flagResolutionLabel, messageLabel], ∀ key,
      g₁.getNode label key = g.getNode label key)
    (hlist : g₁.listNodes stageTransitionLabel = g.listNodes stageTransitionLabel) :
    Asking settings g g₁ where
  written := transitionsWritten_of_lists (w := ⟨g, g, [], [], []⟩) hlist h
  stage := by rw [currentStage_of_lists hlist]
  answers := hnodes _ (by simp)
  messages := hnodes _ (by simp)
  flags key n hn := by rw [hnodes _ (by simp), hn]
  raised := by
    intro key n hfree hflag
    rw [hnodes _ (by simp), hfree] at hflag
    cases hflag
  transitions := hlist

theorem of_merge (h : TransitionsWritten g)
    (hlabel : label ∉ [flagLabel, flagResolutionLabel, messageLabel, stageTransitionLabel])
    (hm : g.mergeNode label key props = .ok (g₁, n)) : Asking settings g g₁ := by
  obtain ⟨rfl, hn, -, -⟩ := Graph.mergeNode_ok hm
  simp only [List.mem_cons, List.not_mem_nil, or_false, not_or] at hlabel
  refine of_aside h (fun label' hlabel' key' => ?_) (Graph.listNodes_put_of_ne ?_)
  · rw [Graph.getNode_put, if_neg]
    rintro ⟨rfl, -⟩
    rw [hn] at hlabel'
    simp only [List.mem_cons, List.not_mem_nil, or_false] at hlabel'
    rcases hlabel' with heq | heq | heq
    · exact hlabel.1 heq
    · exact hlabel.2.1 heq
    · exact hlabel.2.2.1 heq
  · rw [hn]
    exact hlabel.2.2.2

theorem of_nodes (h : TransitionsWritten g) (hnodes : g₁.nodes = g.nodes) :
    Asking settings g g₁ :=
  of_aside h (fun label _ key => Graph.getNode_of_nodes_eq hnodes label key)
    (Graph.listNodes_of_nodes_eq hnodes _)

/-- A flag is raised beside those that stand. -/
theorem of_flag {subjectRef reason now : String} {severity : Severity} (h : TransitionsWritten g)
    (hasks : Asks ⟨flagLabel, flagKey subjectRef severity,
      flagProps subjectRef severity reason now "pending", 1⟩)
    (hw : writeFlag g subjectRef severity reason now = .ok g₁) : Asking settings g g₁ := by
  obtain ⟨-, hothers, hlists⟩ := writeFlag_ok hw
  have hget := writeFlag_get hw
  have hlist := hlists stageTransitionLabel (by decide)
  refine ⟨⟨transitionsWritten_of_lists (w := ⟨g, g, [], [], []⟩) hlist h, ?_, fun key => ?_,
    fun key => ?_, fun key n hn => ?_, fun key n hfree hflag => ?_⟩, hlist⟩
  · rw [currentStage_of_lists hlist]
  · exact hothers _ _ (.inl (by decide))
  · exact hothers _ _ (.inl (by decide))
  · by_cases hsame : key = flagKey subjectRef severity
    · -- a flag that stands is not written again
      rw [hsame] at hn ⊢
      rw [hget, hn]
      rfl
    · rw [hothers _ _ (.inr hsame)]
      exact hn
  · by_cases hsame : key = flagKey subjectRef severity
    · rw [hsame] at hfree hflag ⊢
      rw [hget, hfree] at hflag
      cases hflag
      exact ⟨rfl, hasks⟩
    · rw [hothers _ _ (.inr hsame), hfree] at hflag
      cases hflag

end Asking

/-! ### The stage -/

/-- A promotion that is not confirmed is not applied: the request writes the transition to a lower
stage, asks for the approval of the next one or does nothing. -/
theorem promoteStage_unconfirmed {avgApprovalRate : List PipelineNode → ℚ}
    {settings : StageSettings} {g g' : PipelineGraph} {request : PromoteStageRequest}
    {now : String} {result : PromoteStageResult} (hunconfirmed : request.confirmed = false)
    (h : promoteStage avgApprovalRate settings g request now = .ok (g', result)) :
    (result.accepted = true ∧
      request.targetStage.index < (currentStageFromGraph g settings.stage).index ∧
      ∃ node, writeStageTransition g (currentStageFromGraph g settings.stage) request.targetStage
        request.reason now = .ok (g', node)) ∨
    (result.accepted = false ∧ (g' = g ∨
      isValidPromotion (currentStageFromGraph g settings.stage) request.targetStage = true ∧
      writeFlag g (promoteSubjectRef request.targetStage) .info
        ("Promote execution stage " ++ (currentStageFromGraph g settings.stage).value ++ "->" ++
          request.targetStage.value) now = .ok g')) := by
  unfold promoteStage at h
  dsimp only at h
  split at h
  · rename_i hdemotion
    obtain ⟨⟨g₁, node⟩, hwrite, hret⟩ := Fallible.bind_eq_ok.mp h
    cases hret
    exact .inl ⟨rfl, of_decide_eq_true hdemotion, node, hwrite⟩
  split at h
  · cases h
    exact .inr ⟨rfl, .inl rfl⟩
  rename_i hvalid
  have hvalid : isValidPromotion (currentStageFromGraph g settings.stage) request.targetStage =
      true := by simpa using hvalid
  split at h
  · rename_i hconfirmed
    rw [hunconfirmed] at hconfirmed
    cases hconfirmed
  split at h
  · cases h
    exact .inr ⟨rfl, .inl rfl⟩
  · obtain ⟨g₁, hflag, hret⟩ := Fallible.bind_eq_ok.mp h
    cases hret
    exact .inr ⟨rfl, .inr ⟨hvalid, hflag⟩⟩

/-- An unconfirmed request that is accepted lowers the stage, and one that is not only asks. -/
theorem promoteStage_outcome {avgApprovalRate : List PipelineNode → ℚ} {settings : StageSettings}
    {g₀ g g' : PipelineGraph} {request : PromoteStageRequest} {now : String}
    {result : PromoteStageResult} (hg : Asking settings g₀ g)
    (hunconfirmed : request.confirmed = false)
    (h : promoteStage avgApprovalRate settings g request now = .ok (g', result)) :
    (result.accepted = true ∧ Demoted settings now g₀ g') ∨
      (result.accepted = false ∧ Asking settings g₀ g') := by
  rcases promoteStage_unconfirmed hunconfirmed h with
    ⟨haccepted, hlower, node, hwrite⟩ | ⟨hrefused, rfl | ⟨hvalid, hflag⟩⟩
  · have happlied := writeStageTransition_ok hg.written hwrite
    obtain ⟨hstands, hlatest⟩ := writeStageTransition_stands hg.written hwrite
    have hsame := currentStage_of_lists hg.transitions settings.stage
    have hothers : ∀ label ∈ [flagLabel, flagResolutionLabel, messageLabel], ∀ key,
        g'.getNode label key = g.getNode label key := by
      intro label hlabel key
      refine happlied.others _ _ ?_
      rintro rfl
      revert hlabel
      decide
    refine .inl ⟨haccepted, hg.toUnescalated.trans ⟨happlied.written, ?_, hothers _ (by simp),
      hothers _ (by simp), fun key n hn => ?_, fun key n hfree hflag => ?_⟩,
      request.targetStage, request.reason, hsame ▸ hlower, hsame ▸ hstands, fun hbefore => ?_⟩
    · rcases happlied.stage settings.stage with hstage | hstage
      · rw [hstage]
        exact hlower.le
      · rw [hstage]
    · rw [hothers _ (by simp)]
      exact hn
    · rw [hothers _ (by simp), hfree] at hflag
      cases hflag
    · refine hlatest (fun n hn => hbefore n ?_) settings.stage
      rw [hg.transitions] at hn
      exact hn
  · exact .inr ⟨hrefused, hg⟩
  · exact .inr ⟨hrefused, hg.trans (.of_flag hg.written (.approval _ _ now hvalid) hflag)⟩

/-! ### The handlers -/

section Handlers

variable {settings : StageSettings} {g₀ : PipelineGraph}

/-- The states that unconfirmed commands lead to from `g₀` while they only ask. -/
abbrev Safe (settings : StageSettings) (g₀ : PipelineGraph) : PipelineGraph → Prop :=
  Asking settings g₀

theorem keeps_mergeM {label key : String} {props : Props Document}
    (hlabel : label ∉ [flagLabel, flagResolutionLabel, messageLabel, stageTransitionLabel]) :
    Keeps (Safe settings g₀) (mergeM label key props) := by
  apply Keeps.get_bind
  intro g hg
  cases hm : g.mergeNode label key props with
  | error e => exact Ends.throw hg
  | ok merged =>
    obtain ⟨g₁, n⟩ := merged
    exact Ends.bind (Ends.set (hg.trans (.of_merge hg.written hlabel hm)))
      fun _ _ ht => Ends.pure ht

theorem keeps_addEdgeM (parent child : PipelineNode) (edgeType : String) :
    Keeps (Safe settings g₀) (addEdgeM parent child edgeType) := by
  apply Keeps.get_bind
  intro g hg
  cases he : g.addEdge parent.nodeKey child.nodeKey edgeType with
  | error e => exact Ends.throw hg
  | ok g₁ => exact Ends.set (hg.trans (.of_nodes hg.written (Graph.addEdge_ok he).1))

theorem keeps_mergeOnce {label key : String} {props : Props Document}
    (hlabel : label ∉ [flagLabel, flagResolutionLabel, messageLabel, stageTransitionLabel]) :
    Keeps (Safe settings g₀) (mergeOnce label key props) := by
  apply Keeps.get_bind
  intro g hg
  cases g.getNode label key with
  | none => exact keeps_mergeM hlabel g hg
  | some node => exact Ends.pure hg

theorem keeps_writeLlmCall (corr : String) (row : Props Document) :
    Keeps (Safe settings g₀) (writeLlmCall corr row) :=
  Keeps.get_bind fun g hg => keeps_mergeM (by decide) g hg

theorem keeps_writeCommandAudit (corr actor channel text outcome now : String)
    (row : PipelineNode) :
    Keeps (Safe settings g₀) (writeCommandAudit corr actor channel text outcome now row) :=
  (keeps_mergeOnce (by decide)).bind fun node =>
    (keeps_addEdgeM node row "PRODUCED_BY").bind fun _ => .pure node

theorem keeps_writeIntent (kit : OperatorKit) (corr : String) (audit : PipelineNode)
    (intent : TypedIntent) : Keeps (Safe settings g₀) (writeIntent kit corr audit intent) :=
  (keeps_mergeOnce (by decide)).bind fun node =>
    (keeps_addEdgeM audit node "RESULTED_IN").bind fun _ => .pure node

theorem keeps_interpretCommand (kit : OperatorKit) (command : HumanCommand) (call : ModelCall) :
    Keeps (Safe settings g₀) (interpretCommand kit command call) := by
  apply (keeps_writeLlmCall _ _).bind
  intro row
  apply (keeps_writeCommandAudit _ _ _ _ _ _ _).bind
  intro audit
  split
  · exact .pure _
  · split
    · exact .throw _
    · exact (keeps_writeIntent _ _ _ _).bind fun node => .pure _

theorem keeps_interpret (kit : OperatorKit) (command : HumanCommand) (call : ModelCall) :
    Keeps (Safe settings g₀) (interpret kit command call) :=
  (keeps_interpretCommand kit command call).boundary fun _ => .pure _

theorem keeps_explain (kit : OperatorKit) (subject : String) (requestId : Option String)
    (call : ModelCall) (words : String) :
    Keeps (Safe settings g₀) (explain kit subject requestId call words) :=
  (keeps_writeLlmCall _ _).bind fun _ =>
    (keeps_writeCommandAudit _ _ _ _ _ _ _).bind fun _ => .pure words

end Handlers

/-! ### The intent that a command is read as -/

/-- The model's answer does not confirm the command for its caller. -/
def Unconfirming (answer : ModelAnswer) : Prop :=
  ∀ data, answer = .object data →
    (params (data.get? "parameters")).get? "confirmed" ≠ some "true"

/-- An intent that nobody has confirmed, under the policy of the grammar. -/
structure UnconfirmedIntent (intent : TypedIntent) : Prop where
  unconfirmed : intent.parameters.get? "confirmed" ≠ some "true"
  policy : intent.requiresConfirmation = (intentFamilies intent.family).requiresConfirmation

section Reading

variable {kit : OperatorKit} {answer : ModelAnswer} {data : ReplyData} {intent : TypedIntent}

/-- The explicit approval of a command text adds its target and nothing else. -/
theorem confirmed_normalize (commandText : String)
    (h : (params (data.get? "parameters")).get? "confirmed" ≠ some "true") :
    (params ((normalizeExplicitIntent kit.approveTarget commandText data).get?
      "parameters")).get? "confirmed" ≠ some "true" := by
  unfold normalizeExplicitIntent
  cases kit.approveTarget commandText with
  | none => exact h
  | some target =>
    dsimp only
    have hne : "confirmed" ≠ "target" := by decide
    rw [Dict.get?_set_self, params_get?, Dict.get?_set_ne _ _ hne]
    cases hparams : data.get? "parameters" with
    | none => exact Option.some_ne_none _ ∘ Eq.symm
    | some value =>
      cases value with
      | plain v => exact Option.some_ne_none _ ∘ Eq.symm
      | object entries shown =>
        rw [hparams, params_get?] at h
        exact h

theorem confirmed_parseJson (h : Unconfirming answer) :
    (params ((parseJson answer).get? "parameters")).get? "confirmed" ≠ some "true" := by
  cases answer with
  | object data => exact h data rfl
  | otherJson => decide
  | malformed => decide
  | cutOff => decide
  | failed reply => exact Option.some_ne_none _ ∘ Eq.symm

theorem outcome_refusal (reason : String) : outcome (refusal reason) = .refused := rfl

theorem checkedIntent_cases (data : ReplyData) :
    checkedIntent data = data ∨ ∃ reason, checkedIntent data = refusal reason := by
  unfold checkedIntent
  split
  · exact .inl rfl
  · dsimp only
    split
    · exact .inr ⟨_, rfl⟩
    · split
      · exact .inl rfl
      · exact .inr ⟨_, rfl⟩

/-- A command is read as an intent only with the parameters of the model's answer. -/
theorem confirmed_readAnswer (h : Unconfirming answer) (commandText : String)
    (hintent : outcome (readAnswer kit commandText answer) = .intent) :
    (params ((readAnswer kit commandText answer).get? "parameters")).get? "confirmed" ≠
      some "true" := by
  have hkept := @confirmed_normalize kit (parseJson answer) commandText (confirmed_parseJson h)
  have hread : readAnswer kit commandText answer = checkedIntent
      (normalizeExplicitIntent kit.approveTarget commandText (parseJson answer)) := by
    cases answer with
    | failed reply =>
      rw [readAnswer, outcome_refusal] at hintent
      cases hintent
    | _ => rfl
  rw [hread] at hintent ⊢
  rcases checkedIntent_cases (normalizeExplicitIntent kit.approveTarget commandText
    (parseJson answer)) with hsame | ⟨reason, hrefused⟩
  · rw [hsame]
    exact hkept
  · rw [hrefused, outcome_refusal] at hintent
    cases hintent

theorem intentFromData_ok {corr : String} (h : intentFromData data corr = .ok intent) :
    intent.parameters = params (data.get? "parameters") ∧
      intent.requiresConfirmation = (intentFamilies intent.family).requiresConfirmation := by
  unfold intentFromData at h
  split at h
  · split at h
    · cases h
      exact ⟨rfl, rfl⟩
    · cases h
  · cases h
  · cases h

/-- An intent that a command is read as is not confirmed by the model's answer. -/
theorem interpret_unconfirmed {command : HumanCommand} {call : ModelCall} {g t : PipelineGraph}
    {result : CommandResult} (h : Unconfirming call.answer)
    (hrun : (interpret kit command call).run g = .ok result t) :
    ∀ intent ∈ result.intent, UnconfirmedIntent intent := by
  have hends : Ends (interpret kit command call) g
      (fun result _ => ∀ intent ∈ result.intent, UnconfirmedIntent intent) fun _ => True := by
    refine @Ends.boundary _ _ _ _ _ _ _ (fun _ => True) _ ?_ fun _ _ _ => Ends.pure nofun
    refine Ends.bind (Keeps.trivial _ g True.intro) fun row _ _ => ?_
    refine Ends.bind (Keeps.trivial _ _ True.intro) fun audit _ _ => ?_
    split
    · exact Ends.pure nofun
    · rename_i hintent
      split
      · exact Ends.throw True.intro
      · rename_i read hread
        refine Ends.bind (Keeps.trivial _ _ True.intro) fun node _ _ => Ends.pure ?_
        intro intent hmem
        obtain rfl := Option.mem_some.mp hmem
        obtain ⟨hparams, hpolicy⟩ := intentFromData_ok hread
        refine ⟨?_, hpolicy⟩
        show read.parameters.get? "confirmed" ≠ _
        rw [hparams]
        exact confirmed_readAnswer h _ (not_not.mp hintent)
  exact hends.of_ok hrun

end Reading

/-! ### The gate -/

section Gate

variable {ctx : SurfaceContext} {g₀ : PipelineGraph} {intent : TypedIntent} {now : String}

theorem keeps_liftWrite {settings : StageSettings}
    {write : PipelineGraph → Except HandlerError PipelineGraph}
    (h : ∀ g g', TransitionsWritten g → write g = .ok g' → Asking settings g g') :
    Keeps (Safe settings g₀) (liftWrite write) := by
  apply Keeps.get_bind
  intro g hg
  cases hw : write g with
  | error e => exact Ends.throw hg
  | ok g' => exact Ends.set (hg.trans (h g g' hg.written hw))

theorem ends_executionPeer {g : PipelineGraph} (hg : Safe ctx.stage g₀ g)
    (request : PromoteStageRequest) (h : request.confirmed = false) :
    Ends ((ctx.peers now).promoteStage request) g
      (fun answer t => (∃ result, answer = .ok result ∧ result.accepted = true ∧
          Demoted ctx.stage now g₀ t) ∨
        (∀ result, answer = .ok result → result.accepted = false) ∧ Safe ctx.stage g₀ t)
      (Safe ctx.stage g₀) := by
  refine Ends.bind (Ends.get (Q := fun a t => a = g ∧ t = g) ⟨rfl, rfl⟩) fun _ t hread => ?_
  obtain ⟨rfl, rfl⟩ := hread
  cases hp : promoteStage ctx.avgApprovalRate ctx.stage t request now with
  | error e => exact Ends.pure (.inr ⟨nofun, hg⟩)
  | ok promoted =>
    obtain ⟨g', result⟩ := promoted
    refine Ends.bind (Ends.set (Q := fun _ u => u = g') rfl) fun _ u hu => Ends.pure ?_
    rw [hu]
    rcases promoteStage_outcome hg h hp with ⟨haccepted, hdemoted⟩ | ⟨hrefused, hasking⟩
    · exact .inl ⟨result, rfl, haccepted, hdemoted⟩
    · refine .inr ⟨fun result' hresult => ?_, hasking⟩
      cases hresult
      exact hrefused

/-- What a gate that nobody confirms ends in: a refusal that asks at most, or a stage request that
lowered the stage. -/
def Gated (settings : StageSettings) (now : String) (g₀ : PipelineGraph) (result : DispatchResult)
    (g : PipelineGraph) : Prop :=
  (result.accepted = false ∧ Asking settings g₀ g) ∨
    (result.accepted = true ∧ result.routedTo = some "execution.promote_stage" ∧
      Demoted settings now g₀ g)

theorem gated_of_rejected {g : PipelineGraph} (hg : Safe ctx.stage g₀ g) (runId reason : String) :
    Gated ctx.stage now g₀ (rejected runId reason) g :=
  .inl ⟨rfl, hg⟩

theorem ends_dispatchStage {g : PipelineGraph} (hg : Safe ctx.stage g₀ g)
    (h : intent.parameters.get? "confirmed" ≠ some "true") :
    Ends (dispatchStage (ctx.peers now) intent) g (Gated ctx.stage now g₀) (Safe ctx.stage g₀) := by
  unfold dispatchStage
  dsimp only
  split
  · exact Ends.pure (gated_of_rejected hg _ _)
  · refine Ends.bind (ends_executionPeer hg _ (decide_eq_false h)) fun answer t ht => ?_
    rcases ht with ⟨result, rfl, haccepted, hdemoted⟩ | ⟨hrefused, hasking⟩
    · dsimp only
      rw [if_pos haccepted]
      exact Ends.pure (.inr ⟨rfl, rfl, hdemoted⟩)
    · split
      · exact Ends.pure (gated_of_rejected hasking _ _)
      · rename_i result
        rw [if_neg (by rw [hrefused result rfl]; decide)]
        exact Ends.pure (gated_of_rejected hasking _ _)

/-- Of the families that need no confirmation the gate only refuses the one that it is given. -/
theorem dispatchRouted_pause (h : intent.parameters.get? "confirmed" ≠ some "true")
    (hfamily : intent.family = .pause) :
    ∃ reason, dispatchRouted (ctx.peers now) intent now =
      Pure.pure (rejected intent.provenance.runId reason) := by
  unfold dispatchRouted
  rw [hfamily]
  simp only [if_neg h]
  exact ⟨_, rfl⟩

theorem family_of_free (hintent : UnconfirmedIntent intent)
    (hfree : needsConfirmation intent = false) :
    intent.family = .status ∨ intent.family = .explain ∨ intent.family = .pause := by
  unfold needsConfirmation at hfree
  rw [decide_eq_true hintent.unconfirmed, Bool.and_true, hintent.policy] at hfree
  revert hfree
  cases intent.family <;> decide

theorem ends_dispatch {g : PipelineGraph} (hg : Safe ctx.stage g₀ g)
    (hintent : UnconfirmedIntent intent) (hexplain : intent.family ≠ .explain)
    (hstatus : intent.family ≠ .status) :
    Ends (dispatch (ctx.peers now) intent now) g (Gated ctx.stage now g₀) (Safe ctx.stage g₀) := by
  refine @Ends.boundary _ _ _ _ _ _ _ (Safe ctx.stage g₀) _ ?_ fun _ t ht =>
    Ends.pure (gated_of_rejected ht _ _)
  unfold dispatchIntent
  dsimp only
  split
  · exact Ends.pure (gated_of_rejected hg _ _)
  · split
    · exact ends_dispatchStage hg hintent.unconfirmed
    · split
      · rename_i hneeds
        refine Ends.bind (keeps_liftWrite (fun g g' hg hw => ?_) g hg) fun _ t ht =>
          Ends.pure (gated_of_rejected ht _ _)
        exact .of_flag hg (.confirmation intent now hneeds) hw
      · rename_i hneeds
        rcases family_of_free hintent (eq_false_of_ne_true hneeds) with hfamily | hfamily | hfamily
        · exact absurd hfamily hstatus
        · exact absurd hfamily hexplain
        · obtain ⟨reason, hrefused⟩ :=
            @dispatchRouted_pause ctx intent now hintent.unconfirmed hfamily
          rw [hrefused]
          exact Ends.pure (gated_of_rejected hg _ _)

end Gate

/-! ### The tool -/

section Tool

variable {ctx : SurfaceContext} {g₀ : PipelineGraph} {call : CommandCall}

/-- A call that its caller does not confirm, and whose answer from the model does not either. -/
structure CommandCall.Unconfirmed (call : CommandCall) : Prop where
  caller : call.args.confirmed ≠ .isTrue
  model : Unconfirming call.reading.answer

/-- What an unconfirmed call comes to: it asks at most, and is accepted only as the answer to a
question; or it is an accepted stage request that lowers the stage. -/
inductive CallOutcome (settings : StageSettings) (call : CommandCall) (g₀ : PipelineGraph)
    (result : Except HandlerError ToolResult) (g : PipelineGraph) : Prop where
  | asked (h : Asking settings g₀ g)
      (hanswer : ∀ a, result = .ok (.answer a) → a.accepted = true →
        a.outcome = "answer" ∧ a.routedTo = none)
  | lowered (h : Demoted settings call.now g₀ g) (a : ToolAnswer)
      (hresult : result = .ok (.answer a)) (haccepted : a.accepted = true)
      (hrouted : a.routedTo = some "execution.promote_stage")

theorem CallOutcome.unescalated {settings : StageSettings} {g : PipelineGraph}
    {result : Except HandlerError ToolResult} (h : CallOutcome settings call g₀ result g) :
    Unescalated settings g₀ g := by
  cases h with
  | asked h _ => exact h.toUnescalated
  | lowered h _ _ _ _ => exact h.toUnescalated

/-- A question is answered, whatever is asked. -/
theorem CallOutcome.of_answer {settings : StageSettings} {g : PipelineGraph} {a : ToolAnswer}
    (h : Asking settings g₀ g) (houtcome : a.outcome = "answer") (hrouted : a.routedTo = none) :
    CallOutcome settings call g₀ (.ok (.answer a)) g := by
  refine .asked h fun b hb _ => ?_
  cases hb
  exact ⟨houtcome, hrouted⟩

theorem CallOutcome.of_refusal {settings : StageSettings} {g : PipelineGraph} {a : ToolAnswer}
    (h : Asking settings g₀ g) (hrefused : a.accepted = false) :
    CallOutcome settings call g₀ (.ok (.answer a)) g := by
  refine .asked h fun b hb haccepted => ?_
  cases hb
  rw [hrefused] at haccepted
  cases haccepted

/-- A result without an answer accepts nothing. -/
theorem CallOutcome.of_unanswered {settings : StageSettings} {g : PipelineGraph}
    {result : Except HandlerError ToolResult} (h : Asking settings g₀ g)
    (hresult : ∀ a, result ≠ .ok (.answer a)) : CallOutcome settings call g₀ result g :=
  .asked h fun a ha _ => absurd ha (hresult a)

theorem ends_operatorExplanation {g : PipelineGraph} (hg : Safe ctx.stage g₀ g)
    (subject : String) :
    Ends (operatorExplanation ctx subject call) g
      (fun result t => CallOutcome ctx.stage call g₀ (.ok result) t) (Safe ctx.stage g₀) := by
  refine @Ends.boundary _ _ _ _ _ _ _ (Safe ctx.stage g₀) _ ?_ fun _ t ht =>
    Ends.pure (.of_unanswered ht fun _ => by simp)
  exact Ends.bind (keeps_explain _ _ _ _ _ g hg) fun words t ht =>
    Ends.pure (.of_answer ht rfl rfl)

theorem UnconfirmedIntent.withRun {intent : TypedIntent} (h : UnconfirmedIntent intent)
    (runId : String) : UnconfirmedIntent (intent.withParameter "run_id" runId) := by
  refine ⟨?_, h.policy⟩
  have hne : "confirmed" ≠ "run_id" := by decide
  show (intent.parameters.set "run_id" runId).get? "confirmed" ≠ _
  rw [Dict.get?_set_ne _ _ hne]
  exact h.unconfirmed

/-- One unconfirmed call, however it ends. -/
theorem ends_commandTool {g : PipelineGraph} (hg : Safe ctx.stage g₀ g)
    (h : call.Unconfirmed) :
    Ends (commandTool ctx call) g
      (fun result t => CallOutcome ctx.stage call g₀ (.ok result) t) (Safe ctx.stage g₀) := by
  unfold commandTool
  dsimp only
  split
  · exact Ends.throw hg
  · refine Ends.bind ((keeps_interpret _ _ _).returns hg fun result t hrun =>
      interpret_unconfirmed h.model hrun) fun result t ht => ?_
    obtain ⟨ht, hread⟩ := ht
    split
    · exact Ends.pure (.of_refusal ht rfl)
    · rename_i intent hintent
      have hunconfirmed := hread intent hintent
      generalize hgrounded : (if intent.family = .resume ∧ call.args.runId ≠ "" then
        intent.withParameter "run_id" call.args.runId else intent) = intent'
      have hunconfirmed' : UnconfirmedIntent intent' := by
        rw [← hgrounded]
        split
        · exact hunconfirmed.withRun _
        · exact hunconfirmed
      split
      · exact ends_operatorExplanation ht _
      · rename_i hexplain
        split
        · exact Ends.bind (Ends.get (Q := fun _ u => u = t) rfl) fun _ u hu =>
            Ends.pure (.of_answer (hu ▸ ht) rfl rfl)
        · rename_i hstatus
          rw [if_neg h.caller]
          refine Ends.bind (ends_dispatch ht hunconfirmed' hexplain hstatus) fun result u hu =>
            Ends.pure ?_
          rcases hu with ⟨hrefused, hasking⟩ | ⟨haccepted, hrouted, hdemoted⟩
          · exact .of_refusal hasking hrefused
          · exact .lowered hdemoted _ rfl haccepted hrouted

end Tool

/-! ### Runs -/

/-- A call, with the store before and after it. -/
structure CommandRecord where
  call : CommandCall
  before : PipelineGraph
  result : Except HandlerError ToolResult
  after : PipelineGraph

/-- The store, and the calls so far. -/
structure SurfaceWorld where
  graph : PipelineGraph
  calls : List CommandRecord := []

/-- A call of the tool, or the writes of other flows. -/
inductive SurfaceEvent where
  | command (call : CommandCall)
  | elsewhere (g : PipelineGraph)

def SurfaceWorld.step (ctx : SurfaceContext) (w : SurfaceWorld) :
    SurfaceEvent → Except Empty SurfaceWorld
  | .command call =>
    match (commandTool ctx call).run w.graph with
    | .ok result g => .ok ⟨g, w.calls ++ [⟨call, w.graph, .ok result, g⟩]⟩
    | .error e g => .ok ⟨g, w.calls ++ [⟨call, w.graph, .error e, g⟩]⟩
  | .elsewhere g => .ok { w with graph := g }

/-- No call is confirmed, and the writes of other flows leave the flags, their answers, the messages
and the stage transitions as they are. -/
def SurfaceWorld.Unconfirmed (w : SurfaceWorld) : SurfaceEvent → Prop
  | .command call => call.Unconfirmed
  | .elsewhere g =>
    (∀ label ∈ [flagLabel, flagResolutionLabel, messageLabel], ∀ key,
      g.getNode label key = w.graph.getNode label key) ∧
    g.listNodes stageTransitionLabel = w.graph.listNodes stageTransitionLabel

/-- Where a run stands: the store is unescalated, each call came to what an unconfirmed one can, and
the transitions changed only if one of them lowered the stage. -/
structure SurfaceWorld.Held (settings : StageSettings) (g : PipelineGraph) (w : SurfaceWorld) :
    Prop where
  store : Unescalated settings g w.graph
  calls : ∀ r ∈ w.calls, CallOutcome settings r.call r.before r.result r.after
  transitions : w.graph.listNodes stageTransitionLabel = g.listNodes stageTransitionLabel ∨
    ∃ r ∈ w.calls, Demoted settings r.call.now r.before r.after

theorem SurfaceWorld.Held.called {settings : StageSettings} {g : PipelineGraph} {w : SurfaceWorld}
    {r : CommandRecord} (h : w.Held settings g) (hbefore : r.before = w.graph)
    (hcall : CallOutcome settings r.call r.before r.result r.after) :
    SurfaceWorld.Held settings g ⟨r.after, w.calls ++ [r]⟩ := by
  refine ⟨h.store.trans (hbefore ▸ hcall.unescalated), fun r' hr => ?_, ?_⟩
  · rcases List.mem_append.mp hr with hold | hnew
    · exact h.calls r' hold
    · rw [List.mem_singleton.mp hnew]
      exact hcall
  · cases hcall with
    | asked hasking _ =>
      rw [hasking.transitions, hbefore]
      rcases h.transitions with hsame | ⟨r', hr, hdemoted⟩
      · exact .inl hsame
      · exact .inr ⟨r', List.mem_append_left _ hr, hdemoted⟩
    | lowered hdemoted _ _ _ _ =>
      exact .inr ⟨r, List.mem_append_right _ List.mem_cons_self, hdemoted⟩

theorem SurfaceWorld.Held.step {ctx : SurfaceContext} {g : PipelineGraph} {w w' : SurfaceWorld}
    {event : SurfaceEvent} (h : w.Held ctx.stage g) (hallowed : w.Unconfirmed event)
    (hstep : w.step ctx event = .ok w') : w'.Held ctx.stage g := by
  cases event with
  | command call =>
    have hends := @ends_commandTool ctx w.graph call w.graph (.refl h.store.written) hallowed
    unfold SurfaceWorld.step at hstep
    dsimp only at hstep
    split at hstep
    · rename_i result g' hrun
      cases hstep
      exact @Held.called _ _ _ ⟨call, w.graph, .ok result, g'⟩ h rfl (hends.of_ok hrun)
    · rename_i e g' hrun
      cases hstep
      exact @Held.called _ _ _ ⟨call, w.graph, .error e, g'⟩ h rfl
        (.of_unanswered (hends.of_error hrun) fun _ => by simp)
  | elsewhere g' =>
    cases hstep
    have haside : Asking ctx.stage w.graph g' := .of_aside h.store.written hallowed.1 hallowed.2
    exact ⟨h.store.trans haside.toUnescalated, h.calls, by
      rw [haside.transitions]
      exact h.transitions⟩

/-- In any run of unconfirmed calls, whatever the model answers short of confirming them itself, and
among the writes of flows that leave the flags, their answers, the messages and the transitions
alone, the stage never rises, no flag is answered and no message is written; the flags that stand
stay, and the new ones ask for a confirmation or an approval.  Each call that is accepted answers a
question or has written the transition to a lower stage, and only such calls change the
transitions. -/
theorem unconfirmed_commands {ctx : SurfaceContext} {g : PipelineGraph} {w : SurfaceWorld}
    (hg : TransitionsWritten g)
    (h : Reach (SurfaceWorld.step ctx) SurfaceWorld.Unconfirmed (fun w => w = ⟨g, []⟩) w) :
    w.Held ctx.stage g := by
  refine Reach.invariant (fun w hw => ?_) (fun w event w' hw hallowed hstep => ?_) h
  · rw [hw]
    exact ⟨(Asking.refl hg).toUnescalated, fun r hr => absurd hr List.not_mem_nil, .inl rfl⟩
  · exact hw.step hallowed hstep

/-- An agent fleet whose evidence is in, set up for the manual live stage. -/
def evidentContext : SurfaceContext where
  operator := ⟨fun s => s, fun _ => none, fun _ => "{}"⟩
  statusSummary := fun _ => "System health is green."
  faultText := fun _ => "stage failed"
  avgApprovalRate := fun _ => 1
  stage := { Execution.threeRuns with stage := .liveManual }
  resumeRun := fun _ _ => Pure.pure (.error "resume placement failed")

/-- A call that the model reads as a family with parameters. -/
def readAs (commandText family : String) (parameters : List (String × ReplyScalar)) :
    SurfaceEvent :=
  let reply : ReplyData := .ofList [("outcome", text "intent"), ("family", text family),
    ("parameters", .object (.ofList parameters) "")]
  .command {
    args := { text := commandText }
    reading := ⟨.object reply, .empty, "2031-03-04"⟩
    explaining := ⟨.malformed, .empty, "2031-03-04"⟩
    words := ""
    now := "2031-03-04" }

/-- The stage is lowered, the way back is asked for and its flag approved, by nobody in so many
words. -/
def shadowCalls : List SurfaceEvent :=
  [readAs "down to shadow" "stage" [("stage", .text "broker_shadow")],
    readAs "and up again" "stage" [("stage", .text "live_manual")],
    readAs "fine by me" "approve" [("target", .text "stage_promote:live_manual")]]

theorem unconfirmed_commands_shadow : ∃ w,
    shadowCalls.foldlM (SurfaceWorld.step evidentContext) ⟨Execution.snapshotWorld.graph, []⟩ =
        .ok w ∧
      currentStageFromGraph w.graph .liveManual = .brokerShadow ∧
      (w.graph.listNodes flagLabel).length = 2 ∧ w.Held evidentContext.stage
        Execution.snapshotWorld.graph := by
  have hrun : Fallible.check
      (fun w : SurfaceWorld => decide (currentStageFromGraph w.graph .liveManual = .brokerShadow ∧
        (w.graph.listNodes flagLabel).length = 2))
      (shadowCalls.foldlM (SurfaceWorld.step evidentContext)
        ⟨Execution.snapshotWorld.graph, []⟩) = true := by
    decide +kernel
  obtain ⟨w, hw, hcheck⟩ := Fallible.check_eq_true.mp hrun
  obtain ⟨hstage, hflags⟩ := of_decide_eq_true hcheck
  have hallowed : ∀ event ∈ shadowCalls, ∀ w, SurfaceWorld.Unconfirmed w event := by
    have hanswer : ∀ commandText family parameters,
        (params (some (.object (.ofList parameters) ""))).get? "confirmed" ≠ some "true" →
        ∀ w, SurfaceWorld.Unconfirmed w (readAs commandText family parameters) := by
      intro commandText family parameters h w
      refine ⟨nofun, fun data hdata => ?_⟩
      cases hdata
      exact h
    intro event hevent
    simp only [shadowCalls, List.mem_cons, List.not_mem_nil, or_false] at hevent
    rcases hevent with rfl | rfl | rfl
    · exact hanswer _ _ _ (by decide +kernel)
    · exact hanswer _ _ _ (by decide +kernel)
    · exact hanswer _ _ _ (by decide +kernel)
  have hreach : Reach (SurfaceWorld.step evidentContext) SurfaceWorld.Unconfirmed
      (fun w => w = ⟨Execution.snapshotWorld.graph, []⟩) w :=
    Reach.of_allowed (.start rfl) hallowed hw
  exact ⟨w, hw, hstage, hflags, unconfirmed_commands (Execution.StageInvariant.start
    Execution.noStageHistory_snapshotWorld).transitions hreach⟩

/-- A model that confirms its own reading of a command needs nobody to confirm it. -/
example : Fallible.check
    (fun w : SurfaceWorld => Execution.promotionResolved w.graph .liveManual)
    ([readAs "down to shadow" "stage" [("stage", .text "broker_shadow")],
      readAs "and up again" "stage" [("stage", .text "live_manual")],
      readAs "fine by me" "approve" [("target", .text "stage_promote:live_manual"),
        ("confirmed", .text "true")]].foldlM (SurfaceWorld.step evidentContext)
      ⟨Execution.snapshotWorld.graph, []⟩) = true := by
  decide +kernel

end TradingAgents.Surfaces
