import TradingAgents.Orchestration.DispatchRuns

/-! Placements that are cut off.  The process of a fire may die, or its store may fail, after any of
the writes of `place_scheduled_run`; later fires find what it left.  The request and its posture are
two writes, and the posture is lost for good where a fire stops between them. -/

namespace TradingAgents.Orchestration

open Kernel ProofKit

/-! ### The writes of a placement -/

section

variable (setup : DispatchSetup) (asOf : Day) (now : Moment)

/-- What the gate writes: the release of a hold, or a new hold. -/
def gateWrites (g : PipelineGraph) : List (Write Document) :=
  let runId := scheduledRunId asOf
  let readiness := fleetReadiness setup g now
  let holds := (setup.backend.listNodes g runHoldLabel).filter fun n => n.get "run_id" = .str runId
  let activeHold := holds.find? isActiveRunHold
  if readiness.state = .ready ∨ readiness.state = .degraded then
    match activeHold with
    | some hold => [.merge runHoldLabel hold.key (releaseProps now)]
    | none => []
  else
    let holdState := if readiness.state = .unknown then .unknown else .failing
    match activeHold with
    | some _ => []
    | none =>
      let holdKey := "hold:" ++ runId
      let nodeKey := if holds.isEmpty then holdKey else holdKey ++ ":" ++ toString holds.length
      [.merge runHoldLabel nodeKey (holdProps runId asOf now holdState readiness)]

/-- What a placement writes after the gate. -/
def readyWrites (g : PipelineGraph) : List (Write Document) :=
  let runId := scheduledRunId asOf
  let readiness := fleetReadiness setup g now
  let tickers := setup.members setup.settings.universeName
  if (readiness.state = .ready ∨ readiness.state = .degraded) ∧ tickers.isEmpty = false then
    .merge runRequestLabel (runRequestKey runId)
        (requestProps runId tickers asOf (setup.requestDefaults asOf)) ::
      if readiness.state = .degraded then
        [.merge runRequestLabel (runRequestKey runId) (postureProps readiness)]
      else []
  else []

/-- The writes of a placement, in order. -/
def placementWrites (g : PipelineGraph) : List (Write Document) :=
  gateWrites setup asOf now g ++ readyWrites setup asOf now g

end

/-- Writes one after the other, up to the first that the store refuses. -/
def writeEach : List (Write Document) → Dispatch PUnit
  | [] => pure ⟨⟩
  | w :: ws => do
    let d ← get
    match d.graph.write w with
    | .ok g =>
      set { d with graph := g }
      writeEach ws
    | .error e => throw (.graph e)

/-! ### Fires that are cut off -/

section

variable (setup : DispatchSetup) (asOf : Day) (now : Moment) (telegram : TelegramReplies)

/-- The part of a fire before it looks for the request of its run. -/
def approach (runId : String) : Dispatch (Option PipelineNode × Option Answer) := do
  let d ← get
  let hold := activeHold setup.backend d.graph runId
  if hold.isSome then pollAnswers setup telegram asOf now else pure ⟨⟩
  let d ← get
  let answer := effectiveAnswer setup.backend d.graph runId
  markAnswer hold answer
  briefSafely runId asOf now telegram.brief
  pure (hold, answer)

/-- A fire that stops in `place_scheduled_run` once so many of its writes went through. -/
def cutFire (writes : Nat) : Dispatch PUnit := do
  let decision ← decideScheduledRun setup.calendar asOf
  if decision.action = .skip then pure ⟨⟩
  else
    let (_, answer) ← approach setup asOf now telegram decision.runId
    let d ← get
    if (alreadyPlaced d.graph decision.runId).isNone ∧ isActionTime now = true ∧ answer = none then
      writeEach ((placementWrites setup asOf now d.graph).take writes)
    else pure ⟨⟩

end

/-- What may come next: a fire of the session, one that is cut off in its placement, or a write of
another program. -/
inductive PlacingMove where
  | fire (now : Moment) (telegram : TelegramReplies)
  | cut (now : Moment) (telegram : TelegramReplies) (writes : Nat)
  | write (w : Write Document)

/-- The moment of a fire. -/
def PlacingMove.now? : PlacingMove → Option Moment
  | fire now _ => some now
  | cut now _ _ => some now
  | write _ => none

def placingStep (setup : DispatchSetup) (asOf : Day) (d : Desk) : PlacingMove → Desk
  | .fire now telegram => deskAfter (dispatchWithHumanAnswer setup asOf now telegram) d
  | .cut now telegram writes => deskAfter (cutFire setup asOf now telegram writes) d
  | .write w =>
    match d.graph.write w with
    | .ok g => { d with graph := g }
    | .error _ => d

def placingStepOk (setup : DispatchSetup) (asOf : Day) (d : Desk) (m : PlacingMove) :
    Except DispatchError Desk :=
  .ok (placingStep setup asOf d m)

/-- Other programs leave the request of the session to its fires. -/
def LeavesRequest (asOf : Day) (_ : Desk) : PlacingMove → Prop
  | .write w => w.node? ≠ some (runRequestLabel, runRequestKey (scheduledRunId asOf))
  | _ => True

/-- The desks that follow a desk. -/
def LaterDesk (setup : DispatchSetup) (asOf : Day) (d : Desk) : Desk → Prop :=
  Reach (placingStepOk setup asOf) (LeavesRequest asOf) (· = d)

/-- A fire whose `place_scheduled_run` writes the run's request on a degraded readiness. -/
structure DegradedPlacement (setup : DispatchSetup) (asOf : Day) (d : Desk) (m : PlacingMove)
    (now : Moment) : Prop where
  fires : m.now? = some now
  new : ¬ Placed d.graph (scheduledRunId asOf)
  placed : Placed (placingStep setup asOf d m).graph (scheduledRunId asOf)
  unanswered : effectiveAnswer setup.backend (placingStep setup asOf d m).graph
    (scheduledRunId asOf) = none
  degraded : (fleetReadiness setup d.graph now).state = .degraded

/-- The request carries the degraded posture and what caused it, and the next fire reports both. -/
structure CarriesPosture (setup : DispatchSetup) (asOf : Day) (failures : List String) (d : Desk) :
    Prop where
  stands : ∃ n, d.graph.getNode runRequestLabel (runRequestKey (scheduledRunId asOf)) = some n ∧
    n.get "run_posture" = .str RunPosture.degraded.value ∧
      n.get "degraded_by" = .list (failures.map .str)
  reported : ∀ now telegram result t,
    dispatchWithHumanAnswer setup asOf now telegram d = .ok result t →
      result.action = .alreadyPlaced ∧ result.runPosture = .degraded ∧ result.failures = failures

/-- The fire stops after all but the last of its placement's writes. -/
def StopsBetween (setup : DispatchSetup) (asOf : Day) (g : PipelineGraph) : PlacingMove → Prop
  | .cut now _ writes => writes + 1 = (placementWrites setup asOf now g).length
  | _ => False

/-! ### What the parts of a fire leave alone -/

/-- What the request of a run says about its posture. -/
def declared (runId : String) (g : PipelineGraph) :
    Option (Option (Value Document) × Option (Value Document)) :=
  (g.getNode runRequestLabel (runRequestKey runId)).map fun n =>
    (n.props.get? "run_posture", n.props.get? "degraded_by")

/-- Nodes of other labels stay, and the request says the same about its posture. -/
structure OnlyLabels (runId : String) (labels : List String) (d t : Desk) : Prop where
  same : ∀ label ∉ labels, Same label d.graph t.graph
  declared : declared runId t.graph = declared runId d.graph

section

variable {setup : DispatchSetup} {asOf : Day} {now : Moment} {telegram : TelegramReplies}
  {runId label key : String} {labels labels' : List String} {d t u : Desk}
  {g g' : PipelineGraph} {n : PipelineNode} {props : Props Document}

theorem placed_iff_declared : Placed g runId ↔ (declared runId g).isSome = true := by
  rw [Placed, declared, Option.isSome_map]

theorem declared_same (h : Same runRequestLabel g g') : declared runId g' = declared runId g := by
  rw [declared, declared, h.node]

/-- A write to a request that stands, which says nothing about the posture. -/
theorem declared_of_merge {m : PipelineNode} (hm : g.getNode runRequestLabel key = some m)
    (h : g.mergeNode runRequestLabel key props = .ok (g', n))
    (hposture : props.get? "run_posture" = none) (hby : props.get? "degraded_by" = none) :
    declared runId g' = declared runId g := by
  rw [declared, declared, getNode_of_merge h]
  split
  · rename_i heq
    rw [heq, hm, Option.map_some, Option.map_some, Graph.mergeNode_get? h, Graph.mergeNode_get? h,
      hposture, hby, hm]
    rfl
  · rfl

theorem declared_of_write {w : Write Document} (h : g.write w = .ok g')
    (hw : w.node? ≠ some (runRequestLabel, runRequestKey runId)) :
    declared runId g' = declared runId g := by
  rw [declared, declared, Graph.getNode_write h hw]

theorem OnlyLabels.refl (runId : String) (labels : List String) (d : Desk) :
    OnlyLabels runId labels d d := ⟨fun label _ => .refl label _, rfl⟩

theorem OnlyLabels.trans (h : OnlyLabels runId labels d t) (h' : OnlyLabels runId labels t u) :
    OnlyLabels runId labels d u :=
  ⟨fun label hl => (h.same label hl).trans (h'.same label hl), h'.declared.trans h.declared⟩

theorem OnlyLabels.mono (h : OnlyLabels runId labels d t) (hle : labels ⊆ labels') :
    OnlyLabels runId labels' d t :=
  ⟨fun label hl => h.same label fun hin => hl (hle hin), h.declared⟩

theorem OnlyLabels.of_graph (h : t.graph = d.graph) : OnlyLabels runId labels d t := by
  refine ⟨fun label _ => ?_, ?_⟩
  · rw [h]
    exact .refl label _
  · rw [h]

/-- A write under a label that is not the request's. -/
theorem OnlyLabels.of_merge {sent : List Sent} {faults : List String}
    (h : d.graph.mergeNode label key props = .ok (g, n)) (hne : label ≠ runRequestLabel) :
    OnlyLabels runId [label] d ⟨g, sent, faults⟩ where
  same := fun _ hother => .of_merge h fun heq => hother (heq ▸ List.mem_singleton_self _)
  declared := declared_same (.of_merge h hne)

/-- A mark on a request that stands. -/
theorem OnlyLabels.of_mark {sent : List Sent} {faults : List String} {m : PipelineNode}
    (hm : d.graph.getNode runRequestLabel key = some m)
    (h : d.graph.mergeNode runRequestLabel key props = .ok (g, n))
    (hposture : props.get? "run_posture" = none) (hby : props.get? "degraded_by" = none) :
    OnlyLabels runId [runRequestLabel] d ⟨g, sent, faults⟩ where
  same := fun _ hother => .of_merge h fun heq => hother (heq ▸ List.mem_singleton_self _)
  declared := declared_of_merge hm h hposture hby

theorem recordAnswer_only (b : Backend) (fact : AnswerFact) :
    Ends (recordAnswer b fact) d (fun _ t => OnlyLabels runId [runHoldAnswerLabel] d t)
      (OnlyLabels runId [runHoldAnswerLabel] d) := by
  refine (recordAnswer_ends b fact d).mono ?_ ?_
  · rintro _ t (rfl | ⟨g, n, hm, rfl⟩)
    · exact .refl _ _ _
    · exact .of_merge hm (by decide)
  · rintro t rfl
    exact .refl _ _ _

theorem pollAnswers_only :
    Ends (pollAnswers setup telegram asOf now) d
      (fun _ t => OnlyLabels runId [runHoldAnswerLabel] d t)
      (OnlyLabels runId [runHoldAnswerLabel] d) := by
  have call : ∀ {α : Type} (call : Except String α) (fallback : α) {t : Desk},
      OnlyLabels runId [runHoldAnswerLabel] d t → Ends (faultSafe call fallback) t
        (fun _ u => OnlyLabels runId [runHoldAnswerLabel] d u)
        (OnlyLabels runId [runHoldAnswerLabel] d) := by
    intro α call fallback t ht
    exact (faultSafe_ends call fallback).mono (fun _ u hu => ht.trans (.of_graph hu.1))
      fun _ hu => hu
  have sent : ∀ (s : Sent) {t : Desk}, OnlyLabels runId [runHoldAnswerLabel] d t →
      Ends (send s) t (fun _ u => OnlyLabels runId [runHoldAnswerLabel] d u)
        (OnlyLabels runId [runHoldAnswerLabel] d) := by
    intro s t ht
    exact (send_ends s).mono (fun _ u hu => ht.trans (.of_graph hu.1)) fun _ hu => hu
  refine Ends.bind (call telegram.polled [] (.refl _ _ _)) fun answers t ht => ?_
  refine Ends.bind (Ends.foldlM (I := fun (_ : Int) t => OnlyLabels runId [runHoldAnswerLabel] d t)
    (fun answer _ highest u hu => ?_) ht) fun highest u hu => ?_
  · refine Ends.bind ((recordAnswer_only setup.backend _).mono (fun _ _ => hu.trans)
      fun _ => hu.trans) fun recorded v hv => ?_
    cases recorded with
    | false => exact Ends.pure hv
    | true =>
      refine Ends.bind (sent _ hv) fun _ w hw => ?_
      exact Ends.bind (call (telegram.acked answer) false hw) fun _ x hx => Ends.pure hx
  · split
    · refine Ends.bind (sent _ hu) fun _ v hv => ?_
      exact Ends.bind (call telegram.confirmed false hv) fun _ w hw => Ends.pure hw
    · exact Ends.pure hu

theorem markAnswer_only (runId : String) (hold : Option PipelineNode) (answer : Option Answer) :
    Ends (markAnswer hold answer) d
      (fun _ t => OnlyLabels runId [runHoldLabel] d t ∧ (answer = none → t = d))
      (OnlyLabels runId [runHoldLabel] d) := by
  unfold markAnswer
  split
  · split
    · refine Ends.bind ((graphMerge_ends _ _ _ d).mono (fun _ _ => id) ?_) ?_
      · rintro _ rfl
        exact .refl _ _ _
      · rintro n _ ⟨g, hm, rfl⟩
        exact Ends.pure ⟨.of_merge hm (by decide), fun heq => by cases heq⟩
    · exact Ends.pure ⟨.refl _ _ _, fun _ => rfl⟩
  · exact Ends.pure ⟨.refl _ _ _, fun _ => rfl⟩

theorem briefSafely_only (brief : Option (Int × String)) {E : Desk → Prop} :
    Ends (briefSafely runId asOf now brief) d (fun _ t => OnlyLabels runId [runRequestLabel] d t)
      E := by
  refine Ends.bind (Ends.get (Q := fun a v => d = a ∧ d = v) ⟨rfl, rfl⟩) ?_
  rintro _ _ ⟨rfl, rfl⟩
  split
  · rename_i request messageId verdict hrequest
    split
    · split
      · rename_i g n hm
        obtain ⟨-, hkey⟩ := Graph.getNode_nodeKey hrequest
        exact OnlyLabels.of_mark (by rw [hkey]; exact hrequest) hm rfl rfl
      · exact OnlyLabels.of_graph rfl
    · exact Ends.pure (.refl _ _ _)
  · exact Ends.pure (.refl _ _ _)

theorem notifyNewHold_only (runId : String) (result : ScheduledDispatchResult) :
    Ends (notifyNewHold setup telegram result now) d
      (fun _ t => OnlyLabels runId [runHoldLabel] d t) (OnlyLabels runId [runHoldLabel] d) :=
  notifyOnce_ends (.refl _ _ _) (fun _ => .of_graph rfl)
    fun _ _ _ _ _ _ hmerge => .of_merge hmerge (by decide)

theorem notifyDegradedRun_only (runId : String) (result : ScheduledDispatchResult) :
    Ends (notifyDegradedRun telegram result now) d
      (fun _ t => OnlyLabels runId [runRequestLabel] d t) (OnlyLabels runId [runRequestLabel] d) :=
  notifyOnce_ends (.refl _ _ _) (fun _ => .of_graph rfl)
    fun _ _ _ _ _ hm hmerge => .of_mark hm hmerge rfl rfl

/-- Before it looks for the request a fire writes answers, marks and the brief, and on a hold only
when the run has an answer. -/
theorem approach_ends :
    Ends (approach setup asOf now telegram runId) d
      (fun r t => OnlyLabels runId dispatchLabels d t ∧
        r.2 = effectiveAnswer setup.backend t.graph runId ∧
        (r.2 = none → Same runHoldLabel d.graph t.graph))
      (OnlyLabels runId dispatchLabels d) := by
  refine Ends.bind (Ends.get (Q := fun a v => d = a ∧ d = v) ⟨rfl, rfl⟩) ?_
  rintro _ _ ⟨rfl, rfl⟩
  have hrest : ∀ t, OnlyLabels runId [runHoldAnswerLabel] d t → Ends (do
      let d' ← get
      let answer := effectiveAnswer setup.backend d'.graph runId
      markAnswer (activeHold setup.backend d.graph runId) answer
      briefSafely runId asOf now telegram.brief
      pure (activeHold setup.backend d.graph runId, answer)) t
      (fun r t => OnlyLabels runId dispatchLabels d t ∧
        r.2 = effectiveAnswer setup.backend t.graph runId ∧
        (r.2 = none → Same runHoldLabel d.graph t.graph))
      (OnlyLabels runId dispatchLabels d) := by
    intro t ht
    have ht' : OnlyLabels runId dispatchLabels d t := ht.mono (by decide)
    refine Ends.bind (Ends.get (Q := fun a v => t = a ∧ t = v) ⟨rfl, rfl⟩) ?_
    rintro _ _ ⟨rfl, rfl⟩
    refine Ends.bind ((markAnswer_only runId _ _).mono (fun _ _ => id) fun u hu => ?_) ?_
    · exact ht'.trans (hu.mono (by decide))
    rintro - u ⟨hu, hstay⟩
    refine Ends.bind (briefSafely_only telegram.brief) fun _ v hv => Ends.pure ?_
    have hanswer : effectiveAnswer setup.backend v.graph runId =
        effectiveAnswer setup.backend t.graph runId := by
      rw [effectiveAnswer_same (hv.same _ (by decide)), effectiveAnswer_same
        (hu.same _ (by decide))]
    refine ⟨ht'.trans ((hu.mono (by decide)).trans (hv.mono (by decide))), hanswer.symm, ?_⟩
    intro hnone
    rw [hstay hnone] at hv
    exact (ht.same _ (by decide)).trans (hv.same _ (by decide))
  dsimp only
  split
  · exact Ends.bind (pollAnswers_only.mono (fun _ _ => id) fun t ht => ht.mono (by decide))
      fun _ t ht => hrest t ht
  · exact hrest d (.refl _ _ _)

end

/-! ### What a placement leaves -/

section

variable {setup : DispatchSetup} {asOf : Day} {now : Moment} {telegram : TelegramReplies}
  {label key : String} {d t u : Desk} {g : PipelineGraph} {n : PipelineNode}
  {props : Props Document} {ws : List (Write Document)} {writes : Nat}

theorem writeEach_merge (h : d.graph.mergeNode label key props = .ok (g, n)) :
    writeEach (.merge label key props :: ws) d = writeEach ws { d with graph := g } := by
  have hw : d.graph.write (.merge label key props) = .ok g := by
    rw [Graph.write, h]
    rfl
  change (match d.graph.write (.merge label key props) with
    | .ok g => (do set { d with graph := g }; writeEach ws : Dispatch PUnit)
    | .error e => throw (DispatchError.graph e)) d = _
  rw [hw]
  rfl

theorem writeEach_refused {e : GraphError} (h : d.graph.mergeNode label key props = .error e) :
    writeEach (.merge label key props :: ws) d = .error (.graph e) d := by
  have hw : d.graph.write (.merge label key props) = .error e := by
    rw [Graph.write, h]
    rfl
  change (match d.graph.write (.merge label key props) with
    | .ok g => (do set { d with graph := g }; writeEach ws : Dispatch PUnit)
    | .error e => throw (DispatchError.graph e)) d = _
  rw [hw]
  rfl

theorem graphMerge_writes (ws : List (Write Document)) :
    Ends (graphMerge label key props) d
      (fun n t => n.key = key ∧ writeEach (.merge label key props :: ws) d = writeEach ws t)
      (fun t => ∃ e, writeEach (.merge label key props :: ws) d = .error e t) := by
  refine Ends.bind (Ends.get (Q := fun a v => d = a ∧ d = v) ⟨rfl, rfl⟩) ?_
  rintro _ _ ⟨rfl, rfl⟩
  cases hm : d.graph.mergeNode label key props with
  | ok r => exact ⟨(Graph.mergeNode_ok hm).2.2.1, writeEach_merge hm⟩
  | error e => exact Ends.throw ⟨_, writeEach_refused hm⟩

/-- The gate makes the writes of its list, and lets a ready or a degraded fleet go on. -/
theorem holdUnreadyRun_writes (ws : List (Write Document)) :
    Ends (holdUnreadyRun setup (scheduledRunId asOf) asOf now (fleetReadiness setup d.graph now)) d
      (fun hold t => writeEach (gateWrites setup asOf now d.graph ++ ws) d = writeEach ws t ∧
        (hold = none ↔ (fleetReadiness setup d.graph now).state = .ready ∨
          (fleetReadiness setup d.graph now).state = .degraded))
      (fun t => ∃ e, writeEach (gateWrites setup asOf now d.graph ++ ws) d = .error e t) := by
  refine Ends.bind (Ends.get (Q := fun a v => d = a ∧ d = v) ⟨rfl, rfl⟩) ?_
  rintro _ _ ⟨rfl, rfl⟩
  unfold gateWrites
  cases hhold : ((setup.backend.listNodes d.graph runHoldLabel).filter fun n =>
      n.get "run_id" = .str (scheduledRunId asOf)).find? isActiveRunHold with
  | some hold =>
    dsimp only
    rw [hhold]
    split
    · rename_i hready
      exact Ends.bind (graphMerge_writes ws) fun _ _ h => Ends.pure ⟨h.2, by simp [hready]⟩
    · rename_i hnot
      exact Ends.pure ⟨rfl, by simp [hnot]⟩
  | none =>
    dsimp only
    rw [hhold]
    split
    · rename_i hready
      exact Ends.pure ⟨rfl, by simp [hready]⟩
    · rename_i hnot
      exact Ends.bind (graphMerge_writes ws) fun _ _ h => Ends.pure ⟨h.2, by simp [hnot]⟩

/-- A placement on a fleet that may run makes the writes of its list. -/
theorem placeReadyRun_writes (reason : String)
    (hready : (fleetReadiness setup g now).state = .ready ∨
      (fleetReadiness setup g now).state = .degraded) :
    Ends (placeReadyRun setup asOf ⟨.place, scheduledRunId asOf, reason⟩
        (fleetReadiness setup g now)) t
      (fun _ u => u = deskAfter (writeEach (readyWrites setup asOf now g)) t)
      (fun u => u = deskAfter (writeEach (readyWrites setup asOf now g)) t) := by
  have hafter : ∀ {ws : List (Write Document)} {u v : Desk}, (writeEach ws u = .ok ⟨⟩ v ∨
      ∃ e, writeEach ws u = .error e v) → v = deskAfter (writeEach ws) u := by
    rintro ws u v (h | ⟨e, h⟩) <;> rw [deskAfter, h]
  unfold placeReadyRun readyWrites
  dsimp only
  by_cases hempty : (setup.members setup.settings.universeName).isEmpty = true
  · rw [if_pos hempty, if_neg fun h => by rw [hempty] at h; cases h.2]
    exact Ends.throw rfl
  · rw [if_neg hempty, if_pos ⟨hready, Bool.eq_false_iff.mpr hempty⟩]
    by_cases hdegraded : (fleetReadiness setup g now).state = .degraded
    · rw [if_pos hdegraded]
      refine Ends.bind ((graphMerge_writes _).mono (fun _ _ => id) fun _ h => hafter (.inr h)) ?_
      rintro m u ⟨hkey, hu⟩
      rw [if_pos hdegraded, hkey]
      refine Ends.bind ((graphMerge_writes []).mono (fun _ _ => id) ?_) ?_
      · rintro v ⟨e, he⟩
        exact hafter (.inr ⟨e, hu.trans he⟩)
      · rintro _ v ⟨-, hv⟩
        exact Ends.pure (hafter (.inl (hu.trans hv)))
    · rw [if_neg hdegraded]
      refine Ends.bind ((graphMerge_writes []).mono (fun _ _ => id) fun _ h => hafter (.inr h)) ?_
      rintro m u ⟨-, hu⟩
      rw [if_neg hdegraded]
      exact Ends.pure (hafter (.inl hu))

/-- What `place_scheduled_run` leaves is what its writes leave. -/
theorem placeScheduledRun_writes (hsession : setup.calendar.isTradingSession asOf = true)
    (hend : asOf ≤ setup.calendar.windowEnd) :
    deskAfter (placeScheduledRun setup asOf now) d =
      deskAfter (writeEach (placementWrites setup asOf now d.graph)) d := by
  refine deskAfter_of_ends
    (P := (· = deskAfter (writeEach (placementWrites setup asOf now d.graph)) d)) ?_
  have hdecide : decideScheduledRun setup.calendar asOf =
      pure ⟨.place, scheduledRunId asOf, "NYSE trading session"⟩ := by
    rw [decideScheduledRun, if_neg (not_not_intro hend), if_pos hsession]
  rw [placeScheduledRun, hdecide, pure_bind, if_neg fun h => by cases h]
  refine Ends.bind (Ends.get (Q := fun a v => d = a ∧ d = v) ⟨rfl, rfl⟩) ?_
  rintro _ _ ⟨rfl, rfl⟩
  refine Ends.bind ((holdUnreadyRun_writes (readyWrites setup asOf now d.graph)).mono
    (fun _ _ => id) ?_) ?_
  · rintro t ⟨e, he⟩
    rw [placementWrites, deskAfter, he]
  rintro hold t ⟨ht, hhold⟩
  rw [deskAfter, placementWrites, ht]
  split
  · rename_i hold
    have hnot : ¬ ((fleetReadiness setup d.graph now).state = .ready ∨
        (fleetReadiness setup d.graph now).state = .degraded) := fun h => by cases hhold.mpr h
    refine Ends.pure ?_
    rw [readyWrites, if_neg fun h => hnot h.1]
    rfl
  · exact placeReadyRun_writes _ (hhold.mp rfl)

/-- The properties that a degraded placement declares. -/
def degradedBy (failures : List String) : Option (Value Document) × Option (Value Document) :=
  (some (.str RunPosture.degraded.value), some (.list (failures.map .str)))

/-- What a placement has left of the request when it stopped after so many of `left` writes: with
all but the last of them the request says nothing. -/
def leftDeclared (left writes : Nat) (failures : List String) :
    Option (Value Document) × Option (Value Document) :=
  if writes + 1 = left then (none, none) else degradedBy failures

theorem posture_free (setup : DispatchSetup) (asOf : Day) (tickers : List String)
    (readiness : Readiness) (name : String) :
    ¬ Graph.Conflicts (requestProps (scheduledRunId asOf) tickers asOf (setup.requestDefaults asOf))
      (postureProps readiness) name := by
  rintro ⟨v, w, hv, hw, -⟩
  rw [postureProps, Dict.ofList, Dict.setAll_cons, Dict.setAll_cons, Dict.setAll_nil,
    Dict.get?_set, Dict.get?_set] at hw
  split at hw
  · subst_vars
    cases hv
  · split at hw
    · subst_vars
      cases hv
    · cases hw

theorem deskAfter_merge (h : d.graph.mergeNode label key props = .ok (g, n)) :
    deskAfter (writeEach (.merge label key props :: ws)) d =
      deskAfter (writeEach ws) { d with graph := g } := by
  rw [deskAfter, writeEach_merge h]
  rfl

theorem deskAfter_refused {e : GraphError} (h : d.graph.mergeNode label key props = .error e) :
    deskAfter (writeEach (.merge label key props :: ws)) d = d := by
  rw [deskAfter, writeEach_refused h]

/-- The two writes of a degraded request, cut off after so many of them. -/
theorem requestWrites_declared (tickers : List String) (readiness : Readiness)
    (hnot : ¬ Placed t.graph (scheduledRunId asOf))
    (hu : u = deskAfter (writeEach ([
      .merge runRequestLabel (runRequestKey (scheduledRunId asOf))
        (requestProps (scheduledRunId asOf) tickers asOf (setup.requestDefaults asOf)),
      .merge runRequestLabel (runRequestKey (scheduledRunId asOf)) (postureProps readiness)].take
        writes)) t)
    (hplaced : Placed u.graph (scheduledRunId asOf)) :
    declared (scheduledRunId asOf) u.graph = some (leftDeclared 2 writes readiness.failures) := by
  have hnone : t.graph.getNode runRequestLabel (runRequestKey (scheduledRunId asOf)) = none :=
    Option.not_isSome_iff_eq_none.mp hnot
  have hrequest := Graph.mergeNode_fresh
    (requestProps (scheduledRunId asOf) tickers asOf (setup.requestDefaults asOf)) hnone
  have hget := getNode_of_merge hrequest (runRequestKey (scheduledRunId asOf))
  rw [if_pos rfl] at hget
  match writes with
  | 0 =>
    rw [hu] at hplaced
    exact absurd hplaced hnot
  | 1 =>
    rw [List.take_succ_cons, List.take_zero, deskAfter_merge hrequest] at hu
    rw [hu]
    change declared _ (Graph.put _ _) = _
    rw [declared, hget]
    rfl
  | writes + 2 =>
    have hposture := Graph.mergeNode_of_noConflict hget rfl
      (posture_free setup asOf tickers readiness)
    rw [List.take_succ_cons, List.take_succ_cons, List.take_nil, deskAfter_merge hrequest,
      deskAfter_merge hposture] at hu
    rw [hu, leftDeclared, if_neg (by omega)]
    change declared _ (Graph.put _ _) = _
    rw [declared, getNode_of_merge hposture, if_pos rfl]
    rfl

/-- What a placement on a degraded readiness leaves of the request it wrote. -/
theorem placement_declared (writes : Nat)
    (hdegraded : (fleetReadiness setup t.graph now).state = .degraded)
    (hnot : ¬ Placed t.graph (scheduledRunId asOf))
    (hu : u = deskAfter (writeEach ((placementWrites setup asOf now t.graph).take writes)) t)
    (hplaced : Placed u.graph (scheduledRunId asOf)) :
    declared (scheduledRunId asOf) u.graph = some (leftDeclared
      (placementWrites setup asOf now t.graph).length writes
        (fleetReadiness setup t.graph now).failures) := by
  have hready : ∀ {t' : Desk} {writes : Nat}, ¬ Placed t'.graph (scheduledRunId asOf) →
      u = deskAfter (writeEach ((readyWrites setup asOf now t.graph).take writes)) t' →
      declared (scheduledRunId asOf) u.graph = some (leftDeclared
        (readyWrites setup asOf now t.graph).length writes
          (fleetReadiness setup t.graph now).failures) := by
    intro t' writes hnot' hu'
    unfold readyWrites at hu' ⊢
    dsimp only at hu' ⊢
    split
    · rename_i hgo
      rw [if_pos hgo, if_pos hdegraded] at hu'
      exact requestWrites_declared _ _ hnot' hu' hplaced
    · rename_i hgo
      rw [if_neg hgo, List.take_nil] at hu'
      rw [hu'] at hplaced
      exact absurd hplaced hnot'
  unfold placementWrites gateWrites at hu ⊢
  dsimp only at hu ⊢
  rw [if_pos (.inr hdegraded)] at hu ⊢
  split
  · rename_i hold hhold
    rw [hhold] at hu
    cases writes with
    | zero =>
      rw [hu] at hplaced
      exact absurd hplaced hnot
    | succ writes =>
      rw [List.cons_append, List.nil_append, List.take_succ_cons] at hu
      cases hm : t.graph.mergeNode runHoldLabel hold.key (releaseProps now) with
      | error e =>
        rw [hu, deskAfter_refused hm] at hplaced
        exact absurd hplaced hnot
      | ok r =>
        rw [deskAfter_merge hm] at hu
        have hsame : Same runRequestLabel t.graph r.1 := .of_merge hm (by decide)
        have := hready (fun hp => hnot ((Placed.of_same hsame).mp hp)) hu
        rw [this, leftDeclared, leftDeclared, List.length_append, List.length_singleton]
        simp only [Nat.add_comm 1, Nat.add_right_cancel_iff]
  · rename_i hhold
    rw [hhold] at hu
    exact hready hnot hu

end

/-! ### Fires -/

/-- The part of a fire from where it looks for the request of its run. -/
def afterApproach (setup : DispatchSetup) (decision : ScheduledDispatchDecision) (asOf : Day)
    (now : Moment) (telegram : TelegramReplies) (hold : Option PipelineNode)
    (answer : Option Answer) : Dispatch ScheduledDispatchResult := do
  let d ← get
  match alreadyPlaced d.graph decision.runId with
  | some placed =>
    if isActionTime now = true ∧ placed.runPosture = .degraded then
      notifyDegradedRun telegram placed now
    else pure ⟨⟩
    pure placed
  | none => placeOrHold setup decision asOf now telegram hold answer

section

variable {setup : DispatchSetup} {asOf : Day} {now : Moment} {telegram : TelegramReplies}
  {d t u : Desk} {g g' : PipelineGraph} {decision : ScheduledDispatchDecision}
  {hold : Option PipelineNode} {answer : Option Answer} {failures : List String}
  {m : PlacingMove} {writes : Nat}

theorem actOnAnswer_eq : actOnAnswer setup decision asOf now telegram hold answer = (do
    markAnswer hold answer
    briefSafely decision.runId asOf now telegram.brief
    afterApproach setup decision asOf now telegram hold answer) := rfl

/-- A fire is its approach and the part after it. -/
theorem dispatch_approach : dispatchWithHumanAnswer setup asOf now telegram = (do
    let decision ← decideScheduledRun setup.calendar asOf
    if decision.action = .skip then
      pure { action := .skipped, runId := decision.runId, reason := decision.reason }
    else
      let r ← approach setup asOf now telegram decision.runId
      afterApproach setup decision asOf now telegram r.1 r.2) := by
  unfold dispatchWithHumanAnswer approach
  refine bind_congr fun decision => ?_
  split
  · rfl
  · rw [bind_assoc]
    refine bind_congr fun d => ?_
    dsimp only
    split <;> simp only [actOnAnswer_eq, bind_assoc, pure_bind]

theorem ends_deskAfter {α : Type} (x : Dispatch α) (d : Desk) :
    Ends x d (fun _ t => t = deskAfter x d) (· = deskAfter x d) := by
  unfold Ends deskAfter
  cases x d <;> rfl

/-- A fire of a run that stands reports its request as it is, and says nothing new about its
posture. -/
theorem afterApproach_placed {n : PipelineNode}
    (hn : t.graph.getNode runRequestLabel (runRequestKey decision.runId) = some n) :
    Ends (afterApproach setup decision asOf now telegram hold answer) t
      (fun result u => OnlyLabels decision.runId [runRequestLabel] t u ∧
        result.action = .alreadyPlaced ∧ result.runPosture = runPosture (some n.props) ∧
        result.failures = if runPosture (some n.props) = .degraded then textsOf n "degraded_by"
          else [])
      (OnlyLabels decision.runId [runRequestLabel] t) := by
  refine Ends.bind (Ends.get (Q := fun a v => t = a ∧ t = v) ⟨rfl, rfl⟩) ?_
  rintro _ _ ⟨rfl, rfl⟩
  rw [alreadyPlaced, hn, Option.map_some]
  dsimp only
  split
  · exact Ends.bind (notifyDegradedRun_only _ _) fun _ u hu => Ends.pure ⟨hu, rfl, rfl, rfl⟩
  · exact Ends.pure ⟨.refl _ _ _, rfl, rfl, rfl⟩

/-- What a fire says of a request that its `place_scheduled_run` wrote on a degraded readiness. -/
def PlacedDegraded (setup : DispatchSetup) (asOf : Day) (now : Moment) (t u : Desk) : Prop :=
  Placed u.graph (scheduledRunId asOf) →
    effectiveAnswer setup.backend u.graph (scheduledRunId asOf) = none →
    (fleetReadiness setup t.graph now).state = .degraded →
    declared (scheduledRunId asOf) u.graph =
      some (degradedBy (fleetReadiness setup t.graph now).failures)

theorem afterApproach_new {reason : String} (hsession : setup.calendar.isTradingSession asOf = true)
    (hend : asOf ≤ setup.calendar.windowEnd) (hnot : ¬ Placed t.graph (scheduledRunId asOf))
    (hanswer : answer = effectiveAnswer setup.backend t.graph (scheduledRunId asOf)) :
    Ends (afterApproach setup ⟨.place, scheduledRunId asOf, reason⟩ asOf now telegram hold answer) t
      (fun _ u => PlacedDegraded setup asOf now t u) (PlacedDegraded setup asOf now t) := by
  have hstay : PlacedDegraded setup asOf now t t := fun hp => absurd hp hnot
  refine Ends.bind (Ends.get (Q := fun a v => t = a ∧ t = v) ⟨rfl, rfl⟩) ?_
  rintro _ _ ⟨rfl, rfl⟩
  rw [alreadyPlaced, Option.not_isSome_iff_eq_none.mp hnot, Option.map_none]
  dsimp only
  unfold placeOrHold
  split
  · exact Ends.pure hstay
  split
  · exact Ends.pure hstay
  · -- an override answers the run, so the request is not the gate's
    refine (placeOverride_ends asOf _).mono (fun _ u hu => ?_) ?_
    · intro _ hnone
      rw [effectiveAnswer_same (hu.1.same _ (by decide)), ← hanswer] at hnone
      cases hnone
    · rintro _ rfl
      exact hstay
  · have hplacing : PlacedDegraded setup asOf now t (deskAfter (placeScheduledRun setup asOf now) t)
        := by
      intro hp _ hdegraded
      rw [placeScheduledRun_writes hsession hend] at hp ⊢
      have hall := placement_declared (placementWrites setup asOf now t.graph).length
        hdegraded hnot rfl (by rw [List.take_length]; exact hp)
      rw [List.take_length] at hall
      rw [hall, leftDeclared, if_neg (by omega)]
    have hkeep : ∀ {u v : Desk} {labels : List String}, PlacedDegraded setup asOf now t u →
        OnlyLabels (scheduledRunId asOf) labels u v → runHoldAnswerLabel ∉ labels →
          PlacedDegraded setup asOf now t v := by
      intro u v labels hu hv hlabel hp hnone hdegraded
      rw [placed_iff_declared, hv.declared, ← placed_iff_declared] at hp
      rw [effectiveAnswer_same (hv.same _ hlabel)] at hnone
      rw [hv.declared]
      exact hu hp hnone hdegraded
    refine Ends.bind ((ends_deskAfter _ t).mono (fun _ _ => id) ?_) fun result u hu => ?_
    · rintro _ rfl
      exact hplacing
    subst hu
    split
    · refine Ends.bind ((notifyNewHold_only (scheduledRunId asOf) result).mono
        (fun _ _ => id) ?_) fun _ v hv => ?_
      · exact fun v hv => hkeep hplacing hv (by decide)
      · exact Ends.pure (hkeep hplacing hv (by decide))
    split
    · refine Ends.bind ((notifyDegradedRun_only (scheduledRunId asOf) result).mono
        (fun _ _ => id) ?_) fun _ v hv => ?_
      · exact fun v hv => hkeep hplacing hv (by decide)
      · exact Ends.pure (hkeep hplacing hv (by decide))
    · exact Ends.pure hplacing

/-- The calendar raises, skips the day, or lets its run be placed. -/
theorem decideScheduledRun_cases (calendar : TradingCalendar) (asOf : Day) :
    (∃ e, decideScheduledRun calendar asOf = throw e) ∨
    (∃ decision : ScheduledDispatchDecision, calendar.isTradingSession asOf = false ∧
      decision.action = .skip ∧ decideScheduledRun calendar asOf = pure decision) ∨
    (calendar.isTradingSession asOf = true ∧ asOf ≤ calendar.windowEnd ∧
      decideScheduledRun calendar asOf =
        pure ⟨.place, scheduledRunId asOf, "NYSE trading session"⟩) := by
  unfold decideScheduledRun
  dsimp only
  split
  · exact .inl ⟨_, rfl⟩
  · rename_i hend
    split
    · rename_i hsession
      exact .inr (.inr ⟨hsession, not_not.mp hend, rfl⟩)
    · rename_i hnot
      exact .inr (.inl ⟨_, Bool.not_eq_true _ ▸ hnot, rfl, rfl⟩)

theorem declared_eq_some {runId : String} {p : Option (Value Document) × Option (Value Document)}
    (h : declared runId g = some p) :
    ∃ n, g.getNode runRequestLabel (runRequestKey runId) = some n ∧
      n.props.get? "run_posture" = p.1 ∧ n.props.get? "degraded_by" = p.2 := by
  obtain ⟨n, hn, rfl⟩ := Option.map_eq_some_iff.mp h
  exact ⟨n, hn, rfl, rfl⟩

/-- A fire of a session whose request stands leaves what it says about its posture, and reports
it. -/
theorem fire_stands (failures : List String)
    {p : Option (Value Document) × Option (Value Document)}
    (hp : declared (scheduledRunId asOf) d.graph = some p) :
    Ends (dispatchWithHumanAnswer setup asOf now telegram) d
      (fun result t => declared (scheduledRunId asOf) t.graph = some p ∧
        (setup.calendar.isTradingSession asOf = true → p = degradedBy failures →
          result.action = .alreadyPlaced ∧ result.runPosture = .degraded ∧
            result.failures = failures))
      (fun t => declared (scheduledRunId asOf) t.graph = some p) := by
  rw [dispatch_approach]
  rcases decideScheduledRun_cases setup.calendar asOf with
    ⟨e, heq⟩ | ⟨decision, hno, hskip, heq⟩ | ⟨hsession, -, heq⟩
  · rw [heq]
    exact Ends.bind (Q := fun _ _ => False) (Ends.throw hp) fun _ _ h => h.elim
  · rw [heq, pure_bind, if_pos hskip]
    refine Ends.pure ⟨hp, fun hsession _ => ?_⟩
    rw [hno] at hsession
    cases hsession
  · rw [heq, pure_bind, if_neg fun h => by cases h]
    refine Ends.bind (approach_ends.mono (fun _ _ => id) fun t ht => ht.declared.trans hp) ?_
    rintro r t ⟨ht, -, -⟩
    obtain ⟨n, hn, hposture, hby⟩ := declared_eq_some (ht.declared.trans hp)
    refine (afterApproach_placed hn).mono ?_ fun u hu => hu.declared.trans (ht.declared.trans hp)
    rintro result u ⟨hu, haction, hresult, hfailures⟩
    refine ⟨hu.declared.trans (ht.declared.trans hp), ?_⟩
    rintro - rfl
    have hdegraded : runPosture (some n.props) = .degraded := by
      rw [runPosture, Props.get, hposture]
      rfl
    rw [hdegraded, if_pos rfl, textsOf, Node.get, Props.get, hby] at hfailures
    refine ⟨haction, hresult.trans hdegraded, hfailures.trans ?_⟩
    exact (List.map_map ..).trans (List.map_id _)

theorem cutFire_stands {p : Option (Value Document) × Option (Value Document)}
    (hp : declared (scheduledRunId asOf) d.graph = some p) :
    Ends (cutFire setup asOf now telegram writes) d
      (fun _ t => declared (scheduledRunId asOf) t.graph = some p)
      (fun t => declared (scheduledRunId asOf) t.graph = some p) := by
  unfold cutFire
  rcases decideScheduledRun_cases setup.calendar asOf with
    ⟨e, heq⟩ | ⟨decision, -, hskip, heq⟩ | ⟨-, -, heq⟩
  · rw [heq]
    exact Ends.bind (Q := fun _ _ => False) (Ends.throw hp) fun _ _ h => h.elim
  · rw [heq, pure_bind, if_pos hskip]
    exact Ends.pure hp
  · rw [heq, pure_bind, if_neg fun h => by cases h]
    refine Ends.bind (approach_ends.mono (fun _ _ => id) fun t ht => ht.declared.trans hp) ?_
    rintro r t ⟨ht, -, -⟩
    obtain ⟨n, hn, -, -⟩ := declared_eq_some (ht.declared.trans hp)
    refine Ends.bind (Ends.get (Q := fun a v => t = a ∧ t = v) ⟨rfl, rfl⟩) ?_
    rintro _ _ ⟨rfl, rfl⟩
    rw [if_neg fun h => by rw [alreadyPlaced, hn] at h; cases h.1]
    exact Ends.pure (ht.declared.trans hp)

/-- What a request that stands says about its posture is never written again. -/
theorem placingStep_stands {p : Option (Value Document) × Option (Value Document)}
    (hp : declared (scheduledRunId asOf) d.graph = some p) (hm : LeavesRequest asOf d m) :
    declared (scheduledRunId asOf) (placingStep setup asOf d m).graph = some p := by
  cases m with
  | fire now telegram =>
    exact deskAfter_of_ends ((fire_stands [] hp).mono (fun _ _ h => h.1) fun _ => id)
  | cut now telegram writes => exact deskAfter_of_ends (cutFire_stands hp)
  | write w =>
    rw [placingStep]
    split
    · rename_i g hw
      exact (declared_of_write hw hm).trans hp
    · exact hp

theorem placementWrites_same (hpreflights : Same fleetPreflightLabel g g')
    (hholds : Same runHoldLabel g g') :
    placementWrites setup asOf now g' = placementWrites setup asOf now g := by
  rw [placementWrites, placementWrites, gateWrites, gateWrites, readyWrites, readyWrites,
    fleetReadiness_same hpreflights, hholds.backend]

theorem OnlyLabels.not_placed {labels : List String}
    (h : OnlyLabels (scheduledRunId asOf) labels d t)
    (hnot : ¬ Placed d.graph (scheduledRunId asOf)) : ¬ Placed t.graph (scheduledRunId asOf) := by
  rw [placed_iff_declared, h.declared, ← placed_iff_declared]
  exact hnot

/-- A fire that writes the request on a degraded readiness leaves its posture. -/
theorem fire_places (setup : DispatchSetup) (now : Moment) (telegram : TelegramReplies)
    (hnot : ¬ Placed d.graph (scheduledRunId asOf)) :
    Ends (dispatchWithHumanAnswer setup asOf now telegram) d
      (fun _ u => PlacedDegraded setup asOf now d u ∧ (Placed u.graph (scheduledRunId asOf) →
        setup.calendar.isTradingSession asOf = true))
      (fun u => PlacedDegraded setup asOf now d u ∧ (Placed u.graph (scheduledRunId asOf) →
        setup.calendar.isTradingSession asOf = true)) := by
  have hstay : ∀ {u}, ¬ Placed u.graph (scheduledRunId asOf) →
      PlacedDegraded setup asOf now d u ∧ (Placed u.graph (scheduledRunId asOf) →
        setup.calendar.isTradingSession asOf = true) :=
    fun hu => ⟨fun hp => absurd hp hu, fun hp => absurd hp hu⟩
  rw [dispatch_approach]
  rcases decideScheduledRun_cases setup.calendar asOf with
    ⟨e, heq⟩ | ⟨decision, -, hskip, heq⟩ | ⟨hsession, hend, heq⟩
  · rw [heq]
    exact Ends.bind (Q := fun _ _ => False) (Ends.throw (hstay hnot)) fun _ _ h => h.elim
  · rw [heq, pure_bind, if_pos hskip]
    exact Ends.pure (hstay hnot)
  · rw [heq, pure_bind, if_neg fun h => by cases h]
    refine Ends.bind (approach_ends.mono (fun _ _ => id) fun t ht => hstay (ht.not_placed hnot)) ?_
    rintro r t ⟨ht, hanswer, -⟩
    have hreadiness : fleetReadiness setup t.graph now = fleetReadiness setup d.graph now :=
      fleetReadiness_same (ht.same fleetPreflightLabel (by decide))
    have hback : ∀ u, PlacedDegraded setup asOf now t u → PlacedDegraded setup asOf now d u := by
      intro u hu
      rw [PlacedDegraded, hreadiness] at hu
      exact hu
    exact (afterApproach_new hsession hend (ht.not_placed hnot) hanswer).mono
      (fun _ u hu => ⟨hback u hu, fun _ => hsession⟩) fun u hu => ⟨hback u hu, fun _ => hsession⟩

/-- A fire that is cut off in its placement on a degraded readiness leaves the posture unless it
stopped right before it. -/
theorem cutFire_places (hnot : ¬ Placed d.graph (scheduledRunId asOf))
    (hdegraded : (fleetReadiness setup d.graph now).state = .degraded)
    (hplaced : Placed (deskAfter (cutFire setup asOf now telegram writes) d).graph
      (scheduledRunId asOf)) :
    setup.calendar.isTradingSession asOf = true ∧
      declared (scheduledRunId asOf) (deskAfter (cutFire setup asOf now telegram writes) d).graph =
        some (leftDeclared (placementWrites setup asOf now d.graph).length writes
          (fleetReadiness setup d.graph now).failures) := by
  revert hplaced
  refine deskAfter_of_ends (P := fun u => Placed u.graph (scheduledRunId asOf) → _ ∧
    declared (scheduledRunId asOf) u.graph = _) ?_
  unfold cutFire
  rcases decideScheduledRun_cases setup.calendar asOf with
    ⟨e, heq⟩ | ⟨decision, -, hskip, heq⟩ | ⟨hsession, -, heq⟩
  · rw [heq]
    exact Ends.bind (Q := fun _ _ => False) (Ends.throw fun hp => absurd hp hnot)
      fun _ _ h => h.elim
  · rw [heq, pure_bind, if_pos hskip]
    exact Ends.pure fun hp => absurd hp hnot
  · rw [heq, pure_bind, if_neg fun h => by cases h]
    refine Ends.bind (approach_ends.mono (fun _ _ => id)
      fun t ht hp => absurd hp (ht.not_placed hnot)) ?_
    rintro r t ⟨ht, hanswer, hholds⟩
    have hnot' := ht.not_placed hnot
    refine Ends.bind (Ends.get (Q := fun a v => t = a ∧ t = v) ⟨rfl, rfl⟩) ?_
    rintro _ _ ⟨rfl, rfl⟩
    split
    · rename_i hgo
      have hpreflights := ht.same fleetPreflightLabel (by decide)
      have hreadiness : fleetReadiness setup t.graph now = fleetReadiness setup d.graph now :=
        fleetReadiness_same hpreflights
      have hwrites : placementWrites setup asOf now t.graph =
          placementWrites setup asOf now d.graph :=
        placementWrites_same hpreflights (hholds hgo.2.2)
      have hleft : ∀ u, u = deskAfter (writeEach ((placementWrites setup asOf now t.graph).take
          writes)) t → Placed u.graph (scheduledRunId asOf) →
          setup.calendar.isTradingSession asOf = true ∧
            declared (scheduledRunId asOf) u.graph =
              some (leftDeclared (placementWrites setup asOf now d.graph).length writes
                (fleetReadiness setup d.graph now).failures) := by
        intro u hu hp
        have hall := placement_declared writes (by rw [hreadiness]; exact hdegraded) hnot' hu hp
        rw [hwrites, hreadiness] at hall
        exact ⟨hsession, hall⟩
      exact (ends_deskAfter _ t).mono (fun _ => hleft) hleft
    · exact Ends.pure fun hp => absurd hp hnot'

/-- What a degraded placement leaves of its request. -/
theorem DegradedPlacement.declared (h : DegradedPlacement setup asOf d m now) :
    setup.calendar.isTradingSession asOf = true ∧
      ∃ p, declared (scheduledRunId asOf) (placingStep setup asOf d m).graph = some p ∧
        (p = degradedBy (fleetReadiness setup d.graph now).failures ↔
          ¬ StopsBetween setup asOf d.graph m) := by
  obtain ⟨hfires, hnew, hplaced, hunanswered, hdegraded⟩ := h
  cases m with
  | fire at' telegram =>
    cases hfires
    have hends := deskAfter_of_ends (fire_places setup now telegram hnew)
    exact ⟨hends.2 hplaced, _, hends.1 hplaced hunanswered hdegraded,
      iff_of_true rfl fun h => h.elim⟩
  | cut at' telegram writes =>
    cases hfires
    obtain ⟨hsession, hleft⟩ := cutFire_places hnew hdegraded hplaced
    refine ⟨hsession, _, hleft, ?_⟩
    rw [leftDeclared, StopsBetween]
    split
    · rename_i hstops
      exact iff_of_false (fun h => by cases h) (not_not_intro hstops)
    · rename_i hgoes
      exact iff_of_true rfl hgoes
  | write w => cases hfires

/-- A run that was placed on a degraded readiness carries its posture in every later state, and
every later fire reports it, exactly when the placing fire did not stop between its two writes. -/
theorem degraded_run_carried_iff (h : DegradedPlacement setup asOf d m now)
    (hlater : LaterDesk setup asOf (placingStep setup asOf d m) t) :
    CarriesPosture setup asOf (fleetReadiness setup d.graph now).failures t ↔
      ¬ StopsBetween setup asOf d.graph m := by
  obtain ⟨hsession, p, hp, hiff⟩ := h.declared
  have hstands : declared (scheduledRunId asOf) t.graph = some p := by
    refine hlater.invariant (P := fun t => declared (scheduledRunId asOf) t.graph = some p) ?_ ?_
    · rintro _ rfl
      exact hp
    · intro s i s' hs hi hok
      cases hok
      exact placingStep_stands hs hi
  rw [← hiff]
  constructor
  · rintro ⟨⟨n, hn, hposture, hby⟩, -⟩
    obtain ⟨n', hn', hfirst, hsecond⟩ := declared_eq_some hstands
    rw [hn] at hn'
    cases hn'
    have hsome : ∀ name v, v ≠ .null → n.get name = v → n.props.get? name = some v := by
      intro name v hv hget
      rw [Node.get, Props.get] at hget
      cases hq : n.props.get? name with
      | none =>
        rw [hq] at hget
        exact absurd hget.symm hv
      | some w =>
        rw [hq] at hget
        exact congrArg some hget
    rw [hsome _ _ (fun h => by cases h) hposture] at hfirst
    rw [hsome _ _ (fun h => by cases h) hby] at hsecond
    exact Prod.ext hfirst.symm hsecond.symm
  · rintro rfl
    obtain ⟨n, hn, hposture, hby⟩ := declared_eq_some hstands
    refine ⟨⟨n, hn, ?_, ?_⟩, ?_⟩
    · rw [Node.get, Props.get, hposture]
      rfl
    · rw [Node.get, Props.get, hby]
      rfl
    · intro at' telegram result u hfire
      exact ((fire_stands _ hstands).of_ok hfire).2 hsession rfl

end

/-- A dispatcher whose fleet has lost its operator agent only. -/
def operatorSetup : DispatchSetup :=
  { sessionSetup with
    degradableAgents := ["operator"]
    fromIso := fun _ => some (Moment.ofClock sessionDay 22 20 0 0).micros }

def operatorOut : PipelineNode where
  label := fleetPreflightLabel
  key := "preflight:1"
  props := .ofList [
    ("checked_at", .str "2026-01-05T22:20:00+00:00"),
    ("passed", .bool false),
    ("failures", .list [.str "unrecoverable:operator:llm:quota"])]

def degradedDesk : Desk := ⟨Graph.empty.put operatorOut, [], []⟩

def firstFire : Moment := .ofClock sessionDay 22 30 5 0

/-- The first fire of the session in full. -/
def fullPlacement : PlacingMove := .fire firstFire quietTelegram

/-- The first fire of the session, which stops between the request and its posture. -/
def tornPlacement : PlacingMove := .cut firstFire quietTelegram 1

/-- The second fire of the session. -/
def secondFire : PlacingMove := .fire (.ofClock sessionDay 22 40 5 0) quietTelegram

theorem fullPlacement_degraded :
    DegradedPlacement operatorSetup sessionDay degradedDesk fullPlacement firstFire := by
  refine ⟨rfl, ?_, ?_, ?_, ?_⟩
  · exact fun h => by cases h
  · unfold Placed
    decide +kernel
  · decide +kernel
  · decide +kernel

theorem tornPlacement_degraded :
    DegradedPlacement operatorSetup sessionDay degradedDesk tornPlacement firstFire := by
  refine ⟨rfl, ?_, ?_, ?_, ?_⟩
  · exact fun h => by cases h
  · unfold Placed
    decide +kernel
  · decide +kernel
  · decide +kernel

/-- A placement that is not cut off is carried through the next fire. -/
theorem fullPlacement_carried : CarriesPosture operatorSetup sessionDay
    ["unrecoverable:operator:llm:quota"]
    (placingStep operatorSetup sessionDay
      (placingStep operatorSetup sessionDay degradedDesk fullPlacement) secondFire) :=
  (degraded_run_carried_iff fullPlacement_degraded
    (.step secondFire (.start rfl) trivial rfl)).mpr fun h => h.elim

/-- After a placement that stopped between its two writes the next fire leaves a normal run. -/
theorem posture_lost : ¬ ∀ d m now t,
    DegradedPlacement operatorSetup sessionDay d m now →
    LaterDesk operatorSetup sessionDay (placingStep operatorSetup sessionDay d m) t →
    CarriesPosture operatorSetup sessionDay
      (fleetReadiness operatorSetup d.graph now).failures t := by
  intro hall
  have hcarried := hall degradedDesk tornPlacement firstFire
    (placingStep operatorSetup sessionDay
      (placingStep operatorSetup sessionDay degradedDesk tornPlacement) secondFire)
    tornPlacement_degraded (.step secondFire (.start rfl) trivial rfl)
  obtain ⟨n, hn, hposture, -⟩ := hcarried.stands
  have hnone : ((placingStep operatorSetup sessionDay
      (placingStep operatorSetup sessionDay degradedDesk tornPlacement) secondFire).graph.getNode
        runRequestLabel (runRequestKey (scheduledRunId sessionDay))).all
          (fun n => decide (n.get "run_posture" = .null)) = true := by decide +kernel
  rw [hn, Option.all_some, decide_eq_true_eq, hposture] at hnone
  cases hnone

end TradingAgents.Orchestration
