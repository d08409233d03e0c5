import TradingAgents.Orchestration.HumanDispatch

/-! What one fire of the dispatcher does.  One invariant says that a run has one active hold at
most, and that an active hold of a placed run has been answered; the other is that of the run's
answers.  Each part of a fire keeps both, wherever it raises. -/

namespace TradingAgents.Orchestration

open Kernel ProofKit

/-! ### Nodes of one label -/

/-- Two graphs have the same nodes of a label, in the same order. -/
structure Same (label : String) (g g' : PipelineGraph) : Prop where
  list : g'.listNodes label = g.listNodes label
  node : ∀ key, g'.getNode label key = g.getNode label key

section

variable {label other key : String} {g g' g'' : PipelineGraph} {n : PipelineNode}
  {props : Props Document}

theorem Same.refl (label : String) (g : PipelineGraph) : Same label g g := ⟨rfl, fun _ => rfl⟩

theorem Same.trans (h : Same label g g') (h' : Same label g' g'') : Same label g g'' :=
  ⟨h'.list.trans h.list, fun key => (h'.node key).trans (h.node key)⟩

theorem Same.backend (h : Same label g g') (b : Backend) :
    b.listNodes g' label = b.listNodes g label := by
  cases b with
  | memory => exact h.list
  | postgres => rw [Backend.listNodes, Backend.listNodes, h.list]

theorem Same.of_merge (h : g.mergeNode other key props = .ok (g', n)) (hne : other ≠ label) :
    Same label g g' := by
  obtain ⟨rfl, hlabel, -⟩ := Graph.mergeNode_ok h
  have hne' : n.label ≠ label := by rw [hlabel]; exact hne
  refine ⟨Graph.listNodes_put_of_ne hne', fun key' => ?_⟩
  rw [Graph.getNode_put, if_neg]
  exact fun heq => hne' heq.1.symm

theorem getNode_of_merge (h : g.mergeNode label key props = .ok (g', n)) (key' : String) :
    g'.getNode label key' = if key' = key then some n else g.getNode label key' := by
  obtain ⟨rfl, hlabel, hkey, -⟩ := Graph.mergeNode_ok h
  simp [hlabel, hkey]

end

/-! ### The holds of a run -/

/-- The request of a run stands. -/
def Placed (g : PipelineGraph) (runId : String) : Prop :=
  (g.getNode runRequestLabel (runRequestKey runId)).isSome = true

/-- The hold `n` of a run is active under `key`. -/
def ActiveHold (g : PipelineGraph) (runId key : String) (n : PipelineNode) : Prop :=
  g.getNode runHoldLabel key = some n ∧ holdsRun runId n = true

def Answered (n : PipelineNode) : Prop := (n.props.get? "answered_with").isSome = true

/-- The invariant of a run's holds. -/
structure HoldsKept (runId : String) (g : PipelineGraph) : Prop where
  single : ∀ key n key' n', ActiveHold g runId key n → ActiveHold g runId key' n' → key = key'
  answered : Placed g runId → ∀ key n, ActiveHold g runId key n → Answered n

section

variable {runId key : String} {g g' : PipelineGraph} {n : PipelineNode} {b : Backend}

theorem ActiveHold.of_same (h : Same runHoldLabel g g') :
    ActiveHold g' runId key n ↔ ActiveHold g runId key n := by
  rw [ActiveHold, ActiveHold, h.node]

theorem HoldsKept.of_same (h : HoldsKept runId g) (hholds : Same runHoldLabel g g')
    (hplaced : Placed g' runId → Placed g runId) : HoldsKept runId g' where
  single := by
    intro key n key' n' hn hn'
    exact h.single key n key' n' ((ActiveHold.of_same hholds).mp hn)
      ((ActiveHold.of_same hholds).mp hn')
  answered := fun hp key n hn => h.answered (hplaced hp) key n ((ActiveHold.of_same hholds).mp hn)

/-- The active hold that a fire finds. -/
theorem activeHold_eq_some (h : activeHold b g runId = some n) : ActiveHold g runId n.key n := by
  have hmem := List.mem_of_find?_eq_some h
  rw [Backend.mem_listNodes] at hmem
  exact ⟨(Graph.mem_listNodes.mp hmem).2, by simpa using List.find?_some h⟩

theorem activeHold_eq_none (h : activeHold b g runId = none) (key : String) (n : PipelineNode) :
    ¬ ActiveHold g runId key n := by
  rintro ⟨hget, hactive⟩
  obtain ⟨hlabel, hkey⟩ := Graph.getNode_nodeKey hget
  have hmem : n ∈ b.listNodes g runHoldLabel :=
    Backend.mem_listNodes.mpr (Graph.mem_listNodes.mpr ⟨hlabel, by rw [hkey]; exact hget⟩)
  exact List.find?_eq_none.mp h n hmem hactive

/-- A write to the active hold that leaves its run, its state and its release as they are. -/
theorem holdsRun_of_merge {props : Props Document}
    (h : g.mergeNode runHoldLabel key props = .ok (g', n)) {m : PipelineNode}
    (hm : g.getNode runHoldLabel key = some m)
    (hprops : ∀ name ∈ ["run_id", "state", "released_at"], props.get? name = none) :
    holdsRun runId n = holdsRun runId m := by
  have hget : ∀ name ∈ ["run_id", "state", "released_at"],
      n.props.get? name = m.props.get? name := by
    intro name hname
    rw [Graph.mergeNode_get? h, hprops name hname, hm]
    rfl
  have hrun : n.get "run_id" = m.get "run_id" :=
    congrArg (·.getD .null) (hget "run_id" (by decide))
  have hstate : n.get "state" = m.get "state" := congrArg (·.getD .null) (hget "state" (by decide))
  rw [holdsRun, holdsRun, isActiveRunHold, isActiveRunHold, hrun, hstate,
    hget "released_at" (by decide)]

/-- Such a write leaves the active holds under their keys, and an answer on a hold stands. -/
theorem active_of_mark {props : Props Document}
    (h : g.mergeNode runHoldLabel key props = .ok (g', n)) {m : PipelineNode}
    (hm : g.getNode runHoldLabel key = some m)
    (hprops : ∀ name ∈ ["run_id", "state", "released_at"], props.get? name = none)
    {key' : String} {n' : PipelineNode} (hn' : ActiveHold g' runId key' n') :
    ∃ m', ActiveHold g runId key' m' ∧ (Answered m' → Answered n') := by
  obtain ⟨hget, hactive⟩ := hn'
  rw [getNode_of_merge h] at hget
  split at hget
  · rename_i heq
    cases hget
    refine ⟨m, ⟨heq ▸ hm, (holdsRun_of_merge h hm hprops).symm.trans hactive⟩, fun ha => ?_⟩
    rw [Answered, Graph.mergeNode_get? h, Option.isSome_or, hm]
    exact Bool.or_eq_true_iff.mpr (.inr ha)
  · exact ⟨n', ⟨hget, hactive⟩, id⟩

theorem HoldsKept.of_active (h : HoldsKept runId g)
    (hactive : ∀ key n, ActiveHold g' runId key n →
      ∃ m, ActiveHold g runId key m ∧ (Answered m → Answered n))
    (hplaced : Placed g' runId → Placed g runId) : HoldsKept runId g' where
  single := by
    intro key n key' n' hn hn'
    obtain ⟨m, hm, -⟩ := hactive key n hn
    obtain ⟨m', hm', -⟩ := hactive key' n' hn'
    exact h.single key m key' m' hm hm'
  answered := by
    intro hp key n hn
    obtain ⟨m, hm, hkeep⟩ := hactive key n hn
    exact hkeep (h.answered (hplaced hp) key m hm)

end

/-! ### The calls to Telegram -/

def Sent.isHoldNotice : Sent → Bool
  | holdNotice _ _ _ => true
  | _ => false

/-- The notices of holds that were sent. -/
def Desk.holdNotices (d : Desk) : List Sent := d.sent.filter Sent.isHoldNotice

section

variable {d t : Desk}

/-- A call to Telegram writes nothing to the graph and never raises. -/
theorem faultSafe_ends {α : Type} (call : Except String α) (fallback : α) {E : Desk → Prop} :
    Ends (faultSafe call fallback) d (fun _ t => t.graph = d.graph ∧ t.sent = d.sent) E := by
  cases call with
  | ok a => exact Ends.pure ⟨rfl, rfl⟩
  | error message => exact Ends.bind (Ends.modify (Q := fun _ t => t.graph = d.graph ∧
      t.sent = d.sent) ⟨rfl, rfl⟩) fun _ t ht => Ends.pure ht

theorem send_ends (s : Sent) {E : Desk → Prop} :
    Ends (send s) d (fun _ t => t.graph = d.graph ∧ t.sent = d.sent ++ [s]) E :=
  Ends.modify ⟨rfl, rfl⟩

theorem holdNotices_append {s : Sent} (hs : s.isHoldNotice = false) (h : t.sent = d.sent ++ [s]) :
    t.holdNotices = d.holdNotices := by
  rw [Desk.holdNotices, h, List.filter_append, List.filter_singleton, hs]
  simp [Desk.holdNotices]

end

/-! ### The poll -/

/-- What a poll leaves. -/
structure Polled (b : Backend) (runId : String) (now : Moment) (d t : Desk) : Prop where
  same : ∀ label ≠ runHoldAnswerLabel, Same label d.graph t.graph
  notices : t.holdNotices = d.holdNotices
  answers : AnswersKept runId now t.graph
  effective : ∀ a, effectiveAnswer b d.graph runId = some a →
    effectiveAnswer b t.graph runId = some a

section

variable {b : Backend} {runId : String} {now : Moment} {d t u : Desk}

theorem Polled.refl (h : AnswersKept runId now d.graph) : Polled b runId now d d :=
  ⟨fun label _ => .refl label _, rfl, h, fun _ ha => ha⟩

theorem Polled.trans (h : Polled b runId now d t) (h' : Polled b runId now t u) :
    Polled b runId now d u where
  same := fun label hne => (h.same label hne).trans (h'.same label hne)
  notices := h'.notices.trans h.notices
  answers := h'.answers
  effective := fun a ha => h'.effective a (h.effective a ha)

/-- What leaves the graph and the notices of holds as they are changes nothing of a poll. -/
theorem Polled.frame (h : Polled b runId now d t) (hgraph : u.graph = t.graph)
    (hnotices : u.holdNotices = t.holdNotices) : Polled b runId now d u := by
  obtain ⟨hsame, hnot, hanswers, heffective⟩ := h
  rw [← hgraph] at hsame hanswers heffective
  exact ⟨hsame, hnotices.trans hnot, hanswers, heffective⟩

/-- A recording that overtakes no answer. -/
theorem recordAnswer_polled {clock : Moment} {fact : AnswerFact}
    (h : AnswersKept runId clock d.graph) (hle : clock ≤ fact.answeredAt)
    (hno : fact.runId = runId → ¬ Overtakes b d.graph fact) :
    Ends (recordAnswer b fact) d (fun _ t => Polled b runId fact.answeredAt d t)
      (fun t => Polled b runId fact.answeredAt d t) := by
  have hnow : AnswersKept runId fact.answeredAt d.graph := h.mono hle rfl h.named
  refine (recordAnswer_ends b fact d).mono ?_ ?_
  · rintro _ t (rfl | ⟨g, n, hm, rfl⟩)
    · exact .refl hnow
    · refine ⟨fun label hne => .of_merge hm (Ne.symm hne), rfl, h.record hle hm, fun a ha => ?_⟩
      exact h.effective_record hle hm hno ha
  · rintro t rfl
    exact .refl hnow

theorem pollAnswers_ends (setup : DispatchSetup) (telegram : TelegramReplies) (asOf : Day)
    (h : AnswersKept runId now d.graph) :
    Ends (pollAnswers setup telegram asOf now) d (fun _ t => Polled setup.backend runId now d t)
      (fun t => Polled setup.backend runId now d t) := by
  have call : ∀ {α : Type} (call : Except String α) (fallback : α) {t : Desk},
      Polled setup.backend runId now d t → Ends (faultSafe call fallback) t
        (fun _ t => Polled setup.backend runId now d t)
        (fun t => Polled setup.backend runId now d t) := by
    intro α call fallback t ht
    refine (faultSafe_ends call fallback).mono (fun _ u hu => ?_) fun _ hu => hu
    exact ht.frame hu.1 (by rw [Desk.holdNotices, Desk.holdNotices, hu.2])
  have sent : ∀ (s : Sent) {t : Desk}, s.isHoldNotice = false →
      Polled setup.backend runId now d t → Ends (send s) t
        (fun _ t => Polled setup.backend runId now d t)
        (fun t => Polled setup.backend runId now d t) := by
    intro s t hs ht
    refine (send_ends s).mono (fun _ u hu => ?_) fun _ hu => hu
    exact ht.frame hu.1 (holdNotices_append hs hu.2)
  refine Ends.bind (call telegram.polled [] (.refl h)) fun answers t ht => ?_
  refine Ends.bind (Ends.foldlM (I := fun (_ : Int) t => Polled setup.backend runId now d t)
    (fun answer _ highest u hu => ?_) ht) fun highest u hu => ?_
  · have hrecord : Ends (recordAnswer setup.backend (answer.fact setup asOf now)) u
        (fun _ v => Polled setup.backend runId now u v) (Polled setup.backend runId now u) :=
      recordAnswer_polled hu.answers (Moment.le_refl now) fun _ hover => by cases hover.2.1
    have hpolled := hrecord.mono (R := fun _ v => Polled setup.backend runId now d v)
      (F := fun v => Polled setup.backend runId now d v) (fun _ _ => hu.trans) fun _ => hu.trans
    refine Ends.bind hpolled fun recorded v hv => ?_
    cases recorded with
    | false => exact Ends.pure hv
    | true =>
      refine Ends.bind (sent _ rfl hv) fun _ w hw => ?_
      exact Ends.bind (call (telegram.acked answer) false hw) fun _ x hx => Ends.pure hx
  · split
    · refine Ends.bind (sent _ rfl hu) fun _ v hv => ?_
      exact Ends.bind (call telegram.confirmed false hv) fun _ w hw => Ends.pure hw
    · exact Ends.pure hu

end

/-! ### What a fire does -/

/-- Whether the fleet may run at a moment. -/
def FleetReady (setup : DispatchSetup) (g : PipelineGraph) (now : Moment) : Prop :=
  (fleetReadiness setup g now).state = .ready ∨ (fleetReadiness setup g now).state = .degraded

/-- What a fire keeps, where it ends, and when it places the run. -/
structure FireEffect (setup : DispatchSetup) (runId : String) (now : Moment) (d t : Desk) :
    Prop where
  answers : AnswersKept runId now t.graph
  effective : ∀ a, effectiveAnswer setup.backend d.graph runId = some a →
    effectiveAnswer setup.backend t.graph runId = some a
  holds : HoldsKept runId t.graph
  after : Placed d.graph runId → Placed t.graph runId ∧ Same runHoldLabel d.graph t.graph ∧
    t.holdNotices = d.holdNotices
  placing : ¬ Placed d.graph runId → Placed t.graph runId → isActionTime now = true ∧
    effectiveAnswer setup.backend t.graph runId ≠ some .skipToday ∧
    (FleetReady setup d.graph now ∨ effectiveAnswer setup.backend t.graph runId = some .runNow)

/-- A fire before it has placed anything. -/
structure Waiting (setup : DispatchSetup) (runId : String) (now : Moment) (d t : Desk) :
    Prop where
  answers : AnswersKept runId now t.graph
  effective : ∀ a, effectiveAnswer setup.backend d.graph runId = some a →
    effectiveAnswer setup.backend t.graph runId = some a
  preflights : Same fleetPreflightLabel d.graph t.graph
  holds : HoldsKept runId t.graph
  placed : Placed t.graph runId ↔ Placed d.graph runId
  frozen : Placed d.graph runId → Same runHoldLabel d.graph t.graph ∧
    t.holdNotices = d.holdNotices

/-- Only requests changed, no request came or went, and no hold was announced. -/
structure OnlyRequests (runId : String) (t u : Desk) : Prop where
  same : ∀ label ≠ runRequestLabel, Same label t.graph u.graph
  placed : Placed u.graph runId ↔ Placed t.graph runId
  notices : u.holdNotices = t.holdNotices

section

variable {setup : DispatchSetup} {runId : String} {now : Moment} {d t u : Desk}
  {g g' : PipelineGraph}

theorem fleetReadiness_same (h : Same fleetPreflightLabel g g') :
    fleetReadiness setup g' now = fleetReadiness setup g now := by
  rw [fleetReadiness, fleetReadiness, h.backend]

theorem effectiveAnswer_same (h : Same runHoldAnswerLabel g g') :
    effectiveAnswer setup.backend g' runId = effectiveAnswer setup.backend g runId := by
  rw [effectiveAnswer, effectiveFact, Backend.first, h.backend]
  rfl

theorem answersOf_same (h : Same runHoldAnswerLabel g g') :
    answersOf g' runId = answersOf g runId := by
  rw [answersOf, answersOf, h.list]

theorem AnswersKept.of_same {clock : Moment} (h : AnswersKept runId clock g)
    (hle : clock ≤ now) (hsame : Same runHoldAnswerLabel g g') : AnswersKept runId now g' := by
  refine h.mono hle (answersOf_same hsame) fun source ordinal n hn => ?_
  rw [hsame.node] at hn
  exact h.named source ordinal n hn

theorem Placed.of_same (h : Same runRequestLabel g g') : Placed g' runId ↔ Placed g runId := by
  rw [Placed, Placed, h.node]

theorem Waiting.effect (h : Waiting setup runId now d t) : FireEffect setup runId now d t where
  answers := h.answers
  effective := h.effective
  holds := h.holds
  after := fun hp => ⟨h.placed.mpr hp, h.frozen hp⟩
  placing := fun hnot hp => absurd (h.placed.mp hp) hnot

theorem Polled.waiting (h : Polled setup.backend runId now d t) (hholds : HoldsKept runId d.graph) :
    Waiting setup runId now d t where
  answers := h.answers
  effective := h.effective
  preflights := h.same _ (by decide)
  holds := hholds.of_same (h.same _ (by decide)) (Placed.of_same (h.same _ (by decide))).mp
  placed := Placed.of_same (h.same _ (by decide))
  frozen := fun _ => ⟨h.same _ (by decide), h.notices⟩

theorem OnlyRequests.refl (runId : String) (t : Desk) : OnlyRequests runId t t :=
  ⟨fun label _ => .refl label _, .rfl, rfl⟩

theorem Waiting.only_requests (h : Waiting setup runId now d t) (hu : OnlyRequests runId t u) :
    Waiting setup runId now d u where
  answers := h.answers.of_same (Moment.le_refl now) (hu.same _ (by decide))
  effective := by
    intro a ha
    rw [effectiveAnswer_same (hu.same _ (by decide))]
    exact h.effective a ha
  preflights := h.preflights.trans (hu.same _ (by decide))
  holds := h.holds.of_same (hu.same _ (by decide)) hu.placed.mp
  placed := hu.placed.trans h.placed
  frozen := fun hp =>
    ⟨(h.frozen hp).1.trans (hu.same _ (by decide)), hu.notices.trans (h.frozen hp).2⟩

theorem FireEffect.only_requests (h : FireEffect setup runId now d t)
    (hu : OnlyRequests runId t u) : FireEffect setup runId now d u where
  answers := h.answers.of_same (Moment.le_refl now) (hu.same _ (by decide))
  effective := by
    intro a ha
    rw [effectiveAnswer_same (hu.same _ (by decide))]
    exact h.effective a ha
  holds := h.holds.of_same (hu.same _ (by decide)) hu.placed.mp
  after := fun hp => ⟨hu.placed.mpr (h.after hp).1,
    (h.after hp).2.1.trans (hu.same _ (by decide)), hu.notices.trans (h.after hp).2.2⟩
  placing := by
    intro hnot hp
    rw [effectiveAnswer_same (hu.same _ (by decide))]
    exact h.placing hnot (hu.placed.mp hp)

/-- A write to a request that stands. -/
theorem OnlyRequests.of_merge {key : String} {props : Props Document} {n m : PipelineNode}
    (hm : t.graph.getNode runRequestLabel key = some m)
    (h : t.graph.mergeNode runRequestLabel key props = .ok (g, n)) {sent : List Sent}
    {faults : List String} (hsent : sent.filter Sent.isHoldNotice = t.holdNotices) :
    OnlyRequests runId t ⟨g, sent, faults⟩ where
  same := fun label hne => .of_merge h (Ne.symm hne)
  placed := by
    rw [Placed, Placed, getNode_of_merge h]
    split
    · rename_i heq
      rw [heq, hm]
      rfl
    · rfl
  notices := hsent

end

/-! ### The parts of a fire -/

/-- Every active hold of the run is answered once there is an answer. -/
def HoldsAnswered (runId : String) (answer : Option Answer) (g : PipelineGraph) : Prop :=
  answer.isSome = true → ∀ key n, ActiveHold g runId key n → Answered n

section

variable {setup : DispatchSetup} {runId : String} {now : Moment} {d t u : Desk}

theorem markAnswer_ends (hp : Polled setup.backend runId now d t) (hholds : HoldsKept runId d.graph)
    (answer : Option Answer) :
    Ends (markAnswer (activeHold setup.backend d.graph runId) answer) t
      (fun _ u => Waiting setup runId now d u ∧ HoldsAnswered runId answer u.graph ∧
        Same runHoldAnswerLabel t.graph u.graph)
      (Waiting setup runId now d) := by
  have hwait := hp.waiting hholds
  have hsame := hp.same runHoldLabel (by decide)
  have hstay : (∀ key n, ActiveHold d.graph runId key n → answer.isSome = true → Answered n) →
      Waiting setup runId now d t ∧ HoldsAnswered runId answer t.graph ∧
        Same runHoldAnswerLabel t.graph t.graph := fun hall =>
    ⟨hwait, fun hsome key n hn => hall key n ((ActiveHold.of_same hsame).mp hn) hsome, .refl _ _⟩
  cases hhold : activeHold setup.backend d.graph runId with
  | none => exact Ends.pure (hstay fun key n hn => absurd hn (activeHold_eq_none hhold key n))
  | some hold =>
    have hactive := activeHold_eq_some hhold
    cases answer with
    | none => exact Ends.pure (hstay fun _ _ _ hsome => by cases hsome)
    | some answer =>
      change Ends (if (hold.props.get? "answered_with").isNone then _ else _) _ _ _
      split
      · rename_i hnone
        refine Ends.bind ((graphMerge_ends _ _ _ t).mono (fun _ _ => id) ?_) ?_
        · rintro _ rfl
          exact hwait
        · rintro n _ ⟨g, hm, rfl⟩
          have hget : t.graph.getNode runHoldLabel hold.key = some hold := by
            rw [hsame.node]
            exact hactive.1
          have hmark : ∀ key n, ActiveHold g runId key n →
              ∃ m, ActiveHold t.graph runId key m ∧ (Answered m → Answered n) :=
            fun key n hn => active_of_mark hm hget (by cases answer <;> decide) hn
          have hplaced : Placed g runId ↔ Placed t.graph runId :=
            Placed.of_same (.of_merge hm (by decide))
          refine Ends.pure ⟨⟨?_, ?_, ?_, ?_, ?_, ?_⟩, ?_, ?_⟩
          · exact hwait.answers.of_same (Moment.le_refl now) (.of_merge hm (by decide))
          · intro a ha
            rw [effectiveAnswer_same (.of_merge hm (by decide))]
            exact hwait.effective a ha
          · exact hwait.preflights.trans (.of_merge hm (by decide))
          · exact hwait.holds.of_active hmark hplaced.mp
          · exact hplaced.trans hwait.placed
          · -- the active hold of a placed run was answered before
            intro hp'
            have := hholds.answered hp' _ _ hactive
            rw [Answered, ← Option.not_isNone, hnone] at this
            cases this
          · -- the hold that was marked is the only active one
            intro _ key n' hn'
            obtain ⟨m, hm', -⟩ := hmark key n' hn'
            have hkey : key = hold.key := hholds.single _ m _ hold
              ((ActiveHold.of_same hsame).mp hm') hactive
            have hget' := hn'.1
            rw [getNode_of_merge hm, if_pos hkey] at hget'
            cases hget'
            rw [Answered, Graph.mergeNode_get? hm]
            rfl
          · exact .of_merge hm (by decide)
      · rename_i hanswered
        refine Ends.pure (hstay fun key n hn _ => ?_)
        have hkey := hholds.single _ n _ hold hn hactive
        have heq := hn.1.symm.trans (hkey ▸ hactive.1)
        cases heq
        exact Option.isSome_iff_ne_none.mpr fun hnone => hanswered (by rw [hnone]; rfl)

theorem briefSafely_ends (asOf : Day) (brief : Option (Int × String)) {E : Desk → Prop} :
    Ends (briefSafely runId asOf now brief) t (fun _ u => OnlyRequests runId t u) E := by
  refine Ends.bind (Ends.get (Q := fun a v => a = t ∧ v = t) ⟨rfl, rfl⟩) ?_
  rintro _ _ ⟨rfl, rfl⟩
  split
  · rename_i a request messageId verdict hrequest
    split
    · split
      · rename_i g n hm
        obtain ⟨-, hkey⟩ := Graph.getNode_nodeKey hrequest
        exact OnlyRequests.of_merge (by rw [hkey]; exact hrequest) hm rfl
      · exact ⟨fun label _ => .refl label _, .rfl, rfl⟩
    · exact Ends.pure (.refl _ _)
  · exact Ends.pure (.refl _ _)

/-- A notice is sent at most, and its mark left on a node that stands. -/
theorem notifyOnce_ends {label key markName : String} {notice : Sent}
    {reply : Except String (Option Int)} {mark : Int → Props Document} {Q : Desk → Prop}
    (hstay : Q t)
    (hsent : ∀ faults, Q ⟨t.graph, t.sent ++ [notice], faults⟩)
    (hmark : ∀ messageId n m g faults, t.graph.getNode label key = some m →
      t.graph.mergeNode label key (mark messageId) = .ok (g, n) →
        Q ⟨g, t.sent ++ [notice], faults⟩) :
    Ends (notifyOnce label key markName notice reply mark) t (fun _ u => Q u) Q := by
  refine Ends.bind (Ends.get (Q := fun a v => a = t ∧ v = t) ⟨rfl, rfl⟩) ?_
  rintro _ _ ⟨rfl, rfl⟩
  split
  · exact Ends.pure hstay
  · rename_i m hm
    obtain ⟨-, hkey⟩ := Graph.getNode_nodeKey hm
    split
    · refine Ends.bind (send_ends notice) fun _ u hu => ?_
      refine Ends.bind (faultSafe_ends reply none) fun messageId v hv => ?_
      obtain ⟨g', sent', faults'⟩ := v
      obtain ⟨hgraph, hlist⟩ : g' = _ ∧ sent' = _ := ⟨hv.1.trans hu.1, hv.2.trans hu.2⟩
      subst hgraph hlist
      cases messageId with
      | none => exact Ends.pure (hsent faults')
      | some messageId =>
        refine Ends.bind ((graphMerge_ends _ _ _ _).mono (fun _ _ => id) ?_) ?_
        · rintro _ rfl
          exact hsent faults'
        · rintro n _ ⟨g, hmerge, rfl⟩
          rw [hkey] at hmerge
          exact Ends.pure (hmark messageId n m g faults' hm hmerge)
    · exact Ends.pure hstay

theorem notifyDegradedRun_ends (telegram : TelegramReplies) (result : ScheduledDispatchResult) :
    Ends (notifyDegradedRun telegram result now) t (fun _ u => OnlyRequests runId t u)
      (OnlyRequests runId t) := by
  have hnotices : (t.sent ++ [Sent.degradedNotice result.runId result.failures]).filter
      Sent.isHoldNotice = t.holdNotices := by
    rw [List.filter_append]
    simp [Desk.holdNotices, Sent.isHoldNotice]
  refine notifyOnce_ends (.refl _ _) (fun faults => ?_) fun messageId n m g faults hm hmerge => ?_
  · exact ⟨fun label _ => .refl label _, .rfl, hnotices⟩
  · exact OnlyRequests.of_merge hm hmerge hnotices

/-- Only holds changed. -/
structure OnlyHolds (runId : String) (t u : Desk) : Prop where
  same : ∀ label ≠ runHoldLabel, Same label t.graph u.graph
  holds : HoldsKept runId u.graph

/-- A hold that is written while none is active is the only active one. -/
theorem single_of_new {key₀ : String} {props : Props Document} {n₀ : PipelineNode}
    {g g' : PipelineGraph} (hm : g.mergeNode runHoldLabel key₀ props = .ok (g', n₀))
    (hnone : ∀ key n, ¬ ActiveHold g runId key n) (key : String) (n : PipelineNode) (key' : String)
    (n' : PipelineNode) (h : ActiveHold g' runId key n) (h' : ActiveHold g' runId key' n') :
    key = key' := by
  have hkey : ∀ key n, ActiveHold g' runId key n → key = key₀ := by
    rintro key n ⟨hget, hactive⟩
    rw [getNode_of_merge hm] at hget
    split at hget
    · assumption
    · exact absurd ⟨hget, hactive⟩ (hnone key n)
  exact (hkey key n h).trans (hkey key' n' h').symm

/-- The gate releases the hold of a run that may go, and keeps or writes one for a run that may
not. -/
theorem holdUnreadyRun_ends (asOf : Day) (readiness : Readiness) (hholds : HoldsKept runId t.graph)
    (hnot : ¬ Placed t.graph runId) :
    Ends (holdUnreadyRun setup runId asOf now readiness) t
      (fun hold u => OnlyHolds runId t u ∧ (hold = none →
        (readiness.state = .ready ∨ readiness.state = .degraded) ∧
          ∀ key n, ¬ ActiveHold u.graph runId key n))
      (OnlyHolds runId t) := by
  have hstay : OnlyHolds runId t t := ⟨fun label _ => .refl label _, hholds⟩
  refine Ends.bind (Ends.get (Q := fun a v => t = a ∧ t = v) ⟨rfl, rfl⟩) ?_
  rintro _ _ ⟨rfl, rfl⟩
  have hfind : ((setup.backend.listNodes t.graph runHoldLabel).filter fun n =>
      n.get "run_id" = .str runId).find? isActiveRunHold =
        activeHold setup.backend t.graph runId := by
    rw [List.find?_filter, activeHold]
    congr 1
    funext n
    simp only [holdsRun, decide_eq_true_eq, Bool.decide_and, Bool.decide_eq_true]
  have hmerge : ∀ {key : String} {props : Props Document} {n : PipelineNode} {g : PipelineGraph}
      {sent : List Sent} {faults : List String},
      t.graph.mergeNode runHoldLabel key props = .ok (g, n) →
      (∀ key n key' n', ActiveHold g runId key n → ActiveHold g runId key' n' → key = key') →
        OnlyHolds runId t ⟨g, sent, faults⟩ := by
    intro key props n g sent faults hm hsingle
    have hsame : Same runRequestLabel t.graph g := .of_merge hm (by decide)
    exact ⟨fun label hne => .of_merge hm (Ne.symm hne), hsingle,
      fun hp => absurd ((Placed.of_same hsame).mp hp) hnot⟩
  dsimp only
  rw [hfind]
  split
  · rename_i hready
    cases hhold : activeHold setup.backend t.graph runId with
    | none => exact Ends.pure ⟨hstay, fun _ => ⟨hready, activeHold_eq_none hhold⟩⟩
    | some hold =>
      have hactive := activeHold_eq_some hhold
      refine Ends.bind ((graphMerge_ends _ _ _ t).mono (fun _ _ => id) ?_) ?_
      · rintro _ rfl
        exact hstay
      · rintro n _ ⟨g, hm, rfl⟩
        -- the released hold was the only active one
        have hnone : ∀ key m, ¬ ActiveHold g runId key m := by
          rintro key m ⟨hget, hm'⟩
          rw [getNode_of_merge hm] at hget
          split at hget
          · cases hget
            have hreleased : (n.props.get? "released_at").isNone = false := by
              rw [Graph.mergeNode_get? hm]
              rfl
            rw [holdsRun, isActiveRunHold, hreleased, Bool.and_false, Bool.and_false] at hm'
            cases hm'
          · rename_i hne
            exact hne (hholds.single key m _ hold ⟨hget, hm'⟩ hactive)
        exact Ends.pure ⟨hmerge hm fun key m _ _ h => absurd h (hnone key m),
          fun _ => ⟨hready, hnone⟩⟩
  · cases hhold : activeHold setup.backend t.graph runId with
    | some hold => exact Ends.pure ⟨hstay, fun h => by cases h⟩
    | none =>
      refine Ends.bind ((graphMerge_ends _ _ _ t).mono (fun _ _ => id) ?_) ?_
      · rintro _ rfl
        exact hstay
      · rintro n _ ⟨g, hm, rfl⟩
        -- no other hold was active
        exact Ends.pure ⟨hmerge hm (single_of_new hm (activeHold_eq_none hhold)),
          fun h => by cases h⟩

/-- Where a placement ends: the request stands, or nothing was written. -/
structure Requested (t u : Desk) : Prop where
  same : ∀ label ≠ runRequestLabel, Same label t.graph u.graph
  notices : u.holdNotices = t.holdNotices

theorem placeRunRequest_ends (tickers : List String) (asOf : Day) :
    Ends (placeRunRequest setup runId tickers asOf) t
      (fun n u => Requested t u ∧ Placed u.graph runId ∧ n.key = runRequestKey runId)
      (fun u => u = t) := by
  refine (graphMerge_ends _ _ _ t).mono ?_ fun _ => id
  rintro n _ ⟨g, hm, rfl⟩
  obtain ⟨-, -, hkey, -⟩ := Graph.mergeNode_ok hm
  refine ⟨⟨fun label hne => .of_merge hm (Ne.symm hne), rfl⟩, ?_, hkey⟩
  rw [Placed, getNode_of_merge hm, if_pos rfl]
  rfl

theorem placeOverride_ends (asOf : Day) (reason : String) :
    Ends (placeOverride setup runId asOf reason) t
      (fun _ u => Requested t u ∧ Placed u.graph runId) (fun u => u = t) := by
  unfold placeOverride
  dsimp only
  split
  · exact Ends.throw rfl
  · exact Ends.bind (placeRunRequest_ends _ asOf) fun n u hu => Ends.pure ⟨hu.1, hu.2.1⟩

theorem placeReadyRun_ends (asOf : Day) (reason : String) (readiness : Readiness) :
    Ends (placeReadyRun setup asOf ⟨.place, runId, reason⟩ readiness) t
      (fun result u => result.action = .placed ∧ Requested t u ∧ Placed u.graph runId)
      (Requested t) := by
  have hstay : Requested t t := ⟨fun label _ => .refl label _, rfl⟩
  unfold placeReadyRun
  dsimp only
  split
  · exact Ends.throw hstay
  · refine Ends.bind ((placeRunRequest_ends _ asOf).mono (fun _ _ => id) ?_) ?_
    · rintro _ rfl
      exact hstay
    rintro n u ⟨hu, hplaced, hkey⟩
    split
    · refine Ends.bind ((graphMerge_ends _ _ _ u).mono (fun _ _ => id) ?_) ?_
      · rintro _ rfl
        exact hu
      · rintro m _ ⟨g, hm, rfl⟩
        refine Ends.pure ⟨rfl, ⟨fun label hne => ?_, hu.notices⟩, ?_⟩
        · exact (hu.same label hne).trans (.of_merge hm (Ne.symm hne))
        · rw [Placed, getNode_of_merge hm, hkey, if_pos rfl]
          rfl
    · exact Ends.pure ⟨rfl, hu, hplaced⟩

/-- A placement keeps what a fire keeps when the run was not placed before, its active holds are
answered and the fire may place it. -/
theorem Waiting.requested {answer : Option Answer} (h : Waiting setup runId now d t)
    (hu : Requested t u) (hnot : ¬ Placed d.graph runId)
    (hanswered : ∀ key n, ActiveHold t.graph runId key n → Answered n)
    (hanswer : effectiveAnswer setup.backend t.graph runId = answer)
    (hmay : isActionTime now = true ∧ answer ≠ some .skipToday ∧
      (FleetReady setup d.graph now ∨ answer = some .runNow)) :
    FireEffect setup runId now d u where
  answers := h.answers.of_same (Moment.le_refl now) (hu.same _ (by decide))
  effective := by
    intro a ha
    rw [effectiveAnswer_same (hu.same _ (by decide))]
    exact h.effective a ha
  holds := by
    have hsame := hu.same runHoldLabel (by decide)
    refine ⟨?_, fun _ key n hn => hanswered key n ((ActiveHold.of_same hsame).mp hn)⟩
    intro key n key' n' hn hn'
    exact h.holds.single key n key' n' ((ActiveHold.of_same hsame).mp hn)
      ((ActiveHold.of_same hsame).mp hn')
  after := fun hp => absurd hp hnot
  placing := by
    intro _ _
    rw [effectiveAnswer_same (hu.same _ (by decide)), hanswer]
    exact hmay

/-- Before a run is placed its holds may change. -/
theorem Waiting.only_holds (h : Waiting setup runId now d t) (hu : OnlyHolds runId t u)
    (hnot : ¬ Placed d.graph runId) : Waiting setup runId now d u where
  answers := h.answers.of_same (Moment.le_refl now) (hu.same _ (by decide))
  effective := by
    intro a ha
    rw [effectiveAnswer_same (hu.same _ (by decide))]
    exact h.effective a ha
  preflights := h.preflights.trans (hu.same _ (by decide))
  holds := hu.holds
  placed := (Placed.of_same (hu.same _ (by decide))).trans h.placed
  frozen := fun hp => absurd hp hnot

theorem notifyNewHold_ends (telegram : TelegramReplies) (result : ScheduledDispatchResult)
    (h : Waiting setup runId now d t) (hnot : ¬ Placed d.graph runId) :
    Ends (notifyNewHold setup telegram result now) t (fun _ u => Waiting setup runId now d u)
      (Waiting setup runId now d) := by
  refine notifyOnce_ends h (fun faults => ?_) fun messageId n m g faults hm hmerge => ?_
  · exact h.only_holds ⟨fun label _ => .refl label _, h.holds⟩ hnot
  · refine h.only_holds ⟨fun label hne => .of_merge hmerge (Ne.symm hne), ?_⟩ hnot
    refine h.holds.of_active (fun key n hn => active_of_mark hmerge hm ?_ hn)
      (Placed.of_same (.of_merge hmerge (by decide))).mp
    intro name hname
    have hnames : ∀ name ∈ ["run_id", "state", "released_at"],
        name ≠ "notified_at" ∧ name ≠ "notice_message_id" := by decide
    obtain ⟨hnotified, hmessage⟩ := hnames name hname
    rw [noticeProps, Dict.ofList, Dict.setAll_cons, Dict.setAll_cons, Dict.setAll_nil,
      Dict.get?_set_ne _ _ hmessage, Dict.get?_set_ne _ _ hnotified, Dict.get?_empty]

theorem decideScheduledRun_ends (calendar : TradingCalendar) (asOf : Day) :
    Ends (decideScheduledRun calendar asOf) t
      (fun decision u => t = u ∧ (decision.action = .skip ∨
        decision = ⟨.place, scheduledRunId asOf, "NYSE trading session"⟩))
      (fun u => u = t) := by
  unfold decideScheduledRun
  dsimp only
  split
  · exact Ends.throw rfl
  · split
    · exact Ends.pure ⟨rfl, .inr rfl⟩
    · exact Ends.pure ⟨rfl, .inl rfl⟩

/-- A fire with its result: a fire that says it placed the run is the one that did. -/
structure FireResult (setup : DispatchSetup) (runId : String) (now : Moment) (d : Desk)
    (result : ScheduledDispatchResult) (t : Desk) : Prop where
  effect : FireEffect setup runId now d t
  placed : result.action = .placed → ¬ Placed d.graph runId ∧ Placed t.graph runId

theorem placeScheduledRun_ends {asOf : Day} (h : Waiting setup (scheduledRunId asOf) now d t)
    (hnot : ¬ Placed d.graph (scheduledRunId asOf)) (htime : isActionTime now = true)
    (hanswer : effectiveAnswer setup.backend t.graph (scheduledRunId asOf) = none) :
    Ends (placeScheduledRun setup asOf now) t
      (fun result u => (result.action ≠ .placed ∧ Waiting setup (scheduledRunId asOf) now d u) ∨
        result.action = .placed ∧ FireEffect setup (scheduledRunId asOf) now d u ∧
          Placed u.graph (scheduledRunId asOf))
      (FireEffect setup (scheduledRunId asOf) now d) := by
  refine Ends.bind ((decideScheduledRun_ends _ asOf).mono (fun _ _ => id) ?_) ?_
  · rintro _ rfl
    exact h.effect
  rintro decision _ ⟨rfl, hdecision⟩
  rcases hdecision with hskip | rfl
  · rw [if_pos hskip]
    exact Ends.pure (.inl ⟨(fun heq => by cases heq), h⟩)
  rw [if_neg fun h => by cases h]
  refine Ends.bind (Ends.get (Q := fun a v => t = a ∧ t = v) ⟨rfl, rfl⟩) ?_
  rintro _ _ ⟨rfl, rfl⟩
  have hnot' : ¬ Placed t.graph (scheduledRunId asOf) := fun hp => hnot (h.placed.mp hp)
  refine Ends.bind ((holdUnreadyRun_ends asOf _ h.holds hnot').mono (fun _ _ => id) ?_) ?_
  · exact fun u hu => (h.only_holds hu hnot).effect
  rintro hold u ⟨hu, hgo⟩
  have hwait := h.only_holds hu hnot
  cases hold with
  | some hold => exact Ends.pure (.inl ⟨(fun heq => by cases heq), hwait⟩)
  | none =>
    obtain ⟨hready, hnone⟩ := hgo rfl
    rw [fleetReadiness_same h.preflights] at hready
    have hanswer' : effectiveAnswer setup.backend u.graph (scheduledRunId asOf) = none := by
      rw [effectiveAnswer_same (hu.same _ (by decide)), hanswer]
    have heffect : ∀ v, Requested u v → FireEffect setup (scheduledRunId asOf) now d v :=
      fun v hv => hwait.requested hv hnot (fun key n hn => absurd hn (hnone key n)) hanswer'
        ⟨htime, by decide, .inl hready⟩
    refine (placeReadyRun_ends asOf _ _).mono (fun result v hv => ?_) heffect
    exact .inr ⟨hv.1, heffect v hv.2.1, hv.2.2⟩

theorem outsideWindow_action (runId : String) (now : Moment) (hold : Option PipelineNode) :
    (outsideWindow runId now hold).action ≠ .placed := by
  cases hold <;> exact fun h => by cases h

theorem placeOrHold_ends {asOf : Day} {decision : ScheduledDispatchDecision}
    {telegram : TelegramReplies} {hold : Option PipelineNode} {answer : Option Answer}
    (hrun : decision.runId = scheduledRunId asOf)
    (h : Waiting setup (scheduledRunId asOf) now d t)
    (hnot : ¬ Placed d.graph (scheduledRunId asOf))
    (hanswered : HoldsAnswered (scheduledRunId asOf) answer t.graph)
    (hanswer : effectiveAnswer setup.backend t.graph (scheduledRunId asOf) = answer) :
    Ends (placeOrHold setup decision asOf now telegram hold answer) t
      (FireResult setup (scheduledRunId asOf) now d)
      (FireEffect setup (scheduledRunId asOf) now d) := by
  unfold placeOrHold
  split
  · exact Ends.pure ⟨h.effect, fun hplaced => absurd hplaced (outsideWindow_action _ now hold)⟩
  rename_i htime
  rw [Bool.not_eq_false] at htime
  split
  · exact Ends.pure ⟨h.effect, fun hplaced => by cases hplaced⟩
  · -- a human says that the run goes
    rw [hrun]
    refine (placeOverride_ends asOf _).mono (fun result u hu => ⟨?_, fun _ => ⟨hnot, hu.2⟩⟩) ?_
    · exact h.requested hu.1 hnot (hanswered rfl) hanswer ⟨htime, by decide, .inr rfl⟩
    · rintro _ rfl
      exact h.effect
  · refine Ends.bind (placeScheduledRun_ends h hnot htime hanswer) fun result u hu => ?_
    rcases hu with ⟨hact, hwait⟩ | ⟨hact, heffect, hplaced⟩
    · split
      · refine Ends.bind ((notifyNewHold_ends telegram result hwait hnot).mono (fun _ _ => id)
          fun _ => Waiting.effect) fun _ v hv => ?_
        exact Ends.pure ⟨hv.effect, fun hplaced => absurd hplaced hact⟩
      · rw [if_neg fun hboth => hact hboth.1]
        exact Ends.pure ⟨hwait.effect, fun hplaced => absurd hplaced hact⟩
    · rw [if_neg (by rw [hact]; decide)]
      split
      · refine Ends.bind ((notifyDegradedRun_ends telegram result).mono (fun _ _ => id)
          fun v hv => heffect.only_requests hv) fun _ v hv => ?_
        exact Ends.pure ⟨heffect.only_requests hv, fun _ => ⟨hnot, hv.placed.mpr hplaced⟩⟩
      · exact Ends.pure ⟨heffect, fun _ => ⟨hnot, hplaced⟩⟩

theorem actOnAnswer_ends {asOf : Day} {decision : ScheduledDispatchDecision}
    (telegram : TelegramReplies) (hrun : decision.runId = scheduledRunId asOf)
    (hp : Polled setup.backend (scheduledRunId asOf) now d t)
    (hholds : HoldsKept (scheduledRunId asOf) d.graph) :
    Ends (actOnAnswer setup decision asOf now telegram
        (activeHold setup.backend d.graph (scheduledRunId asOf))
        (effectiveAnswer setup.backend t.graph (scheduledRunId asOf))) t
      (FireResult setup (scheduledRunId asOf) now d)
      (FireEffect setup (scheduledRunId asOf) now d) := by
  refine Ends.bind ((markAnswer_ends hp hholds _).mono (fun _ _ => id) fun _ => Waiting.effect) ?_
  rintro - u ⟨hwait, hanswered, hsame⟩
  rw [hrun]
  refine Ends.bind (briefSafely_ends asOf telegram.brief) fun _ v hv => ?_
  have hwait' := hwait.only_requests hv
  have hanswer : effectiveAnswer setup.backend v.graph (scheduledRunId asOf) =
      effectiveAnswer setup.backend t.graph (scheduledRunId asOf) := by
    rw [effectiveAnswer_same (hv.same _ (by decide)), effectiveAnswer_same hsame]
  have hanswered' : HoldsAnswered (scheduledRunId asOf)
      (effectiveAnswer setup.backend t.graph (scheduledRunId asOf)) v.graph :=
    fun hsome key n hn => hanswered hsome key n ((ActiveHold.of_same (hv.same _ (by decide))).mp hn)
  refine Ends.bind (Ends.get (Q := fun a w => v = a ∧ v = w) ⟨rfl, rfl⟩) ?_
  rintro _ _ ⟨rfl, rfl⟩
  split
  · rename_i placed hplaced
    have hnever : placed.action ≠ .placed := by
      obtain ⟨n, -, rfl⟩ := Option.map_eq_some_iff.mp hplaced
      exact fun heq => by cases heq
    split
    · refine Ends.bind ((notifyDegradedRun_ends telegram placed).mono (fun _ _ => id)
        fun w hw => hwait'.effect.only_requests hw) fun _ w hw => ?_
      exact Ends.pure ⟨hwait'.effect.only_requests hw, fun heq => absurd heq hnever⟩
    · exact Ends.pure ⟨hwait'.effect, fun heq => absurd heq hnever⟩
  · rename_i hnone
    have hnot : ¬ Placed d.graph (scheduledRunId asOf) := by
      rw [← hwait'.placed, Placed, Option.map_eq_none_iff.mp hnone]
      decide
    exact placeOrHold_ends hrun hwait' hnot hanswered' hanswer

/-- One fire keeps the invariants of its run, and places the run where it may. -/
theorem dispatch_ends {asOf : Day} {clock : Moment} (telegram : TelegramReplies)
    (hanswers : AnswersKept (scheduledRunId asOf) clock d.graph) (hle : clock ≤ now)
    (hholds : HoldsKept (scheduledRunId asOf) d.graph) :
    Ends (dispatchWithHumanAnswer setup asOf now telegram) d
      (FireResult setup (scheduledRunId asOf) now d)
      (FireEffect setup (scheduledRunId asOf) now d) := by
  have hnow : AnswersKept (scheduledRunId asOf) now d.graph :=
    hanswers.mono hle rfl hanswers.named
  have hstay : Polled setup.backend (scheduledRunId asOf) now d d := .refl hnow
  refine Ends.bind ((decideScheduledRun_ends _ asOf).mono (fun _ _ => id) ?_) ?_
  · rintro _ rfl
    exact (hstay.waiting hholds).effect
  rintro decision _ ⟨rfl, hdecision⟩
  rcases hdecision with hskip | rfl
  · rw [if_pos hskip]
    exact Ends.pure ⟨(hstay.waiting hholds).effect, fun heq => by cases heq⟩
  rw [if_neg fun heq => by cases heq]
  refine Ends.bind (Ends.get (Q := fun a v => d = a ∧ d = v) ⟨rfl, rfl⟩) ?_
  rintro _ _ ⟨rfl, rfl⟩
  have hact : ∀ t, Polled setup.backend (scheduledRunId asOf) now d t →
      Ends (do
        let d' ← get
        let answer := effectiveAnswer setup.backend d'.graph (scheduledRunId asOf)
        actOnAnswer setup ⟨.place, scheduledRunId asOf, "NYSE trading session"⟩ asOf now telegram
          (activeHold setup.backend d.graph (scheduledRunId asOf)) answer) t
        (FireResult setup (scheduledRunId asOf) now d)
        (FireEffect setup (scheduledRunId asOf) now d) := by
    intro t ht
    refine Ends.bind (Ends.get (Q := fun a v => t = a ∧ t = v) ⟨rfl, rfl⟩) ?_
    rintro _ _ ⟨rfl, rfl⟩
    exact actOnAnswer_ends telegram rfl ht hholds
  dsimp only
  split
  · refine Ends.bind ((pollAnswers_ends setup telegram asOf hnow).mono (fun _ _ => id)
      fun t ht => (ht.waiting hholds).effect) fun _ t ht => ?_
    exact hact t ht
  · exact hact d hstay

/-! ### Answers of others -/

/-- An answer on the dashboard is recorded as a dashboard fact of its run, or not at all. -/
theorem handleHoldAnswer_ends {clock : Moment} {request : HoldAnswerRequest}
    (hanswers : AnswersKept runId clock d.graph) (hle : clock ≤ now)
    (hno : ∀ fact : AnswerFact, fact.source = .dashboard → fact.answeredAt = now →
      request.isPost = true → request.runId = .str fact.runId →
      Answer.ofValue request.answer = some fact.answer →
      (setup.backend.listNodes d.graph runHoldLabel).any (awaitsAnswer fact.runId) = true →
        fact.runId = runId → ¬ Overtakes setup.backend d.graph fact) :
    Ends (handleHoldAnswer setup request now) d
      (fun _ t => Polled setup.backend runId now d t) (Polled setup.backend runId now d) := by
  have hstay : Polled setup.backend runId now d d := .refl (hanswers.mono hle rfl hanswers.named)
  unfold handleHoldAnswer
  split
  · exact Ends.pure hstay
  rename_i hpost
  split
  · rename_i target answer hrun hanswer
    refine Ends.bind (Ends.get (Q := fun a v => d = a ∧ d = v) ⟨rfl, rfl⟩) ?_
    rintro _ _ ⟨rfl, rfl⟩
    split
    · exact Ends.pure hstay
    · rename_i hold hhold
      have hactive : (setup.backend.listNodes d.graph runHoldLabel).any (awaitsAnswer target) =
          true := List.any_eq_true.mpr
        ⟨hold, List.mem_of_find?_eq_some hhold, List.find?_some hhold⟩
      refine Ends.bind (recordAnswer_polled hanswers hle fun heq => ?_) fun _ t ht => Ends.pure ht
      exact hno _ rfl rfl (eq_true_of_ne_false hpost) hrun hanswer hactive heq
  · exact Ends.pure hstay

end

end TradingAgents.Orchestration
