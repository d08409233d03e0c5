import TradingAgents.Orchestration.PlacementCuts

/-! The answers that Telegram serves and the cursor that the fires confirm.  Telegram serves an
update until a request with a higher offset has reached it.  Every answer that is polled is recorded
exactly once; but a fire confirms only through the answers that it records itself, so an answer
whose confirming call failed is served again until a newer one comes. -/

namespace TradingAgents.Orchestration

open Kernel ProofKit

/-! ### Telegram's side -/

/-- The graph and what was sent; the valid answers among the updates that have arrived, the update
that Telegram's cursor has passed, and the answers that fires have polled. -/
structure PollState where
  desk : Desk
  arrived : List TelegramAnswer
  confirmed : Int
  served : List TelegramAnswer

def PollState.graph (s : PollState) : PipelineGraph := s.desk.graph

/-- The answers that Telegram still serves. -/
def PollState.pending (s : PollState) : List TelegramAnswer :=
  s.arrived.filter fun answer => decide (s.confirmed < answer.updateId)

/-- What may come next: a fire, whose confirming call may reach Telegram or not; an update; an
answer on the dashboard; or a write of another program. -/
inductive PollMove where
  | fire (asOf : Day) (now : Moment) (telegram : TelegramReplies) (lands : Bool)
  | arrive (answer : TelegramAnswer)
  | post (now : Moment) (request : HoldAnswerRequest)
  | write (w : Write Document)

def Sent.confirm? : Sent → Option Int
  | confirm upToUpdateId => some upToUpdateId
  | _ => none

/-- The updates that the confirming calls between two desks named. -/
def newConfirms (d t : Desk) : List Int := (t.sent.drop d.sent.length).filterMap Sent.confirm?

/-- The answers that a fire gets from `poll_answers`, which it calls while a hold of its run
stands. -/
def polledBy (setup : DispatchSetup) (asOf : Day) (telegram : TelegramReplies) (d : Desk) :
    List TelegramAnswer :=
  match decideScheduledRun setup.calendar asOf d with
  | .error _ _ => []
  | .ok decision _ =>
    if decision.action = .place ∧
        (activeHold setup.backend d.graph decision.runId).isSome = true then
      match telegram.polled with
      | .ok answers => answers
      | .error _ => []
    else []

def pollStep (setup : DispatchSetup) (s : PollState) : PollMove → PollState
  | .fire asOf now telegram lands =>
    let t := deskAfter (dispatchWithHumanAnswer setup asOf now telegram) s.desk
    { s with
      desk := t
      confirmed := if lands then (newConfirms s.desk t).foldl max s.confirmed else s.confirmed
      served := s.served ++ polledBy setup asOf telegram s.desk }
  | .arrive answer => { s with arrived := s.arrived ++ [answer] }
  | .post now request => { s with desk := deskAfter (handleHoldAnswer setup request now) s.desk }
  | .write w =>
    match s.graph.write w with
    | .ok g => { s with desk := { s.desk with graph := g } }
    | .error _ => s

def pollStepOk (setup : DispatchSetup) (s : PollState) (m : PollMove) :
    Except DispatchError PollState :=
  .ok (pollStep setup s m)

/-- Telegram serves what it holds, in order, and a confirming call that it answered has reached it;
its update identifiers are positive and unique; and other programs write no answers. -/
def Serves (s : PollState) : PollMove → Prop
  | .fire _ _ telegram lands =>
    (∀ answers, telegram.polled = .ok answers → answers.Sublist s.pending) ∧
      (telegram.confirmed = .ok true → lands = true)
  | .arrive answer => 0 < answer.updateId ∧ ∀ a ∈ s.arrived, a.updateId ≠ answer.updateId
  | .post _ _ => True
  | .write w => ∀ k ∈ w.node?, k.1 ≠ runHoldAnswerLabel

/-- Nothing is recorded or has arrived. -/
def NoAnswers (s : PollState) : Prop :=
  s.graph.listNodes runHoldAnswerLabel = [] ∧ s.arrived = [] ∧ s.confirmed = 0 ∧ s.served = []

/-! ### What is asked of a fire -/

/-- The facts that carry an update. -/
def factsOf (g : PipelineGraph) (updateId : Int) : List PipelineNode :=
  (g.listNodes runHoldAnswerLabel).filter fun n => decide (n.get "update_id" = .int updateId)

/-- One fact carries the update of an answer, and it is that answer. -/
def RecordedOnce (g : PipelineGraph) (answer : TelegramAnswer) : Prop :=
  ∃ n, factsOf g answer.updateId = [n] ∧ n.get "run_id" = .str answer.runId ∧
    n.get "answer" = .str answer.answer.value

/-- Every Telegram call that a fire makes for an answer succeeds. -/
def CallsSucceed (telegram : TelegramReplies) : Prop :=
  (∃ answers, telegram.polled = .ok answers) ∧ (∀ answer, telegram.acked answer = .ok true) ∧
    telegram.confirmed = .ok true

/-- After the fire every answer that was ever polled is recorded once, and if its calls succeeded
the cursor has passed every recorded update. -/
structure AnswersSettled (telegram : TelegramReplies) (s' : PollState) : Prop where
  once : ∀ answer ∈ s'.served, RecordedOnce s'.graph answer
  passed : CallsSucceed telegram → ∀ updateId, factsOf s'.graph updateId ≠ [] →
    updateId ≤ s'.confirmed

/-- No update that is recorded is still unconfirmed, but below an answer that the fire polls and
that is not recorded yet. -/
def NoneLeftBehind (setup : DispatchSetup) (asOf : Day) (telegram : TelegramReplies)
    (s : PollState) : Prop :=
  ∀ updateId, s.confirmed < updateId → factsOf s.graph updateId ≠ [] →
    ∃ answer ∈ polledBy setup asOf telegram s.desk,
      factsOf s.graph answer.updateId = [] ∧ updateId < answer.updateId

/-! ### A recording -/

/-- Every answer fact stands under a key of its run and its source that counts it, and carries an
update. -/
structure AnswersNamed (g : PipelineGraph) : Prop where
  named : ∀ n ∈ g.listNodes runHoldAnswerLabel, ∃ runId source ordinal,
    n.key = answerKey runId source ordinal ∧ isAnswerFrom runId source n = true ∧
      ordinal ≤ (g.listNodes runHoldAnswerLabel).countP (isAnswerFrom runId source)
  numbered : ∀ n ∈ g.listNodes runHoldAnswerLabel, ∃ updateId, n.get "update_id" = .int updateId

/-- A desk that has sent some messages more, with the given confirming calls among them. -/
def Sends (ids : List Int) (d t : Desk) : Prop :=
  ∃ extra, t.sent = d.sent ++ extra ∧ extra.filterMap Sent.confirm? = ids

section

variable {b : Backend} {fact : AnswerFact} {d t u : Desk} {g g' : PipelineGraph}
  {n : PipelineNode} {ids ids' : List Int} {updateId : Int} {answer : TelegramAnswer}

theorem Sends.refl (d : Desk) : Sends [] d d := ⟨[], by simp, rfl⟩

theorem Sends.trans (h : Sends ids d t) (h' : Sends ids' t u) : Sends (ids ++ ids') d u := by
  obtain ⟨extra, hsent, rfl⟩ := h
  obtain ⟨extra', hsent', rfl⟩ := h'
  exact ⟨extra ++ extra', by rw [hsent', hsent, List.append_assoc], List.filterMap_append⟩

theorem Sends.of_sent (h : t.sent = d.sent) : Sends [] d t := ⟨[], by simpa using h, rfl⟩

theorem Sends.of_append {s : Sent} (h : t.sent = d.sent ++ [s]) : Sends s.confirm?.toList d t := by
  refine ⟨[s], h, ?_⟩
  rw [List.filterMap_cons, List.filterMap_nil]
  cases s.confirm? <;> rfl

theorem Sends.newConfirms (h : Sends ids d t) : newConfirms d t = ids := by
  obtain ⟨extra, hsent, rfl⟩ := h
  rw [Orchestration.newConfirms, hsent, List.drop_left]

theorem factsOf_same (h : Same runHoldAnswerLabel g g') : factsOf g' updateId =
    factsOf g updateId := by
  rw [factsOf, factsOf, h.list]

theorem AnswersNamed.of_same (h : AnswersNamed g) (hsame : Same runHoldAnswerLabel g g') :
    AnswersNamed g' := by
  refine ⟨?_, ?_⟩
  · rw [hsame.list]
    exact h.named
  · rw [hsame.list]
    exact h.numbered

theorem RecordedOnce.of_facts (h : RecordedOnce g answer)
    (hfacts : factsOf g' answer.updateId = factsOf g answer.updateId) : RecordedOnce g' answer := by
  obtain ⟨n, hn, hanswer⟩ := h
  exact ⟨n, hfacts.trans hn, hanswer⟩

/-- The next key of a run and a source is free. -/
theorem AnswersNamed.next_free (h : AnswersNamed g) (runId : String) (source : AnswerSource) :
    g.getNode runHoldAnswerLabel (answerKey runId source
      (1 + (g.listNodes runHoldAnswerLabel).countP (isAnswerFrom runId source))) = none := by
  by_contra hne
  obtain ⟨n, hn⟩ := Option.ne_none_iff_exists'.mp hne
  obtain ⟨hlabel, hkey⟩ := Graph.getNode_nodeKey hn
  have hmem : n ∈ g.listNodes runHoldAnswerLabel :=
    Graph.mem_listNodes.mpr ⟨hlabel, by rw [hkey]; exact hn⟩
  obtain ⟨runId', source', ordinal, hkey', -, hle⟩ := h.named n hmem
  obtain ⟨rfl, rfl, rfl⟩ := answerKey_injective (hkey'.symm.trans hkey)
  omega

/-- A recording has added its fact, and nothing else changed. -/
structure AddsFact (fact : AnswerFact) (d t : Desk) : Prop where
  listed : ∃ n : PipelineNode, n.props = fact.props ∧
    t.graph.listNodes runHoldAnswerLabel = d.graph.listNodes runHoldAnswerLabel ++ [n]
  named : AnswersNamed t.graph
  sent : t.sent = d.sent

theorem AddsFact.facts (h : AddsFact fact d t) : ∃ n : PipelineNode, n.props = fact.props ∧
    ∀ u, factsOf t.graph u = factsOf d.graph u ++ if u = fact.updateId then [n] else [] := by
  obtain ⟨n, hn, hlist⟩ := h.listed
  refine ⟨n, hn, fun u => ?_⟩
  have hid : n.get "update_id" = .int fact.updateId := by
    rw [Node.get, hn]
    rfl
  rw [factsOf, factsOf, hlist, List.filter_append, List.filter_singleton, hid]
  congr 1
  by_cases hu : u = fact.updateId
  · simp [hu]
  · have hne : (Value.int fact.updateId : Value Document) ≠ .int u :=
      fun heq => hu (Value.int.inj heq).symm
    rw [if_neg hu, decide_eq_false hne]
    rfl

/-- The fact that a recording writes. -/
def answerNode (g : PipelineGraph) (fact : AnswerFact) : PipelineNode where
  label := runHoldAnswerLabel
  key := answerKey fact.runId fact.source
    (1 + (g.listNodes runHoldAnswerLabel).countP (isAnswerFrom fact.runId fact.source))
  props := fact.props

theorem adds_put (h : AnswersNamed d.graph) (fact : AnswerFact) :
    AddsFact fact d { d with graph := d.graph.put (answerNode d.graph fact) } := by
  have hlist : (d.graph.put (answerNode d.graph fact)).listNodes runHoldAnswerLabel =
      d.graph.listNodes runHoldAnswerLabel ++ [answerNode d.graph fact] :=
    Graph.listNodes_put_fresh (h.next_free fact.runId fact.source)
  have hfrom : isAnswerFrom fact.runId fact.source (answerNode d.graph fact) = true := by
    have hrun : (answerNode d.graph fact).get "run_id" = .str fact.runId := rfl
    have hsource : (answerNode d.graph fact).get "source" = .str fact.source.value := rfl
    rw [isAnswerFrom, hrun, hsource, decide_eq_true rfl, decide_eq_true rfl]
    rfl
  refine ⟨⟨_, rfl, hlist⟩, ⟨?_, ?_⟩, rfl⟩
  · intro n hn
    dsimp only at hn ⊢
    rw [hlist] at hn ⊢
    rcases List.mem_append.mp hn with hold | hnew
    · obtain ⟨runId, source, ordinal, hkey, hself, hle⟩ := h.named n hold
      refine ⟨runId, source, ordinal, hkey, hself, ?_⟩
      rw [List.countP_append]
      omega
    · rw [List.mem_singleton.mp hnew]
      refine ⟨fact.runId, fact.source, _, rfl, hfrom, ?_⟩
      rw [List.countP_append, List.countP_singleton, hfrom, if_pos rfl]
      omega
  · intro n hn
    dsimp only at hn
    rw [hlist] at hn
    rcases List.mem_append.mp hn with hold | hnew
    · exact h.numbered n hold
    · rw [List.mem_singleton.mp hnew]
      exact ⟨fact.updateId, rfl⟩

/-- A recording never raises; it leaves the desk as it was exactly if a fact carries its update. -/
theorem recordAnswer_adds (h : AnswersNamed d.graph) (fact : AnswerFact) :
    Ends (recordAnswer b fact) d
      (fun recorded t =>
        (recorded = false ∧ t = d ∧ factsOf d.graph fact.updateId ≠ []) ∨
        (recorded = true ∧ AddsFact fact d t ∧
          (fact.updateId ≠ 0 → factsOf d.graph fact.updateId = [])))
      (fun _ => False) := by
  have hany : ((b.listNodes d.graph runHoldAnswerLabel).any fun n =>
      (n.get "update_id").pyEq (.int fact.updateId)) = true ↔
      factsOf d.graph fact.updateId ≠ [] := by
    rw [List.any_eq_true, factsOf, ne_eq, List.filter_eq_nil_iff, not_forall]
    simp only [Backend.mem_listNodes, decide_eq_true_eq, not_forall, not_not, exists_prop]
    refine exists_congr fun n => and_congr_right fun hn => ?_
    obtain ⟨v, hv⟩ := h.numbered n hn
    rw [hv]
    simp [Value.pyEq, Value.alike, Value.canon]
  have hcount : (b.listNodes d.graph runHoldAnswerLabel).countP
      (isAnswerFrom fact.runId fact.source) =
      (d.graph.listNodes runHoldAnswerLabel).countP (isAnswerFrom fact.runId fact.source) :=
    (b.perm_listNodes d.graph runHoldAnswerLabel).countP_eq _
  refine Ends.bind (Ends.get (Q := fun a v => d = a ∧ d = v) ⟨rfl, rfl⟩) ?_
  rintro _ _ ⟨rfl, rfl⟩
  dsimp only
  rw [hcount]
  split
  · rename_i hseen
    rw [Bool.and_eq_true, hany] at hseen
    exact Ends.pure (.inl ⟨rfl, rfl, hseen.2⟩)
  · rename_i hnew
    have hmerge : Ends (graphMerge runHoldAnswerLabel (answerKey fact.runId fact.source
        (1 + (d.graph.listNodes runHoldAnswerLabel).countP
          (isAnswerFrom fact.runId fact.source))) fact.props) d (fun _ t => AddsFact fact d t)
        (fun _ => False) := by
      refine Ends.bind (Ends.get (Q := fun a v => d = a ∧ d = v) ⟨rfl, rfl⟩) ?_
      rintro _ _ ⟨rfl, rfl⟩
      rw [Graph.mergeNode_fresh _ (h.next_free fact.runId fact.source)]
      exact adds_put h fact
    refine Ends.bind hmerge fun _ t ht => Ends.pure (.inr ⟨rfl, ht, fun hne => ?_⟩)
    rw [Bool.and_eq_true, hany, decide_eq_true_eq, not_and, not_not] at hnew
    exact hnew hne

end

/-! ### A poll -/

/-- What the poll of some answers has left: those that were not recorded are now, each once, and the
highest of them was confirmed if anything was. -/
structure PollLeft (d : Desk) (done : List TelegramAnswer) (highest : Int) (ids : List Int)
    (t : Desk) : Prop where
  named : AnswersNamed t.graph
  facts : ∀ updateId, factsOf t.graph updateId ≠ [] ↔
    factsOf d.graph updateId ≠ [] ∨ ∃ answer ∈ done, answer.updateId = updateId
  kept : ∀ updateId, factsOf d.graph updateId ≠ [] →
    factsOf t.graph updateId = factsOf d.graph updateId
  once : ∀ answer ∈ done, factsOf d.graph answer.updateId = [] → RecordedOnce t.graph answer
  below : ∀ answer ∈ done, factsOf d.graph answer.updateId = [] → answer.updateId ≤ highest
  reached : highest = 0 ∨ ∃ answer ∈ done, factsOf d.graph answer.updateId = [] ∧
    highest = answer.updateId
  sends : Sends ids d t

/-- The confirming calls of a poll. -/
def confirmsOf (highest : Int) : List Int := if highest = 0 then [] else [highest]

section

variable {setup : DispatchSetup} {asOf : Day} {now : Moment} {telegram : TelegramReplies}
  {b : Backend} {d t u : Desk} {done answers : List TelegramAnswer} {answer : TelegramAnswer}
  {highest : Int} {ids ids' : List Int}

theorem PollLeft.start (h : AnswersNamed d.graph) : PollLeft d [] 0 [] d where
  named := h
  facts := by simp
  kept := fun _ _ => rfl
  once := fun _ ha => by cases ha
  below := fun _ ha => by cases ha
  reached := .inl rfl
  sends := .refl d

/-- What leaves the answers alone and confirms something or nothing. -/
theorem PollLeft.frame (h : PollLeft d done highest ids t)
    (hsame : Same runHoldAnswerLabel t.graph u.graph) (hsends : Sends ids' t u) :
    PollLeft d done highest (ids ++ ids') u where
  named := h.named.of_same hsame
  facts := by
    intro updateId
    rw [factsOf_same hsame]
    exact h.facts updateId
  kept := by
    intro updateId hne
    rw [factsOf_same hsame]
    exact h.kept updateId hne
  once := fun answer ha hnone => (h.once answer ha hnone).of_facts (factsOf_same hsame)
  below := h.below
  reached := h.reached
  sends := h.sends.trans hsends

/-- An answer that was recorded before the poll. -/
theorem PollLeft.skip (h : PollLeft d done highest ids t)
    (hseen : factsOf d.graph answer.updateId ≠ []) :
    PollLeft d (done ++ [answer]) highest ids t where
  named := h.named
  facts := by
    intro updateId
    rw [h.facts]
    constructor
    · rintro (hold | ⟨a, ha, hid⟩)
      · exact .inl hold
      · exact .inr ⟨a, List.mem_append_left _ ha, hid⟩
    · rintro (hold | ⟨a, ha, hid⟩)
      · exact .inl hold
      · rcases List.mem_append.mp ha with ha | ha
        · exact .inr ⟨a, ha, hid⟩
        · rw [List.mem_singleton.mp ha] at hid
          exact .inl (hid ▸ hseen)
  kept := h.kept
  once := by
    intro a ha hnone
    rcases List.mem_append.mp ha with ha | ha
    · exact h.once a ha hnone
    · rw [List.mem_singleton.mp ha] at hnone
      exact absurd hnone hseen
  below := by
    intro a ha hnone
    rcases List.mem_append.mp ha with ha | ha
    · exact h.below a ha hnone
    · rw [List.mem_singleton.mp ha] at hnone
      exact absurd hnone hseen
  reached := h.reached.imp_right fun ⟨a, ha, hrest⟩ => ⟨a, List.mem_append_left _ ha, hrest⟩
  sends := h.sends

/-- An answer that the poll records. -/
theorem PollLeft.record (h : PollLeft d done highest ids t)
    (hadds : AddsFact (answer.fact setup asOf now) t u) (hpos : 0 < answer.updateId)
    (hnew : factsOf t.graph answer.updateId = []) :
    PollLeft d (done ++ [answer]) (max highest answer.updateId) ids u := by
  obtain ⟨n, hn, hfacts⟩ := hadds.facts
  have hid : (answer.fact setup asOf now).updateId = answer.updateId := rfl
  rw [hid] at hfacts
  have hbefore : factsOf d.graph answer.updateId = [] := by
    by_contra hne
    exact (h.facts _).mpr (.inl hne) hnew
  have hother : ∀ updateId, updateId ≠ answer.updateId →
      factsOf u.graph updateId = factsOf t.graph updateId := by
    intro updateId hne
    rw [hfacts, if_neg hne, List.append_nil]
  have hself : factsOf u.graph answer.updateId = [n] := by
    rw [hfacts, if_pos rfl, hnew, List.nil_append]
  have hapart : ∀ a ∈ done, a.updateId ≠ answer.updateId := by
    intro a ha heq
    exact (h.facts _).mpr (.inr ⟨a, ha, heq⟩) hnew
  constructor
  · exact hadds.named
  · intro updateId
    by_cases heq : updateId = answer.updateId
    · subst heq
      rw [hself]
      exact iff_of_true (List.cons_ne_nil _ _)
        (.inr ⟨answer, List.mem_append_right _ (List.mem_singleton_self _), rfl⟩)
    · rw [hother _ heq, h.facts]
      refine or_congr_right ⟨fun ⟨a, ha, hid⟩ => ⟨a, List.mem_append_left _ ha, hid⟩, ?_⟩
      rintro ⟨a, ha, rfl⟩
      rcases List.mem_append.mp ha with ha | ha
      · exact ⟨a, ha, rfl⟩
      · exact absurd (congrArg _ (List.mem_singleton.mp ha)) heq
  · intro updateId hne
    have hother' : updateId ≠ answer.updateId := fun heq => hne (by rw [heq]; exact hbefore)
    rw [hother _ hother']
    exact h.kept updateId hne
  · intro a ha hnone
    rcases List.mem_append.mp ha with ha | ha
    · exact (h.once a ha hnone).of_facts (hother _ (hapart a ha))
    · rw [List.mem_singleton.mp ha]
      refine ⟨n, hself, ?_, ?_⟩
      · rw [Node.get, hn]
        rfl
      · rw [Node.get, hn]
        rfl
  · intro a ha hnone
    rcases List.mem_append.mp ha with ha | ha
    · exact (h.below a ha hnone).trans (le_max_left _ _)
    · rw [List.mem_singleton.mp ha]
      exact le_max_right _ _
  · right
    rcases max_choice highest answer.updateId with hmax | hmax
    · rcases h.reached with hz | ⟨a, ha, hnone, heq⟩
      · have := max_eq_left_iff.mp hmax
        omega
      · exact ⟨a, List.mem_append_left _ ha, hnone, hmax.trans heq⟩
    · exact ⟨answer, List.mem_append_right _ (List.mem_singleton_self _), hbefore, hmax⟩
  · obtain ⟨extra, hsent, hids⟩ := h.sends
    exact ⟨extra, by rw [hadds.sent, hsent], hids⟩

theorem pollAnswers_left (h : AnswersNamed d.graph)
    (hpolled : ∀ answers, telegram.polled = .ok answers →
      (∀ answer ∈ answers, 0 < answer.updateId) ∧ (answers.map TelegramAnswer.updateId).Nodup) :
    Ends (pollAnswers setup telegram asOf now) d
      (fun _ t => ∃ highest, PollLeft d (telegram.polled.toOption.getD []) highest
        (confirmsOf highest) t)
      (fun _ => False) := by
  have call : ∀ {α : Type} (call : Except String α) (fallback : α) {done : List TelegramAnswer}
      {highest : Int} {ids : List Int} {t : Desk}, PollLeft d done highest ids t →
      Ends (faultSafe call fallback) t (fun _ u => PollLeft d done highest ids u)
        (fun _ => False) := by
    intro α call fallback done highest ids t ht
    refine (faultSafe_ends call fallback).mono (fun _ u hu => ?_) fun _ => id
    have hsends : Sends [] t u := .of_sent hu.2
    have hu' := ht.frame (by rw [hu.1]; exact .refl _ _) hsends
    rwa [List.append_nil] at hu'
  have sent : ∀ (s : Sent) {done : List TelegramAnswer} {highest : Int} {ids : List Int} {t : Desk},
      PollLeft d done highest ids t → Ends (send s) t
        (fun _ u => PollLeft d done highest (ids ++ s.confirm?.toList) u) (fun _ => False) := by
    intro s done highest ids t ht
    refine (send_ends s).mono (fun _ u hu => ?_) fun _ => id
    exact ht.frame (by rw [hu.1]; exact .refl _ _) (.of_append hu.2)
  have hrest : ∀ (answers : List TelegramAnswer) (t : Desk),
      (∀ answer ∈ answers, 0 < answer.updateId) →
      (answers.map TelegramAnswer.updateId).Nodup → PollLeft d [] 0 [] t →
      Ends (do
        let highest ← answers.foldlM (fun highest answer => do
          let recorded ← recordAnswer setup.backend (answer.fact setup asOf now)
          if recorded then
            send (.ackButton answer.callbackQueryId "Answer recorded")
            let _ ← faultSafe (telegram.acked answer) false
            pure (max highest answer.updateId)
          else pure highest) (0 : Int)
        if highest ≠ 0 then
          send (.confirm highest)
          let _ ← faultSafe telegram.confirmed false
          pure ⟨⟩
        else pure ⟨⟩ : Dispatch PUnit) t
        (fun _ t => ∃ highest, PollLeft d answers highest (confirmsOf highest) t)
        (fun _ => False) := by
    intro answers t hpos hnodup ht
    refine Ends.bind (Ends.foldlM_done (I := fun done (highest : Int) u =>
      PollLeft d done highest [] u) (fun done answer rest hl highest u hu => ?_) ht)
      fun highest u hu => ?_
    · have hanswer : 0 < answer.updateId := hpos answer (by rw [hl]; simp)
      have hapart : ∀ a ∈ done, a.updateId ≠ answer.updateId := by
        intro a ha
        rw [hl, List.map_append, List.map_cons, List.nodup_append] at hnodup
        exact hnodup.2.2 _ (List.mem_map_of_mem ha) _ List.mem_cons_self
      refine Ends.bind ((recordAnswer_adds hu.named _).mono (fun _ _ => id) fun _ => id) ?_
      rintro recorded v (⟨rfl, rfl, hseen⟩ | ⟨rfl, hadds, hnew⟩)
      · refine Ends.pure (hu.skip (((hu.facts _).mp hseen).resolve_right ?_))
        rintro ⟨a, ha, hid⟩
        exact hapart a ha hid
      · have hv := hu.record hadds hanswer (hnew (ne_of_gt hanswer))
        refine Ends.bind (sent _ hv) fun _ w hw => ?_
        exact Ends.bind (call (telegram.acked answer) false hw) fun _ x hx => Ends.pure hx
    · split
      · rename_i hne
        refine Ends.bind (sent _ hu) fun _ v hv => ?_
        refine Ends.bind (call telegram.confirmed false hv) fun _ w hw => Ends.pure ⟨highest, ?_⟩
        rw [confirmsOf, if_neg hne]
        exact hw
      · rename_i heq
        refine Ends.pure ⟨highest, ?_⟩
        rw [confirmsOf, if_pos (not_not.mp heq)]
        exact hu
  unfold pollAnswers
  cases hp : telegram.polled with
  | error message =>
    refine Ends.bind (Q := fun answers t => answers = [] ∧ PollLeft d [] 0 [] t) ?_ ?_
    · exact Ends.bind (Ends.modify (Q := fun _ t => PollLeft d [] 0 [] t)
        ((PollLeft.start h).frame (.refl _ _) (.of_sent rfl))) fun _ t ht => Ends.pure ⟨rfl, ht⟩
    · rintro _ t ⟨rfl, ht⟩
      exact hrest [] t (fun _ ha => by cases ha) List.nodup_nil ht
  | ok answers =>
    obtain ⟨hpos, hnodup⟩ := hpolled answers hp
    exact hrest answers d hpos hnodup (.start h)

end

/-! ### The rest of a fire -/

/-- The answers stay, and nothing is confirmed. -/
structure Quiet (d t : Desk) : Prop where
  same : Same runHoldAnswerLabel d.graph t.graph
  sends : Sends [] d t

section

variable {setup : DispatchSetup} {asOf : Day} {now : Moment} {telegram : TelegramReplies}
  {runId label key : String} {d t u : Desk} {props : Props Document} {answer : Option Answer}
  {hold : Option PipelineNode} {decision : ScheduledDispatchDecision} {readiness : Readiness}

theorem Quiet.refl (d : Desk) : Quiet d d := ⟨.refl _ _, .refl d⟩

theorem Quiet.trans (h : Quiet d t) (h' : Quiet t u) : Quiet d u :=
  ⟨h.same.trans h'.same, h.sends.trans h'.sends⟩

/-- A part that goes on after a quiet one. -/
theorem Quiet.bind {α β : Type} {x : Dispatch α} {f : α → Dispatch β}
    (hx : Ends x d (fun _ t => Quiet d t) (Quiet d))
    (hf : ∀ a t, Ends (f a) t (fun _ u => Quiet t u) (Quiet t)) :
    Ends (x >>= f) d (fun _ u => Quiet d u) (Quiet d) :=
  Ends.bind hx fun a t ht => (hf a t).mono (fun _ _ => ht.trans) fun _ => ht.trans

theorem Quiet.pure {α : Type} {a : α} :
    Ends (Pure.pure a : Dispatch α) d (fun _ t => Quiet d t) (Quiet d) := Ends.pure (.refl d)

theorem Quiet.get : Ends (MonadState.get : Dispatch Desk) d (fun _ t => Quiet d t) (Quiet d) :=
  Ends.get (.refl d)

theorem Quiet.throw {α : Type} {e : DispatchError} :
    Ends (MonadExcept.throw e : Dispatch α) d (fun _ t => Quiet d t) (Quiet d) :=
  Ends.throw (.refl d)

theorem graphMerge_quiet (hlabel : label ≠ runHoldAnswerLabel) :
    Ends (graphMerge label key props) d (fun _ t => Quiet d t) (Quiet d) := by
  refine (graphMerge_ends _ _ _ d).mono ?_ ?_
  · rintro n _ ⟨g, hm, rfl⟩
    exact ⟨.of_merge hm hlabel, .of_sent rfl⟩
  · rintro _ rfl
    exact .refl _

theorem markAnswer_quiet : Ends (markAnswer hold answer) d (fun _ t => Quiet d t) (Quiet d) := by
  unfold markAnswer
  split
  · split
    · exact Quiet.bind (graphMerge_quiet (by decide)) fun _ _ => Quiet.pure
    · exact Quiet.pure
  · exact Quiet.pure

theorem briefSafely_quiet (brief : Option (Int × String)) :
    Ends (briefSafely runId asOf now brief) d (fun _ t => Quiet d t) (Quiet d) := by
  refine Ends.bind (Ends.get (Q := fun a v => d = a ∧ d = v) ⟨rfl, rfl⟩) ?_
  rintro _ _ ⟨rfl, rfl⟩
  split
  · split
    · split
      · rename_i g n hm
        exact ⟨.of_merge hm (by decide), .of_sent rfl⟩
      · exact ⟨.refl _ _, .of_sent rfl⟩
    · exact Quiet.pure
  · exact Quiet.pure

theorem notifyOnce_quiet {markName : String} {notice : Sent} {reply : Except String (Option Int)}
    {mark : Int → Props Document} (hlabel : label ≠ runHoldAnswerLabel)
    (hnotice : notice.confirm? = none) :
    Ends (notifyOnce label key markName notice reply mark) d (fun _ t => Quiet d t) (Quiet d) := by
  have hsends : ∀ g faults, Sends [] d ⟨g, d.sent ++ [notice], faults⟩ := by
    intro g faults
    have hs : Sends notice.confirm?.toList d ⟨g, d.sent ++ [notice], faults⟩ := .of_append rfl
    rwa [hnotice] at hs
  exact notifyOnce_ends (.refl d) (fun faults => ⟨.refl _ _, hsends _ _⟩)
    fun _ _ _ g faults _ hmerge => ⟨.of_merge hmerge hlabel, hsends g faults⟩

theorem holdUnreadyRun_quiet :
    Ends (holdUnreadyRun setup runId asOf now readiness) d (fun _ t => Quiet d t) (Quiet d) := by
  unfold holdUnreadyRun
  refine Quiet.bind Quiet.get fun d' t => ?_
  dsimp only
  split
  · split
    · exact Quiet.bind (graphMerge_quiet (by decide)) fun _ _ => Quiet.pure
    · exact Quiet.pure
  · split
    · exact Quiet.pure
    · exact Quiet.bind (graphMerge_quiet (by decide)) fun _ _ => Quiet.pure

theorem placeOverride_quiet {reason : String} :
    Ends (placeOverride setup runId asOf reason) d (fun _ t => Quiet d t) (Quiet d) := by
  unfold placeOverride
  dsimp only
  split
  · exact Quiet.throw
  · exact Quiet.bind (graphMerge_quiet (by decide)) fun _ _ => Quiet.pure

theorem placeReadyRun_quiet :
    Ends (placeReadyRun setup asOf decision readiness) d (fun _ t => Quiet d t) (Quiet d) := by
  unfold placeReadyRun
  dsimp only
  split
  · exact Quiet.throw
  · refine Quiet.bind (graphMerge_quiet (by decide)) fun n t => ?_
    split
    · exact Quiet.bind (graphMerge_quiet (by decide)) fun _ _ => Quiet.pure
    · exact Quiet.pure

theorem decideScheduledRun_quiet (calendar : TradingCalendar) :
    Ends (decideScheduledRun calendar asOf) d (fun _ t => Quiet d t) (Quiet d) := by
  refine (decideScheduledRun_ends calendar asOf).mono ?_ ?_
  · rintro _ _ ⟨rfl, -⟩
    exact .refl _
  · rintro _ rfl
    exact .refl _

theorem placeScheduledRun_quiet :
    Ends (placeScheduledRun setup asOf now) d (fun _ t => Quiet d t) (Quiet d) := by
  unfold placeScheduledRun
  refine Quiet.bind (decideScheduledRun_quiet _) fun decision t => ?_
  split
  · exact Quiet.pure
  · refine Quiet.bind Quiet.get fun d' t => ?_
    refine Quiet.bind holdUnreadyRun_quiet fun hold t => ?_
    split
    · exact Quiet.pure
    · exact placeReadyRun_quiet

theorem afterApproach_quiet :
    Ends (afterApproach setup decision asOf now telegram hold answer) d (fun _ t => Quiet d t)
      (Quiet d) := by
  unfold afterApproach
  refine Quiet.bind Quiet.get fun d' t => ?_
  split
  · split
    · exact Quiet.bind (notifyOnce_quiet (by decide) rfl) fun _ _ => Quiet.pure
    · exact Quiet.pure
  · unfold placeOrHold
    split
    · exact Quiet.pure
    split
    · exact Quiet.pure
    · exact placeOverride_quiet
    · refine Quiet.bind placeScheduledRun_quiet fun result t => ?_
      split
      · exact Quiet.bind (notifyOnce_quiet (by decide) rfl) fun _ _ => Quiet.pure
      split
      · exact Quiet.bind (notifyOnce_quiet (by decide) rfl) fun _ _ => Quiet.pure
      · exact Quiet.pure

/-- What a fire leaves of the answers is what its poll left. -/
theorem fire_left (h : AnswersNamed d.graph)
    (hpolled : ∀ answers, telegram.polled = .ok answers →
      (∀ answer ∈ answers, 0 < answer.updateId) ∧ (answers.map TelegramAnswer.updateId).Nodup) :
    ∃ highest, PollLeft d (polledBy setup asOf telegram d) highest (confirmsOf highest)
      (deskAfter (dispatchWithHumanAnswer setup asOf now telegram) d) := by
  have hquiet : ∀ {done : List TelegramAnswer} {highest : Int} {t u : Desk},
      PollLeft d done highest (confirmsOf highest) t → Quiet t u →
        PollLeft d done highest (confirmsOf highest) u := by
    intro done highest t u ht hu
    have hframe := ht.frame hu.same hu.sends
    rwa [List.append_nil] at hframe
  have hstay : ∀ t, Quiet d t → ∃ highest, PollLeft d [] highest (confirmsOf highest) t :=
    fun t ht => ⟨0, hquiet (.start h) ht⟩
  rw [dispatch_approach]
  rcases decideScheduledRun_cases setup.calendar asOf with
    ⟨e, heq⟩ | ⟨decision, -, hskip, heq⟩ | ⟨-, -, heq⟩
  · have hnone : polledBy setup asOf telegram d = [] := by
      rw [polledBy, heq]
      rfl
    rw [heq, hnone]
    exact hstay d (.refl d)
  · have hnone : polledBy setup asOf telegram d = [] := by
      rw [polledBy, heq]
      change (if decision.action = .place ∧ _ then _ else _) = []
      rw [if_neg fun hp => by rw [hskip] at hp; cases hp.1]
    rw [heq, hnone, pure_bind, if_pos hskip]
    exact hstay d (.refl d)
  · have hby : polledBy setup asOf telegram d =
        if (activeHold setup.backend d.graph (scheduledRunId asOf)).isSome = true then
          telegram.polled.toOption.getD [] else [] := by
      rw [polledBy, heq]
      change (if _ ∧ _ then _ else _) = _
      simp only [true_and]
      split
      · cases telegram.polled <;> rfl
      · rfl
    rw [heq, pure_bind, if_neg fun hp => by cases hp]
    refine deskAfter_of_ends (P := fun t => ∃ highest,
      PollLeft d (polledBy setup asOf telegram d) highest (confirmsOf highest) t) ?_
    have happroach : Ends (approach setup asOf now telegram (scheduledRunId asOf)) d
        (fun _ t => ∃ highest,
          PollLeft d (polledBy setup asOf telegram d) highest (confirmsOf highest) t)
        (fun t => ∃ highest,
          PollLeft d (polledBy setup asOf telegram d) highest (confirmsOf highest) t) := by
      refine Ends.bind (Ends.get (Q := fun a v => d = a ∧ d = v) ⟨rfl, rfl⟩) ?_
      rintro _ _ ⟨rfl, rfl⟩
      have hafter : ∀ {t : Desk} {done : List TelegramAnswer} {highest : Int},
          PollLeft d done highest (confirmsOf highest) t →
          ∀ {α : Type} {x : Dispatch α}, Ends x t (fun _ u => Quiet t u) (Quiet t) →
            Ends x t (fun _ u => ∃ highest, PollLeft d done highest (confirmsOf highest) u)
              (fun u => ∃ highest, PollLeft d done highest (confirmsOf highest) u) :=
        fun ht _ _ hx => hx.mono (fun _ _ hu => ⟨_, hquiet ht hu⟩) fun _ hu => ⟨_, hquiet ht hu⟩
      have hrest : ∀ t, Ends (do
          let d' ← MonadState.get
          let answer := effectiveAnswer setup.backend d'.graph (scheduledRunId asOf)
          markAnswer (activeHold setup.backend d.graph (scheduledRunId asOf)) answer
          briefSafely (scheduledRunId asOf) asOf now telegram.brief
          pure (activeHold setup.backend d.graph (scheduledRunId asOf), answer)) t
          (fun _ u => Quiet t u) (Quiet t) := by
        intro t
        refine Quiet.bind Quiet.get fun d' t => ?_
        exact Quiet.bind markAnswer_quiet fun _ t => Quiet.bind (briefSafely_quiet _)
          fun _ _ => Quiet.pure
      dsimp only
      rw [hby]
      split
      · refine Ends.bind ((pollAnswers_left h hpolled).mono (fun _ _ => id) fun _ hf => hf.elim) ?_
        rintro - t ⟨highest, ht⟩
        exact hafter ht (hrest t)
      · exact hafter (.start h) (hrest d)
    refine Ends.bind happroach ?_
    rintro r t ⟨highest, ht⟩
    exact afterApproach_quiet.mono (fun _ _ hu => ⟨_, hquiet ht hu⟩) fun _ hu => ⟨_, hquiet ht hu⟩

end

/-! ### Runs -/

/-- What holds of Telegram and the graph in every run. -/
structure PollInvariant (s : PollState) : Prop where
  named : AnswersNamed s.graph
  positive : ∀ answer ∈ s.arrived, 0 < answer.updateId
  unique : (s.arrived.map TelegramAnswer.updateId).Nodup
  served : ∀ answer ∈ s.served, answer ∈ s.arrived ∧ RecordedOnce s.graph answer
  recorded : ∀ updateId, updateId ≠ 0 → factsOf s.graph updateId ≠ [] →
    ∃ answer ∈ s.served, answer.updateId = updateId

section

variable {setup : DispatchSetup} {asOf : Day} {now : Moment} {telegram : TelegramReplies}
  {lands : Bool} {s : PollState} {m : PollMove} {d t : Desk} {answer : TelegramAnswer}

theorem NoAnswers.invariant (h : NoAnswers s) : PollInvariant s := by
  obtain ⟨hlist, harrived, -, hserved⟩ := h
  have hfacts : ∀ updateId, factsOf s.graph updateId = [] := by
    intro updateId
    rw [factsOf, hlist]
    rfl
  refine ⟨⟨?_, ?_⟩, ?_, ?_, ?_, fun updateId _ hne => absurd (hfacts updateId) hne⟩
  · rw [hlist]
    exact fun n hn => by cases hn
  · rw [hlist]
    exact fun n hn => by cases hn
  · rw [harrived]
    exact fun a ha => by cases ha
  · rw [harrived]
    exact List.nodup_nil
  · rw [hserved]
    exact fun a ha => by cases ha

theorem mem_polledBy (h : answer ∈ polledBy setup asOf telegram d) :
    ∃ answers, telegram.polled = .ok answers ∧ answer ∈ answers := by
  unfold polledBy at h
  split at h
  · cases h
  split at h
  · split at h
    · rename_i answers heq
      exact ⟨answers, heq, h⟩
    · cases h
  · cases h

/-- What Telegram serves to a fire is legal. -/
theorem PollInvariant.polled (hs : PollInvariant s)
    (hm : Serves s (.fire asOf now telegram lands)) :
    ∀ answers, telegram.polled = .ok answers → (∀ answer ∈ answers, 0 < answer.updateId) ∧
      (answers.map TelegramAnswer.updateId).Nodup ∧ ∀ answer ∈ answers, answer ∈ s.arrived := by
  intro answers hok
  have hsub := hm.1 answers hok
  have hmem : ∀ answer ∈ answers, answer ∈ s.arrived :=
    fun answer ha => (List.mem_filter.mp (hsub.subset ha)).1
  exact ⟨fun answer ha => hs.positive answer (hmem answer ha),
    hs.unique.sublist ((hsub.trans List.filter_sublist).map _), hmem⟩

theorem PollInvariant.left (setup : DispatchSetup) (hs : PollInvariant s)
    (hm : Serves s (.fire asOf now telegram lands)) :
    ∃ highest, PollLeft s.desk (polledBy setup asOf telegram s.desk) highest (confirmsOf highest)
      (pollStep setup s (.fire asOf now telegram lands)).desk :=
  fire_left hs.named fun answers hok =>
    ⟨(hs.polled hm answers hok).1, (hs.polled hm answers hok).2.1⟩

theorem PollInvariant.fire (hs : PollInvariant s) (hm : Serves s (.fire asOf now telegram lands)) :
    PollInvariant (pollStep setup s (.fire asOf now telegram lands)) := by
  obtain ⟨highest, hleft⟩ := hs.left setup hm
  have hmem : ∀ answer ∈ polledBy setup asOf telegram s.desk, answer ∈ s.arrived := by
    intro answer ha
    obtain ⟨answers, hok, hin⟩ := mem_polledBy ha
    exact (hs.polled hm answers hok).2.2 answer hin
  have hkept : ∀ answer, RecordedOnce s.graph answer → RecordedOnce
      (pollStep setup s (.fire asOf now telegram lands)).graph answer := by
    intro answer honce
    refine honce.of_facts (hleft.kept _ ?_)
    obtain ⟨n, hn, -⟩ := honce
    exact hn ▸ List.cons_ne_nil n []
  refine ⟨hleft.named, hs.positive, hs.unique, ?_, ?_⟩
  · intro answer ha
    rcases List.mem_append.mp ha with hold | hnew
    · exact ⟨(hs.served answer hold).1, hkept answer (hs.served answer hold).2⟩
    · refine ⟨hmem answer hnew, ?_⟩
      by_cases hfresh : factsOf s.graph answer.updateId = []
      · exact hleft.once answer hnew hfresh
      · -- a served update is the answer that was recorded under its identifier
        have hpos := hs.positive answer (hmem answer hnew)
        obtain ⟨first, hfirst, hid⟩ := hs.recorded _ (ne_of_gt hpos) hfresh
        have heq : first = answer := List.inj_on_of_nodup_map hs.unique
          (hs.served first hfirst).1 (hmem answer hnew) hid
        rw [heq] at hfirst
        exact hkept answer (hs.served answer hfirst).2
  · intro updateId hne hfacts
    rcases (hleft.facts updateId).mp hfacts with hold | ⟨answer, ha, hid⟩
    · obtain ⟨answer, ha, hid⟩ := hs.recorded updateId hne hold
      exact ⟨answer, List.mem_append_left _ ha, hid⟩
    · exact ⟨answer, List.mem_append_right _ ha, hid⟩

/-- What keeps the facts of every update keeps the invariant. -/
theorem PollInvariant.frame (hs : PollInvariant s) (hnamed : AnswersNamed t.graph)
    (hfacts : ∀ updateId, updateId ≠ 0 → factsOf t.graph updateId = factsOf s.graph updateId) :
    PollInvariant { s with desk := t } where
  named := hnamed
  positive := hs.positive
  unique := hs.unique
  served := by
    intro answer ha
    obtain ⟨hin, honce⟩ := hs.served answer ha
    exact ⟨hin, honce.of_facts (hfacts _ (ne_of_gt (hs.positive answer hin)))⟩
  recorded := by
    intro updateId hne hrecorded
    refine hs.recorded updateId hne ?_
    rw [← hfacts updateId hne]
    exact hrecorded

/-- An answer on the dashboard carries no update. -/
theorem handleHoldAnswer_facts (setup : DispatchSetup) (h : AnswersNamed d.graph) (now : Moment)
    (request : HoldAnswerRequest) :
    AnswersNamed (deskAfter (handleHoldAnswer setup request now) d).graph ∧
      ∀ updateId, updateId ≠ 0 →
        factsOf (deskAfter (handleHoldAnswer setup request now) d).graph updateId =
          factsOf d.graph updateId := by
  have hstay : AnswersNamed d.graph ∧ ∀ updateId, updateId ≠ 0 →
      factsOf d.graph updateId = factsOf d.graph updateId := ⟨h, fun _ _ => rfl⟩
  refine deskAfter_of_ends (P := fun t => AnswersNamed t.graph ∧ ∀ updateId, updateId ≠ 0 →
    factsOf t.graph updateId = factsOf d.graph updateId) ?_
  unfold handleHoldAnswer
  split
  · exact Ends.pure hstay
  split
  · refine Ends.bind (Ends.get (Q := fun a v => d = a ∧ d = v) ⟨rfl, rfl⟩) ?_
    rintro _ _ ⟨rfl, rfl⟩
    split
    · exact Ends.pure hstay
    · refine Ends.bind ((recordAnswer_adds h _).mono (fun _ _ => id) fun _ hf => hf.elim) ?_
      rintro recorded t (⟨-, rfl, -⟩ | ⟨-, hadds, -⟩)
      · exact Ends.pure hstay
      · obtain ⟨n, -, hfacts⟩ := hadds.facts
        refine Ends.pure ⟨hadds.named, fun updateId hne => ?_⟩
        rw [hfacts, if_neg hne, List.append_nil]
  · exact Ends.pure hstay

theorem PollInvariant.step (hs : PollInvariant s) (hm : Serves s m) :
    PollInvariant (pollStep setup s m) := by
  cases m with
  | fire asOf now telegram lands => exact hs.fire hm
  | arrive answer =>
    obtain ⟨hpos, hnew⟩ := hm
    refine ⟨hs.named, ?_, ?_, ?_, hs.recorded⟩
    · intro a ha
      rcases List.mem_append.mp ha with ha | ha
      · exact hs.positive a ha
      · rw [List.mem_singleton.mp ha]
        exact hpos
    · rw [pollStep, List.map_append, List.nodup_append]
      refine ⟨hs.unique, List.nodup_singleton _, ?_⟩
      intro id hid id' hid'
      obtain ⟨a, ha, rfl⟩ := List.mem_map.mp hid
      rw [List.mem_singleton.mp hid']
      exact hnew a ha
    · intro a ha
      exact ⟨List.mem_append_left _ (hs.served a ha).1, (hs.served a ha).2⟩
  | post now request =>
    obtain ⟨hnamed, hfacts⟩ := handleHoldAnswer_facts setup hs.named now request
    exact hs.frame hnamed hfacts
  | write w =>
    rw [pollStep]
    split
    · rename_i g hw
      have hsame : Same runHoldAnswerLabel s.graph g := .of_write hw hm
      exact hs.frame (t := { s.desk with graph := g }) (hs.named.of_same hsame)
        fun updateId _ => factsOf_same hsame
    · exact hs

/-- Every polled answer is recorded exactly once; and the cursor has passed all recorded answers
after a fire whose calls succeed exactly when no recorded update was still unconfirmed before it,
but below an answer that the fire records itself. -/
theorem answers_settled_iff
    (hreach : Reach (pollStepOk setup) Serves NoAnswers s)
    (hm : Serves s (.fire asOf now telegram lands)) :
    AnswersSettled telegram (pollStep setup s (.fire asOf now telegram lands)) ↔
      (CallsSucceed telegram → NoneLeftBehind setup asOf telegram s) := by
  have hs : PollInvariant s := by
    refine hreach.invariant (fun _ h => h.invariant) ?_
    intro s m s' hs hm hok
    cases hok
    exact hs.step hm
  obtain ⟨highest, hleft⟩ := hs.left setup hm
  have hconfirmed : CallsSucceed telegram →
      (pollStep setup s (.fire asOf now telegram lands)).confirmed =
        if highest = 0 then s.confirmed else max s.confirmed highest := by
    intro hcalls
    have hids : newConfirms s.desk (deskAfter (dispatchWithHumanAnswer setup asOf now telegram)
        s.desk) = confirmsOf highest := hleft.sends.newConfirms
    rw [pollStep, hm.2 hcalls.2.2]
    dsimp only
    rw [if_pos rfl, hids, confirmsOf]
    split <;> rfl
  have hpositive : ∀ answer ∈ polledBy setup asOf telegram s.desk, 0 < answer.updateId := by
    intro answer ha
    obtain ⟨answers, hok, hin⟩ := mem_polledBy ha
    exact (hs.polled hm answers hok).1 answer hin
  constructor
  · intro hsettled hcalls updateId hunconfirmed hrecorded
    have hle := hsettled.passed hcalls updateId ((hleft.facts updateId).mpr (.inl hrecorded))
    rw [hconfirmed hcalls] at hle
    split at hle
    · omega
    · rename_i hne
      obtain hzero | ⟨answer, ha, hfresh, heq⟩ := hleft.reached
      · exact absurd hzero hne
      · refine ⟨answer, ha, hfresh, ?_⟩
        have hother : updateId ≠ answer.updateId := fun h => hrecorded (h ▸ hfresh)
        omega
  · intro hnone
    refine ⟨fun answer ha => ((hs.fire hm).served answer ha).2, fun hcalls updateId hfacts => ?_⟩
    have hold : factsOf s.graph updateId ≠ [] → updateId ≤
        (pollStep setup s (.fire asOf now telegram lands)).confirmed := by
      intro hrecorded
      rw [hconfirmed hcalls]
      by_cases hle : updateId ≤ s.confirmed
      · split
        · exact hle
        · exact hle.trans (le_max_left _ _)
      · obtain ⟨answer, ha, hfresh, hlt⟩ := hnone hcalls updateId (not_le.mp hle) hrecorded
        have hbelow := hleft.below answer ha hfresh
        have hpos := hpositive answer ha
        rw [if_neg (by omega)]
        exact le_max_of_le_right (by omega)
    rcases (hleft.facts updateId).mp hfacts with hrecorded | ⟨answer, ha, rfl⟩
    · exact hold hrecorded
    · by_cases hfresh : factsOf s.graph answer.updateId = []
      · have hbelow := hleft.below answer ha hfresh
        have hpos := hpositive answer ha
        rw [hconfirmed hcalls, if_neg (by omega)]
        exact le_max_of_le_right hbelow
      · exact hold hfresh

end

/-- A button that was pressed on a hold. -/
def pressed : TelegramAnswer := pressedAnswer .runNow 12

/-- A Telegram whose confirming calls time out. -/
def deafTelegram : TelegramReplies := { quietTelegram with confirmed := .error "TimeoutError" }

def pressedTelegram : TelegramReplies := { quietTelegram with polled := .ok [pressed] }

def heldFire : PollMove := .fire sessionDay (.ofClock sessionDay 22 30 5 0) deafTelegram false

/-- A fire that records the answer and does not get through to confirm it. -/
def deafFire : PollMove :=
  .fire sessionDay (.ofClock sessionDay 22 40 5 0)
    { deafTelegram with polled := .ok [pressed] } false

def pressedState : PollState :=
  pollStep sessionSetup (pollStep sessionSetup ⟨⟨.empty, [], []⟩, [], 0, []⟩ heldFire)
    (.arrive pressed)

theorem pressedState_reached :
    Reach (pollStepOk sessionSetup) Serves NoAnswers pressedState := by
  refine .step (.arrive pressed) (.step heldFire (.start ⟨rfl, rfl, rfl, rfl⟩) ⟨?_, ?_⟩ rfl)
    ⟨by decide, ?_⟩ rfl
  · intro answers hok
    cases hok
    exact List.nil_sublist _
  · exact fun hok => by cases hok
  · intro a ha
    cases ha

/-- The fire that first gets the answer and confirms it settles all. -/
theorem pressed_settled : AnswersSettled pressedTelegram (pollStep sessionSetup pressedState
    (.fire sessionDay (.ofClock sessionDay 22 40 5 0) pressedTelegram true)) := by
  refine (answers_settled_iff pressedState_reached ⟨?_, fun _ => rfl⟩).mpr ?_
  · intro answers hok
    cases hok
    exact List.Sublist.refl [pressed]
  · intro _ updateId _ hrecorded
    have hlist : pressedState.graph.listNodes runHoldAnswerLabel = [] :=
      List.isEmpty_iff.mp (by decide +kernel)
    rw [factsOf, hlist] at hrecorded
    exact absurd rfl hrecorded

/-- After a fire whose confirming call failed, a fire whose calls all succeed does not confirm the
answer that the first recorded. -/
theorem answer_not_confirmed : ¬ ∀ s, Reach (pollStepOk sessionSetup) Serves NoAnswers s →
    ∀ now telegram lands, Serves s (.fire sessionDay now telegram lands) →
      AnswersSettled telegram (pollStep sessionSetup s (.fire sessionDay now telegram lands)) := by
  intro hall
  have hdeaf : Reach (pollStepOk sessionSetup) Serves NoAnswers
      (pollStep sessionSetup pressedState deafFire) := by
    refine .step deafFire pressedState_reached ⟨?_, fun hok => by cases hok⟩ rfl
    intro answers hok
    cases hok
    exact List.Sublist.refl [pressed]
  have hsettled := hall _ hdeaf (.ofClock sessionDay 22 50 5 0) pressedTelegram true ⟨by
    intro answers hok
    cases hok
    exact List.Sublist.refl [pressed], fun _ => rfl⟩
  have hrun : (factsOf (pollStep sessionSetup (pollStep sessionSetup pressedState deafFire)
        (.fire sessionDay (.ofClock sessionDay 22 50 5 0) pressedTelegram true)).graph 12).isEmpty =
        false ∧
      (pollStep sessionSetup (pollStep sessionSetup pressedState deafFire)
        (.fire sessionDay (.ofClock sessionDay 22 50 5 0) pressedTelegram true)).confirmed = 0 := by
    decide +kernel
  have hpassed := hsettled.passed ⟨⟨_, rfl⟩, fun _ => rfl, rfl⟩ 12
    (fun hnil => by rw [hnil] at hrun; cases hrun.1)
  rw [hrun.2] at hpassed
  exact absurd hpassed (by decide)

end TradingAgents.Orchestration
