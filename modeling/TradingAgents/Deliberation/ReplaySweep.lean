import TradingAgents.Deliberation.ReplayRefinement

/-! A whole sweep: the rounds of all debates, submitted one after another, are every debate
alone. -/

namespace TradingAgents.Deliberation

open ProofKit
open Deliberator (DebateRole ServedRole Ruling)

/-! ### The plan -/

theorem mem_turnSteps {rounds : Nat} {step : Step} : step ∈ turnSteps rounds ↔
    step = .judge ∨ ∃ role round, step = .argue role round ∧ 1 ≤ round ∧ round ≤ rounds := by
  rw [turnSteps, List.mem_append, List.mem_singleton, List.mem_map, or_comm]
  refine or_congr_right ⟨?_, ?_⟩
  · rintro ⟨speaker, hspeaker, rfl⟩
    exact ⟨speaker.1, speaker.2, rfl, round_of_mem_speakingOrder hspeaker⟩
  · rintro ⟨role, round, rfl, hfirst, hlast⟩
    refine ⟨(role, round), ?_, rfl⟩
    simp only [speakingOrder, List.mem_flatMap, List.mem_range, List.mem_map]
    refine ⟨round - 1, by omega, role, ?_, by rw [Nat.sub_add_cancel hfirst]⟩
    cases role <;> simp [roundRoles]

/-- The turns of a shorter debate are those of a longer one that it takes part in. -/
theorem filter_turnSteps {rounds more : Nat} :
    (turnSteps (rounds + more)).filter (· ∈ turnSteps rounds) = turnSteps rounds := by
  have horder : speakingOrder (rounds + more) = speakingOrder rounds ++
      (List.range more).flatMap fun n => roundRoles.map fun role => (role, rounds + n + 1) := by
    rw [speakingOrder, List.range_add, List.flatMap_append, List.flatMap_map]
    rfl
  have hnone : (((List.range more).flatMap fun n => roundRoles.map fun role =>
      (role, rounds + n + 1)).map Step.ofSpeaker).filter (· ∈ turnSteps rounds) = [] := by
    rw [List.filter_eq_nil_iff]
    intro step hstep
    simp only [List.mem_map, List.mem_flatMap, List.mem_range] at hstep
    obtain ⟨speaker, ⟨n, -, role, -, rfl⟩, rfl⟩ := hstep
    rw [decide_eq_true_eq, mem_turnSteps]
    rintro (h | ⟨role', round, h, -, hlast⟩)
    · cases h
    · cases h
      omega
  have hall : ((speakingOrder rounds).map Step.ofSpeaker).filter (· ∈ turnSteps rounds) =
      (speakingOrder rounds).map Step.ofSpeaker := by
    rw [List.filter_eq_self]
    intro step hstep
    exact decide_eq_true (List.mem_append_left _ hstep)
  have hlong : turnSteps (rounds + more) = (speakingOrder rounds).map Step.ofSpeaker ++
      (((List.range more).flatMap fun n => roundRoles.map fun role =>
        (role, rounds + n + 1)).map Step.ofSpeaker ++ [.judge]) := by
    rw [turnSteps, horder, List.map_append, List.append_assoc]
  rw [hlong, List.filter_append, List.filter_append, hnone, hall]
  simp [turnSteps]

theorem foldl_max_ge (f : Arm → Nat) (arms : List Arm) (most : Nat) :
    most ≤ arms.foldl (fun most arm => max most (f arm)) most ∧
    ∀ arm ∈ arms, f arm ≤ arms.foldl (fun most arm => max most (f arm)) most := by
  induction arms generalizing most with
  | nil => simp
  | cons first arms ih =>
    obtain ⟨hgrows, hall⟩ := ih (max most (f first))
    refine ⟨Nat.le_trans (Nat.le_max_left _ _) hgrows, fun arm harm => ?_⟩
    rcases List.mem_cons.mp harm with rfl | hrest
    · exact Nat.le_trans (Nat.le_max_right _ _) hgrows
    · exact hall arm hrest

/-- Every arm takes its own turns of the plan, in its own order. -/
theorem filter_planSteps {arms : List Arm} {arm : Arm} (h : arm ∈ arms) :
    (planSteps arms).filter (· ∈ arm.steps) = arm.steps := by
  have hle : debateRounds arm.maxRounds ≤ mostRounds arms :=
    (foldl_max_ge (fun arm => debateRounds arm.maxRounds) arms 0).2 arm h
  have hone := one_le_debateRounds arm.maxRounds
  obtain ⟨more, hmore⟩ := Nat.exists_eq_add_of_le hle
  rw [planSteps, if_neg (by omega), hmore]
  exact filter_turnSteps

/-- No turn is planned twice. -/
theorem nodup_planSteps {arms : List Arm} : (planSteps arms).Nodup := by
  have hspeakers : ∀ rounds, (speakingOrder rounds).Nodup := by
    intro rounds
    refine List.nodup_flatMap.mpr ⟨fun n _ => by simp [roundRoles], ?_⟩
    refine List.nodup_range.imp fun {n m} hne => ?_
    simpa [roundRoles, Function.onFun] using hne.symm
  have hturns : ∀ rounds, (turnSteps rounds).Nodup := by
    intro rounds
    have hargue := (hspeakers rounds).map (f := Step.ofSpeaker) fun a b h => by
      cases a
      cases b
      cases h
      rfl
    refine List.nodup_append.mpr ⟨hargue, List.nodup_singleton _, ?_⟩
    rintro step hstep last hlast rfl
    obtain ⟨speaker, -, rfl⟩ := List.mem_map.mp hstep
    exact absurd (List.mem_singleton.mp hlast) (by simp [Step.ofSpeaker])
  unfold planSteps
  split
  · exact List.nodup_nil
  · exact hturns _

/-! ### Rounds -/

section

variable {kit : DebateKit} {answer : BatchRequest → Option BatchResult} {gateway : BatchGateway}
  {outcome outcome' : ReplayOutcome} {step : Step} {states : List DebateState}

theorem sum_sends : (states.map (DebateState.sends kit · step)).sum =
    (states.filter (·.participates step)).map (·.request kit step) := by
  induction states with
  | nil => rfl
  | cons state states ih =>
    rw [List.map_cons, List.sum_cons, ih, DebateState.sends, List.filter_cons]
    split
    · rw [List.map_cons, ← Multiset.cons_coe, Multiset.singleton_add]
    · rw [zero_add]

theorem roundRequests_ok {requests : List BatchRequest}
    (h : roundRequests kit states step = .ok requests) :
    requests = (states.filter (·.participates step)).map (·.request kit step) ∧
      (requests.map BatchRequest.customId).Nodup := by
  unfold roundRequests at h
  dsimp only at h
  split at h
  · cases h
    exact ⟨rfl, ‹_›⟩
  · cases h

/-- The answers of a round take every debate through its turn. -/
theorem applyResults_eq {results : List BatchResult}
    (h : ∀ state ∈ states, state.participates step = true →
      (answersById results).get? (state.request kit step).customId =
        answer (state.request kit step)) :
    applyResults kit states step results =
      states.map (DebateState.takeTurn kit answer · step) := by
  refine List.map_congr_left fun state hstate => ?_
  unfold DebateState.takeTurn
  split
  · rename_i hown
    rw [← h state hstate hown]
    rfl
  · rfl

/-- The requests of a batch are those of one turn. -/
def OfTurn (kit : DebateKit) (states : List DebateState) (step : Step)
    (batch : List BatchRequest) : Prop :=
  ∀ request ∈ batch, ∃ state ∈ states,
    request.customId = (state.key step).customId kit.digestText

/-- One round takes every debate through its turn, and sends at most one batch, with one request
for each debate that takes it. -/
theorem replayRound_ok {batches : List (List BatchRequest)} (hserves : Serves gateway answer)
    (h : replayRound kit gateway outcome step = .ok outcome') :
    outcome'.states = outcome.states.map (DebateState.takeTurn kit answer · step) ∧
    ∃ sent : List (List BatchRequest),
      (replayRoundIn kit StateT.lift (logged gateway) outcome step).run batches =
        .ok (outcome', batches ++ sent) ∧
      (sent = [] ∨ ∃ batch, sent = [batch] ∧ OfTurn kit outcome.states step batch) ∧
      (sent.flatten : Multiset BatchRequest) =
        (outcome.states.map (DebateState.sends kit · step)).sum ∧
      outcome'.requestsSubmitted = outcome.requestsSubmitted + sent.flatten.length ∧
      outcome'.roundsSubmitted = outcome.roundsSubmitted + sent.length := by
  rw [replayRound_eq] at h
  obtain ⟨requests, hrequests, h⟩ := Fallible.bind_eq_ok.mp h
  obtain ⟨hall, hnodup⟩ := roundRequests_ok hrequests
  have hsum : (requests : Multiset BatchRequest) =
      (outcome.states.map (DebateState.sends kit · step)).sum := by
    rw [sum_sends, hall]
  rw [loggedRound_eq, hrequests, Fallible.ok_bind]
  split at h
  · rename_i hnone
    cases h
    rw [if_pos hnone]
    subst hnone
    refine ⟨?_, [], by rw [List.append_nil], .inl rfl, hsum, rfl, rfl⟩
    have hidle : ∀ state ∈ outcome.states, state.participates step = false := by
      intro state hstate
      rw [eq_comm, List.map_eq_nil_iff, List.filter_eq_nil_iff] at hall
      exact eq_false_of_ne_true (hall state hstate)
    conv_lhs => rw [← List.map_id outcome.states]
    exact List.map_congr_left fun state hstate =>
      (@DebateState.takeTurn_idle kit answer state step (hidle state hstate)).1.symm
  · rename_i hsome
    obtain ⟨results, hresults, h⟩ := Fallible.bind_eq_ok.mp h
    have hgiven : results = gateway (outcome.roundsSubmitted + 1) requests := by
      unfold checked at hresults
      dsimp only at hresults
      split at hresults
      · cases hresults
        rfl
      · cases hresults
    cases h
    rw [if_neg hsome, hresults, Fallible.ok_bind]
    refine ⟨applyResults_eq fun state hstate hown => ?_, [requests], rfl,
      .inr ⟨requests, rfl, ?_⟩, by simpa using hsum, by simp, rfl⟩
    · rw [hgiven]
      refine hserves _ _ hnodup _ ?_
      rw [hall]
      exact List.mem_map_of_mem (List.mem_filter.mpr ⟨hstate, hown⟩)
    · intro request hrequest
      rw [hall] at hrequest
      obtain ⟨state, hstate, rfl⟩ := List.mem_map.mp hrequest
      exact ⟨state, List.mem_of_mem_filter hstate, rfl⟩

theorem OfTurn.takeTurn {batch : List BatchRequest} {next : Step}
    (h : OfTurn kit (states.map (DebateState.takeTurn kit answer · next)) step batch) :
    OfTurn kit states step batch := by
  intro request hrequest
  obtain ⟨_, htaken, hid⟩ := h request hrequest
  obtain ⟨state, hstate, rfl⟩ := List.mem_map.mp htaken
  rw [(DebateState.takeTurn_same state next).key step] at hid
  exact ⟨state, hstate, hid⟩

/-- The rounds of a plan take all debates through it in lockstep, one batch at most for a turn. -/
theorem replayRounds_ok {plan : List Step} {batches : List (List BatchRequest)}
    (hserves : Serves gateway answer)
    (h : plan.foldlM (replayRound kit gateway) outcome = .ok outcome') :
    outcome'.states = outcome.states.map (DebateState.after kit answer · plan) ∧
    ∃ sent : List (List BatchRequest),
      (plan.foldlM (replayRoundIn kit StateT.lift (logged gateway)) outcome).run batches =
        .ok (outcome', batches ++ sent) ∧
      (∃ turns, turns.Sublist plan ∧ List.Forall₂ (OfTurn kit outcome.states) turns sent) ∧
      (sent.flatten : Multiset BatchRequest) =
        (outcome.states.map (DebateState.sent kit answer · plan)).sum ∧
      outcome'.requestsSubmitted = outcome.requestsSubmitted + sent.flatten.length ∧
      outcome'.roundsSubmitted = outcome.roundsSubmitted + sent.length := by
  suffices outcome'.states =
      Lockstep.together (DebateState.takeTurn kit answer) plan outcome.states ∧ _ by
    rwa [Lockstep.together_eq_map] at this
  induction plan generalizing outcome batches with
  | nil =>
    cases h
    refine ⟨rfl, [], by rw [List.append_nil]; rfl, ⟨[], List.Sublist.refl _, .nil⟩, ?_, rfl, rfl⟩
    simp
  | cons step plan ih =>
    rw [List.foldlM_cons] at h
    obtain ⟨next, hround, hrest⟩ := Fallible.bind_eq_ok.mp h
    obtain ⟨hstates, sent, hrun, hturn, hsent, hcount, hrounds⟩ := replayRound_ok hserves hround
    obtain ⟨hstates', sent', hrun', ⟨turns, hturns, hbatches⟩, hsent', hcount', hrounds'⟩ :=
      ih hrest
    rw [hstates] at hstates' hsent' hbatches
    have hbatches' : List.Forall₂ (OfTurn kit outcome.states) turns sent' :=
      hbatches.imp fun _ _ => OfTurn.takeTurn
    refine ⟨hstates', sent ++ sent', ?_, ?_, ?_, ?_, ?_⟩
    · rw [List.foldlM_cons, StateT.run_bind, hrun, Fallible.ok_bind, hrun', List.append_assoc]
    · obtain rfl | ⟨batch, rfl, hbatch⟩ := hturn
      · exact ⟨turns, hturns.cons _, hbatches'⟩
      · exact ⟨step :: turns, hturns.cons_cons _, .cons hbatch hbatches'⟩
    · rw [List.flatten_append, ← Multiset.coe_add, hsent, hsent']
      exact (Lockstep.sum_spent_cons step).symm
    · rw [hcount', hcount, List.flatten_append, List.length_append, Nat.add_assoc]
    · rw [hrounds', hrounds, List.length_append, Nat.add_assoc]

/-! ### Debates that differ -/

/-- The debates have wire identities of their own, whatever the turn. -/
def Keyed (kit : DebateKit) (states : List DebateState) : Prop :=
  ∀ step, (states.map fun state => (state.key step).customId kit.digestText).Nodup

theorem Keyed.applyResults {results : List BatchResult} (h : Keyed kit states) (step : Step) :
    Keyed kit (applyResults kit states step results) := by
  intro next
  unfold Deliberation.applyResults
  rw [List.map_map]
  refine (List.map_congr_left fun state _ => ?_).symm ▸ h next
  show ((ite _ _ state : DebateState).key next).customId kit.digestText = _
  split
  · rw [(DebateState.applyOne_same state step _).key next]
  · rfl

/-- A round of debates that differ is submitted, and no answer to it is refused. -/
theorem replayRound_total (honly : AnswersOnly gateway) (hkeyed : Keyed kit outcome.states) :
    ∃ next, replayRound kit gateway outcome step = .ok next ∧ Keyed kit next.states := by
  have hnodup : (((outcome.states.filter (·.participates step)).map (·.request kit step)).map
      BatchRequest.customId).Nodup := by
    rw [List.map_map]
    exact (hkeyed step).sublist (List.filter_sublist.map _)
  rw [replayRound_eq]
  unfold roundRequests
  dsimp only
  rw [if_pos hnodup, Fallible.ok_bind]
  split
  · exact ⟨outcome, rfl, hkeyed⟩
  · unfold checked
    dsimp only
    rw [if_pos, Fallible.ok_bind]
    · exact ⟨_, rfl, hkeyed.applyResults step⟩
    · rw [List.filter_eq_nil_iff]
      intro id hid
      obtain ⟨result, hresult, rfl⟩ := List.mem_map.mp hid
      rw [decide_eq_true_eq, not_not]
      exact honly _ _ result hresult

end

/-! ### The sweep -/

section

variable {kit : DebateKit} {answer : BatchRequest → Option BatchResult}
  {subjects : List ReplaySubject} {arms : List Arm} {repeats : Int} {state : DebateState}

theorem mem_buildStates (h : state ∈ buildStates subjects arms repeats) :
    state.Fresh ∧ state.arm ∈ arms := by
  simp only [buildStates, List.mem_flatMap, List.mem_map] at h
  obtain ⟨subject, -, n, -, arm, harm, rfl⟩ := h
  exact ⟨⟨rfl, rfl, rfl⟩, harm⟩

/-- The rounds of the whole plan take a debate through its own turns. -/
theorem after_planSteps (hfresh : state.Fresh) (harm : state.arm ∈ arms) :
    state.after kit answer (planSteps arms) = state.after kit answer state.steps ∧
    state.sent kit answer (planSteps arms) = state.sent kit answer state.steps := by
  have hown : (planSteps arms).filter (· ∈ state.steps) = state.steps := by
    rw [hfresh.steps]
    exact filter_planSteps harm
  have hkeep : ∀ t step, t.steps = state.steps →
      (DebateState.takeTurn kit answer t step).steps = state.steps := fun t step ht =>
    (DebateState.takeTurn_same t step).2.2.2.trans ht
  have hidle : ∀ t step, t.steps = state.steps → decide (step ∈ state.steps) = false →
      DebateState.takeTurn kit answer t step = t ∧ t.sends kit step = 0 := by
    intro t step ht hstep
    refine DebateState.takeTurn_idle ?_
    rw [DebateState.participates, ht, hstep, Bool.and_false]
  constructor
  · conv_rhs => rw [← hown]
    exact Lockstep.foldl_own hkeep (fun t step ht hstep => (hidle t step ht hstep).1) rfl
  · conv_rhs => rw [← hown]
    exact Lockstep.spent_own hkeep hidle rfl

/-- A sweep is its debates, each debated live with the provider's answers.  It gives each of them
the live transcript and verdict or the live reason for having none, the judge's answer without the
white space around it, which tells only where this white space made a verdict unreadable.  It sends
the requests of the live debates, each of them once and no other, and all of one turn in one batch.
A sweep of debates that differ is never refused. -/
theorem replayDebates_live {gateway : BatchGateway} (hserves : Serves gateway answer)
    (hloads : SkipsPadding kit.loads) (subjects : List ReplaySubject) (arms : List Arm)
    (repeats : Int) :
    (∀ outcome, replayDebates kit subjects arms repeats gateway = .ok outcome →
      List.Forall₂ (fun state final =>
          state.Replayed (state.live kit (stripped answer)) final ∧
          (state.Replayed (state.live kit answer) final ↔ ¬ state.Padded kit answer))
        (buildStates subjects arms repeats) outcome.states ∧
      ∃ batches : List (List BatchRequest),
        (loggedSweep kit subjects arms repeats gateway).run [] = .ok (outcome, batches) ∧
        batches.flatten.Perm
          ((buildStates subjects arms repeats).flatMap (·.liveRequests kit answer)) ∧
        (∃ turns, turns.Sublist (planSteps arms) ∧
          List.Forall₂ (OfTurn kit (buildStates subjects arms repeats)) turns batches) ∧
        outcome.requestsSubmitted = batches.flatten.length ∧
        outcome.roundsSubmitted = batches.length) ∧
    (planSteps arms).Nodup ∧
    (AnswersOnly gateway → Keyed kit (buildStates subjects arms repeats) →
      ∃ outcome, replayDebates kit subjects arms repeats gateway = .ok outcome) := by
  refine ⟨fun outcome h => ?_, nodup_planSteps, fun honly hkeyed => ?_⟩
  · obtain ⟨hstates, batches, hrun, hturns, hsent, hcount, hrounds⟩ :=
      @replayRounds_ok kit answer gateway _ _ _ [] hserves h
    rw [List.nil_append] at hrun
    rw [Nat.zero_add] at hcount hrounds
    refine ⟨?_, batches, hrun, ?_, hturns, hcount, hrounds⟩
    · rw [hstates, List.forall₂_map_right_iff, List.forall₂_same]
      intro state hstate
      obtain ⟨hfresh, harm⟩ := mem_buildStates hstate
      rw [(after_planSteps hfresh harm).1]
      have halone := (@DebateState.replayed_alone kit answer state hfresh).1
      exact ⟨halone, DebateState.replayed_iff hloads hfresh halone⟩
    · have halone : (buildStates subjects arms repeats).map
          (DebateState.sent kit answer · (planSteps arms)) =
          (buildStates subjects arms repeats).map fun state =>
            (state.liveRequests kit answer : Multiset BatchRequest) := by
        refine List.map_congr_left fun state hstate => ?_
        obtain ⟨hfresh, harm⟩ := mem_buildStates hstate
        rw [(after_planSteps hfresh harm).2]
        exact (DebateState.replayed_alone hfresh).2
      rw [← Multiset.coe_eq_coe, hsent, halone, ← Multiset.coe_bind]
      rfl
  · obtain ⟨outcome, h, -⟩ := Fallible.foldlM_total (f := replayRound kit gateway)
      (P := fun _ outcome => Keyed kit outcome.states) (l := planSteps arms)
      (s := ⟨buildStates subjects arms repeats, 0, 0⟩) hkeyed
      fun _ _ _ _ _ hkeyed => replayRound_total honly hkeyed
    exact ⟨outcome, h⟩

end

/-- A provider whose answers do not depend on the batch. -/
def servedBy (provider : BatchRequest → String × String) : BatchGateway := fun _ requests =>
  requests.map fun request =>
    ⟨request.customId, (provider request).1, (provider request).2⟩

theorem servedBy_serves (provider : BatchRequest → String × String) :
    Serves (servedBy provider) fun request =>
      some ⟨request.customId, (provider request).1, (provider request).2⟩ := by
  intro number requests hnodup request hrequest
  have hentry : (request.customId, (⟨request.customId, (provider request).1,
      (provider request).2⟩ : BatchResult)) ∈ (servedBy provider number requests).map
        fun result => (result.customId, result) := by
    rw [servedBy, List.map_map]
    exact List.mem_map_of_mem hrequest
  rw [answersById, ← Dict.mem_entries_iff, Dict.entries_ofList]
  · exact hentry
  · rw [servedBy, List.map_map, List.map_map]
    exact hnodup

theorem servedBy_answersOnly (provider : BatchRequest → String × String) :
    AnswersOnly (servedBy provider) := by
  intro number requests result hresult
  obtain ⟨request, hrequest, rfl⟩ := List.mem_map.mp hresult
  exact List.mem_map_of_mem hrequest

/-! ### White space around a verdict -/

def upheldText : String := "\x7b\"ruling\": \"uphold\"\x7d"

/-- `json.loads` on that text, alone and with a line break after it. -/
def upheldLoads (text : String) : Option VerdictJson :=
  if text = upheldText ∨ text = upheldText ++ "\n" then
    some (.object (.ofList [("ruling", "uphold")])) else none

def upheldKit : DebateKit := ⟨id, ⟨"defend", "challenge", "judge"⟩, upheldLoads⟩

/-- A challenger that does not answer in time, a judge whose verdict comes after a no-break space,
and one whose verdict ends in a line break. -/
def spacedProvider (request : BatchRequest) : String × String :=
  if request.system = "challenge" ∧ request.model = "slow" then ("expired", "")
  else if request.system = "judge" then
    ("succeeded",
      if request.model = "padding" then "\u00a0" ++ upheldText else upheldText ++ "\n")
  else ("succeeded", request.system)

def spacedAnswer (request : BatchRequest) : Option BatchResult :=
  some ⟨request.customId, (spacedProvider request).1, (spacedProvider request).2⟩

def spacedArms : List Arm :=
  [⟨"a", "slow", "low", 2, 4096⟩, ⟨"b", "padding", "low", 1, 4096⟩, ⟨"c", "plain", "low", 1, 4096⟩]

theorem upheldLoads_skips : SkipsPadding upheldLoads := by
  intro raw data h
  obtain rfl | rfl : raw = upheldText ∨ raw = upheldText ++ "\n" := by
    by_contra hneither
    rw [upheldLoads, if_neg hneither] at h
    cases h
  all_goals
    rw [← h, upheldLoads, upheldLoads, if_pos, if_pos] <;> decide

def spacedState (arm : Arm) : DebateState :=
  { subject := ⟨"run", "AAA", ⟨"buy", "gap"⟩⟩, «repeat» := 1, arm, steps := arm.steps }

theorem spacedProvider_judge {request : BatchRequest} (hsystem : request.system = "judge")
    (hmodel : request.model ≠ "padding") :
    spacedProvider request = ("succeeded", upheldText ++ "\n") := by
  simp [spacedProvider, hsystem, hmodel]

theorem spacedState_padded : ∀ arm ∈ spacedArms,
    (spacedState arm).Padded upheldKit spacedAnswer ↔ arm.model = "padding" := by
  intro arm harm
  by_cases hmodel : arm.model = "padding"
  · refine iff_of_true ?_ hmodel
    obtain rfl : arm = ⟨"b", "padding", "low", 1, 4096⟩ := by
      simp only [spacedArms, List.mem_cons, List.not_mem_nil, or_false] at harm
      rcases harm with rfl | rfl | rfl
      · exact absurd hmodel (by decide)
      · rfl
      · exact absurd hmodel (by decide)
    exact ⟨_, _, rfl, rfl, rfl, by decide +kernel, by decide +kernel⟩
  · refine iff_of_false ?_ hmodel
    rintro ⟨said, result, -, hresult, -, hread, -⟩
    have htext : result.text = upheldText ++ "\n" := by
      rw [← Option.some.inj hresult]
      exact congrArg Prod.snd (spacedProvider_judge rfl hmodel)
    have hplain : parseVerdict upheldKit.loads (upheldText ++ "\n") = .ok ⟨.uphold, ""⟩ := by
      decide +kernel
    rw [htext, hplain] at hread
    cases hread

theorem customId_char (name : String) (c : Char) (rest : List Char) (step : Step)
    (hname : name.toList = c :: rest) (hc : isWireSafe c = true) :
    ((⟨"run", "AAA", 1, name, step.role, step.number⟩ : ReplayKey).customId id).toList[10]? =
      some c := by
  have hlabel : (⟨"run", "AAA", 1, name, step.role, step.number⟩ : ReplayKey).label =
      "run" ++ ":" ++ "AAA" ++ ":" ++ toString 1 ++ ":" ++ name ++ ":" ++ step.role.value ++ ":" ++
        ("r" ++ toString step.number) := rfl
  have hstart : ("run" ++ ":" ++ "AAA" ++ ":" ++ toString 1 ++ ":").toList =
      "run:AAA:1:".toList := by
    decide
  rw [ReplayKey.customId, hlabel]
  simp only [String.toList_append, String.toList_ofList] at hstart ⊢
  rw [hstart, hname]
  simp [slugLimit, hc]

theorem spacedStates_keyed : Keyed upheldKit (spacedArms.map spacedState) := by
  intro step
  refine List.Nodup.of_map (fun id : String => id.toList[10]?) ?_
  have ha := customId_char "a" 'a' [] step rfl (by decide)
  have hb := customId_char "b" 'b' [] step rfl (by decide)
  have hc := customId_char "c" 'c' [] step rfl (by decide)
  have hchars : ((spacedArms.map spacedState).map fun state =>
      (state.key step).customId upheldKit.digestText).map (fun id => id.toList[10]?) =
      [some 'a', some 'b', some 'c'] := by
    rw [← ha, ← hb, ← hc]
    rfl
  rw [hchars]
  decide

/-- The three arms in one sweep. -/
theorem replayDebates_live_spaced :
    ∃ outcome batches,
      (loggedSweep upheldKit [⟨"run", "AAA", ⟨"buy", "gap"⟩⟩] spacedArms 1
        (servedBy spacedProvider)).run [] = .ok (outcome, batches) ∧
      batches.flatten.Perm
        ((spacedArms.map spacedState).flatMap (·.liveRequests upheldKit spacedAnswer)) ∧
      List.Forall₂ (fun state final =>
          state.Replayed (state.live upheldKit spacedAnswer) final ↔
            state.arm.model ≠ "padding")
        (spacedArms.map spacedState) outcome.states := by
  obtain ⟨houtcome, -, htotal⟩ := @replayDebates_live upheldKit spacedAnswer _
    (servedBy_serves spacedProvider) upheldLoads_skips [⟨"run", "AAA", ⟨"buy", "gap"⟩⟩] spacedArms 1
  obtain ⟨outcome, h⟩ := htotal (servedBy_answersOnly spacedProvider) spacedStates_keyed
  obtain ⟨hstates, batches, hrun, hperm, -⟩ := houtcome outcome h
  refine ⟨outcome, batches, hrun, hperm, ?_⟩
  have hpadded : ∀ state ∈ spacedArms.map spacedState,
      state.Padded upheldKit spacedAnswer ↔ state.arm.model = "padding" :=
    List.forall_mem_map.mpr spacedState_padded
  refine ((List.forall₂_and_left _ _).mpr ⟨hpadded, hstates⟩).imp ?_
  rintro state final ⟨hpadded, -, hlive⟩
  rw [hlive, hpadded]

end TradingAgents.Deliberation
