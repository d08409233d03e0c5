import TradingAgents.Analyst.RunAnalysis

/-! What a run of the analyst comes to: who is decided and who is not, what the other stop mode
would have changed, and that a stronger candidate is never treated worse. -/

namespace TradingAgents.Analyst

open ProofKit
open Execution (OpenPosition PositionStopThreshold)

section

variable {kit : AnalystKit} {inputs : AnalystInputs} {fixed3 : ℚ → String} {ticker : String}
  {score : ScoreBreakdown} {regime : RegimeContext} {held stopBreached : Bool} {floor : ℚ}
  {settings : AnalystSettings} {d : AnalysisDecision} {stops : List PositionStopThreshold}
  {thresholds : Dict String PositionStopThreshold} {decisions : List AnalysisDecision}
  {tickers : List String}

/-! ### Every candidate once -/

/-- A decision names its ticker once, in a recommendation or in a rejection. -/
theorem Decided.named (h : Decided ticker score regime held floor stopBreached settings d) :
    (∃ r, d.recommendation = some r ∧ d.rejection = none ∧ r.1.ticker = ticker) ∨
    ∃ rejection, d.recommendation = none ∧ d.rejection = some rejection ∧
      rejection.ticker = ticker := by
  cases h with
  | stopped _ _ hticker _ _ => exact .inl ⟨_, rfl, rfl, hticker⟩
  | unscored _ _ => exact .inr ⟨_, rfl, rfl, rfl⟩
  | exited _ _ _ _ hticker _ _ => exact .inl ⟨_, rfl, rfl, hticker⟩
  | kept _ _ _ _ hticker _ _ => exact .inl ⟨_, rfl, rfl, hticker⟩
  | refused _ _ _ => exact .inr ⟨_, rfl, rfl, rfl⟩
  | targetless _ _ _ _ => exact .inr ⟨_, rfl, rfl, rfl⟩
  | bought _ _ _ _ hticker _ _ _ => exact .inl ⟨_, rfl, rfl, hticker⟩

theorem named_once {l : List Candidate} (h : List.Forall₂
    (fun candidate d => decisionOf kit inputs thresholds candidate.ticker = .ok d) l decisions) :
    ((decisions.filterMap AnalysisDecision.recommendation).map (fun r => r.1.ticker) ++
      (decisions.filterMap AnalysisDecision.rejection).map Rejection.ticker).Perm
        (l.map Candidate.ticker) := by
  induction h with
  | nil => exact .nil
  | @cons candidate d l decisions hd _ ih =>
    obtain ⟨score, -, hdecided⟩ := decisionOf_ok hd
    rw [List.map_cons]
    rcases hdecided.named with ⟨r, hr, hrejection, hticker⟩ | ⟨rejection, hr, hrejection, hticker⟩
    · rw [List.filterMap_cons_some hr, List.filterMap_cons_none hrejection, List.map_cons, hticker]
      exact ih.cons _
    · rw [List.filterMap_cons_none hr, List.filterMap_cons_some hrejection, List.map_cons, hticker]
      exact List.perm_middle.trans (ih.cons _)

/-- What a run that is not withdrawn says of its candidates. -/
structure RunDecided (kit : AnalystKit) (inputs : AnalystInputs)
    (stops : List PositionStopThreshold) (run : AnalysisRun) : Prop where
  named : (run.recommendations.map (fun r => r.1.ticker) ++
    run.rejections.map Rejection.ticker).Perm
      ((inputs.scoringSet.filter fun candidate => inputs.scorable candidate.ticker).map
        Candidate.ticker)
  bought : ∀ r ∈ run.recommendations, r.1.action = .buy → inputs.isHeld r.1.ticker = false ∧
    (∃ stop ∈ r.1.suggestedStopPct, 0 ≤ stop ∧ stop ≤ 1) ∧
    ∃ score, scoreOf kit inputs r.1.ticker = .ok score ∧
      inputs.regime.baseMinConfidence ≤ score.confidence
  owned : ∀ r ∈ run.recommendations, r.1.action ≠ .buy → inputs.isHeld r.1.ticker = true
  stopped : ∀ candidate ∈ inputs.scoringSet, inputs.scorable candidate.ticker = true →
    inputs.isHeld candidate.ticker = true →
    breached inputs (thresholdsOf stops) candidate.ticker = true →
    ∃ r ∈ run.recommendations, r.1.ticker = candidate.ticker ∧ r.1.action = .sell ∧
      r.1.exitTrigger = some .stop
  triggered : ∀ r ∈ run.recommendations, r.1.exitTrigger = some .stop →
    breached inputs (thresholdsOf stops) r.1.ticker = true

theorem decided_of_mem {l : List Candidate} (h : List.Forall₂
    (fun candidate d => decisionOf kit inputs thresholds candidate.ticker = .ok d) l decisions)
    {r : Recommendation} (hr : r ∈ decisions.filterMap AnalysisDecision.recommendation) :
    ∃ d score, d.recommendation = some r ∧ scoreOf kit inputs r.1.ticker = .ok score ∧
      Decided r.1.ticker score inputs.regime (inputs.isHeld r.1.ticker)
        inputs.settings.exitConfidenceFloor (breached inputs thresholds r.1.ticker)
        inputs.settings d := by
  obtain ⟨d, hd, hrec⟩ := List.mem_filterMap.mp hr
  obtain ⟨i, hi, rfl⟩ := List.getElem_of_mem hd
  obtain ⟨candidate, hdecision⟩ : ∃ candidate : Candidate,
      decisionOf kit inputs thresholds candidate.ticker = .ok decisions[i] :=
    ⟨_, h.get (h.length_eq ▸ hi) hi⟩
  obtain ⟨score, hscore, hdecided⟩ := decisionOf_ok hdecision
  have hticker : r.1.ticker = candidate.ticker := by
    rcases hdecided.named with ⟨r', hr', -, hticker⟩ | ⟨rejection, hnone, -, -⟩
    · rw [hrec] at hr'
      cases hr'
      exact hticker
    · rw [hrec] at hnone
      cases hnone
  rw [hticker]
  exact ⟨decisions[i], score, hrec, hscore, hdecided⟩

/-- The ways in which a ticker is recommended. -/
theorem Decided.recommended {r : Recommendation} (hr : d.recommendation = some r)
    (h : Decided ticker score regime held floor stopBreached settings d) :
    (r.1.action = .buy ∧ r.1.exitTrigger = none ∧ held = false ∧
      regime.baseMinConfidence ≤ score.confidence ∧
      ∃ proposal : StopTargetProposal, r.1.suggestedStopPct = some proposal.stopPct) ∨
    (r.1.action = .sell ∧ held = true ∧ (r.1.exitTrigger = some .stop ∧ stopBreached = true ∨
      r.1.exitTrigger = some .thesis ∧ stopBreached = false)) ∨
    r.1.action = .hold ∧ held = true ∧ r.1.exitTrigger = none ∧ stopBreached = false := by
  cases h with
  | stopped hheld hbreached _ haction htrigger =>
    cases hr
    exact .inr (.inl ⟨haction, hheld, .inl ⟨htrigger, hbreached⟩⟩)
  | exited hheld hintact _ _ _ haction htrigger =>
    cases hr
    exact .inr (.inl ⟨haction, hheld, .inr ⟨htrigger, hintact⟩⟩)
  | kept hheld hintact _ _ _ haction htrigger =>
    cases hr
    exact .inr (.inr ⟨haction, hheld, htrigger, hintact⟩)
  | bought hfree _ hstrong _ _ haction htrigger hstop =>
    cases hr
    exact .inl ⟨haction, htrigger, hfree, hstrong, _, hstop⟩
  | unscored _ _ => cases hr
  | refused _ _ _ => cases hr
  | targetless _ _ _ _ => cases hr

/-- A held ticker whose stop is breached is sold for it, whatever its score. -/
theorem Decided.forced (hheld : held = true) (hbreached : stopBreached = true)
    (h : Decided ticker score regime held floor stopBreached settings d) :
    ∃ r, d.recommendation = some r ∧ r.1.ticker = ticker ∧ r.1.action = .sell ∧
      r.1.exitTrigger = some .stop := by
  subst hheld hbreached
  cases h with
  | stopped _ _ hticker haction htrigger => exact ⟨_, rfl, hticker, haction, htrigger⟩
  | unscored hintact _ => cases hintact
  | exited _ hintact _ _ _ _ _ => cases hintact
  | kept _ hintact _ _ _ _ _ => cases hintact
  | refused hfree _ _ => cases hfree
  | targetless hfree _ _ _ => cases hfree
  | bought hfree _ _ _ _ _ _ _ => cases hfree

theorem decision_of_mem {l : List Candidate} (h : List.Forall₂
    (fun candidate d => decisionOf kit inputs thresholds candidate.ticker = .ok d) l decisions)
    {candidate : Candidate} (hmem : candidate ∈ l) :
    ∃ d ∈ decisions, decisionOf kit inputs thresholds candidate.ticker = .ok d := by
  induction h with
  | nil => cases hmem
  | cons hd _ ih =>
    rcases List.mem_cons.mp hmem with rfl | hmem
    · exact ⟨_, List.mem_cons_self, hd⟩
    · obtain ⟨d, hin, hdecision⟩ := ih hmem
      exact ⟨d, List.mem_cons_of_mem _ hin, hdecision⟩

theorem runDecided_of (h : List.Forall₂
    (fun candidate d => decisionOf kit inputs (thresholdsOf stops) candidate.ticker = .ok d)
    (inputs.scoringSet.filter fun candidate => inputs.scorable candidate.ticker) decisions)
    {run : AnalysisRun}
    (hrecommendations : run.recommendations = decisions.filterMap AnalysisDecision.recommendation)
    (hrejections : run.rejections = decisions.filterMap AnalysisDecision.rejection) :
    RunDecided kit inputs stops run := by
  constructor
  · rw [hrecommendations, hrejections]
    exact named_once h
  · intro r hr hbuy
    rw [hrecommendations] at hr
    obtain ⟨d, score, hrec, hscore, hdecided⟩ := decided_of_mem h hr
    rcases hdecided.recommended hrec with
      ⟨-, -, hfree, hstrong, proposal, hstop⟩ | ⟨hsell, -⟩ | ⟨hhold, -⟩
    · exact ⟨hfree, ⟨proposal.stopPct, hstop, proposal.unit.1⟩, score, hscore, hstrong⟩
    · rw [hbuy] at hsell
      cases hsell
    · rw [hbuy] at hhold
      cases hhold
  · intro r hr hother
    rw [hrecommendations] at hr
    obtain ⟨d, score, hrec, -, hdecided⟩ := decided_of_mem h hr
    rcases hdecided.recommended hrec with ⟨hbuy, -⟩ | ⟨-, hheld, -⟩ | ⟨-, hheld, -⟩
    · exact absurd hbuy hother
    · exact hheld
    · exact hheld
  · intro candidate hcandidate hscorable hheld hbreached
    obtain ⟨d, hin, hdecision⟩ :=
      decision_of_mem h (List.mem_filter.mpr ⟨hcandidate, hscorable⟩)
    obtain ⟨score, -, hdecided⟩ := decisionOf_ok hdecision
    obtain ⟨r, hr, hsold⟩ := hdecided.forced hheld hbreached
    rw [hrecommendations]
    exact ⟨r, List.mem_filterMap.mpr ⟨d, hin, hr⟩, hsold⟩
  · intro r hr hstop
    rw [hrecommendations] at hr
    obtain ⟨d, score, hrec, -, hdecided⟩ := decided_of_mem h hr
    rcases hdecided.recommended hrec with
      ⟨-, htrigger, -⟩ | ⟨-, -, ⟨-, hbreached⟩ | ⟨htrigger, -⟩⟩ | ⟨-, -, htrigger, -⟩
    · rw [hstop] at htrigger
      cases htrigger
    · exact hbreached
    · rw [hstop] at htrigger
      cases htrigger
    · rw [hstop] at htrigger
      cases htrigger

/-! ### The challenger -/

/-- The recommendation with the stop and the target that its evidence holds for the other mode. -/
def RecommendationShown.exchanged (r : RecommendationShown) : RecommendationShown :=
  { r with
    suggestedStopPct := r.stopTargetEvidence.map fun e => e.1.counterfactualStopPct
    suggestedTargetPct := r.stopTargetEvidence.map fun e => e.1.counterfactualTargetPct
    stopTargetEvidence := r.stopTargetEvidence.map fun e => ⟨e.1.exchanged, e.2.exchanged⟩ }

theorem RecommendationShown.Valid.exchanged {r : RecommendationShown} (h : r.Valid) :
    r.exchanged.Valid := by
  refine ⟨h.confidence, fun x hx => ?_, fun x hx => ?_, h.metrics⟩
  · obtain ⟨e, -, rfl⟩ := Option.map_eq_some_iff.mp (Option.mem_toList.mp hx)
    exact e.2.levels _ (by simp)
  · obtain ⟨e, -, rfl⟩ := Option.map_eq_some_iff.mp (Option.mem_toList.mp hx)
    exact e.2.levels _ (by simp)

def Recommendation.exchanged (r : Recommendation) : Recommendation :=
  ⟨r.1.exchanged, r.2.exchanged⟩

/-- The inputs with the other stop mode. -/
def AnalystInputs.challenger (inputs : AnalystInputs) : AnalystInputs :=
  { inputs with settings := inputs.settings.challenger }

/-- The decision with its recommendation exchanged. -/
def AnalysisDecision.exchanged (d : AnalysisDecision) : AnalysisDecision :=
  { d with recommendation := d.recommendation.map Recommendation.exchanged }

theorem buildRecommendation_exchanged (ticker : String) (score : ScoreBreakdown) (action : Action)
    (rationale : Explanation) (trigger : Option ExitTrigger)
    (stopTarget : Option StopTargetProposal) :
    buildRecommendation ticker score action rationale trigger
        (stopTarget.map StopTargetProposal.exchanged) =
      (buildRecommendation ticker score action rationale trigger stopTarget).map
        Recommendation.exchanged := by
  have hadmit : ∀ shown back : RecommendationShown, shown.exchanged = back →
      back.exchanged = shown → back.admit = shown.admit.map Recommendation.exchanged := by
    intro shown back hback hshown
    subst hback
    unfold RecommendationShown.admit
    by_cases hvalid : shown.Valid
    · rw [dif_pos hvalid, dif_pos hvalid.exchanged]
      rfl
    · have hinvalid : ¬shown.exchanged.Valid := by
        intro h
        apply hvalid
        rw [← hshown]
        exact h.exchanged
      rw [dif_neg hvalid, dif_neg hinvalid]
      rfl
  unfold buildRecommendation
  cases stopTarget with
  | none => exact hadmit _ _ rfl rfl
  | some proposal =>
    obtain ⟨stop, target, evidence, hstop, htarget⟩ := proposal
    subst hstop htarget
    exact hadmit _ _ rfl rfl

/-- The other stop mode decides the same of a candidate, with the other stop and target on a buy. -/
theorem decide_challenger : AnalysisDecision.decide fixed3 ticker score regime held floor
      stopBreached settings.challenger =
    (AnalysisDecision.decide fixed3 ticker score regime held floor stopBreached settings).map
      AnalysisDecision.exchanged := by
  have hrecommend : ∀ (x : Except HandlerError Recommendation) (reading : Option SentimentReading),
      (x.map Recommendation.exchanged).map
          (fun r => (⟨some r, none, reading⟩ : AnalysisDecision)) =
        (x.map fun r => (⟨some r, none, reading⟩ : AnalysisDecision)).map
          AnalysisDecision.exchanged := by
    intro x reading
    cases x <;> rfl
  have hheld : ∀ action trigger, heldRecommendation fixed3 ticker score action floor trigger =
      (heldRecommendation fixed3 ticker score action floor trigger).map
        Recommendation.exchanged := fun action trigger =>
    buildRecommendation_exchanged ticker score action _ trigger none
  unfold AnalysisDecision.decide
  dsimp only
  split
  · rw [← hrecommend, ← hheld]
  · split
    · rfl
    · split
      · split
        · rw [← hrecommend, ← hheld]
        · rw [← hrecommend, ← hheld]
      · split
        · rfl
        · rw [resolveStopTarget_challenger]
          cases resolveStopTarget regime score.metrics settings with
          | error e => rfl
          | ok stopTarget =>
            cases stopTarget with
            | none => rfl
            | some proposal =>
              show Except.map _ (buildRecommendation _ _ _ _ _
                ((some proposal).map StopTargetProposal.exchanged)) = _
              rw [buildRecommendation_exchanged, hrecommend]
              rfl

theorem decisionOf_challenger : decisionOf kit inputs.challenger thresholds ticker =
    (decisionOf kit inputs thresholds ticker).map AnalysisDecision.exchanged := by
  show (scoreOf kit inputs ticker >>= fun score => AnalysisDecision.decide kit.fixed3 ticker score
    inputs.regime (inputs.isHeld ticker) inputs.settings.exitConfidenceFloor
    (breached inputs thresholds ticker) inputs.settings.challenger) = _
  unfold decisionOf
  cases scoreOf kit inputs ticker with
  | error e => rfl
  | ok score =>
    rw [Fallible.ok_bind, Fallible.ok_bind]
    exact decide_challenger

theorem scoreFrom_challenger (l : List Candidate) :
    (scoreFrom kit inputs.challenger thresholds l).1 = (scoreFrom kit inputs thresholds l).1 ∧
    (scoreFrom kit inputs.challenger thresholds l).2 =
      (scoreFrom kit inputs thresholds l).2.map fun decisions =>
        decisions.map AnalysisDecision.exchanged := by
  induction l with
  | nil => exact ⟨rfl, rfl⟩
  | cons candidate rest ih =>
    obtain ⟨hfaults, hdecisions⟩ := ih
    rw [scoreFrom, scoreFrom]
    by_cases hscorable : inputs.scorable candidate.ticker = true
    · have hscorable' : inputs.challenger.scorable candidate.ticker = true := hscorable
      rw [if_pos hscorable, if_pos hscorable', decisionOf_challenger]
      cases decisionOf kit inputs thresholds candidate.ticker with
      | error e => exact ⟨rfl, rfl⟩
      | ok d =>
        refine ⟨hfaults, ?_⟩
        show (scoreFrom kit inputs.challenger thresholds rest).2.map _ =
          ((scoreFrom kit inputs thresholds rest).2.map _).map _
        rw [hdecisions]
        cases (scoreFrom kit inputs thresholds rest).2 with
        | error e => rfl
        | ok decisions => rfl
    · have hscorable' : ¬inputs.challenger.scorable candidate.ticker = true := hscorable
      rw [if_neg hscorable, if_neg hscorable']
      refine ⟨?_, hdecisions⟩
      show AnalystFault.noMarketData candidate.ticker :: _ = AnalystFault.noMarketData _ :: _
      rw [hfaults]

theorem filterMap_exchanged (decisions : List AnalysisDecision) :
    (decisions.map AnalysisDecision.exchanged).filterMap AnalysisDecision.recommendation =
      (decisions.filterMap AnalysisDecision.recommendation).map Recommendation.exchanged := by
  rw [List.filterMap_map, List.map_filterMap]
  rfl

theorem runExplanation_exchanged (recommendations : List Recommendation)
    (rejections : List Rejection) (regime : RegimeContext) :
    runExplanation (recommendations.map Recommendation.exchanged) rejections regime =
      runExplanation recommendations rejections regime := by
  cases recommendations with
  | nil => rfl
  | cons r rest =>
    unfold runExplanation
    rw [if_neg (List.cons_ne_nil _ _), List.length_map]
    exact if_neg (List.cons_ne_nil _ _)

/-- The run with its recommendations exchanged. -/
def AnalysisRun.exchanged (run : AnalysisRun) : AnalysisRun :=
  { run with recommendations := run.recommendations.map Recommendation.exchanged }

/-- The scanner's candidates and the held tickers are all in the scoring set.  Either the run is
withdrawn, and rejects all of them for one reason, which is so exactly where the market, the regime,
the stops or the scoring of any one of them fails; or every one that can be scored is recommended or
rejected, once: buys are of tickers that are not held and clear the floor of the regime, sells and
holds are of held ones, and the stop exits are those whose stop is breached. -/
theorem runAnalysis_accounts (kit : AnalystKit) (inputs : AnalystInputs) :
    let run := runAnalysis kit inputs
    (∀ candidate ∈ inputs.candidates, candidate ∈ run.scoringSet) ∧
    (∀ position ∈ inputs.heldPositions,
      position.ticker ∈ run.scoringSet.map Candidate.ticker) ∧
    (Withdrawn kit inputs ∧ run.recommendations = [] ∧
        (∃ reason, run.rejections = run.scoringSet.map fun candidate =>
          ⟨candidate.ticker, reason⟩) ∨
      ¬Withdrawn kit inputs ∧
        ∃ stops, inputs.heldStops = .ok stops ∧ RunDecided kit inputs stops run) := by
  intro run
  have hset : run.scoringSet = inputs.scoringSet := by
    show (runAnalysis kit inputs).scoringSet = _
    unfold runAnalysis
    split
    · rfl
    · split
      · rfl
      · split
        · rfl
        · split <;> rfl
  refine ⟨fun candidate h => ?_, fun position h => ?_, ?_⟩
  · rw [hset]
    exact candidates_in_universe h
  · rw [hset]
    exact held_in_universe h
  · have hempty : ∀ reason faults, run = emptyResult inputs reason faults →
        run.recommendations = [] ∧ ∃ reason, run.rejections = run.scoringSet.map fun candidate =>
          ⟨candidate.ticker, reason⟩ := by
      intro reason faults hrun
      rw [hrun]
      exact ⟨rfl, reason, rfl⟩
    by_cases hmarket : inputs.usedFallback = true
    · exact .inl ⟨.market hmarket, hempty _ _ (if_pos hmarket)⟩
    have hrun : run = _ := if_neg hmarket
    by_cases hregime : inputs.regime.incidentRefs ≠ []
    · rw [if_pos hregime] at hrun
      exact .inl ⟨.regime hregime, hempty _ _ hrun⟩
    rw [if_neg hregime] at hrun
    cases hstops : inputs.heldStops with
    | error e =>
      rw [hstops] at hrun
      exact .inl ⟨.stops e hstops, hempty _ _ hrun⟩
    | ok stops =>
      rw [hstops] at hrun
      dsimp only at hrun
      have hstops' : ∀ {stops'}, inputs.heldStops = .ok stops' → stops' = stops := by
        intro stops' hother
        rw [hstops] at hother
        cases hother
        rfl
      have houtcome := @scoreFrom_outcome kit inputs (thresholdsOf stops) inputs.scoringSet
      generalize hscored : scoreFrom kit inputs (thresholdsOf stops) inputs.scoringSet = scored
        at houtcome
      obtain ⟨faults, result⟩ := scored
      rw [scoreCandidates, hscored] at hrun
      rcases houtcome with ⟨decisions, hok, hall⟩ | ⟨candidate, hmem, hscorable, e, hraised, herror⟩
      · have hresult : result = .ok decisions := hok
        rw [hresult] at hrun
        refine .inr ⟨?_, stops, rfl, ?_⟩
        · intro hwithdrawn
          cases hwithdrawn with
          | market h => exact hmarket h
          | regime h => exact hregime h
          | stops e h => rw [hstops] at h; cases h
          | scoring stops' h candidate hmem hscorable e hraised =>
            rw [hstops' h] at hraised
            obtain ⟨d, -, hdecision⟩ :=
              decision_of_mem hall (List.mem_filter.mpr ⟨hmem, hscorable⟩)
            rw [hdecision] at hraised
            cases hraised
        · apply runDecided_of hall
          · rw [hrun]
          · rw [hrun]
      · have hresult : result = .error e := herror
        rw [hresult] at hrun
        exact .inl ⟨.scoring stops hstops candidate hmem hscorable e hraised, hempty _ _ hrun⟩

/-- The evidence of a run is what the other stop mode would have come to: it reaches the same
decisions with the same readings, reasons and faults, and its stops and targets are those that the
recommendations of this run hold as counterfactual. -/
theorem runAnalysis_challenger (kit : AnalystKit) (inputs : AnalystInputs) :
    runAnalysis kit inputs.challenger = (runAnalysis kit inputs).exchanged := by
  unfold runAnalysis
  by_cases hmarket : inputs.usedFallback = true
  · rw [if_pos hmarket]
    exact if_pos hmarket
  rw [if_neg hmarket]
  refine (if_neg hmarket).trans ?_
  by_cases hregime : inputs.regime.incidentRefs ≠ []
  · rw [if_pos hregime]
    exact if_pos hregime
  rw [if_neg hregime]
  refine (if_neg hregime).trans ?_
  have hstops : inputs.challenger.heldStops = inputs.heldStops := rfl
  rw [hstops]
  cases inputs.heldStops with
  | error e => rfl
  | ok stops =>
    dsimp only
    obtain ⟨hfaults, hdecisions⟩ := @scoreFrom_challenger kit inputs (thresholdsOf stops)
      inputs.scoringSet
    have hset : inputs.challenger.scoringSet = inputs.scoringSet := rfl
    unfold scoreCandidates
    rw [hset]
    generalize scoreFrom kit inputs.challenger (thresholdsOf stops) inputs.scoringSet = other
      at hfaults hdecisions
    generalize scoreFrom kit inputs (thresholdsOf stops) inputs.scoringSet = scored
      at hfaults hdecisions
    obtain ⟨faults, decided⟩ := scored
    obtain ⟨faults', decided'⟩ := other
    dsimp only at hfaults hdecisions
    subst hfaults hdecisions
    cases decided with
    | error e => rfl
    | ok decisions =>
      have hkept : ∀ {β : Type} (f : AnalysisDecision → Option β), (∀ d, f d.exchanged = f d) →
          (decisions.map AnalysisDecision.exchanged).filterMap f = decisions.filterMap f := by
        intro β f hf
        rw [List.filterMap_map]
        exact List.filterMap_congr fun d _ => hf d
      have hrejections := hkept AnalysisDecision.rejection fun _ => rfl
      have hreadings := hkept AnalysisDecision.sentimentReading fun _ => rfl
      show AnalysisRun.mk _ _ _ _ _ _ = AnalysisRun.mk _ _ _ _ _ _
      rw [filterMap_exchanged, hrejections, hreadings, runExplanation_exchanged]
      rfl

/-! ### Stronger candidates -/

section

variable {inputs' : AnalystInputs} {thresholds' : Dict String PositionStopThreshold}
  {ticker' : String} {score' : ScoreBreakdown} {d' : AnalysisDecision}

/-- The pillars of a candidate of a run. -/
def candidatePillars (kit : AnalystKit) (inputs : AnalystInputs) (ticker : String) : Pillars :=
  pillarsOf kit.toScoringKit ticker (inputs.tickerBars ticker)
    ((inputs.fundamentals.get? ticker).getD .empty) inputs.benchmark
    ((inputs.news.get? ticker).getD []) inputs.settings (some (batchHeadlineWeights inputs.news))
    ((alphaScores kit inputs).get? ticker)

/-- With a history, a candidate of a run is scored on its pillars. -/
theorem scored_of_scoreOf
    (hhistory : inputs.settings.minHistoryBars ≤ (inputs.tickerBars ticker).length)
    (h : scoreOf kit inputs ticker = .ok score) :
    score.rejectionReason = none ∧ ∃ c,
      composite (candidatePillars kit inputs ticker) inputs.settings = .ok c ∧
      score.confidence = confidenceOf inputs.settings c := by
  have huncrossed : ¬Crossed (orderedBars (inputs.tickerBars ticker))
      inputs.settings.choppinessPeriod := by
    intro hcrossed
    obtain ⟨e, hraised⟩ := @scoreCandidate_crossed kit.toScoringKit ticker
      (inputs.tickerBars ticker) inputs.benchmark
      ((inputs.fundamentals.get? ticker).getD .empty) ((inputs.news.get? ticker).getD [])
      inputs.settings (some (batchHeadlineWeights inputs.news))
      ((alphaScores kit inputs).get? ticker) hhistory hcrossed
    have hsame : scoreOf kit inputs ticker = .error e := hraised
    rw [hsame] at h
    cases h
  obtain ⟨hok, herror⟩ := @scoreCandidate_scored kit.toScoringKit ticker (inputs.tickerBars ticker)
    inputs.benchmark ((inputs.fundamentals.get? ticker).getD .empty)
    ((inputs.news.get? ticker).getD []) inputs.settings
    (some (batchHeadlineWeights inputs.news)) ((alphaScores kit inputs).get? ticker) hhistory
    huncrossed (batchHeadlineWeights_pos inputs.news)
  cases hcomposite : composite (candidatePillars kit inputs ticker) inputs.settings with
  | error e =>
    have hraised : scoreOf kit inputs ticker = .error e := herror e hcomposite
    rw [hraised] at h
    cases h
  | ok c =>
    obtain ⟨found, hfound, hscored⟩ := hok c hcomposite
    have hsame : scoreOf kit inputs ticker = .ok found := hfound
    rw [hsame] at h
    cases h
    obtain ⟨c', hc', hconfidence⟩ := hscored.confidence
    have hcc : composite (candidatePillars kit inputs ticker) inputs.settings = .ok c' := hc'
    rw [hcomposite] at hcc
    cases hcc
    exact ⟨hscored.accepted, c, rfl, hconfidence⟩

/-- A free ticker that clears the floor of the regime is bought, unless it has no target. -/
theorem Decided.free (hfree : held = false) (hscored : score.rejectionReason = none)
    (hstrong : regime.baseMinConfidence ≤ score.confidence)
    (h : Decided ticker score regime held floor stopBreached settings d) :
    (∃ r, d.recommendation = some r ∧ r.1.action = .buy) ∨
      d.rejection = some ⟨ticker, "target_estimate_unavailable"⟩ := by
  subst hfree
  cases h with
  | stopped hheld _ _ _ _ => cases hheld
  | unscored _ hreason => rw [hscored] at hreason; cases hreason
  | exited hheld _ _ _ _ _ _ => cases hheld
  | kept hheld _ _ _ _ _ _ => cases hheld
  | refused _ _ hweak => exact absurd hstrong (not_le.mpr hweak)
  | targetless _ _ _ _ => exact .inr rfl
  | bought _ _ _ _ _ haction _ _ => exact .inl ⟨_, rfl, haction⟩

/-- A held ticker whose stop holds is kept at its exit floor and sold below it. -/
theorem Decided.intact (hheld : held = true) (hintact : stopBreached = false)
    (hscored : score.rejectionReason = none)
    (h : Decided ticker score regime held floor stopBreached settings d) :
    ∃ r, d.recommendation = some r ∧
      (floor ≤ score.confidence ∧ r.1.action = .hold ∧ r.1.exitTrigger = none ∨
      score.confidence < floor ∧ r.1.action = .sell ∧ r.1.exitTrigger = some .thesis) := by
  subst hheld hintact
  cases h with
  | stopped _ hbreached _ _ _ => cases hbreached
  | unscored _ hreason => rw [hscored] at hreason; cases hreason
  | exited _ _ _ hweak _ haction htrigger => exact ⟨_, rfl, .inr ⟨hweak, haction, htrigger⟩⟩
  | kept _ _ _ hstrong _ haction htrigger => exact ⟨_, rfl, .inl ⟨hstrong, haction, htrigger⟩⟩
  | refused hfree _ _ => cases hfree
  | targetless hfree _ _ _ => cases hfree
  | bought hfree _ _ _ _ _ _ _ => cases hfree

/-- A stronger candidate in the same standing, of the same run or of another one under the same
regime and settings, is not treated worse: its confidence is no lower, it is bought where the weaker
one is, unless it has no target, held where the weaker one is, and never sold on a thesis on which
the weaker one is not sold. -/
theorem decisionOf_stronger (hsettings : inputs'.settings = inputs.settings)
    (hregime : inputs'.regime = inputs.regime)
    (hheld : inputs'.isHeld ticker' = inputs.isHeld ticker)
    (hbreached : breached inputs' thresholds' ticker' = breached inputs thresholds ticker)
    (hhistory : inputs.settings.minHistoryBars ≤ (inputs.tickerBars ticker).length)
    (hhistory' : inputs'.settings.minHistoryBars ≤ (inputs'.tickerBars ticker').length)
    (hbelow : (candidatePillars kit inputs ticker).Below (candidatePillars kit inputs' ticker'))
    (hd : decisionOf kit inputs thresholds ticker = .ok d)
    (hd' : decisionOf kit inputs' thresholds' ticker' = .ok d') :
    (∀ score score', scoreOf kit inputs ticker = .ok score →
      scoreOf kit inputs' ticker' = .ok score' → score.confidence ≤ score'.confidence) ∧
    (∀ r ∈ d.recommendation, r.1.action = .buy →
      (∃ r' ∈ d'.recommendation, r'.1.action = .buy) ∨
        d'.rejection = some ⟨ticker', "target_estimate_unavailable"⟩) ∧
    (∀ r ∈ d.recommendation, r.1.action = .hold → ∃ r' ∈ d'.recommendation, r'.1.action = .hold) ∧
    ∀ r' ∈ d'.recommendation, r'.1.exitTrigger = some .thesis →
      ∃ r ∈ d.recommendation, r.1.exitTrigger = some .thesis := by
  obtain ⟨score, hscore, hdecided⟩ := decisionOf_ok hd
  obtain ⟨score', hscore', hdecided'⟩ := decisionOf_ok hd'
  obtain ⟨haccepted, c, hc, hconfidence⟩ := scored_of_scoreOf hhistory hscore
  obtain ⟨haccepted', c', hc', hconfidence'⟩ := scored_of_scoreOf hhistory' hscore'
  rw [hsettings] at hc' hconfidence' hdecided'
  rw [hregime, hheld, hbreached] at hdecided'
  have hle : score.confidence ≤ score'.confidence := by
    obtain ⟨c'', hc'', hle⟩ := hbelow.composite hc
    rw [hc'] at hc''
    cases hc''
    rw [hconfidence, hconfidence']
    exact confidenceOf_mono inputs.settings hle
  refine ⟨?_, ?_, ?_, ?_⟩
  · intro found found' hfound hfound'
    rw [hscore] at hfound
    rw [hscore'] at hfound'
    cases hfound
    cases hfound'
    exact hle
  · intro r hr hbuy
    rcases hdecided.recommended hr with ⟨-, -, hfree, hstrong, -⟩ | ⟨hsell, -⟩ | ⟨hhold, -⟩
    · exact hdecided'.free hfree haccepted' (hstrong.trans hle)
    · rw [hbuy] at hsell
      cases hsell
    · rw [hbuy] at hhold
      cases hhold
  · intro r hr hhold
    rcases hdecided.recommended hr with ⟨hbuy, -⟩ | ⟨hsell, -⟩ | ⟨-, howned, -, hintact⟩
    · rw [hhold] at hbuy
      cases hbuy
    · rw [hhold] at hsell
      cases hsell
    · obtain ⟨r₀, hr₀, ⟨hstrong, -⟩ | ⟨-, hsell, -⟩⟩ := hdecided.intact howned hintact haccepted
      · obtain ⟨r', hr', ⟨-, hkept, -⟩ | ⟨hweak, -⟩⟩ :=
          hdecided'.intact howned hintact haccepted'
        · exact ⟨r', hr', hkept⟩
        · exact absurd (hstrong.trans hle) (not_le.mpr hweak)
      · have hsame : d.recommendation = some r := hr
        rw [hr₀] at hsame
        cases hsame
        rw [hhold] at hsell
        cases hsell
  · intro r' hr' hthesis
    rcases hdecided'.recommended hr' with
      ⟨-, htrigger, -⟩ | ⟨-, howned, ⟨htrigger, -⟩ | ⟨-, hintact⟩⟩ | ⟨-, -, htrigger, -⟩
    · rw [hthesis] at htrigger
      cases htrigger
    · rw [hthesis] at htrigger
      cases htrigger
    · obtain ⟨r, hr, ⟨hstrong, -⟩ | ⟨-, -, hsold⟩⟩ := hdecided.intact howned hintact haccepted
      · obtain ⟨r₀, hr₀, ⟨-, -, hkept⟩ | ⟨hweak, -⟩⟩ :=
          hdecided'.intact howned hintact haccepted'
        · have hsame : d'.recommendation = some r' := hr'
          rw [hr₀] at hsame
          cases hsame
          rw [hthesis] at hkept
          cases hkept
        · exact absurd (hstrong.trans hle) (not_le.mpr hweak)
      · exact ⟨r, hr, hsold⟩
    · rw [hthesis] at htrigger
      cases htrigger

end

end

/-- Two held tickers, of which one is the cheaper by its earnings. -/
def twoHeld : AnalystInputs where
  candidates := []
  heldPositions := [⟨"IBM", 3, "ibm-1"⟩, ⟨"NVDA", 4, "nvda-1"⟩]
  bars := [flatBar "IBM" 5 211 (by norm_num), flatBar "IBM" 6 213 (by norm_num),
    flatBar "NVDA" 5 121 (by norm_num), flatBar "NVDA" 6 123 (by norm_num)]
  benchmark := []
  fundamentals := .ofList [("IBM", .ofList [("peTTM", 61)]), ("NVDA", .ofList [("peTTM", 9)])]
  news := .empty
  sentiment := .empty
  usedFallback := false
  regime := {
    label := "neutral"
    baseMinConfidence := 11 / 20
    baseStopLossPct := 3 / 50
    baseTakeProfitPct := 3 / 25 }
  heldStops := .ok []
  activeStopRefs := []
  settings := {}

theorem decisionOf_stronger_twoHeld : ∃ d d',
    decisionOf ⟨quietKit, fun _ => "0.667"⟩ twoHeld .empty "IBM" = .ok d ∧
    decisionOf ⟨quietKit, fun _ => "0.667"⟩ twoHeld .empty "NVDA" = .ok d' ∧
    ∀ r ∈ d.recommendation, r.1.action = .hold → ∃ r' ∈ d'.recommendation, r'.1.action = .hold := by
  have hok : ∀ {x : Except HandlerError AnalysisDecision}, x.isOk = true → ∃ d, x = .ok d := by
    intro x hx
    cases x with
    | error e => cases hx
    | ok d => exact ⟨d, rfl⟩
  obtain ⟨d, hd⟩ := @hok (decisionOf ⟨quietKit, fun _ => "0.667"⟩ twoHeld .empty "IBM")
    (by decide +kernel)
  obtain ⟨d', hd'⟩ := @hok (decisionOf ⟨quietKit, fun _ => "0.667"⟩ twoHeld .empty "NVDA")
    (by decide +kernel)
  have hfundamental : (candidatePillars ⟨quietKit, fun _ => "0.667"⟩ twoHeld "IBM").fundamental =
      some (3 / 10) := by decide +kernel
  have hfundamental' : (candidatePillars ⟨quietKit, fun _ => "0.667"⟩ twoHeld "NVDA").fundamental =
      some (4 / 5) := by decide +kernel
  refine ⟨d, d', hd, hd', (decisionOf_stronger rfl rfl (by decide) (by decide +kernel)
    (by decide +kernel) (by decide +kernel) ⟨by decide +kernel, ?_, .none, .none⟩ hd hd').2.2.1⟩
  rw [hfundamental, hfundamental']
  exact .some (by norm_num)

end TradingAgents.Analyst
