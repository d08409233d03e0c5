import TradingAgents.Analyst.AlphaPillar
import TradingAgents.Analyst.Decision
import TradingAgents.Execution.StopLevels

/-! A run of the analyst over the scanner's candidates and the held tickers.  The run as a whole is
withdrawn, or every candidate that can be scored is decided on its own. -/

namespace TradingAgents.Analyst

open ProofKit
open Execution (OpenPosition PositionStopThreshold stopPriceCents roundHalfUp)

structure AnalystKit extends ScoringKit where
  fixed3 : ℚ → String

/-- What a run reads.  The stop thresholds of the held positions may not be representable. -/
structure AnalystInputs where
  candidates : List Candidate
  heldPositions : List OpenPosition
  bars : List OHLCVBar
  benchmark : List OHLCVBar
  fundamentals : Dict String (Dict String ℚ)
  news : Dict String (List String)
  sentiment : Dict String ℚ
  usedFallback : Bool
  regime : RegimeContext
  heldStops : Except HandlerError (List PositionStopThreshold)
  activeStopRefs : List String
  settings : AnalystSettings

/-- What a run reports to the fault sink. -/
inductive AnalystFault where
  | degradedMarketData
  | degradedRegime
  | noThresholds (e : HandlerError)
  | noMarketData (ticker : String)
  | scoringFailed (e : HandlerError)
deriving DecidableEq

/-- What a run came to. -/
structure AnalysisRun where
  scoringSet : List Candidate
  recommendations : List Recommendation
  rejections : List Rejection
  readings : List SentimentReading
  summary : String
  faults : List AnalystFault
deriving DecidableEq

/-- The candidates, and the held positions that are not among them. -/
def scoringUniverse (candidates : List Candidate) (held : List OpenPosition) : List Candidate :=
  let seen := candidates.map Candidate.ticker
  candidates ++ (held.zipIdx.filter fun position => decide (position.1.ticker ∉ seen)).map
    fun position => ⟨position.1.ticker, seen.dedup.length + 1 + position.2, 0, by omega⟩

namespace AnalystInputs

variable (inputs : AnalystInputs)

def isHeld (ticker : String) : Bool :=
  decide (ticker ∈ inputs.heldPositions.map OpenPosition.ticker)

def tickerBars (ticker : String) : List OHLCVBar :=
  ((groupBy BarOf.ticker id inputs.bars).get? ticker).getD []

/-- A held ticker without bars is skipped. -/
def scorable (ticker : String) : Bool :=
  !inputs.isHeld ticker || !(inputs.tickerBars ticker).isEmpty

def scoringSet : List Candidate := scoringUniverse inputs.candidates inputs.heldPositions

end AnalystInputs

/-- The latest bar; the first of those of one day. -/
def latestBar (bars : List OHLCVBar) : Option OHLCVBar := bars.maxOn? BarOf.barDate

/-- The stop thresholds by ticker; the last of a ticker stands. -/
def thresholdsOf (stops : List PositionStopThreshold) : Dict String PositionStopThreshold :=
  .ofList (stops.map fun threshold => (threshold.ticker, threshold))

/-- Whether the latest close is at or through the stop of the position, unless a live stop order at
the broker covers it. -/
def stopBreached (bars : List OHLCVBar) (threshold : Option PositionStopThreshold)
    (activeStopRefs : List String) : Bool :=
  match threshold, latestBar bars with
  | some threshold, some bar =>
    if threshold.positionRef ∈ activeStopRefs then false
    else decide (roundHalfUp (bar.close * 100) ≤
      stopPriceCents threshold.openedPriceCents threshold.stopPct)
  | _, _ => false

section

variable (kit : AnalystKit) (inputs : AnalystInputs)

/-- The cross-section of the tickers of a run, while the pillar is switched on. -/
def crossScores : Except HandlerError (Dict String ℚ) :=
  if 0 < inputs.settings.alpha158PillarWeight then
    crossSection kit.math ((inputs.scoringSet.map Candidate.ticker).dedup.map fun ticker =>
      (ticker, inputs.tickerBars ticker))
  else .ok .empty

/-- The cross-section never fails a run. -/
theorem crossScores_total : ∃ scores, crossScores kit inputs = .ok scores := by
  unfold crossScores
  split
  · exact crossSection_total _
  · exact ⟨.empty, rfl⟩

/-- The scores of the cross-section; `crossScores_total` excludes the second branch. -/
def alphaScores : Dict String ℚ :=
  match crossScores kit inputs with
  | .ok scores => scores
  | .error _ => .empty

/-- The score of one candidate of a run. -/
def scoreOf (ticker : String) : Except HandlerError ScoreBreakdown :=
  scoreCandidate kit.toScoringKit ticker (inputs.tickerBars ticker)
    ((inputs.fundamentals.get? ticker).getD .empty) inputs.benchmark
    ((inputs.news.get? ticker).getD []) inputs.settings (some (batchHeadlineWeights inputs.news))
    ((alphaScores kit inputs).get? ticker)

def breached (thresholds : Dict String PositionStopThreshold) (ticker : String) : Bool :=
  stopBreached (inputs.tickerBars ticker) (thresholds.get? ticker) inputs.activeStopRefs

/-- The decision on one candidate of a run. -/
def decisionOf (thresholds : Dict String PositionStopThreshold) (ticker : String) :
    Except HandlerError AnalysisDecision := do
  let score ← scoreOf kit inputs ticker
  AnalysisDecision.decide kit.fixed3 ticker score inputs.regime (inputs.isHeld ticker)
    inputs.settings.exitConfidenceFloor (breached inputs thresholds ticker) inputs.settings

/-- The loop over the candidates: the faults it reports, and the decisions unless it raises. -/
def scoreFrom (thresholds : Dict String PositionStopThreshold) :
    List Candidate → List AnalystFault × Except HandlerError (List AnalysisDecision)
  | [] => ([], .ok [])
  | candidate :: rest =>
    if inputs.scorable candidate.ticker then
      match decisionOf kit inputs thresholds candidate.ticker with
      | .error e => ([], .error e)
      | .ok decision =>
        let (faults, decisions) := scoreFrom thresholds rest
        (faults, decisions.map (decision :: ·))
    else
      let (faults, decisions) := scoreFrom thresholds rest
      (.noMarketData candidate.ticker :: faults, decisions)

/-- Score all candidates; the first one that raises withdraws the decisions on all. -/
def scoreCandidates (stops : List PositionStopThreshold) :
    List AnalystFault × Option (List AnalysisDecision) :=
  match scoreFrom kit inputs (thresholdsOf stops) inputs.scoringSet with
  | (faults, .ok decisions) => (faults, some decisions)
  | (faults, .error e) => (faults ++ [.scoringFailed e], none)

/-- `build_empty_result`: every candidate is rejected for one reason. -/
def emptyResult (reason : String) (faults : List AnalystFault) : AnalysisRun where
  scoringSet := inputs.scoringSet
  recommendations := []
  rejections := inputs.scoringSet.map fun candidate => ⟨candidate.ticker, reason⟩
  readings := []
  summary := "No recommendations: " ++ reason ++ "."
  faults := faults

def runExplanation (recommendations : List Recommendation) (rejections : List Rejection)
    (regime : RegimeContext) : String :=
  if recommendations = [] then
    "No candidates cleared the " ++ regime.label ++ " confidence floor; " ++
      toString rejections.length ++ " were rejected with reasons."
  else toString recommendations.length ++ " recommendations cleared the " ++ regime.label ++
    " confidence floor; " ++ toString rejections.length ++ " candidates were rejected."

/-- Score the candidates against the market and the regime. -/
def runAnalysis : AnalysisRun :=
  if inputs.usedFallback then
    emptyResult inputs "provider market data degraded" [.degradedMarketData]
  else if inputs.regime.incidentRefs ≠ [] then
    emptyResult inputs "provider regime data degraded" [.degradedRegime]
  else match inputs.heldStops with
    | .error e => emptyResult inputs "held position stop threshold unavailable" [.noThresholds e]
    | .ok stops =>
      match scoreCandidates kit inputs stops with
      | (faults, none) => emptyResult inputs "analyst scoring failed" faults
      | (faults, some decisions) =>
        let recommendations := decisions.filterMap AnalysisDecision.recommendation
        let rejections := decisions.filterMap AnalysisDecision.rejection
        { scoringSet := inputs.scoringSet
          recommendations := recommendations
          rejections := rejections
          readings := decisions.filterMap AnalysisDecision.sentimentReading ++
            inputs.scoringSet.filterMap fun candidate =>
              (inputs.sentiment.get? candidate.ticker).map (providerReading candidate.ticker)
          summary := runExplanation recommendations rejections inputs.regime
          faults := faults }

/-- What withdraws a run. -/
inductive Withdrawn : Prop where
  | market (h : inputs.usedFallback = true)
  | regime (h : inputs.regime.incidentRefs ≠ [])
  | stops (e : HandlerError) (h : inputs.heldStops = .error e)
  | scoring (stops : List PositionStopThreshold) (h : inputs.heldStops = .ok stops)
      (candidate : Candidate) (hmem : candidate ∈ inputs.scoringSet)
      (hscorable : inputs.scorable candidate.ticker = true) (e : HandlerError)
      (hraised : decisionOf kit inputs (thresholdsOf stops) candidate.ticker = .error e)

end

/-! ### The universe -/

section

variable {kit : AnalystKit} {inputs : AnalystInputs} {candidates : List Candidate}
  {held : List OpenPosition} {thresholds : Dict String PositionStopThreshold}
  {stops : List PositionStopThreshold} {decisions : List AnalysisDecision} {ticker : String}
  {d : AnalysisDecision}

theorem candidates_in_universe {candidate : Candidate} (h : candidate ∈ candidates) :
    candidate ∈ scoringUniverse candidates held :=
  List.mem_append_left _ h

theorem held_in_universe {position : OpenPosition} (h : position ∈ held) :
    position.ticker ∈ (scoringUniverse candidates held).map Candidate.ticker := by
  rw [scoringUniverse, List.map_append, List.mem_append, List.map_map]
  by_cases hseen : position.ticker ∈ candidates.map Candidate.ticker
  · exact .inl hseen
  · obtain ⟨i, hi, hposition⟩ := List.getElem_of_mem h
    have hindexed : (position, i) ∈ held.zipIdx := by
      rw [List.mem_zipIdx_iff_getElem?, List.getElem?_eq_getElem hi, hposition]
    exact .inr (List.mem_map.mpr ⟨(position, i),
      List.mem_filter.mpr ⟨hindexed, decide_eq_true hseen⟩, rfl⟩)

/-! ### The loop -/

/-- The loop decides every candidate that it can score, in their order, unless one of them
raises. -/
theorem scoreFrom_outcome (l : List Candidate) :
    (∃ decisions, (scoreFrom kit inputs thresholds l).2 = .ok decisions ∧
      List.Forall₂ (fun candidate d => decisionOf kit inputs thresholds candidate.ticker = .ok d)
        (l.filter fun candidate => inputs.scorable candidate.ticker) decisions) ∨
    ∃ candidate ∈ l, inputs.scorable candidate.ticker = true ∧
      ∃ e, decisionOf kit inputs thresholds candidate.ticker = .error e ∧
        (scoreFrom kit inputs thresholds l).2 = .error e := by
  induction l with
  | nil => exact .inl ⟨[], rfl, .nil⟩
  | cons candidate rest ih =>
    rw [scoreFrom]
    by_cases hscorable : inputs.scorable candidate.ticker = true
    · rw [if_pos hscorable, List.filter_cons, if_pos hscorable]
      cases hdecision : decisionOf kit inputs thresholds candidate.ticker with
      | error e => exact .inr ⟨candidate, List.mem_cons_self, hscorable, e, hdecision, rfl⟩
      | ok d =>
        rcases ih with ⟨decisions, hok, hall⟩ | ⟨c, hc, hs, e, he, herror⟩
        · refine .inl ⟨d :: decisions, ?_, .cons hdecision hall⟩
          show (scoreFrom kit inputs thresholds rest).2.map _ = _
          rw [hok]
          rfl
        · refine .inr ⟨c, List.mem_cons_of_mem _ hc, hs, e, he, ?_⟩
          show (scoreFrom kit inputs thresholds rest).2.map _ = _
          rw [herror]
          rfl
    · rw [if_neg hscorable, List.filter_cons, if_neg hscorable]
      rcases ih with ⟨decisions, hok, hall⟩ | ⟨c, hc, hs, e, he, herror⟩
      · exact .inl ⟨decisions, hok, hall⟩
      · exact .inr ⟨c, List.mem_cons_of_mem _ hc, hs, e, he, herror⟩

theorem decisionOf_ok (h : decisionOf kit inputs thresholds ticker = .ok d) :
    ∃ score, scoreOf kit inputs ticker = .ok score ∧
      Decided ticker score inputs.regime (inputs.isHeld ticker)
        inputs.settings.exitConfidenceFloor (breached inputs thresholds ticker) inputs.settings
        d := by
  obtain ⟨score, hscore, hdecide⟩ := Fallible.bind_eq_ok.mp h
  exact ⟨score, hscore, decide_ok hdecide⟩

end

end TradingAgents.Analyst
