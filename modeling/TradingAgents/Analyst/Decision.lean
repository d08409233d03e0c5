import TradingAgents.Analyst.Scoring

/-! What the analyst decides of a scored candidate: a held ticker is sold or held, another one is
bought or rejected, and every decision carries the evidence it was made on. -/

namespace TradingAgents.Analyst

open ProofKit

inductive ExitTrigger where
  | stop
  | thesis
deriving DecidableEq, Repr

structure Explanation where
  summary : String
  evidenceRefs : List String := []
deriving DecidableEq

/-- What a recommendation shows. -/
structure RecommendationShown where
  ticker : String
  action : Action
  exitTrigger : Option ExitTrigger := none
  confidence : ℚ
  technicalScore : ℚ
  fundamentalScore : Option ℚ
  sentimentScore : Option ℚ
  suggestedStopPct : Option ℚ := none
  suggestedTargetPct : Option ℚ := none
  quantMetrics : List (String × ℚ)
  stopTargetEvidence : Option StopTargetEvidence := none
  scoreArithmetic : Option ScoreArithmetic
  rationale : Explanation
deriving DecidableEq

/-- The bounds that the contract puts on it. -/
structure RecommendationShown.Valid (r : RecommendationShown) : Prop where
  confidence : 0 ≤ r.confidence ∧ r.confidence ≤ 1
  stop : ∀ x ∈ r.suggestedStopPct.toList, 0 ≤ x ∧ x ≤ 1
  target : ∀ x ∈ r.suggestedTargetPct.toList, 0 ≤ x ∧ x ≤ 1
  metrics : r.quantMetrics.length ≤ 128 ∧
    ∀ metric ∈ r.quantMetrics, 1 ≤ metric.1.length ∧ metric.1.length ≤ 80

instance (r : RecommendationShown) : Decidable r.Valid :=
  decidable_of_iff ((0 ≤ r.confidence ∧ r.confidence ≤ 1) ∧
    (∀ x ∈ r.suggestedStopPct.toList, 0 ≤ x ∧ x ≤ 1) ∧
    (∀ x ∈ r.suggestedTargetPct.toList, 0 ≤ x ∧ x ≤ 1) ∧ r.quantMetrics.length ≤ 128 ∧
    ∀ metric ∈ r.quantMetrics, 1 ≤ metric.1.length ∧ metric.1.length ≤ 80)
    ⟨fun ⟨a, b, c, d⟩ => ⟨a, b, c, d⟩, fun ⟨a, b, c, d⟩ => ⟨a, b, c, d⟩⟩

/-- A recommendation that the contract admits. -/
abbrev Recommendation := { r : RecommendationShown // r.Valid }

def RecommendationShown.admit (r : RecommendationShown) : Except HandlerError Recommendation :=
  if h : r.Valid then .ok ⟨r, h⟩ else .error (.validation "Recommendation")

structure Rejection where
  ticker : String
  reason : String
deriving DecidableEq

/-- The reading of one scorer; the counts are of articles and of words. -/
structure SentimentReading where
  ticker : String
  scorer : String
  score : ℚ
  articles : ℤ
  positive : ℤ
  negative : ℤ
deriving DecidableEq

/-- A recommendation or a rejection, and the reading of the lexicon. -/
structure AnalysisDecision where
  recommendation : Option Recommendation
  rejection : Option Rejection
  sentimentReading : Option SentimentReading
deriving DecidableEq

/-- `int` of a count among the metrics, zero when it is absent. -/
def countMetric (metrics : Dict String ℚ) (name : String) : ℤ :=
  (optionalIntMetric metrics name).getD 0

def lexiconReading (ticker : String) (score : ScoreBreakdown) : Option SentimentReading :=
  score.sentimentScore.map fun value => {
    ticker := ticker
    scorer := "lexicon"
    score := value
    articles := countMetric score.metrics "sentiment_articles"
    positive := countMetric score.metrics "sentiment_positive_words"
    negative := countMetric score.metrics "sentiment_negative_words" }

/-- The advisory reading of the vendor. -/
def providerReading (ticker : String) (score : ℚ) : SentimentReading :=
  ⟨ticker, "provider", score, 0, 0, 0⟩

/-- `_quant_metrics`: the metrics by name. -/
def quantMetrics (score : ScoreBreakdown) : List (String × ℚ) :=
  score.metrics.entries.insertionSort fun a b => a.1 ≤ b.1

/-! ### The texts -/

/-- The names of the core indicators that were scored. -/
def scoredIndicatorText (score : ScoreBreakdown) (settings : AnalystSettings) : String :=
  let labels := ((Orchestration.momentumIndicatorRequirements settings.toAnalystSettings).filter
    fun requirement => (score.metrics.get? requirement.metricName).isSome).map
      Orchestration.IndicatorRequirement.label
  match labels.getLast? with
  | none => "available technical inputs"
  | some last =>
    if labels.length = 1 then last
    else String.intercalate ", " labels.dropLast ++ ", and " ++ last

def buySummary (ticker : String) (score : ScoreBreakdown) (regime : RegimeContext)
    (settings : AnalystSettings) : String :=
  ticker ++ " cleared the " ++ regime.label ++ " confidence gate on its composite technical score ("
    ++ scoredIndicatorText score settings ++ ")."

variable (fixed3 : ℚ → String)

/-- The summary of a decision on a held ticker, and what it refers to. -/
def heldRecommendationContext (ticker : String) (confidence exitFloor : ℚ) :
    Option ExitTrigger → Explanation
  | some .stop => ⟨ticker ++ " is already held; forced stop exit because " ++
      "the latest close is at or through the stop threshold.",
      ["contracts.stop_rule", "provider.market_data"]⟩
  | some .thesis => ⟨ticker ++ " is already held; thesis exit because confidence " ++
      fixed3 confidence ++ " is below the conservative exit floor " ++ fixed3 exitFloor ++ ".",
      ["analyst.technical_score", "provider.market_data", "provider.regime"]⟩
  | none => ⟨ticker ++ " is already held; analyst says hold because confidence " ++
      fixed3 confidence ++ " is at or above the conservative exit floor " ++ fixed3 exitFloor ++
      ".", ["analyst.technical_score", "provider.market_data", "provider.regime"]⟩

/-- The rationale of a buy. -/
def buyContext (ticker : String) (score : ScoreBreakdown) (regime : RegimeContext)
    (settings : AnalystSettings) : Explanation :=
  let fundamental := match score.fundamentalScore with
    | none => ("", [])
    | some f => (" and a fundamental score of " ++ fixed3 f, ["analyst.fundamental_score"])
  let sentiment := match score.sentimentScore with
    | none => ("", [])
    | some s => (" and a news-sentiment score of " ++ fixed3 s, ["analyst.sentiment_score"])
  ⟨buySummary ticker score regime settings ++ fundamental.1 ++ sentiment.1,
    ["analyst.technical_score", "provider.market_data", "provider.regime"] ++ fundamental.2 ++
      sentiment.2 ++ score.topSignals.map fun name => "analyst.signal." ++ name⟩

/-! ### The decision -/

/-- `_build_recommendation`. -/
def buildRecommendation (ticker : String) (score : ScoreBreakdown) (action : Action)
    (rationale : Explanation) (exitTrigger : Option ExitTrigger)
    (stopTarget : Option StopTargetProposal) : Except HandlerError Recommendation :=
  RecommendationShown.admit {
    ticker := ticker
    action := action
    exitTrigger := exitTrigger
    confidence := score.confidence
    technicalScore := score.technicalScore
    fundamentalScore := score.fundamentalScore
    sentimentScore := score.sentimentScore
    suggestedStopPct := stopTarget.map StopTargetProposal.stopPct
    suggestedTargetPct := stopTarget.map StopTargetProposal.targetPct
    quantMetrics := quantMetrics score
    stopTargetEvidence := stopTarget.map StopTargetProposal.evidence
    scoreArithmetic := score.scoreArithmetic
    rationale := rationale }

/-- A recommendation for a held ticker. -/
def heldRecommendation (ticker : String) (score : ScoreBreakdown) (action : Action)
    (exitFloor : ℚ) (exitTrigger : Option ExitTrigger) : Except HandlerError Recommendation :=
  buildRecommendation ticker score action
    (heldRecommendationContext fixed3 ticker score.confidence exitFloor exitTrigger) exitTrigger
    none

/-- Turn one score into a recommendation or a rejection. -/
def AnalysisDecision.decide (ticker : String) (score : ScoreBreakdown) (regime : RegimeContext)
    (held : Bool) (exitConfidenceFloor : ℚ) (stopBreached : Bool) (settings : AnalystSettings) :
    Except HandlerError AnalysisDecision :=
  let reading := lexiconReading ticker score
  let recommend (r : Except HandlerError Recommendation) : Except HandlerError AnalysisDecision :=
    r.map fun r => ⟨some r, none, reading⟩
  let reject (reason : String) : Except HandlerError AnalysisDecision :=
    .ok ⟨none, some ⟨ticker, reason⟩, reading⟩
  if held && stopBreached then
    recommend (heldRecommendation fixed3 ticker score .sell exitConfidenceFloor (some .stop))
  else match score.rejectionReason with
    | some reason => reject reason
    | none =>
      if held then
        if score.confidence < exitConfidenceFloor then
          recommend (heldRecommendation fixed3 ticker score .sell exitConfidenceFloor
            (some .thesis))
        else recommend (heldRecommendation fixed3 ticker score .hold exitConfidenceFloor none)
      else if score.confidence < regime.baseMinConfidence then
        reject ("confidence " ++ fixed3 score.confidence ++ " below regime floor " ++
          fixed3 regime.baseMinConfidence)
      else
        match resolveStopTarget regime score.metrics settings with
        | .error e => .error e
        | .ok none => reject "target_estimate_unavailable"
        | .ok (some stopTarget) =>
          recommend (buildRecommendation ticker score .buy
            (buyContext fixed3 ticker score regime settings) none (some stopTarget))

/-! ### What a decision can be -/

section

variable {fixed3 : ℚ → String} {ticker : String} {score : ScoreBreakdown} {regime : RegimeContext}
  {held stopBreached : Bool} {floor : ℚ} {settings : AnalystSettings} {d : AnalysisDecision}
  {action : Action} {rationale : Explanation} {exitTrigger : Option ExitTrigger}
  {stopTarget : Option StopTargetProposal} {r : Recommendation}

/-- What was built is what was asked for. -/
theorem buildRecommendation_ok
    (h : buildRecommendation ticker score action rationale exitTrigger stopTarget = .ok r) :
    r.1.ticker = ticker ∧ r.1.action = action ∧ r.1.exitTrigger = exitTrigger ∧
      r.1.confidence = score.confidence ∧
      r.1.suggestedStopPct = stopTarget.map StopTargetProposal.stopPct := by
  unfold buildRecommendation RecommendationShown.admit at h
  split at h
  · cases h
    exact ⟨rfl, rfl, rfl, rfl, rfl⟩
  · cases h

/-- The decision on a candidate, by what it was. -/
inductive Decided (ticker : String) (score : ScoreBreakdown) (regime : RegimeContext)
    (held : Bool) (floor : ℚ) (stopBreached : Bool) (settings : AnalystSettings) :
    AnalysisDecision → Prop where
  | stopped {r : Recommendation} {reading : Option SentimentReading} (hheld : held = true)
      (hbreached : stopBreached = true) (hticker : r.1.ticker = ticker)
      (haction : r.1.action = .sell) (htrigger : r.1.exitTrigger = some .stop) :
      Decided ticker score regime held floor stopBreached settings ⟨some r, none, reading⟩
  | unscored {reason : String} {reading : Option SentimentReading}
      (hintact : (held && stopBreached) = false) (hreason : score.rejectionReason = some reason) :
      Decided ticker score regime held floor stopBreached settings
        ⟨none, some ⟨ticker, reason⟩, reading⟩
  | exited {r : Recommendation} {reading : Option SentimentReading} (hheld : held = true)
      (hintact : stopBreached = false) (hscored : score.rejectionReason = none)
      (hweak : score.confidence < floor) (hticker : r.1.ticker = ticker)
      (haction : r.1.action = .sell) (htrigger : r.1.exitTrigger = some .thesis) :
      Decided ticker score regime held floor stopBreached settings ⟨some r, none, reading⟩
  | kept {r : Recommendation} {reading : Option SentimentReading} (hheld : held = true)
      (hintact : stopBreached = false) (hscored : score.rejectionReason = none)
      (hstrong : floor ≤ score.confidence) (hticker : r.1.ticker = ticker)
      (haction : r.1.action = .hold) (htrigger : r.1.exitTrigger = none) :
      Decided ticker score regime held floor stopBreached settings ⟨some r, none, reading⟩
  | refused {reason : String} {reading : Option SentimentReading} (hfree : held = false)
      (hscored : score.rejectionReason = none)
      (hweak : score.confidence < regime.baseMinConfidence) :
      Decided ticker score regime held floor stopBreached settings
        ⟨none, some ⟨ticker, reason⟩, reading⟩
  | targetless {reading : Option SentimentReading} (hfree : held = false)
      (hscored : score.rejectionReason = none)
      (hstrong : regime.baseMinConfidence ≤ score.confidence)
      (htarget : resolveStopTarget regime score.metrics settings = .ok none) :
      Decided ticker score regime held floor stopBreached settings
        ⟨none, some ⟨ticker, "target_estimate_unavailable"⟩, reading⟩
  | bought {r : Recommendation} {reading : Option SentimentReading} {proposal : StopTargetProposal}
      (hfree : held = false) (hscored : score.rejectionReason = none)
      (hstrong : regime.baseMinConfidence ≤ score.confidence)
      (htarget : resolveStopTarget regime score.metrics settings = .ok (some proposal))
      (hticker : r.1.ticker = ticker) (haction : r.1.action = .buy)
      (htrigger : r.1.exitTrigger = none)
      (hstop : r.1.suggestedStopPct = some proposal.stopPct) :
      Decided ticker score regime held floor stopBreached settings ⟨some r, none, reading⟩

theorem decide_ok (h : AnalysisDecision.decide fixed3 ticker score regime held floor stopBreached
    settings = .ok d) : Decided ticker score regime held floor stopBreached settings d := by
  have hmap : ∀ {x : Except HandlerError Recommendation} {reading : Option SentimentReading},
      x.map (fun r => (⟨some r, none, reading⟩ : AnalysisDecision)) = .ok d →
        ∃ r, x = .ok r ∧ d = ⟨some r, none, reading⟩ := by
    intro x reading hx
    cases x with
    | error e => cases hx
    | ok r =>
      cases hx
      exact ⟨r, rfl, rfl⟩
  unfold AnalysisDecision.decide at h
  dsimp only at h
  split at h
  · rename_i hstopped
    obtain ⟨hheld, hbreached⟩ := Bool.and_eq_true_iff.mp hstopped
    obtain ⟨r, hr, rfl⟩ := hmap h
    obtain ⟨hticker, haction, htrigger, -⟩ := buildRecommendation_ok hr
    exact .stopped hheld hbreached hticker haction htrigger
  · rename_i hintact
    have hintact : (held && stopBreached) = false := eq_false_of_ne_true hintact
    split at h
    · rename_i hreason
      cases h
      exact .unscored hintact hreason
    · rename_i hscored
      cases held with
      | true =>
        simp only [Bool.true_and] at hintact
        simp only [if_true] at h
        split at h
        · rename_i hweak
          obtain ⟨r, hr, rfl⟩ := hmap h
          obtain ⟨hticker, haction, htrigger, -⟩ := buildRecommendation_ok hr
          exact .exited rfl hintact hscored hweak hticker haction htrigger
        · rename_i hstrong
          obtain ⟨r, hr, rfl⟩ := hmap h
          obtain ⟨hticker, haction, htrigger, -⟩ := buildRecommendation_ok hr
          exact .kept rfl hintact hscored (not_lt.mp hstrong) hticker haction htrigger
      | false =>
        simp only [Bool.false_eq_true, if_false] at h
        split at h
        · rename_i hweak
          cases h
          exact .refused rfl hscored hweak
        · rename_i hstrong
          split at h
          · cases h
          · rename_i htarget
            cases h
            exact .targetless rfl hscored (not_lt.mp hstrong) htarget
          · rename_i proposal htarget
            obtain ⟨r, hr, rfl⟩ := hmap h
            obtain ⟨hticker, haction, htrigger, -, hstop⟩ := buildRecommendation_ok hr
            exact .bought rfl hscored (not_lt.mp hstrong) htarget hticker haction htrigger hstop

end

end TradingAgents.Analyst
