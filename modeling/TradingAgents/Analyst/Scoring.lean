import TradingAgents.Analyst.SignalSelection
import TradingAgents.Analyst.StopTarget

/-! The score of one candidate: its pillars, the confidence that their composite gives, the metrics
behind them, and the signals that a rationale shows. -/

namespace TradingAgents.Analyst

open ProofKit

/-- The constants and the sub-scores that a confidence was computed with. -/
structure ScoreArithmetic where
  technicalWeight : ℚ
  fundamentalWeight : ℚ
  sentimentWeight : ℚ
  alpha158Weight : ℚ
  relativeStrengthWeight : ℚ
  confidenceFloor : ℚ
  confidenceSpan : ℚ
  technicalSubScores : List String
  fundamentalSubScores : List String
deriving DecidableEq

structure ScoreBreakdown where
  technicalScore : ℚ
  confidence : ℚ
  metrics : Dict String ℚ
  fundamentalScore : Option ℚ := none
  sentimentScore : Option ℚ := none
  alpha158Score : Option ℚ := none
  topSignals : List String := []
  rejectionReason : Option String := none
  scoreArithmetic : Option ScoreArithmetic := none
deriving DecidableEq

def recordArithmetic (settings : AnalystSettings)
    (technicalMetrics fundamentalMetrics : Dict String ℚ) : ScoreArithmetic where
  technicalWeight := settings.technicalWeight
  fundamentalWeight := settings.fundamentalWeight
  sentimentWeight := settings.sentimentWeight
  alpha158Weight := settings.alpha158PillarWeight
  relativeStrengthWeight := settings.relativeStrengthWeight
  confidenceFloor := settings.confidenceFloor
  confidenceSpan := settings.confidenceSpan
  technicalSubScores := technicalMetrics.keys.filter fun name =>
    "_score".toList.isSuffixOf name.toList
  fundamentalSubScores := fundamentalMetrics.keys.filter fun name =>
    decide (name ≠ "fundamentals_available")

/-- The upside metrics of the latest bar, without a measured upside when none was sampled. -/
def targetExcursionMetrics (rows : List OHLCVBar) (settings : AnalystSettings) :
    Except HandlerError (Dict String ℚ) :=
  match rows.getLast? with
  | none => .error (.validation "tuple index out of range")
  | some last => do
    let horizon := settings.stopTargetDrawdownHorizonDays
    let lookback := settings.stopTargetExcursionLookbackWindows
    let estimate ← trailingFavorableExcursion rows last.barDate horizon lookback
    let metrics : Dict String ℚ := .ofList [
      (favorableExcursionHorizonDays, (horizon : ℚ)),
      (favorableExcursionLookbackWindows, (lookback : ℚ)),
      (favorableExcursionSampleCount, 0)]
    match estimate with
    | none => pure metrics
    | some e => pure ((metrics.set favorableExcursionPct e.excursionPct).set
        favorableExcursionSampleCount (e.sampleCount : ℚ))

/-- Set a metric where there is a value for it. -/
def setMetric (metrics : Dict String ℚ) (name : String) : Option ℚ → Dict String ℚ
  | none => metrics
  | some value => metrics.set name value

/-- The weights of the pillars whose signals are ranked. -/
def signalWeights (settings : AnalystSettings) : Dict String ℚ := .ofList [
  ("technical", settings.technicalWeight), ("fundamental", settings.fundamentalWeight),
  ("sentiment", settings.sentimentWeight)]

/-- Score one candidate from its price history, its fundamentals and its news. -/
def scoreCandidate (kit : ScoringKit) (ticker : String) (bars : List OHLCVBar)
    (fundamentals : Dict String ℚ) (benchmarkBars : List OHLCVBar) (news : List String)
    (settings : AnalystSettings) (headlineWeights : Option (Dict String ℚ))
    (alphaScore : Option ℚ) : Except HandlerError ScoreBreakdown :=
  let rows := orderedBars bars
  if rows.length < settings.minHistoryBars then .ok {
    technicalScore := 0
    confidence := 0
    metrics := .ofList [("history_bars", (rows.length : ℚ))]
    alpha158Score := alphaScore
    rejectionReason := some "insufficient_market_history"
    scoreArithmetic := some (recordArithmetic settings .empty .empty) }
  else do
    let (raw, tmetrics) ← scoreTechnical kit rows settings
    let (technical, rsMetrics) :=
      applyRelativeStrength (bounded (raw / 100)) bars benchmarkBars settings
    let (rawFund, fmetrics) := scoreFundamental fundamentals
    let fundamental := rawFund.map fun raw => bounded (raw / 100)
    let (rawSent, smetrics) ← subjectSentiment kit ticker news settings.sentimentMinOwnHeadlines
      headlineWeights
    let sentiment := rawSent.map fun raw => bounded (raw / 100)
    let alpha := alphaScore.map fun raw => bounded (raw / 100)
    let composite ← composite ⟨technical, fundamental, sentiment, alpha⟩ settings
    let confidence := confidenceOf settings composite
    let excursions ← targetExcursionMetrics rows settings
    let metrics : Dict String ℚ := .ofList [
      ("history_bars", (rows.length : ℚ)), ("technical_score", technical),
      ("composite_score", composite), ("confidence", confidence)]
    let metrics := ((((metrics.update tmetrics).update fmetrics).update rsMetrics).update
      smetrics).update excursions
    let metrics := setMetric metrics "fundamental_score" fundamental
    let metrics := setMetric metrics "sentiment_score" sentiment
    let metrics := setMetric metrics "alpha158_score" alphaScore
    let signals := technicalSignals tmetrics ++ fundamentalSignals fmetrics ++
      rawSent.toList.map fun raw => ⟨"sentiment", "sentiment", raw⟩
    let selected := selectTopSignals signals (signalWeights settings)
      settings.signalDiversitySlack settings.maxTopSignals
    pure {
      technicalScore := technical
      confidence := confidence
      metrics := metrics
      fundamentalScore := fundamental
      sentimentScore := sentiment
      alpha158Score := alphaScore
      topSignals := selected.map Signal.name
      scoreArithmetic := some (recordArithmetic settings tmetrics fmetrics) }

/-! ### The upside -/

section

variable {kit : ScoringKit} {ticker : String} {bars benchmarkBars : List OHLCVBar}
  {fundamentals : Dict String ℚ} {news : List String} {settings : AnalystSettings}
  {headlineWeights : Option (Dict String ℚ)} {alphaScore : Option ℚ} {score : ScoreBreakdown}
  {rows : List OHLCVBar} {day horizonDays lookbackWindows : ℤ}

/-- The upside of any bars is measured without an error. -/
theorem trailingFavorableExcursion_ends :
    ∃ estimate, trailingFavorableExcursion bars day horizonDays lookbackWindows = .ok estimate := by
  obtain ⟨sampled, -, hnone, hsome⟩ :=
    @trailingFavorableExcursion_median bars day horizonDays lookbackWindows
  cases sampled with
  | none => exact ⟨none, hnone rfl⟩
  | some windows =>
    obtain ⟨excursions, excursion, -, -, hestimate⟩ := hsome windows rfl
    exact ⟨_, hestimate⟩

theorem targetExcursionMetrics_ends (h : rows ≠ []) :
    ∃ metrics, targetExcursionMetrics rows settings = .ok metrics := by
  unfold targetExcursionMetrics
  rw [List.getLast?_eq_some_getLast h]
  obtain ⟨estimate, hestimate⟩ : ∃ estimate, trailingFavorableExcursion rows
      (rows.getLast h).barDate settings.stopTargetDrawdownHorizonDays
      settings.stopTargetExcursionLookbackWindows = .ok estimate := trailingFavorableExcursion_ends
  dsimp only
  rw [hestimate, Fallible.ok_bind]
  cases estimate with
  | none => exact ⟨_, rfl⟩
  | some e => exact ⟨_, rfl⟩

/-! ### The score -/

/-- The raw sentiment of a candidate. -/
def sentimentOf (kit : ScoringKit) (ticker : String) (news : List String)
    (settings : AnalystSettings) (headlineWeights : Option (Dict String ℚ)) : Option ℚ :=
  match subjectSentiment kit ticker news settings.sentimentMinOwnHeadlines headlineWeights with
  | .ok (raw, _) => raw
  | .error _ => none

/-- The technical score before the relative strength. -/
def technicalOf (kit : ScoringKit) (bars : List OHLCVBar) (settings : AnalystSettings) : ℚ :=
  match scoreTechnical kit (orderedBars bars) settings with
  | .ok (raw, _) => bounded (raw / 100)
  | .error _ => 0

/-- The pillars that a candidate is scored on. -/
def pillarsOf (kit : ScoringKit) (ticker : String) (bars : List OHLCVBar)
    (fundamentals : Dict String ℚ) (benchmarkBars : List OHLCVBar) (news : List String)
    (settings : AnalystSettings) (headlineWeights : Option (Dict String ℚ))
    (alphaScore : Option ℚ) : Pillars where
  technical := (applyRelativeStrength (technicalOf kit bars settings) bars benchmarkBars settings).1
  fundamental := (scoreFundamental fundamentals).1.map fun raw => bounded (raw / 100)
  sentiment := (sentimentOf kit ticker news settings headlineWeights).map fun raw =>
    bounded (raw / 100)
  alpha := alphaScore.map fun raw => bounded (raw / 100)

/-- What a score is made of: its pillars are the ones that it shows, and its confidence comes from
their composite. -/
structure Scored (settings : AnalystSettings) (p : Pillars) (alphaScore : Option ℚ)
    (score : ScoreBreakdown) : Prop where
  technical : score.technicalScore = p.technical
  fundamental : score.fundamentalScore = p.fundamental
  sentiment : score.sentimentScore = p.sentiment
  alpha : score.alpha158Score = alphaScore
  accepted : score.rejectionReason = none
  confidence : ∃ c, composite p settings = .ok c ∧ score.confidence = confidenceOf settings c

/-- The confidence lies between those that the weakest and the strongest pillar alone would give. -/
theorem Scored.confidence_between {p : Pillars} {score : ScoreBreakdown} {low high : ℚ}
    (h : Scored settings p alphaScore score)
    (hpillars : ∀ q ∈ p.present settings, low ≤ q.2 ∧ q.2 ≤ high) :
    confidenceOf settings low ≤ score.confidence ∧
      score.confidence ≤ confidenceOf settings high := by
  obtain ⟨c, hc, hconfidence⟩ := h.confidence
  obtain ⟨hlow, hhigh⟩ := composite_between hc hpillars
  rw [hconfidence]
  exact ⟨confidenceOf_mono settings hlow, confidenceOf_mono settings hhigh⟩

theorem Scored.floor_le {p : Pillars} {score : ScoreBreakdown}
    (h : Scored settings p alphaScore score)
    (hpillars : ∀ q ∈ p.present settings, 0 ≤ q.2 ∧ q.2 ≤ 1) :
    settings.confidenceFloor ≤ score.confidence := by
  obtain ⟨c, hc, hconfidence⟩ := h.confidence
  rw [hconfidence]
  exact (confidenceOf_between settings (composite_between hc hpillars)).1

theorem scoreCandidate_short (h : bars.length < settings.minHistoryBars) :
    ∃ score, scoreCandidate kit ticker bars fundamentals benchmarkBars news settings
        headlineWeights alphaScore = .ok score ∧
      score.rejectionReason = some "insufficient_market_history" ∧ score.confidence = 0 ∧
      score.sentimentScore = none := by
  unfold scoreCandidate
  dsimp only
  rw [perm_orderedBars.length_eq, if_pos h]
  exact ⟨_, rfl, rfl, rfl, rfl⟩

theorem scoreTechnical_raises_iff : (∃ e, scoreTechnical kit bars settings = .error e) ↔
    Crossed bars settings.choppinessPeriod := by
  rw [← @indicatorScores_raises_iff kit.math]
  unfold scoreTechnical
  cases indicatorScores kit.math bars settings.toIndicatorSettings with
  | error e => exact iff_of_true ⟨e, rfl⟩ ⟨e, rfl⟩
  | ok triples =>
    rw [Fallible.ok_bind]
    dsimp only
    split
    · exact iff_of_false nofun nofun
    · exact iff_of_false nofun nofun

/-- With a history over which the choppiness can be computed, a score is made of the candidate's
pillars, and it fails exactly where their composite does. -/
theorem scoreCandidate_scored (h : settings.minHistoryBars ≤ bars.length)
    (hcrossed : ¬Crossed (orderedBars bars) settings.choppinessPeriod)
    (hpos : PositiveWeights headlineWeights) :
    let p := pillarsOf kit ticker bars fundamentals benchmarkBars news settings headlineWeights
      alphaScore
    (∀ c, composite p settings = .ok c → ∃ score,
      scoreCandidate kit ticker bars fundamentals benchmarkBars news settings headlineWeights
        alphaScore = .ok score ∧ Scored settings p alphaScore score) ∧
    ∀ e, composite p settings = .error e →
      scoreCandidate kit ticker bars fundamentals benchmarkBars news settings headlineWeights
        alphaScore = .error e := by
  intro p
  obtain ⟨raw, tmetrics, htechnical⟩ : ∃ raw metrics,
      scoreTechnical kit (orderedBars bars) settings = .ok (raw, metrics) := by
    cases hraised : scoreTechnical kit (orderedBars bars) settings with
    | error e => exact absurd (scoreTechnical_raises_iff.mp ⟨e, hraised⟩) hcrossed
    | ok scored => exact ⟨scored.1, scored.2, rfl⟩
  obtain ⟨rawSent, smetrics, hsent, -⟩ : ∃ raw metrics, subjectSentiment kit ticker news
      settings.sentimentMinOwnHeadlines headlineWeights = .ok (raw, metrics) ∧
        ∀ mean, raw = some mean → 0 ≤ mean ∧ mean ≤ 100 := subjectSentiment_between hpos
  have hraw : sentimentOf kit ticker news settings headlineWeights = rawSent := by
    rw [sentimentOf, hsent]
  have hsentiment : p.sentiment = rawSent.map fun raw => bounded (raw / 100) := by
    show (sentimentOf kit ticker news settings headlineWeights).map _ = _
    rw [hraw]
  have hp : p = ⟨(applyRelativeStrength (bounded (raw / 100)) bars benchmarkBars settings).1,
      (scoreFundamental fundamentals).1.map fun raw => bounded (raw / 100),
      rawSent.map fun raw => bounded (raw / 100),
      alphaScore.map fun raw => bounded (raw / 100)⟩ := by
    show pillarsOf _ _ _ _ _ _ _ _ _ = _
    rw [pillarsOf, hraw, technicalOf, htechnical]
  have hlength : (orderedBars bars).length = bars.length := perm_orderedBars.length_eq
  have hrows : orderedBars bars ≠ [] := by
    intro hnil
    have htwo := settings.history_bounds.1
    rw [hnil, List.length_nil] at hlength
    omega
  obtain ⟨excursions, hexcursions⟩ : ∃ metrics,
      targetExcursionMetrics (orderedBars bars) settings = .ok metrics :=
    targetExcursionMetrics_ends hrows
  refine ⟨fun c hc => ?_, fun e he => ?_⟩
  · have hc' := hc
    rw [hp] at hc'
    apply Exists.intro
    constructor
    · unfold scoreCandidate
      dsimp only
      rw [hlength, if_neg (by omega), htechnical, Fallible.ok_bind]
      dsimp only
      rw [hsent, Fallible.ok_bind]
      dsimp only
      rw [hc', Fallible.ok_bind, hexcursions, Fallible.ok_bind]
      rfl
    · exact ⟨by rw [hp], rfl, hsentiment.symm, rfl, rfl, c, hc, rfl⟩
  · rw [hp] at he
    unfold scoreCandidate
    dsimp only
    rw [hlength, if_neg (by omega), htechnical, Fallible.ok_bind]
    dsimp only
    rw [hsent, Fallible.ok_bind]
    dsimp only
    rw [he]
    rfl

/-- The score of a history whose choppiness raises is not computed. -/
theorem scoreCandidate_crossed (h : settings.minHistoryBars ≤ bars.length)
    (hcrossed : Crossed (orderedBars bars) settings.choppinessPeriod) :
    ∃ e, scoreCandidate kit ticker bars fundamentals benchmarkBars news settings headlineWeights
      alphaScore = .error e := by
  obtain ⟨e, he⟩ := (@scoreTechnical_raises_iff kit _ settings).mpr hcrossed
  refine ⟨e, ?_⟩
  unfold scoreCandidate
  dsimp only
  rw [perm_orderedBars.length_eq, if_neg (by omega), he]
  rfl

theorem applyRelativeStrength_between {technical : ℚ} (h : 0 ≤ technical ∧ technical ≤ 1) :
    0 ≤ (applyRelativeStrength technical bars benchmarkBars settings).1 ∧
      (applyRelativeStrength technical bars benchmarkBars settings).1 ≤ 1 := by
  unfold applyRelativeStrength
  split
  · exact h
  · exact bounded_between _

theorem technicalOf_between :
    0 ≤ technicalOf kit bars settings ∧ technicalOf kit bars settings ≤ 1 := by
  unfold technicalOf
  split
  · exact bounded_between _
  · exact ⟨le_rfl, zero_le_one⟩

theorem pillarsOf_between {q : ℚ × ℚ} (h : q ∈ (pillarsOf kit ticker bars fundamentals
    benchmarkBars news settings headlineWeights alphaScore).present settings) :
    0 ≤ q.2 ∧ q.2 ≤ 1 := by
  have hmapped : ∀ {w : ℚ} {raw : Option ℚ},
      q ∈ (raw.map fun raw => bounded (raw / 100)).toList.map (w, ·) → 0 ≤ q.2 ∧ q.2 ≤ 1 := by
    intro w raw hq
    obtain ⟨v, hv, rfl⟩ := List.mem_map.mp hq
    obtain ⟨x, -, rfl⟩ := Option.map_eq_some_iff.mp (Option.mem_toList.mp hv)
    exact bounded_between _
  rw [Pillars.present, List.mem_cons, List.mem_append, List.mem_append] at h
  rcases h with rfl | hq | hq | hq
  · exact applyRelativeStrength_between technicalOf_between
  · exact hmapped hq
  · exact hmapped hq
  · exact hmapped hq

theorem fundamental_pillarsOf {f : ℚ} (h : (pillarsOf kit ticker bars fundamentals benchmarkBars
    news settings headlineWeights alphaScore).fundamental = some f) :
    1 / 5 ≤ f ∧ f ≤ 17 / 20 := by
  obtain ⟨raw, hraw, rfl⟩ := Option.map_eq_some_iff.mp h
  obtain ⟨hlow, hhigh⟩ := scoreFundamental_between hraw
  have hunit : 0 ≤ raw / 100 ∧ raw / 100 ≤ 1 := by
    constructor <;> linarith
  rw [bounded_of_between hunit]
  constructor <;> linarith

/-- A candidate with a history is scored on pillars that stay in their bounds, and its confidence
lies between those that its weakest and its strongest pillar alone would give.  The scoring fails
only where the highs of the last bars all lie under their lows, or where there is more than one
pillar and all of them weigh nothing. -/
theorem scoreCandidate_between (hpos : PositiveWeights headlineWeights) :
    let p := pillarsOf kit ticker bars fundamentals benchmarkBars news settings headlineWeights
      alphaScore
    let result := scoreCandidate kit ticker bars fundamentals benchmarkBars news settings
      headlineWeights alphaScore
    ((∃ e, result = .error e) ↔ settings.minHistoryBars ≤ bars.length ∧
      (Crossed (orderedBars bars) settings.choppinessPeriod ∨
        ¬p.Alone ∧ WeightedMean.weight (p.present settings) = 0)) ∧
    ∀ score, result = .ok score →
      bars.length < settings.minHistoryBars ∧ score.confidence = 0 ∧
        score.rejectionReason = some "insufficient_market_history" ∨
      settings.minHistoryBars ≤ bars.length ∧ Scored settings p alphaScore score ∧
        (∀ f ∈ score.fundamentalScore, 1 / 5 ≤ f ∧ f ≤ 17 / 20) ∧
        settings.confidenceFloor ≤ score.confidence ∧
        ∀ low high, (∀ q ∈ p.present settings, low ≤ q.2 ∧ q.2 ≤ high) →
          confidenceOf settings low ≤ score.confidence ∧
          score.confidence ≤ confidenceOf settings high := by
  intro p result
  by_cases hshort : bars.length < settings.minHistoryBars
  · obtain ⟨found, hfound, hreason, hzero, -⟩ : ∃ score, result = .ok score ∧
        score.rejectionReason = some "insufficient_market_history" ∧ score.confidence = 0 ∧
        score.sentimentScore = none := scoreCandidate_short hshort
    refine ⟨⟨?_, fun h => absurd h.1 (by omega)⟩, fun score hscore => .inl ⟨hshort, ?_⟩⟩
    · rintro ⟨e, he⟩
      rw [hfound] at he
      cases he
    · rw [hfound] at hscore
      cases hscore
      exact ⟨hzero, hreason⟩
  have hlong : settings.minHistoryBars ≤ bars.length := by omega
  by_cases hcrossed : Crossed (orderedBars bars) settings.choppinessPeriod
  · obtain ⟨e, he⟩ : ∃ e, result = .error e := scoreCandidate_crossed hlong hcrossed
    refine ⟨iff_of_true ⟨e, he⟩ ⟨hlong, .inl hcrossed⟩, fun score hscore => ?_⟩
    rw [he] at hscore
    cases hscore
  obtain ⟨hok, herror⟩ : (∀ c, composite p settings = .ok c → ∃ score,
      result = .ok score ∧ Scored settings p alphaScore score) ∧
      ∀ e, composite p settings = .error e → result = .error e :=
    scoreCandidate_scored hlong hcrossed hpos
  cases hcomposite : composite p settings with
  | error e =>
    have hresult := herror e hcomposite
    have hweightless := composite_error_iff.mp ⟨e, hcomposite⟩
    refine ⟨iff_of_true ⟨e, hresult⟩ ⟨hlong, .inr hweightless⟩, fun score hscore => ?_⟩
    rw [hresult] at hscore
    cases hscore
  | ok c =>
    obtain ⟨found, hfound, hscored⟩ := hok c hcomposite
    refine ⟨iff_of_false ?_ ?_, fun score hscore => .inr ⟨hlong, ?_⟩⟩
    · rintro ⟨e, he⟩
      rw [hfound] at he
      cases he
    · rintro ⟨-, hraised | hweightless⟩
      · exact hcrossed hraised
      · obtain ⟨e, he⟩ := composite_error_iff.mpr hweightless
        rw [hcomposite] at he
        cases he
    · rw [hfound] at hscore
      cases hscore
      refine ⟨hscored, fun f hf => ?_, hscored.floor_le fun q hq => pillarsOf_between hq,
        fun low high => hscored.confidence_between⟩
      rw [hscored.fundamental] at hf
      exact fundamental_pillarsOf hf

end

/-- A bar that does not move. -/
def flatBar (ticker : String) (day : ℤ) (close : ℚ) (h : 0 < close) : OHLCVBar :=
  ⟨ticker, day, close, close, close, close, 1000, h, h, h, h⟩

/-- No news, and series that are too short for a function of `math`. -/
def quietKit : ScoringKit where
  math := ⟨id, fun _ => 1, fun _ => 1, fun _ => zero_le_one, fun _ _ => zero_lt_one⟩
  ownHeadlines := fun _ _ => none
  lower := String.toLower
  positive := ["gain"]
  negative := ["loss"]

/-- A bar whose high is under its low. -/
def crossedBar (day : ℤ) (high low : ℚ) (hhigh : 0 < high) (hlow : 0 < low) : OHLCVBar :=
  ⟨"IBM", day, low, high, low, low, 1000, hlow, hhigh, hlow, hlow⟩

/-- Two flat bars are scored; three crossed ones over a choppiness of two bars are not. -/
theorem scoreCandidate_between_crossed :
    (¬∃ e, scoreCandidate quietKit "IBM"
      [flatBar "IBM" 6 213 (by norm_num), flatBar "IBM" 5 211 (by norm_num)] .empty [] [] {} none
        none = .error e) ∧
    ∃ e, scoreCandidate quietKit "IBM"
      [crossedBar 6 1 2 (by norm_num) (by norm_num), crossedBar 5 1 3 (by norm_num) (by norm_num),
        crossedBar 7 1 2 (by norm_num) (by norm_num)] .empty [] [] { choppinessPeriod := 2 } none
        none = .error e := by
  have hunweighted : PositiveWeights none := by
    intro weights hnone
    cases hnone
  constructor
  · intro h
    rcases ((scoreCandidate_between hunweighted).1.mp h).2 with hcrossed | ⟨halone, -⟩
    · exact absurd hcrossed.1 (by decide +kernel)
    · exact halone (by decide +kernel)
  · refine (scoreCandidate_between hunweighted).1.mpr ⟨by decide +kernel, .inl ⟨?_, ?_⟩⟩
    · decide +kernel
    · decide +kernel

end TradingAgents.Analyst
