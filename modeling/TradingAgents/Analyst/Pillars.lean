import TradingAgents.Analyst.TechnicalRules
import TradingAgents.ProofKit.WeightedMean

/-! The pillars of an analyst's score, each in its own bounds, and the composite that weighs the
pillars a candidate has against each other.  Arithmetic is exact. -/

namespace TradingAgents.Analyst

open ProofKit
open WeightedMean (weighted weight mean)

inductive StopTargetMode where
  | flat
  | scaled
deriving DecidableEq, Repr

structure AnalystSettings extends IndicatorSettings where
  minHistoryBars : Nat := 2
  confidenceFloor : ℚ := 3 / 10
  exitConfidenceFloor : ℚ := 1 / 2
  confidenceSpan : ℚ := 3 / 5
  technicalWeight : ℚ := 1 / 2
  fundamentalWeight : ℚ := 3 / 10
  sentimentWeight : ℚ := 1 / 5
  sentimentMinOwnHeadlines : Nat := 2
  rsWindow : Nat := 20
  relativeStrengthWeight : ℚ := 1 / 5
  signalDiversitySlack : ℚ := 5
  maxTopSignals : Nat := 5
  alpha158PillarWeight : ℚ := 0
  stopTargetMode : StopTargetMode := .flat
  stopTargetDrawdownHorizonDays : Nat := 10
  stopTargetExcursionLookbackWindows : Nat := 120
  scaledStopAtrMultiplier : ℚ := 2
  scaledStopFloorPct : ℚ := 1 / 40
  scaledStopCeilingPct : ℚ := 2 / 25
  history_bounds : 2 ≤ minHistoryBars ∧ minHistoryBars ≤ 60 := by norm_num
  floor_bounds : 0 ≤ confidenceFloor ∧ confidenceFloor ≤ 1 := by norm_num
  exit_bounds : 0 ≤ exitConfidenceFloor ∧ exitConfidenceFloor ≤ 1 := by norm_num
  span_bounds : 0 ≤ confidenceSpan ∧ confidenceSpan ≤ 1 := by norm_num
  technical_bounds : 0 ≤ technicalWeight ∧ technicalWeight ≤ 1 := by norm_num
  fundamental_bounds : 0 ≤ fundamentalWeight ∧ fundamentalWeight ≤ 1 := by norm_num
  sentiment_bounds : 0 ≤ sentimentWeight ∧ sentimentWeight ≤ 1 := by norm_num
  own_bounds : 1 ≤ sentimentMinOwnHeadlines ∧ sentimentMinOwnHeadlines ≤ 10 := by norm_num
  window_bounds : 2 ≤ rsWindow ∧ rsWindow ≤ 120 := by norm_num
  strength_bounds : 0 ≤ relativeStrengthWeight ∧ relativeStrengthWeight ≤ 1 := by norm_num
  slack_bounds : 0 ≤ signalDiversitySlack ∧ signalDiversitySlack ≤ 50 := by norm_num
  signal_bounds : 1 ≤ maxTopSignals ∧ maxTopSignals ≤ 20 := by norm_num
  alpha_bounds : 0 ≤ alpha158PillarWeight ∧ alpha158PillarWeight ≤ 1 := by norm_num
  horizon_bounds : 1 ≤ stopTargetDrawdownHorizonDays ∧ stopTargetDrawdownHorizonDays ≤ 60 := by
    norm_num
  lookback_bounds : 1 ≤ stopTargetExcursionLookbackWindows ∧
    stopTargetExcursionLookbackWindows ≤ 250 := by norm_num
  multiplier_bounds : 0 ≤ scaledStopAtrMultiplier ∧ scaledStopAtrMultiplier ≤ 5 := by norm_num
  stop_bounds : 0 ≤ scaledStopFloorPct ∧ scaledStopFloorPct ≤ scaledStopCeilingPct ∧
    scaledStopCeilingPct ≤ 2 / 25 := by norm_num

/-- What scoring takes from outside: the functions of `math`, the headlines that name a ticker's
company where the table knows its names, the lower case, and the two word lists of the lexicon. -/
structure ScoringKit where
  math : MathFunctions
  ownHeadlines : String → List String → Option (List String)
  lower : String → String
  positive : List String
  negative : List String

def bounded (value : ℚ) : ℚ := max 0 (min 1 value)

/-! ### The technical pillar -/

/-- Record the core indicators that could not score because the series was short. -/
def recordMissingMomentum (metrics : Dict String ℚ) (availableBars : Nat)
    (settings : AnalystSettings) : Dict String ℚ :=
  (Orchestration.momentumIndicatorRequirements settings.toAnalystSettings).foldl
    (fun metrics requirement =>
      if (metrics.get? requirement.metricName).isNone &&
          decide (availableBars < requirement.requiredBars) then
        metrics.set (requirement.metricName ++ "_missing_bars")
          ((requirement.requiredBars - availableBars : Nat) : ℚ)
      else metrics)
    metrics

/-- The mean of the sub-scores; neutral when no indicator computes. -/
def scoreTechnical (kit : ScoringKit) (bars : List OHLCVBar) (settings : AnalystSettings) :
    Except HandlerError (ℚ × Dict String ℚ) := do
  let triples ← indicatorScores kit.math bars settings.toIndicatorSettings
  let metrics := triples.foldl
    (fun metrics t => (metrics.set t.1 t.2.1).set (t.1 ++ "_score") t.2.2) .empty
  let metrics := recordMissingMomentum metrics bars.length settings
  let subScores := triples.map fun t => t.2.2
  if subScores = [] then return (50, metrics.set "indicators_available" 0)
  return (subScores.sum / subScores.length,
    metrics.set "indicators_available" (subScores.length : ℚ))

/-- The percentage return over the last `window` bars, none when there are too few. -/
def returnPct (bars : List OHLCVBar) (window : Nat) : Option ℚ :=
  if bars.length < window + 1 then none
  else
    let ordered := orderedBars bars
    match ordered.getLast?, ordered[ordered.length - (window + 1)]? with
    | some last, some base => some ((last.close / base.close - 1) * 100)
    | _, _ => none

def computeRelativeStrength (stockBars benchmarkBars : List OHLCVBar) (window : Nat) : Option ℚ :=
  match returnPct stockBars window, returnPct benchmarkBars window with
  | some stock, some benchmark => some (stock - benchmark)
  | _, _ => none

def scoreRelativeStrength (relativeStrength : ℚ) : ℚ :=
  if 5 < relativeStrength then 80
  else if 0 < relativeStrength then 60
  else if -5 < relativeStrength then 40
  else 20

/-- Blend the relative strength into the technical score; without it the score stays as it is. -/
def applyRelativeStrength (technical : ℚ) (bars benchmarkBars : List OHLCVBar)
    (settings : AnalystSettings) : ℚ × Dict String ℚ :=
  match computeRelativeStrength bars benchmarkBars settings.rsWindow with
  | none => (technical, .empty)
  | some raw =>
    let rsScore := scoreRelativeStrength raw
    let w := settings.relativeStrengthWeight
    (bounded ((1 - w) * technical + w * bounded (rsScore / 100)),
      .ofList [("relative_strength", raw), ("rs_score", rsScore)])

/-! ### The fundamental pillar -/

/-- One metric: the keys it is looked up under in turn, whether it must be positive, and the score
of the first band that its value matches. -/
structure FundamentalRule where
  name : String
  keys : List String
  requirePositive : Bool
  bands : List (Comparison × ℚ × ℚ)
  otherwise : ℚ

def fundamentalRules : List FundamentalRule := [
  ⟨"pe", ["peBasicExclExtraTTM", "peTTM"], true, [(.lt, 10, 80), (.le, 25, 60)], 30⟩,
  ⟨"roe", ["roeTTM"], false, [(.gt, 15, 80), (.gt, 5, 55)], 25⟩,
  ⟨"net_margin", ["netProfitMarginTTM"], false, [(.gt, 20, 80), (.gt, 10, 55)], 30⟩,
  ⟨"current_ratio", ["currentRatioQuarterly"], true, [(.gt, 3 / 2, 70), (.gt, 1, 50)], 25⟩,
  ⟨"pb", ["pbQuarterly", "pbAnnual"], true, [(.lt, 3 / 2, 80), (.le, 3, 60), (.le, 5, 40)], 20⟩,
  ⟨"debt_equity", ["totalDebt/totalEquityQuarterly", "totalDebt/totalEquityAnnual"], false,
    [(.lt, 1 / 2, 80), (.lt, 1, 65), (.lt, 2, 45)], 20⟩,
  ⟨"eps_growth", ["epsGrowthTTMYoy"], false, [(.gt, 20, 85), (.gt, 5, 65), (.gt, -5, 45)], 20⟩,
  ⟨"revenue_growth", ["revenueGrowthTTMYoy"], false, [(.gt, 15, 80), (.gt, 5, 60), (.gt, -5, 45)],
    25⟩]

/-- `_lookup`: the first of the keys that is present. -/
def lookupMetric (metrics : Dict String ℚ) (keys : List String) : Option ℚ :=
  keys.findSome? metrics.get?

/-- Add the sub-score of one metric, unless it is missing or must not be used. -/
def addSubScore (metrics subScores : Dict String ℚ) (rule : FundamentalRule) : Dict String ℚ :=
  match lookupMetric metrics rule.keys with
  | none => subScores
  | some value =>
    if rule.requirePositive && decide (value ≤ 0) then subScores
    else subScores.set rule.name (scoreMetric value rule.bands rule.otherwise)

/-- The mean of the sub-scores of the metrics that are there, none when none can be used. -/
def scoreFundamental (metrics : Dict String ℚ) : Option ℚ × Dict String ℚ :=
  let subScores := fundamentalRules.foldl (addSubScore metrics) .empty
  if subScores.entries = [] then (none, .empty)
  else
    let values := subScores.entries.map Prod.snd
    (some (values.sum / values.length),
      subScores.set "fundamentals_available" (values.length : ℚ))

/-! ### The sentiment pillar -/

/-- `_tokens`: the runs of lower-case letters. -/
def tokens (kit : ScoringKit) (headline : String) : List String :=
  (((kit.lower headline).toList.splitOnP fun c => !(decide ('a' ≤ c) && decide (c ≤ 'z'))).filter
    (· ≠ [])).map String.ofList

/-- What the headlines so far add up to. -/
structure SentimentTally where
  weightedSum : ℚ := 0
  weightTotal : ℚ := 0
  scoredArticles : Nat := 0
  totalPos : Nat := 0
  totalNeg : Nat := 0

/-- A headline without a weight counts as one article. -/
def headlineWeight (headlineWeights : Option (Dict String ℚ)) (headline : String) : ℚ :=
  match headlineWeights with
  | none => 1
  | some weights => (weights.get? headline).getD 1

/-- Add one headline; a headline without a word of the lexicon is skipped. -/
def SentimentTally.add (kit : ScoringKit) (headlineWeights : Option (Dict String ℚ))
    (t : SentimentTally) (headline : String) : SentimentTally :=
  let words := tokens kit headline
  let pos := words.countP fun word => decide (word ∈ kit.positive)
  let neg := words.countP fun word => decide (word ∈ kit.negative)
  if pos + neg = 0 then t
  else
    let w := headlineWeight headlineWeights headline
    let subScore := max 0 (min 100 (50 + 50 * ((pos : ℚ) - neg) / (pos + neg)))
    ⟨t.weightedSum + subScore * w, t.weightTotal + w, t.scoredArticles + 1, t.totalPos + pos,
      t.totalNeg + neg⟩

def scoreSentiment (kit : ScoringKit) (headlines : List String)
    (headlineWeights : Option (Dict String ℚ)) :
    Except HandlerError (Option ℚ × Dict String ℚ) :=
  let t := headlines.foldl (SentimentTally.add kit headlineWeights) {}
  if t.scoredArticles = 0 then .ok (none, .empty)
  else if t.weightTotal = 0 then .error divisionByZero
  else .ok (some (t.weightedSum / t.weightTotal), .ofList [
    ("sentiment_articles", (t.scoredArticles : ℚ)),
    ("sentiment_batch_weighted_articles", t.weightTotal),
    ("sentiment_positive_words", (t.totalPos : ℚ)),
    ("sentiment_negative_words", (t.totalNeg : ℚ))])

/-- Score the ticker's own headlines; no pillar below `minOwn` scored ones.  A ticker whose names
are not known is scored on every headline. -/
def subjectSentiment (kit : ScoringKit) (ticker : String) (headlines : List String) (minOwn : Nat)
    (headlineWeights : Option (Dict String ℚ)) :
    Except HandlerError (Option ℚ × Dict String ℚ) :=
  if headlines = [] then .ok (none, .empty)
  else
    let own := kit.ownHeadlines ticker headlines
    let scored := own.getD headlines
    let counts : Dict String ℚ := .ofList [
      ("sentiment_served_headlines", (headlines.length : ℚ)),
      ("sentiment_own_headlines", (scored.length : ℚ)),
      ("sentiment_subject_filtered", if own.isNone then 0 else 1)]
    match scoreSentiment kit scored headlineWeights with
    | .error e => .error e
    | .ok (none, _) => .ok (none, counts)
    | .ok (some raw, metrics) =>
      if own.isSome && decide ((metrics.get? "sentiment_articles").getD 0 < minOwn) then
        .ok (none, counts)
      else .ok (some raw, metrics.update counts)

/-- The tickers of each headline of a batch. -/
def headlineOwners (news : Dict String (List String)) : Dict String (List String) :=
  news.entries.foldl (fun owners entry => entry.2.foldl
    (fun owners headline => owners.set headline
      (((owners.get? headline).getD []).insert entry.1)) owners) .empty

/-- A headline that serves several tickers weighs its share for each of them. -/
def batchHeadlineWeights (news : Dict String (List String)) : Dict String ℚ :=
  (headlineOwners news).mapValues fun tickers => 1 / (tickers.length : ℚ)

/-! ### The composite -/

/-- The pillars of a candidate; all but the technical one may be absent. -/
structure Pillars where
  technical : ℚ
  fundamental : Option ℚ
  sentiment : Option ℚ
  alpha : Option ℚ
deriving DecidableEq

/-- Add a pillar to a weighted sum and its weights. -/
def addPillar (sums : ℚ × ℚ) (w : ℚ) : Option ℚ → ℚ × ℚ
  | none => sums
  | some value => (sums.1 + w * value, sums.2 + w)

/-- Blend the present pillars over their weights. -/
def composite (p : Pillars) (settings : AnalystSettings) : Except HandlerError ℚ :=
  if p.fundamental = none ∧ p.sentiment = none ∧ p.alpha = none then .ok p.technical
  else
    let sums := (settings.technicalWeight * p.technical, settings.technicalWeight)
    let sums := addPillar sums settings.fundamentalWeight p.fundamental
    let sums := addPillar sums settings.sentimentWeight p.sentiment
    let sums := addPillar sums settings.alpha158PillarWeight p.alpha
    if sums.2 = 0 then .error divisionByZero else .ok (sums.1 / sums.2)

def confidenceOf (settings : AnalystSettings) (composite : ℚ) : ℚ :=
  bounded (settings.confidenceFloor + composite * settings.confidenceSpan)

/-! ### Bounds of the pillars -/

section

variable {x y : ℚ}

theorem bounded_between (x : ℚ) : 0 ≤ bounded x ∧ bounded x ≤ 1 :=
  ⟨le_max_left _ _, max_le zero_le_one (min_le_left _ _)⟩

theorem bounded_of_between (h : 0 ≤ x ∧ x ≤ 1) : bounded x = x := by
  rw [bounded, min_eq_right h.2, max_eq_right h.1]

theorem bounded_mono (h : x ≤ y) : bounded x ≤ bounded y :=
  max_le_max le_rfl (min_le_min le_rfl h)

theorem confidenceOf_mono (settings : AnalystSettings) (h : x ≤ y) :
    confidenceOf settings x ≤ confidenceOf settings y := by
  apply bounded_mono
  have hspan := mul_le_mul_of_nonneg_right h settings.span_bounds.1
  linarith

/-- A composite between 0 and 1 gives a confidence between the floor and the floor with the whole
span. -/
theorem confidenceOf_between (settings : AnalystSettings) (h : 0 ≤ x ∧ x ≤ 1) :
    settings.confidenceFloor ≤ confidenceOf settings x ∧
    confidenceOf settings x = min 1 (settings.confidenceFloor + x * settings.confidenceSpan) := by
  have hfloor := settings.floor_bounds
  have hpart : 0 ≤ x * settings.confidenceSpan := mul_nonneg h.1 settings.span_bounds.1
  have hnonneg : 0 ≤ min 1 (settings.confidenceFloor + x * settings.confidenceSpan) :=
    le_min zero_le_one (by linarith)
  have hsame : confidenceOf settings x =
      min 1 (settings.confidenceFloor + x * settings.confidenceSpan) := max_eq_right hnonneg
  rw [hsame]
  exact ⟨le_min hfloor.2 (by linarith), rfl⟩

theorem fundamentalRules_between : ∀ rule ∈ fundamentalRules,
    (20 ≤ rule.otherwise ∧ rule.otherwise ≤ 85) ∧
      ∀ band ∈ rule.bands, 20 ≤ band.2.2 ∧ band.2.2 ≤ 85 := by
  decide +kernel

theorem scoreMetric_between {rule : FundamentalRule} (h : rule ∈ fundamentalRules) (value : ℚ) :
    20 ≤ scoreMetric value rule.bands rule.otherwise ∧
      scoreMetric value rule.bands rule.otherwise ≤ 85 := by
  obtain ⟨hotherwise, hbands⟩ := fundamentalRules_between rule h
  unfold scoreMetric
  cases hfind : rule.bands.find? _ with
  | none => exact hotherwise
  | some band => exact hbands band (List.mem_of_find?_eq_some hfind)

/-- Every score of a dictionary is one that some band or default gives. -/
def SubScored (scores : Dict String ℚ) : Prop :=
  ∀ name score, scores.get? name = some score → 20 ≤ score ∧ score ≤ 85

theorem SubScored.add {metrics scores : Dict String ℚ} (h : SubScored scores)
    {rule : FundamentalRule} (hrule : rule ∈ fundamentalRules) :
    SubScored (addSubScore metrics scores rule) := by
  unfold addSubScore
  split
  · exact h
  · split
    · exact h
    · intro name score hget
      rw [Dict.get?_set] at hget
      split at hget
      · cases hget
        exact scoreMetric_between hrule _
      · exact h name score hget

theorem scoreFundamental_between {metrics : Dict String ℚ} {mean : ℚ}
    (h : (scoreFundamental metrics).1 = some mean) : 20 ≤ mean ∧ mean ≤ 85 := by
  have hscored : ∀ rules : List FundamentalRule, (∀ rule ∈ rules, rule ∈ fundamentalRules) →
      ∀ scores, SubScored scores → SubScored (rules.foldl (addSubScore metrics) scores) := by
    intro rules
    induction rules with
    | nil => exact fun _ _ hscores => hscores
    | cons rule rules ih =>
      intro hrules scores hscores
      exact ih (fun r hr => hrules r (List.mem_cons_of_mem _ hr)) _
        (hscores.add (hrules rule List.mem_cons_self))
  have hempty : SubScored .empty := fun name score hget => by simp at hget
  have hall := hscored fundamentalRules (fun _ hrule => hrule) .empty hempty
  unfold scoreFundamental at h
  dsimp only at h
  split at h
  · cases h
  · rename_i hsome
    cases h
    refine WeightedMean.average_between (mt List.map_eq_nil_iff.mp hsome) fun score hscore => ?_
    obtain ⟨⟨name, score⟩, hentry, rfl⟩ := List.mem_map.mp hscore
    exact hall name score (Dict.mem_entries_iff.mp hentry)

/-! ### The sentiment of a batch -/

/-- No weight that a headline is looked up under is zero. -/
def PositiveWeights (headlineWeights : Option (Dict String ℚ)) : Prop :=
  ∀ weights, headlineWeights = some weights →
    ∀ headline w, weights.get? headline = some w → 0 < w

/-- What a tally has come to. -/
structure SentimentTally.Sound (t : SentimentTally) : Prop where
  weighs : t.scoredArticles ≠ 0 → 0 < t.weightTotal
  total : 0 ≤ t.weightTotal
  low : 0 ≤ t.weightedSum
  high : t.weightedSum ≤ 100 * t.weightTotal

variable {kit : ScoringKit} {headlineWeights : Option (Dict String ℚ)} {headlines : List String}
  {ticker : String} {minOwn : Nat}

theorem headlineWeight_pos (hpos : PositiveWeights headlineWeights) (headline : String) :
    0 < headlineWeight headlineWeights headline := by
  cases headlineWeights with
  | none => exact one_pos
  | some weights =>
    show 0 < (weights.get? headline).getD 1
    cases hget : weights.get? headline with
    | none => exact one_pos
    | some w => exact hpos weights rfl headline w hget

theorem SentimentTally.Sound.add {t : SentimentTally} (h : t.Sound)
    (hpos : PositiveWeights headlineWeights) (headline : String) :
    (SentimentTally.add kit headlineWeights t headline).Sound := by
  have hweight := headlineWeight_pos hpos headline
  unfold SentimentTally.add
  dsimp only
  split
  · exact h
  · generalize headlineWeight headlineWeights headline = w at hweight
    generalize hsub : max (0 : ℚ) (min 100 _) = subScore
    have hlow : 0 ≤ subScore := hsub ▸ le_max_left _ _
    have hhigh : subScore ≤ 100 := hsub ▸ max_le (by norm_num) (min_le_left _ _)
    have hmul : 0 ≤ subScore * w := mul_nonneg hlow hweight.le
    have hcap : subScore * w ≤ 100 * w := mul_le_mul_of_nonneg_right hhigh hweight.le
    obtain ⟨-, htotal, hsum, hsumhigh⟩ := h
    refine ⟨fun _ => ?_, ?_, ?_, ?_⟩ <;> dsimp only <;> linarith

theorem sound_tally (hpos : PositiveWeights headlineWeights) :
    (headlines.foldl (SentimentTally.add kit headlineWeights) {}).Sound := by
  have hrun : ∀ t : SentimentTally, t.Sound →
      (headlines.foldl (SentimentTally.add kit headlineWeights) t).Sound := by
    induction headlines with
    | nil => exact fun _ ht => ht
    | cons headline headlines ih => exact fun t ht => ih _ (ht.add hpos headline)
  exact hrun {} ⟨fun h => absurd rfl h, le_rfl, le_rfl, by simp⟩

/-- No weight is zero, so no mean is divided by zero, and it is a mean of numbers up to 100. -/
theorem scoreSentiment_between (hpos : PositiveWeights headlineWeights) :
    ∃ raw metrics, scoreSentiment kit headlines headlineWeights = .ok (raw, metrics) ∧
      ∀ mean, raw = some mean → 0 ≤ mean ∧ mean ≤ 100 := by
  have hsound : (headlines.foldl (SentimentTally.add kit headlineWeights) {}).Sound :=
    sound_tally hpos
  unfold scoreSentiment
  generalize headlines.foldl (SentimentTally.add kit headlineWeights) {} = t at hsound
  dsimp only
  split
  · exact ⟨none, .empty, rfl, nofun⟩
  · rename_i hscored
    have hweighs := hsound.weighs hscored
    rw [if_neg hweighs.ne']
    refine ⟨_, _, rfl, fun mean hmean => ?_⟩
    cases hmean
    exact ⟨div_nonneg hsound.low hsound.total, (div_le_iff₀ hweighs).mpr hsound.high⟩

theorem subjectSentiment_between (hpos : PositiveWeights headlineWeights) :
    ∃ raw metrics, subjectSentiment kit ticker headlines minOwn headlineWeights =
        .ok (raw, metrics) ∧
      ∀ mean, raw = some mean → 0 ≤ mean ∧ mean ≤ 100 := by
  unfold subjectSentiment
  split
  · exact ⟨none, .empty, rfl, nofun⟩
  · obtain ⟨raw, metrics, hok, hbetween⟩ : ∃ raw metrics, scoreSentiment kit
        ((kit.ownHeadlines ticker headlines).getD headlines) headlineWeights =
          .ok (raw, metrics) ∧ ∀ mean, raw = some mean → 0 ≤ mean ∧ mean ≤ 100 :=
      scoreSentiment_between hpos
    dsimp only
    rw [hok]
    cases raw with
    | none => exact ⟨none, _, rfl, nofun⟩
    | some raw =>
      dsimp only
      split
      · exact ⟨none, _, rfl, nofun⟩
      · exact ⟨some raw, _, rfl, hbetween⟩

theorem headlineOwners_ne_nil (news : Dict String (List String)) {headline : String}
    {owners : List String} (h : (headlineOwners news).get? headline = some owners) :
    owners ≠ [] := by
  have hone : ∀ (served : List String) (ticker : String) (d : Dict String (List String)),
      (∀ k l, d.get? k = some l → l ≠ []) → ∀ k l, (served.foldl (fun owners headline =>
        owners.set headline (((owners.get? headline).getD []).insert ticker)) d).get? k = some l →
        l ≠ [] := by
    intro served ticker
    induction served with
    | nil => exact fun _ hd => hd
    | cons first served ih =>
      intro d hd
      refine ih _ fun k l hget => ?_
      rw [Dict.get?_set] at hget
      split at hget
      · cases hget
        exact List.ne_nil_of_mem List.mem_insert_self
      · exact hd k l hget
  have hall : ∀ (entries : List (String × List String)) (d : Dict String (List String)),
      (∀ k l, d.get? k = some l → l ≠ []) → ∀ k l, (entries.foldl (fun owners entry =>
        entry.2.foldl (fun owners headline => owners.set headline
          (((owners.get? headline).getD []).insert entry.1)) owners) d).get? k = some l →
        l ≠ [] := by
    intro entries
    induction entries with
    | nil => exact fun _ hd => hd
    | cons entry entries ih => exact fun d hd => ih _ (hone entry.2 entry.1 d hd)
  exact hall news.entries .empty (fun k l hget => by simp at hget) headline owners h

/-- Every headline of a batch weighs something. -/
theorem batchHeadlineWeights_pos (news : Dict String (List String)) :
    PositiveWeights (some (batchHeadlineWeights news)) := by
  rintro weights hweights headline w hget
  cases hweights
  rw [batchHeadlineWeights, Dict.get?_mapValues, Option.map_eq_some_iff] at hget
  obtain ⟨owners, howners, rfl⟩ := hget
  have hlength := List.length_pos_of_ne_nil (headlineOwners_ne_nil news howners)
  positivity

/-! ### The composite -/

variable {p p' : Pillars} {settings : AnalystSettings} {low high c c' : ℚ}

/-- The pillars that are there, with their weights. -/
def Pillars.present (p : Pillars) (settings : AnalystSettings) : List (ℚ × ℚ) :=
  (settings.technicalWeight, p.technical) ::
    (p.fundamental.toList.map (settings.fundamentalWeight, ·) ++
      (p.sentiment.toList.map (settings.sentimentWeight, ·) ++
        p.alpha.toList.map (settings.alpha158PillarWeight, ·)))

/-- The technical pillar stands alone. -/
def Pillars.Alone (p : Pillars) : Prop :=
  p.fundamental = none ∧ p.sentiment = none ∧ p.alpha = none

instance (p : Pillars) : Decidable p.Alone := inferInstanceAs (Decidable (_ ∧ _ ∧ _))

theorem addPillar_eq (sums : ℚ × ℚ) (w : ℚ) (value : Option ℚ) : addPillar sums w value =
    (sums.1 + weighted (value.toList.map (w, ·)), sums.2 + weight (value.toList.map (w, ·))) := by
  cases value <;> simp [addPillar]

theorem composite_eq : composite p settings =
    if p.Alone then .ok p.technical
    else if weight (p.present settings) = 0 then .error divisionByZero
    else .ok (mean (p.present settings)) := by
  unfold composite Pillars.Alone mean Pillars.present
  simp only [addPillar_eq, WeightedMean.weighted_cons, WeightedMean.weight_cons,
    WeightedMean.weighted_append, WeightedMean.weight_append, add_assoc]

/-- The pillars have no composite exactly when there are several and all of them weigh nothing. -/
theorem composite_error_iff : (∃ e, composite p settings = .error e) ↔
    ¬p.Alone ∧ weight (p.present settings) = 0 := by
  rw [composite_eq]
  by_cases halone : p.Alone
  · simp [halone]
  · by_cases hweight : weight (p.present settings) = 0 <;> simp [halone, hweight]

theorem present_nonneg : ∀ q ∈ p.present settings, 0 ≤ q.1 := by
  intro q hq
  have htechnical := settings.technical_bounds.1
  have hfundamental := settings.fundamental_bounds.1
  have hsentiment := settings.sentiment_bounds.1
  have halpha := settings.alpha_bounds.1
  simp only [Pillars.present, List.mem_cons, List.mem_append, List.mem_map] at hq
  rcases hq with rfl | ⟨v, -, rfl⟩ | ⟨v, -, rfl⟩ | ⟨v, -, rfl⟩ <;> assumption

/-- The composite lies between any bounds of the pillars that are there. -/
theorem composite_between (h : composite p settings = .ok c)
    (hp : ∀ q ∈ p.present settings, low ≤ q.2 ∧ q.2 ≤ high) : low ≤ c ∧ c ≤ high := by
  rw [composite_eq] at h
  split at h
  · cases h
    exact hp (settings.technicalWeight, p.technical) List.mem_cons_self
  · split at h
    · cases h
    · rename_i hweight
      cases h
      have hnonneg : 0 ≤ weight (p.present settings) :=
        WeightedMean.weight_nonneg present_nonneg
      apply WeightedMean.mean_between (lt_of_le_of_ne hnonneg (Ne.symm hweight))
      exact fun q hq => ⟨present_nonneg q hq, hp q hq⟩

/-- The same pillars, each at least as strong. -/
structure Pillars.Below (p p' : Pillars) : Prop where
  technical : p.technical ≤ p'.technical
  fundamental : Option.Rel (· ≤ ·) p.fundamental p'.fundamental
  sentiment : Option.Rel (· ≤ ·) p.sentiment p'.sentiment
  alpha : Option.Rel (· ≤ ·) p.alpha p'.alpha

theorem rises_toList {w : ℚ} {v v' : Option ℚ} (hw : 0 ≤ w) (h : Option.Rel (· ≤ ·) v v') :
    WeightedMean.Rises (v.toList.map (w, ·)) (v'.toList.map (w, ·)) := by
  cases h with
  | none => exact .nil
  | some hle => exact .cons ⟨rfl, hw, hle⟩ .nil

theorem Pillars.Below.rises (h : p.Below p') :
    WeightedMean.Rises (p.present settings) (p'.present settings) := by
  apply List.Forall₂.cons
  · exact ⟨rfl, settings.technical_bounds.1, h.technical⟩
  · apply List.rel_append (rises_toList settings.fundamental_bounds.1 h.fundamental)
    apply List.rel_append (rises_toList settings.sentiment_bounds.1 h.sentiment)
    exact rises_toList settings.alpha_bounds.1 h.alpha

theorem Pillars.Below.alone (h : p.Below p') : p.Alone ↔ p'.Alone := by
  have hnone : ∀ {v v' : Option ℚ}, Option.Rel (· ≤ ·) v v' → (v = none ↔ v' = none) := by
    intro v v' hv
    cases hv with
    | none => exact Iff.rfl
    | some _ => simp
  unfold Pillars.Alone
  rw [hnone h.fundamental, hnone h.sentiment, hnone h.alpha]

/-- The composite does not fall when pillars rise. -/
theorem Pillars.Below.composite (h : p.Below p') (hc : composite p settings = .ok c) :
    ∃ c', composite p' settings = .ok c' ∧ c ≤ c' := by
  rw [composite_eq] at hc ⊢
  rw [← h.rises.weight_eq (l := p.present settings)]
  by_cases halone : p.Alone
  · rw [if_pos halone] at hc
    rw [if_pos (h.alone.mp halone)]
    cases hc
    exact ⟨_, rfl, h.technical⟩
  · rw [if_neg halone] at hc
    rw [if_neg (mt h.alone.mpr halone)]
    split at hc
    · cases hc
    · rename_i hweight
      cases hc
      rw [if_neg hweight]
      exact ⟨_, rfl, h.rises.mean_le⟩

end

end TradingAgents.Analyst
