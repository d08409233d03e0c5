import TradingAgents.Analyst.Indicators

/-! The scores of the technical indicators: a band of its values gives each indicator that has
enough history a sub-score from 0 to 100.  Of all of them only the choppiness can raise. -/

namespace TradingAgents.Analyst

open Kernel ProofKit

inductive Comparison where
  | lt
  | le
  | gt
deriving DecidableEq

/-- `_match`. -/
def Comparison.holds (value : ℚ) (op : Comparison) (threshold : ℚ) : Bool :=
  match op with
  | lt => decide (value < threshold)
  | le => decide (value ≤ threshold)
  | gt => decide (threshold < value)

/-- The score of the first band that a value matches. -/
def scoreMetric (value : ℚ) (bands : List (Comparison × ℚ × ℚ)) (otherwise : ℚ) : ℚ :=
  ((bands.find? fun band => band.1.holds value band.2.1).map fun band => band.2.2).getD otherwise

/-! ### Bands -/

def scoreRsi (value : ℚ) : ℚ := scoreMetric value [(.lt, 30, 80), (.lt, 50, 65), (.lt, 70, 50)] 25

def scoreMacd (line histogram : ℚ) : ℚ :=
  if 0 < line ∧ 0 < histogram then 75
  else if 0 < histogram then 60
  else if line < 0 ∧ histogram < 0 then 25
  else 45

def scoreBollinger (position : ℚ) : ℚ :=
  scoreMetric position [(.lt, 3 / 10, 75), (.lt, 7 / 10, 50)] 30

def scoreSmaDistance (distancePct : ℚ) : ℚ :=
  scoreMetric distancePct [(.gt, 5, 75), (.gt, 0, 60), (.gt, -5, 40)] 20

def scoreEmaCrossover (spreadPct : ℚ) : ℚ :=
  scoreMetric spreadPct [(.gt, 1, 75), (.gt, 0, 60), (.gt, -1, 40)] 25

def scoreAtr (atrPct : ℚ) : ℚ := scoreMetric atrPct [(.lt, 2, 70), (.lt, 4, 55)] 35

def scoreStochastic (percentK percentD : ℚ) : ℚ :=
  if percentK < 20 ∧ percentD < 20 then 80
  else if percentK < 20 then 65
  else if 80 < percentK ∧ 80 < percentD then 20
  else if 80 < percentK then 35
  else 50

def scoreWilliams (value : ℚ) : ℚ := scoreMetric value [(.lt, -80, 75), (.gt, -20, 25)] 50

def scoreChoppiness (value : ℚ) : ℚ :=
  scoreMetric value [(.lt, 191 / 5, 75), (.gt, 309 / 5, 30)] 50

def scoreObv (value signal : ℚ) : ℚ := if signal < value then 70 else 35

def scoreGoldenCross (isGolden : Bool) : ℚ := if isGolden then 75 else 25

def scoreRsi2 (value : ℚ) : ℚ := scoreMetric value [(.lt, 10, 80), (.gt, 90, 20)] 50

def scoreKernel (deviationPct : ℚ) : ℚ := scoreMetric deviationPct [(.lt, -1, 70), (.gt, 1, 30)] 50

def bullishPatterns : List String :=
  ["double_bottom", "inverse_head_and_shoulders", "ascending_triangle"]

def scorePattern (name : String) (conf : ℚ) : ℚ :=
  if name ∈ bullishPatterns then 50 + conf * 30 else 50 - conf * 30

def scoreTurnaround (isSignal : Bool) : ℚ := if isSignal then 75 else 50

/-! ### The indicators of a series -/

/-- An indicator's name, its value and its sub-score. -/
abbrev IndicatorScore := String × ℚ × ℚ

section

variable (math : MathFunctions) (rows : List OHLCVBar) (settings : IndicatorSettings)

/-- `_momentum_scores`. -/
def momentumScores : Except HandlerError (List IndicatorScore) := do
  let closes := rows.map BarOf.close
  let rsi ← rsi closes settings.rsiPeriod
  let bb ← bollingerPosition math closes settings.bollingerWindow settings.bollingerSigma
  let sma ← smaDistance closes settings.smaLongPeriod
  let ema ← emaCrossoverSpread closes settings.emaShortPeriod settings.emaLongPeriod
  let macd ← macd closes settings.macdFast settings.macdSlow settings.macdSignal
  return (rsi.toList.map fun value => ("rsi", value, scoreRsi value)) ++
    (macd.toList.map fun m => ("macd_histogram", m.2.2, scoreMacd m.1 m.2.2)) ++
    (bb.toList.map fun value => ("bollinger_position", value, scoreBollinger value)) ++
    (sma.toList.map fun value => ("sma_distance_pct", value, scoreSmaDistance value)) ++
    ema.toList.map fun value => ("ema_spread_pct", value, scoreEmaCrossover value)

/-- The average true range in percent of the last close. -/
def atrPct : Except HandlerError (Option ℚ) := do
  match ← atr rows settings.atrPeriod with
  | none => return none
  | some range =>
    let last ← lastOf (rows.map BarOf.close)
    let share ← divide range last
    return some (share * 100)

def rangeIndicatorScores : Except HandlerError (List IndicatorScore) := do
  let atrPct ← atrPct rows settings
  let stoch ← stochastic rows settings.stochKPeriod settings.stochDPeriod
  let williams ← williamsR rows settings.williamsPeriod
  let chop ← choppiness math rows settings.choppinessPeriod
  return (atrPct.toList.map fun value => ("atr_pct", value, scoreAtr value)) ++
    (stoch.toList.map fun s => ("stochastic_k", s.1, scoreStochastic s.1 s.2)) ++
    (williams.toList.map fun value => ("williams_r", value, scoreWilliams value)) ++
    chop.toList.map fun value => ("choppiness", value, scoreChoppiness value)

def eventIndicatorScores : Except HandlerError (List IndicatorScore) := do
  let closes := rows.map BarOf.close
  let obv ← obv rows settings.obvSignalPeriod
  let isGolden ← goldenCross closes settings.goldenCrossShortPeriod settings.smaLongPeriod
  let rsi2 ← rsi closes settings.rsi2Period
  return (obv.toList.map fun o => ("obv", o.1, scoreObv o.1 o.2)) ++
    (isGolden.toList.map fun golden =>
      ("golden_cross", if golden then 1 else 0, scoreGoldenCross golden)) ++
    rsi2.toList.map fun value => ("rsi2", value, scoreRsi2 value)

def patternIndicatorScores : Except HandlerError (List IndicatorScore) := do
  let dev ← nadarayaWatson math (rows.map BarOf.close) settings.nwBandwidth settings.nwLookback
  let pattern ← geometricPatterns rows settings.patternLookback settings.patternMinSwingPct
  return (dev.toList.map fun value => ("nw_deviation_pct", value, scoreKernel value)) ++
    (pattern.toList.map fun p => ("geometric_pattern", p.2, scorePattern p.1 p.2)) ++
    (turnaroundSignal rows).toList.map fun signal =>
      ("turnaround", if signal then 1 else 0, scoreTurnaround signal)

/-- The sub-scores of every indicator that has enough history. -/
def indicatorScores : Except HandlerError (List IndicatorScore) := do
  let momentum ← momentumScores math rows settings
  let range ← rangeIndicatorScores math rows settings
  let event ← eventIndicatorScores rows settings
  let pattern ← patternIndicatorScores math rows settings
  return momentum ++ range ++ event ++ pattern

end

/-! ### Where they raise -/

section

variable {math : MathFunctions} {rows : List OHLCVBar} {settings : IndicatorSettings}

theorem momentumScores_total : ∃ scores, momentumScores math rows settings = .ok scores := by
  have hrsi := settings.rsi_bounds
  have hmacd := settings.macd_bounds
  have hsignal := settings.signal_line_bounds
  have hbollinger := settings.bollinger_bounds
  have hsma := settings.sma_bounds
  have hema := settings.ema_bounds
  obtain ⟨rsi, hrsi⟩ := @rsi_total (rows.map BarOf.close) settings.rsiPeriod (by omega)
  obtain ⟨bb, hbb⟩ := @bollingerPosition_total math settings.bollingerSigma
    (rows.map BarOf.close) settings.bollingerWindow (by omega)
  obtain ⟨sma, hsma⟩ := @smaDistance_total _ settings.smaLongPeriod (by omega) (@closes_pos rows)
  obtain ⟨ema, hema⟩ := @emaCrossoverSpread_total _ settings.emaShortPeriod settings.emaLongPeriod
    (by omega) (by omega) (@closes_pos rows)
  obtain ⟨macd, hmacd⟩ := @macd_total (rows.map BarOf.close) settings.macdFast settings.macdSlow
    settings.macdSignal (by omega) (by omega) (by omega)
  rw [momentumScores, hrsi, Fallible.ok_bind, hbb, Fallible.ok_bind, hsma, Fallible.ok_bind, hema,
    Fallible.ok_bind, hmacd]
  exact ⟨_, rfl⟩

theorem eventIndicatorScores_total : ∃ scores, eventIndicatorScores rows settings = .ok scores := by
  have hobv := settings.obv_bounds
  have hgolden := settings.golden_bounds
  have hsma := settings.sma_bounds
  have hrsi2 := settings.rsi2_bounds
  obtain ⟨obv, hobv⟩ := @obv_total rows settings.obvSignalPeriod (by omega)
  obtain ⟨golden, hgolden⟩ := @goldenCross_total (rows.map BarOf.close)
    settings.goldenCrossShortPeriod settings.smaLongPeriod (by omega) (by omega)
  obtain ⟨rsi2, hrsi2⟩ := @rsi_total (rows.map BarOf.close) settings.rsi2Period (by omega)
  rw [eventIndicatorScores, hobv, Fallible.ok_bind, hgolden, Fallible.ok_bind, hrsi2]
  exact ⟨_, rfl⟩

theorem patternIndicatorScores_total :
    ∃ scores, patternIndicatorScores math rows settings = .ok scores := by
  have hbandwidth := settings.bandwidth_bounds
  have hswing := settings.swing_bounds
  obtain ⟨dev, hdev⟩ := @nadarayaWatson_total math settings.nwBandwidth (rows.map BarOf.close)
    settings.nwLookback (by linarith)
  obtain ⟨pattern, hpattern⟩ := @geometricPatterns_total settings.patternMinSwingPct rows
    settings.patternLookback (by linarith)
  rw [patternIndicatorScores, hdev, Fallible.ok_bind, hpattern]
  exact ⟨_, rfl⟩

theorem atrPct_total : ∃ r, atrPct rows settings = .ok r := by
  have hatr := settings.atr_bounds
  obtain ⟨range, hrange⟩ := @atr_total rows settings.atrPeriod (by omega)
  rw [atrPct, hrange, Fallible.ok_bind]
  cases range with
  | none => exact ⟨none, rfl⟩
  | some range =>
    have hne : rows.map BarOf.close ≠ [] := by
      intro hnil
      have hshort : ([] : List OHLCVBar).length < settings.atrPeriod + 1 := Nat.succ_pos _
      rw [List.map_eq_nil_iff.mp hnil, atr, if_pos hshort] at hrange
      cases hrange
    obtain ⟨last, hlast, hmem⟩ := lastOf_mem hne
    dsimp only
    rw [hlast, Fallible.ok_bind, divide_ok (closes_pos last hmem).ne']
    exact ⟨_, rfl⟩

/-- The indicators raise exactly where the choppiness does. -/
theorem indicatorScores_raises_iff :
    (∃ e, indicatorScores math rows settings = .error e) ↔
      Crossed rows settings.choppinessPeriod := by
  have hstoch := settings.stoch_bounds
  have hwilliams := settings.williams_bounds
  obtain ⟨momentum, hmomentum⟩ := @momentumScores_total math rows settings
  obtain ⟨event, hevent⟩ := @eventIndicatorScores_total rows settings
  obtain ⟨pattern, hpattern⟩ := @patternIndicatorScores_total math rows settings
  obtain ⟨atrPct, hatrPct⟩ := @atrPct_total rows settings
  obtain ⟨stoch, hstoch⟩ := @stochastic_total rows settings.stochKPeriod settings.stochDPeriod
    (by omega) (by omega)
  obtain ⟨williams, hwilliams⟩ := @williamsR_total rows settings.williamsPeriod (by omega)
  rw [← @choppiness_raises_iff math rows _ settings.choppiness_bounds.1, indicatorScores, hmomentum,
    Fallible.ok_bind, rangeIndicatorScores, hatrPct, Fallible.ok_bind, hstoch, Fallible.ok_bind,
    hwilliams, Fallible.ok_bind, hevent, hpattern]
  cases choppiness math rows settings.choppinessPeriod with
  | error e => exact iff_of_true ⟨e, rfl⟩ ⟨e, rfl⟩
  | ok chop => exact iff_of_false nofun nofun

end

end TradingAgents.Analyst
