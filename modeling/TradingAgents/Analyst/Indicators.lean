import TradingAgents.Analyst.StopTargetOutcome
import TradingAgents.Execution.StopWrites
import TradingAgents.Orchestration.HistoryWindow
import TradingAgents.ProofKit.Series

/-! The technical indicators of a series of bars, from the oldest bar to the latest.  Arithmetic is
exact but for the functions of `math`, whose rounding is left open. -/

namespace TradingAgents.Analyst

open Kernel ProofKit
open Execution (roundHalfEven)

/-- The periods and windows that the indicators are computed over. -/
structure IndicatorSettings extends Orchestration.AnalystSettings where
  macdFast : Nat := 12
  bollingerSigma : ℚ := 2
  emaShortPeriod : Nat := 20
  atrPeriod : Nat := 14
  stochKPeriod : Nat := 14
  stochDPeriod : Nat := 3
  williamsPeriod : Nat := 14
  choppinessPeriod : Nat := 14
  obvSignalPeriod : Nat := 20
  goldenCrossShortPeriod : Nat := 50
  rsi2Period : Nat := 2
  nwBandwidth : ℚ := 8
  nwLookback : Nat := 50
  patternLookback : Nat := 60
  patternMinSwingPct : ℚ := 2
  rsi_bounds : 2 ≤ rsiPeriod ∧ rsiPeriod ≤ 100 := by norm_num
  macd_bounds : 2 ≤ macdFast ∧ macdFast < macdSlow ∧ macdSlow ≤ 200 := by norm_num
  signal_line_bounds : 2 ≤ macdSignal ∧ macdSignal ≤ 100 := by norm_num
  bollinger_bounds : 2 ≤ bollingerWindow ∧ bollingerWindow ≤ 200 := by norm_num
  sigma_bounds : 1 / 2 ≤ bollingerSigma ∧ bollingerSigma ≤ 4 := by norm_num
  sma_bounds : 20 ≤ smaLongPeriod ∧ smaLongPeriod ≤ 400 := by norm_num
  ema_bounds : 2 ≤ emaShortPeriod ∧ emaShortPeriod < emaLongPeriod ∧ emaLongPeriod ≤ 400 := by
    norm_num
  atr_bounds : 2 ≤ atrPeriod ∧ atrPeriod ≤ 100 := by norm_num
  stoch_bounds : (2 ≤ stochKPeriod ∧ stochKPeriod ≤ 100) ∧ 1 ≤ stochDPeriod ∧
    stochDPeriod ≤ 20 := by norm_num
  williams_bounds : 2 ≤ williamsPeriod ∧ williamsPeriod ≤ 100 := by norm_num
  choppiness_bounds : 2 ≤ choppinessPeriod ∧ choppinessPeriod ≤ 100 := by norm_num
  obv_bounds : 2 ≤ obvSignalPeriod ∧ obvSignalPeriod ≤ 100 := by norm_num
  golden_bounds : 2 ≤ goldenCrossShortPeriod ∧ goldenCrossShortPeriod ≤ 200 := by norm_num
  rsi2_bounds : 2 ≤ rsi2Period ∧ rsi2Period ≤ 10 := by norm_num
  bandwidth_bounds : 1 / 2 ≤ nwBandwidth ∧ nwBandwidth ≤ 50 := by norm_num
  kernel_bounds : 10 ≤ nwLookback ∧ nwLookback ≤ 200 := by norm_num
  pattern_bounds : 20 ≤ patternLookback ∧ patternLookback ≤ 200 := by norm_num
  swing_bounds : 1 / 2 ≤ patternMinSwingPct ∧ patternMinSwingPct ≤ 10 := by norm_num

/-- The functions of `math`, rounded as it likes. -/
structure MathFunctions where
  sqrt : ℚ → ℚ
  exp : ℚ → ℚ
  log10 : ℚ → ℚ
  exp_nonneg : ∀ x, 0 ≤ exp x
  log10_pos : ∀ x, 2 ≤ x → 0 < log10 x

/-! ### Arithmetic that may raise -/

def divisionByZero : HandlerError := .validation "float division by zero"

def domainError : HandlerError := .validation "math domain error"

def divide (x y : ℚ) : Except HandlerError ℚ := if y = 0 then .error divisionByZero else .ok (x / y)

def squareRoot (math : MathFunctions) (x : ℚ) : Except HandlerError ℚ :=
  if x < 0 then .error domainError else .ok (math.sqrt x)

def logarithm (math : MathFunctions) (x : ℚ) : Except HandlerError ℚ :=
  if x ≤ 0 then .error domainError else .ok (math.log10 x)

/-- The last number of a list. -/
def lastOf (values : List ℚ) : Except HandlerError ℚ :=
  match values.getLast? with
  | none => .error (.validation "list index out of range")
  | some value => .ok value

/-- `zip(xs, ys, strict=True)`. -/
def zipStrict (xs ys : List ℚ) : Except HandlerError (List (ℚ × ℚ)) :=
  if xs.length = ys.length then .ok (xs.zip ys)
  else .error (.validation "zip() arguments have different lengths")

/-! ### Momentum and trend -/

/-- `_mean`. -/
def average (values : List ℚ) : Except HandlerError ℚ := divide values.sum values.length

/-- `_sma`: the mean of the last `period` values. -/
def sma (values : List ℚ) (period : Nat) : Except HandlerError ℚ := average (values.rtake period)

/-- `_pstdev`. -/
def pstdev (math : MathFunctions) (values : List ℚ) : Except HandlerError ℚ :=
  if values.length < 2 then .ok 0
  else do
    let mu ← average values
    let variance ← divide (values.map fun value => (value - mu) ^ 2).sum values.length
    squareRoot math variance

/-- The averages after each value, from the mean of the first `period` on. -/
def emaSeries (values : List ℚ) (period : Nat) : Except HandlerError (List ℚ) := do
  let multiplier : ℚ := 2 / (period + 1)
  let seed ← average (values.take period)
  return (values.drop period).scanl (fun ema value => (value - ema) * multiplier + ema) seed

def ema (values : List ℚ) (period : Nat) : Except HandlerError ℚ := do
  let series ← emaSeries values period
  lastOf series

/-- 100 when no close of the window fell. -/
def rsi (closes : List ℚ) (period : Nat) : Except HandlerError (Option ℚ) :=
  if closes.length < period + 1 then .ok none
  else do
    let moves := Series.pairwise (closes.rtake (period + 1))
    let avgLoss ← average (moves.map fun p => max (p.1 - p.2) 0)
    if avgLoss = 0 then return some 100
    let avgGain ← average (moves.map fun p => max (p.2 - p.1) 0)
    let rs ← divide avgGain avgLoss
    let part ← divide 100 (1 + rs)
    return some (100 - part)

/-- The line, its signal and the histogram between them. -/
def macd (closes : List ℚ) (fast slow signal : Nat) : Except HandlerError (Option (ℚ × ℚ × ℚ)) :=
  if closes.length < slow + signal then .ok none
  else do
    let fastSeries ← emaSeries closes fast
    let slowSeries ← emaSeries closes slow
    let pairs ← zipStrict (fastSeries.rtake slowSeries.length) slowSeries
    let series := pairs.map fun p => p.1 - p.2
    let line ← lastOf series
    let signalLine ← ema series signal
    return some (line, signalLine, line - signalLine)

/-- The place of the last close between its bands, 0 at the lower and 1 at the upper one. -/
def bollingerPosition (math : MathFunctions) (closes : List ℚ) (window : Nat) (sigma : ℚ) :
    Except HandlerError (Option ℚ) :=
  if closes.length < window then .ok none
  else do
    let mid ← sma closes window
    let deviation ← pstdev math (closes.rtake window)
    let upper := mid + sigma * deviation
    let lower := mid - sigma * deviation
    if upper = lower then return some (1 / 2)
    let last ← lastOf closes
    let position ← divide (last - lower) (upper - lower)
    return some (max 0 (min 1 position))

def smaDistance (closes : List ℚ) (period : Nat) : Except HandlerError (Option ℚ) :=
  if closes.length < period then .ok none
  else do
    let mean ← sma closes period
    let last ← lastOf closes
    let distance ← divide (last - mean) mean
    return some (distance * 100)

def emaCrossoverSpread (closes : List ℚ) (short long : Nat) : Except HandlerError (Option ℚ) :=
  if closes.length < long then .ok none
  else do
    let shortEma ← ema closes short
    let longEma ← ema closes long
    let spread ← divide (shortEma - longEma) longEma
    return some (spread * 100)

/-! ### Ranges -/

/-- The true range of each bar but the first. -/
def trueRanges (rows : List OHLCVBar) : List ℚ :=
  (Series.pairwise rows).map fun p =>
    max (max (p.2.high - p.2.low) |p.2.high - p.1.close|) |p.2.low - p.1.close|

def atr (rows : List OHLCVBar) (period : Nat) : Except HandlerError (Option ℚ) :=
  if rows.length < period + 1 then .ok none
  else do
    let range ← average ((trueRanges rows).rtake period)
    return some range

/-- The highest high and the lowest low of some bars. -/
def extremes (rows : List OHLCVBar) : Except HandlerError (ℚ × ℚ) := do
  let highest ← maximum (rows.map BarOf.high)
  let lowest ← minimum (rows.map BarOf.low)
  return (highest, lowest)

/-- `%K` of the `k` bars that end before the last `offset` ones. -/
def stochasticAt (rows : List OHLCVBar) (k offset : Nat) : Except HandlerError ℚ := do
  let window := (rows.take (rows.length - offset)).rtake k
  let (highest, lowest) ← extremes window
  if highest = lowest then return 50
  let close ← lastOf (window.map BarOf.close)
  let place ← divide (close - lowest) (highest - lowest)
  return place * 100

/-- `%K` of the last bars, and the mean over the last `d` ends. -/
def stochastic (rows : List OHLCVBar) (k d : Nat) : Except HandlerError (Option (ℚ × ℚ)) :=
  if rows.length < k + d - 1 then .ok none
  else do
    let values ← (List.range d).mapM (stochasticAt rows k)
    match values with
    | [] => .error (.validation "list index out of range")
    | percentK :: _ =>
      let percentD ← average values
      return some (percentK, percentD)

def williamsR (rows : List OHLCVBar) (period : Nat) : Except HandlerError (Option ℚ) :=
  if rows.length < period then .ok none
  else do
    let (highest, lowest) ← extremes (rows.rtake period)
    if highest = lowest then return some (-50)
    let close ← lastOf (rows.map BarOf.close)
    let place ← divide (highest - close) (highest - lowest)
    return some (place * -100)

def choppiness (math : MathFunctions) (rows : List OHLCVBar) (period : Nat) :
    Except HandlerError (Option ℚ) :=
  if rows.length < period + 1 then .ok none
  else do
    let sumTr := ((trueRanges rows).rtake period).sum
    let (highest, lowest) ← extremes (rows.rtake period)
    let range := highest - lowest
    if range = 0 ∨ sumTr = 0 then return none
    let ratio ← divide sumTr range
    let ratioLog ← logarithm math ratio
    let periodLog ← logarithm math period
    let index ← divide (100 * ratioLog) periodLog
    return some index

/-! ### Volume and events -/

/-- The on-balance volume after each bar. -/
def obvSeries (rows : List OHLCVBar) : List ℚ :=
  (Series.pairwise rows).scanl (fun volume p =>
    if p.1.close < p.2.close then volume + p.2.volume
    else if p.2.close < p.1.close then volume - p.2.volume
    else volume) 0

def obv (rows : List OHLCVBar) (signalPeriod : Nat) : Except HandlerError (Option (ℚ × ℚ)) :=
  if rows.length < signalPeriod + 1 then .ok none
  else do
    let signal ← divide ((obvSeries rows).rtake signalPeriod).sum signalPeriod
    let last ← lastOf (obvSeries rows)
    return some (last, signal)

def goldenCross (closes : List ℚ) (short long : Nat) : Except HandlerError (Option Bool) :=
  if closes.length < long then .ok none
  else do
    let shortSma ← divide (closes.rtake short).sum short
    let longSma ← divide (closes.rtake long).sum long
    return some (decide (longSma < shortSma))

/-! ### The kernel and the calendar -/

/-- The weight of the bar at an index of the last `n`. -/
def kernelWeight (math : MathFunctions) (bandwidth : ℚ) (n index : Nat) :
    Except HandlerError ℚ := do
  let distance ← divide ((index : ℚ) - ((n : ℚ) - 1)) bandwidth
  return math.exp (-1 / 2 * distance ^ 2)

/-- The percentage that the last close lies off the smoothed line. -/
def nadarayaWatson (math : MathFunctions) (closes : List ℚ) (bandwidth : ℚ) (lookback : Nat) :
    Except HandlerError (Option ℚ) :=
  let n := min lookback closes.length
  if n < 10 then .ok none
  else do
    let prices := closes.rtake n
    let weights ← (List.range n).mapM (kernelWeight math bandwidth n)
    if weights.sum = 0 then return none
    let pairs ← zipStrict weights prices
    let smoothed ← divide (pairs.map fun p => p.1 * p.2).sum weights.sum
    if smoothed = 0 then return none
    let last ← lastOf prices
    let deviation ← divide (last - smoothed) smoothed
    return some (deviation * 100)

/-- Whether the last bar is of a Monday and closes under the Friday among the four bars before. -/
def turnaroundSignal (rows : List OHLCVBar) : Option Bool :=
  if rows.length < 3 then none
  else match rows.reverse with
    | [] => none
    | last :: before =>
      if weekday last.barDate ≠ 0 then some false
      else match (before.take 4).find? fun bar => weekday bar.barDate = 4 with
        | some friday => some (decide (last.close < friday.close))
        | none => some false

/-! ### Patterns -/

/-- A local high or low. -/
structure Swing where
  index : Nat
  price : ℚ
  isHigh : Bool
deriving DecidableEq

/-- The swing at an index that has two bars on each side. -/
def swingAt (rows : List OHLCVBar) (index : Nat) : Option Swing :=
  match rows[index]?, [index - 2, index - 1, index + 1, index + 2].mapM (rows[·]?) with
  | some bar, some neighbours =>
    if neighbours.all fun other => decide (other.high < bar.high) then
      some ⟨index, bar.high, true⟩
    else if neighbours.all fun other => decide (bar.low < other.low) then
      some ⟨index, bar.low, false⟩
    else none
  | _, _ => none

/-- The local highs and lows that lie far enough from the last close. -/
def findSwingPoints (rows : List OHLCVBar) (minSwingPct : ℚ) : Except HandlerError (List Swing) :=
  if rows.length < 5 then .ok []
  else do
    let swings := (List.range' 2 (rows.length - 4)).filterMap (swingAt rows)
    let last ← lastOf (rows.map BarOf.close)
    if swings = [] ∨ last = 0 then return swings
    Fallible.filter (fun swing => do
      let distance ← divide |swing.price - last| last
      return decide (minSwingPct * (1 / 2) ≤ distance * 100)) swings

/-- `_matching_swings`. -/
def matchingSwings (a b tolerance : ℚ) : Except HandlerError Bool := do
  let distance ← divide |a - b| a
  return decide (distance < tolerance)

/-- `round(value, 2)`. -/
def roundCents (value : ℚ) : ℚ := (roundHalfEven (value * 100) : ℚ) / 100

/-- The swings of one kind, the latest first. -/
def lastSwings (swings : List Swing) (isHigh : Bool) : List Swing :=
  (swings.filter fun swing => swing.isHigh = isHigh).reverse

/-- Two swings of one kind at one level, and a last close beyond it. -/
def doubleOf (swings : List Swing) (tolerance : ℚ) (name : String) (beyond : ℚ → Bool) :
    Except HandlerError (Option (String × ℚ)) :=
  match swings with
  | second :: first :: _ => do
    let matching ← matchingSwings first.price second.price tolerance
    if matching ∧ first.index + 5 ≤ second.index ∧ beyond second.price then
      let distance ← divide |first.price - second.price| first.price
      let share ← divide distance tolerance
      return some (name, roundCents (min (1 - share) (17 / 20)))
    return none
  | _ => .ok none

def doublePattern (swings : List Swing) (last tolerance : ℚ) :
    Except HandlerError (Option (String × ℚ)) := do
  let top ← doubleOf (lastSwings swings true) tolerance "double_top"
    fun level => decide (last < level * (1 - tolerance))
  if top.isSome then return top
  doubleOf (lastSwings swings false) tolerance "double_bottom"
    fun level => decide (level * (1 + tolerance) < last)

/-- A head beyond two shoulders at one level, and a last close beyond both. -/
def shouldersOf (swings : List Swing) (tolerance : ℚ) (name : String) (beyond : ℚ → ℚ → Bool)
    (broken : ℚ → ℚ → Bool) : Except HandlerError (Option (String × ℚ)) :=
  match swings with
  | second :: head :: first :: _ => do
    let matching ← matchingSwings first.price second.price tolerance
    if beyond head.price first.price ∧ beyond head.price second.price ∧ matching ∧
        broken first.price second.price then return some (name, 7 / 10)
    return none
  | _ => .ok none

def shoulderPattern (swings : List Swing) (last tolerance : ℚ) :
    Except HandlerError (Option (String × ℚ)) := do
  let top ← shouldersOf (lastSwings swings true) tolerance "head_and_shoulders"
    (fun head shoulder => decide (shoulder < head)) fun s1 s2 => decide (last < min s1 s2)
  if top.isSome then return top
  shouldersOf (lastSwings swings false) tolerance "inverse_head_and_shoulders"
    (fun head shoulder => decide (head < shoulder)) fun s1 s2 => decide (max s1 s2 < last)

/-- Level highs over rising lows, or level lows under falling highs. -/
def trianglePattern (swings : List Swing) (tolerance : ℚ) :
    Except HandlerError (Option (String × ℚ)) :=
  match lastSwings swings true, lastSwings swings false with
  | high2 :: high1 :: _, low2 :: low1 :: _ => do
    let half := tolerance * (1 / 2)
    let level ← matchingSwings high1.price high2.price tolerance
    if level ∧ low1.price * (1 + half) < low2.price then
      return some ("ascending_triangle", 13 / 20)
    let level ← matchingSwings low1.price low2.price tolerance
    if level ∧ high2.price < high1.price * (1 - half) then
      return some ("descending_triangle", 13 / 20)
    return none
  | _, _ => .ok none

/-- The first pattern that the last `lookback` bars match, with the confidence in it. -/
def geometricPatterns (rows : List OHLCVBar) (lookback : Nat) (minSwingPct : ℚ) :
    Except HandlerError (Option (String × ℚ)) :=
  let n := min lookback rows.length
  if n < 20 then .ok none
  else do
    let window := rows.rtake n
    let swings ← findSwingPoints window minSwingPct
    if swings.length < 3 then return none
    let tolerance := minSwingPct / 100
    let last ← lastOf (window.map BarOf.close)
    let double ← doublePattern swings last tolerance
    if double.isSome then return double
    let shoulder ← shoulderPattern swings last tolerance
    if shoulder.isSome then return shoulder
    trianglePattern swings tolerance

/-! ### Where the arithmetic ends -/

section

variable {math : MathFunctions} {x y q tolerance bandwidth sigma minSwingPct : ℚ}
  {values closes : List ℚ} {rows : List OHLCVBar} {swings : List Swing}
  {period fast slow signal window short long k d offset lookback : Nat}

theorem divide_ok (h : y ≠ 0) : divide x y = .ok (x / y) := if_neg h

theorem squareRoot_total (h : 0 ≤ x) : ∃ r, squareRoot math x = .ok r :=
  ⟨_, if_neg (not_lt.mpr h)⟩

theorem lastOf_mem (h : values ≠ []) : ∃ v, lastOf values = .ok v ∧ v ∈ values := by
  unfold lastOf
  rw [List.getLast?_eq_some_getLast h]
  exact ⟨_, rfl, List.getLast_mem h⟩

theorem closes_pos : ∀ close ∈ rows.map BarOf.close, 0 < close := by
  intro close hclose
  obtain ⟨bar, -, rfl⟩ := List.mem_map.mp hclose
  exact bar.close_admitted

theorem length_rtake {α : Type} (l : List α) (n : Nat) :
    (l.rtake n).length = min n l.length := by
  rw [List.rtake, List.length_drop]
  omega

theorem rtake_ne_nil {α : Type} {l : List α} {n : Nat} (hl : l ≠ []) (hn : 0 < n) :
    l.rtake n ≠ [] := by
  have hlength := List.length_pos_of_ne_nil hl
  refine List.ne_nil_of_length_pos ?_
  rw [length_rtake]
  omega

theorem mem_of_mem_rtake {α : Type} {l : List α} {n : Nat} {a : α} (h : a ∈ l.rtake n) : a ∈ l :=
  List.mem_of_mem_drop h

theorem average_ok (h : values ≠ []) : average values = .ok (values.sum / values.length) := by
  refine divide_ok ?_
  exact_mod_cast (List.length_pos_of_ne_nil h).ne'

theorem average_pos (h : values ≠ []) (hpos : ∀ v ∈ values, 0 < v) :
    ∃ m, average values = .ok m ∧ 0 < m := by
  refine ⟨_, average_ok h, div_pos (List.sum_pos values hpos h) ?_⟩
  exact_mod_cast List.length_pos_of_ne_nil h

theorem average_nonneg (h : values ≠ []) (hnonneg : ∀ v ∈ values, 0 ≤ v) :
    ∃ m, average values = .ok m ∧ 0 ≤ m :=
  ⟨_, average_ok h, div_nonneg (List.sum_nonneg hnonneg) (Nat.cast_nonneg _)⟩

theorem variance_nonneg (values : List ℚ) (mean : ℚ) (n : Nat) :
    0 ≤ (values.map fun value => (value - mean) ^ 2).sum / (n : ℚ) := by
  refine div_nonneg (List.sum_nonneg fun v hv => ?_) (Nat.cast_nonneg _)
  obtain ⟨value, -, rfl⟩ := List.mem_map.mp hv
  exact sq_nonneg _

theorem pstdev_total (h : values ≠ []) : ∃ deviation, pstdev math values = .ok deviation := by
  have hlength : (values.length : ℚ) ≠ 0 := by
    exact_mod_cast (List.length_pos_of_ne_nil h).ne'
  unfold pstdev
  split
  · exact ⟨0, rfl⟩
  · rw [average_ok h, Fallible.ok_bind, divide_ok hlength, Fallible.ok_bind]
    exact squareRoot_total (variance_nonneg _ _ _)

/-! ### Momentum and trend -/

theorem emaSeries_total (h : values ≠ []) (hperiod : 0 < period) :
    ∃ seed, average (values.take period) = .ok seed ∧ emaSeries values period =
      .ok ((values.drop period).scanl
        (fun ema value => (value - ema) * (2 / (period + 1)) + ema) seed) := by
  have hne : values.take period ≠ [] := by
    have hlength := List.length_pos_of_ne_nil h
    refine List.ne_nil_of_length_pos ?_
    rw [List.length_take]
    omega
  refine ⟨_, average_ok hne, ?_⟩
  rw [emaSeries, average_ok hne]
  rfl

/-- There is an average from the end of the first `period` values on. -/
theorem emaSeries_length (h : values ≠ []) (hperiod : 0 < period) :
    ∃ series, emaSeries values period = .ok series ∧
      series.length = values.length - period + 1 := by
  obtain ⟨seed, -, hseries⟩ := emaSeries_total h hperiod
  refine ⟨_, hseries, ?_⟩
  rw [List.length_scanl, List.length_drop]

theorem ema_total (h : values ≠ []) (hperiod : 0 < period) :
    ∃ e, ema values period = .ok e := by
  obtain ⟨series, hseries, hlength⟩ := emaSeries_length h hperiod
  obtain ⟨e, he, -⟩ := @lastOf_mem series (List.ne_nil_of_length_pos (by omega))
  exact ⟨e, by rw [ema, hseries, Fallible.ok_bind, he]⟩

/-- The averages of positive values are positive. -/
theorem ema_pos (h : values ≠ []) (hperiod : 0 < period) (hpos : ∀ v ∈ values, 0 < v) :
    ∃ e, ema values period = .ok e ∧ 0 < e := by
  obtain ⟨seed, hseed, hseries⟩ := emaSeries_total h hperiod
  have hne : values.take period ≠ [] := by
    have hlength := List.length_pos_of_ne_nil h
    refine List.ne_nil_of_length_pos ?_
    rw [List.length_take]
    omega
  obtain ⟨seed', hseed', hpositive⟩ :=
    average_pos hne fun v hv => hpos v (List.mem_of_mem_take hv)
  obtain rfl : seed' = seed := Except.ok.inj (hseed'.symm.trans hseed)
  have hmultiplier : (0 : ℚ) < 2 / (period + 1) ∧ (2 : ℚ) / (period + 1) ≤ 1 := by
    have hone : (1 : ℚ) ≤ period := by exact_mod_cast hperiod
    exact ⟨by positivity, by rw [div_le_one (by positivity)]; linarith⟩
  obtain ⟨e, he, hmem⟩ := @lastOf_mem ((values.drop period).scanl
    (fun ema value => (value - ema) * (2 / (period + 1)) + ema) seed') (by simp)
  refine ⟨e, by rw [ema, hseries, Fallible.ok_bind, he], ?_⟩
  have hrest : ∀ v ∈ values.drop period, 0 < v := fun v hv => hpos v (List.mem_of_mem_drop hv)
  clear he hseries hseed hseed'
  generalize values.drop period = rest at hrest hmem
  -- every average lies between the one before it and a value
  induction rest generalizing seed' with
  | nil =>
    obtain rfl : e = seed' := by simpa using hmem
    exact hpositive
  | cons value rest ih =>
    rw [List.scanl_cons] at hmem
    rcases List.mem_cons.mp hmem with rfl | hlater
    · exact hpositive
    · refine ih _ ?_ (fun w hw => hrest w (List.mem_cons_of_mem _ hw)) hlater
      have hvalue := hrest value List.mem_cons_self
      have hkept := mul_nonneg hpositive.le (sub_nonneg.mpr hmultiplier.2)
      have hadded := mul_pos hvalue hmultiplier.1
      linarith

theorem rsi_total (hperiod : 0 < period) : ∃ r, rsi closes period = .ok r := by
  unfold rsi
  dsimp only
  split
  · exact ⟨none, rfl⟩
  · rename_i hlong
    have hmoves : Series.pairwise (closes.rtake (period + 1)) ≠ [] := by
      refine List.ne_nil_of_length_pos ?_
      rw [Series.length_pairwise, length_rtake]
      omega
    obtain ⟨loss, hloss, hpositive⟩ := @average_nonneg
      ((Series.pairwise (closes.rtake (period + 1))).map fun p => max (p.1 - p.2) 0)
      (by simpa using hmoves) fun v hv => by
        obtain ⟨p, -, rfl⟩ := List.mem_map.mp hv
        exact le_max_right _ _
    obtain ⟨gain, hgain, hnonneg⟩ := @average_nonneg
      ((Series.pairwise (closes.rtake (period + 1))).map fun p => max (p.2 - p.1) 0)
      (by simpa using hmoves) fun v hv => by
        obtain ⟨p, -, rfl⟩ := List.mem_map.mp hv
        exact le_max_right _ _
    rw [hloss, Fallible.ok_bind]
    by_cases hzero : loss = 0
    · rw [if_pos hzero]
      exact ⟨_, rfl⟩
    · have hrs : 1 + gain / loss ≠ 0 := by
        have := div_nonneg hnonneg hpositive
        linarith
      rw [if_neg hzero, hgain, Fallible.ok_bind, divide_ok hzero, Fallible.ok_bind, divide_ok hrs]
      exact ⟨_, rfl⟩

theorem macd_total (hfast : 0 < fast) (hslow : fast < slow) (hsignal : 0 < signal) :
    ∃ r, macd closes fast slow signal = .ok r := by
  unfold macd
  split
  · exact ⟨none, rfl⟩
  · rename_i hlong
    have hne : closes ≠ [] := List.ne_nil_of_length_pos (by omega)
    obtain ⟨fasts, hfasts, hfastLength⟩ := emaSeries_length hne hfast
    obtain ⟨slows, hslows, hslowLength⟩ := emaSeries_length hne (hfast.trans hslow)
    have hsame : (fasts.rtake slows.length).length = slows.length := by
      rw [length_rtake]
      omega
    have hseries : ((fasts.rtake slows.length).zip slows).map (fun p => p.1 - p.2) ≠ [] := by
      refine List.ne_nil_of_length_pos ?_
      rw [List.length_map, List.length_zip, hsame]
      omega
    obtain ⟨line, hline, -⟩ := lastOf_mem hseries
    obtain ⟨signalLine, hsignalLine⟩ := ema_total hseries hsignal
    rw [hfasts, Fallible.ok_bind, hslows, Fallible.ok_bind, zipStrict, if_pos hsame,
      Fallible.ok_bind]
    dsimp only
    rw [hline, Fallible.ok_bind, hsignalLine]
    exact ⟨_, rfl⟩

theorem bollingerPosition_total (hwindow : 0 < window) :
    ∃ r, bollingerPosition math closes window sigma = .ok r := by
  unfold bollingerPosition
  split
  · exact ⟨none, rfl⟩
  · rename_i hlong
    have hne : closes ≠ [] := List.ne_nil_of_length_pos (by omega)
    have hlast := rtake_ne_nil hne hwindow
    obtain ⟨deviation, hdeviation⟩ := @pstdev_total math _ hlast
    obtain ⟨last, hlastOf, -⟩ := lastOf_mem hne
    rw [sma, average_ok hlast, Fallible.ok_bind, hdeviation, Fallible.ok_bind]
    dsimp only
    split
    · exact ⟨_, rfl⟩
    · rename_i hspread
      rw [hlastOf, Fallible.ok_bind, divide_ok (sub_ne_zero.mpr hspread)]
      exact ⟨_, rfl⟩

theorem smaDistance_total (hperiod : 0 < period) (hpos : ∀ v ∈ closes, 0 < v) :
    ∃ r, smaDistance closes period = .ok r := by
  unfold smaDistance
  split
  · exact ⟨none, rfl⟩
  · rename_i hlong
    have hne : closes ≠ [] := List.ne_nil_of_length_pos (by omega)
    obtain ⟨mean, hmean, hpositive⟩ :=
      average_pos (rtake_ne_nil hne hperiod) fun v hv => hpos v (mem_of_mem_rtake hv)
    obtain ⟨last, hlast, -⟩ := lastOf_mem hne
    rw [sma, hmean, Fallible.ok_bind, hlast, Fallible.ok_bind, divide_ok hpositive.ne']
    exact ⟨_, rfl⟩

theorem emaCrossoverSpread_total (hshort : 0 < short) (hlong : 0 < long)
    (hpos : ∀ v ∈ closes, 0 < v) : ∃ r, emaCrossoverSpread closes short long = .ok r := by
  unfold emaCrossoverSpread
  split
  · exact ⟨none, rfl⟩
  · have hne : closes ≠ [] := List.ne_nil_of_length_pos (by omega)
    obtain ⟨shortEma, hshortEma⟩ := ema_total hne hshort
    obtain ⟨longEma, hlongEma, hpositive⟩ := ema_pos hne hlong hpos
    rw [hshortEma, Fallible.ok_bind, hlongEma, Fallible.ok_bind, divide_ok hpositive.ne']
    exact ⟨_, rfl⟩

/-! ### Ranges -/

theorem length_trueRanges (rows : List OHLCVBar) : (trueRanges rows).length = rows.length - 1 := by
  rw [trueRanges, List.length_map, Series.length_pairwise]

theorem atr_total (hperiod : 0 < period) : ∃ r, atr rows period = .ok r := by
  unfold atr
  split
  · exact ⟨none, rfl⟩
  · rename_i hlong
    have hranges : trueRanges rows ≠ [] := by
      refine List.ne_nil_of_length_pos ?_
      rw [length_trueRanges]
      omega
    rw [average_ok (rtake_ne_nil hranges hperiod)]
    exact ⟨_, rfl⟩

theorem maximum_eq_ok {xs : List ℚ} {m : ℚ} (h : maximum xs = .ok m) :
    m ∈ xs ∧ ∀ x ∈ xs, x ≤ m := by
  cases xs with
  | nil => cases h
  | cons x xs => exact List.max?_eq_some_iff.mp (congrArg some (Except.ok.inj h))

theorem minimum_eq_ok {xs : List ℚ} {m : ℚ} (h : minimum xs = .ok m) :
    m ∈ xs ∧ ∀ x ∈ xs, m ≤ x := by
  cases xs with
  | nil => cases h
  | cons x xs => exact List.min?_eq_some_iff.mp (congrArg some (Except.ok.inj h))

theorem extremes_ok (h : rows ≠ []) : ∃ highest lowest, extremes rows = .ok (highest, lowest) ∧
    ((∃ bar ∈ rows, bar.high = highest) ∧ ∀ bar ∈ rows, bar.high ≤ highest) ∧
    (∃ bar ∈ rows, bar.low = lowest) ∧ ∀ bar ∈ rows, lowest ≤ bar.low := by
  obtain ⟨highest, hhighest⟩ := maximum_total (mt List.map_eq_nil_iff.mp h : rows.map _ ≠ [])
  obtain ⟨lowest, hlowest⟩ := minimum_total (mt List.map_eq_nil_iff.mp h : rows.map _ ≠ [])
  obtain ⟨hhigh, habove⟩ := maximum_eq_ok hhighest
  obtain ⟨hlow, hbelow⟩ := minimum_eq_ok hlowest
  refine ⟨highest, lowest, ?_, ⟨List.mem_map.mp hhigh, ?_⟩, List.mem_map.mp hlow, ?_⟩
  · rw [extremes, hhighest, Fallible.ok_bind, hlowest]
    rfl
  · exact fun bar hbar => habove _ (List.mem_map_of_mem hbar)
  · exact fun bar hbar => hbelow _ (List.mem_map_of_mem hbar)

theorem stochasticAt_total (hk : 0 < k) (hoffset : offset < rows.length) :
    ∃ r, stochasticAt rows k offset = .ok r := by
  have hwindow : (rows.take (rows.length - offset)).rtake k ≠ [] := by
    refine rtake_ne_nil (List.ne_nil_of_length_pos ?_) hk
    rw [List.length_take]
    omega
  obtain ⟨highest, lowest, hextremes, -⟩ := extremes_ok hwindow
  obtain ⟨close, hclose, -⟩ := lastOf_mem
    (mt List.map_eq_nil_iff.mp hwindow :
      ((rows.take (rows.length - offset)).rtake k).map BarOf.close ≠ [])
  unfold stochasticAt
  dsimp only
  rw [hextremes, Fallible.ok_bind]
  dsimp only
  split
  · exact ⟨_, rfl⟩
  · rename_i hne
    rw [hclose, Fallible.ok_bind, divide_ok (sub_ne_zero.mpr hne)]
    exact ⟨_, rfl⟩

theorem stochastic_total (hk : 0 < k) (hd : 0 < d) : ∃ r, stochastic rows k d = .ok r := by
  unfold stochastic
  split
  · exact ⟨none, rfl⟩
  · rename_i hlong
    obtain ⟨values, hvalues⟩ := Fallible.mapM_total fun offset (h : offset ∈ List.range d) =>
      @stochasticAt_total rows k offset hk (by have := List.mem_range.mp h; omega)
    obtain ⟨first, hfirst, -⟩ := Fallible.mapM_mem hvalues (List.mem_range.mpr hd)
    rw [hvalues, Fallible.ok_bind]
    cases values with
    | nil => cases hfirst
    | cons percentK rest =>
      dsimp only
      rw [average_ok (List.cons_ne_nil _ _)]
      exact ⟨_, rfl⟩

theorem williamsR_total (hperiod : 0 < period) : ∃ r, williamsR rows period = .ok r := by
  unfold williamsR
  split
  · exact ⟨none, rfl⟩
  · rename_i hlong
    have hne : rows ≠ [] := List.ne_nil_of_length_pos (by omega)
    obtain ⟨highest, lowest, hextremes, -⟩ := extremes_ok (rtake_ne_nil hne hperiod)
    obtain ⟨close, hclose, -⟩ := lastOf_mem
      (mt List.map_eq_nil_iff.mp hne : rows.map BarOf.close ≠ [])
    rw [hextremes, Fallible.ok_bind]
    dsimp only
    split
    · exact ⟨_, rfl⟩
    · rename_i hspread
      rw [hclose, Fallible.ok_bind, divide_ok (sub_ne_zero.mpr hspread)]
      exact ⟨_, rfl⟩

/-- The highs of the last `period` bars all lie under their lows. -/
def Crossed (rows : List OHLCVBar) (period : Nat) : Prop :=
  period + 1 ≤ rows.length ∧
    ∀ bar ∈ rows.rtake period, ∀ other ∈ rows.rtake period, bar.high < other.low

/-- A true range of the last `period` bars is that of one of them. -/
theorem mem_rtake_trueRanges {range : ℚ} (hlong : period + 1 ≤ rows.length)
    (h : range ∈ (trueRanges rows).rtake period) : 0 ≤ range ∧
      ∃ bar ∈ rows.rtake period, range = 0 → bar.high = bar.low := by
  rw [trueRanges, List.rtake, List.length_map, Series.length_pairwise, ← List.map_drop] at h
  obtain ⟨p, hp, rfl⟩ := List.mem_map.mp h
  have hbar : p.2 ∈ rows.rtake period := by
    have hsnd := List.mem_map_of_mem (f := Prod.snd) hp
    rw [List.map_drop, Series.pairwise, List.map_snd_zip (by simp), ← List.drop_one,
      List.drop_drop] at hsnd
    rw [List.rtake]
    convert hsnd using 2
    omega
  have hfirst := abs_nonneg (p.2.high - p.1.close)
  have hsecond := abs_nonneg (p.2.low - p.1.close)
  refine ⟨le_max_of_le_right hsecond, p.2, hbar, fun hzero => ?_⟩
  have hhigh : |p.2.high - p.1.close| = 0 :=
    le_antisymm ((le_max_of_le_left (le_max_right _ _)).trans hzero.le) hfirst
  have hlow : |p.2.low - p.1.close| = 0 := le_antisymm ((le_max_right _ _).trans hzero.le) hsecond
  rw [abs_eq_zero, sub_eq_zero] at hhigh hlow
  rw [hhigh, hlow]

/-- The choppiness of bars raises where the range of the last ones is negative: a ratio under 0 has
no logarithm. -/
theorem choppiness_raises_iff (hperiod : 2 ≤ period) :
    (∃ e, choppiness math rows period = .error e) ↔ Crossed rows period := by
  unfold choppiness
  split
  · rename_i hshort
    exact iff_of_false nofun fun h => by
      have := h.1
      omega
  · rename_i hlong
    have hlong : period + 1 ≤ rows.length := by omega
    have hne : rows ≠ [] := List.ne_nil_of_length_pos (by omega)
    have hlast : rows.rtake period ≠ [] := rtake_ne_nil hne (by omega)
    obtain ⟨highest, lowest, hextremes, ⟨⟨top, htop, rfl⟩, habove⟩, ⟨bottom, hbottom, rfl⟩,
      hbelow⟩ := extremes_ok hlast
    have hcrossed : Crossed rows period ↔ top.high < bottom.low := by
      constructor
      · exact fun h => h.2 top htop bottom hbottom
      · intro h
        exact ⟨hlong, fun bar hbar other hother =>
          (habove bar hbar).trans_lt (h.trans_le (hbelow other hother))⟩
    have hsum : 0 ≤ ((trueRanges rows).rtake period).sum :=
      List.sum_nonneg fun range hrange => (mem_rtake_trueRanges hlong hrange).1
    rw [hextremes, Fallible.ok_bind, hcrossed]
    dsimp only
    by_cases hflat : top.high - bottom.low = 0 ∨ ((trueRanges rows).rtake period).sum = 0
    · rw [if_pos hflat]
      refine iff_of_false nofun fun hbelow' => ?_
      rcases hflat with hrange | hzero
      · linarith
      · have hsome : (trueRanges rows).rtake period ≠ [] := by
          refine rtake_ne_nil (List.ne_nil_of_length_pos ?_) (by omega)
          rw [length_trueRanges]
          omega
        obtain ⟨range, hrange⟩ := List.exists_mem_of_ne_nil _ hsome
        obtain ⟨-, bar, hbar, hsame⟩ := mem_rtake_trueRanges hlong hrange
        have hnone : range = 0 := List.all_zero_of_le_zero_le_of_sum_eq_zero
          (fun {_} hrange => (mem_rtake_trueRanges hlong hrange).1) hzero hrange
        have hhigh := habove bar hbar
        have hlow := hbelow bar hbar
        rw [hsame hnone] at hhigh
        linarith
    · obtain ⟨hrange, hzero⟩ := not_or.mp hflat
      have hpositive : 0 < ((trueRanges rows).rtake period).sum :=
        lt_of_le_of_ne hsum (Ne.symm hzero)
      rw [if_neg hflat, divide_ok hrange, Fallible.ok_bind]
      by_cases hbelow' : top.high < bottom.low
      · have hratio := div_neg_of_pos_of_neg hpositive (sub_neg.mpr hbelow')
        rw [logarithm, if_pos hratio.le]
        exact iff_of_true ⟨_, rfl⟩ hbelow'
      · have hpart : 0 < top.high - bottom.low :=
          lt_of_le_of_ne (sub_nonneg.mpr (not_lt.mp hbelow')) (Ne.symm hrange)
        have hperiod' : (2 : ℚ) ≤ period := by exact_mod_cast hperiod
        have hlog := math.log10_pos period hperiod'
        rw [logarithm, if_neg (not_le.mpr (div_pos hpositive hpart)), Fallible.ok_bind, logarithm,
          if_neg (by linarith), Fallible.ok_bind, divide_ok hlog.ne']
        exact iff_of_false nofun hbelow'

/-! ### Volume and events -/

theorem obv_total (hperiod : 0 < period) : ∃ r, obv rows period = .ok r := by
  unfold obv
  split
  · exact ⟨none, rfl⟩
  · obtain ⟨last, hlast, -⟩ := @lastOf_mem (obvSeries rows) (by simp [obvSeries])
    rw [divide_ok (by exact_mod_cast hperiod.ne'), Fallible.ok_bind, hlast]
    exact ⟨_, rfl⟩

theorem goldenCross_total (hshort : 0 < short) (hlong : 0 < long) :
    ∃ r, goldenCross closes short long = .ok r := by
  unfold goldenCross
  split
  · exact ⟨none, rfl⟩
  · rw [divide_ok (by exact_mod_cast hshort.ne'), Fallible.ok_bind,
      divide_ok (by exact_mod_cast hlong.ne')]
    exact ⟨_, rfl⟩

/-! ### The kernel -/

theorem kernelWeight_ok (math : MathFunctions) (n index : Nat) (hbandwidth : 0 < bandwidth) :
    kernelWeight math bandwidth n index =
      .ok (math.exp (-1 / 2 * (((index : ℚ) - ((n : ℚ) - 1)) / bandwidth) ^ 2)) := by
  rw [kernelWeight, divide_ok hbandwidth.ne']
  rfl

theorem nadarayaWatson_total (hbandwidth : 0 < bandwidth) :
    ∃ r, nadarayaWatson math closes bandwidth lookback = .ok r := by
  unfold nadarayaWatson
  dsimp only
  split
  · exact ⟨none, rfl⟩
  · rename_i hmany
    have hweights := Fallible.mapM_eq_map (l := List.range (min lookback closes.length))
      fun index _ => kernelWeight_ok math (min lookback closes.length) index hbandwidth
    rw [hweights, Fallible.ok_bind]
    split
    · exact ⟨none, rfl⟩
    · rename_i hsum
      have hlength : closes.rtake (min lookback closes.length) ≠ [] := by
        refine rtake_ne_nil (List.ne_nil_of_length_pos ?_) ?_ <;> omega
      obtain ⟨last, hlast, -⟩ := lastOf_mem hlength
      rw [zipStrict, if_pos (by rw [List.length_map, List.length_range, length_rtake]; omega),
        Fallible.ok_bind, divide_ok hsum, Fallible.ok_bind]
      split
      · exact ⟨none, rfl⟩
      · rename_i hsmoothed
        rw [hlast, Fallible.ok_bind, divide_ok hsmoothed]
        exact ⟨_, rfl⟩

/-! ### Patterns -/

theorem swingAt_pos {index : Nat} {swing : Swing} (h : swingAt rows index = some swing) :
    0 < swing.price := by
  unfold swingAt at h
  split at h
  · rename_i bar _ _ _
    split at h
    · cases h
      exact bar.high_admitted
    · split at h
      · cases h
        exact bar.low_admitted
      · cases h
  · cases h

/-- The swings of some bars are found without an error, and their prices are positive. -/
theorem findSwingPoints_total : ∃ swings, findSwingPoints rows minSwingPct = .ok swings ∧
    ∀ swing ∈ swings, 0 < swing.price := by
  unfold findSwingPoints
  split
  · exact ⟨[], rfl, by simp⟩
  · rename_i hlong
    have hne : rows.map BarOf.close ≠ [] := by
      refine List.ne_nil_of_length_pos ?_
      rw [List.length_map]
      omega
    have hpos : ∀ swing ∈ (List.range' 2 (rows.length - 4)).filterMap (swingAt rows),
        0 < swing.price := by
      intro swing hswing
      obtain ⟨index, -, hat⟩ := List.mem_filterMap.mp hswing
      exact swingAt_pos hat
    obtain ⟨last, hlast, -⟩ := lastOf_mem hne
    dsimp only
    rw [hlast, Fallible.ok_bind]
    split
    · exact ⟨_, rfl, hpos⟩
    · rename_i hneither
      obtain ⟨kept, hkept⟩ := @Fallible.filter_total _ _ (fun swing : Swing => do
          let distance ← divide |swing.price - last| last
          return decide (minSwingPct * (1 / 2) ≤ distance * 100))
        ((List.range' 2 (rows.length - 4)).filterMap (swingAt rows)) fun swing _ => by
          rw [divide_ok (not_or.mp hneither).2]
          exact ⟨_, rfl⟩
      refine ⟨kept, hkept, fun swing hswing => hpos swing ?_⟩
      exact ((Fallible.mem_filter hkept).mp hswing).1

theorem mem_lastSwings {isHigh : Bool} {swing : Swing} (h : swing ∈ lastSwings swings isHigh) :
    swing ∈ swings :=
  List.mem_of_mem_filter (List.mem_reverse.mp h)

theorem matchingSwings_ok (h : 0 < x) :
    matchingSwings x y tolerance = .ok (decide (|x - y| / x < tolerance)) := by
  rw [matchingSwings, divide_ok h.ne']
  rfl

theorem doubleOf_total (name : String) (beyond : ℚ → Bool)
    (hpos : ∀ swing ∈ swings, 0 < swing.price) (htolerance : 0 < tolerance) :
    ∃ r, doubleOf swings tolerance name beyond = .ok r := by
  unfold doubleOf
  split
  · rename_i second first _
    have hfirst : 0 < first.price := hpos first (by simp)
    rw [matchingSwings_ok hfirst, Fallible.ok_bind]
    split
    · rw [divide_ok hfirst.ne', Fallible.ok_bind, divide_ok htolerance.ne']
      exact ⟨_, rfl⟩
    · exact ⟨_, rfl⟩
  · exact ⟨_, rfl⟩

theorem shouldersOf_total (name : String) (beyond broken : ℚ → ℚ → Bool)
    (hpos : ∀ swing ∈ swings, 0 < swing.price) :
    ∃ r, shouldersOf swings tolerance name beyond broken = .ok r := by
  unfold shouldersOf
  split
  · rename_i second head first _
    rw [matchingSwings_ok (hpos first (by simp)), Fallible.ok_bind]
    split
    · exact ⟨_, rfl⟩
    · exact ⟨_, rfl⟩
  · exact ⟨_, rfl⟩

theorem doublePattern_total (last : ℚ) (hpos : ∀ swing ∈ swings, 0 < swing.price)
    (htolerance : 0 < tolerance) : ∃ r, doublePattern swings last tolerance = .ok r := by
  have hkind : ∀ isHigh, ∀ swing ∈ lastSwings swings isHigh, 0 < swing.price :=
    fun isHigh swing h => hpos swing (mem_lastSwings h)
  obtain ⟨top, htop⟩ := doubleOf_total "double_top"
    (fun level => decide (last < level * (1 - tolerance))) (hkind true) htolerance
  rw [doublePattern, htop, Fallible.ok_bind]
  split
  · exact ⟨_, rfl⟩
  · exact doubleOf_total _ _ (hkind false) htolerance

theorem shoulderPattern_total (last tolerance : ℚ) (hpos : ∀ swing ∈ swings, 0 < swing.price) :
    ∃ r, shoulderPattern swings last tolerance = .ok r := by
  have hkind : ∀ isHigh, ∀ swing ∈ lastSwings swings isHigh, 0 < swing.price :=
    fun isHigh swing h => hpos swing (mem_lastSwings h)
  obtain ⟨top, htop⟩ := @shouldersOf_total tolerance _ "head_and_shoulders"
    (fun head shoulder => decide (shoulder < head)) (fun s1 s2 => decide (last < min s1 s2))
    (hkind true)
  rw [shoulderPattern, htop, Fallible.ok_bind]
  split
  · exact ⟨_, rfl⟩
  · exact shouldersOf_total _ _ _ (hkind false)

theorem trianglePattern_total (hpos : ∀ swing ∈ swings, 0 < swing.price) :
    ∃ r, trianglePattern swings tolerance = .ok r := by
  unfold trianglePattern
  split
  · rename_i high2 high1 _ low2 low1 _ hhighs hlows
    have hhigh : 0 < high1.price := hpos high1 (mem_lastSwings (by rw [hhighs]; simp))
    have hlow : 0 < low1.price := hpos low1 (mem_lastSwings (by rw [hlows]; simp))
    dsimp only
    rw [matchingSwings_ok hhigh, Fallible.ok_bind]
    split
    · exact ⟨_, rfl⟩
    · rw [matchingSwings_ok hlow, Fallible.ok_bind]
      split
      · exact ⟨_, rfl⟩
      · exact ⟨_, rfl⟩
  · exact ⟨_, rfl⟩

theorem geometricPatterns_total (hswing : 0 < minSwingPct) :
    ∃ r, geometricPatterns rows lookback minSwingPct = .ok r := by
  unfold geometricPatterns
  dsimp only
  split
  · exact ⟨none, rfl⟩
  · rename_i hmany
    obtain ⟨swings, hswings, hpos⟩ := @findSwingPoints_total minSwingPct
      (rows.rtake (min lookback rows.length))
    have htolerance : 0 < minSwingPct / 100 := by linarith
    have hne : (rows.rtake (min lookback rows.length)).map BarOf.close ≠ [] := by
      refine List.ne_nil_of_length_pos ?_
      rw [List.length_map, length_rtake]
      omega
    obtain ⟨last, hlast, -⟩ := lastOf_mem hne
    obtain ⟨double, hdouble⟩ := doublePattern_total last hpos htolerance
    obtain ⟨shoulder, hshoulder⟩ := shoulderPattern_total last (minSwingPct / 100) hpos
    rw [hswings, Fallible.ok_bind]
    split
    · exact ⟨none, rfl⟩
    · rw [hlast, Fallible.ok_bind, hdouble, Fallible.ok_bind]
      split
      · exact ⟨_, rfl⟩
      · rw [hshoulder, Fallible.ok_bind]
        split
        · exact ⟨_, rfl⟩
        · exact trianglePattern_total hpos

end

end TradingAgents.Analyst
