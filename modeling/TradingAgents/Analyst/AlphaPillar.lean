import TradingAgents.Analyst.Indicators

/-! The cross-sectional pillar: what the last sixty bars of each ticker show, and the score of a
ticker by its distance from the mean of all.  None of it can raise. -/

namespace TradingAgents.Analyst

open Kernel ProofKit

/-- The 22 fields of a row, in their order. -/
abbrev AlphaFeatureRow := List ℚ

def alphaFields : Nat := 22

/-! ### Features -/

/-- `values[-1 - index]`. -/
def fromEnd (values : List ℚ) (index : Nat) : Except HandlerError ℚ :=
  match values.reverse[index]? with
  | none => .error (.validation "list index out of range")
  | some value => .ok value

def dailyReturns (closes : List ℚ) : Except HandlerError (List ℚ) :=
  (Series.pairwise closes).mapM fun p => divide (p.2 - p.1) p.1

def roc (closes : List ℚ) (w : Nat) : Except HandlerError ℚ := do
  let last ← fromEnd closes 0
  let base ← fromEnd closes w
  divide (last - base) base

/-- The standard deviation of the last `w` returns. -/
def returnStd (math : MathFunctions) (returns : List ℚ) (w : Nat) : Except HandlerError ℚ := do
  let mean ← divide (returns.rtake w).sum w
  let variance ← divide ((returns.rtake w).map fun r => (r - mean) ^ 2).sum w
  squareRoot math variance

/-- How far back the first of the extreme closes of the last `w + 1` lies, from 0 to 1. -/
def positionOf (extreme : List ℚ → Except HandlerError ℚ) (closes : List ℚ) (w : Nat) :
    Except HandlerError ℚ := do
  let window := closes.rtake (w + 1)
  let value ← extreme window
  let share ← divide (window.idxOf value) w
  return 1 - share

/-- The features of a ticker, none with fewer than 62 bars. -/
def computeAlphaFeatures (math : MathFunctions) (bars : List OHLCVBar) :
    Except HandlerError (Option AlphaFeatureRow) :=
  if bars.length < 62 then .ok none
  else do
    let closes := bars.map BarOf.close
    let returns ← dailyReturns closes
    let rocs ← [5, 10, 20, 60].mapM (roc closes)
    let stds ← [5, 10, 20, 60].mapM (returnStd math returns)
    let maxima ← [5, 10, 20, 60].mapM fun w => maximum (returns.rtake w)
    let minima ← [5, 10, 20, 60].mapM fun w => minimum (returns.rtake w)
    let imaxs ← [10, 20, 60].mapM (positionOf maximum closes)
    let imins ← [10, 20, 60].mapM (positionOf minimum closes)
    return some (rocs ++ stds ++ maxima ++ minima ++ imaxs ++ imins)

/-! ### Scores -/

/-- The distance of a row from the mean of a field, in standard deviations. -/
def fieldScore (math : MathFunctions) (features : AlphaFeatureRow) (rows : List AlphaFeatureRow)
    (field : Nat) : Except HandlerError ℚ := do
  let vals := rows.map (·.getD field 0)
  let mean ← divide vals.sum rows.length
  let variance ← divide (vals.map fun v => (v - mean) ^ 2).sum rows.length
  let std ← squareRoot math variance
  if 1 / 1000000000 < std then divide (features.getD field 0 - mean) std else return 0

/-- The score of a row among the rows of a universe, from 0 to 100. -/
def scoreAlpha158 (math : MathFunctions) (features : AlphaFeatureRow)
    («universe» : List AlphaFeatureRow) : Except HandlerError ℚ := do
  let rows := if features ∈ «universe» then «universe» else «universe» ++ [features]
  let zScores ← (List.range alphaFields).mapM (fieldScore math features rows)
  let meanZ ← divide zScores.sum zScores.length
  divide 100 (1 + math.exp (-meanZ))

/-- The scores of the tickers that have features. -/
def crossSection (math : MathFunctions) (bars : List (String × List OHLCVBar)) :
    Except HandlerError (Dict String ℚ) := do
  let featureRows ← bars.mapM fun entry => do
    let row ← computeAlphaFeatures math entry.2
    return (entry.1, row)
  let «universe» := featureRows.filterMap Prod.snd
  let scores ← (featureRows.filterMap fun entry => entry.2.map (entry.1, ·)).mapM fun entry => do
    let score ← scoreAlpha158 math entry.2 «universe»
    return (entry.1, score)
  return .ofList scores

/-! ### None of it raises -/

section

variable {math : MathFunctions} {closes values : List ℚ} {bars : List OHLCVBar}
  {features : AlphaFeatureRow} {rows : List AlphaFeatureRow} {w : Nat}

theorem fromEnd_mem (h : w < values.length) : ∃ v ∈ values, fromEnd values w = .ok v := by
  have hlt : w < values.reverse.length := by rwa [List.length_reverse]
  rw [fromEnd, List.getElem?_eq_getElem hlt]
  exact ⟨_, List.mem_reverse.mp (List.getElem_mem hlt), rfl⟩

theorem dailyReturns_total (hpos : ∀ v ∈ closes, 0 < v) :
    ∃ returns, dailyReturns closes = .ok returns ∧ returns.length = closes.length - 1 := by
  refine ⟨_, Fallible.mapM_eq_map fun p hp =>
    divide_ok (hpos p.1 (List.of_mem_zip hp).1).ne', ?_⟩
  rw [List.length_map, Series.length_pairwise]

theorem roc_total (hpos : ∀ v ∈ closes, 0 < v) (h : w < closes.length) :
    ∃ r, roc closes w = .ok r := by
  obtain ⟨last, -, hlast⟩ := @fromEnd_mem closes 0 (by omega)
  obtain ⟨base, hbase, hat⟩ := fromEnd_mem h
  rw [roc, hlast, Fallible.ok_bind, hat, Fallible.ok_bind, divide_ok (hpos base hbase).ne']
  exact ⟨_, rfl⟩

theorem returnStd_total (hw : 0 < w) : ∃ r, returnStd math values w = .ok r := by
  have hne : (w : ℚ) ≠ 0 := by exact_mod_cast hw.ne'
  rw [returnStd, divide_ok hne, Fallible.ok_bind, divide_ok hne, Fallible.ok_bind]
  exact squareRoot_total (variance_nonneg _ _ _)

theorem positionOf_total {extreme : List ℚ → Except HandlerError ℚ}
    (hextreme : ∀ {xs}, xs ≠ [] → ∃ x, extreme xs = .ok x) (hw : 0 < w) (h : closes ≠ []) :
    ∃ r, positionOf extreme closes w = .ok r := by
  obtain ⟨value, hvalue⟩ := hextreme (rtake_ne_nil h (Nat.succ_pos w))
  rw [positionOf, hvalue, Fallible.ok_bind, divide_ok (by exact_mod_cast hw.ne')]
  exact ⟨_, rfl⟩

theorem computeAlphaFeatures_total : ∃ row, computeAlphaFeatures math bars = .ok row := by
  unfold computeAlphaFeatures
  split
  · exact ⟨none, rfl⟩
  · rename_i hmany
    have hpos := @closes_pos bars
    have hlength : (bars.map BarOf.close).length = bars.length := List.length_map ..
    obtain ⟨returns, hreturns, hcount⟩ := dailyReturns_total hpos
    have hsome : returns ≠ [] := List.ne_nil_of_length_pos (by omega)
    have hcloses : bars.map BarOf.close ≠ [] := List.ne_nil_of_length_pos (by omega)
    have hw : ∀ w ∈ [5, 10, 20, 60], 0 < w ∧ w < (bars.map BarOf.close).length := by
      simp only [List.mem_cons, List.not_mem_nil, or_false]
      omega
    obtain ⟨rocs, hrocs⟩ := Fallible.mapM_total fun w h => roc_total hpos (hw w h).2
    obtain ⟨stds, hstds⟩ := Fallible.mapM_total fun w h =>
      @returnStd_total math returns w (hw w h).1
    obtain ⟨maxima, hmaxima⟩ := Fallible.mapM_total fun w h =>
      maximum_total (rtake_ne_nil hsome (hw w h).1)
    obtain ⟨minima, hminima⟩ := Fallible.mapM_total fun w h =>
      minimum_total (rtake_ne_nil hsome (hw w h).1)
    have hw' : ∀ w ∈ [10, 20, 60], 0 < w := by decide
    obtain ⟨imaxs, himaxs⟩ := Fallible.mapM_total fun w h =>
      @positionOf_total _ w maximum maximum_total (hw' w h) hcloses
    obtain ⟨imins, himins⟩ := Fallible.mapM_total fun w h =>
      @positionOf_total _ w minimum minimum_total (hw' w h) hcloses
    dsimp only
    rw [hreturns, Fallible.ok_bind, hrocs, Fallible.ok_bind, hstds, Fallible.ok_bind, hmaxima,
      Fallible.ok_bind, hminima, Fallible.ok_bind, himaxs, Fallible.ok_bind, himins]
    exact ⟨_, rfl⟩

theorem fieldScore_total (h : rows ≠ []) (field : Nat) :
    ∃ z, fieldScore math features rows field = .ok z := by
  have hne : (rows.length : ℚ) ≠ 0 := by
    exact_mod_cast (List.length_pos_of_ne_nil h).ne'
  rw [fieldScore, divide_ok hne, Fallible.ok_bind, divide_ok hne, Fallible.ok_bind]
  obtain ⟨std, hstd⟩ := @squareRoot_total math _ (variance_nonneg (rows.map (·.getD field 0))
    ((rows.map (·.getD field 0)).sum / rows.length) rows.length)
  rw [hstd, Fallible.ok_bind]
  split
  · rename_i hspread
    rw [divide_ok (by linarith)]
    exact ⟨_, rfl⟩
  · exact ⟨0, rfl⟩

theorem scoreAlpha158_total : ∃ score, scoreAlpha158 math features rows = .ok score := by
  have hsome : (if features ∈ rows then rows else rows ++ [features]) ≠ [] := by
    split
    · exact List.ne_nil_of_mem ‹_›
    · simp
  obtain ⟨zScores, hscores⟩ := Fallible.mapM_total fun field (_ : field ∈ List.range alphaFields) =>
    @fieldScore_total math features _ hsome field
  obtain ⟨z, hz, -⟩ := Fallible.mapM_mem hscores (List.mem_range.mpr (by decide : 0 < alphaFields))
  have hexp := math.exp_nonneg
  rw [scoreAlpha158, hscores, Fallible.ok_bind, divide_ok (by
    exact_mod_cast (List.length_pos_of_ne_nil (List.ne_nil_of_mem hz)).ne'), Fallible.ok_bind,
    divide_ok (by have := hexp (-(zScores.sum / zScores.length)); linarith)]
  exact ⟨_, rfl⟩

theorem crossSection_total (bars : List (String × List OHLCVBar)) :
    ∃ scores, crossSection math bars = .ok scores := by
  obtain ⟨featureRows, hfeatures⟩ := @Fallible.mapM_total _ _ _ (fun entry => do
      let row ← computeAlphaFeatures math entry.2
      return (entry.1, row)) bars fun entry _ => by
    obtain ⟨row, hrow⟩ := @computeAlphaFeatures_total math entry.2
    rw [hrow]
    exact ⟨_, rfl⟩
  obtain ⟨scores, hscores⟩ := @Fallible.mapM_total _ _ _ (fun entry => do
      let score ← scoreAlpha158 math entry.2 (featureRows.filterMap Prod.snd)
      return (entry.1, score))
      (featureRows.filterMap fun entry => entry.2.map (entry.1, ·)) fun entry _ => by
    obtain ⟨score, hscore⟩ := @scoreAlpha158_total math entry.2 (featureRows.filterMap Prod.snd)
    rw [hscore]
    exact ⟨_, rfl⟩
  rw [crossSection, hfeatures, Fallible.ok_bind]
  dsimp only
  rw [hscores]
  exact ⟨_, rfl⟩

end

end TradingAgents.Analyst
