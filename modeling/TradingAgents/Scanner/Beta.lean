import Mathlib
import TradingAgents.Contracts.MarketDays
import TradingAgents.ProofKit.Dict
import TradingAgents.ProofKit.LeastSquares
import TradingAgents.ProofKit.Series
import TradingAgents.ProofKit.StableSort

/-! The beta of a ticker: the covariance of its daily returns with those of the benchmark over the
variance of the benchmark, on the days that both have.  Prices and returns are exact numbers in
place of floats, and a date is its ordinal. -/

namespace TradingAgents.Scanner

open ProofKit
open LeastSquares (residual spread slope)
open Sample (average)
open Series (pairwise)

/-- The close of each day; the last bar of a day stands. -/
def closesOf (bars : List OHLCVBar) : Dict Int ℚ :=
  .ofList (bars.map fun bar => (bar.barDate, bar.close))

def dailyReturn (closes : Dict Int ℚ) (step : Int × Int) : ℚ :=
  let previous := (closes.get? step.1).getD 0
  let current := (closes.get? step.2).getD 0
  (current - previous) / previous

/-- The days with a close on both sides, in order. -/
def alignedDates (stockCloses benchmarkCloses : Dict Int ℚ) : List Int :=
  (stockCloses.keys.filter fun day => decide (day ∈ benchmarkCloses.keys)).insertionSort
    fun a b => a ≤ b

def alignedReturns (stockBars benchmarkBars : List OHLCVBar) : List ℚ × List ℚ :=
  let stockCloses := closesOf stockBars
  let benchmarkCloses := closesOf benchmarkBars
  let steps := pairwise (alignedDates stockCloses benchmarkCloses)
  (steps.map (dailyReturn stockCloses), steps.map (dailyReturn benchmarkCloses))

/-- The covariance of two samples of one length. -/
def covariance (xs ys : List ℚ) : ℚ :=
  ((xs.zip ys).map fun p => (p.1 - average xs) * (p.2 - average ys)).sum / (xs.length - 1)

/-- The variance of a sample. -/
def variance (xs : List ℚ) : ℚ :=
  (xs.map fun x => (x - average xs) * (x - average xs)).sum / (xs.length - 1)

/-- Nothing with too few returns in common, or where the benchmark's do not vary. -/
def computeBeta (stockBars benchmarkBars : List OHLCVBar) (minObservations : Nat) : Option ℚ :=
  let (stockReturns, benchmarkReturns) := alignedReturns stockBars benchmarkBars
  if benchmarkReturns.length < max minObservations 2 then none
  else
    let benchmarkVariance := variance benchmarkReturns
    if benchmarkVariance = 0 then none
    else some (covariance stockReturns benchmarkReturns / benchmarkVariance)

/-! ### The slope of the returns -/

section

variable {stockBars benchmarkBars : List OHLCVBar} {minObservations : Nat} {beta : ℚ}

/-- The steps between two days in common. -/
def steps (stockBars benchmarkBars : List OHLCVBar) : List (Int × Int) :=
  pairwise (alignedDates (closesOf stockBars) (closesOf benchmarkBars))

/-- The returns of one side over the steps in common. -/
def returnsOf (bars : List OHLCVBar) : Int × Int → ℚ := dailyReturn (closesOf bars)

theorem covariance_map (l : List (Int × Int)) (x y : Int × Int → ℚ) :
    covariance (l.map x) (l.map y) = spread l y x / (l.length - 1) := by
  rw [covariance, List.zip_map', List.map_map, List.length_map, spread]
  congr 3
  funext p
  exact mul_comm _ _

theorem variance_map (l : List (Int × Int)) (x : Int × Int → ℚ) :
    variance (l.map x) = spread l x x / (l.length - 1) := by
  rw [variance, List.map_map, List.length_map]
  rfl

/-- The test of the returns, and the slope. -/
theorem computeBeta_eq : computeBeta stockBars benchmarkBars minObservations =
    if (steps stockBars benchmarkBars).length < max minObservations 2 ∨
      spread (steps stockBars benchmarkBars) (returnsOf benchmarkBars)
        (returnsOf benchmarkBars) = 0 then none
    else some (slope (steps stockBars benchmarkBars) (returnsOf benchmarkBars)
      (returnsOf stockBars)) := by
  have hunfold : computeBeta stockBars benchmarkBars minObservations =
      if ((steps stockBars benchmarkBars).map (returnsOf benchmarkBars)).length <
        max minObservations 2 then none
      else if variance ((steps stockBars benchmarkBars).map (returnsOf benchmarkBars)) = 0 then none
      else some (covariance ((steps stockBars benchmarkBars).map (returnsOf stockBars))
        ((steps stockBars benchmarkBars).map (returnsOf benchmarkBars)) /
          variance ((steps stockBars benchmarkBars).map (returnsOf benchmarkBars))) := rfl
  rw [hunfold, covariance_map, variance_map, List.length_map]
  by_cases hfew : (steps stockBars benchmarkBars).length < max minObservations 2
  · rw [if_pos hfew, if_pos (.inl hfew)]
  · rw [if_neg hfew]
    have hsome : (2 : ℚ) ≤ (steps stockBars benchmarkBars).length := by
      have htwo : 2 ≤ (steps stockBars benchmarkBars).length := by omega
      exact_mod_cast htwo
    have hcount : ((steps stockBars benchmarkBars).length : ℚ) - 1 ≠ 0 := by linarith
    by_cases hflat : spread (steps stockBars benchmarkBars) (returnsOf benchmarkBars)
        (returnsOf benchmarkBars) = 0
    · rw [if_pos (by rw [hflat, zero_div]), if_pos (.inr hflat)]
    · rw [if_neg (div_ne_zero hflat hcount), if_neg (not_or.mpr ⟨hfew, hflat⟩),
        div_div_div_cancel_right₀ hcount]
      rfl

/-- The slope of the only line with the least residual. -/
def BestSlope (l : List (Int × Int)) (x y : Int × Int → ℚ) (beta : ℚ) : Prop :=
  ∃ alpha, ∀ s c, residual l x y beta alpha ≤ residual l x y s c ∧
    (residual l x y s c = residual l x y beta alpha → s = beta ∧ c = alpha)

theorem BestSlope.unique {l : List (Int × Int)} {x y : Int × Int → ℚ} {beta beta' : ℚ}
    (h : BestSlope l x y beta) (h' : BestSlope l x y beta') : beta = beta' := by
  obtain ⟨alpha, hleast⟩ := h
  obtain ⟨alpha', hleast'⟩ := h'
  have hsame := le_antisymm (hleast beta' alpha').1 (hleast' beta alpha).1
  exact ((hleast' beta alpha).2 hsame).1

/-- A beta is given exactly when there are enough returns in common and the benchmark's vary, and it
is the slope of the line of least squares of the ticker's returns on the benchmark's. -/
theorem computeBeta_eq_some_iff (stockBars benchmarkBars : List OHLCVBar) (minObservations : Nat)
    (beta : ℚ) : computeBeta stockBars benchmarkBars minObservations = some beta ↔
      max minObservations 2 ≤ (steps stockBars benchmarkBars).length ∧
      (∃ p ∈ steps stockBars benchmarkBars, ∃ q ∈ steps stockBars benchmarkBars,
        returnsOf benchmarkBars p ≠ returnsOf benchmarkBars q) ∧
      BestSlope (steps stockBars benchmarkBars) (returnsOf benchmarkBars) (returnsOf stockBars)
        beta := by
  have hvary : spread (steps stockBars benchmarkBars) (returnsOf benchmarkBars)
      (returnsOf benchmarkBars) ≠ 0 ↔ ∃ p ∈ steps stockBars benchmarkBars,
        ∃ q ∈ steps stockBars benchmarkBars,
          returnsOf benchmarkBars p ≠ returnsOf benchmarkBars q := by
    rw [Ne, LeastSquares.spread_self_eq_zero]
    push Not
    rfl
  rw [computeBeta_eq, ← hvary]
  constructor
  · intro h
    split at h
    · cases h
    · rename_i htest
      cases h
      obtain ⟨hmany, hspread⟩ := not_or.mp htest
      exact ⟨not_lt.mp hmany, hspread, _, fun s c => LeastSquares.residual_slope hspread s c⟩
  · rintro ⟨hmany, hspread, hbest⟩
    rw [if_neg (not_or.mpr ⟨not_lt.mpr hmany, hspread⟩)]
    congr 1
    exact BestSlope.unique ⟨_, fun s c => LeastSquares.residual_slope hspread s c⟩ hbest

end

/-! ### The order of the bars -/

section

variable {bars bars' stockBars benchmarkBars benchmarkBars' : List OHLCVBar}

/-- The bars of different days give each day its close, in any order. -/
theorem closesOf_perm (hperm : bars.Perm bars') (hnodup : (bars.map BarOf.barDate).Nodup) :
    (closesOf bars).Same (closesOf bars') := by
  have hkeys : ∀ bars : List OHLCVBar, (bars.map BarOf.barDate).Nodup →
      ((bars.map fun bar => (bar.barDate, bar.close)).map Prod.fst).Nodup := fun bars h => by
    rw [List.map_map]
    exact h
  intro day
  apply Option.ext
  intro close
  rw [← Dict.mem_entries_iff, ← Dict.mem_entries_iff, closesOf, closesOf,
    Dict.entries_ofList (hkeys _ hnodup),
    Dict.entries_ofList (hkeys _ ((hperm.map _).nodup_iff.mp hnodup))]
  exact (hperm.map _).mem_iff

/-- The order in which the bars of the benchmark come does not matter. -/
theorem computeBeta_perm {minObservations : Nat} (hperm : benchmarkBars.Perm benchmarkBars')
    (hnodup : (benchmarkBars.map BarOf.barDate).Nodup) :
    computeBeta stockBars benchmarkBars minObservations =
      computeBeta stockBars benchmarkBars' minObservations := by
  have hsame := closesOf_perm hperm hnodup
  have hreturns : returnsOf benchmarkBars = returnsOf benchmarkBars' := by
    funext step
    rw [returnsOf, returnsOf, dailyReturn, dailyReturn, hsame, hsame]
  have hsteps : steps stockBars benchmarkBars = steps stockBars benchmarkBars' := by
    have hmem : ∀ day, day ∈ (closesOf benchmarkBars).keys ↔ day ∈ (closesOf benchmarkBars').keys :=
      fun day => by rw [Dict.mem_keys_iff, Dict.mem_keys_iff, hsame]
    rw [steps, steps, alignedDates, alignedDates]
    simp only [hmem]
  rw [computeBeta_eq, computeBeta_eq, hsteps, hreturns]

end

end TradingAgents.Scanner
