import TradingAgents.Contracts.MarketDays

/-! The provider's integrity check of a batch of bars: invalid bars are rejected with a note, and a
ticker whose newest bar moves far out of its session's pool is excluded.  An infinite price is `⊤`
and a date is its ordinal.  The arithmetic of the moves is a parameter, so that what is proved holds
of floats with their rounding. -/

namespace TradingAgents.Provider

/-- The bar of the contract as it is fetched, whose positive prices may be infinite. -/
abbrev FetchedBar := BarOf (WithTop ℚ) (0 < ·)

/-- The record of how clean a delivery is. -/
structure DataQualityTrace where
  requested : Nat
  returned : Nat
  usedFallback : Bool
  staleTickers : List String
  anomalousTickers : List String
  notes : List String
deriving DecidableEq

structure ProviderSettings where
  maxDailyMoveSigma : ℚ := 8
  maxStalenessDays : Nat := 3

/-- The note of a bar that is rejected. -/
def barFault (bar : FetchedBar) : Option String :=
  let values := [bar.openPrice, bar.high, bar.low, bar.close]
  if ⊤ ∈ values then some "non_finite_price_rejected"
  else if bar.volume < 0 ∨ ∃ v ∈ values, v ≤ 0 then some "invalid_ohlcv_rejected"
  else if bar.high < max bar.openPrice bar.close ∨ min bar.openPrice bar.close < bar.low then
    some "inconsistent_ohlcv_rejected"
  else none

def isValid (bar : FetchedBar) : Bool := (barFault bar).isNone

/-- The float arithmetic of the moves: `(bar.close - bar.open) / bar.open`, and `pstdev` and `mean`
of the standard library, which sum exactly and round once, so that the order of the moves does not
matter. -/
structure MoveArithmetic where
  Float : Type
  move : FetchedBar → Float
  pstdev : List Float → Float
  mean : List Float → Float
  /-- `sigma == 0`. -/
  isZero : Float → Bool
  /-- `abs(value - center) > max_sigma * sigma`. -/
  beyond (maxSigma : ℚ) (sigma center value : Float) : Bool
  pstdev_perm : ∀ values values', values.Perm values' → pstdev values = pstdev values'
  mean_perm : ∀ values values', values.Perm values' → mean values = mean values'

section

variable (arith : MoveArithmetic)

/-- The tickers beyond `maxSigma` of one session's pooled moves; fewer than two moves abstain. -/
def outliers (moves : List (String × arith.Float)) (maxSigma : ℚ) : List String :=
  let returns := moves.map Prod.snd
  if moves.length < 2 ∨ arith.isZero (arith.pstdev returns) then []
  else (moves.filter fun m =>
    arith.beyond maxSigma (arith.pstdev returns) (arith.mean returns) m.2).map Prod.fst

/-- The bars of a ticker. -/
def series (bars : List FetchedBar) (ticker : String) : List FetchedBar :=
  bars.filter fun bar => bar.ticker = ticker

/-- The date of a ticker's newest bar. -/
def newestDay (bars : List FetchedBar) (ticker : String) : ℤ :=
  ((series bars ticker).map BarOf.barDate).foldr max 1

def sessionMoves (bars : List FetchedBar) (day : ℤ) : List (String × arith.Float) :=
  (bars.filter fun bar => bar.barDate = day).map fun bar => (bar.ticker, arith.move bar)

/-- The tickers whose newest bar is an outlier of its session. -/
def anomalousTickers (bars : List FetchedBar) (settings : ProviderSettings) : List String :=
  ((bars.map BarOf.ticker).dedup.filter fun ticker =>
    ticker ∈ outliers arith (sessionMoves arith bars (newestDay bars ticker))
      settings.maxDailyMoveSigma).insertionSort (· ≤ ·)

/-- The requested tickers without a recent bar. -/
def staleTickers (holidays : Holidays) (tickers : List String) (bars : List FetchedBar)
    (windowEnd : ℤ) (maxStalenessDays : Nat) : List String :=
  (tickers.dedup.filter fun ticker => decide (series bars ticker = []) || decide (maxStalenessDays <
    (SessionCalendar.ofHolidays holidays).tradingSessionsBetween (newestDay bars ticker)
      windowEnd)).insertionSort (· ≤ ·)

/-- Filter invalid bars and summarise the quality of the data. -/
def validateBars (holidays : Holidays) (settings : ProviderSettings) (tickers : List String)
    (bars : List FetchedBar) (windowEnd : ℤ) : List FetchedBar × DataQualityTrace :=
  let valid := bars.filter isValid
  let anomalous := anomalousTickers arith valid settings
  let stale := staleTickers holidays tickers valid windowEnd settings.maxStalenessDays
  let notes := bars.filterMap barFault ++ if stale = [] then [] else ["stale_or_missing_tickers"]
  let delivered := valid.filter fun bar => bar.ticker ∉ anomalous
  let returned := (tickers.filter fun ticker => ticker ∈ delivered.map BarOf.ticker).length
  (delivered, {
    requested := tickers.length
    returned := returned
    usedFallback := !notes.isEmpty || decide (returned = 0)
    staleTickers := stale
    anomalousTickers := anomalous
    notes := notes.eraseDups })

end

/-- The trace of a source that cannot provide data. -/
def degradedQuality (tickers : List String) (note : String) : DataQualityTrace where
  requested := tickers.length
  returned := 0
  usedFallback := true
  staleTickers := tickers.insertionSort (· ≤ ·)
  anomalousTickers := []
  notes := [note]

/-! ### The check depends on each ticker's bars only -/

/-- Two batches have the same bars of each ticker, in the same order. -/
def SameSeries (bars bars' : List FetchedBar) : Prop := ∀ ticker, series bars ticker =
    series bars' ticker

namespace SameSeries

variable {bars bars' : List FetchedBar}

theorem perm (h : SameSeries bars bars') : bars.Perm bars' := by
  rw [List.perm_iff_count]
  intro bar
  have hcount : ∀ l : List FetchedBar, l.count bar = (series l bar.ticker).count bar := fun l => by
    rw [series, List.count_filter (by simp)]
  rw [hcount bars, hcount bars', h bar.ticker]

theorem newestDay_eq (h : SameSeries bars bars') (ticker : String) :
    newestDay bars ticker = newestDay bars' ticker := by
  rw [newestDay, newestDay, h ticker]

end SameSeries

theorem outliers_perm (arith : MoveArithmetic) {moves moves' : List (String × arith.Float)}
    (h : moves.Perm moves') (maxSigma : ℚ) :
    (outliers arith moves maxSigma).Perm (outliers arith moves' maxSigma) := by
  have hreturns := h.map Prod.snd
  unfold outliers
  dsimp only
  rw [h.length_eq, arith.pstdev_perm _ _ hreturns, arith.mean_perm _ _ hreturns]
  split
  · exact .refl _
  · exact (h.filter _).map _

theorem mem_anomalousTickers (arith : MoveArithmetic) (bars : List FetchedBar)
    (settings : ProviderSettings) (ticker : String) :
    ticker ∈ anomalousTickers arith bars settings ↔ series bars ticker ≠ [] ∧
      ticker ∈ outliers arith (sessionMoves arith bars (newestDay bars ticker))
        settings.maxDailyMoveSigma := by
  rw [anomalousTickers, List.mem_insertionSort, List.mem_filter, List.mem_dedup, decide_eq_true_eq,
    series, Ne, List.filter_eq_nil_iff, List.mem_map]
  simp

/-- Lists without repetition and with the same members are equal when sorted. -/
theorem insertionSort_congr {l l' : List String} (h : ∀ a, a ∈ l ↔ a ∈ l') (hl : l.Nodup)
    (hl' : l'.Nodup) : l.insertionSort (· ≤ ·) = l'.insertionSort (· ≤ ·) := by
  have hperm := (List.perm_ext_iff_of_nodup hl hl').mpr h
  exact ((List.perm_insertionSort _ l).trans
    (hperm.trans (List.perm_insertionSort _ l').symm)).eq_of_pairwise
    (fun _ _ _ _ => le_antisymm) (List.pairwise_insertionSort _ l)
      (List.pairwise_insertionSort _ l')

theorem SameSeries.anomalousTickers_eq (arith : MoveArithmetic) {bars bars' : List FetchedBar}
    (h : SameSeries bars bars') (settings : ProviderSettings) :
    anomalousTickers arith bars settings = anomalousTickers arith bars' settings := by
  refine insertionSort_congr (fun ticker => ?_) ((List.nodup_dedup _).filter _)
    ((List.nodup_dedup _).filter _)
  have hmem := mem_anomalousTickers arith bars settings ticker
  have hmem' := mem_anomalousTickers arith bars' settings ticker
  rw [anomalousTickers, List.mem_insertionSort] at hmem hmem'
  have hmoves := (h.perm.filter fun bar => bar.barDate = newestDay bars' ticker).map
    fun bar => (bar.ticker, arith.move bar)
  rw [hmem, hmem', h ticker, h.newestDay_eq ticker]
  exact and_congr_right fun _ => (outliers_perm arith hmoves _).mem_iff

theorem SameSeries.staleTickers_eq {bars bars' : List FetchedBar} (h : SameSeries bars bars')
    (holidays : Holidays) (tickers : List String) (windowEnd : ℤ) (maxStalenessDays : Nat) :
    staleTickers holidays tickers bars windowEnd maxStalenessDays =
      staleTickers holidays tickers bars' windowEnd maxStalenessDays := by
  unfold staleTickers
  simp only [h _, h.newestDay_eq]

end TradingAgents.Provider
