import Mathlib.Data.Prod.Lex
import Mathlib.Data.String.Basic
import TradingAgents.Contracts.Documents
import TradingAgents.Scanner.Filters

/-! The candidates of a scan: the survivors by their relative strength, then by their volume, then
by ticker, up to the cap.  Neither the order of the universe nor that of the bars is seen in
them. -/

namespace TradingAgents.Scanner

open ProofKit

/-- A candidate with the filters behind it. -/
structure Candidate extends TradingAgents.Candidate where
  survivedFilters : List ScanFilter
  skippedFilters : List ScanFilter
  metrics : Features

/-- The key that survivors are sorted by. -/
def rankKey (survivor : Survivor) : ℚ ×ₗ ℚ ×ₗ String :=
  toLex (-survivor.metrics.relativeStrength,
    toLex (-survivor.metrics.averageVolume, survivor.ticker))

/-- A survivor at a place of the ranking, from 0. -/
def candidateAt (place : Nat) (survivor : Survivor) : Candidate where
  ticker := survivor.ticker
  rank := place + 1
  score := survivor.metrics.relativeStrength
  survivedFilters := survivor.survivedFilters
  skippedFilters := survivor.skippedFilters
  metrics := survivor.metrics
  rank_pos := Nat.le_add_left 1 place

/-- Rank the survivors and trim them to the cap. -/
def rankSurvivors (survivors : List Survivor) (cap : Nat) : List Candidate :=
  let ordered := survivors.insertionSort fun a b => rankKey a ≤ rankKey b
  (ordered.take cap).mapIdx candidateAt

/-- The candidates and the trace of a scan. -/
def runScan (tickers : List String) (input : ScanInput) : List Candidate × FilterTrace :=
  let (survivors, trace) := applyFilters tickers input
  (rankSurvivors survivors input.settings.candidateCap, trace)

/-! ### The places of the ranking -/

/-- Stronger, or as strong and traded more, or the same in both and first by ticker. -/
def Outranks (a b : Survivor) : Prop :=
  b.metrics.relativeStrength < a.metrics.relativeStrength ∨
  b.metrics.relativeStrength = a.metrics.relativeStrength ∧
    (b.metrics.averageVolume < a.metrics.averageVolume ∨
      b.metrics.averageVolume = a.metrics.averageVolume ∧ a.ticker < b.ticker)

instance (a b : Survivor) : Decidable (Outranks a b) := inferInstanceAs (Decidable (_ ∨ _))

theorem outranks_iff {a b : Survivor} : Outranks a b ↔ rankKey a < rankKey b := by
  unfold Outranks rankKey
  rw [Prod.Lex.toLex_lt_toLex, Prod.Lex.toLex_lt_toLex, neg_lt_neg_iff, neg_lt_neg_iff, neg_inj,
    neg_inj, eq_comm (a := b.metrics.relativeStrength), eq_comm (a := b.metrics.averageVolume)]

theorem ticker_eq_of_rankKey_eq {a b : Survivor} (h : rankKey a = rankKey b) :
    a.ticker = b.ticker := by
  have hpair := congrArg (fun key => (ofLex (ofLex key).2).2) h
  exact hpair

section

variable {survivors survivors' : List Survivor} {cap : Nat}

theorem nodup_rankKey (hnodup : (survivors.map Survivor.ticker).Nodup) :
    (survivors.map rankKey).Nodup := by
  rw [List.nodup_map_iff_inj_on hnodup.of_map]
  intro a ha b hb hkey
  exact List.inj_on_of_nodup_map hnodup ha hb (ticker_eq_of_rankKey_eq hkey)

/-- The survivors of different tickers stand in strict order. -/
theorem pairwise_ordered (hnodup : (survivors.map Survivor.ticker).Nodup) :
    ((survivors.insertionSort fun a b => rankKey a ≤ rankKey b).map rankKey).Pairwise (· < ·) := by
  have hsorted := pairwise_insertionSort rankKey survivors
  have hkeys := ((List.perm_insertionSort (fun a b => rankKey a ≤ rankKey b) survivors).map
    rankKey).nodup_iff.mpr (nodup_rankKey hnodup)
  rw [List.pairwise_map]
  rw [List.nodup_iff_pairwise_ne, List.pairwise_map] at hkeys
  exact (hsorted.and hkeys).imp fun h => lt_of_le_of_ne h.1 h.2

/-- The place of a survivor is the number of those that outrank it. -/
theorem getElem?_ordered_iff (hnodup : (survivors.map Survivor.ticker).Nodup) {place : Nat}
    {survivor : Survivor} :
    (survivors.insertionSort fun a b => rankKey a ≤ rankKey b)[place]? = some survivor ↔
      survivor ∈ survivors ∧
      (survivors.filter fun other => decide (Outranks other survivor)).length = place := by
  set ordered := survivors.insertionSort fun a b => rankKey a ≤ rankKey b with hordered
  have hperm : ordered.Perm survivors := List.perm_insertionSort _ _
  have hinj : ∀ a ∈ survivors, ∀ b ∈ survivors, rankKey a = rankKey b → a = b := fun a ha b hb =>
    (List.nodup_map_iff_inj_on hnodup.of_map).mp (nodup_rankKey hnodup) a ha b hb
  have hbelow : ∀ survivor : Survivor,
      ((ordered.map rankKey).filter fun key => decide (key < rankKey survivor)).length =
      (survivors.filter fun other => decide (Outranks other survivor)).length := by
    intro survivor
    rw [List.filter_map, List.length_map]
    simp only [Function.comp_def, outranks_iff]
    exact (hperm.filter _).length_eq
  have hplace := getElem?_eq_some_iff_below (i := place) (t := rankKey survivor)
    (pairwise_ordered hnodup)
  rw [hbelow, List.getElem?_map] at hplace
  constructor
  · intro h
    rw [← hordered, h] at hplace
    obtain ⟨-, hcount⟩ := hplace.mp rfl
    exact ⟨hperm.mem_iff.mp (List.mem_of_getElem? h), hcount⟩
  · rintro ⟨hmem, hcount⟩
    obtain ⟨other, hother, hkey⟩ := Option.map_eq_some_iff.mp
      (hplace.mpr ⟨List.mem_map_of_mem (hperm.mem_iff.mpr hmem), hcount⟩)
    rw [hother, hinj other (hperm.mem_iff.mp (List.mem_of_getElem? hother)) survivor hmem hkey]

/-- The candidates of survivors of different tickers: a survivor is one exactly when fewer others
outrank it than the cap, and its rank is one more than their number. -/
theorem mem_rankSurvivors_iff (hnodup : (survivors.map Survivor.ticker).Nodup)
    {candidate : Candidate} : candidate ∈ rankSurvivors survivors cap ↔
      ∃ survivor ∈ survivors, candidate = candidateAt
        (survivors.filter fun other => decide (Outranks other survivor)).length survivor ∧
      candidate.rank ≤ cap := by
  rw [rankSurvivors, List.mem_mapIdx]
  constructor
  · rintro ⟨place, hplace, rfl⟩
    rw [List.length_take] at hplace
    rw [List.getElem_take]
    obtain ⟨hmem, hcount⟩ := (getElem?_ordered_iff hnodup).mp
      (List.getElem?_eq_getElem (lt_min_iff.mp hplace).2)
    refine ⟨_, hmem, by rw [hcount], ?_⟩
    show place + 1 ≤ cap
    omega
  · rintro ⟨survivor, hmem, rfl, hcap⟩
    have hget := (getElem?_ordered_iff hnodup).mpr ⟨hmem, rfl⟩
    obtain ⟨hlt, hplaced⟩ := List.getElem?_eq_some_iff.mp hget
    set place := (survivors.filter fun other => decide (Outranks other survivor)).length
    have hplace : place < cap := hcap
    refine ⟨place, by rw [List.length_take]; omega, ?_⟩
    rw [List.getElem_take, hplaced]

/-- The ranking does not see the order in which survivors of different tickers come. -/
theorem rankSurvivors_perm (hperm : survivors.Perm survivors')
    (hnodup : (survivors.map Survivor.ticker).Nodup) :
    rankSurvivors survivors cap = rankSurvivors survivors' cap := by
  rw [rankSurvivors, rankSurvivors, insertionSort_eq_of_perm hperm (nodup_rankKey hnodup)]

end

/-! ### The order of the universe and of the bars -/

section

variable {tickers tickers' : List String} {input : ScanInput} {bars' benchmarkBars' : List OHLCVBar}

/-- A bar is known by its ticker and its day. -/
def barKey (bar : OHLCVBar) : String × Int := (bar.ticker, bar.barDate)

theorem tickerBars_eq (ticker : String) : tickerBars input ticker =
    (input.bars.filter fun bar => decide (bar.ticker = ticker)).insertionSort
      fun a b => a.barDate ≤ b.barDate := by
  rw [tickerBars, groupBars, getD_groupBy, List.map_id]

theorem tickerBars_perm (hperm : input.bars.Perm bars') (hnodup : (input.bars.map barKey).Nodup)
    (ticker : String) :
    tickerBars input ticker = tickerBars { input with bars := bars' } ticker := by
  rw [tickerBars_eq, tickerBars_eq]
  apply insertionSort_eq_of_perm (hperm.filter _)
  have hbars : ((input.bars.filter fun bar => decide (bar.ticker = ticker)).map barKey).Nodup :=
    hnodup.sublist (List.filter_sublist.map barKey)
  rw [List.nodup_map_iff_inj_on hbars.of_map]
  intro a ha b hb hdate
  refine List.inj_on_of_nodup_map hbars ha hb ?_
  have ha' : a.ticker = ticker := by simpa using List.of_mem_filter ha
  have hb' : b.ticker = ticker := by simpa using List.of_mem_filter hb
  rw [barKey, barKey, ha', hb', hdate]

theorem featuresOf_perm (hperm : input.benchmarkBars.Perm benchmarkBars')
    (hnodup : (input.benchmarkBars.map BarOf.barDate).Nodup) (first : OHLCVBar)
    (rest : List OHLCVBar) :
    featuresOf first rest input.benchmarkBars input.earnings input.asOf input.settings =
      featuresOf first rest benchmarkBars' input.earnings input.asOf input.settings := by
  rw [featuresOf, computeBeta_perm hperm hnodup]
  rfl

/-- A ticker is judged alike whatever the order of the bars. -/
theorem judged_perm (hbars : input.bars.Perm bars') (hkeys : (input.bars.map barKey).Nodup)
    (hbenchmark : input.benchmarkBars.Perm benchmarkBars')
    (hdates : (input.benchmarkBars.map BarOf.barDate).Nodup) :
    judged input = judged { input with bars := bars', benchmarkBars := benchmarkBars' } := by
  funext ticker
  have hsame : tickerBars { input with bars := bars', benchmarkBars := benchmarkBars' } ticker =
      tickerBars input ticker := (tickerBars_perm hbars hkeys ticker).symm
  unfold judged
  rw [hsame]
  dsimp only
  split
  · rw [featuresOf_perm hbenchmark hdates]
  · rfl

theorem ticker_survivorOf {ticker : String} {survivor : Survivor}
    (h : survivorOf input ticker = some survivor) : survivor.ticker = ticker := by
  unfold survivorOf at h
  split at h
  · cases h
  · split at h
    · cases h
      rfl
    · cases h

/-- A universe of different tickers has survivors of different tickers. -/
theorem nodup_survivors (h : tickers.Nodup) :
    ((tickers.filterMap (survivorOf input)).map Survivor.ticker).Nodup := by
  refine h.sublist ?_
  rw [List.map_filterMap]
  induction tickers with
  | nil => exact List.Sublist.slnil
  | cons ticker tickers ih =>
    have hrest := ih (List.nodup_cons.mp h).2
    cases hsurvivor : survivorOf input ticker with
    | none => simpa [List.filterMap_cons, hsurvivor] using hrest.cons ticker
    | some survivor =>
      have hticker := ticker_survivorOf hsurvivor
      simpa [List.filterMap_cons, hsurvivor, hticker] using hrest.cons_cons ticker

/-- What a scan comes to depends on the bars and on the universe, and not on the order in which
either comes: the candidates are the same and in the same ranks, the counts of the drops are the
same, and so are the verdicts but for their order. -/
theorem runScan_perm (htickers : tickers.Perm tickers') (hnodup : tickers.Nodup)
    (hbars : input.bars.Perm bars') (hkeys : (input.bars.map barKey).Nodup)
    (hbenchmark : input.benchmarkBars.Perm benchmarkBars')
    (hdates : (input.benchmarkBars.map BarOf.barDate).Nodup) :
    let scan := runScan tickers input
    let scan' := runScan tickers' { input with bars := bars', benchmarkBars := benchmarkBars' }
    scan.1 = scan'.1 ∧ scan.2.verdicts.Perm scan'.2.verdicts ∧
    ∀ filter, (scan.2.droppedByFilter.get? filter).getD 0 =
      (scan'.2.droppedByFilter.get? filter).getD 0 := by
  set input' : ScanInput := { input with bars := bars', benchmarkBars := benchmarkBars' }
  have hjudged : judged input = judged input' := judged_perm hbars hkeys hbenchmark hdates
  have hsurvivor : survivorOf input = survivorOf input' := by
    funext ticker
    rw [survivorOf, survivorOf, hjudged]
  have hverdict : verdictOf input = verdictOf input' := by
    funext ticker
    rw [verdictOf, verdictOf, hjudged]
  dsimp only [runScan]
  rw [applyFilters_eq, applyFilters_eq, ← hsurvivor, ← hverdict]
  refine ⟨?_, htickers.map _, fun filter => ?_⟩
  · exact rankSurvivors_perm (htickers.filterMap _) (nodup_survivors hnodup)
  · rw [getD_foldl_tally, getD_foldl_tally]
    exact congrArg _ ((htickers.filterMap _).count_eq filter)

/-- A day of a ticker that closes at `above` dollars over one. -/
def closingAt (ticker : String) (barDate : Int) (above : Nat) : OHLCVBar :=
  have hpos : (0 : ℚ) < above + 1 := by positivity
  ⟨ticker, barDate, above + 1, above + 1, above + 1, above + 1, 900000, hpos, hpos, hpos, hpos⟩

/-- Two days of a ticker that rises and of one that does not, and of the benchmark. -/
def twoDays : ScanInput where
  bars := [closingAt "NVDA" 1 99, closingAt "NVDA" 2 109, closingAt "IBM" 2 98,
    closingAt "IBM" 1 99]
  benchmarkBars := [closingAt "SPY" 1 399, closingAt "SPY" 2 403]
  earnings := .ofList [("IBM", 9)]
  asOf := 2
  settings := {}
  earningsHorizonDays := some 14

example :
    (runScan ["IBM", "NVDA"] twoDays).1.map (fun c => (c.ticker, c.rank)) = [("NVDA", 1)] := by
  decide +kernel

theorem runScan_perm_twoDays : (runScan ["IBM", "NVDA"] twoDays).1 =
    (runScan ["NVDA", "IBM"] { twoDays with
      bars := twoDays.bars.reverse, benchmarkBars := twoDays.benchmarkBars.reverse }).1 :=
  (runScan_perm (List.Perm.swap "NVDA" "IBM" []) (by decide) (List.reverse_perm _).symm
    (by decide) (List.reverse_perm _).symm (by decide)).1

/-- A scan of a universe of different tickers proposes a survivor exactly when fewer others outrank
it than the cap allows, at the rank that follows them. -/
theorem mem_runScan_iff (hnodup : tickers.Nodup) {candidate : Candidate} :
    candidate ∈ (runScan tickers input).1 ↔
      ∃ survivor ∈ (applyFilters tickers input).1,
        candidate = candidateAt ((applyFilters tickers input).1.filter fun other =>
          decide (Outranks other survivor)).length survivor ∧
        candidate.rank ≤ input.settings.candidateCap := by
  have hsurvivors : (((applyFilters tickers input).1).map Survivor.ticker).Nodup := by
    rw [applyFilters_eq]
    exact nodup_survivors hnodup
  exact mem_rankSurvivors_iff hsurvivors

/-- A scan that keeps one of two survivors. -/
def cappedScan : ScanInput :=
  { twoDays with
    bars := closingAt "AMD" 1 99 :: closingAt "AMD" 2 104 :: twoDays.bars
    settings := { candidateCap := 1 } }

theorem mem_runScan_iff_cappedScan :
    (applyFilters ["AMD", "IBM", "NVDA"] cappedScan).1.length = 2 ∧
    ∃ candidate ∈ (runScan ["AMD", "IBM", "NVDA"] cappedScan).1, candidate.rank = 1 ∧
      ∃ survivor ∈ (applyFilters ["AMD", "IBM", "NVDA"] cappedScan).1,
        candidate = candidateAt ((applyFilters ["AMD", "IBM", "NVDA"] cappedScan).1.filter
          fun other => decide (Outranks other survivor)).length survivor := by
  have hsome : ∃ candidate ∈ (runScan ["AMD", "IBM", "NVDA"] cappedScan).1,
      candidate.rank = 1 := by
    decide +kernel
  obtain ⟨candidate, hcandidate, hrank⟩ := hsome
  obtain ⟨survivor, hmem, hsame, -⟩ := (mem_runScan_iff (by decide)).mp hcandidate
  exact ⟨by decide +kernel, candidate, hcandidate, hrank, survivor, hmem, hsame⟩

end

end TradingAgents.Scanner
