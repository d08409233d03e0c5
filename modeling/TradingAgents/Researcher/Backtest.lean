import Mathlib
import TradingAgents.Contracts.Documents
import TradingAgents.ProofKit.Fallible
import TradingAgents.ProofKit.Sample
import TradingAgents.ProofKit.StableSort

/-! The walk-forward backtest of a score table: at each score date the best tickers are filled at
the next close and held to the fill of the next score date.  Arithmetic is exact; the root of a
float is a function that the backtest is given. -/

namespace TradingAgents.Researcher

open Kernel ProofKit
open Sample (average mean)

abbrev ScoreMap := Dict String ℚ

/-- The closes of a ticker, each with its date. -/
abbrev CloseHistory := List (String × ℚ)

/-- One rebalance-to-rebalance leg. -/
structure RebalanceLeg where
  scoreDate : String
  exitScoreDate : String
  holdings : List String
  grossReturn : ℚ
  netReturn : ℚ
  turnover : ℚ
  fillCount : Nat
  ic : Option ℚ

structure BacktestResult where
  returns : List ℚ
  legs : List RebalanceLeg
  sharpe : ℚ
  maxDrawdown : ℚ
  turnover : ℚ
  icMean : Option ℚ
  nDays : Nat
  windowStart : String
  windowEnd : String
  holdoutSharpe : Option ℚ
  holdoutIcMean : Option ℚ
  holdoutMaxDrawdown : Option ℚ
  holdoutTurnover : Option ℚ
  holdoutNDays : Nat

/-! ### Close series -/

structure Series where
  dates : List String
  prices : List ℚ

def sortedBars (bars : CloseHistory) : CloseHistory := bars.insertionSort fun a b => a.1 ≤ b.1

def Series.fromBars (bars : CloseHistory) : Series where
  dates := (sortedBars bars).map Prod.fst
  prices := (sortedBars bars).map Prod.snd

/-- `bisect_right` of dates in order. -/
def bisectRight (dates : List String) (day : String) : Nat :=
  (dates.takeWhile fun date => decide (date ≤ day)).length

/-- The first close after a date. -/
def Series.nextPrice (s : Series) (afterDate : String) : Option ℚ :=
  s.prices[bisectRight s.dates afterDate]?

/-! ### Statistics -/

section

variable (sqrt : ℚ → ℚ)

def std (values : List ℚ) : ℚ :=
  match mean values with
  | none => 0
  | some m => sqrt ((values.map fun value => (value - m) ^ 2).sum / values.length)

def sharpe (returns : List ℚ) : ℚ :=
  match mean returns with
  | none => 0
  | some m => if std sqrt returns = 0 then 0 else m / std sqrt returns * sqrt 252

/-- The equity, its peak and the deepest fall below it, over the returns. -/
def maxDrawdown (returns : List ℚ) : ℚ :=
  (returns.foldl (fun (state : ℚ × ℚ × ℚ) value =>
    let equity := state.1 * (1 + value)
    let peak := max state.2.1 equity
    (equity, peak, min state.2.2 (equity / peak - 1))) (1, 1, 0)).2.2

def pearson (xs ys : List ℚ) : Option ℚ :=
  if xs.length ≠ ys.length ∨ xs.length < 2 then none
  else
    let xMean := average xs
    let yMean := average ys
    let xDev := xs.map fun x => x - xMean
    let yDev := ys.map fun y => y - yMean
    let xVar := (xDev.map fun value => value * value).sum
    let yVar := (yDev.map fun value => value * value).sum
    if xVar = 0 ∨ yVar = 0 then none
    else some ((List.zipWith (· * ·) xDev yDev).sum / (sqrt xVar * sqrt yVar))

end

/-! ### One leg -/

/-- The `topK` tickers of the best scores, ties by their names. -/
def top (scoreMap : ScoreMap) (topK : ℤ) : List String :=
  ((scoreMap.entries.insertionSort fun a b =>
    toLex (-a.2, a.1) ≤ (toLex (-b.2, b.1) : ℚ ×ₗ String)).map Prod.fst).take topK.toNat

/-- The return of a ticker from its entry fill to its exit fill, none without both. -/
def tickerReturn (series : Dict String Series) (entryAfter exitAfter ticker : String) : Option ℚ :=
  match series.get? ticker with
  | none => none
  | some prices =>
    match prices.nextPrice entryAfter, prices.nextPrice exitAfter with
    | some entry, some exit => if entry ≤ 0 then none else some (exit / entry - 1)
    | _, _ => none

/-- The returns of the scored tickers, in the order of the scores. -/
def realized (scoreMap : ScoreMap) (series : Dict String Series) (entryAfter exitAfter : String) :
    List (String × ℚ) :=
  scoreMap.entries.filterMap fun p =>
    (tickerReturn series entryAfter exitAfter p.1).map fun value => (p.1, value)

def turnoverOf (previous current : List String) : ℚ :=
  if current = [] then 0
  else if previous = [] then 1
  else (current.filter fun ticker => decide (ticker ∉ previous)).length / current.length

def icOf (sqrt : ℚ → ℚ) (scoreMap : ScoreMap) (returns : List (String × ℚ)) : Option ℚ :=
  pearson sqrt (returns.map fun p => (scoreMap.get? p.1).getD 0) (returns.map Prod.snd)

/-- The tickers that a leg holds: those selected that have a return. -/
def legHoldings (scoreMap : ScoreMap) (series : Dict String Series) (topK : ℤ)
    (scoreDate nextDate : String) : List String :=
  (top scoreMap topK).filter fun ticker =>
    decide (ticker ∈ (realized scoreMap series scoreDate nextDate).map Prod.fst)

/-- The leg of a score date, none when it holds nothing. -/
def rebalance (sqrt : ℚ → ℚ) (scoreMap : ScoreMap) (series : Dict String Series) (topK : ℤ)
    (slippageBps : ℚ) (previous : List String) (scoreDate nextDate : String) :
    Option RebalanceLeg :=
  let returns := realized scoreMap series scoreDate nextDate
  let holdings := legHoldings scoreMap series topK scoreDate nextDate
  if holdings = [] then none
  else
    let gross := (holdings.map fun ticker => (returns.lookup ticker).getD 0).sum / holdings.length
    let turnover := turnoverOf previous holdings
    some
      { scoreDate
        exitScoreDate := nextDate
        holdings
        grossReturn := gross
        netReturn := gross - slippageBps / 10000 * turnover
        turnover
        fillCount := holdings.length
        ic := icOf sqrt scoreMap returns }

/-! ### The walk -/

def scoresAt (scores : Dict String ScoreMap) (date : String) : ScoreMap :=
  (scores.get? date).getD .empty

/-- The dates with scores, in order. -/
def scoreDates (scores : Dict String ScoreMap) : List String :=
  ((scores.entries.filter fun p => decide (p.2.entries ≠ [])).map Prod.fst).insertionSort (· ≤ ·)

/-- The legs between neighbouring score dates; a leg that holds nothing resets the holdings. -/
def walk (sqrt : ℚ → ℚ) (scores : Dict String ScoreMap) (series : Dict String Series) (topK : ℤ)
    (slippageBps : ℚ) : List (String × String) → List String → List RebalanceLeg
  | [], _ => []
  | (scoreDate, nextDate) :: rest, previous =>
    match rebalance sqrt (scoresAt scores scoreDate) series topK slippageBps previous scoreDate
        nextDate with
    | none => walk sqrt scores series topK slippageBps rest []
    | some leg => leg :: walk sqrt scores series topK slippageBps rest leg.holdings

def validateSettings (topK : ℤ) (slippageBps holdoutFraction : ℚ) : Except HandlerError Unit :=
  if topK < 1 then .error (.validation "top_k must be positive")
  else if slippageBps < 0 then .error (.validation "slippage_bps must be non-negative")
  else if ¬ (0 < holdoutFraction ∧ holdoutFraction ≤ 1) then
    .error (.validation "holdout_fraction must be in (0, 1]")
  else .ok ()

def definedIcs (legs : List RebalanceLeg) : List ℚ := legs.filterMap RebalanceLeg.ic

/-- The metrics of the legs, and those of the last part of them. -/
def resultOf (sqrt : ℚ → ℚ) (legs : List RebalanceLeg) (holdoutFraction : ℚ) : BacktestResult :=
  let returns := legs.map RebalanceLeg.netReturn
  let holdoutCount := ⌈legs.length * holdoutFraction⌉.toNat
  let holdout := legs.drop (legs.length - holdoutCount)
  let held {α : Type} (x : α) : Option α := if holdout = [] then none else some x
  { returns
    legs
    sharpe := sharpe sqrt returns
    maxDrawdown := maxDrawdown returns
    turnover := (mean (legs.map RebalanceLeg.turnover)).getD 0
    icMean := mean (definedIcs legs)
    nDays := legs.length
    windowStart := (legs.head?.map RebalanceLeg.scoreDate).getD ""
    windowEnd := (legs.getLast?.map RebalanceLeg.exitScoreDate).getD ""
    holdoutSharpe := held (sharpe sqrt (holdout.map RebalanceLeg.netReturn))
    holdoutIcMean := mean (definedIcs holdout)
    holdoutMaxDrawdown := held (maxDrawdown (holdout.map RebalanceLeg.netReturn))
    holdoutTurnover := mean (holdout.map RebalanceLeg.turnover)
    holdoutNDays := holdout.length }

def seriesOf (closes : Dict String CloseHistory) : Dict String Series :=
  closes.mapValues Series.fromBars

/-- The walk-forward simulation of the best tickers. -/
def runWalkforward (sqrt : ℚ → ℚ) (scores : Dict String ScoreMap)
    (closes : Dict String CloseHistory) (topK : ℤ) (slippageBps holdoutFraction : ℚ) :
    Except HandlerError BacktestResult := do
  validateSettings topK slippageBps holdoutFraction
  let dates := scoreDates scores
  let legs := walk sqrt scores (seriesOf closes) topK slippageBps (dates.zip dates.tail) []
  pure (resultOf sqrt legs holdoutFraction)

/-! ### Fills -/

section

variable {bars bars' : CloseHistory} {closes closes' : Dict String CloseHistory}
  {scores scores' : Dict String ScoreMap} {scoreMap : ScoreMap} {topK : ℤ}
  {day nextDate ticker : String}

def history (closes : Dict String CloseHistory) (ticker : String) : CloseHistory :=
  (closes.get? ticker).getD []

/-- The close that a position is filled at after a date. -/
def fillAfter (closes : Dict String CloseHistory) (ticker day : String) : Option ℚ :=
  (Series.fromBars (history closes ticker)).nextPrice day

/-- The closes up to a date and the first one after it, oldest first. -/
def throughFill (bars : CloseHistory) (day : String) : CloseHistory :=
  (sortedBars bars).takeWhile (fun bar => decide (bar.1 ≤ day)) ++
    ((sortedBars bars).dropWhile fun bar => decide (bar.1 ≤ day)).take 1

theorem nextPrice_fromBars : (Series.fromBars bars).nextPrice day =
    (((sortedBars bars).dropWhile fun bar => decide (bar.1 ≤ day)).head?).map Prod.snd := by
  have hindex : bisectRight ((sortedBars bars).map Prod.fst) day =
      ((sortedBars bars).takeWhile fun bar => decide (bar.1 ≤ day)).length := by
    rw [bisectRight, List.takeWhile_map, List.length_map]
    rfl
  rw [Series.nextPrice, Series.fromBars, hindex, List.getElem?_map]
  conv_lhs =>
    rw [← List.takeWhile_append_dropWhile (p := fun bar => decide (bar.1 ≤ day))
      (l := sortedBars bars)]
  rw [List.getElem?_append_right (by simp), List.takeWhile_append_dropWhile, Nat.sub_self,
    List.head?_eq_getElem?]

/-- The fill is the first close after the date among those through it. -/
theorem nextPrice_eq_find : (Series.fromBars bars).nextPrice day =
    ((throughFill bars day).find? fun bar => decide (day < bar.1)).map Prod.snd := by
  have hbefore : ((sortedBars bars).takeWhile fun bar => decide (bar.1 ≤ day)).find?
      (fun bar => decide (day < bar.1)) = none := by
    refine List.find?_eq_none.mpr fun bar hbar => ?_
    have hle := List.mem_takeWhile_imp hbar
    rw [decide_eq_true_eq] at hle ⊢
    exact not_lt.mpr hle
  rw [nextPrice_fromBars, throughFill, List.find?_append, hbefore, Option.none_or]
  cases hafter : (sortedBars bars).dropWhile fun bar => decide (bar.1 ≤ day) with
  | nil => rfl
  | cons bar rest =>
    have hlt : day < bar.1 := by
      have hhead := List.head?_dropWhile_not (fun bar : String × ℚ => decide (bar.1 ≤ day))
        (sortedBars bars)
      rw [hafter] at hhead
      simpa using hhead
    rw [List.take_succ_cons, List.find?_cons_of_pos
      (p := fun bar : String × ℚ => decide (day < bar.1)) (decide_eq_true hlt), List.head?_cons]

theorem nextPrice_congr (h : throughFill bars day = throughFill bars' day) :
    (Series.fromBars bars).nextPrice day = (Series.fromBars bars').nextPrice day := by
  rw [nextPrice_eq_find, h, nextPrice_eq_find]

/-! ### Holdings of a leg -/

/-- A position in the ticker is filled after the date, at a positive price. -/
def entryFilled (closes : Dict String CloseHistory) (day ticker : String) : Bool :=
  (fillAfter closes ticker day).any fun entry => decide (0 < entry)

/-- A ticker has a return when it is filled and has a fill again at the exit. -/
theorem isSome_tickerReturn : (tickerReturn (seriesOf closes) day nextDate ticker).isSome =
    (entryFilled closes day ticker && (fillAfter closes ticker nextDate).isSome) := by
  unfold tickerReturn entryFilled fillAfter history seriesOf
  rw [Dict.get?_mapValues]
  cases closes.get? ticker with
  | none => rfl
  | some bars =>
    simp only [Option.map_some, Option.getD_some]
    cases (Series.fromBars bars).nextPrice day with
    | none => rfl
    | some entry =>
      cases (Series.fromBars bars).nextPrice nextDate with
      | none => simp
      | some exit =>
        by_cases hentry : entry ≤ 0
        · simp [hentry]
        · simp [hentry, not_le.mp hentry]

theorem mem_top (h : ticker ∈ top scoreMap topK) : ticker ∈ scoreMap.keys := by
  obtain ⟨p, hp, rfl⟩ := List.mem_map.mp (List.mem_of_mem_take h)
  exact List.mem_map_of_mem ((List.mem_insertionSort _).mp hp)

theorem mem_realized {series : Dict String Series} (h : ticker ∈ scoreMap.keys) :
    ticker ∈ (realized scoreMap series day nextDate).map Prod.fst ↔
      (tickerReturn series day nextDate ticker).isSome := by
  rw [realized, List.map_filterMap]
  constructor
  · intro hmem
    obtain ⟨p, -, hp⟩ := List.mem_filterMap.mp hmem
    rw [Option.map_map] at hp
    obtain ⟨value, hvalue, rfl⟩ := Option.map_eq_some_iff.mp hp
    exact Option.isSome_of_eq_some hvalue
  · intro hsome
    obtain ⟨value, hvalue⟩ := Option.isSome_iff_exists.mp hsome
    obtain ⟨p, hp, rfl⟩ := List.mem_map.mp h
    exact List.mem_filterMap.mpr ⟨p, hp, by rw [hvalue]; rfl⟩

theorem legHoldings_eq : legHoldings scoreMap (seriesOf closes) topK day nextDate =
    (top scoreMap topK).filter fun ticker =>
      entryFilled closes day ticker && (fillAfter closes ticker nextDate).isSome := by
  refine List.filter_congr fun ticker hticker => ?_
  rw [← isSome_tickerReturn, Bool.eq_iff_iff, decide_eq_true_eq]
  exact mem_realized (mem_top hticker)

/-! ### Holdings of a run -/

/-- The holdings of the leg of a date. -/
def holdingsAt (legs : List RebalanceLeg) (day : String) : List String :=
  ((legs.find? fun leg => decide (leg.scoreDate = day)).map RebalanceLeg.holdings).getD []

/-- The score date after a date, when the run has a leg there. -/
def nextScoreDate (scores : Dict String ScoreMap) (day : String) : Option String :=
  ((scoreDates scores).zip (scoreDates scores).tail).lookup day

/-- The fill that a leg ends with. -/
def exitFill (scores : Dict String ScoreMap) (closes : Dict String CloseHistory)
    (day ticker : String) : Option ℚ :=
  (nextScoreDate scores day).bind (fillAfter closes ticker)

variable {sqrt : ℚ → ℚ} {slippageBps : ℚ} {previous : List String}
  {pairs : List (String × String)}

theorem rebalance_eq (sqrt : ℚ → ℚ) (scoreMap : ScoreMap) (closes : Dict String CloseHistory)
    (topK : ℤ) (slippageBps : ℚ) (previous : List String) (day nextDate : String) :
    (rebalance sqrt scoreMap (seriesOf closes) topK slippageBps previous day nextDate).map
      (fun leg => (leg.scoreDate, leg.holdings)) =
      if legHoldings scoreMap (seriesOf closes) topK day nextDate = [] then none
      else some (day, legHoldings scoreMap (seriesOf closes) topK day nextDate) := by
  unfold rebalance
  simp only
  split
  · rfl
  · rfl

theorem scoreDate_of_mem_walk {leg : RebalanceLeg}
    (h : leg ∈ walk sqrt scores (seriesOf closes) topK slippageBps pairs previous) :
    leg.scoreDate ∈ pairs.map Prod.fst := by
  induction pairs generalizing previous with
  | nil => cases h
  | cons p pairs ih =>
    obtain ⟨scoreDate, nextDate⟩ := p
    rw [walk] at h
    have hleg := rebalance_eq sqrt (scoresAt scores scoreDate) closes topK slippageBps previous
      scoreDate nextDate
    cases hfound : rebalance sqrt (scoresAt scores scoreDate) (seriesOf closes) topK slippageBps
        previous scoreDate nextDate with
    | none =>
      rw [hfound] at h
      exact List.mem_cons_of_mem _ (ih h)
    | some first =>
      rw [hfound] at h hleg
      rcases List.mem_cons.mp h with rfl | h
      · split at hleg
        · cases hleg
        · rw [(Prod.mk.inj (Option.some.inj hleg)).1]
          exact List.mem_cons_self
      · exact List.mem_cons_of_mem _ (ih h)

/-- The leg of a date holds what is selected there and has a return. -/
theorem holdingsAt_walk (hdates : (pairs.map Prod.fst).Nodup) :
    holdingsAt (walk sqrt scores (seriesOf closes) topK slippageBps pairs previous) day =
      match pairs.lookup day with
      | some nextDate => legHoldings (scoresAt scores day) (seriesOf closes) topK day nextDate
      | none => [] := by
  induction pairs generalizing previous with
  | nil => rfl
  | cons p pairs ih =>
    obtain ⟨scoreDate, nextDate⟩ := p
    obtain ⟨hnot, hrest⟩ := List.nodup_cons.mp hdates
    have hleg := rebalance_eq sqrt (scoresAt scores scoreDate) closes topK slippageBps previous
      scoreDate nextDate
    rw [walk]
    by_cases hday : day = scoreDate
    · subst hday
      rw [List.lookup_cons_self]
      simp only
      cases hfound : rebalance sqrt (scoresAt scores day) (seriesOf closes) topK slippageBps
          previous day nextDate with
      | none =>
        -- the date has no leg, and no later leg is of this date
        rw [hfound] at hleg
        simp only
        rw [holdingsAt, List.find?_eq_none.mpr fun leg hmem => ?_]
        · split at hleg
          · rename_i hnil
            rw [hnil]
            rfl
          · cases hleg
        · rw [decide_eq_true_eq]
          rintro rfl
          exact hnot (scoreDate_of_mem_walk hmem)
      | some leg =>
        rw [hfound] at hleg
        split at hleg
        · cases hleg
        · obtain ⟨hdate, hholdings⟩ := Prod.mk.inj (Option.some.inj hleg)
          simp only
          rw [holdingsAt, List.find?_cons_of_pos
            (p := fun leg : RebalanceLeg => decide (leg.scoreDate = day)) (decide_eq_true hdate),
            Option.map_some, Option.getD_some, hholdings]
    · rw [List.lookup_cons, beq_false_of_ne hday]
      simp only
      cases hfound : rebalance sqrt (scoresAt scores scoreDate) (seriesOf closes) topK slippageBps
          previous scoreDate nextDate with
      | none => exact ih hrest
      | some leg =>
        rw [hfound] at hleg
        split at hleg
        · cases hleg
        · obtain ⟨hdate, -⟩ := Prod.mk.inj (Option.some.inj hleg)
          simp only
          rw [← @ih leg.holdings hrest, holdingsAt, holdingsAt,
            List.find?_cons_of_neg]
          rw [decide_eq_true_eq, hdate]
          exact fun heq => hday heq.symm

theorem nodup_scoreDates : (scoreDates scores).Nodup := by
  rw [scoreDates, (List.perm_insertionSort _ _).nodup_iff]
  exact scores.nodup.sublist (List.filter_sublist.map Prod.fst)

theorem map_fst_zip_sublist {α β : Type} (l : List α) (m : List β) :
    ((l.zip m).map Prod.fst).Sublist l := by
  induction l generalizing m with
  | nil => exact .slnil
  | cons a l ih =>
    cases m with
    | nil => exact List.nil_sublist _
    | cons b m => exact (ih m).cons_cons a

theorem nodup_legDates :
    (((scoreDates scores).zip (scoreDates scores).tail).map Prod.fst).Nodup :=
  nodup_scoreDates.sublist (map_fst_zip_sublist _ _)

theorem runWalkforward_of_valid {holdoutFraction : ℚ}
    (h : validateSettings topK slippageBps holdoutFraction = .ok ()) :
    runWalkforward sqrt scores closes topK slippageBps holdoutFraction =
      .ok (resultOf sqrt (walk sqrt scores (seriesOf closes) topK slippageBps
        ((scoreDates scores).zip (scoreDates scores).tail) []) holdoutFraction) := by
  rw [runWalkforward, h]
  rfl

/-- A run holds, of the best tickers of a date, those with an entry and an exit fill. -/
theorem holdingsAt_run {holdoutFraction : ℚ} {result : BacktestResult}
    (h : runWalkforward sqrt scores closes topK slippageBps holdoutFraction = .ok result) :
    holdingsAt result.legs day = (top (scoresAt scores day) topK).filter fun ticker =>
      entryFilled closes day ticker && (exitFill scores closes day ticker).isSome := by
  obtain ⟨_, -, hok⟩ := Fallible.bind_eq_ok.mp h
  cases hok
  rw [show (resultOf sqrt _ holdoutFraction).legs = walk sqrt scores (seriesOf closes) topK
    slippageBps ((scoreDates scores).zip (scoreDates scores).tail) [] from rfl,
    holdingsAt_walk nodup_legDates]
  unfold exitFill nextScoreDate
  cases ((scoreDates scores).zip (scoreDates scores).tail).lookup day with
  | none => simp
  | some nextDate => exact legHoldings_eq

end

/-- The holdings of a leg are read off the scores of its date, the closes through its entry fills,
and which of the best tickers have an exit fill. -/
theorem holdings_of_fills {sqrt : ℚ → ℚ} {scores scores' : Dict String ScoreMap}
    {closes closes' : Dict String CloseHistory} {topK : ℤ} {slippageBps holdoutFraction : ℚ}
    {result result' : BacktestResult} {day : String}
    (h : runWalkforward sqrt scores closes topK slippageBps holdoutFraction = .ok result)
    (h' : runWalkforward sqrt scores' closes' topK slippageBps holdoutFraction = .ok result')
    (hscores : scoresAt scores day = scoresAt scores' day)
    (hpast : ∀ ticker,
      throughFill (history closes ticker) day = throughFill (history closes' ticker) day)
    (hexit : ∀ ticker ∈ top (scoresAt scores day) topK,
      (exitFill scores closes day ticker).isSome = (exitFill scores' closes' day ticker).isSome) :
    holdingsAt result.legs day = holdingsAt result'.legs day := by
  rw [holdingsAt_run h, holdingsAt_run h', ← hscores]
  refine List.filter_congr fun ticker hticker => ?_
  rw [hexit ticker hticker, entryFilled, entryFilled, fillAfter, fillAfter,
    nextPrice_congr (hpast ticker)]

/-- Two dates that score two tickers. -/
def twoScores : Dict String ScoreMap := .ofList [
  ("2024-01-01", .ofList [("A", 2), ("B", 1)]), ("2024-01-02", .ofList [("A", 2), ("B", 1)])]

/-- The closes of two tickers, given those of the second. -/
def closesWith (bars : CloseHistory) : Dict String CloseHistory := .ofList [
  ("A", [("2024-01-01", 10), ("2024-01-02", 10), ("2024-01-03", 12)]), ("B", bars)]

theorem history_closesWith (bars bars' : CloseHistory) {ticker : String} (h : ticker ≠ "B") :
    history (closesWith bars) ticker = history (closesWith bars') ticker := by
  unfold history closesWith
  simp [Dict.ofList, h]

def listedBars : CloseHistory := [("2024-01-01", 10), ("2024-01-02", 20), ("2024-01-03", 20)]

/-- Another close after the entry fill. -/
def repricedBars : CloseHistory := [("2024-01-01", 10), ("2024-01-02", 20), ("2024-01-03", 99)]

/-- No close after the entry fill. -/
def delistedBars : CloseHistory := [("2024-01-01", 10), ("2024-01-02", 20)]

theorem throughFill_closesWith {bars bars' : CloseHistory} {day : String}
    (h : throughFill (history (closesWith bars) "B") day =
      throughFill (history (closesWith bars') "B") day) (ticker : String) :
    throughFill (history (closesWith bars) ticker) day =
      throughFill (history (closesWith bars') ticker) day := by
  by_cases hticker : ticker = "B"
  · rw [hticker, h]
  · rw [history_closesWith bars bars' hticker]

theorem holdings_of_fills_repriced : ∃ result result',
    runWalkforward id twoScores (closesWith listedBars) 2 0 (1 / 2) = .ok result ∧
    runWalkforward id twoScores (closesWith repricedBars) 2 0 (1 / 2) = .ok result' ∧
    holdingsAt result.legs "2024-01-01" = holdingsAt result'.legs "2024-01-01" := by
  have hvalid : validateSettings 2 0 (1 / 2) = .ok () := by decide +kernel
  exact ⟨_, _, runWalkforward_of_valid hvalid, runWalkforward_of_valid hvalid,
    holdings_of_fills (runWalkforward_of_valid hvalid) (runWalkforward_of_valid hvalid) rfl
      (throughFill_closesWith (by decide +kernel)) (by decide +kernel)⟩

/-- The holdings that a run selects at a date, none when it raises. -/
def selectedAt (r : Except HandlerError BacktestResult) (day : String) : List String :=
  match r with
  | .ok result => holdingsAt result.legs day
  | .error _ => []

theorem exit_close_decides_holdings :
    (∀ ticker, throughFill (history (closesWith listedBars) ticker) "2024-01-01" =
      throughFill (history (closesWith delistedBars) ticker) "2024-01-01") ∧
    selectedAt (runWalkforward id twoScores (closesWith listedBars) 2 0 (1 / 2)) "2024-01-01" =
      ["A", "B"] ∧
    selectedAt (runWalkforward id twoScores (closesWith delistedBars) 2 0 (1 / 2)) "2024-01-01" =
      ["A"] :=
  ⟨throughFill_closesWith (by decide +kernel), by decide +kernel, by decide +kernel⟩

end TradingAgents.Researcher
