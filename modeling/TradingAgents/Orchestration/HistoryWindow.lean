import TradingAgents.Orchestration.ScheduledDispatch
import TradingAgents.ProofKit.DayWindows
import TradingAgents.Provider.RunIngest

/-! The history window of a run request: the dispatcher turns the sessions that the analyst's
indicators need into calendar days, and the provider counts the sessions of those days again before
it fetches anything.  Days are ordinals, and a calendar may or may not have a first day; that of
`date` has, and a step before it raises. -/

namespace TradingAgents.Orchestration

open Kernel ProofKit Provider

/-! ### The dispatcher -/

/-- The analyst's settings that declare a history. -/
structure AnalystSettings where
  lookbackDays : Nat := 260
  rsiPeriod : Nat := 14
  macdSlow : Nat := 26
  macdSignal : Nat := 9
  bollingerWindow : Nat := 20
  smaLongPeriod : Nat := 200
  emaLongPeriod : Nat := 50

/-- One scored indicator and the bars that it needs. -/
structure IndicatorRequirement where
  metricName : String
  label : String
  requiredBars : Nat

def momentumIndicatorRequirements (settings : AnalystSettings) : List IndicatorRequirement := [
  ⟨"rsi", "RSI", settings.rsiPeriod + 1⟩,
  ⟨"macd_histogram", "MACD", settings.macdSlow + settings.macdSignal⟩,
  ⟨"bollinger_position", "Bollinger", settings.bollingerWindow⟩,
  ⟨"sma_distance_pct", "SMA-200 distance", settings.smaLongPeriod⟩,
  ⟨"ema_spread_pct", "EMA crossover", settings.emaLongPeriod⟩]

/-- The largest number of bars that an indicator needs. -/
def AnalystSettings.requiredHistoryBars (settings : AnalystSettings) : Nat :=
  ((momentumIndicatorRequirements settings).map IndicatorRequirement.requiredBars).foldl max 0

/-- The walk back from `start`, with the sessions met so far; nothing when the fuel ends first. -/
def walkBack (cal : SessionCalendar) (requiredBars : ℤ) :
    Nat → ℤ → Nat → Option (Except HandlerError ℤ)
  | 0, _, _ => none
  | fuel + 1, start, sessions =>
    if (sessions : ℤ) < requiredBars then
      let sessions := sessions + if cal.isTradingSession start then 1 else 0
      if (sessions : ℤ) < requiredBars then
        match dayOf cal (start - 1) with
        | .ok start => walkBack cal requiredBars fuel start sessions
        | .error e => some (.error e)
      else walkBack cal requiredBars fuel start sessions
    else some (.ok start)

/-- The calendar days back from a day that hold this many sessions. -/
def calendarDaysForSessions (cal : SessionCalendar) (fuel : Nat) (requiredBars asOf : ℤ) :
    Option (Except HandlerError ℤ) :=
  if requiredBars < 1 then some (.error (.validation "required_bars must be positive"))
  else (walkBack cal requiredBars fuel asOf 0).map fun r => r.map fun start => max 1 (asOf - start)

/-- The calendar days that cover the largest declared indicator history. -/
def declaredLookbackDays (cal : SessionCalendar) (fuel : Nat) (settings : AnalystSettings)
    (asOf : ℤ) (stalenessBufferSessions : Nat) : Option (Except HandlerError ℤ) :=
  (calendarDaysForSessions cal fuel (settings.requiredHistoryBars + stalenessBufferSessions)
    asOf).map fun r => r.map fun days => max (settings.lookbackDays : ℤ) days

/-- What a trigger of a run has beside its arguments. -/
structure StartSettings where
  analyst : AnalystSettings
  maxStalenessDays : Nat
  benchmarkTicker : String

namespace Start

/-- The lookback that is given, or the declared one. -/
def activeLookback (cal : SessionCalendar) (fuel : Nat) (settings : StartSettings) (asOf : Day)
    (lookbackDays : Option ℤ) : Option (Except HandlerError ℤ) :=
  match lookbackDays.filter (· ≠ 0) with
  | some days => some (.ok days)
  | none => declaredLookbackDays cal fuel settings.analyst asOf.toOrdinal settings.maxStalenessDays

/-- Write the run request that triggers a run. -/
def placeRunRequest (cal : SessionCalendar) (fuel : Nat) (settings : StartSettings)
    (g : PipelineGraph) (runId : String) (tickers : List String) (asOf : Day)
    (lookbackDays : Option ℤ) : Option (Except HandlerError (PipelineGraph × PipelineNode)) :=
  (activeLookback cal fuel settings asOf lookbackDays).map fun r => do
    let days ← r
    liftGraph (g.mergeNode runRequestLabel (runRequestKey runId) (requestProps runId tickers asOf
      ⟨days, settings.analyst.requiredHistoryBars, settings.benchmarkTicker⟩))

end Start

/-! ### The walk -/

section Walk

variable {cal : SessionCalendar} {required asOf : ℤ} {days : Nat}

/-- The shortest window back from a day that holds the sessions. -/
def Shortest (cal : SessionCalendar) (required asOf : ℤ) (days : Nat) : Prop :=
  IsLeast {d : Nat | required ≤ countBack cal.isTradingSession asOf d} days

/-- Before its test at the `k`th day back, the walk has counted the days after it, and has found too
few. -/
theorem walkBack_from (hshortest : Shortest cal required asOf days)
    (hdays : ∀ k ≤ days, cal.hasDay (asOf - k) = true) {left : Nat} :
    ∀ {k : Nat}, k + left = days →
      (countBetween cal.isTradingSession (asOf - k) asOf : ℤ) < required →
      ∀ fuel ≥ left + 2, walkBack cal required fuel (asOf - k)
        (countBetween cal.isTradingSession (asOf - k) asOf) = some (.ok (asOf - days)) := by
  induction left with
  | zero =>
    intro k hk hfew fuel hfuel
    obtain ⟨fuel, rfl⟩ : ∃ f, fuel = f + 2 := ⟨fuel - 2, by omega⟩
    obtain rfl : k = days := by omega
    have hmet : required ≤ countBack cal.isTradingSession asOf k := hshortest.1
    rw [countBack, countBetween_pred (by omega)] at hmet
    rw [walkBack, if_pos hfew]
    simp only
    rw [if_neg (by omega), walkBack, if_neg (by omega)]
  | succ left ih =>
    intro k hk hfew fuel hfuel
    obtain ⟨fuel, rfl⟩ : ∃ f, fuel = f + 1 := ⟨fuel - 1, by omega⟩
    have hunmet : ¬ required ≤ countBack cal.isTradingSession asOf k := fun hle => by
      have := hshortest.2 hle
      omega
    have hnext : asOf - (k : ℤ) - 1 = asOf - ((k + 1 : Nat) : ℤ) := by
      push_cast
      ring
    rw [countBack, countBetween_pred (by omega)] at hunmet
    rw [walkBack, if_pos hfew]
    simp only
    rw [if_pos (by omega), ← countBetween_pred (by omega), hnext, dayOf,
      if_pos (hdays (k + 1) (by omega))]
    refine ih (by omega) ?_ fuel (by omega)
    rw [← hnext, countBetween_pred (by omega)]
    omega

/-- The window of the walk is the shortest one, if the walk stays on days. -/
theorem calendarDaysForSessions_eq (hrequired : 1 ≤ required)
    (hshortest : Shortest cal required asOf days)
    (hdays : ∀ k ≤ days, cal.hasDay (asOf - k) = true) {fuel : Nat} (hfuel : days + 2 ≤ fuel) :
    calendarDaysForSessions cal fuel required asOf = some (.ok (max 1 days)) := by
  have hwalk := walkBack_from hshortest hdays (k := 0) (Nat.zero_add days)
    (by rw [Nat.cast_zero, sub_zero, countBetween_self]; omega) fuel hfuel
  rw [Nat.cast_zero, sub_zero, countBetween_self] at hwalk
  rw [calendarDaysForSessions, if_neg (by omega), hwalk]
  simp only [Option.map_some, Except.map, sub_sub_cancel]

/-- No shorter positive window holds the sessions. -/
theorem Shortest.isLeast (h : Shortest cal required asOf days) :
    IsLeast {d : Nat | 1 ≤ d ∧ required ≤ countBack cal.isTradingSession asOf d} (max 1 days) := by
  refine ⟨⟨le_max_left 1 days, ?_⟩, fun d ⟨hpos, hmet⟩ => max_le hpos (h.2 hmet)⟩
  have hmono := countBack_mono cal.isTradingSession asOf (le_max_right 1 days)
  have hmet : required ≤ countBack cal.isTradingSession asOf days := h.1
  omega

theorem exists_shortest (h : ∃ d : Nat, required ≤ countBack cal.isTradingSession asOf d) :
    ∃ days, Shortest cal required asOf days := by
  classical
  exact ⟨Nat.find h, Nat.find_spec h, fun d hd => Nat.find_min' h hd⟩

end Walk

/-! ### Coverage -/

section Coverage

variable {cal : SessionCalendar} {settings : StartSettings} {asOf : Day} {days : Nat}

theorem AnalystSettings.one_le_requiredHistoryBars (settings : AnalystSettings) :
    1 ≤ settings.requiredHistoryBars := by
  simp only [AnalystSettings.requiredHistoryBars, momentumIndicatorRequirements, List.map_cons,
    List.map_nil, List.foldl_cons, List.foldl_nil, Nat.zero_max]
  omega

/-- The sessions that the declared window of a run must hold. -/
def StartSettings.windowSessions (settings : StartSettings) : ℤ :=
  settings.analyst.requiredHistoryBars + settings.maxStalenessDays

/-- The lookback that is declared when the shortest window has this many days. -/
def StartSettings.lookback (settings : StartSettings) (days : Nat) : Nat :=
  max settings.analyst.lookbackDays (max 1 days)

/-- The days up to the one before the window are days of the calendar. -/
def OnCalendar (cal : SessionCalendar) (settings : StartSettings) (asOf : ℤ) (days : Nat) : Prop :=
  ∀ k ≤ settings.lookback days + 1, cal.hasDay (asOf - k) = true

theorem Start.activeLookback_eq
    (hshortest : Shortest cal settings.windowSessions asOf.toOrdinal days)
    (hon : OnCalendar cal settings asOf.toOrdinal days) {fuel : Nat} (hfuel : days + 2 ≤ fuel) :
    Start.activeLookback cal fuel settings asOf none = some (.ok (settings.lookback days)) := by
  have hbars := settings.analyst.one_le_requiredHistoryBars
  have hdays := calendarDaysForSessions_eq
    (by unfold StartSettings.windowSessions; omega) hshortest
    (fun k hk => hon k (by unfold StartSettings.lookback; omega)) hfuel
  rw [StartSettings.windowSessions] at hdays
  simp only [Start.activeLookback, Option.filter_none, declaredLookbackDays, hdays,
    Option.map_some, Except.map, StartSettings.lookback]
  push_cast
  rfl

/-- The provider counts in the declared window no fewer sessions than the run requires. -/
theorem coveredSessions_lookback
    (hshortest : Shortest cal settings.windowSessions asOf.toOrdinal days)
    (hon : OnCalendar cal settings asOf.toOrdinal days) :
    ∃ covered, coveredSessions cal (settings.lookback days) asOf.toOrdinal = .ok covered ∧
      settings.analyst.requiredHistoryBars ≤ covered := by
  have hstart := hon (settings.lookback days) (Nat.le_succ _)
  have hbefore := hon (settings.lookback days + 1) le_rfl
  rw [Nat.cast_add, Nat.cast_one, ← sub_sub] at hbefore
  refine ⟨countBack cal.isTradingSession asOf.toOrdinal (settings.lookback days), ?_, ?_⟩
  · simp only [coveredSessions, dayOf, hstart, hbefore, if_true,
      Fallible.ok_bind]
    rfl
  · have hmono := countBack_mono cal.isTradingSession asOf.toOrdinal
      (show days ≤ settings.lookback days by unfold StartSettings.lookback; omega)
    have hmet : settings.windowSessions ≤ _ := hshortest.1
    unfold StartSettings.windowSessions at hmet
    omega

/-- What the provider makes of a node that says what a request for the window says. -/
theorem declaredHistory_eq (hshortest : Shortest cal settings.windowSessions asOf.toOrdinal days)
    (hon : OnCalendar cal settings asOf.toOrdinal days) {n : PipelineNode}
    (hlookback : n.get "lookback_days" = .int (settings.lookback days))
    (hrequired : n.get "required_history_bars" = .int settings.analyst.requiredHistoryBars)
    (hasOf : n.get "requested_at" = .str asOf.isoformat) (today : Day) :
    declaredHistory cal today n =
      if today.toOrdinal < asOf.toOrdinal then
        .error (.validation "RunRequest.requested_at is after today")
      else .ok (settings.lookback days, asOf) := by
  obtain ⟨covered, hcovered, hbars⟩ := coveredSessions_lookback hshortest hon
  have hpos := settings.analyst.one_le_requiredHistoryBars
  have hday : asOfDay today n = if today.toOrdinal < asOf.toOrdinal then
      .error (.validation "RunRequest.requested_at is after today") else .ok asOf := by
    simp only [asOfDay, hasOf, Value.str?, Option.bind_some, fromIsoformat_isoformat, ne_eq,
      not_true_eq_false, if_false]
  have hwindow : ¬ ((settings.lookback days : ℤ) < 1 ∨
      (settings.analyst.requiredHistoryBars : ℤ) < 1) := by
    unfold StartSettings.lookback
    omega
  simp only [declaredHistory, requiredHistoryBars, hlookback, hrequired, wholeNumber?,
    if_neg hwindow, hday]
  split
  · rfl
  · rw [Fallible.ok_bind, hcovered, Fallible.ok_bind, if_neg (by omega)]
    rfl

/-- The request that a trigger writes is one for the shortest window, and the provider accepts it as
soon as its day has come. -/
theorem Start.placed_request_accepted
    (hshortest : Shortest cal settings.windowSessions asOf.toOrdinal days)
    (hon : OnCalendar cal settings asOf.toOrdinal days) {fuel : Nat} (hfuel : days + 2 ≤ fuel)
    (g : PipelineGraph) (runId : String) (tickers : List String) :
    Start.placeRunRequest cal fuel settings g runId tickers asOf none =
        some (liftGraph (g.mergeNode runRequestLabel (runRequestKey runId)
          (requestProps runId tickers asOf ⟨settings.lookback days,
            settings.analyst.requiredHistoryBars, settings.benchmarkTicker⟩))) ∧
      ∀ g' n, Start.placeRunRequest cal fuel settings g runId tickers asOf none =
          some (.ok (g', n)) → ∀ today, declaredHistory cal today n =
        if today.toOrdinal < asOf.toOrdinal then
          .error (.validation "RunRequest.requested_at is after today")
        else .ok (settings.lookback days, asOf) := by
  have hplaced : Start.placeRunRequest cal fuel settings g runId tickers asOf none =
      some (liftGraph (g.mergeNode runRequestLabel (runRequestKey runId)
        (requestProps runId tickers asOf ⟨settings.lookback days,
          settings.analyst.requiredHistoryBars, settings.benchmarkTicker⟩))) := by
    simp only [Start.placeRunRequest, Start.activeLookback_eq hshortest hon hfuel, Option.map_some,
      Fallible.ok_bind]
  refine ⟨hplaced, fun g' n hok today => ?_⟩
  rw [hplaced, Option.some.injEq, liftGraph_eq_ok] at hok
  have hget := Graph.mergeNode_get? hok
  refine declaredHistory_eq hshortest hon ?_ ?_ ?_ today <;>
  · rw [Node.get, Props.get, hget]
    rfl

end Coverage

/-- On a calendar whose sessions have no first, the days for some sessions are the fewest whose
window holds them, and what a trigger writes without a lookback passes the provider's check. -/
theorem declared_window_covers {cal : SessionCalendar} (hfirst : cal.firstDay = none)
    (hearlier : ∀ day, ∃ earlier < day, cal.isTradingSession earlier = true) :
    (∀ required asOf : ℤ, 1 ≤ required → ∃ days : Nat,
      IsLeast {d : Nat | 1 ≤ d ∧ required ≤ cal.tradingSessionsBetween (asOf - d - 1) asOf} days ∧
        ∃ enough, ∀ fuel ≥ enough,
          calendarDaysForSessions cal fuel required asOf = some (.ok (days : ℤ))) ∧
    ∀ (settings : StartSettings) (asOf : Day), ∃ lookback : Nat, ∃ enough, ∀ fuel ≥ enough,
      ∀ (g : PipelineGraph) (runId : String) (tickers : List String),
        Start.placeRunRequest cal fuel settings g runId tickers asOf none =
            some (liftGraph (g.mergeNode runRequestLabel (runRequestKey runId)
              (requestProps runId tickers asOf ⟨lookback,
                settings.analyst.requiredHistoryBars, settings.benchmarkTicker⟩))) ∧
          ∀ g' n, Start.placeRunRequest cal fuel settings g runId tickers asOf none =
              some (.ok (g', n)) → ∀ today, declaredHistory cal today n =
            if today.toOrdinal < asOf.toOrdinal then
              .error (.validation "RunRequest.requested_at is after today")
            else .ok ((lookback : ℤ), asOf) := by
  have hday : ∀ day, cal.hasDay day = true := by
    intro day
    rw [SessionCalendar.hasDay, hfirst]
    rfl
  have hshortest : ∀ required asOf : ℤ, ∃ days, Shortest cal required asOf days := by
    intro required asOf
    obtain ⟨d, hd⟩ := exists_countBack hearlier asOf required.toNat
    exact exists_shortest ⟨d, by omega⟩
  constructor
  · intro required asOf hrequired
    obtain ⟨days, hdays⟩ := hshortest required asOf
    refine ⟨max 1 days, hdays.isLeast, days + 2, fun fuel hfuel => ?_⟩
    rw [calendarDaysForSessions_eq hrequired hdays (fun k _ => hday _) hfuel]
    push_cast
    rfl
  · intro settings asOf
    obtain ⟨days, hdays⟩ := hshortest settings.windowSessions asOf.toOrdinal
    exact ⟨settings.lookback days, days + 2, fun fuel hfuel g runId tickers =>
      Start.placed_request_accepted hdays (fun k _ => hday _) hfuel g runId tickers⟩

/-- The weekdays, less one Monday, with no first day. -/
def holidayMonday : SessionCalendar where
  isTradingSession day := decide ((day + 6) % 7 < 5 ∧ day ≠ 739621)

theorem exists_session_holidayMonday (day : ℤ) :
    ∃ earlier < day, holidayMonday.isTradingSession earlier = true := by
  have hmod := Int.emod_lt_of_pos (day - 1) (by decide : (0 : ℤ) < 7)
  have hnonneg := Int.emod_nonneg (day - 1) (by decide : (7 : ℤ) ≠ 0)
  -- the Tuesday to the Saturday before hold four sessions
  by_cases hearly : (day - 1 - (day - 1) % 7 - 5) = 739621
  · exact ⟨day - 1 - (day - 1) % 7 - 4, by omega, decide_eq_true (by omega)⟩
  · exact ⟨day - 1 - (day - 1) % 7 - 5, by omega, decide_eq_true (by omega)⟩

theorem declared_window_covers_holiday :
    let settings : StartSettings := ⟨{}, 5, "SPY"⟩
    let asOf := Day.ofFields 2026 1 8 (by decide)
    (∃ days, IsLeast {d : Nat | 1 ≤ d ∧
      (205 : ℤ) ≤ holidayMonday.tradingSessionsBetween (739624 - d - 1) 739624} days) ∧
    ∃ lookback enough, ∀ fuel ≥ enough,
      Start.placeRunRequest holidayMonday fuel settings .empty "run-1" ["NVDA"] asOf none =
        some (liftGraph (Graph.empty.mergeNode runRequestLabel (runRequestKey "run-1")
          (requestProps "run-1" ["NVDA"] asOf
            ⟨(lookback : Nat), settings.analyst.requiredHistoryBars, "SPY"⟩))) := by
  intro settings asOf
  obtain ⟨hleast, hplaced⟩ := @declared_window_covers holidayMonday rfl
    exists_session_holidayMonday
  obtain ⟨days, hdays, -⟩ := hleast 205 739624 (by decide)
  obtain ⟨lookback, enough, hrequest⟩ := hplaced settings asOf
  exact ⟨⟨days, hdays⟩, lookback, enough, fun fuel hfuel =>
    (hrequest fuel hfuel Graph.empty "run-1" ["NVDA"]).1⟩

/-- A Monday with the four sessions before it reaches back over a weekend. -/
example : calendarDaysForSessions (.ofHolidays []) 10 5 8 = some (.ok 6) := by decide +kernel

end TradingAgents.Orchestration
