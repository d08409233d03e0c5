import TradingAgents.Execution.StopLevels
import TradingAgents.ProofKit.Moment
import TradingAgents.Provider.Integrity

/-! The provider's ingest of a RunRequest: the history that the request declares is checked before
anything is fetched, and a request that declares none is refused. -/

namespace TradingAgents.Provider

open Kernel ProofKit Execution StopWidth

/-- How Python renders a value and prepares a name. -/
structure NameReader where
  text : Value Document → String
  strip : String → String
  upper : String → String

/-- The integer of a value that is an instance of `int`; a truth value is one. -/
def wholeNumber? : Value Document → Option Int
  | .int n => some n
  | .bool b => some (if b then 1 else 0)
  | _ => none

def digit? (c : Char) : Option Nat := if c.isDigit then some (c.toNat - '0'.toNat) else none

/-- The number that decimal digits write. -/
def number? (cs : List Char) : Option Nat :=
  cs.foldlM (fun n c => (digit? c).map (10 * n + ·)) 0

/-- The day that a text of the form `YYYY-MM-DD` names. -/
def fromIsoformat (raw : String) : Option Day :=
  match raw.toList with
  | [y₁, y₂, y₃, y₄, '-', m₁, m₂, '-', d₁, d₂] => do
    let year ← number? [y₁, y₂, y₃, y₄]
    let month ← number? [m₁, m₂]
    let day ← number? [d₁, d₂]
    if hyear : 1 ≤ year ∧ year ≤ 9999 then
      if hmonth : 1 ≤ month ∧ month ≤ 12 then
        if hday : 1 ≤ day ∧ day ≤ daysInMonth year month then
          some ⟨year, month, day, hyear, hmonth, hday⟩
        else none
      else none
    else none
  | _ => none

/-- The as-of day of a request: the text that its writer writes for a day, not after today. -/
def asOfDay (today : Day) (n : PipelineNode) : Except HandlerError Day :=
  match (n.get "requested_at").str?.bind fromIsoformat with
  | none => .error (.validation "RunRequest.requested_at must be an ISO date (YYYY-MM-DD)")
  | some asOf =>
    if n.get "requested_at" ≠ .str asOf.isoformat then
      .error (.validation "RunRequest.requested_at must be an ISO date (YYYY-MM-DD)")
    else if today.toOrdinal < asOf.toOrdinal then
      .error (.validation "RunRequest.requested_at is after today")
    else .ok asOf

/-- The result of an arithmetic on days, which must be a day. -/
def dayOf (cal : SessionCalendar) (day : ℤ) : Except HandlerError ℤ :=
  if cal.hasDay day then .ok day else .error (.validation "date value out of range")

/-- The trading sessions of a window; each of its ends must be a day. -/
def coveredSessions (cal : SessionCalendar) (lookbackDays asOf : ℤ) : Except HandlerError Nat := do
  let start ← dayOf cal (asOf - lookbackDays)
  let before ← dayOf cal (start - 1)
  pure (cal.tradingSessionsBetween before asOf)

/-- The sessions that a request requires. -/
def requiredHistoryBars (n : PipelineNode) : Option Int :=
  wholeNumber? (n.get "required_history_bars")

/-- The lookback and the as-of day of a request, which cover the sessions that it requires. -/
def declaredHistory (cal : SessionCalendar) (today : Day) (n : PipelineNode) :
    Except HandlerError (Int × Day) :=
  match wholeNumber? (n.get "lookback_days"), requiredHistoryBars n with
  | some lookbackDays, some required =>
    if lookbackDays < 1 ∨ required < 1 then
      .error (.validation
        "RunRequest.lookback_days and required_history_bars must be positive integers")
    else do
      let asOf ← asOfDay today n
      let covered ← coveredSessions cal lookbackDays asOf.toOrdinal
      if (covered : Int) < required then
        .error (.validation "RunRequest.lookback_days does not cover required history")
      else pure (lookbackDays, asOf)
  | _, _ =>
    .error (.validation
      "RunRequest.lookback_days and required_history_bars must be positive integers")

/-- The benchmark that a run declared, if it named one. -/
def benchmarkTicker (r : NameReader) (n : PipelineNode) : Option String :=
  match n.get "benchmark_ticker" with
  | .str raw => if r.strip raw = "" then none else some (r.upper (r.strip raw))
  | _ => none

/-- The tickers of a request, which a list or a text holds. -/
def requestedTickers (r : NameReader) (n : PipelineNode) : Except HandlerError (List String) := do
  match ← n.require "tickers" with
  | .list xs => pure (xs.map r.text)
  | .str s => pure (s.toList.map String.singleton)
  | _ => .error (.validation "tickers")

/-- What the provider ingests for a request. -/
structure RunIngest where
  tickers : List String
  runId : String
  lookbackDays : Int
  benchmarkTicker : Option String
  asOf : Day
deriving DecidableEq

/-- The ingest of one RunRequest: its universe and the held tickers, over its window. -/
def ingestRunNode (r : NameReader) (p : Numerals) (digest : String → String) (holidays : Holidays)
    (today : Day) (g : PipelineGraph) (n : PipelineNode) : Except HandlerError RunIngest := do
  let history ← declaredHistory (.ofHolidays holidays) today n
  let tickers ← requestedTickers r n
  let held ← openPositions p digest g
  let runId ← n.require "run_id"
  pure {
    tickers := (tickers ++ held.map OpenPosition.ticker).eraseDups
    runId := r.text runId
    lookbackDays := history.1
    benchmarkTicker := benchmarkTicker r n
    asOf := history.2 }

theorem wholeNumber?_null : wholeNumber? .null = none := rfl

/-- A request without a lookback is refused. -/
theorem declaredHistory_of_null {cal : SessionCalendar} {today : Day} {n : PipelineNode}
    (h : n.get "lookback_days" = .null) : declaredHistory cal today n = .error (.validation
      "RunRequest.lookback_days and required_history_bars must be positive integers") := by
  unfold declaredHistory
  rw [h, wholeNumber?_null]

/-! ### The text of a day -/

theorem digit?_digitChar {n : Nat} (h : n < 10) : digit? (Nat.digitChar n) = some n := by
  have hall : ∀ n < 10, digit? (Nat.digitChar n) = some n := by decide
  exact hall n h

theorem number?_append (cs : List Char) (c : Char) :
    number? (cs ++ [c]) = (number? cs).bind fun n => (digit? c).map (10 * n + ·) := by
  unfold number?
  rw [List.foldlM_append]
  simp

/-- The digits of a number that fits are read back. -/
theorem number?_digits {w n : Nat} (h : n < 10 ^ w) : number? (digits w n) = some n := by
  induction w generalizing n with
  | zero =>
    obtain rfl : n = 0 := by omega
    rfl
  | succ w ih =>
    have hfit : n / 10 < 10 ^ w := by rw [pow_succ] at h; omega
    rw [digits, number?_append, ih hfit, Option.bind_some, digit?_digitChar (by omega),
      Option.map_some]
    congr 1
    omega

theorem digits_two (n : Nat) : digits 2 n =
    [Nat.digitChar (n / 10 % 10), Nat.digitChar (n % 10)] := rfl

theorem digits_four (n : Nat) : digits 4 n = [Nat.digitChar (n / 10 / 10 / 10 % 10),
    Nat.digitChar (n / 10 / 10 % 10), Nat.digitChar (n / 10 % 10), Nat.digitChar (n % 10)] := rfl

/-- The text of a day names that day. -/
theorem fromIsoformat_isoformat (d : Day) : fromIsoformat d.isoformat = some d := by
  have hyear : number? (digits 4 d.year) = some d.year :=
    number?_digits (by have := d.year_bound; omega)
  have hmonth : number? (digits 2 d.month) = some d.month :=
    number?_digits (by have := d.month_bound; omega)
  have hday : number? (digits 2 d.day) = some d.day := number?_digits d.day_lt
  rw [digits_four] at hyear
  rw [digits_two] at hmonth hday
  unfold fromIsoformat Day.isoformat
  rw [String.toList_ofList, digits_four, digits_two, digits_two]
  simp only [List.cons_append, List.nil_append, hyear, hmonth, hday, Option.bind_eq_bind,
    Option.bind_some, dif_pos d.year_bound, dif_pos d.month_bound, dif_pos d.day_bound]

end TradingAgents.Provider
