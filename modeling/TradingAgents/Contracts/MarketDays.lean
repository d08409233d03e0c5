import Mathlib
import TradingAgents.ProofKit.DayWindows

/-! The daily bar that the agents exchange, and the trading sessions of the exchange.  A date is its
ordinal. -/

namespace TradingAgents

open ProofKit

/-- One daily bar over a carrier of prices, each of which is admitted. -/
structure BarOf (price : Type) (Admits : price → Prop) where
  ticker : String
  barDate : ℤ
  openPrice : price
  high : price
  low : price
  close : price
  volume : ℕ
  open_admitted : Admits openPrice
  high_admitted : Admits high
  low_admitted : Admits low
  close_admitted : Admits close
deriving DecidableEq

/-- The bar of the contract: its prices are positive. -/
abbrev OHLCVBar := BarOf ℚ (0 < ·)

/-- The day of the week of a date, Monday first. -/
def weekday (day : ℤ) : ℤ := (day + 6) % 7

/-- Full-day closures of the exchange. -/
abbrev Holidays := List ℤ

def isTradingSession (holidays : Holidays) (day : ℤ) : Bool :=
  decide (weekday day < 5) && decide (day ∉ holidays)

/-- A calendar of trading sessions, which may have a first day. -/
structure SessionCalendar where
  isTradingSession : ℤ → Bool
  firstDay : Option ℤ := none

namespace SessionCalendar

def hasDay (cal : SessionCalendar) (day : ℤ) : Bool :=
  cal.firstDay.all fun first => decide (first ≤ day)

/-- The number of trading sessions after one day and up to another. -/
def tradingSessionsBetween (cal : SessionCalendar) (after through : ℤ) : ℕ :=
  countBetween cal.isTradingSession after through

/-- The calendar of the exchange, on the days that `date` has. -/
def ofHolidays (holidays : Holidays) : SessionCalendar where
  isTradingSession := TradingAgents.isTradingSession holidays
  firstDay := some 1

end SessionCalendar

end TradingAgents
