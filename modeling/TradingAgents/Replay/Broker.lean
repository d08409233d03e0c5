import Mathlib
import TradingAgents.Execution.StopWrites

/-! The broker of the historical replay: a DAY limit order, a protective stop and a take-profit
against one bar, and the rebase of a held position.  Dates are ordinals, prices are cents, and the
prices of a bar row and the ratios between them are exact. -/

namespace TradingAgents.Replay

open Execution

/-- A day by its ordinal. -/
abbrev Date := Int

/-- One cached bar of a line. -/
structure BarRow where
  line : String
  date : Date
  openPrice : ℚ
  high : ℚ
  low : ℚ
  close : ℚ
  volume : Int := 0
deriving DecidableEq

structure ReplayBar where
  line : String
  date : Date
  openCents : Int
  highCents : Int
  lowCents : Int
  closeCents : Int
  volume : Int
deriving DecidableEq

structure PendingOrder where
  line : String
  side : Side
  quantity : Nat
  limitCents : Int
  targetSession : Date
  stopPct : ℚ := 0
  targetPct : Option ℚ := none
  reason : String := "limit"
deriving DecidableEq

structure ReplayFill where
  date : Date
  line : String
  side : Side
  quantity : Nat
  priceCents : Int
  reason : String
deriving DecidableEq

structure ReplayPosition where
  line : String
  quantity : Nat
  entryPriceCents : Int
  stopPriceCents : Int
  opened : Date
  stopActiveFrom : Date
  positionRef : String := ""
  priceScale : ℚ := 1
  targetPriceCents : Option Int := none
  stopPct : ℚ := 0
deriving DecidableEq

def replayBar (row : BarRow) : ReplayBar where
  line := row.line
  date := row.date
  openCents := roundHalfEven (row.openPrice * 100)
  highCents := roundHalfEven (row.high * 100)
  lowCents := roundHalfEven (row.low * 100)
  closeCents := roundHalfEven (row.close * 100)
  volume := row.volume

def applySlippage (priceCents : Int) (side : Side) (slippageBps : Int) : Int :=
  let factor : ℚ := match side with
    | .buy => 1 + slippageBps / 10000
    | .sell => 1 - slippageBps / 10000
  roundHalfEven (priceCents * factor)

/-- The price at which a touched DAY limit trades before slippage. -/
def limitPrice? (order : PendingOrder) (bar : ReplayBar) : Option Int :=
  match order.side with
  | .buy => if order.limitCents < bar.lowCents then none
      else some (min bar.openCents order.limitCents)
  | .sell => if bar.highCents < order.limitCents then none
      else some (max bar.openCents order.limitCents)

/-- Fill a DAY limit only on its target session and only if touched. -/
def simulateLimitFill (order : PendingOrder) (bar : ReplayBar) (slippageBps : Int) :
    Option ReplayFill :=
  if bar.date ≠ order.targetSession then none
  else (limitPrice? order bar).map fun price =>
    ⟨bar.date, order.line, order.side, order.quantity, applySlippage price order.side slippageBps,
      order.reason⟩

def exitFill (position : ReplayPosition) (bar : ReplayBar) (priceCents : Int) (reason : String)
    (slippageBps : Int) : ReplayFill :=
  ⟨bar.date, position.line, .sell, position.quantity, applySlippage priceCents .sell slippageBps,
    reason⟩

/-- Whether a price has come to the take-profit, where the position carries one. -/
def reachesTarget (position : ReplayPosition) (cents : Int) : Bool :=
  match position.targetPriceCents with
  | none => false
  | some target => decide (target ≤ cents)

/-- Fill an active stop, or a take-profit when the position carries one.  An open at or above the
target comes first, then the stop, then a high at or above the target. -/
def simulateStopFill (position : ReplayPosition) (bar : ReplayBar) (slippageBps : Int) :
    Option ReplayFill :=
  if bar.date < position.stopActiveFrom then none
  else if reachesTarget position bar.openCents then
    some (exitFill position bar bar.openCents "target" slippageBps)
  else if bar.lowCents ≤ position.stopPriceCents then
    some (exitFill position bar (min bar.openCents position.stopPriceCents) "stop" slippageBps)
  else if reachesTarget position bar.highCents then
    position.targetPriceCents.map fun target => exitFill position bar target "target" slippageBps
  else none

/-- Rescale a held line's entry, stop and target for an adjustment-error day. -/
def applyAdjustmentRebase (position : ReplayPosition) (ratio : ℚ) : ReplayPosition :=
  if ratio ≤ 0 then position
  else { position with
    entryPriceCents := roundHalfEven (position.entryPriceCents * ratio)
    stopPriceCents := roundHalfEven (position.stopPriceCents * ratio)
    priceScale := position.priceScale / ratio
    targetPriceCents := position.targetPriceCents.map fun target =>
      roundHalfEven (target * ratio) }

/-- The take-profit price, rounded up to the cent; none without a target. -/
def targetPriceCents (entryCents : Int) (targetPct : Option ℚ) : Option Int :=
  targetPct.map fun pct => -(-entryCents * (10000 + roundHalfEven (pct * 10000)) / 10000)

/-- What the price of a bar is worth to a position that was rebased. -/
def positionPriceCents (position : ReplayPosition) (priceCents : Int) : Int :=
  roundHalfEven (priceCents * position.priceScale)

/-! ### What a fill repeats -/

theorem simulateLimitFill_eq_some {order : PendingOrder} {bar : ReplayBar} {slippageBps : Int}
    {fill : ReplayFill} (h : simulateLimitFill order bar slippageBps = some fill) :
    bar.date = order.targetSession ∧ fill.date = bar.date ∧ fill.line = order.line ∧
      fill.side = order.side ∧ fill.quantity = order.quantity := by
  unfold simulateLimitFill at h
  split at h
  · cases h
  · rename_i hdate
    obtain ⟨price, -, rfl⟩ := Option.map_eq_some_iff.mp h
    exact ⟨not_not.mp hdate, rfl, rfl, rfl, rfl⟩

theorem simulateStopFill_eq_some {position : ReplayPosition} {bar : ReplayBar} {slippageBps : Int}
    {fill : ReplayFill} (h : simulateStopFill position bar slippageBps = some fill) :
    ∃ priceCents reason, fill = exitFill position bar priceCents reason slippageBps := by
  unfold simulateStopFill at h
  split at h
  · cases h
  · split at h
    · exact ⟨_, _, (Option.some.inj h).symm⟩
    · split at h
      · exact ⟨_, _, (Option.some.inj h).symm⟩
      · split at h
        · obtain ⟨target, -, rfl⟩ := Option.map_eq_some_iff.mp h
          exact ⟨_, _, rfl⟩
        · cases h

@[simp] theorem applyAdjustmentRebase_line (position : ReplayPosition) (ratio : ℚ) :
    (applyAdjustmentRebase position ratio).line = position.line := by
  unfold applyAdjustmentRebase
  split <;> rfl

@[simp] theorem applyAdjustmentRebase_quantity (position : ReplayPosition) (ratio : ℚ) :
    (applyAdjustmentRebase position ratio).quantity = position.quantity := by
  unfold applyAdjustmentRebase
  split <;> rfl

@[simp] theorem applyAdjustmentRebase_positionRef (position : ReplayPosition) (ratio : ℚ) :
    (applyAdjustmentRebase position ratio).positionRef = position.positionRef := by
  unfold applyAdjustmentRebase
  split <;> rfl

end TradingAgents.Replay
