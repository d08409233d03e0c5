import Mathlib
import TradingAgents.Execution.Orders

/-! The paper broker: it fills an order at once at a deterministic price, rests it outside the price
tolerance, and answers an order it knows with that order's first outcome. -/

namespace TradingAgents.Execution

open Kernel ProofKit

structure PaperBroker where
  slippageBps : Int := 0
  orderPriceToleranceBps : Int := 0
  rejectTickers : List String := []
  fills : Dict String BrokerFill := .empty
  cancelled : List String := []

/-- The deterministic execution price, in cents. -/
def paperPrice (limitPrice : Money) (side : Side) (slippageBps : Int) : Money :=
  let adjustment : ℚ := slippageBps / 10000
  let multiplier := match side with
    | .buy => 1 + adjustment
    | .sell => max 0 (1 - adjustment)
  ⟨roundHalfUp (limitPrice.amount * multiplier * 100) / 100, limitPrice.currency⟩

/-- Whether the execution price is inside the order's band. -/
def withinTolerance (reference executionPrice : Money) (side : Side) (toleranceBps : Int) : Bool :=
  let tolerance : ℚ := toleranceBps / 10000
  match side with
  | .buy => decide (executionPrice.amount ≤ reference.amount * (1 + tolerance))
  | .sell => decide (reference.amount * max 0 (1 - tolerance) ≤ executionPrice.amount)

/-- A duplicate submission's first outcome; a rejection is raised again. -/
def replayOrder (fill : BrokerFill) : BrokerReply :=
  if fill.status = .rejected then .rejectedError fill else .filled fill

namespace PaperBroker

/-- The order of a first submission, as the broker keeps it. -/
def firstOutcome (b : PaperBroker) (idempotencyKey ticker : String) (side : Side) (quantity : Nat)
    (limitPrice : Money) (toleranceBps : Option Int) : BrokerFill :=
  let order (price : Money) (status : FillStatus) (reason : Option String) : BrokerFill :=
    { idempotencyKey, ticker, side, quantity, price, status, reason,
      brokerOrderId := "paper:" ++ idempotencyKey
      orderType := some "limit"
      timeInForce := some "day" }
  if ticker ∈ b.rejectTickers then order limitPrice .rejected (some "paper_broker_rejected")
  else
    let price := paperPrice limitPrice side b.slippageBps
    if withinTolerance limitPrice price side (toleranceBps.getD b.orderPriceToleranceBps) then
      order price .filled none
    else order limitPrice .pending (some "outside_order_price_tolerance")

/-- Fill at once at the paper price, or return a replay. -/
def submit (b : PaperBroker) (idempotencyKey ticker : String) (side : Side) (quantity : Nat)
    (limitPrice : Money) (toleranceBps : Option Int) : PaperBroker × BrokerReply :=
  match b.fills.get? idempotencyKey with
  | some current => (b, replayOrder current)
  | none =>
    let fill := b.firstOutcome idempotencyKey ticker side quantity limitPrice toleranceBps
    ({ b with fills := b.fills.set idempotencyKey fill }, replayOrder fill)

/-- Cancel the open orders of a broker order id. -/
def cancel (b : PaperBroker) (brokerOrderId : String) : PaperBroker :=
  { b with
    cancelled := if brokerOrderId ∈ b.cancelled then b.cancelled else b.cancelled ++ [brokerOrderId]
    fills := b.fills.mapValues fun fill =>
      if fill.brokerOrderId = brokerOrderId ∧ fill.status = .pending then
        { fill with status := .rejected, reason := some "canceled" }
      else fill }

/-- The other broker keeps every order of this one, whatever became of it. -/
def Keeps (b b' : PaperBroker) : Prop :=
  ∀ key, (b.fills.get? key).isSome = true → (b'.fills.get? key).isSome = true

section Submit

variable {b : PaperBroker} {key ticker : String} {side : Side} {quantity : Nat} {price : Money}
  {toleranceBps : Option Int}

theorem firstOutcome_of (b : PaperBroker) (key ticker : String) (side : Side) (quantity : Nat)
    (price : Money) (toleranceBps : Option Int) :
    (b.firstOutcome key ticker side quantity price toleranceBps).ticker = ticker ∧
      (b.firstOutcome key ticker side quantity price toleranceBps).side = side := by
  unfold firstOutcome
  simp only
  split
  · exact ⟨rfl, rfl⟩
  · split <;> exact ⟨rfl, rfl⟩

/-- A known order is replayed. -/
theorem submit_known {current : BrokerFill} (h : b.fills.get? key = some current) :
    b.submit key ticker side quantity price toleranceBps = (b, replayOrder current) := by
  rw [submit, h]

/-- An unknown order is a new one. -/
theorem submit_unknown (h : b.fills.get? key = none) :
    (b.submit key ticker side quantity price toleranceBps).1.fills =
      b.fills.set key (b.firstOutcome key ticker side quantity price toleranceBps) := by
  rw [submit, h]

theorem submit_keeps : b.Keeps (b.submit key ticker side quantity price toleranceBps).1 := by
  intro k hk
  cases h : b.fills.get? key with
  | some current => rwa [submit_known h]
  | none =>
    rw [submit_unknown h, Dict.get?_set]
    split
    · rfl
    · exact hk

theorem cancel_keeps (b : PaperBroker) (brokerOrderId : String) :
    b.Keeps (b.cancel brokerOrderId) := by
  intro k hk
  rwa [cancel, Dict.get?_mapValues, Option.isSome_map]

end Submit

end PaperBroker

end TradingAgents.Execution
