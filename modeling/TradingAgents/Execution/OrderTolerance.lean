import Mathlib.Algebra.Order.Ring.Rat
import TradingAgents.Contracts.Documents

/-! The price tolerance of an order: the bounded limit price, flat or scaled by the volatility at
the decision, with the counterfactual that the Fill records beside it.  Decimal amounts are
exact. -/

namespace TradingAgents.Execution

open Kernel ProofKit

inductive Side where
  | buy
  | sell
deriving DecidableEq, Repr

def Side.value : Side → String
  | buy => "buy"
  | sell => "sell"

/-- A number rounded to an integer, ties away from zero. -/
def roundHalfUp (q : ℚ) : Int :=
  if 0 ≤ q then (q + 1 / 2).floor else -(-q + 1 / 2).floor

/-- An amount in integer cents. -/
def moneyToCents (m : Money) : Int := roundHalfUp (m.amount * 100)

inductive OrderPriceToleranceMode where
  | flat
  | scaled
deriving DecidableEq, Repr

def OrderPriceToleranceMode.value : OrderPriceToleranceMode → String
  | flat => "flat"
  | scaled => "scaled"

/-- The settings of the order tolerance. -/
structure OrderToleranceConfig where
  mode : OrderPriceToleranceMode := .flat
  flatBps : Int := 50
  scaledAtrMultiplier : ℚ := 1 / 2
  scaledFloorBps : Int := 25
  scaledCeilingBps : Int := 250

/-- The tolerance that was applied to an order, and the one that was not. -/
structure OrderToleranceEvidence where
  mode : OrderPriceToleranceMode
  counterfactualMode : OrderPriceToleranceMode
  decidedPrice : Money
  appliedToleranceBps : Int
  appliedLimitPrice : Money
  counterfactualToleranceBps : Int
  counterfactualLimitPrice : Money
  flatToleranceBps : Int
  flatLimitPrice : Money
  scaledToleranceBps : Int
  scaledLimitPrice : Money
  decisionAtrPct : Option ℚ
  volatilityPresent : Bool
  volatilityFallback : Bool
deriving DecidableEq

def usableAtrPct (atrPct : Option ℚ) : Option ℚ := atrPct.filter fun pct => decide (0 ≤ pct)

/-- The volatility-scaled tolerance; the flat one where there is no usable volatility. -/
def scaledToleranceBps (atrPct : Option ℚ) (config : OrderToleranceConfig) : Int :=
  match usableAtrPct atrPct with
  | none => config.flatBps
  | some pct =>
    min config.scaledCeilingBps
      (max config.scaledFloorBps (roundHalfUp (pct * 100 * config.scaledAtrMultiplier)))

/-- The cent-rounded limit price that a tolerance allows. -/
def boundedLimitPrice (decisionPrice : Money) (side : Side) (toleranceBps : Int) : ℚ :=
  let tolerance : ℚ := toleranceBps / 10000
  let multiplier := match side with
    | .buy => 1 + tolerance
    | .sell => max 0 (1 - tolerance)
  roundHalfUp (decisionPrice.amount * multiplier * 100) / 100

def limitPrice (decisionPrice : Money) (side : Side) (toleranceBps : Int) : Money :=
  ⟨boundedLimitPrice decisionPrice side toleranceBps, decisionPrice.currency⟩

/-- The applied and the counterfactual tolerance of one intent. -/
def resolveOrderTolerance (intent : OrderIntent) (side : Side) (config : OrderToleranceConfig) :
    OrderToleranceEvidence :=
  let flat := config.flatBps
  let scaled := scaledToleranceBps intent.decisionAtrPct config
  let (applied, counter, counterMode) : Int × Int × OrderPriceToleranceMode :=
    match config.mode with
    | .scaled => (scaled, flat, .flat)
    | .flat => (flat, scaled, .scaled)
  { mode := config.mode
    counterfactualMode := counterMode
    decidedPrice := intent.estPrice
    appliedToleranceBps := applied
    appliedLimitPrice := limitPrice intent.estPrice side applied
    counterfactualToleranceBps := counter
    counterfactualLimitPrice := limitPrice intent.estPrice side counter
    flatToleranceBps := flat
    flatLimitPrice := limitPrice intent.estPrice side flat
    scaledToleranceBps := scaled
    scaledLimitPrice := limitPrice intent.estPrice side scaled
    decisionAtrPct := usableAtrPct intent.decisionAtrPct
    volatilityPresent := (usableAtrPct intent.decisionAtrPct).isSome
    volatilityFallback := (usableAtrPct intent.decisionAtrPct).isNone }

def moneyProps (pre : String) (m : Money) : List (String × Value Document) :=
  [(pre ++ "_cents", .int (moneyToCents m)), (pre ++ "_currency", .str m.currency)]

/-- The tolerance of an order as properties of its Fill. -/
def orderToleranceProps : Option OrderToleranceEvidence → List (String × Value Document)
  | none => []
  | some e =>
    [("order_tolerance_mode", .str e.mode.value),
      ("order_counterfactual_mode", .str e.counterfactualMode.value)] ++
    moneyProps "order_decided_price" e.decidedPrice ++
    [("order_applied_tolerance_bps", .int e.appliedToleranceBps)] ++
    moneyProps "order_applied_limit_price" e.appliedLimitPrice ++
    [("order_counterfactual_tolerance_bps", .int e.counterfactualToleranceBps)] ++
    moneyProps "order_counterfactual_limit_price" e.counterfactualLimitPrice ++
    [("order_flat_tolerance_bps", .int e.flatToleranceBps)] ++
    moneyProps "order_flat_limit_price" e.flatLimitPrice ++
    [("order_scaled_tolerance_bps", .int e.scaledToleranceBps)] ++
    moneyProps "order_scaled_limit_price" e.scaledLimitPrice ++
    (e.decisionAtrPct.map fun pct => ("order_decision_atr_pct", Value.num pct)).toList ++
    [("order_volatility_present", .bool e.volatilityPresent),
      ("order_volatility_fallback", .bool e.volatilityFallback)]

def orderToleranceNames : List String :=
  ["order_tolerance_mode", "order_counterfactual_mode", "order_decided_price_cents",
    "order_decided_price_currency", "order_applied_tolerance_bps",
    "order_applied_limit_price_cents", "order_applied_limit_price_currency",
    "order_counterfactual_tolerance_bps", "order_counterfactual_limit_price_cents",
    "order_counterfactual_limit_price_currency", "order_flat_tolerance_bps",
    "order_flat_limit_price_cents", "order_flat_limit_price_currency",
    "order_scaled_tolerance_bps", "order_scaled_limit_price_cents",
    "order_scaled_limit_price_currency", "order_decision_atr_pct", "order_volatility_present",
    "order_volatility_fallback"]

theorem orderToleranceProps_names (e : Option OrderToleranceEvidence) :
    ∀ p ∈ orderToleranceProps e, p.1 ∈ orderToleranceNames := by
  cases e with
  | none => simp [orderToleranceProps]
  | some e =>
    intro p hp
    have hmem : p.1 ∈ (orderToleranceProps (some e)).map Prod.fst := List.mem_map_of_mem hp
    cases hatr : e.decisionAtrPct with
    | none =>
      have hnames : (orderToleranceProps (some e)).map Prod.fst =
          orderToleranceNames.erase "order_decision_atr_pct" := by
        rw [orderToleranceProps, hatr]
        rfl
      exact List.mem_of_mem_erase (hnames ▸ hmem)
    | some pct =>
      have hnames : (orderToleranceProps (some e)).map Prod.fst = orderToleranceNames := by
        rw [orderToleranceProps, hatr]
        rfl
      exact hnames ▸ hmem

end TradingAgents.Execution
