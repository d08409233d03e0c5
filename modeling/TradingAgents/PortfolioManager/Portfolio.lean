import Mathlib
import TradingAgents.Contracts.Documents
import TradingAgents.ProofKit.Dict

/-! What a portfolio evaluation reads: the recommendations, the held positions with the account, and
the risk policy.  A value that its contract bounds carries the bound.  An amount of money is exact.
-/

namespace TradingAgents.PortfolioManager

open ProofKit

/-- A float field between zero and one. -/
structure Fraction where
  value : ℚ
  nonneg : 0 ≤ value := by norm_num
  le_one : value ≤ 1 := by norm_num
deriving DecidableEq

/-- Upper case of a text.  A text in upper case stays as it is. -/
structure CaseMap where
  upper : String → String
  upper_upper : ∀ s, upper (upper s) = upper s

/-- `float(x)` of an exact number, and `Decimal(str(x))` of a float. -/
structure Numerals where
  toFloat : ℚ →o ℚ
  decimalOf : ℚ → ℚ

/-- The scored view of the analyst on one ticker. -/
structure Recommendation where
  ticker : String
  action : Action
  confidence : Fraction
  suggestedStopPct : Option Fraction := none
  suggestedTargetPct : Option Fraction := none
  quantMetrics : List (String × ℚ) := []
deriving DecidableEq

def atrMetricName : String := "atr_pct"

/-- The analyst's ATR percent metric, unchanged. -/
def decisionAtrPct (item : Recommendation) : Option ℚ :=
  (item.quantMetrics.find? fun m => decide (m.1 = atrMetricName)).map Prod.snd

/-- The three outcomes of a gate. -/
inductive GateStatus where
  | passed
  | failed
  | notEvaluated
deriving DecidableEq, Repr

/-- The outcome of one gate, and whether its detail names the deployment floor. -/
structure GateOutcome where
  name : String
  outcome : GateStatus
  belowFloor : Bool := false
deriving DecidableEq

/-- Passed if the test holds, else failed. -/
def GateOutcome.ofTest (name : String) (test : Bool) : GateOutcome :=
  ⟨name, if test then .passed else .failed, false⟩

/-- An approved order with the fields that only its report shows. -/
structure OrderIntent extends TradingAgents.OrderIntent where
  stopPct : Option Fraction := none
  targetPct : Option Fraction := none
  gateReport : List GateOutcome := []
deriving DecidableEq

/-- A rejection with the gates that were evaluated before it. -/
structure RejectedOrder extends TradingAgents.RejectedOrder where
  gateReport : List GateOutcome := []
deriving DecidableEq

/-- The cash an order commits at its estimated price. -/
def OrderIntent.cost (o : OrderIntent) : ℚ := o.quantity * o.estPrice.amount

/-- The validated settings of the agent that the evaluation reads. -/
structure Settings where
  maxPositionPct : ℚ := 1 / 10
  maxPositions : Nat := 10
  cashBufferPct : ℚ := 1 / 20
  minOrderQuantity : Nat := 1
  minRewardRiskRatio : ℚ := 0
  maxSectorPct : ℚ := 3 / 10
  maxNamesPerSector : Nat := 3
  correlationThreshold : ℚ := 1 / 2
  correlationCeiling : ℚ := 9 / 10
  maxCorrelatedClusterPct : Option ℚ := some (1 / 4)
  minCorrelationBars : Nat := 60
  minOrderQuantity_pos : 1 ≤ minOrderQuantity := by norm_num

inductive AccountStatus where
  | fresh
  | stale
deriving DecidableEq, Repr

/-- The account equity with the open positions; an amount of money is not negative. -/
structure PortfolioState where
  cash : Money
  positions : Dict String Int := .empty
  positionRefs : Dict String String := .empty
  positionValues : Dict String Money := .empty
  accountStatus : AccountStatus := .fresh
  positionValues_nonneg : ∀ p ∈ positionValues.entries, 0 ≤ p.2.amount := by decide

namespace PortfolioState

def equityValue (p : PortfolioState) : ℚ := p.cash.amount

/-- The value already deployed into open positions. -/
def deployedValue (p : PortfolioState) : ℚ :=
  (p.positionValues.entries.map fun item => item.2.amount).sum

def accountIsFresh (p : PortfolioState) : Bool := decide (p.accountStatus = .fresh)

/-- The equity that is neither held back, deployed nor reserved in this run. -/
def availableForBuys (p : PortfolioState) (cashBufferPct reservedCash : ℚ) : ℚ :=
  if p.accountIsFresh then
    p.equityValue * (1 - cashBufferPct) - (p.deployedValue + reservedCash)
  else 0

end PortfolioState

/-- What ends an evaluation: a field that its contract refuses, a missing key, an assertion, a whole
quotient beyond the decimal precision, or the float arithmetic of a correlation. -/
inductive EvaluationError where
  | validation (name : String)
  | keyError (name : String)
  | assertion
  | divisionImpossible
  | arithmetic
deriving DecidableEq, Repr

/-- The digits of a decimal quotient. -/
def decimalPrecision : Nat := 28

/-- The position budget in whole shares at the estimated price.  A whole quotient of more digits
than the precision has raises. -/
def sizeQuantity (portfolioValue maxPositionPct estPrice : ℚ) : Except EvaluationError Int :=
  if portfolioValue ≤ 0 ∨ maxPositionPct ≤ 0 ∨ estPrice ≤ 0 then .ok 0
  else
    let quantity := ⌊portfolioValue * maxPositionPct / estPrice⌋
    if (10 : Int) ^ decimalPrecision ≤ quantity then .error .divisionImpossible else .ok quantity

/-- The issuer of a ticker; a ticker that the map does not name is an issuer of its own. -/
def issuerKey (c : CaseMap) (issuerMap : Dict String String) (ticker : String) : String :=
  (issuerMap.get? (c.upper ticker)).getD (c.upper ticker)

@[simp] theorem issuerKey_upper (c : CaseMap) (issuerMap : Dict String String) (ticker : String) :
    issuerKey c issuerMap (c.upper ticker) = issuerKey c issuerMap ticker := by
  simp only [issuerKey, c.upper_upper]

end TradingAgents.PortfolioManager
