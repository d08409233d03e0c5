import TradingAgents.PortfolioManager.Concentration
import TradingAgents.ProofKit.Fallible

/-! The evaluation of a recommendation batch: exits first, then entries by confidence, each decided
by its gates against the cash, the issuers and the exposure that the decisions before it have left.
The first gate that fails names the reason. -/

namespace TradingAgents.PortfolioManager

open ProofKit

/-! ### The gates -/

def gateSizing : String := "sizing"
def gateMinOrderQuantity : String := "min_order_quantity"
def gateMaxPositions : String := "max_positions"
def gateCashAvailable : String := "cash_available"

/-- The reason of each position gate, in the order of precedence. -/
def positionGateReasons : Dict String String := .ofList [
  (gateSizing, "sizing"),
  (gateMinOrderQuantity, "below_min_quantity"),
  (gateMaxPositions, "max_positions"),
  (gateCashAvailable, "insufficient_cash")]

/-- The sizing, quantity, name-count and cash gates of an entry. -/
def positionOutcomes (settings : Settings) (item : Recommendation) (quantity : Int) (price : Money)
    (portfolio : PortfolioState) (reservedCash : ℚ) (openIssuers : Finset String) (issuer : String)
    (existingIssuerValue : ℚ) : List GateOutcome :=
  -- an empty issuer key counts as absent here
  let named := if issuer = "" then item.ticker else issuer
  let cost := quantity * price.amount
  let isNew := decide (named ∉ openIssuers)
  [.ofTest gateSizing
      (decide (existingIssuerValue + cost ≤ settings.maxPositionPct * portfolio.equityValue)),
    .ofTest gateMinOrderQuantity (decide ((settings.minOrderQuantity : Int) ≤ quantity)),
    .ofTest gateMaxPositions (!isNew || decide (openIssuers.card < settings.maxPositions)),
    .ofTest gateCashAvailable
      (decide (cost ≤ portfolio.availableForBuys settings.cashBufferPct reservedCash))]

/-- The same gates for an exit, of which only the quantity can fail. -/
def exitOutcomes (settings : Settings) (quantity : Int) : List GateOutcome :=
  [.ofTest gateSizing true,
    .ofTest gateMinOrderQuantity (decide ((settings.minOrderQuantity : Int) ≤ quantity)),
    .ofTest gateMaxPositions true,
    .ofTest gateCashAvailable true]

/-- The rejection by the first failed gate that has a reason. -/
def positionRejection (ticker : String) (outcomes : List GateOutcome) : Option RejectedOrder :=
  outcomes.findSome? fun outcome =>
    match positionGateReasons.get? outcome.name with
    | some reason =>
      if outcome.outcome = .failed then some { ticker, reason, gateReport := outcomes } else none
    | none => none

/-- The reason of a concentration gate that blocks, if it does. -/
def sectorReason (outcome : GateOutcome) : Option String :=
  match outcome.outcome with
  | .notEvaluated =>
    if outcome.belowFloor then none
    else if outcome.name = "correlated_cluster_pct" then some "correlation_not_evaluated"
    else some "sector_not_evaluated"
  | .failed =>
    if outcome.name = "correlated_cluster_pct" then some "correlated_cluster_concentration"
    else if outcome.name = "max_names_per_sector" then some "sector_name_count"
    else if outcome.name = "max_sector_pct" then some "sector_concentration"
    else none
  | .passed => none

/-- The rejection by the first concentration gate that blocks. -/
def sectorRejection (ticker : String) (outcomes priorOutcomes : List GateOutcome) :
    Option RejectedOrder :=
  (outcomes.findSome? sectorReason).map fun reason =>
    { ticker, reason, gateReport := priorOutcomes ++ outcomes }

/-- The stop and target of an entry with the outcome of their gate. -/
structure StopTarget where
  stopPct : Fraction
  targetPct : Fraction
  outcome : GateOutcome

def stopTargetReport (n : Numerals) (item : Recommendation)
    (defaultStopPct defaultTargetPct : Fraction)
    (minRatio : ℚ) : StopTarget :=
  let stopPct := item.suggestedStopPct.getD defaultStopPct
  let targetPct := item.suggestedTargetPct.getD defaultTargetPct
  let ratio := if stopPct.value ≤ 0 then 0 else n.toFloat (targetPct.value / stopPct.value)
  ⟨stopPct, targetPct,
    .ofTest "reward_risk" (decide (0 < stopPct.value) && decide (minRatio ≤ ratio))⟩

def rewardRiskRejection (ticker : String) (report : StopTarget) (priorOutcomes : List GateOutcome) :
    Option RejectedOrder :=
  let gateReport := priorOutcomes ++ [report.outcome]
  if report.stopPct.value ≤ 0 then some { ticker, reason := "invalid_stop_loss", gateReport }
  else if report.outcome.outcome = .failed then
    some { ticker, reason := "reward_risk_below_min", gateReport }
  else none

/-! ### The decisions -/

/-- An order that its contract accepts: at least one share. -/
def orderOf (item : Recommendation) (action : Action) (quantity : Int) (price : Money)
    (positionRef : Option String) (stopPct targetPct : Option Fraction)
    (gateReport : List GateOutcome) : Except EvaluationError OrderIntent :=
  if h : 1 ≤ quantity.toNat then
    .ok ⟨⟨item.ticker, action, quantity.toNat, price, decisionAtrPct item, positionRef, h⟩, stopPct,
      targetPct, gateReport⟩
  else .error (.validation "quantity")

/-- The orders of a decided batch. -/
structure OrderSet where
  approved : List OrderIntent
  rejected : List RejectedOrder
deriving DecidableEq

/-- What the evaluation is given beside the batch. -/
structure Evaluation where
  caseMap : CaseMap
  numerals : Numerals
  prices : Dict String Money
  portfolio : PortfolioState
  settings : Settings := {}
  defaultStopPct : Fraction
  defaultTargetPct : Fraction
  sectors : Dict String String := .empty
  issuerMap : Dict String String := .empty
  pairCorrelation : String → String → Option ℚ × Nat
  /-- Whether the float arithmetic of a correlation raises on the returns of two tickers. -/
  pairRaises : String → String → Bool := fun _ _ => false

namespace Evaluation

variable (e : Evaluation)

def correlations : CorrelationBook where
  pairCorrelation := e.pairCorrelation
  issuerMap := e.issuerMap
  threshold := e.settings.correlationThreshold
  maxClusterPct := e.settings.maxCorrelatedClusterPct
  minBars := e.settings.minCorrelationBars
  ceiling := e.settings.correlationCeiling

/-- The pairs that the census of a candidate measures. -/
def comparedPairs (item : Recommendation) (book : SectorBook) : List (String × String) :=
  let issuer := issuerKey e.caseMap e.issuerMap item.ticker
  let held := (book.issuerValues.keys.insertionSort (· ≤ ·)).filter fun i => decide (i ≠ issuer)
  held.flatMap fun i =>
    ((membersAt book.issuerTickers i).sort (· ≤ ·)).map fun ticker => (item.ticker, ticker)

/-- Whether measuring a pair raises, in the order in which the book measures it. -/
def measureRaises (pair : String × String) : Bool :=
  let left := e.caseMap.upper pair.1
  let right := e.caseMap.upper pair.2
  if left ≤ right then e.pairRaises left right else e.pairRaises right left

/-- Whether the correlation gate of an entry raises. -/
def correlationRaises (item : Recommendation) (book : SectorBook) : Bool :=
  match e.settings.maxCorrelatedClusterPct with
  | none => false
  | some maxClusterPct =>
    let deployed := e.portfolio.deployedValue
    if deployed ≤ 0 ∨ isBelowFloor deployed e.portfolio.equityValue e.settings.maxNamesPerSector
        e.settings.maxPositionPct (e.numerals.decimalOf maxClusterPct) then false
    else (e.comparedPairs item book).any e.measureRaises

/-- A sell of the full held quantity. -/
def decideExit (item : Recommendation) (price : Money) (book : SectorBook) :
    Except EvaluationError (OrderIntent ⊕ RejectedOrder) :=
  match e.portfolio.positions.get? item.ticker with
  | none => .error (.keyError item.ticker)
  | some quantity =>
    let gates := exitOutcomes e.settings quantity
    match positionRejection item.ticker gates with
    | some rejection => .ok (.inr rejection)
    | none => do
      let sectorGates := book.exitOutcomes e.caseMap item e.settings.maxNamesPerSector
      let order ← orderOf item .sell quantity price (e.portfolio.positionRefs.get? item.ticker) none
        none (gates ++ sectorGates)
      pure (.inl order)

/-- A buy with the cash it would commit, or the rejection by the first gate that blocks it. -/
def decideEntry (item : Recommendation) (price : Money) (book : SectorBook) (reservedCash : ℚ)
    (openIssuers : Finset String) : Except EvaluationError ((OrderIntent × ℚ) ⊕ RejectedOrder) := do
  let settings := e.settings
  let quantity ← sizeQuantity e.portfolio.equityValue settings.maxPositionPct price.amount
  let issuer := book.issuerFor e.caseMap item.ticker
  let gates := positionOutcomes settings item quantity price e.portfolio reservedCash openIssuers
    issuer (book.issuerValue issuer)
  match positionRejection item.ticker gates with
  | some rejection => pure (.inr rejection)
  | none =>
    let stopTarget := stopTargetReport e.numerals item e.defaultStopPct e.defaultTargetPct
      settings.minRewardRiskRatio
    match rewardRiskRejection item.ticker stopTarget gates with
    | some rejection => pure (.inr rejection)
    | none =>
      let cost := quantity * price.amount
      let sectorGates := book.outcomes e.caseMap e.numerals item cost e.portfolio.equityValue
        e.portfolio.deployedValue settings.maxPositionPct settings.maxSectorPct
        settings.maxNamesPerSector
      match sectorRejection item.ticker sectorGates (gates ++ [stopTarget.outcome]) with
      | some rejection => pure (.inr rejection)
      | none =>
        let gateReport := gates ++ [stopTarget.outcome] ++ sectorGates
        if e.correlationRaises item book then throw .arithmetic
        else
          let correlationGates := e.correlations.outcomes e.caseMap e.numerals item cost
            e.portfolio.equityValue e.portfolio.deployedValue settings.maxPositionPct
            settings.maxNamesPerSector book.issuerValues book.issuerTickers
          match sectorRejection item.ticker correlationGates gateReport with
          | some rejection => pure (.inr rejection)
          | none => do
            let order ← orderOf item item.action quantity price none (some stopTarget.stopPct)
              (some stopTarget.targetPct) (gateReport ++ correlationGates)
            pure (.inl (order, cost))

/-! ### The batch -/

/-- What the decisions so far have left. -/
structure Batch where
  approved : List OrderIntent := []
  rejected : List RejectedOrder := []
  reservedCash : ℚ := 0
  book : SectorBook
  openTickers : Finset String
  openIssuers : Finset String

def actionRank : Action → Nat
  | .sell => 0
  | .buy => 1
  | .hold => 2

/-- The sort key: exits, entries, holds; the higher confidence first, then by ticker. -/
def orderKey (item : Recommendation) : Nat ×ₗ ℚ ×ₗ String :=
  toLex (actionRank item.action, toLex (-item.confidence.value, item.ticker))

def ordered (recommendations : List Recommendation) : List Recommendation :=
  recommendations.insertionSort fun a b => orderKey a ≤ orderKey b

/-- The reason for which an item is not decided at all. -/
def precheck (item : Recommendation) (price : Option Money) : Option RejectedOrder :=
  if item.action = .hold then some { ticker := item.ticker, reason := "hold_recommendation" }
  else if item.action = .sell ∧ e.portfolio.positions.get? item.ticker = none then
    some { ticker := item.ticker, reason := "position_unavailable" }
  else if item.action = .buy ∧ e.portfolio.accountIsFresh = false then
    some { ticker := item.ticker, reason := "account_unavailable" }
  else
    match price with
    | none => some { ticker := item.ticker, reason := "price_unavailable" }
    | some price =>
      if price.amount ≤ 0 then some { ticker := item.ticker, reason := "price_unavailable" }
      else none

def Batch.reject (b : Batch) (r : RejectedOrder) : Batch := { b with rejected := b.rejected ++ [r] }

/-- The batch after an approved exit. -/
def Batch.exit (b : Batch) (item : Recommendation) (order : OrderIntent) : Batch :=
  let openTickers := b.openTickers.erase (e.caseMap.upper item.ticker)
  { b with
    approved := b.approved ++ [order]
    openTickers
    openIssuers := openTickers.image (b.book.issuerFor e.caseMap)
    book := b.book.recordExit e.caseMap item.ticker }

/-- The batch after an approved entry. -/
def Batch.enter (b : Batch) (item : Recommendation) (order : OrderIntent) (cost : ℚ) : Batch :=
  { b with
    approved := b.approved ++ [order]
    reservedCash := b.reservedCash + cost
    openTickers := insert (e.caseMap.upper item.ticker) b.openTickers
    openIssuers := insert (b.book.issuerFor e.caseMap item.ticker) b.openIssuers
    book := b.book.record e.caseMap item cost }

/-- One pass of the loop. -/
def evaluateOne (b : Batch) (item : Recommendation) : Except EvaluationError Batch :=
  match e.precheck item (e.prices.get? item.ticker) with
  | some rejection => .ok (b.reject rejection)
  | none =>
    match e.prices.get? item.ticker with
    | none => .error .assertion
    | some price =>
      if item.action = .sell then do
        match ← e.decideExit item price b.book with
        | .inr rejection => pure (b.reject rejection)
        | .inl order => pure (b.exit e item order)
      else do
        match ← e.decideEntry item price b.book b.reservedCash b.openIssuers with
        | .inr rejection => pure (b.reject rejection)
        | .inl (order, cost) => pure (b.enter e item order cost)

def initBook : SectorBook :=
  .init e.caseMap e.sectors e.portfolio.positions.keys e.portfolio.positionValues e.issuerMap

def openTickersOf : Finset String :=
  (e.portfolio.positions.keys.map e.caseMap.upper).toFinset

def initBatch : Batch where
  book := e.initBook
  openTickers := e.openTickersOf
  openIssuers := e.openTickersOf.image (e.initBook.issuerFor e.caseMap)

/-- Apply sizing and risk checks in the order of the batch: the approved and the rejected orders. -/
def evaluateRecommendations (recommendations : List Recommendation) :
    Except EvaluationError OrderSet := do
  let b ← (ordered recommendations).foldlM e.evaluateOne e.initBatch
  pure ⟨b.approved, b.rejected⟩

end Evaluation

end TradingAgents.PortfolioManager
