import Mathlib.Data.Finset.Image
import Mathlib.Data.List.Sort
import Mathlib.Data.Prod.Lex
import Mathlib.Data.String.Basic
import TradingAgents.PortfolioManager.Portfolio
import TradingAgents.ProofKit.Text

/-! The running exposure of an evaluation by sector and by issuer, and the two concentration gates
that read it: the sector label, and the cluster of issuers whose returns move together. -/

namespace TradingAgents.PortfolioManager

open ProofKit

def deploymentFloorMarker : String := "reason=deployment_below_floor"

/-- Whether a detail that quotes `name` has the marker of the deployment floor in it. -/
def namesFloor (name : String) : Bool := decide (deploymentFloorMarker.toList <:+: name.toList)

/-! ### The deployment floor -/

/-- The share of equity below which a deployed book says nothing about concentration. -/
def floorPct (maxNamesPerSector : Nat) (maxPositionPct concentrationCap : ℚ) : ℚ :=
  if maxNamesPerSector = 0 ∨ maxPositionPct ≤ 0 ∨ concentrationCap ≤ 0 then 0
  else maxNamesPerSector * maxPositionPct / concentrationCap

def deploymentPct (deployedValue equityValue : ℚ) : ℚ :=
  if equityValue ≤ 0 then 0 else deployedValue / equityValue

def isBelowFloor (deployedValue equityValue : ℚ) (maxNamesPerSector : Nat)
    (maxPositionPct concentrationCap : ℚ) : Bool :=
  let floor := floorPct maxNamesPerSector maxPositionPct concentrationCap
  decide (0 < floor) && decide (deploymentPct deployedValue equityValue < floor)

/-- A ratio as evidence shows it; an empty denominator gives zero. -/
def ratio (n : Numerals) (numerator denominator : ℚ) : ℚ :=
  if denominator ≤ 0 then 0 else n.toFloat (numerator / denominator)

/-! ### The sector book -/

/-- The amount a table holds under a key, zero if it holds none. -/
def amountAt (d : Dict String ℚ) (k : String) : ℚ := (d.get? k).getD 0

/-- The set a table holds under a key, empty if it holds none. -/
def membersAt (d : Dict String (Finset String)) (k : String) : Finset String := (d.get? k).getD ∅

/-- Held and tentative exposure, by sector, by issuer and by ticker.  The tickers are in upper
case. -/
structure SectorBook where
  sectors : Dict String String
  issuerMap : Dict String String
  heldValues : Dict String ℚ := .empty
  batchValues : Dict String ℚ := .empty
  sectorIssuers : Dict String (Finset String) := .empty
  issuerTickers : Dict String (Finset String) := .empty
  issuerValues : Dict String ℚ := .empty
  tickerValues : Dict String ℚ := .empty

/-- The value held under a ticker or under its upper case. -/
def heldValue (c : CaseMap) (heldValues : Dict String Money) (ticker : String) : ℚ :=
  match heldValues.get? ticker with
  | some money => money.amount
  | none =>
    match heldValues.get? (c.upper ticker) with
    | some money => money.amount
    | none => 0

namespace SectorBook

variable (c : CaseMap)

def issuerFor (b : SectorBook) (ticker : String) : String := issuerKey c b.issuerMap ticker

def sector (b : SectorBook) (ticker : String) : Option String := b.sectors.get? (c.upper ticker)

/-- Held plus tentative exposure of one issuer. -/
def issuerValue (b : SectorBook) (issuer : String) : ℚ := amountAt b.issuerValues issuer

/-- The entry of one held position. -/
def seed (heldValues : Dict String Money) (b : SectorBook) (ticker : String) : SectorBook :=
  let value := heldValue c heldValues ticker
  let issuer := b.issuerFor c ticker
  let b := { b with
    tickerValues := b.tickerValues.set ticker value
    issuerValues := b.issuerValues.set issuer (amountAt b.issuerValues issuer + value)
    issuerTickers := b.issuerTickers.set issuer (insert ticker (membersAt b.issuerTickers issuer)) }
  match b.sector c ticker with
  | none => b
  | some sector => { b with
      heldValues := b.heldValues.set sector (amountAt b.heldValues sector + value)
      sectorIssuers := b.sectorIssuers.set sector
        (insert issuer (membersAt b.sectorIssuers sector)) }

/-- The book of the positions held before the evaluation. -/
def init (sectors : Dict String String) (held : List String) (heldValues : Dict String Money)
    (issuerMap : Dict String String) : SectorBook :=
  (held.map c.upper).dedup.foldl (seed c heldValues)
    ⟨.ofList (sectors.entries.map fun p => (c.upper p.1, p.2)), issuerMap,
      .empty, .empty, .empty, .empty, .empty, .empty⟩

/-- Commit an approved buy. -/
def record (b : SectorBook) (item : Recommendation) (cost : ℚ) : SectorBook :=
  let ticker := c.upper item.ticker
  let issuer := b.issuerFor c ticker
  let b := { b with
    issuerValues := b.issuerValues.set issuer (amountAt b.issuerValues issuer + cost)
    issuerTickers := b.issuerTickers.set issuer (insert ticker (membersAt b.issuerTickers issuer))
    tickerValues := b.tickerValues.set ticker (amountAt b.tickerValues ticker + cost) }
  match b.sector c ticker with
  | none => b
  | some sector => { b with
      batchValues := b.batchValues.set sector (amountAt b.batchValues sector + cost)
      sectorIssuers := b.sectorIssuers.set sector
        (insert issuer (membersAt b.sectorIssuers sector)) }

/-- Take a ticker out of the set of its issuer.  A table without the issuer stays as it is. -/
def discard (d : Dict String (Finset String)) (k member : String) : Dict String (Finset String) :=
  match d.get? k with
  | none => d
  | some members => d.set k (members.erase member)

/-- Take a symbol out of the issuer tables; the last symbol takes its issuer with it. -/
def dropTicker (b : SectorBook) (symbol : String) : SectorBook :=
  let issuer := b.issuerFor c symbol
  let value := amountAt b.tickerValues symbol
  let tickers := discard b.issuerTickers issuer symbol
  let values := b.issuerValues.set issuer (max 0 (amountAt b.issuerValues issuer - value))
  let last := decide (membersAt tickers issuer = ∅)
  { b with
    tickerValues := b.tickerValues.erase symbol
    issuerTickers := if last then tickers.erase issuer else tickers
    issuerValues := if last then values.erase issuer else values }

/-- Commit an approved exit. -/
def recordExit (b : SectorBook) (ticker : String) : SectorBook :=
  let symbol := c.upper ticker
  let issuer := b.issuerFor c symbol
  let value := amountAt b.tickerValues symbol
  let b := b.dropTicker c symbol
  match b.sector c symbol with
  | none => b
  | some sector => { b with
      heldValues := b.heldValues.set sector (max 0 (amountAt b.heldValues sector - value))
      sectorIssuers := if b.issuerTickers.get? issuer = none then
          discard b.sectorIssuers sector issuer
        else b.sectorIssuers }

/-! ### The sector gates -/

/-- The outcomes for a ticker without a sector label. -/
def notEvaluatedOutcomes (ticker : String) (maxNamesPerSector : Nat) : List GateOutcome :=
  ⟨"max_sector_pct", .notEvaluated, namesFloor ticker⟩ ::
    if 0 < maxNamesPerSector then [⟨"max_names_per_sector", .notEvaluated, namesFloor ticker⟩]
    else []

def sectorExposureOutcome (n : Numerals) (heldValue batchValue cost equityValue deployedValue
    maxSectorPct maxPositionPct : ℚ) (maxNamesPerSector : Nat) : GateOutcome :=
  if maxSectorPct < 1 ∧ (deployedValue ≤ 0 ∨
      isBelowFloor deployedValue equityValue maxNamesPerSector maxPositionPct maxSectorPct) then
    ⟨"max_sector_pct", .notEvaluated, true⟩
  else
    .ofTest "max_sector_pct" (decide (ratio n (heldValue + batchValue + cost) deployedValue ≤
      n.toFloat maxSectorPct))

def sectorNamesOutcome (existingIssuers : Nat) (isNew : Bool) (maxNamesPerSector : Nat) :
    GateOutcome :=
  .ofTest "max_names_per_sector" (!isNew || decide (existingIssuers < maxNamesPerSector))

/-- The sector gates for a tentative order. -/
def outcomes (n : Numerals) (b : SectorBook) (item : Recommendation) (cost equityValue deployedValue
    maxPositionPct maxSectorPct : ℚ) (maxNamesPerSector : Nat) : List GateOutcome :=
  match b.sector c item.ticker with
  | none =>
    if 1 ≤ maxSectorPct ∧ maxNamesPerSector = 0 then []
    else notEvaluatedOutcomes item.ticker maxNamesPerSector
  | some sector =>
    let issuer := b.issuerFor c item.ticker
    let issuers := membersAt b.sectorIssuers sector
    sectorExposureOutcome n (amountAt b.heldValues sector) (amountAt b.batchValues sector) cost
        equityValue deployedValue maxSectorPct maxPositionPct maxNamesPerSector ::
      if 0 < maxNamesPerSector then
        [sectorNamesOutcome issuers.card (decide (issuer ∉ issuers)) maxNamesPerSector]
      else []

/-- The concentration evidence of a sell. -/
def exitOutcomes (b : SectorBook) (item : Recommendation) (maxNamesPerSector : Nat) :
    List GateOutcome :=
  match b.sector c item.ticker with
  | none => []
  | some _ => ⟨"max_sector_pct", .passed, false⟩ ::
    if 0 < maxNamesPerSector then [⟨"max_names_per_sector", .passed, false⟩] else []

end SectorBook

/-! ### The correlation gate -/

/-- The measured correlations of a run: for two tickers in order, the correlation of their returns
if it is defined, and the number of days on which both have one. -/
structure CorrelationBook where
  pairCorrelation : String → String → Option ℚ × Nat
  issuerMap : Dict String String
  threshold : ℚ
  maxClusterPct : Option ℚ
  minBars : Nat
  ceiling : ℚ

/-- One held issuer measured against the candidate. -/
structure IssuerComparison where
  issuer : String
  correlation : Option ℚ
  overlapBars : Nat
  contribution : ℚ

/-- The comparisons of a candidate with every held issuer; those with too few days are skipped. -/
structure CorrelationCensus where
  comparisons : List IssuerComparison
  skipped : List (String × Nat)

/-- The bounded contribution of one measured correlation. -/
def contribution (n : Numerals) (correlation : Option ℚ) (floor ceiling : ℚ) : ℚ :=
  match correlation with
  | none => 0
  | some r =>
    if ceiling ≤ floor then if floor ≤ r then 1 else 0
    else if r ≤ floor then 0
    else if ceiling ≤ r then 1
    else n.toFloat ((n.decimalOf r - n.decimalOf floor) / (n.decimalOf ceiling - n.decimalOf floor))

/-- The nearest multiple of one ten-thousandth, the even one of two. -/
def quantizeWeight (x : ℚ) : ℚ :=
  let scaled := x * 10000
  let below := ⌊scaled⌋
  let part := scaled - below
  let units := if part < 1 / 2 then below
    else if 1 / 2 < part then below + 1
    else if below % 2 = 0 then below else below + 1
  units / 10000

def roundedContribution (n : Numerals) (correlation : Option ℚ) (floor ceiling : ℚ) : ℚ :=
  n.toFloat (quantizeWeight (n.decimalOf (contribution n correlation floor ceiling)))

namespace CorrelationCensus

/-- The comparisons with a positive contribution, the largest first. -/
def clustered (census : CorrelationCensus) : List IssuerComparison :=
  (census.comparisons.filter fun item => decide (0 < item.contribution)).insertionSort fun a b =>
    toLex (-a.contribution, a.issuer) ≤ toLex (-b.contribution, b.issuer)

def allPairsUnusable (census : CorrelationCensus) : Bool :=
  census.comparisons.isEmpty && !census.skipped.isEmpty

end CorrelationCensus

namespace CorrelationBook

variable (c : CaseMap) (n : Numerals) (b : CorrelationBook)

/-- The correlation of two tickers, in either order. -/
def pair (left right : String) : Option ℚ × Nat :=
  if c.upper left ≤ c.upper right then b.pairCorrelation (c.upper left) (c.upper right)
  else b.pairCorrelation (c.upper right) (c.upper left)

/-- The best measured correlation of the candidate with the tickers of a held issuer. -/
def compare (candidateTicker heldIssuer : String) (issuerTickers : Dict String (Finset String)) :
    IssuerComparison :=
  let tickers := ((membersAt issuerTickers heldIssuer).sort (· ≤ ·))
  let measured := tickers.map (b.pair c candidateTicker)
  let best := (measured.filter fun p => decide (b.minBars ≤ p.2)).filterMap Prod.fst
  let correlation := best.max?
  ⟨heldIssuer, correlation, (measured.map Prod.snd).foldl max 0,
    roundedContribution n correlation b.threshold b.ceiling⟩

def buildCensus (candidateTicker candidateIssuer : String) (issuerKeys : List String)
    (issuerTickers : Dict String (Finset String)) : CorrelationCensus :=
  let held := (issuerKeys.insertionSort (· ≤ ·)).filter fun i => decide (i ≠ candidateIssuer)
  let all := held.map fun i => b.compare c n candidateTicker i issuerTickers
  let thin := fun item : IssuerComparison => decide (item.overlapBars < b.minBars)
  ⟨all.filter fun item => !thin item,
    (all.filter thin).map fun item => (item.issuer, item.overlapBars)⟩

/-- The correlated-cluster gate for a tentative order. -/
def outcomes (item : Recommendation) (cost equityValue deployedValue maxPositionPct : ℚ)
    (maxNamesPerSector : Nat) (issuerValues : Dict String ℚ)
    (issuerTickers : Dict String (Finset String)) : List GateOutcome :=
  match b.maxClusterPct with
  | none => []
  | some maxClusterPct =>
    if deployedValue ≤ 0 ∨ isBelowFloor deployedValue equityValue maxNamesPerSector maxPositionPct
        (n.decimalOf maxClusterPct) then
      [⟨"correlated_cluster_pct", .notEvaluated, true⟩]
    else
      let issuer := issuerKey c b.issuerMap item.ticker
      let census := b.buildCensus c n item.ticker issuer issuerValues.keys issuerTickers
      if census.allPairsUnusable then
        -- the detail quotes the candidate and every skipped issuer
        [⟨"correlated_cluster_pct", .notEvaluated,
          namesFloor item.ticker || census.skipped.any fun p => namesFloor p.1⟩]
      else
        let value := cost + amountAt issuerValues issuer + (census.clustered.map fun other =>
          amountAt issuerValues other.issuer * n.decimalOf other.contribution).sum
        [.ofTest "correlated_cluster_pct" (decide (ratio n value deployedValue ≤ maxClusterPct))]

end CorrelationBook

end TradingAgents.PortfolioManager
