import Mathlib
import TradingAgents.Analyst.RunAnalysis
import TradingAgents.Execution.StopWrites
import TradingAgents.PortfolioManager.Portfolio
import TradingAgents.ProofKit.Dict
import TradingAgents.Replay.Broker

/-! One session of the replay: the scanner, the analyst and the portfolio manager over the bars up
to the session.  The decisions of the three are functions of what they are given. -/

namespace TradingAgents.Replay

open ProofKit Execution
open Analyst (scoringUniverse)

/-- A bar as it is made of a cached row, without the check of its prices. -/
abbrev RowBar := BarOf ℚ fun _ => True

structure DayInputs where
  runId : String
  session : Date
  tickers : List String
  bars : List RowBar
  benchmarkBars : List RowBar
  vix : Option ℚ
  equityCents : Int
  held : List OpenPosition
  heldStops : List PositionStopThreshold
  activeBrokerStopRefs : List String
  sectors : Dict String String
  positionValues : Dict String Money

structure DayResult where
  candidates : List Candidate
  recommendations : List PortfolioManager.Recommendation
  approved : List PortfolioManager.OrderIntent
  rejected : List PortfolioManager.RejectedOrder

/-- The regime that the analyst reads, but for the policy constants of the settings. -/
structure RegimeContext where
  label : String
  vix : Option ℚ
  vixStatus : String
  vixAsOf : Option Date
  asOf : Date

/-- What the analyst scores. -/
structure ScoringInputs where
  candidates : List Candidate
  bars : List RowBar
  regime : RegimeContext
  benchmarkBars : List RowBar
  sectors : Dict String String
  heldTickers : List String
  heldStops : List PositionStopThreshold
  activeBrokerStopRefs : List String

/-- What the portfolio manager evaluates besides the recommendations. -/
structure EvaluationInputs where
  latestPrices : Dict String Money
  cash : ℚ
  positions : List (String × Int)
  positionRefs : List (String × String)
  positionValues : Dict String Money
  sectors : Dict String String
  correlationBars : List RowBar

/-- The domain functions of the fleet under its settings. -/
structure FleetStages (Survivor Decision : Type) where
  classifyRegime : Date → Option ℚ → String
  applyFilters : List String → List RowBar → List RowBar → Date → List Survivor
  rankSurvivors : List Survivor → List Candidate
  scoreCandidates : ScoringInputs → Option (List Decision)
  splitDecisions : List Decision → List PortfolioManager.Recommendation
  evaluateRecommendations : List PortfolioManager.Recommendation → EvaluationInputs →
    List PortfolioManager.OrderIntent × List PortfolioManager.RejectedOrder

/-- The close of each ticker's latest bar. -/
def latestPrices (bars : List RowBar) : Dict String Money :=
  let sorted := bars.insertionSort fun a b =>
    a.ticker < b.ticker ∨ (a.ticker = b.ticker ∧ a.barDate ≤ b.barDate)
  Dict.ofList (sorted.map fun bar => (bar.ticker, ⟨bar.close, "USD"⟩))

def upTo (session : Date) (bars : List RowBar) : List RowBar :=
  bars.filter fun bar => decide (bar.barDate ≤ session)

variable {Survivor Decision : Type}

/-- Run one replay session by delegating each decision to the fleet's domain functions. -/
def runReplayDay (stages : FleetStages Survivor Decision) (inputs : DayInputs) : DayResult :=
  let bars := upTo inputs.session inputs.bars
  let benchmarkBars := upTo inputs.session inputs.benchmarkBars
  let regime : RegimeContext := {
    label := stages.classifyRegime inputs.session inputs.vix
    vix := inputs.vix
    vixStatus := if inputs.vix.isSome then "measured" else "missing"
    vixAsOf := inputs.vix.map fun _ => inputs.session
    asOf := inputs.session }
  let survivors := stages.applyFilters inputs.tickers bars benchmarkBars inputs.session
  let candidates := scoringUniverse (stages.rankSurvivors survivors) inputs.held
  let decisions := stages.scoreCandidates {
    candidates := candidates
    bars := bars
    regime := regime
    benchmarkBars := benchmarkBars
    sectors := inputs.sectors
    heldTickers := inputs.held.map OpenPosition.ticker
    heldStops := inputs.heldStops
    activeBrokerStopRefs := inputs.activeBrokerStopRefs }
  let recommendations := stages.splitDecisions (decisions.getD [])
  let evaluated := stages.evaluateRecommendations recommendations {
    latestPrices := latestPrices bars
    cash := inputs.equityCents / 100
    positions := inputs.held.map fun p => (p.ticker, p.quantity)
    positionRefs := inputs.held.map fun p => (p.ticker, p.positionRef)
    positionValues := inputs.positionValues
    sectors := inputs.sectors
    correlationBars := bars }
  ⟨candidates, recommendations, evaluated.1, evaluated.2⟩

/-- The run of a session is blind to bars after it. -/
theorem runReplayDay_congr (stages : FleetStages Survivor Decision) (inputs : DayInputs)
    {bars benchmarkBars : List RowBar} (hbars : upTo inputs.session bars =
      upTo inputs.session inputs.bars)
    (hbenchmark : upTo inputs.session benchmarkBars = upTo inputs.session inputs.benchmarkBars) :
    runReplayDay stages { inputs with bars := bars, benchmarkBars := benchmarkBars } =
      runReplayDay stages inputs := by
  simp only [runReplayDay, hbars, hbenchmark]

end TradingAgents.Replay
