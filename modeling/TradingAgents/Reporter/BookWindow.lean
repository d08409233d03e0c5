import TradingAgents.Execution.RefreshRuns
import TradingAgents.ProofKit.Windows

/-! The book metrics of a run: the Fills that the broker filled between the run before it and the
run itself, and the profit of the exits since an inception. -/

namespace TradingAgents.Reporter

open Kernel ProofKit Execution BrokerLifecycle

variable {τ : Type} [LinearOrder τ]

/-- The texts of the instants of a clock, and the instants that texts are read as.  Reading the text
of an instant gives it back. -/
structure IsoClock (τ : Type) where
  isoformat : τ → String
  fromisoformat : String → Option τ
  read_back : ∀ t, fromisoformat (isoformat t) = some t

def pmRunLabel : String := "PMRun"

/-- The instant of a property, if it is a text that can be read. -/
def utcInstant (c : IsoClock τ) : Value Document → Option τ
  | .str s => c.fromisoformat s
  | _ => none

/-- The instants of a list of runs. -/
def runInstants (c : IsoClock τ) (pmRuns : List PipelineNode) : List τ :=
  pmRuns.filterMap fun run => utcInstant c (run.get "created_at")

/-- The latest creation of a run strictly before `reportedAt`. -/
def windowStart (c : IsoClock τ) (pmRuns : List PipelineNode) (reportedAt : τ) : Option τ :=
  lastBefore (runInstants c pmRuns) reportedAt

/-- A Fill with the time at which it became known. -/
abbrev TimedFill (τ : Type) := τ × PipelineNode

def isFilled (fill : PipelineNode) : Bool :=
  decide (normalise (fill.get "broker_status") ∈ filledBrokerStatuses)

/-- The Fills that the broker filled; one whose time cannot be read has no place in any window. -/
def filledFills (c : IsoClock τ) (fills : List PipelineNode) : List (TimedFill τ) :=
  fills.filterMap fun fill =>
    if isFilled fill then
      (utcInstant c (fill.get "broker_status_refreshed_at")).map fun moment => (moment, fill)
    else none

/-- The Fills known after `after` and by `until`. -/
def fillsBetween (timed : List (TimedFill τ)) (after : Option τ) (upTo : τ) : List PipelineNode :=
  (timed.filter fun p => decide (p.1 ≤ upTo) && decide (∀ a, after = some a → a < p.1)).map Prod.snd

def isSide (side : String) (fill : PipelineNode) : Bool := (fill.get "side").pyEq (.str side)

/-- The sells known from `since` to `until`. -/
def exitsSince (timed : List (TimedFill τ)) (since upTo : τ) : List PipelineNode :=
  (timed.filter fun p => decide (since ≤ p.1) && decide (p.1 ≤ upTo) && isSide "sell" p.2).map
    Prod.snd

def isRestingStopFill (fill : PipelineNode) : Bool := (truthyStr (fill.get "stop_order_key")).isSome

structure BookCounts where
  positionsOpened : Nat
  positionsClosed : Nat
  closeTriggerStop : Nat
deriving DecidableEq

def bookCounts (window : List PipelineNode) : BookCounts where
  positionsOpened := window.countP (isSide "buy")
  positionsClosed := window.countP (isSide "sell")
  closeTriggerStop := window.countP fun fill => isSide "sell" fill && isRestingStopFill fill

/-- The realised profit of a Fill, where it counts. -/
def pnlCents (fill : PipelineNode) : Option Int :=
  if (fill.get "drop_reason").truthy then none
  else if normalise (fill.get "broker_status") ∈ resolvedUnfilledBrokerStatuses then none
  else if (fill.props.get? "pnl_invalidated_at").isSome then none
  else ((fill.props.get? "realized_pnl_cents").getD (fill.get "pnl_cents")).int?

/-- The outcomes of the exits; the two ratios are absent without a profit. -/
structure TradeOutcomes where
  ratios : Option (ℚ × ℚ)
  closedTradesWithPnl : Nat
deriving DecidableEq

def collectTradeOutcomes (fills : List PipelineNode) : TradeOutcomes :=
  match fills.filterMap pnlCents with
  | [] => ⟨none, 0⟩
  | pnls@(_ :: _) =>
    let wins := (pnls.filter (0 < ·)).sum
    let losses := -(pnls.filter (· < 0)).sum
    let profitFactor : ℚ := if 0 < losses then wins / losses else 0
    ⟨some (profitFactor, pnls.sum / pnls.length), pnls.length⟩

structure BookMetrics where
  counts : BookCounts
  outcomes : TradeOutcomes
deriving DecidableEq

/-- The book metrics of a run; a run with no readable creation has none. -/
def readBookMetrics (c : IsoClock τ) (g : PipelineGraph) (pmRun : PipelineNode) (since : τ) :
    Option BookMetrics :=
  (utcInstant c (pmRun.get "created_at")).map fun reportedAt =>
    let timed := filledFills c (g.listNodes fillLabel)
    let after := windowStart c (g.listNodes pmRunLabel) reportedAt
    ⟨bookCounts (fillsBetween timed after reportedAt),
      collectTradeOutcomes (exitsSince timed since reportedAt)⟩

end TradingAgents.Reporter
