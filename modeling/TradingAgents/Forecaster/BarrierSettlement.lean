import Mathlib
import TradingAgents.Contracts.BrokerStops
import TradingAgents.Kernel.Writes
import TradingAgents.ProofKit.Moment

/-! The settlement of barrier claims: what the bars after a claim make of its stop and target, and
the writes of one pass over the claims that are still open. -/

namespace TradingAgents.Forecaster

open Kernel ProofKit BrokerStops

/-! ### The outcome of one claim -/

def horizonSessions : Nat := 10

def noSettlingBarsDays : Int := 45

/-- One daily bar of the settling series. -/
structure SettlingBar where
  day : Day
  high : ℚ
  low : ℚ
  close : ℚ

inductive BarrierOutcome where
  | stop
  | target
  | neither
  | void
deriving DecidableEq, Repr

def BarrierOutcome.text : BarrierOutcome → String
  | stop => "stop"
  | target => "target"
  | neither => "neither"
  | void => "void"

structure Settlement where
  outcome : BarrierOutcome
  voidReason : Option String
  /-- The tenth session's date or, for a void, the date of the pass. -/
  settledOn : Day
  entryCloseSettling : Option ℚ
  entryRatio : Option ℚ
  realisedReturn : Option ℚ := none
  closeReturn : Option ℚ := none
  outcomeSession : Option Nat := none

/-- A division of two prices. -/
def quotient (x y : ℚ) : Except HandlerError ℚ :=
  if y = 0 then .error (.validation "division by zero") else .ok (x / y)

/-- Which barrier a session touches first, and in which session: the low is looked at before the
high. -/
def firstTouch (entry stop target : ℚ) : Nat → List SettlingBar → BarrierOutcome × Option Nat
  | _, [] => (.neither, none)
  | session, bar :: rest =>
    if bar.low ≤ entry * (1 - stop) then (.stop, some session)
    else if entry * (1 + target) ≤ bar.high then (.target, some session)
    else firstTouch entry stop target (session + 1) rest

/-- Whether the close of a session is out of all proportion to the one before. -/
def corporateAction : List SettlingBar → Except HandlerError Bool
  | earlier :: later :: rest => do
    let ratio ← quotient later.close earlier.close
    if 6 / 10 ≤ ratio ∧ ratio ≤ 167 / 100 then corporateAction (later :: rest) else pure true
  | _ => pure false

/-- A claim without enough sessions: void once it is old, and open before. -/
def withoutBars (asOf passDate : Day) : Option Settlement :=
  if noSettlingBarsDays ≤ (passDate.toOrdinal : Int) - asOf.toOrdinal then
    some { outcome := .void, voidReason := some "no_settling_bars", settledOn := passDate,
           entryCloseSettling := none, entryRatio := none }
  else none

/-- Settle a claim on the bars of its ticker, oldest first; `none` leaves it open. -/
def settle (bars : List SettlingBar) (asOf : Day) (entryClose stopPct targetPct : ℚ)
    (passDate : Day) : Except HandlerError (Option Settlement) :=
  match (bars.dropWhile fun bar => bar.day ≠ asOf).take (horizonSessions + 1) with
  | [] => pure (withoutBars asOf passDate)
  | entry :: sessions =>
    if sessions.length < horizonSessions then pure (withoutBars asOf passDate)
    else do
      let ratio ← quotient entry.close entryClose
      if ← corporateAction (entry :: sessions) then
        pure (some { outcome := .void, voidReason := some "suspected_corporate_action",
                     settledOn := passDate, entryCloseSettling := some entry.close,
                     entryRatio := some ratio })
      else do
        let last := (entry :: sessions).getLastD entry
        let (outcome, session) := firstTouch entry.close stopPct targetPct 1 sessions
        let growth ← quotient last.close entry.close
        let realised := match outcome with
          | .stop => -stopPct
          | .target => targetPct
          | _ => growth - 1
        pure (some { outcome, voidReason := none, settledOn := last.day,
                     entryCloseSettling := some entry.close, entryRatio := some ratio,
                     realisedReturn := some realised, closeReturn := some (growth - 1),
                     outcomeSession := session })

/-- The squared distance of the stated probabilities from the outcome. -/
def brier (pStop pTarget pNeither : ℚ) (outcome : BarrierOutcome) : ℚ :=
  let hit (o : BarrierOutcome) : ℚ := if outcome = o then 1 else 0
  (pStop - hit .stop) ^ 2 + (pTarget - hit .target) ^ 2 + (pNeither - hit .neither) ^ 2

/-! ### Claims and settlements in the graph -/

def barrierLabel : String := "BarrierForecast"

def settlementLabel : String := "BarrierSettlement"

def settledEdge : String := "SETTLED_BY"

def settlementKey (claimKey : String) : String := "settlement:" ++ claimKey

def analystRunLabel : String := "AnalystRun"

def settlementMarkerLabel : String := "BarrierSettlementPass"

def settlementMarkerEdge : String := "BARRIER_SETTLEMENT_BY"

def settlementMarkerKey (analystRunKey : String) : String := "settlement-pass:" ++ analystRunKey

/-- `float` of a property. -/
def requireFloat (n : PipelineNode) (name : String) : Except HandlerError ℚ := do
  match ← n.require name with
  | .num q => .ok q
  | .int i => .ok i
  | .bool b => .ok (if b then 1 else 0)
  | _ => .error (.validation name)

def numberOrNull : Option ℚ → Value Document
  | some q => .num q
  | none => .null

/-- One bar of a stored market snapshot. -/
structure MarketBar where
  ticker : String
  bar : SettlingBar

/-- What the pass reads with the standard library and the contracts: the day of a text, the day of a
time stamp, and the bars of a stored snapshot, where it can be read. -/
structure SettlementReaders where
  day : String → Option Day
  stampDay : String → Option Day
  snapshotBars : PipelineNode → Option (List MarketBar)

/-- The market data that a run was scanned from. -/
def settlingMarket (g : PipelineGraph) (run : PipelineNode) : Option PipelineNode := do
  let scan ← (g.ancestors run.nodeKey 1 (some ["ANALYZED_BY"])).head?
  (g.descendants scan.nodeKey 1 (some ["DERIVED_FROM"])).head?

/-- The bars of each ticker, oldest first; none if the snapshot cannot be read. -/
def barsByTicker (r : SettlementReaders) (market : PipelineNode) : Dict String (List SettlingBar) :=
  match r.snapshotBars market with
  | none => .empty
  | some bars =>
    (bars.insertionSort fun a b => a.bar.day ≤ b.bar.day).foldl (fun byTicker row =>
      byTicker.set row.ticker ((byTicker.get? row.ticker).getD [] ++ [row.bar])) .empty

/-- What a settlement records, when the clock reads `now`. -/
def settlementProps (claim : PipelineNode) (s : Settlement) (settlingRef : Option String) :
    Except HandlerError (String → Props Document) := do
  let pStop ← requireFloat claim "p_stop_first"
  let pTarget ← requireFloat claim "p_target_first"
  let pNeither ← requireFloat claim "p_neither"
  let modelId ← claim.require "model_id"
  let ticker ← claim.require "ticker"
  let asOf ← claim.require "as_of"
  let score := if s.outcome = .void then none else some (brier pStop pTarget pNeither s.outcome)
  pure fun now => .ofList [
    ("claim_key", .str claim.key),
    ("model_id", modelId),
    ("ticker", ticker),
    ("as_of", asOf),
    ("outcome", .str s.outcome.text),
    ("void_reason", textOrNull s.voidReason),
    ("settled_on", .str s.settledOn.isoformat),
    ("settling_ref", textOrNull settlingRef),
    ("entry_close_settling", numberOrNull s.entryCloseSettling),
    ("entry_ratio", numberOrNull s.entryRatio),
    ("brier", numberOrNull score),
    ("realised_return", numberOrNull s.realisedReturn),
    ("close_return", numberOrNull s.closeReturn),
    ("outcome_session", (s.outcomeSession.map fun n => Value.int n).getD .null),
    ("created_at", .str now)]

/-! ### One pass -/

/-- A write of a pass, when the clock reads the given text. -/
abbrev PassWrite := String → Write Document

/-- The link from a claim to its settlement. -/
def settledLink (claimKey : String) : Edge :=
  ⟨(barrierLabel, claimKey), (settlementLabel, settlementKey claimKey), settledEdge⟩

/-- What a pass over a run works with. -/
structure PassInput where
  bars : Dict String (List SettlingBar)
  passDate : Day
  settlingRef : Option String

/-- `date.fromisoformat` of a property. -/
def requireDay (r : SettlementReaders) (v : Value Document) : Except HandlerError Day :=
  match r.day (textOr v) with
  | some day => .ok day
  | none => .error (.validation "as_of")

/-- The settlement of a claim and its properties; a claim that cannot be read raises. -/
def claimSettlement (r : SettlementReaders) (input : PassInput) (claim : PipelineNode) :
    Except HandlerError (Option (Settlement × (String → Props Document))) := do
  let ticker ← claim.require "ticker"
  let asOfText ← claim.require "as_of"
  let asOf ← requireDay r asOfText
  let entryClose ← requireFloat claim "entry_close"
  let stopPct ← requireFloat claim "stop_pct"
  let targetPct ← requireFloat claim "target_pct"
  let bars := (input.bars.get? (textOr ticker)).getD []
  match ← settle bars asOf entryClose stopPct targetPct input.passDate with
  | none => pure none
  | some s => do
    let props ← settlementProps claim s input.settlingRef
    pure (some (s, props))

inductive ClaimStatus where
  | settled
  | voided
  | stillOpen
deriving DecidableEq

/-- The writes that settle one claim, and its status; a claim that cannot be read stays open. -/
def settleClaim (r : SettlementReaders) (input : PassInput) (claim : PipelineNode) :
    List PassWrite × ClaimStatus :=
  match claimSettlement r input claim with
  | .ok (some (s, props)) =>
    ([fun now => .merge settlementLabel (settlementKey claim.key) (props now),
      fun _ => .link (settledLink claim.key)],
      if s.outcome = .void then .voided else .settled)
  | _ => ([], .stillOpen)

/-- What the pass does with an unlinked claim.  A settlement that stands without its link is only
linked, and not counted. -/
def passClaim (r : SettlementReaders) (g : PipelineGraph) (input : PassInput) (claimKey : String) :
    List PassWrite × List ClaimStatus :=
  match g.getNode barrierLabel claimKey with
  | none => ([], [])
  | some claim =>
    match g.getNode settlementLabel (settlementKey claim.key) with
    | some _ => ([fun _ => .link (settledLink claim.key)], [])
    | none => ((settleClaim r input claim).1, [(settleClaim r input claim).2])

/-- The date of a pass is that of its run, or today's where the run has no readable stamp. -/
def passDate (r : SettlementReaders) (today : Day) (run : PipelineNode) : Day :=
  (r.stampDay (textOr (run.get "created_at"))).getD today

def passInput (r : SettlementReaders) (g : PipelineGraph) (today : Day) (run : PipelineNode) :
    PassInput where
  bars := match settlingMarket g run with
    | some market => barsByTicker r market
    | none => .empty
  passDate := passDate r today run
  settlingRef := (settlingMarket g run).map Node.key

/-- What the mark of a pass records; `statuses` are those of the claims it was at. -/
def settlementMarkerProps (run : PipelineNode) (input : PassInput) (statuses : List ClaimStatus)
    (now : String) : Props Document :=
  let counts (status : ClaimStatus) : Value Document :=
    .int (statuses.filter fun s => s = status).length
  .ofList [
    ("analyst_run_key", .str run.key),
    ("pass_date", .str input.passDate.isoformat),
    ("settling_ref", textOrNull input.settlingRef),
    ("settled", counts .settled),
    ("voided", counts .voided),
    ("open", counts .stillOpen),
    ("created_at", .str now)]

/-- The writes of a pass over a run.  They are read off the graph that the pass starts from: the
pass itself writes neither claims nor the settlement of a claim that is yet to come. -/
def settleAnalystNode (r : SettlementReaders) (g : PipelineGraph) (today : Day)
    (run : PipelineNode) : List PassWrite :=
  match g.getNode settlementMarkerLabel (settlementMarkerKey run.key) with
  | some _ => []
  | none =>
    let input := passInput r g today run
    let claims := g.keysWithoutEdge barrierLabel settledEdge
    let statuses := claims.flatMap fun key => (passClaim r g input key).2
    (claims.flatMap fun key => (passClaim r g input key).1) ++ [
      fun now => .merge settlementMarkerLabel (settlementMarkerKey run.key)
        (settlementMarkerProps run input statuses now),
      fun _ => .link ⟨run.nodeKey, (settlementMarkerLabel, settlementMarkerKey run.key),
        settlementMarkerEdge⟩]

end TradingAgents.Forecaster
