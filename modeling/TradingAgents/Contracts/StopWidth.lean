import Mathlib.Data.List.Sort
import Mathlib.Data.Prod.Lex
import Mathlib.Data.String.Basic
import TradingAgents.Contracts.BrokerLifecycle
import TradingAgents.Contracts.BrokerStops
import TradingAgents.Contracts.Positions
import TradingAgents.ProofKit.Fallible

/-! The one definition of a held position's decided stop width.  An adopted position reads it from
the latest filled production buy that equals the holding exactly; any other reads its own. -/

namespace TradingAgents.StopWidth

open Kernel ProofKit BrokerLifecycle BrokerStops

inductive StopWidthSource where
  | lineage
  | position
  | fallback
deriving DecidableEq, Repr

/-- A stop width and the source it was read from. -/
structure DecidedStop where
  stopPct : ℚ
  source : StopWidthSource
deriving DecidableEq

/-- How Python reads a number from a text. -/
structure Numerals where
  int : String → Option Int
  float : String → Option ℚ

variable (p : Numerals)

/-- What is left of a number without its fraction. -/
def truncate (q : ℚ) : Int := if 0 ≤ q then q.floor else -(-q).floor

/-- `int(value)`. -/
def Numerals.intOf : Value Document → Except HandlerError Int
  | .int n => .ok n
  | .bool b => .ok (if b then 1 else 0)
  | .num q => .ok (truncate q)
  | .str s =>
    match p.int s with
    | some n => .ok n
    | none => .error (.validation "invalid literal for int()")
  | _ => .error (.validation "int() argument")

/-- `float(value)` of a value that is neither absent nor a truth value. -/
def Numerals.floatOf : Value Document → Except HandlerError ℚ
  | .int n => .ok n
  | .num q => .ok q
  | .str s =>
    match p.float s with
    | some q => .ok q
    | none => .error (.validation "could not convert string to float")
  | _ => .error (.validation "float() argument")

def adoptedProvenance : String := "reconciled-from-broker"

def productionRunPrefix : String := "pm-run-"

def recordedStopPct (position : PipelineNode) : Except HandlerError (Option ℚ) :=
  match position.get "stop_pct" with
  | .null => .ok none
  | .bool _ => .error (.validation "stop_pct")
  | v => do
    let q ← p.floatOf v
    pure (some q)

def orFallback (recorded fallback : Option ℚ) : Except HandlerError ℚ :=
  match recorded.or fallback with
  | some width => .ok width
  | none => .error (.validation "position records no stop width and no fallback was given")

/-- The property that holds a Fill's executed size. -/
def fillQuantityKey (fill : PipelineNode) : String :=
  if (fill.props.get? "broker_filled_quantity").isSome then "broker_filled_quantity" else "quantity"

def isProductionRun : Value Document → Bool
  | .str run => productionRunPrefix.toList.isPrefixOf run.toList
  | _ => false

/-- A filled production buy of exactly the holding's quantity at exactly its price. -/
def equalsHolding (fill position : PipelineNode) : Bool :=
  match (fill.get (fillQuantityKey fill)).int?, (fill.get "broker_price_cents").int? with
  | some quantity, some price =>
    (fill.get "ticker").pyEq (position.get "ticker") && isFilledBuyFill fill &&
      isProductionRun (fill.get "source_run_id") &&
      decide ((position.get "quantity").int? = some quantity) &&
      decide ((position.get "opened_price_cents").int? = some price)
  | _, _ => false

/-- The stop width of the order that a Fill executes. -/
def orderStopPct (g : PipelineGraph) (fill : PipelineNode) : Option ℚ :=
  match (g.descendants fill.nodeKey 1 (some ["EXECUTES"])).head? with
  | none => none
  | some order =>
    match order.get "stop_pct" with
    | .int n => some n
    | .num q => some q
    | _ => none

/-- The width of the latest buy that equals the holding. -/
def lineageStopPct (g : PipelineGraph) (position : PipelineNode) : Option ℚ :=
  let fills := (g.listNodes "Fill").filter fun fill => equalsHolding fill position
  let sorted := fills.insertionSort fun a b =>
    toLex (textOr (a.get "submitted_at"), a.key) ≤ toLex (textOr (b.get "submitted_at"), b.key)
  sorted.getLast?.bind (orderStopPct g)

/-- The stop width that was decided for a held position, and its source.  `fallback` applies only to
a position that records no width at all. -/
def decidedStopPct (g : PipelineGraph) (position : PipelineNode) (fallback : Option ℚ) :
    Except HandlerError DecidedStop := do
  let recorded ← recordedStopPct p position
  if (position.get "provenance").pyEq (.str adoptedProvenance) then
    match lineageStopPct g position with
    | some decided => pure ⟨decided, .lineage⟩
    | none =>
      let width ← orFallback recorded fallback
      pure ⟨width, .fallback⟩
  else
    match recorded with
    | some width => pure ⟨width, .position⟩
    | none =>
      let width ← orFallback none fallback
      pure ⟨width, .fallback⟩

theorem orFallback_of_none {recorded : Option ℚ} {width : ℚ}
    (h : orFallback recorded none = .ok width) (fallback : Option ℚ) :
    orFallback recorded fallback = .ok width := by
  unfold orFallback at *
  cases recorded with
  | none => cases h
  | some w => exact h

/-- A position whose width is decided without a fallback has that width under every fallback. -/
theorem decidedStopPct_of_none {g : PipelineGraph} {position : PipelineNode} {d : DecidedStop}
    (h : decidedStopPct p g position none = .ok d) (fallback : Option ℚ) :
    decidedStopPct p g position fallback = .ok d := by
  obtain ⟨recorded, hrecorded, h⟩ := Fallible.bind_eq_ok.mp h
  refine Fallible.bind_eq_ok.mpr ⟨recorded, hrecorded, ?_⟩
  split at h
  · rename_i hadopted
    rw [if_pos hadopted]
    split at h
    · exact h
    · obtain ⟨width, hwidth, h⟩ := Fallible.bind_eq_ok.mp h
      exact Fallible.bind_eq_ok.mpr ⟨width, orFallback_of_none hwidth fallback, h⟩
  · rename_i hadopted
    rw [if_neg hadopted]
    split at h
    · exact h
    · obtain ⟨width, hwidth, h⟩ := Fallible.bind_eq_ok.mp h
      exact Fallible.bind_eq_ok.mpr ⟨width, orFallback_of_none hwidth fallback, h⟩

end TradingAgents.StopWidth
