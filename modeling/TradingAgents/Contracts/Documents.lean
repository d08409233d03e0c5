import TradingAgents.Kernel.GraphFacts

/-! The validated payloads that agents hand to each other whole, each stored as one property of a
graph node, with the fields that the modelled functions read. -/

namespace TradingAgents

open Kernel

inductive Action where
  | buy
  | sell
  | hold
deriving DecidableEq, Repr

/-- The text of an action in a graph property. -/
def Action.value : Action → String
  | buy => "buy"
  | sell => "sell"
  | hold => "hold"

structure Money where
  amount : ℚ
  currency : String := "USD"
deriving DecidableEq

structure Provenance where
  runId : String
  sourceAgent : String
  graphNodeId : Option String
deriving DecidableEq

/-- One sized order of the portfolio manager; its quantity is at least one.  An ATR that is not a
finite number is read as none. -/
structure OrderIntent where
  ticker : String
  action : Action
  quantity : Nat
  estPrice : Money
  decisionAtrPct : Option ℚ := none
  positionRef : Option String := none
  quantity_pos : 1 ≤ quantity := by decide
deriving DecidableEq

structure RejectedOrder where
  ticker : String
  reason : String
deriving DecidableEq

structure OrderIntentSet where
  runId : String
  approved : List OrderIntent
  rejected : List RejectedOrder
  provenance : Provenance
deriving DecidableEq

structure Candidate where
  ticker : String
  rank : Nat
  score : ℚ
  rank_pos : 1 ≤ rank := by decide
deriving DecidableEq

structure CandidateSet where
  runId : String
  candidates : List Candidate
  provenance : Provenance
deriving DecidableEq

structure RecommendationSet where
  runId : String
  recommendations : List String
  provenance : Provenance
deriving DecidableEq

/-- One holding row of a broker snapshot. -/
structure SnapshotHolding where
  ticker : String
  quantity : Int
  avgEntryCents : Int
  marketValueCents : Int
deriving DecidableEq

/-- The payloads a graph property can hold. -/
inductive Document where
  | orderIntentSet (s : OrderIntentSet)
  | candidateSet (s : CandidateSet)
  | recommendationSet (s : RecommendationSet)
  | holding (h : SnapshotHolding)
deriving DecidableEq

/-- The graph of the pipeline. -/
abbrev PipelineGraph := Kernel.Graph Document

abbrev PipelineNode := Node Document

/-- An optional text as a property. -/
def textOrNull : Option String → Value Document
  | some s => .str s
  | none => .null

/-- The errors an agent's handler can end in. -/
inductive HandlerError where
  | keyError (name : String)
  | graph (e : GraphError)
  | validation (name : String)
deriving DecidableEq, Repr

/-- A graph operation inside a handler. -/
def liftGraph {α : Type} : Except GraphError α → Except HandlerError α
  | .ok a => .ok a
  | .error e => .error (.graph e)

@[simp] theorem liftGraph_eq_ok {α : Type} {x : Except GraphError α} {a : α} :
    liftGraph x = .ok a ↔ x = .ok a := by
  cases x <;> simp [liftGraph]

/-- A property that a handler reads with `props[name]`. -/
def Kernel.Node.require (n : PipelineNode) (name : String) :
    Except HandlerError (Value Document) :=
  match n.props.get? name with
  | some v => .ok v
  | none => .error (.keyError name)

theorem Kernel.Node.require_of_get {n : PipelineNode} {name : String} {v : Value Document}
    (h : n.get name = v) (hv : v ≠ .null) : n.require name = .ok v := by
  unfold require
  unfold get Props.get at h
  cases hget : n.props.get? name with
  | none =>
    rw [hget] at h
    exact absurd h.symm hv
  | some w =>
    rw [hget] at h
    exact congrArg _ h

end TradingAgents
