import Mathlib.Data.List.Sort
import TradingAgents.Contracts.AttemptKeys
import TradingAgents.Contracts.BrokerLifecycle

/-! The shared read model of broker-native stop orders: a stop's facts stand under numbered keys of
its position and ticker, and a new one is placed under the first free key while none is live. -/

namespace TradingAgents.BrokerStops

open Kernel ProofKit BrokerLifecycle

def brokerStopOrderLabel : String := "BrokerStopOrder"

/-- The placement fact of a resting broker stop. -/
structure BrokerStopOrder where
  key : String
  ticker : String
  positionRef : String
  stopPriceCents : Int
  brokerOrderId : String
deriving DecidableEq

def brokerStopOrderKey (positionRef ticker : String) : String :=
  "stop:" ++ positionRef ++ ":" ++ ticker

def attemptKeyOf (positionRef ticker : String) (ordinal : Nat) : String :=
  attemptKey (brokerStopOrderKey positionRef ticker) ordinal

/-- Whether no fact stands under the key of this attempt, or a live one does. -/
def endsKeySearch (g : PipelineGraph) (positionRef ticker : String) (ordinal : Nat) : Bool :=
  match g.getNode brokerStopOrderLabel (attemptKeyOf positionRef ticker ordinal) with
  | none => true
  | some n => isLiveBrokerStopFact g n

/-- The free key to place under, or `none` while a fact is still live.  The loop over the attempts
ends at the latest after one more than there are facts. -/
def nextBrokerStopOrderKey (g : PipelineGraph) (positionRef ticker : String) : Option String :=
  let ordinal := firstOrdinal (g.listNodes brokerStopOrderLabel).length
    (endsKeySearch g positionRef ticker)
  let key := attemptKeyOf positionRef ticker ordinal
  match g.getNode brokerStopOrderLabel key with
  | none => some key
  | some _ => none

def isFreeAttempt (g : PipelineGraph) (positionRef ticker : String) (ordinal : Nat) : Bool :=
  (g.getNode brokerStopOrderLabel (attemptKeyOf positionRef ticker ordinal)).isNone

/-- The first attempt key with no fact yet, for a replacement stop. -/
def freeBrokerStopOrderKey (g : PipelineGraph) (positionRef ticker : String) : String :=
  attemptKeyOf positionRef ticker
    (firstOrdinal (g.listNodes brokerStopOrderLabel).length (isFreeAttempt g positionRef ticker))

/-- The text of a property, as Python's `str` gives it for a text. -/
def textOr (v : Value Document) : String := v.str?.getD ""

/-- A stop fact as its readers see it. -/
def brokerStopOrder (n : PipelineNode) : BrokerStopOrder where
  key := n.key
  ticker := textOr (n.get "ticker")
  positionRef := textOr (n.get "position_ref")
  stopPriceCents := (n.get "stop_price_cents").int?.getD 0
  brokerOrderId := textOr (n.get "broker_order_id")

/-- The stop facts in key order. -/
def brokerStopOrderNodes (g : PipelineGraph) : List PipelineNode :=
  (g.listNodes brokerStopOrderLabel).insertionSort fun a b => a.key ≤ b.key

/-- The stops whose graph and broker evidence is still live. -/
def activeBrokerStopOrders (g : PipelineGraph) : List BrokerStopOrder :=
  ((brokerStopOrderNodes g).filter (isLiveBrokerStopFact g)).map brokerStopOrder

/-- The positions that a live stop fact protects. -/
def activeBrokerStopRefs (g : PipelineGraph) : List String :=
  (activeBrokerStopOrders g).map BrokerStopOrder.positionRef

/-! ### Reads -/

theorem mem_activeBrokerStopOrders {g : PipelineGraph} {order : BrokerStopOrder} :
    order ∈ activeBrokerStopOrders g ↔
      ∃ n, g.getNode brokerStopOrderLabel n.key = some n ∧ n.label = brokerStopOrderLabel ∧
        isLiveBrokerStopFact g n = true ∧ brokerStopOrder n = order := by
  simp only [activeBrokerStopOrders, brokerStopOrderNodes, List.mem_map, List.mem_filter,
    List.mem_insertionSort, Graph.mem_listNodes]
  constructor
  · rintro ⟨n, ⟨⟨hl, hn⟩, hlive⟩, rfl⟩
    exact ⟨n, hn, hl, hlive, rfl⟩
  · rintro ⟨n, hn, hl, hlive, rfl⟩
    exact ⟨n, ⟨⟨hl, hn⟩, hlive⟩, rfl⟩

theorem exists_isFreeAttempt (g : PipelineGraph) (positionRef ticker : String) :
    ∃ n ≤ (g.listNodes brokerStopOrderLabel).length,
      isFreeAttempt g positionRef ticker n = true := by
  obtain ⟨n, hn, hfree⟩ := exists_free_attempt (brokerStopOrderKey positionRef ticker)
    ((g.listNodes brokerStopOrderLabel).map Node.key)
  refine ⟨n, by simpa using hn, ?_⟩
  rw [isFreeAttempt, attemptKeyOf, Graph.getNode_eq_none_of_notMem hfree]
  rfl

/-- The key of a replacement is free. -/
theorem freeBrokerStopOrderKey_free (g : PipelineGraph) (positionRef ticker : String) :
    g.getNode brokerStopOrderLabel (freeBrokerStopOrderKey g positionRef ticker) = none := by
  have hfree := (firstOrdinal_spec (exists_isFreeAttempt g positionRef ticker)).1
  rw [isFreeAttempt, Option.isNone_iff_eq_none] at hfree
  exact hfree

/-- The key of a new placement is free. -/
theorem nextBrokerStopOrderKey_free {g : PipelineGraph} {positionRef ticker key : String}
    (h : nextBrokerStopOrderKey g positionRef ticker = some key) :
    g.getNode brokerStopOrderLabel key = none := by
  unfold nextBrokerStopOrderKey at h
  simp only at h
  split at h
  · rename_i hnone
    cases h
    exact hnone
  · cases h

end TradingAgents.BrokerStops
