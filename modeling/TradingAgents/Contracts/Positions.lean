import TradingAgents.Contracts.Documents

/-! The shared view of open Position nodes. -/

namespace TradingAgents.Positions

open Kernel ProofKit

def positionLabel : String := "Position"

/-- The identity fields of a position, as its writers store them: a text and two integers. -/
structure Row where
  ticker : String
  quantity : Int
  openedPriceCents : Int
deriving DecidableEq, Repr

/-- The row of a Position node, when it holds one. -/
def row? (n : PipelineNode) : Option Row :=
  match (n.get "ticker").str?, (n.get "quantity").int?, (n.get "opened_price_cents").int? with
  | some ticker, some quantity, some price => some ⟨ticker, quantity, price⟩
  | _, _, _ => none

theorem row?_eq_some {n : PipelineNode} {r : Row} :
    row? n = some r ↔ n.get "ticker" = .str r.ticker ∧ n.get "quantity" = .int r.quantity ∧
      n.get "opened_price_cents" = .int r.openedPriceCents := by
  unfold row?
  split
  · rename_i t q p ht hq hp
    rw [Value.str?_eq_some] at ht
    rw [Value.int?_eq_some] at hq hp
    rw [ht, hq, hp]
    constructor
    · rintro h; cases h; exact ⟨rfl, rfl, rfl⟩
    · rintro ⟨h1, h2, h3⟩; cases h1; cases h2; cases h3; rfl
  · rename_i hnone
    simp only [reduceCtorEq, false_iff, not_and]
    intro ht hq hp
    exact hnone _ _ _ (Value.str?_eq_some.mpr ht) (Value.int?_eq_some.mpr hq)
      (Value.int?_eq_some.mpr hp)

/-- Whether broker evidence still treats a Position as open. -/
def isActivePositionNode (n : PipelineNode) : Bool :=
  if ((n.props.get? "status").getD (.str "open")).pyEq (.str "open") then
    !((n.get "broker_absent").truthy || (n.get "broker_superseded_by").truthy)
  else false

/-- The open Position nodes not superseded by broker reconciliation. -/
def activePositionNodes (g : PipelineGraph) : List PipelineNode :=
  (g.listNodes positionLabel).filter isActivePositionNode

theorem mem_activePositionNodes {g : PipelineGraph} {n : PipelineNode} :
    n ∈ activePositionNodes g ↔
      n.label = positionLabel ∧ g.getNode positionLabel n.key = some n ∧
        isActivePositionNode n = true := by
  rw [activePositionNodes, List.mem_filter, Graph.mem_listNodes, and_assoc]

end TradingAgents.Positions
