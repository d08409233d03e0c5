import Mathlib.Algebra.Ring.Int.Defs
import Mathlib.Data.List.Sort
import Mathlib.Data.String.Basic
import TradingAgents.Contracts.Positions
import TradingAgents.ProofKit.Fallible

/-! The basis of an exit: the active lots behind the position reference of a sell, and the realised
profit of selling a quantity of them at one price. -/

namespace TradingAgents.Positions

open Kernel ProofKit

/-- One active position lot of a sell. -/
structure PositionBasisLot where
  nodeKey : String
  ticker : String
  quantity : Int
  openedPriceCents : Int
deriving DecidableEq

structure PositionBasis where
  ticker : String
  positionRef : String
  lots : List PositionBasisLot
deriving DecidableEq

def PositionBasis.quantity (b : PositionBasis) : Int := (b.lots.map PositionBasisLot.quantity).sum

/-- The aggregate reference of position keys; `digest` is the hash of their text. -/
def positionRefForKeys (digest : String → String) (keys : List String) : String :=
  digest ("\n".intercalate (keys.insertionSort (· ≤ ·)))

/-- The ticker of a position, which every writer stores as a text. -/
def tickerOf (n : PipelineNode) : Except HandlerError String := do
  let v ← n.require "ticker"
  pure (v.str?.getD "")

/-- The active nodes of a ticker, by key.  A position without a ticker raises. -/
def activeNodesOf (g : PipelineGraph) (ticker : String) :
    Except HandlerError (List PipelineNode) := do
  let nodes ← Fallible.filter (fun n => do pure (decide ((← tickerOf n) = ticker)))
    (activePositionNodes g)
  pure (nodes.insertionSort fun a b => a.key ≤ b.key)

def basisLot (n : PipelineNode) : Option PositionBasisLot :=
  (row? n).map fun r => ⟨n.key, r.ticker, r.quantity, r.openedPriceCents⟩

/-- The lots behind the position reference of a sell. -/
def positionBasisForRef (digest : String → String) (g : PipelineGraph)
    (positionRef ticker : String) :
    Except HandlerError (Option PositionBasis) := do
  let nodes ← activeNodesOf g ticker
  if nodes = [] ∨ positionRefForKeys digest (nodes.map Node.key) ≠ positionRef then pure none
  else
    match nodes.mapM basisLot with
    | none => pure none
    | some lots => pure (some ⟨ticker, positionRef, lots⟩)

theorem tickerOf_error {n : PipelineNode} {e : HandlerError} (h : tickerOf n = .error e) :
    e = .keyError "ticker" := by
  rcases Fallible.bind_eq_error.mp h with h | ⟨v, -, h⟩
  · unfold Kernel.Node.require at h
    split at h
    · cases h
    · cases h
      rfl
  · cases h

/-- A basis fails to be read only at a position without a ticker. -/
theorem positionBasisForRef_error {digest : String → String} {g : PipelineGraph}
    {positionRef ticker : String} {e : HandlerError}
    (h : positionBasisForRef digest g positionRef ticker = .error e) : e = .keyError "ticker" := by
  rcases Fallible.bind_eq_error.mp h with h | ⟨nodes, -, h⟩
  · rcases Fallible.bind_eq_error.mp h with h | ⟨nodes, -, h⟩
    · obtain ⟨n, -, hn⟩ := Fallible.filter_error h
      rcases Fallible.bind_eq_error.mp hn with hn | ⟨t, -, hn⟩
      · exact tickerOf_error hn
      · cases hn
    · cases h
  · split at h
    · cases h
    · split at h <;> cases h

/-- Gross realised profit in cents of a long position. -/
def realizedPnlCents (exitPriceCents entryPriceCents quantity : Int) : Int :=
  (exitPriceCents - entryPriceCents) * quantity

/-- The profit of selling `quantity` of a basis: the lots were opened at one price, or are all
sold. -/
def pnlFromBasis (basis : Option PositionBasis) (quantity exitPriceCents : Int) : Option Int :=
  match basis with
  | none => none
  | some b =>
    if quantity ≤ 0 ∨ b.quantity < quantity then none
    else
      match (b.lots.map PositionBasisLot.openedPriceCents).dedup with
      | [entry] => some (realizedPnlCents exitPriceCents entry quantity)
      | _ =>
        if quantity = b.quantity then
          some (b.lots.map fun lot =>
            realizedPnlCents exitPriceCents lot.openedPriceCents lot.quantity).sum
        else none

end TradingAgents.Positions
