import Mathlib
import TradingAgents.ProofKit.Dict
import TradingAgents.ProofKit.Turns
import TradingAgents.Replay.Broker

/-! The book of a replay: the cash, the open positions and the recorded fills.  A session changes it
by three moves only (a sale of all that a line holds, a purchase into a line that holds nothing, and
a revision of a position's prices), and these keep it balanced. -/

namespace TradingAgents.Replay

open ProofKit Execution

/-- One recorded fill; its date is the text of a day. -/
structure FillRow where
  date : String
  line : String
  side : Side
  quantity : Nat
  priceCents : Int
  reason : String
deriving DecidableEq

structure Book where
  cashCents : Int
  positions : Dict String ReplayPosition
  fills : List FillRow
deriving DecidableEq

namespace Book

variable {b b' : Book} {line line' : String} {row : FillRow} {p p' : ReplayPosition}

/-- Record the sale of a line's position. -/
def sell (b : Book) (line : String) (row : FillRow) : Book where
  cashCents := b.cashCents + row.quantity * row.priceCents
  positions := b.positions.erase line
  fills := b.fills ++ [row]

/-- Record a purchase with the position that it opens. -/
def buy (b : Book) (row : FillRow) (p : ReplayPosition) : Book where
  cashCents := b.cashCents - row.quantity * row.priceCents
  positions := b.positions.set row.line p
  fills := b.fills ++ [row]

/-- Put a position in the place of a line's own. -/
def revise (b : Book) (line : String) (p : ReplayPosition) : Book :=
  { b with positions := b.positions.set line p }

/-- What identifies the lot that a line holds. -/
def lot? (b : Book) (line : String) : Option (Nat × String) :=
  (b.positions.get? line).map fun p => (p.quantity, p.positionRef)

theorem lot?_eq_none : b.lot? line = none ↔ b.positions.get? line = none := Option.map_eq_none_iff

theorem lot?_of_get? (h : b.positions.get? line = some p) :
    b.lot? line = some (p.quantity, p.positionRef) := by
  rw [lot?, h, Option.map_some]

@[simp] theorem lot?_sell : (b.sell line row).lot? line' = if line' = line then none else
    b.lot? line' := by
  simp only [lot?, sell, Dict.get?_erase]
  split <;> rfl

@[simp] theorem lot?_buy : (b.buy row p).lot? line' = if line' = row.line then
    some (p.quantity, p.positionRef) else b.lot? line' := by
  simp only [lot?, buy, Dict.get?_set]
  split <;> rfl

end Book

/-- The text by which a position names the purchase that opened it. -/
def FillRow.ref (row : FillRow) : String := row.line ++ "-" ++ row.date

/-- One move of the book. -/
inductive BookMove : Book → Book → Prop
  | sell {b : Book} {p : ReplayPosition} {row : FillRow} :
      b.positions.get? row.line = some p → row.side = .sell → row.quantity = p.quantity →
      BookMove b (b.sell row.line row)
  | buy {b : Book} {p : ReplayPosition} {row : FillRow} :
      b.positions.get? row.line = none → row.side = .buy → p.line = row.line →
      p.quantity = row.quantity → p.positionRef = row.ref → BookMove b (b.buy row p)
  | revise {b : Book} {p p' : ReplayPosition} {line : String} :
      b.positions.get? line = some p → p'.line = p.line → p'.quantity = p.quantity →
      p'.positionRef = p.positionRef → BookMove b (b.revise line p')

/-- Any number of moves. -/
abbrev BookMoves : Book → Book → Prop := Relation.ReflTransGen BookMove

/-! ### What the fills add up to -/

def lineFills (fills : List FillRow) (line : String) : List FillRow :=
  fills.filter fun row => decide (row.line = line)

def ofSide (side : Side) (fills : List FillRow) : List FillRow :=
  fills.filter fun row => decide (row.side = side)

def totalQuantity (fills : List FillRow) : Int := (fills.map fun row => (row.quantity : Int)).sum

def totalValue (fills : List FillRow) : Int :=
  (fills.map fun row => (row.quantity : Int) * row.priceCents).sum

/-- The shares that a line holds. -/
def heldQuantity (b : Book) (line : String) : Nat :=
  ((b.positions.get? line).map ReplayPosition.quantity).getD 0

def Opens (row : FillRow) : Prop := row.side = .buy

/-- A sale of exactly the shares of a purchase. -/
def Closes (bought sold : FillRow) : Prop :=
  bought.side = .buy ∧ sold.side = .sell ∧ sold.quantity = bought.quantity

/-- Purchases count their shares, sales count them off. -/
def signedQuantity (row : FillRow) : Int :=
  match row.side with
  | .buy => row.quantity
  | .sell => -row.quantity

theorem sum_signedQuantity (fills : List FillRow) : (fills.map signedQuantity).sum =
    totalQuantity (ofSide .buy fills) - totalQuantity (ofSide .sell fills) := by
  induction fills with
  | nil => rfl
  | cons row fills ih =>
    rw [List.map_cons, List.sum_cons, ih]
    cases hside : row.side <;>
      simp [ofSide, totalQuantity, signedQuantity, hside] <;> omega

theorem lineFills_append_singleton (fills : List FillRow) (row : FillRow) (line : String) :
    lineFills (fills ++ [row]) line =
      if row.line = line then lineFills fills line ++ [row] else lineFills fills line := by
  by_cases h : row.line = line <;> simp [lineFills, h]

/-! ### The invariant -/

/-- Every position stands under its line, each line's fills alternate with the lot it holds as the
purchase still open, and the cash is what the fills left of the start. -/
structure BookInv (start : Int) (b : Book) : Prop where
  keyed : ∀ line p, b.positions.get? line = some p → p.line = line
  turns : ∀ line, ∃ last, InTurn Opens Closes (lineFills b.fills line) last ∧
    b.lot? line = last.map fun row => (row.quantity, row.ref)
  cash : b.cashCents =
    start - totalValue (ofSide .buy b.fills) + totalValue (ofSide .sell b.fills)

namespace BookInv

variable {start : Int} {b b' : Book}

theorem empty (start : Int) : BookInv start ⟨start, .empty, []⟩ where
  keyed _ _ h := by simp at h
  turns _ := ⟨none, .nil, rfl⟩
  cash := by simp [ofSide, totalValue]

theorem sell {p : ReplayPosition} {row : FillRow} (h : BookInv start b)
    (hp : b.positions.get? row.line = some p) (hside : row.side = .sell)
    (hquantity : row.quantity = p.quantity) : BookInv start (b.sell row.line row) where
  keyed line q hq := by
    simp only [Book.sell, Dict.get?_erase] at hq
    split at hq
    · cases hq
    · exact h.keyed line q hq
  turns line := by
    obtain ⟨last, hturns, hlot⟩ := h.turns line
    rw [Book.lot?_sell, Book.sell, lineFills_append_singleton]
    by_cases hline : row.line = line
    · subst hline
      rw [if_pos rfl, if_pos rfl]
      rw [Book.lot?_of_get? hp] at hlot
      obtain ⟨bought, rfl, hbought⟩ := Option.map_eq_some_iff.mp hlot.symm
      have hsame : row.quantity = bought.quantity :=
        hquantity.trans (congrArg Prod.fst hbought).symm
      exact ⟨none, hturns.closed ⟨hturns.opens_last, hside, hsame⟩, rfl⟩
    · rw [if_neg hline, if_neg (Ne.symm hline)]
      exact ⟨last, hturns, hlot⟩
  cash := by
    have hcash := h.cash
    simp only [Book.sell, ofSide, totalValue, List.filter_append, List.map_append,
      List.sum_append] at hcash ⊢
    simp [hside]
    omega

theorem buy {p : ReplayPosition} {row : FillRow} (h : BookInv start b)
    (hnone : b.positions.get? row.line = none) (hside : row.side = .buy)
    (hline : p.line = row.line) (hquantity : p.quantity = row.quantity)
    (href : p.positionRef = row.ref) : BookInv start (b.buy row p) where
  keyed line q hq := by
    simp only [Book.buy, Dict.get?_set] at hq
    split at hq
    · rename_i heq
      rw [← Option.some.inj hq, hline, heq]
    · exact h.keyed line q hq
  turns line := by
    obtain ⟨last, hturns, hlot⟩ := h.turns line
    rw [Book.lot?_buy, Book.buy, lineFills_append_singleton]
    by_cases hl : row.line = line
    · subst hl
      rw [if_pos rfl, if_pos rfl]
      rw [Book.lot?_eq_none.mpr hnone] at hlot
      have hlast : last = none := Option.map_eq_none_iff.mp hlot.symm
      subst hlast
      exact ⟨some row, hturns.opened hside, by rw [hquantity, href, Option.map_some]⟩
    · rw [if_neg hl, if_neg (Ne.symm hl)]
      exact ⟨last, hturns, hlot⟩
  cash := by
    have hcash := h.cash
    simp only [Book.buy, ofSide, totalValue, List.filter_append, List.map_append,
      List.sum_append] at hcash ⊢
    simp [hside]
    omega

theorem revise {p p' : ReplayPosition} {line : String} (h : BookInv start b)
    (hp : b.positions.get? line = some p) (hline : p'.line = p.line)
    (hquantity : p'.quantity = p.quantity) (href : p'.positionRef = p.positionRef) :
    BookInv start (b.revise line p') where
  keyed line' q hq := by
    simp only [Book.revise, Dict.get?_set] at hq
    split at hq
    · rename_i heq
      rw [← Option.some.inj hq, hline, h.keyed line p hp, heq]
    · exact h.keyed line' q hq
  turns line' := by
    obtain ⟨last, hturns, hlot⟩ := h.turns line'
    refine ⟨last, hturns, ?_⟩
    rw [← hlot]
    by_cases heq : line' = line
    · subst heq
      rw [Book.lot?_of_get? hp, Book.lot?, Book.revise, Dict.get?_set_self, Option.map_some,
        hquantity, href]
    · rw [Book.lot?, Book.revise, Dict.get?_set_ne _ _ heq, Book.lot?]
  cash := h.cash

theorem move (h : BookInv start b) (hmove : BookMove b b') : BookInv start b' := by
  cases hmove with
  | sell hp hside hquantity => exact h.sell hp hside hquantity
  | buy hnone hside hline hquantity href => exact h.buy hnone hside hline hquantity href
  | revise hp hline hquantity href => exact h.revise hp hline hquantity href

theorem moves (h : BookInv start b) (hmoves : BookMoves b b') : BookInv start b' := by
  induction hmoves with
  | refl => exact h
  | tail _ hmove ih => exact ih.move hmove

/-- A line holds what its purchases brought less what its sales took. -/
theorem heldQuantity_eq (h : BookInv start b) (line : String) : (heldQuantity b line : Int) =
    totalQuantity (ofSide .buy (lineFills b.fills line)) -
      totalQuantity (ofSide .sell (lineFills b.fills line)) := by
  obtain ⟨last, hturns, hlot⟩ := h.turns line
  have hundone : ∀ bought sold, Closes bought sold →
      signedQuantity bought + signedQuantity sold = 0 := by
    rintro bought sold ⟨hbuy, hsell, hquantity⟩
    simp [signedQuantity, hbuy, hsell, hquantity]
  rw [← sum_signedQuantity, hturns.sum_map signedQuantity hundone]
  cases last with
  | none => rw [heldQuantity, Book.lot?_eq_none.mp hlot]; rfl
  | some row =>
    obtain ⟨p, hp, hpair⟩ := Option.map_eq_some_iff.mp hlot
    have hquantity : p.quantity = row.quantity := congrArg Prod.fst hpair
    rw [heldQuantity, hp, Option.map_some, Option.getD_some, Option.map_some, Option.getD_some,
      signedQuantity, hturns.opens_last, hquantity]

end BookInv

end TradingAgents.Replay
