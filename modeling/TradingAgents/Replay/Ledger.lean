import Mathlib
import TradingAgents.PortfolioManager.Portfolio
import TradingAgents.Replay.Book

/-! The ledger of the replay: intents queued as DAY limits for the next session, protective stops
settled against the bars of a session, and the queued orders settled after them. -/

namespace TradingAgents.Replay

open ProofKit Execution

/-! ### Queued orders -/

def moneyCents (value : Money) : Int := roundHalfEven (value.amount * 100)

/-- An intent is queued as a sale unless it buys. -/
def intentSide (intent : PortfolioManager.OrderIntent) : Side :=
  if intent.action = .buy then .buy else .sell

def withoutStop (intent : PortfolioManager.OrderIntent) : Bool :=
  decide (intentSide intent = .buy) && intent.stopPct.isNone

def pendingOrder (target : Date) (config : OrderToleranceConfig) (takeProfit : Bool)
    (reason : String) (intent : PortfolioManager.OrderIntent) : PendingOrder where
  line := intent.ticker
  side := intentSide intent
  quantity := intent.quantity
  limitCents := moneyCents
    (resolveOrderTolerance intent.toOrderIntent (intentSide intent) config).appliedLimitPrice
  targetSession := target
  stopPct := (intent.stopPct.map PortfolioManager.Fraction.value).getD 0
  targetPct := if takeProfit ∧ intentSide intent = .buy then
    intent.targetPct.map PortfolioManager.Fraction.value else none
  reason := reason

/-- Queue each intent as a DAY limit for the next session; count the buys without a stop, which are
not queued.  With `takeProfit`, a buy carries its intent's target. -/
def queueOrders (intents : List PortfolioManager.OrderIntent) (sessions : List Date) (index : Nat)
    (pending : List PendingOrder) (config : OrderToleranceConfig) (takeProfit : Bool)
    (reason : String) : List PendingOrder × Nat :=
  match sessions[index + 1]? with
  | none => (pending, 0)
  | some target =>
    (pending ++ (intents.filter fun i => !withoutStop i).map
        (pendingOrder target config takeProfit reason),
      (intents.filter withoutStop).length)

/-! ### Settlement -/

/-- The bars of one session by line. -/
abbrev DayBars := String → Option BarRow

def nextSession (sessions : List Date) (index : Nat) (session : Date) : Date :=
  sessions[index + 1]?.getD session

section Settle

variable (isoformat : Date → String)

def fillRow (fill : ReplayFill) (priceCents : Option Int) : FillRow :=
  ⟨isoformat fill.date, fill.line, fill.side, fill.quantity, priceCents.getD fill.priceCents,
    fill.reason⟩

def settleStop (bars : DayBars) (slippageBps : Int) (skipLines : List String) (b : Book)
    (item : String × ReplayPosition) : Book :=
  if item.1 ∈ skipLines then b
  else match (bars item.1).bind fun row => simulateStopFill item.2 (replayBar row) slippageBps with
    | none => b
    | some fill =>
      b.sell item.1 (fillRow isoformat fill (some (positionPriceCents item.2 fill.priceCents)))

/-- Settle the stops and take-profits of the positions, but for the lines rebased today. -/
def settleStops (bars : DayBars) (slippageBps : Int) (skipLines : List String) (b : Book) : Book :=
  b.positions.entries.foldl (settleStop isoformat bars slippageBps skipLines) b

structure PendingSettlement where
  book : Book
  expired : Nat := 0
  noBar : Nat := 0
  sellWithoutPosition : Nat := 0

/-- The position that a filled buy opens; its stop works from the session after the fill. -/
def openedPosition (session next : Date) (order : PendingOrder) (fill : ReplayFill) :
    ReplayPosition where
  line := fill.line
  quantity := fill.quantity
  entryPriceCents := fill.priceCents
  stopPriceCents := stopPriceCents fill.priceCents order.stopPct
  opened := session
  stopActiveFrom := next
  positionRef := fill.line ++ "-" ++ isoformat session
  targetPriceCents := targetPriceCents fill.priceCents order.targetPct
  stopPct := order.stopPct

/-- Record the fill of a queued order; a sale whose stop or target filled first is dropped. -/
def recordFill (session next : Date) (s : PendingSettlement) (order : PendingOrder)
    (fill : ReplayFill) : PendingSettlement :=
  match fill.side with
  | .buy =>
    let row := fillRow isoformat fill none
    { s with book := s.book.buy row (openedPosition isoformat session next order fill) }
  | .sell =>
    match s.book.positions.get? fill.line with
    | none => { s with sellWithoutPosition := s.sellWithoutPosition + 1 }
    | some position =>
      let row := fillRow isoformat fill (some (positionPriceCents position fill.priceCents))
      { s with book := s.book.sell fill.line row }

def settleOrder (session next : Date) (bars : DayBars) (slippageBps : Int) (s : PendingSettlement)
    (order : PendingOrder) : PendingSettlement :=
  if order.targetSession ≠ session then s
  else match bars order.line with
    | none => { s with expired := s.expired + 1, noBar := s.noBar + 1 }
    | some row =>
      match simulateLimitFill order (replayBar row) slippageBps with
      | none => { s with expired := s.expired + 1 }
      | some fill => recordFill isoformat session next s order fill

/-- Settle the queued orders of a session, in the order in which they were queued. -/
def settlePending (session next : Date) (pending : List PendingOrder) (bars : DayBars)
    (slippageBps : Int) (b : Book) : PendingSettlement :=
  pending.foldl (settleOrder isoformat session next bars slippageBps) { book := b }

end Settle

/-! ### Moves that open nothing -/

/-- Moves after which each line holds the lot it held, or nothing. -/
structure Reduces (b b' : Book) : Prop where
  moves : BookMoves b b'
  lots : ∀ line, b'.lot? line = none ∨ b'.lot? line = b.lot? line

namespace Reduces

variable {b b' b'' : Book}

theorem refl (b : Book) : Reduces b b := ⟨.refl, fun _ => .inr rfl⟩

theorem trans (h : Reduces b b') (h' : Reduces b' b'') : Reduces b b'' where
  moves := h.moves.trans h'.moves
  lots line := by
    rcases h'.lots line with hnone | hsame
    · exact .inl hnone
    · rw [hsame]
      exact h.lots line

theorem sell {p : ReplayPosition} {row : FillRow} (hp : b.positions.get? row.line = some p)
    (hside : row.side = .sell) (hquantity : row.quantity = p.quantity) :
    Reduces b (b.sell row.line row) where
  moves := .single (.sell hp hside hquantity)
  lots line := by
    rw [Book.lot?_sell]
    split
    · exact .inl rfl
    · exact .inr rfl

theorem revise {p p' : ReplayPosition} {line : String} (hp : b.positions.get? line = some p)
    (hline : p'.line = p.line) (hquantity : p'.quantity = p.quantity)
    (href : p'.positionRef = p.positionRef) : Reduces b (b.revise line p') where
  moves := .single (.revise hp hline hquantity href)
  lots line' := by
    right
    by_cases heq : line' = line
    · subst heq
      rw [Book.lot?_of_get? hp, Book.lot?, Book.revise, Dict.get?_set_self, Option.map_some,
        hquantity, href]
    · rw [Book.lot?, Book.revise, Dict.get?_set_ne _ _ heq, Book.lot?]

/-- A step on the line of an item: it reduces the book and leaves the other lines alone. -/
structure ItemStep (b b' : Book) (line : String) : Prop where
  reduces : Reduces b b'
  others : ∀ line', line' ≠ line → b'.positions.get? line' = b.positions.get? line'

theorem ItemStep.refl (b : Book) (line : String) : ItemStep b b line :=
  ⟨.refl b, fun _ _ => rfl⟩

theorem ItemStep.sell {p : ReplayPosition} {row : FillRow}
    (hp : b.positions.get? row.line = some p) (hside : row.side = .sell)
    (hquantity : row.quantity = p.quantity) : ItemStep b (b.sell row.line row) row.line :=
  ⟨.sell hp hside hquantity, fun line' hne => by rw [Book.sell, Dict.get?_erase, if_neg hne]⟩

theorem ItemStep.revise {p p' : ReplayPosition} {line : String}
    (hp : b.positions.get? line = some p) (hline : p'.line = p.line)
    (hquantity : p'.quantity = p.quantity) (href : p'.positionRef = p.positionRef) :
    ItemStep b (b.revise line p') line :=
  ⟨.revise hp hline hquantity href, fun _ hne => Dict.get?_set_ne _ _ hne⟩

/-- A loop over distinct lines, each still holding what its item says. -/
theorem foldl_items {step : Book → String × ReplayPosition → Book}
    (hstep : ∀ b line p, b.positions.get? line = some p → p.line = line →
      ItemStep b (step b (line, p)) line) {items : List (String × ReplayPosition)}
    (hnodup : (items.map Prod.fst).Nodup)
    (hitems : ∀ item ∈ items, b.positions.get? item.1 = some item.2 ∧ item.2.line = item.1) :
    Reduces b (items.foldl step b) := by
  induction items generalizing b with
  | nil => exact .refl b
  | cons item items ih =>
    rw [List.map_cons, List.nodup_cons] at hnodup
    obtain ⟨hheld, hline⟩ := hitems item (by simp)
    have hitem := hstep b item.1 item.2 hheld hline
    refine hitem.reduces.trans (ih hnodup.2 fun other hother => ?_)
    have hne : other.1 ≠ item.1 := fun heq =>
      hnodup.1 (heq ▸ List.mem_map_of_mem (f := Prod.fst) hother)
    obtain ⟨hother', hline'⟩ := hitems other (by simp [hother])
    exact ⟨(hitem.others other.1 hne).trans hother', hline'⟩

/-- A loop over the book's own positions. -/
theorem foldl_positions {start : Int} {step : Book → String × ReplayPosition → Book}
    (hstep : ∀ b line p, b.positions.get? line = some p → p.line = line →
      ItemStep b (step b (line, p)) line) (hb : BookInv start b) :
    Reduces b (b.positions.entries.foldl step b) := by
  refine foldl_items hstep b.positions.nodup fun item hitem => ?_
  have hheld : b.positions.get? item.1 = some item.2 := Dict.mem_entries_iff.mp hitem
  exact ⟨hheld, hb.keyed item.1 item.2 hheld⟩

end Reduces

variable {isoformat : Date → String} {b b' : Book}

theorem settleStops_reduces {start : Int} {bars : DayBars} {slippageBps : Int}
    {skipLines : List String} (hb : BookInv start b) :
    Reduces b (settleStops isoformat bars slippageBps skipLines b) := by
  refine Reduces.foldl_positions (fun b line p hp hline => ?_) hb
  unfold settleStop
  split
  · exact .refl b line
  · split
    · exact .refl b line
    · rename_i fill hfill
      obtain ⟨row, -, hrow⟩ := Option.bind_eq_some_iff.mp hfill
      obtain ⟨priceCents, reason, rfl⟩ := simulateStopFill_eq_some hrow
      subst hline
      exact .sell hp rfl rfl

/-! ### Queued orders against a book -/

/-- At most one order a line: a buy where the line holds nothing, or the sale of what it holds. -/
structure Placed (b : Book) (pending : List PendingOrder) : Prop where
  distinct : (pending.map PendingOrder.line).Nodup
  buys : ∀ order ∈ pending, order.side = .buy → b.positions.get? order.line = none
  sells : ∀ order ∈ pending, order.side = .sell → ∀ p, b.positions.get? order.line = some p →
    p.quantity = order.quantity

namespace Placed

variable {pending : List PendingOrder} {order : PendingOrder}

theorem nil (b : Book) : Placed b [] := ⟨by simp, by simp, by simp⟩

/-- Orders stay placed while their lines keep their lots or lose them. -/
theorem of_lots (h : Placed b pending)
    (hlots : ∀ o ∈ pending, b'.lot? o.line = none ∨ b'.lot? o.line = b.lot? o.line) :
    Placed b' pending where
  distinct := h.distinct
  buys o ho hside := by
    rw [← Book.lot?_eq_none]
    rcases hlots o ho with hnone | hsame
    · exact hnone
    · rw [hsame, Book.lot?_eq_none]
      exact h.buys o ho hside
  sells o ho hside p hp := by
    have hlot := Book.lot?_of_get? hp
    rcases hlots o ho with hnone | hsame
    · rw [hnone] at hlot
      cases hlot
    · obtain ⟨q, hq, hpair⟩ := Option.map_eq_some_iff.mp (hsame.symm.trans hlot)
      have hquantity : q.quantity = p.quantity := congrArg Prod.fst hpair
      rw [← hquantity]
      exact h.sells o ho hside q hq

theorem reduces (h : Placed b pending) (hb : Reduces b b') : Placed b' pending :=
  h.of_lots fun o _ => hb.lots o.line

/-- The orders after the first stay placed when only its line changes. -/
theorem tail (h : Placed b (order :: pending))
    (hothers : ∀ line, line ≠ order.line → b'.lot? line = b.lot? line) : Placed b' pending := by
  have hdistinct := h.distinct
  rw [List.map_cons, List.nodup_cons] at hdistinct
  have htail : Placed b pending :=
    ⟨hdistinct.2, fun o ho => h.buys o (by simp [ho]), fun o ho => h.sells o (by simp [ho])⟩
  refine htail.of_lots fun o ho => .inr (hothers o.line fun heq => ?_)
  exact hdistinct.1 (heq ▸ List.mem_map_of_mem (f := PendingOrder.line) ho)

end Placed

section Settle

variable {session next : Date} {bars : DayBars} {slippageBps : Int} {s : PendingSettlement}
  {order : PendingOrder} {pending : List PendingOrder}

/-- The fill of a placed order is a move of its line. -/
theorem recordFill_moves {fill : ReplayFill} (h : Placed s.book (order :: pending))
    (hdate : fill.date = session) (hline : fill.line = order.line) (hside : fill.side = order.side)
    (hquantity : fill.quantity = order.quantity) :
    BookMoves s.book (recordFill isoformat session next s order fill).book ∧
      ∀ line, line ≠ order.line →
        (recordFill isoformat session next s order fill).book.lot? line = s.book.lot? line := by
  unfold recordFill
  split
  · rename_i hbuy
    have hnone : s.book.positions.get? fill.line = none := by
      rw [hline]
      exact h.buys order (by simp) (hside.symm.trans hbuy)
    refine ⟨.single (.buy hnone hbuy rfl rfl ?_), fun line hne => ?_⟩
    · rw [openedPosition, FillRow.ref, fillRow, hdate]
    · rw [Book.lot?_buy, if_neg]
      exact fun heq => hne (heq.trans hline)
  · rename_i hsell
    split
    · exact ⟨.refl, fun _ _ => rfl⟩
    · rename_i p hp
      have hsame : p.quantity = order.quantity :=
        h.sells order (by simp) (hside.symm.trans hsell) p (hline ▸ hp)
      refine ⟨.single (.sell (p := p) hp hsell (hquantity.trans hsame.symm)), fun line hne => ?_⟩
      rw [Book.lot?_sell, if_neg]
      exact fun heq => hne (heq.trans hline)

theorem settleOrder_moves (h : Placed s.book (order :: pending)) :
    BookMoves s.book (settleOrder isoformat session next bars slippageBps s order).book ∧
      Placed (settleOrder isoformat session next bars slippageBps s order).book pending := by
  unfold settleOrder
  split
  · exact ⟨.refl, h.tail fun _ _ => rfl⟩
  · rename_i htarget
    split
    · exact ⟨.refl, h.tail fun _ _ => rfl⟩
    · split
      · exact ⟨.refl, h.tail fun _ _ => rfl⟩
      · rename_i fill hfill
        obtain ⟨hbar, hdate, hline, hside, hquantity⟩ := simulateLimitFill_eq_some hfill
        have hsession : fill.date = session := hdate.trans (hbar.trans (not_not.mp htarget))
        obtain ⟨hmoves, hothers⟩ := recordFill_moves h
          hsession hline hside hquantity
        exact ⟨hmoves, h.tail hothers⟩

/-- Placed orders settle by moves of the book. -/
theorem settlePending_moves (h : Placed b pending) :
    BookMoves b (settlePending isoformat session next pending bars slippageBps b).book := by
  suffices hall : ∀ s : PendingSettlement, Placed s.book pending → BookMoves s.book
      (pending.foldl (settleOrder isoformat session next bars slippageBps) s).book from
    hall { book := b } h
  clear h
  intro s h
  induction pending generalizing s with
  | nil => exact .refl
  | cons order pending ih =>
    obtain ⟨hmoves, hrest⟩ := settleOrder_moves
      h
    exact hmoves.trans (ih _ hrest)

end Settle

end TradingAgents.Replay
