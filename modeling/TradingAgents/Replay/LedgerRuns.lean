import Mathlib
import TradingAgents.Replay.Session

/-! The ledger over whole replays.  Every session is a chain of moves of the book, and the orders
that it leaves stand against the book that it leaves, so the next session settles them by moves
too. -/

namespace TradingAgents.Replay

open ProofKit Execution

/-- At most one intent a line and session; a buy only of a line that is not held, and else the sale
of what the line holds. -/
structure Proposes (runner : DayInputs → DayResult) : Prop where
  distinct : ∀ inputs, ((runner inputs).approved.map fun i => i.ticker).Nodup
  buys : ∀ inputs, ∀ i ∈ (runner inputs).approved, i.action = .buy →
    i.ticker ∉ inputs.held.map OpenPosition.ticker
  sells : ∀ inputs, ∀ i ∈ (runner inputs).approved, i.action ≠ .buy →
    ∃ p ∈ inputs.held, p.ticker = i.ticker ∧ p.quantity = i.quantity

/-! ### What is held -/

section Held

variable {positions : Dict String ReplayPosition}

theorem mem_sortedItems {item : String × ReplayPosition} :
    item ∈ sortedItems positions ↔ positions.get? item.1 = some item.2 := by
  rw [sortedItems, List.mem_insertionSort, ← Dict.mem_entries_iff]

theorem nodup_sortedItems : ((sortedItems positions).map Prod.fst).Nodup :=
  ((List.perm_insertionSort _ _).map Prod.fst).nodup_iff.mpr positions.nodup

theorem mem_held {p : OpenPosition} : p ∈ held positions ↔
    ∃ q, positions.get? p.ticker = some q ∧ p.quantity = q.quantity ∧
      p.positionRef = q.positionRef := by
  rw [held, List.mem_map]
  constructor
  · rintro ⟨item, hitem, rfl⟩
    exact ⟨item.2, mem_sortedItems.mp hitem, rfl, rfl⟩
  · rintro ⟨q, hq, hquantity, href⟩
    refine ⟨(p.ticker, q), mem_sortedItems.mpr hq, ?_⟩
    cases p
    simp_all

theorem get?_eq_none_of_not_held {line : String}
    (h : line ∉ (held positions).map OpenPosition.ticker) : positions.get? line = none := by
  rw [Option.eq_none_iff_forall_ne_some]
  intro q hq
  have hmem : (⟨line, q.quantity, q.positionRef⟩ : OpenPosition) ∈ held positions :=
    mem_held.mpr ⟨q, hq, rfl, rfl⟩
  exact h (List.mem_map_of_mem (f := OpenPosition.ticker) hmem)

end Held

/-! ### Orders queued for the next session -/

section Queue

variable {r : ReplaySetup} {b : Book} {sessions : List Date} {index : Nat}
  {pending : List PendingOrder} {config : OrderToleranceConfig} {takeProfit : Bool}
  {reason : String} {intents : List PortfolioManager.OrderIntent} {order : PendingOrder}

theorem mem_queueOrders (h : order ∈
      (queueOrders intents sessions index pending config takeProfit reason).1) :
    order ∈ pending ∨ ∃ target, sessions[index + 1]? = some target ∧ ∃ i ∈ intents,
      order = pendingOrder target config takeProfit reason i := by
  unfold queueOrders at h
  split at h
  · exact .inl h
  · rename_i target htarget
    rcases List.mem_append.mp h with h | h
    · exact .inl h
    · obtain ⟨i, hi, rfl⟩ := List.mem_map.mp h
      exact .inr ⟨target, htarget, i, List.mem_of_mem_filter hi, rfl⟩

/-- Queued lines: those waiting, and intents in their order. -/
theorem lines_queueOrders :
    ((queueOrders intents sessions index pending config takeProfit reason).1.map
      PendingOrder.line).Sublist (pending.map PendingOrder.line ++ intents.map fun i =>
        i.ticker) := by
  unfold queueOrders
  split
  · exact List.sublist_append_left _ _
  · rw [List.map_append, List.map_map]
    exact (List.Sublist.refl _).append (List.filter_sublist.map _)

theorem intentSide_eq_buy {i : PortfolioManager.OrderIntent} :
    intentSide i = .buy ↔ i.action = .buy := by
  by_cases h : i.action = .buy <;> simp [intentSide, h]

theorem intentSide_eq_sell {i : PortfolioManager.OrderIntent} :
    intentSide i = .sell ↔ i.action ≠ .buy := by
  by_cases h : i.action = .buy <;> simp [intentSide, h]

/-- The intents of a run that keeps to the rules are placed. -/
theorem Placed.of_approved {runner : DayInputs → DayResult} (h : Proposes runner)
    {inputs : DayInputs} (hheld : inputs.held = held b.positions) :
    Placed b
      (queueOrders (runner inputs).approved sessions index [] config takeProfit reason).1 where
  distinct := lines_queueOrders.nodup (by simpa using h.distinct inputs)
  buys order horder hside := by
    rcases mem_queueOrders horder with hnil | ⟨target, -, i, hi, rfl⟩
    · cases hnil
    · have hnot := h.buys inputs i hi (intentSide_eq_buy.mp hside)
      rw [hheld] at hnot
      exact get?_eq_none_of_not_held hnot
  sells order horder hside p hp := by
    rcases mem_queueOrders horder with hnil | ⟨target, -, i, hi, rfl⟩
    · cases hnil
    · obtain ⟨q, hq, hticker, hquantity⟩ :=
        h.sells inputs i hi (intentSide_eq_sell.mp hside)
      rw [hheld] at hq
      obtain ⟨q', hq', hsame, -⟩ := mem_held.mp hq
      have hp' : b.positions.get? i.ticker = some p := hp
      rw [← hticker, hq'] at hp'
      rw [← Option.some.inj hp']
      exact Int.ofNat_inj.mp (hsame.symm.trans hquantity)

/-- A time exit sells a line that holds its position and has no sale waiting. -/
theorem mem_timeExits {limit : Nat} {positions : Dict String ReplayPosition} {dayBars : DayBars}
    {i : PortfolioManager.OrderIntent}
    (h : i ∈ ExitPolicy.timeExits limit sessions index positions pending dayBars) :
    ∃ p, positions.get? i.ticker = some p ∧ i.action = .sell ∧ i.quantity = p.quantity ∧
      ∀ o ∈ pending, o.side = .sell → o.line ≠ i.ticker := by
  obtain ⟨item, hitem, hi⟩ := List.mem_filterMap.mp h
  split at hi
  · rename_i hcond
    obtain ⟨row, -, hexit⟩ := Option.bind_eq_some_iff.mp hi
    unfold ExitPolicy.timeExit at hexit
    split at hexit
    · cases hexit
      refine ⟨item.2, mem_sortedItems.mp hitem, rfl, rfl, fun o ho hside heq => hcond.1 ?_⟩
      exact List.mem_map.mpr ⟨o, List.mem_filter.mpr ⟨ho, by simpa using hside⟩, heq⟩
    · cases hexit
  · cases hi

theorem nodup_timeExits {limit : Nat} {positions : Dict String ReplayPosition}
    {dayBars : DayBars} : ((ExitPolicy.timeExits limit sessions index positions pending
      dayBars).map fun i => i.ticker).Nodup := by
  have hsublist : ∀ items : List (String × ReplayPosition), ∀ pick : String × ReplayPosition →
      Option PortfolioManager.OrderIntent, (∀ item i, pick item = some i → i.ticker = item.1) →
      ((items.filterMap pick).map fun i => i.ticker).Sublist (items.map Prod.fst) := by
    intro items pick hpick
    induction items with
    | nil => simp
    | cons item items ih =>
      rw [List.filterMap_cons, List.map_cons]
      split
      · exact ih.cons _
      · rename_i i hi
        rw [List.map_cons, hpick item i hi]
        exact ih.cons_cons _
  refine (hsublist _ _ fun item i hi => ?_).nodup nodup_sortedItems
  split at hi
  · obtain ⟨row, -, hexit⟩ := Option.bind_eq_some_iff.mp hi
    unfold ExitPolicy.timeExit at hexit
    split at hexit
    · cases hexit; rfl
    · cases hexit
  · cases hi

/-- Time exits are placed beside the orders before them. -/
theorem Placed.of_timeExits (h : Placed b pending) {limit : Nat} {dayBars : DayBars} :
    Placed b (queueOrders (ExitPolicy.timeExits limit sessions index b.positions pending dayBars)
      sessions index pending config takeProfit reason).1 where
  distinct := by
    refine lines_queueOrders.nodup (List.nodup_append.mpr ⟨h.distinct, nodup_timeExits, ?_⟩)
    rintro line hline _ hexit rfl
    obtain ⟨o, ho, rfl⟩ := List.mem_map.mp hline
    obtain ⟨i, hi, hticker⟩ := List.mem_map.mp hexit
    obtain ⟨p, hp, -, -, hfree⟩ := mem_timeExits hi
    have hheld : b.positions.get? o.line = some p := hticker ▸ hp
    cases hside : o.side with
    | buy => exact absurd (h.buys o ho hside) (by simp [hheld])
    | sell => exact hfree o ho hside hticker.symm
  buys order horder hside := by
    rcases mem_queueOrders horder with hold | ⟨target, -, i, hi, rfl⟩
    · exact h.buys order hold hside
    · obtain ⟨-, -, hsell, -⟩ := mem_timeExits hi
      have hbuy := intentSide_eq_buy.mp hside
      rw [hsell] at hbuy
      cases hbuy
  sells order horder hside p hp := by
    rcases mem_queueOrders horder with hold | ⟨target, -, i, hi, rfl⟩
    · exact h.sells order hold hside p hp
    · obtain ⟨q, hq, -, hquantity, -⟩ := mem_timeExits hi
      have hsame : q = p := Option.some.inj (hq.symm.trans hp)
      exact (hquantity.trans (by rw [hsame])).symm

/-- What the day run leaves is placed, and for the next session. -/
theorem queueDay_placed {policy : ExitPolicy} {runner : DayInputs → DayResult}
    (h : Proposes runner) {inputs : DayInputs} (hheld : inputs.held = held b.positions)
    {dayBars : DayBars} :
    Placed b (policy.queueDay index sessions b.positions [] dayBars (runner inputs).approved
      config) ∧
    ∀ o ∈ policy.queueDay index sessions b.positions [] dayBars (runner inputs).approved config,
      sessions[index + 1]? = some o.targetSession := by
  have happroved : ∀ o ∈ (queueOrders (runner inputs).approved sessions index [] config
      policy.takeProfit "limit").1, sessions[index + 1]? = some o.targetSession := by
    intro o ho
    rcases mem_queueOrders ho with hnil | ⟨target, htarget, i, -, rfl⟩
    · cases hnil
    · exact htarget
  simp only [ExitPolicy.queueDay]
  split
  · exact ⟨.of_approved h hheld, happroved⟩
  · refine ⟨(Placed.of_approved h hheld).of_timeExits, fun o ho => ?_⟩
    rcases mem_queueOrders ho with hfirst | ⟨target, htarget, i, -, rfl⟩
    · exact happroved o hfirst
    · exact htarget

end Queue

/-! ### One session -/

theorem raiseStops_reduces {start : Int} {policy : ExitPolicy} {session : Date} {dayBars : DayBars}
    {b : Book} (hb : BookInv start b) : Reduces b (policy.raiseStops session dayBars b) := by
  unfold ExitPolicy.raiseStops
  split
  · refine Reduces.foldl_positions (fun b line p hp _ => ?_) hb
    simp only [ExitPolicy.raiseStop]
    split
    · exact .refl b line
    · split
      · exact .refl b line
      · exact .revise hp rfl rfl rfl
  · exact .refl b

section Session

variable {r : ReplaySetup} {start : Int} {index : Nat} {session : Date} {s : ReplayState}

/-- The broker and the calendar move the book. -/
theorem settleSession_moves (hb : BookInv start s.book) (hplaced : Placed s.book s.pending) :
    BookMoves s.book (r.settleSession index session s).book := by
  let rebased := applyAdjustmentRebases session r.lineBars r.knownMoves s.book
  let stopped := settleStops r.isoformat (r.dateBars session) r.slippageBps rebased.lines
    rebased.book
  let settled := settlePending r.isoformat session (nextSession r.sessions index session) s.pending
    (r.dateBars session) r.slippageBps stopped
  let ended := exitEndedPositions r.isoformat session r.lineBars r.episodes settled.book
  have hrebased : Reduces s.book rebased.book := applyAdjustmentRebases_reduces
  have hb₁ := hb.moves hrebased.moves
  have hstopped : Reduces rebased.book stopped := settleStops_reduces hb₁
  have hb₂ := hb₁.moves hstopped.moves
  have hsettled : BookMoves stopped settled.book :=
    settlePending_moves ((hplaced.reduces hrebased).reduces hstopped)
  have hb₃ := hb₂.moves hsettled
  have hended : Reduces settled.book ended := exitEndedPositions_reduces hb₃
  have hraised : Reduces ended (r.exits.raiseStops session (r.dateBars session) ended) :=
    raiseStops_reduces (hb₃.moves hended.moves)
  exact hrebased.moves.trans (hstopped.moves.trans
    (hsettled.trans (hended.moves.trans hraised.moves)))

/-- Between two sessions the book is balanced, and the orders that wait are placed in it and for
the session to come. -/
structure RunInv (r : ReplaySetup) (k : Nat) (s : ReplayState) : Prop where
  book : BookInv (wholeCents r.startingCash) s.book
  placed : Placed s.book s.pending
  targets : ∀ order ∈ s.pending, r.sessions[k]? = some order.targetSession

theorem RunInv.sessionStep (hrunner : Proposes r.dayRunner) {k : Nat} (h : RunInv r k s)
    (hsession : r.sessions[k]? = some session) :
    BookMoves s.book (r.sessionStep s (session, k)).book ∧
      RunInv r (k + 1) (r.sessionStep s (session, k)) := by
  have hmoves : BookMoves s.book (r.settleSession k session s).book :=
    settleSession_moves h.book h.placed
  -- every order that waited was for this session, so none waits on
  have hwaiting : s.pending.filter (fun o => decide (session < o.targetSession)) = [] := by
    refine List.filter_eq_nil_iff.mpr fun o ho => ?_
    have htarget := (h.targets o ho).symm.trans hsession
    rw [Option.some.inj htarget]
    simp
  have hheld : (r.dayInputs session (r.settleSession k session s)).held =
      held (r.settleSession k session s).book.positions := rfl
  refine ⟨hmoves, h.book.moves hmoves, ?_, ?_⟩
  · simp only [ReplaySetup.sessionStep, hwaiting]
    exact (queueDay_placed hrunner hheld).1
  · simp only [ReplaySetup.sessionStep, hwaiting]
    exact (queueDay_placed hrunner hheld).2

end Session

/-! ### Whole replays -/

theorem runInv_stateAfter {r : ReplaySetup} (hrunner : Proposes r.dayRunner) {k : Nat}
    (hk : k ≤ r.sessions.length) : RunInv r k (r.stateAfter k) := by
  refine r.stateAfter_induction (P := RunInv r) ⟨.empty _, .nil _, by simp [ReplaySetup.start]⟩
    (fun k session s hsession h => (h.sessionStep hrunner hsession).2) hk

/-- What the book of a replay shows: a line holds what it bought less what it sold, its fills are
pairs of a purchase and the sale that closes it and then the purchase of the lot it still holds,
and the cash is what these fills left of the start. -/
structure Balanced (r : ReplaySetup) (b : Book) : Prop where
  held : ∀ line, (heldQuantity b line : Int) =
    totalQuantity (ofSide .buy (lineFills b.fills line)) -
      totalQuantity (ofSide .sell (lineFills b.fills line))
  closes : ∀ line, ∃ (closed : List (FillRow × FillRow)) (last : Option FillRow),
    lineFills b.fills line = closed.flatMap (fun p => [p.1, p.2]) ++ last.toList ∧
    (∀ p ∈ closed, Closes p.1 p.2) ∧ (∀ row ∈ last, Opens row) ∧
    b.lot? line = last.map fun row => (row.quantity, row.ref)
  cash : b.cashCents = wholeCents r.startingCash - totalValue (ofSide .buy b.fills) +
    totalValue (ofSide .sell b.fills)

theorem BookInv.balanced {r : ReplaySetup} {b : Book}
    (h : BookInv (wholeCents r.startingCash) b) : Balanced r b where
  held := h.heldQuantity_eq
  closes line := by
    obtain ⟨last, hturns, hlot⟩ := h.turns line
    obtain ⟨closed, hfills, hclosed⟩ := hturns.pairs
    refine ⟨closed, last, hfills, fun p hp => (hclosed p hp).2, ?_, hlot⟩
    rintro row hrow
    rw [Option.mem_def] at hrow
    subst hrow
    exact hturns.opens_last
  cash := h.cash

/-- After every session of every replay the book is balanced, and each session changes it by moves:
it buys only into a line that holds nothing and sells only the whole of what a line holds. -/
theorem runs_balanced (r : ReplaySetup) (hrunner : Proposes r.dayRunner) (k : Nat) :
    Balanced r (r.stateAfter k).book ∧
      BookMoves (r.stateAfter k).book (r.stateAfter (k + 1)).book := by
  rcases Nat.lt_or_ge k r.sessions.length with hlt | hge
  · have hinv := runInv_stateAfter hrunner hlt.le
    have hsession : r.sessions[k]? = some r.sessions[k] := List.getElem?_eq_getElem hlt
    refine ⟨hinv.book.balanced, ?_⟩
    rw [r.stateAfter_succ hsession]
    exact (hinv.sessionStep hrunner hsession).1
  · rw [r.stateAfter_of_le hge, r.stateAfter_of_le (hge.trans k.le_succ)]
    exact ⟨(runInv_stateAfter hrunner le_rfl).book.balanced, .refl⟩

/-! ### A line bought, stopped out and bought again -/

section StoppedOut

theorem one_le_tenShares : 1 ≤ 10 := by decide

theorem twentieth_nonneg : (0 : ℚ) ≤ 1 / 20 := by norm_num

theorem twentieth_le_one : (1 / 20 : ℚ) ≤ 1 := by norm_num

def tenShares : PortfolioManager.OrderIntent where
  ticker := "AAA"
  action := .buy
  quantity := 10
  estPrice := ⟨100, "USD"⟩
  stopPct := some ⟨1 / 20, twentieth_nonneg, twentieth_le_one⟩
  quantity_pos := one_le_tenShares

/-- Buy whenever nothing is held. -/
def buyWhenFlat (inputs : DayInputs) : DayResult :=
  ⟨[], [], if inputs.held = [] then [tenShares] else [], []⟩

theorem buyWhenFlat_proposes : Proposes buyWhenFlat where
  distinct inputs := by
    simp only [buyWhenFlat]
    split <;> simp
  buys inputs i hi _ := by
    simp only [buyWhenFlat] at hi
    split at hi
    · rename_i hheld
      rw [hheld]
      simp
    · cases hi
  sells inputs i hi haction := by
    simp only [buyWhenFlat] at hi
    split at hi
    · rw [List.mem_singleton.mp hi] at haction
      exact absurd rfl haction
    · cases hi

/-- Bars at a hundred, but for a fall to ninety in the third session. -/
def fallingBar (day : Date) : BarRow :=
  ⟨"AAA", day, 100, 101, if day = 3 then 90 else 99, if day = 3 then 92 else 100, 1000⟩

def stoppedOut : ReplaySetup where
  isoformat day := s!"day {day}"
  dayRunner := buyWhenFlat
  startingCash := 10000
  tolerance := ⟨.flat, 50, 1, 10, 100⟩
  lookbackDays _ := 30
  requiredHistoryBars := 2
  sessions := [1, 2, 3, 4]
  lineBars := barsByLine ([1, 2, 3, 4].map fallingBar)
  dateBars := barsByDate ([1, 2, 3, 4].map fallingBar)
  episodes := [⟨"AAA", 1, 4⟩]
  benchmark _ := none
  vix _ := none
  sectors := .empty

theorem stoppedOut_balanced :
    (stoppedOut.stateAfter 4).book.fills.map (fun row => (row.side, row.reason, row.priceCents)) =
      [(.buy, "limit", 10010), (.sell, "stop", 9499), (.buy, "limit", 10010)] ∧
    Balanced stoppedOut (stoppedOut.stateAfter 4).book ∧
    BookMoves (stoppedOut.stateAfter 4).book (stoppedOut.stateAfter 5).book :=
  ⟨by decide +kernel, runs_balanced stoppedOut buyWhenFlat_proposes 4⟩

end StoppedOut

end TradingAgents.Replay
