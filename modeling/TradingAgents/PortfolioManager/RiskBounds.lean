import TradingAgents.PortfolioManager.BookFacts
import TradingAgents.PortfolioManager.Risk

/-! The joint caps of an evaluation.  The exits of a batch come first and only give room back; then
each entry is checked against everything that the entries before it have taken, so the caps hold of
all of them together. -/

namespace TradingAgents.PortfolioManager

open ProofKit ProofKit.Fallible
open scoped List

/-! ### The decisions -/

/-- The gates of an entry all passed. -/
theorem positionRejection_entry {settings : Settings} {item : Recommendation} {quantity : Int}
    {price : Money} {portfolio : PortfolioState} {reserved existing : ℚ}
    {openIssuers : Finset String}
    {issuer : String}
    (h : positionRejection item.ticker (positionOutcomes settings item quantity price portfolio
      reserved openIssuers issuer existing) = none) :
    existing + quantity * price.amount ≤ settings.maxPositionPct * portfolio.equityValue ∧
      (settings.minOrderQuantity : Int) ≤ quantity ∧
      ((if issuer = "" then item.ticker else issuer) ∈ openIssuers ∨
        openIssuers.card < settings.maxPositions) ∧
      quantity * price.amount ≤ portfolio.availableForBuys settings.cashBufferPct reserved := by
  rw [positionRejection, List.findSome?_eq_none_iff] at h
  simp only [positionOutcomes, List.mem_cons, List.not_mem_nil, or_false, forall_eq_or_imp,
    forall_eq, GateOutcome.ofTest] at h
  obtain ⟨h1, h2, h3, h4⟩ := h
  refine ⟨?_, ?_, ?_, ?_⟩
  · by_contra hnot
    simp [hnot, show positionGateReasons.get? gateSizing = some "sizing" from rfl] at h1
  · by_contra hnot
    simp [hnot, show positionGateReasons.get? gateMinOrderQuantity = some "below_min_quantity"
      from rfl] at h2
  · by_contra hnot
    rw [not_or] at hnot
    simp [hnot.1, hnot.2, show positionGateReasons.get? gateMaxPositions = some "max_positions"
      from rfl] at h3
  · by_contra hnot
    simp [hnot, show positionGateReasons.get? gateCashAvailable = some "insufficient_cash"
      from rfl] at h4

theorem positionRejection_exit {settings : Settings} {ticker : String} {quantity : Int}
    (h : positionRejection ticker (exitOutcomes settings quantity) = none) :
    (settings.minOrderQuantity : Int) ≤ quantity := by
  rw [positionRejection, List.findSome?_eq_none_iff] at h
  have h2 := h (.ofTest gateMinOrderQuantity
    (decide ((settings.minOrderQuantity : Int) ≤ quantity)))
    (by simp [exitOutcomes])
  by_contra hnot
  simp [GateOutcome.ofTest, hnot, show positionGateReasons.get? gateMinOrderQuantity =
    some "below_min_quantity" from rfl] at h2

/-- The rejections name the ticker they are about. -/
theorem positionRejection_ticker {ticker : String} {outcomes : List GateOutcome} {r : RejectedOrder}
    (h : positionRejection ticker outcomes = some r) : r.ticker = ticker := by
  obtain ⟨outcome, -, h⟩ := List.exists_of_findSome?_eq_some h
  split at h
  · split at h
    · cases h
      rfl
    · cases h
  · cases h

theorem sectorRejection_ticker {ticker : String} {outcomes prior : List GateOutcome}
    {r : RejectedOrder} (h : sectorRejection ticker outcomes prior = some r) : r.ticker =
      ticker := by
  obtain ⟨reason, -, rfl⟩ := Option.map_eq_some_iff.mp h
  rfl

theorem rewardRiskRejection_ticker {ticker : String} {report : StopTarget}
    {prior : List GateOutcome}
    {r : RejectedOrder} (h : rewardRiskRejection ticker report prior = some r) :
    r.ticker = ticker := by
  simp only [rewardRiskRejection] at h
  split at h
  · cases h
    rfl
  · split at h
    · cases h
      rfl
    · cases h

/-- An order of at least one share is built, for the shares it was sized to. -/
theorem orderOf_ok {settings : Settings} {quantity : Int} (item : Recommendation) (action : Action)
    (price : Money) (ref : Option String) (stop target : Option Fraction) (gates : List GateOutcome)
    (h : (settings.minOrderQuantity : Int) ≤ quantity) :
    ∃ o, orderOf item action quantity price ref stop target gates = .ok o ∧
      o.ticker = item.ticker ∧ o.action = action ∧ o.cost = quantity * price.amount := by
  have hmin := settings.minOrderQuantity_pos
  have hquantity : 1 ≤ quantity.toNat := by omega
  refine ⟨_, dif_pos hquantity, rfl, rfl, ?_⟩
  have hcast : ((quantity.toNat : Nat) : ℚ) = (quantity : ℚ) := by
    have h : ((quantity.toNat : Nat) : Int) = quantity := Int.toNat_of_nonneg (by omega)
    exact_mod_cast congrArg (Int.cast : Int → ℚ) h
  rw [OrderIntent.cost, hcast]

namespace Evaluation

variable {e : Evaluation} {item : Recommendation}

/-- An exit is decided: an order for the ticker, or a rejection of it. -/
theorem decideExit_ok (price : Money) (book : SectorBook)
    (hheld : e.portfolio.positions.get? item.ticker ≠ none) :
    (∃ o, e.decideExit item price book = .ok (.inl o) ∧ o.ticker = item.ticker ∧
      o.action = .sell) ∨
    ∃ r, e.decideExit item price book = .ok (.inr r) ∧ r.ticker = item.ticker := by
  obtain ⟨quantity, hquantity⟩ := Option.ne_none_iff_exists'.mp hheld
  simp only [decideExit, hquantity]
  cases hgates : positionRejection item.ticker (exitOutcomes e.settings quantity) with
  | some r => exact .inr ⟨r, rfl, positionRejection_ticker hgates⟩
  | none =>
    obtain ⟨o, ho, hticker, haction, -⟩ := orderOf_ok item .sell price
      (e.portfolio.positionRefs.get? item.ticker) none none (exitOutcomes e.settings quantity ++
        book.exitOutcomes e.caseMap item e.settings.maxNamesPerSector)
          (positionRejection_exit hgates)
    exact .inl ⟨o, by simp only [ho]; rfl, hticker, haction⟩

/-- What an entry that the gates let through is known to fit into. -/
structure Fits (e : Evaluation) (item : Recommendation) (book : SectorBook) (reserved : ℚ)
    (openIssuers : Finset String) (cost : ℚ) : Prop where
  issuer : book.issuerValue (book.issuerFor e.caseMap item.ticker) + cost ≤
    e.settings.maxPositionPct * e.portfolio.equityValue
  room : (if book.issuerFor e.caseMap item.ticker = "" then item.ticker
      else book.issuerFor e.caseMap item.ticker) ∈ openIssuers ∨
    openIssuers.card < e.settings.maxPositions
  cash : cost ≤ e.portfolio.availableForBuys e.settings.cashBufferPct reserved

/-- What raises on an entry: a whole share count of more digits than the decimal precision has, or
the arithmetic of a correlation. -/
def EntryRaises (e : Evaluation) (item : Recommendation) (price : Money) (book : SectorBook) :
    EvaluationError → Prop
  | .divisionImpossible => (10 : Int) ^ decimalPrecision ≤
      ⌊e.portfolio.equityValue * e.settings.maxPositionPct / price.amount⌋
  | .arithmetic => e.correlationRaises item book = true
  | _ => False

/-- An entry is decided, with an order that fits or a rejection, or something raises on it. -/
theorem decideEntry_cases (e : Evaluation) (item : Recommendation) (price : Money)
    (book : SectorBook) (reserved : ℚ) (openIssuers : Finset String) :
    (∃ o, e.decideEntry item price book reserved openIssuers = .ok (.inl (o, o.cost)) ∧
      o.ticker = item.ticker ∧ o.action = item.action ∧
      e.Fits item book reserved openIssuers o.cost) ∨
    (∃ r, e.decideEntry item price book reserved openIssuers = .ok (.inr r) ∧
      r.ticker = item.ticker) ∨
    ∃ error, e.decideEntry item price book reserved openIssuers = .error error ∧
      e.EntryRaises item price book error := by
  unfold decideEntry
  dsimp only
  cases hsize : sizeQuantity e.portfolio.equityValue e.settings.maxPositionPct price.amount with
  | error error =>
    refine .inr (.inr ⟨error, rfl, ?_⟩)
    unfold sizeQuantity at hsize
    split at hsize
    · cases hsize
    dsimp only at hsize
    split at hsize
    · rename_i hlarge
      cases hsize
      exact hlarge
    · cases hsize
  | ok quantity =>
    simp only [ok_bind]
    split
    · rename_i r hr
      exact .inr (.inl ⟨r, rfl, positionRejection_ticker hr⟩)
    rename_i hgates
    split
    · rename_i r hr
      exact .inr (.inl ⟨r, rfl, rewardRiskRejection_ticker hr⟩)
    split
    · rename_i r hr
      exact .inr (.inl ⟨r, rfl, sectorRejection_ticker hr⟩)
    split
    · rename_i hraises
      exact .inr (.inr ⟨.arithmetic, rfl, hraises⟩)
    split
    · rename_i r hr
      exact .inr (.inl ⟨r, rfl, sectorRejection_ticker hr⟩)
    obtain ⟨hissuer, hmin, hroom, hcash⟩ := positionRejection_entry hgates
    left
    obtain ⟨o, ho, hticker, haction, hcost⟩ :=
      orderOf_ok item item.action price none (some _) (some _) _ hmin
    refine ⟨o, ?_, hticker, haction, ?_⟩
    · rw [ho, hcost]
      rfl
    · rw [← hcost] at hissuer hcash
      exact ⟨hissuer, hroom, hcash⟩

/-! ### One pass -/

/-- What one pass of the loop does. -/
inductive Passed (e : Evaluation) (b : Batch) (item : Recommendation) : Batch → Prop
  | reject {r : RejectedOrder} : r.ticker = item.ticker → Passed e b item (b.reject r)
  | exit {o : OrderIntent} : item.action = .sell → o.ticker = item.ticker → o.action = .sell →
      Passed e b item (b.exit e item o)
  | enter {o : OrderIntent} : item.action = .buy → e.portfolio.accountIsFresh = true →
      o.ticker = item.ticker → o.action = .buy →
      e.Fits item b.book b.reservedCash b.openIssuers o.cost →
      Passed e b item (b.enter e item o o.cost)

/-- Something raises on a recommendation in its turn: it is a buy, and its entry raises. -/
def RaisesAt (e : Evaluation) (b : Batch) (item : Recommendation) (error : EvaluationError) :
    Prop :=
  item.action = .buy ∧ ∃ price, e.prices.get? item.ticker = some price ∧
    e.EntryRaises item price b.book error

theorem evaluateOne_cases (e : Evaluation) (b : Batch) (item : Recommendation) :
    (∃ b', e.evaluateOne b item = .ok b' ∧ e.Passed b item b') ∨
      ∃ error, e.evaluateOne b item = .error error ∧ e.RaisesAt b item error := by
  unfold evaluateOne
  cases hcheck : e.precheck item (e.prices.get? item.ticker) with
  | some r =>
    refine .inl ⟨_, rfl, .reject ?_⟩
    simp only [precheck] at hcheck
    repeat' split at hcheck
    all_goals first | (cases hcheck; rfl) | cases hcheck
  | none =>
    simp only [precheck] at hcheck
    split at hcheck
    · cases hcheck
    rename_i hhold
    split at hcheck
    · cases hcheck
    rename_i hheld
    split at hcheck
    · cases hcheck
    rename_i hfresh
    cases hprice : e.prices.get? item.ticker with
    | none => simp [hprice] at hcheck
    | some price =>
      by_cases hsell : item.action = .sell
      · left
        have hposition : e.portfolio.positions.get? item.ticker ≠ none := fun h => hheld ⟨hsell, h⟩
        simp only [hsell, if_true]
        rcases decideExit_ok price b.book hposition with
          ⟨o, ho, hticker, haction⟩ | ⟨r, hr, hticker⟩
        · exact ⟨_, by rw [ho]; rfl, .exit hsell hticker haction⟩
        · exact ⟨_, by rw [hr]; rfl, .reject hticker⟩
      · have hbuy : item.action = .buy := by
          cases haction : item.action with
          | buy => rfl
          | sell => exact (hsell haction).elim
          | hold => exact (hhold haction).elim
        simp only [hsell, if_false]
        rcases e.decideEntry_cases item price b.book b.reservedCash b.openIssuers with
          ⟨o, ho, hticker, haction, hfits⟩ | ⟨r, hr, hticker⟩ | ⟨error, herror, hraises⟩
        · left
          refine ⟨_, by rw [ho]; rfl, .enter hbuy ?_ hticker (haction.trans hbuy) hfits⟩
          by_contra h
          exact hfresh ⟨hbuy, Bool.not_eq_true _ ▸ h⟩
        · exact .inl ⟨_, by rw [hr]; rfl, .reject hticker⟩
        · exact .inr ⟨error, by rw [herror]; rfl, hbuy, price, hprice, hraises⟩

/-- What a pass that ends has done. -/
theorem passed_of_evaluateOne {b b' : Batch} (h : e.evaluateOne b item = .ok b') :
    e.Passed b item b' := by
  rcases e.evaluateOne_cases b item with ⟨b'', hb'', hpassed⟩ | ⟨error, herror, -⟩
  · rw [h] at hb''
    cases hb''
    exact hpassed
  · rw [h] at herror
    cases herror

end Evaluation

/-! ### What is held, bought and open after the decisions -/

/-- The approved buys. -/
def entries (approved : List OrderIntent) : List OrderIntent :=
  approved.filter fun o => decide (o.action = .buy)

theorem entries_append_buy {approved : List OrderIntent} {o : OrderIntent} (h : o.action = .buy) :
    entries (approved ++ [o]) = entries approved ++ [o] := by
  simp [entries, h]

theorem entries_of_sells {approved : List OrderIntent} (h : ∀ o ∈ approved, o.action = .sell) :
    entries approved = [] := by
  apply List.filter_eq_nil_iff.mpr
  intro o ho
  simp [h o ho]

namespace Evaluation

variable {e : Evaluation} {approved : List OrderIntent} {i : String}

def issuerOf (e : Evaluation) (ticker : String) : String := issuerKey e.caseMap e.issuerMap ticker

/-- The value a held position has in the portfolio. -/
def positionValue (e : Evaluation) (ticker : String) : ℚ :=
  ((e.portfolio.positionValues.get? ticker).map Money.amount).getD 0

/-- The symbols still held after the approved exits. -/
def live (e : Evaluation) (approved : List OrderIntent) : Finset String :=
  e.openTickersOf.filter fun s => ∀ o ∈ approved, o.action = .sell → e.caseMap.upper o.ticker ≠ s

/-- The value of the positions of an issuer that the approved exits leave; a position counts if its
ticker is written in upper case. -/
def heldAfter (e : Evaluation) (approved : List OrderIntent) (issuer : String) : ℚ :=
  ((e.portfolio.positions.keys.filter fun t => decide (e.caseMap.upper t = t ∧
    t ∈ e.live approved ∧ e.issuerOf t = issuer)).map e.positionValue).sum

/-- The cost of the approved buys of an issuer. -/
def bought (e : Evaluation) (approved : List OrderIntent) (issuer : String) : ℚ :=
  (((entries approved).filter fun o => decide (e.issuerOf o.ticker = issuer)).map
    OrderIntent.cost).sum

/-- The issuers held before the batch. -/
def openBefore (e : Evaluation) : Finset String := e.openTickersOf.image e.issuerOf

/-- The issuers held or bought after it. -/
def openAfter (e : Evaluation) (approved : List OrderIntent) : Finset String :=
  (e.live approved).image e.issuerOf ∪
    ((entries approved).map fun o => e.issuerOf o.ticker).toFinset

theorem live_append_buy {o : OrderIntent} (h : o.action = .buy) :
    e.live (approved ++ [o]) = e.live approved := by
  simp [live, h, or_imp, forall_and]

theorem live_append_sell {o : OrderIntent} (h : o.action = .sell) :
    e.live (approved ++ [o]) = (e.live approved).erase (e.caseMap.upper o.ticker) := by
  ext s
  simp only [live, List.mem_append, List.mem_singleton, or_imp, forall_and, forall_eq, h,
    forall_const, Finset.mem_filter, Finset.mem_erase]
  constructor
  · rintro ⟨hs, hlive, hne⟩
    exact ⟨hne.symm, hs, hlive⟩
  · rintro ⟨hne, hs, hlive⟩
    exact ⟨hs, hlive, hne.symm⟩

theorem live_subset : e.live approved ⊆ e.openTickersOf := Finset.filter_subset _ _

theorem bought_append_buy {o : OrderIntent} (h : o.action = .buy) :
    e.bought (approved ++ [o]) i =
      e.bought approved i + if e.issuerOf o.ticker = i then o.cost else 0 := by
  rw [bought, entries_append_buy h, List.filter_append, List.map_append, List.sum_append, bought]
  congr 1
  by_cases hi : e.issuerOf o.ticker = i <;> simp [hi]

/-- The value in the book of a symbol that is held. -/
def bookValue (e : Evaluation) (symbol : String) : ℚ :=
  heldValue e.caseMap e.portfolio.positionValues symbol

theorem value_nonneg {ticker : String} {m : Money}
    (h : e.portfolio.positionValues.get? ticker = some m) : 0 ≤ m.amount :=
  e.portfolio.positionValues_nonneg _ (Dict.mem_entries_iff.mpr h)

theorem bookValue_nonneg (e : Evaluation) (symbol : String) : 0 ≤ e.bookValue symbol := by
  unfold bookValue heldValue
  split
  · rename_i m hm
    exact value_nonneg hm
  · split
    · rename_i m hm
      exact value_nonneg hm
    · exact le_rfl

theorem positionValue_le {symbol : String} : e.positionValue symbol ≤ e.bookValue symbol := by
  unfold positionValue
  cases h : e.portfolio.positionValues.get? symbol with
  | none => exact e.bookValue_nonneg symbol
  | some m => simp [bookValue, heldValue, h]

/-- What is held after the exits is part of what the book shows of it. -/
theorem heldAfter_le (e : Evaluation) (approved : List OrderIntent) (i : String) :
    e.heldAfter approved i ≤ ∑ s ∈ e.live approved with e.issuerOf s = i, e.bookValue s := by
  have hnodup : (e.portfolio.positions.keys.filter fun t => decide (e.caseMap.upper t = t ∧
      t ∈ e.live approved ∧ e.issuerOf t = i)).Nodup := e.portfolio.positions.nodup.filter _
  rw [heldAfter, ← List.sum_toFinset _ hnodup]
  calc _ ≤ ∑ t ∈ (e.portfolio.positions.keys.filter fun t => decide (e.caseMap.upper t = t ∧
          t ∈ e.live approved ∧ e.issuerOf t = i)).toFinset, e.bookValue t :=
        Finset.sum_le_sum fun t _ => positionValue_le
    _ ≤ _ := by
        apply Finset.sum_le_sum_of_subset_of_nonneg
        · intro t ht
          simp only [List.mem_toFinset, List.mem_filter, decide_eq_true_eq] at ht
          exact Finset.mem_filter.mpr ⟨ht.2.2.1, ht.2.2.2⟩
        · exact fun t _ _ => e.bookValue_nonneg t

/-! ### The batch as the loop leaves it -/

/-- Each decided recommendation is once among the approved or once among the rejected. -/
def Accounted (done : List Recommendation) (approved : List OrderIntent)
    (rejected : List RejectedOrder) : Prop :=
  ∃ taken refused : List Recommendation, done.Perm (taken ++ refused) ∧
    approved.map (fun o => (o.ticker, o.action)) = taken.map (fun r => (r.ticker, r.action)) ∧
    rejected.map (fun r => r.ticker) = refused.map (fun r => r.ticker)

theorem Accounted.approve {done : List Recommendation} {rejected : List RejectedOrder}
    {item : Recommendation} {o : OrderIntent} (h : Accounted done approved rejected)
    (hticker : o.ticker = item.ticker) (haction : o.action = item.action) :
    Accounted (done ++ [item]) (approved ++ [o]) rejected := by
  obtain ⟨taken, refused, hperm, htaken, hrefused⟩ := h
  refine ⟨taken ++ [item], refused, ?_, by simp [htaken, hticker, haction], hrefused⟩
  calc done ++ [item]
      _ ~ (taken ++ refused) ++ [item] := hperm.append_right _
      _ ~ (taken ++ [item]) ++ refused := by
        rw [List.append_assoc, List.append_assoc]
        exact List.perm_append_comm.append_left taken

theorem Accounted.reject {done : List Recommendation} {rejected : List RejectedOrder}
    {item : Recommendation} {r : RejectedOrder} (h : Accounted done approved rejected)
    (hticker : r.ticker = item.ticker) :
    Accounted (done ++ [item]) approved (rejected ++ [r]) := by
  obtain ⟨taken, refused, hperm, htaken, hrefused⟩ := h
  refine ⟨taken, refused ++ [item], ?_, htaken, by simp [hrefused, hticker]⟩
  rw [← List.append_assoc]
  exact hperm.append_right _

/-- The action of an approved order is that of a recommendation. -/
theorem Accounted.action {done : List Recommendation} {rejected : List RejectedOrder}
    (h : Accounted done approved rejected) {o : OrderIntent} (ho : o ∈ approved) :
    ∃ r ∈ done, r.action = o.action := by
  obtain ⟨taken, refused, hperm, htaken, -⟩ := h
  have hmem : (o.ticker, o.action) ∈ taken.map fun r => (r.ticker, r.action) :=
    htaken ▸ List.mem_map_of_mem (f := fun o : OrderIntent => (o.ticker, o.action)) ho
  obtain ⟨r, hr, heq⟩ := List.mem_map.mp hmem
  exact ⟨r, hperm.mem_iff.mpr (List.mem_append_left _ hr), (Prod.ext_iff.mp heq).2⟩

/-- What holds of the batch between two passes. -/
structure Kept (e : Evaluation) (done : List Recommendation) (b : Batch) : Prop where
  accounted : Accounted done b.approved b.rejected
  issuerMap : b.book.issuerMap = e.issuerMap
  values : ∀ i, b.book.issuerValue i =
    (∑ s ∈ e.live b.approved with e.issuerOf s = i, e.bookValue s) + e.bought b.approved i
  exits : (∀ o ∈ b.approved, o.action = .sell) →
    b.book.Shows e.caseMap (e.live b.approved) e.bookValue ∧ b.openTickers = e.live b.approved
  openIssuers : b.openIssuers = e.openAfter b.approved
  caps : ∀ o ∈ entries b.approved,
    b.book.issuerValue (e.issuerOf o.ticker) ≤ e.settings.maxPositionPct * e.portfolio.equityValue
  reserved : b.reservedCash = ((entries b.approved).map OrderIntent.cost).sum
  budget : entries b.approved ≠ [] → b.reservedCash ≤
    e.portfolio.equityValue * (1 - e.settings.cashBufferPct) - e.portfolio.deployedValue
  count : (b.openIssuers.erase "").card ≤ max e.openBefore.card e.settings.maxPositions

theorem Kept.issuerFor {done : List Recommendation} {b : Batch} (h : e.Kept done b) :
    b.book.issuerFor e.caseMap = e.issuerOf := by
  funext t
  rw [SectorBook.issuerFor, h.issuerMap, issuerOf]

theorem initBatch_kept (e : Evaluation) : e.Kept [] e.initBatch := by
  obtain ⟨hshows, hmap⟩ := SectorBook.init_shows e.caseMap e.sectors e.portfolio.positions.keys
    e.portfolio.positionValues e.issuerMap
  have hissuer : e.initBook.issuerFor e.caseMap = e.issuerOf := by
    funext t
    rw [SectorBook.issuerFor, issuerOf, initBook, hmap]
  have hlive : e.live [] = e.openTickersOf := by simp [live]
  have hopen : e.openTickersOf.image (e.initBook.issuerFor e.caseMap) = e.openBefore := by
    rw [hissuer, openBefore]
  refine ⟨⟨[], [], .nil, rfl, rfl⟩, hmap, ?_, ?_, ?_, by simp [entries, initBatch],
    by simp [entries, initBatch], by simp [entries, initBatch], ?_⟩
  · intro i
    have hvalues := hshows.values i
    rw [show e.initBatch.approved = [] from rfl, hlive, show e.bought [] i =
      0 by simp [bought, entries],
      add_zero]
    simp only [← hissuer]
    exact hvalues
  · intro _
    rw [show e.initBatch.approved = [] from rfl, hlive]
    exact ⟨hshows, rfl⟩
  · rw [show e.initBatch.openIssuers = _ from hopen, show e.initBatch.approved = [] from rfl,
      openAfter, hlive]
    simp [entries, openBefore]
  · rw [show e.initBatch.openIssuers = _ from hopen]
    exact (Finset.card_erase_le).trans (le_max_left _ _)

variable {done : List Recommendation} {b : Batch} {item : Recommendation} {o : OrderIntent}

theorem Kept.reject (h : e.Kept done b) {r : RejectedOrder} (hticker : r.ticker = item.ticker) :
    e.Kept (done ++ [item]) (b.reject r) where
  accounted := h.accounted.reject hticker
  issuerMap := h.issuerMap
  values := h.values
  exits := h.exits
  openIssuers := h.openIssuers
  caps := h.caps
  reserved := h.reserved
  budget := h.budget
  count := h.count

/-- An exit before any entry. -/
theorem Kept.exit (h : e.Kept done b) (hsells : ∀ o ∈ b.approved, o.action = .sell)
    (hitem : item.action = .sell) (hticker : o.ticker = item.ticker) (hsell : o.action = .sell) :
    e.Kept (done ++ [item]) (b.exit e item o) := by
  obtain ⟨hshows, hopen⟩ := h.exits hsells
  have hall : ∀ o' ∈ b.approved ++ [o], o'.action = .sell := by
    intro o' ho'
    rcases List.mem_append.mp ho' with ho' | ho'
    · exact hsells o' ho'
    · rw [List.mem_singleton.mp ho']
      exact hsell
  have hlive : e.live (b.approved ++ [o]) =
      (e.live b.approved).erase (e.caseMap.upper item.ticker) := by
    rw [live_append_sell hsell, hticker]
  have hnone : entries (b.approved ++ [o]) = [] := entries_of_sells hall
  have hshows' : (b.book.recordExit e.caseMap item.ticker).Shows e.caseMap
      (e.live (b.approved ++ [o])) e.bookValue := by
    rw [hlive]
    exact hshows.recordExit e.bookValue_nonneg item.ticker
  have himage : (b.openTickers.erase (e.caseMap.upper item.ticker)).image
      (b.book.issuerFor e.caseMap) = (e.live (b.approved ++ [o])).image e.issuerOf := by
    rw [hopen, h.issuerFor, hlive]
  refine ⟨h.accounted.approve hticker (hsell.trans hitem.symm), ?_, ?_, ?_, ?_, ?_, ?_, ?_, ?_⟩
  · exact SectorBook.recordExit_issuerMap.trans h.issuerMap
  · intro i
    have hvalues := hshows'.values i
    rw [show e.bought (b.exit e item o).approved i =
      0 by simp [bought, Batch.exit, hnone], add_zero]
    simp only [SectorBook.recordExit_issuerFor, h.issuerFor] at hvalues
    exact hvalues
  · intro _
    refine ⟨hshows', ?_⟩
    show b.openTickers.erase _ = _
    rw [hopen]
    exact hlive.symm
  · show (b.openTickers.erase (e.caseMap.upper item.ticker)).image _ = _
    rw [himage]
    simp [openAfter, Batch.exit, hnone]
  · simp [Batch.exit, hnone]
  · show b.reservedCash = _
    rw [h.reserved, entries_of_sells hsells]
    simp [Batch.exit, hnone]
  · simp [Batch.exit, hnone]
  · show (((b.openTickers.erase (e.caseMap.upper item.ticker)).image _).erase "").card ≤ _
    rw [himage]
    calc _ ≤ ((e.live (b.approved ++ [o])).image e.issuerOf).card := Finset.card_erase_le
      _ ≤ e.openBefore.card := Finset.card_le_card (Finset.image_subset_image live_subset)
      _ ≤ _ := le_max_left _ _

/-- An entry that fits. -/
theorem Kept.enter (h : e.Kept done b) (hitem : item.action = .buy)
    (hfresh : e.portfolio.accountIsFresh = true) (hticker : o.ticker = item.ticker)
    (hbuy : o.action = .buy) (hfits : e.Fits item b.book b.reservedCash b.openIssuers o.cost) :
    e.Kept (done ++ [item]) (b.enter e item o o.cost) := by
  have hentries : entries (b.approved ++ [o]) = entries b.approved ++ [o] := entries_append_buy hbuy
  have hlive : e.live (b.approved ++ [o]) = e.live b.approved := live_append_buy hbuy
  have hvalue : ∀ i, (b.book.record e.caseMap item o.cost).issuerValue i =
      b.book.issuerValue i + if e.issuerOf item.ticker = i then o.cost else 0 := by
    intro i
    rw [SectorBook.record_issuerValue, h.issuerFor]
  have hcap := hfits.issuer
  have hroom := hfits.room
  rw [h.issuerFor] at hcap hroom
  refine ⟨h.accounted.approve hticker (hbuy.trans hitem.symm), ?_, ?_, ?_, ?_, ?_, ?_, ?_, ?_⟩
  · exact SectorBook.record_issuerMap.trans h.issuerMap
  · intro i
    show (b.book.record e.caseMap item o.cost).issuerValue i =
      (∑ s ∈ e.live (b.approved ++ [o]) with e.issuerOf s = i, e.bookValue s) +
        e.bought (b.approved ++ [o]) i
    rw [hvalue, h.values, hlive, bought_append_buy hbuy, hticker, add_assoc]
  · intro hsells
    have hsell := hsells o (List.mem_append_right _ List.mem_cons_self)
    rw [hbuy] at hsell
    cases hsell
  · show insert (b.book.issuerFor e.caseMap item.ticker) b.openIssuers =
      e.openAfter (b.approved ++ [o])
    rw [h.issuerFor, h.openIssuers, openAfter, openAfter, hlive, hentries]
    ext s
    simp [hticker]
  · intro o' ho'
    show (b.book.record e.caseMap item o.cost).issuerValue _ ≤ _
    rw [hvalue]
    split
    · rename_i hsame
      rw [← hsame]
      exact hcap
    · rename_i hother
      rw [add_zero]
      have hmem : o' ∈ entries b.approved ++ [o] := hentries ▸ ho'
      rcases List.mem_append.mp hmem with ho' | ho'
      · exact h.caps o' ho'
      · rw [List.mem_singleton.mp ho', hticker] at hother
        exact (hother rfl).elim
  · show b.reservedCash + o.cost = ((entries (b.approved ++ [o])).map OrderIntent.cost).sum
    rw [hentries, h.reserved]
    simp
  · intro _
    show b.reservedCash + o.cost ≤ _
    have hcash := hfits.cash
    rw [PortfolioState.availableForBuys, if_pos hfresh] at hcash
    linarith
  · show ((insert (b.book.issuerFor e.caseMap item.ticker) b.openIssuers).erase "").card ≤ _
    rw [h.issuerFor]
    by_cases hempty : e.issuerOf item.ticker = ""
    · rw [hempty, Finset.erase_insert_eq_erase]
      exact h.count
    · rw [if_neg hempty] at hroom
      rcases hroom with hopen | hroom
      · rw [Finset.insert_eq_of_mem hopen]
        exact h.count
      · calc _ ≤ (insert (e.issuerOf item.ticker) b.openIssuers).card := Finset.card_erase_le
          _ ≤ b.openIssuers.card + 1 := Finset.card_insert_le _ _
          _ ≤ e.settings.maxPositions := hroom
          _ ≤ _ := le_max_right _ _

/-! ### The whole batch -/

/-- Nothing sorts before an exit but exits. -/
theorem sell_of_le {a b : Recommendation} (h : orderKey a ≤ orderKey b) (hb : b.action = .sell) :
    a.action = .sell := by
  have hrank : actionRank a.action ≤ actionRank b.action := by
    rcases Prod.Lex.le_iff.mp h with hlt | ⟨heq, -⟩
    · exact hlt.le
    · exact heq.le
  rw [hb] at hrank
  cases ha : a.action with
  | sell => rfl
  | buy => simp [ha, actionRank] at hrank
  | hold => simp [ha, actionRank] at hrank

theorem evaluateOne_kept {b' : Batch} (h : e.Kept done b)
    (hbefore : ∀ r ∈ done, orderKey r ≤ orderKey item) (hok : e.evaluateOne b item = .ok b') :
    e.Kept (done ++ [item]) b' := by
  induction passed_of_evaluateOne hok with
  | reject hticker => exact h.reject hticker
  | enter hitem hfresh hticker hbuy hfits => exact h.enter hitem hfresh hticker hbuy hfits
  | exit hitem hticker hsell =>
    refine h.exit (fun o ho => ?_) hitem hticker hsell
    obtain ⟨r, hr, haction⟩ := h.accounted.action ho
    rw [← haction]
    exact sell_of_le (hbefore r hr) hitem

/-- The recommendations are taken in the order of their keys. -/
theorem ordered_sorted (recommendations : List Recommendation) :
    (ordered recommendations).Pairwise fun a b => orderKey a ≤ orderKey b :=
  List.pairwise_insertionSort _ _

/-- An evaluation that ends leaves a batch of which all of this holds. -/
theorem evaluate_kept {recommendations : List Recommendation}
    (h : (ordered recommendations).foldlM e.evaluateOne e.initBatch = .ok b) :
    e.Kept (ordered recommendations) b := by
  have hsorted := ordered_sorted recommendations
  refine foldlM_induction (P := e.Kept) h e.initBatch_kept
    fun done item rest b b' hl hkept hok => ?_
  rw [hl] at hsorted
  exact evaluateOne_kept hkept (fun r hr =>
    (List.pairwise_append.mp hsorted).2.2 r hr item List.mem_cons_self) hok

/-- An evaluation ends unless something raises on a buy of the batch. -/
theorem evaluation_ends (e : Evaluation) (recommendations : List Recommendation) :
    (∃ b, (ordered recommendations).foldlM e.evaluateOne e.initBatch = .ok b) ∨
      ∃ done item rest b error, ordered recommendations = done ++ item :: rest ∧
        done.foldlM e.evaluateOne e.initBatch = .ok b ∧ e.evaluateOne b item = .error error ∧
        e.RaisesAt b item error := by
  cases hloop : (ordered recommendations).foldlM e.evaluateOne e.initBatch with
  | ok b => exact .inl ⟨b, rfl⟩
  | error error =>
    obtain ⟨done, item, rest, b, hsplit, hdone, herror⟩ := foldlM_error hloop
    refine .inr ⟨done, item, rest, b, error, hsplit, hdone, herror, ?_⟩
    rcases e.evaluateOne_cases b item with ⟨b', hb', -⟩ | ⟨error', herror', hraises⟩
    · rw [herror] at hb'
      cases hb'
    · rw [herror] at herror'
      cases herror'
      exact hraises

/-- An account of 1000 with one position, nothing else known about it. -/
def accountOf (ticker : String) (value : ℚ) (hvalue : 0 ≤ value := by norm_num) :
    PortfolioState where
  cash := ⟨1000, "USD"⟩
  positions := .ofList [(ticker, 5)]
  positionValues := .ofList [(ticker, ⟨value, "USD"⟩)]
  positionValues_nonneg := by
    intro p hp
    rw [List.mem_singleton.mp hp]
    exact hvalue

def evaluationOf (portfolio : PortfolioState) : Evaluation where
  caseMap := ⟨fun s => if s = "acme" then "ACME" else s, by intro s; split <;> simp [*]⟩
  numerals := ⟨OrderHom.id, id⟩
  prices := .ofList [("ACME", ⟨10, "USD"⟩)]
  portfolio
  defaultStopPct := { value := 1 / 20 }
  defaultTargetPct := { value := 1 / 10 }
  sectors := .ofList [("ACME", "Energy")]
  pairCorrelation _ _ := (none, 0)

def buyAcme : Recommendation := { ticker := "ACME", action := .buy, confidence := { value := 1 } }

/-- An evaluation in which the map gives one ticker the empty issuer, and another the name of the
first. -/
def emptyIssuer : Evaluation :=
  { evaluationOf (accountOf "OLD" 10) with
    settings := { maxPositions := 1 }
    issuerMap := .ofList [("ACME", ""), ("OLD", "ACME")] }

end Evaluation

end TradingAgents.PortfolioManager
