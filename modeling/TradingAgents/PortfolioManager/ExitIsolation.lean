import TradingAgents.PortfolioManager.RunEvaluation

/-! The exits of two batches that share their sells.  Nothing on the side of the buys reaches an
exit that is decided, but an entry that raises takes the exits with it, and a sell is decided
against the position as it stood before the batch, however often its ticker is sold. -/

namespace TradingAgents.PortfolioManager

open ProofKit Fallible

/-- The approved exits of a batch, each with its shares.  An evaluation that raises approves none.
-/
def approvedExits : Except EvaluationError OrderSet → List (String × Nat)
  | .ok orders => (orders.approved.filter fun o => decide (o.action = .sell)).map fun o =>
      (o.ticker, o.quantity)
  | .error _ => []

/-- The shares of one ticker among the exits. -/
def exitShares (exits : List (String × Nat)) (ticker : String) : Nat :=
  ((exits.filter fun exit => decide (exit.1 = ticker)).map Prod.snd).sum

theorem exitShares_map (shares : String → Nat) (tickers : List String) (t : String) :
    exitShares (tickers.map fun t => (t, shares t)) t = tickers.count t * shares t := by
  induction tickers with
  | nil => simp [exitShares]
  | cons u tickers ih =>
    simp only [exitShares] at ih ⊢
    by_cases hu : u = t
    · subst hu
      simp [ih, add_mul, add_comm]
    · simp [hu, ih]

namespace Evaluation

variable {e : Evaluation} {item : Recommendation} {b b' : Batch}

/-- The shares held of a ticker. -/
def sharesHeld (e : Evaluation) (ticker : String) : Nat :=
  ((e.portfolio.positions.get? ticker).getD 0).toNat

/-- Whether a sell is approved: it is held and priced, and large enough for an order. -/
def sellable (e : Evaluation) (item : Recommendation) : Bool :=
  match e.portfolio.positions.get? item.ticker, e.prices.get? item.ticker with
  | some quantity, some price =>
    decide (0 < price.amount) && decide ((e.settings.minOrderQuantity : Int) ≤ quantity)
  | _, _ => false

/-- The sells of a batch that are approved. -/
def sold (e : Evaluation) (recommendations : List Recommendation) : List Recommendation :=
  recommendations.filter fun item => decide (item.action = .sell) && e.sellable item

/-- An exit is approved for all that is held, or rejected for its size. -/
theorem decideExit_sellable (price : Money) (book : SectorBook) {quantity : Int}
    (hquantity : e.portfolio.positions.get? item.ticker = some quantity) :
    ((e.settings.minOrderQuantity : Int) ≤ quantity ∧
      ∃ o, e.decideExit item price book = .ok (.inl o) ∧ o.ticker = item.ticker ∧
        o.action = .sell ∧ o.quantity = e.sharesHeld item.ticker) ∨
    (¬ (e.settings.minOrderQuantity : Int) ≤ quantity ∧
      ∃ r, e.decideExit item price book = .ok (.inr r)) := by
  simp only [decideExit, hquantity]
  cases hgates : positionRejection item.ticker (exitOutcomes e.settings quantity) with
  | some r =>
    right
    refine ⟨fun hmin => ?_, r, rfl⟩
    have hnone : positionRejection item.ticker (exitOutcomes e.settings quantity) = none := by
      rw [positionRejection, List.findSome?_eq_none_iff]
      intro outcome houtcome
      simp only [exitOutcomes, hmin, decide_true, GateOutcome.ofTest, if_true, List.mem_cons,
        List.not_mem_nil, or_false] at houtcome
      rcases houtcome with rfl | rfl | rfl | rfl <;> split <;> simp
    rw [hnone] at hgates
    cases hgates
  | none =>
    have hmin := positionRejection_exit hgates
    have hpos := e.settings.minOrderQuantity_pos
    have hone : 1 ≤ quantity.toNat := by omega
    refine .inl ⟨hmin, ?_⟩
    simp only [orderOf, dif_pos hone]
    exact ⟨_, rfl, rfl, rfl, by simp [sharesHeld, hquantity]⟩

/-- One pass over a sell. -/
theorem evaluateOne_sell (e : Evaluation) (b : Batch) (hsell : item.action = .sell) :
    (e.sellable item = true ∧ ∃ o, e.evaluateOne b item = .ok (b.exit e item o) ∧
      o.ticker = item.ticker ∧ o.action = .sell ∧ o.quantity = e.sharesHeld item.ticker) ∨
    (e.sellable item = false ∧ ∃ r, e.evaluateOne b item = .ok (b.reject r)) := by
  unfold evaluateOne
  cases hquantity : e.portfolio.positions.get? item.ticker with
  | none =>
    exact .inr ⟨by simp [sellable, hquantity],
      { ticker := item.ticker, reason := "position_unavailable" },
      by simp [precheck, hsell, hquantity]⟩
  | some quantity =>
    cases hprice : e.prices.get? item.ticker with
    | none =>
      exact .inr ⟨by simp [sellable, hquantity, hprice],
        { ticker := item.ticker, reason := "price_unavailable" },
        by simp [precheck, hsell, hquantity]⟩
    | some price =>
      by_cases hpositive : price.amount ≤ 0
      · exact .inr ⟨by simp [sellable, hquantity, hprice, hpositive],
          { ticker := item.ticker, reason := "price_unavailable" },
          by simp [precheck, hsell, hquantity, hpositive]⟩
      · have hcheck : e.precheck item (some price) = none := by
          simp [precheck, hsell, hquantity, hpositive]
        have hsellable : e.sellable item =
            decide ((e.settings.minOrderQuantity : Int) ≤ quantity) := by
          simp [sellable, hquantity, hprice, not_le.mp hpositive]
        simp only [hcheck, hsell, if_true]
        rcases decideExit_sellable price b.book hquantity with
          ⟨hmin, o, ho, hticker, haction, hshares⟩ | ⟨hmin, r, hr⟩
        · exact .inl ⟨by rw [hsellable, decide_eq_true hmin], o, by rw [ho]; rfl, hticker, haction,
            hshares⟩
        · exact .inr ⟨by rw [hsellable, decide_eq_false hmin], r, by rw [hr]; rfl⟩

/-- The exits of a batch so far. -/
def exitsOf (b : Batch) : List (String × Nat) := approvedExits (.ok ⟨b.approved, b.rejected⟩)

/-- The exits are those of the sells that can be approved, each for all that is held. -/
theorem evaluateOne_exits {done : List Recommendation}
    (h : exitsOf b = (e.sold done).map fun r => (r.ticker, e.sharesHeld r.ticker))
    (hok : e.evaluateOne b item = .ok b') :
    exitsOf b' = (e.sold (done ++ [item])).map fun r => (r.ticker, e.sharesHeld r.ticker) := by
  rw [sold, List.filter_append, List.map_append, ← sold, ← h]
  by_cases hsell : item.action = .sell
  · rcases e.evaluateOne_sell b hsell with
      ⟨hsellable, o, ho, hticker, haction, hshares⟩ | ⟨hsellable, r, hr⟩
    · rw [ho] at hok
      cases hok
      simp [exitsOf, approvedExits, Batch.exit, hsell, hsellable, hticker, haction, hshares]
    · rw [hr] at hok
      cases hok
      simp [exitsOf, approvedExits, Batch.reject, hsellable]
  · cases passed_of_evaluateOne hok with
    | reject => simp [exitsOf, approvedExits, Batch.reject, hsell]
    | exit hitem => exact absurd hitem hsell
    | enter _ _ _ hbuy => simp [exitsOf, approvedExits, Batch.enter, hsell, hbuy]

end Evaluation

namespace RunEvaluation

variable {e e' : RunEvaluation} {recommendations others : List Recommendation}

/-- The approved exits of an evaluation. -/
def exits (e : RunEvaluation) (recommendations : List Recommendation) : List (String × Nat) :=
  approvedExits (e.evaluation.evaluateRecommendations recommendations)

/-- A helper raises on some recommendation of the batch in its turn. -/
def SomeRaises (e : RunEvaluation) (recommendations : List Recommendation) : Prop :=
  ∃ done item rest b, Evaluation.ordered recommendations = done ++ item :: rest ∧
    done.foldlM e.evaluation.evaluateOne e.evaluation.initBatch = .ok b ∧
    ∃ error, e.evaluation.evaluateOne b item = .error error

/-- The tickers of the sells that can be approved. -/
def soldOf (e : RunEvaluation) (recommendations : List Recommendation) : List String :=
  (e.evaluation.sold recommendations).map Recommendation.ticker

/-- Two batches with the same sells of the same positions: nothing is asked of their buys, their
caps, their correlations or their accounts. -/
structure SameSells (e e' : RunEvaluation) (recommendations others : List Recommendation) :
    Prop where
  positions : e.evaluation.portfolio.positions = e'.evaluation.portfolio.positions
  minOrderQuantity :
    e.evaluation.settings.minOrderQuantity = e'.evaluation.settings.minOrderQuantity
  sells : (recommendations.filter fun item => decide (item.action = .sell)).Perm
    (others.filter fun item => decide (item.action = .sell))
  prices : ∀ item ∈ recommendations, item.action = .sell →
    e.evaluation.prices.get? item.ticker = e'.evaluation.prices.get? item.ticker

/-- Two batches approve the same exits. -/
def SameExits (e e' : RunEvaluation) (recommendations others : List Recommendation) : Prop :=
  (e.exits recommendations).Perm (e'.exits others)

/-- No more is sold of a ticker than is held of it. -/
def WithinHeld (e : RunEvaluation) (recommendations : List Recommendation) : Prop :=
  ∀ exit ∈ e.exits recommendations,
    ∃ quantity, e.evaluation.portfolio.positions.get? exit.1 = some quantity ∧
      (exitShares (e.exits recommendations) exit.1 : Int) ≤ quantity

/-- The exits of a batch: none if something raises, else its sells that can be approved. -/
theorem exits_cases (e : RunEvaluation) (recommendations : List Recommendation) :
    (e.SomeRaises recommendations →
      e.exits recommendations = []) ∧
    (¬ e.SomeRaises recommendations →
      (e.exits recommendations).Perm
        ((e.soldOf recommendations).map fun t => (t, e.evaluation.sharesHeld t))) := by
  constructor
  · rintro ⟨done, item, rest, b, hsplit, hdone, error, herror⟩
    rw [exits, Evaluation.evaluateRecommendations, hsplit, List.foldlM_append, hdone, ok_bind,
      List.foldlM_cons, herror]
    rfl
  · intro hquiet
    rcases e.evaluation.evaluation_ends recommendations with
      ⟨b, hloop⟩ | ⟨done, item, rest, b, error, hsplit, hdone, herror, -⟩
    · have hexits : Evaluation.exitsOf b =
          (e.evaluation.sold (Evaluation.ordered recommendations)).map
            fun r => (r.ticker, e.evaluation.sharesHeld r.ticker) :=
        foldlM_induction (P := fun done b => Evaluation.exitsOf b =
            (e.evaluation.sold done).map fun r => (r.ticker, e.evaluation.sharesHeld r.ticker))
          hloop rfl fun _ _ _ _ _ _ h hok => Evaluation.evaluateOne_exits h hok
      have hperm : (e.evaluation.sold (Evaluation.ordered recommendations)).Perm
          (e.evaluation.sold recommendations) := (List.perm_insertionSort _ _).filter _
      rw [exits, Evaluation.evaluateRecommendations, hloop]
      refine (List.Perm.of_eq hexits).trans ?_
      rw [soldOf, List.map_map]
      exact hperm.map _
    · exact absurd ⟨done, item, rest, b, hsplit, hdone, error, herror⟩ hquiet

/-- Each sell that can be approved is of a position of at least one share. -/
theorem soldOf_held {t : String} (h : t ∈ e.soldOf recommendations) :
    ∃ quantity, e.evaluation.portfolio.positions.get? t = some quantity ∧ 1 ≤ quantity := by
  obtain ⟨item, hitem, rfl⟩ := List.mem_map.mp h
  have hsellable := (List.mem_filter.mp hitem).2
  simp only [Bool.and_eq_true, Evaluation.sellable] at hsellable
  have hmin := e.evaluation.settings.minOrderQuantity_pos
  obtain ⟨-, hsellable⟩ := hsellable
  split at hsellable
  · rename_i quantity price hquantity hprice
    simp only [Bool.and_eq_true, decide_eq_true_eq] at hsellable
    exact ⟨quantity, hquantity, by omega⟩
  · cases hsellable

/-- A batch stays within what is held unless it sells a ticker twice. -/
theorem withinHeld_iff (e : RunEvaluation) (recommendations : List Recommendation) :
    e.WithinHeld recommendations ↔
      e.SomeRaises recommendations ∨ (e.soldOf recommendations).Nodup := by
  by_cases hraises : e.SomeRaises recommendations
  · have hnone := (e.exits_cases recommendations).1 hraises
    exact iff_of_true (fun exit hexit => absurd (hnone ▸ hexit) List.not_mem_nil) (.inl hraises)
  have hexits := (e.exits_cases recommendations).2 hraises
  have hshares : ∀ t, exitShares (e.exits recommendations) t =
      (e.soldOf recommendations).count t * e.evaluation.sharesHeld t := by
    intro t
    rw [← exitShares_map]
    exact ((hexits.filter _).map _).sum_eq
  rw [or_iff_right hraises, List.nodup_iff_count_le_one]
  constructor
  · intro hwithin t
    by_cases ht : t ∈ e.soldOf recommendations
    · obtain ⟨quantity, hquantity, hle⟩ := hwithin (t, e.evaluation.sharesHeld t)
        (hexits.mem_iff.mpr (List.mem_map.mpr ⟨t, ht, rfl⟩))
      obtain ⟨quantity', hheld, hpos⟩ := soldOf_held ht
      dsimp only at hquantity hle
      rw [hquantity] at hheld
      cases hheld
      have hshare : (e.evaluation.sharesHeld t : Int) = quantity := by
        simp [Evaluation.sharesHeld, hquantity]
        omega
      rw [hshares, Nat.cast_mul, hshare] at hle
      by_contra hmany
      have htwo : (2 : Int) ≤ ((e.soldOf recommendations).count t : Int) := by omega
      have hmore := mul_le_mul_of_nonneg_right htwo (by omega : (0 : Int) ≤ quantity)
      omega
    · rw [List.count_eq_zero_of_not_mem ht]
      exact Nat.zero_le 1
  · intro honce exit hexit
    obtain ⟨t, ht, rfl⟩ := List.mem_map.mp (hexits.mem_iff.mp hexit)
    obtain ⟨quantity, hquantity, hpos⟩ := soldOf_held ht
    refine ⟨quantity, hquantity, ?_⟩
    have hshare : (e.evaluation.sharesHeld t : Int) = quantity := by
      simp [Evaluation.sharesHeld, hquantity]
      omega
    have hcount : (e.soldOf recommendations).count t = 1 :=
      Nat.le_antisymm (honce t) (List.count_pos_iff.mpr ht)
    dsimp only
    rw [hshares, hcount, one_mul, hshare]

theorem SameSells.sold (h : SameSells e e' recommendations others) :
    (e.soldOf recommendations).Perm (e'.soldOf others) := by
  have hsplit : ∀ (e : RunEvaluation) l, e.evaluation.sold l =
      (l.filter fun item => decide (item.action = .sell)).filter e.evaluation.sellable := by
    intro e l
    rw [List.filter_filter, Evaluation.sold]
    exact List.filter_congr fun item _ => Bool.and_comm _ _
  have hsame : ∀ item ∈ recommendations.filter fun item => decide (item.action = .sell),
      e.evaluation.sellable item = e'.evaluation.sellable item := by
    intro item hitem
    obtain ⟨hmem, hsell⟩ := List.mem_filter.mp hitem
    rw [Evaluation.sellable, Evaluation.sellable, h.positions, h.minOrderQuantity,
      h.prices item hmem (of_decide_eq_true hsell)]
  rw [soldOf, soldOf, hsplit, hsplit, List.filter_congr hsame]
  exact (h.sells.filter _).map _

theorem sameExits_iff (h : SameSells e e' recommendations others) :
    SameExits e e' recommendations others ↔
      (e.soldOf recommendations = [] ∨
        (e.SomeRaises recommendations ↔ e'.SomeRaises others)) := by
  have hshares : e.evaluation.sharesHeld = e'.evaluation.sharesHeld := by
    funext t
    rw [Evaluation.sharesHeld, Evaluation.sharesHeld, h.positions]
  obtain ⟨hnone, hexits⟩ := e.exits_cases recommendations
  obtain ⟨hnone', hexits'⟩ := e'.exits_cases others
  rw [← hshares] at hexits'
  have hsold := h.sold
  have hperm := hsold.map fun t => (t, e.evaluation.sharesHeld t)
  unfold SameExits
  by_cases hr : e.SomeRaises recommendations <;> by_cases hr' : e'.SomeRaises others
  · rw [hnone hr, hnone' hr']
    exact iff_of_true .nil (.inr (iff_of_true hr hr'))
  · rw [hnone hr, or_iff_left fun hsame => hr' (hsame.mp hr)]
    constructor
    · intro hempty
      have hmap := (hempty.trans ((hexits' hr').trans hperm.symm)).nil_eq
      exact List.map_eq_nil_iff.mp hmap.symm
    · intro hempty
      rw [hempty] at hperm
      exact hperm.trans (hexits' hr').symm
  · rw [hnone' hr', or_iff_left fun hsame => hr (hsame.mpr hr')]
    constructor
    · intro hempty
      exact List.map_eq_nil_iff.mp ((hexits hr).symm.trans hempty).eq_nil
    · intro hempty
      have hbatch := hexits hr
      rwa [hempty] at hbatch
  · exact iff_of_true ((hexits hr).trans (hperm.trans (hexits' hr').symm))
      (.inr (iff_of_false hr hr'))

/-- Two batches with the same sells approve the same exits, within what is held, exactly if a
recommendation raises in both or in neither, unless there is nothing to sell, and no ticker is sold
twice in a batch that is decided. -/
theorem exits_isolated_iff (h : SameSells e e' recommendations others) :
    (SameExits e e' recommendations others ∧ e.WithinHeld recommendations ∧ e'.WithinHeld others) ↔
      (e.soldOf recommendations = [] ∨
        (e.SomeRaises recommendations ↔ e'.SomeRaises others)) ∧
      (e.SomeRaises recommendations ∨ (e.soldOf recommendations).Nodup) ∧
      (e'.SomeRaises others ∨ (e.soldOf recommendations).Nodup) := by
  rw [sameExits_iff h, withinHeld_iff, withinHeld_iff, h.sold.nodup_iff]

/-- The sell of one position, alone, again, and beside an entry that raises. -/
theorem sells_alike :
    SameSells tinyPrice tinyPrice [sellOld, Evaluation.buyAcme] [sellOld] where
  positions := rfl
  minOrderQuantity := rfl
  sells := by decide +kernel
  prices _ _ _ := rfl

/-- The same account, with a price at which the entry is sized and decided. -/
def plainPrice : RunEvaluation :=
  { tinyPrice with evaluation := { tinyPrice.evaluation with
      prices := .ofList [("OLD", ⟨10, "USD"⟩), ("ACME", ⟨10, "USD"⟩)] } }

theorem quiet_of_exits {recommendations : List Recommendation}
    (h : e.exits recommendations ≠ []) :
    ¬ e.SomeRaises recommendations := fun hraises =>
  h ((e.exits_cases recommendations).1 hraises)

/-- The condition at work: beside an entry that is decided the exit is approved as it is alone. -/
theorem exits_isolated_sellOld :
    SameExits plainPrice tinyPrice [sellOld, Evaluation.buyAcme] [sellOld] ∧
      plainPrice.WithinHeld [sellOld, Evaluation.buyAcme] ∧ tinyPrice.WithinHeld [sellOld] := by
  have hquiet : ¬ plainPrice.SomeRaises [sellOld, Evaluation.buyAcme] :=
    quiet_of_exits (by decide +kernel)
  have hquiet' : ¬ tinyPrice.SomeRaises [sellOld] := quiet_of_exits (by decide +kernel)
  have hsold : plainPrice.soldOf [sellOld, Evaluation.buyAcme] = ["OLD"] := by decide +kernel
  have hsame : SameSells plainPrice tinyPrice [sellOld, Evaluation.buyAcme] [sellOld] :=
    ⟨rfl, rfl, by decide +kernel, by decide +kernel⟩
  refine (exits_isolated_iff hsame).mpr ⟨.inr (iff_of_false hquiet hquiet'), ?_, ?_⟩
  · exact .inr (by rw [hsold]; decide)
  · exact .inr (by rw [hsold]; decide)

theorem sold_twice : ¬ tinyPrice.WithinHeld [sellOld, sellOld] := by
  intro hwithin
  obtain ⟨quantity, hquantity, hle⟩ := hwithin ("OLD", 5) (by decide +kernel)
  have hfive : tinyPrice.evaluation.portfolio.positions.get? "OLD" = some 5 := by decide +kernel
  have hten : exitShares (tinyPrice.exits [sellOld, sellOld]) "OLD" = 10 := by
    decide +kernel
  dsimp only at hquantity hle
  rw [hfive] at hquantity
  cases hquantity
  rw [hten] at hle
  exact absurd hle (by decide)

/-- An entry that raises takes the exit with it, and a position recommended for sale twice is sold
twice. -/
theorem exits_not_isolated :
    (¬ ∀ (e e' : RunEvaluation) recommendations others,
      SameSells e e' recommendations others → SameExits e e' recommendations others ∧
        e.WithinHeld recommendations ∧ e'.WithinHeld others) ∧
    ¬ ∀ (e : RunEvaluation) recommendations, ¬ e.SomeRaises recommendations →
      e.WithinHeld recommendations := by
  constructor
  · intro hall
    obtain ⟨hsame, -⟩ := hall _ _ _ _ sells_alike
    have hlength := hsame.length_eq
    exact absurd hlength (by decide +kernel)
  · intro hall
    exact sold_twice (hall _ _ (quiet_of_exits (by decide +kernel)))

end RunEvaluation

end TradingAgents.PortfolioManager
