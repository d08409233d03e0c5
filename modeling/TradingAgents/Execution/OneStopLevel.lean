import Mathlib
import TradingAgents.Execution.StopLevels

/-! Where the stop level of a held position is one number of cents.  The level of a weighted price
is the level of its lots when these share theirs, and execution and the contract read the same lots.
-/

namespace TradingAgents.Execution

open Kernel ProofKit BrokerLifecycle BrokerStops Positions StopWidth

/-! ### The weighted price -/

theorem le_roundHalfUp {z : Int} {q : ℚ} (h : (z : ℚ) ≤ q) : z ≤ roundHalfUp q := by
  unfold roundHalfUp
  split
  · exact Rat.le_floor_iff.mpr (by linarith)
  · have hbelow : (-q + 1 / 2).floor < -z + 1 := by
      rw [Rat.floor_lt_iff]
      push_cast
      linarith
    omega

theorem roundHalfUp_le {z : Int} {q : ℚ} (h : q ≤ z) : roundHalfUp q ≤ z := by
  unfold roundHalfUp
  split
  · have hbelow : (q + 1 / 2).floor < z + 1 := by
      rw [Rat.floor_lt_iff]
      push_cast
      linarith
    omega
  · have habove : -z ≤ (-q + 1 / 2).floor := Rat.le_floor_iff.mpr (by push_cast; linarith)
    omega

section Weighted

variable {lots : List StopLot}

theorem quantity_nonneg (hq : ∀ lot ∈ lots, 0 < lot.quantity) :
    0 ≤ (lots.map StopLot.quantity).sum := by
  apply List.sum_nonneg
  intro x hx
  obtain ⟨lot, hlot, rfl⟩ := List.mem_map.mp hx
  exact (hq lot hlot).le

theorem quantity_pos (hne : lots ≠ []) (hq : ∀ lot ∈ lots, 0 < lot.quantity) :
    0 < (lots.map StopLot.quantity).sum := by
  cases lots with
  | nil => exact absurd rfl hne
  | cons lot rest =>
    have hfirst := hq lot List.mem_cons_self
    have hrest := quantity_nonneg fun l hl => hq l (List.mem_cons_of_mem lot hl)
    rw [List.map_cons, List.sum_cons]
    omega

theorem mul_quantity_le {lo : Int} (hq : ∀ lot ∈ lots, 0 < lot.quantity)
    (hlo : ∀ lot ∈ lots, lo ≤ lot.openedPriceCents) :
    lo * (lots.map StopLot.quantity).sum ≤
      (lots.map fun lot => lot.openedPriceCents * lot.quantity).sum := by
  induction lots with
  | nil => simp
  | cons lot rest ih =>
    have hfirst : lo * lot.quantity ≤ lot.openedPriceCents * lot.quantity :=
      mul_le_mul_of_nonneg_right (hlo lot List.mem_cons_self) (hq lot List.mem_cons_self).le
    have hrest := ih (fun l hl => hq l (List.mem_cons_of_mem lot hl))
      (fun l hl => hlo l (List.mem_cons_of_mem lot hl))
    simp only [List.map_cons, List.sum_cons, mul_add]
    omega

theorem le_mul_quantity {hi : Int} (hq : ∀ lot ∈ lots, 0 < lot.quantity)
    (hhi : ∀ lot ∈ lots, lot.openedPriceCents ≤ hi) :
    (lots.map fun lot => lot.openedPriceCents * lot.quantity).sum ≤
      hi * (lots.map StopLot.quantity).sum := by
  induction lots with
  | nil => simp
  | cons lot rest ih =>
    have hfirst : lot.openedPriceCents * lot.quantity ≤ hi * lot.quantity :=
      mul_le_mul_of_nonneg_right (hhi lot List.mem_cons_self) (hq lot List.mem_cons_self).le
    have hrest := ih (fun l hl => hq l (List.mem_cons_of_mem lot hl))
      (fun l hl => hhi l (List.mem_cons_of_mem lot hl))
    simp only [List.map_cons, List.sum_cons, mul_add]
    omega

theorem le_weightedPriceCents {lo : Int} (hne : lots ≠ []) (hq : ∀ lot ∈ lots, 0 < lot.quantity)
    (hlo : ∀ lot ∈ lots, lo ≤ lot.openedPriceCents) : lo ≤ weightedPriceCents lots := by
  have hpos : (0 : ℚ) < (lots.map StopLot.quantity).sum := by exact_mod_cast quantity_pos hne hq
  apply le_roundHalfUp
  rw [le_div_iff₀ hpos]
  exact_mod_cast mul_quantity_le hq hlo

theorem weightedPriceCents_le {hi : Int} (hne : lots ≠ []) (hq : ∀ lot ∈ lots, 0 < lot.quantity)
    (hhi : ∀ lot ∈ lots, lot.openedPriceCents ≤ hi) : weightedPriceCents lots ≤ hi := by
  have hpos : (0 : ℚ) < (lots.map StopLot.quantity).sum := by exact_mod_cast quantity_pos hne hq
  apply roundHalfUp_le
  rw [div_le_iff₀ hpos]
  exact_mod_cast le_mul_quantity hq hhi

/-- A lot opened at or below the weighted price. -/
theorem exists_le_weighted (hne : lots ≠ []) (hq : ∀ lot ∈ lots, 0 < lot.quantity) :
    ∃ lot ∈ lots, lot.openedPriceCents ≤ weightedPriceCents lots := by
  by_contra! hnone
  have habove := le_weightedPriceCents hne hq fun lot hlot => Int.add_one_le_of_lt (hnone lot hlot)
  omega

/-- A lot opened at or above the weighted price. -/
theorem exists_weighted_le (hne : lots ≠ []) (hq : ∀ lot ∈ lots, 0 < lot.quantity) :
    ∃ lot ∈ lots, weightedPriceCents lots ≤ lot.openedPriceCents := by
  by_contra! hnone
  have hbelow := weightedPriceCents_le hne hq fun lot hlot => Int.le_sub_one_of_lt (hnone lot hlot)
  omega

/-- The stop level goes one way with the price: up for a width of at most one, down beyond. -/
theorem stopPriceCents_mono_or_anti (stopPct : ℚ) :
    (∀ low high, low ≤ high → stopPriceCents low stopPct ≤ stopPriceCents high stopPct) ∨
      ∀ low high, low ≤ high → stopPriceCents high stopPct ≤ stopPriceCents low stopPct := by
  rcases le_total 0 (10000 - roundHalfEven (stopPct * 10000)) with hk | hk
  · exact .inl fun low high h =>
      Int.ediv_le_ediv (by decide) (mul_le_mul_of_nonneg_right h hk)
  · exact .inr fun low high h =>
      Int.ediv_le_ediv (by decide) (mul_le_mul_of_nonpos_right h hk)

/-- Lots with one stop level have it at their weighted price. -/
theorem stopPriceCents_weighted {stopPct : ℚ} {level : Int} (hne : lots ≠ [])
    (hq : ∀ lot ∈ lots, 0 < lot.quantity)
    (hlevel : ∀ lot ∈ lots, stopPriceCents lot.openedPriceCents stopPct = level) :
    stopPriceCents (weightedPriceCents lots) stopPct = level := by
  obtain ⟨low, hlow, hle⟩ := exists_le_weighted hne hq
  obtain ⟨high, hhigh, hge⟩ := exists_weighted_le hne hq
  have hl := hlevel low hlow
  have hh := hlevel high hhigh
  rcases stopPriceCents_mono_or_anti stopPct with hmono | hanti
  · have h1 := hmono _ _ hle
    have h2 := hmono _ _ hge
    omega
  · have h1 := hanti _ _ hle
    have h2 := hanti _ _ hge
    omega

end Weighted

/-! ### The threshold of lots -/

section Threshold

variable {ticker ref : String} {lots : List StopLot}

theorem thresholdOf_of_width (ticker ref : String) {stopPct : ℚ} (hne : lots ≠ [])
    (hq : ∀ lot ∈ lots, 0 < lot.quantity) (hwidth : ∀ lot ∈ lots, lot.stopPct = stopPct) :
    thresholdOf ticker ref lots =
      .ok ⟨ticker, (lots.map StopLot.quantity).sum, ref, weightedPriceCents lots, stopPct⟩ := by
  have hsame : lots.map StopLot.stopPct = List.replicate lots.length stopPct := by
    rw [List.eq_replicate_iff, List.length_map]
    refine ⟨rfl, fun w hw => ?_⟩
    obtain ⟨lot, hlot, rfl⟩ := List.mem_map.mp hw
    exact hwidth lot hlot
  have hone : (lots.map StopLot.stopPct).dedup = [stopPct] := by
    rw [hsame]
    exact List.replicate_dedup (by simpa using hne)
  unfold thresholdOf
  rw [hone]
  exact if_neg (not_le.mpr (quantity_pos hne hq))

theorem thresholdOf_eq_ok {threshold : PositionStopThreshold}
    (h : thresholdOf ticker ref lots = .ok threshold) :
    threshold.ticker = ticker ∧ ∀ lot ∈ lots, lot.stopPct = threshold.stopPct := by
  unfold thresholdOf at h
  split at h
  · rename_i stopPct hone
    split at h
    · cases h
    · cases h
      refine ⟨rfl, fun lot hlot => ?_⟩
      have hmem : lot.stopPct ∈ (lots.map StopLot.stopPct).dedup :=
        List.mem_dedup.mpr (List.mem_map_of_mem hlot)
      rw [hone] at hmem
      exact List.mem_singleton.mp hmem
  · cases h

end Threshold

/-! ### Lots of a position -/

section Lots

variable {p : Numerals} {g : PipelineGraph} {n : PipelineNode} {row : Row}

theorem require_quantity (hrow : row? n = some row) :
    n.require "quantity" = .ok (.int row.quantity) :=
  Node.require_of_get (row?_eq_some.mp hrow).2.1 nofun

theorem require_openedPriceCents (hrow : row? n = some row) :
    n.require "opened_price_cents" = .ok (.int row.openedPriceCents) :=
  Node.require_of_get (row?_eq_some.mp hrow).2.2 nofun

theorem stopLot_eq_ok {ticker : String} {lot : StopLot} (hrow : row? n = some row) :
    stopLot p g ticker n = .ok lot ↔
      ∃ d, decidedStopPct p g n none = .ok d ∧
        lot = ⟨row.quantity, row.openedPriceCents, d.stopPct, d.source⟩ := by
  unfold stopLot
  rw [require_quantity hrow, require_openedPriceCents hrow]
  simp only [Fallible.ok_bind, Numerals.intOf]
  cases decidedStopPct p g n none with
  | error e => simp
  | ok d => simp [eq_comm]

/-- A plan reads the lot that the contract reads. -/
theorem planLot_of_stopLot {ticker : String} {lot : StopLot} (hrow : row? n = some row)
    (h : stopLot p g ticker n = .ok lot) (fallback : ℚ) :
    planLot p g ticker fallback n = .ok lot := by
  obtain ⟨d, hd, rfl⟩ := (stopLot_eq_ok hrow).mp h
  unfold planLot intProp
  rw [require_quantity hrow, require_openedPriceCents hrow]
  simp only [Fallible.ok_bind, Numerals.intOf, decidedStopPct_of_none p hd]
  rfl

theorem exitPosition_eq (hrow : row? n = some row) {d : DecidedStop}
    (hd : decidedStopPct p g n none = .ok d) :
    exitPosition p g n = .ok ⟨row.openedPriceCents, d.stopPct⟩ := by
  unfold exitPosition
  rw [require_openedPriceCents hrow, hd]
  rfl

end Lots

/-! ### The book -/

section Book

variable {p : Numerals} {digest : String → String} {g : PipelineGraph} {fallback : ℚ}

/-- The ticker under which a position is grouped. -/
def bookTicker (n : PipelineNode) : String := textOr (n.get "ticker")

/-- The active positions under their tickers. -/
def bookOf (g : PipelineGraph) : Dict String (List PipelineNode) :=
  groupBy bookTicker id (activePositionNodes g)

theorem bookTicker_of_row {n : PipelineNode} {row : Row} (hrow : row? n = some row) :
    bookTicker n = row.ticker := by
  rw [bookTicker, (row?_eq_some.mp hrow).1]
  rfl

/-- The groups of a book: all active positions of a held ticker. -/
theorem mem_sortedGroups {group : String × List PipelineNode} :
    group ∈ sortedGroups (bookOf g) ↔
      group.2 = (activePositionNodes g).filter (fun n => decide (bookTicker n = group.1)) ∧
        group.2 ≠ [] := by
  obtain ⟨ticker, nodes⟩ := group
  have hgroup : ((bookOf g).get? ticker).getD [] =
      (activePositionNodes g).filter fun n => decide (bookTicker n = ticker) := by
    rw [bookOf, getD_groupBy, List.map_id]
  rw [sortedGroups, List.mem_insertionSort, Dict.mem_entries_iff]
  constructor
  · intro hget
    rw [hget, Option.getD_some] at hgroup
    refine ⟨hgroup, ?_⟩
    obtain ⟨n, hn, hkey⟩ := mem_keys_groupBy.mp
      (Dict.mem_keys_iff.mpr (by rw [← bookOf, hget]; rfl))
    intro hnil
    rw [hgroup, List.filter_eq_nil_iff] at hnil
    exact hnil n hn (decide_eq_true hkey)
  · rintro ⟨hnodes, hne⟩
    cases hget : (bookOf g).get? ticker with
    | none =>
      rw [hget, Option.getD_none] at hgroup
      exact absurd (hnodes.trans hgroup.symm) hne
    | some nodes' =>
      rw [hget, Option.getD_some] at hgroup
      rw [hgroup, ← hnodes]

theorem mem_group {group : String × List PipelineNode} (h : group ∈ sortedGroups (bookOf g))
    {n : PipelineNode} : n ∈ group.2 ↔ n ∈ activePositionNodes g ∧ bookTicker n = group.1 := by
  rw [(mem_sortedGroups.mp h).1, List.mem_filter, decide_eq_true_eq]

/-- The group of an active position. -/
theorem exists_group {n : PipelineNode} (hn : n ∈ activePositionNodes g) :
    ∃ group ∈ sortedGroups (bookOf g), group.1 = bookTicker n ∧ n ∈ group.2 := by
  have hmem : n ∈ (activePositionNodes g).filter fun m => decide (bookTicker m = bookTicker n) :=
    List.mem_filter.mpr ⟨hn, decide_eq_true rfl⟩
  exact ⟨(bookTicker n, _), mem_sortedGroups.mpr ⟨rfl, List.ne_nil_of_mem hmem⟩, rfl, hmem⟩

/-- The groups of one ticker are one. -/
theorem group_ext {group group' : String × List PipelineNode}
    (h : group ∈ sortedGroups (bookOf g)) (h' : group' ∈ sortedGroups (bookOf g))
    (heq : group.1 = group'.1) : group = group' := by
  refine Prod.ext heq ?_
  rw [(mem_sortedGroups.mp h).1, (mem_sortedGroups.mp h').1, heq]

theorem activeNodesByTicker_eq (hw : Written g) : activeNodesByTicker g = .ok (bookOf g) := by
  have hnamed : ((activePositionNodes g).mapM fun n => do
      let ticker ← tickerOf n
      pure (ticker, n) : Except HandlerError _) =
      .ok ((activePositionNodes g).map fun n => (bookTicker n, n)) := by
    apply Fallible.mapM_eq_map
    intro n hn
    obtain ⟨row, hrow, -, -⟩ := hw n hn
    have hticker := (row?_eq_some.mp hrow).1
    rw [tickerOf, Node.require_of_get hticker nofun, bookTicker, hticker]
    rfl
  unfold activeNodesByTicker
  rw [hnamed, Fallible.ok_bind, groupBy, List.foldl_map]
  rfl

theorem openPositionStopThresholds_eq (hw : Written g) : openPositionStopThresholds p digest g =
    (sortedGroups (bookOf g)).mapM (stopThreshold p digest g) := by
  unfold openPositionStopThresholds
  rw [activeNodesByTicker_eq hw, Fallible.ok_bind]

/-- The held positions are read, and each group has its reference. -/
theorem openPositions_total (p : Numerals) (digest : String → String) (hw : Written g) :
    ∃ held, openPositions p digest g = .ok held ∧ ∀ group ∈ sortedGroups (bookOf g),
      ((Dict.ofList (held.map fun position =>
        (position.ticker, position.positionRef))).get? group.1).isSome := by
  have hopen : ∀ group ∈ sortedGroups (bookOf g),
      ∃ position, openPosition p digest group = .ok position ∧ position.ticker = group.1 := by
    intro group hgroup
    obtain ⟨quantities, hquantities⟩ := Fallible.mapM_total
      (f := fun n : PipelineNode => do p.intOf (← n.require "quantity")) (l := group.2) fun n hn => by
        obtain ⟨row, hrow, -, -⟩ := hw n ((mem_group hgroup).mp hn).1
        exact ⟨row.quantity, by rw [require_quantity hrow]; rfl⟩
    exact ⟨_, by rw [openPosition, hquantities]; rfl, rfl⟩
  obtain ⟨held, hheld⟩ := Fallible.mapM_total fun group hgroup =>
    (hopen group hgroup).imp fun _ h => h.1
  refine ⟨held, by rw [openPositions, activeNodesByTicker_eq hw, Fallible.ok_bind, hheld], ?_⟩
  intro group hgroup
  obtain ⟨position, hposition, hok⟩ := Fallible.mapM_mem hheld hgroup
  obtain ⟨position', hok', hticker⟩ := hopen group hgroup
  cases hok.symm.trans hok'
  refine Dict.isSome_get?_setAll _ ?_
  rw [List.map_map, ← hticker]
  exact List.mem_map_of_mem hposition

/-! ### Thresholds of a book -/

theorem mem_sortedByKey {nodes : List PipelineNode} {n : PipelineNode} :
    n ∈ sortedByKey nodes ↔ n ∈ nodes := List.mem_insertionSort _

/-- A threshold has read a width for each position of its ticker, and found one. -/
theorem stopThreshold_eq_ok (hw : Written g) {group : String × List PipelineNode}
    (hgroup : group ∈ sortedGroups (bookOf g)) {threshold : PositionStopThreshold}
    (h : stopThreshold p digest g group = .ok threshold) :
    threshold.ticker = group.1 ∧ ∀ n ∈ group.2, ∃ d, decidedStopPct p g n none = .ok d ∧
      d.stopPct = threshold.stopPct := by
  obtain ⟨lots, hlots, h⟩ := Fallible.bind_eq_ok.mp h
  obtain ⟨hticker, hwidth⟩ := thresholdOf_eq_ok h
  refine ⟨hticker, fun n hn => ?_⟩
  obtain ⟨row, hrow, -, -⟩ := hw n ((mem_group hgroup).mp hn).1
  obtain ⟨lot, hlot, hok⟩ := Fallible.mapM_mem hlots (mem_sortedByKey.mpr hn)
  obtain ⟨d, hd, rfl⟩ := (stopLot_eq_ok hrow).mp hok
  exact ⟨d, hd, hwidth _ hlot⟩

/-- The positions of a group have one width, and one level at their own prices. -/
def OneLevelGroup (p : Numerals) (g : PipelineGraph) (nodes : List PipelineNode) (stopPct : ℚ)
    (level : Int) : Prop :=
  ∀ n ∈ nodes, ∀ row, row? n = some row → ∃ d, decidedStopPct p g n none = .ok d ∧
    d.stopPct = stopPct ∧ stopPriceCents row.openedPriceCents stopPct = level

/-- The contract and a plan read the same lots of a group whose positions have one width and one
level. -/
theorem exists_lots (hw : Written g) {group : String × List PipelineNode}
    (hgroup : group ∈ sortedGroups (bookOf g)) {stopPct : ℚ} {level : Int}
    (hone : OneLevelGroup p g group.2 stopPct level) (fallback : ℚ) :
    ∃ lots, (sortedByKey group.2).mapM (stopLot p g group.1) = .ok lots ∧
      (sortedByKey group.2).mapM (planLot p g group.1 fallback) = .ok lots ∧ lots ≠ [] ∧
      ∀ lot ∈ lots, 0 < lot.quantity ∧ lot.stopPct = stopPct ∧
        stopPriceCents lot.openedPriceCents stopPct = level := by
  have hread : ∀ n ∈ sortedByKey group.2, ∃ row, row? n = some row ∧
      ∃ lot, stopLot p g group.1 n = .ok lot ∧ 0 < lot.quantity ∧ lot.stopPct = stopPct ∧
        stopPriceCents lot.openedPriceCents stopPct = level := by
    intro n hn
    have hn := mem_sortedByKey.mp hn
    obtain ⟨row, hrow, -, hq⟩ := hw n ((mem_group hgroup).mp hn).1
    obtain ⟨d, hd, hwidth, hlevel⟩ := hone n hn row hrow
    exact ⟨row, hrow, _, (stopLot_eq_ok hrow).mpr ⟨d, hd, rfl⟩, hq, hwidth, hlevel⟩
  obtain ⟨lots, hlots⟩ := Fallible.mapM_total fun n hn => by
    obtain ⟨-, -, lot, hlot, -⟩ := hread n hn
    exact ⟨lot, hlot⟩
  refine ⟨lots, hlots, ?_, ?_, fun lot hmem => ?_⟩
  · refine Fallible.mapM_of_ok hlots fun n hn lot hlot => ?_
    obtain ⟨row, hrow, -⟩ := hread n hn
    exact planLot_of_stopLot hrow hlot fallback
  · obtain ⟨n, hn⟩ := List.exists_mem_of_ne_nil _ (mem_sortedGroups.mp hgroup).2
    obtain ⟨lot, hmem, -⟩ := Fallible.mapM_mem hlots (mem_sortedByKey.mpr hn)
    exact List.ne_nil_of_mem hmem
  · obtain ⟨n, hn, hok⟩ := Fallible.mem_of_mapM hlots hmem
    obtain ⟨-, -, lot', hlot', hgood⟩ := hread n hn
    rw [hlot'] at hok
    cases hok
    exact hgood

/-- The contract's threshold of such a group and the plan from it are at the level of its lots. -/
theorem exists_threshold (digest : String → String) (fallback : ℚ) (hw : Written g)
    {group : String × List PipelineNode}
    (hgroup : group ∈ sortedGroups (bookOf g)) {stopPct : ℚ} {level : Int}
    (hone : OneLevelGroup p g group.2 stopPct level) {refs : Dict String String}
    (href : (refs.get? group.1).isSome) :
    ∃ threshold plan, stopThreshold p digest g group = .ok threshold ∧
      threshold.ticker = group.1 ∧ threshold.stopCents = level ∧
      thresholdPlan p g refs fallback group = .ok plan ∧
      plan.threshold.ticker = group.1 ∧ plan.stopCents = level := by
  obtain ⟨lots, hlots, hplanned, hne, hlot⟩ := exists_lots hw hgroup hone fallback
  let threshold (ref : String) : PositionStopThreshold :=
    ⟨group.1, (lots.map StopLot.quantity).sum, ref, weightedPriceCents lots, stopPct⟩
  have hthreshold (ref : String) : thresholdOf group.1 ref lots = .ok (threshold ref) :=
    thresholdOf_of_width group.1 ref hne (fun lot h => (hlot lot h).1) fun lot h => (hlot lot h).2.1
  have hlevel := stopPriceCents_weighted hne (fun lot h => (hlot lot h).1) fun lot h =>
    (hlot lot h).2.2
  obtain ⟨ref, hget⟩ := Option.isSome_iff_exists.mp href
  refine ⟨threshold (positionRefForKeys digest ((sortedByKey group.2).map Node.key)),
    ⟨threshold ref, weakestSource lots, .activePosition⟩, ?_, rfl, hlevel, ?_, rfl, hlevel⟩
  · unfold stopThreshold
    exact Fallible.bind_eq_ok.mpr ⟨lots, hlots, hthreshold _⟩
  · unfold thresholdPlan
    rw [hget, hplanned]
    simp only [Fallible.ok_bind, hthreshold ref, Fallible.pure_eq_ok]

/-! ### One level for a book -/

/-- The group of an active position in a book where each ticker has one level. -/
theorem OneLevel.group (hone : OneLevel p g)
    (hall : ∀ n ∈ activePositionNodes g, HasStopInputs p g n)
    {group : String × List PipelineNode} (hgroup : group ∈ sortedGroups (bookOf g))
    {n : PipelineNode} (hn : n ∈ group.2) {row : Row} (hrow : row? n = some row) {d : DecidedStop}
    (hd : decidedStopPct p g n none = .ok d) :
    OneLevelGroup p g group.2 d.stopPct (stopPriceCents row.openedPriceCents d.stopPct) := by
  intro m hm row' hrow'
  obtain ⟨hn, hticker⟩ := (mem_group hgroup).mp hn
  obtain ⟨hm, hticker'⟩ := (mem_group hgroup).mp hm
  obtain ⟨d', hd'⟩ := hall m hm
  have hsame : row'.ticker = row.ticker := by
    rw [← bookTicker_of_row hrow', ← bookTicker_of_row hrow, hticker, hticker']
  obtain ⟨hwidth, hlevel⟩ := hone m hm n hn row' row d' d hrow' hrow hsame hd' hd
  exact ⟨d', hd', hwidth, hwidth ▸ hlevel⟩

theorem brokerStopThresholds_eq (hw : Written g) {held : List OpenPosition}
    (hheld : openPositions p digest g = .ok held) : brokerStopThresholds p digest g fallback =
      (sortedGroups (bookOf g)).foldlM (planGroup p g (Dict.ofList (held.map fun position =>
        (position.ticker, position.positionRef))) fallback) ⟨[], []⟩ := by
  have hnamed : (activePositionNodes g).filter (fun n => decide (textOr (n.get "ticker") ≠ "")) =
      activePositionNodes g := by
    rw [List.filter_eq_self]
    intro n hn
    obtain ⟨row, hrow, hticker, -⟩ := hw n hn
    exact decide_eq_true (ne_of_eq_of_ne (bookTicker_of_row hrow) hticker)
  unfold brokerStopThresholds
  rw [hnamed, hheld]
  rfl

/-- A pass plans every group whose plan succeeds. -/
theorem foldlM_planGroup {refs : Dict String String} {groups : List (String × List PipelineNode)}
    (hplan : ∀ group ∈ groups, ∃ plan, thresholdPlan p g refs fallback group = .ok plan) :
    ∃ planned, groups.foldlM (planGroup p g refs fallback) ⟨[], []⟩ = .ok planned ∧
      ∀ group ∈ groups, ∃ plan ∈ planned.plans,
        thresholdPlan p g refs fallback group = .ok plan := by
  apply Fallible.foldlM_total (P := fun done (planned : BrokerStopThresholdPlans) =>
    ∀ group ∈ done, ∃ plan ∈ planned.plans, thresholdPlan p g refs fallback group = .ok plan)
  · exact fun group hgroup => absurd hgroup List.not_mem_nil
  · intro done group rest planned hgroups hdone
    obtain ⟨plan, hok⟩ := hplan group (by simp [hgroups])
    refine ⟨{ planned with plans := planned.plans ++ [plan] }, by rw [planGroup, hok], ?_⟩
    intro group' hgroup'
    rcases List.mem_append.mp hgroup' with hearlier | hlast
    · obtain ⟨plan', hplan', hok'⟩ := hdone group' hearlier
      exact ⟨plan', List.mem_append_left _ hplan', hok'⟩
    · cases List.mem_singleton.mp hlast
      exact ⟨plan, List.mem_append_right _ List.mem_cons_self, hok⟩

/-- In a book with one level per ticker both passes reach every position, at its own level. -/
theorem levelsAgree_of_oneLevel (hw : Written g) (hone : OneLevel p g)
    (hall : ∀ n ∈ activePositionNodes g, HasStopInputs p g n) {n : PipelineNode}
    (hn : n ∈ activePositionNodes g) : LevelsAgree p digest g fallback n := by
  obtain ⟨held, hheld, href⟩ := openPositions_total p digest hw
  have hgroups : ∀ group ∈ sortedGroups (bookOf g), ∃ stopPct level,
      OneLevelGroup p g group.2 stopPct level := by
    intro group hgroup
    obtain ⟨m, hm⟩ := List.exists_mem_of_ne_nil _ (mem_sortedGroups.mp hgroup).2
    obtain ⟨row, hrow, -⟩ := hw m ((mem_group hgroup).mp hm).1
    obtain ⟨d, hd⟩ := hall m ((mem_group hgroup).mp hm).1
    exact ⟨_, _, hone.group hall hgroup hm hrow hd⟩
  obtain ⟨thresholds, hthresholds⟩ := Fallible.mapM_total fun group hgroup => by
    obtain ⟨stopPct, level, hlevels⟩ := hgroups group hgroup
    obtain ⟨threshold, -, hok, -⟩ :=
      exists_threshold digest fallback hw hgroup hlevels (href group hgroup)
    exact ⟨threshold, hok⟩
  obtain ⟨planned, hplanned, hplans⟩ := foldlM_planGroup fun group hgroup => by
    obtain ⟨stopPct, level, hlevels⟩ := hgroups group hgroup
    obtain ⟨-, plan, -, -, -, hok, -⟩ :=
      exists_threshold digest fallback hw hgroup hlevels (href group hgroup)
    exact ⟨plan, hok⟩
  obtain ⟨group, hgroup, hticker, hmem⟩ := exists_group hn
  obtain ⟨row, hrow, -⟩ := hw n hn
  obtain ⟨d, hd⟩ := hall n hn
  obtain ⟨threshold, plan, hthreshold, hnamed, hlevel, hplan, hnamed', hlevel'⟩ :=
    exists_threshold digest fallback hw hgroup
      (hone.group hall hgroup hmem hrow hd) (href group hgroup)
  -- Each pass holds the one result of the position's group.
  obtain ⟨threshold', hin, hok⟩ := Fallible.mapM_mem hthresholds hgroup
  obtain ⟨plan', hin', hok'⟩ := hplans group hgroup
  cases hthreshold.symm.trans hok
  cases hplan.symm.trans hok'
  exact ⟨planned, plan, thresholds, threshold, _,
    (brokerStopThresholds_eq hw hheld).trans hplanned, hin', hnamed'.trans hticker,
    (openPositionStopThresholds_eq hw).trans hthresholds, hin, hnamed.trans hticker,
    exitPosition_eq hrow hd, hlevel'.trans hlevel.symm, hlevel⟩

/-- What agreement at one position says of its book: each group has a threshold, and the position's
is at the position's level. -/
theorem LevelsAgree.threshold (hw : Written g) {n : PipelineNode}
    (h : LevelsAgree p digest g fallback n) :
    (∀ group ∈ sortedGroups (bookOf g), ∃ threshold,
      stopThreshold p digest g group = .ok threshold) ∧
    ∃ group ∈ sortedGroups (bookOf g), group.1 = bookTicker n ∧
      ∃ threshold exit, stopThreshold p digest g group = .ok threshold ∧
        exitPosition p g n = .ok exit ∧ threshold.stopCents = exit.stopCents := by
  obtain ⟨-, -, thresholds, threshold, exit, -, -, -, hok, hmem, hticker, hexit, -, hlevel⟩ := h
  rw [openPositionStopThresholds_eq hw] at hok
  obtain ⟨group, hgroup, hthreshold⟩ := Fallible.mem_of_mapM hok hmem
  have hnamed := (stopThreshold_eq_ok hw hgroup hthreshold).1
  refine ⟨fun group hgroup => ?_, group, hgroup, hnamed.symm.trans hticker, threshold, exit,
    hthreshold, hexit, hlevel⟩
  obtain ⟨threshold', -, hok'⟩ := Fallible.mapM_mem hok hgroup
  exact ⟨threshold', hok'⟩

theorem LevelsAgree.inputs (hw : Written g) {n : PipelineNode}
    (h : LevelsAgree p digest g fallback n) {m : PipelineNode} (hm : m ∈ activePositionNodes g) :
    HasStopInputs p g m := by
  obtain ⟨group, hgroup, -, hin⟩ := exists_group hm
  obtain ⟨threshold, hok⟩ := (h.threshold hw).1 group hgroup
  obtain ⟨d, hd, -⟩ := (stopThreshold_eq_ok hw hgroup hok).2 m hin
  exact ⟨d, hd⟩

theorem oneLevel_of_levelsAgree (hw : Written g)
    (h : ∀ n ∈ activePositionNodes g, LevelsAgree p digest g fallback n) : OneLevel p g := by
  intro n hn m hm row row' d d' hrow hrow' hticker hd hd'
  obtain ⟨-, group, hgroup, hnamed, threshold, exit, hok, hexit, hlevel⟩ := (h n hn).threshold hw
  obtain ⟨-, group', hgroup', hnamed', threshold', exit', hok', hexit', hlevel'⟩ :=
    (h m hm).threshold hw
  -- Positions of one ticker have one group, hence one threshold.
  have hsame : bookTicker n = bookTicker m := by
    rw [bookTicker_of_row hrow, bookTicker_of_row hrow', hticker]
  cases group_ext hgroup hgroup' (hnamed.trans (hsame.trans hnamed'.symm))
  cases hok.symm.trans hok'
  have hwidth (k : PipelineNode) (hk : k ∈ activePositionNodes g) (hname : group.1 = bookTicker k)
      (e : DecidedStop) (he : decidedStopPct p g k none = .ok e) :
      e.stopPct = threshold.stopPct := by
    obtain ⟨e', he', hwidth⟩ :=
      (stopThreshold_eq_ok hw hgroup hok).2 k ((mem_group hgroup).mpr ⟨hk, hname.symm⟩)
    cases he.symm.trans he'
    exact hwidth
  refine ⟨(hwidth n hn hnamed d hd).trans (hwidth m hm hnamed' d' hd').symm, ?_⟩
  cases hexit.symm.trans (exitPosition_eq hrow hd)
  cases hexit'.symm.trans (exitPosition_eq hrow' hd')
  exact hlevel.symm.trans hlevel'

/-- The three levels of every position that has its stop inputs are one number of cents exactly when
no position has them, or all have and any two of one ticker have one width and one level. -/
theorem stop_levels_agree_iff (p : Numerals) (digest : String → String) (g : PipelineGraph)
    (fallback : ℚ) (hw : Written g) :
    (∀ n ∈ activePositionNodes g, HasStopInputs p g n → LevelsAgree p digest g fallback n) ↔
      (∀ n ∈ activePositionNodes g, ¬HasStopInputs p g n) ∨
        (∀ n ∈ activePositionNodes g, HasStopInputs p g n) ∧ OneLevel p g := by
  constructor
  · intro h
    by_cases hnone : ∀ n ∈ activePositionNodes g, ¬HasStopInputs p g n
    · exact .inl hnone
    · push Not at hnone
      obtain ⟨n, hn, hinputs⟩ := hnone
      have hall (m) (hm : m ∈ activePositionNodes g) : HasStopInputs p g m :=
        (h n hn hinputs).inputs hw hm
      exact .inr ⟨hall, oneLevel_of_levelsAgree hw fun m hm => h m hm (hall m hm)⟩
  · rintro (hnone | ⟨hall, hone⟩) n hn hinputs
    · exact absurd hinputs (hnone n hn)
    · exact levelsAgree_of_oneLevel hw hone hall hn

end Book

/-- One share at a price, with a recorded width. -/
def heldLot (key : String) (openedPriceCents : Int) : PipelineNode :=
  ⟨positionLabel, key, .ofList [
    ("ticker", .str "LRCX"),
    ("quantity", .int 1),
    ("opened_price_cents", .int openedPriceCents),
    ("stop_pct", .num (1 / 20)),
    ("status", .str "open")], 1⟩

/-- Two lots of one ticker. -/
def twoLots (first second : Int) : PipelineGraph :=
  (Graph.empty.put (heldLot "position-1" first)).put (heldLot "position-2" second)

/-- No text is a number. -/
def noNumerals : Numerals := ⟨fun _ => none, fun _ => none⟩

theorem mem_twoLots {first second : Int} {n : PipelineNode}
    (h : n ∈ activePositionNodes (twoLots first second)) :
    n = heldLot "position-1" first ∨ n = heldLot "position-2" second := by
  have hlist : activePositionNodes (twoLots first second) =
      [heldLot "position-1" first, heldLot "position-2" second] := rfl
  rw [hlist] at h
  simpa using h

theorem stop_levels_agree_iff_two_lots : LevelsAgree noNumerals id (twoLots 10000 10000) (1 / 10)
    (heldLot "position-1" 10000) := by
  have hlot : ∀ n ∈ activePositionNodes (twoLots 10000 10000), row? n = some ⟨"LRCX", 1, 10000⟩ ∧
      decidedStopPct noNumerals (twoLots 10000 10000) n none = .ok ⟨1 / 20, .position⟩ := by
    intro n hn
    rcases mem_twoLots hn with rfl | rfl <;> exact ⟨rfl, rfl⟩
  have hw : Written (twoLots 10000 10000) := fun n hn =>
    ⟨_, (hlot n hn).1, by decide, by decide⟩
  have hall : ∀ n ∈ activePositionNodes (twoLots 10000 10000),
      HasStopInputs noNumerals (twoLots 10000 10000) n := fun n hn => ⟨_, (hlot n hn).2⟩
  have hone : OneLevel noNumerals (twoLots 10000 10000) := by
    intro n hn m hm row row' d d' hrow hrow' _ hd hd'
    cases hrow.symm.trans (hlot n hn).1
    cases hrow'.symm.trans (hlot m hm).1
    cases hd.symm.trans (hlot n hn).2
    cases hd'.symm.trans (hlot m hm).2
    exact ⟨rfl, rfl⟩
  exact (stop_levels_agree_iff noNumerals id _ _ hw).mpr (.inr ⟨hall, hone⟩) _ List.mem_cons_self
    ⟨_, rfl⟩

/-- Two lots at different prices have one stop at the broker, between the monitor's two. -/
theorem two_lots_apart : ¬∀ n ∈ activePositionNodes (twoLots 10000 20000),
    HasStopInputs noNumerals (twoLots 10000 20000) n →
      LevelsAgree noNumerals id (twoLots 10000 20000) (1 / 10) n := by
  intro h
  obtain ⟨-, -, thresholds, threshold, exit, -, -, -, hok, hmem, -, hexit, -, hlevel⟩ :=
    h (heldLot "position-1" 10000) List.mem_cons_self ⟨_, rfl⟩
  have hcheck : Fallible.check (fun all => all.all fun t => decide (t.stopCents = 14250))
      (openPositionStopThresholds noNumerals id (twoLots 10000 20000)) = true := by
    decide +kernel
  obtain ⟨all, hall, htest⟩ := Fallible.check_eq_true.mp hcheck
  cases hok.symm.trans hall
  have hbroker : threshold.stopCents = 14250 := of_decide_eq_true (List.all_eq_true.mp htest _ hmem)
  cases hexit
  have hmonitor : stopPriceCents 10000 (1 / 20) = 9500 := by decide +kernel
  have hsame : (14250 : Int) = 9500 := by rw [← hbroker, hlevel, ← hmonitor]; rfl
  exact absurd hsame (by decide)

end TradingAgents.Execution
