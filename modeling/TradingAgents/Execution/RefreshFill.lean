import TradingAgents.Execution.RefreshReads

/-! One read of a Fill: what it may write, what a clean read is, and the Fill that a clean read
leaves. Its status leaves its absence once and `partial` once, and its profit is that of the whole
order. -/

namespace TradingAgents.Execution

open Kernel ProofKit ProofKit.Fallible BrokerLifecycle Positions

/-! ### The properties of one read -/

section Props

variable {node : PipelineNode} {fill : BrokerFill} {now name : String} {w : Value Document}

/-- The names that only a refresh writes on a Fill. -/
def refreshNames : List String :=
  ["broker_status", "broker_status_broker_order_id", "broker_status_refreshed_at",
    "broker_filled_quantity", "broker_price_cents", "realized_pnl_cents", "pnl_unresolved_at"]

/-- What a read may write on a Fill, and when. -/
inductive Writes (node : PipelineNode) (fill : BrokerFill) : String → Value Document → Prop
  | status : shouldWriteStatus node fill = true →
      Writes node fill "broker_status" (.str fill.status.value)
  | orderId : shouldWriteStatus node fill = true →
      Writes node fill "broker_status_broker_order_id" (.str fill.brokerOrderId)
  | refreshedAt (w : Value Document) : shouldWriteStatus node fill = true →
      Writes node fill "broker_status_refreshed_at" w
  | filledQuantity (w : Value Document) : shouldWriteStatus node fill = true →
      fill.status = .filled → Writes node fill "broker_filled_quantity" w
  | price (w : Value Document) : shouldWritePrice node fill = true →
      Writes node fill "broker_price_cents" w
  | profit (w : Value Document) : needsRealizedPnl node fill = true →
      Writes node fill "realized_pnl_cents" w
  | unresolved (w : Value Document) : needsRealizedPnl node fill = true →
      Writes node fill "pnl_unresolved_at" w

theorem Writes.mem_refreshNames (h : Writes node fill name w) : name ∈ refreshNames := by
  cases h <;> simp [refreshNames]

theorem Writes.filled (h : Writes node fill name w) (hname : name = "broker_filled_quantity") :
    shouldWriteStatus node fill = true ∧ fill.status = .filled := by
  cases h with
  | filledQuantity w hwrite hfilled => exact ⟨hwrite, hfilled⟩
  | _ => simp at hname

theorem brokerStatusProps_writes (h : (brokerStatusProps node fill now).get? name = some w) :
    Writes node fill name w := by
  have hmem := Dict.mem_of_get?_ofList h
  rw [List.mem_append] at hmem
  rcases hmem with hmem | hmem
  · split at hmem
    · rename_i hwrite
      rw [List.mem_append] at hmem
      rcases hmem with hmem | hmem
      · simp only [List.mem_cons, Prod.mk.injEq, List.not_mem_nil, or_false] at hmem
        rcases hmem with ⟨rfl, rfl⟩ | ⟨rfl, rfl⟩ | ⟨rfl, rfl⟩
        · exact .status hwrite
        · exact .orderId hwrite
        · exact .refreshedAt _ hwrite
      · split at hmem
        · rename_i hfilled
          rw [List.mem_singleton, Prod.mk.injEq] at hmem
          obtain ⟨rfl, rfl⟩ := hmem
          exact .filledQuantity _ hwrite hfilled
        · cases hmem
    · cases hmem
  · split at hmem
    · rename_i hwrite
      rw [List.mem_singleton, Prod.mk.injEq] at hmem
      obtain ⟨rfl, rfl⟩ := hmem
      exact .price _ hwrite
    · cases hmem

variable {digest : String → String} {g : PipelineGraph} {pnl : Props Document}

/-- What the profit of a read writes. -/
theorem realizedPnlProps_ok (h : realizedPnlProps digest g node fill now = .ok pnl) :
    (needsRealizedPnl node fill = false ∧ pnl = .empty) ∨
    (needsRealizedPnl node fill = true ∧ resolvedPnl digest g node fill = .ok none ∧
      pnl = .ofList [("pnl_unresolved_at", .str now)]) ∨
    ∃ v, needsRealizedPnl node fill = true ∧ resolvedPnl digest g node fill = .ok (some v) ∧
      pnl = .ofList [("realized_pnl_cents", .int v)] := by
  unfold realizedPnlProps at h
  split at h
  · rename_i hneeds
    cases h
    exact .inl ⟨by simpa using hneeds, rfl⟩
  rename_i hneeds
  have hneeds : needsRealizedPnl node fill = true := by simpa using hneeds
  obtain ⟨resolved, hresolved, hret⟩ := bind_eq_ok.mp h
  cases resolved with
  | none =>
    cases hret
    exact .inr (.inl ⟨hneeds, hresolved, rfl⟩)
  | some v =>
    cases hret
    exact .inr (.inr ⟨v, hneeds, hresolved, rfl⟩)

theorem realizedPnlProps_writes (hpnl : realizedPnlProps digest g node fill now = .ok pnl)
    (h : pnl.get? name = some w) : Writes node fill name w := by
  rcases realizedPnlProps_ok hpnl with ⟨-, rfl⟩ | ⟨hneeds, -, rfl⟩ | ⟨v, hneeds, -, rfl⟩
  · cases h
  · have hmem := Dict.mem_of_get?_ofList h
    rw [List.mem_singleton, Prod.mk.injEq] at hmem
    obtain ⟨rfl, rfl⟩ := hmem
    exact .unresolved _ hneeds
  · have hmem := Dict.mem_of_get?_ofList h
    rw [List.mem_singleton, Prod.mk.injEq] at hmem
    obtain ⟨rfl, rfl⟩ := hmem
    exact .profit _ hneeds

/-- Everything a read writes. -/
def readProps (node : PipelineNode) (fill : BrokerFill) (now : String) (pnl : Props Document) :
    Props Document :=
  (brokerStatusProps node fill now).update pnl

theorem readProps_writes (hpnl : realizedPnlProps digest g node fill now = .ok pnl)
    (h : (readProps node fill now pnl).get? name = some w) : Writes node fill name w := by
  rw [readProps, Dict.get?_update] at h
  cases hname : pnl.get? name with
  | none =>
    rw [hname, Option.none_or] at h
    exact brokerStatusProps_writes h
  | some v =>
    rw [hname, Option.some_or, Option.some.injEq] at h
    subst h
    exact realizedPnlProps_writes hpnl hname

/-- The status a read writes. -/
theorem readProps_status (hpnl : realizedPnlProps digest g node fill now = .ok pnl) :
    (readProps node fill now pnl).get? "broker_status" =
      if shouldWriteStatus node fill then some (.str fill.status.value) else none := by
  have hnone : pnl.get? "broker_status" = none := by
    rcases realizedPnlProps_ok hpnl with ⟨-, rfl⟩ | ⟨-, -, rfl⟩ | ⟨v, -, -, rfl⟩
    · rfl
    · simp [Dict.ofList]
    · simp [Dict.ofList]
  rw [readProps, Dict.get?_update, hnone, Option.none_or, brokerStatusProps_get?]

theorem brokerStatusProps_profit :
    (brokerStatusProps node fill now).get? "realized_pnl_cents" = none ∧
      (brokerStatusProps node fill now).get? "pnl_unresolved_at" = none := by
  unfold brokerStatusProps
  cases shouldWriteStatus node fill <;> cases shouldWritePrice node fill <;>
    by_cases hf : fill.status = .filled <;> simp [hf, Dict.ofList]

/-- The profit a read writes. -/
theorem readProps_profit :
    (readProps node fill now pnl).get? "realized_pnl_cents" = pnl.get? "realized_pnl_cents" ∧
      (readProps node fill now pnl).get? "pnl_unresolved_at" = pnl.get? "pnl_unresolved_at" := by
  simp only [readProps, Dict.get?_update, brokerStatusProps_profit, Option.or_none, and_self]

/-- The profit of a read fails only at a position without a ticker. -/
theorem realizedPnlProps_error {e : HandlerError}
    (h : realizedPnlProps digest g node fill now = .error e) : e = .keyError "ticker" := by
  unfold realizedPnlProps at h
  split at h
  · cases h
  rcases bind_eq_error.mp h with h | ⟨resolved, -, h⟩
  · unfold resolvedPnl at h
    split at h
    · cases h
    rcases bind_eq_error.mp h with h | ⟨basis, -, h⟩
    · exact positionBasisForRef_error h
    · cases h
  · split at h <;> cases h

end Props

/-! ### A Fill between its reads -/

theorem completesPartialFill_iff {node : PipelineNode} {fill : BrokerFill} :
    completesPartialFill node fill = true ↔
      node.props.get? "broker_status" = some (.str "partial") ∧ fill.status = .filled := by
  rw [completesPartialFill, Bool.and_eq_true, decide_eq_true_eq]
  simp only [Value.pyEq_str, decide_eq_true_eq, get_eq_str]

theorem shouldWriteStatus_iff {node : PipelineNode} {fill : BrokerFill} :
    shouldWriteStatus node fill = true ↔
      node.props.get? "broker_status" = none ∨ completesPartialFill node fill = true := by
  rw [shouldWriteStatus, Bool.or_eq_true, Option.isNone_iff_eq_none]

theorem needsRealizedPnl_iff {node : PipelineNode} {fill : BrokerFill} :
    needsRealizedPnl node fill = true ↔
      fill.side = .sell ∧ (fill.status = .filled ∨ fill.status = .partially) ∧
        (node.props.get? "realized_pnl_cents" = none ∨ completesPartialFill node fill = true) ∧
        node.props.get? "pnl_unresolved_at" = none := by
  simp only [needsRealizedPnl, Bool.and_eq_true, Bool.or_eq_true, decide_eq_true_eq,
    Option.isNone_iff_eq_none, and_assoc]

/-- What a Fill looks like between the reads of its order. -/
structure FillStands (n : PipelineNode) : Prop where
  version : n.schemaVersion = 1
  status : ∀ v, n.props.get? "broker_status" = some v →
    v = .str "partial" ∨ v = .str "filled" ∨ v = .str "rejected"
  fresh : n.props.get? "broker_status" = none → ∀ name ∈ refreshNames, n.props.get? name = none
  unfilled : n.props.get? "broker_status" = some (.str "partial") →
    n.props.get? "broker_filled_quantity" = none
  apart : n.props.get? "realized_pnl_cents" ≠ none → n.props.get? "pnl_unresolved_at" = none

/-- A read that the refresh can record.  The clock shows an instant at which this Fill was not read;
the read that completes a partly filled order is under the order id of the first; where a profit was
booked for the part, it is a sell too and its basis still resolves, for the whole; where the profit
of the part was unresolved, that of the whole is too; and a read that rejects an order of which
shares were executed is of a buy without a booked profit. -/
structure CleanRead (digest : String → String) (g : PipelineGraph) (n : PipelineNode)
    (fill : BrokerFill) (now : String) : Prop where
  clock : g.getNode brokerOrderStatusLabel (orderStatusKey n.key now) = none
  order : completesPartialFill n fill = true →
    n.props.get? "broker_status_broker_order_id" = some (.str fill.brokerOrderId)
  basis : completesPartialFill n fill = true → n.props.get? "realized_pnl_cents" ≠ none →
    fill.side = .sell ∧ ∃ v, resolvedPnl digest g n fill = .ok (some v)
  marked : completesPartialFill n fill = true → fill.side = .sell →
    n.props.get? "pnl_unresolved_at" ≠ none → ∀ v, resolvedPnl digest g n fill ≠ .ok (some v)
  ended : fill.status = .rejected → 0 < executedQuantity fill →
    fill.side = .buy ∧ n.props.get? "realized_pnl_cents" = none

section Read

variable {digest : String → String} {g : PipelineGraph} {n n' : PipelineNode} {fill : BrokerFill}
  {now : String} {pnl : Props Document}

/-- A clean read conflicts with nothing on its Fill. -/
theorem FillStands.noConflict (h : FillStands n) (hclean : CleanRead digest g n fill now)
    (hpnl : realizedPnlProps digest g n fill now = .ok pnl) (name : String) :
    ¬ Graph.Conflicts n.props (readProps n fill now pnl) name := by
  rintro ⟨v, w, hv, hw, hdiff, hexempt⟩
  have hwrites := readProps_writes hpnl hw
  cases hstatus : n.props.get? "broker_status" with
  | none =>
    rw [h.fresh hstatus name hwrites.mem_refreshNames] at hv
    cases hv
  | some status =>
    have hwrite_of : shouldWriteStatus n fill = true → completesPartialFill n fill = true := by
      intro hwrite
      rcases shouldWriteStatus_iff.mp hwrite with hnone | hcompletes
      · rw [hstatus] at hnone
        cases hnone
      · exact hcompletes
    -- the completion of a partial status may rewrite what the store exempts
    have hcompletion : completesPartialFill n fill = true →
        name ∉ Graph.partialCompletionProps := by
      intro hcompletes hname
      obtain ⟨hstill, hfilled⟩ := completesPartialFill_iff.mp hcompletes
      have hnew : (readProps n fill now pnl).get? "broker_status" = some (.str "filled") := by
        rw [readProps_status hpnl, if_pos (shouldWriteStatus_iff.mpr (.inr hcompletes)), hfilled]
        rfl
      rw [Graph.isPartialCompletion] at hexempt
      simp [hname, Props.get, hstill, hnew] at hexempt
    cases hwrites with
    | status hwrite => exact hcompletion (hwrite_of hwrite) (by simp [Graph.partialCompletionProps])
    | refreshedAt w hwrite =>
      exact hcompletion (hwrite_of hwrite) (by simp [Graph.partialCompletionProps])
    | orderId hwrite =>
      rw [hclean.order (hwrite_of hwrite), Option.some.injEq] at hv
      subst hv
      simp at hdiff
    | filledQuantity w hwrite _ =>
      rw [h.unfilled (completesPartialFill_iff.mp (hwrite_of hwrite)).1] at hv
      cases hv
    | price w hprice =>
      rw [shouldWritePrice, Bool.and_eq_true, Bool.or_eq_true, Option.isNone_iff_eq_none] at hprice
      rcases hprice.2 with hnone | hcompletes
      · rw [hnone] at hv
        cases hv
      · exact hcompletion hcompletes (by simp [Graph.partialCompletionProps])
    | profit w hneeds =>
      rcases (needsRealizedPnl_iff.mp hneeds).2.2.1 with hnone | hcompletes
      · rw [hnone] at hv
        cases hv
      · exact hcompletion hcompletes (by simp [Graph.partialCompletionProps])
    | unresolved w hneeds =>
      rw [(needsRealizedPnl_iff.mp hneeds).2.2.2] at hv
      cases hv

/-- The price of a completing read, and of the first read, is that of the read. -/
theorem FillStands.exitPrice (h : FillStands n) (hwrite : shouldWriteStatus n fill = true) :
    exitPriceCents n fill = moneyToCents fill.price := by
  rw [exitPriceCents]
  split
  · rfl
  · rename_i hcompletes
    have hnone := (shouldWriteStatus_iff.mp hwrite).resolve_right hcompletes
    rw [h.fresh hnone "broker_price_cents" (by simp [refreshNames])]
    rfl

/-- A read that ends an order of which shares were executed. -/
def Ended (fill : BrokerFill) : Prop :=
  fill.status = .filled ∨ (fill.status = .rejected ∧ 0 < executedQuantity fill)

theorem Ended.filled (h : Ended fill) (hstatus : fill.status = .filled ∨ fill.status = .partially) :
    fill.status = .filled := by
  rcases hstatus with hfilled | hstill
  · exact hfilled
  · rcases h with hfilled | ⟨hrejected, -⟩
    · exact hfilled
    · rw [hstill] at hrejected
      cases hrejected

/-- A clean read that ends a sell says filled. -/
theorem CleanRead.filled_of_sell (h : CleanRead digest g n fill now) (hended : Ended fill)
    (hsell : fill.side = .sell) : fill.status = .filled := by
  rcases hended with hfilled | ⟨hrejected, hshares⟩
  · exact hfilled
  · rw [(h.ended hrejected hshares).1] at hsell
    cases hsell

/-- The booked profit is that of a filled sell: of its whole quantity, at its last price. -/
def Booked (digest : String → String) (g : PipelineGraph) (n : PipelineNode) (fill : BrokerFill)
    (v : Value Document) : Prop :=
  fill.status = .filled ∧ fill.side = .sell ∧ exitPriceCents n fill = moneyToCents fill.price ∧
    ∃ cents, v = .int cents ∧ resolvedPnl digest g n fill = .ok (some cents)

/-- What one read does to its Fill. -/
structure ReadFill (digest : String → String) (g : PipelineGraph) (n n' : PipelineNode)
    (fill : BrokerFill) : Prop where
  stands : FillStands n'
  moves : n'.props.get? "broker_status" = n.props.get? "broker_status" ∨
    (n.props.get? "broker_status" = none ∧
      n'.props.get? "broker_status" = some (.str fill.status.value)) ∨
    (n.props.get? "broker_status" = some (.str "partial") ∧
      n'.props.get? "broker_status" = some (.str "filled"))
  marker : ∀ v, n.props.get? "pnl_unresolved_at" = some v →
    n'.props.get? "pnl_unresolved_at" = some v
  profit : Ended fill → ∀ v, n'.props.get? "realized_pnl_cents" = some v →
    Booked digest g n fill v
  earned : Ended fill → fill.side = .sell →
    ∀ cents, resolvedPnl digest g n fill = .ok (some cents) →
      n'.props.get? "realized_pnl_cents" = some (.int cents)
  resolved : Ended fill → fill.side = .sell →
    n'.props.get? "realized_pnl_cents" = none → n'.props.get? "pnl_unresolved_at" ≠ none

/-- A Fill that waits has no status or a partial one. -/
theorem FillStands.open_of_awaits (h : FillStands n) (hawaits : awaitsBroker n = true) :
    n.props.get? "broker_status" = none ∨ n.props.get? "broker_status" = some (.str "partial") := by
  cases hstatus : n.props.get? "broker_status" with
  | none => exact .inl rfl
  | some v =>
    have hvalue : n.get "broker_status" = v := by rw [Node.get, Props.get, hstatus]; rfl
    rw [awaitsBroker, Bool.and_eq_true, hvalue] at hawaits
    rcases h.status v hstatus with rfl | rfl | rfl
    · exact .inr rfl
    · exact absurd hawaits.2 (by decide)
    · exact absurd hawaits.2 (by decide)

section Outcome

variable (hget : ∀ name, n'.props.get? name =
    ((readProps n fill now pnl).get? name).or (n.props.get? name))
  (hpnl : realizedPnlProps digest g n fill now = .ok pnl)

include hget hpnl

theorem read_status : n'.props.get? "broker_status" =
    if shouldWriteStatus n fill then some (.str fill.status.value)
    else n.props.get? "broker_status" := by
  rw [hget, readProps_status hpnl]
  split <;> rfl

/-- A property that the read does not write stays. -/
theorem read_kept {name : String} (h : ∀ w, ¬ Writes n fill name w) :
    n'.props.get? name = n.props.get? name := by
  rw [hget]
  cases hname : (readProps n fill now pnl).get? name with
  | none => rfl
  | some w => exact (h w (readProps_writes hpnl hname)).elim

/-- The profit after a read: untouched, unresolved, or booked. -/
theorem read_profit :
    (needsRealizedPnl n fill = false ∧
      n'.props.get? "realized_pnl_cents" = n.props.get? "realized_pnl_cents" ∧
      n'.props.get? "pnl_unresolved_at" = n.props.get? "pnl_unresolved_at") ∨
    (needsRealizedPnl n fill = true ∧ resolvedPnl digest g n fill = .ok none ∧
      n'.props.get? "realized_pnl_cents" = n.props.get? "realized_pnl_cents" ∧
      n'.props.get? "pnl_unresolved_at" = some (.str now)) ∨
    ∃ cents, needsRealizedPnl n fill = true ∧ resolvedPnl digest g n fill = .ok (some cents) ∧
      n'.props.get? "realized_pnl_cents" = some (.int cents) ∧
      n'.props.get? "pnl_unresolved_at" = n.props.get? "pnl_unresolved_at" := by
  rw [hget, hget, readProps_profit.1, readProps_profit.2]
  rcases realizedPnlProps_ok hpnl with ⟨hneeds, rfl⟩ | ⟨hneeds, hresolved, rfl⟩ |
    ⟨cents, hneeds, hresolved, rfl⟩
  · exact .inl ⟨hneeds, rfl, rfl⟩
  · exact .inr (.inl ⟨hneeds, hresolved, by simp [Dict.ofList], by simp [Dict.ofList]⟩)
  · exact .inr (.inr ⟨cents, hneeds, hresolved, by simp [Dict.ofList], by simp [Dict.ofList]⟩)

/-- A booked profit and its unresolved marker never stand together. -/
theorem FillStands.read_apart (h : FillStands n) (hclean : CleanRead digest g n fill now)
    (hbooked : n'.props.get? "realized_pnl_cents" ≠ none) :
    n'.props.get? "pnl_unresolved_at" = none := by
  rcases read_profit hget hpnl with ⟨-, hprofit, hmarker⟩ | ⟨hneeds, hresolved, hprofit, -⟩ |
    ⟨cents, hneeds, -, -, hmarker⟩
  · rw [hmarker]
    exact h.apart (hprofit ▸ hbooked)
  · obtain ⟨-, -, hfree, -⟩ := needsRealizedPnl_iff.mp hneeds
    rw [hprofit] at hbooked
    obtain ⟨-, v, hv⟩ := hclean.basis (hfree.resolve_left hbooked) hbooked
    rw [hresolved] at hv
    cases hv
  · rw [hmarker]
    exact (needsRealizedPnl_iff.mp hneeds).2.2.2

theorem FillStands.read_stands (h : FillStands n) (hclean : CleanRead digest g n fill now)
    (hpending : fill.status ≠ .pending) (hversion : n'.schemaVersion = 1) : FillStands n' where
  version := hversion
  status v hv := by
    rw [read_status hget hpnl] at hv
    split at hv
    · cases hv
      cases hstatus : fill.status with
      | filled => exact .inr (.inl rfl)
      | partially => exact .inl rfl
      | rejected => exact .inr (.inr rfl)
      | pending => exact (hpending hstatus).elim
    · exact h.status v hv
  fresh hnone := by
    -- a read that leaves no status found one
    rw [read_status hget hpnl] at hnone
    split at hnone
    · cases hnone
    · rename_i hwrite
      exact (hwrite (shouldWriteStatus_iff.mpr (.inl hnone))).elim
  unfilled hstill := by
    rw [read_status hget hpnl] at hstill
    split at hstill
    · rename_i hwrite
      have hstatus : fill.status ≠ .filled := by
        intro hfilled
        rw [hfilled] at hstill
        exact absurd hstill (by decide)
      rw [read_kept hget hpnl]
      · rcases shouldWriteStatus_iff.mp hwrite with hnone | hcompletes
        · exact h.fresh hnone _ (by simp [refreshNames])
        · exact (hstatus (completesPartialFill_iff.mp hcompletes).2).elim
      · exact fun w hwrites => hstatus (hwrites.filled rfl).2
    · rename_i hwrite
      rw [read_kept hget hpnl]
      · exact h.unfilled hstill
      · exact fun w hwrites => hwrite (hwrites.filled rfl).1
  apart := h.read_apart hget hpnl hclean

/-- The profit after the first read of an order, if it ended the order. -/
theorem FillStands.profit_first (h : FillStands n) (hnone : n.props.get? "broker_status" = none)
    (hended : Ended fill) {v : Value Document}
    (hv : n'.props.get? "realized_pnl_cents" = some v) : Booked digest g n fill v := by
  have hunbooked : n.props.get? "realized_pnl_cents" = none :=
    h.fresh hnone _ (by simp [refreshNames])
  rcases read_profit hget hpnl with ⟨-, hprofit, -⟩ | ⟨-, -, hprofit, -⟩ |
    ⟨cents, hneeds, hresolved, hprofit, -⟩
  · rw [hprofit, hunbooked] at hv
    cases hv
  · rw [hprofit, hunbooked] at hv
    cases hv
  · obtain ⟨hsell, hstatus, -⟩ := needsRealizedPnl_iff.mp hneeds
    rw [hprofit, Option.some.injEq] at hv
    refine ⟨hended.filled hstatus, hsell, ?_, cents, hv.symm, hresolved⟩
    exact h.exitPrice (shouldWriteStatus_iff.mpr (.inl hnone))

/-- The profit after a read that ended a partly filled order. -/
theorem FillStands.profit_last (h : FillStands n) (hclean : CleanRead digest g n fill now)
    (hstill : n.props.get? "broker_status" = some (.str "partial")) (hended : Ended fill)
    {v : Value Document} (hv : n'.props.get? "realized_pnl_cents" = some v) :
    Booked digest g n fill v := by
  have hfilled : fill.status = .filled := by
    rcases hended with hfilled | ⟨hrejected, hshares⟩
    · exact hfilled
    · -- the order of a buy without a profit gets none
      obtain ⟨hbuy, hunbooked⟩ := hclean.ended hrejected hshares
      have hsell : needsRealizedPnl n fill = true → fill.side = .sell := fun hneeds =>
        (needsRealizedPnl_iff.mp hneeds).1
      rw [hbuy] at hsell
      rcases read_profit hget hpnl with ⟨-, hprofit, -⟩ | ⟨hneeds, -⟩ | ⟨cents, hneeds, -⟩
      · rw [hprofit, hunbooked] at hv
        cases hv
      · cases hsell hneeds
      · cases hsell hneeds
  have hcompletes := completesPartialFill_iff.mpr ⟨hstill, hfilled⟩
  rcases read_profit hget hpnl with ⟨hneeds, hprofit, -⟩ | ⟨-, hresolved, hprofit, -⟩ |
    ⟨cents, hneeds, hresolved, hprofit, -⟩
  · rw [hprofit] at hv
    have hbooked : n.props.get? "realized_pnl_cents" ≠ none := by simp [hv]
    have hneeded : needsRealizedPnl n fill = true := needsRealizedPnl_iff.mpr
      ⟨(hclean.basis hcompletes hbooked).1, .inl hfilled, .inr hcompletes, h.apart hbooked⟩
    rw [hneeds] at hneeded
    cases hneeded
  · rw [hprofit] at hv
    obtain ⟨-, cents, hcents⟩ := hclean.basis hcompletes (by simp [hv])
    rw [hresolved] at hcents
    cases hcents
  · obtain ⟨hsell, -⟩ := needsRealizedPnl_iff.mp hneeds
    rw [hprofit, Option.some.injEq] at hv
    refine ⟨hfilled, hsell, ?_, cents, hv.symm, hresolved⟩
    exact h.exitPrice (shouldWriteStatus_iff.mpr (.inr hcompletes))

/-- A clean read that ends a sell books the profit that resolves for the whole order. -/
theorem FillStands.read_earned (h : FillStands n) (hawaits : awaitsBroker n = true)
    (hclean : CleanRead digest g n fill now) (hended : Ended fill) (hsell : fill.side = .sell)
    {cents : Int} (hcents : resolvedPnl digest g n fill = .ok (some cents)) :
    n'.props.get? "realized_pnl_cents" = some (.int cents) := by
  have hfilled := hclean.filled_of_sell hended hsell
  have hneeds : needsRealizedPnl n fill = true := by
    refine needsRealizedPnl_iff.mpr ⟨hsell, .inl hfilled, ?_⟩
    rcases h.open_of_awaits hawaits with hnone | hstill
    · exact ⟨.inl (h.fresh hnone _ (by simp [refreshNames])),
        h.fresh hnone _ (by simp [refreshNames])⟩
    · have hcompletes := completesPartialFill_iff.mpr ⟨hstill, hfilled⟩
      refine ⟨.inr hcompletes, ?_⟩
      by_contra hmarked
      exact hclean.marked hcompletes hsell hmarked cents hcents
  rcases read_profit hget hpnl with ⟨hnot, -⟩ | ⟨-, hresolved, -⟩ |
    ⟨cents', -, hresolved, hprofit, -⟩
  · rw [hneeds] at hnot
    cases hnot
  · rw [hcents] at hresolved
    cases hresolved
  · rw [hcents] at hresolved
    cases hresolved
    exact hprofit

/-- What a clean read does to a Fill that waits. -/
theorem FillStands.read (h : FillStands n) (hawaits : awaitsBroker n = true)
    (hclean : CleanRead digest g n fill now) (hpending : fill.status ≠ .pending)
    (hversion : n'.schemaVersion = 1) : ReadFill digest g n n' fill where
  stands := h.read_stands hget hpnl hclean hpending hversion
  moves := by
    rw [read_status hget hpnl]
    split
    · rename_i hwrite
      rcases shouldWriteStatus_iff.mp hwrite with hnone | hcompletes
      · exact .inr (.inl ⟨hnone, rfl⟩)
      · obtain ⟨hstill, hfilled⟩ := completesPartialFill_iff.mp hcompletes
        exact .inr (.inr ⟨hstill, by rw [hfilled]; rfl⟩)
    · exact .inl rfl
  marker v hv := by
    rcases read_profit hget hpnl with ⟨-, -, hmarker⟩ | ⟨hneeds, -, -, -⟩ | ⟨-, -, -, -, hmarker⟩
    · rw [hmarker, hv]
    · rw [(needsRealizedPnl_iff.mp hneeds).2.2.2] at hv
      cases hv
    · rw [hmarker, hv]
  profit hended v hv := by
    rcases h.open_of_awaits hawaits with hnone | hstill
    · exact h.profit_first hget hpnl hnone hended hv
    · exact h.profit_last hget hpnl hclean hstill hended hv
  earned hended hsell _ hcents := h.read_earned hget hpnl hawaits hclean hended hsell hcents
  resolved hended hsell hunbooked := by
    have hfilled := hclean.filled_of_sell hended hsell
    rcases read_profit hget hpnl with ⟨hneeds, hprofit, hmarker⟩ | ⟨-, -, -, hmarker⟩ |
      ⟨cents, -, -, hprofit, -⟩
    · rw [hmarker]
      intro hfree
      have hneeded : needsRealizedPnl n fill = true :=
        needsRealizedPnl_iff.mpr ⟨hsell, .inl hfilled, .inl (hprofit ▸ hunbooked), hfree⟩
      rw [hneeds] at hneeded
      cases hneeded
    · rw [hmarker]
      simp
    · rw [hunbooked] at hprofit
      cases hprofit

end Outcome

end Read

end TradingAgents.Execution
