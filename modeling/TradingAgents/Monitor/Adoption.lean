import TradingAgents.Monitor.PositionHistory

/-! The loops of the reconciliation succeed on an intact book: grouping, matching, the closing of
active positions, and the adoption of one holding after another, with the invariant `Adopted` that
carries the loop over the holdings. -/

namespace TradingAgents.Monitor

open Kernel ProofKit Positions

/-! ### The loops succeed -/

/-- The ticker of a position. -/
def tickerOf (n : PipelineNode) : String := (n.get "ticker").str?.getD ""

theorem tickerOf_eq {n : PipelineNode} {r : Row} (h : row? n = some r) : tickerOf n = r.ticker := by
  rw [tickerOf, (row?_eq_some.mp h).1]; rfl

theorem Intact.textOf_ticker {n : PipelineNode} (h : Intact n) :
    textOf n "ticker" = .ok (tickerOf n) := by
  obtain ⟨r, hr⟩ := h.row
  rw [textOf_eq_ok (row?_eq_some.mp hr).1, tickerOf_eq hr]

theorem positionsByTicker_total (ns : List PipelineNode) (hns : ∀ n ∈ ns, Intact n) :
    ∃ grouped, positionsByTicker ns = .ok grouped ∧
      (∀ t, (grouped.get? t).getD [] = ns.filter fun n => tickerOf n = t) ∧
      ∀ t, grouped.get? t ≠ some [] := by
  refine Fallible.foldlM_total (P := fun done (grouped : Dict String (List PipelineNode)) =>
    (∀ t, (grouped.get? t).getD [] = done.filter fun n => tickerOf n = t) ∧
      ∀ t, grouped.get? t ≠ some []) ⟨by simp, by simp⟩ ?_
  intro done n rest grouped hl hP
  refine ⟨grouped.set (tickerOf n) ((grouped.get? (tickerOf n)).getD [] ++ [n]), ?_, ?_, ?_⟩
  · rw [(hns n (by simp [hl])).textOf_ticker]; rfl
  · intro t
    by_cases ht : t = tickerOf n
    · subst ht; simp [hP.1]
    · simp [ht, hP.1, Ne.symm ht]
  · intro t
    by_cases ht : t = tickerOf n
    · simp [ht]
    · simp [ht, hP.2 t]

/-- Whether a position has the size and price of a holding. -/
def Fits (h : SnapshotHolding) (n : PipelineNode) : Prop :=
  ∃ t, row? n = some ⟨t, h.quantity, h.avgEntryCents⟩

theorem Fits.row {h : SnapshotHolding} {n : PipelineNode} (hf : Fits h n)
    (ht : tickerOf n = h.ticker) : row? n = some (holdingRow h) := by
  obtain ⟨t, hr⟩ := hf
  rw [tickerOf_eq hr] at ht
  rw [hr, holdingRow, ← ht]

theorem matchingPosition_total {ns : List PipelineNode} {h : SnapshotHolding}
    (hns : ∀ n ∈ ns, Intact n) :
    (∃ n ∈ ns, Fits h n ∧ matchingPosition ns h = .ok (some n)) ∨
      ((∀ n ∈ ns, ¬ Fits h n) ∧ matchingPosition ns h = .ok none) := by
  induction ns with
  | nil => exact .inr ⟨by simp, rfl⟩
  | cons n rest ih =>
    obtain ⟨r, hr⟩ := (hns n (by simp)).row
    have hquantity := intOf_eq_ok (row?_eq_some.mp hr).2.1
    have hprice := intOf_eq_ok (row?_eq_some.mp hr).2.2
    have hmatch : matchingPosition (n :: rest) h =
        if r.quantity = h.quantity ∧ r.openedPriceCents = h.avgEntryCents then .ok (some n)
        else matchingPosition rest h := by
      rw [matchingPosition, hquantity, Fallible.ok_bind]
      by_cases hq : r.quantity = h.quantity
      · simp [hq, hprice]
      · simp [hq]
    rw [hmatch]
    by_cases hfit : r.quantity = h.quantity ∧ r.openedPriceCents = h.avgEntryCents
    · refine .inl ⟨n, List.mem_cons_self, ⟨r.ticker, ?_⟩, if_pos hfit⟩
      rw [hr, ← hfit.1, ← hfit.2]
    · have hnot : ¬ Fits h n := by
        rintro ⟨t, ht⟩
        rw [hr] at ht
        cases ht
        exact hfit ⟨rfl, rfl⟩
      rw [if_neg hfit]
      rcases ih fun m hm => hns m (List.mem_cons_of_mem _ hm) with ⟨m, hm, hf, hok⟩ | ⟨hall, hok⟩
      · exact .inl ⟨m, List.mem_cons_of_mem _ hm, hf, hok⟩
      · refine .inr ⟨fun m hm => ?_, hok⟩
        rcases List.mem_cons.mp hm with rfl | hm
        · exact hnot
        · exact hall m hm

/-- The positions under `keys` are closed and every other one stands as it was. -/
structure RetiredAll (g g' : PipelineGraph) (keys : List String) : Prop where
  intact : BookIntact g'
  closed : ∀ k ∈ keys, ∃ n', g'.getNode positionLabel k = some n' ∧
    isActivePositionNode n' = false
  others : ∀ k, k ∉ keys → g'.getNode positionLabel k = g.getNode positionLabel k

/-- A loop that closes the selected ones of some active positions succeeds and closes these. -/
theorem foldlM_retires (mark : PipelineGraph → PipelineNode → Except HandlerError PipelineGraph)
    (select : PipelineNode → Bool) {ns : List PipelineNode} {g : PipelineGraph}
    (hg : BookIntact g) (hnodup : (ns.map Node.key).Nodup)
    (hns : ∀ n ∈ ns, select n = true → g.getNode positionLabel n.key = some n ∧
      isActivePositionNode n = true)
    (hmark : ∀ t n, BookIntact t → t.getNode positionLabel n.key = some n →
      isActivePositionNode n = true → ∃ t', mark t n = .ok t' ∧ Retired t t' n.key) :
    ∃ g', ns.foldlM (fun t n => if select n then mark t n else pure t) g = .ok g' ∧
      RetiredAll g g' ((ns.filter select).map Node.key) := by
  refine Fallible.foldlM_total (P := fun done t =>
    RetiredAll g t ((done.filter select).map Node.key)) ⟨hg, by simp, fun _ _ => rfl⟩ ?_
  intro done n rest t hl hP
  by_cases hsel : select n = true
  · obtain ⟨hget, hactive⟩ := hns n (by simp [hl]) hsel
    have hfree : n.key ∉ (done.filter select).map Node.key := by
      intro hmem
      obtain ⟨m, hm, hkey⟩ := List.mem_map.mp hmem
      rw [hl, List.map_append, List.nodup_append] at hnodup
      exact hnodup.2.2 _ (List.mem_map_of_mem (List.mem_of_mem_filter hm)) _ (by simp) hkey
    obtain ⟨t', ht', hret⟩ := hmark t n hP.intact ((hP.others _ hfree).trans hget) hactive
    refine ⟨t', by simp [hsel, ht'], hret.bookIntact hP.intact, fun k hk => ?_, fun k hk => ?_⟩
    · by_cases hkn : k = n.key
      · obtain ⟨n', hn', -, hinactive⟩ := hret.target
        exact ⟨n', hkn ▸ hn', hinactive⟩
      · rw [hret.others k hkn]
        refine hP.closed k ?_
        simpa [List.filter_append, hsel, hkn] using hk
    · simp only [List.filter_append, List.filter_cons, hsel, List.filter_nil, List.map_append,
        if_true, List.map_cons, List.map_nil, List.mem_append, List.mem_singleton, not_or] at hk
      rw [hret.others k hk.2, hP.others k hk.1]
  · refine ⟨t, by simp [hsel], ?_⟩
    simpa [List.filter_append, hsel] using hP

/-! ### One holding after another -/

section Adoption

variable {g₀ : PipelineGraph} {rows : List SnapshotHolding} {snapshot : PipelineNode}
  (settings : MonitorSettings) {grouped : Dict String (List PipelineNode)}

/-- No active position fits the holding, and its content key is taken. -/
def Shadowed (g : PipelineGraph) (h : SnapshotHolding) : Prop :=
  (∀ n ∈ activePositionNodes g, row? n ≠ some (holdingRow h)) ∧
    (g.getNode positionLabel (brokerKey h)).isSome

/-- The book after the holdings `done`: the positions of the other tickers stand as they stood in
`g₀`, and each holding that is done has one active position of its ticker, which fits it. -/
structure Adopted (g₀ : PipelineGraph) (rows done : List SnapshotHolding) (g : PipelineGraph) :
    Prop where
  intact : BookIntact g
  pending : ∀ n ∈ activePositionNodes g₀, tickerOf n ∉ done.map SnapshotHolding.ticker →
    g.getNode positionLabel n.key = some n
  free : ∀ h ∈ rows, h.ticker ∉ done.map SnapshotHolding.ticker →
    (∀ n ∈ activePositionNodes g₀, row? n ≠ some (holdingRow h)) →
    g.getNode positionLabel (brokerKey h) = none
  kept : ∀ h ∈ done, ∃ n ∈ activePositionNodes g, row? n = some (holdingRow h) ∧
    ∀ m ∈ activePositionNodes g, tickerOf m = h.ticker → m = n
  origin : ∀ m ∈ activePositionNodes g,
    (m ∈ activePositionNodes g₀ ∧ tickerOf m ∉ done.map SnapshotHolding.ticker) ∨
      ∃ h ∈ done, row? m = some (holdingRow h)

/-- `kept` stands for `h` in `g₁`, which is `g` but for the node under its key. -/
structure Stands (g g₁ : PipelineGraph) (h : SnapshotHolding) (kept : PipelineNode) : Prop where
  intact : BookIntact g₁
  node : g₁.getNode positionLabel kept.key = some kept
  row : row? kept = some (holdingRow h)
  active : isActivePositionNode kept = true
  others : ∀ k, k ≠ kept.key → g₁.getNode positionLabel k = g.getNode positionLabel k
  source : g.getNode positionLabel kept.key = some kept ∨
    (kept.key = brokerKey h ∧ g.getNode positionLabel kept.key = none)

theorem mem_active_key {g : PipelineGraph} {n : PipelineNode} (hn : n ∈ activePositionNodes g) :
    g.getNode positionLabel n.key = some n := (mem_activePositionNodes.mp hn).2.1

theorem mem_active {g : PipelineGraph} {n : PipelineNode} {k : String}
    (hn : g.getNode positionLabel k = some n) (hactive : isActivePositionNode n = true) :
    n ∈ activePositionNodes g := by
  obtain ⟨hl, rfl⟩ := Graph.getNode_nodeKey hn
  exact mem_activePositionNodes.mpr ⟨hl, hn, hactive⟩

theorem standingPosition_total {done : List SnapshotHolding} {g : PipelineGraph}
    {h : SnapshotHolding} (hrun : (snapshot.props.get? "run_id").isSome)
    (hcreated : (snapshot.props.get? "created_at").isSome) (hh : h ∈ rows)
    (hnew : h.ticker ∉ done.map SnapshotHolding.ticker) (hg : Adopted g₀ rows done g)
    (hcand : (grouped.get? h.ticker).getD [] =
      (activePositionNodes g₀).filter fun n => tickerOf n = h.ticker) :
    ∃ g₁ kept, standingPosition g snapshot settings ((grouped.get? h.ticker).getD []) h =
      .ok (g₁, kept) ∧ Stands g g₁ h kept := by
  rw [hcand]
  have hmem : ∀ n ∈ (activePositionNodes g₀).filter fun n => tickerOf n = h.ticker,
      n ∈ activePositionNodes g₀ ∧ tickerOf n = h.ticker := fun n hn => by
    simpa using List.mem_filter.mp hn
  have hget : ∀ n ∈ (activePositionNodes g₀).filter fun n => tickerOf n = h.ticker,
      g.getNode positionLabel n.key = some n := fun n hn =>
    hg.pending n (hmem n hn).1 ((hmem n hn).2 ▸ hnew)
  rcases matchingPosition_total (h := h) fun n hn => hg.intact _ _ (hget n hn) with
    ⟨n, hn, hfits, hok⟩ | ⟨hall, hok⟩
  · refine ⟨g, n, by rw [standingPosition, hok]; rfl, hg.intact, hget n hn,
      hfits.row (hmem n hn).2, ?_, fun _ _ => rfl, .inl (hget n hn)⟩
    exact (mem_activePositionNodes.mp (hmem n hn).1).2.2
  · have hfree := hg.free h hh hnew fun n hn hrow => by
      have ht : tickerOf n = h.ticker := tickerOf_eq hrow
      exact hall n (List.mem_filter.mpr ⟨hn, by simpa using ht⟩) ⟨_, hrow⟩
    obtain ⟨g₁, kept, hcreate⟩ := createBrokerPosition_total settings hfree hrun hcreated
    refine ⟨g₁, kept, by rw [standingPosition, hok]; exact hcreate, ?_⟩
    rcases createBrokerPosition_ok hcreate with ⟨-, hcur⟩ | ⟨-, rfl, hl, hk, hrow, hint, hactive⟩
    · rw [hfree] at hcur; cases hcur
    · exact ⟨bookIntact_put hg.intact hint, by simp [hl], hrow, hactive,
        fun k hk' => by simp [hk'], .inr ⟨hk, hk ▸ hfree⟩⟩

/-- One holding more: its position stands and every other candidate is closed. -/
theorem reconcileHolding_total {done rest : List SnapshotHolding} {g : PipelineGraph}
    {h : SnapshotHolding} (hrun : (snapshot.props.get? "run_id").isSome)
    (hcreated : (snapshot.props.get? "created_at").isSome) (hrows : rows = done ++ h :: rest)
    (hdistinct : (rows.map SnapshotHolding.ticker).Nodup) (hg : Adopted g₀ rows done g)
    (hgrouped : ∀ t, (grouped.get? t).getD [] =
      (activePositionNodes g₀).filter fun n => tickerOf n = t) :
    ∃ g', reconcileHolding snapshot settings grouped g h = .ok g' ∧
      Adopted g₀ rows (done ++ [h]) g' := by
  have hnew : h.ticker ∉ done.map SnapshotHolding.ticker := by
    rw [hrows, List.map_append, List.nodup_append] at hdistinct
    exact fun hmem => hdistinct.2.2 _ hmem _ (by simp) rfl
  obtain ⟨g₁, kept, hstand, hkept⟩ := standingPosition_total settings hrun hcreated
    (by simp [hrows]) hnew hg (hgrouped h.ticker)
  have hkticker : tickerOf kept = h.ticker := tickerOf_eq hkept.row
  have hne : kept.key ≠ "" := (hkept.intact _ _ hkept.node).key
  have hcand : ∀ n ∈ (grouped.get? h.ticker).getD [],
      n ∈ activePositionNodes g₀ ∧ tickerOf n = h.ticker := fun n hn => by
    rw [hgrouped] at hn
    simpa using List.mem_filter.mp hn
  have hnodup : (((grouped.get? h.ticker).getD []).map Node.key).Nodup := by
    rw [hgrouped]
    exact ((List.filter_sublist.trans List.filter_sublist).map _).nodup
      (Graph.nodup_listNodes_keys g₀ positionLabel)
  obtain ⟨g', hloop, hret⟩ := foldlM_retires (fun t n => markSuperseded t n kept snapshot)
    (fun n => decide (n.key ≠ kept.key)) hkept.intact hnodup
    (fun n hn hsel => ⟨by
      rw [hkept.others _ (by simpa using hsel)]
      exact hg.pending n (hcand n hn).1 ((hcand n hn).2 ▸ hnew),
      (mem_activePositionNodes.mp (hcand n hn).1).2.2⟩)
    (fun t n ht hn hactive => markClosed_total (isClosure_superseded hne snapshot) ht hn hactive)
  -- What stands under a key: closed for the other candidates, else as in `g₁`.
  have hkeptOut : kept.key ∉ (((grouped.get? h.ticker).getD []).filter
      fun n => decide (n.key ≠ kept.key)).map Node.key := by
    intro hmem
    obtain ⟨n, hn, hkey⟩ := List.mem_map.mp hmem
    exact absurd hkey (by simpa using (List.mem_filter.mp hn).2)
  have hkeep : g'.getNode positionLabel kept.key = some kept :=
    (hret.others _ hkeptOut).trans hkept.node
  have hapart : ∀ n, g.getNode positionLabel n.key = some n → tickerOf n ≠ h.ticker →
      n.key ≠ kept.key := by
    intro n hn ht hk
    rcases hkept.source with hsrc | ⟨-, hsrc⟩
    · rw [← hk, hn] at hsrc
      cases hsrc
      exact ht hkticker
    · rw [← hk, hn] at hsrc; cases hsrc
  have hstay : ∀ n, g.getNode positionLabel n.key = some n → tickerOf n ≠ h.ticker →
      g'.getNode positionLabel n.key = some n := by
    intro n hn ht
    rw [hret.others, hkept.others _ (hapart n hn ht), hn]
    intro hmem
    obtain ⟨c, hc, hkey⟩ := List.mem_map.mp hmem
    obtain ⟨hact, hct⟩ := hcand c (List.mem_of_mem_filter hc)
    have hcn := hg.pending c hact (hct ▸ hnew)
    rw [hkey, hn] at hcn
    cases hcn
    exact ht hct
  have hback : ∀ m ∈ activePositionNodes g', m = kept ∨
      (m ∈ activePositionNodes g ∧
        (m ∈ activePositionNodes g₀ → tickerOf m = h.ticker → False)) := by
    intro m hm
    obtain ⟨-, hget, hactive⟩ := mem_activePositionNodes.mp hm
    have hout : m.key ∉ (((grouped.get? h.ticker).getD []).filter
        fun n => decide (n.key ≠ kept.key)).map Node.key := by
      intro hmem
      obtain ⟨n', hn', hinactive⟩ := hret.closed _ hmem
      rw [hget] at hn'
      cases hn'
      rw [hinactive] at hactive
      cases hactive
    by_cases hmk : m.key = kept.key
    · rw [hmk, hkeep] at hget
      exact .inl (Option.some.inj hget).symm
    · rw [hret.others _ hout, hkept.others _ hmk] at hget
      refine .inr ⟨mem_active hget hactive, fun hact hticker => hout ?_⟩
      refine List.mem_map.mpr ⟨m, List.mem_filter.mpr ⟨?_, by simpa using hmk⟩, rfl⟩
      rw [hgrouped]
      exact List.mem_filter.mpr ⟨hact, by simpa using hticker⟩
  refine ⟨g', ?_, hret.intact, ?_, ?_, ?_, ?_⟩
  · simp only [reconcileHolding, hstand, Fallible.ok_bind]
    simpa using hloop
  · intro n hn hticker
    simp only [List.map_append, List.map_cons, List.map_nil, List.mem_append, List.mem_singleton,
      not_or] at hticker
    exact hstay n (hg.pending n hn hticker.1) hticker.2
  · intro h' hh' hticker hnone
    simp only [List.map_append, List.map_cons, List.map_nil, List.mem_append, List.mem_singleton,
      not_or] at hticker
    have hfree := hg.free h' hh' hticker.1 hnone
    have hnk : brokerKey h' ≠ kept.key := by
      intro hk
      rcases hkept.source with hsrc | ⟨hbk, -⟩
      · rw [← hk, hfree] at hsrc; cases hsrc
      · exact hticker.2 (brokerKey_injective (hk.trans hbk)).1
    rw [hret.others, hkept.others _ hnk, hfree]
    intro hmem
    obtain ⟨c, hc, hkey⟩ := List.mem_map.mp hmem
    obtain ⟨hact, hct⟩ := hcand c (List.mem_of_mem_filter hc)
    have hcn := hg.pending c hact (hct ▸ hnew)
    rw [hkey, hfree] at hcn
    cases hcn
  · intro h' hh'
    rcases List.mem_append.mp hh' with hdone | hlast
    · have hne' : h'.ticker ≠ h.ticker := fun he =>
        hnew (he ▸ List.mem_map_of_mem hdone)
      obtain ⟨n, hn, hrow, huniq⟩ := hg.kept h' hdone
      have hnt : tickerOf n ≠ h.ticker := by rw [tickerOf_eq hrow]; exact hne'
      refine ⟨n, mem_active (hstay n (mem_active_key hn) hnt)
        (mem_activePositionNodes.mp hn).2.2, hrow, fun m hm hmt => ?_⟩
      rcases hback m hm with rfl | ⟨hmg, -⟩
      · exact (hne' (hmt.symm.trans hkticker)).elim
      · exact huniq m hmg hmt
    · rw [List.mem_singleton.mp hlast]
      refine ⟨kept, mem_active hkeep hkept.active, hkept.row, fun m hm hmt => ?_⟩
      rcases hback m hm with rfl | ⟨hmg, hcandidate⟩
      · rfl
      · rcases hg.origin m hmg with ⟨hact, -⟩ | ⟨h'', hh'', hrow⟩
        · exact (hcandidate hact hmt).elim
        · rw [tickerOf_eq hrow] at hmt
          exact (hnew (hmt ▸ List.mem_map_of_mem hh'')).elim
  · intro m hm
    rcases hback m hm with rfl | ⟨hmg, hcandidate⟩
    · exact .inr ⟨h, by simp, hkept.row⟩
    · rcases hg.origin m hmg with ⟨hact, hticker⟩ | ⟨h', hh', hrow⟩
      · refine .inl ⟨hact, ?_⟩
        simp only [List.map_append, List.map_cons, List.map_nil, List.mem_append,
          List.mem_singleton, not_or]
        exact ⟨hticker, fun ht => hcandidate hact ht⟩
      · exact .inr ⟨h', by simp [hh'], hrow⟩

end Adoption

end TradingAgents.Monitor
