import TradingAgents.Monitor.Adoption

/-! When the active positions mirror the broker after a reconciliation.  A position that was
superseded or marked absent stays closed, and an adopted holding stands under a key derived from its
content.  A holding that comes back with the size and price of a closed broker position finds that
closed node under its key, so nothing is created and the book misses it.  Without such a holding the
book after the reconciliation is the snapshot. -/

namespace TradingAgents.Monitor

open Kernel ProofKit Positions

/-! ### The book after a reconciliation -/

/-- A fresh snapshot as execution writes it. -/
structure FreshSnapshot (snapshot : PipelineNode) : Prop where
  status : snapshot.get "status" = .str "fresh"
  runId : (snapshot.props.get? "run_id").isSome
  createdAt : (snapshot.props.get? "created_at").isSome

/-- The active positions are the holdings: one position for each, with its ticker, quantity and
average price, and no other. -/
structure MirrorsBroker (g : PipelineGraph) (rows : List SnapshotHolding) : Prop where
  held : ∀ h ∈ rows, ∃! n, n ∈ activePositionNodes g ∧ row? n = some (holdingRow h)
  only : ∀ n ∈ activePositionNodes g, ∃ h ∈ rows, row? n = some (holdingRow h)

/-- The reconciliation succeeds and leaves the book at the snapshot's holdings. -/
def ReconcilesTo (g : PipelineGraph) (snapshot : PipelineNode) (settings : MonitorSettings) :
    Prop :=
  ∃ g', reconcilePositionsFromSnapshot g snapshot settings = .ok g' ∧
    MirrorsBroker g' (holdings snapshot)

/-- The positions that the closing loop marks absent: those of the tickers not held. -/
def unheld (grouped : Dict String (List PipelineNode)) (held : List String) : List PipelineNode :=
  grouped.entries.flatMap fun p => if p.1 ∈ held then [] else p.2

theorem foldlM_unheld (snapshot : PipelineNode) (grouped : Dict String (List PipelineNode))
    (held : List String) (g : PipelineGraph) :
    grouped.entries.foldlM (fun g p =>
        if p.1 ∈ held then pure g else p.2.foldlM (fun g n => markAbsent g n snapshot) g) g =
      (unheld grouped held).foldlM (fun g n => markAbsent g n snapshot) g := by
  rw [unheld, Fallible.foldlM_flatMap]
  congr 1
  funext t p
  split <;> rfl

section Closing

variable {g₀ : PipelineGraph} {grouped : Dict String (List PipelineNode)} {held : List String}

theorem mem_unheld (hgrouped : ∀ t, (grouped.get? t).getD [] =
      (activePositionNodes g₀).filter fun n => tickerOf n = t) {n : PipelineNode} :
    n ∈ unheld grouped held ↔ n ∈ activePositionNodes g₀ ∧ tickerOf n ∉ held := by
  have hget : ∀ t ns, grouped.get? t = some ns →
      ns = (activePositionNodes g₀).filter fun n => tickerOf n = t := fun t ns h => by
    simpa [h] using hgrouped t
  rw [unheld, List.mem_flatMap]
  constructor
  · rintro ⟨⟨t, ns⟩, hmem, hn⟩
    have hns := hget t ns (Dict.mem_entries_iff.mp hmem)
    split at hn
    · cases hn
    · rename_i hheld
      rw [hns] at hn
      obtain ⟨hact, ht⟩ := List.mem_filter.mp hn
      have ht : tickerOf n = t := by simpa using ht
      exact ⟨hact, ht ▸ hheld⟩
  · rintro ⟨hact, hheld⟩
    have hn : n ∈ (grouped.get? (tickerOf n)).getD [] := by
      rw [hgrouped]
      exact List.mem_filter.mpr ⟨hact, by simp⟩
    cases hns : grouped.get? (tickerOf n) with
    | none => rw [hns] at hn; cases hn
    | some ns =>
      rw [hns] at hn
      exact ⟨(tickerOf n, ns), Dict.mem_entries_iff.mpr hns, by rw [if_neg hheld]; exact hn⟩

theorem nodup_unheld_keys (hgrouped : ∀ t, (grouped.get? t).getD [] =
      (activePositionNodes g₀).filter fun n => tickerOf n = t) :
    ((unheld grouped held).map Node.key).Nodup := by
  have hact : ((activePositionNodes g₀).map Node.key).Nodup :=
    (List.filter_sublist.map _).nodup (Graph.nodup_listNodes_keys g₀ positionLabel)
  have hns : ∀ p ∈ grouped.entries,
      p.2 = (activePositionNodes g₀).filter fun n => tickerOf n = p.1 := fun p hp => by
    have := Dict.mem_entries_iff.mp (show (p.1, p.2) ∈ grouped.entries from hp)
    simpa [this] using hgrouped p.1
  rw [unheld, List.map_flatMap, List.nodup_flatMap]
  refine ⟨fun p hp => ?_, ?_⟩
  · split
    · exact List.nodup_nil
    · rw [hns p hp]
      exact (List.filter_sublist.map _).nodup hact
  · refine (List.pairwise_map.mp grouped.nodup).imp_of_mem fun {p q} hp hq hne => ?_
    intro k hkp hkq
    simp only at hkp hkq
    split at hkp
    · cases hkp
    split at hkq
    · cases hkq
    rw [hns p hp] at hkp
    rw [hns q hq] at hkq
    obtain ⟨m, hm, rfl⟩ := List.mem_map.mp hkp
    obtain ⟨n, hn, hk⟩ := List.mem_map.mp hkq
    have hmn : n = m := List.inj_on_of_nodup_map hact (List.mem_of_mem_filter hn)
      (List.mem_of_mem_filter hm) hk
    subst hmn
    have h1 := (List.mem_filter.mp hm).2
    have h2 := (List.mem_filter.mp hn).2
    simp only [decide_eq_true_eq] at h1 h2
    exact hne (h1.symm.trans h2)

end Closing

theorem reconcile_eq {g : PipelineGraph} {snapshot : PipelineNode} {settings : MonitorSettings}
    {grouped : Dict String (List PipelineNode)} (hfresh : FreshSnapshot snapshot)
    (hgrouped : positionsByTicker (activePositionNodes g) = .ok grouped) :
    reconcilePositionsFromSnapshot g snapshot settings =
      (holdings snapshot).foldlM (reconcileHolding snapshot settings grouped) g >>= fun g =>
        (unheld grouped ((holdings snapshot).map SnapshotHolding.ticker)).foldlM
          (fun g n => markAbsent g n snapshot) g := by
  simp only [reconcilePositionsFromSnapshot, hfresh.status, Value.pyEq_str, decide_true, if_true,
    hgrouped, Fallible.ok_bind, foldlM_unheld]

/-- Where no holding is shadowed the reconciliation succeeds and mirrors the broker. -/
theorem reconcilesTo_of_free {g : PipelineGraph} {snapshot : PipelineNode}
    {settings : MonitorSettings} (hg : BookIntact g) (hfresh : FreshSnapshot snapshot)
    (hdistinct : ((holdings snapshot).map SnapshotHolding.ticker).Nodup)
    (hfree : ∀ h ∈ holdings snapshot, ¬ Shadowed g h) : ReconcilesTo g snapshot settings := by
  obtain ⟨grouped, hok, hgrouped, -⟩ := positionsByTicker_total (activePositionNodes g)
    fun n hn => hg _ _ (mem_active_key hn)
  have hstart : Adopted g (holdings snapshot) [] g := by
    refine ⟨hg, fun n hn _ => mem_active_key hn, fun h hh _ hnone => ?_, by simp,
      fun m hm => .inl ⟨hm, by simp⟩⟩
    by_contra hsome
    exact hfree h hh ⟨hnone, Option.isSome_iff_ne_none.mpr hsome⟩
  obtain ⟨g₁, hloop, hadopted⟩ := Fallible.foldlM_total
    (f := reconcileHolding snapshot settings grouped) (P := Adopted g (holdings snapshot)) hstart
    fun done h rest t hl hP => reconcileHolding_total settings hfresh.runId
      hfresh.createdAt hl hdistinct hP hgrouped
  obtain ⟨g', hclose, hret⟩ := foldlM_retires (fun t n => markAbsent t n snapshot)
    (fun _ => true) hadopted.intact
    (nodup_unheld_keys hgrouped)
    (fun n hn _ => by
      obtain ⟨hact, hticker⟩ := (mem_unheld hgrouped).mp hn
      exact ⟨hadopted.pending n hact hticker, (mem_activePositionNodes.mp hact).2.2⟩)
    fun t n ht hn hactive => markClosed_total (isClosure_absent snapshot) ht hn hactive
  simp only [if_true, List.filter_true] at hclose hret
  refine ⟨g', by rw [reconcile_eq hfresh hok, hloop]; exact hclose, ?_⟩
  -- An active position after the closing loop was active before it and is not one it closed.
  have hback : ∀ m ∈ activePositionNodes g', m ∈ activePositionNodes g₁ ∧
      (m ∈ activePositionNodes g →
        tickerOf m ∈ (holdings snapshot).map SnapshotHolding.ticker) := by
    intro m hm
    obtain ⟨-, hget, hactive⟩ := mem_activePositionNodes.mp hm
    have hout : m.key ∉ (unheld grouped
        ((holdings snapshot).map SnapshotHolding.ticker)).map Node.key := by
      intro hmem
      obtain ⟨n', hn', hinactive⟩ := hret.closed _ hmem
      rw [hget] at hn'
      cases hn'
      rw [hinactive] at hactive
      cases hactive
    rw [hret.others _ hout] at hget
    refine ⟨mem_active hget hactive, fun hact => ?_⟩
    by_contra hticker
    exact hout (List.mem_map_of_mem ((mem_unheld hgrouped).mpr ⟨hact, hticker⟩))
  refine ⟨fun h hh => ?_, fun m hm => ?_⟩
  · obtain ⟨n, hn, hrow, huniq⟩ := hadopted.kept h hh
    have hout : n.key ∉ (unheld grouped
        ((holdings snapshot).map SnapshotHolding.ticker)).map Node.key := by
      intro hmem
      obtain ⟨c, hc, hkey⟩ := List.mem_map.mp hmem
      obtain ⟨hact, hticker⟩ := (mem_unheld hgrouped).mp hc
      have hcn := hadopted.pending c hact hticker
      rw [hkey, mem_active_key hn] at hcn
      cases hcn
      exact hticker (by rw [tickerOf_eq hrow]; exact List.mem_map_of_mem hh)
    refine ⟨n, ⟨mem_active ((hret.others _ hout).trans (mem_active_key hn))
      (mem_activePositionNodes.mp hn).2.2, hrow⟩, fun m hm => ?_⟩
    exact huniq m (hback m hm.1).1 (tickerOf_eq hm.2)
  · obtain ⟨hm₁, hticker⟩ := hback m hm
    rcases hadopted.origin m hm₁ with ⟨hact, hnot⟩ | h
    · exact (hnot (hticker hact)).elim
    · exact h

/-- An active position after a reconciliation that succeeded was there before, or was made for a
holding with nothing under its content key. -/
theorem reconcile_origin {g g' : PipelineGraph} {snapshot : PipelineNode}
    {settings : MonitorSettings} (hg : BookIntact g) (hfresh : FreshSnapshot snapshot)
    (hok : reconcilePositionsFromSnapshot g snapshot settings = .ok g') {m : PipelineNode}
    (hm : m ∈ activePositionNodes g') :
    m ∈ activePositionNodes g ∨ ∃ h ∈ holdings snapshot, row? m = some (holdingRow h) ∧
      g.getNode positionLabel (brokerKey h) = none := by
  obtain ⟨grouped, hgok, hgrouped, -⟩ := positionsByTicker_total (activePositionNodes g)
    fun n hn => hg _ _ (mem_active_key hn)
  rw [reconcile_eq hfresh hgok] at hok
  obtain ⟨g₁, hloop, hclose⟩ := Fallible.bind_eq_ok.mp hok
  have hexists : ∀ t, ∀ n ∈ (grouped.get? t).getD [],
      (g.getNode positionLabel n.key).isSome := by
    intro t n hn
    rw [hgrouped] at hn
    rw [mem_active_key (List.mem_of_mem_filter hn)]; rfl
  have hP : BookIntact g₁ ∧
      (∀ k, (g.getNode positionLabel k).isSome → (g₁.getNode positionLabel k).isSome) ∧
      ∀ k m, g₁.getNode positionLabel k = some m → isActivePositionNode m = true →
        g.getNode positionLabel k = some m ∨ ∃ h ∈ holdings snapshot,
          row? m = some (holdingRow h) ∧ g.getNode positionLabel (brokerKey h) = none := by
    refine Fallible.foldlM_induction (P := fun done t => BookIntact t ∧
      (∀ k, (g.getNode positionLabel k).isSome → (t.getNode positionLabel k).isSome) ∧
      ∀ k m, t.getNode positionLabel k = some m → isActivePositionNode m = true →
        g.getNode positionLabel k = some m ∨ ∃ h ∈ done,
          row? m = some (holdingRow h) ∧ g.getNode positionLabel (brokerKey h) = none)
      hloop ⟨hg, fun _ h => h, fun _ _ h _ => .inl h⟩ ?_
    intro done h rest t t' hl hP hstep
    have hgrows := reconcileHolding_grows hP.1
      (fun t n hn => hP.2.1 _ (hexists t n hn)) hstep
    refine ⟨hgrows.intact, fun k hk => hgrows.kept k (hP.2.1 k hk), fun k m hk hactive => ?_⟩
    rcases hgrows.active k m hk hactive with hold | ⟨hrow, hnone⟩
    · rcases hP.2.2 k m hold hactive with h | ⟨h', hh', hrest⟩
      · exact .inl h
      · exact .inr ⟨h', by simp [hh'], hrest⟩
    · refine .inr ⟨h, by simp, hrow, ?_⟩
      by_contra hsome
      have := hP.2.1 _ (Option.isSome_iff_ne_none.mpr hsome)
      rw [hnone] at this
      cases this
  have hshrinks := foldlM_shrinks hP.1 (fun n hn => by
      rw [mem_unheld hgrouped] at hn
      exact hP.2.1 _ (by rw [mem_active_key hn.1]; rfl))
    (fun t t' n ht hn hmark => markAbsent_shrinks ht hn hmark) hclose
  obtain ⟨-, hget, hactive⟩ := mem_activePositionNodes.mp hm
  rcases hP.2.2 _ m (hshrinks.active _ m hget hactive) hactive with hold | h
  · exact .inl (mem_active hold hactive)
  · exact .inr h

/-- A reconciliation of a fresh snapshot with distinct tickers leaves the book at the snapshot's
holdings if and only if no holding is shadowed. -/
theorem reconcilesTo_iff {g : PipelineGraph} {snapshot : PipelineNode} (settings : MonitorSettings)
    (hg : History g) (hfresh : FreshSnapshot snapshot)
    (hdistinct : ((holdings snapshot).map SnapshotHolding.ticker).Nodup) :
    ReconcilesTo g snapshot settings ↔ ∀ h ∈ holdings snapshot, ¬ Shadowed g h := by
  constructor
  · rintro ⟨g', hok, hmirror⟩ h hh ⟨hnone, htaken⟩
    obtain ⟨n, ⟨hn, hrow⟩, -⟩ := hmirror.held h hh
    rcases reconcile_origin hg.bookIntact hfresh hok hn with hact | ⟨h', hh', hrow', hfree⟩
    · exact hnone n hact hrow
    · rw [hrow] at hrow'
      have hticker : h.ticker = h'.ticker := congrArg Row.ticker (Option.some.inj hrow')
      have heq := List.inj_on_of_nodup_map hdistinct hh hh' hticker
      rw [← heq] at hfree
      rw [hfree] at htaken
      cases htaken
  · exact reconcilesTo_of_free hg.bookIntact hfresh hdistinct

/-! ### Reconciliations are histories -/

theorem History.foldlM {f : PipelineGraph → PipelineNode → Except HandlerError PipelineGraph}
    {ns : List PipelineNode} {g g' : PipelineGraph} (hg : History g)
    (hns : ∀ n ∈ ns, (g.getNode positionLabel n.key).isSome)
    (hf : ∀ t t' n, History t → Shrinks g t → (t.getNode positionLabel n.key).isSome →
      f t n = .ok t' → History t' ∧ Shrinks t t')
    (h : ns.foldlM f g = .ok g') : History g' ∧ Shrinks g g' := by
  refine Fallible.foldlM_induction (P := fun _ t => History t ∧ Shrinks g t) h
    ⟨hg, .refl hg.bookIntact⟩ ?_
  intro done n rest t t' hl hP hstep
  obtain ⟨ht', hshrinks⟩ := hf t t' n hP.1 hP.2 (hP.2.kept _ (hns n (by simp [hl]))) hstep
  exact ⟨ht', hP.2.trans hshrinks⟩

theorem History.reconcileHolding {snapshot : PipelineNode} {settings : MonitorSettings}
    {grouped : Dict String (List PipelineNode)} {g g' : PipelineGraph} {h : SnapshotHolding}
    (hg : History g)
    (hgrouped : ∀ t, ∀ n ∈ (grouped.get? t).getD [], (g.getNode positionLabel n.key).isSome)
    (hok : reconcileHolding snapshot settings grouped g h = .ok g') : History g' := by
  obtain ⟨⟨g₁, kept⟩, hkept, hok⟩ := Fallible.bind_eq_ok.mp hok
  have hfirst : History g₁ ∧ (g₁.getNode positionLabel kept.key).isSome ∧
      ∀ k, (g.getNode positionLabel k).isSome → (g₁.getNode positionLabel k).isSome := by
    obtain ⟨found, hfound, hkept⟩ := Fallible.bind_eq_ok.mp hkept
    cases found with
    | none =>
      obtain ⟨hgrows, hget⟩ := createBrokerPosition_grows hg.bookIntact hkept
      exact ⟨hg.adopted hkept, by rw [hget]; rfl, hgrows.kept⟩
    | some n =>
      cases hkept
      exact ⟨hg, hgrouped _ _ (mem_of_matchingPosition hfound), fun _ h => h⟩
  refine (hfirst.1.foldlM (fun n hn => hfirst.2.2 _ (hgrouped _ n hn))
    (fun t t' n ht hshrinks hn hmark => ?_) hok).1
  have hkeptT := hshrinks.kept _ hfirst.2.1
  obtain ⟨m, hm⟩ := Option.isSome_iff_exists.mp hkeptT
  have hne := (ht.bookIntact _ _ hm).key
  rw [(Graph.getNode_nodeKey hm).2] at hne
  split at hmark
  · exact ⟨ht.superseded hn hkeptT hmark, markSuperseded_shrinks ht.bookIntact hn hne hmark⟩
  · cases hmark; exact ⟨ht, .refl ht.bookIntact⟩

/-- A reconciliation that succeeds takes a history to a history. -/
theorem History.reconcile {snapshot : PipelineNode} {settings : MonitorSettings}
    {g g' : PipelineGraph} (hg : History g)
    (hok : reconcilePositionsFromSnapshot g snapshot settings = .ok g') : History g' := by
  unfold reconcilePositionsFromSnapshot at hok
  split at hok
  · obtain ⟨grouped, hgok, hok⟩ := Fallible.bind_eq_ok.mp hok
    obtain ⟨grouped', hgok', hgrouped, -⟩ := positionsByTicker_total (activePositionNodes g)
      fun n hn => hg.bookIntact _ _ (mem_active_key hn)
    cases hgok.symm.trans hgok'
    have hexists : ∀ t, ∀ n ∈ (grouped.get? t).getD [],
        (g.getNode positionLabel n.key).isSome := by
      intro t n hn
      rw [hgrouped] at hn
      rw [mem_active_key (List.mem_of_mem_filter hn)]; rfl
    obtain ⟨g₁, hloop, hclose⟩ := Fallible.bind_eq_ok.mp hok
    have hP : History g₁ ∧ ∀ k, (g.getNode positionLabel k).isSome →
        (g₁.getNode positionLabel k).isSome := by
      refine Fallible.foldlM_induction (P := fun _ t => History t ∧
        ∀ k, (g.getNode positionLabel k).isSome → (t.getNode positionLabel k).isSome)
        hloop ⟨hg, fun _ h => h⟩ ?_
      intro done h rest t t' _ hP hstep
      have hgroupedT := fun t n hn => hP.2 _ (hexists t n hn)
      exact ⟨hP.1.reconcileHolding hgroupedT hstep, fun k hk =>
        (reconcileHolding_grows hP.1.bookIntact hgroupedT hstep).kept k (hP.2 k hk)⟩
    rw [foldlM_unheld] at hclose
    refine (hP.1.foldlM (fun n hn => ?_) (fun t t' n ht _ hn hmark =>
      ⟨ht.absent hn hmark, markAbsent_shrinks ht.bookIntact hn hmark⟩) hclose).1
    rw [mem_unheld hgrouped] at hn
    exact hP.2 _ (by rw [mem_active_key hn.1]; rfl)
  · cases hok; exact hg

/-! ### A holding that comes back -/

/-- A fresh snapshot node with the given holdings. -/
def freshSnapshot (key : String) (rows : List SnapshotHolding) : PipelineNode where
  label := "BrokerPositionSnapshot"
  key := key
  props := .ofList [
    ("run_id", .str "pm-run"),
    ("status", .str "fresh"),
    ("created_at", .str "2026-07-08T00:00:00+00:00"),
    ("holdings", .list (rows.map fun h => .doc (.holding h)))]

def amdHolding : SnapshotHolding := ⟨"AMD", 19, 15924, 304550⟩

theorem freshSnapshot_fresh (key : String) (rows : List SnapshotHolding) :
    FreshSnapshot (freshSnapshot key rows) :=
  ⟨by simp [freshSnapshot, Node.get, Props.get, Dict.ofList],
    by simp [freshSnapshot, Dict.ofList], by simp [freshSnapshot, Dict.ofList]⟩

/-- The book after the holding was adopted, had left, and came back unchanged. -/
def amdReturned : Except HandlerError (PipelineGraph × PipelineGraph) := do
  let adopted ← reconcilePositionsFromSnapshot .empty (freshSnapshot "snapshot:1" [amdHolding]) {}
  let left ← reconcilePositionsFromSnapshot adopted (freshSnapshot "snapshot:2" []) {}
  let returned ← reconcilePositionsFromSnapshot left (freshSnapshot "snapshot:3" [amdHolding]) {}
  pure (left, returned)

/-- A holding that comes back with one share more is on the book, beside the closed position. -/
theorem reconcilesTo_iff_amd :
    let more : SnapshotHolding := ⟨"AMD", 20, 15924, 320200⟩
    ∃ left returned, amdReturned = .ok (left, returned) ∧
      (left.getNode positionLabel (brokerKey amdHolding)).isSome ∧
      ReconcilesTo left (freshSnapshot "snapshot:3" [more]) {} := by
  intro more
  have hrun : Fallible.check (fun p : PipelineGraph × PipelineGraph =>
      (p.1.getNode positionLabel (brokerKey amdHolding)).isSome &&
        (p.1.getNode positionLabel (brokerKey more)).isNone) amdReturned = true := by
    decide +kernel
  obtain ⟨⟨left, returned⟩, hok, hcheck⟩ := Fallible.check_eq_true.mp hrun
  obtain ⟨hclosed, hfree⟩ := Bool.and_eq_true_iff.mp hcheck
  have hsteps := hok
  obtain ⟨adopted, h₁, hsteps⟩ := Fallible.bind_eq_ok.mp hsteps
  obtain ⟨left', h₂, hsteps⟩ := Fallible.bind_eq_ok.mp hsteps
  obtain ⟨returned', -, hsteps⟩ := Fallible.bind_eq_ok.mp hsteps
  cases hsteps
  refine ⟨left, returned, hok, hclosed, (reconcilesTo_iff {}
    ((History.empty.reconcile h₁).reconcile h₂) (freshSnapshot_fresh _ _) (by decide)).mpr ?_⟩
  rintro h hh ⟨-, htaken⟩
  have hholdings : holdings (freshSnapshot "snapshot:3" [more]) = [more] := by decide
  rw [hholdings, List.mem_singleton] at hh
  rw [hh, Option.isNone_iff_eq_none.mp hfree] at htaken
  cases htaken

/-- A holding that leaves and comes back with the same quantity and average price is not on the
book. -/
theorem returned_holding_missed :
    ∃ left returned, amdReturned = .ok (left, returned) ∧ History left ∧
      FreshSnapshot (freshSnapshot "snapshot:3" [amdHolding]) ∧
      ((holdings (freshSnapshot "snapshot:3" [amdHolding])).map SnapshotHolding.ticker).Nodup ∧
      ¬ ReconcilesTo left (freshSnapshot "snapshot:3" [amdHolding]) {} := by
  have hrun : amdReturned.map (fun p => (activePositionNodes p.2).length) = .ok 0 := by
    decide +kernel
  cases hok : amdReturned with
  | error e => rw [hok] at hrun; cases hrun
  | ok p =>
    rw [hok] at hrun
    have hsteps := hok
    obtain ⟨adopted, h₁, hsteps⟩ := Fallible.bind_eq_ok.mp hsteps
    obtain ⟨left, h₂, hsteps⟩ := Fallible.bind_eq_ok.mp hsteps
    obtain ⟨returned, h₃, hsteps⟩ := Fallible.bind_eq_ok.mp hsteps
    cases hsteps
    have hempty : activePositionNodes returned = [] :=
      List.eq_nil_of_length_eq_zero (Except.ok.inj hrun)
    refine ⟨left, returned, rfl, (History.empty.reconcile h₁).reconcile h₂,
      freshSnapshot_fresh _ _, by decide, ?_⟩
    rintro ⟨g', hok', hmirror⟩
    cases h₃.symm.trans hok'
    have hmem : amdHolding ∈ holdings (freshSnapshot "snapshot:3" [amdHolding]) := by decide
    obtain ⟨n, ⟨hn, -⟩, -⟩ := hmirror.held _ hmem
    rw [hempty] at hn
    cases hn

end TradingAgents.Monitor
