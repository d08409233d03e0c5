import TradingAgents.Monitor.Reconcile

/-! The history of the position book.  Position facts are only ever added: a position is opened from
a fill or adopted from the broker, and later superseded or marked absent, and no write takes a
closure back.  `Intact` is what every Position node of a history carries; `Shrinks` and `Grows` say
which positions can be active after a closure and after an adoption. -/

namespace TradingAgents.Monitor

open Kernel ProofKit Positions

/-! ### Histories of the position book -/

/-- The graphs that the monitor's writes of Position nodes lead to, one write at a time, with any
writes of other nodes and edges in between. -/
inductive History : PipelineGraph → Prop
  | empty : History .empty
  | opened {g g' : PipelineGraph} {d : PositionDraft} {fill : PipelineNode} :
      History g → openPosition g d fill = .ok g' → History g'
  | adopted {g g' : PipelineGraph} {snapshot n : PipelineNode} {h : SnapshotHolding}
      {settings : MonitorSettings} :
      History g → createBrokerPosition g snapshot h settings = .ok (g', n) → History g'
  | superseded {g g' : PipelineGraph} {n kept snapshot : PipelineNode} :
      History g → (g.getNode positionLabel n.key).isSome →
      (g.getNode positionLabel kept.key).isSome →
      markSuperseded g n kept snapshot = .ok g' → History g'
  | absent {g g' : PipelineGraph} {n snapshot : PipelineNode} :
      History g → (g.getNode positionLabel n.key).isSome →
      markAbsent g n snapshot = .ok g' → History g'
  | other {g g' : PipelineGraph} :
      History g → (∀ key, g'.getNode positionLabel key = g.getNode positionLabel key) → History g'

/-- What every Position node of a history carries: its row, the status it was opened with, and no
closure fact or one that counts. -/
structure Intact (n : PipelineNode) : Prop where
  key : n.key ≠ ""
  version : n.schemaVersion = 1
  row : ∃ r, row? n = some r
  status : n.props.get? "status" = some (.str "open")
  absent : (n.props.get? "broker_absent" = none ∧ n.props.get? "broker_absent_snapshot" = none) ∨
    n.props.get? "broker_absent" = some (.bool true)
  superseded : (n.props.get? "broker_superseded_by" = none ∧
      n.props.get? "broker_superseded_snapshot" = none) ∨
    ∃ s, s ≠ "" ∧ n.props.get? "broker_superseded_by" = some (.str s)

/-- Every Position node of the graph is intact. -/
def BookIntact (g : PipelineGraph) : Prop :=
  ∀ key n, g.getNode positionLabel key = some n → Intact n

theorem Intact.active_iff {n : PipelineNode} (h : Intact n) :
    isActivePositionNode n = true ↔
      n.props.get? "broker_absent" = none ∧ n.props.get? "broker_superseded_by" = none := by
  unfold isActivePositionNode Node.get Props.get
  rw [h.status]
  rcases h.absent with ⟨ha, -⟩ | ha <;> rcases h.superseded with ⟨hs, -⟩ | ⟨s, hne, hs⟩ <;>
    rw [ha, hs] <;> simp [Value.truthy, *]

theorem row?_update {n : PipelineNode} {p : Props Document} {label key : String} {v : Int}
    (ht : p.get? "ticker" = none) (hq : p.get? "quantity" = none)
    (ho : p.get? "opened_price_cents" = none) :
    row? ⟨label, key, n.props.update p, v⟩ = row? n := by
  simp only [row?, Node.get, Props.get, Dict.get?_update, ht, hq, ho, Option.none_or]

/-! ### Closure facts -/

/-- `props` is a closure fact under `flag`: it leaves the opening properties alone, it takes an
intact position off the book, and no intact position without the flag holds any of it. -/
structure IsClosure (flag : String) (props : Props Document) : Prop where
  intact : ∀ n, Intact n → Intact ⟨positionLabel, n.key, n.props.update props, 1⟩
  inactive : ∀ n, Intact n →
    isActivePositionNode ⟨positionLabel, n.key, n.props.update props, 1⟩ = false
  fresh : ∀ n, Intact n → isActivePositionNode n = true →
    flag ∉ n.props.keys ∧ ∀ name, (props.get? name).isSome → n.props.get? name = none

def supersededProps (kept snapshot : PipelineNode) : Props Document :=
  .ofList [("broker_superseded_by", .str kept.key),
    ("broker_superseded_snapshot", .str snapshot.key)]

def absentProps (snapshot : PipelineNode) : Props Document :=
  .ofList [("broker_absent", .bool true), ("broker_absent_snapshot", .str snapshot.key)]

theorem isClosure_superseded {kept : PipelineNode} (hkept : kept.key ≠ "")
    (snapshot : PipelineNode) :
    IsClosure "broker_superseded_by" (supersededProps kept snapshot) := by
  have hsup : ∀ n : PipelineNode,
      (n.props.update (supersededProps kept snapshot)).get? "broker_superseded_by" =
        some (.str kept.key) := fun n => by simp [supersededProps, Dict.ofList]
  have habs : ∀ n : PipelineNode,
      (n.props.update (supersededProps kept snapshot)).get? "broker_absent" =
        n.props.get? "broker_absent" ∧
      (n.props.update (supersededProps kept snapshot)).get? "broker_absent_snapshot" =
        n.props.get? "broker_absent_snapshot" ∧
      (n.props.update (supersededProps kept snapshot)).get? "status" = n.props.get? "status" :=
    fun n => by simp [supersededProps, Dict.ofList]
  have hintact : ∀ n, Intact n →
      Intact ⟨positionLabel, n.key, n.props.update (supersededProps kept snapshot), 1⟩ := by
    intro n hn
    obtain ⟨h1, h2, h3⟩ := habs n
    refine ⟨hn.key, rfl, ?_, h3.trans hn.status, ?_, .inr ⟨kept.key, hkept, hsup n⟩⟩
    · rw [row?_update (by simp [supersededProps, Dict.ofList])
        (by simp [supersededProps, Dict.ofList]) (by simp [supersededProps, Dict.ofList])]
      exact hn.row
    · rw [h1, h2]; exact hn.absent
  refine ⟨hintact, fun n hn => ?_, fun n hn hactive => ?_⟩
  · rw [← Bool.not_eq_true, (hintact n hn).active_iff]
    rintro ⟨-, h⟩
    rw [hsup n] at h
    cases h
  · obtain ⟨-, hnone⟩ := hn.active_iff.mp hactive
    refine ⟨Dict.notMem_keys_iff.mpr hnone, fun name hname => ?_⟩
    rcases hn.superseded with ⟨h1, h2⟩ | ⟨s, -, h1⟩
    · simp only [supersededProps, Dict.ofList, Dict.setAll_cons, Dict.setAll_nil, Dict.get?_set,
        Dict.get?_empty] at hname
      split at hname
      · rename_i hk; rw [hk]; exact h2
      · split at hname
        · rename_i hk; rw [hk]; exact h1
        · cases hname
    · rw [h1] at hnone; cases hnone

theorem isClosure_absent (snapshot : PipelineNode) :
    IsClosure "broker_absent" (absentProps snapshot) := by
  have habs : ∀ n : PipelineNode,
      (n.props.update (absentProps snapshot)).get? "broker_absent" = some (.bool true) :=
    fun n => by simp [absentProps, Dict.ofList]
  have hsup : ∀ n : PipelineNode,
      (n.props.update (absentProps snapshot)).get? "broker_superseded_by" =
        n.props.get? "broker_superseded_by" ∧
      (n.props.update (absentProps snapshot)).get? "broker_superseded_snapshot" =
        n.props.get? "broker_superseded_snapshot" ∧
      (n.props.update (absentProps snapshot)).get? "status" = n.props.get? "status" :=
    fun n => by simp [absentProps, Dict.ofList]
  have hintact : ∀ n, Intact n →
      Intact ⟨positionLabel, n.key, n.props.update (absentProps snapshot), 1⟩ := by
    intro n hn
    obtain ⟨h1, h2, h3⟩ := hsup n
    refine ⟨hn.key, rfl, ?_, h3.trans hn.status, .inr (habs n), ?_⟩
    · rw [row?_update (by simp [absentProps, Dict.ofList])
        (by simp [absentProps, Dict.ofList]) (by simp [absentProps, Dict.ofList])]
      exact hn.row
    · rw [h1, h2]; exact hn.superseded
  refine ⟨hintact, fun n hn => ?_, fun n hn hactive => ?_⟩
  · rw [← Bool.not_eq_true, (hintact n hn).active_iff]
    rintro ⟨h, -⟩
    rw [habs n] at h
    cases h
  · obtain ⟨hnone, -⟩ := hn.active_iff.mp hactive
    refine ⟨Dict.notMem_keys_iff.mpr hnone, fun name hname => ?_⟩
    rcases hn.absent with ⟨h1, h2⟩ | h1
    · simp only [absentProps, Dict.ofList, Dict.setAll_cons, Dict.setAll_nil, Dict.get?_set,
        Dict.get?_empty] at hname
      split at hname
      · rename_i hk; rw [hk]; exact h2
      · split at hname
        · rename_i hk; rw [hk]; exact h1
        · cases hname
    · rw [h1] at hnone; cases hnone

/-- The position under one key is closed and every other one stands as it was. -/
structure Retired (g g' : PipelineGraph) (key : String) : Prop where
  target : ∃ n', g'.getNode positionLabel key = some n' ∧ Intact n' ∧
    isActivePositionNode n' = false
  others : ∀ k, k ≠ key → g'.getNode positionLabel k = g.getNode positionLabel k

theorem Retired.bookIntact {g g' : PipelineGraph} {key : String} (h : Retired g g' key)
    (hg : BookIntact g) : BookIntact g' := by
  intro k n hn
  by_cases hk : k = key
  · obtain ⟨n', hn', hint, -⟩ := h.target
    rw [hk, hn'] at hn
    cases hn
    exact hint
  · exact hg k n (h.others k hk ▸ hn)

/-- What a closure write that succeeded did. -/
theorem markClosed_ok {flag : String} {props : Props Document} {g g' : PipelineGraph}
    {n : PipelineNode} (hclosure : IsClosure flag props) (hg : BookIntact g)
    (hn : (g.getNode positionLabel n.key).isSome) (h : markClosed flag props g n = .ok g') :
    g' = g ∨ Retired g g' n.key := by
  unfold markClosed at h
  split at h
  · cases h; exact .inl rfl
  · obtain ⟨⟨g₁, m⟩, hm, hret⟩ := Fallible.bind_eq_ok.mp h
    cases hret
    obtain ⟨rfl, hl, hk, hv, hnode⟩ := Graph.mergeNode_ok (liftGraph_eq_ok.mp hm)
    rcases hnode with ⟨hnone, -⟩ | ⟨current, hcur, -, -, hprops⟩
    · rw [hnone] at hn; cases hn
    · have hint := hg _ _ hcur
      have hck := (Graph.getNode_nodeKey hcur).2
      have hmeq : m = ⟨positionLabel, current.key, current.props.update props, 1⟩ := by
        cases m; simp_all
      right
      refine ⟨⟨m, ?_, hmeq ▸ hclosure.intact current hint, hmeq ▸ hclosure.inactive current hint⟩,
        fun k hne => ?_⟩
      · rw [Graph.getNode_put, if_pos ⟨hl.symm, hk.symm⟩]
      · rw [Graph.getNode_put, if_neg fun hc => hne (hc.2.trans hk)]

/-- A closure write on an active position succeeds and closes it. -/
theorem markClosed_total {flag : String} {props : Props Document} {g : PipelineGraph}
    {n : PipelineNode} (hclosure : IsClosure flag props) (hg : BookIntact g)
    (hn : g.getNode positionLabel n.key = some n) (hactive : isActivePositionNode n = true) :
    ∃ g', markClosed flag props g n = .ok g' ∧ Retired g g' n.key := by
  obtain ⟨hflag, hfresh⟩ := hclosure.fresh n (hg _ _ hn) hactive
  have happend : Graph.appendProps n.props props = .ok (n.props.update props) := by
    rw [Graph.appendProps_ok_iff]
    refine ⟨fun name hc => ?_, rfl⟩
    obtain ⟨v, w, hv, hw, -⟩ := hc
    rw [hfresh name (by rw [hw]; rfl)] at hv
    cases hv
  have hok : markClosed flag props g n =
      .ok (g.put ⟨positionLabel, n.key, n.props.update props, 1⟩) := by
    have hmerge : g.mergeNode positionLabel n.key props =
        .ok (g.put ⟨positionLabel, n.key, n.props.update props, 1⟩,
          ⟨positionLabel, n.key, n.props.update props, 1⟩) := by
      simp [Graph.mergeNode, hn, (hg _ _ hn).version, happend]
    simp [markClosed, hflag, hmerge, liftGraph]
  refine ⟨_, hok, ?_⟩
  rcases markClosed_ok hclosure hg (by rw [hn]; rfl) hok with heq | hret
  · refine ⟨⟨_, ?_, hclosure.intact n (hg _ _ hn), hclosure.inactive n (hg _ _ hn)⟩, fun k hk => ?_⟩
    · simp
    · simp [hk]
  · exact hret

/-! ### Opened and adopted positions -/

/-- The row an adopted position carries. -/
def holdingRow (h : SnapshotHolding) : Row := ⟨h.ticker, h.quantity, h.avgEntryCents⟩

theorem intact_opening {label key : String} {props : Props Document} (r : Row) (hkey : key ≠ "")
    (hrow : row? ⟨label, key, props, 1⟩ = some r)
    (hstatus : props.get? "status" = some (.str "open"))
    (habsent : props.get? "broker_absent" = none ∧ props.get? "broker_absent_snapshot" = none)
    (hsup : props.get? "broker_superseded_by" = none ∧
      props.get? "broker_superseded_snapshot" = none) :
    Intact ⟨label, key, props, 1⟩ ∧ isActivePositionNode ⟨label, key, props, 1⟩ = true := by
  have hint : Intact ⟨label, key, props, 1⟩ :=
    ⟨hkey, rfl, ⟨r, hrow⟩, hstatus, .inl habsent, .inl hsup⟩
  exact ⟨hint, hint.active_iff.mpr ⟨habsent.1, hsup.1⟩⟩

theorem brokerKey_ne_empty (h : SnapshotHolding) : brokerKey h ≠ "" := by
  intro he
  have := congrArg String.toList he
  simp [brokerKey] at this

/-- What adopting a holding did: the node under its key stands for it, or a new one was made. -/
theorem createBrokerPosition_ok {g g' : PipelineGraph} {snapshot n : PipelineNode}
    {h : SnapshotHolding} {settings : MonitorSettings}
    (hok : createBrokerPosition g snapshot h settings = .ok (g', n)) :
    (g' = g ∧ g.getNode positionLabel (brokerKey h) = some n) ∨
      (g.getNode positionLabel (brokerKey h) = none ∧ g' = g.put n ∧ n.label = positionLabel ∧
        n.key = brokerKey h ∧ row? n = some (holdingRow h) ∧ Intact n ∧
        isActivePositionNode n = true) := by
  unfold createBrokerPosition at hok
  split at hok
  · rename_i current hcur
    cases hok
    exact .inl ⟨rfl, hcur⟩
  · rename_i hnone
    obtain ⟨runId, -, hok⟩ := Fallible.bind_eq_ok.mp hok
    obtain ⟨createdAt, -, hok⟩ := Fallible.bind_eq_ok.mp hok
    rw [liftGraph_eq_ok, Graph.mergeNode_fresh _ hnone] at hok
    cases hok
    have hrow : row? ⟨positionLabel, brokerKey h,
      brokerProps runId createdAt snapshot h settings, 1⟩
        = some (holdingRow h) := by
      rw [row?_eq_some]
      simp [Node.get, Props.get, brokerProps, Dict.ofList, holdingRow]
    obtain ⟨hint, hactive⟩ := intact_opening _ (brokerKey_ne_empty h) hrow
      (by simp [brokerProps, Dict.ofList]) (by simp [brokerProps, Dict.ofList])
      (by simp [brokerProps, Dict.ofList])
    exact .inr ⟨hnone, rfl, rfl, rfl, hrow, hint, hactive⟩

theorem createBrokerPosition_total {g : PipelineGraph} {snapshot : PipelineNode}
    {h : SnapshotHolding} (settings : MonitorSettings)
    (hfree : g.getNode positionLabel (brokerKey h) = none)
    (hrun : (snapshot.props.get? "run_id").isSome)
    (hcreated : (snapshot.props.get? "created_at").isSome) :
    ∃ g' n, createBrokerPosition g snapshot h settings = .ok (g', n) := by
  obtain ⟨runId, hrun⟩ := Option.isSome_iff_exists.mp hrun
  obtain ⟨createdAt, hcreated⟩ := Option.isSome_iff_exists.mp hcreated
  let n : PipelineNode :=
    ⟨positionLabel, brokerKey h, brokerProps runId createdAt snapshot h settings, 1⟩
  refine ⟨g.put n, n, ?_⟩
  simp only [createBrokerPosition, hfree, Node.require, hrun, hcreated, Fallible.ok_bind,
    Graph.mergeNode_fresh _ hfree, liftGraph, n]

theorem bookIntact_put {g : PipelineGraph} {n : PipelineNode} (hg : BookIntact g)
    (hn : Intact n) : BookIntact (g.put n) := by
  intro k m hm
  rw [Graph.getNode_put] at hm
  split at hm
  · cases hm; exact hn
  · exact hg k m hm

theorem createBrokerPosition_bookIntact {g g' : PipelineGraph} {snapshot n : PipelineNode}
    {h : SnapshotHolding} {settings : MonitorSettings} (hg : BookIntact g)
    (hok : createBrokerPosition g snapshot h settings = .ok (g', n)) : BookIntact g' := by
  rcases createBrokerPosition_ok hok with ⟨rfl, -⟩ | ⟨-, rfl, -, -, -, hint, -⟩
  · exact hg
  · exact bookIntact_put hg hint

theorem openPosition_bookIntact {g g' : PipelineGraph} {d : PositionDraft} {fill : PipelineNode}
    (hg : BookIntact g) (hok : openPosition g d fill = .ok g') : BookIntact g' := by
  unfold openPosition at hok
  split at hok
  · have hnodes := (Graph.addEdge_ok (liftGraph_eq_ok.mp hok)).1
    exact fun k n hn => hg k n (Graph.getNode_of_nodes_eq hnodes _ _ ▸ hn)
  · rename_i hnone
    obtain ⟨⟨g₁, n⟩, hm, hok⟩ := Fallible.bind_eq_ok.mp hok
    rw [liftGraph_eq_ok, Graph.mergeNode_fresh _ hnone] at hm
    cases hm
    have hnodes := (Graph.addEdge_ok (liftGraph_eq_ok.mp hok)).1
    have hkey : d.key ≠ "" := by
      intro he
      have := congrArg String.toList he
      simp [PositionDraft.key] at this
    have hint : Intact ⟨positionLabel, d.key, d.props, 1⟩ := (intact_opening
      ⟨d.ticker, d.quantity, d.openedPriceCents⟩ hkey
      (by rw [row?_eq_some]; simp [Node.get, Props.get, PositionDraft.props, Dict.ofList])
      (by simp [PositionDraft.props, Dict.ofList]) (by simp [PositionDraft.props, Dict.ofList])
      (by simp [PositionDraft.props, Dict.ofList])).1
    exact fun k n hn => bookIntact_put hg hint k n (Graph.getNode_of_nodes_eq hnodes _ _ ▸ hn)

/-- Every history keeps its Position nodes intact. -/
theorem History.bookIntact {g : PipelineGraph} (h : History g) : BookIntact g := by
  induction h with
  | empty => intro k n hn; cases hn
  | opened _ hok ih => exact openPosition_bookIntact ih hok
  | adopted _ hok ih => exact createBrokerPosition_bookIntact ih hok
  | superseded _ hn hkept hok ih =>
    obtain ⟨m, hm⟩ := Option.isSome_iff_exists.mp hkept
    have hne := (ih _ _ hm).key
    rw [(Graph.getNode_nodeKey hm).2] at hne
    rcases markClosed_ok (isClosure_superseded hne _) ih hn hok with rfl | hret
    · exact ih
    · exact hret.bookIntact ih
  | absent _ hn hok ih =>
    rcases markClosed_ok (isClosure_absent _) ih hn hok with rfl | hret
    · exact ih
    · exact hret.bookIntact ih
  | other _ hsame ih => exact fun k n hn => ih k n (hsame k ▸ hn)

/-! ### Where active positions come from -/

/-- `g'` is `g` after closures: no position is gone, and an active one stands as it stood. -/
structure Shrinks (g g' : PipelineGraph) : Prop where
  intact : BookIntact g'
  kept : ∀ k, (g.getNode positionLabel k).isSome → (g'.getNode positionLabel k).isSome
  active : ∀ k m, g'.getNode positionLabel k = some m → isActivePositionNode m = true →
    g.getNode positionLabel k = some m

theorem Shrinks.refl {g : PipelineGraph} (hg : BookIntact g) : Shrinks g g :=
  ⟨hg, fun _ h => h, fun _ _ h _ => h⟩

theorem Shrinks.trans {a b c : PipelineGraph} (h : Shrinks a b) (h' : Shrinks b c) :
    Shrinks a c :=
  ⟨h'.intact, fun k hk => h'.kept k (h.kept k hk),
    fun k m hm hact => h.active k m (h'.active k m hm hact) hact⟩

theorem Retired.shrinks {g g' : PipelineGraph} {key : String} (h : Retired g g' key)
    (hg : BookIntact g) : Shrinks g g' := by
  obtain ⟨n', hn', -, hinactive⟩ := h.target
  refine ⟨h.bookIntact hg, fun k hk => ?_, fun k m hm hact => ?_⟩
  · by_cases hkey : k = key
    · rw [hkey, hn']; rfl
    · rw [h.others k hkey]; exact hk
  · by_cases hkey : k = key
    · rw [hkey, hn'] at hm
      cases hm
      rw [hinactive] at hact
      cases hact
    · rw [← h.others k hkey]; exact hm

theorem markClosed_shrinks {flag : String} {props : Props Document} {g g' : PipelineGraph}
    {n : PipelineNode} (hclosure : IsClosure flag props) (hg : BookIntact g)
    (hn : (g.getNode positionLabel n.key).isSome) (h : markClosed flag props g n = .ok g') :
    Shrinks g g' := by
  rcases markClosed_ok hclosure hg hn h with rfl | hret
  · exact .refl hg
  · exact hret.shrinks hg

/-- A loop of closures over existing positions only closes. -/
theorem foldlM_shrinks {f : PipelineGraph → PipelineNode → Except HandlerError PipelineGraph}
    {ns : List PipelineNode} {g g' : PipelineGraph} (hg : BookIntact g)
    (hns : ∀ n ∈ ns, (g.getNode positionLabel n.key).isSome)
    (hf : ∀ t t' n, BookIntact t → (t.getNode positionLabel n.key).isSome → f t n = .ok t' →
      Shrinks t t')
    (h : ns.foldlM f g = .ok g') : Shrinks g g' := by
  refine Fallible.foldlM_induction (P := fun _ t => Shrinks g t) h (.refl hg) ?_
  intro done a rest t t' hl hP ha
  exact hP.trans (hf t t' a hP.intact (hP.kept _ (hns a (by simp [hl]))) ha)

theorem markSuperseded_shrinks {g g' : PipelineGraph} {n kept snapshot : PipelineNode}
    (hg : BookIntact g) (hn : (g.getNode positionLabel n.key).isSome) (hkept : kept.key ≠ "")
    (h : markSuperseded g n kept snapshot = .ok g') : Shrinks g g' :=
  markClosed_shrinks (isClosure_superseded hkept snapshot) hg hn h

theorem markAbsent_shrinks {g g' : PipelineGraph} {n snapshot : PipelineNode}
    (hg : BookIntact g) (hn : (g.getNode positionLabel n.key).isSome)
    (h : markAbsent g n snapshot = .ok g') : Shrinks g g' :=
  markClosed_shrinks (isClosure_absent snapshot) hg hn h

/-- A match of the candidates is one of them. -/
theorem mem_of_matchingPosition {ns : List PipelineNode} {h : SnapshotHolding} {n : PipelineNode}
    (hok : matchingPosition ns h = .ok (some n)) : n ∈ ns := by
  induction ns with
  | nil => cases hok
  | cons m rest ih =>
    obtain ⟨quantity, -, hok⟩ := Fallible.bind_eq_ok.mp hok
    split at hok
    · exact List.mem_cons_of_mem _ (ih hok)
    · obtain ⟨price, -, hok⟩ := Fallible.bind_eq_ok.mp hok
      split at hok
      · cases hok; exact List.mem_cons_self
      · exact List.mem_cons_of_mem _ (ih hok)

/-- After one holding an active position was there before, or was made for that holding because
nothing stood under its content key. -/
structure Grows (g g' : PipelineGraph) (h : SnapshotHolding) : Prop where
  intact : BookIntact g'
  kept : ∀ k, (g.getNode positionLabel k).isSome → (g'.getNode positionLabel k).isSome
  active : ∀ k m, g'.getNode positionLabel k = some m → isActivePositionNode m = true →
    g.getNode positionLabel k = some m ∨
      (row? m = some (holdingRow h) ∧ g.getNode positionLabel (brokerKey h) = none)

theorem createBrokerPosition_grows {g g' : PipelineGraph} {snapshot n : PipelineNode}
    {h : SnapshotHolding} {settings : MonitorSettings} (hg : BookIntact g)
    (hok : createBrokerPosition g snapshot h settings = .ok (g', n)) :
    Grows g g' h ∧ g'.getNode positionLabel n.key = some n := by
  have hint := createBrokerPosition_bookIntact hg hok
  rcases createBrokerPosition_ok hok with ⟨rfl, hcur⟩ | ⟨hnone, rfl, hl, hk, hrow, -, -⟩
  · refine ⟨⟨hint, fun _ h => h, fun _ _ h _ => .inl h⟩, ?_⟩
    rw [(Graph.getNode_nodeKey hcur).2]; exact hcur
  · refine ⟨⟨hint, fun k hk' => ?_, fun k m hm _ => ?_⟩, by simp [hl]⟩
    · rw [Graph.getNode_put]; split
      · rfl
      · exact hk'
    · rw [Graph.getNode_put] at hm
      split at hm
      · cases hm; exact .inr ⟨hrow, hnone⟩
      · exact .inl hm

theorem Grows.shrinks {g g' g'' : PipelineGraph} {h : SnapshotHolding} (h₁ : Grows g g' h)
    (h₂ : Shrinks g' g'') : Grows g g'' h :=
  ⟨h₂.intact, fun k hk => h₂.kept k (h₁.kept k hk),
    fun k m hm hact => h₁.active k m (h₂.active k m hm hact) hact⟩

theorem reconcileHolding_grows {snapshot : PipelineNode} {settings : MonitorSettings}
    {grouped : Dict String (List PipelineNode)} {g g' : PipelineGraph} {h : SnapshotHolding}
    (hg : BookIntact g)
    (hgrouped : ∀ t, ∀ n ∈ (grouped.get? t).getD [], (g.getNode positionLabel n.key).isSome)
    (hok : reconcileHolding snapshot settings grouped g h = .ok g') : Grows g g' h := by
  obtain ⟨⟨g₁, kept⟩, hkept, hok⟩ := Fallible.bind_eq_ok.mp hok
  have hfirst : Grows g g₁ h ∧ (g₁.getNode positionLabel kept.key).isSome := by
    obtain ⟨found, hfound, hkept⟩ := Fallible.bind_eq_ok.mp hkept
    cases found with
    | none =>
      obtain ⟨hgrows, hget⟩ := createBrokerPosition_grows hg hkept
      exact ⟨hgrows, by rw [hget]; rfl⟩
    | some n =>
      cases hkept
      exact ⟨⟨hg, fun _ h => h, fun _ _ h _ => .inl h⟩,
        hgrouped _ _ (mem_of_matchingPosition hfound)⟩
  obtain ⟨m, hm⟩ := Option.isSome_iff_exists.mp hfirst.2
  have hne := (hfirst.1.intact _ _ hm).key
  rw [(Graph.getNode_nodeKey hm).2] at hne
  refine hfirst.1.shrinks (foldlM_shrinks hfirst.1.intact
    (fun n hn => hfirst.1.kept _ (hgrouped _ n hn)) (fun t t' n ht hn hmark => ?_) hok)
  split at hmark
  · exact markSuperseded_shrinks ht hn hne hmark
  · cases hmark; exact .refl ht

end TradingAgents.Monitor
