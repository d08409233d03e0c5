import TradingAgents.Execution.RefreshFill
import TradingAgents.Kernel.AppendOnly
import TradingAgents.ProofKit.Runs

/-! Runs of refreshes: a pass over the Fills reads each of them once, and no pass whose reads are
clean is stopped by the store. -/

namespace TradingAgents.Execution

open Kernel ProofKit ProofKit.Fallible BrokerLifecycle Positions

/-! ### One read in the graph -/

/-- What a read leaves as it is for the reads after it: the positions, the edges up to those of
status reads, and the position reference of every node. -/
structure PassKeeps (g t : PipelineGraph) : Prop where
  positions : t.listNodes positionLabel = g.listNodes positionLabel
  edges : ∃ new, t.edges = g.edges ++ new ∧ ∀ e ∈ new, e.edgeType = refreshesEdge
  refs : ∀ k n, g.nodes.get? k = some n → ∃ n', t.nodes.get? k = some n' ∧
    n'.props.get? "position_ref" = n.props.get? "position_ref"

theorem PassKeeps.refl (g : PipelineGraph) : PassKeeps g g :=
  ⟨rfl, ⟨[], by simp⟩, fun _ n hn => ⟨n, hn, rfl⟩⟩

theorem PassKeeps.trans {g t u : PipelineGraph} (h : PassKeeps g t) (h' : PassKeeps t u) :
    PassKeeps g u where
  positions := h'.positions.trans h.positions
  edges := by
    obtain ⟨new, hnew, htype⟩ := h.edges
    obtain ⟨new', hnew', htype'⟩ := h'.edges
    refine ⟨new ++ new', by rw [hnew', hnew, List.append_assoc], fun e he => ?_⟩
    exact (List.mem_append.mp he).elim (htype e) (htype' e)
  refs k n hn := by
    obtain ⟨m, hm, href⟩ := h.refs k n hn
    obtain ⟨m', hm', href'⟩ := h'.refs k m hm
    exact ⟨m', hm', href'.trans href⟩

section Pass

variable {digest : String → String} {g t : PipelineGraph} {n : PipelineNode} {fill : BrokerFill}
  {now : String}

/-- The order of a Fill is found as before. -/
theorem PassKeeps.positionRef (h : PassKeeps g t) :
    positionRefFromOrder t n = positionRefFromOrder g n := by
  have horder : ∀ k : NodeKey,
      (((t.descendants k 1 (some [executesEdge])).head?).map fun m => m.get "position_ref") =
        ((g.descendants k 1 (some [executesEdge])).head?).map fun m => m.get "position_ref" := by
    intro k
    obtain ⟨new, hnew, htype⟩ := h.edges
    have hnone : new.find? (Graph.childEdge k [executesEdge]) = none := by
      apply List.find?_eq_none.mpr
      intro e he hchild
      simp only [Graph.childEdge, Bool.and_eq_true, decide_eq_true_eq, List.mem_singleton,
        htype e he] at hchild
      exact absurd hchild.1.2 (by decide)
    rw [Graph.head?_descendants_one, Graph.head?_descendants_one, hnew, List.find?_append, hnone,
      Option.or_none]
    cases hfind : g.edges.find? (Graph.childEdge k [executesEdge]) with
    | none => rfl
    | some e =>
      have hclosed := (g.closed e (List.mem_of_find?_eq_some hfind)).2
      obtain ⟨m, hm⟩ := Option.isSome_iff_exists.mp (Dict.mem_keys_iff.mp hclosed)
      obtain ⟨m', hm', href⟩ := h.refs e.child m hm
      simp only [Option.bind_some, hm, hm', Option.map_some, Node.get, Props.get, href]
  have horder := horder n.nodeKey
  unfold positionRefFromOrder
  cases htruthy : truthyStr (n.get "position_ref") with
  | some ref => rfl
  | none =>
    cases hg : (g.descendants n.nodeKey 1 (some [executesEdge])).head? with
    | none =>
      rw [hg, Option.map_none, Option.map_eq_none_iff] at horder
      rw [horder]
    | some m =>
      rw [hg, Option.map_some] at horder
      obtain ⟨m', hm', href⟩ := Option.map_eq_some_iff.mp horder
      rw [hm']
      simp only [href]

theorem PassKeeps.resolvedPnl (h : PassKeeps g t) :
    resolvedPnl digest t n fill = resolvedPnl digest g n fill := by
  have hactive : activePositionNodes t = activePositionNodes g := by
    rw [activePositionNodes, h.positions]
    rfl
  have hbasis : ∀ ref ticker, positionBasisForRef digest t ref ticker =
      positionBasisForRef digest g ref ticker := by
    intro ref ticker
    simp only [positionBasisForRef, activeNodesOf, hactive]
  simp only [Execution.resolvedPnl, h.positionRef, hbasis]

theorem PassKeeps.realizedPnlProps (h : PassKeeps g t) :
    realizedPnlProps digest t n fill now = realizedPnlProps digest g n fill now := by
  simp only [Execution.realizedPnlProps, h.resolvedPnl]

/-- What the record of a status read leaves. -/
structure StatusWritten (n : PipelineNode) (now : String) (t t' : PipelineGraph) : Prop where
  others : ∀ label key, (label, key) ≠ (brokerOrderStatusLabel, orderStatusKey n.key now) →
    t'.getNode label key = t.getNode label key
  fillKey : ∀ s, t'.getNode brokerOrderStatusLabel (orderStatusKey n.key now) = some s →
    s.props.get? "fill_key" = some (.str n.key)
  edges : ∀ e ∈ t'.edges, e ∈ t.edges ∨ e.child = n.nodeKey
  keeps : PassKeeps t t'

/-- The status read of a Fill at a new instant is recorded. -/
theorem writeOrderStatus_ok (fill : BrokerFill) (hn : t.getNode fillLabel n.key = some n)
    (hclock : t.getNode brokerOrderStatusLabel (orderStatusKey n.key now) = none) :
    ∃ t', writeOrderStatus t n fill now = .ok t' ∧ StatusWritten n now t t' := by
  obtain ⟨hlabel, -⟩ := Graph.getNode_nodeKey hn
  have hnode : t.nodes.get? n.nodeKey = some n := by
    rw [Node.nodeKey, hlabel]
    exact hn
  unfold writeOrderStatus
  generalize hprops : (Dict.ofList _ : Props Document) = props
  have hfillKey : props.get? "fill_key" = some (.str n.key) := by
    rw [← hprops]
    simp [Dict.ofList]
  rw [Graph.mergeNode_fresh props hclock]
  let status : PipelineNode := ⟨brokerOrderStatusLabel, orderStatusKey n.key now, props, 1⟩
  have hparent : status.nodeKey ∈ (t.put status).nodes.keys := by
    rw [Dict.mem_keys_iff, Graph.put, Dict.get?_set_self]
    rfl
  have hchild : n.nodeKey ∈ (t.put status).nodes.keys := by
    rw [Dict.mem_keys_iff, Graph.put, Dict.get?_set]
    split
    · rfl
    · rw [hnode]
      rfl
  have hadd := Graph.addEdge_eq_link refreshesEdge hparent hchild
  have hnodes : ∀ label key, (label, key) ≠ (brokerOrderStatusLabel, orderStatusKey n.key now) →
      (t.put status).getNode label key = t.getNode label key := by
    intro label key hne
    rw [Graph.getNode_put, if_neg]
    rintro ⟨rfl, rfl⟩
    exact hne rfl
  have hedges :
      ((t.put status).link ⟨status.nodeKey, n.nodeKey, refreshesEdge⟩ hparent hchild).edges =
      if ⟨status.nodeKey, n.nodeKey, refreshesEdge⟩ ∈ t.edges then t.edges
      else t.edges ++ [⟨status.nodeKey, n.nodeKey, refreshesEdge⟩] := (Graph.addEdge_ok hadd).2.2.2
  refine ⟨(t.put status).link ⟨status.nodeKey, n.nodeKey, refreshesEdge⟩ hparent hchild, ?_, hnodes,
    ?_, ?_, ?_, ?_, ?_⟩
  · show liftGraph ((t.put status).addEdge status.nodeKey n.nodeKey refreshesEdge) = _
    rw [hadd]
    rfl
  · intro s hs
    rw [Graph.getNode_link, Graph.getNode_put, if_pos ⟨rfl, rfl⟩] at hs
    cases hs
    exact hfillKey
  · intro e he
    rw [Graph.mem_edges_link] at he
    exact he.symm.imp_right fun heq => congrArg Edge.child heq
  · exact Graph.listNodes_put_of_ne (by decide : brokerOrderStatusLabel ≠ positionLabel)
  · rw [hedges]
    split
    · exact ⟨[], by simp, by simp⟩
    · exact ⟨_, rfl, by simp⟩
  · intro k m hm
    refine ⟨m, ?_, rfl⟩
    have hne : k ≠ status.nodeKey := by
      rintro rfl
      rw [show t.nodes.get? status.nodeKey = none from hclock] at hm
      cases hm
    exact (Dict.get?_set_ne t.nodes status hne).trans hm

/-- A Fill's own properties change and keep its position reference. -/
theorem PassKeeps.put {props : Props Document} (hn : t.getNode fillLabel n.key = some n)
    (hprops : props.get? "position_ref" = none) :
    PassKeeps t (t.put ⟨fillLabel, n.key, n.props.update props, 1⟩) where
  positions := Graph.listNodes_put_of_ne (by decide : fillLabel ≠ positionLabel)
  edges := ⟨[], by simp, by simp⟩
  refs k m hm := by
    by_cases hk : k = (fillLabel, n.key)
    · subst hk
      rw [show t.nodes.get? (fillLabel, n.key) = some n from hn, Option.some.injEq] at hm
      subst hm
      refine ⟨_, Dict.get?_set_self _ _ _, ?_⟩
      rw [Dict.get?_update, hprops, Option.none_or]
    · exact ⟨m, (Dict.get?_set_ne t.nodes _ hk).trans hm, rfl⟩

end Pass

/-! ### One pass -/

/-- The report that a pass reads for a Fill. -/
def readOf (reports : List BrokerFill) (n : PipelineNode) : Option BrokerFill :=
  if awaitsBroker n then reportFor reports n else none

/-- A Fill after a pass: it stays without a read and at a pending one. -/
structure FillAfter (digest : String → String) (g : PipelineGraph) (reports : List BrokerFill)
    (n n' : PipelineNode) : Prop where
  kept : (∀ fill, readOf reports n = some fill → fill.status = .pending) → n' = n
  read : ∀ fill, readOf reports n = some fill → fill.status ≠ .pending →
    ReadFill digest g n n' fill

/-- What the read of one Fill leaves. -/
structure ReadOne (digest : String → String) (g : PipelineGraph) (reports : List BrokerFill)
    (now : String) (t t' : PipelineGraph) (n : PipelineNode) : Prop where
  fill : ∃ n', t'.getNode fillLabel n.key = some n' ∧ FillAfter digest g reports n n'
  others : ∀ label key, (label, key) ≠ (fillLabel, n.key) →
    (label, key) ≠ (brokerOrderStatusLabel, orderStatusKey n.key now) →
    t'.getNode label key = t.getNode label key
  statuses : ∀ s, t'.getNode brokerOrderStatusLabel (orderStatusKey n.key now) = some s →
    t.getNode brokerOrderStatusLabel (orderStatusKey n.key now) = some s ∨
      (awaitsBroker n = true ∧ s.props.get? "fill_key" = some (.str n.key))
  edges : ∀ e ∈ t'.edges, e ∈ t.edges ∨ (awaitsBroker n = true ∧ e.child = n.nodeKey)
  keeps : PassKeeps t t'

section Pass

variable {digest : String → String} {g t : PipelineGraph} {n : PipelineNode}
  {reports : List BrokerFill} {now : String}

theorem ReadOne.unread (hn : t.getNode fillLabel n.key = some n) (hread : readOf reports n = none) :
    ReadOne digest g reports now t t n where
  fill := ⟨n, hn, fun _ => rfl, fun fill hfill => by rw [hread] at hfill; cases hfill⟩
  others _ _ _ _ := rfl
  statuses _ hs := .inl hs
  edges _ he := .inl he
  keeps := .refl t

theorem ReadOne.recorded {t' : PipelineGraph} (hn : t.getNode fillLabel n.key = some n)
    (h : StatusWritten n now t t') (hawaits : awaitsBroker n = true)
    (hfill : FillAfter digest g reports n n) : ReadOne digest g reports now t t' n where
  fill := ⟨n, (h.others _ _ (by simp [fillLabel, brokerOrderStatusLabel])).trans hn, hfill⟩
  others _ _ _ := h.others _ _
  statuses s hs := .inr ⟨hawaits, h.fillKey s hs⟩
  edges e he := (h.edges e he).imp_right (⟨hawaits, ·⟩)
  keeps := h.keeps

theorem ReadOne.merged {t' : PipelineGraph} {props : Props Document}
    (hn : t.getNode fillLabel n.key = some n) (h : StatusWritten n now t t')
    (hawaits : awaitsBroker n = true) (hprops : props.get? "position_ref" = none)
    (hfill : FillAfter digest g reports n ⟨fillLabel, n.key, n.props.update props, 1⟩) :
    ReadOne digest g reports now t (t'.put ⟨fillLabel, n.key, n.props.update props, 1⟩) n where
  fill := ⟨_, by rw [Graph.getNode_put, if_pos ⟨rfl, rfl⟩], hfill⟩
  others label key hother hstatus := by
    rw [Graph.getNode_put, if_neg, h.others _ _ hstatus]
    rintro ⟨rfl, rfl⟩
    exact hother rfl
  statuses s hs := by
    rw [Graph.getNode_put, if_neg] at hs
    · exact .inr ⟨hawaits, h.fillKey s hs⟩
    · exact fun heq => absurd (show brokerOrderStatusLabel = fillLabel from heq.1) (by decide)
  edges e he := (h.edges e he).imp_right (⟨hawaits, ·⟩)
  keeps := h.keeps.trans
    (.put ((h.others _ _ (by simp [fillLabel, brokerOrderStatusLabel])).trans hn) hprops)

/-- The read of one Fill is recorded, unless a position stands without a ticker. -/
theorem refreshRead_clean (hkeeps : PassKeeps g t) (hn : t.getNode fillLabel n.key = some n)
    (hstands : FillStands n)
    (hclean : ∀ fill, readOf reports n = some fill → CleanRead digest g n fill now)
    (hclock : readOf reports n ≠ none →
      t.getNode brokerOrderStatusLabel (orderStatusKey n.key now) = none) :
    (∃ t', refreshRead digest reports now t n = .ok t' ∧
      ReadOne digest g reports now t t' n) ∨
    refreshRead digest reports now t n = .error (.keyError "ticker") := by
  unfold refreshRead
  by_cases hawaits : awaitsBroker n = true
  case neg =>
    rw [if_pos (by simpa using hawaits)]
    exact .inl ⟨t, rfl, .unread hn (if_neg hawaits)⟩
  rw [if_neg (by simpa using hawaits)]
  have hread : readOf reports n = reportFor reports n := if_pos hawaits
  cases hreport : reportFor reports n with
  | none => exact .inl ⟨t, rfl, .unread hn (hread.trans hreport)⟩
  | some fill =>
    rw [hreport] at hread
    have hread_of : ∀ f, readOf reports n = some f → f = fill := fun f hf =>
      Option.some.inj (hf.symm.trans hread)
    have hclean := hclean fill hread
    obtain ⟨t₁, hwrite, hwritten⟩ := writeOrderStatus_ok fill hn (hclock (by simp [hread]))
    simp only [hwrite, ok_bind]
    by_cases hpending : fill.status = .pending
    · rw [if_pos hpending]
      refine .inl ⟨t₁, rfl, .recorded hn hwritten hawaits ⟨fun _ => rfl, fun f hf hopen => ?_⟩⟩
      exact (hopen (hread_of f hf ▸ hpending)).elim
    rw [if_neg hpending]
    -- the profit is that of the graph at the start of the pass
    rw [(hkeeps.trans hwritten.keeps).realizedPnlProps]
    cases hpnl : realizedPnlProps digest g n fill now with
    | error e =>
      rw [realizedPnlProps_error hpnl]
      exact .inr rfl
    | ok pnl =>
      have hprops : (brokerStatusProps n fill now).update pnl = readProps n fill now pnl := rfl
      simp only [ok_bind, hprops]
      have hafter : ∀ n', n'.schemaVersion = 1 → (∀ name, n'.props.get? name =
          ((readProps n fill now pnl).get? name).or (n.props.get? name)) →
          FillAfter digest g reports n n' := by
        intro n' hversion hget
        refine ⟨fun hwaiting => (hpending (hwaiting fill hread)).elim, fun f hf _ => ?_⟩
        rw [hread_of f hf]
        exact hstands.read hget hpnl hawaits hclean hpending hversion
      by_cases hnothing : (readProps n fill now pnl).entries = []
      · rw [if_pos hnothing]
        refine .inl ⟨t₁, rfl, .recorded hn hwritten hawaits ?_⟩
        refine hafter n hstands.version fun name => ?_
        have hempty : (readProps n fill now pnl).get? name = none := by
          rw [Dict.get?, hnothing]
          rfl
        rw [hempty, Option.none_or]
      · have hn₁ : t₁.getNode fillLabel n.key = some n :=
          (hwritten.others _ _ (by simp [fillLabel, brokerOrderStatusLabel])).trans hn
        have href : (readProps n fill now pnl).get? "position_ref" = none := by
          cases hname : (readProps n fill now pnl).get? "position_ref" with
          | none => rfl
          | some w =>
            exact absurd (readProps_writes hpnl hname).mem_refreshNames (by decide)
        rw [if_neg hnothing, Graph.mergeNode_of_noConflict hn₁ hstands.version
          (hstands.noConflict hclean hpnl), liftGraph, ok_bind]
        exact .inl ⟨_, rfl, .merged hn hwritten hawaits href
          (hafter _ rfl fun name => Dict.get?_update _ _ name)⟩

end Pass

/-- What stands after the reads of some of a pass's Fills. -/
structure PassOver (digest : String → String) (g : PipelineGraph) (reports : List BrokerFill)
    (now : String) (done : List PipelineNode) (t : PipelineGraph) : Prop where
  fills : ∀ n ∈ done, ∃ n', t.getNode fillLabel n.key = some n' ∧ FillAfter digest g reports n n'
  rest : ∀ key, key ∉ done.map Node.key →
    t.getNode fillLabel key = g.getNode fillLabel key ∧
      t.getNode brokerOrderStatusLabel (orderStatusKey key now) =
        g.getNode brokerOrderStatusLabel (orderStatusKey key now)
  statuses : ∀ key s, t.getNode brokerOrderStatusLabel key = some s →
    g.getNode brokerOrderStatusLabel key = some s ∨
      ∃ n ∈ done, awaitsBroker n = true ∧ s.props.get? "fill_key" = some (.str n.key)
  edges : ∀ e ∈ t.edges, e ∈ g.edges ∨ ∃ n ∈ done, awaitsBroker n = true ∧ e.child = n.nodeKey
  keeps : PassKeeps g t

/-- A pass each of whose reads is clean. -/
def CleanPass (digest : String → String) (g : PipelineGraph) (reports : List BrokerFill)
    (now : String) : Prop :=
  ∀ n ∈ g.listNodes fillLabel, ∀ fill ∈ readOf reports n, CleanRead digest g n fill now

theorem orderStatusKey_inj {k k' now : String} (h : orderStatusKey k now = orderStatusKey k' now) :
    k = k' := by
  have hkey := (String.append_left_inj _).mp ((String.append_left_inj _).mp h)
  exact (String.append_right_inj _).mp hkey

section Pass

variable {digest : String → String} {g t t' : PipelineGraph} {n : PipelineNode}
  {reports : List BrokerFill} {now : String} {done : List PipelineNode}

theorem PassOver.start : PassOver digest g reports now [] g where
  fills _ hn := by cases hn
  rest _ _ := ⟨rfl, rfl⟩
  statuses _ _ hs := .inl hs
  edges _ he := .inl he
  keeps := .refl g

/-- The read of one more Fill. -/
theorem PassOver.next (h : PassOver digest g reports now done t) (hfree : n.key ∉ done.map Node.key)
    (hone : ReadOne digest g reports now t t' n) :
    PassOver digest g reports now (done ++ [n]) t' where
  fills m hm := by
    rcases List.mem_append.mp hm with hdone | hlast
    · obtain ⟨m', hm', hafter⟩ := h.fills m hdone
      refine ⟨m', (hone.others _ _ (fun heq => ?_) ?_).trans hm', hafter⟩
      · exact hfree ((Prod.mk.inj heq).2 ▸ List.mem_map_of_mem hdone)
      · simp [fillLabel, brokerOrderStatusLabel]
    · rw [List.mem_singleton.mp hlast]
      exact hone.fill
  rest key hkey := by
    simp only [List.map_append, List.map_cons, List.map_nil, List.mem_append, List.mem_singleton,
      not_or] at hkey
    obtain ⟨hfill, hstatus⟩ := h.rest key hkey.1
    refine ⟨(hone.others _ _ (fun heq => hkey.2 (Prod.mk.inj heq).2) ?_).trans hfill,
      (hone.others _ _ ?_ fun heq => ?_).trans hstatus⟩
    · simp [fillLabel, brokerOrderStatusLabel]
    · simp [fillLabel, brokerOrderStatusLabel]
    · exact hkey.2 (orderStatusKey_inj (Prod.mk.inj heq).2)
  statuses key s hs := by
    by_cases hkey : key = orderStatusKey n.key now
    · subst hkey
      rcases hone.statuses s hs with hold | hnew
      · rw [(h.rest _ hfree).2] at hold
        exact .inl hold
      · exact .inr ⟨n, by simp, hnew⟩
    · rw [hone.others _ _ (by simp [fillLabel, brokerOrderStatusLabel]) fun heq =>
        hkey (Prod.mk.inj heq).2] at hs
      obtain hold | ⟨m, hm, hnew⟩ := h.statuses key s hs
      · exact .inl hold
      · exact .inr ⟨m, List.mem_append_left _ hm, hnew⟩
  edges e he := by
    rcases hone.edges e he with hold | hnew
    · obtain hold | ⟨m, hm, hnew⟩ := h.edges e hold
      · exact .inl hold
      · exact .inr ⟨m, List.mem_append_left _ hm, hnew⟩
    · exact .inr ⟨n, by simp, hnew⟩
  keeps := h.keeps.trans hone.keeps

/-- A clean pass over some of the Fills goes through, unless a position stands without a ticker. -/
theorem clean_pass {fills : List PipelineNode} (hfills : fills.Sublist (g.listNodes fillLabel))
    (hstands : ∀ key n, g.getNode fillLabel key = some n → FillStands n)
    (hclean : CleanPass digest g reports now) :
    (∃ t, fills.foldlM (refreshRead digest reports now) g = .ok t ∧
      PassOver digest g reports now fills t) ∨
    ∃ e, fills.foldlM (refreshRead digest reports now) g = .error e ∧ e = .keyError "ticker" := by
  refine foldlM_outcome (P := PassOver digest g reports now) .start fun done n rest t hl hP => ?_
  have hmem : n ∈ g.listNodes fillLabel := hfills.subset (by rw [hl]; simp)
  obtain ⟨hlabel, hn⟩ := Graph.mem_listNodes.mp hmem
  have hnodup := (hfills.map Node.key).nodup (Graph.nodup_listNodes_keys g fillLabel)
  rw [hl, List.map_append, List.nodup_append] at hnodup
  have hfree : n.key ∉ done.map Node.key := fun hdone => hnodup.2.2 _ hdone _ (by simp) rfl
  obtain ⟨hfill, hstatus⟩ := hP.rest n.key hfree
  have hclock : readOf reports n ≠ none →
      t.getNode brokerOrderStatusLabel (orderStatusKey n.key now) = none := by
    intro hread
    obtain ⟨fill, hread⟩ := Option.ne_none_iff_exists'.mp hread
    rw [hstatus]
    exact (hclean n hmem fill hread).clock
  rcases refreshRead_clean hP.keeps (hfill.trans hn) (hstands _ n hn) (hclean n hmem) hclock with
    ⟨t', hok, hone⟩ | herror
  · exact .inl ⟨t', hok, hP.next hfree hone⟩
  · exact .inr ⟨_, herror, rfl⟩

end Pass

/-! ### Runs -/

/-- A pass, whole or broken off after `count` Fills, and a write of anything else. -/
inductive RefreshEvent where
  | outside (c : Call Document)
  | refresh (reports : List BrokerFill) (now : String) (count : Nat)

def refreshStep (digest : String → String) (g : PipelineGraph) :
    RefreshEvent → Except HandlerError PipelineGraph
  | .outside c => .ok (c.after g)
  | .refresh reports now count =>
    ((g.listNodes fillLabel).take count).foldlM (refreshRead digest reports now) g

/-- The names of the refresh are written by the refresh alone. -/
def LeavesRefreshed : Call Document → Prop
  | .mergeNode label _ props version =>
    label = fillLabel → version = 1 ∧ ∀ name ∈ refreshNames, props.get? name = none
  | .addEdge _ _ _ => True

/-- A pass at an instant at which none of the Fills it waits on was read. -/
def TickedPass (g : PipelineGraph) (now : String) : Prop :=
  ∀ n ∈ g.listNodes fillLabel, awaitsBroker n = true →
    g.getNode brokerOrderStatusLabel (orderStatusKey n.key now) = none

def TickedEvent (g : PipelineGraph) : RefreshEvent → Prop
  | .outside c => LeavesRefreshed c
  | .refresh _ now _ => TickedPass g now

def CleanEvent (digest : String → String) (g : PipelineGraph) : RefreshEvent → Prop
  | .outside c => LeavesRefreshed c
  | .refresh reports now _ => CleanPass digest g reports now

def AllStand (g : PipelineGraph) : Prop :=
  ∀ key n, g.getNode fillLabel key = some n → FillStands n

section Runs

variable {digest : String → String} {g g' : PipelineGraph} {n n' : PipelineNode}
  {reports : List BrokerFill} {now : String}

/-- A write of other names leaves a Fill between its reads. -/
theorem FillStands.outside (h : FillStands n) (hversion : n'.schemaVersion = 1)
    (hget : ∀ name ∈ refreshNames, n'.props.get? name = n.props.get? name) : FillStands n' where
  version := hversion
  status v hv := h.status v ((hget _ (by simp [refreshNames])).symm.trans hv)
  fresh hnone name hname := by
    rw [hget _ (by simp [refreshNames])] at hnone
    rw [hget name hname]
    exact h.fresh hnone name hname
  unfilled hstill :=
    (hget _ (by simp [refreshNames])).trans
      (h.unfilled ((hget _ (by simp [refreshNames])).symm.trans hstill))
  apart hbooked := by
    rw [hget _ (by simp [refreshNames])] at hbooked ⊢
    exact h.apart hbooked

theorem FillStands.unread (hversion : n.schemaVersion = 1)
    (hnone : ∀ name ∈ refreshNames, n.props.get? name = none) : FillStands n where
  version := hversion
  status v hv := by
    rw [hnone _ (by simp [refreshNames])] at hv
    cases hv
  fresh _ := hnone
  unfilled _ := hnone _ (by simp [refreshNames])
  apart _ := hnone _ (by simp [refreshNames])

theorem AllStand.outside {c : Call Document} (h : AllStand g) (hc : LeavesRefreshed c) :
    AllStand (c.after g) := by
  unfold Call.after
  rcases c.perform_cases g with ⟨label, key, props, version, g₁, m, rfl, hm, hrun⟩ |
    ⟨parent, child, edgeType, g₁, rfl, hadd, hrun⟩ | ⟨e, hrun⟩
  · rw [hrun]
    have hget := Graph.mergeNode_get? hm
    obtain ⟨rfl, rfl, rfl, hversion, hold⟩ := Graph.mergeNode_ok hm
    intro k n hn
    rw [Graph.getNode_put] at hn
    split at hn
    · rename_i hsame
      cases hn
      obtain ⟨hone, hnone⟩ := hc hsame.1.symm
      have hkeeps : ∀ name ∈ refreshNames, m.props.get? name =
          (g.getNode m.label m.key).bind fun n => n.props.get? name := fun name hname => by
        rw [hget, hnone name hname, Option.none_or]
      rcases hold with ⟨hfree, -⟩ | ⟨current, hcurrent, -⟩
      · simp only [hfree, Option.bind_none] at hkeeps
        exact .unread (hversion.trans hone) hkeeps
      · simp only [hcurrent, Option.bind_some] at hkeeps
        rw [← hsame.1] at hcurrent
        exact (h _ current hcurrent).outside (hversion.trans hone) hkeeps
    · exact h k n hn
  · rw [hrun]
    intro k n hn
    rw [Graph.getNode_of_nodes_eq (Graph.addEdge_ok hadd).1] at hn
    exact h k n hn
  · rw [hrun]
    exact h

/-- A Fill is kept by a pass, or read with an answer. -/
theorem FillAfter.kept_or_read (h : FillAfter digest g reports n n') :
    n' = n ∨ ∃ fill, ReadFill digest g n n' fill := by
  by_cases hread : ∃ fill, readOf reports n = some fill ∧ fill.status ≠ .pending
  · obtain ⟨fill, hread, hopen⟩ := hread
    exact .inr ⟨fill, h.read fill hread hopen⟩
  · refine .inl (h.kept fun fill hfill => ?_)
    by_contra hopen
    exact hread ⟨fill, hfill, hopen⟩

/-- A Fill that stood before the pass stands after it. -/
theorem FillAfter.stands (h : FillAfter digest g reports n n') (hstands : FillStands n) :
    FillStands n' := by
  rcases h.kept_or_read with rfl | ⟨fill, hfill⟩
  · exact hstands
  · exact hfill.stands

theorem PassOver.allStand {done : List PipelineNode} (h : PassOver digest g reports now done g')
    (hdone : ∀ n ∈ done, n ∈ g.listNodes fillLabel) (hstands : AllStand g) : AllStand g' := by
  intro key n' hn'
  by_cases hkey : key ∈ done.map Node.key
  · obtain ⟨n, hn, rfl⟩ := List.mem_map.mp hkey
    obtain ⟨m, hm, hafter⟩ := h.fills n hn
    rw [hm, Option.some.injEq] at hn'
    subst hn'
    exact hafter.stands (hstands n.key n (Graph.mem_listNodes.mp (hdone n hn)).2)
  · rw [(h.rest key hkey).1] at hn'
    exact hstands key n' hn'

theorem AllStand.step {event : RefreshEvent} (h : AllStand g) (hclean : CleanEvent digest g event)
    (hok : refreshStep digest g event = .ok g') : AllStand g' := by
  match event, hclean, hok with
  | .outside c, hclean, hok =>
    cases hok
    exact h.outside hclean
  | .refresh reports now count, hclean, hok =>
    have hsub := List.take_sublist count (g.listNodes fillLabel)
    rcases clean_pass hsub h hclean with ⟨t, ht, hover⟩ | ⟨e, he, -⟩
    · rw [refreshStep, ht] at hok
      cases hok
      exact hover.allStand (fun n hn => hsub.subset hn) h
    · rw [refreshStep, he] at hok
      cases hok

/-- In a run of clean passes every Fill stands between its reads. -/
theorem reach_allStand (h : Reach (refreshStep digest) (CleanEvent digest) (· = Graph.empty) g) :
    AllStand g :=
  h.invariant (P := AllStand) (fun s hs key n hn => by rw [hs] at hn; cases hn)
    fun _ _ _ hP hclean hok => hP.step hclean hok

end Runs

/-- What a pass may do to one Fill. -/
structure FillHolds (digest : String → String) (g g' : PipelineGraph) (reports : List BrokerFill)
    (n n' : PipelineNode) : Prop where
  moves : n'.props.get? "broker_status" = n.props.get? "broker_status" ∨
    (n.props.get? "broker_status" = none ∧
      (n'.props.get? "broker_status" = some (.str "partial") ∨
        n'.props.get? "broker_status" = some (.str "filled") ∨
        n'.props.get? "broker_status" = some (.str "rejected"))) ∨
    (n.props.get? "broker_status" = some (.str "partial") ∧
      n'.props.get? "broker_status" = some (.str "filled"))
  ended : isTerminalFillBrokerStatus (n.get "broker_status") = true → n' = n ∧
    (∀ key s, g'.getNode brokerOrderStatusLabel key = some s →
      s.props.get? "fill_key" = some (.str n.key) →
      g.getNode brokerOrderStatusLabel key = some s) ∧
    ∀ e ∈ g'.edges, e.child = n.nodeKey → e ∈ g.edges
  marker : ∀ v, n.props.get? "pnl_unresolved_at" = some v →
    n'.props.get? "pnl_unresolved_at" = some v
  profit : ∀ fill, readOf reports n = some fill → Ended fill →
    ∀ v, n'.props.get? "realized_pnl_cents" = some v → Booked digest g n fill v
  earned : ∀ fill, readOf reports n = some fill → Ended fill → fill.side = .sell →
    ∀ cents, resolvedPnl digest g n fill = .ok (some cents) →
      n'.props.get? "realized_pnl_cents" = some (.int cents)
  resolved : ∀ fill, readOf reports n = some fill → Ended fill → fill.side = .sell →
    n'.props.get? "realized_pnl_cents" = none → n'.props.get? "pnl_unresolved_at" ≠ none

/-- A pass is never stopped by the store, and moves its Fills forward only. -/
structure RefreshHolds (digest : String → String) (g : PipelineGraph) (reports : List BrokerFill)
    (now : String) : Prop where
  recorded : ∀ e, refreshReads digest g reports now = .error e → e = .keyError "ticker"
  fills : ∀ g', refreshReads digest g reports now = .ok g' →
    ∀ key n, g.getNode fillLabel key = some n →
      ∃ n', g'.getNode fillLabel key = some n' ∧ FillHolds digest g g' reports n n'

section Holds

variable {digest : String → String} {g g' : PipelineGraph} {n n' : PipelineNode}
  {reports : List BrokerFill} {now : String}

theorem Ended.not_pending {fill : BrokerFill} (h : Ended fill) : fill.status ≠ .pending := by
  intro hpending
  rcases h with hfilled | ⟨hrejected, -⟩
  · rw [hpending] at hfilled
    cases hfilled
  · rw [hpending] at hrejected
    cases hrejected

theorem readOf_awaits {fill : BrokerFill} (h : readOf reports n = some fill) :
    awaitsBroker n = true := by
  unfold readOf at h
  split at h
  · assumption
  · cases h

/-- What a pass has done to one of its Fills. -/
theorem PassOver.fillHolds {done : List PipelineNode} (h : PassOver digest g reports now done g')
    (hlabels : ∀ m ∈ done, m.nodeKey = n.nodeKey → m = n) (hlabel : n.label = fillLabel)
    (hdone : ∀ m ∈ done, m.label = fillLabel)
    (hstands : FillStands n) (hafter : FillAfter digest g reports n n') :
    FillHolds digest g g' reports n n' where
  moves := by
    rcases hafter.kept_or_read with rfl | ⟨fill, hfill⟩
    · exact .inl rfl
    · rcases hfill.moves with hsame | ⟨hnone, hnew⟩ | hcompleted
      · exact .inl hsame
      · have hstatus := hfill.stands.status _ hnew
        rw [hnew]
        exact .inr (.inl ⟨hnone, by simpa using hstatus⟩)
      · exact .inr (.inr hcompleted)
  ended hterminal := by
    have hidle : awaitsBroker n = false := by rw [awaitsBroker, hterminal]; simp
    have hother : ∀ m ∈ done, awaitsBroker m = true → m.key ≠ n.key := by
      intro m hm hawaits hkey
      have heq := hlabels m hm (by rw [Node.nodeKey, Node.nodeKey, hlabel, hdone m hm, hkey])
      rw [heq, hidle] at hawaits
      cases hawaits
    refine ⟨hafter.kept fun fill hfill => ?_, fun key s hs hfor => ?_, fun e he hchild => ?_⟩
    · have hawaits := readOf_awaits hfill
      rw [hidle] at hawaits
      cases hawaits
    · rcases h.statuses key s hs with hold | ⟨m, hm, hawaits, hkey⟩
      · exact hold
      · rw [hfor, Option.some.injEq, Value.str.injEq] at hkey
        exact (hother m hm hawaits hkey.symm).elim
    · rcases h.edges e he with hold | ⟨m, hm, hawaits, hkey⟩
      · exact hold
      · rw [hchild] at hkey
        exact (hother m hm hawaits (Prod.mk.inj hkey).2.symm).elim
  marker v hv := by
    rcases hafter.kept_or_read with rfl | ⟨fill, hfill⟩
    · exact hv
    · exact hfill.marker v hv
  profit fill hread hended v hv := (hafter.read fill hread hended.not_pending).profit hended v hv
  earned fill hread hended := (hafter.read fill hread hended.not_pending).earned hended
  resolved fill hread hended := (hafter.read fill hread hended.not_pending).resolved hended

/-- In every run of clean passes, a clean pass is recorded and moves every Fill forward only. -/
theorem clean_refreshes_hold
    (hrun : Reach (refreshStep digest) (CleanEvent digest) (· = Graph.empty) g)
    (reports : List BrokerFill) (now : String) (hclean : CleanPass digest g reports now) :
    RefreshHolds digest g reports now := by
  have hstands := reach_allStand hrun
  rcases clean_pass (List.Sublist.refl _) hstands hclean with ⟨t, ht, hover⟩ | ⟨e, he, hticker⟩
  · refine ⟨fun e he => ?_, fun g' hg' key n hn => ?_⟩
    · rw [refreshReads, ht] at he
      cases he
    · rw [refreshReads, ht] at hg'
      cases hg'
      obtain ⟨hlabel, rfl⟩ := Graph.getNode_nodeKey hn
      obtain ⟨n', hn', hafter⟩ := hover.fills n (Graph.mem_listNodes.mpr ⟨hlabel, hn⟩)
      refine ⟨n', hn', hover.fillHolds (fun m hm hkey => ?_) hlabel
        (fun m hm => (Graph.mem_listNodes.mp hm).1) (hstands _ n hn) hafter⟩
      have hm := (Graph.mem_listNodes.mp hm).2
      rw [(Prod.mk.inj hkey).2, hn, Option.some.injEq] at hm
      exact hm.symm
  · refine ⟨fun e' he' => ?_, fun g' hg' => ?_⟩
    · rw [refreshReads, he] at he'
      cases he'
      exact hticker
    · rw [refreshReads, he] at hg'
      cases hg'

end Holds

/-! ### Runs that are checked -/

section Checked

variable {digest : String → String} {g : PipelineGraph} {n : PipelineNode} {fill : BrokerFill}
  {now : String}

theorem cleanRead_iff : CleanRead digest g n fill now ↔
    (g.getNode brokerOrderStatusLabel (orderStatusKey n.key now)).isNone = true ∧
    (completesPartialFill n fill = true →
      n.props.get? "broker_status_broker_order_id" = some (.str fill.brokerOrderId)) ∧
    (completesPartialFill n fill = true → n.props.get? "realized_pnl_cents" ≠ none →
      fill.side = .sell ∧ Fallible.check Option.isSome (resolvedPnl digest g n fill) = true) ∧
    (completesPartialFill n fill = true → fill.side = .sell →
      n.props.get? "pnl_unresolved_at" ≠ none →
      ¬ Fallible.check Option.isSome (resolvedPnl digest g n fill) = true) ∧
    (fill.status = .rejected → 0 < executedQuantity fill →
      fill.side = .buy ∧ n.props.get? "realized_pnl_cents" = none) := by
  have hresolves : Fallible.check Option.isSome (resolvedPnl digest g n fill) = true ↔
      ∃ v, resolvedPnl digest g n fill = .ok (some v) := by
    rw [Fallible.check_eq_true]
    constructor
    · rintro ⟨resolved, hok, hsome⟩
      obtain ⟨v, rfl⟩ := Option.isSome_iff_exists.mp hsome
      exact ⟨v, hok⟩
    · rintro ⟨v, hok⟩
      exact ⟨some v, hok, rfl⟩
  rw [Option.isNone_iff_eq_none, hresolves, not_exists]
  exact ⟨fun h => ⟨h.clock, h.order, h.basis, h.marked, h.ended⟩,
    fun h => ⟨h.1, h.2.1, h.2.2.1, h.2.2.2.1, h.2.2.2.2⟩⟩

instance : Decidable (CleanRead digest g n fill now) := decidable_of_iff' _ cleanRead_iff

instance (reports : List BrokerFill) : Decidable (CleanPass digest g reports now) :=
  inferInstanceAs (Decidable (∀ _ ∈ _, ∀ _ ∈ _, _))

instance (c : Call Document) : Decidable (LeavesRefreshed c) :=
  match c with
  | .mergeNode _ _ _ _ => inferInstanceAs (Decidable (_ = _ → _ = _ ∧ ∀ _ ∈ refreshNames, _ = none))
  | .addEdge _ _ _ => inferInstanceAs (Decidable True)

instance : Decidable (TickedPass g now) :=
  decidable_of_iff (∀ n ∈ g.listNodes fillLabel, awaitsBroker n = true →
      (g.getNode brokerOrderStatusLabel (orderStatusKey n.key now)).isNone = true)
    (by simp only [Option.isNone_iff_eq_none, TickedPass])

instance (event : RefreshEvent) : Decidable (TickedEvent g event) :=
  match event with
  | .outside _ => inferInstanceAs (Decidable (LeavesRefreshed _))
  | .refresh _ _ _ => inferInstanceAs (Decidable (TickedPass _ _))

instance (event : RefreshEvent) : Decidable (CleanEvent digest g event) :=
  match event with
  | .outside _ => inferInstanceAs (Decidable (LeavesRefreshed _))
  | .refresh _ _ _ => inferInstanceAs (Decidable (CleanPass _ _ _ _))

end Checked

/-- A position of ten shares opened at 1000 cents, and the Fill of the order that sells it. -/
def heldExit : List RefreshEvent := [
  .outside (.mergeNode positionLabel "p1" (.ofList [("ticker", .str "ACME"), ("quantity", .int 10),
    ("opened_price_cents", .int 1000)]) 1),
  .outside (.mergeNode fillLabel "exit:p1:ACME:sell" (.ofList [("status", .str "pending"),
    ("ticker", .str "ACME"), ("position_ref", .str "p1")]) 1)]

/-- The broker's account of that order after `filled` of its shares. -/
def exitReport (orderId : String) (status : FillStatus) (filled : Int) (price : ℚ) :
    BrokerFill where
  idempotencyKey := "exit:p1:ACME:sell"
  ticker := "ACME"
  side := .sell
  quantity := 10
  price := ⟨price, "USD"⟩
  brokerOrderId := orderId
  status := status
  filledQuantity := some filled

/-- Four of the shares are sold at 1200 cents. -/
def partSold : List RefreshEvent :=
  heldExit ++ [RefreshEvent.refresh [exitReport "o1" .partially 4 12] "t1" 1]

theorem clean_refreshes_hold_acme : ∃ g g', RefreshHolds id g [exitReport "o1" .filled 10 13] "t2" ∧
    refreshReads id g [exitReport "o1" .filled 10 13] "t2" = .ok g' ∧
    ((g'.getNode fillLabel "exit:p1:ACME:sell").bind fun n =>
      n.props.get? "realized_pnl_cents") = some (.int 3000) := by
  have htest : Fallible.check (fun g =>
      decide (CleanPass id g [exitReport "o1" .filled 10 13] "t2") &&
        Fallible.check (fun g' => decide (((g'.getNode fillLabel "exit:p1:ACME:sell").bind fun n =>
          n.props.get? "realized_pnl_cents") = some (.int 3000)))
          (refreshReads id g [exitReport "o1" .filled 10 13] "t2"))
      (partSold.foldlM (fun g event => if CleanEvent id g event then refreshStep id g event
        else .error (.validation "refused")) Graph.empty) = true := by decide +kernel
  obtain ⟨g, hrun, hafter⟩ := Fallible.check_eq_true.mp htest
  rw [Bool.and_eq_true, decide_eq_true_eq] at hafter
  obtain ⟨g', hg', hprofit⟩ := Fallible.check_eq_true.mp hafter.2
  exact ⟨g, g', clean_refreshes_hold (.of_checked (.start rfl) hrun) _ _ hafter.1, hg',
    of_decide_eq_true hprofit⟩

/-- The rest of the position gets a node of its own. -/
def remainderAdopted : List RefreshEvent := [
  .outside (.mergeNode positionLabel "p2" (.ofList [("ticker", .str "ACME"), ("quantity", .int 6),
    ("opened_price_cents", .int 1000)]) 1),
  .outside (.mergeNode positionLabel "p1" (.ofList [("broker_superseded_by", .str "p2")]) 1)]

/-- Whether the store refuses the exit's completion under another order id. -/
def refusesOrderId (g : PipelineGraph) : Bool :=
  decide (TickedPass g "t2") &&
  match refreshReads id g [exitReport "o2" .filled 10 13] "t2" with
  | .error e => decide (e = .graph (.overwritten "broker_status_broker_order_id"))
  | .ok _ => false

/-- Whether the pass over the exit's completion leaves the profit of its part. -/
def keepsPartProfit (g : PipelineGraph) : Bool :=
  match g.getNode fillLabel "exit:p1:ACME:sell" with
  | none => false
  | some n =>
    decide (TickedPass g "t2") &&
    decide (readOf [exitReport "o1" .filled 10 13] n = some (exitReport "o1" .filled 10 13)) &&
    Fallible.check Option.isNone (resolvedPnl id g n (exitReport "o1" .filled 10 13)) &&
    Fallible.check (fun g' => decide (((g'.getNode fillLabel "exit:p1:ACME:sell").bind fun n =>
      n.props.get? "realized_pnl_cents") = some (.int 800)))
      (refreshReads id g [exitReport "o1" .filled 10 13] "t2")

/-- The ten shares are two lots, opened at different prices, and five of them are sold first. -/
def lotsPartSold : List RefreshEvent := [
  .outside (.mergeNode positionLabel "p1" (.ofList [("ticker", .str "ACME"), ("quantity", .int 4),
    ("opened_price_cents", .int 1000)]) 1),
  .outside (.mergeNode positionLabel "p2" (.ofList [("ticker", .str "ACME"), ("quantity", .int 6),
    ("opened_price_cents", .int 1100)]) 1),
  .outside (.mergeNode fillLabel "exit:p1:ACME:sell" (.ofList [("status", .str "pending"),
    ("ticker", .str "ACME"), ("position_ref", .str (positionRefForKeys id ["p1", "p2"]))]) 1),
  .refresh [exitReport "o1" .partially 5 12] "t1" 1]

/-- Whether the pass over the exit's completion books nothing, though its profit resolves. -/
def booksNothing (g : PipelineGraph) : Bool :=
  match g.getNode fillLabel "exit:p1:ACME:sell" with
  | none => false
  | some n =>
    decide (TickedPass g "t2") &&
    decide (readOf [exitReport "o1" .filled 10 13] n = some (exitReport "o1" .filled 10 13)) &&
    Fallible.check (fun resolved => decide (resolved = some 2400))
      (resolvedPnl id g n (exitReport "o1" .filled 10 13)) &&
    Fallible.check (fun g' => ((g'.getNode fillLabel "exit:p1:ACME:sell").bind fun n =>
      n.props.get? "realized_pnl_cents").isNone)
      (refreshReads id g [exitReport "o1" .filled 10 13] "t2")

/-- Under another order id the completing read is refused by the store; without the basis of the
part it leaves the profit of the part; after a part whose profit did not resolve it books none. -/
theorem refreshes_do_not_hold :
    (¬ ∀ g, Reach (refreshStep id) TickedEvent (· = Graph.empty) g → TickedPass g "t2" →
      RefreshHolds id g [exitReport "o2" .filled 10 13] "t2") ∧
    (∃ g, Reach (refreshStep id) TickedEvent (· = Graph.empty) g ∧ TickedPass g "t2" ∧
      keepsPartProfit g = true ∧ ¬ RefreshHolds id g [exitReport "o1" .filled 10 13] "t2") ∧
    ∃ g, Reach (refreshStep id) TickedEvent (· = Graph.empty) g ∧ TickedPass g "t2" ∧
      booksNothing g = true ∧ ¬ RefreshHolds id g [exitReport "o1" .filled 10 13] "t2" := by
  refine ⟨?_, ?_, ?_⟩
  · intro hall
    have htest : Fallible.check refusesOrderId
        (partSold.foldlM (fun g event => if TickedEvent g event then refreshStep id g event
          else .error (.validation "refused")) Graph.empty) = true := by decide +kernel
    obtain ⟨g, hrun, hafter⟩ := Fallible.check_eq_true.mp htest
    rw [refusesOrderId, Bool.and_eq_true, decide_eq_true_eq] at hafter
    obtain ⟨hticked, hrefused⟩ := hafter
    have hholds := (hall g (.of_checked (.start rfl) hrun) hticked).recorded
    cases hresult : refreshReads id g [exitReport "o2" .filled 10 13] "t2" with
    | ok g' =>
      rw [hresult] at hrefused
      cases hrefused
    | error e =>
      rw [hresult, decide_eq_true_eq] at hrefused
      rw [hholds e hresult] at hrefused
      cases hrefused
  · have htest : Fallible.check keepsPartProfit
        ((partSold ++ remainderAdopted).foldlM (fun g event =>
          if TickedEvent g event then refreshStep id g event
          else .error (.validation "refused")) Graph.empty) = true := by decide +kernel
    obtain ⟨g, hrun, hafter⟩ := Fallible.check_eq_true.mp htest
    have hkeeps := hafter
    unfold keepsPartProfit at hafter
    split at hafter
    · cases hafter
    rename_i n hn
    simp only [Bool.and_eq_true, decide_eq_true_eq] at hafter
    obtain ⟨⟨⟨hticked, hread⟩, hunresolved⟩, hprofit⟩ := hafter
    obtain ⟨g', hg', hprofit⟩ := Fallible.check_eq_true.mp hprofit
    obtain ⟨resolved, hresolved, hnone⟩ := Fallible.check_eq_true.mp hunresolved
    refine ⟨g, .of_checked (.start rfl) hrun, hticked, hkeeps, fun hholds => ?_⟩
    obtain ⟨n', hn', hfill⟩ := hholds.fills g' hg' _ n hn
    rw [hn', Option.bind_some, decide_eq_true_eq] at hprofit
    obtain ⟨-, -, -, cents, -, hcents⟩ := hfill.profit _ hread (.inl rfl) _ hprofit
    rw [hresolved, Except.ok.injEq] at hcents
    rw [hcents] at hnone
    cases hnone
  · have htest : Fallible.check booksNothing
        (lotsPartSold.foldlM (fun g event =>
          if TickedEvent g event then refreshStep id g event
          else .error (.validation "refused")) Graph.empty) = true := by decide +kernel
    obtain ⟨g, hrun, hafter⟩ := Fallible.check_eq_true.mp htest
    have hbooks := hafter
    unfold booksNothing at hafter
    split at hafter
    · cases hafter
    rename_i n hn
    simp only [Bool.and_eq_true, decide_eq_true_eq] at hafter
    obtain ⟨⟨⟨hticked, hread⟩, hresolves⟩, hprofit⟩ := hafter
    obtain ⟨g', hg', hprofit⟩ := Fallible.check_eq_true.mp hprofit
    obtain ⟨resolved, hresolved, hcents⟩ := Fallible.check_eq_true.mp hresolves
    rw [of_decide_eq_true hcents] at hresolved
    refine ⟨g, .of_checked (.start rfl) hrun, hticked, hbooks, fun hholds => ?_⟩
    obtain ⟨n', hn', hfill⟩ := hholds.fills g' hg' _ n hn
    rw [hn', Option.bind_some, Option.isNone_iff_eq_none] at hprofit
    rw [hfill.earned _ hread (.inl rfl) rfl _ hresolved] at hprofit
    cases hprofit

end TradingAgents.Execution
