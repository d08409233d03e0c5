import TradingAgents.Orchestration.Placing
import TradingAgents.ProofKit.Runs

/-! A placement that crashed and is called again, and a placement that other agents watch: when the
second call leaves the child as an uninterrupted one would, and when no earlier stage finds a part
of the child as its work. -/

namespace TradingAgents.Orchestration

open Kernel ProofKit Pipeline Execution

/-! ### The second call -/

/-- All of `full` stands in `g`. -/
structure Contains (g full : PipelineGraph) : Prop where
  nodes : ∀ label key n, full.getNode label key = some n → g.getNode label key = some n
  edges : ∀ e ∈ full.edges, e ∈ g.edges

theorem Contains.refl (g : PipelineGraph) : Contains g g := ⟨fun _ _ _ h => h, fun _ h => h⟩

/-- Called again after a crash, whenever an uninterrupted call would go through, the resume leaves
what an uninterrupted call leaves and returns the same linked references. -/
def Recovers (g : PipelineGraph) (sourceRunId : String) (stage : ResumeStage)
    (crashed : PipelineGraph) : Prop :=
  ∀ again, (∃ r, resumeRun g sourceRunId stage again = .ok r) →
    ∃ placement after, resumeRun crashed sourceRunId stage again = .ok (placement, after) ∧
      ∃ once full complete, resumeRun g sourceRunId stage once = .ok (full, complete) ∧
        Contains after complete ∧ placement.linked = full.linked

section Crash

variable {g u crashed : PipelineGraph} {sourceRunId : String} {stage : ResumeStage}
  {source : PipelineNode} {nodes : Dict ChainKey PipelineNode} {resumedAt : String} {added : Linked}
  {n : Nat}

theorem getNode_child_none (h : Untouched g (childId sourceRunId stage)) :
    g.getNode runRequestLabel (runRequestKey (childId sourceRunId stage)) = none := by
  have hfree := h (some .runRequest)
  rw [nodeOf, cloneOf, Graph.mem_keys_iff] at hfree
  simpa using hfree

/-- A first call that goes through is a placement. -/
theorem resumeRun_fresh (hfree : Untouched g (childId sourceRunId stage))
    {placement : ResumePlacement}
    (h : resumeRun g sourceRunId stage resumedAt = .ok (placement, u)) :
    ∃ source nodes added, resumeSource g sourceRunId stage = .ok (source, nodes) ∧
      runSteps (placementSteps source sourceRunId stage nodes resumedAt) g = .ok (added, u) ∧
      placement = ⟨childId sourceRunId stage, runRequestKey (childId sourceRunId stage), stage,
        added.refs, true⟩ := by
  obtain ⟨⟨source, nodes⟩, hsource, h⟩ := Fallible.bind_eq_ok.mp h
  simp only [getNode_child_none hfree] at h
  obtain ⟨⟨added, t⟩, hrun, hret⟩ := Fallible.bind_eq_ok.mp h
  cases hret
  exact ⟨source, nodes, added, hsource, hrun, rfl⟩

theorem resumeRun_of_placement (hfree : Untouched g (childId sourceRunId stage))
    (hsource : resumeSource g sourceRunId stage = .ok (source, nodes))
    (hrun : runSteps (placementSteps source sourceRunId stage nodes resumedAt) g = .ok (added, u)) :
    resumeRun g sourceRunId stage resumedAt = .ok (⟨childId sourceRunId stage,
      runRequestKey (childId sourceRunId stage), stage, added.refs, true⟩, u) := by
  simp only [resumeRun, hsource, Fallible.ok_bind, getNode_child_none hfree, hrun,
    Fallible.pure_eq_ok]

/-- A call that finds the child writes nothing. -/
theorem resumeRun_existing {request : PipelineNode}
    (hrequest :
      g.getNode runRequestLabel (runRequestKey (childId sourceRunId stage)) = some request)
    {placement : ResumePlacement}
    (h : resumeRun g sourceRunId stage resumedAt = .ok (placement, u)) :
    u = g ∧ placement.linked = linkedRefs g (cloneOf (childId sourceRunId stage) .runRequest) := by
  obtain ⟨⟨source, nodes⟩, -, h⟩ := Fallible.bind_eq_ok.mp h
  simp only [hrequest] at h
  cases h
  exact ⟨rfl, by rw [g.named _ _ hrequest]; rfl⟩

/-- The walk of the source run reads the same beside the graph. -/
theorem resumeSource_aside (h : g.Aside u)
    (hs : resumeSource g sourceRunId stage = .ok (source, nodes)) :
    resumeSource u sourceRunId stage = .ok (source, nodes) := by
  obtain ⟨hsource, -, -⟩ := resumeSource_ok hs
  have hchildren : ∀ k ∈ g.nodes.keys, ∀ edge, children u k edge = children g k edge :=
    fun k hk edge => h.descendants_one hk [edge]
  have hwith : ∀ key node acc, g.nodes.get? node.nodeKey = some node →
      withArtifact u key node acc = withArtifact g key node acc := by
    intro key node acc hnode
    have hk : node.nodeKey ∈ g.nodes.keys := Dict.mem_keys_iff.mpr (by rw [hnode]; rfl)
    simp only [withArtifact, firstChild, hchildren _ hk]
  have hwalk : ∀ stages k acc, k ∈ g.nodes.keys →
      walkFrom u stages k acc = walkFrom g stages k acc := by
    intro stages
    induction stages with
    | nil => intro k acc _; rfl
    | cons first stages ih =>
      intro k acc hk
      simp only [walkFrom, firstChild, hchildren _ hk]
      split
      · rfl
      · rename_i child hchild
        have hstands := firstChild_stands hchild
        have hmem : child.nodeKey ∈ g.nodes.keys := Dict.mem_keys_iff.mpr (by rw [hstands]; rfl)
        rw [hwith _ _ _ hstands, ih _ _ hmem]
  have hmem : source.nodeKey ∈ g.nodes.keys := by
    rw [g.named _ _ hsource]; exact Graph.mem_keys_of_getNode hsource
  have hrequest : u.getNode runRequestLabel (runRequestKey sourceRunId) = some source :=
    (h.nodes _ (Graph.mem_keys_of_getNode hsource)).trans hsource
  have hchain : walkChain u sourceRunId = walkChain g sourceRunId := by
    simp only [walkChain, hrequest, hsource, positionSyncMarker, hchildren _ hmem, hwalk _ _ _ hmem]
  simpa only [resumeSource, hrequest, hsource, hchain] using hs

/-- A node that a placement writes stands in what it leaves. -/
theorem PlacementWrote.node_stands
    (hw : PlacementWrote g sourceRunId stage source nodes resumedAt added u)
    (h : Placeable g sourceRunId stage source nodes) {k : NodeKey}
    (hk : k ∈ placementNodes g (childId sourceRunId stage) nodes (requiredArtifacts stage)) :
    ∃ node, u.getNode k.1 k.2 = some node := by
  rw [← hw.adds.nodes] at hk
  obtain ⟨w, hmem, hnode⟩ := List.mem_filterMap.mp hk
  cases w with
  | link e => cases hnode
  | merge label key props =>
    cases hnode
    exact ⟨_, hw.node_eq h hmem⟩

/-- Each write of a placement adds a node or an edge that no other of its writes adds, and that
every other placement of the child adds too. -/
theorem PlacementWrote.write_missing
    (hw : PlacementWrote g sourceRunId stage source nodes resumedAt added u)
    (h : Placeable g sourceRunId stage source nodes) {early late : List (Write Document)}
    {w : Write Document} (hsplit : added.writes = early ++ w :: late)
    (hcrash : g.writeAll early = .ok crashed) {once : String} {added' : Linked}
    {complete : PipelineGraph}
    (hw' : PlacementWrote g sourceRunId stage source nodes once added' complete) :
    ¬ Contains crashed complete := by
  intro hcontains
  cases w with
  | merge label key props =>
    have hnode : (Write.merge label key props).node? = some (label, key) := rfl
    have hmem : (label, key) ∈ placementNodes g (childId sourceRunId stage) nodes
        (requiredArtifacts stage) := by
      rw [← hw.adds.nodes, hsplit]
      exact List.mem_filterMap.mpr ⟨_, by simp, hnode⟩
    have hnodup : (placementNodes g (childId sourceRunId stage) nodes
      (requiredArtifacts stage)).Nodup := placementNodes_nodup stage
    rw [← hw.adds.nodes, hsplit, List.filterMap_append, List.filterMap_cons_some hnode,
      List.nodup_append] at hnodup
    have hsame : crashed.getNode label key = g.getNode label key := by
      apply Graph.getNode_writeAll hcrash
      intro v hv heq
      exact hnodup.2.2 _ (List.mem_filterMap.mpr ⟨v, hv, heq⟩) _ List.mem_cons_self rfl
    obtain ⟨node, hstands⟩ := hw'.node_stands h hmem
    have hold := hcontains.nodes label key node hstands
    obtain ⟨name, -, hname⟩ := List.mem_map.mp ((placementNodes_names stage).subset hmem)
    apply h.untouched name
    rw [hname]
    exact Graph.mem_keys_of_getNode (hsame ▸ hold)
  | link e =>
    have hedge : (Write.link (δ := Document) e).edge? = some e := rfl
    have hmem : e ∈ placementEdges g (childId sourceRunId stage) source.nodeKey nodes
        (requiredArtifacts stage) := by
      rw [← hw.adds.edges, hsplit]
      exact List.mem_filterMap.mpr ⟨_, by simp, hedge⟩
    have hnodup : (placementEdges g (childId sourceRunId stage) source.nodeKey nodes
      (requiredArtifacts stage)).Nodup := placementEdges_nodup source.nodeKey stage
    rw [← hw.adds.edges, hsplit, List.filterMap_append, List.filterMap_cons_some hedge,
      List.nodup_append] at hnodup
    have hstands : e ∈ complete.edges := by
      rw [hw'.edges_eq h]; exact List.mem_append_right _ hmem
    rcases (Graph.mem_edges_writeAll hcrash).mp (hcontains.edges e hstands) with hold | hnew
    · exact h.edge_new hmem hold
    · exact hnodup.2.2 e hnew e List.mem_cons_self rfl

theorem writes_placeRequest {part : Linked}
    (h : placeRequest source sourceRunId stage resumedAt g = .ok part) :
    ∃ props, part.writes = [
      .merge runRequestLabel (runRequestKey (childId sourceRunId stage)) props,
      .link ⟨cloneOf (childId sourceRunId stage) .runRequest, source.nodeKey, resumesEdge⟩] := by
  obtain ⟨tickers, -, hret⟩ := Fallible.bind_eq_ok.mp h
  cases hret
  exact ⟨_, rfl⟩

/-- The child request stands from the first write on. -/
theorem PlacementWrote.request_first
    (hw : PlacementWrote g sourceRunId stage source nodes resumedAt added u)
    (h : Placeable g sourceRunId stage source nodes) (hn : n ≠ 0)
    (hcrash : g.writeAll (added.writes.take n) = .ok crashed) :
    ∃ request, crashed.getNode runRequestLabel (runRequestKey (childId sourceRunId stage)) =
      some request := by
  obtain ⟨part, hpart⟩ := hw.parts _ List.mem_cons_self
  obtain ⟨props, hwrites⟩ := writes_placeRequest hpart
  obtain ⟨m, rfl⟩ := Nat.exists_eq_succ_of_ne_zero hn
  have hhead := hw.writes
  rw [placementSteps, List.flatMap_cons, writesAt_eq hpart, hwrites] at hhead
  rw [hhead, List.cons_append, List.take_succ_cons] at hcrash
  obtain ⟨t, ht, hrest⟩ := Graph.writeAll_cons.mp hcrash
  have hstands := Graph.getNode_write_fresh ht (getNode_child_none h.untouched)
  obtain ⟨request, hrequest, -⟩ := (Graph.writeAll_extends hrest).nodes _ _ _ hstands
  exact ⟨request, hrequest⟩

/-- The second call repairs nothing: it recovers exactly the crash before the first write, and the
one after the last when the placement links no regime. -/
theorem recovers_iff (hfree : Untouched g (childId sourceRunId stage))
    (hsource : resumeSource g sourceRunId stage = .ok (source, nodes))
    (hrun : runSteps (placementSteps source sourceRunId stage nodes resumedAt) g = .ok (added, u))
    (hn : n ≤ added.writes.length)
    (hcrash : g.writeAll (added.writes.take n) = .ok crashed) :
    Recovers g sourceRunId stage crashed ↔ n = 0 ∨
      (n = added.writes.length ∧ regimeSource g nodes (requiredArtifacts stage) = none) := by
  have h := Placeable.of_source hfree hsource
  have hw := h.wrote hrun
  constructor
  · intro hrec
    by_cases hzero : n = 0
    · exact .inl hzero
    right
    obtain ⟨placement, after, hok, once, full, complete, hfull, hcontains, hlinked⟩ :=
      hrec resumedAt ⟨_, resumeRun_of_placement hfree hsource hrun⟩
    obtain ⟨request, hrequest⟩ := hw.request_first h hzero hcrash
    obtain ⟨rfl, hrefs⟩ := resumeRun_existing hrequest hok
    obtain ⟨source', nodes', added', hsource', hrun', hplaced⟩ := resumeRun_fresh hfree hfull
    cases hsource.symm.trans hsource'
    have hw' := h.wrote hrun'
    have hlen : n = added.writes.length := by
      by_contra hne
      have hlt : n < added.writes.length := Nat.lt_of_le_of_ne hn hne
      have hsplit : added.writes =
          added.writes.take n ++ added.writes[n] :: added.writes.drop (n + 1) := by
        rw [← List.drop_eq_getElem_cons hlt, List.take_append_drop]
      exact hw.write_missing h hsplit hcrash hw' hcontains
    refine ⟨hlen, ?_⟩
    rw [hlen, List.take_length] at hcrash
    cases hcrash.symm.trans hw.wrote
    rw [hrefs, hw.linkedRefs_eq h, hplaced, hw'.adds.refs] at hlinked
    cases hregime : regimeSource g nodes (requiredArtifacts stage) with
    | none => rfl
    | some regime => simp [hregime] at hlinked
  · rintro (rfl | ⟨rfl, hregime⟩) again ⟨⟨full, complete⟩, hfull⟩
    · cases hcrash
      exact ⟨full, complete, hfull, again, full, complete, hfull, .refl _, rfl⟩
    · rw [List.take_length] at hcrash
      cases hcrash.symm.trans hw.wrote
      obtain ⟨tickers, request, -, hrequest, hkey, -⟩ := hw.request_stands h
      have hagain : resumeRun u sourceRunId stage again =
          .ok (⟨childId sourceRunId stage, runRequestKey (childId sourceRunId stage), stage,
            linkedRefs u request.nodeKey, false⟩, u) := by
        simp only [resumeRun, resumeSource_aside hw.aside hsource, Fallible.ok_bind, hrequest,
          Fallible.pure_eq_ok]
      refine ⟨_, u, hagain, resumedAt, _, u, resumeRun_of_placement hfree hsource hrun, .refl _, ?_⟩
      rw [hkey, hw.linkedRefs_eq h, hw.adds.refs, hregime]
      simp

end Crash

/-! ### The pollers of earlier stages -/

/-- A placement in the graph that the other agents see. -/
structure Placing where
  graph : PipelineGraph
  rest : Remaining

inductive PlacingEvent where
  | next
  | elsewhere (w : Write Document)

/-- One write or read of the placement, or a write of another agent. -/
def Placing.step (p : Placing) : PlacingEvent → Except HandlerError Placing
  | .next => do
    let (g, rest) ← p.rest.next p.graph
    pure ⟨g, rest⟩
  | .elsewhere w => do
    let g ← liftGraph (p.graph.write w)
    pure { p with graph := g }

/-- At every state of the placement, among any other writes and whether or not it comes to its end,
no stage before the one it resumes from finds the child or one of its clones. -/
def Unseen (g : PipelineGraph) (source : PipelineNode) (sourceRunId : String) (stage : ResumeStage)
    (nodes : Dict ChainKey PipelineNode) (resumedAt : String) : Prop :=
  ∀ p, Reach Placing.step (fun _ _ => True)
      (· = ⟨g, [], placementSteps source sourceRunId stage nodes resumedAt⟩) p →
    ∀ early : ResumeStage, early.index < stage.index → ∀ fromIso settings now found,
      stagePoll fromIso settings p.graph now early = .ok found →
        ∀ node ∈ found, ∀ name, node.nodeKey ≠ nodeOf (childId sourceRunId stage) name

section Pollers

variable {g u : PipelineGraph} {sourceRunId : String} {stage : ResumeStage} {source : PipelineNode}
  {nodes : Dict ChainKey PipelineNode} {resumedAt : String} {added : Linked}

/-- With its first write the child is work of the position sync. -/
theorem request_pending (h : Placeable g sourceRunId stage source nodes) {t : PipelineGraph}
    {props : Props Document}
    (ht : g.write (.merge runRequestLabel (runRequestKey (childId sourceRunId stage)) props) =
      .ok t) :
    ⟨runRequestLabel, runRequestKey (childId sourceRunId stage), props, 1⟩ ∈
      findPendingPositionSync t := by
  rw [findPendingPositionSync, Graph.mem_pendingNodes]
  refine ⟨Graph.getNode_write_fresh ht (getNode_child_none h.untouched), rfl, fun e he _ hp => ?_⟩
  rw [Graph.edges_write ht] at he
  have hold := (g.closed e he).1
  rw [hp] at hold
  exact h.untouched (some .runRequest) hold

theorem unseen_iff (h : Placeable g sourceRunId stage source nodes)
    (hrun : runSteps (placementSteps source sourceRunId stage nodes resumedAt) g = .ok (added, u)) :
    Unseen g source sourceRunId stage nodes resumedAt ↔ stage = .positionSync := by
  constructor
  · intro hunseen
    by_contra hne
    have hearly : ResumeStage.positionSync.index < stage.index := by
      revert hne
      cases stage <;> decide
    have hw := h.wrote hrun
    obtain ⟨part, hpart⟩ := hw.parts _ List.mem_cons_self
    obtain ⟨props, hpartWrites⟩ := writes_placeRequest hpart
    have hall := hw.wrote
    rw [hw.writes, placementSteps, List.flatMap_cons, writesAt_eq hpart, hpartWrites] at hall
    obtain ⟨t, ht, -⟩ := Graph.writeAll_cons.mp hall
    -- the placement reads its request, and writes the first of its two writes
    have hread : Placing.step
      ⟨g, [], placementSteps source sourceRunId stage nodes resumedAt⟩ .next =
        .ok ⟨g, part.writes, (placementSteps source sourceRunId stage nodes resumedAt).tail⟩ := by
      simp only [Placing.step, Remaining.next, placementSteps, hpart, Fallible.ok_bind,
        Fallible.pure_eq_ok, List.tail_cons]
    have hwrote : Placing.step
        ⟨g, part.writes, (placementSteps source sourceRunId stage nodes resumedAt).tail⟩ .next =
          .ok ⟨t, part.writes.tail,
            (placementSteps source sourceRunId stage nodes resumedAt).tail⟩ := by
      simp only [Placing.step, Remaining.next, hpartWrites, ht, liftGraph, Fallible.ok_bind,
        Fallible.pure_eq_ok, List.tail_cons]
    exact hunseen _ (.step .next (.step .next (.start rfl) trivial hread) trivial hwrote)
      .positionSync hearly (fun _ => none) {} 0 _ rfl _ (request_pending h ht)
        (some .runRequest) rfl
  · rintro rfl p - early hearly
    exact absurd hearly (Nat.not_lt_zero _)

end Pollers

/-- A crashed placement is repaired exactly when it had written nothing, or everything with no
regime among it, and it is hidden from the earlier stages exactly when there is none. -/
theorem resume_run_safe_iff {g u crashed : PipelineGraph} {sourceRunId : String}
    {stage : ResumeStage} {source : PipelineNode} {nodes : Dict ChainKey PipelineNode}
    {resumedAt : String} {added : Linked} {n : Nat}
    (hfree : Untouched g (childId sourceRunId stage))
    (hsource : resumeSource g sourceRunId stage = .ok (source, nodes))
    (hrun : runSteps (placementSteps source sourceRunId stage nodes resumedAt) g = .ok (added, u))
    (hn : n ≤ added.writes.length)
    (hcrash : g.writeAll (added.writes.take n) = .ok crashed) :
    (Recovers g sourceRunId stage crashed ↔ n = 0 ∨
      (n = added.writes.length ∧ regimeSource g nodes (requiredArtifacts stage) = none)) ∧
    (Unseen g source sourceRunId stage nodes resumedAt ↔ stage = .positionSync) :=
  ⟨recovers_iff hfree hsource hrun hn hcrash, unseen_iff (.of_source hfree hsource) hrun⟩

/-! ### A run that has synced its positions -/

def syncedRequest : PipelineNode where
  label := "RunRequest"
  key := "run-request:acme"
  props := .ofList [("run_id", .str "acme"), ("tickers", .list [.str "AAPL"]),
    ("requested_at", .str "2026-08-07T05:30:00+00:00")]

def syncedMarker : PipelineNode where
  label := "MonitorRun"
  key := "position-sync:acme"
  props := .ofList [("source_run_id", .str "acme"), ("phase", .str "sync"),
    ("position_book_status", .str "fresh")]

def syncedGraph : PipelineGraph :=
  ((Graph.empty.put syncedRequest).put syncedMarker).link
    ⟨syncedRequest.nodeKey, syncedMarker.nodeKey, "POSITION_SYNCED_BY"⟩ (by decide) (by decide)

/-- The writes of a resume of the run from its provider stage, and the graph that the first `n` of
them leave. -/
def syncedCrash (n : Nat) :
    Except HandlerError (PipelineNode × Dict ChainKey PipelineNode × Linked × PipelineGraph ×
      PipelineGraph) := do
  let (source, nodes) ← resumeSource syncedGraph "acme" .provider
  let (added, u) ← runSteps (placementSteps source "acme" .provider nodes "t1") syncedGraph
  let crashed ← liftGraph (syncedGraph.writeAll (added.writes.take n))
  pure (source, nodes, added, u, crashed)

theorem syncedGraph_untouched : Untouched syncedGraph (childId "acme" .provider) := by
  rintro (_ | key)
  · decide
  · cases key <;> decide

theorem syncedCrash_ok {n : Nat} {source : PipelineNode} {nodes : Dict ChainKey PipelineNode}
    {added : Linked} {u crashed : PipelineGraph}
    (h : syncedCrash n = .ok (source, nodes, added, u, crashed)) :
    resumeSource syncedGraph "acme" .provider = .ok (source, nodes) ∧
      runSteps (placementSteps source "acme" .provider nodes "t1") syncedGraph = .ok (added, u) ∧
      syncedGraph.writeAll (added.writes.take n) = .ok crashed := by
  obtain ⟨⟨source', nodes'⟩, hsource, h⟩ := Fallible.bind_eq_ok.mp h
  obtain ⟨⟨added', u'⟩, hrun, h⟩ := Fallible.bind_eq_ok.mp h
  obtain ⟨crashed', hcrash, h⟩ := Fallible.bind_eq_ok.mp h
  cases h
  exact ⟨hsource, hrun, liftGraph_eq_ok.mp hcrash⟩

theorem resume_run_safe_iff_acme : ∃ crashed, Recovers syncedGraph "acme" .provider crashed ∧
    ¬ Unseen syncedGraph syncedRequest "acme" .provider (walkChain syncedGraph "acme") "t1" := by
  have htest : Fallible.check (fun r => decide (r.2.2.1.writes.length = 5))
    (syncedCrash 5) = true := by
    decide +kernel
  obtain ⟨⟨source, nodes, added, u, crashed⟩, hok, hcount⟩ := Fallible.check_eq_true.mp htest
  obtain ⟨hsource, hrun, hcrash⟩ := syncedCrash_ok hok
  have hlen : added.writes.length = 5 := of_decide_eq_true hcount
  obtain ⟨hrecovers, hunseen⟩ :=
    resume_run_safe_iff syncedGraph_untouched hsource hrun hlen.ge hcrash
  obtain ⟨hrequest, rfl, -⟩ := resumeSource_ok hsource
  cases Option.some.inj ((show syncedGraph.getNode _ _ = some syncedRequest from rfl).symm.trans
    hrequest)
  refine ⟨crashed, hrecovers.mpr (.inr ⟨hlen.symm, ?_⟩), fun h => ?_⟩
  · rw [regimeSource, if_neg (by decide)]
  · exact absurd (hunseen.mp h) (by decide)

/-- A resume that crashed after writing the child request is returned as placed, without its sync
marker. -/
theorem crashed_resume_stays_broken : ¬ ∀ (g u crashed : PipelineGraph) (sourceRunId : String)
    (stage : ResumeStage) (source : PipelineNode) (nodes : Dict ChainKey PipelineNode)
    (resumedAt : String) (added : Linked) (n : Nat),
    Untouched g (childId sourceRunId stage) →
    resumeSource g sourceRunId stage = .ok (source, nodes) →
    runSteps (placementSteps source sourceRunId stage nodes resumedAt) g = .ok (added, u) →
    n ≤ added.writes.length → g.writeAll (added.writes.take n) = .ok crashed →
    Recovers g sourceRunId stage crashed ∧ Unseen g source sourceRunId stage nodes resumedAt := by
  intro hall
  have htest : Fallible.check (fun r => decide (r.2.2.1.writes.length = 5))
    (syncedCrash 1) = true := by
    decide +kernel
  obtain ⟨⟨source, nodes, added, u, crashed⟩, hok, hcount⟩ := Fallible.check_eq_true.mp htest
  obtain ⟨hsource, hrun, hcrash⟩ := syncedCrash_ok hok
  have hlen : added.writes.length = 5 := of_decide_eq_true hcount
  have hn : 1 ≤ added.writes.length := by rw [hlen]; decide
  have hrec := (hall _ _ _ _ _ _ _ _ _ _ syncedGraph_untouched hsource hrun hn hcrash).1
  rw [recovers_iff syncedGraph_untouched hsource hrun hn hcrash, hlen] at hrec
  rcases hrec with h | ⟨h, -⟩ <;> exact absurd h (by decide)

end TradingAgents.Orchestration
