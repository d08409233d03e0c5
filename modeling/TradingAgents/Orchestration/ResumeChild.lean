import TradingAgents.Orchestration.ResumeWrites

/-! The child that a placement leaves: its edges come after those of the source graph, one for each
node and edge type, its clones carry the properties of their sources, and a reader that walks from
the child request finds the clones in the order of the stages. -/

namespace TradingAgents.Orchestration

open Kernel ProofKit

/-! ### Distinct edges -/

/-- The start and the type of an edge. -/
def edgeTag (e : Edge) : NodeKey × String := (e.parent, e.edgeType)

/-- The starts and types of the edges that an artifact may add. -/
def artifactTags (a : ResumeArtifact) : List (Option ChainKey × String) :=
  [(some a.parent, a.edge), (some a.chainKey, linkedFromEdge)] ++
    (if a.chainKey = .scanRun then [(some a.chainKey, derivedFromEdge)] else []) ++
    (sideBranchEdge a.chainKey).toList.map fun edge => (some a.chainKey, edge)

/-- The starts and types of the edges that a placement may add. -/
def childTags (stage : ResumeStage) : List (Option ChainKey × String) :=
  (some .runRequest, resumesEdge) :: ((requiredArtifacts stage).flatMap artifactTags ++
    [(none, linkedFromEdge)])

theorem childTags_nodup (stage : ResumeStage) : (childTags stage).Nodup := by
  cases stage <;> decide

def nameTag (child : String) (t : Option ChainKey × String) : NodeKey × String :=
  (nodeOf child t.1, t.2)

theorem nameTag_injective (child : String) : Function.Injective (nameTag child) := by
  intro a b h
  obtain ⟨hn, ht⟩ := Prod.mk.inj h
  exact Prod.ext (nodeOf_injective child hn) ht

section Tags

variable {g : PipelineGraph} {child : String} {nodes : Dict ChainKey PipelineNode}

theorem sideEdges_tags {a : ResumeArtifact} (ha : a ∈ artifacts) (source : NodeKey) :
    ((sideEdges g child a source).map edgeTag).Sublist
      (((sideBranchEdge a.chainKey).toList.map fun edge => (some a.chainKey, edge)).map
        (nameTag child)) := by
  unfold sideEdges
  cases sideBranchEdge a.chainKey with
  | none => simp
  | some edge =>
    simp only
    split
    · simp
    · simp [edgeTag, nameTag, nodeOf, cloneOf_artifact child ha]

theorem artifactWriteEdges_tags {a : ResumeArtifact} (ha : a ∈ artifacts) :
    ((artifactWriteEdges g child nodes a).map edgeTag).Sublist
      ((artifactTags a).map (nameTag child)) := by
  unfold artifactWriteEdges
  split
  · simp
  · rename_i source _
    rw [List.map_append, artifactTags, List.map_append]
    refine List.Sublist.append ?_ (sideEdges_tags ha source.nodeKey)
    simp only [artifactEdges, cloneOf_artifact child ha]
    split <;> exact List.Sublist.refl _

theorem placementEdges_tags (source : NodeKey) (stage : ResumeStage) :
    ((placementEdges g child source nodes (requiredArtifacts stage)).map edgeTag).Sublist
      ((childTags stage).map (nameTag child)) := by
  rw [placementEdges, childTags, List.map_cons, List.map_cons, List.map_append, List.map_append,
    List.map_flatMap, List.map_flatMap]
  refine List.Sublist.cons_cons _ (List.Sublist.append ?_ ?_)
  · exact List.Sublist.flatMap_right _ fun a ha =>
      artifactWriteEdges_tags (mem_artifacts_of_required ha)
  · cases regimeSource g nodes (requiredArtifacts stage) with
    | none => simp
    | some regime => exact List.Sublist.refl _

theorem placementEdges_nodup (source : NodeKey) (stage : ResumeStage) :
    (placementEdges g child source nodes (requiredArtifacts stage)).Nodup := by
  refine List.Nodup.of_map edgeTag ((placementEdges_tags source stage).nodup ?_)
  exact (childTags_nodup stage).map (nameTag_injective child)

/-- Every edge of a placement starts at a node of the child. -/
theorem placementEdges_parent {source : NodeKey} {stage : ResumeStage} {e : Edge}
    (h : e ∈ placementEdges g child source nodes (requiredArtifacts stage)) :
    ∃ name, (name, e.edgeType) ∈ childTags stage ∧ e.parent = nodeOf child name := by
  have hmem := (placementEdges_tags source stage).subset (List.mem_map_of_mem h)
  obtain ⟨⟨name, edge⟩, hin, htag⟩ := List.mem_map.mp hmem
  obtain ⟨hp, ht⟩ := Prod.mk.inj htag
  exact ⟨name, by rw [← ht]; exact hin, hp.symm⟩

/-- The nodes that a placement may write. -/
def childNames (stage : ResumeStage) : List (Option ChainKey) :=
  some .runRequest :: ((requiredArtifacts stage).map (fun a => some a.chainKey) ++ [none])

theorem childNames_nodup (stage : ResumeStage) : (childNames stage).Nodup := by
  cases stage <;> decide

theorem placementNodes_names (stage : ResumeStage) :
    (placementNodes g child nodes (requiredArtifacts stage)).Sublist
      ((childNames stage).map (nodeOf child)) := by
  rw [placementNodes, childNames, List.map_cons, List.map_append, List.map_map]
  refine List.Sublist.cons_cons _ (List.Sublist.append (List.Sublist.refl _) ?_)
  cases regimeSource g nodes (requiredArtifacts stage) with
  | none => simp
  | some regime => exact List.Sublist.refl _

theorem placementNodes_nodup (stage : ResumeStage) :
    (placementNodes g child nodes (requiredArtifacts stage)).Nodup :=
  (placementNodes_names stage).nodup ((childNames_nodup stage).map (nodeOf_injective child))

end Tags

section Child

variable {g u : PipelineGraph} {sourceRunId : String} {stage : ResumeStage} {source : PipelineNode}
  {nodes : Dict ChainKey PipelineNode} {resumedAt : String} {added : Linked}

theorem Placeable.edge_new (h : Placeable g sourceRunId stage source nodes) {e : Edge}
    (he : e ∈ placementEdges g (childId sourceRunId stage) source.nodeKey nodes
      (requiredArtifacts stage)) : e ∉ g.edges := by
  intro hmem
  obtain ⟨name, -, hp⟩ := placementEdges_parent he
  exact h.untouched name (hp ▸ (g.closed e hmem).1)

/-- The edges of a placement come after those of the source graph. -/
theorem PlacementWrote.edges_eq
    (hw : PlacementWrote g sourceRunId stage source nodes resumedAt added u)
    (h : Placeable g sourceRunId stage source nodes) :
    u.edges = g.edges ++ placementEdges g (childId sourceRunId stage) source.nodeKey nodes
      (requiredArtifacts stage) := by
  have hedges := Graph.edges_writeAll hw.wrote
    (by rw [hw.adds.edges]; exact placementEdges_nodup _ _)
    (by rw [hw.adds.edges]; exact fun e he => h.edge_new he)
  rw [hedges, hw.adds.edges]

/-- Every node a placement wrote stands as it was written. -/
theorem PlacementWrote.node_eq
    (hw : PlacementWrote g sourceRunId stage source nodes resumedAt added u)
    (h : Placeable g sourceRunId stage source nodes) {label key : String} {props : Props Document}
    (hmem : .merge label key props ∈ added.writes) :
    u.getNode label key = some ⟨label, key, props, 1⟩ := by
  refine Graph.getNode_writeAll_of_mem hw.wrote
    (by rw [hw.adds.nodes]; exact placementNodes_nodup _)
    ?_ hmem
  have hnode : (label, key) ∈ placementNodes g (childId sourceRunId stage) nodes
      (requiredArtifacts stage) := by
    rw [← hw.adds.nodes]
    exact List.mem_filterMap.mpr ⟨_, hmem, rfl⟩
  obtain ⟨name, -, hname⟩ := List.mem_map.mp ((placementNodes_names stage).subset hnode)
  have hfree := h.untouched name
  rw [hname, Graph.mem_keys_iff] at hfree
  simpa using hfree

/-- The child of an edge that a placement added is the first child by its type. -/
theorem PlacementWrote.firstChild_eq
    (hw : PlacementWrote g sourceRunId stage source nodes resumedAt added u)
    (h : Placeable g sourceRunId stage source nodes) {e : Edge}
    (he : e ∈ placementEdges g (childId sourceRunId stage) source.nodeKey nodes
      (requiredArtifacts stage)) (hne : e.child ≠ e.parent) :
    firstChild u e.parent e.edgeType = u.nodes.get? e.child := by
  have hall : ∀ e' ∈ u.edges, e'.parent = e.parent → e'.edgeType = e.edgeType → e' = e := by
    intro e' he' hp ht
    rw [hw.edges_eq h] at he'
    rcases List.mem_append.mp he' with hold | hnew
    · obtain ⟨name, -, hname⟩ := placementEdges_parent he
      exact (h.untouched name (hname ▸ hp ▸ (g.closed e' hold).1)).elim
    · refine List.inj_on_of_nodup_map ((placementEdges_tags source.nodeKey stage).nodup
        ((childTags_nodup stage).map (nameTag_injective _))) hnew he ?_
      rw [edgeTag, edgeTag, hp, ht]
  have hmem : e ∈ u.edges := by rw [hw.edges_eq h]; exact List.mem_append_right _ he
  rw [firstChild, children, Graph.head?_descendants_one]
  cases hf : u.edges.find? (Graph.childEdge e.parent [e.edgeType]) with
  | none =>
    have := List.find?_eq_none.mp hf e hmem
    simp [Graph.childEdge, hne] at this
  | some e' =>
    have hprop := List.find?_some hf
    simp only [Graph.childEdge, Bool.and_eq_true, decide_eq_true_eq, List.mem_singleton] at hprop
    rw [hall e' (List.mem_of_find?_eq_some hf) hprop.1.1 hprop.1.2]
    rfl

/-- A node of the child has no edge of a type that no artifact gives it. -/
theorem PlacementWrote.no_edge
    (hw : PlacementWrote g sourceRunId stage source nodes resumedAt added u)
    (h : Placeable g sourceRunId stage source nodes) {name : Option ChainKey} {edge : String}
    (hnone : (name, edge) ∉ childTags stage) {e : Edge} (he : e ∈ u.edges)
    (ht : e.edgeType = edge) : e.parent ≠ nodeOf (childId sourceRunId stage) name := by
  intro hp
  rw [hw.edges_eq h] at he
  rcases List.mem_append.mp he with hold | hnew
  · exact h.untouched name (hp ▸ (g.closed e hold).1)
  · obtain ⟨name', hin, hname'⟩ := placementEdges_parent hnew
    rw [← nodeOf_injective _ (hp.symm.trans hname'), ht] at hin
    exact hnone hin

end Child

/-! ### The walk from the child request -/

/-- The edge of an artifact's clone from its parent. -/
def mainEdge (child : String) (a : ResumeArtifact) : Edge :=
  ⟨cloneOf child a.parent, cloneOf child a.chainKey, a.edge⟩

def artifactTypes : List String := artifacts.map ResumeArtifact.edge

/-- `sweep` on the names of a child's artifacts. -/
def nameSweep (frontier : List ChainKey) : List ResumeArtifact → List ChainKey → List ChainKey
  | [], _ => []
  | a :: as, seen =>
    if a.parent ∈ frontier ∧ a.chainKey ∉ seen then
      a.chainKey :: nameSweep frontier as (a.chainKey :: seen)
    else nameSweep frontier as seen

/-- `walkKeys` on the names of a child's artifacts. -/
def nameWalk (required : List ResumeArtifact) : Nat → List ChainKey → List ChainKey → List ChainKey
  | 0, _, _ => []
  | depth + 1, frontier, seen =>
    match nameSweep frontier required seen with
    | [] => []
    | found@(_ :: _) => found ++ nameWalk required depth found (found ++ seen)

theorem nameWalk_required (stage : ResumeStage) :
    nameWalk (requiredArtifacts stage) 8 [.runRequest] [.runRequest] =
      (requiredArtifacts stage).map ResumeArtifact.chainKey := by
  cases stage <;> rfl

theorem cloneOf_injective (child : String) : Function.Injective (cloneOf child) :=
  fun _ _ h => Option.some.inj (nodeOf_injective child (show nodeOf child (some _) = _ from h))

theorem sweep_mainEdges (child : String) {required : List ResumeArtifact}
    (hr : ∀ a ∈ required, a ∈ artifacts) (frontier seen : List ChainKey) :
    Graph.sweep (some artifactTypes) true (frontier.map (cloneOf child))
        (required.map (mainEdge child)) (seen.map (cloneOf child)) =
      (nameSweep frontier required seen).map (cloneOf child) := by
  induction required generalizing seen with
  | nil => rfl
  | cons a required ih =>
    have htail := ih fun b hb => hr b (List.mem_cons_of_mem _ hb)
    have htype : a.edge ∈ artifactTypes := List.mem_map_of_mem (hr a List.mem_cons_self)
    simp only [List.map_cons, Graph.sweep, nameSweep, mainEdge, Graph.edgeAllowed, if_true,
      List.mem_map_of_injective (cloneOf_injective child), htype, decide_true, true_and]
    split
    · rw [List.map_cons, ← htail, List.map_cons]
    · exact htail seen

section Walk

variable {g u : PipelineGraph} {sourceRunId : String} {stage : ResumeStage} {source : PipelineNode}
  {nodes : Dict ChainKey PipelineNode} {resumedAt : String} {added : Linked}

/-- The edges of one artifact that lead from stage to stage. -/
theorem filter_artifactWriteEdges {child : String} {a : ResumeArtifact} (ha : a ∈ artifacts)
    (hsome : (nodes.get? a.chainKey).isSome) :
    (artifactWriteEdges g child nodes a).filter (fun e => decide (e.edgeType ∈ artifactTypes)) =
      [mainEdge child a] := by
  obtain ⟨src, hsrc⟩ := Option.isSome_iff_exists.mp hsome
  have htype : a.edge ∈ artifactTypes := List.mem_map_of_mem ha
  have hside : (sideEdges g child a src.nodeKey).filter
      (fun e => decide (e.edgeType ∈ artifactTypes)) = [] := by
    unfold sideEdges
    split
    · rfl
    · rename_i edge hedge
      have hother : edge ∉ artifactTypes := by
        revert hedge
        cases a.chainKey <;> simp [sideBranchEdge] <;> rintro rfl <;> decide
      split
      · rfl
      · simp [hother]
  have hlinked : linkedFromEdge ∉ artifactTypes := by decide
  have hderived : derivedFromEdge ∉ artifactTypes := by decide
  simp only [artifactWriteEdges, hsrc, List.filter_append, hside, List.append_nil, artifactEdges,
    cloneOf_artifact child ha]
  split <;> simp [htype, hlinked, hderived, mainEdge]

theorem Placeable.filter_edges (h : Placeable g sourceRunId stage source nodes) :
    (placementEdges g (childId sourceRunId stage) source.nodeKey nodes
      (requiredArtifacts stage)).filter (fun e => decide (e.edgeType ∈ artifactTypes)) =
      (requiredArtifacts stage).map (mainEdge (childId sourceRunId stage)) := by
  have hresumes : resumesEdge ∉ artifactTypes := by decide
  have hlinked : linkedFromEdge ∉ artifactTypes := by decide
  have hregime : ((regimeSource g nodes (requiredArtifacts stage)).toList.map fun regime =>
      (⟨regimeOf (childId sourceRunId stage), regime.nodeKey, linkedFromEdge⟩ : Edge)).filter
        (fun e => decide (e.edgeType ∈ artifactTypes)) = [] := by
    cases regimeSource g nodes (requiredArtifacts stage) <;> simp [hlinked]
  rw [placementEdges, List.filter_cons_of_neg (by simp [hresumes]), List.filter_append, hregime,
    List.append_nil, List.filter_flatMap, List.map_eq_flatMap]
  refine List.flatMap_congr fun a ha => ?_
  exact filter_artifactWriteEdges (mem_artifacts_of_required ha) (h.complete a ha)

/-- A walk from nodes of the child follows the clones. -/
theorem PlacementWrote.walkKeys_eq
    (hw : PlacementWrote g sourceRunId stage source nodes resumedAt added u)
    (h : Placeable g sourceRunId stage source nodes) (depth : Nat) (frontier seen : List ChainKey) :
    u.walkKeys (some artifactTypes) true depth
        (frontier.map (cloneOf (childId sourceRunId stage)))
        (seen.map (cloneOf (childId sourceRunId stage))) =
      (nameWalk (requiredArtifacts stage) depth frontier seen).map
        (cloneOf (childId sourceRunId stage)) := by
  have hfilter : u.edges.filter (fun e => decide (e.edgeType ∈ artifactTypes) &&
      decide (e.parent ∉ g.nodes.keys)) =
        (requiredArtifacts stage).map (mainEdge (childId sourceRunId stage)) := by
    have hold : g.edges.filter (fun e => decide (e.edgeType ∈ artifactTypes) &&
        decide (e.parent ∉ g.nodes.keys)) = [] := by
      rw [List.filter_eq_nil_iff]
      intro e he
      simp [(g.closed e he).1]
    rw [hw.edges_eq h, List.filter_append, hold, List.nil_append, ← h.filter_edges]
    refine List.filter_congr fun e he => ?_
    obtain ⟨name, -, hp⟩ := placementEdges_parent he
    simp [hp, h.untouched name]
  have hsweep : ∀ frontier seen : List ChainKey,
      Graph.sweep (some artifactTypes) true (frontier.map (cloneOf (childId sourceRunId stage)))
        u.edges (seen.map (cloneOf (childId sourceRunId stage))) =
      (nameSweep frontier (requiredArtifacts stage) seen).map
        (cloneOf (childId sourceRunId stage)) := by
    intro frontier seen
    rw [← sweep_mainEdges _ (fun a ha => mem_artifacts_of_required ha), ← hfilter]
    refine Graph.sweep_filter (fun e _ hp ht => ?_) _
    obtain ⟨key, -, hkey⟩ := List.mem_map.mp hp
    have hfree := h.untouched (some key)
    rw [nodeOf, hkey] at hfree
    simp [ht, hfree]
  induction depth generalizing frontier seen with
  | zero => rfl
  | succ depth ih =>
    rw [Graph.walkKeys, hsweep, nameWalk]
    cases hn : nameSweep frontier (requiredArtifacts stage) seen with
    | nil => rfl
    | cons key keys =>
      have hrest := ih (key :: keys) (key :: keys ++ seen)
      simp only [List.map_cons, List.map_append, List.cons_append] at hrest ⊢
      rw [hrest]

/-- The node of a clone, and the source it was cloned from. -/
theorem PlacementWrote.clone_stands
    (hw : PlacementWrote g sourceRunId stage source nodes resumedAt added u)
    (h : Placeable g sourceRunId stage source nodes) {a : ResumeArtifact}
    (ha : a ∈ requiredArtifacts stage) :
    ∃ src props, nodes.get? a.chainKey = some src ∧
      linkedProps a.chainKey src (childId sourceRunId stage) = .ok props ∧
      u.nodes.get? (cloneOf (childId sourceRunId stage) a.chainKey) =
        some ⟨a.label, cloneKey (childId sourceRunId stage) a.chainKey, props, 1⟩ ∧
      firstChild u (cloneOf (childId sourceRunId stage) a.chainKey) linkedFromEdge = some src := by
  obtain ⟨src, hsrc⟩ := Option.isSome_iff_exists.mp (h.complete a ha)
  have hin : linkArtifact (childId sourceRunId stage) a src ∈
      placementSteps source sourceRunId stage nodes resumedAt := by
    refine List.mem_cons_of_mem _ (List.mem_append_left _ (List.mem_flatMap.mpr ⟨a, ha, ?_⟩))
    simp [artifactSteps, hsrc]
  obtain ⟨part, hpart⟩ := hw.parts _ hin
  obtain ⟨props, hprops, -, hwrites⟩ := edges_linkArtifact hpart
  have hclone := cloneOf_artifact (childId sourceRunId stage) (mem_artifacts_of_required ha)
  refine ⟨src, props, hsrc, hprops, ?_, ?_⟩
  · rw [← hclone]
    refine hw.node_eq h ?_
    rw [hw.writes]
    refine List.mem_flatMap.mpr ⟨_, hin, ?_⟩
    rw [writesAt_eq hpart, hwrites]
    exact List.mem_cons_self
  · have hstands := h.standing _ _ hsrc
    have hmem : src.nodeKey ∈ g.nodes.keys := Dict.mem_keys_iff.mpr (by rw [hstands]; rfl)
    have hedge : (⟨cloneOf (childId sourceRunId stage) a.chainKey, src.nodeKey, linkedFromEdge⟩ :
        Edge) ∈ placementEdges g (childId sourceRunId stage) source.nodeKey nodes
          (requiredArtifacts stage) := by
      refine List.mem_cons_of_mem _ (List.mem_append_left _ (List.mem_flatMap.mpr ⟨a, ha, ?_⟩))
      simp [artifactWriteEdges, hsrc, artifactEdges, hclone]
    have hne : src.nodeKey ≠ cloneOf (childId sourceRunId stage) a.chainKey := fun heq =>
      h.untouched (some a.chainKey) (show cloneOf _ _ ∈ _ from heq ▸ hmem)
    exact (hw.firstChild_eq h hedge hne).trans ((hw.aside.nodes _ hmem).trans hstands)

/-- The child request, and its link to the source request. -/
theorem PlacementWrote.request_stands
    (hw : PlacementWrote g sourceRunId stage source nodes resumedAt added u)
    (h : Placeable g sourceRunId stage source nodes) :
    ∃ tickers request, listOf ((source.props.get? "tickers").getD (.list [])) = .ok tickers ∧
      u.getNode runRequestLabel (runRequestKey (childId sourceRunId stage)) = some request ∧
      request.nodeKey = cloneOf (childId sourceRunId stage) .runRequest ∧
      request.props = .ofList [
        ("run_id", .str (childId sourceRunId stage)),
        ("tickers", tickers),
        ("requested_at", source.get "requested_at"),
        ("resume_from", .str stage.value),
        ("source_run_id", .str sourceRunId),
        ("resumed_at", .str resumedAt)] := by
  obtain ⟨part, hpart⟩ := hw.parts _ List.mem_cons_self
  have hwrites := writesAt_eq hpart
  obtain ⟨tickers, htickers, hret⟩ := Fallible.bind_eq_ok.mp hpart
  cases hret
  refine ⟨tickers, _, htickers, hw.node_eq h ?_, rfl, rfl⟩
  rw [hw.writes, placementSteps, List.flatMap_cons, hwrites]
  exact List.mem_append_left _ List.mem_cons_self

/-- A second call reads the references of the artifacts off the child, in the order of the stages,
and never that of the regime. -/
theorem PlacementWrote.linkedRefs_eq
    (hw : PlacementWrote g sourceRunId stage source nodes resumedAt added u)
    (h : Placeable g sourceRunId stage source nodes) :
    linkedRefs u (cloneOf (childId sourceRunId stage) .runRequest) =
      requiredRefs nodes (requiredArtifacts stage) := by
  have hwalk := hw.walkKeys_eq h 8 [.runRequest] [.runRequest]
  rw [nameWalk_required] at hwalk
  simp only [List.map_cons, List.map_nil, List.map_map] at hwalk
  rw [linkedRefs, Graph.descendants, Graph.walk, show artifacts.map ResumeArtifact.edge =
    artifactTypes from rfl, hwalk, List.filterMap_map, List.filterMap_filterMap, requiredRefs]
  refine List.filterMap_congr fun a ha => ?_
  obtain ⟨src, props, hsrc, -, hstands, hfirst⟩ := hw.clone_stands h ha
  have hkey := cloneOf_artifact (childId sourceRunId stage) (mem_artifacts_of_required ha)
  simp only [Function.comp_apply, hstands, Option.bind_some, Node.nodeKey, hkey, hfirst, hsrc,
    Option.map_some]

end Walk

end TradingAgents.Orchestration
