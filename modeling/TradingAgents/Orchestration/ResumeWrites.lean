import Mathlib.Data.List.Flatten
import TradingAgents.Orchestration.Resume

/-! What a placement writes: every node is new, every edge starts at a new node, no node and no edge
is written twice, and the steps read the same whether or not the earlier ones have written. -/

namespace TradingAgents.Orchestration

open Kernel ProofKit

/-! ### The nodes of a child -/

/-- The node of a child under a name, its regime under none. -/
def nodeOf (child : String) : Option ChainKey → NodeKey
  | none => regimeOf child
  | some key => cloneOf child key

theorem cloneKey_inj {child : String} {k k' : ChainKey} (h : cloneKey child k = cloneKey child k') :
    k = k' := by
  have hl := congrArg String.toList h
  simp only [cloneKey, String.toList_append, List.append_assoc, List.append_cancel_left_eq] at hl
  have hlower : k.lower = k'.lower := String.toList_inj.mp hl
  revert hlower
  cases k <;> cases k' <;> decide

theorem cloneOf_eq {child : String} {key : ChainKey} (h : key ≠ .runRequest) :
    cloneOf child key = (key.label, cloneKey child key) := by
  cases key <;> first | rfl | exact (h rfl).elim

theorem label_ne_runRequest {key : ChainKey} (h : key ≠ .runRequest) :
    key.label ≠ runRequestLabel := by
  revert h
  cases key <;> decide

theorem nodeOf_injective (child : String) : Function.Injective (nodeOf child) := by
  have hregime : ∀ key, cloneOf child key ≠ regimeOf child := fun key h => by
    have hl := congrArg Prod.fst h
    revert hl
    cases key <;> simp [cloneOf, regimeOf, runRequestLabel, regimeContextLabel, ChainKey.label,
      ChainKey.value]
  intro a b h
  match a, b with
  | none, none => rfl
  | none, some key => exact (hregime key h.symm).elim
  | some key, none => exact (hregime key h).elim
  | some key, some key' =>
    by_cases hk : key = .runRequest <;> by_cases hk' : key' = .runRequest
    · rw [hk, hk']
    · subst hk
      have hl := congrArg Prod.fst h
      rw [nodeOf, nodeOf, cloneOf_eq hk'] at hl
      exact (label_ne_runRequest hk' hl.symm).elim
    · subst hk'
      have hl := congrArg Prod.fst h
      rw [nodeOf, nodeOf, cloneOf_eq hk] at hl
      exact (label_ne_runRequest hk hl).elim
    · have hs := congrArg Prod.snd h
      rw [nodeOf, nodeOf, cloneOf_eq hk, cloneOf_eq hk'] at hs
      rw [cloneKey_inj hs]

theorem chainKey_ne_runRequest {a : ResumeArtifact} (h : a ∈ artifacts) :
    a.chainKey ≠ .runRequest := by
  revert a
  decide

theorem cloneOf_artifact (child : String) {a : ResumeArtifact} (h : a ∈ artifacts) :
    (a.label, cloneKey child a.chainKey) = cloneOf child a.chainKey := by
  rw [cloneOf_eq (chainKey_ne_runRequest h), label_eq h]

/-- Nothing of the child stands yet; only its own placement writes under these keys, and it writes
the request first. -/
def Untouched (g : PipelineGraph) (child : String) : Prop :=
  ∀ name, nodeOf child name ∉ g.nodes.keys

/-! ### Steps that read what is beside them -/

/-- A step whose reads no write of the placement can change, and whose writes are beside `g`. -/
structure Local (g : PipelineGraph) (s : Step) : Prop where
  stable : ∀ t, g.Aside t → s t = s g
  beside : ∀ added, s g = .ok added → ∀ w ∈ added.writes, g.Beside w

def writesAt (g : PipelineGraph) (s : Step) : List (Write Document) :=
  match s g with
  | .ok added => added.writes
  | .error _ => []

def refsAt (g : PipelineGraph) (s : Step) : List String :=
  match s g with
  | .ok added => added.refs
  | .error _ => []

theorem writesAt_eq {g : PipelineGraph} {s : Step} {part : Linked} (h : s g = .ok part) :
    writesAt g s = part.writes := by rw [writesAt, h]

theorem refsAt_eq {g : PipelineGraph} {s : Step} {part : Linked} (h : s g = .ok part) :
    refsAt g s = part.refs := by rw [refsAt, h]

/-- What a run of local steps did, read at the graph it started beside. -/
structure StepsRan (g : PipelineGraph) (steps : List Step) (t : PipelineGraph) (added : Linked)
    (u : PipelineGraph) : Prop where
  parts : ∀ s ∈ steps, ∃ part, s g = .ok part
  writes : added.writes = steps.flatMap (writesAt g)
  refs : added.refs = steps.flatMap (refsAt g)
  wrote : t.writeAll added.writes = .ok u
  aside : g.Aside u

theorem runSteps_local {g : PipelineGraph} {steps : List Step} (h : ∀ s ∈ steps, Local g s)
    {t u : PipelineGraph} {added : Linked} (ht : g.Aside t)
    (hok : runSteps steps t = .ok (added, u)) :
    StepsRan g steps t added u := by
  induction steps generalizing t added with
  | nil => cases hok; exact ⟨by simp, rfl, rfl, rfl, ht⟩
  | cons s rest ih =>
    obtain ⟨part, hpart, hok⟩ := Fallible.bind_eq_ok.mp hok
    obtain ⟨v, hv, hok⟩ := Fallible.bind_eq_ok.mp hok
    obtain ⟨⟨later, w⟩, hrest, hok⟩ := Fallible.bind_eq_ok.mp hok
    cases hok
    rw [liftGraph_eq_ok] at hv
    have hs := h s List.mem_cons_self
    rw [hs.stable t ht] at hpart
    have hran := ih (fun s' hs' => h s' (List.mem_cons_of_mem _ hs'))
      (ht.writeAll (hs.beside part hpart) hv) hrest
    refine ⟨fun s' hs' => ?_, ?_, ?_, ?_, hran.aside⟩
    · rcases List.mem_cons.mp hs' with rfl | hs'
      · exact ⟨part, hpart⟩
      · exact hran.parts s' hs'
    · rw [List.flatMap_cons, ← hran.writes, writesAt_eq hpart]
    · rw [List.flatMap_cons, ← hran.refs, refsAt_eq hpart]
    · exact (Graph.writeAll_append _ _).mpr ⟨v, hv, hran.wrote⟩

theorem runSteps_append {xs ys : List Step} {g u : PipelineGraph} {added : Linked}
    (h : runSteps (xs ++ ys) g = .ok (added, u)) :
    ∃ first t last, runSteps xs g = .ok (first, t) ∧ runSteps ys t = .ok (last, u) ∧
      added.writes = first.writes ++ last.writes ∧ added.refs = first.refs ++ last.refs := by
  induction xs generalizing g added with
  | nil => exact ⟨⟨[], []⟩, g, added, rfl, h, rfl, rfl⟩
  | cons s xs ih =>
    obtain ⟨part, hpart, h⟩ := Fallible.bind_eq_ok.mp h
    obtain ⟨v, hv, h⟩ := Fallible.bind_eq_ok.mp h
    obtain ⟨⟨later, w⟩, hrest, h⟩ := Fallible.bind_eq_ok.mp h
    cases h
    obtain ⟨first, t, last, hfirst, hlast, hw, hr⟩ := ih hrest
    refine ⟨⟨part.writes ++ first.writes, part.refs ++ first.refs⟩, t, last, ?_, hlast, ?_, ?_⟩
    · simp only [runSteps, hpart, hv, hfirst, Fallible.ok_bind, Fallible.pure_eq_ok]
    · simp only [hw, List.append_assoc]
    · simp only [hr, List.append_assoc]

/-! ### The writes of a placement -/

/-- What a placement of a new child starts from. -/
structure Placeable (g : PipelineGraph) (sourceRunId : String) (stage : ResumeStage)
    (source : PipelineNode) (nodes : Dict ChainKey PipelineNode) : Prop where
  untouched : Untouched g (childId sourceRunId stage)
  source_mem : source.nodeKey ∈ g.nodes.keys
  standing : Standing g nodes
  complete : ∀ a ∈ requiredArtifacts stage, (nodes.get? a.chainKey).isSome

theorem resumeSource_ok {g : PipelineGraph} {sourceRunId : String} {stage : ResumeStage}
    {source : PipelineNode} {nodes : Dict ChainKey PipelineNode}
    (h : resumeSource g sourceRunId stage = .ok (source, nodes)) :
    g.getNode runRequestLabel (runRequestKey sourceRunId) = some source ∧
      nodes = walkChain g sourceRunId ∧
      ∀ a ∈ requiredArtifacts stage, (nodes.get? a.chainKey).isSome := by
  unfold resumeSource at h
  split at h
  · cases h
  · rename_i request hrequest
    simp only at h
    split at h
    · cases h
    · rename_i hnone
      cases h
      refine ⟨hrequest, rfl, fun a ha => ?_⟩
      have := List.find?_eq_none.mp hnone a ha
      simpa [Option.isSome_iff_ne_none] using this

theorem Placeable.of_source {g : PipelineGraph} {sourceRunId : String} {stage : ResumeStage}
    {source : PipelineNode} {nodes : Dict ChainKey PipelineNode}
    (hfree : Untouched g (childId sourceRunId stage))
    (h : resumeSource g sourceRunId stage = .ok (source, nodes)) :
    Placeable g sourceRunId stage source nodes := by
  obtain ⟨hsource, rfl, hcomplete⟩ := resumeSource_ok h
  refine ⟨hfree, ?_, walkChain_standing g sourceRunId, hcomplete⟩
  have hk := g.named _ _ hsource
  rw [hk]
  exact Graph.mem_keys_of_getNode hsource

/-- The references of the artifacts that a placement clones. -/
def requiredRefs (nodes : Dict ChainKey PipelineNode) (required : List ResumeArtifact) :
    List String :=
  required.filterMap fun a => (nodes.get? a.chainKey).map nodeRef

def artifactWriteEdges (g : PipelineGraph) (child : String) (nodes : Dict ChainKey PipelineNode)
    (a : ResumeArtifact) : List Edge :=
  match nodes.get? a.chainKey with
  | none => []
  | some source => artifactEdges child a source.nodeKey ++ sideEdges g child a source.nodeKey

/-- The edges that a placement adds to `g`, in order. -/
def placementEdges (g : PipelineGraph) (child : String) (source : NodeKey)
    (nodes : Dict ChainKey PipelineNode) (required : List ResumeArtifact) : List Edge :=
  ⟨cloneOf child .runRequest, source, resumesEdge⟩ ::
    (required.flatMap (artifactWriteEdges g child nodes) ++
      (regimeSource g nodes required).toList.map fun regime =>
        ⟨regimeOf child, regime.nodeKey, linkedFromEdge⟩)

/-- The nodes that a placement adds to `g`, in order. -/
def placementNodes (g : PipelineGraph) (child : String) (nodes : Dict ChainKey PipelineNode)
    (required : List ResumeArtifact) : List NodeKey :=
  cloneOf child .runRequest :: (required.map (fun a => cloneOf child a.chainKey) ++
    (regimeSource g nodes required).toList.map fun _ => regimeOf child)

theorem Untouched.merge {g : PipelineGraph} {child : String} (h : Untouched g child)
    {label key : String} (props : Props Document) (name : Option ChainKey)
    (hk : (label, key) = nodeOf child name) : g.Beside (.merge label key props) :=
  ⟨fun k heq => (by cases heq; rw [hk]; exact h name), fun e heq => by cases heq⟩

theorem Untouched.link {g : PipelineGraph} {child : String} (h : Untouched g child) {e : Edge}
    (name : Option ChainKey) (hp : e.parent = nodeOf child name) : g.Beside (.link e) :=
  ⟨fun k heq => (by cases heq), fun e' heq => by cases heq; rw [hp]; exact h name⟩

theorem artifactEdges_parent {child : String} {a : ResumeArtifact} (ha : a ∈ artifacts)
    {source : NodeKey} {e : Edge} (h : e ∈ artifactEdges child a source) :
    e.parent = nodeOf child (some a.parent) ∨ e.parent = nodeOf child (some a.chainKey) := by
  have hclone := cloneOf_artifact child ha
  simp only [artifactEdges, List.mem_append, List.mem_cons, List.not_mem_nil, or_false] at h
  rcases h with (rfl | rfl) | h
  · exact .inl rfl
  · exact .inr hclone
  · split at h
    · rw [List.mem_singleton.mp h]; exact .inr hclone
    · cases h

theorem sideEdges_parent {g : PipelineGraph} {child : String} {a : ResumeArtifact}
    (ha : a ∈ artifacts) {source : NodeKey} {e : Edge} (h : e ∈ sideEdges g child a source) :
    e.parent = nodeOf child (some a.chainKey) := by
  unfold sideEdges at h
  split at h
  · cases h
  · split at h
    · cases h
    · rw [List.mem_singleton.mp h]; exact cloneOf_artifact child ha

/-- The edges of a step that went through. -/
theorem edges_linkArtifact {g : PipelineGraph} {child : String} {a : ResumeArtifact}
    {source : PipelineNode} {part : Linked} (h : linkArtifact child a source g = .ok part) :
    ∃ props, linkedProps a.chainKey source child = .ok props ∧ part.refs = [nodeRef source] ∧
      part.writes = .merge a.label (cloneKey child a.chainKey) props ::
        (artifactEdges child a source.nodeKey).map .link := by
  obtain ⟨props, hprops, hret⟩ := Fallible.bind_eq_ok.mp h
  cases hret
  exact ⟨props, hprops, rfl, rfl⟩

@[simp] theorem filterMap_edge?_link (edges : List Edge) :
    (edges.map (Write.link (δ := Document))).filterMap Write.edge? = edges := by
  simp [Function.comp_def, Write.edge?]

@[simp] theorem filterMap_node?_link (edges : List Edge) :
    (edges.map (Write.link (δ := Document))).filterMap Write.node? = [] := by
  simp [Write.node?]

section Placement

variable {g : PipelineGraph} {sourceRunId : String} {stage : ResumeStage} {source : PipelineNode}
  {nodes : Dict ChainKey PipelineNode}

theorem Placeable.request_local (h : Placeable g sourceRunId stage source nodes)
    (resumedAt : String) : Local g (placeRequest source sourceRunId stage resumedAt) := by
  refine ⟨fun _ _ => rfl, fun added hadded w hw => ?_⟩
  obtain ⟨tickers, -, hret⟩ := Fallible.bind_eq_ok.mp hadded
  cases hret
  simp only [List.mem_cons, List.not_mem_nil, or_false] at hw
  rcases hw with rfl | rfl
  · exact h.untouched.merge _ (some .runRequest) rfl
  · exact h.untouched.link (some .runRequest) rfl

theorem Placeable.artifact_local (h : Placeable g sourceRunId stage source nodes)
    {a : ResumeArtifact} (ha : a ∈ artifacts) :
    ∀ s ∈ artifactSteps (childId sourceRunId stage) nodes a, Local g s := by
  intro s hs
  unfold artifactSteps at hs
  split at hs
  · cases hs
  rename_i src hsrc
  simp only [List.mem_cons, List.not_mem_nil, or_false] at hs
  rcases hs with rfl | rfl
  · refine ⟨fun _ _ => rfl, fun added hadded w hw => ?_⟩
    obtain ⟨props, -, -, hwrites⟩ := edges_linkArtifact hadded
    rw [hwrites] at hw
    rcases List.mem_cons.mp hw with rfl | hw
    · exact h.untouched.merge _ (some a.chainKey) (cloneOf_artifact _ ha)
    · obtain ⟨e, he, rfl⟩ := List.mem_map.mp hw
      rcases artifactEdges_parent ha he with hp | hp
      · exact h.untouched.link _ hp
      · exact h.untouched.link _ hp
  · have hkey : src.nodeKey ∈ g.nodes.keys :=
      Dict.mem_keys_iff.mpr (by rw [h.standing _ _ hsrc]; rfl)
    refine ⟨fun t ht => ?_, fun added hadded w hw => ?_⟩
    · simp only [linkSideBranch, sideEdges, firstChild, children, ht.descendants_one hkey]
    · cases hadded
      obtain ⟨e, he, rfl⟩ := List.mem_map.mp hw
      exact h.untouched.link _ (sideEdges_parent ha he)

/-- What the steps of a placement but the last do. -/
theorem Placeable.upstream (h : Placeable g sourceRunId stage source nodes) {resumedAt : String}
    {added : Linked} {t : PipelineGraph}
    (hok : runSteps (placeRequest source sourceRunId stage resumedAt ::
      (requiredArtifacts stage).flatMap (artifactSteps (childId sourceRunId stage) nodes)) g =
        .ok (added, t)) :
    StepsRan g (placeRequest source sourceRunId stage resumedAt ::
      (requiredArtifacts stage).flatMap (artifactSteps (childId sourceRunId stage) nodes)) g added
      t := by
  refine runSteps_local (fun s hs => ?_) (.refl g) hok
  rcases List.mem_cons.mp hs with rfl | hs
  · exact h.request_local resumedAt
  · obtain ⟨a, ha, hs⟩ := List.mem_flatMap.mp hs
    exact h.artifact_local (mem_artifacts_of_required ha) s hs

/-- The edges, nodes and references of a list of writes and references. -/
structure Adds (writes : List (Write Document)) (refs : List String) (edges : List Edge)
    (merged : List NodeKey) (reported : List String) : Prop where
  edges : writes.filterMap Write.edge? = edges
  nodes : writes.filterMap Write.node? = merged
  refs : refs = reported

theorem Adds.append {ws ws' : List (Write Document)} {rs rs' ps ps' : List String}
    {es es' : List Edge} {ns ns' : List NodeKey} (h : Adds ws rs es ns ps)
    (h' : Adds ws' rs' es' ns' ps') :
    Adds (ws ++ ws') (rs ++ rs') (es ++ es') (ns ++ ns') (ps ++ ps') :=
  ⟨by rw [List.filterMap_append, h.edges, h'.edges],
    by rw [List.filterMap_append, h.nodes, h'.nodes], by rw [h.refs, h'.refs]⟩

theorem adds_request {resumedAt : String}
    (hok : ∃ part, placeRequest source sourceRunId stage resumedAt g = .ok part) :
    Adds (writesAt g (placeRequest source sourceRunId stage resumedAt))
      (refsAt g (placeRequest source sourceRunId stage resumedAt))
      [⟨cloneOf (childId sourceRunId stage) .runRequest, source.nodeKey, resumesEdge⟩]
      [cloneOf (childId sourceRunId stage) .runRequest] [] := by
  obtain ⟨part, hpart⟩ := hok
  rw [writesAt_eq hpart, refsAt_eq hpart]
  obtain ⟨tickers, -, hret⟩ := Fallible.bind_eq_ok.mp hpart
  cases hret
  exact ⟨rfl, rfl, rfl⟩

/-- The steps of one artifact add its edges, its clone and its reference. -/
theorem adds_artifact {child : String} {a : ResumeArtifact} (ha : a ∈ artifacts)
    {src : PipelineNode} (hsrc : nodes.get? a.chainKey = some src)
    (hok : ∀ s ∈ artifactSteps child nodes a, ∃ part, s g = .ok part) :
    Adds ((artifactSteps child nodes a).flatMap (writesAt g))
      ((artifactSteps child nodes a).flatMap (refsAt g)) (artifactWriteEdges g child nodes a)
      [cloneOf child a.chainKey] [nodeRef src] := by
  simp only [artifactSteps, hsrc] at hok ⊢
  obtain ⟨part, hpart⟩ := hok _ List.mem_cons_self
  obtain ⟨props, -, hrefs, hwrites⟩ := edges_linkArtifact hpart
  have hside : writesAt g (linkSideBranch child a src) =
      (sideEdges g child a src.nodeKey).map .link := rfl
  have hnone : refsAt g (linkSideBranch child a src) = [] := rfl
  simp only [List.flatMap_cons, List.flatMap_nil, List.append_nil, hside, hnone]
  rw [writesAt_eq hpart, refsAt_eq hpart, artifactWriteEdges, hsrc]
  refine ⟨?_, ?_, hrefs⟩
  · rw [hwrites, List.cons_append, List.filterMap_cons_none rfl, ← List.map_append,
      filterMap_edge?_link]
  · rw [hwrites, List.cons_append, ← List.map_append, List.filterMap_cons, filterMap_node?_link,
      ← cloneOf_artifact child ha]
    rfl

theorem adds_artifacts {child : String} {required : List ResumeArtifact}
    (hr : ∀ a ∈ required, a ∈ artifacts) (hc : ∀ a ∈ required, (nodes.get? a.chainKey).isSome)
    (hok : ∀ s ∈ required.flatMap (artifactSteps child nodes), ∃ part, s g = .ok part) :
    Adds ((required.flatMap (artifactSteps child nodes)).flatMap (writesAt g))
      ((required.flatMap (artifactSteps child nodes)).flatMap (refsAt g))
      (required.flatMap (artifactWriteEdges g child nodes))
      (required.map fun a => cloneOf child a.chainKey) (requiredRefs nodes required) := by
  induction required with
  | nil => exact ⟨rfl, rfl, rfl⟩
  | cons a required ih =>
    obtain ⟨src, hsrc⟩ := Option.isSome_iff_exists.mp (hc a List.mem_cons_self)
    have hhead := adds_artifact (g := g) (hr a List.mem_cons_self) hsrc fun s hs =>
      hok s (List.mem_flatMap.mpr ⟨a, List.mem_cons_self, hs⟩)
    have htail := ih (fun b hb => hr b (List.mem_cons_of_mem _ hb))
      (fun b hb => hc b (List.mem_cons_of_mem _ hb)) fun s hs => by
        obtain ⟨b, hb, hs⟩ := List.mem_flatMap.mp hs
        exact hok s (List.mem_flatMap.mpr ⟨b, List.mem_cons_of_mem _ hb, hs⟩)
    have hrefs : requiredRefs nodes (a :: required) =
      [nodeRef src] ++ requiredRefs nodes required := by
      simp [requiredRefs, hsrc]
    rw [List.flatMap_cons, List.flatMap_append, List.flatMap_append, hrefs]
    exact hhead.append htail

theorem adds_regime {child : String} {required : List ResumeArtifact} :
    Adds (writesAt g (linkRegime child nodes required)) (refsAt g (linkRegime child nodes required))
      ((regimeSource g nodes required).toList.map fun regime =>
        ⟨regimeOf child, regime.nodeKey, linkedFromEdge⟩)
      ((regimeSource g nodes required).toList.map fun _ => regimeOf child)
      ((regimeSource g nodes required).toList.map nodeRef) := by
  rw [writesAt, refsAt, linkRegime]
  cases regimeSource g nodes required <;> exact ⟨rfl, rfl, rfl⟩

theorem cloneOf_ne_regime (child : String) (key : ChainKey) (runId : String) :
    cloneOf child key ≠ (regimeContextLabel, runId) := by
  intro h
  have hl := congrArg Prod.fst h
  revert hl
  cases key <;> simp [cloneOf, runRequestLabel, regimeContextLabel, ChainKey.label, ChainKey.value]

/-- What a placement of a new child wrote. -/
structure PlacementWrote (g : PipelineGraph) (sourceRunId : String) (stage : ResumeStage)
    (source : PipelineNode) (nodes : Dict ChainKey PipelineNode) (resumedAt : String)
    (added : Linked) (u : PipelineGraph) : Prop where
  adds : Adds added.writes added.refs
    (placementEdges g (childId sourceRunId stage) source.nodeKey nodes (requiredArtifacts stage))
    (placementNodes g (childId sourceRunId stage) nodes (requiredArtifacts stage))
    (requiredRefs nodes (requiredArtifacts stage) ++
      (regimeSource g nodes (requiredArtifacts stage)).toList.map nodeRef)
  parts : ∀ s ∈ placementSteps source sourceRunId stage nodes resumedAt, ∃ part, s g = .ok part
  writes : added.writes =
    (placementSteps source sourceRunId stage nodes resumedAt).flatMap (writesAt g)
  wrote : g.writeAll added.writes = .ok u
  aside : g.Aside u

theorem Placeable.regime_beside (h : Placeable g sourceRunId stage source nodes) {part : Linked}
    {t : PipelineGraph} {required : List ResumeArtifact}
    (hpart : linkRegime (childId sourceRunId stage) nodes required t = .ok part) :
    ∀ w ∈ part.writes, g.Beside w := by
  unfold linkRegime at hpart
  split at hpart
  · cases hpart; simp
  · cases hpart
    simp only [List.mem_cons, List.not_mem_nil, or_false]
    rintro w (rfl | rfl)
    · exact h.untouched.merge _ none rfl
    · exact h.untouched.link none rfl

theorem Placeable.wrote (h : Placeable g sourceRunId stage source nodes) {resumedAt : String}
    {added : Linked} {u : PipelineGraph}
    (hok : runSteps (placementSteps source sourceRunId stage nodes resumedAt) g = .ok (added, u)) :
    PlacementWrote g sourceRunId stage source nodes resumedAt added u := by
  rw [placementSteps, ← List.cons_append] at hok
  obtain ⟨first, t, last, hfirst, hlast, hwrites, hrefs⟩ := runSteps_append hok
  have hup := h.upstream hfirst
  have hadds := (adds_request (hup.parts _ List.mem_cons_self)).append
    (adds_artifacts (fun a ha => mem_artifacts_of_required ha) h.complete fun s hs =>
      hup.parts s (List.mem_cons_of_mem _ hs))
  rw [← List.flatMap_cons, ← List.flatMap_cons, ← hup.writes, ← hup.refs] at hadds
  -- none of these writes touches a regime
  have hregime : ∀ key, t.getNode regimeContextLabel key = g.getNode regimeContextLabel key := by
    refine fun key => Graph.getNode_writeAll hup.wrote fun w hw heq => ?_
    have hmem := List.mem_filterMap.mpr ⟨w, hw, heq⟩
    rw [hadds.nodes] at hmem
    rcases List.mem_append.mp hmem with hmem | hmem
    · exact cloneOf_ne_regime _ _ _ (List.mem_singleton.mp hmem).symm
    · obtain ⟨a, -, ha⟩ := List.mem_map.mp hmem
      exact cloneOf_ne_regime _ _ _ ha
  have hstable : linkRegime (childId sourceRunId stage) nodes (requiredArtifacts stage) t =
      linkRegime (childId sourceRunId stage) nodes (requiredArtifacts stage) g := by
    simp only [linkRegime, regimeSource, hregime]
  obtain ⟨part, hpart, hlast⟩ := Fallible.bind_eq_ok.mp hlast
  obtain ⟨v, hv, hlast⟩ := Fallible.bind_eq_ok.mp hlast
  obtain ⟨⟨rest, w⟩, hrest, hlast⟩ := Fallible.bind_eq_ok.mp hlast
  cases hrest
  cases hlast
  rw [liftGraph_eq_ok] at hv
  have haside := hup.aside.writeAll (h.regime_beside hpart) hv
  rw [hstable] at hpart
  have hall := hadds.append (@adds_regime g nodes (childId sourceRunId stage)
    (requiredArtifacts stage))
  simp only [List.append_nil] at hwrites hrefs
  rw [writesAt_eq hpart, refsAt_eq hpart, ← hwrites, ← hrefs] at hall
  refine ⟨?_, fun s hs => ?_, ?_, ?_, haside⟩
  · simpa [placementEdges, placementNodes] using hall
  · rw [placementSteps, ← List.cons_append] at hs
    rcases List.mem_append.mp hs with hs | hs
    · exact hup.parts s hs
    · rw [List.mem_singleton.mp hs]; exact ⟨part, hpart⟩
  · rw [hwrites, hup.writes, ← writesAt_eq hpart, placementSteps]
    simp
  · rw [hwrites]
    exact (Graph.writeAll_append _ _).mpr ⟨t, hup.wrote, hv⟩

end Placement

end TradingAgents.Orchestration
