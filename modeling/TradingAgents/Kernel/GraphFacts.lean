import TradingAgents.Kernel.Graph

/-! What each operation of the graph store does, as lemmas that later proofs use in place of the
definitions: the lookups after a write, the edges after a write, the first descendant of a node, the
pending nodes of a label, and the order in which a store extends another. -/

namespace TradingAgents.Kernel

open ProofKit

theorem get_eq_str {δ : Type} {n : Node δ} {name s : String} :
    n.get name = .str s ↔ n.props.get? name = some (.str s) := by
  rw [Node.get, Props.get]
  cases n.props.get? name <;> simp

theorem length_le_one {α : Type} {l : List α} (hnodup : l.Nodup)
    (h : ∀ a ∈ l, ∀ b ∈ l, a = b) : l.length ≤ 1 := by
  match l, hnodup, h with
  | [], _, _ => exact Nat.zero_le 1
  | [_], _, _ => exact Nat.le_refl 1
  | a :: b :: rest, hnodup, h =>
    have hab : a = b := h a List.mem_cons_self b (by simp)
    simp [hab] at hnodup

namespace Graph

variable {δ : Type}

/-! ### Lookups -/

theorem getNode_nodeKey {g : Graph δ} {label key : String} {n : Node δ}
    (h : g.getNode label key = some n) : n.label = label ∧ n.key = key := by
  have := g.named _ _ h
  exact ⟨congrArg Prod.fst this, congrArg Prod.snd this⟩

@[simp] theorem getNode_put (g : Graph δ) (n : Node δ) (label key : String) :
    (g.put n).getNode label key =
      if label = n.label ∧ key = n.key then some n else g.getNode label key := by
  simp only [getNode, put, Dict.get?_set, Node.nodeKey, Prod.mk.injEq]

@[simp] theorem edges_put (g : Graph δ) (n : Node δ) : (g.put n).edges = g.edges := rfl

@[simp] theorem getNode_link (g : Graph δ) (e : Edge) (hp hc) (label key : String) :
    (g.link e hp hc).getNode label key = g.getNode label key := rfl

theorem mem_keys_iff {g : Graph δ} {label key : String} :
    (label, key) ∈ g.nodes.keys ↔ (g.getNode label key).isSome :=
  Dict.mem_keys_iff

theorem mem_keys_of_getNode {g : Graph δ} {label key : String} {n : Node δ}
    (h : g.getNode label key = some n) : (label, key) ∈ g.nodes.keys := by
  rw [mem_keys_iff, h]; rfl

theorem mem_listNodes {g : Graph δ} {label : String} {n : Node δ} :
    n ∈ g.listNodes label ↔ n.label = label ∧ g.getNode label n.key = some n := by
  simp only [listNodes, List.mem_filter, List.mem_map, decide_eq_true_eq]
  constructor
  · rintro ⟨⟨⟨k, m⟩, hm, rfl⟩, hl⟩
    have hget := Dict.mem_entries_iff.mp hm
    have hk : (label, m.key) = k := by rw [← hl]; exact g.named _ _ hget
    exact ⟨hl, by rw [getNode, hk]; exact hget⟩
  · rintro ⟨hl, hget⟩
    exact ⟨⟨((label, n.key), n), Dict.mem_entries_iff.mpr hget, rfl⟩, hl⟩

theorem getNode_eq_none_of_notMem {g : Graph δ} {label key : String}
    (h : key ∉ (g.listNodes label).map Node.key) : g.getNode label key = none := by
  by_contra hne
  obtain ⟨n, hn⟩ := Option.ne_none_iff_exists'.mp hne
  obtain ⟨hl, hk⟩ := getNode_nodeKey hn
  exact h (List.mem_map.mpr ⟨n, mem_listNodes.mpr ⟨hl, hk ▸ hn⟩, hk⟩)

/-- The nodes of a label have distinct keys. -/
theorem nodup_listNodes_keys (g : Graph δ) (label : String) :
    ((g.listNodes label).map Node.key).Nodup := by
  have hpairs : ((g.nodes.entries.map Prod.snd).filter fun n => decide (n.label = label)).map
      Node.nodeKey =
        ((g.nodes.entries.filter fun p => decide (p.2.label = label)).map Prod.fst) := by
    rw [List.filter_map, List.map_map]
    refine List.map_congr_left fun p hp => ?_
    exact g.named _ _ (Dict.mem_entries_iff.mp (List.mem_of_mem_filter hp))
  have hnodup : ((g.listNodes label).map Node.nodeKey).Nodup := by
    rw [listNodes, hpairs]
    exact (List.filter_sublist.map _).nodup g.nodes.nodup
  rw [List.nodup_map_iff_inj_on (List.Nodup.of_map _ hnodup)]
  intro m hm n hn hk
  refine List.inj_on_of_nodup_map hnodup hm hn ?_
  rw [Node.nodeKey, Node.nodeKey, hk, (mem_listNodes.mp hm).1, (mem_listNodes.mp hn).1]

theorem listNodes_put_of_ne {g : Graph δ} {n : Node δ} {label : String} (h : n.label ≠ label) :
    (g.put n).listNodes label = g.listNodes label := by
  apply Dict.filter_values_set
  · exact decide_eq_false h
  · intro m hm
    have hkey : m.label = n.label := congrArg Prod.fst (g.named _ _ hm)
    exact decide_eq_false fun hl => h (hkey.symm.trans hl)

theorem listNodes_put_fresh {g : Graph δ} {n : Node δ} (h : g.getNode n.label n.key = none) :
    (g.put n).listNodes n.label = g.listNodes n.label ++ [n] := by
  have hnew : n.nodeKey ∉ g.nodes.keys := Dict.notMem_keys_iff.mpr h
  have hentries : (g.put n).nodes.entries = g.nodes.entries ++ [(n.nodeKey, n)] :=
    Dict.entries_set_of_notMem n hnew
  simp [listNodes, hentries]

theorem listNodes_of_nodes_eq {g g' : Graph δ} (h : g'.nodes = g.nodes) (label : String) :
    g'.listNodes label = g.listNodes label := by
  rw [listNodes, h]
  rfl

/-! ### Writes -/

section Merge

variable [DecidableEq δ] [SelfEqual δ]

/-- Whether the two sides of a merge disagree about `name` where the store does not allow it. -/
def Conflicts (existing newProps : Props δ) (name : String) : Prop :=
  ∃ v w, existing.get? name = some v ∧ newProps.get? name = some w ∧ v.pyEq w = false ∧
    isPartialCompletion existing newProps name = false

theorem foldlM_appendProps {existing newProps : Props δ} (l : List (String × Value δ))
    (merged : Props δ) (hl : (l.map Prod.fst).Nodup)
    (hm : ∀ p ∈ l, merged.get? p.1 = existing.get? p.1) :
    l.foldlM (fun merged p =>
        if overwrites existing newProps merged p.1 p.2 then .error (.overwritten p.1)
        else .ok (merged.set p.1 p.2)) merged =
      match l.find? fun p => overwrites existing newProps existing p.1 p.2 with
      | some p => (.error (.overwritten p.1) : Except GraphError (Props δ))
      | none => .ok (merged.setAll l) := by
  induction l generalizing merged with
  | nil => rfl
  | cons p l ih =>
    simp only [List.map_cons, List.nodup_cons] at hl
    have heq : overwrites existing newProps merged p.1 p.2 =
        overwrites existing newProps existing p.1 p.2 := by
      simp only [overwrites, hm p (by simp)]
    rw [List.foldlM_cons, heq, List.find?_cons]
    cases hc : overwrites existing newProps existing p.1 p.2 with
    | true => rfl
    | false =>
      refine (ih (merged.set p.1 p.2) hl.2 fun q hq => ?_).trans rfl
      have hne : q.1 ≠ p.1 := fun e => hl.1 (e ▸ List.mem_map_of_mem hq)
      rw [Dict.get?_set_ne _ _ hne, hm q (by simp [hq])]

/-- A merge of properties is refused at the first conflict in the order of the incoming ones, and
else puts the incoming properties over the existing ones. -/
theorem appendProps_eq (existing newProps : Props δ) :
    appendProps existing newProps =
      match newProps.entries.find? fun p => overwrites existing newProps existing p.1 p.2 with
      | some p => .error (.overwritten p.1)
      | none => .ok (existing.update newProps) :=
  foldlM_appendProps newProps.entries existing newProps.nodup fun _ _ => rfl

theorem overwrites_iff {existing newProps : Props δ} {name : String} {w : Value δ}
    (h : newProps.get? name = some w) :
    overwrites existing newProps existing name w = true ↔ Conflicts existing newProps name := by
  unfold overwrites Conflicts
  cases he : existing.get? name with
  | none => simp
  | some v => simp [h]

theorem appendProps_ok_iff {existing newProps merged : Props δ} :
    appendProps existing newProps = .ok merged ↔
      (∀ name, ¬ Conflicts existing newProps name) ∧ merged = existing.update newProps := by
  rw [appendProps_eq]
  split
  · rename_i p hp
    have hmem := List.mem_of_find?_eq_some hp
    have hget := Dict.mem_entries_iff.mp (show (p.1, p.2) ∈ newProps.entries from hmem)
    have hc := (overwrites_iff hget).mp (by simpa using List.find?_some hp)
    simp only [reduceCtorEq, false_iff, not_and]
    exact fun h => (h p.1 hc).elim
  · rename_i hnone
    simp only [Except.ok.injEq]
    constructor
    · rintro rfl
      refine ⟨fun name hc => ?_, rfl⟩
      obtain ⟨v, w, hv, hw, hrest⟩ := hc
      have := List.find?_eq_none.mp hnone (name, w) (Dict.mem_entries_iff.mpr hw)
      exact this ((overwrites_iff hw).mpr ⟨v, w, hv, hw, hrest⟩)
    · rintro ⟨-, rfl⟩; rfl

theorem mergeNode_fresh {g : Graph δ} {label key : String} (props : Props δ)
    (h : g.getNode label key = none) :
    g.mergeNode label key props =
      .ok (g.put ⟨label, key, props, 1⟩, ⟨label, key, props, 1⟩) := by
  simp [mergeNode, h]

/-- A merge into a node of its version that conflicts with nothing. -/
theorem mergeNode_of_noConflict {g : Graph δ} {label key : String} {props : Props δ} {n : Node δ}
    (hn : g.getNode label key = some n) (hversion : n.schemaVersion = 1)
    (hfree : ∀ name, ¬ Conflicts n.props props name) :
    g.mergeNode label key props = .ok (g.put ⟨label, key, n.props.update props, 1⟩,
      ⟨label, key, n.props.update props, 1⟩) := by
  have hok : appendProps n.props props = .ok (n.props.update props) :=
    appendProps_ok_iff.mpr ⟨hfree, rfl⟩
  simp [mergeNode, hn, hversion, hok]

/-- What a successful merge did. -/
theorem mergeNode_ok {g g' : Graph δ} {label key : String} {props : Props δ} {version : Int}
    {n : Node δ} (h : g.mergeNode label key props version = .ok (g', n)) :
    g' = g.put n ∧ n.label = label ∧ n.key = key ∧ n.schemaVersion = version ∧
      ((g.getNode label key = none ∧ n.props = props) ∨
        ∃ current, g.getNode label key = some current ∧ current.schemaVersion = version ∧
          (∀ name, ¬ Conflicts current.props props name) ∧
          n.props = current.props.update props) := by
  unfold mergeNode at h
  split at h
  · cases h
  split at h
  · rename_i hnone
    cases h
    exact ⟨rfl, rfl, rfl, rfl, .inl ⟨hnone, rfl⟩⟩
  · rename_i current hsome
    split at h
    · cases h
    · rename_i hv
      split at h
      · cases h
      · rename_i merged hm
        obtain ⟨hc, rfl⟩ := appendProps_ok_iff.mp hm
        cases h
        exact ⟨rfl, rfl, rfl, rfl, .inr ⟨current, hsome, not_not.mp hv, hc, rfl⟩⟩

theorem mergeNode_getNode {g g' : Graph δ} {label key : String} {props : Props δ} {version : Int}
    {n : Node δ} (h : g.mergeNode label key props version = .ok (g', n)) :
    g'.getNode label key = some n := by
  obtain ⟨rfl, rfl, rfl, -⟩ := mergeNode_ok h
  rw [getNode_put, if_pos ⟨rfl, rfl⟩]

/-- The nodes of the label after a merge: the merged one, and others that stood. -/
theorem mergeNode_listNodes {g g' : Graph δ} {label key : String} {props : Props δ} {version : Int}
    {n : Node δ} (h : g.mergeNode label key props version = .ok (g', n)) :
    n ∈ g'.listNodes label ∧ ∀ other ∈ g'.listNodes label, other = n ∨ other ∈ g.listNodes label := by
  have hget := mergeNode_getNode h
  obtain ⟨rfl, rfl, rfl, -⟩ := mergeNode_ok h
  refine ⟨mem_listNodes.mpr ⟨rfl, hget⟩, fun other hother => ?_⟩
  obtain ⟨hlabel, hother⟩ := mem_listNodes.mp hother
  rw [getNode_put] at hother
  split at hother
  · exact .inl (Option.some.inj hother).symm
  · exact .inr (mem_listNodes.mpr ⟨hlabel, hother⟩)

/-- After a merge the incoming properties stand, and the old ones where there is no new one. -/
theorem mergeNode_get? {g g' : Graph δ} {label key : String} {props : Props δ} {version : Int}
    {n : Node δ} (h : g.mergeNode label key props version = .ok (g', n)) (name : String) :
    n.props.get? name =
      (props.get? name).or ((g.getNode label key).bind fun m => m.props.get? name) := by
  obtain ⟨-, -, -, -, ⟨hnone, hprops⟩ | ⟨m, hm, -, -, hprops⟩⟩ := mergeNode_ok h
  · simp [hnone, hprops]
  · simp [hm, hprops]

end Merge

theorem addEdge_ok {g g' : Graph δ} {parent child : NodeKey} {edgeType : String}
    (h : g.addEdge parent child edgeType = .ok g') :
    g'.nodes = g.nodes ∧ parent ∈ g.nodes.keys ∧ child ∈ g.nodes.keys ∧
      g'.edges = if ⟨parent, child, edgeType⟩ ∈ g.edges then g.edges
        else g.edges ++ [⟨parent, child, edgeType⟩] := by
  unfold addEdge at h
  split at h
  · split at h
    · rename_i hp hc
      cases h
      exact ⟨rfl, hp, hc, rfl⟩
    · cases h
  · cases h

theorem addEdge_eq_link {g : Graph δ} {parent child : NodeKey} (edgeType : String)
    (hp : parent ∈ g.nodes.keys) (hc : child ∈ g.nodes.keys) :
    g.addEdge parent child edgeType = .ok (g.link ⟨parent, child, edgeType⟩ hp hc) := by
  simp [addEdge, hp, hc]

theorem mem_edges_link {g : Graph δ} {e e' : Edge} {hp hc} :
    e' ∈ (g.link e hp hc).edges ↔ e' = e ∨ e' ∈ g.edges := by
  simp only [link]
  split
  · rename_i h
    constructor
    · exact .inr
    · rintro (rfl | h')
      · exact h
      · exact h'
  · simp [or_comm]

theorem getNode_of_nodes_eq {g g' : Graph δ} (h : g'.nodes = g.nodes) (label key : String) :
    g'.getNode label key = g.getNode label key := by
  rw [getNode, h]; rfl

/-! ### Pending nodes -/

theorem mem_keysWithoutEdge {g : Graph δ} {label edgeType key : String} :
    key ∈ g.keysWithoutEdge label edgeType ↔
      (g.getNode label key).isSome ∧
        ∀ e ∈ g.edges, e.edgeType = edgeType → e.parent ≠ (label, key) := by
  simp only [keysWithoutEdge, createdAtOnOrAfter, if_true, List.mem_map, List.mem_filter,
    Bool.and_true, Bool.and_eq_true, decide_eq_true_eq, not_exists, not_and]
  constructor
  · rintro ⟨⟨k, n⟩, ⟨hmem, hl, hfree⟩, rfl⟩
    have hget := Dict.mem_entries_iff.mp hmem
    have hk : (label, n.key) = k := by rw [← hl]; exact g.named _ _ hget
    subst hk
    exact ⟨by simp [getNode, hget], fun e he ht hpar => hfree e ⟨he, ht⟩ hpar⟩
  · rintro ⟨hsome, hfree⟩
    obtain ⟨n, hn⟩ := Option.isSome_iff_exists.mp hsome
    have hk := getNode_nodeKey hn
    refine ⟨((label, key), n), ⟨Dict.mem_entries_iff.mpr hn, hk.1, ?_⟩, hk.2⟩
    exact fun e he hpar => hfree e he.1 he.2 hpar

theorem nodup_keysWithoutEdge (g : Graph δ) (label edgeType : String) :
    (g.keysWithoutEdge label edgeType).Nodup := by
  have hentries : g.nodes.entries.Nodup := g.nodes.nodup.of_map _
  refine (hentries.filter _).map_on fun p hp q hq hkey => ?_
  simp only [List.mem_filter, Bool.and_eq_true, decide_eq_true_eq] at hp hq
  have hpn := Dict.mem_entries_iff.mp hp.1
  have hqn := Dict.mem_entries_iff.mp hq.1
  have hsame : p.1 = q.1 := by
    rw [← g.named _ _ hpn, ← g.named _ _ hqn, Node.nodeKey, Node.nodeKey, hkey, hp.2.1.1,
      hq.2.1.1]
  refine Prod.ext hsame (Option.some_inj.mp ?_)
  rw [← hpn, ← hqn, hsame]

theorem mem_pendingNodes {g : Graph δ} {label edgeType : String} {n : Node δ} :
    n ∈ g.pendingNodes label edgeType ↔
      g.getNode label n.key = some n ∧ n.label = label ∧
        ∀ e ∈ g.edges, e.edgeType = edgeType → e.parent ≠ (label, n.key) := by
  simp only [pendingNodes, List.mem_filterMap, mem_keysWithoutEdge]
  constructor
  · rintro ⟨key, ⟨-, hfree⟩, hget⟩
    obtain ⟨hl, rfl⟩ := getNode_nodeKey hget
    exact ⟨hget, hl, hfree⟩
  · rintro ⟨hget, -, hfree⟩
    exact ⟨n.key, ⟨by simp [hget], hfree⟩, hget⟩

/-! ### Neighbours -/

/-- The edges a query of a node's children by type looks at. -/
def childEdge (parent : NodeKey) (types : List String) (e : Edge) : Bool :=
  decide (e.parent = parent) && decide (e.edgeType ∈ types) && decide (e.child ≠ parent)

theorem head?_sweep (node : NodeKey) (types : List String) (es : List Edge) :
    (sweep (some types) true [node] es [node]).head? =
      (es.find? (childEdge node types)).map Edge.child := by
  induction es with
  | nil => rfl
  | cons e es ih =>
    simp only [sweep, edgeAllowed, if_true, List.mem_singleton, List.find?_cons, childEdge]
    by_cases h : e.parent = node ∧ e.edgeType ∈ types ∧ e.child ≠ node
    · simp [h]
    · have hc : (decide (e.parent = node) && decide (e.edgeType ∈ types) &&
          decide (e.child ≠ node)) = false := by
        simpa [Bool.and_eq_false_iff, not_and_or, or_assoc] using h
      rw [hc, if_neg (by simpa [and_assoc] using h)]
      exact ih

theorem mem_sweep_iff {edgeTypes : Option (List String)} {downstream : Bool}
    {frontier seen : List NodeKey} {es : List Edge} {t : NodeKey} :
    t ∈ sweep edgeTypes downstream frontier es seen ↔ t ∉ seen ∧ ∃ e ∈ es,
      (if downstream then e.parent else e.child) ∈ frontier ∧ edgeAllowed edgeTypes e = true ∧
        (if downstream then e.child else e.parent) = t := by
  induction es generalizing seen with
  | nil => simp [sweep]
  | cons e es ih =>
    simp only [sweep]
    by_cases h : (if downstream then e.parent else e.child) ∈ frontier ∧
        edgeAllowed edgeTypes e = true ∧ (if downstream then e.child else e.parent) ∉ seen
    · rw [if_pos h, List.mem_cons, ih]
      by_cases ht : t = if downstream then e.child else e.parent
      · subst ht
        simp [h]
      · simp [ht, Ne.symm ht]
    · rw [if_neg h, ih]
      constructor
      · rintro ⟨hs, e', he', hrest⟩
        exact ⟨hs, e', List.mem_cons_of_mem _ he', hrest⟩
      · rintro ⟨hs, e', he', hsource, hallowed, rfl⟩
        rcases List.mem_cons.mp he' with rfl | he'
        · exact (h ⟨hsource, hallowed, hs⟩).elim
        · exact ⟨hs, e', he', hsource, hallowed, rfl⟩

theorem mem_sweep {types : List String} {node t : NodeKey} {es : List Edge}
    {seen : List NodeKey} :
    t ∈ sweep (some types) true [node] es seen ↔
      t ∉ seen ∧ ∃ e ∈ es, e.parent = node ∧ e.edgeType ∈ types ∧ e.child = t := by
  simp only [mem_sweep_iff, if_true, List.mem_singleton, edgeAllowed, decide_eq_true_eq]

theorem nodup_sweep (edgeTypes : Option (List String)) (downstream : Bool)
    (frontier : List NodeKey) (es : List Edge) (seen : List NodeKey) :
    (sweep edgeTypes downstream frontier es seen).Nodup := by
  induction es generalizing seen with
  | nil => exact List.nodup_nil
  | cons e es ih =>
    simp only [sweep]
    by_cases h : (if downstream then e.parent else e.child) ∈ frontier ∧
        edgeAllowed edgeTypes e = true ∧ (if downstream then e.child else e.parent) ∉ seen
    · rw [if_pos h]
      refine List.nodup_cons.mpr ⟨fun hmem => ?_, ih _⟩
      exact (mem_sweep_iff.mp hmem).1 List.mem_cons_self
    · rw [if_neg h]
      exact ih seen

/-- A sweep reads only the edges that start in its frontier with an allowed type. -/
theorem sweep_filter {types : List String} {frontier : List NodeKey} {p : Edge → Bool}
    {es : List Edge} (h : ∀ e ∈ es, e.parent ∈ frontier → e.edgeType ∈ types → p e = true)
    (seen : List NodeKey) :
    sweep (some types) true frontier es seen =
      sweep (some types) true frontier (es.filter p) seen := by
  induction es generalizing seen with
  | nil => rfl
  | cons e es ih =>
    have htail := ih fun e' he' => h e' (List.mem_cons_of_mem _ he')
    by_cases hp : p e = true
    · rw [List.filter_cons_of_pos hp]
      simp only [sweep, if_true, htail]
    · rw [List.filter_cons_of_neg hp]
      simp only [sweep, edgeAllowed, if_true, decide_eq_true_eq]
      rw [if_neg fun hc => hp (h e List.mem_cons_self hc.1 hc.2.1)]
      exact htail seen

theorem walkKeys_one (g : Graph δ) (types : List String) (node : NodeKey) :
    g.walkKeys (some types) true 1 [node] [node] =
      sweep (some types) true [node] g.edges [node] := by
  unfold walkKeys
  split
  · rename_i h; exact h.symm
  · rename_i h; simp [h, walkKeys]

/-- The first child of a node by edge type is the child of the first such edge. -/
theorem head?_descendants_one (g : Graph δ) (node : NodeKey) (types : List String) :
    (g.descendants node 1 (some types)).head? =
      (g.edges.find? (childEdge node types)).bind fun e => g.nodes.get? e.child := by
  rw [descendants, walk, walkKeys_one]
  have hhead := head?_sweep node types g.edges
  cases hs : sweep (some types) true [node] g.edges [node] with
  | nil =>
    rw [hs] at hhead
    cases hf : g.edges.find? (childEdge node types) with
    | none => rfl
    | some e => rw [hf] at hhead; simp at hhead
  | cons t ts =>
    rw [hs] at hhead
    cases hf : g.edges.find? (childEdge node types) with
    | none => rw [hf] at hhead; simp at hhead
    | some e =>
      rw [hf] at hhead
      simp only [List.head?_cons, Option.map_some, Option.some.injEq] at hhead
      obtain ⟨n, hn⟩ := Option.isSome_iff_exists.mp (Dict.mem_keys_iff.mp
        (g.closed e (List.mem_of_find?_eq_some hf)).2)
      simp [hhead, hn]

theorem mem_descendants_one {g : Graph δ} {node : NodeKey} {types : List String} {n : Node δ} :
    n ∈ g.descendants node 1 (some types) ↔
      ∃ e ∈ g.edges, childEdge node types e = true ∧ g.nodes.get? e.child = some n := by
  rw [descendants, walk, walkKeys_one, List.mem_filterMap]
  simp only [mem_sweep, List.mem_singleton, childEdge, Bool.and_eq_true, decide_eq_true_eq]
  constructor
  · rintro ⟨t, ⟨hne, e, he, hpar, htype, rfl⟩, hget⟩
    exact ⟨e, he, ⟨⟨hpar, htype⟩, hne⟩, hget⟩
  · rintro ⟨e, he, ⟨⟨hpar, htype⟩, hne⟩, hget⟩
    exact ⟨e.child, ⟨hne, e, he, hpar, htype, rfl⟩, hget⟩

theorem ancestors_one (g : Graph δ) (node : NodeKey) (types : List String) :
    g.ancestors node 1 (some types) =
      (sweep (some types) false [node] g.edges [node]).filterMap g.nodes.get? := by
  rw [ancestors, walk]
  congr 1
  unfold walkKeys
  split
  · rename_i h; exact h.symm
  · rename_i h; simp [h, walkKeys]

theorem mem_ancestors_one {g : Graph δ} {node : NodeKey} {types : List String} {n : Node δ} :
    n ∈ g.ancestors node 1 (some types) ↔
      ∃ e ∈ g.edges, e.child = node ∧ e.edgeType ∈ types ∧ e.parent ≠ node ∧
        g.nodes.get? e.parent = some n := by
  rw [ancestors_one, List.mem_filterMap]
  simp only [mem_sweep_iff, List.mem_singleton, edgeAllowed, Bool.false_eq_true, if_false,
    decide_eq_true_eq]
  constructor
  · rintro ⟨t, ⟨hne, e, he, hchild, htype, rfl⟩, hget⟩
    exact ⟨e, he, hchild, htype, hne, hget⟩
  · rintro ⟨e, he, hchild, htype, hne, hget⟩
    exact ⟨e.parent, ⟨hne, e, he, hchild, htype, rfl⟩, hget⟩

/-- No node is listed twice among the parents of a node. -/
theorem nodup_ancestors_one (g : Graph δ) (node : NodeKey) (types : List String) :
    ((g.ancestors node 1 (some types)).map Node.nodeKey).Nodup := by
  rw [ancestors_one]
  refine List.Sublist.nodup ?_ (nodup_sweep (some types) false [node] g.edges [node])
  generalize sweep (some types) false [node] g.edges [node] = keys
  induction keys with
  | nil => exact List.Sublist.slnil
  | cons k keys ih =>
    cases hk : g.nodes.get? k with
    | none =>
      rw [List.filterMap_cons_none hk]
      exact ih.cons k
    | some n =>
      rw [List.filterMap_cons_some hk, List.map_cons, g.named k n hk]
      exact ih.cons_cons k

/-! ### Extension -/

/-- `n'` is `n` after more writes: every property is kept, but for those a partial completion may
change. -/
def NodeGrows (n n' : Node δ) : Prop :=
  ∀ name v, name ∉ partialCompletionProps → n.props.get? name = some v →
    ∃ w, n'.props.get? name = some w ∧ w.canon = v.canon

/-- `g'` is `g` after more writes. -/
structure Extends (g g' : Graph δ) : Prop where
  nodes : ∀ label key n, g.getNode label key = some n →
    ∃ n', g'.getNode label key = some n' ∧ NodeGrows n n'
  edges : g.edges <+: g'.edges

theorem NodeGrows.refl (n : Node δ) : NodeGrows n n := fun _ v _ h => ⟨v, h, rfl⟩

theorem NodeGrows.trans {a b c : Node δ} (h : NodeGrows a b) (h' : NodeGrows b c) :
    NodeGrows a c := by
  intro name v hname hv
  obtain ⟨w, hw, hwv⟩ := h name v hname hv
  obtain ⟨u, hu, huw⟩ := h' name w hname hw
  exact ⟨u, hu, huw.trans hwv⟩

theorem Extends.refl (g : Graph δ) : Extends g g :=
  ⟨fun _ _ n h => ⟨n, h, .refl n⟩, List.prefix_rfl⟩

theorem Extends.trans {a b c : Graph δ} (h : Extends a b) (h' : Extends b c) : Extends a c where
  nodes label key n hn := by
    obtain ⟨m, hm, hnm⟩ := h.nodes label key n hn
    obtain ⟨l, hl, hml⟩ := h'.nodes label key m hm
    exact ⟨l, hl, hnm.trans hml⟩
  edges := h.edges.trans h'.edges

theorem mergeNode_extends [DecidableEq δ] [SelfEqual δ] {g g' : Graph δ} {label key : String}
    {props : Props δ} {version : Int} {n : Node δ}
    (h : g.mergeNode label key props version = .ok (g', n)) : Extends g g' := by
  obtain ⟨rfl, hl, hk, -, hnode⟩ := mergeNode_ok h
  refine ⟨fun l k m hm => ?_, by simp⟩
  rw [getNode_put]
  split
  · rename_i hlk
    refine ⟨n, rfl, fun name v hname hv => ?_⟩
    rw [hlk.1, hlk.2, hl, hk] at hm
    rcases hnode with ⟨hnone, -⟩ | ⟨current, hcur, -, hfree, hprops⟩
    · rw [hnone] at hm; cases hm
    · rw [hm] at hcur
      cases hcur
      rw [hprops, Dict.get?_update, hv]
      cases hnew : props.get? name with
      | none => exact ⟨v, rfl, rfl⟩
      | some w =>
        refine ⟨w, rfl, ?_⟩
        by_contra hne
        refine hfree name ⟨v, w, hv, hnew, ?_, ?_⟩
        · rw [Value.pyEq, Value.alike, decide_eq_false (Ne.symm hne), Bool.false_and]
        · simp [isPartialCompletion, hname]
  · exact ⟨m, hm, .refl m⟩

theorem addEdge_extends {g g' : Graph δ} {parent child : NodeKey} {edgeType : String}
    (h : g.addEdge parent child edgeType = .ok g') : Extends g g' := by
  obtain ⟨hnodes, -, -, hedges⟩ := addEdge_ok h
  refine ⟨fun l k n hn => ⟨n, by rw [getNode_of_nodes_eq hnodes]; exact hn, .refl n⟩, ?_⟩
  rw [hedges]
  split
  · exact List.prefix_rfl
  · exact List.prefix_append _ _

theorem mergeNode_grows [DecidableEq δ] [SelfEqual δ] {g g' : Graph δ} {label key : String}
    {props : Props δ} {version : Int} {n m : Node δ}
    (h : g.mergeNode label key props version = .ok (g', n)) (hm : g.getNode label key = some m) :
    NodeGrows m n := by
  obtain ⟨m', hm', hgrows⟩ := (mergeNode_extends h).nodes label key m hm
  obtain ⟨rfl, rfl, rfl, -⟩ := mergeNode_ok h
  rw [getNode_put, if_pos ⟨rfl, rfl⟩] at hm'
  rw [Option.some.inj hm']
  exact hgrows

/-- A string property is kept as it is. -/
theorem NodeGrows.get_str {n n' : Node δ} (h : NodeGrows n n') {name s : String}
    (hname : name ∉ partialCompletionProps) (hs : n.props.get? name = some (.str s)) :
    n'.props.get? name = some (.str s) := by
  obtain ⟨w, hw, hc⟩ := h name _ hname hs
  rw [hw, Value.canon_eq_str.mp (hc.trans rfl)]

/-- A document property is kept as it is. -/
theorem NodeGrows.get_doc {n n' : Node δ} (h : NodeGrows n n') {name : String} {d : δ}
    (hname : name ∉ partialCompletionProps) (hd : n.props.get? name = some (.doc d)) :
    n'.props.get? name = some (.doc d) := by
  obtain ⟨w, hw, hc⟩ := h name _ hname hd
  rw [hw, Value.canon_eq_doc.mp (hc.trans rfl)]

/-- A first child once found stays the first child. -/
theorem Extends.find?_edges {g g' : Graph δ} (h : Extends g g') {p : Edge → Bool} {e : Edge}
    (he : g.edges.find? p = some e) : g'.edges.find? p = some e := by
  obtain ⟨t, ht⟩ := h.edges
  rw [← ht, List.find?_append, he]
  rfl

end Graph

end TradingAgents.Kernel
