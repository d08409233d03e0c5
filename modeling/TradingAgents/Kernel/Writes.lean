import TradingAgents.Kernel.GraphFacts
import TradingAgents.ProofKit.Fallible

/-! Single graph writes and sequences of them: what a sequence leaves of the nodes and the edges, in
whatever order and with whatever others its writes were made. -/

namespace TradingAgents.Kernel

open ProofKit

/-- One write to the store. -/
inductive Write (δ : Type) where
  | merge (label key : String) (props : Props δ)
  | link (e : Edge)

/-- The edge that a write adds. -/
def Write.edge? {δ : Type} : Write δ → Option Edge
  | merge _ _ _ => none
  | link e => some e

/-- The node that a write merges. -/
def Write.node? {δ : Type} : Write δ → Option NodeKey
  | merge label key _ => some (label, key)
  | link _ => none

namespace Graph

variable {δ : Type} [DecidableEq δ]

def write (g : Graph δ) : Write δ → Except GraphError (Graph δ)
  | .merge label key props => do
    let (g, _) ← g.mergeNode label key props
    pure g
  | .link e => g.addEdge e.parent e.child e.edgeType

def writeAll (g : Graph δ) (ws : List (Write δ)) : Except GraphError (Graph δ) := ws.foldlM write g

variable {g g' : Graph δ} {w : Write δ} {ws : List (Write δ)}

/-! ### One write -/

theorem write_extends (h : g.write w = .ok g') : g.Extends g' := by
  cases w with
  | merge label key props =>
    obtain ⟨⟨g₁, n⟩, hm, hret⟩ := Fallible.bind_eq_ok.mp h
    cases hret
    exact mergeNode_extends hm
  | link e => exact addEdge_extends h

/-- A write changes no node but the one it merges. -/
theorem getNode_write (h : g.write w = .ok g') {label key : String}
    (hne : w.node? ≠ some (label, key)) : g'.getNode label key = g.getNode label key := by
  cases w with
  | merge l k props =>
    obtain ⟨⟨g₁, n⟩, hm, hret⟩ := Fallible.bind_eq_ok.mp h
    cases hret
    obtain ⟨rfl, hl, hk, -⟩ := mergeNode_ok hm
    rw [getNode_put, if_neg]
    rintro ⟨rfl, rfl⟩
    exact hne (by rw [Write.node?, hl, hk])
  | link e => exact getNode_of_nodes_eq (addEdge_ok h).1 label key

/-- A merge under a free key stands as it was written. -/
theorem getNode_write_fresh {label key : String} {props : Props δ}
    (h : g.write (.merge label key props) = .ok g') (hfree : g.getNode label key = none) :
    g'.getNode label key = some ⟨label, key, props, 1⟩ := by
  obtain ⟨⟨g₁, n⟩, hm, hret⟩ := Fallible.bind_eq_ok.mp h
  cases hret
  rw [mergeNode_fresh props hfree] at hm
  cases hm
  rw [getNode_put, if_pos ⟨rfl, rfl⟩]

theorem edges_write (h : g.write w = .ok g') :
    g'.edges = match w.edge? with
      | none => g.edges
      | some e => if e ∈ g.edges then g.edges else g.edges ++ [e] := by
  cases w with
  | merge label key props =>
    obtain ⟨⟨g₁, n⟩, hm, hret⟩ := Fallible.bind_eq_ok.mp h
    cases hret
    obtain ⟨rfl, -⟩ := mergeNode_ok hm
    rfl
  | link e => exact (addEdge_ok h).2.2.2

theorem mem_edges_write (h : g.write w = .ok g') {e : Edge} :
    e ∈ g'.edges ↔ e ∈ g.edges ∨ w.edge? = some e := by
  rw [edges_write h]
  cases w.edge? with
  | none => simp
  | some e' =>
    simp only [Option.some.injEq]
    split
    · rename_i hin
      refine ⟨.inl, fun he => he.elim id ?_⟩
      rintro rfl
      exact hin
    · rw [List.mem_append, List.mem_singleton, eq_comm]

/-! ### Sequences of writes -/

theorem writeAll_append (us vs : List (Write δ)) :
    g.writeAll (us ++ vs) = .ok g' ↔ ∃ t, g.writeAll us = .ok t ∧ t.writeAll vs = .ok g' := by
  rw [writeAll, List.foldlM_append]
  exact Fallible.bind_eq_ok

theorem writeAll_cons : g.writeAll (w :: ws) = .ok g' ↔
    ∃ t, g.write w = .ok t ∧ t.writeAll ws = .ok g' := by
  rw [writeAll, List.foldlM_cons]
  exact Fallible.bind_eq_ok

theorem writeAll_extends (h : g.writeAll ws = .ok g') : g.Extends g' := by
  induction ws generalizing g with
  | nil => cases h; exact .refl _
  | cons w ws ih =>
    obtain ⟨t, ht, hrest⟩ := writeAll_cons.mp h
    exact (write_extends ht).trans (ih hrest)

/-- A sequence of writes changes no node but those it merges. -/
theorem getNode_writeAll (h : g.writeAll ws = .ok g') {label key : String}
    (hne : ∀ w ∈ ws, w.node? ≠ some (label, key)) :
    g'.getNode label key = g.getNode label key := by
  induction ws generalizing g with
  | nil => cases h; rfl
  | cons w ws ih =>
    obtain ⟨t, ht, hrest⟩ := writeAll_cons.mp h
    rw [ih hrest fun v hv => hne v (List.mem_cons_of_mem _ hv),
      getNode_write ht (hne w List.mem_cons_self)]

/-- The node of the only merge under a free key stands as it was written. -/
theorem getNode_writeAll_fresh {label key : String} {props : Props δ} {us vs : List (Write δ)}
    (h : g.writeAll (us ++ .merge label key props :: vs) = .ok g')
    (hfree : g.getNode label key = none) (hus : ∀ w ∈ us, w.node? ≠ some (label, key))
    (hvs : ∀ w ∈ vs, w.node? ≠ some (label, key)) :
    g'.getNode label key = some ⟨label, key, props, 1⟩ := by
  obtain ⟨t, hu, hrest⟩ := (writeAll_append us _).mp h
  obtain ⟨t', hm, hv⟩ := writeAll_cons.mp hrest
  rw [getNode_writeAll hv hvs]
  exact getNode_write_fresh hm ((getNode_writeAll hu hus).trans hfree)

/-- Under distinct free keys every merge stands as it was written. -/
theorem getNode_writeAll_of_mem {label key : String} {props : Props δ} (h : g.writeAll ws = .ok g')
    (hnodup : (ws.filterMap Write.node?).Nodup) (hfree : g.getNode label key = none)
    (hmem : .merge label key props ∈ ws) : g'.getNode label key = some ⟨label, key, props, 1⟩ := by
  obtain ⟨us, vs, rfl⟩ := List.append_of_mem hmem
  have hnode : (Write.merge label key props).node? = some (label, key) := rfl
  rw [List.filterMap_append, List.filterMap_cons_some hnode, List.nodup_append] at hnodup
  obtain ⟨-, hvs, hus⟩ := hnodup
  refine getNode_writeAll_fresh h hfree (fun w hw heq => ?_) fun w hw heq => ?_
  · exact hus _ (List.mem_filterMap.mpr ⟨w, hw, heq⟩) _ List.mem_cons_self rfl
  · exact (List.nodup_cons.mp hvs).1 (List.mem_filterMap.mpr ⟨w, hw, heq⟩)

theorem mem_edges_writeAll (h : g.writeAll ws = .ok g') {e : Edge} :
    e ∈ g'.edges ↔ e ∈ g.edges ∨ e ∈ ws.filterMap Write.edge? := by
  induction ws generalizing g with
  | nil => cases h; simp
  | cons w ws ih =>
    obtain ⟨t, ht, hrest⟩ := writeAll_cons.mp h
    rw [ih hrest, mem_edges_write ht, or_assoc]
    simp [List.mem_filterMap]

/-- New edges, each written once, are appended in their order. -/
theorem edges_writeAll (h : g.writeAll ws = .ok g') (hnodup : (ws.filterMap Write.edge?).Nodup)
    (hnew : ∀ e ∈ ws.filterMap Write.edge?, e ∉ g.edges) :
    g'.edges = g.edges ++ ws.filterMap Write.edge? := by
  induction ws generalizing g with
  | nil => cases h; simp
  | cons w ws ih =>
    obtain ⟨t, ht, hrest⟩ := writeAll_cons.mp h
    have hedges := edges_write ht
    cases he : w.edge? with
    | none =>
      rw [he] at hedges
      rw [List.filterMap_cons_none he] at hnodup hnew ⊢
      rw [ih hrest hnodup fun e hmem => hedges ▸ hnew e hmem, hedges]
    | some e =>
      rw [he] at hedges
      rw [List.filterMap_cons_some he] at hnodup hnew ⊢
      obtain ⟨hfree, hnodup⟩ := List.nodup_cons.mp hnodup
      simp only [if_neg (hnew e List.mem_cons_self)] at hedges
      rw [ih hrest hnodup ?_, hedges]
      · simp
      · intro e' he' hmem
        rw [hedges, List.mem_append, List.mem_singleton] at hmem
        rcases hmem with hold | rfl
        · exact hnew e' (List.mem_cons_of_mem _ he') hold
        · exact hfree he'

/-! ### Writes beside a graph -/

/-- A write that merges no node of `g` and adds no edge that starts at one. -/
structure Beside (g : Graph δ) (w : Write δ) : Prop where
  node : ∀ k, w.node? = some k → k ∉ g.nodes.keys
  edge : ∀ e, w.edge? = some e → e.parent ∉ g.nodes.keys

/-- `t` is `g` with further nodes and with edges that start at none of the nodes of `g`. -/
structure Aside (g t : Graph δ) : Prop where
  nodes : ∀ k ∈ g.nodes.keys, t.nodes.get? k = g.nodes.get? k
  edges : ∃ added, t.edges = g.edges ++ added ∧ ∀ e ∈ added, e.parent ∉ g.nodes.keys

omit [DecidableEq δ] in
theorem Aside.refl (g : Graph δ) : Aside g g := ⟨fun _ _ => rfl, [], by simp, by simp⟩

theorem Aside.write {t u : Graph δ} (h : Aside g t) (hw : Beside g w) (hok : t.write w = .ok u) :
    Aside g u := by
  obtain ⟨hnodes, added, hedges, hadded⟩ := h
  refine ⟨fun k hk => ?_, ?_⟩
  · rw [← hnodes k hk]
    exact getNode_write hok fun heq => hw.node k heq hk
  · rw [edges_write hok]
    cases he : w.edge? with
    | none => exact ⟨added, hedges, hadded⟩
    | some e =>
      simp only
      split
      · exact ⟨added, hedges, hadded⟩
      · refine ⟨added ++ [e], by rw [hedges, List.append_assoc], fun e' he' => ?_⟩
        rcases List.mem_append.mp he' with h | h
        · exact hadded e' h
        · rw [List.mem_singleton.mp h]; exact hw.edge e he

theorem Aside.writeAll {t u : Graph δ} (h : Aside g t) (hws : ∀ w ∈ ws, Beside g w)
    (hok : t.writeAll ws = .ok u) : Aside g u := by
  induction ws generalizing t with
  | nil => cases hok; exact h
  | cons w ws ih =>
    obtain ⟨v, hv, hrest⟩ := writeAll_cons.mp hok
    exact ih (h.write (hws w List.mem_cons_self) hv)
      (fun w' hw' => hws w' (List.mem_cons_of_mem _ hw')) hrest

omit [DecidableEq δ] in
/-- The children of a node of `g` are the same beside it. -/
theorem Aside.descendants_one {t : Graph δ} (h : Aside g t) {n : NodeKey}
    (hn : n ∈ g.nodes.keys) (types : List String) :
    t.descendants n 1 (some types) = g.descendants n 1 (some types) := by
  obtain ⟨hnodes, added, hedges, hadded⟩ := h
  have hnone : added.filter (fun e => decide (e.parent ∈ g.nodes.keys)) = [] := by
    rw [List.filter_eq_nil_iff]
    intro e he
    simp [hadded e he]
  have hsweep : ∀ es, sweep (some types) true [n] es [n] =
      sweep (some types) true [n] (es.filter fun e => decide (e.parent ∈ g.nodes.keys)) [n] :=
    fun es => sweep_filter (fun e _ hp _ => by simpa [List.mem_singleton.mp hp] using hn) [n]
  rw [descendants, descendants, walk, walk, walkKeys_one, walkKeys_one, hedges, hsweep,
    List.filter_append, hnone, List.append_nil, ← hsweep]
  refine List.filterMap_congr fun k hk => hnodes k ?_
  obtain ⟨-, e, he, -, -, rfl⟩ := mem_sweep.mp hk
  exact (g.closed e he).2

end Graph

end TradingAgents.Kernel
