import TradingAgents.Kernel.GraphFacts

/-! The in-memory store as it is called: `merge_node` and `add_edge` change the store in place, and
an exception leaves it as it stands at that moment.  Over any run of calls the store is append-only,
but for the one merge that completes a partial fill. -/

namespace TradingAgents.Kernel

open ProofKit

variable {δ : Type} [DecidableEq δ] [SelfEqual δ]

namespace Graph

omit [DecidableEq δ] [SelfEqual δ] in
/-- Two stores with the same nodes and edges are the same store. -/
theorem ext {g g' : Graph δ} (hnodes : g.nodes = g'.nodes) (hedges : g.edges = g'.edges) :
    g = g' := by
  cases g
  cases g'
  cases hnodes
  cases hedges
  rfl

/-! ### The calls -/

/-- `merge_node` on the store in place. -/
def mergeNodeM (label key : String) (props : Props δ) (schemaVersion : Int) :
    EStateM GraphError (Graph δ) (Node δ) := do
  if schemaVersion < 1 then throw .schemaVersionNotPositive
  let g ← get
  let node ← match g.getNode label key with
    | none => pure ⟨label, key, props, schemaVersion⟩
    | some current => do
      if current.schemaVersion ≠ schemaVersion then throw .schemaVersionChanged
      match appendProps current.props props with
      | .error e => throw e
      | .ok merged => pure ⟨label, key, merged, schemaVersion⟩
  set (g.put node)
  return node

omit [DecidableEq δ] [SelfEqual δ] in
/-- `add_edge` on the store in place. -/
def addEdgeM (parent child : NodeKey) (edgeType : String) :
    EStateM GraphError (Graph δ) Unit := do
  let g ← get
  if hp : parent ∈ g.nodes.keys then
    if hc : child ∈ g.nodes.keys then set (g.link ⟨parent, child, edgeType⟩ hp hc)
    else throw (.missingNode child.1 child.2)
  else throw (.missingNode parent.1 parent.2)

theorem run_mergeNodeM (g : Graph δ) (label key : String) (props : Props δ) (schemaVersion : Int) :
    (mergeNodeM label key props schemaVersion).run g =
      match g.mergeNode label key props schemaVersion with
      | .ok (g', n) => .ok n g'
      | .error e => .error e g := by
  unfold mergeNodeM mergeNode
  by_cases hv : schemaVersion < 1
  · simp only [hv, if_true]
    rfl
  simp only [hv, if_false, EStateM.run_bind, EStateM.run_get, pure_bind]
  cases hget : g.getNode label key with
  | none => rfl
  | some current =>
    by_cases hversion : current.schemaVersion = schemaVersion
    · cases happend : appendProps current.props props with
      | error e =>
        simp only [hversion, happend, ne_eq, not_true, if_false]
        rfl
      | ok merged =>
        simp only [hversion, happend, ne_eq, not_true, if_false]
        rfl
    · simp [hversion]

omit [DecidableEq δ] [SelfEqual δ] in
theorem run_addEdgeM (g : Graph δ) (parent child : NodeKey) (edgeType : String) :
    (addEdgeM parent child edgeType).run g =
      match g.addEdge parent child edgeType with
      | .ok g' => .ok () g'
      | .error e => .error e g := by
  unfold addEdgeM addEdge
  simp only [EStateM.run_bind, EStateM.run_get]
  by_cases hp : parent ∈ g.nodes.keys
  · by_cases hc : child ∈ g.nodes.keys
    · simp [hp, hc]
    · simp [hp, hc]
  · simp [hp]

end Graph

/-- A call that writes to the store. -/
inductive Call (δ : Type) where
  | mergeNode (label key : String) (props : Props δ) (schemaVersion : Int)
  | addEdge (parent child : NodeKey) (edgeType : String)

namespace Call

/-- A call on the store in place, with the node it returns. -/
def perform : Call δ → EStateM GraphError (Graph δ) (Option (Node δ))
  | mergeNode label key props schemaVersion => do
    let node ← Graph.mergeNodeM label key props schemaVersion
    return some node
  | addEdge parent child edgeType => do
    Graph.addEdgeM parent child edgeType
    return none

/-- The store after a call, whether or not the call was rejected. -/
def after (g : Graph δ) (c : Call δ) : Graph δ :=
  match c.perform.run g with
  | .ok _ g' => g'
  | .error _ g' => g'

/-- The store after a run of calls. -/
def run (g : Graph δ) (calls : List (Call δ)) : Graph δ := calls.foldl after g

theorem run_append (g : Graph δ) (xs ys : List (Call δ)) : run g (xs ++ ys) = run (run g xs) ys :=
  List.foldl_append

theorem run_perform_mergeNode (g : Graph δ) (label key : String) (props : Props δ)
    (schemaVersion : Int) :
    (mergeNode label key props schemaVersion).perform.run g =
      match g.mergeNode label key props schemaVersion with
      | .ok (g', n) => .ok (some n) g'
      | .error e => .error e g := by
  rw [perform, EStateM.run_bind, Graph.run_mergeNodeM]
  cases g.mergeNode label key props schemaVersion <;> rfl

theorem run_perform_addEdge (g : Graph δ) (parent child : NodeKey) (edgeType : String) :
    (addEdge parent child edgeType).perform.run g =
      match g.addEdge parent child edgeType with
      | .ok g' => .ok none g'
      | .error e => .error e g := by
  rw [perform, EStateM.run_bind, Graph.run_addEdgeM]
  cases g.addEdge parent child edgeType <;> rfl

/-- What a call does: a rejected one leaves the store as it was. -/
theorem perform_cases (g : Graph δ) (c : Call δ) :
    (∃ label key props schemaVersion g' n, c = mergeNode label key props schemaVersion ∧
      g.mergeNode label key props schemaVersion = .ok (g', n) ∧
      c.perform.run g = .ok (some n) g') ∨
    (∃ parent child edgeType g', c = addEdge parent child edgeType ∧
      g.addEdge parent child edgeType = .ok g' ∧ c.perform.run g = .ok none g') ∨
    ∃ e, c.perform.run g = .error e g := by
  cases c with
  | mergeNode label key props schemaVersion =>
    have hrun := run_perform_mergeNode g label key props schemaVersion
    cases hm : g.mergeNode label key props schemaVersion with
    | error e =>
      rw [hm] at hrun
      exact .inr (.inr ⟨e, hrun⟩)
    | ok r =>
      rw [hm] at hrun
      exact .inl ⟨label, key, props, schemaVersion, r.1, r.2, rfl, hm, hrun⟩
  | addEdge parent child edgeType =>
    have hrun := run_perform_addEdge g parent child edgeType
    cases he : g.addEdge parent child edgeType with
    | error e =>
      rw [he] at hrun
      exact .inr (.inr ⟨e, hrun⟩)
    | ok g' =>
      rw [he] at hrun
      exact .inr (.inl ⟨parent, child, edgeType, g', rfl, he, hrun⟩)

end Call

/-! ### What a node keeps -/

/-- The status of a node moves from partially filled to filled. -/
def Completes (n n' : Node δ) : Prop :=
  n.get "broker_status" = .str "partial" ∧ n'.get "broker_status" = .str "filled"

/-- `n'` is `n` after a run of calls: the schema version and every property stand, but for the four
properties that the completion of a partial fill rewrites. -/
structure NodeKept (n n' : Node δ) : Prop where
  schemaVersion : n'.schemaVersion = n.schemaVersion
  props : ∀ name v, n.props.get? name = some v → ∃ w, n'.props.get? name = some w ∧
    (w.alike v = true ∨ (name ∈ Graph.partialCompletionProps ∧
      n.get "broker_status" ≠ .str "filled" ∧ n'.get "broker_status" = .str "filled"))

omit [SelfEqual δ] in
theorem NodeKept.refl (n : Node δ) : NodeKept n n := ⟨rfl, fun _ v h => ⟨v, h, .inl (by simp)⟩⟩

omit [SelfEqual δ] in
/-- A filled order stays filled. -/
theorem NodeKept.filled {n n' : Node δ} (h : NodeKept n n')
    (hfilled : n.get "broker_status" = .str "filled") : n'.get "broker_status" = .str "filled" := by
  obtain ⟨w, hw, hsame | ⟨-, -, hend⟩⟩ := h.props _ _ (get_eq_str.mp hfilled)
  · rw [Value.alike_str] at hsame
    rw [get_eq_str, hw, of_decide_eq_true hsame]
  · exact hend

omit [SelfEqual δ] in
theorem NodeKept.trans {a b c : Node δ} (h : NodeKept a b) (h' : NodeKept b c) : NodeKept a c := by
  refine ⟨h'.schemaVersion.trans h.schemaVersion, fun name v hv => ?_⟩
  obtain ⟨w, hw, hcase⟩ := h.props name v hv
  obtain ⟨u, hu, hcase'⟩ := h'.props name w hw
  refine ⟨u, hu, ?_⟩
  rcases hcase with hsame | ⟨hname, hopen, hend⟩
  · rcases hcase' with hsame' | ⟨hname, hopen, hend⟩
    · left
      rw [Value.alike_iff] at hsame hsame' ⊢
      exact hsame'.trans hsame
    · exact .inr ⟨hname, fun hfilled => hopen (h.filled hfilled), hend⟩
  · exact .inr ⟨hname, hopen, h'.filled hend⟩

/-- What an accepted merge changes of a node that stands: nothing, or the four properties in the
merge that completes a partial fill. -/
theorem mergeNode_change {g g' : Graph δ} {label key : String} {props : Props δ} {version : Int}
    {n m : Node δ} (h : g.mergeNode label key props version = .ok (g', n))
    (hm : g.getNode label key = some m) :
    n.schemaVersion = m.schemaVersion ∧ ∀ name v, m.props.get? name = some v →
      ∃ w, n.props.get? name = some w ∧
        (w.alike v = true ∨ (name ∈ Graph.partialCompletionProps ∧ Completes m n)) := by
  obtain ⟨-, -, -, hversion, ⟨hnone, -⟩ | ⟨current, hcur, hcurrent, hfree, hprops⟩⟩ :=
    Graph.mergeNode_ok h
  · rw [hm] at hnone; cases hnone
  cases hm.symm.trans hcur
  refine ⟨hversion.trans hcurrent.symm, fun name v hv => ?_⟩
  have hget : ∀ name, n.props.get? name = (props.get? name).or (m.props.get? name) := by
    intro name
    rw [hprops, Dict.get?_update]
  cases hnew : props.get? name with
  | none => exact ⟨v, by rw [hget, hnew, hv]; rfl, .inl (by simp)⟩
  | some w =>
    refine ⟨w, by rw [hget, hnew]; rfl, ?_⟩
    by_cases hsame : v.pyEq w = true
    · left
      have halike := (Value.pyEq_iff.mp hsame).1
      rw [Value.alike_iff] at halike ⊢
      exact halike.symm
    right
    have hexempt : Graph.isPartialCompletion m.props props name = true := by
      by_contra hnot
      exact hfree name ⟨v, w, hv, hnew, by simpa using hsame, by simpa using hnot⟩
    simp only [Graph.isPartialCompletion, Bool.and_eq_true, decide_eq_true_eq,
      Value.pyEq_str] at hexempt
    obtain ⟨⟨hname, hwas⟩, hfilled⟩ := hexempt
    refine ⟨hname, hwas, ?_⟩
    rw [get_eq_str, hget, get_eq_str (n := ⟨label, key, props, version⟩) |>.mp hfilled]
    rfl

/-! ### Runs -/

namespace Call

/-- What one call leaves of a node. -/
theorem after_node (g : Graph δ) (c : Call δ) {label key : String} {n : Node δ}
    (hn : g.getNode label key = some n) :
    ∃ n', (after g c).getNode label key = some n' ∧ n'.schemaVersion = n.schemaVersion ∧
      ∀ name v, n.props.get? name = some v → ∃ w, n'.props.get? name = some w ∧
        (w.alike v = true ∨ (name ∈ Graph.partialCompletionProps ∧ Completes n n' ∧
          ∃ props version, c = mergeNode label key props version)) := by
  have hsame : ∃ n', g.getNode label key = some n' ∧ n'.schemaVersion = n.schemaVersion ∧
      ∀ name v, n.props.get? name = some v → ∃ w, n'.props.get? name = some w ∧
        (w.alike v = true ∨ (name ∈ Graph.partialCompletionProps ∧ Completes n n' ∧
          ∃ props version, c = mergeNode label key props version)) :=
    ⟨n, hn, rfl, fun _ v hv => ⟨v, hv, .inl (by simp)⟩⟩
  rcases perform_cases g c with ⟨l, k, props, version, g', m, rfl, hm, hrun⟩ |
    ⟨parent, child, edgeType, g', rfl, he, hrun⟩ | ⟨e, hrun⟩
  · simp only [after, hrun]
    obtain ⟨rfl, hl, hk, -⟩ := Graph.mergeNode_ok hm
    by_cases hkey : label = l ∧ key = k
    · obtain ⟨rfl, rfl⟩ := hkey
      obtain ⟨hversion, hprops⟩ := mergeNode_change hm hn
      refine ⟨m, by rw [Graph.getNode_put, if_pos ⟨hl.symm, hk.symm⟩], hversion,
        fun name v hv => ?_⟩
      obtain ⟨w, hw, hcase⟩ := hprops name v hv
      refine ⟨w, hw, ?_⟩
      rcases hcase with hequal | ⟨hname, hdone⟩
      · exact .inl hequal
      · exact .inr ⟨hname, hdone, props, version, rfl⟩
    · rw [Graph.getNode_put, if_neg (by rw [hl, hk]; exact hkey)]
      exact hsame
  · simp only [after, hrun]
    rw [Graph.getNode_of_nodes_eq (Graph.addEdge_ok he).1]
    exact hsame
  · simp only [after, hrun]
    exact hsame

theorem after_kept (g : Graph δ) (c : Call δ) {label key : String} {n : Node δ}
    (hn : g.getNode label key = some n) :
    ∃ n', (after g c).getNode label key = some n' ∧ NodeKept n n' := by
  obtain ⟨n', hn', hversion, hprops⟩ := after_node g c hn
  refine ⟨n', hn', hversion, fun name v hv => ?_⟩
  obtain ⟨w, hw, hcase⟩ := hprops name v hv
  refine ⟨w, hw, hcase.imp_right fun ⟨hname, ⟨hwas, hfilled⟩, _⟩ => ⟨hname, ?_, hfilled⟩⟩
  rw [hwas]
  simp

theorem after_edges (g : Graph δ) (c : Call δ) : g.edges <+: (after g c).edges := by
  rcases perform_cases g c with ⟨l, k, props, version, g', m, rfl, hm, hrun⟩ |
    ⟨parent, child, edgeType, g', rfl, he, hrun⟩ | ⟨e, hrun⟩
  · simp only [after, hrun]
    exact (Graph.mergeNode_extends hm).edges
  · simp only [after, hrun]
    exact (Graph.addEdge_extends he).edges
  · simp only [after, hrun]
    exact List.prefix_rfl

theorem run_kept (g : Graph δ) (calls : List (Call δ)) {label key : String} {n : Node δ}
    (hn : g.getNode label key = some n) :
    ∃ n', (run g calls).getNode label key = some n' ∧ NodeKept n n' := by
  induction calls generalizing g n with
  | nil => exact ⟨n, hn, .refl n⟩
  | cons c calls ih =>
    obtain ⟨m, hm, hkept⟩ := after_kept g c hn
    obtain ⟨n', hn', hkept'⟩ := ih (after g c) hm
    exact ⟨n', hn', hkept.trans hkept'⟩

theorem run_edges (g : Graph δ) (calls : List (Call δ)) : g.edges <+: (run g calls).edges := by
  induction calls generalizing g with
  | nil => exact List.prefix_rfl
  | cons c calls ih => exact (after_edges g c).trans (ih (after g c))

/-- Whether every value of a call equals itself. -/
def EqualsItself : Call δ → Prop
  | mergeNode _ _ props _ => ∀ name v, props.get? name = some v → v.equalsItself = true
  | addEdge _ _ _ => True

/-- An accepted merge whose values equal themselves, made again, returns the same node and changes
nothing. -/
theorem mergeNode_again {g g' : Graph δ} {label key : String} {props : Props δ} {version : Int}
    {n : Node δ} (h : g.mergeNode label key props version = .ok (g', n))
    (hself : ∀ name v, props.get? name = some v → v.equalsItself = true) :
    g'.mergeNode label key props version = .ok (g', n) := by
  have hget := Graph.mergeNode_get? h
  obtain ⟨rfl, rfl, rfl, rfl, hnode⟩ := Graph.mergeNode_ok h
  have hpositive : ¬ n.schemaVersion < 1 := by
    intro hlt
    rw [Graph.mergeNode, if_pos hlt] at h
    cases h
  have hupdate : n.props.update props = n.props := by
    rcases hnode with ⟨-, hprops⟩ | ⟨current, -, -, -, hprops⟩
    · rw [hprops]
      exact Dict.setAll_of_get? fun p hp => Dict.mem_entries_iff.mp hp
    · rw [hprops, Dict.update_update_self]
  have hfree : ∀ name, ¬ Graph.Conflicts n.props props name := by
    rintro name ⟨v, w, hv, hw, hne, -⟩
    rw [hget name, hw] at hv
    cases hv
    rw [Value.pyEq_self, hself name v hw] at hne
    cases hne
  have hmerged : Graph.appendProps n.props props = .ok n.props :=
    Graph.appendProps_ok_iff.mpr ⟨hfree, hupdate.symm⟩
  have hput : (g.put n).put n = g.put n := by
    have hnodes : ((g.put n).put n).nodes = (g.put n).nodes :=
      Dict.set_of_get? (Dict.get?_set_self g.nodes n.nodeKey n)
    have hedges : ((g.put n).put n).edges = (g.put n).edges := rfl
    exact Graph.ext hnodes hedges
  rw [Graph.mergeNode, if_neg hpositive, Graph.getNode_put, if_pos ⟨rfl, rfl⟩]
  simp only [ne_eq, not_true_eq_false, if_false, hmerged]
  exact congrArg Except.ok (Prod.ext hput rfl)

/-- A merge made again with a value that does not equal itself is refused: the node holds that very
value, and the completion that could excuse it is done. -/
theorem mergeNode_refused {g g' : Graph δ} {label key : String} {props : Props δ} {version : Int}
    {n : Node δ} (h : g.mergeNode label key props version = .ok (g', n)) {name : String}
    {v : Value δ} (hv : props.get? name = some v) (hself : v.equalsItself = false) :
    ∀ r, g'.mergeNode label key props version ≠ .ok r := by
  rintro ⟨g'', m⟩ hagain
  have hget := Graph.mergeNode_get? h
  obtain ⟨rfl, rfl, rfl, rfl, -⟩ := Graph.mergeNode_ok h
  have hstands : n.props.get? name = some v := by
    rw [hget, hv]
    rfl
  obtain ⟨-, -, -, -, ⟨hnone, -⟩ | ⟨current, hcurrent, -, hfree, -⟩⟩ := Graph.mergeNode_ok hagain
  · rw [Graph.getNode_put, if_pos ⟨rfl, rfl⟩] at hnone
    cases hnone
  · rw [Graph.getNode_put, if_pos ⟨rfl, rfl⟩] at hcurrent
    cases hcurrent
    refine hfree name ⟨v, v, hstands, hv, by rw [Value.pyEq_self, hself], ?_⟩
    by_contra hexempt
    simp only [Graph.isPartialCompletion, Bool.and_eq_true, decide_eq_true_eq, Value.pyEq_str,
      Bool.not_eq_false] at hexempt
    obtain ⟨⟨-, hpartial⟩, hfilled⟩ := hexempt
    have hnow : n.props.get? "broker_status" = some (.str "filled") := by
      rw [hget, get_eq_str (n := ⟨n.label, n.key, props, n.schemaVersion⟩) |>.mp hfilled]
      rfl
    have hwas := get_eq_str.mp (show n.get "broker_status" = .str "partial" from hpartial)
    rw [hnow] at hwas
    simp at hwas

omit [DecidableEq δ] [SelfEqual δ] in
theorem addEdge_again {g g' : Graph δ} {parent child : NodeKey} {edgeType : String}
    (h : g.addEdge parent child edgeType = .ok g') :
    g'.addEdge parent child edgeType = .ok g' := by
  obtain ⟨hnodes, hp, hc, hedges⟩ := Graph.addEdge_ok h
  rw [Graph.addEdge_eq_link edgeType (hnodes ▸ hp) (hnodes ▸ hc)]
  have hmem : (⟨parent, child, edgeType⟩ : Edge) ∈ g'.edges := by
    rw [hedges]
    split
    · assumption
    · simp
  have hlink : (g'.link ⟨parent, child, edgeType⟩ (hnodes ▸ hp) (hnodes ▸ hc)).edges = g'.edges :=
    if_pos hmem
  exact congrArg Except.ok (Graph.ext rfl hlink)

end Call

/-- What holds of a run of calls from a store. -/
structure AppendOnly (g : Graph δ) (calls : List (Call δ)) : Prop where
  /-- Nodes and properties stay, and keep their value outside the completion of a partial fill. -/
  nodes : ∀ label key n, g.getNode label key = some n →
    ∃ n', (Call.run g calls).getNode label key = some n' ∧ NodeKept n n'
  /-- A value changes only in the merge that moves the node's status from partial to filled. -/
  changed : ∀ xs c ys, calls = xs ++ c :: ys → ∀ label key n n',
    (Call.run g xs).getNode label key = some n →
    (Call.run g (xs ++ [c])).getNode label key = some n' →
    ∀ name v w, n.props.get? name = some v → n'.props.get? name = some w → w.alike v = false →
      name ∈ Graph.partialCompletionProps ∧ Completes n n' ∧
        ∃ props version, c = .mergeNode label key props version
  /-- Such a merge happens to a node at most once. -/
  once : ∀ xs c ys d zs, calls = xs ++ c :: (ys ++ d :: zs) → ∀ label key n n' m m',
    (Call.run g xs).getNode label key = some n →
    (Call.run g (xs ++ [c])).getNode label key = some n' → Completes n n' →
    (Call.run g (xs ++ c :: ys)).getNode label key = some m →
    (Call.run g (xs ++ c :: ys ++ [d])).getNode label key = some m' → ¬ Completes m m'
  edges : g.edges <+: (Call.run g calls).edges
  distinct : (Call.run g calls).edges.Nodup
  rejected : ∀ (c : Call δ) e t, c.perform.run (Call.run g calls) = .error e t → t =
    Call.run g calls
  /-- An accepted call made again changes nothing exactly where its values equal themselves. -/
  repeated : ∀ (c : Call δ) r t, c.perform.run (Call.run g calls) = .ok r t →
    (c.perform.run t = .ok r t ↔ c.EqualsItself)

/-- The in-memory store is append-only over every run of calls. -/
theorem appendOnly (g : Graph δ) (calls : List (Call δ)) : AppendOnly g calls where
  nodes label key n hn := Call.run_kept g calls hn
  changed := by
    rintro xs c ys - label key n n' hn hn' name v w hv hw hne
    rw [Call.run_append] at hn'
    obtain ⟨m, hm, -, hprops⟩ := Call.after_node (Call.run g xs) c hn
    cases hm.symm.trans hn'
    obtain ⟨u, hu, hsame | hchange⟩ := hprops name v hv
    · cases hw.symm.trans hu
      rw [hsame] at hne; cases hne
    · exact hchange
  once := by
    rintro xs c ys d zs - label key n n' m m' hn hn' ⟨-, hfilled⟩ hm hm' ⟨hwas, -⟩
    have hruns : Call.run g (xs ++ c :: ys) = Call.run (Call.run g (xs ++ [c])) ys := by
      rw [← Call.run_append, List.append_assoc]
      rfl
    obtain ⟨k, hk, hkept⟩ := Call.run_kept (Call.run g (xs ++ [c])) ys hn'
    rw [hruns] at hm
    cases hm.symm.trans hk
    have hstill := hkept.filled hfilled
    rw [hwas] at hstill
    simp at hstill
  edges := Call.run_edges g calls
  distinct := (Call.run g calls).simple
  rejected := by
    intro c e t h
    rcases Call.perform_cases (Call.run g calls) c with ⟨_, _, _, _, _, _, -, -, hrun⟩ |
      ⟨_, _, _, _, -, -, hrun⟩ | ⟨e', hrun⟩
    · rw [hrun] at h; cases h
    · rw [hrun] at h; cases h
    · rw [hrun] at h; cases h; rfl
  repeated := by
    intro c r t h
    rcases Call.perform_cases (Call.run g calls) c with ⟨label, key, props, version, g', n,
      rfl, hm, hrun⟩ |
      ⟨parent, child, edgeType, g', rfl, he, hrun⟩ | ⟨e, hrun⟩
    · rw [hrun] at h
      cases h
      rw [Call.run_perform_mergeNode]
      constructor
      · intro hagain name v hv
        by_contra hself
        have hrefused := Call.mergeNode_refused hm hv (eq_false_of_ne_true hself)
        cases hm' : t.mergeNode label key props version with
        | error e => rw [hm'] at hagain; cases hagain
        | ok again => exact hrefused again hm'
      · intro hself
        rw [Call.mergeNode_again hm hself]
    · rw [hrun] at h
      cases h
      rw [Call.run_perform_addEdge, Call.addEdge_again he]
      exact iff_of_true rfl True.intro
    · rw [hrun] at h; cases h

/-- A payload that is a float without a value. -/
inductive NotANumber where
  | nan
deriving DecidableEq

instance : SelfEqual NotANumber := ⟨fun _ => false⟩

/-- A merge of a value that is no number is accepted once and refused when it is made again. -/
theorem nan_refused_again : ¬ ∀ (g : Graph NotANumber) (c : Call NotANumber) r t,
    c.perform.run g = .ok r t → c.perform.run t = .ok r t := by
  intro h
  have hagain := h .empty (.mergeNode "Run" "r1" (.ofList [("x", .doc .nan)]) 1) _ _ rfl
  cases hagain

end TradingAgents.Kernel
