import Mathlib.Data.List.Induction
import Mathlib.Data.List.Sort
import TradingAgents.Kernel.Writes

/-! A declared vocabulary of the graph, checked at every write: which labels, edge shapes and
properties there are, and which writer may create what.  The guarded store refuses exactly the
writes after which the graph would no longer conform, and those of a label that the writer does not
own. -/

namespace TradingAgents.Kernel

open ProofKit

/-- A closed graph vocabulary: what may be written, and by whom. -/
structure Vocabulary where
  labels : List String
  edgeTypes : List String
  edgeSignatures : List (String × String × String)
  owners : Dict String (List String)
  properties : Dict String (List String)

inductive VocabularyError where
  | undeclaredLabel (label : String)
  | notOwned (writer label : String) (owned : List String)
  | undeclaredProperties (label : String) (names : List String)
  | undeclaredEdgeType (edgeType : String)
  | undeclaredShape (parentLabel edgeType childLabel : String)
deriving DecidableEq, Repr

def quoted (s : String) : String := "'" ++ s ++ "'"

def quotedList (names : List String) : String :=
  "[" ++ ", ".intercalate ((names.insertionSort (· ≤ ·)).map quoted) ++ "]"

def VocabularyError.text : VocabularyError → String
  | undeclaredLabel label => "undeclared node label " ++ quoted label ++
      " — add it to the vocabulary or fix the spelling"
  | notOwned writer label owned => quoted writer ++ " may not write label " ++ quoted label ++
      "; it declared " ++ quotedList owned
  | undeclaredProperties label names => "undeclared properties for label " ++ quoted label ++ ": " ++
      quotedList names
  | undeclaredEdgeType edgeType => "undeclared edge type " ++ quoted edgeType ++
      " — add it to the vocabulary or fix the spelling"
  | undeclaredShape parentLabel edgeType childLabel => "edge " ++ quoted edgeType ++
      " is not declared to run " ++ parentLabel ++ " -> " ++ childLabel

namespace Vocabulary

variable (v : Vocabulary)

/-- Whether a writer may create nodes of a label; an unnamed or undeclared writer may. -/
def mayWrite (writer label : String) : Bool :=
  match v.owners.get? writer with
  | some owned => decide (writer = "" ∨ label ∈ owned)
  | none => true

/-- The names of `names` that are not declared for a label. -/
def unknown (label : String) (names : List String) : List String :=
  match v.properties.get? label with
  | some declared => names.filter (· ∉ declared)
  | none => []

/-- Refuse a node whose label is not declared, or not its writer's, or whose properties are not. -/
def checkNode (label writer : String) (names : List String) : Except VocabularyError Unit :=
  if label ∉ v.labels then .error (.undeclaredLabel label)
  else if v.mayWrite writer label = false then
    .error (.notOwned writer label ((v.owners.get? writer).getD []))
  else if v.unknown label names ≠ [] then
    .error (.undeclaredProperties label (v.unknown label names))
  else .ok ()

/-- Refuse an edge whose type or shape is not declared; without declared shapes every shape is. -/
def checkEdge (parentLabel edgeType childLabel : String) : Except VocabularyError Unit :=
  if edgeType ∉ v.edgeTypes then .error (.undeclaredEdgeType edgeType)
  else if v.edgeSignatures = [] then .ok ()
  else if (parentLabel, edgeType, childLabel) ∉ v.edgeSignatures then
    .error (.undeclaredShape parentLabel edgeType childLabel)
  else .ok ()

end Vocabulary

/-! ### The guarded store -/

/-- A guarded write is refused by the vocabulary or by the store. -/
inductive GuardedError where
  | vocabulary (e : VocabularyError)
  | store (e : GraphError)
deriving DecidableEq, Repr

/-- A write through the handle of a writer. -/
structure HandledWrite (δ : Type) where
  writer : String
  write : Write δ

namespace Graph

variable {δ : Type} [DecidableEq δ] (v : Vocabulary)

/-- Check the node, then merge it. -/
def guardedMergeNode (g : Graph δ) (writer label key : String) (props : Props δ)
    (schemaVersion : Int := 1) : Except GuardedError (Graph δ × Node δ) := do
  (v.checkNode label writer props.keys).mapError .vocabulary
  (g.mergeNode label key props schemaVersion).mapError .store

/-- Check the shape of the edge, then add it. -/
def guardedAddEdge (g : Graph δ) (parent child : NodeKey) (edgeType : String) :
    Except GuardedError (Graph δ) := do
  (v.checkEdge parent.1 edgeType child.1).mapError .vocabulary
  (g.addEdge parent child edgeType).mapError .store

def guardedWrite (g : Graph δ) (h : HandledWrite δ) : Except GuardedError (Graph δ) :=
  match h.write with
  | .merge label key props => do
    let (g, _) ← g.guardedMergeNode v h.writer label key props
    pure g
  | .link e => g.guardedAddEdge v e.parent e.child e.edgeType

def guardedWrites (g : Graph δ) (hs : List (HandledWrite δ)) : Except GuardedError (Graph δ) :=
  hs.foldlM (guardedWrite v) g

/-- A write whose writer goes on when it is refused. -/
def offer (g : Graph δ) (h : HandledWrite δ) : Graph δ :=
  match g.guardedWrite v h with
  | .ok g' => g'
  | .error _ => g

end Graph

/-! ### Conformity -/

namespace Vocabulary

variable {δ : Type} (v : Vocabulary)

structure NodeConforms (label : String) (names : List String) : Prop where
  known : label ∈ v.labels
  declared : v.unknown label names = []

structure EdgeConforms (parentLabel edgeType childLabel : String) : Prop where
  known : edgeType ∈ v.edgeTypes
  shape : v.edgeSignatures = [] ∨ (parentLabel, edgeType, childLabel) ∈ v.edgeSignatures

/-- A graph all of whose nodes and edges are declared. -/
structure Conforms (g : Graph δ) : Prop where
  nodes : ∀ label key n, g.getNode label key = some n → v.NodeConforms label n.props.keys
  edges : ∀ e ∈ g.edges, v.EdgeConforms e.parent.1 e.edgeType e.child.1

/-- What a write asks of the vocabulary. -/
def Declared : Write δ → Prop
  | .merge label _ props => v.NodeConforms label props.keys
  | .link e => v.EdgeConforms e.parent.1 e.edgeType e.child.1

/-- What a write asks of its writer. -/
def Owned (h : HandledWrite δ) : Prop :=
  ∀ node, h.write.node? = some node → v.mayWrite h.writer node.1 = true

end Vocabulary

section

variable {δ : Type} {v : Vocabulary} {g g' : Graph δ} {w : Write δ} {h : HandledWrite δ}

theorem unknown_eq_nil {label : String} {names : List String} : v.unknown label names = [] ↔
    ∀ declared, v.properties.get? label = some declared → ∀ name ∈ names, name ∈ declared := by
  unfold Vocabulary.unknown
  cases v.properties.get? label with
  | none => simp
  | some declared => simp [List.filter_eq_nil_iff]

theorem checkNode_ok_iff {label writer : String} {names : List String} :
    v.checkNode label writer names = .ok () ↔
      v.NodeConforms label names ∧ v.mayWrite writer label = true := by
  unfold Vocabulary.checkNode
  split
  · rename_i hlabel
    exact ⟨nofun, fun h => absurd h.1.known hlabel⟩
  · rename_i hlabel
    split
    · rename_i howner
      refine ⟨nofun, fun h => ?_⟩
      rw [howner] at h
      cases h.2
    · rename_i howner
      split
      · rename_i hnames
        exact ⟨nofun, fun h => absurd h.1.declared hnames⟩
      · rename_i hnames
        exact ⟨fun _ => ⟨⟨not_not.mp hlabel, not_not.mp hnames⟩, eq_true_of_ne_false howner⟩,
          fun _ => rfl⟩

theorem checkEdge_ok_iff {parentLabel edgeType childLabel : String} :
    v.checkEdge parentLabel edgeType childLabel = .ok () ↔
      v.EdgeConforms parentLabel edgeType childLabel := by
  unfold Vocabulary.checkEdge
  split
  · rename_i htype
    exact ⟨nofun, fun h => absurd h.known htype⟩
  · rename_i htype
    split
    · rename_i hopen
      exact ⟨fun _ => ⟨not_not.mp htype, .inl hopen⟩, fun _ => rfl⟩
    · rename_i hclosed
      split
      · rename_i hshape
        exact ⟨nofun, fun h => absurd (h.shape.resolve_left hclosed) hshape⟩
      · rename_i hshape
        exact ⟨fun _ => ⟨not_not.mp htype, .inr (not_not.mp hshape)⟩, fun _ => rfl⟩

variable [DecidableEq δ]

/-- A guarded write goes through if it is declared, its writer owns it and the store takes it. -/
theorem guardedWrite_ok_iff : g.guardedWrite v h = .ok g' ↔
    v.Declared h.write ∧ v.Owned h ∧ g.write h.write = .ok g' := by
  obtain ⟨writer, w⟩ := h
  cases w with
  | merge label key props =>
    have howned : v.Owned ⟨writer, .merge label key props⟩ ↔ v.mayWrite writer label = true :=
      ⟨fun h => h _ rfl, fun h node hnode => by cases hnode; exact h⟩
    rw [howned, ← and_assoc]
    show _ ↔ (v.NodeConforms label props.keys ∧ _) ∧ _
    rw [← checkNode_ok_iff]
    unfold Graph.guardedWrite Graph.guardedMergeNode Graph.write
    dsimp only
    cases v.checkNode label writer props.keys with
    | error e => simp [Except.mapError, bind, Except.bind]
    | ok u =>
      cases g.mergeNode label key props with
      | error e => simp [Except.mapError, bind, Except.bind]
      | ok r => simp [Except.mapError, bind, Except.bind]
  | link e =>
    have howned : v.Owned (⟨writer, .link e⟩ : HandledWrite δ) := fun node hnode => by cases hnode
    show _ ↔ v.EdgeConforms e.parent.1 e.edgeType e.child.1 ∧ _ ∧ _
    rw [← checkEdge_ok_iff]
    unfold Graph.guardedWrite Graph.guardedAddEdge Graph.write
    dsimp only
    cases v.checkEdge e.parent.1 e.edgeType e.child.1 with
    | error e' => simp [Except.mapError, bind, Except.bind]
    | ok u =>
      cases g.addEdge e.parent e.child e.edgeType with
      | error e' => simp [Except.mapError, bind, Except.bind, howned]
      | ok r => simp [Except.mapError, bind, Except.bind, howned]

/-! ### One write -/

/-- A node that stands keeps its properties' names. -/
theorem keys_write (hw : g.write w = .ok g') {label key : String} {n : Node δ}
    (hn : g.getNode label key = some n) :
    ∃ n', g'.getNode label key = some n' ∧ ∀ name ∈ n.props.keys, name ∈ n'.props.keys := by
  cases w with
  | link e =>
    exact ⟨n, by rw [Graph.getNode_of_nodes_eq (Graph.addEdge_ok hw).1]; exact hn, fun _ h => h⟩
  | merge l k props =>
    obtain ⟨⟨g₁, m⟩, hm, hret⟩ := Fallible.bind_eq_ok.mp hw
    cases hret
    have hget := fun name => Graph.mergeNode_get? hm name
    obtain ⟨rfl, hl, hk, -⟩ := Graph.mergeNode_ok hm
    rw [Graph.getNode_put]
    split
    · rename_i hsame
      refine ⟨m, rfl, fun name hname => ?_⟩
      rw [← hl, ← hk, ← hsame.1, ← hsame.2, hn] at hget
      rw [Dict.mem_keys_iff] at hname ⊢
      rw [hget name]
      cases props.get? name with
      | none => exact hname
      | some value => rfl
    · exact ⟨n, hn, fun _ h => h⟩

/-- The graph after a write conforms exactly if it did before and the write is declared. -/
theorem conforms_write (hw : g.write w = .ok g') :
    v.Conforms g' ↔ v.Conforms g ∧ v.Declared w := by
  constructor
  · intro h
    refine ⟨⟨fun label key n hn => ?_, fun e he => h.edges e ?_⟩, ?_⟩
    · obtain ⟨n', hn', hnames⟩ := keys_write hw hn
      obtain ⟨hknown, hdeclared⟩ := h.nodes label key n' hn'
      rw [unknown_eq_nil] at hdeclared
      exact ⟨hknown, unknown_eq_nil.mpr fun declared hd name hname =>
        hdeclared declared hd name (hnames name hname)⟩
    · exact (Graph.mem_edges_write hw).mpr (.inl he)
    · cases w with
      | link e => exact h.edges e ((Graph.mem_edges_write hw).mpr (.inr rfl))
      | merge label key props =>
        obtain ⟨⟨g₁, m⟩, hm, hret⟩ := Fallible.bind_eq_ok.mp hw
        cases hret
        have hget := fun name => Graph.mergeNode_get? hm name
        obtain ⟨rfl, rfl, rfl, -⟩ := Graph.mergeNode_ok hm
        obtain ⟨hknown, hdeclared⟩ := h.nodes m.label m.key m (by rw [Graph.getNode_put]; simp)
        rw [unknown_eq_nil] at hdeclared
        refine ⟨hknown, unknown_eq_nil.mpr fun declared hd name hname => ?_⟩
        refine hdeclared declared hd name ?_
        rw [Dict.mem_keys_iff] at hname ⊢
        rw [hget name]
        obtain ⟨value, hvalue⟩ := Option.isSome_iff_exists.mp hname
        rw [hvalue]
        rfl
  · rintro ⟨h, hdeclared⟩
    refine ⟨fun label key n hn => ?_, fun e he => ?_⟩
    · cases w with
      | link e =>
        rw [Graph.getNode_of_nodes_eq (Graph.addEdge_ok hw).1] at hn
        exact h.nodes label key n hn
      | merge l k props =>
        obtain ⟨⟨g₁, m⟩, hm, hret⟩ := Fallible.bind_eq_ok.mp hw
        cases hret
        have hget := fun name => Graph.mergeNode_get? hm name
        obtain ⟨rfl, rfl, rfl, -⟩ := Graph.mergeNode_ok hm
        rw [Graph.getNode_put] at hn
        split at hn
        · rename_i hsame
          obtain ⟨rfl, rfl⟩ := hsame
          cases hn
          refine ⟨hdeclared.known, unknown_eq_nil.mpr fun declared hd name hname => ?_⟩
          rw [Dict.mem_keys_iff, hget name] at hname
          cases hnew : props.get? name with
          | some value =>
            exact unknown_eq_nil.mp hdeclared.declared declared hd name
              (Dict.mem_keys_iff.mpr (by rw [hnew]; rfl))
          | none =>
            rw [hnew, Option.none_or] at hname
            obtain ⟨value, hvalue⟩ := Option.isSome_iff_exists.mp hname
            obtain ⟨old, hold, hvalue⟩ := Option.bind_eq_some_iff.mp hvalue
            refine unknown_eq_nil.mp (h.nodes _ _ old hold).declared declared hd name ?_
            exact Dict.mem_keys_iff.mpr (by rw [hvalue]; rfl)
        · exact h.nodes label key n hn
    · rcases (Graph.mem_edges_write hw).mp he with hold | hnew
      · exact h.edges e hold
      · cases w with
        | link e' =>
          cases hnew
          exact hdeclared
        | merge l k props => cases hnew

/-! ### Runs -/

omit [DecidableEq δ] in
theorem conforms_empty (v : Vocabulary) : v.Conforms (.empty : Graph δ) :=
  ⟨fun _ _ _ h => by simp [Graph.getNode, Graph.empty] at h, fun _ h => absurd h List.not_mem_nil⟩

/-- A graph that conforms has come from graphs that conform. -/
theorem conforms_of_writeAll {ws : List (Write δ)} (hwrites : g.writeAll ws = .ok g')
    (h : v.Conforms g') : v.Conforms g := by
  induction ws generalizing g with
  | nil =>
    cases hwrites
    exact h
  | cons w ws ih =>
    obtain ⟨t, ht, hrest⟩ := Graph.writeAll_cons.mp hwrites
    exact ((conforms_write ht).mp (ih hrest)).1

/-- The guard refuses exactly what the vocabulary rules out: of the writes that a store takes, all
go through the guard if and only if they leave a graph that conforms and each is its writer's. -/
theorem guardedWrites_ok_iff {hs : List (HandledWrite δ)} (hg : v.Conforms g)
    (hwrites : g.writeAll (hs.map HandledWrite.write) = .ok g') :
    g.guardedWrites v hs = .ok g' ↔ v.Conforms g' ∧ ∀ h ∈ hs, v.Owned h := by
  induction hs generalizing g with
  | nil =>
    cases hwrites
    exact ⟨fun _ => ⟨hg, fun _ h => absurd h List.not_mem_nil⟩, fun _ => rfl⟩
  | cons h hs ih =>
    rw [List.map_cons, Graph.writeAll_cons] at hwrites
    obtain ⟨t, ht, hrest⟩ := hwrites
    rw [Graph.guardedWrites, List.foldlM_cons, Fallible.bind_eq_ok]
    constructor
    · rintro ⟨t', ht', hguarded⟩
      obtain ⟨hdeclared, howned, ht''⟩ := guardedWrite_ok_iff.mp ht'
      rw [ht] at ht''
      cases ht''
      have hnext := (conforms_write ht).mpr ⟨hg, hdeclared⟩
      obtain ⟨hconforms, hall⟩ := (ih hnext hrest).mp hguarded
      exact ⟨hconforms, List.forall_mem_cons.mpr ⟨howned, hall⟩⟩
    · rintro ⟨hconforms, hall⟩
      obtain ⟨howned, hall⟩ := List.forall_mem_cons.mp hall
      have hnext := conforms_of_writeAll hrest hconforms
      exact ⟨t, guardedWrite_ok_iff.mpr ⟨((conforms_write ht).mp hnext).2, howned, ht⟩,
        (ih hnext hrest).mpr ⟨hconforms, hall⟩⟩

/-- A writer that does not own a label does not create its nodes, though the label is declared. -/
theorem guardedWrites_foreign :
    let v : Vocabulary := ⟨["PMRun"], [], [], .ofList [("scanner", ["ScanRun"])], .empty⟩
    (.empty : Graph Unit).guardedWrites v [⟨"scanner", .merge "PMRun" "r1" .empty⟩] ≠
      .ok (Graph.empty.put ⟨"PMRun", "r1", .empty, 1⟩) := by
  intro v hok
  obtain ⟨-, howned⟩ := (guardedWrites_ok_iff (conforms_empty v) rfl).mp hok
  exact absurd (howned _ List.mem_cons_self _ rfl) (by decide)

/-- Handles of any writers on one store, whose writes are refused or go through in any order: the
store conforms at every point, it holds what the store without a guard holds after the writes that
went through, and every node of it was created by a writer that may create nodes of its label. -/
theorem offers_conform (v : Vocabulary) (hs : List (HandledWrite δ)) :
    v.Conforms (hs.foldl (Graph.offer v) .empty) ∧
    (∃ accepted : List (HandledWrite δ), accepted.Sublist hs ∧
      Graph.empty.writeAll (accepted.map HandledWrite.write) =
        .ok (hs.foldl (Graph.offer v) .empty)) ∧
    ∀ label key n, (hs.foldl (Graph.offer v) .empty).getNode label key = some n →
      ∃ h ∈ hs, h.write.node? = some (label, key) ∧ v.mayWrite h.writer label = true := by
  suffices v.Conforms (hs.foldl (Graph.offer v) .empty) ∧
      ∃ accepted : List (HandledWrite δ), accepted.Sublist hs ∧ (∀ h ∈ accepted, v.Owned h) ∧
        Graph.empty.writeAll (accepted.map HandledWrite.write) =
          .ok (hs.foldl (Graph.offer v) .empty) by
    obtain ⟨hconforms, accepted, hsub, howned, hwrites⟩ := this
    refine ⟨hconforms, ⟨accepted, hsub, hwrites⟩, fun label key n hn => ?_⟩
    by_contra hnone
    push Not at hnone
    have hfree : ∀ w ∈ accepted.map HandledWrite.write, w.node? ≠ some (label, key) := by
      intro w hw hnode
      obtain ⟨h, hh, rfl⟩ := List.mem_map.mp hw
      exact hnone h (hsub.subset hh) hnode (howned h hh _ hnode)
    rw [Graph.getNode_writeAll hwrites hfree] at hn
    simp [Graph.getNode, Graph.empty] at hn
  induction hs using List.reverseRecOn with
  | nil =>
    exact ⟨conforms_empty v, [], List.Sublist.refl _, fun _ h => absurd h List.not_mem_nil, rfl⟩
  | append_singleton hs h ih =>
    obtain ⟨hconforms, accepted, hsub, howned, hwrites⟩ := ih
    rw [List.foldl_append, List.foldl_cons, List.foldl_nil]
    generalize hs.foldl (Graph.offer v) .empty = g at *
    unfold Graph.offer
    cases hguarded : g.guardedWrite v h with
    | error e =>
      exact ⟨hconforms, accepted, hsub.trans (List.sublist_append_left _ _), howned, hwrites⟩
    | ok g' =>
      obtain ⟨hdeclared, hown, hwrite⟩ := guardedWrite_ok_iff.mp hguarded
      refine ⟨(conforms_write hwrite).mpr ⟨hconforms, hdeclared⟩, accepted ++ [h],
        hsub.append (List.Sublist.refl _), ?_, ?_⟩
      · simpa using fun h' hh' => hh'.elim (howned h') fun heq => heq ▸ hown
      · rw [List.map_append, Graph.writeAll_append]
        exact ⟨g, hwrites, Graph.writeAll_cons.mpr ⟨g', hwrite, rfl⟩⟩

end

end TradingAgents.Kernel
