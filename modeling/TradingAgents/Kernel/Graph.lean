import TradingAgents.Kernel.Value

/-! The append-only graph store: the in-memory backend of the graph protocol.  A node is identified
by its label and key and only gains properties, an edge is identified by its endpoints and type and
is never removed.  The invariants of the store (a node stands under its own key, an edge joins nodes
of the store, no edge stands twice) are fields of `Graph`, so no operation can leave them. -/

namespace TradingAgents.Kernel

open ProofKit

/-- The identity of a node: its label and its key. -/
abbrev NodeKey := String × String

instance : LawfulBEq NodeKey := inferInstance

/-- One append-only graph node. -/
structure Node (δ : Type) where
  label : String
  key : String
  props : Props δ
  schemaVersion : Int := 1

def Node.nodeKey {δ : Type} (n : Node δ) : NodeKey := (n.label, n.key)

/-- A node's property, `None` when absent. -/
def Node.get {δ : Type} (n : Node δ) (name : String) : Value δ := Props.get n.props name

/-- One directed relationship between two graph nodes. -/
structure Edge where
  parent : NodeKey
  child : NodeKey
  edgeType : String
deriving DecidableEq, Repr

/-- The errors of the store. -/
inductive GraphError where
  | schemaVersionNotPositive
  | schemaVersionChanged
  | overwritten (name : String)
  | missingNode (label key : String)
deriving DecidableEq, Repr

/-- The text each error carries. -/
def GraphError.text : GraphError → String
  | schemaVersionNotPositive => "schema_version must be positive"
  | schemaVersionChanged => "schema_version cannot change for an existing node"
  | overwritten name => "property '" ++ name ++ "' cannot be overwritten"
  | missingNode label key => "missing graph node " ++ label ++ "." ++ key

/-- The graph store. -/
structure Graph (δ : Type) where
  nodes : Dict NodeKey (Node δ)
  edges : List Edge
  named : ∀ k n, nodes.get? k = some n → n.nodeKey = k
  closed : ∀ e ∈ edges, e.parent ∈ nodes.keys ∧ e.child ∈ nodes.keys
  simple : edges.Nodup

namespace Graph

variable {δ : Type}

def empty : Graph δ where
  nodes := .empty
  edges := []
  named := by simp
  closed := by simp
  simple := List.nodup_nil

/-! ### The operations -/

def getNode (g : Graph δ) (label key : String) : Option (Node δ) := g.nodes.get? (label, key)

def listNodes (g : Graph δ) (label : String) : List (Node δ) :=
  (g.nodes.entries.map Prod.snd).filter fun n => n.label = label

/-- The store with `n` under its own key. -/
def put (g : Graph δ) (n : Node δ) : Graph δ where
  nodes := g.nodes.set n.nodeKey n
  edges := g.edges
  named := by
    intro k m h
    rw [Dict.get?_set] at h
    split at h
    · rename_i hk
      rw [← Option.some.inj h, hk]
    · exact g.named k m h
  closed := fun e he =>
    ⟨Dict.mem_keys_set.mpr (.inr (g.closed e he).1), Dict.mem_keys_set.mpr (.inr (g.closed e he).2)⟩
  simple := g.simple

/-- The store with one more edge, unless that edge stands already. -/
def link (g : Graph δ) (e : Edge) (hp : e.parent ∈ g.nodes.keys) (hc : e.child ∈ g.nodes.keys) :
    Graph δ where
  nodes := g.nodes
  edges := if e ∈ g.edges then g.edges else g.edges ++ [e]
  named := g.named
  closed := by
    intro e' he'
    split at he'
    · exact g.closed e' he'
    · rcases List.mem_append.mp he' with h | h
      · exact g.closed e' h
      · rw [List.mem_singleton.mp h]; exact ⟨hp, hc⟩
  simple := by
    split
    · exact g.simple
    · rename_i h
      exact List.nodup_append.mpr ⟨g.simple, by simp, fun a ha b hb => by
        rintro rfl; exact h (List.mem_singleton.mp hb ▸ ha)⟩

section Merge

variable [DecidableEq δ] [SelfEqual δ]

/-- The properties a partially filled order may change when its fill completes. -/
def partialCompletionProps : List String :=
  ["broker_status", "broker_price_cents", "broker_status_refreshed_at", "realized_pnl_cents"]

def isPartialCompletion (existing newProps : Props δ) (name : String) : Bool :=
  decide (name ∈ partialCompletionProps) &&
    (Props.get existing "broker_status").pyEq (.str "partial") &&
    (Props.get newProps "broker_status").pyEq (.str "filled")

/-- Whether the value `value` of `name` would overwrite what `merged` holds. -/
def overwrites (existing newProps merged : Props δ) (name : String) (value : Value δ) : Bool :=
  match merged.get? name with
  | none => false
  | some current => !current.pyEq value && !isPartialCompletion existing newProps name

/-- The incoming properties over the existing ones, refused at the first overwrite. -/
def appendProps (existing newProps : Props δ) : Except GraphError (Props δ) :=
  newProps.entries.foldlM (fun merged p =>
    if overwrites existing newProps merged p.1 p.2 then .error (.overwritten p.1)
    else .ok (merged.set p.1 p.2)) existing

/-- Create or idempotently merge one node by its label and key. -/
def mergeNode (g : Graph δ) (label key : String) (props : Props δ) (schemaVersion : Int := 1) :
    Except GraphError (Graph δ × Node δ) :=
  if schemaVersion < 1 then .error .schemaVersionNotPositive
  else match g.getNode label key with
    | none =>
      let node := ⟨label, key, props, schemaVersion⟩
      .ok (g.put node, node)
    | some current =>
      if current.schemaVersion ≠ schemaVersion then .error .schemaVersionChanged
      else match appendProps current.props props with
        | .error e => .error e
        | .ok merged =>
          let node := ⟨label, key, merged, schemaVersion⟩
          .ok (g.put node, node)

end Merge

/-- Add a directed edge between existing nodes. -/
def addEdge (g : Graph δ) (parent child : NodeKey) (edgeType : String) :
    Except GraphError (Graph δ) :=
  if hp : parent ∈ g.nodes.keys then
    if hc : child ∈ g.nodes.keys then .ok (g.link ⟨parent, child, edgeType⟩ hp hc)
    else .error (.missingNode child.1 child.2)
  else .error (.missingNode parent.1 parent.2)

/-! ### Reads -/

/-- The `created_at` test of a key query; `bound` is the rendered lower bound. -/
def createdAtOnOrAfter (props : Props δ) (bound : Option String) : Bool :=
  match bound with
  | none => true
  | some b =>
    match Props.get props "created_at" with
    | .str s => decide (b ≤ s)
    | _ => false

/-- The keys of the `label` nodes with no `edgeType` edge, in list order. -/
def keysWithoutEdge (g : Graph δ) (label edgeType : String) (downstream : Bool := true)
    (createdAtFrom : Option String := none) : List String :=
  let linked := (g.edges.filter fun e => e.edgeType = edgeType).map fun e =>
    if downstream then e.parent else e.child
  (g.nodes.entries.filter fun p =>
    decide (p.2.label = label) && decide (p.1 ∉ linked) &&
      createdAtOnOrAfter p.2.props createdAtFrom).map fun p => p.2.key

/-- The nodes of a label with no outgoing edge of a type, fetched one by one. -/
def pendingNodes (g : Graph δ) (label edgeType : String) (createdAtFrom : Option String := none) :
    List (Node δ) :=
  (g.keysWithoutEdge label edgeType true createdAtFrom).filterMap (g.getNode label)

/-- Whether a traversal may follow an edge. -/
def edgeAllowed (edgeTypes : Option (List String)) (e : Edge) : Bool :=
  match edgeTypes with
  | none => true
  | some types => decide (e.edgeType ∈ types)

/-- The new targets of one level of a walk, in edge order. -/
def sweep (edgeTypes : Option (List String)) (downstream : Bool) (frontier : List NodeKey) :
    List Edge → List NodeKey → List NodeKey
  | [], _ => []
  | e :: es, seen =>
    let source := if downstream then e.parent else e.child
    let target := if downstream then e.child else e.parent
    if source ∈ frontier ∧ edgeAllowed edgeTypes e ∧ target ∉ seen then
      target :: sweep edgeTypes downstream frontier es (target :: seen)
    else sweep edgeTypes downstream frontier es seen

/-- The node keys of a walk, level by level. -/
def walkKeys (g : Graph δ) (edgeTypes : Option (List String)) (downstream : Bool) :
    Nat → List NodeKey → List NodeKey → List NodeKey
  | 0, _, _ => []
  | depth + 1, frontier, seen =>
    match sweep edgeTypes downstream frontier g.edges seen with
    | [] => []
    | found@(_ :: _) => found ++ g.walkKeys edgeTypes downstream depth found (found ++ seen)

def walk (g : Graph δ) (node : NodeKey) (maxDepth : Nat) (edgeTypes : Option (List String))
    (downstream : Bool) : List (Node δ) :=
  (g.walkKeys edgeTypes downstream maxDepth [node] [node]).filterMap g.nodes.get?

/-- The upstream nodes of a node. -/
def ancestors (g : Graph δ) (node : NodeKey) (maxDepth : Nat)
    (edgeTypes : Option (List String) := none) : List (Node δ) :=
  g.walk node maxDepth edgeTypes false

/-- The downstream nodes of a node. -/
def descendants (g : Graph δ) (node : NodeKey) (maxDepth : Nat)
    (edgeTypes : Option (List String) := none) : List (Node δ) :=
  g.walk node maxDepth edgeTypes true

end Graph

end TradingAgents.Kernel
