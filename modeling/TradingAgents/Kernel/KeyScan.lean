import TradingAgents.Kernel.GraphFacts
import TradingAgents.ProofKit.Instant
import TradingAgents.ProofKit.ThreeValued
import TradingAgents.ProofKit.Utf8

/-! The query for the keys of a label that lack an edge, on the two backends.  PostgreSQL joins the
rows and compares the creation texts byte by byte; the in-memory store walks its nodes.  Both find
the same keys, and of nodes that are stamped in UTC those created at or after the bound. -/

namespace TradingAgents.Kernel

open ProofKit

/-- The lower bound as the text that the fleet stamps, the ISO text in UTC. -/
def createdAtBound (instant : AwareMoment) : Option String :=
  instant.astimezoneUtc.map fun m => (AwareMoment.ofUtc m).isoformat

/-! ### The tables -/

structure NodeRow (δ : Type) where
  label : String
  key : String
  props : Props δ

structure EdgeRow where
  parentLabel : String
  parentKey : String
  childLabel : String
  childKey : String
  edgeType : String

structure Tables (δ : Type) where
  nodes : List (NodeRow δ)
  edges : List EdgeRow

def NodeRow.nodeKey {δ : Type} (n : NodeRow δ) : NodeKey := (n.label, n.key)

def EdgeRow.edge (e : EdgeRow) : Edge :=
  ⟨(e.parentLabel, e.parentKey), (e.childLabel, e.childKey), e.edgeType⟩

/-- `jsonb_typeof`. -/
def jsonbTypeof {δ : Type} : Value δ → String
  | .null => "null"
  | .bool _ => "boolean"
  | .int _ => "number"
  | .num _ => "number"
  | .str _ => "string"
  | .list _ => "array"
  | .doc _ => "object"

namespace Tables

variable {δ : Type} (render : Value δ → String) (collates : String → String → Prop)
  [DecidableRel collates]

/-- The `->>` operator on a value; `render` is the text of what is neither a string nor null. -/
def jsonText : Value δ → Option String
  | .null => none
  | .str s => some s
  | v => some (render v)

/-- `a COLLATE "C" >= b COLLATE "C"`, a comparison of bytes. -/
def textGe : Option String → Option String → Ternary
  | some a, some b => some (decide (Utf8.bytes b ≤ Utf8.bytes a))
  | _, _ => none

/-- The condition on the creation text of a row. -/
def createdAtCondition (props : Props δ) (bound : Option String) : Ternary :=
  Ternary.or (some bound.isNone)
    (Ternary.and (Ternary.textEq ((props.get? "created_at").map jsonbTypeof) (some "string"))
      (textGe ((props.get? "created_at").bind (jsonText render)) bound))

/-- The subquery: an edge row of the type at the outgoing or the incoming side of a node row. -/
def edgeExists (t : Tables δ) (n : NodeRow δ) (edgeType : String) (downstream : Bool) : Bool :=
  t.edges.any fun e =>
    if downstream then decide (e.parentLabel = n.label ∧ e.parentKey = n.key ∧
      e.edgeType = edgeType)
    else decide (e.childLabel = n.label ∧ e.childKey = n.key ∧ e.edgeType = edgeType)

/-- The rows that the query selects. -/
def selects (t : Tables δ) (label edgeType : String) (downstream : Bool) (bound : Option String)
    (n : NodeRow δ) : Bool :=
  (Ternary.and
    (Ternary.and (some (decide (n.label = label)))
      (Ternary.not (some (t.edgeExists n edgeType downstream))))
    (createdAtCondition render n.props bound)).taken

/-- The keys of the selected rows, ordered by key in the collation of the database. -/
def keysWithoutEdge (t : Tables δ) (label edgeType : String) (downstream : Bool)
    (bound : Option String) : List String :=
  ((t.nodes.filter (t.selects render label edgeType downstream bound)).map NodeRow.key).insertionSort
    collates

/-- The tables hold a graph: one row for each node and one for each edge. -/
structure Holds (t : Tables δ) (g : Graph δ) : Prop where
  unique : (t.nodes.map NodeRow.nodeKey).Nodup
  rows : ∀ n ∈ t.nodes, ∃ node, g.nodes.get? n.nodeKey = some node ∧ Dict.Same n.props node.props
  nodes : ∀ k node, g.nodes.get? k = some node → ∃ n ∈ t.nodes, n.nodeKey = k
  edges : ∀ e, e ∈ g.edges ↔ ∃ row ∈ t.edges, row.edge = e

/-- The tables written for a graph. -/
def ofGraph (g : Graph δ) : Tables δ where
  nodes := g.nodes.entries.map fun p => ⟨p.1.1, p.1.2, p.2.props⟩
  edges := g.edges.map fun e =>
    ⟨e.parent.1, e.parent.2, e.child.1, e.child.2, e.edgeType⟩

theorem ofGraph_holds (g : Graph δ) : (ofGraph g).Holds g where
  unique := by
    rw [ofGraph, List.map_map]
    exact g.nodes.nodup
  rows := fun n hn => by
    obtain ⟨⟨k, node⟩, hmem, rfl⟩ := List.mem_map.mp hn
    exact ⟨node, Dict.mem_entries_iff.mp hmem, fun _ => rfl⟩
  nodes := fun k node hget =>
    ⟨_, List.mem_map_of_mem (Dict.mem_entries_iff.mpr hget), rfl⟩
  edges := fun e => by
    constructor
    · intro he
      exact ⟨_, List.mem_map_of_mem he, rfl⟩
    · rintro ⟨row, hrow, rfl⟩
      obtain ⟨e, he, rfl⟩ := List.mem_map.mp hrow
      exact he

end Tables

/-- A node of a label has no edge of a type at the outgoing or the incoming side. -/
def Lacks {δ : Type} (g : Graph δ) (label key edgeType : String) (downstream : Bool) : Prop :=
  ∀ e ∈ g.edges, e.edgeType = edgeType → (if downstream then e.parent else e.child) ≠ (label, key)

/-! ### What each backend finds -/

section

variable {δ : Type} {render : Value δ → String} {collates : String → String → Prop}
  [DecidableRel collates] {g : Graph δ} {t : Tables δ} {label edgeType key : String}
  {downstream : Bool} {bound : Option String} {node : Node δ}

theorem Graph.mem_keysWithoutEdge_bound :
    key ∈ g.keysWithoutEdge label edgeType downstream bound ↔
      ∃ node, g.nodes.get? (label, key) = some node ∧ Lacks g label key edgeType downstream ∧
        Graph.createdAtOnOrAfter node.props bound = true := by
  unfold Graph.keysWithoutEdge
  simp only [List.mem_map, List.mem_filter, Bool.and_eq_true, decide_eq_true_eq]
  constructor
  · rintro ⟨⟨k, node⟩, ⟨hmem, ⟨hlabel, hfree⟩, hcreated⟩, rfl⟩
    have hget := Dict.mem_entries_iff.mp hmem
    have hk : (label, node.key) = k := by
      rw [← hlabel]
      exact g.named _ _ hget
    subst hk
    refine ⟨node, hget, fun e he htype hside => hfree ⟨e, ⟨he, htype⟩, hside⟩, hcreated⟩
  · rintro ⟨node, hget, hlacks, hcreated⟩
    have hk := Prod.ext_iff.mp (g.named _ _ hget)
    refine ⟨((label, key), node), ⟨Dict.mem_entries_iff.mpr hget, ⟨hk.1, ?_⟩, hcreated⟩, hk.2⟩
    rintro ⟨e, ⟨he, htype⟩, hside⟩
    exact hlacks e he htype hside

theorem Graph.nodup_keysWithoutEdge_bound :
    (g.keysWithoutEdge label edgeType downstream bound).Nodup := by
  have hentries : g.nodes.entries.Nodup := g.nodes.nodup.of_map _
  refine (hentries.filter _).map_on fun p hp q hq hkey => ?_
  simp only [List.mem_filter, Bool.and_eq_true, decide_eq_true_eq] at hp hq
  have hpk := g.named _ _ (Dict.mem_entries_iff.mp hp.1)
  have hqk := g.named _ _ (Dict.mem_entries_iff.mp hq.1)
  have hsame : p.1 = q.1 := by
    rw [← hpk, ← hqk]
    exact Prod.ext (hp.2.1.1.trans hq.2.1.1.symm) hkey
  have hval := (Dict.mem_entries_iff.mp hp.1).symm.trans
    (hsame ▸ Dict.mem_entries_iff.mp hq.1)
  exact Prod.ext hsame (Option.some.inj hval)

/-- The condition on a row is the test of the in-memory store. -/
theorem Tables.createdAtCondition_eq {props : Props δ} :
    Tables.createdAtCondition render props bound = some true ↔
      Graph.createdAtOnOrAfter props bound = true := by
  unfold Tables.createdAtCondition Graph.createdAtOnOrAfter Props.get
  rw [Ternary.or_eq_true, Ternary.and_eq_true]
  cases bound with
  | none => simp
  | some b =>
    cases hget : props.get? "created_at" with
    | none => simp [Ternary.textEq]
    | some v =>
      cases v <;> simp [Ternary.textEq, jsonbTypeof, Tables.jsonText, Tables.textGe,
        Utf8.bytes_le_iff]

/-- The subquery finds no row where the graph has no edge. -/
theorem Tables.edgeExists_eq_false (h : t.Holds g) {n : NodeRow δ} :
    t.edgeExists n edgeType downstream = false ↔ Lacks g n.label n.key edgeType downstream := by
  unfold Tables.edgeExists Lacks
  rw [List.any_eq_false]
  constructor
  · intro hnone e he htype hside
    obtain ⟨row, hrow, rfl⟩ := (h.edges e).mp he
    refine hnone row hrow ?_
    cases downstream with
    | true =>
      obtain ⟨hlabel, hkey⟩ := Prod.ext_iff.mp hside
      exact decide_eq_true ⟨hlabel, hkey, htype⟩
    | false =>
      obtain ⟨hlabel, hkey⟩ := Prod.ext_iff.mp hside
      exact decide_eq_true ⟨hlabel, hkey, htype⟩
  · intro hlacks row hrow hside
    have he := (h.edges row.edge).mpr ⟨row, hrow, rfl⟩
    cases downstream with
    | true =>
      obtain ⟨hlabel, hkey, htype⟩ := of_decide_eq_true hside
      exact hlacks row.edge he htype (Prod.ext hlabel hkey)
    | false =>
      obtain ⟨hlabel, hkey, htype⟩ := of_decide_eq_true hside
      exact hlacks row.edge he htype (Prod.ext hlabel hkey)

theorem Tables.selects_iff (h : t.Holds g) {n : NodeRow δ} :
    t.selects render label edgeType downstream bound n = true ↔ n.label = label ∧
      Lacks g n.label n.key edgeType downstream ∧
        Graph.createdAtOnOrAfter n.props bound = true := by
  unfold Tables.selects
  rw [Ternary.taken_iff, Ternary.and_eq_true, Ternary.and_eq_true, Ternary.not_eq_true,
    Tables.createdAtCondition_eq, Option.some.injEq, decide_eq_true_iff, Option.some.injEq,
    Tables.edgeExists_eq_false h, and_assoc]

theorem createdAtOnOrAfter_congr {p q : Props δ} (h : Dict.Same p q) :
    Graph.createdAtOnOrAfter p bound = Graph.createdAtOnOrAfter q bound := by
  unfold Graph.createdAtOnOrAfter Props.get
  rw [h "created_at"]

theorem Tables.mem_keysWithoutEdge (h : t.Holds g) :
    key ∈ t.keysWithoutEdge render collates label edgeType downstream bound ↔
      key ∈ g.keysWithoutEdge label edgeType downstream bound := by
  unfold Tables.keysWithoutEdge
  rw [List.mem_insertionSort, List.mem_map, Graph.mem_keysWithoutEdge_bound]
  constructor
  · rintro ⟨n, hn, rfl⟩
    obtain ⟨hmem, hselects⟩ := List.mem_filter.mp hn
    obtain ⟨rfl, hlacks, hcreated⟩ := (Tables.selects_iff h).mp hselects
    obtain ⟨node, hget, hsame⟩ := h.rows n hmem
    exact ⟨node, hget, hlacks, createdAtOnOrAfter_congr hsame ▸ hcreated⟩
  · rintro ⟨node, hget, hlacks, hcreated⟩
    obtain ⟨n, hmem, hkey⟩ := h.nodes _ _ hget
    obtain ⟨node', hget', hsame⟩ := h.rows n hmem
    rw [hkey, hget] at hget'
    cases hget'
    obtain ⟨rfl, rfl⟩ := Prod.ext_iff.mp hkey
    refine ⟨n, List.mem_filter.mpr ⟨hmem, (Tables.selects_iff h).mpr ⟨rfl, hlacks, ?_⟩⟩, rfl⟩
    rw [createdAtOnOrAfter_congr hsame]
    exact hcreated

theorem Tables.nodup_keysWithoutEdge (h : t.Holds g) :
    (t.keysWithoutEdge render collates label edgeType downstream bound).Nodup := by
  unfold Tables.keysWithoutEdge
  rw [(List.perm_insertionSort _ _).nodup_iff]
  refine ((h.unique.of_map _).filter _).map_on fun n hn n' hn' hkey => ?_
  obtain ⟨hmem, hselects⟩ := List.mem_filter.mp hn
  obtain ⟨hmem', hselects'⟩ := List.mem_filter.mp hn'
  have hlabel := ((Tables.selects_iff h).mp hselects).1
  have hlabel' := ((Tables.selects_iff h).mp hselects').1
  exact List.inj_on_of_nodup_map h.unique hmem hmem'
    (Prod.ext (hlabel.trans hlabel'.symm) hkey)

/-- The two backends find the same keys. -/
theorem Tables.keysWithoutEdge_perm (h : t.Holds g) :
    (t.keysWithoutEdge render collates label edgeType downstream bound).Perm
      (g.keysWithoutEdge label edgeType downstream bound) :=
  (List.perm_ext_iff_of_nodup (Tables.nodup_keysWithoutEdge h)
    Graph.nodup_keysWithoutEdge_bound).mpr fun _ => Tables.mem_keysWithoutEdge h

/-- A node stamped in UTC passes the bound if and only if it was created at or after the instant. -/
theorem createdAtOnOrAfter_stamped {instant : AwareMoment} {b : String} {stamp : Moment}
    {props : Props δ} (hbound : createdAtBound instant = some b)
    (hstamp : Props.get props "created_at" = .str (AwareMoment.ofUtc stamp).isoformat) :
    Graph.createdAtOnOrAfter props (some b) = true ↔ instant.micros ≤ stamp.micros := by
  obtain ⟨m, hutc, rfl⟩ := Option.map_eq_some_iff.mp hbound
  unfold Graph.createdAtOnOrAfter
  rw [hstamp]
  dsimp only
  rw [decide_eq_true_iff, AwareMoment.isoformat_ofUtc, AwareMoment.isoformat_ofUtc,
    Moment.utcText_le_iff, AwareMoment.micros_astimezoneUtc hutc]

/-- The two backends find the same keys for every bound: those of the nodes that lack the edge and
hold a text at or after the bound.  Of nodes stamped in UTC these are the ones created at or after
the instant, whatever its offset and whether it has microseconds. -/
theorem keys_without_edge_agree (h : t.Holds g) (render : Value δ → String)
    (collates : String → String → Prop) [DecidableRel collates] (label edgeType : String)
    (downstream : Bool) :
    (t.keysWithoutEdge render collates label edgeType downstream none).Perm
        (g.keysWithoutEdge label edgeType downstream none) ∧
      ∀ instant b, createdAtBound instant = some b →
        (t.keysWithoutEdge render collates label edgeType downstream (some b)).Perm
            (g.keysWithoutEdge label edgeType downstream (some b)) ∧
          (∀ key, key ∈ g.keysWithoutEdge label edgeType downstream (some b) ↔
            ∃ node s, g.nodes.get? (label, key) = some node ∧
              Lacks g label key edgeType downstream ∧
              Props.get node.props "created_at" = .str s ∧ b ≤ s) ∧
          ∀ key node stamp, g.nodes.get? (label, key) = some node →
            Props.get node.props "created_at" = .str (AwareMoment.ofUtc stamp).isoformat →
            (key ∈ g.keysWithoutEdge label edgeType downstream (some b) ↔
              Lacks g label key edgeType downstream ∧ instant.micros ≤ stamp.micros) := by
  refine ⟨Tables.keysWithoutEdge_perm h, fun instant b hbound =>
    ⟨Tables.keysWithoutEdge_perm h, fun key => ?_, fun key node stamp hget hstamp => ?_⟩⟩
  · rw [Graph.mem_keysWithoutEdge_bound]
    constructor
    · rintro ⟨node, hget, hlacks, hcreated⟩
      unfold Graph.createdAtOnOrAfter at hcreated
      dsimp only at hcreated
      split at hcreated
      · rename_i s hs
        exact ⟨node, s, hget, hlacks, hs, of_decide_eq_true hcreated⟩
      · cases hcreated
    · rintro ⟨node, s, hget, hlacks, hs, hle⟩
      refine ⟨node, hget, hlacks, ?_⟩
      unfold Graph.createdAtOnOrAfter
      rw [hs]
      exact decide_eq_true hle
  · rw [Graph.mem_keysWithoutEdge_bound]
    constructor
    · rintro ⟨node', hget', hlacks, hcreated⟩
      rw [hget] at hget'
      cases hget'
      exact ⟨hlacks, (createdAtOnOrAfter_stamped hbound hstamp).mp hcreated⟩
    · rintro ⟨hlacks, hle⟩
      exact ⟨node, hget, hlacks, (createdAtOnOrAfter_stamped hbound hstamp).mpr hle⟩

end

/-! ### Runs stamped on both sides of a bound -/

def stampedProps (createdAt : String) : Props Empty := .ofList [("created_at", .str createdAt)]

def newYear : Day := .ofFields 2026 1 1 (by decide)

/-- Three in the morning, two hours east of UTC: one in the morning in UTC. -/
def eastBound : AwareMoment := ⟨.ofClock newYear 3 0 0 0, 7200000000, by decide⟩

/-- Half past midnight, before that instant. -/
def earlyStamp : Moment := .ofClock newYear 0 30 0 0

/-- Half past one and a microsecond, after it. -/
def lateStamp : Moment := .ofClock newYear 1 30 0 1

def stampedRuns : Dict NodeKey (Node Empty) :=
  .ofList [(("Run", "early"), ⟨"Run", "early", stampedProps "2026-01-01T00:30:00+00:00", 1⟩),
    (("Run", "late"), ⟨"Run", "late", stampedProps "2026-01-01T01:30:00.000001+00:00", 1⟩),
    (("Run", "done"), ⟨"Run", "done", stampedProps "2026-01-01T01:30:00.000001+00:00", 1⟩),
    (("Job", "j"), ⟨"Job", "j", .empty, 1⟩)]

/-- An early and a late run without an edge, and a late one that has been done. -/
def stampedGraph : Graph Empty where
  nodes := stampedRuns
  edges := [⟨("Run", "done"), ("Job", "j"), "DONE_BY"⟩]
  named := fun k n h => by
    have hall : ∀ p ∈ stampedRuns.entries, p.2.nodeKey = p.1 := by decide
    exact hall _ (Dict.mem_entries_iff.mpr h)
  closed := by decide
  simple := List.nodup_singleton _

/-- Of the runs that lack the edge, those created before the bound are left out. -/
theorem keys_without_edge_agree_stamped :
    ((Tables.ofGraph stampedGraph).keysWithoutEdge (fun _ => "") (· ≤ ·) "Run" "DONE_BY" true
        (some "2026-01-01T01:00:00+00:00")).Perm
      (stampedGraph.keysWithoutEdge "Run" "DONE_BY" true (some "2026-01-01T01:00:00+00:00")) ∧
    (∀ key, key ∈ stampedGraph.keysWithoutEdge "Run" "DONE_BY" true
        (some "2026-01-01T01:00:00+00:00") ↔ ∃ node s,
      stampedGraph.nodes.get? ("Run", key) = some node ∧
        Lacks stampedGraph "Run" key "DONE_BY" true ∧
        Props.get node.props "created_at" = .str s ∧ "2026-01-01T01:00:00+00:00" ≤ s) ∧
    "early" ∉ stampedGraph.keysWithoutEdge "Run" "DONE_BY" true
      (some "2026-01-01T01:00:00+00:00") ∧
    "late" ∈ stampedGraph.keysWithoutEdge "Run" "DONE_BY" true
      (some "2026-01-01T01:00:00+00:00") ∧
    "done" ∉ stampedGraph.keysWithoutEdge "Run" "DONE_BY" true
      (some "2026-01-01T01:00:00+00:00") := by
  obtain ⟨hperm, htexts, hstamped⟩ := (keys_without_edge_agree (Tables.ofGraph_holds stampedGraph)
    (fun _ => "") (· ≤ ·) "Run" "DONE_BY" true).2 eastBound "2026-01-01T01:00:00+00:00"
    (by decide +kernel)
  have hearly := hstamped "early" _ earlyStamp rfl (by decide +kernel)
  have hlate := hstamped "late" _ lateStamp rfl (by decide +kernel)
  have hdone := hstamped "done" _ lateStamp rfl (by decide +kernel)
  refine ⟨hperm, htexts, fun h => ?_, hlate.mpr ⟨?_, by decide +kernel⟩, fun h => ?_⟩
  · exact absurd (hearly.mp h).2 (by decide +kernel)
  · intro e he _ hside
    rw [List.mem_singleton.mp he] at hside
    exact absurd hside (by decide)
  · exact (hdone.mp h).1 _ (List.mem_singleton_self _) rfl rfl

/-! ### A stamp of another offset -/

/-- One in the morning in UTC. -/
def oneOClock : AwareMoment := .ofUtc (.ofClock newYear 1 0 0 0)

/-- Two in the morning, two hours east of UTC: midnight. -/
def eastOfUtc : AwareMoment := ⟨.ofClock newYear 2 0 0 0, 7200000000, by decide⟩

def oneRun (createdAt : String) : Graph Empty where
  nodes := Dict.empty.set ("Run", "r") ⟨"Run", "r", stampedProps createdAt, 1⟩
  edges := []
  named := fun k n h => by
    rw [Dict.get?_set] at h
    split at h
    · rename_i hk
      cases h
      exact hk.symm
    · cases h
  closed := fun _ h => absurd h List.not_mem_nil
  simple := List.nodup_nil

/-- A node stamped east of UTC sorts after a bound that it was created before. -/
theorem east_stamp_kept :
    ¬ ∀ (g : Graph Empty) (label edgeType key : String) (downstream : Bool)
      (instant stamp : AwareMoment) (node : Node Empty) (b : String),
      createdAtBound instant = some b → g.nodes.get? (label, key) = some node →
      Props.get node.props "created_at" = .str stamp.isoformat →
        (key ∈ g.keysWithoutEdge label edgeType downstream (some b) ↔
          Lacks g label key edgeType downstream ∧ instant.micros ≤ stamp.micros) := by
  intro h
  have hiff := h (oneRun eastOfUtc.isoformat) "Run" "DONE_BY" "r" true oneOClock eastOfUtc _
    "2026-01-01T01:00:00+00:00" (by decide +kernel) (Dict.get?_set_self _ _ _) rfl
  have hkept : "r" ∈ (oneRun eastOfUtc.isoformat).keysWithoutEdge "Run" "DONE_BY" true
      (some "2026-01-01T01:00:00+00:00") := by
    decide +kernel
  have hlater := (hiff.mp hkept).2
  revert hlater
  decide +kernel

end TradingAgents.Kernel
