import Mathlib.Data.List.Sort
import TradingAgents.Kernel.GraphFacts
import TradingAgents.ProofKit.Distance
import TradingAgents.ProofKit.Fallible
import TradingAgents.ProofKit.Text

/-! The two traversals of the graph: the search by levels of the in-memory store, and the recursive
query of the PostgreSQL backend, which walks along every path that repeats no node text.  The path
of the query starts after the start node, so a cycle leads it back there. -/

namespace TradingAgents.Kernel

open ProofKit ProofKit.Text

variable {δ : Type}

namespace Graph

/-- A matching edge leads from `a` to `b`, in the direction of the traversal. -/
def Adjacent (g : Graph δ) (edgeTypes : Option (List String)) (downstream : Bool)
    (a b : NodeKey) : Prop :=
  ∃ e ∈ g.edges, (if downstream then e.parent else e.child) = a ∧ edgeAllowed edgeTypes e = true ∧
    (if downstream then e.child else e.parent) = b

/-- The ends of an edge stand. -/
theorem Adjacent.stands {g : Graph δ} {edgeTypes : Option (List String)} {downstream : Bool}
    {a b : NodeKey} (h : g.Adjacent edgeTypes downstream a b) :
    (∃ n, g.nodes.get? a = some n) ∧ ∃ n, g.nodes.get? b = some n := by
  obtain ⟨e, he, rfl, -, rfl⟩ := h
  obtain ⟨hparent, hchild⟩ := g.closed e he
  rw [Dict.mem_keys_iff, Option.isSome_iff_exists] at hparent hchild
  cases downstream with
  | true => exact ⟨hparent, hchild⟩
  | false => exact ⟨hchild, hparent⟩

/-! ### The recursive query -/

/-- A row of the recursive table. -/
@[ext] structure WalkRow (δ : Type) where
  node : Node δ
  depth : Nat
  path : List String

/-- `label || ':' || key`. -/
def keyText (k : NodeKey) : String := k.1 ++ ":" ++ k.2

/-- The nodes that a matching edge joins to a key. -/
def joined (g : Graph δ) (edgeTypes : Option (List String)) (downstream : Bool) (k : NodeKey) :
    List (Node δ) :=
  (g.edges.filter fun e => decide ((if downstream then e.parent else e.child) = k) &&
    edgeAllowed edgeTypes e).filterMap fun e =>
      g.nodes.get? (if downstream then e.child else e.parent)

/-- The first branch of the `UNION ALL`. -/
def baseRows (g : Graph δ) (edgeTypes : Option (List String)) (downstream : Bool)
    (start : NodeKey) : List (WalkRow δ) :=
  (g.joined edgeTypes downstream start).map fun n => ⟨n, 1, [keyText n.nodeKey]⟩

/-- The second branch, on the rows of the working table. -/
def nextRows (g : Graph δ) (edgeTypes : Option (List String)) (downstream : Bool) (maxDepth : Nat)
    (working : List (WalkRow δ)) : List (WalkRow δ) :=
  working.flatMap fun row =>
    if row.depth < maxDepth then
      ((g.joined edgeTypes downstream row.node.nodeKey).filter fun n =>
        decide (keyText n.nodeKey ∉ row.path)).map fun n =>
          ⟨n, row.depth + 1, row.path ++ [keyText n.nodeKey]⟩
    else []

/-- The recursive table: the working table is replaced by its next rows until it is empty. -/
def walkRows (g : Graph δ) (edgeTypes : Option (List String)) (downstream : Bool) (maxDepth : Nat) :
    Nat → List (WalkRow δ) → List (WalkRow δ)
  | 0, _ => []
  | _ + 1, [] => []
  | fuel + 1, working@(_ :: _) =>
    working ++ g.walkRows edgeTypes downstream maxDepth fuel
      (g.nextRows edgeTypes downstream maxDepth working)

/-- `DISTINCT ON (label, key)`: the first row of each node. -/
def distinctOn : List (WalkRow δ) → List NodeKey → List (WalkRow δ)
  | [], _ => []
  | row :: rows, seen =>
    if row.node.nodeKey ∈ seen then distinctOn rows seen
    else row :: distinctOn rows (row.node.nodeKey :: seen)

/-- The traversal of the PostgreSQL backend.  `keyLe` is the order of the database's collation.  The
working table is empty after as many rounds as the depth bound says. -/
def traverseSql (keyLe : String → String → Bool) (g : Graph δ) (start : NodeKey) (maxDepth : Nat)
    (edgeTypes : Option (List String)) (downstream : Bool) : List (Node δ) :=
  if maxDepth < 1 then []
  else
    let rows := g.walkRows edgeTypes downstream maxDepth maxDepth
      (g.baseRows edgeTypes downstream start)
    let deduped := distinctOn (rows.insertionSort fun a b => a.depth ≤ b.depth) []
    (deduped.insertionSort fun a b => a.depth < b.depth ∨
      (a.depth = b.depth ∧ keyLe a.node.key b.node.key = true)).map WalkRow.node

/-! ### The search by levels -/

section Levels

variable {g : Graph δ} {edgeTypes : Option (List String)} {downstream : Bool} {start : NodeKey}

/-- One sweep finds the next level. -/
theorem mem_sweep_level {frontier seen : List NodeKey} {n : Nat}
    (hfrontier : ∀ t, t ∈ frontier ↔ Distance (g.Adjacent edgeTypes downstream) start t n)
    (hseen : ∀ t, t ∈ seen ↔ ∃ m ≤ n, Distance (g.Adjacent edgeTypes downstream) start t m)
    (t : NodeKey) : t ∈ sweep edgeTypes downstream frontier g.edges seen ↔
      Distance (g.Adjacent edgeTypes downstream) start t (n + 1) := by
  rw [mem_sweep_iff, hseen, Distance.succ_iff]
  refine and_congr ?_ ?_
  · push Not
    exact Iff.rfl
  · constructor
    · rintro ⟨e, he, hsource, hallowed, htarget⟩
      exact ⟨_, (hfrontier _).mp hsource, e, he, rfl, hallowed, htarget⟩
    · rintro ⟨b, hb, e, he, rfl, hallowed, htarget⟩
      exact ⟨e, he, (hfrontier _).mpr hb, hallowed, htarget⟩

/-- The search finds the nodes of the next `depth` levels. -/
theorem mem_walkKeys {depth n : Nat} {frontier seen : List NodeKey}
    (hfrontier : ∀ t, t ∈ frontier ↔ Distance (g.Adjacent edgeTypes downstream) start t n)
    (hseen : ∀ t, t ∈ seen ↔ ∃ m ≤ n, Distance (g.Adjacent edgeTypes downstream) start t m)
    (t : NodeKey) : t ∈ g.walkKeys edgeTypes downstream depth frontier seen ↔
      ∃ m, n < m ∧ m ≤ n + depth ∧ Distance (g.Adjacent edgeTypes downstream) start t m := by
  induction depth generalizing n frontier seen with
  | zero =>
    simp only [walkKeys, List.not_mem_nil, false_iff]
    rintro ⟨m, hlt, hle, -⟩
    omega
  | succ depth ih =>
    have hlevel := mem_sweep_level hfrontier hseen
    rw [walkKeys]
    split
    · rename_i hnil
      rw [hnil] at hlevel
      simp only [List.not_mem_nil, false_iff] at hlevel ⊢
      rintro ⟨m, hlt, -, hd⟩
      exact Distance.none_beyond hlevel (Nat.succ_le_of_lt hlt) hd
    · rename_i found x xs hfound
      rw [hfound] at hlevel
      have hnext : ∀ t, t ∈ (x :: xs) ++ seen ↔
          ∃ m ≤ n + 1, Distance (g.Adjacent edgeTypes downstream) start t m := by
        intro t
        rw [List.mem_append, hlevel, hseen]
        constructor
        · rintro (hd | ⟨m, hm, hd⟩)
          · exact ⟨n + 1, le_rfl, hd⟩
          · exact ⟨m, by omega, hd⟩
        · rintro ⟨m, hm, hd⟩
          rcases Nat.lt_or_ge n m with hlt | hge
          · have heq : m = n + 1 := by omega
            exact .inl (heq ▸ hd)
          · exact .inr ⟨m, hge, hd⟩
      rw [List.mem_append, hlevel, ih hlevel hnext]
      constructor
      · rintro (hd | ⟨m, hlt, hle, hd⟩)
        · exact ⟨n + 1, by omega, by omega, hd⟩
        · exact ⟨m, by omega, by omega, hd⟩
      · rintro ⟨m, hlt, hle, hd⟩
        rcases Nat.lt_or_ge (n + 1) m with hlt' | hge
        · exact .inr ⟨m, hlt', by omega, hd⟩
        · have heq : m = n + 1 := by omega
          exact .inl (heq ▸ hd)

/-- The in-memory traversal returns the nodes at a distance between one and the depth bound. -/
theorem mem_walk {maxDepth : Nat} {n : Node δ} :
    n ∈ g.walk start maxDepth edgeTypes downstream ↔
      g.nodes.get? n.nodeKey = some n ∧ ∃ m, 1 ≤ m ∧ m ≤ maxDepth ∧
        Distance (g.Adjacent edgeTypes downstream) start n.nodeKey m := by
  have hkeys : ∀ t, t ∈ g.walkKeys edgeTypes downstream maxDepth [start] [start] ↔
      ∃ m, 0 < m ∧ m ≤ 0 + maxDepth ∧ Distance (g.Adjacent edgeTypes downstream) start t m :=
    mem_walkKeys (fun t => by rw [Distance.zero_iff, List.mem_singleton])
      (fun t => by simp [Distance.zero_iff])
  rw [walk, List.mem_filterMap]
  constructor
  · rintro ⟨t, ht, hget⟩
    have hk := g.named _ _ hget
    obtain ⟨m, hpos, hle, hd⟩ := (hkeys t).mp ht
    exact ⟨hk ▸ hget, m, hpos, by omega, hk ▸ hd⟩
  · rintro ⟨hget, m, hpos, hle, hd⟩
    exact ⟨n.nodeKey, (hkeys _).mpr ⟨m, hpos, by omega, hd⟩, hget⟩

end Levels

/-! ### The rows of the recursive table -/

section Rows

variable {g : Graph δ} {edgeTypes : Option (List String)} {downstream : Bool} {start : NodeKey}
  {maxDepth : Nat}

theorem mem_joined {k : NodeKey} {n : Node δ} : n ∈ g.joined edgeTypes downstream k ↔
    g.nodes.get? n.nodeKey = some n ∧ g.Adjacent edgeTypes downstream k n.nodeKey := by
  simp only [joined, List.mem_filterMap, List.mem_filter, Bool.and_eq_true, decide_eq_true_eq]
  constructor
  · rintro ⟨e, ⟨he, hsource, hallowed⟩, hget⟩
    have hk := g.named _ _ hget
    exact ⟨hk ▸ hget, e, he, hsource, hallowed, hk.symm⟩
  · rintro ⟨hget, e, he, hsource, hallowed, htarget⟩
    exact ⟨e, ⟨he, hsource, hallowed⟩, htarget ▸ hget⟩

/-- A row of the table: its node stands, and its path is the texts of a walk from the start to it,
no text twice. -/
structure Walked (g : Graph δ) (edgeTypes : Option (List String)) (downstream : Bool)
    (start : NodeKey) (row : WalkRow δ) (l : List NodeKey) : Prop where
  stands : g.nodes.get? row.node.nodeKey = some row.node
  visits : Visits (g.Adjacent edgeTypes downstream) start l row.node.nodeKey
  depth : row.depth = l.length
  path : row.path = l.map keyText
  distinct : (l.map keyText).Nodup

theorem mem_baseRows {row : WalkRow δ} : row ∈ g.baseRows edgeTypes downstream start ↔
    ∃ l, Walked g edgeTypes downstream start row l ∧ l.length = 1 := by
  simp only [baseRows, List.mem_map, mem_joined]
  constructor
  · rintro ⟨n, ⟨hget, hstep⟩, rfl⟩
    refine ⟨[n.nodeKey], ⟨hget, ?_, rfl, rfl, List.nodup_singleton _⟩, rfl⟩
    exact Visits.snoc_iff.mpr ⟨rfl, .inl ⟨rfl, hstep⟩⟩
  · rintro ⟨l, h, hlen⟩
    obtain ⟨k, rfl⟩ := List.length_eq_one_iff.mp hlen
    have hvisits : Visits (g.Adjacent edgeTypes downstream) start ([] ++ [k]) row.node.nodeKey :=
      h.visits
    obtain ⟨rfl, ⟨-, hstep⟩ | ⟨d, ⟨-, hd⟩, -⟩⟩ := Visits.snoc_iff.mp hvisits
    · refine ⟨row.node, ⟨h.stands, hstep⟩, ?_⟩
      exact WalkRow.ext rfl h.depth.symm h.path.symm
    · cases hd

theorem mem_nextRows {working : List (WalkRow δ)} {n : Nat}
    (h : ∀ row, row ∈ working ↔ ∃ l, Walked g edgeTypes downstream start row l ∧ l.length = n + 1)
    {row : WalkRow δ} : row ∈ g.nextRows edgeTypes downstream maxDepth working ↔
      n + 1 < maxDepth ∧ ∃ l, Walked g edgeTypes downstream start row l ∧ l.length = n + 2 := by
  simp only [nextRows, List.mem_flatMap]
  constructor
  · rintro ⟨prev, hprev, hrow⟩
    obtain ⟨l, hl, hlen⟩ := (h prev).mp hprev
    rw [hl.depth, hlen] at hrow
    split at hrow
    · rename_i hdepth
      obtain ⟨m, hm, rfl⟩ := List.mem_map.mp hrow
      obtain ⟨hjoined, hfree⟩ := List.mem_filter.mp hm
      obtain ⟨hget, hstep⟩ := mem_joined.mp hjoined
      have hfree : keyText m.nodeKey ∉ l.map keyText := by
        rw [← hl.path]
        simpa using hfree
      refine ⟨hdepth, l ++ [m.nodeKey], ⟨hget, ?_, ?_, ?_, ?_⟩, by simp [hlen]⟩
      · exact Visits.snoc_iff.mpr ⟨rfl, .inr ⟨_, hl.visits, hstep⟩⟩
      · simp [hlen]
      · simp [hl.path]
      · rw [List.map_append, List.nodup_append]
        refine ⟨hl.distinct, List.nodup_singleton _, fun a ha b hb heq => hfree ?_⟩
        rw [List.map_singleton, List.mem_singleton] at hb
        rw [← hb, ← heq]
        exact ha
    · cases hrow
  · rintro ⟨hdepth, l, hl, hlen⟩
    obtain rfl | ⟨l, k, rfl⟩ := List.eq_nil_or_concat l
    · cases hlen
    rw [List.concat_eq_append] at hl hlen
    have hlen' : l.length = n + 1 := by simpa using hlen
    obtain ⟨rfl, ⟨rfl, -⟩ | ⟨d, hvisits, hstep⟩⟩ := Visits.snoc_iff.mp hl.visits
    · cases hlen'
    have hdistinct := hl.distinct
    rw [List.map_append, List.nodup_append] at hdistinct
    obtain ⟨hnodup, -, hnew⟩ := hdistinct
    obtain ⟨prev, hprev⟩ := hstep.stands.1
    have hkey := g.named _ _ hprev
    subst hkey
    refine ⟨⟨prev, n + 1, l.map keyText⟩, (h _).mpr ⟨l, ⟨hprev, hvisits, hlen'.symm, rfl, hnodup⟩,
      hlen'⟩, ?_⟩
    rw [if_pos hdepth]
    refine List.mem_map.mpr
      ⟨row.node, List.mem_filter.mpr ⟨mem_joined.mpr ⟨hl.stands, hstep⟩, ?_⟩, ?_⟩
    · simp only [decide_eq_true_eq]
      intro hin
      exact hnew _ hin _ (List.mem_singleton_self _) rfl
    · refine WalkRow.ext rfl ?_ ?_
      · rw [hl.depth, hlen]
      · rw [hl.path, List.map_append, List.map_singleton]

theorem walkRows_nil (fuel : Nat) : g.walkRows edgeTypes downstream maxDepth fuel [] = [] := by
  cases fuel <;> rfl

theorem walkRows_succ (fuel : Nat) (working : List (WalkRow δ)) :
    g.walkRows edgeTypes downstream maxDepth (fuel + 1) working =
      working ++ g.walkRows edgeTypes downstream maxDepth fuel
        (g.nextRows edgeTypes downstream maxDepth working) := by
  cases working with
  | nil =>
    have hnext : g.nextRows edgeTypes downstream maxDepth [] = [] := rfl
    rw [hnext, walkRows_nil, walkRows_nil, List.append_nil]
  | cons row rows => rfl

/-- The rows of the last round have no next ones. -/
theorem nextRows_last {working : List (WalkRow δ)} {n : Nat}
    (h : ∀ row, row ∈ working ↔ ∃ l, Walked g edgeTypes downstream start row l ∧ l.length = n + 1)
    (hn : maxDepth ≤ n + 1) : g.nextRows edgeTypes downstream maxDepth working = [] := by
  apply List.eq_nil_iff_forall_not_mem.mpr
  intro row hrow
  have hdepth := ((mem_nextRows h).mp hrow).1
  omega

/-- The table holds a row for every walk of at most `maxDepth` steps that repeats no text. -/
theorem mem_walkRows {fuel n : Nat} {working : List (WalkRow δ)} {row : WalkRow δ}
    (h : ∀ row, row ∈ working ↔ ∃ l, Walked g edgeTypes downstream start row l ∧ l.length = n + 1)
    (hfuel : maxDepth ≤ n + fuel) (hn : n < maxDepth) :
    row ∈ g.walkRows edgeTypes downstream maxDepth fuel working ↔
      ∃ l, Walked g edgeTypes downstream start row l ∧ n < l.length ∧ l.length ≤ maxDepth := by
  induction fuel generalizing n working with
  | zero => omega
  | succ fuel ih =>
    rw [walkRows_succ, List.mem_append, h]
    rcases Nat.lt_or_ge (n + 1) maxDepth with hlt | hge
    · rw [ih (fun row => by rw [mem_nextRows h, and_iff_right hlt]) (by omega) hlt]
      constructor
      · rintro (⟨l, hl, hlen⟩ | ⟨l, hl, hlow, hhigh⟩)
        · exact ⟨l, hl, by omega, by omega⟩
        · exact ⟨l, hl, by omega, hhigh⟩
      · rintro ⟨l, hl, hlow, hhigh⟩
        rcases Nat.lt_or_ge (n + 1) l.length with hlong | hshort
        · exact .inr ⟨l, hl, hlong, hhigh⟩
        · exact .inl ⟨l, hl, by omega⟩
    · rw [nextRows_last h hge, walkRows_nil]
      constructor
      · rintro (⟨l, hl, hlen⟩ | hnil)
        · exact ⟨l, hl, by omega, by omega⟩
        · cases hnil
      · rintro ⟨l, hl, hlow, hhigh⟩
        exact .inl ⟨l, hl, by omega⟩

/-- More rounds than the depth bound says find no more rows. -/
theorem walkRows_enough {fuel n : Nat} (extra : Nat) {working : List (WalkRow δ)}
    (h : ∀ row, row ∈ working ↔ ∃ l, Walked g edgeTypes downstream start row l ∧ l.length = n + 1)
    (hfuel : maxDepth ≤ n + fuel) (hn : n < maxDepth) :
    g.walkRows edgeTypes downstream maxDepth (fuel + extra) working =
      g.walkRows edgeTypes downstream maxDepth fuel working := by
  induction fuel generalizing n working with
  | zero => omega
  | succ fuel ih =>
    rw [Nat.succ_add, walkRows_succ, walkRows_succ]
    rcases Nat.lt_or_ge (n + 1) maxDepth with hlt | hge
    · rw [ih (fun row => by rw [mem_nextRows h, and_iff_right hlt]) (by omega) hlt]
    · rw [nextRows_last h hge, walkRows_nil, walkRows_nil]

end Rows

/-! ### Agreement -/

section Agreement

variable {g : Graph δ} {edgeTypes : Option (List String)} {downstream : Bool} {start : NodeKey}
  {maxDepth : Nat}

theorem of_mem_distinctOn {rows : List (WalkRow δ)} {seen : List NodeKey} {row : WalkRow δ}
    (h : row ∈ distinctOn rows seen) : row ∈ rows := by
  induction rows generalizing seen with
  | nil => exact h
  | cons first rows ih =>
    rw [distinctOn] at h
    split at h
    · exact List.mem_cons_of_mem _ (ih h)
    · rcases List.mem_cons.mp h with rfl | h
      · exact List.mem_cons_self
      · exact List.mem_cons_of_mem _ (ih h)

theorem mem_distinctOn {rows : List (WalkRow δ)} {seen : List NodeKey} {k : NodeKey} :
    (∃ row ∈ distinctOn rows seen, row.node.nodeKey = k) ↔
      k ∉ seen ∧ ∃ row ∈ rows, row.node.nodeKey = k := by
  induction rows generalizing seen with
  | nil => simp [distinctOn]
  | cons row rows ih =>
    rw [distinctOn]
    split
    · rename_i hseen
      rw [ih]
      constructor
      · rintro ⟨hk, found, hfound, heq⟩
        exact ⟨hk, found, List.mem_cons_of_mem _ hfound, heq⟩
      · rintro ⟨hk, found, hfound, heq⟩
        rcases List.mem_cons.mp hfound with rfl | hfound
        · exact (hk (heq ▸ hseen)).elim
        · exact ⟨hk, found, hfound, heq⟩
    · rename_i hseen
      by_cases hk : row.node.nodeKey = k
      · subst hk
        exact ⟨fun _ => ⟨hseen, row, List.mem_cons_self, rfl⟩,
          fun _ => ⟨row, List.mem_cons_self, rfl⟩⟩
      · have hne : k ≠ row.node.nodeKey := Ne.symm hk
        have hrest := @ih (row.node.nodeKey :: seen)
        simp only [List.mem_cons, not_or, hne, not_false_eq_true, true_and] at hrest
        simp only [List.mem_cons, exists_eq_or_imp, hk, false_or]
        exact hrest

/-- A walk from the start to `t` of at most `maxDepth` steps, on which no two nodes have one text.
-/
def WalkedTo (g : Graph δ) (edgeTypes : Option (List String)) (downstream : Bool)
    (start : NodeKey) (maxDepth : Nat) (t : NodeKey) : Prop :=
  ∃ l, Visits (g.Adjacent edgeTypes downstream) start l t ∧ l.length ≤ maxDepth ∧
    (l.map keyText).Nodup

/-- The traversal of the PostgreSQL backend returns the nodes at the end of such a walk. -/
theorem mem_traverseSql {keyLe : String → String → Bool} {n : Node δ} :
    n ∈ g.traverseSql keyLe start maxDepth edgeTypes downstream ↔
      g.nodes.get? n.nodeKey = some n ∧
        WalkedTo g edgeTypes downstream start maxDepth n.nodeKey := by
  rw [traverseSql]
  split
  · rename_i hzero
    simp only [List.not_mem_nil, false_iff]
    rintro ⟨-, l, hvisits, hlen, -⟩
    have hl : l = [] := List.length_eq_zero_iff.mp (by omega)
    subst hl
    cases hvisits.2
  · rename_i hpos
    have hbase : ∀ row, row ∈ g.baseRows edgeTypes downstream start ↔
        ∃ l, Walked g edgeTypes downstream start row l ∧ l.length = 0 + 1 := fun _ => mem_baseRows
    have hrows : ∀ row, _ ↔ ∃ l, Walked g edgeTypes downstream start row l ∧ 0 < l.length ∧
        l.length ≤ maxDepth := fun row => mem_walkRows hbase (Nat.zero_add maxDepth).ge (by omega)
    simp only [List.mem_map, List.mem_insertionSort]
    constructor
    · rintro ⟨row, hrow, rfl⟩
      obtain ⟨l, hl, -, hlen⟩ :=
        (hrows row).mp ((List.mem_insertionSort _).mp (of_mem_distinctOn hrow))
      exact ⟨hl.stands, l, hl.visits, hlen, hl.distinct⟩
    · rintro ⟨hget, l, hvisits, hlen, hdistinct⟩
      have hl : 0 < l.length := List.length_pos_of_mem (List.mem_of_getLast? hvisits.2)
      have hmem := (hrows ⟨n, l.length, l.map keyText⟩).mpr
        ⟨l, ⟨hget, hvisits, rfl, rfl, hdistinct⟩, hl, hlen⟩
      obtain ⟨row, hrow, hkey⟩ := mem_distinctOn.mpr
        ⟨List.not_mem_nil, _, (List.mem_insertionSort fun a b => a.depth ≤ b.depth).mpr hmem, rfl⟩
      refine ⟨row, hrow, ?_⟩
      -- one node stands under the key
      obtain ⟨path, hpath, -⟩ :=
        (hrows row).mp ((List.mem_insertionSort _).mp (of_mem_distinctOn hrow))
      have heq := hpath.stands
      rw [hkey, hget] at heq
      exact (Option.some.inj heq).symm

/-- The end of a walk of some steps stands. -/
theorem hops_stands {n : Nat} {t : NodeKey} (h : Hops (g.Adjacent edgeTypes downstream) start n t)
    (hpos : 0 < n) : ∃ m, g.nodes.get? t = some m := by
  cases h with
  | refl => omega
  | tail _ hstep => exact hstep.stands.2

/-- The two traversals return one set of nodes, those other than the start that are at most
`maxDepth` edges from it. -/
def TraversalsAgree (keyLe : String → String → Bool) (g : Graph δ) (start : NodeKey)
    (maxDepth : Nat)
    (edgeTypes : Option (List String)) (downstream : Bool) : Prop :=
  ∀ n, (n ∈ g.walk start maxDepth edgeTypes downstream ↔
      n ∈ g.traverseSql keyLe start maxDepth edgeTypes downstream) ∧
    (n ∈ g.walk start maxDepth edgeTypes downstream ↔
      g.nodes.get? n.nodeKey = some n ∧ n.nodeKey ≠ start ∧ ∃ m, 1 ≤ m ∧ m ≤ maxDepth ∧
        Distance (g.Adjacent edgeTypes downstream) start n.nodeKey m)

/-- A walk to another node has a shortest one, of at least one step. -/
theorem distance_of_walkedTo {t : NodeKey} (h : WalkedTo g edgeTypes downstream start maxDepth t)
    (hne : t ≠ start) : ∃ m, 1 ≤ m ∧ m ≤ maxDepth ∧
      Distance (g.Adjacent edgeTypes downstream) start t m := by
  obtain ⟨l, hvisits, hlen, -⟩ := h
  obtain ⟨m, hm, hd⟩ := Distance.exists_le hvisits.hops
  refine ⟨m, ?_, by omega, hd⟩
  rcases Nat.eq_zero_or_pos m with rfl | hpos
  · exact (hne (Distance.zero_iff.mp hd)).elim
  · exact hpos

/-- The traversals agree exactly where the walks that repeat no text reach what the levels reach,
and none of them leads back to the start. -/
theorem traversals_agree_iff (keyLe : String → String → Bool) (g : Graph δ) (start : NodeKey)
    (maxDepth : Nat) (edgeTypes : Option (List String)) (downstream : Bool) :
    TraversalsAgree keyLe g start maxDepth edgeTypes downstream ↔
      ¬ WalkedTo g edgeTypes downstream start maxDepth start ∧
        ∀ t m, 1 ≤ m → m ≤ maxDepth → Distance (g.Adjacent edgeTypes downstream) start t m →
          WalkedTo g edgeTypes downstream start maxDepth t := by
  constructor
  · intro hagree
    constructor
    · intro hback
      obtain ⟨l, hvisits, -, -⟩ := id hback
      obtain ⟨n, hn⟩ := hops_stands hvisits.hops
        (List.length_pos_of_mem (List.mem_of_getLast? hvisits.2))
      have hkey := g.named _ _ hn
      have hsql : n ∈ g.traverseSql keyLe start maxDepth edgeTypes downstream :=
        mem_traverseSql.mpr ⟨hkey ▸ hn, hkey ▸ hback⟩
      exact ((hagree n).2.mp ((hagree n).1.mpr hsql)).2.1 hkey
    · intro t m hpos hle hd
      obtain ⟨n, hn⟩ := hops_stands hd.1 hpos
      have hkey := g.named _ _ hn
      subst hkey
      exact (mem_traverseSql.mp ((hagree n).1.mp (mem_walk.mpr ⟨hn, m, hpos, hle, hd⟩))).2
  · rintro ⟨hback, hreach⟩ n
    rw [mem_walk, mem_traverseSql]
    refine ⟨and_congr_right fun hget => ⟨?_, fun hwalked => ?_⟩, ?_⟩
    · rintro ⟨m, hpos, hle, hd⟩
      exact hreach _ m hpos hle hd
    · exact distance_of_walkedTo hwalked fun heq => hback (heq ▸ hwalked)
    · refine and_congr_right fun hget => ⟨?_, And.right⟩
      rintro ⟨m, hpos, hle, hd⟩
      refine ⟨fun heq => ?_, m, hpos, hle, hd⟩
      have hzero := hd.unique (Distance.zero_iff.mpr heq)
      omega

/-- Two nodes, each the parent of the other. -/
def cyclicGraph : Except GraphError (Graph Unit) := do
  let (g, _) ← Graph.empty.mergeNode "Node" "a" .empty
  let (g, _) ← g.mergeNode "Node" "b" .empty
  let g ← g.addEdge ("Node", "a") ("Node", "b") "NEXT"
  g.addEdge ("Node", "b") ("Node", "a") "NEXT"

/-- The query comes back to the start, which the search never returns. -/
theorem traversals_disagree_on_cycle : ∃ g, cyclicGraph = .ok g ∧
    ¬ TraversalsAgree (fun a b => decide (a ≤ b)) g ("Node", "a") 2 none true := by
  have hrun : Fallible.check (fun g => decide (("Node", "a") ∈
      (g.traverseSql (fun a b => decide (a ≤ b)) ("Node", "a") 2 none true).map Node.nodeKey))
      cyclicGraph = true := by decide +kernel
  obtain ⟨g, hg, hmem⟩ := Fallible.check_eq_true.mp hrun
  obtain ⟨n, hn, hkey⟩ := List.mem_map.mp (of_decide_eq_true hmem)
  refine ⟨g, hg, fun hagree => ?_⟩
  exact ((hagree n).2.mp ((hagree n).1.mpr hn)).2.1 hkey

/-- Where no label of the graph holds a colon, two nodes have two texts. -/
theorem keyText_injective {a b : NodeKey} (ha : ¬ Holds ':' a.1) (hb : ¬ Holds ':' b.1)
    (h : keyText a = keyText b) : a = b := by
  obtain ⟨hlabel, hkey⟩ := split_left ha hb h
  exact Prod.ext hlabel hkey

/-- Without a colon in a label, a walk that visits no node twice repeats no text. -/
theorem walkedTo_of_nodup (hlabels : ∀ k ∈ g.nodes.keys, ¬ Holds ':' k.1) {t : NodeKey}
    {l : List NodeKey} (hvisits : Visits (g.Adjacent edgeTypes downstream) start l t)
    (hlen : l.length ≤ maxDepth) (hnodup : l.Nodup) :
    WalkedTo g edgeTypes downstream start maxDepth t := by
  have hlabel : ∀ k ∈ l, ¬ Holds ':' k.1 := by
    intro k hk
    obtain ⟨d, hstep⟩ := hvisits.step_to hk
    obtain ⟨n, hn⟩ := hstep.stands.2
    exact hlabels k (Dict.mem_keys_iff.mpr (Option.isSome_iff_exists.mpr ⟨n, hn⟩))
  refine ⟨l, hvisits, hlen, hnodup.map_on fun a ha b hb => ?_⟩
  exact keyText_injective (hlabel a ha) (hlabel b hb)

/-- Without a colon in a label no node masks another, and the traversals agree exactly where no
cycle of at most `maxDepth` edges leads through the start. -/
theorem traversals_agree_of_labels {keyLe : String → String → Bool}
    (hlabels : ∀ k ∈ g.nodes.keys, ¬ Holds ':' k.1) :
    TraversalsAgree keyLe g start maxDepth edgeTypes downstream ↔
      ∀ n < maxDepth, ¬ Hops (g.Adjacent edgeTypes downstream) start (n + 1) start := by
  rw [traversals_agree_iff]
  constructor
  · rintro ⟨hback, -⟩ n hn hwalk
    obtain ⟨l, hvisits, hlen, hnodup⟩ := hwalk.cycle
    exact hback (walkedTo_of_nodup hlabels hvisits (by omega) hnodup)
  · intro hfree
    constructor
    · rintro ⟨l, hvisits, hlen, -⟩
      obtain ⟨n, hn⟩ := Nat.exists_eq_add_one.mpr
        (List.length_pos_of_mem (List.mem_of_getLast? hvisits.2))
      exact hfree n (by omega) (hn ▸ hvisits.hops)
    · intro t m hpos hle hd
      obtain ⟨n, rfl⟩ := Nat.exists_eq_add_one.mpr hpos
      obtain ⟨l, hvisits, hlen, hnodup, -⟩ := hd.visits
      exact walkedTo_of_nodup hlabels hvisits (by omega) hnodup

end Agreement

end Graph

end TradingAgents.Kernel
