import Mathlib
import TradingAgents.Contracts.Documents
import TradingAgents.ProofKit.Fallible
import TradingAgents.ProofKit.SetEdits
import TradingAgents.ProofKit.Spans
import TradingAgents.ProofKit.StableSort
import TradingAgents.ProofKit.Text

/-! The reconstruction of index membership: today's constituents with the dated changes undone back
to the first session and replayed forward, and the episodes of the tickers.  Dates are ordinals. -/

namespace TradingAgents.Sp500

open Kernel ProofKit

structure SymbolMapRow where
  kind : String
  line : String
  symbol : String
  fromDate : ℤ
deriving DecidableEq

structure Constituent where
  symbol : String
deriving DecidableEq

structure Change where
  date : ℤ
  added : Option String
  removed : Option String
deriving DecidableEq

structure Episode where
  line : String
  ticker : String
  first : ℤ
  last : ℤ
deriving DecidableEq

structure UnreconciledRecord where
  date : ℤ
  ticker : String
  reason : String
deriving DecidableEq

structure MembershipResult where
  episodes : List Episode
  membersBySession : Dict ℤ (List String)
  countMin : ℕ
  countMax : ℕ
  unreconciled : List UnreconciledRecord

/-! ### Symbols and lines -/

/-- The line that a symbol named on a day, by the first row of the table that says so. -/
def lineFor (symbol : String) (day : ℤ) (renames : List SymbolMapRow) : String :=
  match renames.find? fun row => decide (symbol = row.symbol ∧ day < row.fromDate) with
  | some row => row.line
  | none => symbol

/-- The symbol of a line on a day, by the earliest rename still ahead. -/
def tickerFor (line : String) (day : ℤ) (renames : List SymbolMapRow) : String :=
  match (renames.insertionSort fun a b => a.fromDate ≤ b.fromDate).find? fun row =>
      decide (line = row.line ∧ day < row.fromDate) with
  | some row => row.symbol
  | none => line

/-- The sorted tickers of the lines on a day. -/
def tickers (active : Finset String) (session : ℤ) (renames : List SymbolMapRow) : List String :=
  (active.val.map fun line => tickerFor line session renames).sort

/-! ### Undoing and replaying -/

/-- The lines so far, and the changes that did not fit. -/
structure Undoing where
  active : Finset String
  unreconciled : List UnreconciledRecord

def undoAdded (renames : List SymbolMapRow) (change : Change) (s : Undoing) : Undoing :=
  match change.added with
  | none => s
  | some symbol =>
    if lineFor symbol change.date renames ∈ s.active then
      { s with active := s.active.erase (lineFor symbol change.date renames) }
    else
      { s with unreconciled := s.unreconciled ++ [⟨change.date, symbol, "added ticker absent"⟩] }

def undoRemoved (renames : List SymbolMapRow) (change : Change) (s : Undoing) : Undoing :=
  match change.removed with
  | none => s
  | some symbol => { s with active := insert (lineFor symbol change.date renames) s.active }

def undoChange (renames : List SymbolMapRow) (change : Change) (s : Undoing) : Undoing :=
  undoRemoved renames change (undoAdded renames change s)

def discardRemoved (renames : List SymbolMapRow) (change : Change) (active : Finset String) :
    Finset String :=
  match change.removed with
  | none => active
  | some symbol => active.erase (lineFor symbol change.date renames)

def addAdded (renames : List SymbolMapRow) (change : Change) (active : Finset String) :
    Finset String :=
  match change.added with
  | none => active
  | some symbol => insert (lineFor symbol change.date renames) active

def applyChange (renames : List SymbolMapRow) (active : Finset String) (change : Change) :
    Finset String :=
  addAdded renames change (discardRemoved renames change active)

/-- The lines, the changes still to come, and the members so far. -/
structure Replaying where
  active : Finset String
  pending : List Change
  members : Dict ℤ (List String)

/-- One session: the changes up to it are applied, and its members are noted. -/
def replaySession (renames : List SymbolMapRow) (s : Replaying) (session : ℤ) : Replaying :=
  let due := s.pending.takeWhile fun change => decide (change.date ≤ session)
  let active := due.foldl (applyChange renames) s.active
  { active := active
    pending := s.pending.dropWhile fun change => decide (change.date ≤ session)
    members := s.members.set session (tickers active session renames) }

/-! ### Episodes -/

/-- The lines and tickers of a session. -/
def seen (renames : List SymbolMapRow) (session : ℤ) (names : List String) :
    List (String × String) :=
  names.map fun ticker => (lineFor ticker session renames, ticker)

def Episode.ofSpan (s : Span (String × String) ℤ) : Episode where
  line := s.key.1
  ticker := s.key.2
  first := s.first
  last := s.last

/-- The key that the episodes are sorted by. -/
def Episode.key (e : Episode) : ℤ ×ₗ String ×ₗ String := toLex (e.first, toLex (e.line, e.ticker))

/-- The sessions in order, each with its lines and tickers. -/
def snapshots (members : Dict ℤ (List String)) (renames : List SymbolMapRow) :
    List (ℤ × List (String × String)) :=
  (members.entries.insertionSort fun a b => a.1 ≤ b.1).map fun p => (p.1, seen renames p.1 p.2)

def episodes (members : Dict ℤ (List String)) (renames : List SymbolMapRow) : List Episode :=
  ((spans (snapshots members renames)).map Episode.ofSpan).insertionSort fun a b => a.key ≤ b.key

/-! ### The reconstruction -/

def renameRows (symbolMap : List SymbolMapRow) : List SymbolMapRow :=
  symbolMap.filter fun row => decide (row.kind = "rename")

def orderedChanges (changes : List Change) : List Change :=
  changes.insertionSort fun a b => a.date ≤ b.date

/-- The lines of the constituents, read on a day. -/
def linesOf (constituents : List Constituent) (day : ℤ) (renames : List SymbolMapRow) :
    Finset String :=
  (constituents.map fun row => lineFor row.symbol day renames).toFinset

/-- The changes after the first session. -/
def changesAfter (changes : List Change) (first : ℤ) : List Change :=
  (orderedChanges changes).filter fun change => decide (first < change.date)

/-- The constituents with the changes after the first session undone, the last one first. -/
def undone (constituents : List Constituent) (changes : List Change) (first last : ℤ)
    (renames : List SymbolMapRow) : Undoing :=
  (changesAfter changes first).foldr (undoChange renames) ⟨linesOf constituents last renames, []⟩

/-- The sessions replayed from the lines of the first one. -/
def replayed (active : Finset String) (changes : List Change) (first : ℤ) (sessions : List ℤ)
    (renames : List SymbolMapRow) : Dict ℤ (List String) :=
  (sessions.foldl (replaySession renames)
    ⟨active, changesAfter changes first, .empty⟩).members

/-- The reconstruction over a table of symbols. -/
def reconstructMembership (constituents : List Constituent) (changes : List Change)
    (sessions : List ℤ) (symbolMap : List SymbolMapRow) : Except HandlerError MembershipResult :=
  let renames := renameRows symbolMap
  match sessions.insertionSort (· ≤ ·) with
  | [] => .error (.validation "sessions must not be empty")
  | first :: rest =>
    let start := undone constituents changes first ((first :: rest).getLast (by simp)) renames
    let members := replayed start.active changes first (first :: rest) renames
    let counts := members.entries.map fun p => p.2.length
    .ok
      { episodes := episodes members renames
        membersBySession := members
        countMin := counts.min?.getD 0
        countMax := counts.max?.getD 0
        unreconciled := start.unreconciled }

/-! ### What the reconstruction is for -/

/-- A change as an edit of the lines. -/
def Change.edit (renames : List SymbolMapRow) (change : Change) : Edit String where
  removed := (change.removed.map fun symbol => lineFor symbol change.date renames).toFinset
  added := (change.added.map fun symbol => lineFor symbol change.date renames).toFinset

/-- The edits after one day and up to another, oldest first. -/
def editsBetween (changes : List Change) (day day' : ℤ) (renames : List SymbolMapRow) :
    List (Edit String) :=
  ((changesAfter changes day).filter fun change => decide (change.date ≤ day')).map
    (Change.edit renames)

/-- Today's constituents without the changes after a day. -/
def constituentsAsOf (constituents : List Constituent) (changes : List Change) (day : ℤ)
    (renames : List SymbolMapRow) : Finset String :=
  Edit.undoAll ((changesAfter changes day).map (Change.edit renames))
    (linesOf constituents day renames)

/-- The lines of the tickers of a session. -/
def linesIn (names : List String) (session : ℤ) (renames : List SymbolMapRow) : Finset String :=
  (names.map fun ticker => lineFor ticker session renames).toFinset

/-- A line that the inputs speak of. -/
def Named (constituents : List Constituent) (changes : List Change) (last : ℤ)
    (renames : List SymbolMapRow) (line : String) : Prop :=
  line ∈ linesOf constituents last renames ∨
    ∃ change ∈ changes, (change.edit renames).Touches line

/-- On each session the ticker of a line reads back as the line. -/
def Unambiguous (constituents : List Constituent) (changes : List Change) (sessions : List ℤ)
    (last : ℤ) (renames : List SymbolMapRow) : Prop :=
  ∀ session ∈ sessions, ∀ line, Named constituents changes last renames line →
    lineFor (tickerFor line session renames) session renames = line

/-- The episode holds the ticker of a line on a session. -/
def Episode.holds (line ticker : String) (session : ℤ) (e : Episode) : Bool :=
  decide (e.line = line ∧ e.ticker = ticker ∧ e.first ≤ session ∧ session ≤ e.last)

/-- The membership ends at the constituents, follows the changes and is covered by the episodes. -/
structure Reconstructs (constituents : List Constituent) (changes : List Change)
    (sessions : List ℤ) (last : ℤ) (renames : List SymbolMapRow) (result : MembershipResult) :
    Prop where
  noted : ∀ session, (result.membersBySession.get? session).isSome ↔ session ∈ sessions
  ends : result.membersBySession.get? last =
    some (tickers (constituentsAsOf constituents changes last renames) last renames)
  follows : ∀ s t names, t ∈ sessions → s ≤ t → result.membersBySession.get? s = some names →
    result.membersBySession.get? t =
      some (tickers (Edit.redoAll (editsBetween changes s t renames) (linesIn names s renames)) t
        renames)
  covered : ∀ session names, result.membersBySession.get? session = some names →
    ∀ line ticker, result.episodes.countP (Episode.holds line ticker session) =
      if ticker ∈ names ∧ lineFor ticker session renames = line then 1 else 0

/-- A line that the last of its changes between the first and the last session takes out is not
among the constituents as of the last session. -/
def RemovedStayOut (constituents : List Constituent) (changes : List Change) (first last : ℤ)
    (renames : List SymbolMapRow) : Prop :=
  ∀ line e, Edit.lastTouch (editsBetween changes first last renames) line = some e →
    line ∉ e.added → line ∉ constituentsAsOf constituents changes last renames

/-! ### Undoing and replaying as edits -/

section

variable {renames : List SymbolMapRow} {change : Change} {changes : List Change}
  {active : Finset String} {s : Undoing}

theorem active_undoChange :
    (undoChange renames change s).active = (change.edit renames).undo s.active := by
  obtain ⟨date, added, removed⟩ := change
  have hadded : (undoAdded renames ⟨date, added, removed⟩ s).active =
      s.active \ (Change.edit renames ⟨date, added, removed⟩).added := by
    cases added with
    | none => simp [undoAdded, Change.edit]
    | some symbol =>
      by_cases h : lineFor symbol date renames ∈ s.active
      · simp [undoAdded, Change.edit, h, Finset.erase_eq]
      · simp [undoAdded, Change.edit, h, Finset.sdiff_singleton_eq_erase]
  cases removed with
  | none => simpa [undoChange, undoRemoved, Edit.undo, Change.edit] using hadded
  | some symbol =>
    rw [undoChange, undoRemoved, Edit.undo, ← hadded]
    ext line
    simp [Change.edit]

theorem unreconciled_undoChange : (undoChange renames change s).unreconciled = [] ↔
    s.unreconciled = [] ∧ (change.edit renames).added ⊆ s.active := by
  obtain ⟨date, added, removed⟩ := change
  have hremoved : (undoChange renames ⟨date, added, removed⟩ s).unreconciled =
      (undoAdded renames ⟨date, added, removed⟩ s).unreconciled := by
    cases removed <;> rfl
  rw [hremoved]
  cases added with
  | none => simp [undoAdded, Change.edit]
  | some symbol =>
    by_cases h : lineFor symbol date renames ∈ s.active
    · simp [undoAdded, Change.edit, h]
    · simp [undoAdded, Change.edit, h]

theorem applyChange_eq :
    applyChange renames active change = (change.edit renames).redo active := by
  obtain ⟨date, added, removed⟩ := change
  have hremoved : discardRemoved renames ⟨date, added, removed⟩ active =
      active \ (Change.edit renames ⟨date, added, removed⟩).removed := by
    cases removed with
    | none => simp [discardRemoved, Change.edit]
    | some symbol => simp [discardRemoved, Change.edit, Finset.erase_eq]
  cases added with
  | none => simpa [applyChange, addAdded, Edit.redo, Change.edit] using hremoved
  | some symbol =>
    rw [applyChange, addAdded, Edit.redo, hremoved]
    ext line
    simp [Change.edit]

theorem active_undoAll : (changes.foldr (undoChange renames) ⟨active, []⟩).active =
    Edit.undoAll (changes.map (Change.edit renames)) active := by
  induction changes with
  | nil => rfl
  | cons change changes ih =>
    rw [List.foldr_cons, active_undoChange, ih]
    rfl

/-- Nothing is reported where each addition that is undone finds its line. -/
theorem unreconciled_undoAll : (changes.foldr (undoChange renames) ⟨active, []⟩).unreconciled = [] ↔
    Edit.Reconciled (changes.map (Change.edit renames)) active := by
  induction changes with
  | nil => simp [Edit.Reconciled]
  | cons change changes ih =>
    rw [List.foldr_cons, unreconciled_undoChange, ih, active_undoAll]
    rfl

theorem foldl_applyChange : changes.foldl (applyChange renames) active =
    Edit.redoAll (changes.map (Change.edit renames)) active := by
  rw [Edit.redoAll, List.foldl_map]
  exact List.foldl_ext _ _ _ fun s change _ => applyChange_eq

end

/-! ### Sessions -/

section

variable {renames : List SymbolMapRow} {changes : List Change} {sessions : List ℤ}
  {active : Finset String} {s : Replaying} {first session t : ℤ}

theorem sorted_orderedChanges : (orderedChanges changes).Pairwise fun a b => a.date ≤ b.date :=
  pairwise_insertionSort Change.date changes

theorem sorted_changesAfter : (changesAfter changes first).Pairwise fun a b => a.date ≤ b.date :=
  sorted_orderedChanges.filter _

theorem replaySession_active (h : s.pending.Pairwise fun a b => a.date ≤ b.date) :
    (replaySession renames s session).active =
      Edit.redoAll ((s.pending.filter fun change => decide (change.date ≤ session)).map
        (Change.edit renames)) s.active := by
  rw [← foldl_applyChange, ← (takeWhile_le h session).1]
  rfl

theorem replaySession_pending (h : s.pending.Pairwise fun a b => a.date ≤ b.date) :
    (replaySession renames s session).pending =
      s.pending.filter fun change => decide (session < change.date) :=
  (takeWhile_le h session).2

/-- What is due at a later session is what was due before it and then what became due. -/
theorem due_later (h : changes.Pairwise fun a b => a.date ≤ b.date) (hle : session ≤ t) :
    changes.filter (fun change => decide (change.date ≤ t)) =
      changes.filter (fun change => decide (change.date ≤ session)) ++
        (changes.filter fun change => decide (session < change.date)).filter
          fun change => decide (change.date ≤ t) := by
  conv_lhs => rw [← filter_le_append_filter_lt h session, List.filter_append]
  congr 1
  refine List.filter_eq_self.mpr fun change hchange => ?_
  have hdate := List.of_mem_filter hchange
  rw [decide_eq_true_eq] at hdate ⊢
  exact hdate.trans hle

/-- A session's members are the lines with the changes up to it. -/
theorem get?_replay (hpending : s.pending.Pairwise fun a b => a.date ≤ b.date)
    (hsessions : sessions.Pairwise (· ≤ ·)) :
    (sessions.foldl (replaySession renames) s).members.get? t =
      if t ∈ sessions then
        some (tickers (Edit.redoAll ((s.pending.filter fun change => decide (change.date ≤ t)).map
          (Change.edit renames)) s.active) t renames)
      else s.members.get? t := by
  induction sessions generalizing s with
  | nil => simp
  | cons session sessions ih =>
    obtain ⟨hfirst, hrest⟩ := List.pairwise_cons.mp hsessions
    rw [List.foldl_cons, ih (by rw [replaySession_pending hpending]; exact hpending.filter _) hrest]
    by_cases hlater : t ∈ sessions
    · rw [if_pos hlater, if_pos (List.mem_cons_of_mem session hlater),
        replaySession_active hpending, replaySession_pending hpending,
        due_later hpending (hfirst t hlater), List.map_append, Edit.redoAll_append]
    · rw [if_neg hlater]
      by_cases hthis : t = session
      · subst hthis
        rw [if_pos List.mem_cons_self, ← replaySession_active hpending]
        exact Dict.get?_set_self _ _ _
      · rw [if_neg (by simp [hthis, hlater])]
        exact Dict.get?_set_ne _ _ hthis

theorem get?_replayed (hsessions : sessions.Pairwise (· ≤ ·)) :
    (replayed active changes first sessions renames).get? t =
      if t ∈ sessions then
        some (tickers (Edit.redoAll (editsBetween changes first t renames) active) t renames)
      else none :=
  get?_replay sorted_changesAfter hsessions

end

/-! ### Tickers and lines -/

section

variable {renames : List SymbolMapRow} {active : Finset String} {session : ℤ} {ticker : String}

theorem mem_tickers :
    ticker ∈ tickers active session renames ↔
      ∃ line ∈ active, tickerFor line session renames = ticker := by
  rw [tickers, Multiset.mem_sort, Multiset.mem_map]
  rfl

/-- The tickers of lines that read back name the lines. -/
theorem linesIn_tickers (h : ∀ line ∈ active,
    lineFor (tickerFor line session renames) session renames = line) :
    linesIn (tickers active session renames) session renames = active := by
  ext line
  simp only [linesIn, List.mem_toFinset, List.mem_map, mem_tickers]
  constructor
  · rintro ⟨ticker, ⟨line', hmem, rfl⟩, rfl⟩
    rwa [h line' hmem]
  · intro hmem
    exact ⟨_, ⟨line, hmem, rfl⟩, h line hmem⟩

end

/-! ### Episodes -/

section

variable {members : Dict ℤ (List String)} {renames : List SymbolMapRow}

theorem snapshots_pairwise : (snapshots members renames).Pairwise fun p q => p.1 < q.1 := by
  have hsorted := pairwise_insertionSort (fun p : ℤ × List String => p.1) members.entries
  have hnodup : ((members.entries.insertionSort fun a b => a.1 ≤ b.1).map Prod.fst).Nodup :=
    ((List.perm_insertionSort _ _).map Prod.fst).nodup_iff.mpr members.nodup
  rw [List.Nodup, List.pairwise_map] at hnodup
  exact List.pairwise_map.mpr ((hsorted.and hnodup).imp fun h => lt_of_le_of_ne h.1 h.2)

theorem mem_snapshots {session : ℤ} {names : List String}
    (h : members.get? session = some names) :
    (session, seen renames session names) ∈ snapshots members renames :=
  List.mem_map.mpr
    ⟨(session, names), (List.mem_insertionSort _).mpr (Dict.mem_entries_iff.mpr h), rfl⟩

theorem mem_seen {session : ℤ} {names : List String} {line ticker : String} :
    (line, ticker) ∈ seen renames session names ↔
      ticker ∈ names ∧ lineFor ticker session renames = line := by
  simp only [seen, List.mem_map, Prod.mk.injEq]
  constructor
  · rintro ⟨ticker', hmem, hline, rfl⟩
    exact ⟨hmem, hline⟩
  · rintro ⟨hmem, hline⟩
    exact ⟨ticker, hmem, hline, rfl⟩

/-- Each member of a session lies in one episode, and no other line and ticker in any. -/
theorem countP_episodes {session : ℤ} {names : List String}
    (h : members.get? session = some names) (line ticker : String) :
    (episodes members renames).countP (Episode.holds line ticker session) =
      if ticker ∈ names ∧ lineFor ticker session renames = line then 1 else 0 := by
  have hholds : (Episode.holds line ticker session ∘ Episode.ofSpan) =
      Span.covers (line, ticker) session := by
    funext s
    rw [Bool.eq_iff_iff, Function.comp, Episode.holds, decide_eq_true_iff]
    simp only [Episode.ofSpan, Span.covers, Bool.and_eq_true, decide_eq_true_eq, Prod.ext_iff,
      and_assoc]
  have hsnapshot : (session, seen renames session names) ∈ snapshots members renames :=
    mem_snapshots h
  have hcount := countP_spans snapshots_pairwise hsnapshot (line, ticker)
  rw [episodes, (List.perm_insertionSort _ _).countP_eq, List.countP_map, hholds]
  by_cases hmem : (line, ticker) ∈ seen renames session names
  · rw [if_pos (mem_seen.mp hmem)]
    rwa [if_pos hmem] at hcount
  · rw [if_neg fun hlisted => hmem (mem_seen.mpr hlisted)]
    rwa [if_neg hmem] at hcount

end

/-! ### The reconstruction and its purpose -/

section

variable {constituents : List Constituent} {changes : List Change} {sessions : List ℤ}
  {first last s t : ℤ} {symbolMap renames : List SymbolMapRow} {result : MembershipResult}

/-- The result in terms of the first and the last session. -/
theorem reconstructMembership_ok (hfirst : IsLeast {s | s ∈ sessions} first)
    (hlast : IsGreatest {s | s ∈ sessions} last)
    (h : reconstructMembership constituents changes sessions symbolMap = .ok result) :
    let start := undone constituents changes first last (renameRows symbolMap)
    result.membersBySession =
        replayed start.active changes first (sessions.insertionSort (· ≤ ·))
          (renameRows symbolMap) ∧
      result.episodes = episodes result.membersBySession (renameRows symbolMap) ∧
      result.unreconciled = start.unreconciled := by
  have hmem : ∀ {s}, s ∈ sessions.insertionSort (· ≤ ·) ↔ s ∈ sessions := List.mem_insertionSort _
  have hsorted := pairwise_insertionSort id sessions
  unfold reconstructMembership at h
  cases hsessions : sessions.insertionSort (· ≤ ·) with
  | nil =>
    have hnone := hmem.mpr hfirst.1
    rw [hsessions] at hnone
    cases hnone
  | cons a rest =>
    simp only [id_eq] at hsorted
    rw [hsessions] at h hsorted
    simp only [hsessions] at hmem
    have ha : a = first := by
      refine le_antisymm ?_ (hfirst.2 (hmem.mp List.mem_cons_self))
      rcases List.mem_cons.mp (hmem.mpr hfirst.1) with heq | hrest
      · exact heq.ge
      · exact (List.pairwise_cons.mp hsorted).1 first hrest
    have hend : (a :: rest).getLast (by simp) = last := by
      refine le_antisymm (hlast.2 (hmem.mp (List.getLast_mem _))) ?_
      exact hsorted.rel_getLast (hmem.mpr hlast.1)
    rw [← Except.ok.inj h, hend, ha]
    exact ⟨rfl, rfl, rfl⟩

/-- The changes after a day are those up to a later day and those after it. -/
theorem changesAfter_later (h : s ≤ t) :
    (changesAfter changes s).filter (fun change => decide (t < change.date)) =
      changesAfter changes t := by
  rw [changesAfter, List.filter_filter, changesAfter]
  refine List.filter_congr fun change _ => ?_
  rw [← Bool.decide_and]
  exact decide_eq_decide.mpr ⟨And.left, fun hlater => ⟨hlater, h.trans_lt hlater⟩⟩

theorem editsBetween_trans (hs : first ≤ s) (ht : s ≤ t) :
    editsBetween changes first t renames =
      editsBetween changes first s renames ++ editsBetween changes s t renames := by
  rw [editsBetween, due_later sorted_changesAfter ht, changesAfter_later hs, List.map_append]
  rfl

theorem edits_split (h : first ≤ last) :
    (changesAfter changes first).map (Change.edit renames) =
      editsBetween changes first last renames ++
        (changesAfter changes last).map (Change.edit renames) := by
  conv_lhs => rw [← filter_le_append_filter_lt sorted_changesAfter last, changesAfter_later h,
    List.map_append]
  rfl

/-- The lines of the first session, from the constituents as of the last one. -/
theorem active_undone (h : first ≤ last) :
    (undone constituents changes first last renames).active =
      Edit.undoAll (editsBetween changes first last renames)
        (constituentsAsOf constituents changes last renames) := by
  rw [undone, active_undoAll, edits_split h, Edit.undoAll_append]
  rfl

theorem reconciled_undone (h : first ≤ last)
    (hnone : (undone constituents changes first last renames).unreconciled = []) :
    Edit.Reconciled (editsBetween changes first last renames)
      (constituentsAsOf constituents changes last renames) := by
  rw [undone, unreconciled_undoAll, edits_split h] at hnone
  exact (Edit.Reconciled.append.mp hnone).1

theorem change_of_mem_changesAfter {change : Change} (h : change ∈ changesAfter changes s) :
    change ∈ changes :=
  (List.mem_insertionSort _).mp (List.mem_of_mem_filter h)

theorem named_of_edit {e : Edit String} {line : String}
    (he : e ∈ (changesAfter changes s).map (Change.edit renames)) (hline : e.Touches line) :
    Named constituents changes last renames line := by
  obtain ⟨change, hchange, rfl⟩ := List.mem_map.mp he
  exact .inr ⟨change, change_of_mem_changesAfter hchange, hline⟩

theorem mem_edits_of_between {e : Edit String} (he : e ∈ editsBetween changes s t renames) :
    e ∈ (changesAfter changes s).map (Change.edit renames) := by
  obtain ⟨change, hchange, rfl⟩ := List.mem_map.mp he
  exact List.mem_map_of_mem (List.mem_of_mem_filter hchange)

theorem named_of_constituentsAsOf {line : String}
    (h : line ∈ constituentsAsOf constituents changes last renames) :
    Named constituents changes last renames line :=
  Edit.mem_undoAll_subset (fun _ hmem => .inl hmem)
    (fun _ he _ hremoved => named_of_edit he (.inl hremoved)) h

/-- The lines of each session are lines that the inputs speak of. -/
theorem named_of_replayed (h : first ≤ last) {line : String}
    (hline : line ∈ Edit.redoAll (editsBetween changes first t renames)
      (undone constituents changes first last renames).active) :
    Named constituents changes last renames line := by
  refine Edit.mem_redoAll_subset (fun x hx => ?_)
    (fun _ he _ hadded => named_of_edit (mem_edits_of_between he) (.inr hadded)) hline
  rw [active_undone h] at hx
  exact Edit.mem_undoAll_subset (fun _ hmem => named_of_constituentsAsOf hmem)
    (fun _ he _ hremoved => named_of_edit (mem_edits_of_between he) (.inl hremoved)) hx

/-- A table that gives a symbol to one line, and none the name of a line, is unambiguous. -/
theorem unambiguous_of_distinct
    (hsymbols : ∀ row ∈ renames, ∀ row' ∈ renames, row.symbol = row'.symbol → row.line = row'.line)
    (hlines : ∀ row ∈ renames, ¬ Named constituents changes last renames row.symbol) :
    Unambiguous constituents changes sessions last renames := by
  intro session _ line hnamed
  have hperm := List.perm_insertionSort (fun a b => a.fromDate ≤ b.fromDate) renames
  unfold tickerFor
  cases hrow : (renames.insertionSort fun a b => a.fromDate ≤ b.fromDate).find? fun row =>
      decide (line = row.line ∧ session < row.fromDate) with
  | none =>
    have hfind : renames.find? (fun row => decide (line = row.symbol ∧ session < row.fromDate)) =
        none := by
      refine List.find?_eq_none.mpr fun row hmem => ?_
      rw [decide_eq_true_eq]
      rintro ⟨hline, -⟩
      rw [hline] at hnamed
      exact hlines row hmem hnamed
    simp only [lineFor, hfind]
  | some row =>
    have hmem : row ∈ renames := hperm.mem_iff.mp (List.mem_of_find?_eq_some hrow)
    have hfound := List.find?_some hrow
    rw [decide_eq_true_eq] at hfound
    obtain ⟨hline, hday⟩ := hfound
    cases hfind : renames.find? fun r => decide (row.symbol = r.symbol ∧ session < r.fromDate) with
    | none =>
      have hnone := List.find?_eq_none.mp hfind row hmem
      rw [decide_eq_true_eq] at hnone
      exact absurd ⟨rfl, hday⟩ hnone
    | some row' =>
      have hfound' := List.find?_some hfind
      rw [decide_eq_true_eq] at hfound'
      simp only [lineFor, hfind]
      rw [hline]
      exact (hsymbols row hmem row' (List.mem_of_find?_eq_some hfind) hfound'.1).symm

/-- Without ambiguous symbols and with nothing reported, the reconstruction ends at the
constituents, follows the changes and is covered by its episodes just where no line that the last
of its changes takes out is still a constituent. -/
theorem reconstructs_iff_removedStayOut (hfirst : IsLeast {s | s ∈ sessions} first)
    (hlast : IsGreatest {s | s ∈ sessions} last)
    (h : reconstructMembership constituents changes sessions symbolMap = .ok result)
    (hnames : Unambiguous constituents changes sessions last (renameRows symbolMap))
    (hnone : result.unreconciled = []) :
    Reconstructs constituents changes sessions last (renameRows symbolMap) result ↔
      RemovedStayOut constituents changes first last (renameRows symbolMap) := by
  obtain ⟨hmembers, hepisodes, hreported⟩ := reconstructMembership_ok hfirst hlast h
  have hlastMem : last ∈ sessions := hlast.1
  have hle : first ≤ last := hfirst.2 hlastMem
  generalize renameRows symbolMap = renames at *
  have hmem : ∀ {s}, s ∈ sessions.insertionSort (· ≤ ·) ↔ s ∈ sessions := List.mem_insertionSort _
  have hget : ∀ t, result.membersBySession.get? t = if t ∈ sessions then
      some (tickers (Edit.redoAll (editsBetween changes first t renames)
        (undone constituents changes first last renames).active) t renames) else none := by
    intro t
    rw [hmembers, get?_replayed (List.pairwise_insertionSort _ sessions)]
    exact if_congr hmem rfl rfl
  have hread : ∀ t ∈ sessions, linesIn (tickers (Edit.redoAll (editsBetween changes first t renames)
      (undone constituents changes first last renames).active) t renames) t renames =
        Edit.redoAll (editsBetween changes first t renames)
          (undone constituents changes first last renames).active := fun t ht =>
    linesIn_tickers fun line hline => hnames t ht line (named_of_replayed hle hline)
  have hreconciled := reconciled_undone hle (hreported.symm.trans hnone)
  have hends := hreconciled.redoAll_undoAll_eq_iff
  rw [← active_undone hle] at hends
  constructor
  · intro hall
    have hlastMembers := hall.ends
    rw [hget, if_pos hlastMem, Option.some.injEq] at hlastMembers
    refine hends.mp ?_
    rw [← hread last hlastMem, hlastMembers]
    exact linesIn_tickers fun line hline =>
      hnames last hlastMem line (named_of_constituentsAsOf hline)
  · intro hout
    refine ⟨fun session => ?_, ?_, fun s t names ht hst hs => ?_, fun session names hs => ?_⟩
    · rw [hget]
      by_cases hsession : session ∈ sessions
      · simp [hsession]
      · simp [hsession]
    · rw [hget, if_pos hlastMem, hends.mpr hout]
    · rw [hget] at hs
      obtain ⟨hsession, hs⟩ := Option.ite_none_right_eq_some.mp hs
      rw [← Option.some.inj hs, hread s hsession, ← Edit.redoAll_append,
        ← editsBetween_trans (hfirst.2 hsession) hst, hget, if_pos ht]
    · intro line ticker
      rw [hepisodes]
      exact countP_episodes hs line ticker

end

/-- A line renamed once, which took the place of another. -/
theorem reconstructs_iff_removedStayOut_renamed :
    ∃ result, reconstructMembership [⟨"META"⟩] [⟨2, some "FB", some "X"⟩] [1, 3, 6]
        [⟨"rename", "META", "FB", 5⟩] = .ok result ∧
      Reconstructs [⟨"META"⟩] [⟨2, some "FB", some "X"⟩] [1, 3, 6] 6
        (renameRows [⟨"rename", "META", "FB", 5⟩]) result := by
  have hfirst : IsLeast {s : ℤ | s ∈ [1, 3, 6]} 1 := by simp [IsLeast, lowerBounds]
  refine ⟨_, rfl, (reconstructs_iff_removedStayOut hfirst ?_ rfl ?_ ?_).mpr ?_⟩
  · simp [IsGreatest, upperBounds]
  · refine unambiguous_of_distinct (by decide) fun row hrow => ?_
    have heq : row = ⟨"rename", "META", "FB", 5⟩ := by simpa [renameRows] using hrow
    rw [heq]
    unfold Named
    decide
  · rfl
  · intro line e hlast hadded hmem
    have hline : line = "META" := by
      have hconstituents : constituentsAsOf [⟨"META"⟩] [⟨2, some "FB", some "X"⟩] 6
        (renameRows [⟨"rename", "META", "FB", 5⟩]) = {"META"} := by decide
      rw [hconstituents] at hmem
      exact Finset.mem_singleton.mp hmem
    subst hline
    rw [← Option.some.inj hlast] at hadded
    exact hadded (by decide)

/-- A constituent whose removal is the last change of its line: nothing is reported, and it is no
member of the last session. -/
theorem removed_constituent_lost :
    ∃ result, reconstructMembership [⟨"A"⟩] [⟨2, none, some "A"⟩] [1, 3] [] = .ok result ∧
      Unambiguous [⟨"A"⟩] [⟨2, none, some "A"⟩] [1, 3] 3 (renameRows []) ∧
      result.unreconciled = [] ∧
      ¬ Reconstructs [⟨"A"⟩] [⟨2, none, some "A"⟩] [1, 3] 3 (renameRows []) result := by
  refine ⟨_, rfl, fun _ _ _ _ => rfl, rfl, fun hall => ?_⟩
  -- the last session has no member, and the constituent is still one
  have hends : some (tickers ∅ 3 []) = some (tickers {"A"} 3 []) := hall.ends
  have hmem : "A" ∈ tickers {"A"} 3 [] := mem_tickers.mpr ⟨"A", by simp, rfl⟩
  rw [← Option.some.inj hends] at hmem
  obtain ⟨line, hline, -⟩ := mem_tickers.mp hmem
  cases hline

end TradingAgents.Sp500
