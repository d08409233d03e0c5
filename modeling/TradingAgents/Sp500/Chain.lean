import Mathlib
import TradingAgents.Contracts.Documents
import TradingAgents.ProofKit.Fallible
import TradingAgents.ProofKit.Grouping
import TradingAgents.ProofKit.Series
import TradingAgents.ProofKit.StableSort

/-! The chaining of replay bars across the switches of their source symbol: the bars before a switch
are rescaled so that the close moves over the switch as the raw close does.  Arithmetic is exact,
closes are positive, and dates are ordinals. -/

namespace TradingAgents.Sp500

open Kernel ProofKit
open Series (pairwise)

/-- A positive number. -/
abbrev Positive := {q : ℚ // 0 < q}

structure BarRow where
  line : String
  symbol : String
  date : ℤ
  openPrice : ℚ
  high : ℚ
  low : ℚ
  close : Positive
  volume : ℤ := 0
deriving DecidableEq

/-- The raw close of a symbol on a day, as a later day adjusts it. -/
abbrev RawClose := String → ℤ → ℤ → Positive

abbrev ActionLookup := String → String → String → ℤ → ℤ → String

structure SwitchRecord where
  line : String
  fromSymbol : String
  toSymbol : String
  fromDate : ℤ
  toDate : ℤ
  rawMove : ℚ
  moveVsSpy : ℚ
  action : String
deriving DecidableEq

structure ChainResult where
  rows : List BarRow
  switches : List SwitchRecord
deriving DecidableEq

/-! ### Segments -/

/-- Consecutive bars of one symbol. -/
structure Segment where
  rows : List BarRow
  nonempty : rows ≠ []

namespace Segment

def first (s : Segment) : BarRow := s.rows.head s.nonempty

def last (s : Segment) : BarRow := s.rows.getLast s.nonempty

end Segment

/-- The longest runs of bars of one symbol. -/
def segments (rows : List BarRow) : List Segment :=
  (rows.splitBy fun a b => a.symbol == b.symbol).pmap Segment.mk fun _ h =>
    List.ne_nil_of_mem_splitBy h

/-- The move of the raw close over a switch. -/
def rawRatio (rawClose : RawClose) (left right : Segment) : Positive :=
  rawClose right.first.symbol right.first.date right.last.date /
    rawClose left.last.symbol left.last.date left.last.date

/-! ### Chaining -/

def scale (row : BarRow) (factor : Positive) : BarRow :=
  { row with
    openPrice := row.openPrice * factor.val
    high := row.high * factor.val
    low := row.low * factor.val
    close := row.close * factor }

def Segment.scale (s : Segment) (factor : Positive) : Segment where
  rows := s.rows.map fun row => Sp500.scale row factor
  nonempty := by simpa using s.nonempty

/-- The factor of a segment and those of the segments after it, from the last one back. -/
def factorsFrom (rawClose : RawClose) : Segment → List Segment → Positive × List Positive
  | _, [] => (1, [])
  | left, right :: rest =>
    let (factor, later) := factorsFrom rawClose right rest
    let targetLeftClose := right.first.close * factor / rawRatio rawClose left right
    (targetLeftClose / left.last.close, factor :: later)

def factors (rawClose : RawClose) : List Segment → List Positive
  | [] => []
  | s :: rest => (factorsFrom rawClose s rest).1 :: (factorsFrom rawClose s rest).2

def chainLine (rawClose : RawClose) (rows : List BarRow) : List BarRow :=
  (List.zipWith Segment.scale (segments rows) (factors rawClose (segments rows))).flatMap
    Segment.rows

/-- A look-up in a dictionary of prices. -/
def spyClose (spyCloses : Dict ℤ ℚ) (day : ℤ) : Except HandlerError ℚ :=
  match spyCloses.get? day with
  | some close => .ok close
  | none => .error (.keyError (toString day))

/-- The ratio of two prices of the benchmark. -/
def spyRatio (spyCloses : Dict ℤ ℚ) (fromDate toDate : ℤ) : Except HandlerError ℚ := do
  let right ← spyClose spyCloses toDate
  let left ← spyClose spyCloses fromDate
  if left = 0 then .error (.validation "division by zero") else .ok (right / left)

/-- The record of one switch. -/
def switchRecord (rawClose : RawClose) (spyCloses : Dict ℤ ℚ) (actionLookup : Option ActionLookup)
    (left right : Segment) : Except HandlerError SwitchRecord := do
  let spy ← spyRatio spyCloses left.last.date right.first.date
  pure
    { line := left.last.line
      fromSymbol := left.last.symbol
      toSymbol := right.first.symbol
      fromDate := left.last.date
      toDate := right.first.date
      rawMove := rawRatio rawClose left right - 1
      moveVsSpy := rawRatio rawClose left right - spy
      action := match actionLookup with
        | some lookup => lookup left.last.line left.last.symbol right.first.symbol left.last.date
            right.first.date
        | none => "" }

def switches (rows : List BarRow) (rawClose : RawClose) (spyCloses : Dict ℤ ℚ)
    (actionLookup : Option ActionLookup) : Except HandlerError (List SwitchRecord) :=
  (pairwise (segments rows)).mapM fun p => switchRecord rawClose spyCloses actionLookup p.1 p.2

def sortByDate (rows : List BarRow) : List BarRow :=
  rows.insertionSort fun a b => a.date ≤ b.date

/-- The keys that the results are sorted by. -/
def BarRow.key (row : BarRow) : String ×ₗ ℤ := toLex (row.line, row.date)

def SwitchRecord.key (s : SwitchRecord) : String ×ₗ ℤ := toLex (s.line, s.toDate)

/-- The bars of one line chained, and its switches. -/
def chainGroup (rawClose : RawClose) (spyCloses : Dict ℤ ℚ) (actionLookup : Option ActionLookup)
    (lineRows : List BarRow) : Except HandlerError (List BarRow × List SwitchRecord) := do
  let result := chainLine rawClose (sortByDate lineRows)
  let found ← switches result rawClose spyCloses actionLookup
  pure (result, found)

/-- The rows rescaled backwards at the switches of their source. -/
def chainSourceSwitches (rows : List BarRow) (rawClose : RawClose) (spyCloses : Dict ℤ ℚ)
    (actionLookup : Option ActionLookup) : Except HandlerError ChainResult := do
  let parts ← (groupBy BarRow.line id rows).entries.mapM fun p =>
    chainGroup rawClose spyCloses actionLookup p.2
  pure
    { rows := (parts.flatMap Prod.fst).insertionSort fun a b => a.key ≤ b.key
      switches := (parts.flatMap Prod.snd).insertionSort fun a b => a.key ≤ b.key }

/-! ### Segments of rows -/

section

variable {rawClose : RawClose} {rows : List BarRow} {segs : List Segment}

theorem Segment.ext {s s' : Segment} (h : s.rows = s'.rows) : s = s' := by
  cases s
  cases s'
  cases h
  rfl

theorem map_rows_segments (rows : List BarRow) : (segments rows).map Segment.rows =
    rows.splitBy fun a b => a.symbol == b.symbol := by
  rw [segments, List.map_pmap, List.pmap_eq_map, List.map_id']

theorem flatMap_segments (rows : List BarRow) : (segments rows).flatMap Segment.rows = rows := by
  rw [List.flatMap_def, map_rows_segments, List.flatten_splitBy]

/-- Each segment is of one symbol, and neighbours are not. -/
structure Runs (segs : List Segment) : Prop where
  one : ∀ s ∈ segs, s.rows.IsChain fun a b => a.symbol = b.symbol
  ends : segs.IsChain fun left right => left.last.symbol ≠ right.first.symbol

theorem runs_segments : Runs (segments rows) where
  one s hs := by
    have hmem : s.rows ∈ rows.splitBy fun a b => a.symbol == b.symbol :=
      map_rows_segments rows ▸ List.mem_map_of_mem hs
    exact (List.isChain_of_mem_splitBy hmem).imp fun a b h => by simpa using h
  ends := by
    have hchain := List.isChain_getLast_head_splitBy (fun a b => a.symbol == b.symbol) rows
    rw [← map_rows_segments rows, List.isChain_map] at hchain
    refine hchain.imp fun left right h => ?_
    obtain ⟨_, _, hne⟩ := h
    simpa [Segment.first, Segment.last] using hne

/-- Segments like these are found again in their rows. -/
theorem Runs.segments_flatMap (h : Runs segs) : segments (segs.flatMap Segment.rows) = segs := by
  have hrows : (segments (segs.flatMap Segment.rows)).map Segment.rows = segs.map Segment.rows := by
    rw [map_rows_segments, List.flatMap_def]
    refine List.splitBy_flatten ?_ (fun m hm => ?_) ?_
    · intro hnil
      obtain ⟨s, -, hs⟩ := List.mem_map.mp hnil
      exact s.nonempty hs
    · obtain ⟨s, hs, rfl⟩ := List.mem_map.mp hm
      exact (h.one s hs).imp fun a b hab => by simpa using hab
    · rw [List.isChain_map]
      exact h.ends.imp fun left right hne => ⟨left.nonempty, right.nonempty,
        by simpa [Segment.first, Segment.last] using hne⟩
  exact List.map_injective_iff.mpr (fun s s' => Segment.ext) hrows

/-! ### Scaled segments -/

namespace Segment

variable {s : Segment} {f : Positive}

theorem first_scale : (s.scale f).first = Sp500.scale s.first f := by
  simp only [first, scale, List.head_map]

theorem last_scale : (s.scale f).last = Sp500.scale s.last f := by
  simp only [last, scale, List.getLast_map]

@[simp] theorem symbol_first_scale : (s.scale f).first.symbol = s.first.symbol := by
  rw [first_scale, Sp500.scale]

@[simp] theorem date_first_scale : (s.scale f).first.date = s.first.date := by
  rw [first_scale, Sp500.scale]

@[simp] theorem close_first_scale : (s.scale f).first.close = s.first.close * f := by
  rw [first_scale, Sp500.scale]

@[simp] theorem symbol_last_scale : (s.scale f).last.symbol = s.last.symbol := by
  rw [last_scale, Sp500.scale]

@[simp] theorem date_last_scale : (s.scale f).last.date = s.last.date := by
  rw [last_scale, Sp500.scale]

@[simp] theorem close_last_scale : (s.scale f).last.close = s.last.close * f := by
  rw [last_scale, Sp500.scale]

end Segment

@[simp] theorem rawRatio_scale {left right : Segment} {f g : Positive} :
    rawRatio rawClose (left.scale f) (right.scale g) = rawRatio rawClose left right := by
  simp [rawRatio]

theorem isChain_zipWith {α β γ : Type} {R : α → α → Prop} {S : γ → γ → Prop} {f : α → β → γ}
    {l : List α} (m : List β) (h : ∀ a b x y, R a b → S (f a x) (f b y)) (hl : l.IsChain R) :
    (List.zipWith f l m).IsChain S := by
  induction l generalizing m with
  | nil => simp
  | cons a l ih =>
    cases m with
    | nil => simp
    | cons x m =>
      cases l with
      | nil => simp
      | cons b l =>
        cases m with
        | nil => simp
        | cons y m =>
          obtain ⟨hab, hl⟩ := List.isChain_cons_cons.mp hl
          exact List.isChain_cons_cons.mpr ⟨h a b x y hab, ih (y :: m) hl⟩

theorem Runs.scale (h : Runs segs) (fs : List Positive) :
    Runs (List.zipWith Segment.scale segs fs) where
  one s hs := by
    rw [← List.map_uncurry_zip_eq_zipWith] at hs
    obtain ⟨⟨s', f⟩, hmem, rfl⟩ := List.mem_map.mp hs
    exact List.isChain_map _ |>.mpr (h.one s' (List.of_mem_zip hmem).1)
  ends := isChain_zipWith fs (fun a b x y hne => by simpa using hne) h.ends

/-! ### The factors -/

theorem length_factorsFrom (s : Segment) :
    (factorsFrom rawClose s segs).2.length = segs.length := by
  induction segs generalizing s with
  | nil => rfl
  | cons right rest ih => rw [factorsFrom, List.length_cons, ih, List.length_cons]

theorem length_factors : (factors rawClose segs).length = segs.length := by
  cases segs with
  | nil => rfl
  | cons s rest => rw [factors, List.length_cons, length_factorsFrom, List.length_cons]

/-- The last segment keeps its prices. -/
theorem getLast?_factors {f : Positive} (h : (factors rawClose segs).getLast? = some f) :
    f = 1 := by
  cases segs with
  | nil => cases h
  | cons s rest =>
    induction rest generalizing s with
    | nil => exact (Option.some.inj h).symm
    | cons right rest ih =>
      rw [factors, factorsFrom, List.getLast?_cons_cons] at h
      exact ih right h

/-- The close moves over a switch as the raw close does. -/
def Continuous (rawClose : RawClose) (left right : Segment) : Prop :=
  right.first.close / left.last.close = rawRatio rawClose left right

theorem continuous_scale {left right : Segment} (factor : Positive) :
    Continuous rawClose
      (left.scale (right.first.close * factor / rawRatio rawClose left right / left.last.close))
      (right.scale factor) := by
  rw [Continuous, rawRatio_scale, Segment.close_first_scale, Segment.close_last_scale,
    mul_div_cancel, div_div_cancel]

theorem isChain_factors :
    (List.zipWith Segment.scale segs (factors rawClose segs)).IsChain (Continuous rawClose) := by
  cases segs with
  | nil => exact .nil
  | cons s rest =>
    induction rest generalizing s with
    | nil => exact .singleton _
    | cons right rest ih =>
      exact List.isChain_cons_cons.mpr ⟨continuous_scale _, ih right⟩

/-- The neighbours of scaled segments are those of the segments, to whatever a scale does not
change. -/
theorem map_pairwise_scale {γ : Type} {g : Segment → Segment → γ} {fs : List Positive}
    (hg : ∀ a b x y, g (a.scale x) (b.scale y) = g a b) (h : fs.length = segs.length) :
    (pairwise (List.zipWith Segment.scale segs fs)).map (fun p => g p.1 p.2) =
      (pairwise segs).map fun p => g p.1 p.2 := by
  unfold pairwise
  induction segs generalizing fs with
  | nil => simp
  | cons a rest ih =>
    obtain ⟨x, fs, rfl⟩ := List.exists_cons_of_length_eq_add_one h
    cases rest with
    | nil => simp
    | cons b rest =>
      obtain ⟨y, fs, rfl⟩ := List.exists_cons_of_length_eq_add_one (Nat.succ.inj h)
      have hrest := @ih (y :: fs) (Nat.succ.inj h)
      simp only [List.zipWith_cons_cons, List.tail_cons, List.zip_cons_cons, List.map_cons]
        at hrest ⊢
      rw [hg, hrest]

/-- What a scale does not change of the rows. -/
theorem map_chainLine {γ : Type} {g : BarRow → γ} (hg : ∀ row f, g (scale row f) = g row) :
    (chainLine rawClose rows).map g = rows.map g := by
  have hscaled : ∀ (segs : List Segment) (fs : List Positive), fs.length = segs.length →
      ((List.zipWith Segment.scale segs fs).flatMap Segment.rows).map g =
        (segs.flatMap Segment.rows).map g := by
    intro segs
    induction segs with
    | nil => simp
    | cons s rest ih =>
      intro fs h
      obtain ⟨f, fs, rfl⟩ := List.exists_cons_of_length_eq_add_one h
      rw [List.zipWith_cons_cons, List.flatMap_cons, List.map_append, List.flatMap_cons,
        List.map_append, ih fs (Nat.succ.inj h), Segment.scale, List.map_map]
      exact congrArg (· ++ _) (List.map_congr_left fun row _ => hg row f)
  rw [chainLine, hscaled _ _ length_factors, flatMap_segments]

theorem segments_chainLine : segments (chainLine rawClose rows) =
    List.zipWith Segment.scale (segments rows) (factors rawClose (segments rows)) :=
  (runs_segments.scale _).segments_flatMap

/-! ### The switches of a line -/

/-- What a switch record says of a switch, its line and the comparison with the benchmark apart. -/
structure Boundary where
  fromSymbol : String
  toSymbol : String
  fromDate : ℤ
  toDate : ℤ
  rawMove : ℚ
deriving DecidableEq

def SwitchRecord.boundary (s : SwitchRecord) : Boundary :=
  ⟨s.fromSymbol, s.toSymbol, s.fromDate, s.toDate, s.rawMove⟩

/-- The switch between two neighbours, with its raw ratio. -/
def boundaryOf (rawClose : RawClose) (left right : Segment) : Boundary :=
  ⟨left.last.symbol, right.first.symbol, left.last.date, right.first.date,
    rawRatio rawClose left right - 1⟩

variable {spyCloses : Dict ℤ ℚ} {actionLookup : Option ActionLookup} {found : List SwitchRecord}
  {line : String}

theorem switchRecord_eq_ok {left right : Segment} {s : SwitchRecord}
    (h : switchRecord rawClose spyCloses actionLookup left right = .ok s) :
    s.line = left.last.line ∧ s.boundary = boundaryOf rawClose left right := by
  obtain ⟨spy, -, hok⟩ := Fallible.bind_eq_ok.mp h
  cases hok
  exact ⟨rfl, rfl⟩

theorem map_boundary_switches (h : switches rows rawClose spyCloses actionLookup = .ok found) :
    found.map SwitchRecord.boundary =
      (pairwise (segments rows)).map fun p => boundaryOf rawClose p.1 p.2 := by
  unfold switches at h
  generalize pairwise (segments rows) = pairs at h ⊢
  induction pairs generalizing found with
  | nil => cases h; rfl
  | cons p pairs ih =>
    obtain ⟨s, rest, hs, hrest, rfl⟩ := Fallible.mapM_cons_eq_ok.mp h
    rw [List.map_cons, List.map_cons, ih hrest, (switchRecord_eq_ok hs).2]

theorem Segment.first_mem {s : Segment} : s.first ∈ s.rows := List.head_mem _

theorem Segment.last_mem {s : Segment} : s.last ∈ s.rows := List.getLast_mem _

theorem mem_of_mem_segments {s : Segment} {row : BarRow} (hs : s ∈ segments rows)
    (hrow : row ∈ s.rows) : row ∈ rows := by
  rw [← flatMap_segments rows]
  exact List.mem_flatMap.mpr ⟨s, hs, hrow⟩

theorem line_of_mem_switches (hline : ∀ row ∈ rows, row.line = line)
    (h : switches rows rawClose spyCloses actionLookup = .ok found) :
    ∀ s ∈ found, s.line = line := by
  intro s hs
  obtain ⟨p, hp, hok⟩ := Fallible.mem_of_mapM h hs
  rw [(switchRecord_eq_ok hok).1]
  exact hline _ (mem_of_mem_segments (List.of_mem_zip hp).1 Segment.last_mem)

theorem sublist_first : (segs.map Segment.first).Sublist (segs.flatMap Segment.rows) := by
  induction segs with
  | nil => exact .slnil
  | cons s rest ih =>
    rw [List.map_cons, List.flatMap_cons, ← List.singleton_append]
    exact (List.singleton_sublist.mpr Segment.first_mem).append ih

/-- The switches of sorted rows come in the order of their dates. -/
theorem pairwise_toDate (hsorted : rows.Pairwise fun a b => a.date ≤ b.date)
    (h : switches rows rawClose spyCloses actionLookup = .ok found) :
    found.Pairwise fun a b => a.toDate ≤ b.toDate := by
  have hdates : found.map SwitchRecord.toDate =
      (segments rows).tail.map fun s => s.first.date := by
    have hboundaries := congrArg (List.map Boundary.toDate) (map_boundary_switches h)
    rw [List.map_map, List.map_map] at hboundaries
    rw [show found.map SwitchRecord.toDate =
      found.map (Boundary.toDate ∘ SwitchRecord.boundary) from rfl, hboundaries, pairwise]
    have hsnd : ((segments rows).zip (segments rows).tail).map Prod.snd = (segments rows).tail :=
      List.map_snd_zip (by simp)
    conv_rhs => rw [← hsnd]
    rw [List.map_map]
    rfl
  have hfirst : ((segments rows).map Segment.first).Pairwise fun a b => a.date ≤ b.date := by
    refine hsorted.sublist ?_
    conv_rhs => rw [← flatMap_segments rows]
    exact sublist_first
  rw [← List.pairwise_map (f := SwitchRecord.toDate) (R := (· ≤ ·)), hdates, List.pairwise_map]
  exact (List.pairwise_map.mp hfirst).sublist (List.tail_sublist _)

/-! ### The lines -/

def lineRows (rows : List BarRow) (line : String) : List BarRow :=
  rows.filter fun row => decide (row.line = line)

/-- The segments of a line, oldest first. -/
def lineSegments (rows : List BarRow) (line : String) : List Segment :=
  segments (sortByDate (lineRows rows line))

theorem pairwise_sortByDate : (sortByDate rows).Pairwise fun a b => a.date ≤ b.date :=
  pairwise_insertionSort BarRow.date rows

theorem pairwise_chainLine (h : rows.Pairwise fun a b => a.date ≤ b.date) :
    (chainLine rawClose rows).Pairwise fun a b => a.date ≤ b.date := by
  rw [← List.pairwise_map (f := BarRow.date) (R := (· ≤ ·)),
    map_chainLine (g := BarRow.date) fun _ _ => rfl, List.pairwise_map]
  exact h

theorem line_of_mem_chainLine (h : ∀ row ∈ rows, row.line = line) :
    ∀ row ∈ chainLine rawClose rows, row.line = line := by
  intro row hrow
  have hmem : row.line ∈ (chainLine rawClose rows).map BarRow.line := List.mem_map_of_mem hrow
  rw [map_chainLine (g := BarRow.line) fun _ _ => rfl] at hmem
  obtain ⟨before, hbefore, heq⟩ := List.mem_map.mp hmem
  rw [← heq, h before hbefore]

theorem line_of_mem_sortByDate (h : ∀ row ∈ rows, row.line = line) :
    ∀ row ∈ sortByDate rows, row.line = line :=
  fun row hrow => h row ((List.mem_insertionSort _).mp hrow)

/-- A result of one key of a dictionary is found again among the results of all. -/
theorem filter_results {α β σ : Type} {d : Dict String α} {f : α → Except HandlerError β}
    {results : List β} (h : d.entries.mapM (fun p => f p.2) = .ok results) (proj : β → List σ)
    (lineOf : σ → String)
    (hline : ∀ p ∈ d.entries, ∀ b, f p.2 = .ok b → ∀ x ∈ proj b, lineOf x = p.1) {b : β}
    (hb : ∀ a, d.get? line = some a → f a = .ok b) (hnone : d.get? line = none → proj b = []) :
    (results.flatMap proj).filter (fun x => decide (lineOf x = line)) = proj b := by
  have hpicked : ∀ (l : List (String × α)) (results : List β), (∀ p ∈ l, p ∈ d.entries) →
      l.mapM (fun p => f p.2) = .ok results →
      (results.flatMap proj).filter (fun x => decide (lineOf x = line)) =
        l.flatMap fun p => if p.1 = line then proj b else [] := by
    intro l
    induction l with
    | nil =>
      intro results _ h
      cases h
      rfl
    | cons p l ih =>
      intro results hl h
      obtain ⟨first, rest, hfirst, hrest, rfl⟩ := Fallible.mapM_cons_eq_ok.mp h
      have hp := hl p List.mem_cons_self
      rw [List.flatMap_cons, List.filter_append, List.flatMap_cons,
        ih rest (fun q hq => hl q (List.mem_cons_of_mem p hq)) hrest]
      congr 1
      split
      · rename_i hkey
        have hok := hb p.2 (hkey ▸ Dict.mem_entries_iff.mp hp)
        rw [hok] at hfirst
        cases hfirst
        exact List.filter_eq_self.mpr fun x hx => by
          rw [decide_eq_true_eq, hline p hp b hok x hx, hkey]
      · rename_i hkey
        exact List.filter_eq_nil_iff.mpr fun x hx => by
          rw [decide_eq_true_eq, hline p hp first hfirst x hx]
          exact hkey
  rw [hpicked d.entries results (fun _ hp => hp) h]
  cases hget : d.get? line with
  | some a => rw [Dict.flatMap_entries hget fun p _ hne => if_neg hne, if_pos rfl]
  | none =>
    rw [hnone hget, List.flatMap_eq_nil_iff]
    intro p _
    exact ite_self _

theorem get?_groupBy_line {group : List BarRow}
    (h : (groupBy BarRow.line id rows).get? line = some group) : group = lineRows rows line := by
  have hgroup : ((groupBy BarRow.line id rows).get? line).getD [] = (lineRows rows line).map id :=
    getD_groupBy rows line
  rw [h, Option.getD_some, List.map_id] at hgroup
  exact hgroup

theorem lineRows_eq_nil (h : (groupBy BarRow.line id rows).get? line = none) :
    lineRows rows line = [] := by
  have hgroup : ((groupBy BarRow.line id rows).get? line).getD [] = (lineRows rows line).map id :=
    getD_groupBy rows line
  rw [h, Option.getD_none, List.map_id] at hgroup
  exact hgroup.symm

theorem line_of_mem_lineRows : ∀ row ∈ lineRows rows line, row.line = line := by
  intro row hrow
  simpa using List.of_mem_filter hrow

theorem chainGroup_eq_ok {part : List BarRow × List SwitchRecord}
    (h : chainGroup rawClose spyCloses actionLookup rows = .ok part) :
    part.1 = chainLine rawClose (sortByDate rows) ∧
      switches part.1 rawClose spyCloses actionLookup = .ok part.2 := by
  obtain ⟨found, hfound, hok⟩ := Fallible.bind_eq_ok.mp h
  cases hok
  exact ⟨rfl, hfound⟩

theorem chainGroup_nil : chainGroup rawClose spyCloses actionLookup [] = .ok ([], []) := rfl

/-- The key order within a line is the order of the dates. -/
theorem insertionSort_key {σ : Type} {l : List σ} {key : σ → String ×ₗ ℤ} {date : σ → ℤ}
    (hkey : ∀ x ∈ l, key x = toLex (line, date x)) (h : l.Pairwise fun a b => date a ≤ date b) :
    (l.insertionSort fun a b => key a ≤ key b) = l := by
  have hsorted : l.Pairwise fun a b => key a ≤ key b := by
    refine h.imp_of_mem fun {a b} ha hb hle => ?_
    rw [hkey a ha, hkey b hb]
    exact Prod.Lex.toLex_le_toLex.mpr (.inr ⟨rfl, hle⟩)
  exact hsorted.insertionSort_eq

/-- What the result holds of a line. -/
theorem chainSourceSwitches_line {result : ChainResult}
    (h : chainSourceSwitches rows rawClose spyCloses actionLookup = .ok result) (line : String) :
    ∃ found, lineRows result.rows line = chainLine rawClose (sortByDate (lineRows rows line)) ∧
      switches (chainLine rawClose (sortByDate (lineRows rows line))) rawClose spyCloses
        actionLookup = .ok found ∧
      result.switches.filter (fun s => decide (s.line = line)) = found := by
  obtain ⟨parts, hparts, hok⟩ := Fallible.bind_eq_ok.mp h
  cases hok
  have hgroups : ∀ p ∈ (groupBy BarRow.line id rows).entries, p.2 = lineRows rows p.1 :=
    fun p hp => get?_groupBy_line (Dict.mem_entries_iff.mp hp)
  obtain ⟨part, hpart⟩ : ∃ part,
      chainGroup rawClose spyCloses actionLookup (lineRows rows line) = .ok part := by
    cases hget : (groupBy BarRow.line id rows).get? line with
    | none => exact ⟨([], []), by rw [lineRows_eq_nil hget, chainGroup_nil]⟩
    | some group =>
      obtain ⟨part, -, hpart⟩ := Fallible.mapM_mem hparts (Dict.mem_entries_iff.mpr hget)
      exact ⟨part, get?_groupBy_line hget ▸ hpart⟩
  obtain ⟨hrows, hswitches⟩ := chainGroup_eq_ok hpart
  have hb : ∀ group, (groupBy BarRow.line id rows).get? line = some group →
      chainGroup rawClose spyCloses actionLookup group = .ok part :=
    fun group hget => get?_groupBy_line hget ▸ hpart
  have hnil : (groupBy BarRow.line id rows).get? line = none → part = ([], []) := by
    intro hget
    rw [lineRows_eq_nil hget, chainGroup_nil] at hpart
    exact (Except.ok.inj hpart).symm
  have hlines : ∀ p ∈ (groupBy BarRow.line id rows).entries, ∀ b,
      chainGroup rawClose spyCloses actionLookup p.2 = .ok b →
        (∀ row ∈ b.1, row.line = p.1) ∧ ∀ s ∈ b.2, s.line = p.1 := by
    intro p hp b hb
    obtain ⟨hfst, hsnd⟩ := chainGroup_eq_ok hb
    have hline : ∀ row ∈ b.1, row.line = p.1 := by
      rw [hfst, hgroups p hp]
      exact line_of_mem_chainLine (line_of_mem_sortByDate line_of_mem_lineRows)
    exact ⟨hline, line_of_mem_switches hline hsnd⟩
  have hsorted : (chainLine rawClose (sortByDate (lineRows rows line))).Pairwise
      fun a b => a.date ≤ b.date := pairwise_chainLine pairwise_sortByDate
  have hline : ∀ row ∈ part.1, row.line = line := by
    rw [hrows]
    exact line_of_mem_chainLine (line_of_mem_sortByDate line_of_mem_lineRows)
  refine ⟨part.2, ?_, hrows ▸ hswitches, ?_⟩
  · rw [lineRows, filter_insertionSort_eq, filter_results hparts Prod.fst BarRow.line
      (fun p hp b hb => (hlines p hp b hb).1) hb (fun hget => by rw [hnil hget]),
      insertionSort_key (fun row hrow => by rw [BarRow.key, hline row hrow]) (hrows ▸ hsorted),
      hrows]
  · rw [filter_insertionSort_eq, filter_results hparts Prod.snd SwitchRecord.line
      (fun p hp b hb => (hlines p hp b hb).2) hb (fun hget => by rw [hnil hget]),
      insertionSort_key (fun s hs => by
        rw [SwitchRecord.key, line_of_mem_switches hline hswitches s hs])
        (pairwise_toDate (hrows ▸ hsorted) hswitches)]

/-- What chaining makes of a line: one positive factor for each segment, that of the last being one;
a close that moves over each switch as the raw close does; and one record for each switch. -/
structure Chained (rawClose : RawClose) (rows : List BarRow) (result : ChainResult)
    (line : String) : Prop where
  scaled : ∃ fs : List Positive, fs.length = (lineSegments rows line).length ∧
    lineSegments result.rows line = List.zipWith Segment.scale (lineSegments rows line) fs ∧
    ∀ f, fs.getLast? = some f → f = 1
  ratios : (lineSegments result.rows line).IsChain (Continuous rawClose)
  records : (result.switches.filter fun s => decide (s.line = line)).map SwitchRecord.boundary =
    (pairwise (lineSegments rows line)).map fun p => boundaryOf rawClose p.1 p.2

theorem chained_of_ok {result : ChainResult}
    (h : chainSourceSwitches rows rawClose spyCloses actionLookup = .ok result) (line : String) :
    Chained rawClose rows result line := by
  obtain ⟨found, hrows, hfound, hswitches⟩ := chainSourceSwitches_line h line
  have hsegments : lineSegments result.rows line = List.zipWith Segment.scale
      (lineSegments rows line) (factors rawClose (lineSegments rows line)) := by
    have hsorted : sortByDate (chainLine rawClose (sortByDate (lineRows rows line))) =
        chainLine rawClose (sortByDate (lineRows rows line)) :=
      (pairwise_chainLine pairwise_sortByDate).insertionSort_eq
    rw [lineSegments, hrows, hsorted, segments_chainLine]
    rfl
  refine ⟨⟨_, length_factors, hsegments, fun f hf => getLast?_factors hf⟩, ?_, ?_⟩
  · rw [hsegments]
    exact isChain_factors
  · rw [hswitches, map_boundary_switches hfound, segments_chainLine]
    exact map_pairwise_scale (fun a b x y => by simp [boundaryOf]) length_factors

/-! ### A benchmark that covers the days -/

/-- The benchmark has a close on each day of the rows. -/
def Covers (spyCloses : Dict ℤ ℚ) (rows : List BarRow) : Prop :=
  ∀ row ∈ rows, ∃ close, spyCloses.get? row.date = some close ∧ close ≠ 0

theorem Covers.chainLine (h : Covers spyCloses rows) :
    Covers spyCloses (chainLine rawClose rows) := by
  intro row hrow
  have hmem : row.date ∈ (Sp500.chainLine rawClose rows).map BarRow.date := List.mem_map_of_mem hrow
  rw [map_chainLine (g := BarRow.date) fun _ _ => rfl] at hmem
  obtain ⟨before, hbefore, heq⟩ := List.mem_map.mp hmem
  rw [← heq]
  exact h before hbefore

theorem spyRatio_total {before after : ℤ} {x y : ℚ} (hbefore : spyCloses.get? before = some x)
    (hx : x ≠ 0) (hafter : spyCloses.get? after = some y) :
    spyRatio spyCloses before after = .ok (y / x) := by
  simp [spyRatio, spyClose, hbefore, hafter, hx]

theorem switches_total (h : Covers spyCloses rows) :
    ∃ found, switches rows rawClose spyCloses actionLookup = .ok found := by
  refine Fallible.mapM_total fun p hp => ?_
  obtain ⟨x, hx, hne⟩ := h p.1.last
    (mem_of_mem_segments (List.of_mem_zip hp).1 Segment.last_mem)
  obtain ⟨y, hy, -⟩ := h p.2.first
    (mem_of_mem_segments (List.mem_of_mem_tail (List.of_mem_zip hp).2) Segment.first_mem)
  exact ⟨_, Fallible.bind_eq_ok.mpr ⟨_, spyRatio_total hx hne hy, rfl⟩⟩

theorem chainSourceSwitches_total (h : Covers spyCloses rows) :
    ∃ result, chainSourceSwitches rows rawClose spyCloses actionLookup = .ok result := by
  obtain ⟨parts, hparts⟩ := Fallible.mapM_total
    (f := fun p : String × List BarRow => chainGroup rawClose spyCloses actionLookup p.2)
    (l := (groupBy BarRow.line id rows).entries) fun p hp => by
      have hgroup := get?_groupBy_line (Dict.mem_entries_iff.mp hp)
      have hcovers : Covers spyCloses (sortByDate p.2) := fun row hrow =>
        h row (List.mem_of_mem_filter (hgroup ▸ (List.mem_insertionSort _).mp hrow))
      obtain ⟨found, hfound⟩ : ∃ found, switches (chainLine rawClose (sortByDate p.2)) rawClose
          spyCloses actionLookup = .ok found := switches_total hcovers.chainLine
      exact ⟨_, Fallible.bind_eq_ok.mpr ⟨found, hfound, rfl⟩⟩
  exact ⟨_, Fallible.bind_eq_ok.mpr ⟨parts, hparts, rfl⟩⟩

end

/-- Chaining succeeds on days that the benchmark covers, and what it returns is chained on every
line. -/
theorem every_line_chained (rows : List BarRow) (rawClose : RawClose) (spyCloses : Dict ℤ ℚ)
    (actionLookup : Option ActionLookup) :
    (Covers spyCloses rows →
      ∃ result, chainSourceSwitches rows rawClose spyCloses actionLookup = .ok result) ∧
    ∀ result, chainSourceSwitches rows rawClose spyCloses actionLookup = .ok result →
      ∀ line, Chained rawClose rows result line :=
  ⟨chainSourceSwitches_total, fun _ => chained_of_ok⟩

/-- A bar whose four prices are one. -/
def levelBar (line symbol : String) (date : ℤ) (price : ℚ) (h : 0 < price) : BarRow :=
  ⟨line, symbol, date, price, price, price, ⟨price, h⟩, 0⟩

theorem fullPrice_pos : (0 : ℚ) < 100 := by norm_num

theorem halfPrice_pos : (0 : ℚ) < 50 := by norm_num

theorem doublePrice_pos : (0 : ℚ) < 200 := by norm_num

/-- A line whose first symbol returns. -/
def returningRows : List BarRow := [
  levelBar "PSKY" "AAA" 1 100 fullPrice_pos, levelBar "PSKY" "BBB" 2 50 halfPrice_pos,
  levelBar "PSKY" "AAA" 3 200 doublePrice_pos]

theorem every_line_chained_returning :
    ∃ result, chainSourceSwitches returningRows (fun _ _ _ => ⟨12, by norm_num⟩)
        (.ofList [(1, 100), (2, 101), (3, 102)]) none = .ok result ∧
      Chained (fun _ _ _ => ⟨12, by norm_num⟩) returningRows result "PSKY" := by
  obtain ⟨hok, hchained⟩ := every_line_chained returningRows (fun _ _ _ => ⟨12, by norm_num⟩)
    (.ofList [(1, 100), (2, 101), (3, 102)]) none
  have hcovers : Covers (.ofList [(1, 100), (2, 101), (3, 102)]) returningRows := by
    intro row hrow
    rcases List.mem_cons.mp hrow with rfl | hrow
    · exact ⟨100, by decide, by norm_num⟩
    rcases List.mem_cons.mp hrow with rfl | hrow
    · exact ⟨101, by decide, by norm_num⟩
    rcases List.mem_cons.mp hrow with rfl | hrow
    · exact ⟨102, by decide, by norm_num⟩
    · cases hrow
  obtain ⟨result, hresult⟩ := hok hcovers
  exact ⟨result, hresult, hchained result hresult "PSKY"⟩

end TradingAgents.Sp500
