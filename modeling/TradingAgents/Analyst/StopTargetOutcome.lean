import Mathlib
import TradingAgents.Contracts.Documents
import TradingAgents.Contracts.MarketDays
import TradingAgents.ProofKit.Fallible
import TradingAgents.ProofKit.Sample
import TradingAgents.ProofKit.StableSort

/-! The two measurements behind a stop and target proposal, taken around the bar of a decision: the
settled fall after it, and the usual rise over the windows before it.  Arithmetic is exact. -/

namespace TradingAgents.Analyst

open Kernel ProofKit

/-- A settled adverse excursion and the horizon it covers. -/
structure DrawdownObservation where
  drawdownPct : ℚ
  horizonDays : ℤ
deriving DecidableEq

/-- An upside estimate of the time of the decision, and the number of windows behind it. -/
structure FavorableExcursionEstimate where
  excursionPct : ℚ
  horizonDays : ℤ
  sampleCount : ℕ
deriving DecidableEq

/-! ### Lists of numbers -/

/-- `min` of the numbers of a list. -/
def minimum : List ℚ → Except HandlerError ℚ
  | [] => .error (.validation "min() iterable argument is empty")
  | x :: xs => .ok (xs.foldl min x)

/-- `max` of the numbers of a list. -/
def maximum : List ℚ → Except HandlerError ℚ
  | [] => .error (.validation "max() iterable argument is empty")
  | x :: xs => .ok (xs.foldl max x)

/-- `statistics.median`: the middle number, or the mean of the middle two. -/
def median (xs : List ℚ) : Except HandlerError ℚ :=
  match Sample.median xs with
  | some x => .ok x
  | none => .error (.validation "no median for empty data")

/-! ### The decision bar -/

def orderedBars (bars : List OHLCVBar) : List OHLCVBar :=
  bars.insertionSort fun a b => a.barDate ≤ b.barDate

/-- The bars up to a day. -/
def upTo (day : ℤ) (bars : List OHLCVBar) : List OHLCVBar :=
  bars.filter fun bar => decide (bar.barDate ≤ day)

/-- The last bar on or before the decision day. -/
def anchor (ordered : List OHLCVBar) (decisionDay : ℤ) : Option OHLCVBar :=
  (upTo decisionDay ordered).getLast?

/-! ### The settled fall -/

/-- The settled drawdown after the decision day, none while its window is open. -/
def observedDrawdown (bars : List OHLCVBar) (decisionDay horizonDays : ℤ) :
    Except HandlerError (Option DrawdownObservation) :=
  if horizonDays < 1 then .ok none
  else
    let ordered := orderedBars bars
    match anchor ordered decisionDay with
    | none => .ok none
    | some anchor =>
      let after := ordered.filter fun bar => decide (anchor.barDate < bar.barDate)
      if (after.length : ℤ) < horizonDays then .ok none
      else do
        let worst ← minimum ((after.take horizonDays.toNat).map BarOf.low)
        pure (some ⟨max ((anchor.close - worst) / anchor.close) 0, horizonDays⟩)

/-! ### The trailing estimate -/

/-- A bar and the sessions of its window. -/
structure FavorableWindow where
  start : OHLCVBar
  sessions : List OHLCVBar
deriving DecidableEq

/-- `ordered[index]` and `ordered[index + 1 : index + 1 + horizon_days]`. -/
def windowAt (ordered : List OHLCVBar) (horizonDays index : Nat) :
    Except HandlerError FavorableWindow :=
  match ordered[index]? with
  | some start => .ok ⟨start, (ordered.drop (index + 1)).take horizonDays⟩
  | none => .error (.validation "list index out of range")

/-- The highest rise of a window over the close it starts from. -/
def favorableWindow (w : FavorableWindow) : Except HandlerError ℚ := do
  let best ← maximum (w.sessions.map BarOf.high)
  pure (max ((best - w.start.close) / w.start.close) 0)

/-- `range(first_start, latest_start + 1)`, for a latest start that is an index. -/
def windowStarts (latestStart lookbackWindows : ℤ) : List Nat :=
  let firstStart := max 0 (latestStart - lookbackWindows + 1)
  (List.range (latestStart + 1 - firstStart).toNat).map (firstStart.toNat + ·)

/-- The windows that the estimate samples, none when it is unavailable. -/
def sampledWindows (bars : List OHLCVBar) (decisionDay horizonDays lookbackWindows : ℤ) :
    Except HandlerError (Option (List FavorableWindow)) :=
  if horizonDays < 1 ∨ lookbackWindows < 1 then .ok none
  else
    let ordered := orderedBars bars
    match anchor ordered decisionDay with
    | none => .ok none
    | some anchor =>
      let latestStart : ℤ := ordered.idxOf anchor - horizonDays
      if latestStart < 0 then .ok none
      else do
        let windows ←
          (windowStarts latestStart lookbackWindows).mapM (windowAt ordered horizonDays.toNat)
        pure (some windows)

/-- The median of the rises before the decision. -/
def trailingFavorableExcursion (bars : List OHLCVBar)
    (decisionDay horizonDays lookbackWindows : ℤ) :
    Except HandlerError (Option FavorableExcursionEstimate) := do
  match ← sampledWindows bars decisionDay horizonDays lookbackWindows with
  | none => pure none
  | some windows =>
    let excursions ← windows.mapM favorableWindow
    let excursion ← median excursions
    pure (some ⟨excursion, horizonDays, excursions.length⟩)

/-! ### The bars of the past -/

section

variable {bars bars' later past : List OHLCVBar} {day horizonDays lookbackWindows : ℤ}

/-- No two bars have one date. -/
def DistinctDates (bars : List OHLCVBar) : Prop := (bars.map BarOf.barDate).Nodup

instance (bars : List OHLCVBar) : Decidable (DistinctDates bars) :=
  inferInstanceAs (Decidable (List.Nodup _))

theorem DistinctDates.upTo (h : DistinctDates bars) : DistinctDates (upTo day bars) :=
  List.Nodup.sublist (List.filter_sublist.map _) h

theorem perm_orderedBars : (orderedBars bars).Perm bars := List.perm_insertionSort _ _

theorem pairwise_orderedBars :
    (orderedBars bars).Pairwise fun a b => a.barDate ≤ b.barDate :=
  pairwise_insertionSort BarOf.barDate bars

theorem DistinctDates.nodup_orderedBars (h : DistinctDates bars) : (orderedBars bars).Nodup :=
  perm_orderedBars.nodup_iff.mpr h.of_map

theorem orderedBars_eq_of_perm (hperm : bars.Perm bars') (h : DistinctDates bars) :
    orderedBars bars = orderedBars bars' :=
  insertionSort_eq_of_perm hperm h

/-- The bars up to a day come first, in the order they have among themselves. -/
theorem upTo_orderedBars : upTo day (orderedBars bars) = orderedBars (upTo day bars) :=
  filter_insertionSort_eq bars fun bar => decide (bar.barDate ≤ day)

theorem orderedBars_split (bars : List OHLCVBar) (day : ℤ) :
    ∃ rest, orderedBars bars = orderedBars (upTo day bars) ++ rest ∧
      ∀ bar ∈ rest, day < bar.barDate := by
  refine ⟨(orderedBars bars).filter fun bar => decide (day < bar.barDate), ?_, fun bar hbar => ?_⟩
  · rw [← upTo_orderedBars]
    exact (filter_le_append_filter_lt pairwise_orderedBars day).symm
  · simpa using List.of_mem_filter hbar

theorem anchor_orderedBars :
    anchor (orderedBars bars) day = (orderedBars (upTo day bars)).getLast? := by
  rw [anchor, upTo_orderedBars]

/-- The decision bar stands at the end of the past. -/
theorem idxOf_anchor (h : DistinctDates bars) {decision : OHLCVBar}
    (hdecision : anchor (orderedBars bars) day = some decision) :
    (orderedBars bars).idxOf decision + 1 = (orderedBars (upTo day bars)).length := by
  rw [anchor_orderedBars] at hdecision
  obtain ⟨init, hpast⟩ := List.getLast?_eq_some_iff.mp hdecision
  obtain ⟨rest, hsplit, -⟩ := orderedBars_split bars day
  have hnodup : (init ++ [decision]).Nodup := hpast ▸ h.upTo.nodup_orderedBars
  have hnot : decision ∉ init := fun hmem =>
    (List.nodup_append.mp hnodup).2.2 decision hmem decision (List.mem_singleton_self _) rfl
  rw [hsplit, hpast, List.append_assoc, List.idxOf_append_of_notMem hnot]
  simp

/-! ### The windows -/

theorem le_of_mem_windowStarts {latestStart : ℤ} {i : Nat}
    (h : i ∈ windowStarts latestStart lookbackWindows) : (i : ℤ) ≤ latestStart := by
  obtain ⟨j, hj, rfl⟩ := List.mem_map.mp h
  have hrange := List.mem_range.mp hj
  have hfirst : (0 : ℤ) ≤ max 0 (latestStart - lookbackWindows + 1) := le_max_left _ _
  push_cast
  rw [Int.toNat_of_nonneg hfirst]
  omega

/-- A window that starts by the latest start ends inside the bars. -/
theorem window_inside {i : Nat} (h : ¬ horizonDays < 1)
    (hi : i ∈ windowStarts (past.length - 1 - horizonDays) lookbackWindows) :
    i + horizonDays.toNat < past.length := by
  have hle := le_of_mem_windowStarts hi
  omega

theorem windowAt_total {n i : Nat} (h : i + n < past.length) : ∃ w, windowAt past n i = .ok w :=
  ⟨⟨past[i], (past.drop (i + 1)).take n⟩, by
    rw [windowAt, List.getElem?_eq_getElem (by omega : i < past.length)]⟩

/-- A window that ends in a part of the bars is the window of that part. -/
theorem windowAt_append {n i : Nat} (rest : List OHLCVBar) {w : FavorableWindow}
    (h : i + n < past.length) (hw : windowAt past n i = .ok w) :
    windowAt (past ++ rest) n i = .ok w := by
  rw [← hw, windowAt, windowAt, List.getElem?_append_left (by omega),
    List.drop_append_of_le_length (by omega), List.take_append_of_le_length]
  rw [List.length_drop]
  omega

/-- The windows sampled are read from the past alone. -/
theorem sampledWindows_eq (h : DistinctDates bars) :
    sampledWindows bars day horizonDays lookbackWindows =
      if horizonDays < 1 ∨ lookbackWindows < 1 ∨
          ((orderedBars (upTo day bars)).length : ℤ) ≤ horizonDays then .ok none
      else ((windowStarts ((orderedBars (upTo day bars)).length - 1 - horizonDays)
        lookbackWindows).mapM (windowAt (orderedBars (upTo day bars)) horizonDays.toNat) >>=
          fun windows => pure (some windows)) := by
  unfold sampledWindows
  by_cases hone : horizonDays < 1 ∨ lookbackWindows < 1
  · rw [if_pos hone, if_pos (by tauto)]
  rw [if_neg hone]
  simp only
  cases hanchor : anchor (orderedBars bars) day with
  | none =>
    rw [anchor_orderedBars, List.getLast?_eq_none_iff] at hanchor
    rw [if_pos (by rw [hanchor]; simp only [List.length_nil]; omega)]
  | some decision =>
    have hindex := idxOf_anchor h hanchor
    have hlatest : ((orderedBars bars).idxOf decision : ℤ) - horizonDays =
        (orderedBars (upTo day bars)).length - 1 - horizonDays := by omega
    simp only
    rw [hlatest]
    by_cases hshort : ((orderedBars (upTo day bars)).length : ℤ) ≤ horizonDays
    · rw [if_pos (by omega), if_pos (by tauto)]
    rw [if_neg (by omega), if_neg (by tauto)]
    -- both lists of windows are those of the past
    have hhorizon : ¬ horizonDays < 1 := fun hlt => hone (.inl hlt)
    obtain ⟨windows, hwindows⟩ := Fallible.mapM_total
      fun i (hi : i ∈ windowStarts ((orderedBars (upTo day bars)).length - 1 - horizonDays)
        lookbackWindows) => windowAt_total (window_inside hhorizon hi)
    obtain ⟨rest, hsplit, -⟩ := orderedBars_split bars day
    rw [hwindows, Fallible.mapM_of_ok hwindows fun i hi w hw => ?_]
    rw [hsplit]
    exact windowAt_append rest (window_inside hhorizon hi) hw

/-- Two histories with one past sample the same windows. -/
theorem sampledWindows_congr (h : DistinctDates bars) (h' : DistinctDates bars')
    (hpast : (upTo day bars).Perm (upTo day bars')) :
    sampledWindows bars day horizonDays lookbackWindows =
      sampledWindows bars' day horizonDays lookbackWindows := by
  rw [sampledWindows_eq h, sampledWindows_eq h', orderedBars_eq_of_perm hpast h.upTo]

/-- What holds of each sampled window: it has the sessions of the horizon, which follow its start in
the history, and ends by the decision bar. -/
structure SampledRight (bars : List OHLCVBar) (day horizonDays : ℤ) (w : FavorableWindow) :
    Prop where
  length : (w.sessions.length : ℤ) = horizonDays
  consecutive : (w.start :: w.sessions) <:+: orderedBars bars
  settled : ∃ decision, anchor (orderedBars bars) day = some decision ∧ decision.barDate ≤ day ∧
    ∀ bar ∈ w.sessions, bar.barDate ≤ decision.barDate

theorem windowAt_isInfix {n i : Nat} {w : FavorableWindow} (hw : windowAt past n i = .ok w) :
    (w.start :: w.sessions) <:+: past := by
  unfold windowAt at hw
  split at hw
  · rename_i start hstart
    cases hw
    obtain ⟨hi, rfl⟩ := List.getElem?_eq_some_iff.mp hstart
    have hwindow : past[i] :: (past.drop (i + 1)).take n = (past.drop i).take (n + 1) := by
      rw [List.drop_eq_getElem_cons hi, List.take_succ_cons]
    rw [hwindow]
    exact (List.take_prefix _ _).isInfix.trans (List.drop_suffix _ _).isInfix
  · cases hw

theorem length_windowAt {n i : Nat} {w : FavorableWindow} (h : i + n < past.length)
    (hw : windowAt past n i = .ok w) : w.sessions.length = n := by
  unfold windowAt at hw
  split at hw
  · cases hw
    rw [List.length_take, List.length_drop]
    omega
  · cases hw

theorem le_of_getLast? (hsorted : past.Pairwise fun a b => a.barDate ≤ b.barDate)
    {decision bar : OHLCVBar} (h : past.getLast? = some decision) (hbar : bar ∈ past) :
    bar.barDate ≤ decision.barDate := by
  obtain ⟨init, rfl⟩ := List.getLast?_eq_some_iff.mp h
  rcases List.mem_append.mp hbar with hbar | hbar
  · exact (List.pairwise_append.mp hsorted).2.2 bar hbar decision (List.mem_singleton_self _)
  · rw [List.mem_singleton.mp hbar]

theorem sampledRight_of_mem (h : DistinctDates bars) {windows : List FavorableWindow}
    (hsampled : sampledWindows bars day horizonDays lookbackWindows = .ok (some windows))
    {w : FavorableWindow} (hw : w ∈ windows) : SampledRight bars day horizonDays w := by
  rw [sampledWindows_eq h] at hsampled
  split at hsampled
  · cases hsampled
  rename_i hcond
  obtain ⟨hhorizon, -, hlong⟩ := not_or.mp hcond |>.imp_right not_or.mp
  obtain ⟨ws, hwindows, hok⟩ := Fallible.bind_eq_ok.mp hsampled
  cases hok
  obtain ⟨i, hi, hat⟩ := Fallible.mem_of_mapM hwindows hw
  have hinside := window_inside hhorizon hi
  obtain ⟨rest, hsplit, -⟩ := orderedBars_split bars day
  refine ⟨?_, ?_, ?_⟩
  · rw [length_windowAt hinside hat]
    omega
  · rw [hsplit]
    exact (windowAt_isInfix hat).trans (List.prefix_append _ _).isInfix
  · obtain ⟨decision, hlast⟩ :
        ∃ decision, (orderedBars (upTo day bars)).getLast? = some decision := by
      cases hlast : (orderedBars (upTo day bars)).getLast? with
      | none => simp [List.getLast?_eq_none_iff.mp hlast] at hinside
      | some decision => exact ⟨decision, rfl⟩
    refine ⟨decision, by rw [anchor_orderedBars, hlast], ?_, fun bar hbar => ?_⟩
    · have hmem : decision ∈ upTo day bars :=
        perm_orderedBars.mem_iff.mp (List.mem_of_getLast? hlast)
      simpa using List.of_mem_filter hmem
    · exact le_of_getLast? pairwise_orderedBars hlast
        ((windowAt_isInfix hat).subset (List.mem_cons_of_mem _ hbar))

/-! ### Nothing raises -/

theorem minimum_total {xs : List ℚ} (h : xs ≠ []) : ∃ x, minimum xs = .ok x := by
  cases xs with
  | nil => exact absurd rfl h
  | cons x xs => exact ⟨_, rfl⟩

theorem maximum_total {xs : List ℚ} (h : xs ≠ []) : ∃ x, maximum xs = .ok x := by
  cases xs with
  | nil => exact absurd rfl h
  | cons x xs => exact ⟨_, rfl⟩

theorem median_total {xs : List ℚ} (h : xs ≠ []) : ∃ x, median xs = .ok x := by
  obtain ⟨x, hx⟩ := Sample.exists_median h
  exact ⟨x, by rw [median, hx]⟩

theorem latestStart_mem_windowStarts {latestStart : ℤ} (h : 0 ≤ latestStart)
    (hlookback : ¬ lookbackWindows < 1) :
    latestStart.toNat ∈ windowStarts latestStart lookbackWindows := by
  have hfirst : (0 : ℤ) ≤ max 0 (latestStart - lookbackWindows + 1) := le_max_left _ _
  refine List.mem_map.mpr
    ⟨latestStart.toNat - (max 0 (latestStart - lookbackWindows + 1)).toNat, ?_, ?_⟩
  · rw [List.mem_range]
    omega
  · omega

theorem favorableWindow_total {w : FavorableWindow} (h : w.sessions ≠ []) :
    ∃ x, favorableWindow w = .ok x := by
  obtain ⟨best, hbest⟩ := maximum_total (mt List.map_eq_nil_iff.mp h)
  exact ⟨_, by rw [favorableWindow, hbest]; rfl⟩

/-- A sampled window ends by the decision bar, so it has all its sessions. -/
theorem sampledWindows_ends : ∃ sampled,
    sampledWindows bars day horizonDays lookbackWindows = .ok sampled ∧
    ∀ windows, sampled = some windows → windows ≠ [] ∧ ∀ w ∈ windows, w.sessions ≠ [] := by
  unfold sampledWindows
  split
  · exact ⟨none, rfl, nofun⟩
  · rename_i hcond
    obtain ⟨hhorizon, hlookback⟩ := not_or.mp hcond
    dsimp only
    cases hanchor : anchor (orderedBars bars) day with
    | none => exact ⟨none, rfl, nofun⟩
    | some decision =>
      have hmem : decision ∈ orderedBars bars :=
        (List.mem_filter.mp (List.mem_of_getLast? hanchor)).1
      have hindex := List.idxOf_lt_length_of_mem hmem
      dsimp only
      split
      · exact ⟨none, rfl, nofun⟩
      · rename_i hlatest
        have hinside : ∀ i ∈ windowStarts ((orderedBars bars).idxOf decision - horizonDays)
            lookbackWindows, i + horizonDays.toNat < (orderedBars bars).length := by
          intro i hi
          have hle := le_of_mem_windowStarts hi
          omega
        obtain ⟨windows, hwindows⟩ := Fallible.mapM_total
          fun i (hi : i ∈ windowStarts ((orderedBars bars).idxOf decision - horizonDays)
            lookbackWindows) => windowAt_total (hinside i hi)
        rw [hwindows]
        refine ⟨some windows, rfl, fun ws hws => ?_⟩
        cases hws
        constructor
        · obtain ⟨w, hw, -⟩ := Fallible.mapM_mem hwindows
            (latestStart_mem_windowStarts (by omega) hlookback)
          exact List.ne_nil_of_mem hw
        · intro w hw hnil
          obtain ⟨i, hi, hat⟩ := Fallible.mem_of_mapM hwindows hw
          have hlength := length_windowAt (hinside i hi) hat
          rw [hnil, List.length_nil] at hlength
          omega

/-- The estimate is the median of the rises of the windows sampled, as many as they are. -/
theorem trailingFavorableExcursion_median : ∃ sampled,
    sampledWindows bars day horizonDays lookbackWindows = .ok sampled ∧
    (sampled = none →
      trailingFavorableExcursion bars day horizonDays lookbackWindows = .ok none) ∧
    ∀ windows, sampled = some windows → ∃ excursions excursion,
      windows.mapM favorableWindow = .ok excursions ∧ median excursions = .ok excursion ∧
      trailingFavorableExcursion bars day horizonDays lookbackWindows =
        .ok (some ⟨excursion, horizonDays, windows.length⟩) := by
  obtain ⟨sampled, hsampled, hwindows⟩ : ∃ sampled,
      sampledWindows bars day horizonDays lookbackWindows = .ok sampled ∧
      ∀ windows, sampled = some windows → windows ≠ [] ∧ ∀ w ∈ windows, w.sessions ≠ [] :=
    sampledWindows_ends
  refine ⟨sampled, hsampled, fun hnone => ?_, fun windows hsome => ?_⟩
  · rw [trailingFavorableExcursion, hsampled, hnone]
    rfl
  · obtain ⟨hne, hfull⟩ := hwindows windows hsome
    obtain ⟨excursions, hexcursions⟩ := Fallible.mapM_total fun w hw =>
      favorableWindow_total (hfull w hw)
    obtain ⟨w, hw⟩ := List.exists_mem_of_ne_nil windows hne
    obtain ⟨x, hx, -⟩ := Fallible.mapM_mem hexcursions hw
    obtain ⟨excursion, hmedian⟩ := median_total (List.ne_nil_of_mem hx)
    refine ⟨excursions, excursion, hexcursions, hmedian, ?_⟩
    rw [trailingFavorableExcursion, hsampled, hsome, Fallible.ok_bind]
    dsimp only
    rw [hexcursions, Fallible.ok_bind, hmedian, Fallible.ok_bind, Fallible.length_mapM hexcursions]
    rfl
/-! ### The settled fall -/

/-- Bars after all others sort behind them. -/
theorem orderedBars_append (h : DistinctDates (bars ++ later))
    (hlater : ∀ a ∈ bars, ∀ b ∈ later, a.barDate < b.barDate) :
    orderedBars (bars ++ later) = orderedBars bars ++ orderedBars later := by
  have hperm : (bars ++ later).Perm (orderedBars bars ++ orderedBars later) :=
    (perm_orderedBars.append perm_orderedBars).symm
  have hsorted : (orderedBars bars ++ orderedBars later).Pairwise
      fun a b => a.barDate ≤ b.barDate :=
    List.pairwise_append.mpr ⟨pairwise_orderedBars, pairwise_orderedBars, fun a ha b hb =>
      (hlater a (perm_orderedBars.mem_iff.mp ha) b (perm_orderedBars.mem_iff.mp hb)).le⟩
  rw [orderedBars_eq_of_perm hperm h]
  exact hsorted.insertionSort_eq

theorem upTo_append_later (h : ∀ b ∈ later, day < b.barDate) :
    upTo day (bars ++ later) = upTo day bars := by
  have hnone : upTo day later = [] := List.filter_eq_nil_iff.mpr (by simpa using h)
  rw [upTo, List.filter_append, ← upTo, ← upTo, hnone, List.append_nil]

/-- A bar after the decision bar is after the decision day. -/
theorem lt_of_anchor_lt {decision bar : OHLCVBar}
    (hdecision : anchor (orderedBars bars) day = some decision) (hbar : bar ∈ bars)
    (hafter : decision.barDate < bar.barDate) : day < bar.barDate := by
  by_contra hle
  have hpast : bar ∈ orderedBars (upTo day bars) :=
    perm_orderedBars.mem_iff.mpr (List.mem_filter.mpr ⟨hbar, by simpa using hle⟩)
  rw [anchor_orderedBars] at hdecision
  exact absurd (le_of_getLast? pairwise_orderedBars hdecision hpast) (not_le.mpr hafter)

theorem observedDrawdown_append (h : DistinctDates (bars ++ later))
    (hlater : ∀ a ∈ bars, ∀ b ∈ later, a.barDate < b.barDate) {o : DrawdownObservation}
    (hobserved : observedDrawdown bars day horizonDays = .ok (some o)) :
    observedDrawdown (bars ++ later) day horizonDays = .ok (some o) := by
  unfold observedDrawdown at hobserved ⊢
  by_cases hhorizon : horizonDays < 1
  · rw [if_pos hhorizon] at hobserved
    cases hobserved
  rw [if_neg hhorizon] at hobserved ⊢
  simp only at hobserved ⊢
  cases hanchor : anchor (orderedBars bars) day with
  | none =>
    rw [hanchor] at hobserved
    cases hobserved
  | some decision =>
    rw [hanchor] at hobserved
    simp only at hobserved
    by_cases hshort : (((orderedBars bars).filter fun bar =>
        decide (decision.barDate < bar.barDate)).length : ℤ) < horizonDays
    · rw [if_pos hshort] at hobserved
      cases hobserved
    rw [if_neg hshort] at hobserved
    -- a bar of the window is after the decision day, and the later bars are after it
    obtain ⟨bar, hbar⟩ : ∃ bar, bar ∈ (orderedBars bars).filter fun bar =>
        decide (decision.barDate < bar.barDate) := List.exists_mem_of_length_pos (by omega)
    obtain ⟨hmem, hafter⟩ := List.mem_filter.mp hbar
    have hmem' := perm_orderedBars.mem_iff.mp hmem
    have hday : ∀ b ∈ later, day < b.barDate := fun b hb =>
      (lt_of_anchor_lt hanchor hmem' (by simpa using hafter)).trans (hlater bar hmem' b hb)
    have hanchor' : anchor (orderedBars (bars ++ later)) day = some decision := by
      rw [anchor_orderedBars, upTo_append_later hday, ← anchor_orderedBars, hanchor]
    rw [hanchor']
    simp only
    rw [orderedBars_append h hlater, List.filter_append, List.length_append,
      if_neg (by push_cast; omega), List.take_append_of_le_length (by omega)]
    exact hobserved

/-- The estimate and its windows are of the past, and a settled fall stays as it is. -/
theorem estimate_of_past_and_settled_fall :
    (∀ (bars bars' : List OHLCVBar) (day horizonDays lookbackWindows : ℤ),
      DistinctDates bars → DistinctDates bars' → (upTo day bars).Perm (upTo day bars') →
      trailingFavorableExcursion bars day horizonDays lookbackWindows =
        trailingFavorableExcursion bars' day horizonDays lookbackWindows) ∧
    (∀ (bars : List OHLCVBar) (day horizonDays lookbackWindows : ℤ), DistinctDates bars →
      ∀ windows, sampledWindows bars day horizonDays lookbackWindows = .ok (some windows) →
        ∀ w ∈ windows, SampledRight bars day horizonDays w) ∧
    ∀ (bars later : List OHLCVBar) (day horizonDays : ℤ) (o : DrawdownObservation),
      DistinctDates (bars ++ later) → (∀ a ∈ bars, ∀ b ∈ later, a.barDate < b.barDate) →
      observedDrawdown bars day horizonDays = .ok (some o) →
      observedDrawdown (bars ++ later) day horizonDays = .ok (some o) := by
  refine ⟨fun bars bars' day horizonDays lookbackWindows h h' hpast => ?_,
    fun bars day horizonDays lookbackWindows h windows hsampled w hw =>
      sampledRight_of_mem h hsampled hw,
    fun bars later day horizonDays o h hlater => observedDrawdown_append h hlater⟩
  unfold trailingFavorableExcursion
  rw [sampledWindows_congr h h' hpast]

end

/-- A bar that closes at 100. -/
def barOn (day : ℤ) (high low : ℚ) (h : 0 < high ∧ 0 < low) : OHLCVBar :=
  ⟨"AAA", day, 100, high, low, 100, 10, by norm_num, h.1, h.2, by norm_num⟩

/-- Three bars, the last of them after the decision day. -/
def sampleBars : List OHLCVBar :=
  [barOn 2 130 95 (by norm_num), barOn 1 100 95 (by norm_num), barOn 3 500 90 (by norm_num)]

/-- The one window before the second day. -/
def sampleWindow : FavorableWindow :=
  ⟨barOn 1 100 95 (by norm_num), [barOn 2 130 95 (by norm_num)]⟩

theorem estimate_of_past_and_settled_fall_sample :
    trailingFavorableExcursion sampleBars 2 1 5 =
      trailingFavorableExcursion (upTo 2 sampleBars) 2 1 5 ∧
    SampledRight sampleBars 2 1 sampleWindow ∧
    observedDrawdown (sampleBars ++ [barOn 4 100 50 (by norm_num)]) 2 1 =
      .ok (some ⟨1 / 10, 1⟩) :=
  ⟨estimate_of_past_and_settled_fall.1 _ _ _ _ _ (by decide) (by decide) (by decide),
    estimate_of_past_and_settled_fall.2.1 sampleBars 2 1 5 (by decide) [sampleWindow] (by decide)
      sampleWindow (List.mem_singleton_self _),
    estimate_of_past_and_settled_fall.2.2 _ _ _ _ _ (by decide) (by decide) (by decide +kernel)⟩

end TradingAgents.Analyst
