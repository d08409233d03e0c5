import TradingAgents.Forecaster.SettlementStable
import TradingAgents.ProofKit.Sample

/-! The figures of a barrier claim, counted over whole arrays of simulated paths, against the rule
that settles a claim session by session.  Arithmetic is exact. -/

namespace TradingAgents.Forecaster

open ProofKit
open Sample (average mean median)

/-! ### Simulated paths -/

/-- A simulated session: its close, high and low over the close before. -/
structure PathMove where
  growth : ℚ
  high : ℚ
  low : ℚ
  growth_pos : 0 < growth

/-- A path of ten sessions. -/
structure SimulatedPath where
  moves : List PathMove
  horizon : moves.length = horizonSessions

/-- The level before a session, and its high and low over that level. -/
structure PathSession where
  prev : ℚ
  high : ℚ
  low : ℚ

/-- One path's row of the four arrays. -/
structure PathRow where
  sessions : List PathSession
  last : ℚ

/-- The sessions of a path from a level on, and the level after them. -/
def runMoves : ℚ → List PathMove → PathRow
  | level, [] => ⟨[], level⟩
  | level, m :: rest =>
    let row := runMoves (level * m.growth) rest
    ⟨⟨level, m.high, m.low⟩ :: row.sessions, row.last⟩

def SimulatedPath.row (path : SimulatedPath) : PathRow := runMoves 1 path.moves

/-! ### Figures over the arrays -/

/-- The number of a truth value. -/
def indicator (b : Bool) : ℚ := if b then 1 else 0

/-- `argmax` of an array of truth values: the first that holds, else the first. -/
def argmax (hits : List Bool) : Nat := if hits.any id then hits.findIdx id else 0

/-- `where(hits.any, hits.argmax, HORIZON_SESSIONS)`. -/
def firstHit (hits : List Bool) : Nat := if hits.any id then argmax hits else horizonSessions

def PathRow.hitStop (stop : ℚ) (row : PathRow) : List Bool :=
  row.sessions.map fun d => decide (d.prev * d.low ≤ 1 - stop)

def PathRow.hitTarget (target : ℚ) (row : PathRow) : List Bool :=
  row.sessions.map fun d => decide (1 + target ≤ d.prev * d.high)

def PathRow.stopFirst (stop target : ℚ) (row : PathRow) : Bool :=
  let fs := firstHit (row.hitStop stop)
  let ft := firstHit (row.hitTarget target)
  decide (fs < horizonSessions) && decide (fs ≤ ft)

def PathRow.targetFirst (stop target : ℚ) (row : PathRow) : Bool :=
  let fs := firstHit (row.hitStop stop)
  let ft := firstHit (row.hitTarget target)
  decide (ft < horizonSessions) && decide (ft < fs)

/-- First-touch shares, the low checked first. -/
def barrierProbs (rows : List PathRow) (stop target : ℚ) : Option (ℚ × ℚ × ℚ) := do
  let pStop ← mean (rows.map fun row => indicator (row.stopFirst stop target))
  let pTarget ← mean (rows.map fun row => indicator (row.targetFirst stop target))
  pure (pStop, pTarget, 1 - pStop - pTarget)

def tailPercentile : ℚ := 5

/-- The percentile of an array, interpolated between its neighbours. -/
def percentile (q : ℚ) (xs : List ℚ) : Option ℚ :=
  let sorted := xs.insertionSort (· ≤ ·)
  let place := ((xs.length : ℚ) - 1) * (q / 100)
  let i := place.floor.toNat
  sorted[i]?.map fun low => low + ((sorted[i + 1]?).getD low - low) * (place - i)

/-- A claim's return figures, each a fraction of the claim's close. -/
structure BarrierReturns where
  expectedReturn : ℚ
  closeReturnP05 : ℚ
  sessionsToTarget : Option ℚ
  sessionsToStop : Option ℚ

/-- The median 1-based session of the touched paths' first touch. -/
def medianSession (first : List Nat) (touched : List Bool) : Option ℚ :=
  median (((first.zip touched).filter Prod.snd).map fun p => (p.1 : ℚ) + 1)

/-- The return of one path to the first barrier or the tenth close. -/
def PathRow.barrierReturn (stop target : ℚ) (row : PathRow) : ℚ :=
  if row.stopFirst stop target then -stop
  else if row.targetFirst stop target then target
  else row.last - 1

/-- The figures of the paths for one stop and target. -/
def barrierReturns (rows : List PathRow) (stop target : ℚ) : Option BarrierReturns := do
  let expected ← mean (rows.map (PathRow.barrierReturn stop target))
  let p05 ← percentile tailPercentile (rows.map fun row => row.last - 1)
  pure {
    expectedReturn := expected
    closeReturnP05 := p05
    sessionsToTarget := medianSession (rows.map fun row => firstHit (row.hitTarget target))
      (rows.map (PathRow.targetFirst stop target))
    sessionsToStop := medianSession (rows.map fun row => firstHit (row.hitStop stop))
      (rows.map (PathRow.stopFirst stop target)) }

/-! ### The settling bars of a path -/

/-- The bars of a path from a close on, at the given days. -/
def barsFrom (days : Nat → Day) : Nat → ℚ → List PathMove → List SettlingBar
  | _, _, [] => []
  | n, close, m :: rest =>
    ⟨days n, close * m.high, close * m.low, close * m.growth⟩ ::
      barsFrom days (n + 1) (close * m.growth) rest

/-- The ten sessions of a path after a close of `entry`. -/
def SimulatedPath.bars (path : SimulatedPath) (days : Nat → Day) (entry : ℚ) : List SettlingBar :=
  barsFrom days 0 entry path.moves

/-- Every close is within the range of the one before. -/
def SimulatedPath.Plausible (path : SimulatedPath) : Prop :=
  ∀ m ∈ path.moves, 6 / 10 ≤ m.growth ∧ m.growth ≤ 167 / 100

section

variable {stop target entry : ℚ} {days : Nat → Day}

theorem firstHit_eq {hits : List Bool} (h : hits.length = horizonSessions) :
    firstHit hits = hits.findIdx id := by
  unfold firstHit argmax
  split
  · rfl
  · rename_i hnone
    rw [← h, eq_comm, List.findIdx_eq_length]
    simpa using hnone

@[simp] theorem length_sessions (level : ℚ) (moves : List PathMove) :
    (runMoves level moves).sessions.length = moves.length := by
  induction moves generalizing level with
  | nil => rfl
  | cons m rest ih => simp [runMoves, ih]

/-- The first touch of a path, by the first hits of its row. -/
theorem firstTouch_barsFrom (hentry : 0 < entry) (moves : List PathMove) (n session : Nat)
    (level : ℚ) :
    firstTouch entry stop target session (barsFrom days n (entry * level) moves) =
      let fs := ((runMoves level moves).hitStop stop).findIdx id
      let ft := ((runMoves level moves).hitTarget target).findIdx id
      if fs < moves.length ∧ fs ≤ ft then (.stop, some (session + fs))
      else if ft < moves.length ∧ ft < fs then (.target, some (session + ft))
      else (.neither, none) := by
  induction moves generalizing n session level with
  | nil => rfl
  | cons m rest ih =>
    have hlow : entry * level * m.low ≤ entry * (1 - stop) ↔ level * m.low ≤ 1 - stop := by
      rw [mul_assoc, mul_le_mul_iff_right₀ hentry]
    have hhigh : entry * (1 + target) ≤ entry * level * m.high ↔ 1 + target ≤ level * m.high := by
      rw [mul_assoc, mul_le_mul_iff_right₀ hentry]
    have hrest := ih (n + 1) (session + 1) (level * m.growth)
    rw [← mul_assoc] at hrest
    simp only [barsFrom, firstTouch, runMoves, PathRow.hitStop, PathRow.hitTarget, List.map_cons,
      List.findIdx_cons, id, hlow, hhigh] at hrest ⊢
    by_cases hs : level * m.low ≤ 1 - stop
    · simp [hs]
    · by_cases ht : 1 + target ≤ level * m.high
      · simp [hs, ht]
      · simp only [hs, ht, if_false, hrest, decide_false, cond_false, List.length_cons]
        grind

/-- The first touch of a whole path, by the first hits of its row. -/
theorem firstTouch_path (hentry : 0 < entry) (path : SimulatedPath) :
    firstTouch entry stop target 1 (path.bars days entry) =
      if path.row.stopFirst stop target then
        (.stop, some (1 + firstHit (path.row.hitStop stop)))
      else if path.row.targetFirst stop target then
        (.target, some (1 + firstHit (path.row.hitTarget target)))
      else (.neither, none) := by
  have hstop : (path.row.hitStop stop).length = horizonSessions := by
    rw [PathRow.hitStop, List.length_map, SimulatedPath.row, length_sessions, path.horizon]
  have htarget : (path.row.hitTarget target).length = horizonSessions := by
    rw [PathRow.hitTarget, List.length_map, SimulatedPath.row, length_sessions, path.horizon]
  have htouch := @firstTouch_barsFrom stop target entry days hentry path.moves 0 1 1
  rw [mul_one] at htouch
  rw [SimulatedPath.bars, htouch]
  simp only [PathRow.stopFirst, PathRow.targetFirst, firstHit_eq hstop, firstHit_eq htarget,
    path.horizon, Bool.and_eq_true, decide_eq_true_eq]
  rfl

theorem corporateAction_barsFrom (moves : List PathMove) (n : Nat) (bar : SettlingBar)
    (hbar : 0 < bar.close) : corporateAction (bar :: barsFrom days n bar.close moves) =
      .ok (decide ¬ ∀ m ∈ moves, 6 / 10 ≤ m.growth ∧ m.growth ≤ 167 / 100) := by
  induction moves generalizing n bar with
  | nil => simp [barsFrom, corporateAction]
  | cons m rest ih =>
    have hratio : quotient (bar.close * m.growth) bar.close = .ok m.growth := by
      rw [quotient, if_neg hbar.ne', mul_div_cancel_left₀ _ hbar.ne']
    rw [barsFrom, corporateAction]
    simp only [hratio, Fallible.ok_bind]
    rw [ih (n + 1) ⟨days n, bar.close * m.high, bar.close * m.low, bar.close * m.growth⟩
      (mul_pos hbar m.growth_pos)]
    split
    · rename_i hrange
      simp [hrange]
    · rename_i hrange
      simp [hrange]

theorem last_barsFrom (moves : List PathMove) (n : Nat) (level : ℚ) (bar default : SettlingBar)
    (hbar : bar.close = entry * level) :
    ((bar :: barsFrom days n bar.close moves).getLastD default).close =
      entry * (runMoves level moves).last := by
  induction moves generalizing n level bar with
  | nil => exact hbar
  | cons m rest ih =>
    rw [barsFrom, List.getLastD_cons, runMoves]
    refine ih (n + 1) (level * m.growth)
      ⟨days n, bar.close * m.high, bar.close * m.low, bar.close * m.growth⟩ ?_
    change bar.close * m.growth = _
    rw [hbar, mul_assoc]

end

/-! ### Figures and settlements -/

/-- The share of the paths with an outcome. -/
def frequency (outcome : BarrierOutcome) (touches : List (BarrierOutcome × Option Nat)) :
    Option ℚ :=
  mean (touches.map fun touch => indicator (decide (touch.1 = outcome)))

/-- The return that an outcome gives a path. -/
def SimulatedPath.realisedReturn (path : SimulatedPath) (stop target : ℚ)
    (outcome : BarrierOutcome) : ℚ :=
  match outcome with
  | .stop => -stop
  | .target => target
  | _ => path.row.last - 1

/-- The figures of the paths are what the settlement of each path, from any close on and on any
days, counts together. -/
structure FiguresAgree (paths : List SimulatedPath) (stop target : ℚ) (days : Nat → Day)
    (entry : ℚ) : Prop where
  probs : barrierProbs (paths.map SimulatedPath.row) stop target = (do
    let touches := paths.map fun path => firstTouch entry stop target 1 (path.bars days entry)
    let pStop ← frequency .stop touches
    let pTarget ← frequency .target touches
    let pNeither ← frequency .neither touches
    pure (pStop, pTarget, pNeither))
  sum : ∀ pStop pTarget pNeither, barrierProbs (paths.map SimulatedPath.row) stop target =
    some (pStop, pTarget, pNeither) → pStop + pTarget + pNeither = 1
  defined : paths ≠ [] → (barrierProbs (paths.map SimulatedPath.row) stop target).isSome
  expected : (barrierReturns (paths.map SimulatedPath.row) stop target).map
    BarrierReturns.expectedReturn = mean (paths.map fun path =>
      path.realisedReturn stop target (firstTouch entry stop target 1 (path.bars days entry)).1)
  /-- What `settle` makes of a path; a suspected corporate action is void. -/
  settled : ∀ path ∈ paths, ∀ (bar : SettlingBar) (entryClose : ℚ) (passDate : Day),
    bar.close = entry → entryClose ≠ 0 → ∃ s,
      settle (bar :: path.bars days entry) bar.day entryClose stop target passDate =
        .ok (some s) ∧
      (path.Plausible → (s.outcome, s.outcomeSession) =
          firstTouch entry stop target 1 (path.bars days entry) ∧
        s.realisedReturn = some (path.realisedReturn stop target s.outcome)) ∧
      (¬ path.Plausible → s.outcome = .void ∧ s.realisedReturn = none)

section

variable {stop target entry : ℚ} {days : Nat → Day}

theorem indicator_stop (hentry : 0 < entry) (path : SimulatedPath) :
    indicator (path.row.stopFirst stop target) = indicator (decide
      ((firstTouch entry stop target 1 (path.bars days entry)).1 = .stop)) := by
  rw [firstTouch_path hentry]
  cases path.row.stopFirst stop target <;> cases path.row.targetFirst stop target <;> rfl

/-- A path touches the stop first or the target first, never both. -/
theorem PathRow.targetFirst_eq_false {row : PathRow} (h : row.stopFirst stop target = true) :
    row.targetFirst stop target = false := by
  unfold stopFirst at h
  unfold targetFirst
  simp only [Bool.and_eq_true, decide_eq_true_eq] at h
  simp only [Bool.and_eq_false_iff, decide_eq_false_iff_not]
  exact .inr (Nat.not_lt.mpr h.2)

theorem indicator_target (hentry : 0 < entry) (path : SimulatedPath) :
    indicator (path.row.targetFirst stop target) = indicator (decide
      ((firstTouch entry stop target 1 (path.bars days entry)).1 = .target)) := by
  rw [firstTouch_path hentry]
  cases hs : path.row.stopFirst stop target with
  | true =>
    rw [PathRow.targetFirst_eq_false hs]
    rfl
  | false => cases path.row.targetFirst stop target <;> rfl

theorem indicator_neither (hentry : 0 < entry) (path : SimulatedPath) :
    1 - indicator (path.row.stopFirst stop target) - indicator (path.row.targetFirst stop target) =
      indicator (decide ((firstTouch entry stop target 1 (path.bars days entry)).1 =
        .neither)) := by
  rw [firstTouch_path hentry]
  cases hs : path.row.stopFirst stop target with
  | true =>
    rw [PathRow.targetFirst_eq_false hs]
    simp [indicator]
  | false => cases path.row.targetFirst stop target <;> simp [indicator]

theorem realisedReturn_path (hentry : 0 < entry) (path : SimulatedPath) :
    path.row.barrierReturn stop target = path.realisedReturn stop target
      (firstTouch entry stop target 1 (path.bars days entry)).1 := by
  rw [firstTouch_path hentry]
  unfold PathRow.barrierReturn
  cases path.row.stopFirst stop target <;> cases path.row.targetFirst stop target <;> rfl

/-- What is left of one by two means is the mean of what is left. -/
theorem mean_rest {α : Type} {l : List α} (f g h : α → ℚ) (hl : l ≠ [])
    (hrest : ∀ a ∈ l, 1 - f a - g a = h a) : ∃ x y z, mean (l.map f) = some x ∧
      mean (l.map g) = some y ∧ mean (l.map h) = some z ∧ 1 - x - y = z := by
  have hsome : ∀ k : α → ℚ, mean (l.map k) = some ((l.map k).sum / l.length) := fun k => by
    rw [mean, if_neg (by simpa using hl), average, List.length_map]
  have hsum : (l.length : ℚ) - (l.map f).sum - (l.map g).sum = (l.map h).sum := by
    clear hsome hl
    induction l with
    | nil => simp
    | cons a rest ih =>
      have hhead := hrest a List.mem_cons_self
      have htail := ih fun b hb => hrest b (List.mem_cons_of_mem _ hb)
      simp only [List.map_cons, List.sum_cons, List.length_cons, Nat.cast_succ]
      linarith
  have hlength : (l.length : ℚ) ≠ 0 := by simpa using hl
  refine ⟨_, _, _, hsome f, hsome g, hsome h, ?_⟩
  rw [← hsum]
  field_simp

theorem percentile_isSome {xs : List ℚ} (h : xs ≠ []) :
    ∃ x, percentile tailPercentile xs = some x := by
  have hpos : 0 < xs.length := List.length_pos_of_ne_nil h
  have hplace : (((xs.length : ℚ) - 1) * (tailPercentile / 100)).floor.toNat <
      (xs.insertionSort (· ≤ ·)).length := by
    rw [List.length_insertionSort]
    have hle : ((xs.length : ℚ) - 1) * (tailPercentile / 100) ≤ (xs.length - 1 : ℕ) := by
      rw [Nat.cast_sub hpos]
      have : (1 : ℚ) ≤ xs.length := by exact_mod_cast hpos
      unfold tailPercentile
      norm_num
      linarith
    have hfloor := Int.floor_le_floor hle
    rw [Int.floor_natCast] at hfloor
    change (⌊((xs.length : ℚ) - 1) * (tailPercentile / 100)⌋).toNat < _
    omega
  unfold percentile
  simp only [List.getElem?_eq_getElem hplace]
  exact ⟨_, rfl⟩

/-- What `settle` makes of a path from its close on. -/
theorem settle_path (hentry : 0 < entry) (path : SimulatedPath) (bar : SettlingBar)
    {entryClose : ℚ} (passDate : Day) (hbar : bar.close = entry) (hclose : entryClose ≠ 0) :
    ∃ s, settle (bar :: path.bars days entry) bar.day entryClose stop target passDate =
        .ok (some s) ∧
      (path.Plausible → (s.outcome, s.outcomeSession) =
          firstTouch entry stop target 1 (path.bars days entry) ∧
        s.realisedReturn = some (path.realisedReturn stop target s.outcome)) ∧
      (¬ path.Plausible → s.outcome = .void ∧ s.realisedReturn = none) := by
  subst hbar
  have hlength : (path.bars days bar.close).length = horizonSessions := by
    rw [SimulatedPath.bars, ← path.horizon]
    generalize path.moves = moves
    generalize 0 = n
    generalize bar.close = close
    induction moves generalizing n close with
    | nil => rfl
    | cons m rest ih => rw [barsFrom, List.length_cons, ih, List.length_cons]
  have hwindow : settlingWindow (bar :: path.bars days bar.close) bar.day =
      bar :: path.bars days bar.close := by
    rw [settlingWindow, List.dropWhile_cons_of_neg (by simp), List.take_of_length_le]
    rw [List.length_cons, hlength]
  have hlast := @last_barsFrom bar.close days path.moves 0 1 bar bar (mul_one _).symm
  rw [← SimulatedPath.bars, ← SimulatedPath.row] at hlast
  have hgrowth : quotient ((bar :: path.bars days bar.close).getLastD bar).close bar.close =
      .ok path.row.last := by
    rw [quotient, if_neg hentry.ne', hlast, mul_div_cancel_left₀ _ hentry.ne']
  have hratio : quotient bar.close entryClose = .ok (bar.close / entryClose) := by
    rw [quotient, if_neg hclose]
  rw [settle_long hwindow hlength, hratio, Fallible.ok_bind, SimulatedPath.bars,
    corporateAction_barsFrom _ _ _ hentry, Fallible.ok_bind, ← SimulatedPath.bars, hgrowth,
    Fallible.ok_bind]
  by_cases hplausible : path.Plausible
  · have hrange : (decide ¬ ∀ m ∈ path.moves, 6 / 10 ≤ m.growth ∧ m.growth ≤ 167 / 100) = false :=
      decide_eq_false (not_not_intro hplausible)
    rw [hrange, if_neg Bool.false_ne_true]
    refine ⟨_, rfl, fun _ => ⟨rfl, ?_⟩, fun hnot => absurd hplausible hnot⟩
    unfold settlementOf SimulatedPath.realisedReturn
    generalize firstTouch bar.close stop target 1 (path.bars days bar.close) = touch
    obtain ⟨outcome, session⟩ := touch
    cases outcome <;> rfl
  · have hrange : (decide ¬ ∀ m ∈ path.moves, 6 / 10 ≤ m.growth ∧ m.growth ≤ 167 / 100) = true :=
      decide_eq_true hplausible
    rw [hrange, if_pos rfl]
    exact ⟨_, rfl, fun hyes => absurd hyes hplausible, fun _ => ⟨rfl, rfl⟩⟩

/-- The three shares of the paths are the frequencies of their first touches and add up to one, and
the expected return is the mean of what their outcomes give. -/
theorem figures_agree (paths : List SimulatedPath) (stop target : ℚ) (days : Nat → Day)
    (hentry : 0 < entry) : FiguresAgree paths stop target days entry := by
  have hstop : (paths.map SimulatedPath.row).map
    (fun row => indicator (row.stopFirst stop target)) =
      (paths.map fun path => firstTouch entry stop target 1 (path.bars days entry)).map
        fun touch => indicator (decide (touch.1 = .stop)) := by
    rw [List.map_map, List.map_map]
    exact List.map_congr_left fun path _ => indicator_stop hentry path
  have htarget : (paths.map SimulatedPath.row).map
      (fun row => indicator (row.targetFirst stop target)) =
      (paths.map fun path => firstTouch entry stop target 1 (path.bars days entry)).map
        fun touch => indicator (decide (touch.1 = .target)) := by
    rw [List.map_map, List.map_map]
    exact List.map_congr_left fun path _ => indicator_target hentry path
  have hreturns : (paths.map SimulatedPath.row).map (PathRow.barrierReturn stop target) =
      paths.map fun path => path.realisedReturn stop target
        (firstTouch entry stop target 1 (path.bars days entry)).1 := by
    rw [List.map_map]
    exact List.map_congr_left fun path _ => realisedReturn_path hentry path
  rcases List.eq_nil_or_concat paths with rfl | hconcat
  · exact ⟨rfl, nofun, fun hne => absurd rfl hne, rfl, nofun⟩
  · have hne : paths ≠ [] := by
      obtain ⟨before, path, rfl⟩ := hconcat
      simp
    obtain ⟨x, y, z, hx, hy, hz, hrest⟩ := mean_rest
      (fun path : SimulatedPath => indicator (path.row.stopFirst stop target))
      (fun path => indicator (path.row.targetFirst stop target))
      (fun path => indicator (decide
        ((firstTouch entry stop target 1 (path.bars days entry)).1 = .neither))) hne
      fun path _ => indicator_neither hentry path
    have hstops : mean ((paths.map SimulatedPath.row).map fun row =>
        indicator (row.stopFirst stop target)) = some x := by
      rw [List.map_map]
      exact hx
    have htargets : mean ((paths.map SimulatedPath.row).map fun row =>
        indicator (row.targetFirst stop target)) = some y := by
      rw [List.map_map]
      exact hy
    have hprobs : barrierProbs (paths.map SimulatedPath.row) stop target =
        some (x, y, 1 - x - y) := by
      rw [barrierProbs, hstops, htargets]
      rfl
    refine ⟨?_, ?_, ?_, ?_, fun path _ bar entryClose passDate hbar hclose =>
      settle_path hentry path bar passDate hbar hclose⟩
    · have hneither : frequency .neither (paths.map fun path =>
          firstTouch entry stop target 1 (path.bars days entry)) = some z := by
        rw [frequency, List.map_map]
        exact hz
      have hstop' := congrArg mean hstop
      have htarget' := congrArg mean htarget
      rw [hstops, ← frequency] at hstop'
      rw [htargets, ← frequency] at htarget'
      simp only [hprobs, ← hstop', ← htarget', hneither, hrest]
      rfl
    · intro pStop pTarget pNeither heq
      rw [hprobs] at heq
      cases heq
      ring
    · rw [hprobs]
      exact fun _ => rfl
    · have hreturns' : (paths.map SimulatedPath.row).map (fun row => row.last - 1) ≠ [] := by
        simpa using hne
      obtain ⟨p05, hp05⟩ := percentile_isSome hreturns'
      rw [barrierReturns, hreturns, hp05]
      cases mean (paths.map fun path => path.realisedReturn stop target
        (firstTouch entry stop target 1 (path.bars days entry)).1) <;> rfl

end

/-- A session at the close before. -/
def flatMove : PathMove := ⟨1, 1, 1, one_pos⟩

/-- A path that loses half of its level in the first session. -/
def halvedPath : SimulatedPath :=
  ⟨⟨1 / 2, 1, 1 / 2, by norm_num⟩ :: List.replicate 9 flatMove, rfl⟩

theorem figures_agree_halved :
    FiguresAgree [halvedPath, ⟨List.replicate 10 flatMove, rfl⟩] (1 / 20) (2 / 25)
      (fun _ => aprilSixteenth) 100 :=
  figures_agree _ _ _ _ (by norm_num)

/-- The figures count the halved path as a stop; its settlement is void and gives it no return. -/
theorem halved_path_void : ¬ ∀ (paths : List SimulatedPath) (stop target : ℚ) (days : Nat → Day)
    (bar : SettlingBar) (passDate : Day), 0 < bar.close → ∃ returns : List ℚ,
      List.Forall₂ (fun path r => ∃ s, settle (bar :: path.bars days bar.close) bar.day bar.close
        stop target passDate = .ok (some s) ∧ s.realisedReturn = some r) paths returns ∧
      (barrierReturns (paths.map SimulatedPath.row) stop target).map BarrierReturns.expectedReturn =
        mean returns := by
  intro hall
  obtain ⟨returns, hforall, -⟩ := hall [halvedPath] (1 / 20) (2 / 25) (fun _ => aprilSixteenth)
    (quietBar 0) aprilSixteenth (by decide +kernel)
  obtain ⟨r, rest, ⟨s, hs, hreturn⟩, -, -⟩ := List.forall₂_cons_left_iff.mp hforall
  have hvoid : Fallible.check (fun s => decide ((s.bind Settlement.realisedReturn) = none))
      (settle (quietBar 0 :: halvedPath.bars (fun _ => aprilSixteenth) (quietBar 0).close)
        (quietBar 0).day (quietBar 0).close (1 / 20) (2 / 25) aprilSixteenth) = true := by
    decide +kernel
  obtain ⟨s', hs', hnone⟩ := Fallible.check_eq_true.mp hvoid
  rw [hs] at hs'
  cases hs'
  have hnone : s.realisedReturn = none := of_decide_eq_true hnone
  rw [hnone] at hreturn
  cases hreturn

end TradingAgents.Forecaster
