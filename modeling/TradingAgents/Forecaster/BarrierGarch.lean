import Mathlib
import TradingAgents.Forecaster.BarrierSettlement

/-! The simulation behind a barrier claim: the variance of a fitted model is filtered over the
history of a stock, its moves are standardised by that variance, and paths are drawn from them.
Arithmetic is over the real numbers, and a quotient by zero is no number. -/

namespace TradingAgents.Forecaster

/-! ### The fit -/

/-- What the optimiser returned. -/
structure RawGarchFit where
  mu : ℝ
  omega : ℝ
  alpha : ℝ
  beta : ℝ
  converged : Bool

inductive FitStatus where
  | accepted
  | capped
deriving DecidableEq

/-- The parameters that the simulation uses. -/
structure GarchParams where
  mu : ℝ
  omega : ℝ
  alpha : ℝ
  beta : ℝ
  status : FitStatus

noncomputable section

def persistenceCap : ℝ := 999 / 1000

def boundaryTolerance : ℝ := 1 / 1000000000

/-- The fit as it is, its persistence capped, or a failure. -/
def acceptFit (raw : RawGarchFit) : Option GarchParams :=
  if raw.converged = false ∨ raw.omega ≤ 0 ∨ raw.alpha < 0 ∨ raw.beta < 0 ∨
      1 + boundaryTolerance < raw.alpha + raw.beta then none
  else if persistenceCap < raw.alpha + raw.beta then
    let scale := persistenceCap / (raw.alpha + raw.beta)
    some ⟨raw.mu, raw.omega, raw.alpha * scale, raw.beta * scale, .capped⟩
  else some ⟨raw.mu, raw.omega, raw.alpha, raw.beta, .accepted⟩

/-! ### The variance of the history -/

/-- A day's close, high and low, each a percent log distance from the close before. -/
structure DailyMove where
  r : ℝ
  lh : ℝ
  ll : ℝ

/-- The moves from `lo` on and before `t`. -/
def segment (moves : List DailyMove) (lo t : Nat) : List DailyMove := (moves.drop lo).take (t - lo)

def arrayMean (xs : List ℝ) : ℝ := xs.sum / xs.length

/-- `var()`: the mean of the squared distances from the mean. -/
def arrayVar (xs : List ℝ) : ℝ := arrayMean (xs.map fun x => (x - arrayMean xs) ^ 2)

/-- The variance after a move. -/
def nextVariance (p : GarchParams) (r s2 : ℝ) : ℝ :=
  p.omega + p.alpha * (r - p.mu) ^ 2 + p.beta * s2

def varianceFilter (p : GarchParams) : ℝ → List ℝ → List ℝ
  | _, [] => []
  | prev, r :: rs => nextVariance p r prev :: varianceFilter p (nextVariance p r prev) rs

/-- The variance before each move and after the last. -/
def historyVariances (p : GarchParams) (rs : List ℝ) : List ℝ :=
  arrayVar rs :: varianceFilter p (arrayVar rs) rs

/-! ### The paths -/

/-- A move over the volatility of its day. -/
structure StandardMove where
  z : ℝ
  uh : ℝ
  ul : ℝ

/-- A quotient, no number where the divisor is zero. -/
def divide (x y : ℝ) : Option ℝ := if y = 0 then none else some (x / y)

def standardMove (p : GarchParams) (d : DailyMove) (s2 : ℝ) : Option StandardMove := do
  let sig := √s2
  let z ← divide (d.r - p.mu) sig
  let uh ← divide d.lh sig
  let ul ← divide d.ll sig
  pure ⟨z, uh, ul⟩

def standardMoves (p : GarchParams) (seg : List DailyMove) : List (Option StandardMove) :=
  List.zipWith (standardMove p) seg (historyVariances p (seg.map DailyMove.r)).dropLast

/-- A simulated session: the variance it is drawn with, the level before it, its high and low over
that level, and its close. -/
structure GarchSession where
  variance : ℝ
  prev : ℝ
  high : ℝ
  low : ℝ
  close : ℝ

/-- The move drawn from a day of the history. -/
def drawnMove (p : GarchParams) (day : StandardMove) (s2 : ℝ) : ℝ := p.mu + √s2 * day.z

/-- The session drawn from a day of the history. -/
def garchSession (p : GarchParams) (day : StandardMove) (level s2 : ℝ) : GarchSession :=
  let s := √s2
  let rr := drawnMove p day s2
  { variance := s2
    prev := level
    high := Real.exp (max (s * day.uh) rr / 100)
    low := Real.exp (min (s * day.ul) rr / 100)
    close := level * Real.exp (rr / 100) }

/-- The sessions of one path, each a resampled day of the history. -/
def garchPath (p : GarchParams) (days : List (Option StandardMove)) :
    ℝ → ℝ → List Nat → Option (List GarchSession)
  | _, _, [] => some []
  | level, s2, j :: js => do
    let day ← days[j]?.join
    let session := garchSession p day level s2
    let rest ← garchPath p days session.close (nextVariance p (drawnMove p day s2) s2) js
    pure (session :: rest)

/-- The paths of the draws, each a list of days of the segment. -/
def garchPaths (p : GarchParams) (moves : List DailyMove) (lo t : Nat) (draws : List (List Nat)) :
    Option (List (List GarchSession)) :=
  let seg := segment moves lo t
  let s2 := historyVariances p (seg.map DailyMove.r)
  draws.mapM (garchPath p (standardMoves p seg) 1 (s2.getLast (List.cons_ne_nil _ _)))

end

/-! ### Variances -/

section

variable {raw : RawGarchFit} {p : GarchParams} {rs : List ℝ} {seed r s2 : ℝ}

/-- The signs that the recursion of the variance needs. -/
structure GarchParams.Positive (p : GarchParams) : Prop where
  omega : 0 < p.omega
  alpha : 0 ≤ p.alpha
  beta : 0 ≤ p.beta

theorem acceptFit_positive (h : acceptFit raw = some p) : p.Positive := by
  unfold acceptFit at h
  split at h
  · cases h
  rename_i hcond
  simp only [not_or, not_le, not_lt] at hcond
  obtain ⟨-, homega, halpha, hbeta, -⟩ := hcond
  split at h
  · rename_i hcap
    have hscale : 0 ≤ persistenceCap / (raw.alpha + raw.beta) :=
      div_nonneg (by norm_num [persistenceCap]) (add_nonneg halpha hbeta)
    cases h
    exact ⟨homega, mul_nonneg halpha hscale, mul_nonneg hbeta hscale⟩
  · cases h
    exact ⟨homega, halpha, hbeta⟩

theorem nextVariance_pos (hp : p.Positive) (h : 0 ≤ s2) : 0 < nextVariance p r s2 := by
  have hsquare := mul_nonneg hp.alpha (sq_nonneg (r - p.mu))
  have hrest := mul_nonneg hp.beta h
  have homega := hp.omega
  unfold nextVariance
  linarith

theorem varianceFilter_pos (hp : p.Positive) (h : 0 ≤ seed) :
    ∀ v ∈ varianceFilter p seed rs, 0 < v := by
  induction rs generalizing seed with
  | nil => simp [varianceFilter]
  | cons r rs ih =>
    intro v hv
    have hnext := nextVariance_pos (r := r) hp h
    rcases List.mem_cons.mp hv with rfl | hv
    · exact hnext
    · exact ih hnext.le v hv

theorem length_varianceFilter : (varianceFilter p seed rs).length = rs.length := by
  induction rs generalizing seed with
  | nil => rfl
  | cons r rs ih => rw [varianceFilter, List.length_cons, ih, List.length_cons]

theorem arrayVar_nonneg : 0 ≤ arrayVar rs := by
  refine div_nonneg (List.sum_nonneg fun x hx => ?_) (Nat.cast_nonneg _)
  obtain ⟨y, -, rfl⟩ := List.mem_map.mp hx
  exact sq_nonneg _

/-- The variance of a history is positive unless all its moves are one. -/
theorem arrayVar_pos_iff : 0 < arrayVar rs ↔ ∃ x ∈ rs, ∃ y ∈ rs, x ≠ y := by
  constructor
  · intro hpos
    by_contra hall
    push Not at hall
    refine hpos.ne' ?_
    have hmean : ∀ x ∈ rs, x = arrayMean rs := by
      intro x hx
      have hrs : rs = List.replicate rs.length x :=
        List.eq_replicate_iff.mpr ⟨rfl, fun y hy => hall y hy x hx⟩
      have hlength : (rs.length : ℝ) ≠ 0 := by
        exact_mod_cast (List.length_pos_of_mem hx).ne'
      have hsum : rs.sum = rs.length * x := by
        conv_lhs => rw [hrs]
        rw [List.sum_replicate, nsmul_eq_mul]
      rw [arrayMean, hsum, mul_div_cancel_left₀ x hlength]
    have hzero : (rs.map fun x => (x - arrayMean rs) ^ 2) = List.replicate rs.length 0 := by
      refine List.eq_replicate_iff.mpr ⟨List.length_map _, fun y hy => ?_⟩
      obtain ⟨x, hx, rfl⟩ := List.mem_map.mp hy
      rw [← hmean x hx, sub_self, zero_pow two_ne_zero]
    rw [arrayVar, hzero, arrayMean, List.sum_replicate, smul_zero, zero_div]
  · rintro ⟨x, hx, y, hy, hne⟩
    -- one of the two moves is away from the mean
    obtain ⟨w, hw, hwm⟩ : ∃ w ∈ rs, w ≠ arrayMean rs := by
      by_cases hxm : x = arrayMean rs
      · exact ⟨y, hy, fun hym => hne (hxm.trans hym.symm)⟩
      · exact ⟨x, hx, hxm⟩
    have hsquare : 0 < (w - arrayMean rs) ^ 2 := sq_pos_of_ne_zero (sub_ne_zero.mpr hwm)
    have hle : (w - arrayMean rs) ^ 2 ≤ (rs.map fun x => (x - arrayMean rs) ^ 2).sum :=
      List.single_le_sum (fun v hv => by
        obtain ⟨u, -, rfl⟩ := List.mem_map.mp hv
        exact sq_nonneg _) _ (List.mem_map.mpr ⟨w, hw, rfl⟩)
    rw [arrayVar, arrayMean, List.length_map]
    exact div_pos (hsquare.trans_le hle) (by exact_mod_cast List.length_pos_of_mem hw)

end

/-! ### Paths -/

section

variable {p : GarchParams} {moves : List DailyMove} {lo t : Nat} {draws : List (List Nat)}
  {days : List (Option StandardMove)} {level s2 : ℝ} {js : List Nat}

/-- A session is drawn with a positive variance, and its close lies between its low and high. -/
structure GarchSession.Regular (s : GarchSession) : Prop where
  variance : 0 < s.variance
  low_le : s.prev * s.low ≤ s.close
  le_high : s.close ≤ s.prev * s.high

/-- Every variance that a root is taken of is positive, and every path consists of numbers, with
each close between the low and the high of its session. -/
structure PathsRegular (p : GarchParams) (moves : List DailyMove) (lo t : Nat)
    (draws : List (List Nat)) : Prop where
  history : ∀ v ∈ (historyVariances p ((segment moves lo t).map DailyMove.r)).dropLast, 0 < v
  paths : ∃ rows, garchPaths p moves lo t draws = some rows ∧
    rows.map List.length = draws.map List.length ∧ ∀ row ∈ rows, ∀ s ∈ row, s.Regular

theorem garchSession_regular {day : StandardMove} (hlevel : 0 < level) (hs2 : 0 < s2) :
    (garchSession p day level s2).Regular where
  variance := hs2
  low_le := mul_le_mul_of_nonneg_left (Real.exp_le_exp.mpr
    (div_le_div_of_nonneg_right (min_le_right _ _) (by norm_num))) hlevel.le
  le_high := mul_le_mul_of_nonneg_left (Real.exp_le_exp.mpr
    (div_le_div_of_nonneg_right (le_max_right _ _) (by norm_num))) hlevel.le

theorem standardMove_isSome {d : DailyMove} (h : 0 < s2) : ∃ m, standardMove p d s2 = some m := by
  have hsig : √s2 ≠ 0 := (Real.sqrt_pos.mpr h).ne'
  exact ⟨⟨(d.r - p.mu) / √s2, d.lh / √s2, d.ll / √s2⟩, by simp [standardMove, divide, hsig]⟩

theorem standardMoves_isSome {seg : List DailyMove}
    (h : ∀ v ∈ (historyVariances p (seg.map DailyMove.r)).dropLast, 0 < v) :
    ∀ o ∈ standardMoves p seg, ∃ m, o = some m := by
  intro o ho
  rw [standardMoves, ← List.map_uncurry_zip_eq_zipWith] at ho
  obtain ⟨⟨d, v⟩, hdv, rfl⟩ := List.mem_map.mp ho
  exact standardMove_isSome (h v (List.of_mem_zip hdv).2)

theorem length_standardMoves {seg : List DailyMove} :
    (standardMoves p seg).length = seg.length := by
  rw [standardMoves, List.length_zipWith, List.length_dropLast, historyVariances, List.length_cons,
    length_varianceFilter, List.length_map, Nat.add_sub_cancel, Nat.min_self]

/-- A path from a positive level and variance: each step leaves both positive. -/
theorem garchPath_regular (hp : p.Positive) (hdays : ∀ o ∈ days, ∃ m, o = some m)
    (hjs : ∀ j ∈ js, j < days.length) (hlevel : 0 < level) (hs2 : 0 < s2) :
    ∃ row, garchPath p days level s2 js = some row ∧ row.length = js.length ∧
      ∀ s ∈ row, s.Regular := by
  induction js generalizing level s2 with
  | nil => exact ⟨[], rfl, rfl, by simp⟩
  | cons j js ih =>
    have hj := hjs j List.mem_cons_self
    obtain ⟨day, hday⟩ := hdays days[j] (List.getElem_mem hj)
    have hread : days[j]?.join = some day := by
      rw [List.getElem?_eq_getElem hj, hday, Option.join_some]
    have hclose : 0 < (garchSession p day level s2).close := mul_pos hlevel (Real.exp_pos _)
    obtain ⟨rest, hrest, hlength, hregular⟩ := ih (fun i hi => hjs i (List.mem_cons_of_mem j hi))
      hclose (nextVariance_pos (r := drawnMove p day s2) hp hs2.le)
    refine ⟨garchSession p day level s2 :: rest, ?_, congrArg (· + 1) hlength, fun s hs => ?_⟩
    · rw [garchPath, hread]
      simp only [Option.bind_eq_bind, Option.bind_some]
      rw [hrest]
      rfl
    · rcases List.mem_cons.mp hs with rfl | hs
      · exact garchSession_regular hlevel hs2
      · exact hregular s hs

theorem garchPaths_regular (hp : p.Positive) (hdays : ∀ o ∈ days, ∃ m, o = some m)
    (hdraws : ∀ js ∈ draws, ∀ j ∈ js, j < days.length) (hlevel : 0 < level) (hs2 : 0 < s2) :
    ∃ rows, draws.mapM (garchPath p days level s2) = some rows ∧
      rows.map List.length = draws.map List.length ∧ ∀ row ∈ rows, ∀ s ∈ row, s.Regular := by
  induction draws with
  | nil => exact ⟨[], rfl, rfl, by simp⟩
  | cons js draws ih =>
    obtain ⟨row, hrow, hlength, hregular⟩ :=
      garchPath_regular hp hdays (hdraws js List.mem_cons_self) hlevel hs2
    obtain ⟨rows, hrows, hlengths, hall⟩ := ih fun js' h => hdraws js' (List.mem_cons_of_mem js h)
    refine ⟨row :: rows, ?_, ?_, fun r hr => ?_⟩
    · rw [List.mapM_cons, hrow, hrows]
      rfl
    · rw [List.map_cons, List.map_cons, hlength, hlengths]
    · rcases List.mem_cons.mp hr with rfl | hr
      · exact hregular
      · exact hall r hr

theorem historyVariances_pos (hp : p.Positive) {rs : List ℝ} (h : 0 < arrayVar rs) :
    ∀ v ∈ historyVariances p rs, 0 < v := by
  intro v hv
  rcases List.mem_cons.mp hv with rfl | hv
  · exact h
  · exact varianceFilter_pos hp h.le v hv

/-- The seed variance is among those that a root is taken of. -/
theorem arrayVar_mem_dropLast {rs : List ℝ} (h : rs ≠ []) :
    arrayVar rs ∈ (historyVariances p rs).dropLast := by
  cases rs with
  | nil => exact absurd rfl h
  | cons r rs =>
    rw [historyVariances, varianceFilter, List.dropLast_cons_cons]
    exact List.mem_cons_self

/-- On a history of one move the first day's quotients have no value. -/
theorem standardMoves_zero {seg : List DailyMove} (hseg : seg ≠ [])
    (h : arrayVar (seg.map DailyMove.r) = 0) : (standardMoves p seg)[0]? = some none := by
  cases seg with
  | nil => exact absurd rfl hseg
  | cons d rest =>
    rw [standardMoves, historyVariances, h, List.map_cons, varianceFilter, List.dropLast_cons_cons,
      List.zipWith_cons_cons, List.getElem?_cons_zero]
    simp [standardMove, divide]

/-- A path that draws the first day of such a history has no numbers. -/
theorem garchPath_eq_none {seg : List DailyMove} (hseg : seg ≠ [])
    (h : arrayVar (seg.map DailyMove.r) = 0) :
    garchPath p (standardMoves p seg) level s2 (0 :: js) = none := by
  rw [garchPath, standardMoves_zero hseg h]
  rfl

end

/-- The simulation of an accepted fit runs on positive variances exactly on the histories that are
not one move throughout. -/
theorem pathsRegular_iff_moves {raw : RawGarchFit} {p : GarchParams} {moves : List DailyMove}
    {lo t : Nat} {draws : List (List Nat)} (hfit : acceptFit raw = some p)
    (hseg : segment moves lo t ≠ [])
    (hdraws : ∀ js ∈ draws, ∀ j ∈ js, j < (segment moves lo t).length) :
    PathsRegular p moves lo t draws ↔
      ∃ d ∈ segment moves lo t, ∃ e ∈ segment moves lo t, d.r ≠ e.r := by
  have hp := acceptFit_positive hfit
  have hvar : 0 < arrayVar ((segment moves lo t).map DailyMove.r) ↔
      ∃ d ∈ segment moves lo t, ∃ e ∈ segment moves lo t, d.r ≠ e.r := by
    rw [arrayVar_pos_iff]
    simp only [List.mem_map, exists_exists_and_eq_and]
  rw [← hvar]
  constructor
  · intro hregular
    exact hregular.history _ (arrayVar_mem_dropLast (mt List.map_eq_nil_iff.mp hseg))
  · intro hpos
    have hall := historyVariances_pos hp hpos
    have hhistory : ∀ v ∈ (historyVariances p ((segment moves lo t).map DailyMove.r)).dropLast,
        0 < v := fun v hv => hall v (List.dropLast_subset _ hv)
    refine ⟨hhistory, ?_⟩
    exact garchPaths_regular hp (standardMoves_isSome hhistory)
      (by rwa [length_standardMoves]) one_pos (hall _ (List.getLast_mem _))

/-- A fit of constant variance. -/
def constantFit : RawGarchFit := ⟨0, 1, 0, 0, true⟩

def constantParams : GarchParams := ⟨0, 1, 0, 0, .accepted⟩

theorem acceptFit_constantFit : acceptFit constantFit = some constantParams := by
  norm_num [acceptFit, constantFit, constantParams, boundaryTolerance, persistenceCap]

theorem pathsRegular_iff_moves_two : PathsRegular constantParams [⟨1, 2, -1⟩, ⟨-1, 1, -2⟩] 0 2
    [[0, 1, 1, 0, 0, 1, 0, 1, 0, 1]] :=
  (pathsRegular_iff_moves acceptFit_constantFit (by simp [segment]) (by simp [segment])).mpr
    ⟨⟨1, 2, -1⟩, by simp [segment], ⟨-1, 1, -2⟩, by simp [segment], by norm_num⟩

/-- The moves of 760 bars with one price. -/
def flatMoves : List DailyMove := List.replicate 759 ⟨0, 0, 0⟩

theorem flatMoves_not_regular : acceptFit constantFit = some constantParams ∧
    ¬ PathsRegular constantParams flatMoves 0 759 [[0, 1, 2, 3, 4, 5, 6, 7, 8, 9]] := by
  refine ⟨acceptFit_constantFit, fun h => ?_⟩
  have hseg : segment flatMoves 0 759 = List.replicate 759 ⟨0, 0, 0⟩ := by
    rw [segment, flatMoves, List.drop_zero, List.take_replicate]
    rfl
  have hzero : arrayVar ((segment flatMoves 0 759).map DailyMove.r) = 0 := by
    refine le_antisymm (not_lt.mp fun hpos => ?_) arrayVar_nonneg
    obtain ⟨x, hx, y, hy, hne⟩ := arrayVar_pos_iff.mp hpos
    rw [hseg, List.map_replicate] at hx hy
    exact hne ((List.eq_of_mem_replicate hx).trans (List.eq_of_mem_replicate hy).symm)
  have hne : segment flatMoves 0 759 ≠ [] := by
    refine List.ne_nil_of_length_pos ?_
    rw [hseg, List.length_replicate]
    norm_num
  obtain ⟨rows, hrows, -⟩ := h.paths
  rw [garchPaths, List.mapM_cons, garchPath_eq_none hne hzero] at hrows
  cases hrows

end TradingAgents.Forecaster
