import TradingAgents.ProofKit.Dict
import TradingAgents.ProofKit.Series
import TradingAgents.ProofKit.StableSort

/-! The reporter's performance figures: the returns of the book and of the benchmark chained over
the sessions that have both, the return of the benchmark at the exposure of the book, and the worst
fall of the equity.  Arithmetic is exact. -/

namespace TradingAgents.Reporter

open ProofKit
open Series (pairwise drawdown Worst)

/-- The book at one date. -/
structure PerformancePoint where
  day : ℤ
  equityCents : ℤ
  longValueCents : ℤ
deriving DecidableEq

/-- Two neighbouring points that a return can be measured between. -/
structure UsablePair where
  previous : PerformancePoint
  current : PerformancePoint
  previousClose : ℚ
  currentClose : ℚ
  closes_pos : 0 < previousClose ∧ 0 < currentClose
  equity_ne : previous.equityCents ≠ 0

structure PerformanceMetrics where
  portfolioReturnPct : ℚ
  benchmarkReturnPct : ℚ
  exposureMatchedReturnPct : ℚ
  excessReturnPct : ℚ
  averageExposurePct : ℚ
  maxDrawdownPct : ℚ
  rollingPortfolioReturnPct : ℚ
  rollingExposureMatchedReturnPct : ℚ
  rollingExcessReturnPct : ℚ
  performanceSessions : ℚ
  performanceGapSessions : ℚ
  equityCents : ℚ
deriving DecidableEq

namespace UsablePair

variable (p : UsablePair)

def portfolioRatio : ℚ := p.current.equityCents / p.previous.equityCents

def benchmarkRatio : ℚ := p.currentClose / p.previousClose

def exposure : ℚ := p.previous.longValueCents / p.previous.equityCents

/-- The ratio of the benchmark at the exposure of the book. -/
def exposureRatio : ℚ := 1 + p.exposure * (p.benchmarkRatio - 1)

end UsablePair

/-- The pair that two neighbouring points make, none without two positive closes and an equity to
measure from. -/
def usablePair (closes : Dict ℤ ℚ) (points : PerformancePoint × PerformancePoint) :
    Option UsablePair :=
  match closes.get? points.1.day, closes.get? points.2.day with
  | some previousClose, some currentClose =>
    if h : (0 < previousClose ∧ 0 < currentClose) ∧ points.1.equityCents ≠ 0 then
      some ⟨points.1, points.2, previousClose, currentClose, h.1, h.2⟩
    else none
  | _, _ => none

/-- The usable pairs, and the number of sessions without one. -/
def usablePairs (points : List PerformancePoint) (closes : Dict ℤ ℚ) : List UsablePair × Nat :=
  ((pairwise points).filterMap (usablePair closes),
    ((pairwise points).filter fun p => (usablePair closes p).isNone).length)

/-- The product of ratios, one pair after the other. -/
def chainedFactor (ratio : UsablePair → ℚ) (pairs : List UsablePair) : ℚ :=
  pairs.foldl (fun factor p => factor * ratio p) 1

def percent (factor : ℚ) : ℚ := (factor - 1) * 100

def emptyMetrics (gapSessions : Nat) : PerformanceMetrics :=
  ⟨0, 0, 0, 0, 0, 0, 0, 0, 0, 0, gapSessions, 0⟩

/-- `_max_drawdown`. -/
def maxDrawdown (points : List PerformancePoint) : ℚ :=
  drawdown (points.map fun p => (p.equityCents : ℚ)) * 100

def orderedPoints (points : List PerformancePoint) : List PerformancePoint :=
  points.insertionSort fun a b => a.day ≤ b.day

/-- The last `n` of a list; all of it for zero, as a slice from `-0` takes it. -/
def lastPairs (n : Nat) (pairs : List UsablePair) : List UsablePair :=
  if n = 0 then pairs else pairs.drop (pairs.length - n)

/-- Chained performance metrics from dated portfolio and benchmark facts. -/
def calculatePerformance (points : List PerformancePoint) (closes : Dict ℤ ℚ)
    (rollingSessions : Nat) : PerformanceMetrics :=
  let ordered := orderedPoints points
  let (pairs, gapSessions) := usablePairs ordered closes
  if pairs = [] then emptyMetrics gapSessions
  else
    let portfolioReturn := percent (chainedFactor UsablePair.portfolioRatio pairs)
    let exposureReturn := percent (chainedFactor UsablePair.exposureRatio pairs)
    let rolling := lastPairs rollingSessions pairs
    let rollingPortfolio := percent (chainedFactor UsablePair.portfolioRatio rolling)
    let rollingExposure := percent (chainedFactor UsablePair.exposureRatio rolling)
    { portfolioReturnPct := portfolioReturn
      benchmarkReturnPct := percent (chainedFactor UsablePair.benchmarkRatio pairs)
      exposureMatchedReturnPct := exposureReturn
      excessReturnPct := portfolioReturn - exposureReturn
      averageExposurePct := (pairs.map UsablePair.exposure).sum / pairs.length * 100
      maxDrawdownPct := maxDrawdown ordered
      rollingPortfolioReturnPct := rollingPortfolio
      rollingExposureMatchedReturnPct := rollingExposure
      rollingExcessReturnPct := rollingPortfolio - rollingExposure
      performanceSessions := pairs.length
      performanceGapSessions := gapSessions
      equityCents := ((ordered.getLast?).map fun p => (p.equityCents : ℚ)).getD 0 }

section

variable {points : List PerformancePoint} {closes : Dict ℤ ℚ} {rollingSessions : Nat}

/-! ### The order of the points -/

theorem mem_orderedPoints {p : PerformancePoint} : p ∈ orderedPoints points ↔ p ∈ points :=
  List.mem_insertionSort _

theorem length_orderedPoints : (orderedPoints points).length = points.length :=
  List.length_insertionSort _ _

theorem orderedPoints_sorted (hdays : (points.map PerformancePoint.day).Nodup) :
    (orderedPoints points).Pairwise fun p q => p.day < q.day := by
  have hsorted := pairwise_insertionSort PerformancePoint.day points
  have hdistinct : (orderedPoints points).Pairwise fun p q => p.day ≠ q.day := by
    rw [← List.pairwise_map]
    exact ((List.perm_insertionSort _ points).map PerformancePoint.day).nodup_iff.mpr hdays
  exact (hsorted.and hdistinct).imp fun h => lt_of_le_of_ne h.1 h.2

/-- One of two points stands before the other where it is of an earlier day. -/
theorem pair_sublist_orderedPoints (hdays : (points.map PerformancePoint.day).Nodup)
    {p q : PerformancePoint} :
    [p, q].Sublist (orderedPoints points) ↔ p ∈ points ∧ q ∈ points ∧ p.day < q.day := by
  have hsorted := orderedPoints_sorted hdays
  constructor
  · intro h
    exact ⟨mem_orderedPoints.mp (h.subset (by simp)), mem_orderedPoints.mp (h.subset (by simp)),
      List.rel_of_pairwise_cons (hsorted.sublist h) (by simp)⟩
  · rintro ⟨hp, hq, hlt⟩
    obtain ⟨older, newer, hsplit⟩ := List.append_of_mem (mem_orderedPoints.mpr hp)
    rw [hsplit] at hsorted ⊢
    have hq' : q ∈ older ++ p :: newer := hsplit ▸ mem_orderedPoints.mpr hq
    have hnewer : q ∈ newer := by
      rcases List.mem_append.mp hq' with hq' | hq'
      · have := (List.pairwise_append.mp hsorted).2.2 q hq' p List.mem_cons_self
        omega
      · rcases List.mem_cons.mp hq' with rfl | hq'
        · omega
        · exact hq'
    exact ((List.singleton_sublist.mpr hnewer).cons_cons p).trans
      (List.sublist_append_right older _)

/-- The earliest point stands first and the latest one last. -/
theorem orderedPoints_ends (hdays : (points.map PerformancePoint.day).Nodup)
    {first last : PerformancePoint} (hfirst : first ∈ points ∧ ∀ p ∈ points, first.day ≤ p.day)
    (hlast : last ∈ points ∧ ∀ p ∈ points, p.day ≤ last.day) :
    ∃ rest, orderedPoints points = first :: rest ∧
      (first :: rest).getLast (List.cons_ne_nil first rest) = last := by
  have hsorted := orderedPoints_sorted hdays
  obtain ⟨p, rest, hpoints⟩ := List.exists_cons_of_ne_nil
    (List.ne_nil_of_mem (mem_orderedPoints.mpr hfirst.1))
  have hmem : ∀ q, q ∈ p :: rest ↔ q ∈ points := fun q => by rw [← hpoints, mem_orderedPoints]
  rw [hpoints] at hsorted
  have hp : p = first := by
    rcases List.mem_cons.mp ((hmem first).mpr hfirst.1) with heq | hrest
    · exact heq.symm
    · have hlt := List.rel_of_pairwise_cons hsorted hrest
      have hle := hfirst.2 p ((hmem p).mp List.mem_cons_self)
      omega
  subst hp
  refine ⟨rest, hpoints, ?_⟩
  obtain ⟨older, newer, hsplit⟩ := List.append_of_mem ((hmem last).mpr hlast.1)
  cases newer with
  | nil => rw! [hsplit]; exact List.getLast_concat
  | cons q newer =>
    rw [hsplit] at hsorted
    have hlt := List.rel_of_pairwise_cons (List.pairwise_append.mp hsorted).2.1
      (List.mem_cons_self (a := q))
    have hle := hlast.2 q ((hmem q).mp (hsplit ▸ by simp))
    omega

/-! ### The usable pairs -/

theorem usablePair_ok {points : PerformancePoint × PerformancePoint} {p : UsablePair}
    (h : usablePair closes points = some p) :
    (p.previous = points.1 ∧ p.current = points.2) ∧
      closes.get? points.1.day = some p.previousClose ∧
      closes.get? points.2.day = some p.currentClose := by
  unfold usablePair at h
  split at h
  · next previousClose currentClose hprevious hcurrent =>
    split at h
    · obtain rfl := Option.some.inj h
      exact ⟨⟨rfl, rfl⟩, hprevious, hcurrent⟩
    · cases h
  · cases h

theorem usablePair_isSome {points : PerformancePoint × PerformancePoint} {c c' : ℚ}
    (hprevious : closes.get? points.1.day = some c) (hcurrent : closes.get? points.2.day = some c')
    (hc : 0 < c ∧ 0 < c') (hequity : points.1.equityCents ≠ 0) :
    (usablePair closes points).isSome := by
  unfold usablePair
  rw [hprevious, hcurrent]
  dsimp only
  rw [dif_pos ⟨hc, hequity⟩, Option.isSome_some]

/-- Each session is measured or a gap. -/
theorem usablePairs_length (points : List PerformancePoint) (closes : Dict ℤ ℚ) :
    (usablePairs points closes).1.length + (usablePairs points closes).2 = points.length - 1 := by
  rw [← Series.length_pairwise points]
  show ((pairwise points).filterMap (usablePair closes)).length +
    ((pairwise points).filter fun p => (usablePair closes p).isNone).length = _
  induction pairwise points with
  | nil => rfl
  | cons p l ih =>
    cases hp : usablePair closes p with
    | none =>
      rw [List.filterMap_cons_none hp, List.filter_cons_of_pos (by simp [hp]), List.length_cons,
        List.length_cons]
      omega
    | some q =>
      rw [List.filterMap_cons_some hp, List.filter_cons_of_neg (by simp [hp]), List.length_cons,
        List.length_cons]
      omega

theorem chainedFactor_eq (ratio : UsablePair → ℚ) (pairs : List UsablePair) :
    chainedFactor ratio pairs = (pairs.map ratio).prod := by
  rw [chainedFactor, Series.foldl_mul, one_mul]

/-! ### The figures -/

theorem percent_div (factor : ℚ) : 1 + percent factor / 100 = factor := by
  unfold percent
  ring

/-- The returns of a run without a usable pair are those of an empty chain. -/
theorem calculatePerformance_returns (points : List PerformancePoint) (closes : Dict ℤ ℚ)
    (rollingSessions : Nat) :
    let pairs := (usablePairs (orderedPoints points) closes).1
    let metrics := calculatePerformance points closes rollingSessions
    metrics.portfolioReturnPct = percent (chainedFactor UsablePair.portfolioRatio pairs) ∧
      metrics.benchmarkReturnPct = percent (chainedFactor UsablePair.benchmarkRatio pairs) ∧
      metrics.exposureMatchedReturnPct = percent (chainedFactor UsablePair.exposureRatio pairs) ∧
      metrics.excessReturnPct = metrics.portfolioReturnPct - metrics.exposureMatchedReturnPct ∧
      metrics.performanceSessions = pairs.length ∧
      metrics.performanceGapSessions = (usablePairs (orderedPoints points) closes).2 := by
  dsimp only
  unfold calculatePerformance
  dsimp only
  split
  · next hnone =>
    rw [hnone]
    simp [emptyMetrics, chainedFactor, percent]
  · exact ⟨rfl, rfl, rfl, rfl, rfl, rfl⟩

theorem calculatePerformance_maxDrawdown (points : List PerformancePoint) (closes : Dict ℤ ℚ)
    (rollingSessions : Nat) :
    let metrics := calculatePerformance points closes rollingSessions
    metrics.maxDrawdownPct =
      if metrics.performanceSessions = 0 then 0 else maxDrawdown (orderedPoints points) := by
  dsimp only
  unfold calculatePerformance
  dsimp only
  split
  · exact (if_pos rfl).symm
  · next hsome =>
    have hlength := List.length_pos_iff.mpr hsome
    exact (if_neg (Nat.cast_ne_zero.mpr hlength.ne')).symm

/-- The sessions that no return is measured over. -/
def gapPairs (points : List PerformancePoint) (closes : Dict ℤ ℚ) :
    List (PerformancePoint × PerformancePoint) :=
  (pairwise points).filter fun p => (usablePair closes p).isNone

/-- The measured sessions and the gaps carry the first equity into the last. -/
theorem portfolioFactor_mul_gaps {first last : PerformancePoint} {rest : List PerformancePoint}
    (hequity : ∀ p ∈ first :: rest, p.equityCents ≠ 0)
    (hlast : (first :: rest).getLast (List.cons_ne_nil first rest) = last) :
    chainedFactor UsablePair.portfolioRatio (usablePairs (first :: rest) closes).1 *
        ((gapPairs (first :: rest) closes).map fun p =>
          (p.2.equityCents / p.1.equityCents : ℚ)).prod =
      last.equityCents / first.equityCents := by
  have hratios := Series.prod_ratios (f := fun p : PerformancePoint => (p.equityCents : ℚ))
    (a := first) (l := rest) fun p hp => Int.cast_ne_zero.mpr (hequity p hp)
  rw [hlast] at hratios
  rw [chainedFactor_eq, ← hratios]
  refine Series.prod_filterMap_mul fun p _ q hq => ?_
  obtain ⟨⟨hprevious, hcurrent⟩, -⟩ := usablePair_ok hq
  rw [UsablePair.portfolioRatio, hprevious, hcurrent]

theorem mem_of_mem_pairwise {p : PerformancePoint × PerformancePoint}
    (h : p ∈ pairwise points) : p.1 ∈ points ∧ p.2 ∈ points := by
  obtain ⟨hfirst, hsecond⟩ := List.of_mem_zip (show (p.1, p.2) ∈ points.zip points.tail from h)
  exact ⟨hfirst, List.mem_of_mem_tail hsecond⟩

/-- No gaps where every day has a close and every point an equity. -/
theorem gapPairs_eq_nil (hequity : ∀ p ∈ points, p.equityCents ≠ 0)
    (hcloses : ∀ p ∈ points, ∃ c, closes.get? p.day = some c ∧ 0 < c) :
    gapPairs points closes = [] := by
  refine List.filter_eq_nil_iff.mpr fun p hp => ?_
  obtain ⟨hfirst, hsecond⟩ := mem_of_mem_pairwise hp
  obtain ⟨c, hc, hpos⟩ := hcloses p.1 hfirst
  obtain ⟨c', hc', hpos'⟩ := hcloses p.2 hsecond
  have := usablePair_isSome hc hc' ⟨hpos, hpos'⟩ (hequity p.1 hfirst)
  simpa using Option.isSome_iff_ne_none.mp this

/-- Without gaps the benchmark goes from its first close to its last. -/
theorem benchmarkFactor_ends {first last : PerformancePoint} {rest : List PerformancePoint}
    (hequity : ∀ p ∈ first :: rest, p.equityCents ≠ 0)
    (hcloses : ∀ p ∈ first :: rest, ∃ c, closes.get? p.day = some c ∧ 0 < c)
    (hlast : (first :: rest).getLast (List.cons_ne_nil first rest) = last) {c c' : ℚ}
    (hc : closes.get? first.day = some c) (hc' : closes.get? last.day = some c') :
    chainedFactor UsablePair.benchmarkRatio (usablePairs (first :: rest) closes).1 = c' / c := by
  let close := fun p : PerformancePoint => (closes.get? p.day).getD 1
  have hratios := Series.prod_ratios (f := close) (a := first) (l := rest) fun p hp => by
    obtain ⟨c, hc, hpos⟩ := hcloses p hp
    show (closes.get? p.day).getD 1 ≠ 0
    rw [hc]
    exact hpos.ne'
  have hends : close last / close first = c' / c := by
    show (closes.get? last.day).getD 1 / (closes.get? first.day).getD 1 = c' / c
    rw [hc, hc']
    rfl
  have hmul := @Series.prod_filterMap_mul _ ℚ _ _ (fun p => close p.2 / close p.1)
    UsablePair.benchmarkRatio (usablePair closes) (pairwise (first :: rest)) fun p _ q hq => by
      obtain ⟨-, hprevious, hcurrent⟩ := usablePair_ok hq
      show q.currentClose / q.previousClose =
        (closes.get? p.2.day).getD 1 / (closes.get? p.1.day).getD 1
      rw [hprevious, hcurrent]
      rfl
  have hgaps : (pairwise (first :: rest)).filter (fun p => (usablePair closes p).isNone) = [] :=
    gapPairs_eq_nil hequity hcloses
  rw [hgaps, List.map_nil, List.prod_nil, mul_one, hratios, hlast, hends] at hmul
  rw [chainedFactor_eq]
  exact hmul

theorem mem_of_mem_usablePairs {p : UsablePair} (h : p ∈ (usablePairs points closes).1) :
    p.previous ∈ points ∧ p.current ∈ points := by
  obtain ⟨q, hq, hp⟩ := List.mem_filterMap.mp h
  obtain ⟨⟨hprevious, hcurrent⟩, -⟩ := usablePair_ok hp
  rw [hprevious, hcurrent]
  exact mem_of_mem_pairwise hq

/-- A book that is fully invested is the benchmark, one that holds nothing does not move. -/
theorem exposureFactor_of_exposure {pairs : List UsablePair} :
    ((∀ p ∈ pairs, p.exposure = 1) →
        chainedFactor UsablePair.exposureRatio pairs =
          chainedFactor UsablePair.benchmarkRatio pairs) ∧
      ((∀ p ∈ pairs, p.exposure = 0) → chainedFactor UsablePair.exposureRatio pairs = 1) := by
  rw [chainedFactor_eq, chainedFactor_eq]
  constructor
  · intro h
    have hmap : pairs.map UsablePair.exposureRatio = pairs.map UsablePair.benchmarkRatio :=
      List.map_congr_left fun p hp => by
        rw [UsablePair.exposureRatio, h p hp]
        ring
    rw [hmap]
  · intro h
    refine List.prod_eq_one fun x hx => ?_
    obtain ⟨p, hp, rfl⟩ := List.mem_map.mp hx
    rw [UsablePair.exposureRatio, h p hp]
    ring

/-- The figures of a book with one point a day and something in it on every day: a session is
measured or a gap; the measured return and the gaps carry the first equity into the last; without
gaps the returns of the book and of the benchmark are those between the first day and the last; the
return at the exposure of the book is that of the benchmark where the book is fully invested, and
nothing where it is not; and the order that the points come in does not matter. -/
theorem calculatePerformance_accounts (hdays : (points.map PerformancePoint.day).Nodup)
    (hequity : ∀ p ∈ points, p.equityCents ≠ 0) {first last : PerformancePoint}
    (hfirst : first ∈ points ∧ ∀ p ∈ points, first.day ≤ p.day)
    (hlast : last ∈ points ∧ ∀ p ∈ points, p.day ≤ last.day) (rollingSessions : Nat) :
    let metrics := calculatePerformance points closes rollingSessions
    let gaps := gapPairs (orderedPoints points) closes
    metrics.performanceGapSessions = gaps.length ∧
      metrics.performanceSessions + metrics.performanceGapSessions + 1 = points.length ∧
      (1 + metrics.portfolioReturnPct / 100) *
        (gaps.map fun p => (p.2.equityCents / p.1.equityCents : ℚ)).prod =
          last.equityCents / first.equityCents ∧
      ((∀ p ∈ points, ∃ c, closes.get? p.day = some c ∧ 0 < c) →
        gaps = [] ∧ metrics.portfolioReturnPct = percent (last.equityCents / first.equityCents) ∧
          ∀ c c', closes.get? first.day = some c → closes.get? last.day = some c' →
            metrics.benchmarkReturnPct = percent (c' / c)) ∧
      ((∀ p ∈ points, p.longValueCents = p.equityCents) →
        metrics.exposureMatchedReturnPct = metrics.benchmarkReturnPct) ∧
      ((∀ p ∈ points, p.longValueCents = 0) →
        metrics.exposureMatchedReturnPct = 0 ∧
          metrics.excessReturnPct = metrics.portfolioReturnPct) ∧
      ∀ points', points'.Perm points →
        calculatePerformance points' closes rollingSessions = metrics := by
  obtain ⟨rest, hordered, hend⟩ := orderedPoints_ends hdays hfirst hlast
  obtain ⟨hportfolio, hbenchmark, hexposure, hexcess, hsessions, hgaps⟩ :=
    calculatePerformance_returns points closes rollingSessions
  have hmem : ∀ p, p ∈ first :: rest ↔ p ∈ points := fun p => by
    rw [← hordered, mem_orderedPoints]
  have hequity' : ∀ p ∈ first :: rest, p.equityCents ≠ 0 := fun p hp => hequity p ((hmem p).mp hp)
  have hchain := @portfolioFactor_mul_gaps closes first last rest hequity' hend
  have hexposures : ∀ k : ℚ, (∀ p ∈ points, (p.longValueCents : ℚ) = k * p.equityCents) →
      ∀ p ∈ (usablePairs (orderedPoints points) closes).1, p.exposure = k := by
    intro k hk p hp
    have hprevious := mem_orderedPoints.mp (mem_of_mem_usablePairs hp).1
    have hne : (p.previous.equityCents : ℚ) ≠ 0 := Int.cast_ne_zero.mpr p.equity_ne
    rw [UsablePair.exposure, hk _ hprevious, mul_div_assoc, div_self hne, mul_one]
  refine ⟨hgaps, ?_, ?_, fun hcloses => ?_, fun hfull => ?_, fun hnone => ?_, fun points' h => ?_⟩
  · rw [hsessions, hgaps]
    have hlength := usablePairs_length (orderedPoints points) closes
    have hpos : 0 < points.length := List.length_pos_of_mem hfirst.1
    rw [length_orderedPoints] at hlength
    exact_mod_cast (by omega : _ + _ + 1 = points.length)
  · rw [hportfolio, percent_div, hordered]
    exact hchain
  · have hcloses' : ∀ p ∈ first :: rest, ∃ c, closes.get? p.day = some c ∧ 0 < c :=
      fun p hp => hcloses p ((hmem p).mp hp)
    have hnil := gapPairs_eq_nil hequity' hcloses'
    rw [hnil, List.map_nil, List.prod_nil, mul_one] at hchain
    refine ⟨by rw [hordered]; exact hnil, by rw [hportfolio, hordered, hchain], ?_⟩
    intro c c' hc hc'
    rw [hbenchmark, hordered, benchmarkFactor_ends hequity' hcloses' hend hc hc']
  · rw [hexposure, hbenchmark]
    refine congrArg percent (exposureFactor_of_exposure.1 (hexposures 1 fun p hp => ?_))
    rw [hfull p hp, one_mul]
  · have hzero :
        (calculatePerformance points closes rollingSessions).exposureMatchedReturnPct = 0 := by
      rw [hexposure, exposureFactor_of_exposure.2 (hexposures 0 fun p hp => ?_)]
      · exact by norm_num [percent]
      · rw [hnone p hp, Int.cast_zero, zero_mul]
    exact ⟨hzero, by rw [hexcess, hzero, sub_zero]⟩
  · have hsorted : orderedPoints points' = orderedPoints points :=
      insertionSort_eq_of_perm h ((h.map PerformancePoint.day).nodup_iff.mpr hdays)
    show calculatePerformance points' closes rollingSessions =
      calculatePerformance points closes rollingSessions
    unfold calculatePerformance
    rw [hsorted]

/-- Three days that came in out of order, the last one without a close. -/
def threeDays : List PerformancePoint := [⟨12, 121000, 60500⟩, ⟨10, 100000, 50000⟩, ⟨11, 110000, 0⟩]

def twoCloses : Dict ℤ ℚ := ⟨[(10, 80), (11, 90)], by decide⟩

theorem calculatePerformance_accounts_threeDays :
    let metrics := calculatePerformance threeDays twoCloses 20
    metrics.performanceSessions + metrics.performanceGapSessions + 1 = (3 : Nat) ∧
      (1 + metrics.portfolioReturnPct / 100) * (121000 / 110000 * 1) = 121000 / 100000 := by
  obtain ⟨-, hsessions, hchain, -⟩ :=
    @calculatePerformance_accounts threeDays twoCloses (by decide) (by decide) ⟨10, 100000, 50000⟩
      ⟨12, 121000, 60500⟩ (by decide) (by decide) 20
  have hgaps : gapPairs (orderedPoints threeDays) twoCloses =
      [(⟨11, 110000, 0⟩, ⟨12, 121000, 60500⟩)] := by decide +kernel
  rw [hgaps] at hchain
  exact ⟨hsessions, by simpa using hchain⟩

/-- What is the worst relative fall of the equity from one day to a later one. -/
structure WorstFall (points : List PerformancePoint) (d : ℚ) : Prop where
  nonpos : d ≤ 0
  le : ∀ p ∈ points, ∀ q ∈ points, p.day < q.day →
    d ≤ (q.equityCents / p.equityCents : ℚ) - 1
  attained : d = 0 ∨ ∃ p ∈ points, ∃ q ∈ points, p.day < q.day ∧
    d = (q.equityCents / p.equityCents : ℚ) - 1

theorem worstFall_of_worst (hdays : (points.map PerformancePoint.day).Nodup) {d : ℚ}
    (h : Worst ((orderedPoints points).map fun p => (p.equityCents : ℚ)) d) :
    WorstFall points d := by
  refine ⟨h.nonpos, fun p hp q hq hlt => ?_, ?_⟩
  · have hpair := (pair_sublist_orderedPoints hdays).mpr ⟨hp, hq, hlt⟩
    exact h.le _ _ (hpair.map fun p : PerformancePoint => (p.equityCents : ℚ))
  · rcases h.attained with hzero | ⟨x, y, hxy, hd⟩
    · exact .inl hzero
    · obtain ⟨pair, hpair, hmap⟩ := List.sublist_map_iff.mp hxy
      match pair, hmap with
      | [p, q], hmap =>
        obtain ⟨hp, hq, hlt⟩ := (pair_sublist_orderedPoints hdays).mp hpair
        obtain ⟨rfl, rfl⟩ : x = p.equityCents ∧ y = q.equityCents := by simpa using hmap
        exact .inr ⟨p, hp, q, hq, hlt, hd⟩

/-- The drawdown of a book with one point a day that is never worth nothing: the worst relative fall
from one day to a later one, never a whole one; and zero where no return is measured. -/
theorem maxDrawdownPct_worst (hdays : (points.map PerformancePoint.day).Nodup)
    (hequity : ∀ p ∈ points, 0 < p.equityCents) (rollingSessions : Nat) :
    let metrics := calculatePerformance points closes rollingSessions
    (metrics.performanceSessions = 0 → metrics.maxDrawdownPct = 0) ∧
      (metrics.performanceSessions ≠ 0 →
        WorstFall points (metrics.maxDrawdownPct / 100) ∧ -100 < metrics.maxDrawdownPct) := by
  have hpos : ∀ x ∈ (orderedPoints points).map fun p => (p.equityCents : ℚ), 0 < x := by
    intro x hx
    obtain ⟨p, hp, rfl⟩ := List.mem_map.mp hx
    exact Int.cast_pos.mpr (hequity p (mem_orderedPoints.mp hp))
  have hworst := Series.worst_drawdown hpos
  have hfall := hworst.neg_one_lt hpos
  dsimp only
  rw [calculatePerformance_maxDrawdown points closes rollingSessions]
  refine ⟨fun hzero => if_pos hzero, fun hsome => ?_⟩
  rw [if_neg hsome, maxDrawdown, mul_div_cancel_right₀ _ (by norm_num : (100 : ℚ) ≠ 0)]
  exact ⟨worstFall_of_worst hdays hworst, by linarith⟩

/-- A rise and a deeper fall, out of order. -/
def fallingDays : List PerformancePoint :=
  [⟨12, 90000, 45000⟩, ⟨10, 100000, 50000⟩, ⟨13, 96000, 45000⟩, ⟨11, 120000, 0⟩]

def fourCloses : Dict ℤ ℚ := ⟨[(10, 80), (11, 90), (12, 85), (13, 88)], by decide⟩

theorem maxDrawdownPct_worst_fallingDays :
    let metrics := calculatePerformance fallingDays fourCloses 20
    metrics.maxDrawdownPct = -25 ∧ WorstFall fallingDays (metrics.maxDrawdownPct / 100) ∧
      -100 < metrics.maxDrawdownPct := by
  have hsessions : (calculatePerformance fallingDays fourCloses 20).performanceSessions ≠ 0 := by
    decide +kernel
  exact ⟨by decide +kernel,
    (@maxDrawdownPct_worst fallingDays fourCloses (by decide) (by decide) 20).2 hsessions⟩

end

end TradingAgents.Reporter
