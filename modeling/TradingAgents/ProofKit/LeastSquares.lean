import TradingAgents.ProofKit.Sample

/-! The line of least squares through a sample, in an ordered field.  The sum of the squared
residuals of any line splits into three squares, of which the slope and the intercept each make one
vanish. -/

namespace TradingAgents.ProofKit.LeastSquares

variable {α K : Type} [Field K] [LinearOrder K] [IsStrictOrderedRing K] {l : List α} {x y : α → K}

def mean (l : List α) (x : α → K) : K := Sample.average (l.map x)

/-- The sum of the products of the deviations of two quantities from their means. -/
def spread (l : List α) (x y : α → K) : K :=
  (l.map fun a => (x a - mean l x) * (y a - mean l y)).sum

/-- The sum of the squared residuals of a line. -/
def residual (l : List α) (x y : α → K) (slope intercept : K) : K :=
  (l.map fun a => (y a - (slope * x a + intercept)) ^ 2).sum

theorem sum_sub_const (l : List α) (x : α → K) (c : K) :
    (l.map fun a => x a - c).sum = (l.map x).sum - l.length * c := by
  induction l with
  | nil => simp
  | cons a l ih =>
    simp only [List.map_cons, List.sum_cons, List.length_cons, ih]
    push_cast
    ring

theorem sum_deviation (h : l ≠ []) (x : α → K) : (l.map fun a => x a - mean l x).sum = 0 := by
  have hlength : (l.length : K) ≠ 0 := by
    have hpos := List.length_pos_iff_ne_nil.mpr h
    exact_mod_cast hpos.ne'
  rw [sum_sub_const, mean, Sample.average, List.length_map]
  field_simp
  ring

/-- A square of a difference, summed. -/
theorem sum_sub_smul_sq (l : List α) (u v : α → K) (s e : K) :
    (l.map fun a => (v a - s * u a + e) ^ 2).sum =
      (l.map fun a => v a * v a).sum - 2 * s * (l.map fun a => u a * v a).sum +
        s ^ 2 * (l.map fun a => u a * u a).sum + 2 * e * (l.map v).sum -
        2 * s * e * (l.map u).sum + l.length * e ^ 2 := by
  induction l with
  | nil => simp
  | cons a l ih =>
    simp only [List.map_cons, List.sum_cons, List.length_cons, ih]
    push_cast
    ring

/-- The residual of a line, by its slope and by what it misses at the means. -/
theorem residual_eq (h : l ≠ []) (slope intercept : K) : residual l x y slope intercept =
    spread l y y - 2 * slope * spread l x y + slope ^ 2 * spread l x x +
      l.length * (mean l y - (slope * mean l x + intercept)) ^ 2 := by
  have hcenter : residual l x y slope intercept = (l.map fun a =>
      ((y a - mean l y) - slope * (x a - mean l x) +
        (mean l y - (slope * mean l x + intercept))) ^ 2).sum := by
    unfold residual
    congr 1
    apply List.map_congr_left
    intro a _
    ring
  rw [hcenter, sum_sub_smul_sq, sum_deviation h, sum_deviation h, spread, spread, spread]
  ring

theorem sum_sq_nonneg (l : List α) (u : α → K) : 0 ≤ (l.map fun a => u a * u a).sum := by
  apply List.sum_nonneg
  intro v hv
  obtain ⟨a, -, rfl⟩ := List.mem_map.mp hv
  exact mul_self_nonneg _

theorem spread_self_nonneg (l : List α) (x : α → K) : 0 ≤ spread l x x := sum_sq_nonneg l _

theorem sum_sq_eq_zero {u : α → K} :
    (l.map fun a => u a * u a).sum = 0 ↔ ∀ a ∈ l, u a = 0 := by
  induction l with
  | nil => simp
  | cons a l ih =>
    have hrest := sum_sq_nonneg l u
    have hfirst := mul_self_nonneg (u a)
    rw [List.map_cons, List.sum_cons, List.forall_mem_cons, ← ih, ← mul_self_eq_zero (a := u a)]
    constructor
    · intro h
      constructor <;> linarith
    · rintro ⟨h, h'⟩
      rw [h, h', add_zero]

/-- Nothing is spread exactly when all values are one. -/
theorem spread_self_eq_zero : spread l x x = 0 ↔ ∀ a ∈ l, ∀ b ∈ l, x a = x b := by
  rw [spread, sum_sq_eq_zero]
  constructor
  · intro h a ha b hb
    rw [sub_eq_zero.mp (h a ha), sub_eq_zero.mp (h b hb)]
  · intro h a ha
    have hsame : l.map x = List.replicate l.length (x a) := by
      rw [List.eq_replicate_iff]
      refine ⟨List.length_map x, fun v hv => ?_⟩
      obtain ⟨b, hb, rfl⟩ := List.mem_map.mp hv
      exact h b hb a ha
    have hlength : (l.length : K) ≠ 0 := by
      have hpos := List.length_pos_of_mem ha
      exact_mod_cast hpos.ne'
    rw [mean, hsame, Sample.average, List.length_replicate, List.sum_replicate, nsmul_eq_mul]
    field_simp
    ring

/-- The slope of the line of least squares. -/
def slope (l : List α) (x y : α → K) : K := spread l x y / spread l x x

/-- The line of least squares is the only line with the least residual. -/
theorem residual_slope (hx : spread l x x ≠ 0) (s c : K) :
    residual l x y (slope l x y) (mean l y - slope l x y * mean l x) ≤ residual l x y s c ∧
    (residual l x y s c = residual l x y (slope l x y) (mean l y - slope l x y * mean l x) →
      s = slope l x y ∧ c = mean l y - slope l x y * mean l x) := by
  have hne : l ≠ [] := by
    rintro rfl
    exact hx rfl
  have hlength : (0 : K) < l.length := by
    exact_mod_cast List.length_pos_iff_ne_nil.mpr hne
  have hpos : 0 < spread l x x := lt_of_le_of_ne (spread_self_nonneg l x) (Ne.symm hx)
  have hslope : spread l x y = slope l x y * spread l x x := by
    rw [slope]
    field_simp
  -- what another line misses: its slope and its height at the means
  have hmissed : residual l x y s c =
      residual l x y (slope l x y) (mean l y - slope l x y * mean l x) +
        spread l x x * (s - slope l x y) ^ 2 +
        l.length * (mean l y - (s * mean l x + c)) ^ 2 := by
    rw [residual_eq hne, residual_eq hne, hslope]
    ring
  have htilt := mul_nonneg hpos.le (sq_nonneg (s - slope l x y))
  have hheight := mul_nonneg hlength.le (sq_nonneg (mean l y - (s * mean l x + c)))
  refine ⟨by linarith, fun hsame => ?_⟩
  have htilt' : spread l x x * (s - slope l x y) ^ 2 = 0 := by linarith
  have hheight' : l.length * (mean l y - (s * mean l x + c)) ^ 2 = 0 := by linarith
  have hs : s = slope l x y := by
    rw [mul_eq_zero, or_iff_right hx, sq_eq_zero_iff, sub_eq_zero] at htilt'
    exact htilt'
  rw [mul_eq_zero, or_iff_right hlength.ne', sq_eq_zero_iff, hs] at hheight'
  exact ⟨hs, by linarith⟩

end TradingAgents.ProofKit.LeastSquares
