import Mathlib

/-! The mean of numbers under weights.  Where no weight is negative and some weight is positive, it
lies between any bounds of the numbers, and it rises with them. -/

namespace TradingAgents.ProofKit.WeightedMean

variable {R : Type} [Field R]

/-- The sum of the numbers, each times its weight. -/
def weighted (l : List (R × R)) : R := (l.map fun p => p.1 * p.2).sum

/-- The sum of the weights. -/
def weight (l : List (R × R)) : R := (l.map Prod.fst).sum

/-- The mean of the numbers under their weights. -/
def mean (l : List (R × R)) : R := weighted l / weight l

@[simp] theorem weighted_nil : weighted ([] : List (R × R)) = 0 := rfl

@[simp] theorem weight_nil : weight ([] : List (R × R)) = 0 := rfl

@[simp] theorem weighted_cons (p : R × R) (l : List (R × R)) :
    weighted (p :: l) = p.1 * p.2 + weighted l :=
  List.sum_cons

@[simp] theorem weight_cons (p : R × R) (l : List (R × R)) : weight (p :: l) = p.1 + weight l :=
  List.sum_cons

theorem weighted_append (l l' : List (R × R)) : weighted (l ++ l') = weighted l + weighted l' := by
  rw [weighted, List.map_append, List.sum_append]
  rfl

theorem weight_append (l l' : List (R × R)) : weight (l ++ l') = weight l + weight l' := by
  rw [weight, List.map_append, List.sum_append]
  rfl

variable [LinearOrder R] [IsStrictOrderedRing R] {l l' : List (R × R)} {low high : R}

theorem weight_nonneg (h : ∀ p ∈ l, 0 ≤ p.1) : 0 ≤ weight l := by
  induction l with
  | nil => exact le_rfl
  | cons p l ih =>
    rw [weight_cons]
    exact add_nonneg (h p List.mem_cons_self) (ih fun q hq => h q (List.mem_cons_of_mem _ hq))

theorem weighted_le (h : ∀ p ∈ l, 0 ≤ p.1 ∧ p.2 ≤ high) : weighted l ≤ weight l * high := by
  induction l with
  | nil => simp
  | cons p l ih =>
    obtain ⟨hp, hhigh⟩ := h p List.mem_cons_self
    have hrest := ih fun q hq => h q (List.mem_cons_of_mem _ hq)
    have hfirst := mul_le_mul_of_nonneg_left hhigh hp
    rw [weighted_cons, weight_cons, add_mul]
    exact add_le_add hfirst hrest

theorem le_weighted (h : ∀ p ∈ l, 0 ≤ p.1 ∧ low ≤ p.2) : weight l * low ≤ weighted l := by
  induction l with
  | nil => simp
  | cons p l ih =>
    obtain ⟨hp, hlow⟩ := h p List.mem_cons_self
    have hrest := ih fun q hq => h q (List.mem_cons_of_mem _ hq)
    have hfirst := mul_le_mul_of_nonneg_left hlow hp
    rw [weighted_cons, weight_cons, add_mul]
    exact add_le_add hfirst hrest

/-- A mean lies between the bounds of its numbers. -/
theorem mean_between (hpos : 0 < weight l) (h : ∀ p ∈ l, 0 ≤ p.1 ∧ low ≤ p.2 ∧ p.2 ≤ high) :
    low ≤ mean l ∧ mean l ≤ high := by
  constructor
  · rw [mean, le_div_iff₀ hpos, mul_comm]
    exact le_weighted fun p hp => ⟨(h p hp).1, (h p hp).2.1⟩
  · rw [mean, div_le_iff₀ hpos, mul_comm]
    exact weighted_le fun p hp => ⟨(h p hp).1, (h p hp).2.2⟩

omit [LinearOrder R] [IsStrictOrderedRing R] in
/-- The mean of numbers that weigh the same. -/
theorem mean_ones (l : List R) : mean (l.map fun v => (1, v)) = l.sum / l.length := by
  have hweighted : weighted (l.map fun v => (1, v)) = l.sum := by
    rw [weighted, List.map_map]
    congr 1
    conv_rhs => rw [← List.map_id l]
    exact List.map_congr_left fun v _ => one_mul v
  have hweight : weight (l.map fun v => (1, v)) = (l.length : R) := by
    rw [weight, List.map_map]
    show (l.map fun _ => (1 : R)).sum = _
    rw [List.map_const', List.sum_replicate, nsmul_one]
  rw [mean, hweighted, hweight]

/-- The mean of some numbers lies between their bounds. -/
theorem average_between {values : List R} (hsome : values ≠ [])
    (h : ∀ v ∈ values, low ≤ v ∧ v ≤ high) :
    low ≤ values.sum / values.length ∧ values.sum / values.length ≤ high := by
  have hpos : 0 < weight (values.map fun v => ((1 : R), v)) := by
    cases values with
    | nil => exact absurd rfl hsome
    | cons v values =>
      rw [List.map_cons, weight_cons]
      apply add_pos_of_pos_of_nonneg one_pos
      apply weight_nonneg
      intro p hp
      obtain ⟨v, -, rfl⟩ := List.mem_map.mp hp
      exact zero_le_one
  rw [← mean_ones]
  apply mean_between hpos
  intro p hp
  obtain ⟨v, hv, rfl⟩ := List.mem_map.mp hp
  exact ⟨zero_le_one, h v hv⟩

/-- The same weights, and numbers that are at least as large. -/
def Rises (l l' : List (R × R)) : Prop :=
  List.Forall₂ (fun p q => p.1 = q.1 ∧ 0 ≤ p.1 ∧ p.2 ≤ q.2) l l'

omit [IsStrictOrderedRing R] in
theorem Rises.weight_eq (h : Rises l l') : weight l = weight l' := by
  induction h with
  | nil => rfl
  | cons hp _ ih => rw [weight_cons, weight_cons, hp.1, ih]

theorem Rises.weighted_le (h : Rises l l') : weighted l ≤ weighted l' := by
  induction h with
  | nil => exact le_rfl
  | cons hp _ ih =>
    obtain ⟨hsame, hnonneg, hle⟩ := hp
    rw [weighted_cons, weighted_cons, ← hsame]
    exact add_le_add (mul_le_mul_of_nonneg_left hle hnonneg) ih

theorem Rises.weight_nonneg (h : Rises l l') : 0 ≤ weight l := by
  induction h with
  | nil => exact le_rfl
  | cons hp _ ih =>
    rw [weight_cons]
    exact add_nonneg hp.2.1 ih

/-- A mean rises with its numbers. -/
theorem Rises.mean_le (h : Rises l l') : mean l ≤ mean l' := by
  rw [mean, mean, ← h.weight_eq]
  exact div_le_div_of_nonneg_right h.weighted_le h.weight_nonneg

end TradingAgents.ProofKit.WeightedMean
