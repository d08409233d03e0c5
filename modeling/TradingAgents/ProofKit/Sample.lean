import Mathlib

/-! Figures of a sample of numbers in an ordered field. -/

namespace TradingAgents.ProofKit.Sample

variable {K : Type} [Field K]

def average (xs : List K) : K := xs.sum / xs.length

/-- The average, none of an empty sample. -/
def mean (xs : List K) : Option K := if xs = [] then none else some (average xs)

theorem average_perm {xs ys : List K} (h : xs.Perm ys) : average xs = average ys := by
  rw [average, average, h.sum_eq, h.length_eq]

section

variable [LinearOrder K]

/-- The median, none of an empty sample. -/
def median (xs : List K) : Option K :=
  let sorted := xs.insertionSort (· ≤ ·)
  let n := xs.length
  if n % 2 = 1 then sorted[n / 2]?
  else do
    let low ← sorted[n / 2 - 1]?
    let high ← sorted[n / 2]?
    pure ((low + high) / 2)

theorem exists_median {xs : List K} (h : xs ≠ []) : ∃ x, median xs = some x := by
  have hpos := List.length_pos_iff_ne_nil.mpr h
  have hget : ∀ i < xs.length, ∃ x, (xs.insertionSort (· ≤ ·))[i]? = some x := fun i hi =>
    ⟨_, List.getElem?_eq_getElem (by rwa [List.length_insertionSort])⟩
  unfold median
  dsimp only
  obtain ⟨low, hlow⟩ := hget (xs.length / 2 - 1) (by omega)
  obtain ⟨high, hhigh⟩ := hget (xs.length / 2) (by omega)
  split
  · exact ⟨high, hhigh⟩
  · rw [hlow, hhigh]
    exact ⟨_, rfl⟩

end

end TradingAgents.ProofKit.Sample
