import Mathlib.Data.List.Nodup
import Mathlib.Data.List.Induction
import Mathlib.Data.List.Perm.Subperm
import Mathlib.Tactic.Common

/-! The search for the first ordinal with a property, with a bound under which one exists, and the
bound for the search of a free name: of one more distinct names than there are names in use, one is
free. -/

namespace TradingAgents.ProofKit

/-- The first `n < bound` with `p n`, else `bound`. -/
def firstOrdinal (bound : Nat) (p : Nat → Bool) : Nat := ((List.range bound).find? p).getD bound

theorem firstOrdinal_spec {bound : Nat} {p : Nat → Bool} (h : ∃ n ≤ bound, p n = true) :
    p (firstOrdinal bound p) = true ∧ ∀ m < firstOrdinal bound p, p m = false := by
  unfold firstOrdinal
  cases hf : (List.range bound).find? p with
  | none =>
    have hnone : ∀ m < bound, p m = false := by simpa using hf
    obtain ⟨n, hn, hp⟩ := h
    rcases Nat.lt_or_eq_of_le hn with hlt | rfl
    · rw [hnone n hlt] at hp; cases hp
    · exact ⟨hp, hnone⟩
  | some n =>
    obtain ⟨hp, -, hmin⟩ := List.find?_range_eq_some.mp hf
    exact ⟨hp, fun m hm => by simpa using hmin m hm⟩

/-- Of the names `f 0` to `f n` one is not among `n` names in use. -/
theorem exists_fresh {κ : Type} (f : Nat → κ) (hf : Function.Injective f) (used : List κ) :
    ∃ n ≤ used.length, f n ∉ used := by
  by_contra hall
  have hall : ∀ n ≤ used.length, f n ∈ used := by
    intro n hn
    by_contra hfree
    exact hall ⟨n, hn, hfree⟩
  have hnodup : ((List.range (used.length + 1)).map f).Nodup := List.Nodup.map hf List.nodup_range
  have hsub : (List.range (used.length + 1)).map f ⊆ used := by
    intro k hk
    obtain ⟨n, hn, rfl⟩ := List.mem_map.mp hk
    exact hall n (by have := List.mem_range.mp hn; omega)
  have hlen := (hnodup.subperm hsub).length_le
  simp only [List.length_map, List.length_range] at hlen
  omega

/-- Rising numbers that leave no smaller one out are those below their count. -/
theorem eq_range_of_rising {l : List Nat} (hrising : l.Pairwise (· < ·))
    (hbelow : ∀ n ∈ l, ∀ m < n, m ∈ l) : l = List.range l.length := by
  induction l using List.reverseRecOn with
  | nil => rfl
  | append_singleton l last ih =>
    obtain ⟨hl, -, hlast⟩ := List.pairwise_append.mp hrising
    have hlt : ∀ n ∈ l, n < last := fun n hn => hlast n hn last (List.mem_singleton_self last)
    have hrange : l = List.range l.length := by
      apply ih hl
      intro n hn m hm
      rcases List.mem_append.mp (hbelow n (by simp [hn]) m hm) with hmem | hmem
      · exact hmem
      · have := hlt n hn
        have := List.mem_singleton.mp hmem
        omega
    have hmem : ∀ n, n ∈ l ↔ n < l.length := fun n => by
      conv_lhs => rw [hrange]
      exact List.mem_range
    have hend : last = l.length := by
      apply Nat.le_antisymm
      · by_contra hgap
        rcases List.mem_append.mp (hbelow last (by simp) l.length (by omega)) with h | h
        · have := (hmem _).mp h
          omega
        · have := List.mem_singleton.mp h
          omega
      · rcases Nat.eq_zero_or_pos l.length with hzero | hpos
        · omega
        · have := hlt (l.length - 1) ((hmem _).mpr (by omega))
          omega
    rw [List.length_append, List.length_singleton, List.range_succ, ← hrange, hend]

end TradingAgents.ProofKit
