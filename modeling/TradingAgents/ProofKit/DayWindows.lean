import Mathlib.Data.List.Range
import Mathlib.Order.Bounds.Basic
import Mathlib.Tactic.Ring

/-! Counts of the marked days of a line: the days after one day and up to another, and the shortest
window back from a day that holds a number of them. -/

namespace TradingAgents.ProofKit

/-- The number of marked days after `after` and up to `through`. -/
def countBetween (p : ℤ → Bool) (after through : ℤ) : Nat :=
  (List.range (through - after).toNat).countP fun i : Nat => p (after + 1 + i)

/-- The number of marked days in the window that starts `days` before `through`. -/
def countBack (p : ℤ → Bool) (through : ℤ) (days : Nat) : Nat :=
  countBetween p (through - days - 1) through

variable {p : ℤ → Bool} {through : ℤ} {n : Nat}

theorem countBetween_self (p : ℤ → Bool) (day : ℤ) : countBetween p day day = 0 := by
  simp [countBetween]

/-- One day more at the front. -/
theorem countBetween_pred {after : ℤ} (h : after ≤ through) :
    countBetween p (after - 1) through =
      countBetween p after through + if p after then 1 else 0 := by
  have hlength : (through - (after - 1)).toNat = (through - after).toNat + 1 := by omega
  have hshift : ∀ i : Nat, after - 1 + 1 + ((i + 1 : Nat) : ℤ) = after + 1 + i := by
    intro i
    push_cast
    ring
  have hfirst : after - 1 + 1 + ((0 : Nat) : ℤ) = after := by
    push_cast
    ring
  unfold countBetween
  rw [hlength, List.range_succ_eq_map, List.countP_cons, List.countP_map, hfirst]
  congr 1
  refine List.countP_congr fun i _ => ?_
  simp only [Function.comp_apply, Nat.succ_eq_add_one, hshift]

theorem countBack_succ (p : ℤ → Bool) (through : ℤ) (days : Nat) :
    countBack p through (days + 1) =
      countBack p through days + if p (through - (days + 1 : Nat)) then 1 else 0 := by
  have hstart : through - ((days : ℤ)) - 1 = through - ((days + 1 : Nat) : ℤ) := by
    push_cast
    ring
  have hpred : countBetween p (through - ((days + 1 : Nat) : ℤ) - 1) through =
      countBetween p (through - ((days + 1 : Nat) : ℤ)) through +
        if p (through - ((days + 1 : Nat) : ℤ)) then 1 else 0 :=
    countBetween_pred (by omega)
  rw [countBack, hpred, countBack, hstart]

/-- A longer window holds no fewer. -/
theorem countBack_mono (p : ℤ → Bool) (through : ℤ) : Monotone (countBack p through) :=
  monotone_nat_of_le_succ fun days => by
    rw [countBack_succ]
    exact Nat.le_add_right _ _

/-- Where marked days have no first, some window holds any number of them. -/
theorem exists_countBack (h : ∀ day, ∃ earlier < day, p earlier = true) (through : ℤ) (n : Nat) :
    ∃ days, n ≤ countBack p through days := by
  induction n with
  | zero => exact ⟨0, Nat.zero_le _⟩
  | succ n ih =>
    obtain ⟨days, hdays⟩ := ih
    obtain ⟨earlier, hlt, hmarked⟩ := h (through - days)
    -- the window that starts at the earlier day holds one more
    obtain ⟨more, hmore⟩ : ∃ more : Nat, through - ((more + 1 : Nat) : ℤ) = earlier :=
      ⟨(through - earlier).toNat - 1, by omega⟩
    refine ⟨more + 1, ?_⟩
    have hle := countBack_mono p through (show days ≤ more by omega)
    rw [countBack_succ, hmore, if_pos hmarked]
    omega

end TradingAgents.ProofKit
