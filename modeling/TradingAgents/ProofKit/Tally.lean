import Mathlib
import TradingAgents.ProofKit.Dict

/-! A tally of what has been seen: each key with the number of its occurrences, in the order in
which the keys came. -/

namespace TradingAgents.ProofKit

variable {α κ : Type} [DecidableEq κ]

namespace Dict

/-- The sum of all values. -/
def total (d : Dict κ Nat) : Nat := (d.entries.map Prod.snd).sum

theorem sum_setEntries (l : List (κ × Nat)) (k : κ) (n : Nat) :
    ((setEntries k n l).map Prod.snd).sum + (l.lookup k).getD 0 = (l.map Prod.snd).sum + n := by
  induction l with
  | nil => simp [setEntries]
  | cons p l ih =>
    obtain ⟨k', n'⟩ := p
    rw [lookup_cons]
    by_cases h : k' = k
    · simp only [setEntries, h, if_true, List.map_cons, List.sum_cons, Option.getD_some]
      omega
    · simp only [setEntries, h, Ne.symm h, if_false, List.map_cons, List.sum_cons]
      omega

theorem total_set (d : Dict κ Nat) (k : κ) (n : Nat) :
    (d.set k n).total + (d.get? k).getD 0 = d.total + n := sum_setEntries d.entries k n

end Dict

/-- One more occurrence of a key. -/
def tally (d : Dict κ Nat) (k : κ) : Dict κ Nat := d.set k ((d.get? k).getD 0 + 1)

theorem total_tally (d : Dict κ Nat) (k : κ) : (tally d k).total = d.total + 1 := by
  have hset := d.total_set k ((d.get? k).getD 0 + 1)
  rw [tally]
  omega

/-- The occurrences of a key among those of a list, on top of what was tallied before. -/
theorem getD_foldl_tally (d : Dict κ Nat) (l : List κ) (k : κ) :
    ((l.foldl tally d).get? k).getD 0 = (d.get? k).getD 0 + l.count k := by
  induction l generalizing d with
  | nil => simp
  | cons k' l ih =>
    rw [List.foldl_cons, ih, tally, Dict.get?_set, List.count_cons]
    by_cases h : k = k'
    · simp only [h, if_true, Option.getD_some, beq_self_eq_true]
      omega
    · simp [h, Ne.symm h]

theorem total_foldl_tally (d : Dict κ Nat) (l : List κ) :
    (l.foldl tally d).total = d.total + l.length := by
  induction l generalizing d with
  | nil => rfl
  | cons k l ih =>
    rw [List.foldl_cons, ih, total_tally, List.length_cons]
    omega

end TradingAgents.ProofKit
