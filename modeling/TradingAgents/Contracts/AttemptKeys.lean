import TradingAgents.ProofKit.FreshOrdinal
import TradingAgents.ProofKit.Text

/-! Attempt keys: a base key, and the base with a numbered suffix for each later attempt.  The Fill
attempts of a broker key and the stop orders of a position count their attempts this way, each on
its own. -/

namespace TradingAgents

open ProofKit

def attemptSeparator : String := "#"

/-- The key of the attempt with an ordinal: the base key for the first one. -/
def attemptKey (base : String) (ordinal : Nat) : String :=
  if ordinal = 0 then base else base ++ attemptSeparator ++ toString ordinal

@[simp] theorem attemptKey_zero (base : String) : attemptKey base 0 = base := rfl

theorem attemptKey_injective (base : String) : Function.Injective (attemptKey base) := by
  have longer : ∀ n : Nat, base ≠ base ++ attemptSeparator ++ toString n := by
    intro n h
    have hl := congrArg (fun s => s.toList.length) h
    simp [attemptSeparator, String.toList_append] at hl
  intro m n h
  unfold attemptKey at h
  split at h <;> split at h
  · omega
  · exact (longer n h).elim
  · exact (longer m h.symm).elim
  · have hl := congrArg String.toList h
    simp only [String.toList_append, List.append_assoc, List.append_cancel_left_eq] at hl
    exact Text.repr_injective (String.toList_inj.mp hl)

/-- Of the attempts up to the number of keys in use one has a free key. -/
theorem exists_free_attempt (base : String) (used : List String) :
    ∃ n ≤ used.length, attemptKey base n ∉ used :=
  exists_fresh (attemptKey base) (attemptKey_injective base) used

end TradingAgents
