import Mathlib.Tactic.Common

/-! Walks along a partial function, which may run in a cycle: the points after so many hops, and the
nearest of them that a search finds something at. -/

namespace TradingAgents.ProofKit

variable {α β : Type} {next : α → Option α} {pick : α → Option β}

/-- The point after `n` hops, if the walk goes that far. -/
def lineage (next : α → Option α) : Nat → α → Option α
  | 0, a => some a
  | n + 1, a => (next a).bind (lineage next n)

/-- What is found first in so many looks along a walk. -/
def nearest (next : α → Option α) (pick : α → Option β) : Nat → Option α → Option β
  | 0, _ => none
  | _ + 1, none => none
  | looks + 1, some a =>
    match pick a with
    | some b => some b
    | none => nearest next pick looks (next a)

theorem nearest_none (looks : Nat) : nearest next pick looks none = none := by
  cases looks <;> rfl

/-- What is found stands at a point within the looks, and nothing stands nearer. -/
theorem lineage_of_nearest {looks : Nat} {a : α} {b : β}
    (h : nearest next pick looks (some a) = some b) :
    ∃ n < looks, ∃ c, lineage next n a = some c ∧ pick c = some b ∧
      ∀ m < n, ∀ d, lineage next m a = some d → pick d = none := by
  induction looks generalizing a with
  | zero => cases h
  | succ looks ih =>
    unfold nearest at h
    split at h
    · rename_i found
      obtain rfl := Option.some.inj h
      exact ⟨0, Nat.zero_lt_succ looks, a, rfl, found, nofun⟩
    · rename_i hnone
      cases hnext : next a with
      | none =>
        rw [hnext, nearest_none] at h
        cases h
      | some a' =>
        rw [hnext] at h
        obtain ⟨n, hn, c, hc, hpick, hnearer⟩ := ih h
        refine ⟨n + 1, Nat.succ_lt_succ hn, c, ?_, hpick, fun m hm d hd => ?_⟩
        · rw [lineage, hnext]
          exact hc
        · cases m with
          | zero =>
            obtain rfl := Option.some.inj hd
            exact hnone
          | succ m =>
            rw [lineage, hnext] at hd
            exact hnearer m (Nat.lt_of_succ_lt_succ hm) d hd

/-- Nothing is found where nothing stands within the looks. -/
theorem nearest_eq_none {looks : Nat} {a : α} :
    nearest next pick looks (some a) = none ↔
      ∀ n < looks, ∀ c, lineage next n a = some c → pick c = none := by
  induction looks generalizing a with
  | zero => exact ⟨fun _ => nofun, fun _ => rfl⟩
  | succ looks ih =>
    unfold nearest
    constructor
    · intro h n hn c hc
      split at h
      · cases h
      · rename_i hnone
        cases n with
        | zero =>
          obtain rfl := Option.some.inj hc
          exact hnone
        | succ n =>
          rw [lineage] at hc
          obtain ⟨a', hnext, hc⟩ := Option.bind_eq_some_iff.mp hc
          rw [hnext] at h
          exact ih.mp h n (Nat.lt_of_succ_lt_succ hn) c hc
    · intro h
      rw [h 0 (Nat.zero_lt_succ looks) a rfl]
      cases hnext : next a with
      | none => exact nearest_none looks
      | some a' =>
        refine ih.mpr fun n hn c hc => h (n + 1) (Nat.succ_lt_succ hn) c ?_
        rw [lineage, hnext]
        exact hc

end TradingAgents.ProofKit
