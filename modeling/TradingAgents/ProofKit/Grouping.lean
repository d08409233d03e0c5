import Mathlib.Data.List.Dedup
import Mathlib.Data.List.Induction
import TradingAgents.ProofKit.Dict

/-! Elements grouped by a key in an insertion-ordered dictionary: what a group holds, and the order
in which the groups come. -/

namespace TradingAgents.ProofKit

variable {α κ ν : Type} [DecidableEq κ]

/-- Each value at the end of the group of its key. -/
def groupBy (key : α → κ) (value : α → ν) (l : List α) : Dict κ (List ν) :=
  l.foldl (fun groups a => groups.set (key a) ((groups.get? (key a)).getD [] ++ [value a])) .empty

variable {key : α → κ} {value : α → ν}

theorem groupBy_append (l : List α) (a : α) : groupBy key value (l ++ [a]) =
    (groupBy key value l).set (key a)
      (((groupBy key value l).get? (key a)).getD [] ++ [value a]) := by
  unfold groupBy
  rw [List.foldl_concat]

/-- A group holds the values of its key, in their order. -/
theorem getD_groupBy (l : List α) (k : κ) : ((groupBy key value l).get? k).getD [] =
    (l.filter fun a => decide (key a = k)).map value := by
  induction l using List.reverseRecOn with
  | nil => rfl
  | append_singleton l a ih =>
    rw [groupBy_append, Dict.get?_set, List.filter_append, List.map_append]
    split
    · rename_i hk
      subst hk
      rw [Option.getD_some, ih]
      simp
    · rename_i hk
      rw [ih]
      simp [Ne.symm hk]

/-- The groups come in the order in which their keys come first. -/
theorem keys_groupBy (l : List α) :
    (groupBy key value l).keys = (l.map key).reverse.dedup.reverse := by
  induction l using List.reverseRecOn with
  | nil => rfl
  | append_singleton l a ih =>
    rw [groupBy_append, Dict.keys_set, List.map_append, List.reverse_append]
    simp only [List.map_cons, List.map_nil, List.reverse_singleton, List.singleton_append]
    by_cases hmem : key a ∈ l.map key
    · rw [List.dedup_cons_of_mem (List.mem_reverse.mpr hmem), if_pos, ih]
      rw [ih]
      simpa using hmem
    · rw [List.dedup_cons_of_notMem (by simpa using hmem), if_neg, ih, List.reverse_cons]
      rw [ih]
      simpa using hmem

theorem mem_keys_groupBy {l : List α} {k : κ} :
    k ∈ (groupBy key value l).keys ↔ ∃ a ∈ l, key a = k := by
  rw [keys_groupBy]
  simp

end TradingAgents.ProofKit
