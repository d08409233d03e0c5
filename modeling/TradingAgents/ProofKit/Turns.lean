import Mathlib

/-! Histories that open and close in turn: each opening is directly followed by the one event that
closes it, and the last opening may still be open. -/

namespace TradingAgents.ProofKit

variable {α : Type} {opens : α → Prop} {closes : α → α → Prop}

/-- Events in turn, with the opening that nothing has closed yet. -/
inductive InTurn (opens : α → Prop) (closes : α → α → Prop) : List α → Option α → Prop
  | nil : InTurn opens closes [] none
  | opened {events : List α} {a : α} : InTurn opens closes events none → opens a →
      InTurn opens closes (events ++ [a]) (some a)
  | closed {events : List α} {a b : α} : InTurn opens closes events (some a) → closes a b →
      InTurn opens closes (events ++ [b]) none

namespace InTurn

variable {events : List α} {last : Option α}

theorem opens_last {a : α} (h : InTurn opens closes events (some a)) : opens a := by
  cases h with
  | opened _ ha => exact ha

/-- The events are pairs of an opening and what closes it, and then the opening still open. -/
theorem pairs (h : InTurn opens closes events last) : ∃ closed : List (α × α),
    events = closed.flatMap (fun p => [p.1, p.2]) ++ last.toList ∧
      ∀ p ∈ closed, opens p.1 ∧ closes p.1 p.2 := by
  induction h with
  | nil => exact ⟨[], rfl, by simp⟩
  | opened _ _ ih =>
    obtain ⟨closed, rfl, hclosed⟩ := ih
    exact ⟨closed, by simp, hclosed⟩
  | @closed _ a b hopen hab ih =>
    obtain ⟨closed, rfl, hclosed⟩ := ih
    refine ⟨closed ++ [(a, b)], by simp, fun p hp => ?_⟩
    rcases List.mem_append.mp hp with hp | hp
    · exact hclosed p hp
    · rw [List.mem_singleton.mp hp]
      exact ⟨hopen.opens_last, hab⟩

/-- Where closing undoes a weight, only the opening still open weighs. -/
theorem sum_map (w : α → Int) (hw : ∀ a b, closes a b → w a + w b = 0)
    (h : InTurn opens closes events last) :
    (events.map w).sum = (last.map w).getD 0 := by
  induction h with
  | nil => rfl
  | opened _ _ ih =>
    rw [List.map_append, List.sum_append, ih]
    simp
  | closed _ hab ih =>
    rw [List.map_append, List.sum_append, ih]
    simpa using hw _ _ hab

end InTurn

end TradingAgents.ProofKit
