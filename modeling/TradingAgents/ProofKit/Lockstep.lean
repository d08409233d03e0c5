import Mathlib

/-! Machines that go through one plan in lockstep: each step of the plan is taken by every machine
whose step it is, before any machine takes the next.  Every machine ends where it ends when it takes
its own steps alone, and what the steps cost adds up over the machines. -/

namespace TradingAgents.ProofKit.Lockstep

variable {σ ι M : Type} [AddCommMonoid M] {f : σ → ι → σ} {cost : σ → ι → M} {plan : List ι}
  {machines : List σ}

/-- The machines after the steps of the plan. -/
def together (f : σ → ι → σ) (plan : List ι) (machines : List σ) : List σ :=
  plan.foldl (fun ms i => ms.map (f · i)) machines

/-- What the steps of the plan cost one machine. -/
def spent (f : σ → ι → σ) (cost : σ → ι → M) : List ι → σ → M
  | [], _ => 0
  | i :: plan, s => cost s i + spent f cost plan (f s i)

theorem together_eq_map : together f plan machines = machines.map (plan.foldl f ·) := by
  induction plan generalizing machines with
  | nil => simp [together]
  | cons i plan ih =>
    show together f plan (machines.map (f · i)) = _
    rw [ih, List.map_map]
    rfl

/-- The cost of the first step of all machines, and of what they do after it. -/
theorem sum_spent_cons (i : ι) : (machines.map (spent f cost (i :: plan))).sum =
    (machines.map (cost · i)).sum + ((machines.map (f · i)).map (spent f cost plan)).sum := by
  rw [List.map_map, ← List.sum_map_add]
  rfl

section Own

variable {own : ι → Bool} {P : σ → Prop} {s : σ}

/-- A machine that stands still at the steps of others takes its own steps alone. -/
theorem foldl_own (hkeep : ∀ s i, P s → P (f s i))
    (hidle : ∀ s i, P s → own i = false → f s i = s) (hs : P s) :
    plan.foldl f s = (plan.filter own).foldl f s := by
  induction plan generalizing s with
  | nil => rfl
  | cons i plan ih =>
    rw [List.foldl_cons, List.filter_cons]
    cases hi : own i with
    | true => exact ih (hkeep s i hs)
    | false =>
      rw [hidle s i hs hi]
      exact ih hs

theorem spent_own (hkeep : ∀ s i, P s → P (f s i))
    (hidle : ∀ s i, P s → own i = false → f s i = s ∧ cost s i = 0) (hs : P s) :
    spent f cost plan s = spent f cost (plan.filter own) s := by
  induction plan generalizing s with
  | nil => rfl
  | cons i plan ih =>
    rw [List.filter_cons]
    cases hi : own i with
    | true =>
      show cost s i + _ = cost s i + _
      rw [ih (hkeep s i hs)]
    | false =>
      obtain ⟨hstill, hfree⟩ := hidle s i hs hi
      show cost s i + spent f cost plan (f s i) = _
      rw [hstill, hfree, zero_add]
      exact ih hs

end Own

end TradingAgents.ProofKit.Lockstep
