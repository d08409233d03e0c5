import TradingAgents.ProofKit.Fallible

/-! Sequences of operations that may be cut off after any of them.  An operation gets its input (the
reading of a clock) when it is carried out; a sequence with fewer inputs than operations has crashed
in between. -/

namespace TradingAgents.ProofKit

variable {σ ι ε τ : Type}

/-- The operations of a list that get an input, carried out in order. -/
def carryOut (step : σ → ι → Except ε σ) : List (τ → ι) → List τ → σ → Except ε σ
  | op :: ops, input :: inputs, s => do
    let t ← step s (op input)
    carryOut step ops inputs t
  | _, _, s => .ok s

/-- From `s` the operations go through as far as they get: every state on the way has `P`, and the
one after the last operation has `Q` too. -/
def CrashSafe (step : σ → ι → Except ε σ) (P : σ → Prop) (Q : σ → Prop) :
    List (τ → ι) → σ → Prop
  | [], s => P s ∧ Q s
  | op :: ops, s => P s ∧ ∀ input, ∃ t, step s (op input) = .ok t ∧ CrashSafe step P Q ops t

namespace CrashSafe

variable {step : σ → ι → Except ε σ} {P Q Q' : σ → Prop} {s : σ} {ops ops' : List (τ → ι)}

theorem mono (h : CrashSafe step P Q ops s) (hle : ∀ t, P t → Q t → Q' t) :
    CrashSafe step P Q' ops s := by
  induction ops generalizing s with
  | nil => exact ⟨h.1, hle s h.1 h.2⟩
  | cons op ops ih =>
    refine ⟨h.1, fun input => ?_⟩
    obtain ⟨t, ht, hrest⟩ := h.2 input
    exact ⟨t, ht, ih hrest⟩

/-- A sequence goes on from where the one before it ended. -/
theorem append (h : CrashSafe step P Q ops s)
    (h' : ∀ t, P t → Q t → CrashSafe step P Q' ops' t) : CrashSafe step P Q' (ops ++ ops') s := by
  induction ops generalizing s with
  | nil => exact h' s h.1 h.2
  | cons op ops ih =>
    refine ⟨h.1, fun input => ?_⟩
    obtain ⟨t, ht, hrest⟩ := h.2 input
    exact ⟨t, ht, ih hrest⟩

/-- Wherever the operations are cut off they have gone through so far. -/
theorem carryOut (h : CrashSafe step P Q ops s) (inputs : List τ) :
    ∃ s', ProofKit.carryOut step ops inputs s = .ok s' ∧ P s' ∧
      (ops.length ≤ inputs.length → Q s') := by
  induction ops generalizing s inputs with
  | nil => exact ⟨s, rfl, h.1, fun _ => h.2⟩
  | cons op ops ih =>
    cases inputs with
    | nil => exact ⟨s, rfl, h.1, fun hle => absurd hle (Nat.not_succ_le_zero _)⟩
    | cons input inputs =>
      obtain ⟨t, ht, hrest⟩ := h.2 input
      obtain ⟨s', hs', hP, hQ⟩ := ih hrest inputs
      refine ⟨s', ?_, hP, fun hle => hQ (Nat.le_of_succ_le_succ hle)⟩
      rw [ProofKit.carryOut, ht]
      exact hs'

end CrashSafe

end TradingAgents.ProofKit
