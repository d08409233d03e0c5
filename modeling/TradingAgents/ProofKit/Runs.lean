import TradingAgents.ProofKit.Fallible

/-! Runs of a system whose step may fail: the states that runs of allowed steps reach, the rule that
carries an invariant along a run, and the runs of a list of inputs. -/

namespace TradingAgents.ProofKit

variable {σ ι ε : Type} {step : σ → ι → Except ε σ} {allowed allowed' : σ → ι → Prop}
  {start : σ → Prop}

/-- The states reached from a start state by steps that are allowed where they are taken. -/
inductive Reach (step : σ → ι → Except ε σ) (allowed : σ → ι → Prop) (start : σ → Prop) : σ → Prop
  | start {s : σ} : start s → Reach step allowed start s
  | step {s s' : σ} (i : ι) : Reach step allowed start s → allowed s i → step s i = .ok s' →
      Reach step allowed start s'

namespace Reach

/-- What holds at the start and is kept by every allowed step holds in every state reached. -/
theorem invariant {P : σ → Prop} (hstart : ∀ s, start s → P s)
    (hstep : ∀ s i s', P s → allowed s i → step s i = .ok s' → P s') {s : σ}
    (h : Reach step allowed start s) : P s := by
  induction h with
  | start hs => exact hstart _ hs
  | step i _ hallowed hok ih => exact hstep _ i _ ih hallowed hok

theorem mono (hle : ∀ s i, allowed s i → allowed' s i) {s : σ} (h : Reach step allowed start s) :
    Reach step allowed' start s := by
  induction h with
  | start hs => exact .start hs
  | step i _ hallowed hok ih => exact .step i ih (hle _ _ hallowed) hok

/-- A list of inputs that goes through, each allowed in every state, reaches its last state. -/
theorem of_allowed {s s' : σ} (h : Reach step allowed start s) {inputs : List ι}
    (hall : ∀ i ∈ inputs, ∀ s, allowed s i) (hrun : inputs.foldlM step s = .ok s') :
    Reach step allowed start s' := by
  induction inputs generalizing s with
  | nil => cases hrun; exact h
  | cons i inputs ih =>
    rw [List.foldlM_cons] at hrun
    obtain ⟨t, ht, hrest⟩ := Fallible.bind_eq_ok.mp hrun
    exact ih (.step i h (hall i (by simp) s) ht) (fun j hj => hall j (by simp [hj])) hrest

/-- A list of inputs that goes through reaches its last state. -/
theorem of_foldlM {s s' : σ} (h : Reach step (fun _ _ => True) start s) {inputs : List ι}
    (hrun : inputs.foldlM step s = .ok s') : Reach step (fun _ _ => True) start s' :=
  h.of_allowed (fun _ _ _ => trivial) hrun

/-- A list of inputs that goes through, each checked where it is taken, is a run of allowed
inputs. -/
theorem of_checked [∀ s i, Decidable (allowed s i)] {refused : ε} {s s' : σ}
    (h : Reach step allowed start s) {inputs : List ι}
    (hrun : inputs.foldlM (fun s i => if allowed s i then step s i else .error refused) s =
      .ok s') : Reach step allowed start s' := by
  induction inputs generalizing s with
  | nil => cases hrun; exact h
  | cons i inputs ih =>
    rw [List.foldlM_cons] at hrun
    obtain ⟨t, ht, hrest⟩ := Fallible.bind_eq_ok.mp hrun
    split at ht
    · rename_i hallowed
      exact ih (.step i h hallowed ht) hrest
    · cases ht

end Reach

end TradingAgents.ProofKit
