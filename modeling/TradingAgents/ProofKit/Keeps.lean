import TradingAgents.ProofKit.Effects

/-! Programs that keep a property of their state, whether they return or raise: one rule for each
way to build them. -/

namespace TradingAgents.ProofKit

variable {ε σ α β : Type} {P : σ → Prop} {x : EStateM ε σ α} {f : α → EStateM ε σ β}

/-- From every state with `P` the program ends in one. -/
def Keeps (P : σ → Prop) (x : EStateM ε σ α) : Prop := ∀ s, P s → Ends x s (fun _ t => P t) P

namespace Keeps

theorem pure (a : α) : Keeps P (Pure.pure a : EStateM ε σ α) := fun _ h => Ends.pure h

theorem throw (e : ε) : Keeps P (throw e : EStateM ε σ α) := fun _ h => Ends.throw h

theorem bind (h : Keeps P x) (hf : ∀ a, Keeps P (f a)) : Keeps P (x >>= f) :=
  fun s hs => Ends.bind (h s hs) fun a t ht => hf a t ht

/-- What is done with the state that was read is done in it. -/
theorem get_bind {f : σ → EStateM ε σ β}
    (hf : ∀ s, P s → Ends (f s) s (fun _ t => P t) P) :
    Keeps P (MonadState.get >>= f) :=
  fun s hs => Ends.bind (Ends.get (Q := fun a t => a = s ∧ t = s) ⟨rfl, rfl⟩) fun _ _ ⟨ha, ht⟩ =>
    ha ▸ ht ▸ hf s hs

theorem boundary {handle : ε → EStateM ε σ α} (h : Keeps P x) (hhandle : ∀ e, Keeps P (handle e)) :
    Keeps P (tryCatch x handle) :=
  fun s hs => Ends.boundary (h s hs) fun e t ht => hhandle e t ht

theorem trivial (x : EStateM ε σ α) : Keeps (fun _ => True) x := by
  intro s _
  unfold Ends
  cases x s <;> exact True.intro

/-- What a program returns and what it keeps. -/
theorem returns {Q : α → Prop} {s : σ} (h : Keeps P x) (hs : P s)
    (hQ : ∀ a t, x.run s = .ok a t → Q a) : Ends x s (fun a t => P t ∧ Q a) P := by
  have hkept := h s hs
  unfold Ends at hkept ⊢
  cases hx : x s with
  | ok a t =>
    rw [hx] at hkept
    exact ⟨hkept, hQ a t hx⟩
  | error e t =>
    rw [hx] at hkept
    exact hkept

end Keeps

end TradingAgents.ProofKit
