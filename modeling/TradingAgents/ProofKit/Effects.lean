import Mathlib.Data.List.Induction
import Mathlib.Tactic.Common

/-! Programs with a state that may raise and keep what they have written: where a program that
starts in a state ends, one rule for each way to build it. -/

namespace TradingAgents.ProofKit

variable {ε σ α β : Type}

/-- From `s` the program returns a result in a state with `Q`, or raises in a state with `E`. -/
def Ends (x : EStateM ε σ α) (s : σ) (Q : α → σ → Prop) (E : σ → Prop) : Prop :=
  match x s with
  | .ok a t => Q a t
  | .error _ t => E t

namespace Ends

variable {x : EStateM ε σ α} {f : α → EStateM ε σ β} {s : σ} {Q R : α → σ → Prop}
  {S : β → σ → Prop} {E F : σ → Prop}

theorem bind (h : Ends x s Q E) (hf : ∀ a t, Q a t → Ends (f a) t S E) : Ends (x >>= f) s S E := by
  unfold Ends at h ⊢
  change (match (match x s with
    | .ok a t => f a t
    | .error e t => EStateM.Result.error e t) with
    | .ok a t => S a t
    | .error _ t => E t)
  cases hx : x s with
  | ok a t =>
    rw [hx] at h
    exact hf a t h
  | error e t =>
    rw [hx] at h
    exact h

theorem pure {a : α} (h : Q a s) : Ends (Pure.pure a : EStateM ε σ α) s Q E := h

theorem get {Q : σ → σ → Prop} (h : Q s s) : Ends (MonadState.get : EStateM ε σ σ) s Q E := h

theorem modify {g : σ → σ} {Q : PUnit → σ → Prop} (h : Q ⟨⟩ (g s)) :
    Ends (modify g : EStateM ε σ PUnit) s Q E := h

theorem set {t : σ} {Q : PUnit → σ → Prop} (h : Q ⟨⟩ t) :
    Ends (MonadStateOf.set t : EStateM ε σ PUnit) s Q E := h

theorem throw {e : ε} (h : E s) : Ends (throw e : EStateM ε σ α) s Q E := h

theorem of_run {a : α} {t : σ} (hx : x.run s = .ok a t) (h : Q a t) : Ends x s Q E := by
  change x s = _ at hx
  unfold Ends
  rw [hx]
  exact h

/-- A boundary ends where the program returns or where its handler does. -/
theorem boundary {handle : ε → EStateM ε σ α} (h : Ends x s Q F)
    (hhandle : ∀ e t, F t → Ends (handle e) t Q E) : Ends (tryCatch x handle) s Q E := by
  have hrun : (tryCatch x handle : EStateM ε σ α) s = match x s with
      | .ok a t => .ok a t
      | .error e t => handle e t := by
    change EStateM.tryCatch x handle s = _
    unfold EStateM.tryCatch
    cases x s <;> rfl
  unfold Ends at h ⊢
  rw [hrun]
  cases hx : x s with
  | ok a t =>
    rw [hx] at h
    exact h
  | error e t =>
    rw [hx] at h
    exact hhandle e t h

/-- What a program that returned has left. -/
theorem of_ok {a : α} {t : σ} (h : Ends x s Q E) (hx : x.run s = .ok a t) : Q a t := by
  unfold Ends at h
  change x s = _ at hx
  rwa [hx] at h

/-- What a program that raised has left. -/
theorem of_error {e : ε} {t : σ} (h : Ends x s Q E) (hx : x.run s = .error e t) : E t := by
  unfold Ends at h
  change x s = _ at hx
  rwa [hx] at h

/-- A program that never raises returns. -/
theorem exists_ok (h : Ends x s Q fun _ => False) : ∃ a t, x.run s = .ok a t ∧ Q a t := by
  unfold Ends at h
  change ∃ a t, x s = _ ∧ Q a t
  cases hx : x s with
  | ok a t =>
    rw [hx] at h
    exact ⟨a, t, rfl, h⟩
  | error e t =>
    rw [hx] at h
    exact h.elim

theorem mono (h : Ends x s Q E) (hQ : ∀ a t, Q a t → R a t) (hE : ∀ t, E t → F t) :
    Ends x s R F := by
  unfold Ends at h ⊢
  cases hx : x s with
  | ok a t =>
    rw [hx] at h
    exact hQ a t h
  | error e t =>
    rw [hx] at h
    exact hE t h

/-- A loop establishes what each of its passes adds to what the passes before it have
established. -/
theorem foldlM_done {ι : Type} {l : List ι} {g : β → ι → EStateM ε σ β} {I : List ι → β → σ → Prop}
    {b : β} (hg : ∀ done i rest, l = done ++ i :: rest → ∀ b t, I done b t →
      Ends (g b i) t (I (done ++ [i])) E)
    (hs : I [] b s) : Ends (l.foldlM g b) s (I l) E := by
  suffices ∀ rest done b s, l = done ++ rest → I done b s →
      Ends (rest.foldlM g b) s (I l) E from this l [] b s rfl hs
  intro rest
  induction rest with
  | nil =>
    intro done b s hl hs
    rw [hl, List.append_nil]
    exact pure hs
  | cons i rest ih =>
    intro done b s hl hs
    rw [List.foldlM_cons]
    refine bind (hg done i rest hl b s hs) fun c t hc => ?_
    exact ih (done ++ [i]) c t (by rw [hl, List.append_assoc]; rfl) hc

/-- A loop keeps what each of its passes keeps. -/
theorem foldlM {ι : Type} {l : List ι} {g : β → ι → EStateM ε σ β} {I : β → σ → Prop} {b : β}
    (hg : ∀ i ∈ l, ∀ b t, I b t → Ends (g b i) t I E) (hs : I b s) :
    Ends (l.foldlM g b) s I E :=
  foldlM_done (I := fun _ => I) (fun done i rest hl => hg i (by rw [hl]; simp)) hs

end Ends

instance [∀ a t, Decidable (Q a t)] [∀ t, Decidable (E t)] (x : EStateM ε σ α) (s : σ) :
    Decidable (Ends x s Q E) :=
  match h : x s with
  | .ok a t => decidable_of_iff (Q a t) (by rw [Ends, h])
  | .error _ t => decidable_of_iff (E t) (by rw [Ends, h])

end TradingAgents.ProofKit
