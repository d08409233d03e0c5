import Mathlib.Data.List.Basic
import Mathlib.Data.List.TakeWhile
import Mathlib.Tactic.Common

/-! A chain of gates, each of which passes, refuses, or has nothing to say.  The chain stops at the
first gate that refuses, and attests the gates before it. -/

namespace TradingAgents.ProofKit.GateChain

variable {γ : Type}

/-- What a gate says. -/
inductive Answer where
  | passes
  | refuses
  | silent
deriving DecidableEq

/-- The gate that refused, and the gates before it that passed or were silent. -/
structure Attested (γ : Type) where
  fired : Option γ := none
  passed : List γ := []
  skipped : List γ := []
deriving DecidableEq

def attest : List (γ × Answer) → Attested γ
  | [] => {}
  | (gate, .refuses) :: _ => { fired := some gate }
  | (gate, .passes) :: gates =>
    let rest := attest gates
    { rest with passed := gate :: rest.passed }
  | (gate, .silent) :: gates =>
    let rest := attest gates
    { rest with skipped := gate :: rest.skipped }

/-- The gates up to the first that refuses. -/
def heard (gates : List (γ × Answer)) : List (γ × Answer) :=
  gates.takeWhile fun g => decide (g.2 ≠ .refuses)

/-- The gates of one answer. -/
def saying (answer : Answer) (gates : List (γ × Answer)) : List γ :=
  (gates.filter fun g => decide (g.2 = answer)).map Prod.fst

variable {gates : List (γ × Answer)}

theorem attest_skipped : (attest gates).skipped = saying .silent (heard gates) := by
  induction gates with
  | nil => rfl
  | cons g gates ih =>
    obtain ⟨gate, answer⟩ := g
    cases answer with
    | passes => exact ih
    | refuses => rfl
    | silent => exact congrArg (gate :: ·) ih

theorem attest_fired : (attest gates).fired = (saying .refuses gates).head? := by
  induction gates with
  | nil => rfl
  | cons g gates ih =>
    obtain ⟨gate, answer⟩ := g
    cases answer with
    | passes => exact ih
    | refuses => rfl
    | silent => exact ih

end TradingAgents.ProofKit.GateChain
