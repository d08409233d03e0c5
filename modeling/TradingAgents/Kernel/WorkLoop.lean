import Mathlib
import TradingAgents.Kernel.GraphFacts
import TradingAgents.ProofKit.Fallible

/-! The graph-poll work loop: a pass attempts the eligible pending items one after the other,
records each failure with a growing retry delay, and quarantines an item that failed too often.  The
retry ledger lives in the process; a quarantine is also marked in the graph where the loop has a
sink. -/

namespace TradingAgents.Kernel

open ProofKit

variable {δ τ : Type}

/-- The retry policy of one work loop.  A float is the number it stores exactly. -/
structure WorkLoopPolicy where
  backoffBaseSeconds : ℚ := 60
  backoffMultiplier : ℚ := 2
  backoffCeilingSeconds : ℚ := 900
  maxAttemptsBeforeQuarantine : Nat := 5
  base_pos : 0 < backoffBaseSeconds := by norm_num
  multiplier_gt : 1 < backoffMultiplier := by norm_num
  ceiling_covers_base : backoffBaseSeconds ≤ backoffCeilingSeconds := by norm_num
  attempts_pos : 1 ≤ maxAttemptsBeforeQuarantine := by norm_num

/-- Retry state for one still-pending item. -/
structure FailureRecord where
  attempts : Nat
  nextRetryAt : ℚ
  reason : String

inductive WorkLoopError where
  | overflow
  | graph (e : GraphError)

/-- The retry ledger of a process. -/
structure WorkLoopState where
  failures : Dict String FailureRecord := .empty
  quarantined : List String := []

def workItemQuarantineLabel : String := "WorkItemQuarantine"

def quarantineKey (agent itemKey : String) : String :=
  "work-quarantine:" ++ agent ++ ":" ++ itemKey

/-- Whether the graph holds the marker of an item; a loop without a sink has no markers. -/
def marked (sink : Option String) (g : Graph δ) (itemKey : String) : Bool :=
  match sink with
  | none => false
  | some agent => (g.getNode workItemQuarantineLabel (quarantineKey agent itemKey)).isSome

def isQuarantined (sink : Option String) (st : WorkLoopState) (g : Graph δ) (itemKey : String) :
    Bool :=
  decide (itemKey ∈ st.quarantined) || marked sink g itemKey

/-- Whether a pass at `now` may attempt an item. -/
def isEligible (sink : Option String) (st : WorkLoopState) (g : Graph δ) (now : ℚ)
    (itemKey : String) : Bool :=
  !isQuarantined sink st g itemKey &&
    match st.failures.get? itemKey with
    | none => true
    | some record => decide (record.nextRetryAt ≤ now)

def recordSuccess (st : WorkLoopState) (itemKey : String) : WorkLoopState :=
  { st with failures := st.failures.erase itemKey }

/-- The greatest finite float. -/
def maxFloat : ℚ := (2 ^ 53 - 1) * 2 ^ 971

/-- `multiplier ** n`, an `OverflowError` beyond the float range; `fl` rounds to a float. -/
def floatPow (fl : ℚ →o ℚ) (multiplier : ℚ) (n : Nat) : Except WorkLoopError ℚ :=
  if fl (multiplier ^ n) ≤ maxFloat then .ok (fl (multiplier ^ n)) else .error .overflow

def backoffDelay (fl : ℚ →o ℚ) (policy : WorkLoopPolicy) (attempts : Nat) :
    Except WorkLoopError ℚ := do
  let power ← floatPow fl policy.backoffMultiplier (attempts - 1)
  pure (min (fl (policy.backoffBaseSeconds * power)) policy.backoffCeilingSeconds)

section Pass

variable [DecidableEq δ]

/-- Write the one-time quarantine marker if there is a sink and no marker stands. -/
def quarantine (sink : Option String) (g : Graph δ) (itemKey : String) (attempts : Nat)
    (reason stamp : String) : Except WorkLoopError (Graph δ) :=
  match sink with
  | none => .ok g
  | some agent =>
    match g.getNode workItemQuarantineLabel (quarantineKey agent itemKey) with
    | some _ => .ok g
    | none =>
      match g.mergeNode workItemQuarantineLabel (quarantineKey agent itemKey) (.ofList [
          ("source_agent", .str agent),
          ("item_key", .str itemKey),
          ("attempts", .int attempts),
          ("reason", .str reason),
          ("status", .str "quarantined"),
          ("quarantined_at", .str stamp)]) with
      | .ok (g, _) => .ok g
      | .error e => .error (.graph e)

/-- Record a failed or no-progress attempt and maybe quarantine the item: whether it did, and the
delay until the next retry. -/
def recordFailure (fl : ℚ →o ℚ) (policy : WorkLoopPolicy) (sink : Option String)
    (st : WorkLoopState) (g : Graph δ) (itemKey : String) (now : ℚ) (reason stamp : String) :
    Except WorkLoopError (WorkLoopState × Graph δ × Bool × Option ℚ) :=
  if isQuarantined sink st g itemKey then .ok (st, g, false, none)
  else
    let attempts := ((st.failures.get? itemKey).map FailureRecord.attempts).getD 0 + 1
    if policy.maxAttemptsBeforeQuarantine ≤ attempts then do
      let g ← quarantine sink g itemKey attempts reason stamp
      pure (⟨st.failures.erase itemKey, itemKey :: st.quarantined⟩, g, true, none)
    else do
      let delay ← backoffDelay fl policy attempts
      let record := ⟨attempts, fl (now + delay), reason⟩
      pure ({ st with failures := st.failures.set itemKey record }, g, false, some delay)

/-- How an attempt ended. -/
inductive Outcome where
  | advanced
  | retry (delay due : ℚ)
  | quarantined
deriving DecidableEq

/-- An attempt of an item, at the clock reading of its pass. -/
structure Attempt where
  time : ℚ
  outcome : Outcome
deriving DecidableEq

/-- What a pass meets: the clock, the pending items before it, the answer of `should_stop` before
each item, what processing an item does to the store and whether it raises, the items pending
afterwards, and the time a marker would carry. -/
structure PassInput (δ τ : Type) where
  now : ℚ
  items : List τ
  shouldStop : τ → Bool
  processOne : τ → Graph δ → Graph δ × Option String
  pendingAfter : Graph δ → List τ
  stamp : String

/-- The variables of a pass, with the attempts it made in order. -/
structure PassState (δ τ : Type) where
  graph : Graph δ
  state : WorkLoopState
  completed : List τ := []
  attempted : Nat := 0
  failed : Nat := 0
  quarantined : Nat := 0
  retryDelays : List ℚ := []
  advanced : Nat := 0
  noProgress : Nat := 0
  trace : List (String × Attempt) := []

/-- Outcome of one pass. -/
structure RunOnceResult where
  found : Nat
  attempted : Nat
  advanced : Nat
  failed : Nat
  noProgress : Nat
  skipped : Nat
  quarantined : Nat
  nextRetryDelay : Option ℚ

variable (fl : ℚ →o ℚ) (policy : WorkLoopPolicy) (sink : Option String) (itemKey : τ → String)
  (p : PassInput δ τ)

/-- A failure in a pass, with what the pass keeps of it. -/
def PassState.fail (s : PassState δ τ) (key reason : String) :
    Except WorkLoopError (PassState δ τ) := do
  let (state, graph, didQuarantine, delay) ←
    recordFailure fl policy sink s.state s.graph key p.now reason p.stamp
  let outcome := match delay with
    | some delay => .retry delay (fl (p.now + delay))
    | none => .quarantined
  pure { s with
    graph, state
    quarantined := s.quarantined + (if didQuarantine then 1 else 0)
    retryDelays := s.retryDelays ++ delay.toList
    trace := s.trace ++ [(key, ⟨p.now, outcome⟩)] }

/-- The loop over the eligible items. -/
def attemptAll : List τ → PassState δ τ → Except WorkLoopError (PassState δ τ)
  | [], s => .ok s
  | item :: rest, s =>
    if p.shouldStop item then .ok s
    else
      let (graph, raised) := p.processOne item s.graph
      let s := { s with graph, attempted := s.attempted + 1 }
      match raised with
      | some reason => do
        let s ← PassState.fail fl policy sink p { s with failed := s.failed + 1 } (itemKey item)
          reason
        attemptAll rest s
      | none => attemptAll rest { s with completed := s.completed ++ [item] }

/-- The loop over the items that were processed without an exception. -/
def settleAll (remaining : List String) :
    List τ → PassState δ τ → Except WorkLoopError (PassState δ τ)
  | [], s => .ok s
  | item :: rest, s =>
    if itemKey item ∈ remaining then do
      let s ← PassState.fail fl policy sink p { s with noProgress := s.noProgress + 1 }
        (itemKey item) "still pending after processing"
      settleAll remaining rest s
    else
      settleAll remaining rest { s with
        state := recordSuccess s.state (itemKey item)
        advanced := s.advanced + 1
        trace := s.trace ++ [(itemKey item, ⟨p.now, .advanced⟩)] }

/-- Seconds until the next skipped item becomes eligible. -/
def nextReadyDelay (st : WorkLoopState) : Option ℚ :=
  (p.items.filterMap fun item =>
    match st.failures.get? (itemKey item) with
    | none => none
    | some record =>
      if p.now < record.nextRetryAt then some (fl (record.nextRetryAt - p.now)) else none).min?

/-- The pending items split into those a pass may attempt and the number of the others. -/
def eligibleItems (st : WorkLoopState) (g : Graph δ) : List τ × Nat :=
  (p.items.filter fun item => isEligible sink st g p.now (itemKey item),
    (p.items.filter fun item => !isEligible sink st g p.now (itemKey item)).length)

/-- Process eligible pending items once. -/
def runOnce (st : WorkLoopState) (g : Graph δ) :
    Except WorkLoopError (PassState δ τ × RunOnceResult) := do
  let (ready, skipped) := eligibleItems sink itemKey p st g
  let s ← attemptAll fl policy sink itemKey p ready { graph := g, state := st }
  let remaining := (p.pendingAfter s.graph).map itemKey
  let s ← settleAll fl policy sink itemKey p remaining s.completed s
  pure (s, {
    found := p.items.length
    attempted := s.attempted
    advanced := s.advanced
    failed := s.failed
    noProgress := s.noProgress
    skipped
    quarantined := s.quarantined
    nextRetryDelay :=
      if s.retryDelays = [] then nextReadyDelay fl itemKey p s.state else s.retryDelays.min? })

end Pass

end TradingAgents.Kernel
