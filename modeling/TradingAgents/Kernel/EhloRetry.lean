import Mathlib

/-! The boot of an agent asks the master for its activation: one body, sent again after a failure of
the transport, within a bounded number of attempts and a time budget. -/

namespace TradingAgents.Kernel

/-- The resend envelope of one boot. -/
structure EhloSettings where
  ehloAttemptTimeoutSeconds : ℚ := 30
  ehloMaxAttempts : Nat := 6
  ehloBudgetSeconds : ℚ := 300
  ehloBackoffBaseSeconds : ℚ := 1
  ehloBackoffCapSeconds : ℚ := 30
  timeout_bounds : 5 ≤ ehloAttemptTimeoutSeconds ∧ ehloAttemptTimeoutSeconds ≤ 120 := by norm_num
  attempt_bounds : 1 ≤ ehloMaxAttempts ∧ ehloMaxAttempts ≤ 20 := by norm_num
  budget_bounds : 30 ≤ ehloBudgetSeconds ∧ ehloBudgetSeconds ≤ 600 := by norm_num
  base_bounds : 1 / 10 ≤ ehloBackoffBaseSeconds ∧ ehloBackoffBaseSeconds ≤ 10 := by norm_num
  cap_bounds : 1 ≤ ehloBackoffCapSeconds ∧ ehloBackoffCapSeconds ≤ 120 := by norm_num

/-- What a send raises: an answer of the server with an error status, an error of the URL for a
named reason or for another exception, a failure of the transport, or anything else. -/
inductive SendError where
  | httpError (code : Nat)
  | urlReason (reason : String)
  | urlError (reason : SendError)
  | transport (name : String)
  | other (name : String)
deriving DecidableEq, Repr

def transientStatuses : List Nat := [502, 503, 504]

/-- Whether a failure is one of the transport, and worth a resend. -/
def isTransient : SendError → Bool
  | .httpError code => decide (code ∈ transientStatuses)
  | .urlReason _ => false
  | .urlError reason => isTransient reason
  | .transport _ => true
  | .other _ => false

def minAttemptTimeoutSeconds : ℚ := 1

/-- The readings of the clock and of the jitter source, in their order. -/
structure RetryHooks where
  clock : Nat → ℚ
  rand : Nat → ℚ

def backoffCeiling (attempt : Nat) (settings : EhloSettings) : ℚ :=
  min settings.ehloBackoffCapSeconds (settings.ehloBackoffBaseSeconds * 2 ^ (attempt - 1))

/-- Full jitter below the ceiling. -/
def EhloSettings.backoffDelay (attempt : Nat) (settings : EhloSettings) (rand : ℚ) : ℚ :=
  rand * backoffCeiling attempt settings

/-- One send, with the reading of the clock before it. -/
structure EhloAttempt (β : Type) where
  url : String
  body : β
  timeout : ℚ
  startedAt : ℚ

/-- How the boot ends: with an answer, with an error that is final, or with its attempts or its time
spent. -/
inductive EhloEnd (α : Type) where
  | answered (answer : α)
  | raised (e : SendError)
  | exhausted (attempts : Nat) (elapsed : ℚ) (lastCause : SendError)

/-- The sends of a boot, its pauses between them, and its end. -/
structure EhloRun (α β : Type) where
  attempts : List (EhloAttempt β)
  slept : List ℚ
  result : EhloEnd α

section

variable {α β : Type} (send : Nat → EhloAttempt β → Except SendError α) (url : String) (body : β)
  (settings : EhloSettings) (hooks : RetryHooks)

/-- The `k`-th attempt, from 0. -/
def ehloAttempt (k : Nat) : EhloAttempt β :=
  let startedAt := hooks.clock (2 * k + 1)
  let remaining := settings.ehloBudgetSeconds - (startedAt - hooks.clock 0)
  ⟨url, body, min settings.ehloAttemptTimeoutSeconds (max remaining minAttemptTimeoutSeconds),
    startedAt⟩

/-- The time since the start when the `k`-th attempt has failed. -/
def elapsedAfter (k : Nat) : ℚ := hooks.clock (2 * k + 2) - hooks.clock 0

/-- The pause after the `k`-th attempt. -/
def delayAfter (k : Nat) : ℚ := EhloSettings.backoffDelay (k + 1) settings (hooks.rand k)

/-- Whether the budget leaves no time for another attempt. -/
def budgetSpent (k : Nat) : Prop :=
  settings.ehloBudgetSeconds ≤ elapsedAfter hooks k + delayAfter settings hooks k

instance (k : Nat) : Decidable (budgetSpent settings hooks k) :=
  inferInstanceAs (Decidable (_ ≤ _))

/-- The loop from the `k`-th attempt on, with so many attempts left after it. -/
def sendFrom : (left k : Nat) → EhloRun α β
  | left, k =>
    let attempt := ehloAttempt url body settings hooks k
    match send k attempt with
    | .ok answer => ⟨[attempt], [], .answered answer⟩
    | .error e =>
      if isTransient e = false then ⟨[attempt], [], .raised e⟩
      else if budgetSpent settings hooks k then
        ⟨[attempt], [], .exhausted (k + 1) (elapsedAfter hooks k) e⟩
      else match left with
        | 0 => ⟨[attempt], [], .exhausted (k + 1) (elapsedAfter hooks k) e⟩
        | left + 1 =>
          let rest := sendFrom left (k + 1)
          ⟨attempt :: rest.attempts, delayAfter settings hooks k :: rest.slept, rest.result⟩

/-- Send one body until the master answers, within the budget. -/
def sendWithRetry : EhloRun α β := sendFrom send url body settings hooks
  (settings.ehloMaxAttempts - 1) 0

end

/-! ### What a boot sends -/

section

variable {α β : Type} {send : Nat → EhloAttempt β → Except SendError α} {url : String} {body : β}
  {settings : EhloSettings} {hooks : RetryHooks}

/-- The end of a boot says what its last send came to. -/
def EhloEnd.Describes (last : Except SendError α) (sent : Nat) (settings : EhloSettings)
    (hooks : RetryHooks) : EhloEnd α → Prop
  | .answered answer => last = .ok answer
  | .raised e => last = .error e ∧ isTransient e = false
  | .exhausted attempts elapsed lastCause => last = .error lastCause ∧
    isTransient lastCause = true ∧ attempts = sent ∧ elapsed = elapsedAfter hooks (sent - 1) ∧
    (sent = settings.ehloMaxAttempts ∨ budgetSpent settings hooks (sent - 1))

/-- A run of the loop from the attempt `first` on: its attempts in order, all of them but the last
failures of the transport with time left for a pause, and the last one as its end says. -/
structure Bounded (send : Nat → EhloAttempt β → Except SendError α) (url : String) (body : β)
    (settings : EhloSettings) (hooks : RetryHooks) (first : Nat) (run : EhloRun α β) : Prop where
  some_attempt : run.attempts ≠ []
  within : first + run.attempts.length ≤ settings.ehloMaxAttempts
  attempts : run.attempts =
    (List.range' first run.attempts.length).map (ehloAttempt url body settings hooks)
  slept : run.slept =
    (List.range' first (run.attempts.length - 1)).map (delayAfter settings hooks)
  resent : ∀ k, first ≤ k → k + 1 < first + run.attempts.length →
    ¬budgetSpent settings hooks k ∧
    ∃ e, send k (ehloAttempt url body settings hooks k) = .error e ∧ isTransient e = true
  result : run.result.Describes (send (first + run.attempts.length - 1)
    (ehloAttempt url body settings hooks (first + run.attempts.length - 1)))
    (first + run.attempts.length) settings hooks

/-- A run that ends with its first attempt. -/
theorem bounded_single {first : Nat} {result : EhloEnd α}
    (hwithin : first + 1 ≤ settings.ehloMaxAttempts)
    (hresult : result.Describes (send first (ehloAttempt url body settings hooks first)) (first + 1)
      settings hooks) :
    Bounded send url body settings hooks first
      ⟨[ehloAttempt url body settings hooks first], [], result⟩ where
  some_attempt := List.cons_ne_nil _ _
  within := hwithin
  attempts := rfl
  slept := rfl
  resent k hfirst hlast := by
    rw [List.length_singleton] at hlast
    omega
  result := hresult

/-- A failed attempt with time for a pause before the rest of a run. -/
theorem Bounded.cons {first : Nat} {run : EhloRun α β} {e : SendError}
    (h : Bounded send url body settings hooks (first + 1) run)
    (hsend : send first (ehloAttempt url body settings hooks first) = .error e)
    (htransient : isTransient e = true) (htime : ¬budgetSpent settings hooks first) :
    Bounded send url body settings hooks first
      ⟨ehloAttempt url body settings hooks first :: run.attempts,
        delayAfter settings hooks first :: run.slept, run.result⟩ := by
  obtain ⟨hsome, hwithin, hattempts, hslept, hresent, hresult⟩ := h
  have hpos := List.length_pos_iff_ne_nil.mpr hsome
  have hcount : first + (run.attempts.length + 1) = first + 1 + run.attempts.length := by omega
  refine ⟨List.cons_ne_nil _ _, ?_, ?_, ?_, fun k hfirst hlast => ?_, ?_⟩
  · rw [List.length_cons]
    omega
  · rw [List.length_cons, List.range'_succ, List.map_cons, ← hattempts]
  · rw [List.length_cons, Nat.add_sub_cancel, ← Nat.sub_add_cancel hpos, List.range'_succ,
      List.map_cons, hslept]
  · rw [List.length_cons] at hlast
    rcases Nat.lt_or_eq_of_le hfirst with hlater | rfl
    · exact hresent k hlater (by omega)
    · exact ⟨htime, e, hsend, htransient⟩
  · rw [List.length_cons, hcount]
    exact hresult

theorem sendFrom_bounded {left first : Nat} (h : first + left + 1 = settings.ehloMaxAttempts) :
    Bounded send url body settings hooks first
      (sendFrom send url body settings hooks left first) := by
  induction left generalizing first with
  | zero =>
    unfold sendFrom
    dsimp only
    split
    · rename_i answer hsend
      exact bounded_single (by omega) hsend
    · rename_i e hsend
      split
      · rename_i hfinal
        exact bounded_single (by omega) ⟨hsend, hfinal⟩
      · rename_i htransient
        have htransient : isTransient e = true := eq_true_of_ne_false htransient
        split
        · rename_i hspent
          exact bounded_single (by omega) ⟨hsend, htransient, rfl, rfl, .inr hspent⟩
        · exact bounded_single (by omega) ⟨hsend, htransient, rfl, rfl, .inl (by omega)⟩
  | succ left ih =>
    unfold sendFrom
    dsimp only
    split
    · rename_i answer hsend
      exact bounded_single (by omega) hsend
    · rename_i e hsend
      split
      · rename_i hfinal
        exact bounded_single (by omega) ⟨hsend, hfinal⟩
      · rename_i htransient
        have htransient : isTransient e = true := eq_true_of_ne_false htransient
        split
        · rename_i hspent
          exact bounded_single (by omega) ⟨hsend, htransient, rfl, rfl, .inr hspent⟩
        · rename_i htime
          exact (ih (by omega)).cons hsend htransient htime

theorem EhloSettings.backoffDelay_le {attempt : Nat} {rand : ℚ} (h : 0 ≤ rand ∧ rand ≤ 1) :
    0 ≤ EhloSettings.backoffDelay attempt settings rand ∧
      EhloSettings.backoffDelay attempt settings rand ≤ backoffCeiling attempt settings := by
  have hbase := settings.base_bounds.1
  have hcap := settings.cap_bounds.1
  have hceiling : 0 ≤ backoffCeiling attempt settings :=
    le_min (by linarith) (mul_nonneg (by linarith) (by positivity))
  exact ⟨mul_nonneg h.1 hceiling, mul_le_of_le_one_left hceiling h.2⟩

theorem ehloAttempt_timeout (k : Nat) : 0 < (ehloAttempt url body settings hooks k).timeout ∧
    (ehloAttempt url body settings hooks k).timeout ≤ settings.ehloAttemptTimeoutSeconds := by
  have hbound := settings.timeout_bounds.1
  refine ⟨lt_min (by linarith) (lt_max_of_lt_right ?_), min_le_left _ _⟩
  norm_num [minAttemptTimeoutSeconds]

/-- Whatever the sends come to, a boot ends: it sends one body, at least once and at most as often
as its settings allow, each time with a positive timeout of at most the configured one; it resends
only after a failure of the transport and only while its budget allows for the pause, which stays
below the ceiling of the backoff; and it ends with the first answer, the first error that is final,
or both its cause and what was spent. -/
theorem sendWithRetry_bounded (send : Nat → EhloAttempt β → Except SendError α) (url : String)
    (body : β) (settings : EhloSettings) (hooks : RetryHooks)
    (hjitter : ∀ k, 0 ≤ hooks.rand k ∧ hooks.rand k ≤ 1) :
    Bounded send url body settings hooks 0 (sendWithRetry send url body settings hooks) ∧
    (∀ attempt ∈ (sendWithRetry send url body settings hooks).attempts,
      attempt.url = url ∧ attempt.body = body ∧ 0 < attempt.timeout ∧
      attempt.timeout ≤ settings.ehloAttemptTimeoutSeconds) ∧
    ∀ k delay, (sendWithRetry send url body settings hooks).slept[k]? = some delay →
      0 ≤ delay ∧ delay ≤ backoffCeiling (k + 1) settings := by
  have hone := settings.attempt_bounds.1
  have hbounded : Bounded send url body settings hooks 0
      (sendWithRetry send url body settings hooks) := sendFrom_bounded (by omega)
  refine ⟨hbounded, fun attempt hattempt => ?_, fun k delay hdelay => ?_⟩
  · rw [hbounded.attempts] at hattempt
    obtain ⟨k, -, rfl⟩ := List.mem_map.mp hattempt
    exact ⟨rfl, rfl, ehloAttempt_timeout k⟩
  · rw [hbounded.slept, List.getElem?_map, Option.map_eq_some_iff] at hdelay
    obtain ⟨k', hk', rfl⟩ := hdelay
    obtain ⟨hlt, hsame⟩ := List.getElem?_eq_some_iff.mp hk'
    rw [List.getElem_range', Nat.zero_add, Nat.one_mul] at hsame
    rw [← hsame]
    exact EhloSettings.backoffDelay_le (hjitter k)

/-- A master that refuses the first connection and answers the second. -/
theorem sendWithRetry_refusedOnce :
    let send : Nat → EhloAttempt Unit → Except SendError Nat := fun k _ =>
      if k = 0 then .error (.urlError (.transport "ConnectionRefusedError")) else .ok 7
    let hooks : RetryHooks := ⟨fun n => n, fun _ => 1 / 2⟩
    Bounded send "master/ehlo" () {} hooks 0 (sendWithRetry send "master/ehlo" () {} hooks) := by
  intro send hooks
  exact (sendWithRetry_bounded send "master/ehlo" () {} hooks fun _ => by norm_num [hooks]).1

end

end TradingAgents.Kernel
