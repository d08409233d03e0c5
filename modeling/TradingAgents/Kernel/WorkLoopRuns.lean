import Mathlib.Data.List.Chain
import Mathlib.Data.List.Infix
import Mathlib.Tactic.Linarith
import TradingAgents.Kernel.WorkLoop
import TradingAgents.ProofKit.Runs

/-! Runs of a work loop: passes over any pending items with any outcomes, restarts of the process,
and the writes of others in between.  A restart empties the retry ledger, so the bounds on attempts
and retry times hold within each process; a quarantine that the graph holds survives it. -/

namespace TradingAgents.Kernel

open ProofKit

variable {δ τ : Type}

/-! ### Attempts of one item in one process -/

/-- What may follow an attempt: after a failure an attempt at the retry time or later, whose own
delay is not shorter, and nothing after a quarantine. -/
def Follows (a b : Attempt) : Prop :=
  match a.outcome with
  | .advanced => True
  | .quarantined => False
  | .retry delay due => due ≤ b.time ∧
      ∀ delay' due', b.outcome = .retry delay' due' → delay ≤ delay'

/-- The attempts of one item in one process: each may follow the one before it, no delay exceeds the
ceiling, and no more attempts in a row are unsuccessful than the policy allows. -/
structure Orderly (policy : WorkLoopPolicy) (l : List Attempt) : Prop where
  chain : l.IsChain Follows
  ceiling : ∀ a ∈ l, ∀ delay due, a.outcome = .retry delay due →
    delay ≤ policy.backoffCeilingSeconds
  bounded : ∀ part, part <:+: l → (∀ a ∈ part, a.outcome ≠ .advanced) →
    part.length ≤ policy.maxAttemptsBeforeQuarantine

/-- The unsuccessful attempts at the end. -/
def streak (l : List Attempt) : Nat :=
  l.foldl (fun n a => if a.outcome = .advanced then 0 else n + 1) 0

theorem streak_append (l : List Attempt) (a : Attempt) :
    streak (l ++ [a]) = if a.outcome = .advanced then 0 else streak l + 1 := by
  rw [streak, List.foldl_append]
  rfl

theorem length_le_streak {l part : List Attempt} (h : part <:+ l)
    (hpart : ∀ a ∈ part, a.outcome ≠ .advanced) : part.length ≤ streak l := by
  induction l using List.reverseRecOn generalizing part with
  | nil =>
    rw [List.suffix_nil.mp h]
    exact Nat.zero_le _
  | append_singleton l a ih =>
    rcases List.suffix_concat_iff.mp h with rfl | ⟨front, rfl, hfront⟩
    · exact Nat.zero_le _
    · rw [streak_append, if_neg (hpart a (by simp)), List.length_append, List.length_singleton]
      exact Nat.succ_le_succ (ih hfront fun b hb => hpart b (by simp [hb]))

theorem Orderly.nil (policy : WorkLoopPolicy) : Orderly policy [] where
  chain := .nil
  ceiling := by simp
  bounded := fun part h _ => by
    rw [List.infix_nil.mp h]
    exact Nat.zero_le _

theorem Orderly.append {policy : WorkLoopPolicy} {l : List Attempt} {a : Attempt}
    (h : Orderly policy l) (hlast : ∀ b, l.getLast? = some b → Follows b a)
    (hceiling : ∀ delay due, a.outcome = .retry delay due → delay ≤ policy.backoffCeilingSeconds)
    (hstreak : streak (l ++ [a]) ≤ policy.maxAttemptsBeforeQuarantine) :
    Orderly policy (l ++ [a]) := by
  refine ⟨?_, fun b hb => ?_, fun part hpart hfailed => ?_⟩
  · rw [List.isChain_append]
    refine ⟨h.chain, .singleton a, fun b hb c hc => ?_⟩
    rw [List.head?_cons, Option.mem_some_iff] at hc
    exact hc ▸ hlast b hb
  · rcases List.mem_append.mp hb with hold | hnew
    · exact h.ceiling b hold
    · rw [List.mem_singleton.mp hnew]
      exact hceiling
  · rcases List.infix_concat_iff.mp hpart with hsuffix | hinfix
    · exact (length_le_streak hsuffix hfailed).trans hstreak
    · exact h.bounded part hinfix hfailed

/-! ### Backoff -/

section Backoff

variable {fl : ℚ →o ℚ} {policy : WorkLoopPolicy}

/-- The powers that the policy can reach are floats. -/
def WorkLoopPolicy.Representable (policy : WorkLoopPolicy) (fl : ℚ →o ℚ) : Prop :=
  fl (policy.backoffMultiplier ^ (policy.maxAttemptsBeforeQuarantine - 2)) ≤ maxFloat

theorem floatPow_ok (hfloat : policy.Representable fl) {n : Nat}
    (hn : n ≤ policy.maxAttemptsBeforeQuarantine - 2) :
    floatPow fl policy.backoffMultiplier n = .ok (fl (policy.backoffMultiplier ^ n)) := by
  have hpow := fl.monotone (pow_le_pow_right₀ policy.multiplier_gt.le hn)
  exact if_pos (hpow.trans hfloat)

theorem backoffDelay_ok (hfloat : policy.Representable fl) {attempts : Nat}
    (hn : attempts < policy.maxAttemptsBeforeQuarantine) :
    backoffDelay fl policy attempts = .ok (min (fl (policy.backoffBaseSeconds *
      fl (policy.backoffMultiplier ^ (attempts - 1)))) policy.backoffCeilingSeconds) := by
  rw [backoffDelay, floatPow_ok hfloat (by omega)]
  rfl

/-- The delays grow with the attempts, up to the ceiling. -/
theorem backoffDelay_mono (hfloat : policy.Representable fl) {m n : Nat} {d e : ℚ} (hmn : m ≤ n)
    (hn : n < policy.maxAttemptsBeforeQuarantine) (hd : backoffDelay fl policy m = .ok d)
    (he : backoffDelay fl policy n = .ok e) : d ≤ e := by
  rw [backoffDelay_ok hfloat (by omega)] at hd
  rw [backoffDelay_ok hfloat hn] at he
  cases hd
  cases he
  apply min_le_min_right
  apply fl.monotone
  apply mul_le_mul_of_nonneg_left _ policy.base_pos.le
  apply fl.monotone
  exact pow_le_pow_right₀ policy.multiplier_gt.le (by omega)

theorem backoffDelay_le {attempts : Nat} {d : ℚ} (h : backoffDelay fl policy attempts = .ok d) :
    d ≤ policy.backoffCeilingSeconds := by
  obtain ⟨power, -, hret⟩ := Fallible.bind_eq_ok.mp h
  cases hret
  exact min_le_right _ _

end Backoff

/-! ### The ledger of one item -/

section Ledger

variable {fl : ℚ →o ℚ} {policy : WorkLoopPolicy} {sink : Option String} {st st' : WorkLoopState}
  {g g' : Graph δ} {key : String} {l : List Attempt}

/-- The ledger of a process agrees with the attempts of an item: a record counts the failures at the
end and holds the retry time of the last one, and an item that was quarantined is in the set and,
where there is a sink, marked. -/
structure KeyLedger (fl : ℚ →o ℚ) (policy : WorkLoopPolicy) (sink : Option String)
    (st : WorkLoopState) (g : Graph δ) (key : String) (l : List Attempt) : Prop where
  orderly : Orderly policy l
  recorded : ∀ record, st.failures.get? key = some record →
    streak l = record.attempts ∧ record.attempts < policy.maxAttemptsBeforeQuarantine
  unrecorded : st.failures.get? key = none → key ∉ st.quarantined → streak l = 0
  retrying : ∀ a delay due, l.getLast? = some a → a.outcome = .retry delay due →
    ∃ record, st.failures.get? key = some record ∧ record.nextRetryAt = due ∧
      backoffDelay fl policy record.attempts = .ok delay
  ended : ∀ a ∈ l, a.outcome = .quarantined → key ∈ st.quarantined
  marks : key ∈ st.quarantined → sink.isSome = true → marked sink g key = true

/-- Two states of the loop say the same of an item. -/
structure SameFor (sink : Option String) (st st' : WorkLoopState) (g g' : Graph δ)
    (key : String) : Prop where
  failures : st'.failures.get? key = st.failures.get? key
  quarantined : key ∈ st'.quarantined ↔ key ∈ st.quarantined
  marked : marked sink g' key = marked sink g key

theorem SameFor.ledger (h : SameFor sink st st' g g' key)
    (hl : KeyLedger fl policy sink st g key l) : KeyLedger fl policy sink st' g' key l where
  orderly := hl.orderly
  recorded := by
    rw [h.failures]
    exact hl.recorded
  unrecorded := by
    rw [h.failures, h.quarantined]
    exact hl.unrecorded
  retrying := by
    rw [h.failures]
    exact hl.retrying
  ended := by
    rw [h.quarantined]
    exact hl.ended
  marks := by
    rw [h.quarantined, h.marked]
    exact hl.marks

theorem SameFor.eligible (h : SameFor sink st st' g g' key) (now : ℚ) :
    isEligible sink st' g' now key = isEligible sink st g now key := by
  simp only [isEligible, isQuarantined, h.failures, h.quarantined, h.marked]

theorem isEligible_iff {now : ℚ} : isEligible sink st g now key = true ↔
    isQuarantined sink st g key = false ∧
      ∀ record, st.failures.get? key = some record → record.nextRetryAt ≤ now := by
  unfold isEligible
  cases st.failures.get? key <;> simp

theorem isQuarantined_eq_false : isQuarantined sink st g key = false ↔
    key ∉ st.quarantined ∧ marked sink g key = false := by
  simp [isQuarantined]

theorem quarantineKey_injective (agent : String) : Function.Injective (quarantineKey agent) := by
  intro a b h
  unfold quarantineKey at h
  exact (String.append_right_inj _).mp h

/-- An attempt of an eligible item follows the one before it. -/
theorem KeyLedger.follows (h : KeyLedger fl policy sink st g key l) {a : Attempt}
    (heligible : isEligible sink st g a.time key = true)
    (hdelay : ∀ record delay delay' due', st.failures.get? key = some record →
      backoffDelay fl policy record.attempts = .ok delay → a.outcome = .retry delay' due' →
      delay ≤ delay') : ∀ b, l.getLast? = some b → Follows b a := by
  intro b hb
  obtain ⟨hfree, hdue⟩ := isEligible_iff.mp heligible
  unfold Follows
  split
  · trivial
  · rename_i hquarantined
    have hin := h.ended b (List.mem_of_getLast? hb) hquarantined
    exact (isQuarantined_eq_false.mp hfree).1 hin
  · rename_i delay due hretry
    obtain ⟨record, hrecord, rfl, hbackoff⟩ := h.retrying b delay due hb hretry
    exact ⟨hdue record hrecord, fun delay' due' => hdelay record delay delay' due' hrecord hbackoff⟩

theorem KeyLedger.success (h : KeyLedger fl policy sink st g key l) {now : ℚ}
    (heligible : isEligible sink st g now key = true) :
    KeyLedger fl policy sink (recordSuccess st key) g key (l ++ [⟨now, .advanced⟩]) := by
  have hstreak : streak (l ++ [⟨now, .advanced⟩]) = 0 := by
    rw [streak_append, if_pos rfl]
  refine ⟨?_, fun record hrecord => ?_, fun _ _ => hstreak, fun a delay due ha hretry => ?_,
    fun a ha hq => ?_, h.marks⟩
  · apply h.orderly.append
    · exact h.follows heligible fun _ _ _ _ _ _ hretry => by cases hretry
    · intro delay due hretry
      cases hretry
    · rw [hstreak]
      exact Nat.zero_le _
  · rw [recordSuccess, Dict.get?_erase, if_pos rfl] at hrecord
    cases hrecord
  · rw [List.getLast?_concat, Option.some.injEq] at ha
    subst ha
    cases hretry
  · rcases List.mem_append.mp ha with hold | hnew
    · exact h.ended a hold hq
    · rw [List.mem_singleton.mp hnew] at hq
      cases hq

theorem sameFor_success {key' : String} (hne : key' ≠ key) :
    SameFor sink st (recordSuccess st key) g g key' :=
  ⟨by rw [recordSuccess, Dict.get?_erase, if_neg hne], Iff.rfl, rfl⟩

theorem sameFor_marks {key' : String} (h : marked sink g' key' = marked sink g key') :
    SameFor sink st st g g' key' :=
  ⟨rfl, Iff.rfl, h⟩

theorem KeyLedger.attempts_eq (h : KeyLedger fl policy sink st g key l)
    (hkey : key ∉ st.quarantined) :
    ((st.failures.get? key).map FailureRecord.attempts).getD 0 = streak l := by
  cases hrecord : st.failures.get? key with
  | none => exact (h.unrecorded hrecord hkey).symm
  | some record => exact (h.recorded record hrecord).1.symm

variable [DecidableEq δ]

/-- A quarantine marks its item where there is a sink, and no other item. -/
theorem quarantine_ok (sink : Option String) (g : Graph δ) (key : String) (attempts : Nat)
    (reason stamp : String) : ∃ g', quarantine sink g key attempts reason stamp = .ok g' ∧
      (sink.isSome = true → marked sink g' key = true) ∧
      ∀ key', key' ≠ key → marked sink g' key' = marked sink g key' := by
  cases sink with
  | none => exact ⟨g, rfl, fun h => (by cases h), fun _ _ => rfl⟩
  | some agent =>
    unfold quarantine
    cases hnode : g.getNode workItemQuarantineLabel (quarantineKey agent key) with
    | some node => exact ⟨g, by simp [hnode], fun _ => by simp [marked, hnode], fun _ _ => rfl⟩
    | none =>
      simp only [hnode, Graph.mergeNode_fresh _ hnode]
      refine ⟨_, rfl, fun _ => ?_, fun key' hne => ?_⟩
      · simp [marked]
      · have hkey : quarantineKey agent key' ≠ quarantineKey agent key :=
          fun heq => hne (quarantineKey_injective agent heq)
        simp [marked, hkey]

/-- A failure of an eligible item: the ledger of the item gains the attempt, and nothing changes for
another item. -/
structure FailureRecorded (fl : ℚ →o ℚ) (policy : WorkLoopPolicy) (sink : Option String)
    (st st' : WorkLoopState) (g g' : Graph δ) (key : String) (l : List Attempt) (now : ℚ)
    (delay : Option ℚ) : Prop where
  ledger : KeyLedger fl policy sink st' g' key (l ++ [⟨now, match delay with
    | some delay => .retry delay (fl (now + delay))
    | none => .quarantined⟩])
  others : ∀ key', key' ≠ key → SameFor sink st st' g g' key'

theorem recordFailure_ok (hfloat : policy.Representable fl)
    (h : KeyLedger fl policy sink st g key l) {now : ℚ}
    (heligible : isEligible sink st g now key = true) (reason stamp : String) :
    ∃ st' g' did delay, recordFailure fl policy sink st g key now reason stamp =
        .ok (st', g', did, delay) ∧
      FailureRecorded fl policy sink st st' g g' key l now delay := by
  obtain ⟨hfree, -⟩ := isEligible_iff.mp heligible
  have hkey := (isQuarantined_eq_false.mp hfree).1
  have hattempts := h.attempts_eq hkey
  have hbelow : streak l < policy.maxAttemptsBeforeQuarantine := by
    cases hrecord : st.failures.get? key with
    | none =>
      rw [h.unrecorded hrecord hkey]
      exact policy.attempts_pos
    | some record =>
      obtain ⟨hstreak, hlt⟩ := h.recorded record hrecord
      omega
  simp only [recordFailure, hfree, Bool.false_eq_true, if_false, hattempts]
  split
  · rename_i hcap
    obtain ⟨g', hg', hmarked, hothers⟩ := quarantine_ok sink g key (streak l + 1) reason stamp
    refine ⟨_, g', true, none, by rw [hg']; rfl, ?_, fun key' hne => ?_⟩
    · have hstreak : streak (l ++ [⟨now, .quarantined⟩]) = streak l + 1 := by
        rw [streak_append, if_neg (by simp)]
      refine ⟨?_, fun record hrecord => ?_, fun _ hnot => ?_, fun a delay due ha hretry => ?_,
        fun _ _ _ => List.mem_cons_self, fun _ => hmarked⟩
      · apply h.orderly.append
        · exact h.follows heligible fun _ _ _ _ _ _ hretry => by cases hretry
        · intro delay due hretry
          cases hretry
        · rw [hstreak]
          omega
      · simp only [Dict.get?_erase, if_true] at hrecord
        cases hrecord
      · exact (hnot List.mem_cons_self).elim
      · rw [List.getLast?_concat, Option.some.injEq] at ha
        subst ha
        cases hretry
    · refine ⟨by simp [hne], by simp [hne], hothers key' hne⟩
  · rename_i hcap
    obtain ⟨delay, hdelay⟩ : ∃ delay, backoffDelay fl policy (streak l + 1) = .ok delay :=
      ⟨_, backoffDelay_ok hfloat (by omega)⟩
    refine ⟨_, g, false, some delay, by rw [hdelay]; rfl, ?_, fun key' hne => ?_⟩
    · have hstreak : streak (l ++ [⟨now, .retry delay (fl (now + delay))⟩]) = streak l + 1 := by
        rw [streak_append, if_neg (by simp)]
      refine ⟨?_, fun record hrecord => ?_, fun hnone _ => ?_, fun a delay' due ha hretry => ?_,
        fun a ha hq => ?_, h.marks⟩
      · apply h.orderly.append
        · refine h.follows heligible fun record d d' due hrecord hd hretry => ?_
          cases hretry
          obtain ⟨hcount, -⟩ := h.recorded record hrecord
          exact backoffDelay_mono hfloat (by omega) (by omega) hd hdelay
        · intro d due hretry
          cases hretry
          exact backoffDelay_le hdelay
        · rw [hstreak]
          omega
      · simp only [Dict.get?_set, if_true, Option.some.injEq] at hrecord
        subst hrecord
        exact ⟨hstreak, Nat.lt_of_not_le hcap⟩
      · simp only [Dict.get?_set, if_true] at hnone
        cases hnone
      · rw [List.getLast?_concat, Option.some.injEq] at ha
        subst ha
        cases hretry
        exact ⟨⟨streak l + 1, fl (now + delay), reason⟩, Dict.get?_set_self _ _ _, rfl, hdelay⟩
      · rcases List.mem_append.mp ha with hold | hnew
        · exact h.ended a hold hq
        · rw [List.mem_singleton.mp hnew] at hq
          cases hq
    · exact ⟨by simp [hne], Iff.rfl, rfl⟩

end Ledger

/-! ### A pass -/

/-- The attempts of one item in the trace of a pass. -/
def traceOf (trace : List (String × Attempt)) (key : String) : List Attempt :=
  (trace.filter fun e => decide (e.1 = key)).map Prod.snd

@[simp] theorem traceOf_append (trace : List (String × Attempt)) (key key' : String) (a : Attempt) :
    traceOf (trace ++ [(key, a)]) key' = traceOf trace key' ++ if key = key' then [a] else [] := by
  by_cases h : key = key' <;> simp [traceOf, h]

section Pass

variable {fl : ℚ →o ℚ} {policy : WorkLoopPolicy} {sink : Option String}
  {itemKey : τ → String} {p : PassInput δ τ} {g₀ : Graph δ} {H : String → List Attempt}

/-- Where a pass stands: the ledger agrees with the attempts before and in this pass, the items
still to come are eligible and have distinct keys, and no item marked at the start was attempted. -/
structure PassInvariant (fl : ℚ →o ℚ) (policy : WorkLoopPolicy) (sink : Option String)
    (itemKey : τ → String) (p : PassInput δ τ) (g₀ : Graph δ) (H : String → List Attempt)
    (todo : List τ) (s : PassState δ τ) : Prop where
  ledger : ∀ key, KeyLedger fl policy sink s.state s.graph key (H key ++ traceOf s.trace key)
  eligible : ∀ item ∈ todo, isEligible sink s.state s.graph p.now (itemKey item) = true
  distinct : (todo.map itemKey).Nodup
  kept : ∀ key, marked sink g₀ key = true → marked sink s.graph key = true
  unmarked : ∀ e ∈ s.trace, marked sink g₀ e.1 = false

theorem PassInvariant.perm {todo todo' : List τ} {s : PassState δ τ}
    (h : PassInvariant fl policy sink itemKey p g₀ H todo s) (hperm : todo'.Perm todo) :
    PassInvariant fl policy sink itemKey p g₀ H todo' s :=
  ⟨h.ledger, fun item hitem => h.eligible item (hperm.mem_iff.mp hitem),
    (hperm.map itemKey).nodup_iff.mpr h.distinct, h.kept, h.unmarked⟩

theorem PassInvariant.sublist {todo todo' : List τ} {s : PassState δ τ}
    (h : PassInvariant fl policy sink itemKey p g₀ H todo s) (hsub : todo'.Sublist todo) :
    PassInvariant fl policy sink itemKey p g₀ H todo' s :=
  ⟨h.ledger, fun item hitem => h.eligible item (hsub.subset hitem),
    (hsub.map itemKey).nodup h.distinct, h.kept, h.unmarked⟩

/-- An attempt that a pass made and settled: its entry in the trace, the ledger of its item, and
nothing else. -/
structure AttemptMade (fl : ℚ →o ℚ) (policy : WorkLoopPolicy) (sink : Option String)
    (s s' : PassState δ τ) (key : String) (l : List Attempt) (a : Attempt) : Prop where
  trace : s'.trace = s.trace ++ [(key, a)]
  ledger : KeyLedger fl policy sink s'.state s'.graph key (l ++ [a])
  others : ∀ key', key' ≠ key → SameFor sink s.state s'.state s.graph s'.graph key'
  marks : marked sink s.graph key = true → marked sink s'.graph key = true

theorem PassInvariant.made {todo : List τ} {item : τ} {s s' : PassState δ τ} {a : Attempt}
    (h : PassInvariant fl policy sink itemKey p g₀ H (item :: todo) s)
    (hmade : AttemptMade fl policy sink s s' (itemKey item)
      (H (itemKey item) ++ traceOf s.trace (itemKey item)) a) :
    PassInvariant fl policy sink itemKey p g₀ H todo s' := by
  obtain ⟨hnew, hdistinct⟩ := List.nodup_cons.mp h.distinct
  have heligible := isEligible_iff.mp (h.eligible item List.mem_cons_self)
  refine ⟨fun key => ?_, fun other hother => ?_, hdistinct, fun key hkey => ?_, fun e he => ?_⟩
  · rw [hmade.trace, traceOf_append]
    by_cases hk : itemKey item = key
    · rw [if_pos hk, ← List.append_assoc, ← hk]
      exact hmade.ledger
    · rw [if_neg hk, List.append_nil]
      exact (hmade.others key (Ne.symm hk)).ledger (h.ledger key)
  · have hne : itemKey other ≠ itemKey item :=
      fun heq => hnew (heq ▸ List.mem_map_of_mem hother)
    rw [(hmade.others _ hne).eligible]
    exact h.eligible other (List.mem_cons_of_mem _ hother)
  · by_cases hk : key = itemKey item
    · rw [hk] at hkey ⊢
      exact hmade.marks (h.kept _ hkey)
    · rw [(hmade.others key hk).marked]
      exact h.kept key hkey
  · rw [hmade.trace] at he
    rcases List.mem_append.mp he with hold | hlast
    · exact h.unmarked e hold
    · rw [List.mem_singleton.mp hlast]
      by_contra hmarked
      have hstart := h.kept _ (by simpa using hmarked)
      rw [(isQuarantined_eq_false.mp heligible.1).2] at hstart
      cases hstart

/-- The counters of a pass that a settled attempt leaves as they are. -/
structure CountersKept (s s' : PassState δ τ) : Prop where
  completed : s'.completed = s.completed
  attempted : s'.attempted = s.attempted
  failed : s'.failed = s.failed
  advanced : s'.advanced = s.advanced
  noProgress : s'.noProgress = s.noProgress

/-- A failure is recorded, whatever the item did. -/
theorem fail_ok [DecidableEq δ] (hfloat : policy.Representable fl) {s : PassState δ τ}
    {key : String}
    {l : List Attempt} (hledger : KeyLedger fl policy sink s.state s.graph key l)
    (heligible : isEligible sink s.state s.graph p.now key = true) (reason : String) :
    ∃ s' a, PassState.fail fl policy sink p s key reason = .ok s' ∧
      AttemptMade fl policy sink s s' key l a ∧ CountersKept s s' := by
  obtain ⟨st', g', did, delay, hrecord, hdone⟩ :=
    recordFailure_ok hfloat hledger heligible reason p.stamp
  have hfree := isEligible_iff.mp heligible
  unfold PassState.fail
  simp only [hrecord, Fallible.ok_bind]
  refine ⟨_, _, rfl, ⟨rfl, hdone.ledger, hdone.others, ?_⟩, ⟨rfl, rfl, rfl, rfl, rfl⟩⟩
  intro hmarked
  rw [(isQuarantined_eq_false.mp hfree.1).2] at hmarked
  cases hmarked

/-- What the handlers may do: a marker is written by the loop only. -/
def MarkersKept (sink : Option String) (p : PassInput δ τ) : Prop :=
  ∀ item g key, marked sink (p.processOne item g).1 key = marked sink g key

theorem PassInvariant.processed {todo : List τ} {s s' : PassState δ τ}
    (h : PassInvariant fl policy sink itemKey p g₀ H todo s) (hstate : s'.state = s.state)
    (htrace : s'.trace = s.trace) (hmarks : ∀ key, marked sink s'.graph key =
      marked sink s.graph key) : PassInvariant fl policy sink itemKey p g₀ H todo s' := by
  have hsame : ∀ key, SameFor sink s.state s'.state s.graph s'.graph key :=
    fun key => hstate ▸ sameFor_marks (hmarks key)
  refine ⟨fun key => ?_, fun item hitem => ?_, h.distinct, fun key hkey => ?_, ?_⟩
  · rw [htrace]
    exact (hsame key).ledger (h.ledger key)
  · rw [(hsame _).eligible]
    exact h.eligible item hitem
  · rw [hmarks]
    exact h.kept key hkey
  · rw [htrace]
    exact h.unmarked

/-- What the loop over `items` did: it attempted them up to the first stop request, and each attempt
failed or waits to be settled. -/
structure AllAttempted (itemKey : τ → String) (p : PassInput δ τ) (items : List τ)
    (s s' : PassState δ τ) : Prop where
  attempted : s'.attempted = s.attempted + (items.takeWhile fun i => !p.shouldStop i).length
  accounted : s'.failed + s'.completed.length = s.failed + s.completed.length +
    (items.takeWhile fun i => !p.shouldStop i).length
  keys : (s'.trace.map Prod.fst ++ s'.completed.map itemKey).Perm (s.trace.map Prod.fst ++
    s.completed.map itemKey ++ (items.takeWhile fun i => !p.shouldStop i).map itemKey)
  advanced : s'.advanced = s.advanced
  noProgress : s'.noProgress = s.noProgress

theorem attemptAll_ok [DecidableEq δ] (hfloat : policy.Representable fl)
    (hmarks : MarkersKept sink p) (items : List τ) (s : PassState δ τ)
    (h : PassInvariant fl policy sink itemKey p g₀ H (items ++ s.completed) s) :
    ∃ s', attemptAll fl policy sink itemKey p items s = .ok s' ∧
      AllAttempted itemKey p items s s' ∧
      PassInvariant fl policy sink itemKey p g₀ H s'.completed s' := by
  induction items generalizing s with
  | nil => exact ⟨s, rfl, ⟨rfl, rfl, by simp, rfl, rfl⟩, h⟩
  | cons item rest ih =>
    rw [attemptAll]
    by_cases hstop : p.shouldStop item = true
    · rw [if_pos hstop]
      refine ⟨s, rfl, ⟨by simp [hstop], by simp [hstop], by simp [hstop], rfl, rfl⟩, ?_⟩
      exact h.sublist (List.sublist_append_right _ _)
    · rw [if_neg hstop]
      rw [Bool.not_eq_true] at hstop
      simp only
      split
      · -- the item raised: the failure is recorded before the next item is looked at
        rename_i reason hraised
        have hprocessed : PassInvariant fl policy sink itemKey p g₀ H
          (item :: (rest ++ s.completed))
            { s with
              graph := (p.processOne item s.graph).1
              attempted := s.attempted + 1
              failed := s.failed + 1 } :=
          h.processed rfl rfl (hmarks item s.graph)
        obtain ⟨s₁, a, hfail, hmade, hkept⟩ := fail_ok hfloat (hprocessed.ledger (itemKey item))
          (hprocessed.eligible item List.mem_cons_self) reason
        have hinv := hprocessed.made hmade
        obtain ⟨s', hrun, hdone, hend⟩ := ih s₁ (by rw [hkept.completed]; exact hinv)
        refine ⟨s', by rw [hfail]; exact hrun, ⟨?_, ?_, ?_, ?_, ?_⟩, hend⟩
        · rw [hdone.attempted, hkept.attempted]
          simp [hstop]
          omega
        · rw [hdone.accounted, hkept.failed, hkept.completed]
          simp [hstop]
          omega
        · refine hdone.keys.trans ?_
          rw [hmade.trace, hkept.completed]
          simp only [hstop, List.map_append, List.map_cons, List.map_nil, List.append_assoc,
            List.takeWhile_cons, Bool.not_false, if_true, List.singleton_append]
          exact List.perm_middle.symm.append_left _
        · rw [hdone.advanced, hkept.advanced]
        · rw [hdone.noProgress, hkept.noProgress]
      · obtain ⟨s₁, hs₁⟩ : ∃ s₁ : PassState δ τ, s₁ = { s with
            graph := (p.processOne item s.graph).1
            attempted := s.attempted + 1
            completed := s.completed ++ [item] } := ⟨_, rfl⟩
        have hprocessed : PassInvariant fl policy sink itemKey p g₀ H
            (item :: rest ++ s.completed) s₁ := by
          subst hs₁
          exact h.processed rfl rfl (hmarks item s.graph)
        have hperm : (rest ++ s₁.completed).Perm (item :: rest ++ s.completed) := by
          rw [hs₁, ← List.append_assoc]
          exact List.perm_append_singleton item (rest ++ s.completed)
        obtain ⟨s', hrun, hdone, hend⟩ := ih s₁ (hprocessed.perm hperm)
        subst hs₁
        refine ⟨s', hrun, ⟨?_, ?_, ?_, hdone.advanced, hdone.noProgress⟩, hend⟩
        · rw [hdone.attempted]
          simp [hstop]
          omega
        · rw [hdone.accounted]
          simp [hstop]
          omega
        · refine hdone.keys.trans ?_
          simp [hstop]

/-- What the loop over the processed `items` did: each advanced or made no progress. -/
structure AllSettled (itemKey : τ → String) (items : List τ) (s s' : PassState δ τ) : Prop where
  attempted : s'.attempted = s.attempted
  failed : s'.failed = s.failed
  accounted : s'.advanced + s'.noProgress = s.advanced + s.noProgress + items.length
  keys : (s'.trace.map Prod.fst).Perm (s.trace.map Prod.fst ++ items.map itemKey)

theorem settleAll_ok [DecidableEq δ] (hfloat : policy.Representable fl) (remaining : List String)
    (items : List τ) (s : PassState δ τ)
    (h : PassInvariant fl policy sink itemKey p g₀ H items s) :
    ∃ s', settleAll fl policy sink itemKey p remaining items s = .ok s' ∧
      AllSettled itemKey items s s' ∧ PassInvariant fl policy sink itemKey p g₀ H [] s' := by
  induction items generalizing s with
  | nil => exact ⟨s, rfl, ⟨rfl, rfl, rfl, by simp⟩, h⟩
  | cons item rest ih =>
    rw [settleAll]
    have hledger := h.ledger (itemKey item)
    have heligible := h.eligible item List.mem_cons_self
    split
    · have hcounted : PassInvariant fl policy sink itemKey p g₀ H (item :: rest)
          { s with noProgress := s.noProgress + 1 } := h.processed rfl rfl fun _ => rfl
      obtain ⟨s₁, a, hfail, hmade, hkept⟩ := fail_ok hfloat (hcounted.ledger (itemKey item))
        (hcounted.eligible item List.mem_cons_self) "still pending after processing"
      obtain ⟨s', hrun, hdone, hend⟩ := ih s₁ (hcounted.made hmade)
      refine ⟨s', by rw [hfail]; exact hrun, ⟨?_, ?_, ?_, ?_⟩, hend⟩
      · rw [hdone.attempted, hkept.attempted]
      · rw [hdone.failed, hkept.failed]
      · rw [hdone.accounted, hkept.advanced, hkept.noProgress]
        simp
        omega
      · refine hdone.keys.trans ?_
        rw [hmade.trace]
        simp
    · have hmade : AttemptMade fl policy sink s
          { s with
            state := recordSuccess s.state (itemKey item)
            advanced := s.advanced + 1
            trace := s.trace ++ [(itemKey item, ⟨p.now, .advanced⟩)] }
          (itemKey item) (H (itemKey item) ++ traceOf s.trace (itemKey item))
          ⟨p.now, .advanced⟩ :=
        ⟨rfl, hledger.success heligible, fun _ hne => sameFor_success hne, fun hm => hm⟩
      obtain ⟨s', hrun, hdone, hend⟩ := ih _ (h.made hmade)
      refine ⟨s', hrun, ⟨hdone.attempted, hdone.failed, ?_, ?_⟩, hend⟩
      · rw [hdone.accounted]
        simp
        omega
      · refine hdone.keys.trans ?_
        simp

/-- What a pass did: it attempted every eligible item up to the first stop request, whatever
happened to the others, and its counts add up. -/
structure PassCounted (sink : Option String) (itemKey : τ → String) (p : PassInput δ τ)
    (st : WorkLoopState) (g : Graph δ) (s : PassState δ τ) (r : RunOnceResult) : Prop where
  attempts : (s.trace.map Prod.fst).Perm
    (((eligibleItems sink itemKey p st g).1.takeWhile fun i => !p.shouldStop i).map itemKey)
  found : r.found = r.attempted + r.skipped +
    ((eligibleItems sink itemKey p st g).1.dropWhile fun i => !p.shouldStop i).length
  attempted : r.attempted = r.advanced + r.failed + r.noProgress

theorem runOnce_ok [DecidableEq δ] (hfloat : policy.Representable fl) (hmarks : MarkersKept sink p)
    (hitems : (p.items.map itemKey).Nodup) {st : WorkLoopState} {g : Graph δ}
    (h : ∀ key, KeyLedger fl policy sink st g key (H key)) :
    ∃ s r, runOnce fl policy sink itemKey p st g = .ok (s, r) ∧
      PassCounted sink itemKey p st g s r ∧
      PassInvariant fl policy sink itemKey p g H [] s := by
  have hstart : PassInvariant fl policy sink itemKey p g H
      ((eligibleItems sink itemKey p st g).1 ++ []) { graph := g, state := st } := by
    refine ⟨fun key => ?_, fun item hitem => ?_, ?_, fun _ hm => hm, by simp⟩
    · simpa [traceOf] using h key
    · rw [List.append_nil] at hitem
      exact (List.mem_filter.mp hitem).2
    · rw [List.append_nil]
      exact (List.filter_sublist.map itemKey).nodup hitems
  obtain ⟨s₁, hrun, hdone, hinv⟩ := attemptAll_ok hfloat hmarks _
    { graph := g, state := st } hstart
  obtain ⟨s₂, hsettled, hall, hend⟩ :=
    settleAll_ok hfloat ((p.pendingAfter s₁.graph).map itemKey) s₁.completed s₁ hinv
  have hsplit : p.items.length = (eligibleItems sink itemKey p st g).1.length +
      (eligibleItems sink itemKey p st g).2 := by
    simp only [eligibleItems]
    exact List.length_eq_length_filter_add _
  have hcut := congrArg List.length (List.takeWhile_append_dropWhile
    (p := fun i => !p.shouldStop i) (l := (eligibleItems sink itemKey p st g).1))
  rw [List.length_append] at hcut
  have hattempted := hdone.attempted
  have haccounted := hdone.accounted
  have hadvanced := hdone.advanced
  have hnoProgress := hdone.noProgress
  have hsum := hall.accounted
  refine ⟨s₂, _, by rw [runOnce]; simp only [hrun, hsettled, Fallible.ok_bind]; rfl,
    ⟨?_, ?_, ?_⟩, hend⟩
  · refine hall.keys.trans (hdone.keys.trans ?_)
    simp
  · simp only [hall.attempted]
    simp at *
    omega
  · simp only [hall.attempted, hall.failed]
    simp at *
    omega

end Pass

/-! ### Runs -/

/-- The store, the ledger of the running process, the attempts of every item in it, and those in the
processes before it. -/
structure LoopWorld (δ : Type) where
  graph : Graph δ
  state : WorkLoopState := {}
  history : String → List Attempt := fun _ => []
  past : List (String → List Attempt) := []

/-- A pass, a restart of the process, or the writes of others. -/
inductive LoopEvent (δ τ : Type) where
  | pass (p : PassInput δ τ)
  | restart
  | elsewhere (g : Graph δ)

section Runs

variable [DecidableEq δ]

def LoopWorld.step (fl : ℚ →o ℚ) (policy : WorkLoopPolicy) (sink : Option String)
    (itemKey : τ → String) (w : LoopWorld δ) :
    LoopEvent δ τ → Except WorkLoopError (LoopWorld δ)
  | .pass p => do
    let (s, _) ← runOnce fl policy sink itemKey p w.state w.graph
    pure { w with
      graph := s.graph
      state := s.state
      history := fun key => w.history key ++ traceOf s.trace key }
  | .restart => pure { graph := w.graph, past := w.past ++ [w.history] }
  | .elsewhere g => pure { w with graph := g }

/-- The items of a pass have distinct keys, and nobody but the loop writes its markers. -/
def LoopAllowed (sink : Option String) (itemKey : τ → String) (w : LoopWorld δ) :
    LoopEvent δ τ → Prop
  | .pass p => (p.items.map itemKey).Nodup ∧ MarkersKept sink p
  | .restart => True
  | .elsewhere g => ∀ key, marked sink g key = marked sink w.graph key

/-- A first process before its first pass. -/
def LoopStart (w : LoopWorld δ) : Prop :=
  w.state = {} ∧ (∀ key, w.history key = []) ∧ w.past = []

/-- What holds of a loop in every reachable state: in each process the attempts of every item are
orderly; where the graph holds the quarantines no later process attempts a quarantined item; and the
next pass goes through, attempts all it may and counts what it did. -/
structure LoopContained (fl : ℚ →o ℚ) (policy : WorkLoopPolicy) (sink : Option String)
    (itemKey : τ → String) (w : LoopWorld δ) : Prop where
  orderly : ∀ history ∈ w.past ++ [w.history], ∀ key, Orderly policy (history key)
  quarantines : sink.isSome = true → (w.past ++ [w.history]).Pairwise fun earlier later =>
    ∀ key, (∃ a ∈ earlier key, a.outcome = .quarantined) → later key = []
  pass : ∀ p : PassInput δ τ, LoopAllowed sink itemKey w (.pass p) → ∃ s r,
    runOnce fl policy sink itemKey p w.state w.graph = .ok (s, r) ∧
      PassCounted sink itemKey p w.state w.graph s r

variable {fl : ℚ →o ℚ} {policy : WorkLoopPolicy} {sink : Option String} {itemKey : τ → String}

/-- The invariant of the runs. -/
structure LoopInvariant (fl : ℚ →o ℚ) (policy : WorkLoopPolicy) (sink : Option String)
    (w : LoopWorld δ) : Prop where
  ledger : ∀ key, KeyLedger fl policy sink w.state w.graph key (w.history key)
  past : ∀ history ∈ w.past, ∀ key, Orderly policy (history key)
  marks : sink.isSome = true → ∀ history ∈ w.past, ∀ key,
    (∃ a ∈ history key, a.outcome = .quarantined) → marked sink w.graph key = true
  quarantines : sink.isSome = true → (w.past ++ [w.history]).Pairwise fun earlier later =>
    ∀ key, (∃ a ∈ earlier key, a.outcome = .quarantined) → later key = []

omit [DecidableEq δ] in
theorem KeyLedger.fresh (g : Graph δ) (key : String) : KeyLedger fl policy sink {} g key [] where
  orderly := .nil policy
  recorded := fun record hrecord => by simp at hrecord
  unrecorded := fun _ _ => rfl
  retrying := fun a delay due ha => by cases ha
  ended := by simp
  marks := fun hkey => by simp at hkey

omit [DecidableEq δ] in
theorem LoopInvariant.start {w : LoopWorld δ} (h : LoopStart w) :
    LoopInvariant fl policy sink w := by
  obtain ⟨hstate, hhistory, hpast⟩ := h
  refine ⟨fun key => ?_, by simp [hpast], by simp [hpast], by simp [hpast]⟩
  rw [hstate, hhistory]
  exact .fresh w.graph key

theorem traceOf_eq_nil {trace : List (String × Attempt)} {key : String}
    (h : ∀ e ∈ trace, e.1 ≠ key) : traceOf trace key = [] := by
  simpa [traceOf, List.filter_eq_nil_iff] using h

theorem LoopInvariant.step {w w' : LoopWorld δ} (h : LoopInvariant fl policy sink w)
    (hfloat : policy.Representable fl) (event : LoopEvent δ τ)
    (hallowed : LoopAllowed sink itemKey w event)
    (hok : w.step fl policy sink itemKey event = .ok w') : LoopInvariant fl policy sink w' := by
  cases event with
  | pass p =>
    obtain ⟨hitems, hmarks⟩ := hallowed
    obtain ⟨s, r, hrun, -, hend⟩ := runOnce_ok hfloat hmarks hitems h.ledger
    obtain ⟨⟨s', r'⟩, hrun', hret⟩ := Fallible.bind_eq_ok.mp hok
    rw [hrun] at hrun'
    cases hrun'
    cases hret
    refine ⟨hend.ledger, h.past, fun hsink history hhistory key hq => ?_, fun hsink => ?_⟩
    · exact hend.kept key (h.marks hsink history hhistory key hq)
    · obtain ⟨hpairs, -, hlast⟩ := List.pairwise_append.mp (h.quarantines hsink)
      refine List.pairwise_append.mpr ⟨hpairs, List.pairwise_singleton _ _, ?_⟩
      intro earlier hearlier later hlater key hq
      rw [List.mem_singleton.mp hlater]
      -- a key that an earlier process quarantined is marked, so this pass did not attempt it
      have hmarked := h.marks hsink earlier hearlier key hq
      have hnone : traceOf s.trace key = [] := by
        apply traceOf_eq_nil
        rintro e he rfl
        rw [hend.unmarked e he] at hmarked
        cases hmarked
      simp only [hnone, List.append_nil]
      exact hlast earlier hearlier w.history (List.mem_singleton_self _) key hq
  | restart =>
    cases hok
    refine ⟨fun key => .fresh w.graph key, fun history hhistory => ?_,
      fun hsink history hhistory key hq => ?_, fun hsink => ?_⟩
    · rcases List.mem_append.mp hhistory with hold | hlast
      · exact h.past history hold
      · rw [List.mem_singleton.mp hlast]
        exact fun key => (h.ledger key).orderly
    · rcases List.mem_append.mp hhistory with hold | hlast
      · exact h.marks hsink history hold key hq
      · rw [List.mem_singleton.mp hlast] at hq
        obtain ⟨a, ha, hquarantined⟩ := hq
        exact (h.ledger key).marks ((h.ledger key).ended a ha hquarantined) hsink
    · refine List.pairwise_append.mpr ⟨h.quarantines hsink, List.pairwise_singleton _ _, ?_⟩
      intro earlier _ later hlater key _
      rw [List.mem_singleton.mp hlater]
  | elsewhere g =>
    cases hok
    refine ⟨fun key => (sameFor_marks (hallowed key)).ledger (h.ledger key), h.past,
      fun hsink history hhistory key hq => ?_, h.quarantines⟩
    rw [hallowed]
    exact h.marks hsink history hhistory key hq

/-- Over any passes, failures and restarts the loop is contained. -/
theorem work_loop_contained (hfloat : policy.Representable fl) {w : LoopWorld δ}
    (h : Reach (LoopWorld.step fl policy sink itemKey) (LoopAllowed sink itemKey) LoopStart w) :
    LoopContained fl policy sink itemKey w := by
  have hinv : LoopInvariant fl policy sink w := h.invariant (fun _ hs => .start hs)
    fun _ event _ hs hallowed hok => hs.step hfloat event hallowed hok
  refine ⟨fun history hhistory key => ?_, hinv.quarantines, fun p hp => ?_⟩
  · rcases List.mem_append.mp hhistory with hold | hlast
    · exact hinv.past history hold key
    · rw [List.mem_singleton.mp hlast]
      exact (hinv.ledger key).orderly
  · obtain ⟨hitems, hmarks⟩ := hp
    obtain ⟨s, r, hrun, hcounted, -⟩ := runOnce_ok hfloat hmarks hitems hinv.ledger
    exact ⟨s, r, hrun, hcounted⟩

end Runs

/-- A pass over one item that raises. -/
def failingPass (now : ℚ) : LoopEvent Unit String :=
  .pass ⟨now, ["Run:r1"], fun _ => false, fun _ g => (g, some "ValueError: boom"),
    fun _ => ["Run:r1"], "t"⟩

theorem failingPass_allowed (sink : Option String) (w : LoopWorld Unit) (now : ℚ) :
    LoopAllowed sink id w (failingPass now) :=
  ⟨List.nodup_singleton _, fun _ _ _ => rfl⟩

theorem representable_default : WorkLoopPolicy.Representable {} OrderHom.id := by
  change (2 : ℚ) ^ 3 ≤ maxFloat
  decide +kernel

/-- The attempts of an item in all processes, in order. -/
def LoopWorld.attempts {δ : Type} (w : LoopWorld δ) (key : String) : List Attempt :=
  (w.past ++ [w.history]).flatMap fun history => history key

theorem work_loop_contained_failing : ∃ w : LoopWorld Unit,
    [failingPass 0, failingPass 60, .restart, failingPass 70].foldlM
      (LoopWorld.step OrderHom.id {} (some "scanner") id) { graph := Graph.empty } = .ok w ∧
      (w.attempts "Run:r1").length = 3 ∧
      LoopContained OrderHom.id {} (some "scanner") (id : String → String) w := by
  have hrun : Fallible.check
      (fun w : LoopWorld Unit => decide ((w.attempts "Run:r1").length = 3))
      ([failingPass 0, failingPass 60, .restart, failingPass 70].foldlM
        (LoopWorld.step OrderHom.id {} (some "scanner") id) { graph := Graph.empty }) = true := by
    decide +kernel
  obtain ⟨w, hw, hlength⟩ := Fallible.check_eq_true.mp hrun
  refine ⟨w, hw, of_decide_eq_true hlength, ?_⟩
  refine work_loop_contained representable_default
    (Reach.of_allowed (.start ⟨rfl, fun _ => rfl, rfl⟩) (fun event hevent w => ?_) hw)
  simp only [List.mem_cons, List.not_mem_nil, or_false] at hevent
  rcases hevent with rfl | rfl | rfl | rfl
  · exact failingPass_allowed _ w 0
  · exact failingPass_allowed _ w 60
  · trivial
  · exact failingPass_allowed _ w 70

/-- With two attempts allowed, a restart in between makes room for a third one in a row. -/
theorem restart_forgets_attempts : ∃ w : LoopWorld Unit,
    Reach (LoopWorld.step OrderHom.id { maxAttemptsBeforeQuarantine := 2 } (some "scanner")
      (id : String → String)) (LoopAllowed (some "scanner") id) LoopStart w ∧
      (∀ a ∈ w.attempts "Run:r1", a.outcome ≠ .advanced) ∧
      2 < (w.attempts "Run:r1").length := by
  have hrun : Fallible.check
      (fun w : LoopWorld Unit => decide ((∀ a ∈ w.attempts "Run:r1", a.outcome ≠ .advanced) ∧
        2 < (w.attempts "Run:r1").length))
      ([failingPass 0, .restart, failingPass 0, failingPass 60].foldlM
        (LoopWorld.step OrderHom.id { maxAttemptsBeforeQuarantine := 2 } (some "scanner") id)
        { graph := Graph.empty }) = true := by
    decide +kernel
  obtain ⟨w, hw, hcheck⟩ := Fallible.check_eq_true.mp hrun
  refine ⟨w, ?_, of_decide_eq_true hcheck⟩
  refine Reach.of_allowed (.start ⟨rfl, fun _ => rfl, rfl⟩) (fun event hevent w => ?_) hw
  simp only [List.mem_cons, List.not_mem_nil, or_false] at hevent
  rcases hevent with rfl | rfl | rfl | rfl
  · exact failingPass_allowed _ w 0
  · trivial
  · exact failingPass_allowed _ w 0
  · exact failingPass_allowed _ w 60

end TradingAgents.Kernel
