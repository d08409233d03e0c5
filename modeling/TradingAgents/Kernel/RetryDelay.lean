import TradingAgents.Kernel.WorkLoopRuns

/-! The sleep of the work loop between two passes: the delay that a pass reports against the
earliest retry among the items it found.  Times are exact here. -/

namespace TradingAgents.Kernel

open ProofKit

variable {δ τ : Type}

/-- The sleep after a pass without progress. -/
def sleepDuration (pollInterval : ℚ) (r : RunOnceResult) : ℚ :=
  match r.nextRetryDelay with
  | none => pollInterval
  | some delay => min pollInterval delay

/-- The time until each found item that is not quarantined and carries a retry record may be
retried. -/
def remainingDelays (sink : Option String) (itemKey : τ → String) (p : PassInput δ τ)
    (s : PassState δ τ) : List ℚ :=
  p.items.filterMap fun item =>
    if isQuarantined sink s.state s.graph (itemKey item) then none
    else (s.state.failures.get? (itemKey item)).map fun record => record.nextRetryAt - p.now

/-- The failures of an item before a pass, since it last advanced. -/
def priorAttempts (st : WorkLoopState) (key : String) : Nat :=
  ((st.failures.get? key).map FailureRecord.attempts).getD 0

/-- An attempt of the pass has failed, of an item that the policy retries after the delay. -/
def Retried (policy : WorkLoopPolicy) (st : WorkLoopState) (s : PassState δ τ) (delay : ℚ) : Prop :=
  ∃ key a, (key, a) ∈ s.trace ∧ a.outcome ≠ .advanced ∧
    priorAttempts st key + 1 < policy.maxAttemptsBeforeQuarantine ∧
    backoffDelay OrderHom.id policy (priorAttempts st key + 1) = .ok delay

/-- No item that is due is left by a stop, and if an attempt is to be retried, one of those comes no
later than every item that still backs off. -/
structure RetriesCovered (policy : WorkLoopPolicy) (itemKey : τ → String) (p : PassInput δ τ)
    (st : WorkLoopState) (s : PassState δ τ) : Prop where
  attempted : ∀ item ∈ p.items, ∀ record, st.failures.get? (itemKey item) = some record →
    record.nextRetryAt ≤ p.now → itemKey item ∈ s.trace.map Prod.fst
  covered : ∀ item ∈ p.items, ∀ record, st.failures.get? (itemKey item) = some record →
    p.now < record.nextRetryAt → (∃ delay, Retried policy st s delay) →
      ∃ delay, Retried policy st s delay ∧ delay ≤ record.nextRetryAt - p.now

/-! ### What a pass makes of its items -/

/-- No item is quarantined and carries a retry record. -/
def Shelved (sink : Option String) (st : WorkLoopState) (g : Graph δ) : Prop :=
  ∀ key, isQuarantined sink st g key = true → st.failures.get? key = none

/-- What an attempt has left of its item. -/
def AttemptLeft (policy : WorkLoopPolicy) (sink : Option String) (p : PassInput δ τ)
    (st : WorkLoopState) (s : PassState δ τ) (key : String) (a : Attempt) : Prop :=
  match a.outcome with
  | .advanced => s.state.failures.get? key = none
  | .retry delay _ => priorAttempts st key + 1 < policy.maxAttemptsBeforeQuarantine ∧
      backoffDelay OrderHom.id policy (priorAttempts st key + 1) = .ok delay ∧
      (∃ record, s.state.failures.get? key = some record ∧
        record.nextRetryAt = p.now + delay) ∧
      isQuarantined sink s.state s.graph key = false
  | .quarantined => policy.maxAttemptsBeforeQuarantine ≤ priorAttempts st key + 1 ∧
      s.state.failures.get? key = none

/-- Where a pass stands that began with a ledger and a store: `todo` has distinct items that may be
attempted and have not been, an item without an attempt is as it was, and every attempt has left of
its item what its outcome says. -/
structure RetryTally (policy : WorkLoopPolicy) (sink : Option String) (itemKey : τ → String)
    (p : PassInput δ τ) (st : WorkLoopState) (g : Graph δ) (todo : List τ) (s : PassState δ τ) :
    Prop where
  distinct : (todo.map itemKey).Nodup
  fresh : ∀ item ∈ todo, itemKey item ∉ s.trace.map Prod.fst ∧
    isEligible sink st g p.now (itemKey item) = true
  listed : ∀ item ∈ todo, item ∈ p.items
  traced : ∀ key ∈ s.trace.map Prod.fst, isEligible sink st g p.now key = true ∧
    ∃ item ∈ p.items, itemKey item = key
  untouched : ∀ key, key ∉ s.trace.map Prod.fst → SameFor sink st s.state g s.graph key
  delays : ∀ delay, delay ∈ s.retryDelays ↔
    ∃ key a due, (key, a) ∈ s.trace ∧ a.outcome = .retry delay due
  left : ∀ e ∈ s.trace, AttemptLeft policy sink p st s e.1 e.2

section

variable {policy : WorkLoopPolicy} {sink : Option String} {itemKey : τ → String}
  {p : PassInput δ τ} {st st' : WorkLoopState} {g g' : Graph δ} {todo : List τ}
  {s s' : PassState δ τ} {item : τ} {key : String} {a : Attempt}

theorem SameFor.isQuarantined_eq (h : SameFor sink st st' g g' key) :
    isQuarantined sink st' g' key = isQuarantined sink st g key := by
  simp only [isQuarantined, h.quarantined, h.marked]

theorem SameFor.priorAttempts_eq (h : SameFor sink st st' g g' key) :
    priorAttempts st' key = priorAttempts st key := by
  rw [priorAttempts, h.failures, priorAttempts]

/-- What an attempt has left stands while nothing touches its item. -/
theorem AttemptLeft.same (h : AttemptLeft policy sink p st s key a)
    (hsame : SameFor sink s.state s'.state s.graph s'.graph key) :
    AttemptLeft policy sink p st s' key a := by
  unfold AttemptLeft at h ⊢
  rw [hsame.failures, hsame.isQuarantined_eq]
  exact h

theorem RetryTally.perm {todo' : List τ} (h : RetryTally policy sink itemKey p st g todo s)
    (hperm : todo'.Perm todo) : RetryTally policy sink itemKey p st g todo' s :=
  ⟨(hperm.map itemKey).nodup_iff.mpr h.distinct, fun item hitem => h.fresh item
    (hperm.mem_iff.mp hitem), fun item hitem => h.listed item (hperm.mem_iff.mp hitem), h.traced,
    h.untouched, h.delays, h.left⟩

theorem RetryTally.sublist {todo' : List τ} (h : RetryTally policy sink itemKey p st g todo s)
    (hsub : todo'.Sublist todo) : RetryTally policy sink itemKey p st g todo' s :=
  ⟨(hsub.map itemKey).nodup h.distinct, fun item hitem => h.fresh item (hsub.subset hitem),
    fun item hitem => h.listed item (hsub.subset hitem), h.traced, h.untouched, h.delays, h.left⟩

/-- Counting and the writes of a handler touch no item. -/
theorem RetryTally.processed (h : RetryTally policy sink itemKey p st g todo s)
    (hstate : s'.state = s.state) (htrace : s'.trace = s.trace)
    (hdelays : s'.retryDelays = s.retryDelays)
    (hmarks : ∀ key, marked sink s'.graph key = marked sink s.graph key) :
    RetryTally policy sink itemKey p st g todo s' := by
  have hsame : ∀ key, SameFor sink s.state s'.state s.graph s'.graph key :=
    fun key => hstate ▸ sameFor_marks (hmarks key)
  refine ⟨h.distinct, ?_, h.listed, ?_, fun key hkey => ?_, ?_, fun e he => ?_⟩
  · rw [htrace]
    exact h.fresh
  · rw [htrace]
    exact h.traced
  · rw [htrace] at hkey
    have hold := h.untouched key hkey
    exact ⟨(hsame key).failures.trans hold.failures, (hsame key).quarantined.trans hold.quarantined,
      (hsame key).marked.trans hold.marked⟩
  · rw [hdelays, htrace]
    exact h.delays
  · rw [htrace] at he
    exact (h.left e he).same (hsame e.1)

/-- An attempt of the next item has been settled. -/
theorem RetryTally.settle (h : RetryTally policy sink itemKey p st g (item :: todo) s)
    (htrace : s'.trace = s.trace ++ [(itemKey item, a)])
    (hothers : ∀ key, key ≠ itemKey item → SameFor sink s.state s'.state s.graph s'.graph key)
    (hdelays : ∀ delay, delay ∈ s'.retryDelays ↔ delay ∈ s.retryDelays ∨
      ∃ due, a.outcome = .retry delay due)
    (hleft : AttemptLeft policy sink p st s' (itemKey item) a) :
    RetryTally policy sink itemKey p st g todo s' := by
  obtain ⟨hnew, hdistinct⟩ := List.nodup_cons.mp h.distinct
  obtain ⟨hfresh, heligible⟩ := h.fresh item List.mem_cons_self
  have hkeys : ∀ key, key ∈ s'.trace.map Prod.fst ↔
      key ∈ s.trace.map Prod.fst ∨ key = itemKey item := by
    intro key
    rw [htrace, List.map_append, List.mem_append]
    simp
  refine ⟨hdistinct, fun other hother => ⟨?_, (h.fresh other (List.mem_cons_of_mem _ hother)).2⟩,
    fun other hother => h.listed other (List.mem_cons_of_mem _ hother), fun key hkey => ?_,
    fun key hkey => ?_, fun delay => ?_, fun e he => ?_⟩
  · rw [hkeys]
    rintro (hold | heq)
    · exact (h.fresh other (List.mem_cons_of_mem _ hother)).1 hold
    · exact hnew (heq ▸ List.mem_map_of_mem hother)
  · rcases (hkeys key).mp hkey with hold | heq
    · exact h.traced key hold
    · exact heq ▸ ⟨heligible, item, h.listed item List.mem_cons_self, rfl⟩
  · rw [hkeys, not_or] at hkey
    have hold := h.untouched key hkey.1
    have hsame := hothers key hkey.2
    exact ⟨hsame.failures.trans hold.failures, hsame.quarantined.trans hold.quarantined,
      hsame.marked.trans hold.marked⟩
  · rw [hdelays, h.delays, htrace]
    constructor
    · rintro (⟨key, b, due, hb, hretry⟩ | ⟨due, hretry⟩)
      · exact ⟨key, b, due, List.mem_append_left _ hb, hretry⟩
      · exact ⟨itemKey item, a, due, by simp, hretry⟩
    · rintro ⟨key, b, due, hb, hretry⟩
      rcases List.mem_append.mp hb with hold | hlast
      · exact .inl ⟨key, b, due, hold, hretry⟩
      · cases List.mem_singleton.mp hlast
        exact .inr ⟨due, hretry⟩
  · rw [htrace] at he
    rcases List.mem_append.mp he with hold | hlast
    · have hne : e.1 ≠ itemKey item :=
        fun heq => hfresh (heq ▸ List.mem_map_of_mem hold)
      exact (h.left e hold).same (hothers e.1 hne)
    · rw [List.mem_singleton.mp hlast]
      exact hleft

/-! ### The loops -/

section Pass

variable [DecidableEq δ]

/-- What a recorded failure leaves: one attempt, and the record of its item or none. -/
theorem fail_left {reason : String} (hsame : SameFor sink st s.state g s.graph key)
    (hfree : isQuarantined sink st g key = false)
    (hok : PassState.fail OrderHom.id policy sink p s key reason = .ok s') :
    ∃ a, s'.trace = s.trace ++ [(key, a)] ∧ s'.completed = s.completed ∧
      (∀ key', key' ≠ key → SameFor sink s.state s'.state s.graph s'.graph key') ∧
      (∀ delay, delay ∈ s'.retryDelays ↔ delay ∈ s.retryDelays ∨
        ∃ due, a.outcome = .retry delay due) ∧
      AttemptLeft policy sink p st s' key a := by
  have hfree' : isQuarantined sink s.state s.graph key = false := by
    rw [hsame.isQuarantined_eq]
    exact hfree
  have hprior := hsame.priorAttempts_eq
  unfold priorAttempts at hprior
  unfold PassState.fail recordFailure at hok
  simp only [hfree', Bool.false_eq_true, if_false, hprior] at hok
  split at hok
  · rename_i hcap
    obtain ⟨g', hg', -, hothers⟩ := quarantine_ok sink s.graph key (priorAttempts st key + 1)
      reason p.stamp
    unfold priorAttempts at hg'
    rw [hg'] at hok
    cases hok
    refine ⟨_, rfl, rfl, fun key' hne => ⟨by simp [hne], by simp [hne], hothers key' hne⟩,
      fun delay => by simp, hcap, by simp⟩
  · rename_i hcap
    obtain ⟨⟨state, graph, did, delay⟩, hrecord, hret⟩ := Fallible.bind_eq_ok.mp hok
    obtain ⟨d, hdelay, hret'⟩ := Fallible.bind_eq_ok.mp hrecord
    cases hret'
    cases hret
    refine ⟨_, rfl, rfl, fun key' hne => ⟨by simp [hne], Iff.rfl, rfl⟩, fun delay => ?_,
      Nat.lt_of_not_le hcap, hdelay, ⟨_, Dict.get?_set_self _ _ _, rfl⟩, hfree'⟩
    simp [eq_comm]

theorem RetryTally.fail (h : RetryTally policy sink itemKey p st g (item :: todo) s)
    {reason : String}
    (hok : PassState.fail OrderHom.id policy sink p s (itemKey item) reason = .ok s') :
    RetryTally policy sink itemKey p st g todo s' ∧ s'.completed = s.completed := by
  obtain ⟨hfresh, heligible⟩ := h.fresh item List.mem_cons_self
  obtain ⟨a, htrace, hcompleted, hothers, hdelays, hleft⟩ :=
    fail_left (h.untouched _ hfresh) (isEligible_iff.mp heligible).1 hok
  exact ⟨h.settle htrace hothers hdelays hleft, hcompleted⟩

theorem attemptAll_tallied (hmarks : MarkersKept sink p) {items : List τ}
    (h : RetryTally policy sink itemKey p st g (items ++ s.completed) s)
    (hok : attemptAll OrderHom.id policy sink itemKey p items s = .ok s') :
    RetryTally policy sink itemKey p st g s'.completed s' := by
  induction items generalizing s with
  | nil =>
    cases hok
    exact h
  | cons item rest ih =>
    rw [attemptAll] at hok
    split at hok
    · cases hok
      exact h.sublist (List.sublist_append_right _ _)
    · simp only at hok
      split at hok
      · obtain ⟨s₁, hfail, hrest⟩ := Fallible.bind_eq_ok.mp hok
        have hprocessed : RetryTally policy sink itemKey p st g (item :: (rest ++ s.completed))
            { s with
              graph := (p.processOne item s.graph).1
              attempted := s.attempted + 1
              failed := s.failed + 1 } :=
          h.processed rfl rfl rfl (hmarks item s.graph)
        obtain ⟨htallied, hcompleted⟩ := hprocessed.fail hfail
        exact ih (hcompleted ▸ htallied) hrest
      · refine ih ?_ hok
        have hprocessed : RetryTally policy sink itemKey p st g (item :: rest ++ s.completed)
            { s with
              graph := (p.processOne item s.graph).1
              attempted := s.attempted + 1
              completed := s.completed ++ [item] } :=
          h.processed rfl rfl rfl (hmarks item s.graph)
        refine hprocessed.perm ?_
        rw [← List.append_assoc]
        exact List.perm_append_singleton item (rest ++ s.completed)

theorem settleAll_tallied {remaining : List String} {items : List τ}
    (h : RetryTally policy sink itemKey p st g items s)
    (hok : settleAll OrderHom.id policy sink itemKey p remaining items s = .ok s') :
    RetryTally policy sink itemKey p st g [] s' := by
  induction items generalizing s with
  | nil =>
    cases hok
    exact h
  | cons item rest ih =>
    rw [settleAll] at hok
    split at hok
    · obtain ⟨s₁, hfail, hrest⟩ := Fallible.bind_eq_ok.mp hok
      have hcounted : RetryTally policy sink itemKey p st g (item :: rest)
          { s with noProgress := s.noProgress + 1 } := h.processed rfl rfl rfl fun _ => rfl
      exact ih (hcounted.fail hfail).1 hrest
    · refine ih (h.settle rfl (fun _ hne => sameFor_success hne) (fun delay => ?_) ?_) hok
      · simp
      · simp [AttemptLeft, recordSuccess]

/-- What a whole pass leaves of the items, and the delay that it reports. -/
theorem runOnce_tallied (hmarks : MarkersKept sink p) (hitems : (p.items.map itemKey).Nodup)
    {r : RunOnceResult} (hok : runOnce OrderHom.id policy sink itemKey p st g = .ok (s, r)) :
    RetryTally policy sink itemKey p st g [] s ∧ r.nextRetryDelay =
      if s.retryDelays = [] then nextReadyDelay OrderHom.id itemKey p s.state
      else s.retryDelays.min? := by
  have hstart : RetryTally policy sink itemKey p st g
      ((eligibleItems sink itemKey p st g).1 ++ []) { graph := g, state := st } := by
    rw [List.append_nil]
    refine ⟨(List.filter_sublist.map itemKey).nodup hitems, fun item hitem => ⟨nofun, ?_⟩,
      fun item hitem => (List.mem_filter.mp hitem).1, nofun, fun _ _ => ⟨rfl, Iff.rfl, rfl⟩,
      fun delay => by simp, nofun⟩
    exact (List.mem_filter.mp hitem).2
  unfold runOnce at hok
  obtain ⟨s₁, hattempted, hrest⟩ := Fallible.bind_eq_ok.mp hok
  obtain ⟨s₂, hsettled, hret⟩ := Fallible.bind_eq_ok.mp hrest
  cases hret
  exact ⟨settleAll_tallied (attemptAll_tallied hmarks hstart hattempted) hsettled, rfl⟩

end Pass

/-! ### The delay reported -/

/-- A failed attempt waits for the policy's delay. -/
theorem RetryTally.mem_retryDelays (h : RetryTally policy sink itemKey p st g todo s) {delay : ℚ} :
    delay ∈ s.retryDelays ↔ Retried policy st s delay := by
  rw [h.delays]
  constructor
  · rintro ⟨key, a, due, ha, hretry⟩
    have hleft := h.left _ ha
    simp only [AttemptLeft, hretry] at hleft
    exact ⟨key, a, ha, by simp [hretry], hleft.1, hleft.2.1⟩
  · rintro ⟨key, a, ha, hfailed, hbelow, hdelay⟩
    have hleft := h.left _ ha
    refine ⟨key, a, ?_⟩
    unfold AttemptLeft at hleft
    cases hout : a.outcome with
    | advanced => exact absurd hout hfailed
    | quarantined =>
      simp only [hout] at hleft
      exact absurd hleft.1 (Nat.not_le.mpr hbelow)
    | retry delay' due =>
      simp only [hout] at hleft
      rw [hdelay] at hleft
      cases hleft.2.1
      exact ⟨due, ha, rfl⟩

theorem RetryTally.shelved (h : RetryTally policy sink itemKey p st g todo s)
    (hst : Shelved sink st g) :
    Shelved sink s.state s.graph := by
  intro key hquarantined
  by_cases hkey : key ∈ s.trace.map Prod.fst
  · obtain ⟨e, he, rfl⟩ := List.mem_map.mp hkey
    have hleft := h.left e he
    unfold AttemptLeft at hleft
    cases hout : e.2.outcome with
    | advanced =>
      simp only [hout] at hleft
      exact hleft
    | quarantined =>
      simp only [hout] at hleft
      exact hleft.2
    | retry delay due =>
      simp only [hout, hquarantined] at hleft
      cases hleft.2.2.2
  · have hsame := h.untouched key hkey
    rw [hsame.isQuarantined_eq] at hquarantined
    rw [hsame.failures]
    exact hst key hquarantined

theorem mem_remainingDelays (hs : Shelved sink s.state s.graph) {x : ℚ} :
    x ∈ remainingDelays sink itemKey p s ↔ ∃ item ∈ p.items, ∃ record,
      s.state.failures.get? (itemKey item) = some record ∧ x = record.nextRetryAt - p.now := by
  unfold remainingDelays
  rw [List.mem_filterMap]
  refine exists_congr fun item => and_congr_right fun _ => ?_
  constructor
  · intro h
    split at h
    · cases h
    · obtain ⟨record, hrecord, rfl⟩ := Option.map_eq_some_iff.mp h
      exact ⟨record, hrecord, rfl⟩
  · rintro ⟨record, hrecord, rfl⟩
    rw [if_neg, hrecord]
    · rfl
    · intro hquarantined
      rw [hs _ hquarantined] at hrecord
      cases hrecord

/-- A record after the pass is that of a retry of this pass, or of an item without an attempt. -/
theorem RetryTally.record_cases (h : RetryTally policy sink itemKey p st g todo s)
    {record : FailureRecord} (hrecord : s.state.failures.get? key = some record) :
    record.nextRetryAt - p.now ∈ s.retryDelays ∨
      key ∉ s.trace.map Prod.fst ∧ st.failures.get? key = some record := by
  by_cases hkey : key ∈ s.trace.map Prod.fst
  · obtain ⟨e, he, heq⟩ := List.mem_map.mp hkey
    have hleft := h.left e he
    rw [heq] at hleft
    unfold AttemptLeft at hleft
    cases hout : e.2.outcome with
    | advanced =>
      simp only [hout, hrecord] at hleft
      cases hleft
    | quarantined =>
      simp only [hout, hrecord] at hleft
      cases hleft.2
    | retry delay due =>
      simp only [hout, hrecord] at hleft
      obtain ⟨-, -, ⟨record', heq', hdue⟩, -⟩ := hleft
      cases heq'
      rw [hdue, add_sub_cancel_left]
      exact .inl ((h.delays delay).mpr ⟨e.1, e.2, due, he, hout⟩)
  · rw [(h.untouched key hkey).failures] at hrecord
    exact .inr ⟨hkey, hrecord⟩

/-- A retry of this pass leaves a record of one of the items. -/
theorem RetryTally.exists_record (h : RetryTally policy sink itemKey p st g todo s) {delay : ℚ}
    (hdelay : delay ∈ s.retryDelays) : ∃ item ∈ p.items, ∃ record,
      s.state.failures.get? (itemKey item) = some record ∧
        delay = record.nextRetryAt - p.now := by
  obtain ⟨key, a, due, ha, hretry⟩ := (h.delays delay).mp hdelay
  have hleft := h.left _ ha
  simp only [AttemptLeft, hretry] at hleft
  obtain ⟨-, -, ⟨record, hrecord, hdue⟩, -⟩ := hleft
  obtain ⟨-, item, hitem, heq⟩ := h.traced key (List.mem_map_of_mem ha)
  refine ⟨item, hitem, record, heq ▸ hrecord, ?_⟩
  rw [hdue, add_sub_cancel_left]

theorem backoffDelay_pos {attempts : Nat} {delay : ℚ}
    (h : backoffDelay OrderHom.id policy attempts = .ok delay) : 0 < delay := by
  obtain ⟨power, hpower, hret⟩ := Fallible.bind_eq_ok.mp h
  unfold floatPow at hpower
  split at hpower
  · cases hpower
    cases hret
    have hmultiplier : 0 < policy.backoffMultiplier := one_pos.trans policy.multiplier_gt
    exact lt_min (mul_pos policy.base_pos (pow_pos hmultiplier _))
      (policy.base_pos.trans_le policy.ceiling_covers_base)
  · cases hpower

theorem min?_congr {l l' : List ℚ} (h : ∀ x, x ∈ l ↔ x ∈ l') : l.min? = l'.min? := by
  cases hmin : l'.min? with
  | none =>
    rw [List.min?_eq_none_iff] at hmin ⊢
    exact List.eq_nil_iff_forall_not_mem.mpr fun x hx => by simpa [hmin] using (h x).mp hx
  | some m =>
    obtain ⟨hmem, hle⟩ := List.min?_eq_some_iff.mp hmin
    exact List.min?_eq_some_iff.mpr ⟨(h m).mpr hmem, fun x hx => hle x ((h x).mp hx)⟩

theorem min?_le {l : List ℚ} {m x : ℚ} (h : l.min? = some m) (hx : x ∈ l) : m ≤ x :=
  (List.min?_eq_some_iff.mp h).2 x hx

/-- The delays that the loop looks at where no attempt of the pass is to be retried. -/
theorem mem_readyDelays {x : ℚ} :
    (x ∈ p.items.filterMap fun item =>
      match st.failures.get? (itemKey item) with
      | none => none
      | some record =>
        if p.now < record.nextRetryAt then some (OrderHom.id (record.nextRetryAt - p.now))
        else none) ↔
    ∃ item ∈ p.items, ∃ record, st.failures.get? (itemKey item) = some record ∧
      p.now < record.nextRetryAt ∧ x = record.nextRetryAt - p.now := by
  rw [List.mem_filterMap]
  refine exists_congr fun item => and_congr_right fun _ => ?_
  cases st.failures.get? (itemKey item) with
  | none => simp
  | some record => simp [eq_comm]

/-- Without a retry in the pass, the delay reported is the earliest unless an item that is due was
left. -/
theorem RetryTally.delay_idle (h : RetryTally policy sink itemKey p st g todo s)
    (hst : Shelved sink st g) (hnone : s.retryDelays = []) :
    nextReadyDelay OrderHom.id itemKey p s.state = (remainingDelays sink itemKey p s).min? ↔
      RetriesCovered policy itemKey p st s := by
  have hmem (x : ℚ) : x ∈ remainingDelays sink itemKey p s ↔ ∃ item ∈ p.items, ∃ record,
      s.state.failures.get? (itemKey item) = some record ∧ x = record.nextRetryAt - p.now :=
    mem_remainingDelays (h.shelved hst)
  have hold : ∀ {key record}, s.state.failures.get? key = some record →
      key ∉ s.trace.map Prod.fst ∧ st.failures.get? key = some record := by
    intro key record hrecord
    have hcases := h.record_cases hrecord
    rw [hnone] at hcases
    exact hcases.resolve_left (List.not_mem_nil)
  constructor
  · intro heq
    refine ⟨fun item hitem record hrecord hdue => ?_, fun _ _ _ _ _ hretried => ?_⟩
    · by_contra hkey
      have hkept : s.state.failures.get? (itemKey item) = some record := by
        rw [(h.untouched _ hkey).failures]
        exact hrecord
      have hleft := (hmem _).mpr ⟨item, hitem, record, hkept, rfl⟩
      cases hmin : (remainingDelays sink itemKey p s).min? with
      | none =>
        rw [List.min?_eq_none_iff.mp hmin] at hleft
        cases hleft
      | some m =>
        obtain ⟨_, -, record', -, hlater, hm⟩ :=
          mem_readyDelays.mp (List.min?_eq_some_iff.mp (heq.trans hmin)).1
        have hle := min?_le hmin hleft
        linarith
    · obtain ⟨delay, hretried⟩ := hretried
      rw [← h.mem_retryDelays, hnone] at hretried
      cases hretried
  · intro hcovered
    refine min?_congr fun x => ?_
    rw [hmem]
    refine mem_readyDelays.trans (exists_congr fun item => and_congr_right fun hitem =>
      exists_congr fun record => and_congr_right fun hrecord => and_iff_right ?_)
    obtain ⟨hfresh, hrecord⟩ := hold hrecord
    by_contra hdue
    exact hfresh (hcovered.attempted item hitem record hrecord (not_lt.mp hdue))

/-- With a retry in the pass, the delay reported is the earliest unless an item that is due was left
or one that backs off comes sooner. -/
theorem RetryTally.delay_retried (h : RetryTally policy sink itemKey p st g todo s)
    (hst : Shelved sink st g) (hsome : s.retryDelays ≠ []) :
    s.retryDelays.min? = (remainingDelays sink itemKey p s).min? ↔
      RetriesCovered policy itemKey p st s := by
  have hmem (x : ℚ) : x ∈ remainingDelays sink itemKey p s ↔ ∃ item ∈ p.items, ∃ record,
      s.state.failures.get? (itemKey item) = some record ∧ x = record.nextRetryAt - p.now :=
    mem_remainingDelays (h.shelved hst)
  obtain ⟨n, hn⟩ : ∃ n, s.retryDelays.min? = some n := by
    cases hmin : s.retryDelays.min? with
    | none => exact absurd (List.min?_eq_none_iff.mp hmin) hsome
    | some n => exact ⟨n, rfl⟩
  obtain ⟨hnmem, hnle⟩ := List.min?_eq_some_iff.mp hn
  have hnretried := h.mem_retryDelays.mp hnmem
  have hnpos : 0 < n := by
    obtain ⟨_, _, _, _, _, hdelay⟩ := hnretried
    exact backoffDelay_pos hdelay
  rw [hn, eq_comm, List.min?_eq_some_iff]
  constructor
  · rintro ⟨-, hle⟩
    refine ⟨fun item hitem record hrecord hdue => ?_, fun item hitem record hrecord hlater _ => ?_⟩
    · by_contra hkey
      rw [← (h.untouched _ hkey).failures] at hrecord
      have hnear := hle _ ((hmem _).mpr ⟨item, hitem, record, hrecord, rfl⟩)
      linarith
    · refine ⟨n, hnretried, ?_⟩
      have hkey : itemKey item ∉ s.trace.map Prod.fst := by
        intro hkey
        have hdue := (isEligible_iff.mp (h.traced _ hkey).1).2 record hrecord
        exact absurd hlater (not_lt.mpr hdue)
      rw [← (h.untouched _ hkey).failures] at hrecord
      exact hle _ ((hmem _).mpr ⟨item, hitem, record, hrecord, rfl⟩)
  · intro hcovered
    refine ⟨(hmem n).mpr (h.exists_record hnmem), fun x hx => ?_⟩
    obtain ⟨item, hitem, record, hrecord, rfl⟩ := (hmem x).mp hx
    rcases h.record_cases hrecord with hretry | ⟨hfresh, hrecord⟩
    · exact hnle _ hretry
    · have hlater : p.now < record.nextRetryAt := by
        by_contra hdue
        exact hfresh (hcovered.attempted item hitem record hrecord (not_lt.mp hdue))
      obtain ⟨d, hd, hdle⟩ := hcovered.covered item hitem record hrecord hlater ⟨n, hnretried⟩
      exact (hnle d (h.mem_retryDelays.mpr hd)).trans hdle

/-! ### Runs -/

/-- In every state of a loop, no item is quarantined and carries a retry record. -/
theorem shelved_of_reach [DecidableEq δ] {w : LoopWorld δ}
    (h : Reach (LoopWorld.step OrderHom.id policy sink itemKey) (LoopAllowed sink itemKey) LoopStart
      w) : Shelved sink w.state w.graph := by
  refine h.invariant (P := fun w => Shelved sink w.state w.graph) ?_ ?_
  · rintro w ⟨hstate, -⟩ key -
    rw [hstate]
    exact Dict.get?_empty key
  · intro w event w' hw hallowed hok
    cases event with
    | pass p =>
      obtain ⟨⟨s, r⟩, hrun, hret⟩ := Fallible.bind_eq_ok.mp hok
      cases hret
      exact (runOnce_tallied hallowed.2 hallowed.1 hrun).1.shelved hw
    | restart =>
      cases hok
      exact fun key _ => Dict.get?_empty key
    | elsewhere g =>
      cases hok
      intro key hquarantined
      refine hw key ?_
      rw [← hquarantined, isQuarantined, isQuarantined, hallowed key]

/-- In every state of a loop, a pass reports the earliest retry of the items that it found unless a
stop left an item that was due, or an item that still backs off comes sooner than every retry of the
pass; and then no sleep is longer than the time until one of these retries. -/
theorem next_retry_delay_iff [DecidableEq δ] {w : LoopWorld δ}
    (hreach : Reach (LoopWorld.step OrderHom.id policy sink itemKey) (LoopAllowed sink itemKey)
      LoopStart w) (hallowed : LoopAllowed sink itemKey w (.pass p)) {r : RunOnceResult}
    (hrun : runOnce OrderHom.id policy sink itemKey p w.state w.graph = .ok (s, r)) :
    (r.nextRetryDelay = (remainingDelays sink itemKey p s).min? ↔
      RetriesCovered policy itemKey p w.state s) ∧
    (RetriesCovered policy itemKey p w.state s → ∀ pollInterval,
      ∀ x ∈ remainingDelays sink itemKey p s, sleepDuration pollInterval r ≤ x) := by
  obtain ⟨htallied, hdelay⟩ := runOnce_tallied hallowed.2 hallowed.1 hrun
  have hiff : r.nextRetryDelay = (remainingDelays sink itemKey p s).min? ↔
      RetriesCovered policy itemKey p w.state s := by
    rw [hdelay]
    split
    · rename_i hnone
      exact htallied.delay_idle (shelved_of_reach hreach) hnone
    · rename_i hsome
      exact htallied.delay_retried (shelved_of_reach hreach) hsome
  refine ⟨hiff, fun hcovered pollInterval x hx => ?_⟩
  cases hmin : (remainingDelays sink itemKey p s).min? with
  | none =>
    rw [List.min?_eq_none_iff.mp hmin] at hx
    cases hx
  | some m =>
    rw [sleepDuration, hiff.mpr hcovered, hmin]
    exact (min_le_right _ _).trans (min?_le hmin hx)

end

/-- A pass over two items that both raise. -/
def twoFailingPass (now : ℚ) : PassInput Unit String :=
  ⟨now, ["Run:r1", "Run:r2"], fun _ => false, fun _ g => (g, some "ValueError: boom"),
    fun _ => ["Run:r1", "Run:r2"], "t"⟩

theorem twoFailingPass_allowed (sink : Option String) (w : LoopWorld Unit) (now : ℚ) :
    LoopAllowed sink id w (.pass (twoFailingPass now)) := by
  refine ⟨?_, fun _ _ _ => rfl⟩
  change ["Run:r1", "Run:r2"].Nodup
  decide

/-- An item fails at 0 and may be retried at 60; at 59 another one fails, and the pass reports the
60 seconds of the second item although the first is due in one. -/
theorem backing_off_overslept : ∃ (w : LoopWorld Unit) (s : PassState Unit String)
    (r : RunOnceResult), Reach (LoopWorld.step OrderHom.id {} none (id : String → String))
      (LoopAllowed none id) LoopStart w ∧
    LoopAllowed none (id : String → String) w (.pass (twoFailingPass 59)) ∧
    runOnce OrderHom.id {} none id (twoFailingPass 59) w.state w.graph = .ok (s, r) ∧
    r.nextRetryDelay = some 60 ∧ (remainingDelays none id (twoFailingPass 59) s).min? = some 1 := by
  have hrun : Fallible.check (fun w : LoopWorld Unit => Fallible.check
      (fun out : PassState Unit String × RunOnceResult =>
        decide (out.2.nextRetryDelay = some 60 ∧
          (remainingDelays none id (twoFailingPass 59) out.1).min? = some 1))
      (runOnce OrderHom.id {} none id (twoFailingPass 59) w.state w.graph))
      ([failingPass 0].foldlM (LoopWorld.step OrderHom.id {} none id) { graph := Graph.empty }) =
      true := by
    decide +kernel
  obtain ⟨w, hw, hpass⟩ := Fallible.check_eq_true.mp hrun
  obtain ⟨⟨s, r⟩, hpass, hdelays⟩ := Fallible.check_eq_true.mp hpass
  refine ⟨w, s, r, ?_, twoFailingPass_allowed none w 59, hpass, of_decide_eq_true hdelays⟩
  refine Reach.of_allowed (.start ⟨rfl, fun _ => rfl, rfl⟩) (fun event hevent w => ?_) hw
  rw [List.mem_singleton.mp hevent]
  exact failingPass_allowed none w 0

/-- At 61 the first item fails again, then the other one, and the pass reports the earlier retry. -/
theorem next_retry_delay_iff_second_pass : ∃ (w : LoopWorld Unit) (s : PassState Unit String)
    (r : RunOnceResult), Reach (LoopWorld.step OrderHom.id {} none (id : String → String))
      (LoopAllowed none id) LoopStart w ∧
    runOnce OrderHom.id {} none id (twoFailingPass 61) w.state w.graph = .ok (s, r) ∧
    r.nextRetryDelay = some 60 ∧ RetriesCovered {} id (twoFailingPass 61) w.state s ∧
    ∀ x ∈ remainingDelays none id (twoFailingPass 61) s, sleepDuration 300 r ≤ x := by
  have hrun : Fallible.check (fun w : LoopWorld Unit => Fallible.check
      (fun out : PassState Unit String × RunOnceResult =>
        decide (out.2.nextRetryDelay = some 60 ∧
          (remainingDelays none id (twoFailingPass 61) out.1).min? = some 60))
      (runOnce OrderHom.id {} none id (twoFailingPass 61) w.state w.graph))
      ([failingPass 0].foldlM (LoopWorld.step OrderHom.id {} none id) { graph := Graph.empty }) =
      true := by
    decide +kernel
  obtain ⟨w, hw, hpass⟩ := Fallible.check_eq_true.mp hrun
  obtain ⟨⟨s, r⟩, hpass, hdelays⟩ := Fallible.check_eq_true.mp hpass
  obtain ⟨hdelay, hmin⟩ := of_decide_eq_true hdelays
  have hreach : Reach (LoopWorld.step OrderHom.id {} none (id : String → String))
      (LoopAllowed none id) LoopStart w := by
    refine Reach.of_allowed (.start ⟨rfl, fun _ => rfl, rfl⟩) (fun event hevent w => ?_) hw
    rw [List.mem_singleton.mp hevent]
    exact failingPass_allowed none w 0
  obtain ⟨hiff, hsleep⟩ :=
    next_retry_delay_iff hreach (twoFailingPass_allowed none w 61) hpass
  have hcovered := hiff.mp (hdelay.trans hmin.symm)
  exact ⟨w, s, r, hreach, hpass, hdelay, hcovered, hsleep hcovered 300⟩

end TradingAgents.Kernel
