import TradingAgents.Kernel.EhloRetry
import TradingAgents.Master.ActivationRuns

/-! One boot is one activation.  A boot resends its request within its budget, the master replays
what it has answered within its lifetime, and when the budget, the slack of the boot's clock and the
time that a request takes to the store fit into the lifetime, the master mints for it once. -/

namespace TradingAgents.Master

open ProofKit
open Kernel (EhloSettings RetryHooks EhloAttempt SendError sendWithRetry delayAfter elapsedAfter
  budgetSpent)

variable {α : Type}

namespace Replay

/-- The answers that were minted for a boot id. -/
def mintedFor (s : Replay α) (boot : String) : List (Answered α) :=
  s.log.filter fun r => !r.replayed && decide (r.bootId = boot)

/-- A boot id that the store has neither answered nor begun to. -/
structure Unknown (boot : String) (s : Replay α) : Prop where
  log : ∀ r ∈ s.log, r.bootId ≠ boot
  idle : ∀ t ty e, (s.pc t).inFlight ≠ some (boot, ty, e)

/-- What holds of a boot id all of whose look-ups fall into one lifetime from `since` on: it is
minted for once, nothing is in flight after that, and its entry stays for that time. -/
structure Once (lifetime since : ℚ) (boot : String) (s : Replay α) : Prop where
  sound : s.Sound lifetime
  began : since ≤ s.clock
  later : ∀ r ∈ s.mintedFor boot, since ≤ r.time
  settled : ∀ r ∈ s.mintedFor boot, ∀ t ty e, (s.pc t).inFlight ≠ some (boot, ty, e)
  stays : ∀ r ∈ s.mintedFor boot, s.clock < since + lifetime →
    s.entries.get? boot = some r.entry
  once : (s.mintedFor boot).length ≤ 1

variable {lifetime since : ℚ} {boot : String} {s : Replay α}

theorem mem_mintedFor {r : Answered α} :
    r ∈ s.mintedFor boot ↔ r ∈ s.log ∧ r.replayed = false ∧ r.bootId = boot := by
  simp [mintedFor, List.mem_filter]

theorem Unknown.mintedFor (h : s.Unknown boot) : s.mintedFor boot = [] := by
  rw [Replay.mintedFor, List.filter_eq_nil_iff]
  intro r hr
  simp [h.log r hr]

theorem Unknown.once (h : s.Unknown boot) (hsound : s.Sound lifetime) (hbegan : since ≤ s.clock) :
    s.Once lifetime since boot := by
  refine ⟨hsound, hbegan, ?_, ?_, ?_, ?_⟩ <;> rw [h.mintedFor] <;> simp

/-- While a mint is in flight for a boot id, none has been stored. -/
theorem Once.none_minted (h : s.Once lifetime since boot) {t : Nat} {ty : String} {e : Nat}
    (ho : (s.pc t).inFlight = some (boot, ty, e)) : s.mintedFor boot = [] := by
  rw [List.eq_nil_iff_forall_not_mem]
  exact fun r hr => h.settled r hr t ty e ho

theorem Once.tick (h : s.Once lifetime since boot) {seconds : ℚ} (hs : 0 ≤ seconds) :
    ({ s with clock := s.clock + seconds } : Replay α).Once lifetime since boot where
  sound := h.sound.tick hs
  began := h.began.trans (le_add_of_nonneg_right hs)
  later := h.later
  settled := h.settled
  stays r hr hlt := h.stays r hr ((le_add_of_nonneg_right hs).trans_lt hlt)
  once := h.once

/-- A call goes on and takes the same mint with it, if any. -/
theorem Once.goto (h : s.Once lifetime since boot) {t : Nat} {pc : Pc α}
    (hsound : (s.goto t pc).Sound lifetime)
    (hflight : pc.inFlight = (s.pc t).inFlight ∨ pc.inFlight = none) :
    (s.goto t pc).Once lifetime since boot where
  sound := hsound
  began := h.began
  later := h.later
  settled r hr t' ty e ho := by
    rw [goto_pc] at ho
    by_cases ht : t' = t
    · rw [ht, Function.update_self] at ho
      rcases hflight with hsame | hnone
      · exact h.settled r hr t ty e (hsame ▸ ho)
      · rw [hnone] at ho
        cases ho
    · rw [Function.update_of_ne ht] at ho
      exact h.settled r hr t' ty e ho
  stays := h.stays
  once := h.once

/-- No answer of the lifetime is old enough to be purged. -/
theorem Once.purgeExpired (h : s.Once lifetime since boot) :
    (s.purgeExpired lifetime).Once lifetime since boot where
  sound := h.sound.purgeExpired
  began := h.began
  later := h.later
  settled := h.settled
  stays r hr hlt := by
    have hlt : s.clock < since + lifetime := hlt
    obtain ⟨hlog, hfresh, -⟩ := mem_mintedFor.mp hr
    refine (get?_purgeExpired boot r.entry).mpr ⟨h.stays r hr hlt, ?_⟩
    have hstored := (h.sound.given r hlog).fresh hfresh
    have hbegan := h.later r hr
    rw [expired, ← hstored]
    have hyoung : ¬lifetime ≤ s.clock - r.time := by linarith
    simp [hyoung]
  once := h.once

/-- A new entry within the lifetime, or for any other boot id. -/
theorem Once.create (h : s.Once lifetime since boot) {t : Nat} {b ty : String}
    (hsound : (s.create t b ty).Sound lifetime) (hfree : s.entries.get? b = none)
    (hearly : b = boot → s.clock < since + lifetime) :
    (s.create t b ty).Once lifetime since boot := by
  -- an answer minted within the lifetime would still have its entry
  have hother : ∀ r ∈ s.mintedFor boot, b ≠ boot := by
    rintro r hr rfl
    have hstays := h.stays r hr (hearly rfl)
    rw [hfree] at hstays
    cases hstays
  refine ⟨hsound, h.began, h.later, fun r hr t' ty' e ho => ?_, fun r hr hlt => ?_, h.once⟩
  · have hne := hother r hr
    change ((Function.update s.pc t (.minting b ty s.next)) t').inFlight = _ at ho
    by_cases ht : t' = t
    · rw [ht, Function.update_self] at ho
      cases ho
      exact hne rfl
    · rw [Function.update_of_ne ht] at ho
      exact h.settled r hr t' ty' e ho
  · show (s.entries.set b s.next).get? boot = some r.entry
    rw [Dict.get?_set_ne _ _ (hother r hr).symm]
    exact h.stays r hr hlt

/-- An answer given again is not minted. -/
theorem Once.give (h : s.Once lifetime since boot) {b ty : String} {e : Nat} {a : α}
    (hsound : (s.give b ty e a true).Sound lifetime) :
    (s.give b ty e a true).Once lifetime since boot := by
  have hminted : (s.give b ty e a true).mintedFor boot = s.mintedFor boot := by
    show List.filter _ (s.log ++ [_]) = _
    rw [List.filter_append]
    simp [mintedFor]
  refine ⟨hsound, h.began, ?_, ?_, ?_, ?_⟩ <;> rw [hminted]
  · exact h.later
  · exact h.settled
  · exact h.stays
  · exact h.once

/-- A look-up of the boot id within the lifetime, or of any other boot id at any time. -/
theorem Once.lookUp (h : s.Once lifetime since boot) {t : Nat} {b ty : String}
    (hpc : s.pc t = .asking b ty) (hearly : b = boot → s.clock < since + lifetime) :
    (s.lookUp lifetime t b ty).Once lifetime since boot := by
  have hp := h.purgeExpired
  have hpc' : (s.purgeExpired lifetime).pc t = .asking b ty := hpc
  unfold Replay.lookUp
  dsimp only
  split
  · rename_i hb
    exact hp.create (hp.sound.create hb (by rw [hpc']; rfl)) hb hearly
  · rename_i e hb
    split
    · exact hp.goto (hp.sound.goto (by rw [hpc']; rfl) (by rw [hpc']; rfl)) (.inr rfl)
    · rename_i hty
      split
      · rename_i a ha
        have hgive := hp.sound.give hb (not_not.mp hty) ha ((get?_purgeExpired b e).mp hb).2
        exact (hp.give hgive).goto (hgive.goto (by show _ = (s.pc t).inFlight; rw [hpc]; rfl)
          (by show _ = (s.pc t).gaveUp; rw [hpc]; rfl)) (.inr rfl)
      · exact hp.goto (hp.sound.goto (by rw [hpc']; rfl) (by rw [hpc']; rfl)) (.inr rfl)

/-- The minted answer is stored. -/
theorem Once.store (h : s.Once lifetime since boot) {t : Nat} {b ty : String} {e : Nat}
    {result : α} (hpc : s.pc t = .minted b ty e result) :
    (s.store t b ty e result).Once lifetime since boot := by
  have hflight : (s.pc t).inFlight = some (b, ty, e) := by rw [hpc]; rfl
  obtain ⟨hb, -, -⟩ := h.sound.owner t b ty e hflight
  have hminted : (s.store t b ty e result).mintedFor boot = s.mintedFor boot ++
      if b = boot then [⟨b, ty, result, e, s.entries.get? b, s.clock, false⟩] else [] := by
    show List.filter _ (s.log ++ [_]) = _
    rw [List.filter_append]
    by_cases hboot : b = boot <;> simp [hboot, mintedFor, setEntry]
  have hleft : ∀ t' ty' e', ((s.store t b ty e result).pc t').inFlight = some (boot, ty', e') →
      t' ≠ t ∧ (s.pc t').inFlight = some (boot, ty', e') := fun t' ty' e' ho =>
    (inFlight_update rfl).mp ho
  by_cases hboot : b = boot
  · subst hboot
    rw [if_pos rfl, h.none_minted hflight, List.nil_append] at hminted
    refine ⟨h.sound.store hpc, h.began, ?_, ?_, ?_, ?_⟩ <;> rw [hminted]
    · simpa using h.began
    · intro r _ t' ty' e' ho
      obtain ⟨ht, ho'⟩ := hleft t' ty' e' ho
      obtain ⟨hb', -, -⟩ := h.sound.owner t' b ty' e' ho'
      rw [hb] at hb'
      cases hb'
      exact ht (h.sound.eq_of_inFlight ho' hflight)
    · intro r hr _
      rw [List.mem_singleton.mp hr]
      exact hb
    · exact Nat.le_refl 1
  · rw [if_neg hboot, List.append_nil] at hminted
    refine ⟨h.sound.store hpc, h.began, ?_, ?_, ?_, ?_⟩ <;> rw [hminted]
    · exact h.later
    · exact fun r hr t' ty' e' ho => h.settled r hr t' ty' e' (hleft t' ty' e' ho).2
    · exact h.stays
    · exact h.once

/-- A failed mint leaves nothing. -/
theorem Once.remove (h : s.Once lifetime since boot) {t : Nat} {b ty : String} {e : Nat}
    (hpc : s.pc t = .failed b ty e) : (s.remove t b e).Once lifetime since boot := by
  have hsound := h.sound.remove hpc
  have hflight : (s.pc t).inFlight = some (b, ty, e) := by rw [hpc]; rfl
  rw [h.sound.remove_eq hpc] at hsound ⊢
  have hother : ∀ r ∈ s.mintedFor boot, b ≠ boot := by
    rintro r hr rfl
    exact h.settled r hr t ty e hflight
  refine ⟨hsound, h.began, h.later, fun r hr t' ty' e' ho => ?_, fun r hr hlt => ?_, h.once⟩
  · exact h.settled r hr t' ty' e' ((inFlight_update rfl).mp ho).2
  · show (s.entries.erase b).get? boot = some r.entry
    rw [Dict.get?_erase, if_neg (hother r hr).symm]
    exact h.stays r hr hlt

/-- Every move keeps it, a look-up of the boot id within the lifetime. -/
theorem Once.step (h : s.Once lifetime since boot) {s' : Replay α} {move : Move α}
    (hearly : ∀ t ty, move = .look t → s.pc t = .asking boot ty → s.clock < since + lifetime)
    (hok : Master.step lifetime s move = .ok s') : s'.Once lifetime since boot := by
  have hsound := h.sound.step hok
  cases move with
  | tick seconds =>
    simp only [Master.step] at hok
    split at hok
    · cases hok
      exact h.tick ‹_›
    · cases hok
  | look t =>
    simp only [Master.step] at hok
    split at hok
    · rename_i b ty hpc
      cases hok
      refine h.lookUp hpc fun hboot => hearly t ty rfl ?_
      rw [hpc, hboot]
    · cases hok
  | finish t =>
    simp only [Master.step] at hok
    split at hok
    · rename_i hpc
      cases hok
      exact h.store hpc
    · rename_i hpc
      cases hok
      exact h.remove hpc
    · cases hok
  | signal t =>
    simp only [Master.step] at hok
    have hdone : ∀ e, (s.setDone e).Once lifetime since boot := fun e =>
      ⟨h.sound.setDone e, h.began, h.later, h.settled, h.stays, h.once⟩
    split at hok
    · rename_i e result hpc
      cases hok
      exact (hdone e).goto hsound (.inr rfl)
    · rename_i e hpc
      cases hok
      exact (hdone e).goto hsound (.inr rfl)
    · cases hok
  | call t | wake t | mintReturns t | mintRaises t =>
    simp only [Master.step] at hok
    split at hok
    · rename_i hpc
      cases hok
      exact h.goto hsound (.inl (by rw [hpc]; rfl))
    · cases hok

end Replay

/-! ### The boot -/

section

variable {β : Type} {send : Nat → EhloAttempt β → Except SendError α} {url : String} {body : β}
  {settings : EhloSettings} {hooks : RetryHooks} {slack grace lifetime : ℚ} {boot : String}

/-- A clock on which a pause and the way into the first attempt take at most `slack` longer than
they should. -/
structure Punctual (settings : EhloSettings) (hooks : RetryHooks) (slack : ℚ) : Prop where
  first : hooks.clock 1 ≤ hooks.clock 0 + slack
  pause : ∀ k, hooks.clock (2 * (k + 1) + 1) ≤
    hooks.clock (2 * k + 2) + delayAfter settings hooks k + slack

/-- Every attempt starts within the budget. -/
theorem started_within (hpunctual : Punctual settings hooks slack) {attempt : EhloAttempt β}
    (h : attempt ∈ (sendWithRetry send url body settings hooks).attempts) :
    attempt.startedAt < hooks.clock 0 + settings.ehloBudgetSeconds + slack := by
  have hone := settings.attempt_bounds.1
  have hbounded : Kernel.Bounded send url body settings hooks 0
      (sendWithRetry send url body settings hooks) := Kernel.sendFrom_bounded (by omega)
  rw [hbounded.attempts] at h
  obtain ⟨k, hk, rfl⟩ := List.mem_map.mp h
  rw [List.mem_range'_1] at hk
  cases k with
  | zero =>
    have hfirst := hpunctual.first
    have hbudget := settings.budget_bounds.1
    show hooks.clock 1 < _
    linarith
  | succ k =>
    have htime := (hbounded.resent k (Nat.zero_le k) hk.2).1
    have hpause := hpunctual.pause k
    rw [budgetSpent, not_le, elapsedAfter] at htime
    show hooks.clock (2 * (k + 1) + 1) < _
    linarith

/-- The moves of a store while a boot sends its requests: the store looks up the boot id within
`grace` of the start of one of its attempts.  Every other move is allowed at any time. -/
def WhileBooting (attempts : List (EhloAttempt β)) (grace : ℚ) (boot : String) (s : Replay α)
    (move : Move α) : Prop :=
  ∀ t ty, move = .look t → s.pc t = .asking boot ty →
    ∃ attempt ∈ attempts, s.clock < attempt.startedAt + grace

/-- A store that knew nothing of the boot id when the boot began. -/
def Before (lifetime began : ℚ) (boot : String) (s : Replay α) : Prop :=
  Reachable lifetime s ∧ s.Unknown boot ∧ began ≤ s.clock

/-- One boot is one activation: if the budget, the slack of the clock and the time that a request
takes fit into the lifetime of the replay store, then in any interleaving of the boot's attempts
with all other calls the master mints for it at most once, and every answer it gives is that one. -/
theorem boot_activates_once (hpunctual : Punctual settings hooks slack)
    (hfits : settings.ehloBudgetSeconds + slack + grace ≤ lifetime) {s : Replay α}
    (h : Reach (step lifetime)
      (WhileBooting (sendWithRetry send url body settings hooks).attempts grace boot)
      (Before lifetime (hooks.clock 0) boot) s) :
    (s.mintedFor boot).length ≤ 1 ∧
    ∀ r ∈ s.log, r.bootId = boot → ∃ m, s.mintedFor boot = [m] ∧ r.answer = m.answer := by
  have honce : s.Once lifetime (hooks.clock 0) boot := by
    refine Reach.invariant (P := fun s => s.Once lifetime (hooks.clock 0) boot) ?_ ?_ h
    · exact fun s ⟨hreach, hunknown, hbegan⟩ => hunknown.once hreach.sound hbegan
    · intro s move s' hs hallowed hok
      refine hs.step (fun t ty hmove hpc => ?_) hok
      obtain ⟨attempt, hattempt, hclock⟩ := hallowed t ty hmove hpc
      have hstarted := started_within hpunctual hattempt
      linarith
  refine ⟨honce.once, fun r hr hboot => ?_⟩
  have hgiven := honce.sound.given r hr
  obtain ⟨-, -, m, hm, ha⟩ := honce.sound.source _ _ hgiven.answer
  obtain ⟨hmem, hminted, hentry⟩ := Replay.mem_mints.mp (by rw [hm]; exact List.mem_singleton_self m)
  have hfor : m ∈ s.mintedFor boot := Replay.mem_mintedFor.mpr
    ⟨hmem, hminted, (honce.sound.homes m hmem r hr hentry).trans hboot⟩
  obtain ⟨only, honly⟩ := List.length_eq_one_iff.mp
    (Nat.le_antisymm honce.once (List.length_pos_of_mem hfor))
  rw [honly, List.mem_singleton] at hfor
  exact ⟨only, honly, by rw [← hfor, ha]⟩

end

/-- A boot whose first request was lost on the way back and whose second is answered, and the moves
of the store that both reach. -/
def lostReply : List (Move Nat) :=
  [.call 0 "boot" "provider", .look 0, .tick 20, .call 1 "boot" "provider", .look 1,
    .mintReturns 0 7, .finish 0, .signal 0, .wake 1, .look 1]

theorem boot_activates_once_lostReply : ∃ s : Replay Nat, (s.mintedFor "boot").length ≤ 1 ∧
    ∃ r ∈ s.log, r.bootId = "boot" ∧ r.replayed = true := by
  let send : Nat → EhloAttempt Unit → Except SendError Nat := fun k _ =>
    if k = 0 then .error (.transport "TimeoutError") else .ok 7
  let hooks : RetryHooks := ⟨fun n => if n ≤ 1 then 0 else 20, fun _ => 0⟩
  let settings : EhloSettings := { ehloBudgetSeconds := 240 }
  let attempts := (sendWithRetry send "master/ehlo" () settings hooks).attempts
  have hpunctual : Punctual settings hooks 1 := by
    refine ⟨by norm_num [hooks], fun k => ?_⟩
    have hlater : ¬2 * k + 2 ≤ 1 := by omega
    norm_num [hooks, delayAfter, EhloSettings.backoffDelay, hlater]
  have hrun : Fallible.check (fun s => s.log.any fun r => decide (r.bootId = "boot") && r.replayed)
      (lostReply.foldlM (fun s move =>
        if attempts.any fun attempt => decide (s.clock < attempt.startedAt + 5)
        then step 300 s move else .error .notEnabled) (.init 0)) = true := by decide +kernel
  obtain ⟨s, hs, htest⟩ := Fallible.check_eq_true.mp hrun
  have hreach : Reach (step 300) (WhileBooting attempts 5 "boot")
      (Before 300 (hooks.clock 0) "boot") s := by
    have hstart : Reach (step 300) (fun (s : Replay Nat) _ =>
        attempts.any (fun attempt => decide (s.clock < attempt.startedAt + 5)) = true)
        (Before 300 (hooks.clock 0) "boot") (.init 0 : Replay Nat) :=
      .start ⟨.start ⟨0, rfl⟩, ⟨by simp [Replay.init], by simp [Replay.init, Pc.inFlight]⟩, le_rfl⟩
    refine Reach.mono (fun s move hany t ty hlook hpc => ?_) (hstart.of_checked hs)
    simpa using hany
  refine ⟨s, (boot_activates_once hpunctual (by norm_num [settings]) hreach).1, ?_⟩
  simpa using htest

end TradingAgents.Master
