import Mathlib
import TradingAgents.Master.ActivationReplay

/-! Runs of the replay store: every interleaving of calls, mints and clock ticks.  The invariant
ties each entry without an answer to the one call that mints for it, and each answer given to the
one answer stored in its entry. -/

namespace TradingAgents.Master

open ProofKit

variable {α : Type}

/-- The mint that a call has in flight, from the block that made its entry to the block that ends
it: the boot id, the agent type and the entry. -/
def Pc.inFlight : Pc α → Option (String × String × Nat)
  | .minting bootId agentType e | .minted bootId agentType e _ | .failed bootId agentType e =>
    some (bootId, agentType, e)
  | _ => none

/-- The entry that a call has removed after its mint failed. -/
def Pc.gaveUp : Pc α → Option Nat
  | .removed e | .raised (.mintFailed e) => some e
  | _ => none

namespace Replay

/-- The answers that were minted for an entry. -/
def mints (s : Replay α) (e : Nat) : List (Answered α) :=
  s.log.filter fun r => !r.replayed && decide (r.entry = e)

/-- What a given answer says of its entry, which keeps it. -/
structure Given (lifetime : ℚ) (s : Replay α) (r : Answered α) : Prop where
  entry_lt : r.entry < s.next
  living : r.living = some r.entry
  agentType : r.agentType = (s.heap r.entry).agentType
  answer : (s.heap r.entry).answer = some r.answer
  fresh : r.replayed = false → r.time = (s.heap r.entry).storedAt
  after : (s.heap r.entry).storedAt ≤ r.time
  young : r.replayed = true → r.time - (s.heap r.entry).storedAt < lifetime

/-- The invariant of the store. -/
structure Sound (lifetime : ℚ) (s : Replay α) : Prop where
  entry_lt : ∀ b e, s.entries.get? b = some e → e < s.next
  apart : ∀ b b' e, s.entries.get? b = some e → s.entries.get? b' = some e → b = b'
  owner : ∀ t b ty e, (s.pc t).inFlight = some (b, ty, e) →
    s.entries.get? b = some e ∧ (s.heap e).agentType = ty ∧ (s.heap e).answer = none
  alone : ∀ t t' m, (s.pc t).inFlight = some m → (s.pc t').inFlight = some m → t = t'
  owned : ∀ b e, s.entries.get? b = some e → (s.heap e).answer = none →
    ∃ t ty, (s.pc t).inFlight = some (b, ty, e)
  given : ∀ r ∈ s.log, s.Given lifetime r
  home : ∀ r ∈ s.log, ∀ b, s.entries.get? b = some r.entry → r.bootId = b
  homes : ∀ r ∈ s.log, ∀ r' ∈ s.log, r.entry = r'.entry → r.bootId = r'.bootId
  source : ∀ e a, (s.heap e).answer = some a → e < s.next ∧ (s.heap e).storedAt ≤ s.clock ∧
    ∃ m, s.mints e = [m] ∧ m.answer = a
  dropped : ∀ t e, (s.pc t).gaveUp = some e → e < s.next ∧ ∀ b, s.entries.get? b ≠ some e

variable {lifetime : ℚ} {s : Replay α}

@[simp] theorem goto_entries (t : Nat) (pc : Pc α) : (s.goto t pc).entries = s.entries := rfl
@[simp] theorem goto_heap (t : Nat) (pc : Pc α) : (s.goto t pc).heap = s.heap := rfl
@[simp] theorem goto_log (t : Nat) (pc : Pc α) : (s.goto t pc).log = s.log := rfl
@[simp] theorem goto_pc (t : Nat) (pc : Pc α) : (s.goto t pc).pc = Function.update s.pc t pc := rfl
@[simp] theorem setEntry_heap (e : Nat) (entry : Entry α) :
    (s.setEntry e entry).heap = Function.update s.heap e entry := rfl

theorem mints_append (r : Answered α) (e : Nat) :
    ({ s with log := s.log ++ [r] } : Replay α).mints e =
      s.mints e ++ if r.replayed = false ∧ r.entry = e then [r] else [] := by
  show (s.log ++ [r]).filter _ = _
  rw [List.filter_append, mints]
  by_cases h : r.replayed = false ∧ r.entry = e
  · simp [h]
  · have hnone : [r].filter (fun r => !r.replayed && decide (r.entry = e)) = [] := by
      simpa [List.filter_eq_nil_iff] using h
    rw [if_neg h, hnone]

theorem mem_mints {m : Answered α} {e : Nat} :
    m ∈ s.mints e ↔ m ∈ s.log ∧ m.replayed = false ∧ m.entry = e := by
  simp [mints]

/-- Two states agree on an entry, but for its event. -/
def SameEntry (s s' : Replay α) (e : Nat) : Prop :=
  (s'.heap e).agentType = (s.heap e).agentType ∧ (s'.heap e).answer = (s.heap e).answer ∧
    (s'.heap e).storedAt = (s.heap e).storedAt

theorem Given.of_same {s' : Replay α} {r : Answered α} (h : s.Given lifetime r)
    (hnext : s.next ≤ s'.next) (hsame : s.SameEntry s' r.entry) : s'.Given lifetime r := by
  obtain ⟨hty, hanswer, htime⟩ := hsame
  exact ⟨h.entry_lt.trans_le hnext, h.living, hty ▸ h.agentType, hanswer ▸ h.answer,
    htime ▸ h.fresh, htime ▸ h.after, htime ▸ h.young⟩

/-- Moves of a call that neither begin nor end a mint. -/
theorem Sound.goto (h : s.Sound lifetime) {t : Nat} {pc : Pc α}
    (hflight : pc.inFlight = (s.pc t).inFlight) (hgave : pc.gaveUp = (s.pc t).gaveUp) :
    (s.goto t pc).Sound lifetime := by
  have hflights : ∀ t', ((s.goto t pc).pc t').inFlight = (s.pc t').inFlight := fun t' => by
    by_cases ht : t' = t
    · rw [ht, goto_pc, Function.update_self, hflight]
    · rw [goto_pc, Function.update_of_ne ht]
  have hgaves : ∀ t', ((s.goto t pc).pc t').gaveUp = (s.pc t').gaveUp := fun t' => by
    by_cases ht : t' = t
    · rw [ht, goto_pc, Function.update_self, hgave]
    · rw [goto_pc, Function.update_of_ne ht]
  exact {
    entry_lt := h.entry_lt
    apart := h.apart
    owner := fun t' b ty e ho => h.owner t' b ty e (hflights t' ▸ ho)
    alone := fun t' t'' m ho ho' => h.alone t' t'' m (hflights t' ▸ ho) (hflights t'' ▸ ho')
    owned := fun b e hb hnone =>
      (h.owned b e hb hnone).imp fun t' hty => hty.imp fun ty ho => (hflights t').trans ho
    given := fun r hr => (h.given r hr).of_same le_rfl ⟨rfl, rfl, rfl⟩
    home := h.home
    homes := h.homes
    source := h.source
    dropped := fun t' e he => h.dropped t' e (hgaves t' ▸ he) }

theorem get?_purgeExpired (b : String) (e : Nat) :
    (s.purgeExpired lifetime).entries.get? b = some e ↔
      s.entries.get? b = some e ∧ s.expired lifetime e = false := by
  show (s.entries.eraseAll _).get? b = some e ↔ _
  rw [Dict.get?_eraseAll]
  constructor
  · intro h
    split at h
    · cases h
    · rename_i hb
      refine ⟨h, ?_⟩
      by_contra he
      exact hb (List.mem_map.mpr ⟨(b, e), List.mem_filter.mpr
        ⟨Dict.mem_entries_iff.mpr h, by simpa using he⟩, rfl⟩)
  · rintro ⟨h, he⟩
    rw [if_neg, h]
    intro hb
    obtain ⟨⟨b', e'⟩, hmem, rfl⟩ := List.mem_map.mp hb
    obtain ⟨hin, hexp⟩ := List.mem_filter.mp hmem
    have hee : e' = e := Option.some.inj ((Dict.mem_entries_iff.mp hin).symm.trans h)
    rw [hee, he] at hexp
    cases hexp

theorem not_expired_of_none {e : Nat} (h : (s.heap e).answer = none) :
    s.expired lifetime e = false := by
  simp [expired, h]

theorem Sound.purgeExpired (h : s.Sound lifetime) : (s.purgeExpired lifetime).Sound lifetime where
  entry_lt b e hb := h.entry_lt b e (get?_purgeExpired b e |>.mp hb).1
  apart b b' e hb hb' :=
    h.apart b b' e (get?_purgeExpired b e |>.mp hb).1 (get?_purgeExpired b' e |>.mp hb').1
  owner t b ty e ho := by
    obtain ⟨hb, hty, hnone⟩ := h.owner t b ty e ho
    exact ⟨(get?_purgeExpired b e).mpr ⟨hb, not_expired_of_none hnone⟩, hty, hnone⟩
  alone := h.alone
  owned b e hb hnone := h.owned b e (get?_purgeExpired b e |>.mp hb).1 hnone
  given r hr := (h.given r hr).of_same le_rfl ⟨rfl, rfl, rfl⟩
  home r hr b hb := h.home r hr b (get?_purgeExpired b _ |>.mp hb).1
  homes := h.homes
  source := h.source
  dropped t e he := by
    obtain ⟨hlt, hnot⟩ := h.dropped t e he
    exact ⟨hlt, fun b hb => hnot b (get?_purgeExpired b e |>.mp hb).1⟩

theorem Sound.tick (h : s.Sound lifetime) {seconds : ℚ} (hs : 0 ≤ seconds) :
    ({ s with clock := s.clock + seconds } : Replay α).Sound lifetime where
  entry_lt := h.entry_lt
  apart := h.apart
  owner := h.owner
  alone := h.alone
  owned := h.owned
  given r hr := (h.given r hr).of_same le_rfl ⟨rfl, rfl, rfl⟩
  home := h.home
  homes := h.homes
  source e a ha := by
    obtain ⟨hlt, hle, hm⟩ := h.source e a ha
    exact ⟨hlt, hle.trans (le_add_of_nonneg_right hs), hm⟩
  dropped := h.dropped

theorem sameEntry_setDone (e e' : Nat) : s.SameEntry (s.setDone e) e' := by
  show (Function.update s.heap e _ e').agentType = _ ∧ (Function.update s.heap e _ e').answer = _ ∧
    (Function.update s.heap e _ e').storedAt = _
  by_cases he : e' = e
  · rw [he, Function.update_self]
    exact ⟨rfl, rfl, rfl⟩
  · rw [Function.update_of_ne he]
    exact ⟨rfl, rfl, rfl⟩

theorem Sound.setDone (h : s.Sound lifetime) (e : Nat) : (s.setDone e).Sound lifetime where
  entry_lt := h.entry_lt
  apart := h.apart
  owner t b ty e' ho := by
    obtain ⟨hty, hanswer, -⟩ := sameEntry_setDone (s := s) e e'
    rw [hty, hanswer]
    exact h.owner t b ty e' ho
  alone := h.alone
  owned b e' hb hnone := h.owned b e' hb ((sameEntry_setDone e e').2.1 ▸ hnone)
  given r hr := (h.given r hr).of_same le_rfl (sameEntry_setDone e _)
  home := h.home
  homes := h.homes
  source e' a ha := by
    obtain ⟨-, hanswer, htime⟩ := sameEntry_setDone (s := s) e e'
    rw [htime]
    exact h.source e' a (hanswer ▸ ha)
  dropped := h.dropped

/-- A new entry, for a boot id that has none. -/
theorem Sound.create (h : s.Sound lifetime) {t : Nat} {b ty : String}
    (hfree : s.entries.get? b = none) (hflight : (s.pc t).inFlight = none) :
    (s.create t b ty).Sound lifetime := by
  have hentries : ∀ b', (s.create t b ty).entries.get? b' =
      if b' = b then some s.next else s.entries.get? b' := fun b' => Dict.get?_set _ _ _ _
  have hheap : ∀ e, e ≠ s.next → (s.create t b ty).heap e = s.heap e := fun e he =>
    Function.update_of_ne he _ _
  have hnew : (s.create t b ty).heap s.next = { agentType := ty } := Function.update_self _ _ _
  have hpc : ∀ t', t' ≠ t → (s.create t b ty).pc t' = s.pc t' := fun t' ht =>
    Function.update_of_ne ht _ _
  have hmine : (s.create t b ty).pc t = .minting b ty s.next := Function.update_self _ _ _
  have hlt : ∀ t' b' ty' e, (s.pc t').inFlight = some (b', ty', e) → e < s.next :=
    fun t' b' ty' e ho => h.entry_lt b' e (h.owner t' b' ty' e ho).1
  refine ⟨fun b' e hb => ?_, fun b' b'' e hb hb' => ?_, fun t' b' ty' e ho => ?_,
    fun t' t'' m ho ho' => ?_, fun b' e hb hnone => ?_, fun r hr => ?_, fun r hr b' hb => ?_,
    h.homes, fun e a ha => ?_, fun t' e he => ?_⟩
  · rw [hentries] at hb
    split at hb
    · cases hb; exact Nat.lt_succ_self _
    · exact (h.entry_lt b' e hb).trans (Nat.lt_succ_self _)
  · rw [hentries] at hb hb'
    split at hb <;> split at hb'
    · rename_i hb₁ hb₂; exact hb₁.trans hb₂.symm
    · cases hb; exact absurd (h.entry_lt b'' _ hb') (lt_irrefl _)
    · cases hb'; exact absurd (h.entry_lt b' _ hb) (lt_irrefl _)
    · exact h.apart b' b'' e hb hb'
  · by_cases ht : t' = t
    · rw [ht, hmine] at ho
      cases ho
      rw [hentries, if_pos rfl, hnew]
      exact ⟨rfl, rfl, rfl⟩
    · rw [hpc t' ht] at ho
      obtain ⟨hb, hty, hnone⟩ := h.owner t' b' ty' e ho
      have hne : b' ≠ b := by
        rintro rfl
        rw [hfree] at hb
        cases hb
      rw [hentries, if_neg hne, hheap e (h.entry_lt b' e hb).ne]
      exact ⟨hb, hty, hnone⟩
  · by_cases ht : t' = t <;> by_cases ht' : t'' = t
    · exact ht.trans ht'.symm
    · rw [ht, hmine] at ho
      rw [hpc t'' ht'] at ho'
      cases ho
      exact absurd (hlt t'' _ _ _ ho') (lt_irrefl _)
    · rw [ht', hmine] at ho'
      rw [hpc t' ht] at ho
      cases ho'
      exact absurd (hlt t' _ _ _ ho) (lt_irrefl _)
    · rw [hpc t' ht] at ho
      rw [hpc t'' ht'] at ho'
      exact h.alone t' t'' m ho ho'
  · rw [hentries] at hb
    split at hb
    · rename_i hb'
      cases hb
      exact ⟨t, ty, by rw [hmine, hb']; rfl⟩
    · rw [hheap e (h.entry_lt b' e hb).ne] at hnone
      obtain ⟨t', ty', ho⟩ := h.owned b' e hb hnone
      refine ⟨t', ty', ?_⟩
      rw [hpc t' fun ht => by rw [ht, hflight] at ho; cases ho]
      exact ho
  · have hr' := h.given r hr
    refine hr'.of_same (Nat.le_succ _) ?_
    rw [SameEntry, hheap _ hr'.entry_lt.ne]
    exact ⟨rfl, rfl, rfl⟩
  · rw [hentries] at hb
    split at hb
    · exact absurd (Option.some.inj hb ▸ (h.given r hr).entry_lt) (lt_irrefl _)
    · exact h.home r hr b' hb
  · by_cases he : e = s.next
    · rw [he, hnew] at ha
      cases ha
    · rw [hheap e he] at ha ⊢
      obtain ⟨hlt, hle, hm⟩ := h.source e a ha
      exact ⟨hlt.trans (Nat.lt_succ_self _), hle, hm⟩
  · by_cases ht : t' = t
    · rw [ht, hmine] at he
      cases he
    · rw [hpc t' ht] at he
      obtain ⟨hlt, hnot⟩ := h.dropped t' e he
      refine ⟨hlt.trans (Nat.lt_succ_self _), fun b' hb => ?_⟩
      rw [hentries] at hb
      split at hb
      · cases hb; exact lt_irrefl _ hlt
      · exact hnot b' hb

/-- An answer given from the entry of its boot id belongs there with all the others. -/
theorem Sound.homes_append (h : s.Sound lifetime) (r₀ : Answered α)
    (hb : s.entries.get? r₀.bootId = some r₀.entry) :
    (∀ r ∈ s.log ++ [r₀], ∀ b, s.entries.get? b = some r.entry → r.bootId = b) ∧
      ∀ r ∈ s.log ++ [r₀], ∀ r' ∈ s.log ++ [r₀], r.entry = r'.entry → r.bootId = r'.bootId := by
  simp only [List.mem_append, List.mem_singleton]
  constructor
  · rintro r (hr | rfl) b hb'
    · exact h.home r hr b hb'
    · exact h.apart _ b _ hb hb'
  · rintro r (hr | rfl) r' (hr' | rfl) hee
    · exact h.homes r hr r' hr' hee
    · exact h.home r hr _ (hee ▸ hb)
    · exact (h.home r' hr' _ (hee ▸ hb)).symm
    · rfl

/-- An answer is given again, from the entry of its boot id. -/
theorem Sound.give (h : s.Sound lifetime) {b ty : String} {e : Nat} {a : α}
    (hb : s.entries.get? b = some e) (hty : (s.heap e).agentType = ty)
    (ha : (s.heap e).answer = some a) (hyoung : s.expired lifetime e = false) :
    (s.give b ty e a true).Sound lifetime := by
  obtain ⟨hlt, hle, -⟩ := h.source e a ha
  have hhomes := h.homes_append ⟨b, ty, a, e, s.entries.get? b, s.clock, true⟩ hb
  exact {
    entry_lt := h.entry_lt
    apart := h.apart
    owner := h.owner
    alone := h.alone
    owned := h.owned
    dropped := h.dropped
    home := hhomes.1
    homes := hhomes.2
    given := fun r hr => by
      rcases List.mem_append.mp hr with hr | hr
      · exact (h.given r hr).of_same le_rfl ⟨rfl, rfl, rfl⟩
      · rw [List.mem_singleton.mp hr]
        have hage : s.clock - (s.heap e).storedAt < lifetime := by
          simpa [expired, ha] using hyoung
        exact ⟨hlt, hb, hty.symm, ha, nofun, hle, fun _ => hage⟩
    source := fun e' a' ha' => by
      obtain ⟨hlt', hle', m, hm, hma⟩ := h.source e' a' ha'
      refine ⟨hlt', hle', m, ?_, hma⟩
      rw [Replay.give, mints_append, if_neg (by simp), List.append_nil, hm] }

/-- No answer was given from an entry that has none. -/
theorem Sound.entry_ne (h : s.Sound lifetime) {e : Nat} (hnone : (s.heap e).answer = none)
    {r : Answered α} (hr : r ∈ s.log) : r.entry ≠ e := by
  rintro rfl
  rw [(h.given r hr).answer] at hnone
  cases hnone

/-- The calls with a mint in flight have entries of their own. -/
theorem Sound.eq_of_inFlight (h : s.Sound lifetime) {t t' : Nat} {b b' ty ty' : String} {e : Nat}
    (ho : (s.pc t).inFlight = some (b, ty, e)) (ho' : (s.pc t').inFlight = some (b', ty', e)) :
    t = t' := by
  obtain ⟨hb, hty, -⟩ := h.owner t b ty e ho
  obtain ⟨hb', hty', -⟩ := h.owner t' b' ty' e ho'
  obtain rfl := h.apart b b' e hb hb'
  obtain rfl := hty.symm.trans hty'
  exact h.alone t t' _ ho ho'

/-- A call that leaves its mint has no mint in flight; the others are where they were. -/
theorem inFlight_update {t t' : Nat} {pc : Pc α} (hpc : pc.inFlight = none)
    {m : String × String × Nat} : (Function.update s.pc t pc t').inFlight = some m ↔
      t' ≠ t ∧ (s.pc t').inFlight = some m := by
  by_cases ht : t' = t
  · rw [ht, Function.update_self, hpc]
    simp
  · rw [Function.update_of_ne ht]
    simp [ht]

theorem gaveUp_update {t t' : Nat} {pc : Pc α} {e : Nat} :
    (Function.update s.pc t pc t').gaveUp = some e ↔
      (t' = t ∧ pc.gaveUp = some e) ∨ (t' ≠ t ∧ (s.pc t').gaveUp = some e) := by
  by_cases ht : t' = t
  · rw [ht, Function.update_self]
    simp
  · rw [Function.update_of_ne ht]
    simp [ht]

/-- The minted answer is stored. -/
theorem Sound.store (h : s.Sound lifetime) {t : Nat} {b ty : String} {e : Nat} {a : α}
    (hpc : s.pc t = .minted b ty e a) : (s.store t b ty e a).Sound lifetime := by
  have hflight : (s.pc t).inFlight = some (b, ty, e) := by rw [hpc]; rfl
  obtain ⟨hb, hty, hnone⟩ := h.owner t b ty e hflight
  have hheap : ∀ e', e' ≠ e → (s.store t b ty e a).heap e' = s.heap e' := fun e' he =>
    Function.update_of_ne he _ _
  have hstored : (s.store t b ty e a).heap e =
      ⟨(s.heap e).agentType, (s.heap e).done, some a, s.clock⟩ := Function.update_self _ _ _
  have hother : ∀ t' m, ((s.store t b ty e a).pc t').inFlight = some m →
      t' ≠ t ∧ (s.pc t').inFlight = some m := fun t' m ho => (inFlight_update rfl).mp ho
  have hmints : ∀ e', (s.store t b ty e a).mints e' = s.mints e' ++
      if e = e' then [⟨b, ty, a, e, s.entries.get? b, s.clock, false⟩] else [] := fun e' => by
    have := mints_append (s := s) ⟨b, ty, a, e, s.entries.get? b, s.clock, false⟩ e'
    simp only [true_and] at this
    exact this
  have hhomes := h.homes_append ⟨b, ty, a, e, s.entries.get? b, s.clock, false⟩ hb
  refine ⟨h.entry_lt, h.apart, fun t' b' ty' e' ho => ?_, fun t' t'' m ho ho' => ?_,
    fun b' e' hb' hn => ?_, fun r hr => ?_, hhomes.1, hhomes.2, fun e' a' ha' => ?_,
    fun t' e' he => ?_⟩
  · obtain ⟨ht, ho⟩ := hother t' _ ho
    rw [hheap e' fun he => ht (h.eq_of_inFlight ho (he ▸ hflight))]
    exact h.owner t' b' ty' e' ho
  · exact h.alone t' t'' m (hother t' m ho).2 (hother t'' m ho').2
  · by_cases he : e' = e
    · rw [he, hstored] at hn
      cases hn
    · rw [hheap e' he] at hn
      obtain ⟨t', ty', ho⟩ := h.owned b' e' hb' hn
      refine ⟨t', ty', (inFlight_update rfl).mpr ⟨fun ht => ?_, ho⟩⟩
      rw [ht, hflight] at ho
      cases ho
      exact he rfl
  · rcases List.mem_append.mp hr with hr | hr
    · refine (h.given r hr).of_same le_rfl ?_
      rw [SameEntry, hheap _ (h.entry_ne hnone hr)]
      exact ⟨rfl, rfl, rfl⟩
    · rw [List.mem_singleton.mp hr]
      have hown : (⟨b, ty, a, e, s.entries.get? b, s.clock, false⟩ : Answered α).entry = e := rfl
      refine ⟨h.entry_lt b e hb, hb, ?_, ?_, fun _ => ?_, ?_, nofun⟩ <;> rw [hown, hstored]
      · exact hty.symm
      · exact rfl
      · exact le_refl s.clock
  · by_cases he : e = e'
    · subst he
      rw [hstored] at ha' ⊢
      have hnil : s.mints e = [] := List.eq_nil_iff_forall_not_mem.mpr fun m hm =>
        h.entry_ne hnone (mem_mints.mp hm).1 (mem_mints.mp hm).2.2
      refine ⟨h.entry_lt b e hb, le_rfl, ⟨b, ty, a, e, s.entries.get? b, s.clock, false⟩, ?_,
        Option.some.inj ha'⟩
      rw [hmints, if_pos rfl, hnil]
      rfl
    · rw [hheap e' (Ne.symm he)] at ha' ⊢
      rw [hmints, if_neg he, List.append_nil]
      exact h.source e' a' ha'
  · rcases gaveUp_update.mp he with ⟨-, he⟩ | ⟨-, he⟩
    · cases he
    · exact h.dropped t' e' he

/-- The entry of a failed mint is still the one of its boot id when it is removed. -/
theorem Sound.remove_eq (h : s.Sound lifetime) {t : Nat} {b ty : String} {e : Nat}
    (hpc : s.pc t = .failed b ty e) :
    s.remove t b e = { s with entries := s.entries.erase b }.goto t (.removed e) := by
  obtain ⟨hb, -, -⟩ := h.owner t b ty e (by rw [hpc]; rfl)
  rw [Replay.remove, hb]

theorem Sound.remove (h : s.Sound lifetime) {t : Nat} {b ty : String} {e : Nat}
    (hpc : s.pc t = .failed b ty e) : (s.remove t b e).Sound lifetime := by
  have hflight : (s.pc t).inFlight = some (b, ty, e) := by rw [hpc]; rfl
  obtain ⟨hb, -, -⟩ := h.owner t b ty e hflight
  rw [h.remove_eq hpc]
  have hentries : ∀ b' e', (s.entries.erase b).get? b' = some e' ↔
      b' ≠ b ∧ s.entries.get? b' = some e' := fun b' e' => by
    rw [Dict.get?_erase]
    by_cases hne : b' = b <;> simp [hne]
  have hother : ∀ t' m, (Function.update s.pc t (.removed e) t').inFlight = some m →
      t' ≠ t ∧ (s.pc t').inFlight = some m := fun t' m ho => (inFlight_update rfl).mp ho
  refine ⟨fun b' e' hb' => h.entry_lt b' e' ((hentries b' e').mp hb').2, fun b' b'' e' hb' hb'' =>
    h.apart b' b'' e' ((hentries b' e').mp hb').2 ((hentries b'' e').mp hb'').2,
    fun t' b' ty' e' ho => ?_, fun t' t'' m ho ho' => ?_, fun b' e' hb' hn => ?_,
    fun r hr => (h.given r hr).of_same le_rfl ⟨rfl, rfl, rfl⟩,
    fun r hr b' hb' => h.home r hr b' ((hentries b' _).mp hb').2, h.homes, h.source,
    fun t' e' he => ?_⟩
  · obtain ⟨ht, ho'⟩ := hother t' _ ho
    obtain ⟨hb', hty, hnone⟩ := h.owner t' b' ty' e' ho'
    refine ⟨(hentries b' e').mpr ⟨fun hbb => ?_, hb'⟩, hty, hnone⟩
    have hee : e' = e := Option.some.inj (hb'.symm.trans (hbb ▸ hb))
    exact ht (h.eq_of_inFlight ho' (hee ▸ hflight))
  · exact h.alone t' t'' m (hother t' m ho).2 (hother t'' m ho').2
  · obtain ⟨hne, hb'⟩ := (hentries b' e').mp hb'
    obtain ⟨t', ty', ho⟩ := h.owned b' e' hb' hn
    refine ⟨t', ty', (inFlight_update rfl).mpr ⟨fun ht => ?_, ho⟩⟩
    rw [ht, hflight] at ho
    cases ho
    exact hne rfl
  · rcases gaveUp_update.mp he with ⟨-, he⟩ | ⟨-, he⟩
    · cases he
      refine ⟨h.entry_lt b e hb, fun b' hb' => ?_⟩
      obtain ⟨hne, hb'⟩ := (hentries b' e).mp hb'
      exact hne (h.apart b' b e hb' hb)
    · obtain ⟨hlt, hnot⟩ := h.dropped t' e' he
      exact ⟨hlt, fun b' hb' => hnot b' ((hentries b' e').mp hb').2⟩

/-- The block of a call under the lock. -/
theorem Sound.lookUp (h : s.Sound lifetime) {t : Nat} {b ty : String}
    (hpc : s.pc t = .asking b ty) : (s.lookUp lifetime t b ty).Sound lifetime := by
  have hp := h.purgeExpired
  have hpc' : (s.purgeExpired lifetime).pc t = .asking b ty := hpc
  unfold Replay.lookUp
  dsimp only
  split
  · rename_i hb
    exact hp.create hb (by rw [hpc']; rfl)
  · rename_i e hb
    split
    · exact hp.goto (by rw [hpc']; rfl) (by rw [hpc']; rfl)
    · rename_i hty
      split
      · rename_i a ha
        have hgive := hp.give hb (not_not.mp hty) ha ((get?_purgeExpired b e).mp hb).2
        exact hgive.goto (by show _ = (s.pc t).inFlight; rw [hpc]; rfl)
          (by show _ = (s.pc t).gaveUp; rw [hpc]; rfl)
      · exact hp.goto (by rw [hpc']; rfl) (by rw [hpc']; rfl)

/-- Every move keeps the invariant. -/
theorem Sound.step (h : s.Sound lifetime) {s' : Replay α} {move : Move α}
    (hok : step lifetime s move = .ok s') : s'.Sound lifetime := by
  cases move with
  | tick seconds =>
    simp only [Master.step] at hok
    split at hok
    · cases hok; exact h.tick ‹_›
    · cases hok
  | look t =>
    simp only [Master.step] at hok
    split at hok
    · rename_i hpc
      cases hok
      exact h.lookUp hpc
    · cases hok
  | finish t =>
    simp only [Master.step] at hok
    split at hok
    · rename_i hpc
      cases hok
      exact h.store hpc
    · rename_i hpc
      cases hok
      exact h.remove hpc
    · cases hok
  | signal t =>
    simp only [Master.step] at hok
    split at hok
    · rename_i e result hpc
      cases hok
      exact (h.setDone e).goto (by show _ = (s.pc t).inFlight; rw [hpc]; rfl)
        (by show _ = (s.pc t).gaveUp; rw [hpc]; rfl)
    · rename_i e hpc
      cases hok
      exact (h.setDone e).goto (by show _ = (s.pc t).inFlight; rw [hpc]; rfl)
        (by show _ = (s.pc t).gaveUp; rw [hpc]; rfl)
    · cases hok
  | call t | wake t | mintReturns t | mintRaises t =>
    simp only [Master.step] at hok
    split at hok
    · rename_i hpc
      cases hok
      exact h.goto (by rw [hpc]; rfl) (by rw [hpc]; rfl)
    · cases hok

theorem Sound.init (lifetime clock : ℚ) : (init clock : Replay α).Sound lifetime where
  entry_lt b e hb := by cases hb
  apart b b' e hb := by cases hb
  owner t b ty e ho := by cases ho
  alone t t' m ho := by cases ho
  owned b e hb := by cases hb
  given r hr := by cases hr
  home r hr := by cases hr
  homes r hr := by cases hr
  source e a ha := by cases ha
  dropped t e he := by cases he

end Replay

/-- The states of a store with the given lifetime, in any interleaving of its calls. -/
def Reachable (lifetime : ℚ) : Replay α → Prop :=
  Reach (step lifetime) (fun _ _ => True) fun s => ∃ clock, s = .init clock

theorem Reachable.sound {lifetime : ℚ} {s : Replay α} (h : Reachable lifetime s) :
    s.Sound lifetime := by
  refine Reach.invariant ?_ ?_ h
  · rintro _ ⟨clock, rfl⟩
    exact .init lifetime clock
  · exact fun s move s' hs _ hok => hs.step hok

/-- What the store promises of a state: one mint in flight for a boot id, one agent type for its
answers while its entry lives, every answer given again the one minted answer of the entry and
younger than the lifetime, and nothing left of a failed mint. -/
structure AnswersOnce (lifetime : ℚ) (s : Replay α) : Prop where
  one_mint : ∀ t t' b ty ty' e e', (s.pc t).inFlight = some (b, ty, e) →
    (s.pc t').inFlight = some (b, ty', e') → t = t'
  given_living : ∀ r ∈ s.log, r.living = some r.entry
  one_type : ∀ r ∈ s.log, ∀ r' ∈ s.log, r.living = r'.living →
    r.bootId = r'.bootId ∧ r.agentType = r'.agentType
  replayed : ∀ r ∈ s.log, r.replayed = true → ∃ m, s.mints r.entry = [m] ∧ m.bootId = r.bootId ∧
    m.answer = r.answer ∧ m.time ≤ r.time ∧ r.time - m.time < lifetime
  failed_removes : ∀ t b ty e, s.pc t = .failed b ty e → ∀ s',
    step lifetime s (.finish t) = .ok s' → s'.pc t = .removed e ∧ s'.entries.get? b = none
  failed_gone : ∀ t e, (s.pc t).gaveUp = some e → ∀ b, s.entries.get? b ≠ some e

/-- In any interleaving of calls, mints and clock ticks the store answers each boot id once. -/
theorem reachable_answersOnce {lifetime : ℚ} {s : Replay α} (h : Reachable lifetime s) :
    AnswersOnce lifetime s := by
  have hs := h.sound
  refine ⟨fun t t' b ty ty' e e' ho ho' => ?_, fun r hr => (hs.given r hr).living,
    fun r hr r' hr' hliving => ?_, fun r hr hreplayed => ?_, fun t b ty e hpc s' hok => ?_,
    fun t e he => (hs.dropped t e he).2⟩
  · have hb := (hs.owner t b ty e ho).1
    have hb' := (hs.owner t' b ty' e' ho').1
    obtain rfl := Option.some.inj (hb.symm.trans hb')
    exact hs.eq_of_inFlight ho ho'
  · have hg := hs.given r hr
    have hg' := hs.given r' hr'
    rw [hg.living, hg'.living] at hliving
    have hee := Option.some.inj hliving
    exact ⟨hs.homes r hr r' hr' hee, by rw [hg.agentType, hg'.agentType, hee]⟩
  · have hg := hs.given r hr
    obtain ⟨-, -, m, hm, ha⟩ := hs.source _ _ hg.answer
    obtain ⟨hmem, hminted, hme⟩ := Replay.mem_mints.mp (by rw [hm]; exact List.mem_singleton_self m)
    have htime := (hs.given m hmem).fresh hminted
    rw [hme] at htime
    exact ⟨m, hm, hs.homes m hmem r hr hme, ha, htime ▸ hg.after, htime ▸ hg.young hreplayed⟩
  · simp only [step, hpc] at hok
    cases hok
    rw [hs.remove_eq hpc]
    exact ⟨Function.update_self _ _ _, by simp⟩

/-- A resend that comes while the first call mints: it waits, and is given the same answer. -/
def resendMoves : List (Move Nat) :=
  [.call 0 "boot" "provider", .look 0, .call 1 "boot" "provider", .look 1, .mintReturns 0 7,
    .tick 2, .finish 0, .tick 5, .signal 0, .wake 1, .look 1]

theorem resendMoves_answersOnce : ∃ s : Replay Nat, AnswersOnce 30 s ∧
    ∃ r ∈ s.log, r.replayed = true ∧ r.answer = 7 := by
  have hrun : Fallible.check (fun s => s.log.any fun r => r.replayed && decide (r.answer = 7))
      (resendMoves.foldlM (step 30) (.init 0)) = true := by decide +kernel
  obtain ⟨s, hs, htest⟩ := Fallible.check_eq_true.mp hrun
  refine ⟨s, reachable_answersOnce (Reach.of_foldlM (.start ⟨0, rfl⟩) hs), ?_⟩
  simpa using htest

end TradingAgents.Master
