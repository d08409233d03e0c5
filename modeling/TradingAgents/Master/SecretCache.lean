import Mathlib.Logic.Function.Basic
import TradingAgents.Master.CredentialCheck
import TradingAgents.ProofKit.Runs

/-! The cache of fetched secrets, shared by the threads of concurrent activations.  The lock guards
the map alone, so the lookup, the clock, the fetch and the store of one call are steps of their own,
and an invalidation may come between any two of them. -/

namespace TradingAgents.Master

open ProofKit

/-- A value of the inner store.  How often the cache had been cleared when it was fetched is not in
the source: it says how old the value is. -/
structure FetchedSecret where
  value : String
  clears : Nat
deriving DecidableEq

structure CachedSecret where
  secret : FetchedSecret
  fetchedAt : Int
deriving DecidableEq

/-- Where a thread is in `get_secret`; `since` is how often the cache had been cleared when its call
started. -/
inductive SecretCall where
  | idle
  | starting (name : String) (since : Nat)
  | hit (name : String) (since : Nat) (entry : CachedSecret)
  | missed (name : String) (since : Nat)
  | fetched (name : String) (since : Nat) (secret : FetchedSecret)
deriving DecidableEq

/-- What a call has returned.  A cached value has the age at which it was found fresh. -/
structure SecretAnswer where
  name : String
  since : Nat
  secret : FetchedSecret
  age : Option Int
deriving DecidableEq

structure CachingSecretStore where
  cache : Dict String CachedSecret
  calls : Nat → SecretCall
  clears : Nat
  answers : List SecretAnswer

inductive SecretMove where
  | start (t : Nat) (name : String)
  | look (t : Nat)
  | check (t : Nat) (now : Int)
  | fetch (t : Nat) (value : Option String)
  | store (t : Nat) (now : Int)
  | invalidate
deriving DecidableEq

/-- The move is not the thread's next one. -/
inductive NotNext where
  | notNext
deriving DecidableEq

namespace CachingSecretStore

def setCall (s : CachingSecretStore) (t : Nat) (c : SecretCall) : CachingSecretStore :=
  { s with calls := Function.update s.calls t c }

/-- The call of a thread returns. -/
def answer (s : CachingSecretStore) (t : Nat) (a : SecretAnswer) : CachingSecretStore :=
  { s.setCall t .idle with answers := s.answers ++ [a] }

/-- One step of one thread.  The clock may show anything; a fetch without a value raises. -/
def step (ttlMinutes : Nat) (s : CachingSecretStore) :
    SecretMove → Except NotNext CachingSecretStore
  | .start t name =>
    match s.calls t with
    | .idle => .ok (s.setCall t (.starting name s.clears))
    | _ => .error .notNext
  | .look t =>
    match s.calls t with
    | .starting name since =>
      match s.cache.get? name with
      | some entry => .ok (s.setCall t (.hit name since entry))
      | none => .ok (s.setCall t (.missed name since))
    | _ => .error .notNext
  | .check t now =>
    match s.calls t with
    | .hit name since entry =>
      if lives ttlMinutes entry.fetchedAt now then
        .ok (s.answer t ⟨name, since, entry.secret, some (now - entry.fetchedAt)⟩)
      else .ok (s.setCall t (.missed name since))
    | _ => .error .notNext
  | .fetch t value =>
    match s.calls t with
    | .missed name since =>
      match value with
      | some value => .ok (s.setCall t (.fetched name since ⟨value, s.clears⟩))
      | none => .ok (s.setCall t .idle)
    | _ => .error .notNext
  | .store t now =>
    match s.calls t with
    | .fetched name since secret =>
      let answered := s.answer t ⟨name, since, secret, none⟩
      if secret.value = "" then .ok answered
      else .ok { answered with cache := s.cache.set name ⟨secret, now⟩ }
    | _ => .error .notNext
  | .invalidate => .ok { s with cache := .empty, clears := s.clears + 1 }

def Start (s : CachingSecretStore) : Prop :=
  s.cache = .empty ∧ (∀ t, s.calls t = .idle) ∧ s.answers = []

end CachingSecretStore

/-! ### What a call may return -/

/-- Every invalidation that came before the call came before the fetch of what it returned. -/
def SecretAnswer.Refetched (a : SecretAnswer) : Prop := a.since ≤ a.secret.clears

/-- What was returned from the cache was within a lifetime that is not zero. -/
def SecretAnswer.Within (ttlMinutes : Nat) (a : SecretAnswer) : Prop :=
  ∀ age, a.age = some age → ttlMinutes ≠ 0 → age < ttlMinutes * minute

/-- A value is stored with no invalidation since its fetch. -/
def StoresCurrent (s : CachingSecretStore) : SecretMove → Prop
  | .store t _ => ∀ name since secret, s.calls t = .fetched name since secret →
      secret.value ≠ "" → secret.clears = s.clears
  | _ => True

/-- The call would store nothing that was fetched before an invalidation. -/
def SecretCall.storesCurrent (clears : Nat) : SecretCall → Bool
  | .fetched _ _ secret => secret.value = "" || secret.clears = clears
  | _ => true

theorem storesCurrent_store {s : CachingSecretStore} {t : Nat} {now : Int} :
    (s.calls t).storesCurrent s.clears = true ↔ StoresCurrent s (.store t now) := by
  simp only [StoresCurrent]
  cases s.calls t with
  | fetched name since secret => simp [SecretCall.storesCurrent, or_iff_not_imp_left]
  | _ => simp [SecretCall.storesCurrent]

instance (s : CachingSecretStore) (m : SecretMove) : Decidable (StoresCurrent s m) :=
  match m with
  | .store _ _ => decidable_of_iff _ storesCurrent_store
  | .start _ _ => .isTrue trivial
  | .look _ => .isTrue trivial
  | .check _ _ => .isTrue trivial
  | .fetch _ _ => .isTrue trivial
  | .invalidate => .isTrue trivial

/-- What is known of a call. -/
def SecretCall.Current (clears : Nat) : SecretCall → Prop
  | .idle => True
  | .starting _ since => since ≤ clears
  | .hit _ since entry => since ≤ clears ∧ since ≤ entry.secret.clears
  | .missed _ since => since ≤ clears
  | .fetched _ since secret => since ≤ secret.clears ∧ secret.clears ≤ clears

/-- The invariant: nothing cached was fetched before the last invalidation. -/
structure SecretsCurrent (s : CachingSecretStore) : Prop where
  cached : ∀ name entry, s.cache.get? name = some entry → entry.secret.clears = s.clears
  calls : ∀ t, (s.calls t).Current s.clears
  answers : ∀ a ∈ s.answers, a.Refetched

section

variable {ttlMinutes : Nat} {s s' : CachingSecretStore} {t : Nat} {m : SecretMove}

theorem SecretCall.Current.later {c : SecretCall} {clears : Nat} (h : c.Current clears) :
    c.Current (clears + 1) := by
  cases c with
  | idle => trivial
  | starting name since => exact Nat.le_succ_of_le h
  | hit name since entry => exact ⟨Nat.le_succ_of_le h.1, h.2⟩
  | missed name since => exact Nat.le_succ_of_le h
  | fetched name since secret => exact ⟨h.1, Nat.le_succ_of_le h.2⟩

theorem SecretsCurrent.setCall (h : SecretsCurrent s) {c : SecretCall}
    (hc : c.Current s.clears) : SecretsCurrent (s.setCall t c) where
  cached := h.cached
  calls := fun u => by
    change (Function.update s.calls t c u).Current s.clears
    rw [Function.update_apply]
    split
    · exact hc
    · exact h.calls u
  answers := h.answers

theorem SecretsCurrent.answer (h : SecretsCurrent s) {a : SecretAnswer} (ha : a.Refetched) :
    SecretsCurrent (s.answer t a) where
  cached := h.cached
  calls := (h.setCall (t := t) (c := .idle) trivial).calls
  answers := fun b hb => by
    rcases List.mem_append.mp hb with hin | hlast
    · exact h.answers b hin
    · rw [List.mem_singleton.mp hlast]
      exact ha

theorem SecretsCurrent.step (h : SecretsCurrent s) (hallowed : StoresCurrent s m)
    (hok : s.step ttlMinutes m = .ok s') : SecretsCurrent s' := by
  cases m with
  | start t name =>
    simp only [CachingSecretStore.step] at hok
    split at hok
    · cases hok
      exact h.setCall (Nat.le_refl _)
    · cases hok
  | look t =>
    simp only [CachingSecretStore.step] at hok
    split at hok
    · rename_i name since hcall
      have hcurrent := h.calls t
      rw [hcall] at hcurrent
      split at hok
      · rename_i entry hentry
        cases hok
        exact h.setCall ⟨hcurrent, (h.cached name entry hentry).symm ▸ hcurrent⟩
      · cases hok
        exact h.setCall hcurrent
    · cases hok
  | check t now =>
    simp only [CachingSecretStore.step] at hok
    split at hok
    · rename_i name since entry hcall
      have hcurrent := h.calls t
      rw [hcall] at hcurrent
      split at hok
      · cases hok
        exact h.answer hcurrent.2
      · cases hok
        exact h.setCall hcurrent.1
    · cases hok
  | fetch t value =>
    simp only [CachingSecretStore.step] at hok
    split at hok
    · rename_i name since hcall
      have hcurrent := h.calls t
      rw [hcall] at hcurrent
      split at hok
      · cases hok
        exact h.setCall ⟨hcurrent, Nat.le_refl _⟩
      · cases hok
        exact h.setCall trivial
    · cases hok
  | store t now =>
    simp only [CachingSecretStore.step] at hok
    split at hok
    · rename_i name since secret hcall
      have hcurrent := h.calls t
      rw [hcall] at hcurrent
      have hanswer := h.answer (t := t) (a := ⟨name, since, secret, none⟩) hcurrent.1
      split at hok
      · cases hok
        exact hanswer
      · rename_i hvalue
        cases hok
        refine ⟨fun name' entry hentry => ?_, hanswer.calls, hanswer.answers⟩
        rw [Dict.get?_set] at hentry
        split at hentry
        · cases hentry
          exact hallowed name since secret hcall hvalue
        · exact h.cached name' entry hentry
    · cases hok
  | invalidate =>
    cases hok
    refine ⟨fun name entry hentry => ?_, fun t => (h.calls t).later, h.answers⟩
    rw [Dict.get?_empty] at hentry
    cases hentry

/-- A value leaves the cache only within the lifetime. -/
theorem within_step (h : ∀ a ∈ s.answers, a.Within ttlMinutes)
    (hok : s.step ttlMinutes m = .ok s') : ∀ a ∈ s'.answers, a.Within ttlMinutes := by
  have hmore : ∀ (t : Nat) (a : SecretAnswer), a.Within ttlMinutes →
      ∀ b ∈ (s.answer t a).answers, b.Within ttlMinutes := by
    intro t a ha b hb
    rcases List.mem_append.mp hb with hin | hlast
    · exact h b hin
    · rw [List.mem_singleton.mp hlast]
      exact ha
  cases m with
  | check t now =>
    simp only [CachingSecretStore.step] at hok
    split at hok
    · rename_i name since entry hcall
      split at hok
      · rename_i hlives
        cases hok
        refine hmore t _ fun age hage hlifetime => ?_
        cases hage
        rcases Bool.or_eq_true_iff.mp hlives with hnever | hyoung
        · exact absurd (of_decide_eq_true hnever) hlifetime
        · exact of_decide_eq_true hyoung
      · cases hok
        exact h
    · cases hok
  | store t now =>
    simp only [CachingSecretStore.step] at hok
    split at hok
    · split at hok
      · cases hok
        exact hmore t _ fun _ hage => nomatch hage
      · cases hok
        exact hmore t _ fun _ hage => nomatch hage
    · cases hok
  | start t name =>
    simp only [CachingSecretStore.step] at hok
    split at hok
    · cases hok
      exact h
    · cases hok
  | look t =>
    simp only [CachingSecretStore.step] at hok
    split at hok
    · split at hok
      · cases hok
        exact h
      · cases hok
        exact h
    · cases hok
  | fetch t value =>
    simp only [CachingSecretStore.step] at hok
    split at hok
    · split at hok
      · cases hok
        exact h
      · cases hok
        exact h
    · cases hok
  | invalidate =>
    cases hok
    exact h

theorem SecretsCurrent.of_reach (h : Reach (CachingSecretStore.step ttlMinutes) StoresCurrent
    CachingSecretStore.Start s) : SecretsCurrent s := by
  refine h.invariant ?_ fun s m s' hs hallowed hok => hs.step hallowed hok
  rintro s ⟨hcache, hcalls, hanswers⟩
  refine ⟨fun name entry hentry => ?_, fun t => ?_, fun a ha => ?_⟩
  · rw [hcache, Dict.get?_empty] at hentry
    cases hentry
  · rw [hcalls t]
    trivial
  · rw [hanswers] at ha
    exact absurd ha List.not_mem_nil

theorem within_of_reach (h : Reach (CachingSecretStore.step ttlMinutes) (fun _ _ => True)
    CachingSecretStore.Start s) : ∀ a ∈ s.answers, a.Within ttlMinutes := by
  refine h.invariant (P := fun s => ∀ a ∈ s.answers, a.Within ttlMinutes) ?_
    fun s m s' hs _ hok => within_step hs hok
  rintro s ⟨-, -, hanswers⟩ a ha
  rw [hanswers] at ha
  exact absurd ha List.not_mem_nil

theorem lives_now (now : Int) : lives ttlMinutes now now = true := by
  unfold lives minute
  rw [Bool.or_eq_true, decide_eq_true_iff, decide_eq_true_iff]
  omega

/-- A value that is stored after an invalidation which its fetch came before is returned to a call
that starts afterwards. -/
theorem stale_store_returned {u : Nat} {name : String} {since : Nat} {secret : FetchedSecret}
    {now : Int} (hcall : s.calls t = .fetched name since secret) (hidle : s.calls u = .idle)
    (hvalue : secret.value ≠ "") (hstale : secret.clears < s.clears) :
    ∃ s', [.store t now, .start u name, .look u, .check u now].foldlM
        (CachingSecretStore.step ttlMinutes) s = .ok s' ∧ ∃ a ∈ s'.answers, ¬ a.Refetched := by
  let stored := { s.answer t ⟨name, since, secret, none⟩ with
    cache := s.cache.set name ⟨secret, now⟩ }
  have hne : u ≠ t := by
    rintro rfl
    rw [hcall] at hidle
    cases hidle
  have hstore : s.step ttlMinutes (.store t now) = .ok stored := by
    simp [CachingSecretStore.step, hcall, hvalue, stored]
  have hidle' : stored.calls u = .idle := by
    change Function.update s.calls t .idle u = .idle
    rw [Function.update_of_ne hne, hidle]
  have hstart : stored.step ttlMinutes (.start u name) =
      .ok (stored.setCall u (.starting name s.clears)) := by
    simp only [CachingSecretStore.step, hidle']
    rfl
  have hlook : (stored.setCall u (.starting name s.clears)).step ttlMinutes (.look u) =
      .ok ((stored.setCall u (.starting name s.clears)).setCall u
        (.hit name s.clears ⟨secret, now⟩)) := by
    simp [CachingSecretStore.step, CachingSecretStore.setCall, stored]
  have hcheck : ((stored.setCall u (.starting name s.clears)).setCall u
      (.hit name s.clears ⟨secret, now⟩)).step ttlMinutes (.check u now) =
      .ok (((stored.setCall u (.starting name s.clears)).setCall u
        (.hit name s.clears ⟨secret, now⟩)).answer u
          ⟨name, s.clears, secret, some (now - now)⟩) := by
    simp [CachingSecretStore.step, CachingSecretStore.setCall, lives_now]
  refine ⟨((stored.setCall u (.starting name s.clears)).setCall u
    (.hit name s.clears ⟨secret, now⟩)).answer u ⟨name, s.clears, secret, some (now - now)⟩, ?_,
    ⟨name, s.clears, secret, some (now - now)⟩, ?_, Nat.not_le.mpr hstale⟩
  · simp only [List.foldlM_cons, List.foldlM_nil, hstore, hstart, hlook, hcheck, Fallible.ok_bind]
    rfl
  · exact List.mem_append_right _ (List.mem_singleton_self _)

/-- In every interleaving no call returns a cached value past a lifetime that is not zero.  Where
each value is stored with no invalidation since its fetch, no call returns a value that was fetched
before an invalidation that came before the call; the first store that breaks this lets the next
call return such a value. -/
theorem secrets_refetched (ttlMinutes : Nat) :
    (∀ s, Reach (CachingSecretStore.step ttlMinutes) (fun _ _ => True)
        CachingSecretStore.Start s → ∀ a ∈ s.answers, a.Within ttlMinutes) ∧
      ∀ s, Reach (CachingSecretStore.step ttlMinutes) StoresCurrent CachingSecretStore.Start s →
        (∀ a ∈ s.answers, a.Refetched) ∧
        ∀ t now, ¬ StoresCurrent s (.store t now) → ∀ u, s.calls u = .idle →
          ∃ name s', [.store t now, .start u name, .look u, .check u now].foldlM
            (CachingSecretStore.step ttlMinutes) s = .ok s' ∧ ∃ a ∈ s'.answers, ¬ a.Refetched := by
  refine ⟨fun s => within_of_reach, fun s h => ⟨(SecretsCurrent.of_reach h).answers, ?_⟩⟩
  intro t now hbreaks u hidle
  simp only [StoresCurrent, not_forall] at hbreaks
  obtain ⟨name, since, secret, hcall, hvalue, hclears⟩ := hbreaks
  have hcurrent := (SecretsCurrent.of_reach h).calls t
  rw [hcall] at hcurrent
  exact ⟨name, stale_store_returned hcall hidle hvalue (Nat.lt_of_le_of_ne hcurrent.2 hclears)⟩

end

/-! ### A remediation during a fetch -/

def emptyStore : CachingSecretStore := ⟨.empty, fun _ => .idle, 0, []⟩

/-- Thread 1 fetches a value and thread 2 is answered from the cache; after an invalidation thread 2
fetches again, and thread 1 is answered with the value of that fetch. -/
def refetchMoves : List SecretMove :=
  [.start 1 "openai-key", .look 1, .fetch 1 (some "old"), .store 1 0,
    .start 2 "openai-key", .look 2, .check 2 60,
    .invalidate,
    .start 2 "openai-key", .look 2, .fetch 2 (some "new"), .store 2 120,
    .start 1 "openai-key", .look 1, .check 1 180]

/-- The four answers of that run. -/
def refetchAnswers : List SecretAnswer :=
  [⟨"openai-key", 0, ⟨"old", 0⟩, none⟩, ⟨"openai-key", 0, ⟨"old", 0⟩, some 60⟩,
    ⟨"openai-key", 1, ⟨"new", 1⟩, none⟩, ⟨"openai-key", 1, ⟨"new", 1⟩, some 60⟩]

theorem secrets_refetched_after_invalidate :
    ∃ s, Reach (CachingSecretStore.step 5) StoresCurrent CachingSecretStore.Start s ∧
      s.answers = refetchAnswers ∧ (∀ a ∈ s.answers, a.Within 5) ∧
      ∀ a ∈ s.answers, a.Refetched := by
  have hrun : Fallible.check (fun s : CachingSecretStore => decide (s.answers = refetchAnswers))
      (refetchMoves.foldlM (fun s m => if StoresCurrent s m then
        CachingSecretStore.step 5 s m else .error .notNext) emptyStore) = true := by
    decide +kernel
  obtain ⟨s, hs, hanswers⟩ := Fallible.check_eq_true.mp hrun
  have hreach : Reach (CachingSecretStore.step 5) StoresCurrent CachingSecretStore.Start s :=
    (Reach.start ⟨rfl, fun _ => rfl, rfl⟩).of_checked hs
  exact ⟨s, hreach, of_decide_eq_true hanswers,
    (secrets_refetched 5).1 s (hreach.mono fun _ _ _ => trivial),
    ((secrets_refetched 5).2 s hreach).1⟩

/-- Thread 1 fetches the old value, a remediation clears the cache, thread 1 stores what it fetched,
and the retest of thread 2 is answered from the cache. -/
def raceMoves : List SecretMove :=
  [.start 1 "openai-key", .look 1, .fetch 1 (some "old"), .invalidate, .store 1 0,
    .start 2 "openai-key", .look 2, .check 2 0]

/-- The retest after the invalidation is handed the old value. -/
theorem retest_on_old_secret :
    ∃ s, Reach (CachingSecretStore.step 5) (fun _ _ => True) CachingSecretStore.Start s ∧
      ∃ a ∈ s.answers, a.secret.value = "old" ∧ ¬ a.Refetched := by
  have hrun : Fallible.check (fun s : CachingSecretStore => decide
      (⟨"openai-key", 1, ⟨"old", 0⟩, some 0⟩ ∈ s.answers))
      (raceMoves.foldlM (CachingSecretStore.step 5) emptyStore) = true := by
    decide +kernel
  obtain ⟨s, hs, hmem⟩ := Fallible.check_eq_true.mp hrun
  refine ⟨s, (Reach.start ⟨rfl, fun _ => rfl, rfl⟩).of_foldlM hs, _,
    of_decide_eq_true hmem, rfl, ?_⟩
  exact Nat.not_le.mpr Nat.zero_lt_one

end TradingAgents.Master
