import Mathlib
import TradingAgents.Kernel.Writes
import TradingAgents.ProofKit.Runs
import TradingAgents.ProofKit.Text

/-! The read cache of the dashboard, shared by the threads of the server.  A read looks its call up,
builds a payload from the inner store when it finds none, and stores it afterwards; a write clears
the cache after the inner store has applied it.  Each of these is a step of its own, so the steps of
several reads and writes may come in any order. -/

namespace TradingAgents.Surfaces

open Kernel ProofKit

/-- A read of the graph store. -/
inductive ReadCall where
  | getNode (label key : String)
  | listNodes (label : String)
  | keysWithoutEdge (label edgeType : String) (downstream : Bool) (createdAtFrom : Option String)
  | ancestors (label key : String) (maxDepth : Nat) (edgeTypes : Option (Finset String))
  | descendants (label key : String) (maxDepth : Nat) (edgeTypes : Option (Finset String))
deriving DecidableEq

inductive Reply (δ : Type) where
  | node (n : Option (Node δ))
  | nodes (ns : List (Node δ))
  | keys (ks : List String)

/-- What the inner store returns for a call. -/
def answer {δ : Type} (g : Graph δ) : ReadCall → Reply δ
  | .getNode label key => .node (g.getNode label key)
  | .listNodes label => .nodes (g.listNodes label)
  | .keysWithoutEdge label edgeType downstream createdAtFrom =>
    .keys (g.keysWithoutEdge label edgeType downstream createdAtFrom)
  | .ancestors label key maxDepth edgeTypes =>
    .nodes (g.ancestors (label, key) maxDepth (edgeTypes.map fun s => s.sort (· ≤ ·)))
  | .descendants label key maxDepth edgeTypes =>
    .nodes (g.descendants (label, key) maxDepth (edgeTypes.map fun s => s.sort (· ≤ ·)))

/-- The name of an entry: the name of the method and its arguments. -/
inductive CacheKey where
  | getNode (label key : String)
  | listNodes (label : String)
  | keysWithoutEdge (label edgeType : String) (downstream : Bool) (createdAtFrom : Option String)
  | ancestors (label key : String) (maxDepth : Nat) (edgeTypes : List String)
  | descendants (label key : String) (maxDepth : Nat) (edgeTypes : List String)
deriving DecidableEq

def edgeKey : Option (Finset String) → List String
  | none => ["*"]
  | some s => s.sort (· ≤ ·)

def ReadCall.cacheKey : ReadCall → CacheKey
  | getNode label key => .getNode label key
  | listNodes label => .listNodes label
  | keysWithoutEdge label edgeType downstream createdAtFrom =>
    .keysWithoutEdge label edgeType downstream createdAtFrom
  | ancestors label key maxDepth edgeTypes => .ancestors label key maxDepth (edgeKey edgeTypes)
  | descendants label key maxDepth edgeTypes => .descendants label key maxDepth (edgeKey edgeTypes)

/-! ### The system -/

/-- A cached payload.  The call it was built for and the moment of the build are not in the source:
they say where the payload comes from. -/
structure CacheEntry (δ : Type) where
  createdAt : Int
  payload : Reply δ
  call : ReadCall
  moment : Nat

/-- Where a thread is.  `started` is the clock at the start of its read and `floor` the moment of
the last write that had returned by then; `moment` is the moment of a build or of a write. -/
inductive CacheThread (δ : Type) where
  | idle
  | reading (call : ReadCall) (started : Int) (floor : Nat)
  | building (call : ReadCall) (started : Int) (floor : Nat)
  | storing (call : ReadCall) (started : Int) (floor : Nat) (payload : Reply δ) (moment : Nat)
  | clearing (moment : Nat)

/-- A read that has returned. -/
structure ReturnedRead (δ : Type) where
  call : ReadCall
  started : Int
  floor : Nat
  reply : Reply δ

/-- The inner store at one moment. -/
structure StoreMoment (δ : Type) where
  time : Int
  graph : Graph δ

/-- The cached store: the entries, the threads, the inner store at every moment up to now, the
moment of the last write that has returned, and the reads that have returned. -/
structure CachedStore (δ : Type) where
  items : Dict CacheKey (CacheEntry δ)
  threads : Nat → CacheThread δ
  clock : Int
  graph : Graph δ
  past : List (StoreMoment δ)
  floor : Nat
  returned : List (ReturnedRead δ)

inductive CacheMove (δ : Type) where
  | tick (now : Int)
  | outside (w : Write δ)
  | start (t : Nat) (call : ReadCall)
  | lookup (t : Nat)
  | build (t : Nat)
  | store (t : Nat)
  | write (t : Nat) (w : Write δ) (raises : Bool)
  | clear (t : Nat)

/-- The move is not the thread's next one. -/
inductive NotEnabled where
  | notEnabled

section

variable {δ : Type} (ttl : Int)

namespace CachedStore

def setThread (s : CachedStore δ) (t : Nat) (c : CacheThread δ) : CachedStore δ :=
  { s with threads := Function.update s.threads t c }

def finish (s : CachedStore δ) (t : Nat) (r : ReturnedRead δ) : CachedStore δ :=
  { s.setThread t .idle with returned := s.returned ++ [r] }

/-- The last moment of the past is now. -/
def now (s : CachedStore δ) : Nat := s.past.length - 1

/-- One more moment. -/
def pass (s : CachedStore δ) : CachedStore δ := { s with past := s.past ++ [⟨s.clock, s.graph⟩] }

variable [DecidableEq δ]

/-- One move, before its moment is added to the past. -/
def act (s : CachedStore δ) : CacheMove δ → Except NotEnabled (CachedStore δ)
  | .tick now => if s.clock ≤ now then .ok { s with clock := now } else .error .notEnabled
  | .outside w =>
    match s.graph.write w with
    | .ok g => .ok { s with graph := g }
    | .error _ => .ok s
  | .start t call =>
    match s.threads t with
    | .idle =>
      -- a cache without a lifetime builds at once
      let begun := if ttl ≤ 0 then .building call s.clock s.floor
        else .reading call s.clock s.floor
      .ok (s.setThread t begun)
    | _ => .error .notEnabled
  | .lookup t =>
    match s.threads t with
    | .reading call started floor =>
      match s.items.get? call.cacheKey with
      | some e =>
        if started - e.createdAt ≤ ttl then .ok (s.finish t ⟨call, started, floor, e.payload⟩)
        else .ok (s.setThread t (.building call started floor))
      | none => .ok (s.setThread t (.building call started floor))
    | _ => .error .notEnabled
  | .build t =>
    match s.threads t with
    | .building call started floor =>
      let payload := answer s.graph call
      if ttl ≤ 0 then .ok (s.finish t ⟨call, started, floor, payload⟩)
      else .ok (s.setThread t (.storing call started floor payload s.now))
    | _ => .error .notEnabled
  | .store t =>
    match s.threads t with
    | .storing call started floor payload moment =>
      .ok { s.finish t ⟨call, started, floor, payload⟩ with
        items := s.items.set call.cacheKey ⟨started, payload, call, moment⟩ }
    | _ => .error .notEnabled
  | .write t w raises =>
    match s.threads t with
    | .idle =>
      match s.graph.write w with
      | .ok g =>
        let s := { s with graph := g }
        .ok (if raises then s else s.setThread t (.clearing (s.now + 1)))
      | .error _ => .ok s
    | _ => .error .notEnabled
  | .clear t =>
    match s.threads t with
    | .clearing moment =>
      .ok { s.setThread t .idle with items := .empty, floor := max s.floor moment }
    | _ => .error .notEnabled

def step (s : CachedStore δ) (m : CacheMove δ) : Except NotEnabled (CachedStore δ) := do
  let s ← s.act ttl m
  pure s.pass

end CachedStore

/-! ### The invariant -/

/-- At moment `i`, not before `since`, the inner store would have returned `reply`. -/
def AnsweredAt (past : List (StoreMoment δ)) (call : ReadCall) (reply : Reply δ) (i : Nat)
    (since : Int) : Prop :=
  ∃ m, past[i]? = some m ∧ since ≤ m.time ∧ answer m.graph call = reply

/-- What a read returned is what the inner store would have returned at a moment within the lifetime
before the read began, and no earlier than the last write that had returned by then. -/
def ReadKept (past : List (StoreMoment δ)) (r : ReturnedRead δ) : Prop :=
  ∃ i, AnsweredAt past r.call r.reply i (r.started - max ttl 0) ∧ r.floor ≤ i

def ThreadKept (past : List (StoreMoment δ)) (clock : Int) (floor limit : Nat) :
    CacheThread δ → Prop
  | .idle => True
  | .reading _ started fl => started ≤ clock ∧ fl ≤ floor
  | .building _ started fl => started ≤ clock ∧ fl ≤ floor
  | .storing call started fl payload i => AnsweredAt past call payload i started ∧ fl ≤ i
  | .clearing i => i ≤ limit

/-- The invariant of the cached store. -/
structure CacheKept (s : CachedStore δ) : Prop where
  current : s.past[s.now]? = some ⟨s.clock, s.graph⟩
  floor_le : s.floor ≤ s.now
  entries : ∀ k e, s.items.get? k = some e →
    AnsweredAt s.past e.call e.payload e.moment e.createdAt ∧ s.floor ≤ e.moment
  threads : ∀ t, ThreadKept s.past s.clock s.floor s.now (s.threads t)
  returned : ∀ r ∈ s.returned, ReadKept ttl s.past r

/-- An entry that a lookup finds fresh was built for the call. -/
def LookupPrompt (items : Dict CacheKey (CacheEntry δ)) : CacheThread δ → Prop
  | .reading call started _ => ∀ e ∈ items.get? call.cacheKey,
    started - e.createdAt ≤ ttl → e.call = call
  | _ => True

/-- No write after the build of a payload has returned. -/
def StorePrompt (floor : Nat) : CacheThread δ → Prop
  | .storing _ _ _ _ i => floor ≤ i
  | _ => True

/-- A payload is stored before a write after its build has returned, and an entry answers the call
that it was built for. -/
def Prompt (s : CachedStore δ) : CacheMove δ → Prop
  | .lookup t => LookupPrompt ttl s.items (s.threads t)
  | .store t => StorePrompt s.floor (s.threads t)
  | _ => True

section

variable {ttl} {s s' : CachedStore δ} {past : List (StoreMoment δ)} {call : ReadCall}
  {reply : Reply δ} {i : Nat} {since : Int}

theorem AnsweredAt.append (h : AnsweredAt past call reply i since) (m : StoreMoment δ) :
    AnsweredAt (past ++ [m]) call reply i since := by
  obtain ⟨n, hn, hrest⟩ := h
  refine ⟨n, ?_, hrest⟩
  rw [List.getElem?_append_left (List.getElem?_eq_some_iff.mp hn).1]
  exact hn

theorem AnsweredAt.earlier {since' : Int} (h : AnsweredAt past call reply i since)
    (hle : since' ≤ since) : AnsweredAt past call reply i since' := by
  obtain ⟨n, hn, htime, heq⟩ := h
  exact ⟨n, hn, by omega, heq⟩

theorem ThreadKept.mono {clock clock' : Int} {floor floor' limit limit' : Nat} {c : CacheThread δ}
    (h : ThreadKept past clock floor limit c) (hclock : clock ≤ clock') (hfloor : floor ≤ floor')
    (hlimit : limit ≤ limit') : ThreadKept past clock' floor' limit' c := by
  cases c with
  | idle => trivial
  | reading call started fl => exact ⟨h.1.trans hclock, h.2.trans hfloor⟩
  | building call started fl => exact ⟨h.1.trans hclock, h.2.trans hfloor⟩
  | storing call started fl payload i => exact h
  | clearing i => exact Nat.le_trans h hlimit

theorem ThreadKept.append {clock : Int} {floor limit : Nat} {c : CacheThread δ}
    (h : ThreadKept past clock floor limit c) (m : StoreMoment δ) :
    ThreadKept (past ++ [m]) clock floor limit c := by
  cases c with
  | storing call started fl payload i => exact ⟨h.1.append m, h.2⟩
  | idle => trivial
  | reading call started fl => exact h
  | building call started fl => exact h
  | clearing i => exact h

theorem CacheKept.now_pass (h : CacheKept ttl s) (hpast : s'.past = s.past) :
    s'.pass.now = s.now + 1 := by
  have hlt := (List.getElem?_eq_some_iff.mp h.current).1
  simp only [CachedStore.pass, CachedStore.now, hpast, List.length_append, List.length_singleton]
    at hlt ⊢
  omega

/-- What a move has to show for the invariant to hold at the next moment. -/
theorem CacheKept.next (h : CacheKept ttl s) (hpast : s'.past = s.past)
    (hfloor : s'.floor ≤ s.now)
    (hentries : ∀ k e, s'.items.get? k = some e →
      AnsweredAt s.past e.call e.payload e.moment e.createdAt ∧ s'.floor ≤ e.moment)
    (hthreads : ∀ t, ThreadKept s.past s'.clock s'.floor (s.now + 1) (s'.threads t))
    (hreturned : ∀ r ∈ s'.returned, ReadKept ttl s.past r) : CacheKept ttl s'.pass := by
  have hnow := h.now_pass hpast
  have hpass : s'.pass.past = s.past ++ [⟨s'.clock, s'.graph⟩] := by
    rw [← hpast]
    rfl
  refine ⟨?_, ?_, ?_, ?_, ?_⟩
  · have hlen : s.past.length = s.now + 1 := by
      have hlt := (List.getElem?_eq_some_iff.mp h.current).1
      unfold CachedStore.now at hlt ⊢
      omega
    rw [hnow, hpass, List.getElem?_append_right (by omega), hlen, Nat.sub_self]
    rfl
  · rw [hnow]
    exact Nat.le_succ_of_le hfloor
  · intro k e he
    rw [hpass]
    exact ⟨(hentries k e he).1.append _, (hentries k e he).2⟩
  · intro t
    rw [hpass, hnow]
    exact (hthreads t).append _
  · intro r hr
    obtain ⟨i, hi, hle⟩ := hreturned r hr
    rw [hpass]
    exact ⟨i, hi.append _, hle⟩

/-- The threads after one of them has moved. -/
theorem CacheKept.threads_update (h : CacheKept ttl s) {clock : Int} {floor : Nat} {t : Nat}
    {c : CacheThread δ} (hclock : s.clock ≤ clock) (hfloor : s.floor ≤ floor)
    (hc : ThreadKept s.past clock floor (s.now + 1) c) (t' : Nat) :
    ThreadKept s.past clock floor (s.now + 1) (Function.update s.threads t c t') := by
  rcases Decidable.em (t' = t) with rfl | hne
  · rw [Function.update_self]
    exact hc
  · rw [Function.update_of_ne hne]
    exact (h.threads t').mono hclock hfloor (Nat.le_succ _)

/-- A thread moves and the entries stay. -/
theorem CacheKept.thread (h : CacheKept ttl s) {t : Nat} {c : CacheThread δ}
    (hc : ThreadKept s.past s.clock s.floor (s.now + 1) c) : CacheKept ttl (s.setThread t c).pass :=
  h.next rfl h.floor_le h.entries
    (h.threads_update (Int.le_refl _) (Nat.le_refl _) hc) h.returned

theorem CacheKept.returned_append (h : CacheKept ttl s) {r : ReturnedRead δ}
    (hr : ReadKept ttl s.past r) : ∀ r' ∈ s.returned ++ [r], ReadKept ttl s.past r' := by
  intro r' hr'
  rcases List.mem_append.mp hr' with hold | hnew
  · exact h.returned r' hold
  · rw [List.mem_singleton.mp hnew]
    exact hr

/-- A read returns and the entries stay. -/
theorem CacheKept.finish (h : CacheKept ttl s) {t : Nat} {r : ReturnedRead δ}
    (hr : ReadKept ttl s.past r) : CacheKept ttl (s.finish t r).pass :=
  h.next rfl h.floor_le h.entries
    (h.threads_update (Int.le_refl _) (Nat.le_refl _) trivial) (h.returned_append hr)

/-- A payload that was built for a read is an answer to it. -/
theorem AnsweredAt.readKept {started : Int} {fl : Nat} (h : AnsweredAt past call reply i started)
    (hle : fl ≤ i) : ReadKept ttl past ⟨call, started, fl, reply⟩ :=
  ⟨i, h.earlier (Int.sub_le_self started (Int.le_max_right ttl 0)), hle⟩

variable [DecidableEq δ]

/-- A prompt move keeps the invariant. -/
theorem CacheKept.act (h : CacheKept ttl s) {m : CacheMove δ} (hm : Prompt ttl s m)
    (hact : s.act ttl m = .ok s') : CacheKept ttl s'.pass := by
  have hbuild : ∀ call, AnsweredAt s.past call (answer s.graph call) s.now s.clock :=
    fun call => ⟨_, h.current, Int.le_refl _, rfl⟩
  cases m with
  | tick now =>
    rw [CachedStore.act] at hact
    split at hact
    · rename_i hle
      cases hact
      exact h.next rfl h.floor_le h.entries
        (fun t => (h.threads t).mono hle (Nat.le_refl _) (Nat.le_succ _)) h.returned
    · cases hact
  | outside w =>
    rw [CachedStore.act] at hact
    split at hact
    all_goals
      cases hact
      exact h.next rfl h.floor_le h.entries
        (fun t => (h.threads t).mono (Int.le_refl _) (Nat.le_refl _) (Nat.le_succ _)) h.returned
  | start t call =>
    rw [CachedStore.act] at hact
    split at hact
    · cases hact
      apply h.thread
      split
      · exact ⟨Int.le_refl _, Nat.le_refl _⟩
      · exact ⟨Int.le_refl _, Nat.le_refl _⟩
    · cases hact
  | lookup t =>
    have ht := h.threads t
    rw [CachedStore.act] at hact
    split at hact
    · rename_i call started fl hread
      rw [hread] at ht
      have hmiss : CacheKept ttl (s.setThread t (.building call started fl)).pass := h.thread ht
      split at hact
      · rename_i e he
        split at hact
        · -- a fresh entry of the same call
          rename_i hfresh
          cases hact
          rw [Prompt, hread] at hm
          obtain ⟨hentry, hfloor⟩ := h.entries _ e he
          rw [hm e he hfresh] at hentry
          refine h.finish ⟨e.moment, hentry.earlier ?_, ht.2.trans hfloor⟩
          have := Int.le_max_left ttl 0
          change started - max ttl 0 ≤ e.createdAt
          omega
        · cases hact
          exact hmiss
      · cases hact
        exact hmiss
    · cases hact
  | build t =>
    have ht := h.threads t
    rw [CachedStore.act] at hact
    split at hact
    · rename_i call started fl hread
      rw [hread] at ht
      have hanswer := (hbuild call).earlier ht.1
      have hle : fl ≤ s.now := ht.2.trans h.floor_le
      dsimp only at hact
      split at hact
      · cases hact
        exact h.finish (hanswer.readKept hle)
      · cases hact
        exact h.thread ⟨hanswer, hle⟩
    · cases hact
  | store t =>
    have ht := h.threads t
    rw [CachedStore.act] at hact
    split at hact
    · rename_i call started fl payload i hread
      rw [hread] at ht
      rw [Prompt, hread] at hm
      cases hact
      refine h.next rfl h.floor_le ?_
        (h.threads_update (Int.le_refl _) (Nat.le_refl _) trivial)
        (h.returned_append (ht.1.readKept ht.2))
      intro k e he
      rw [Dict.get?_set] at he
      split at he
      · cases he
        exact ⟨ht.1, hm⟩
      · exact h.entries k e he
    · cases hact
  | write t w raises =>
    rw [CachedStore.act] at hact
    have hstay : ∀ s'' : CachedStore δ, s''.past = s.past → s''.clock = s.clock →
        s''.floor = s.floor → s''.items = s.items → s''.threads = s.threads →
        s''.returned = s.returned → CacheKept ttl s''.pass := by
      intro s'' hpast hclock hfloor hitems hthreads hreturned
      refine h.next hpast (hfloor ▸ h.floor_le) (by rw [hitems, hfloor]; exact h.entries) ?_
        (hreturned ▸ h.returned)
      rw [hclock, hfloor, hthreads]
      exact fun t => (h.threads t).mono (Int.le_refl _) (Nat.le_refl _) (Nat.le_succ _)
    split at hact
    · split at hact
      · dsimp only at hact
        split at hact
        · cases hact
          exact hstay _ rfl rfl rfl rfl rfl rfl
        · cases hact
          exact h.next rfl h.floor_le h.entries
            (h.threads_update (Int.le_refl _) (Nat.le_refl _) (Nat.le_refl _)) h.returned
      · cases hact
        exact hstay _ rfl rfl rfl rfl rfl rfl
    · cases hact
  | clear t =>
    have ht := h.threads t
    rw [CachedStore.act] at hact
    split at hact
    · rename_i i hread
      rw [hread] at ht
      cases hact
      refine h.next rfl (Nat.max_le.mpr ⟨h.floor_le, ht⟩) (fun k e he => by cases he)
        (h.threads_update (Int.le_refl _) (Nat.le_max_left _ _) trivial) h.returned
    · cases hact

end

/-! ### Runs -/

/-- A cache before its first read. -/
structure FreshCache (s : CachedStore δ) : Prop where
  items : s.items = .empty
  threads : ∀ t, s.threads t = .idle
  past : s.past = [⟨s.clock, s.graph⟩]
  floor : s.floor = 0
  returned : s.returned = []

variable {ttl} {s : CachedStore δ}

theorem FreshCache.kept (h : FreshCache s) : CacheKept ttl s where
  current := by rw [CachedStore.now, h.past]; rfl
  floor_le := by rw [h.floor]; exact Nat.zero_le _
  entries := by rw [h.items]; exact fun k e he => by cases he
  threads := by intro t; rw [h.threads t]; trivial
  returned := by rw [h.returned]; exact fun r hr => by cases hr

/-- In every run of prompt moves every read returns what the inner store would have returned within
the lifetime, and reflects the writes that had returned when it began. -/
theorem reads_kept [DecidableEq δ]
    (h : Reach (CachedStore.step ttl) (Prompt ttl) FreshCache s) :
    ∀ r ∈ s.returned, ReadKept ttl s.past r := by
  have hkept : CacheKept ttl s := by
    refine h.invariant (fun _ => FreshCache.kept) fun t m t' ht hm hok => ?_
    obtain ⟨u, hact, hpass⟩ := Fallible.bind_eq_ok.mp hok
    cases hpass
    exact ht.act hm hact
  exact hkept.returned

end

/-! ### Two runs -/

instance (ttl : Int) (items : Dict CacheKey (CacheEntry Empty)) (c : CacheThread Empty) :
    Decidable (LookupPrompt ttl items c) :=
  match c with
  | .reading call started _ => inferInstanceAs (Decidable (∀ e ∈ items.get? call.cacheKey,
      started - e.createdAt ≤ ttl → e.call = call))
  | .idle => .isTrue trivial
  | .building _ _ _ => .isTrue trivial
  | .storing _ _ _ _ _ => .isTrue trivial
  | .clearing _ => .isTrue trivial

instance (floor : Nat) (c : CacheThread Empty) : Decidable (StorePrompt floor c) :=
  match c with
  | .storing _ _ _ _ i => inferInstanceAs (Decidable (floor ≤ i))
  | .idle => .isTrue trivial
  | .reading _ _ _ => .isTrue trivial
  | .building _ _ _ => .isTrue trivial
  | .clearing _ => .isTrue trivial

instance (ttl : Int) (s : CachedStore Empty) (m : CacheMove Empty) : Decidable (Prompt ttl s m) :=
  match m with
  | .lookup t => inferInstanceAs (Decidable (LookupPrompt ttl s.items (s.threads t)))
  | .store t => inferInstanceAs (Decidable (StorePrompt s.floor (s.threads t)))
  | .tick _ => .isTrue trivial
  | .outside _ => .isTrue trivial
  | .start _ _ => .isTrue trivial
  | .build _ => .isTrue trivial
  | .write _ _ _ => .isTrue trivial
  | .clear _ => .isTrue trivial

def freshCache : CachedStore Empty :=
  ⟨.empty, fun _ => .idle, 0, .empty, [⟨0, .empty⟩], 0, []⟩

theorem freshCache_fresh : FreshCache freshCache := ⟨rfl, fun _ => rfl, rfl, rfl, rfl⟩

/-- A read, a write that has returned, and another read of the same call. -/
def promptMoves : List (CacheMove Empty) := [
  .start 0 (.listNodes "RunRequest"), .lookup 0, .build 0, .store 0,
  .write 1 (.merge "RunRequest" "run-request:a" .empty) false, .clear 1,
  .start 0 (.listNodes "RunRequest"), .lookup 0, .build 0, .store 0, .tick 3,
  .start 1 (.listNodes "RunRequest"), .lookup 1]

theorem promptMoves_kept : ∃ s : CachedStore Empty, s.returned.length = 3 ∧
    ∀ r ∈ s.returned, ReadKept 5 s.past r := by
  have hrun : Fallible.check (fun s : CachedStore Empty => decide (s.returned.length = 3))
      (promptMoves.foldlM (fun s m =>
        if Prompt 5 s m then s.step 5 m else .error .notEnabled) freshCache) = true := by
    decide +kernel
  obtain ⟨s, hs, hlen⟩ := Fallible.check_eq_true.mp hrun
  exact ⟨s, of_decide_eq_true hlen, reads_kept (Reach.of_checked (.start freshCache_fresh) hs)⟩

/-- A read builds its payload, a write is applied and returns, and only then is the payload stored:
the next read gets it. -/
def slowMoves : List (CacheMove Empty) := [
  .start 0 (.listNodes "RunRequest"), .lookup 0, .build 0,
  .write 1 (.merge "RunRequest" "run-request:a" .empty) false, .clear 1, .store 0,
  .start 1 (.listNodes "RunRequest"), .lookup 1]

def Reply.size {δ : Type} : Reply δ → Nat
  | .nodes ns => ns.length
  | _ => 0

theorem slow_read_stale : ¬ ∀ s : CachedStore Empty,
    Reach (CachedStore.step 5) (fun _ _ => True) FreshCache s →
      ∀ r ∈ s.returned, ReadKept 5 s.past r := by
  intro hall
  have hrun : Fallible.check (fun s : CachedStore Empty => decide (∃ r ∈ s.returned,
      ∀ i < s.past.length, r.floor ≤ i → ∀ m ∈ s.past[i]?,
        (answer m.graph r.call).size ≠ r.reply.size))
      (slowMoves.foldlM (CachedStore.step 5) freshCache) = true := by decide +kernel
  obtain ⟨s, hs, hstale⟩ := Fallible.check_eq_true.mp hrun
  obtain ⟨r, hr, hdiffers⟩ := of_decide_eq_true hstale
  obtain ⟨i, ⟨m, hm, -, heq⟩, hle⟩ := hall s (Reach.of_foldlM (.start freshCache_fresh) hs) r hr
  exact hdiffers i (List.getElem?_eq_some_iff.mp hm).1 hle m hm (congrArg Reply.size heq)

end TradingAgents.Surfaces
