import Mathlib
import TradingAgents.Deliberator.ReplyInbox

/-! Runs of the reply inbox: every interleaving of the peer calls and of arriving messages.  One
invariant follows each message from the queue through the call that holds it to its settlement, the
other one follows what the calls know of the events they handle. -/

namespace TradingAgents.Deliberator

open Kernel ProofKit

variable {loads : String → Except PyError MessageJson} {s s' : Inbox}

/-- A message that answers a request: its event has the request's id, and it arrived when the
request was published. -/
def Arrival.Answers (loads : String → Except PyError MessageJson) (m : Arrival) (r : String) :
    Prop :=
  ∃ event, readyEventFromRaw loads m.raw = .ok event ∧ runId event = some r ∧ r ∈ m.published

/-- The message that a call has received and not yet settled. -/
def Pc.holding : Pc → Option Arrival
  | .held _ _ m | .testing _ _ m _ _ | .completing _ _ m _ _ | .rejecting _ _ m
  | .replying _ _ m _ => some m
  | _ => none

/-- The id under which a call is about to stash an event, after its test for it. -/
def Pc.stashesFor : Pc → Option String
  | .completing _ _ _ run _ | .stashing _ _ run _ => some run
  | _ => none

/-- A step is undisturbed when no call unregisters an id for which another call, after its test, has
yet to stash an event, and no body breaks the decoder otherwise than as malformed. -/
def Undisturbed (loads : String → Except PyError MessageJson) (s : Inbox) : Move → Prop
  | .leave t => ∀ id outcome, s.pc t = .leaving id outcome →
      ∀ t', (s.pc t').stashesFor ≠ some id
  | .decode t => ∀ id orphans message, s.pc t = .held id orphans message →
      ∀ e, readyEventFromRaw loads message.raw = .error e → Malformed e
  | _ => True

/-! ### What the calls know -/

/-- What a call knows of the event it handles. -/
def Pc.Sound (loads : String → Except PyError MessageJson) (pending requested : Finset String) :
    Pc → Prop
  | .expecting id => id ∈ requested
  | .held _ _ m => m.published ⊆ requested
  | .testing _ _ m run event => m.published ⊆ requested ∧
      readyEventFromRaw loads m.raw = .ok event ∧ runId event = some run
  | .completing _ _ _ run event | .stashing _ _ run event => runId event = some run ∧ run ∈ pending
  | .rejecting _ _ m => m.published ⊆ requested ∧ ∀ r, m.Answers loads r → r ∉ pending
  | .replying id _ _ event | .leaving id (.replied event _) | .left id (.replied event _) =>
    runId event = some id
  | _ => True

/-- What the calls, the stash and the dead letters have right. -/
structure Routed (loads : String → Except PyError MessageJson) (s : Inbox) : Prop where
  published : s.published ⊆ s.requested
  queue : ∀ m ∈ s.queue, m.published ⊆ s.requested
  stashed : ∀ r event, s.stashed.get? r = some event → runId event = some r ∧ r ∈ s.pending
  dead : ∀ d ∈ s.deadLetters, ∀ r ∈ d.2, ¬ d.1.Answers loads r
  pcs : ∀ t, (s.pc t).Sound loads s.pending s.requested

theorem Pc.Sound.register {pending requested : Finset String} {pc : Pc} {id : String}
    (h : pc.Sound loads pending requested) (hid : id ∉ requested) :
    pc.Sound loads (insert id pending) (insert id requested) := by
  unfold Pc.Sound at h ⊢
  split at h
  · exact Finset.mem_insert_of_mem h
  · exact h.trans (Finset.subset_insert _ _)
  · exact ⟨h.1.trans (Finset.subset_insert _ _), h.2⟩
  · exact ⟨h.1, Finset.mem_insert_of_mem h.2⟩
  · exact ⟨h.1, Finset.mem_insert_of_mem h.2⟩
  · refine ⟨h.1.trans (Finset.subset_insert _ _), fun r hr => ?_⟩
    have ⟨_, _, _, hpub⟩ := hr
    rw [Finset.mem_insert, not_or]
    exact ⟨fun he => hid (he ▸ h.1 hpub), h.2 r hr⟩
  · exact h
  · exact h
  · exact h
  · trivial

theorem Pc.Sound.unregister {pending requested : Finset String} {pc : Pc} {id : String}
    (h : pc.Sound loads pending requested) (hid : pc.stashesFor ≠ some id) :
    pc.Sound loads (pending.erase id) requested := by
  unfold Pc.Sound at h ⊢
  split at h
  · exact h
  · exact h
  · exact h
  · exact ⟨h.1, Finset.mem_erase.mpr ⟨fun he => hid (he ▸ rfl), h.2⟩⟩
  · exact ⟨h.1, Finset.mem_erase.mpr ⟨fun he => hid (he ▸ rfl), h.2⟩⟩
  · exact ⟨h.1, fun r hr hmem => h.2 r hr (Finset.mem_of_mem_erase hmem)⟩
  · exact h
  · exact h
  · exact h
  · trivial

theorem Pc.Sound.update {pending requested : Finset String} {pcs : Nat → Pc} {t : Nat} {pc : Pc}
    (h : ∀ t, (pcs t).Sound loads pending requested) (hpc : pc.Sound loads pending requested) :
    ∀ t', (Function.update pcs t pc t').Sound loads pending requested := by
  intro t'
  by_cases ht : t' = t
  · rw [ht, Function.update_self]
    exact hpc
  · rw [Function.update_of_ne ht]
    exact h t'

theorem Routed.goto (h : Routed loads s) {t : Nat} {pc : Pc}
    (hpc : pc.Sound loads s.pending s.requested) : Routed loads (s.goto t pc) :=
  { h with pcs := Pc.Sound.update h.pcs hpc }

theorem Routed.arrive (h : Routed loads s) (body : Body) (deliveryCount : Option Int) :
    Routed loads (s.arrive body deliveryCount) :=
  { h with
    queue := fun m hm => by
      rcases List.mem_append.mp hm with hm | hm
      · exact h.queue m hm
      · rw [List.mem_singleton.mp hm]
        exact h.published }

theorem Routed.register (h : Routed loads s) {id : String} (hid : id ∉ s.requested) :
    Routed loads (s.register id) :=
  have hsub := Finset.subset_insert id s.requested
  { published := h.published.trans hsub
    queue := fun m hm => (h.queue m hm).trans hsub
    stashed := fun r event hget =>
      ⟨(h.stashed r event hget).1, Finset.mem_insert_of_mem (h.stashed r event hget).2⟩
    dead := h.dead
    pcs := fun t' => (h.pcs t').register hid }

theorem Routed.publish (h : Routed loads s) {id : String} (hid : id ∈ s.requested) :
    Routed loads { s with published := insert id s.published } :=
  { h with published := Finset.insert_subset hid h.published }

/-- A call pops what was stashed for it. -/
theorem Routed.pop (h : Routed loads s) (id : String) : Routed loads (s.popStash id).2 :=
  { h with
    stashed := fun r event hget => by
      rw [show (s.popStash id).2.stashed = s.stashed.erase id from rfl, Dict.get?_erase] at hget
      split at hget
      · cases hget
      · exact h.stashed r event hget }

theorem Routed.take (h : Routed loads s) (test : Arrival → Bool) :
    Routed loads { s with queue := s.queue.eraseP test } :=
  { h with queue := fun m hm => h.queue m (List.mem_of_mem_eraseP hm) }

theorem Routed.settle (h : Routed loads s) (m : Arrival) (verb : Verb) :
    Routed loads (s.settle m verb) :=
  { h with }

/-- A message that answers no request in flight is dead-lettered. -/
theorem Routed.deadLetter (h : Routed loads s) {m : Arrival}
    (hm : ∀ r, m.Answers loads r → r ∉ s.pending) : Routed loads (s.deadLetter m) :=
  { h with
    dead := fun d hd r hr ha => by
      rcases List.mem_append.mp hd with hd | hd
      · exact h.dead d hd r hr ha
      · rw [List.mem_singleton.mp hd] at hr ha
        exact hm r ha hr }

theorem Routed.stash (h : Routed loads s) {run : String} {event : EventFields}
    (hrun : runId event = some run) (hmem : run ∈ s.pending) : Routed loads (s.stash run event) :=
  { h with
    stashed := fun r ev hget => by
      rw [show (s.stash run event).stashed = s.stashed.set run event from rfl,
        Dict.get?_set] at hget
      split at hget
      · rename_i hr
        cases hget
        rw [hr]
        exact ⟨hrun, hmem⟩
      · exact h.stashed r ev hget }

/-- A call unregisters its id, for which no other call has yet to stash an event. -/
theorem Routed.unregister (h : Routed loads s) {id : String}
    (hfree : ∀ t, (s.pc t).stashesFor ≠ some id) : Routed loads (s.unregister id) :=
  { h with
    stashed := fun r event hget => by
      rw [show (s.unregister id).stashed = s.stashed.erase id from rfl, Dict.get?_erase] at hget
      split at hget
      · cases hget
      · rename_i hne
        obtain ⟨hrun, hmem⟩ := h.stashed r event hget
        exact ⟨hrun, Finset.mem_erase.mpr ⟨hne, hmem⟩⟩
    dead := h.dead
    pcs := fun t => (h.pcs t).unregister (hfree t) }

/-- What a call does with the message it has decoded follows from the event in it. -/
theorem Pc.decoded_sound {pending requested : Finset String} {id : String} {orphans : Nat}
    {m : Arrival} (h : m.published ⊆ requested) :
    (Pc.decoded loads id orphans m).Sound loads pending requested := by
  unfold Pc.decoded
  split
  · rename_i e hevent
    split
    · refine ⟨h, fun r hr => ?_⟩
      obtain ⟨event, hok, -⟩ := hr
      rw [hevent] at hok
      cases hok
    · trivial
  · rename_i event hevent
    split
    · rename_i hrun
      refine ⟨h, fun r hr => ?_⟩
      obtain ⟨event', hok, hrun', -⟩ := hr
      rw [hevent] at hok
      cases hok
      rw [hrun] at hrun'
      cases hrun'
    · rename_i run hrun
      split
      · rename_i he
        exact he ▸ hrun
      · exact ⟨h, hevent, hrun⟩

/-- The test under the lock: an event of an id that is not pending answers no request in flight. -/
theorem Pc.tested_sound {pending requested : Finset String} {id run : String} {orphans : Nat}
    {m : Arrival} {event : EventFields}
    (h : (Pc.testing id orphans m run event).Sound loads pending requested) :
    (if run ∈ pending then Pc.completing id orphans m run event
      else .rejecting id orphans m).Sound loads pending requested := by
  obtain ⟨hpub, hevent, hrun⟩ := h
  split
  · exact ⟨hrun, ‹_›⟩
  · rename_i hnot
    refine ⟨hpub, fun r hr => ?_⟩
    obtain ⟨event', hok, hrun', -⟩ := hr
    rw [hevent] at hok
    cases hok
    rw [hrun] at hrun'
    cases hrun'
    exact hnot

theorem Routed.init : Routed loads .init where
  published := Finset.Subset.refl _
  queue := by simp [Inbox.init]
  stashed r event hget := by cases hget
  dead d hd := by cases hd
  pcs t := trivial

/-! ### One move -/

theorem Routed.settle_step (h : Routed loads s) {t : Nat}
    (hok : step loads s (.settle t) = .ok s') :
    Routed loads s' := by
  simp only [step] at hok
  have hpc := h.pcs t
  split at hok
  · rename_i heq
    rw [heq] at hpc
    cases hok
    exact (h.settle _ _).goto hpc
  · rename_i heq
    rw [heq] at hpc
    cases hok
    exact (h.settle _ _).goto hpc
  · rename_i heq
    rw [heq] at hpc
    cases hok
    exact (h.deadLetter hpc.2).goto trivial
  · cases hok

theorem Routed.pop_step (h : Routed loads s) {t : Nat} (hok : step loads s (.pop t) = .ok s') :
    Routed loads s' := by
  simp only [step] at hok
  split at hok
  · rename_i id orphans heq
    split at hok
    · rename_i event s₁ hpop
      cases hok
      obtain ⟨hget, rfl⟩ := Prod.mk.inj hpop
      exact (h.pop id).goto (h.stashed id event hget).1
    · rename_i s₁ hpop
      cases hok
      obtain ⟨-, rfl⟩ := Prod.mk.inj hpop
      exact (h.pop id).goto trivial
  · rename_i id orphans remaining heq
    split at hok
    · rename_i event s₁ hpop
      cases hok
      obtain ⟨hget, rfl⟩ := Prod.mk.inj hpop
      exact (h.pop id).goto (h.stashed id event hget).1
    · rename_i s₁ hpop
      obtain ⟨-, rfl⟩ := Prod.mk.inj hpop
      split at hok <;> cases hok <;> exact (h.pop id).goto trivial
  · cases hok

theorem Routed.receive_step (h : Routed loads s) {t : Nat} {sequenceNumber : Option Nat}
    (hok : step loads s (.receive t sequenceNumber) = .ok s') : Routed loads s' := by
  simp only [step] at hok
  split at hok
  · cases hok
    exact h.goto trivial
  · split at hok
    · rename_i m hfind
      cases hok
      exact (h.take _).goto (h.queue m (List.mem_of_find?_eq_some hfind))
    · cases hok
  · cases hok

/-- Every undisturbed move keeps what the calls, the stash and the dead letters have right. -/
theorem Routed.step (h : Routed loads s) {move : Move} (hmove : Undisturbed loads s move)
    (hok : step loads s move = .ok s') : Routed loads s' := by
  cases move with
  | arrive body deliveryCount =>
    cases hok
    exact h.arrive body deliveryCount
  | expect t id =>
    simp only [Deliberator.step] at hok
    split at hok
    · split at hok
      · cases hok
      · rename_i hid
        cases hok
        exact (h.register hid).goto (Finset.mem_insert_self id s.requested)
    · cases hok
  | publish t succeeds =>
    simp only [Deliberator.step] at hok
    split at hok
    · rename_i id heq
      cases hok
      have hpc := h.pcs t
      rw [heq] at hpc
      refine (h.publish hpc).goto ?_
      split <;> trivial
    · cases hok
  | pop t => exact h.pop_step hok
  | check t remaining =>
    simp only [Deliberator.step] at hok
    split at hok
    · cases hok
      refine h.goto ?_
      split <;> trivial
    · cases hok
  | receive t sequenceNumber => exact h.receive_step hok
  | decode t =>
    simp only [Deliberator.step] at hok
    split at hok
    · rename_i heq
      cases hok
      have hpc := h.pcs t
      rw [heq] at hpc
      exact h.goto (Pc.decoded_sound hpc)
    · cases hok
  | test t =>
    simp only [Deliberator.step] at hok
    split at hok
    · rename_i heq
      cases hok
      have hpc := h.pcs t
      rw [heq] at hpc
      exact h.goto (Pc.tested_sound hpc)
    · cases hok
  | settle t => exact h.settle_step hok
  | stash t =>
    simp only [Deliberator.step] at hok
    split at hok
    · rename_i heq
      cases hok
      have hpc := h.pcs t
      rw [heq] at hpc
      exact (h.stash hpc.1 hpc.2).goto trivial
    · cases hok
  | leave t =>
    simp only [Deliberator.step] at hok
    split at hok
    · rename_i id outcome heq
      cases hok
      have hpc := h.pcs t
      rw [heq] at hpc
      refine (h.unregister (hmove id outcome heq)).goto ?_
      unfold Pc.Sound at hpc ⊢
      cases outcome <;> exact hpc
    · cases hok

/-! ### Where the messages are -/

def Arrival.number (m : Arrival) : Nat := m.raw.sequenceNumber

/-- Every message that has arrived is settled, queued or held by one call, and one of these once. -/
structure Accounted (s : Inbox) (held : List (Nat × Arrival)) : Prop where
  holds : ∀ t m, (t, m) ∈ held ↔ (s.pc t).holding = some m
  each : (s.settled.map Prod.fst ++ s.queue.map Arrival.number ++
    held.map fun p => p.2.number).Perm (List.range s.nextNumber)

variable {held : List (Nat × Arrival)}

theorem Accounted.nodup (h : Accounted s held) :
    (s.settled.map Prod.fst ++ s.queue.map Arrival.number ++
      held.map fun p => p.2.number).Nodup :=
  h.each.nodup_iff.mpr List.nodup_range

theorem Accounted.init : Accounted .init [] where
  holds t m := by simp [Inbox.init, Pc.holding]
  each := List.Perm.refl _

theorem Accounted.goto (h : Accounted s held) {t : Nat} {pc : Pc}
    (hpc : pc.holding = (s.pc t).holding) : Accounted (s.goto t pc) held := by
  refine { h with holds := fun t' m => ?_ }
  rw [h.holds t' m]
  by_cases ht : t' = t
  · rw [ht, show (s.goto t pc).pc t = pc from Function.update_self _ _ _, hpc]
  · rw [show (s.goto t pc).pc t' = s.pc t' from Function.update_of_ne ht _ _]

theorem Accounted.arrive (h : Accounted s held) (body : Body) (deliveryCount : Option Int) :
    Accounted (s.arrive body deliveryCount) held := by
  refine { h with each := ?_ }
  have hqueue : (s.arrive body deliveryCount).queue.map Arrival.number =
      s.queue.map Arrival.number ++ [s.nextNumber] := List.map_append
  rw [hqueue, show (s.arrive body deliveryCount).nextNumber = s.nextNumber + 1 from rfl,
    List.range_succ]
  refine List.Perm.trans ?_ (h.each.append_right [s.nextNumber])
  simp only [List.append_assoc]
  exact (List.perm_append_comm.append_left _).append_left _

/-- A call takes a message off the queue. -/
theorem Accounted.take (h : Accounted s held) {t n : Nat} {m : Arrival} {pc : Pc}
    (hfind : s.queue.find? (fun m => m.raw.sequenceNumber = n) = some m)
    (hfree : (s.pc t).holding = none) (hpc : pc.holding = some m) :
    Accounted ({ s with queue := s.queue.eraseP fun m => m.raw.sequenceNumber = n }.goto t pc)
      ((t, m) :: held) := by
  obtain ⟨htest, before, after, hqueue, hbefore⟩ := List.find?_eq_some_iff_append.mp hfind
  refine ⟨fun t' m' => ?_, ?_⟩
  · rw [List.mem_cons, h.holds t' m']
    show _ ↔ (Function.update s.pc t pc t').holding = some m'
    by_cases ht : t' = t
    · rw [ht, Function.update_self, hpc, hfree]
      simp [eq_comm]
    · rw [Function.update_of_ne ht]
      simp [ht]
  · have herase : s.queue.eraseP (fun m => m.raw.sequenceNumber = n) = before ++ after := by
      rw [hqueue, List.eraseP_append_right _ fun b hb => by simpa using hbefore b hb]
      simp only [List.eraseP_cons, htest, cond_true]
    show (_ ++ (s.queue.eraseP fun m => m.raw.sequenceNumber = n).map Arrival.number ++ _).Perm _
    refine List.Perm.trans ?_ h.each
    rw [herase, hqueue]
    simp only [List.map_append, List.map_cons, List.append_assoc, List.cons_append]
    refine List.Perm.append_left _ (List.Perm.append_left _ ?_)
    exact List.perm_middle

/-- A call settles the message it holds. -/
theorem Accounted.settle (h : Accounted s held) (verb : Verb) (pc : Pc) {t : Nat} {m : Arrival}
    (hm : (s.pc t).holding = some m) (hpc : pc.holding = none) :
    ∃ held', Accounted ((s.settle m verb).goto t pc) held' := by
  obtain ⟨before, after, hheld⟩ := List.append_of_mem ((h.holds t m).mpr hm)
  have hnodup : held.Nodup := (List.nodup_append.mp h.nodup).2.1.of_map _
  refine ⟨before ++ after, fun t' m' => ?_, ?_⟩
  · show _ ↔ (Function.update s.pc t pc t').holding = some m'
    have hmem : (t', m') ∈ before ++ after ↔ (t', m') ≠ (t, m) ∧ (t', m') ∈ held := by
      rw [hheld] at hnodup ⊢
      have hnot := List.nodup_middle.mp hnodup |>.notMem
      rw [List.mem_append, List.mem_append, List.mem_cons]
      grind
    rw [hmem, h.holds t' m']
    by_cases ht : t' = t
    · rw [ht, Function.update_self, hpc, hm]
      simp [eq_comm]
    · rw [Function.update_of_ne ht]
      simp [ht]
  · show ((s.settled ++ [(m.raw.sequenceNumber, verb)]).map Prod.fst ++ _ ++ _).Perm _
    refine List.Perm.trans ?_ h.each
    rw [hheld]
    simp only [List.map_append, List.map_cons, List.map_nil, List.append_assoc, List.cons_append,
      List.nil_append]
    refine List.Perm.append_left _ ?_
    refine List.perm_middle.symm.trans ?_
    exact List.Perm.append_left _ List.perm_middle.symm

/-- A move that holds on to the message it found, or settles it, keeps the account. -/
theorem Accounted.step (h : Accounted s held) {move : Move} (hmove : Undisturbed loads s move)
    (hok : step loads s move = .ok s') : ∃ held', Accounted s' held' := by
  cases move with
  | arrive body deliveryCount =>
    cases hok
    exact ⟨held, h.arrive body deliveryCount⟩
  | expect t id =>
    simp only [Deliberator.step] at hok
    split at hok
    · rename_i heq
      split at hok <;> cases hok
      refine ⟨held, Accounted.goto (s := s.register id) { h with } ?_⟩
      rw [show (s.register id).pc t = s.pc t from rfl, heq]
      rfl
    · cases hok
  | publish t succeeds =>
    simp only [Deliberator.step] at hok
    split at hok
    · rename_i id heq
      cases hok
      have h' : Accounted { s with published := insert id s.published } held := { h with }
      refine ⟨held, h'.goto ?_⟩
      show _ = (s.pc t).holding
      rw [heq]
      split <;> rfl
    · cases hok
  | pop t =>
    have hpop : ∀ id, Accounted (s.popStash id).2 held := fun id => { h with }
    simp only [Deliberator.step] at hok
    split at hok
    · rename_i id orphans heq
      split at hok <;> rename_i hpopped <;> cases hok <;> obtain ⟨-, rfl⟩ := Prod.mk.inj hpopped <;>
        refine ⟨held, (hpop id).goto ?_⟩ <;> show _ = (s.pc t).holding <;> rw [heq] <;> rfl
    · rename_i id orphans remaining heq
      split at hok <;> rename_i hpopped
      · cases hok
        obtain ⟨-, rfl⟩ := Prod.mk.inj hpopped
        refine ⟨held, (hpop id).goto ?_⟩
        show _ = (s.pc t).holding
        rw [heq]
        rfl
      · obtain ⟨-, rfl⟩ := Prod.mk.inj hpopped
        split at hok <;> cases hok <;> refine ⟨held, (hpop id).goto ?_⟩ <;>
          show _ = (s.pc t).holding <;> rw [heq] <;> rfl
    · cases hok
  | check t remaining =>
    simp only [Deliberator.step] at hok
    split at hok
    · rename_i heq
      cases hok
      refine ⟨held, h.goto ?_⟩
      rw [heq]
      split <;> rfl
    · cases hok
  | receive t sequenceNumber =>
    simp only [Deliberator.step] at hok
    split at hok
    · rename_i heq
      cases hok
      exact ⟨held, h.goto (by rw [heq]; rfl)⟩
    · rename_i heq
      split at hok
      · rename_i m hfind
        cases hok
        exact ⟨_, h.take hfind (by rw [heq]; rfl) rfl⟩
      · cases hok
    · cases hok
  | decode t =>
    simp only [Deliberator.step] at hok
    split at hok
    · rename_i id orphans m heq
      cases hok
      refine ⟨held, h.goto ?_⟩
      rw [heq]
      unfold Pc.decoded
      split
      · rename_i e hevent
        rw [if_pos (hmove id orphans m heq e hevent)]
        rfl
      · split
        · rfl
        · split <;> rfl
    · cases hok
  | test t =>
    simp only [Deliberator.step] at hok
    split at hok
    · rename_i heq
      cases hok
      refine ⟨held, h.goto ?_⟩
      rw [heq]
      split <;> rfl
    · cases hok
  | settle t =>
    simp only [Deliberator.step] at hok
    split at hok
    · rename_i heq
      cases hok
      exact h.settle _ _ (by rw [heq]; rfl) rfl
    · rename_i heq
      cases hok
      exact h.settle _ _ (by rw [heq]; rfl) rfl
    · rename_i m heq
      cases hok
      obtain ⟨held', h'⟩ := h.settle (.deadLettered "S171OrphanedReply") (.popping _ _)
        (by rw [heq]; rfl) rfl
      exact ⟨held', h'.holds, h'.each⟩
    · cases hok
  | stash t =>
    simp only [Deliberator.step] at hok
    split at hok
    · rename_i run event heq
      cases hok
      refine ⟨held, Accounted.goto (s := s.stash run event) { h with } ?_⟩
      rw [show (s.stash run event).pc t = s.pc t from rfl, heq]
      rfl
    · cases hok
  | leave t =>
    simp only [Deliberator.step] at hok
    split at hok
    · rename_i id outcome heq
      cases hok
      refine ⟨held, Accounted.goto (s := s.unregister id) { h with } ?_⟩
      rw [show (s.unregister id).pc t = s.pc t from rfl, heq]
      rfl
    · cases hok

/-! ### Decoding -/

theorem bodyText_error {body : Body} {e : PyError} (h : bodyText body = .error e) :
    e = .valueError := by
  have hutf8 : ∀ {b : ByteArray} {e}, utf8Text b = .error e → e = .valueError := fun {b e} he => by
    unfold utf8Text at he
    split at he <;> cases he
    rfl
  cases body with
  | bytes b => exact hutf8 h
  | text s => cases h
  | shown s => cases h
  | chunks parts =>
    rcases Fallible.bind_eq_error.mp h with hparts | ⟨_, -, h⟩
    · clear h
      induction parts with
      | nil => cases hparts
      | cons part parts ih =>
        rw [List.mapM_cons] at hparts
        rcases Fallible.bind_eq_error.mp hparts with h | ⟨_, -, h⟩
        · cases part with
          | bytes b => exact hutf8 h
          | shown s => cases h
        · rcases Fallible.bind_eq_error.mp h with h | ⟨_, -, h⟩
          · exact ih h
          · cases h
    · cases h

/-- A reader that fails on malformed text only makes a decoder that fails on malformed bodies
only. -/
theorem readyEventFromRaw_malformed
    (hloads : ∀ text e, loads text = .error e → Malformed e) {raw : RawMessage} {e : PyError}
    (h : readyEventFromRaw loads raw = .error e) : Malformed e := by
  rcases Fallible.bind_eq_error.mp h with h | ⟨text, -, h⟩
  · exact .inr (bodyText_error h)
  · rcases Fallible.bind_eq_error.mp h with h | ⟨json, -, h⟩
    · exact hloads text e h
    · split at h
      · cases h
      · cases h
        exact .inr rfl

/-! ### Runs -/

/-- The states of the inbox in the runs whose moves are all allowed. -/
def Reachable (loads : String → Except PyError MessageJson) (allowed : Inbox → Move → Prop) :
    Inbox → Prop :=
  Reach (step loads) allowed (· = .init)

/-- What the inbox promises of a state: no dead letter answered a request then in flight, a call
that ends with a reply has the event of its own id, every message is settled once, or not yet and
then queued or in the hands of one call, and every stashed event is kept for a pending request. -/
structure RepliesKept (loads : String → Except PyError MessageJson) (s : Inbox) : Prop where
  no_answer_dead : ∀ d ∈ s.deadLetters, ∀ r ∈ d.2, ¬ d.1.Answers loads r
  own_event : ∀ t id event orphans, s.pc t = .leaving id (.replied event orphans) ∨
    s.pc t = .left id (.replied event orphans) → runId event = some id
  settled_once : (s.settled.map Prod.fst).Nodup
  accounted : ∀ n < s.nextNumber, n ∉ s.settled.map Prod.fst →
    (∃ m ∈ s.queue, m.number = n) ∨ ∃ t m, (s.pc t).holding = some m ∧ m.number = n
  unsettled : ∀ m : Arrival, m ∈ s.queue ∨ (∃ t, (s.pc t).holding = some m) →
    m.number ∉ s.settled.map Prod.fst
  held_once : ∀ t t' m m', (s.pc t).holding = some m → (s.pc t').holding = some m' →
    m.number = m'.number → t = t'
  stashed_pending : ∀ r event, s.stashed.get? r = some event → r ∈ s.pending

/-- In every run whose moves are all undisturbed the inbox keeps its promises in every state. -/
theorem undisturbed_repliesKept {loads : String → Except PyError MessageJson} {s : Inbox}
    (h : Reachable loads (Undisturbed loads) s) : RepliesKept loads s := by
  have hkept : Routed loads s ∧ ∃ held, Accounted s held := by
    refine Reach.invariant (P := fun s => Routed loads s ∧ ∃ held, Accounted s held) ?_ ?_ h
    · rintro _ rfl
      exact ⟨.init, [], .init⟩
    · rintro s move s' ⟨hs, held, hheld⟩ hmove hok
      exact ⟨hs.step hmove hok, hheld.step hmove hok⟩
  obtain ⟨hs, held, hheld⟩ := hkept
  obtain ⟨hleft, -, hdisjoint⟩ := List.nodup_append.mp hheld.nodup
  obtain ⟨hsettled, -, hqueue⟩ := List.nodup_append.mp hleft
  refine ⟨hs.dead, fun t id event orphans hpc => ?_, hsettled, fun n hn hnot => ?_,
    fun m hm hin => ?_,
    fun t t' m m' hm hm' hnumber => ?_, fun r event hget => (hs.stashed r event hget).2⟩
  · have hsound := hs.pcs t
    rcases hpc with hpc | hpc <;> rw [hpc] at hsound <;> exact hsound
  · have hmem := hheld.each.mem_iff.mpr (List.mem_range.mpr hn)
    simp only [List.mem_append, List.mem_map, Prod.exists] at hmem hnot
    rcases hmem with (hin | ⟨m, hm, he⟩) | ⟨t, m, hm, he⟩
    · exact absurd hin hnot
    · exact .inl ⟨m, hm, he⟩
    · exact .inr ⟨t, m, (hheld.holds t m).mp hm, he⟩
  · rcases hm with hm | ⟨t, hm⟩
    · exact hqueue _ hin _ (List.mem_map_of_mem hm) rfl
    · exact hdisjoint _ (List.mem_append_left _ hin) _
        (List.mem_map.mpr ⟨(t, m), (hheld.holds t m).mpr hm, rfl⟩) rfl
  · have hinj := List.inj_on_of_nodup_map (List.nodup_append.mp hheld.nodup).2.1
      ((hheld.holds t m).mpr hm) ((hheld.holds t' m').mpr hm') hnumber
    exact congrArg Prod.fst hinj

/-- A JSON reader on the body of the reply to the request `b`. -/
def readsReply : String → Except PyError MessageJson := fun text =>
  if text = "\x7b\"run_id\": \"b\"\x7d" then .ok (.object [("run_id", .str "b")])
  else .error .valueError

theorem readsReply_malformed {raw : RawMessage} {e : PyError}
    (h : readyEventFromRaw readsReply raw = .error e) : Malformed e := by
  refine readyEventFromRaw_malformed (fun text e he => ?_) h
  unfold readsReply at he
  split at he
  · cases he
  · cases he
    exact .inr rfl

/-- Two calls, and the reply to the second one in the hands of the first. -/
def siblingMoves : List Move :=
  [.expect 0 "a", .publish 0 true, .expect 1 "b", .publish 1 true,
    .arrive (.text "\x7b\"run_id\": \"b\"\x7d") (some 1), .pop 0, .check 0 5, .receive 0 (some 0),
    .decode 0, .test 0]

/-- The reply with which a call leaves. -/
def Pc.leftReply : Pc → Option (String × EventFields × Nat)
  | .leaving id (.replied event orphans) => some (id, event, orphans)
  | _ => none

theorem Pc.leftReply_eq_some {pc : Pc} {id : String} {event : EventFields} {orphans : Nat}
    (h : pc.leftReply = some (id, event, orphans)) : pc = .leaving id (.replied event orphans) := by
  unfold Pc.leftReply at h
  split at h
  · cases h; rfl
  · cases h

/-- The first call stashes the reply, and the second one finds it. -/
theorem siblingMoves_repliesKept : ∃ s, RepliesKept readsReply s ∧
    ∃ event, s.pc 1 = .leaving "b" (.replied event 0) := by
  have hrun : Fallible.check
      (fun s : Inbox => (s.pc 1).leftReply.any fun reply =>
        decide (reply.1 = "b" ∧ reply.2.2 = 0))
      ((siblingMoves ++ [Move.settle 0, .stash 0, .pop 1]).foldlM
        (step readsReply) .init) = true := by
    decide +kernel
  obtain ⟨s, hs, htest⟩ := Fallible.check_eq_true.mp hrun
  have hreach : Reachable readsReply (Undisturbed readsReply) s := by
    refine Reach.of_allowed (.start rfl) (fun move hmove s => ?_) hs
    simp only [siblingMoves, List.cons_append, List.nil_append, List.mem_cons] at hmove
    rcases hmove with rfl | rfl | rfl | rfl | rfl | rfl | rfl | rfl | rfl | rfl | rfl | rfl | rfl | h
    case inr.inr.inr.inr.inr.inr.inr.inr.inl =>
      exact fun id orphans message _ e he => readsReply_malformed he
    case inr.inr.inr.inr.inr.inr.inr.inr.inr.inr.inr.inr.inr => cases h
    all_goals exact trivial
  refine ⟨s, undisturbed_repliesKept hreach, ?_⟩
  obtain ⟨⟨id, event, orphans⟩, hreply, hsame⟩ := (Option.any_eq_true _ _).mp htest
  obtain ⟨rfl, rfl⟩ := of_decide_eq_true hsame
  exact ⟨event, Pc.leftReply_eq_some hreply⟩

/-- The second call gives up between the test of the first one and its stash: the reply is stashed
for a request that is no longer pending. -/
theorem sibling_stashed_late :
    ¬ ∀ s, Reachable readsReply (fun _ _ => True) s → RepliesKept readsReply s := by
  intro hall
  have hrun : Fallible.check
      (fun s : Inbox => (s.stashed.get? "b").isSome && decide ("b" ∉ s.pending))
      ((siblingMoves ++ [Move.pop 1, .check 1 0, .leave 1, .settle 0, .stash 0]).foldlM
        (step readsReply) .init) = true := by decide +kernel
  obtain ⟨s, hs, htest⟩ := Fallible.check_eq_true.mp hrun
  rw [Bool.and_eq_true, decide_eq_true_iff, Option.isSome_iff_exists] at htest
  obtain ⟨⟨event, hevent⟩, hnot⟩ := htest
  exact hnot ((hall s (Reach.of_foldlM (.start rfl) hs)).stashed_pending "b" event hevent)

end TradingAgents.Deliberator
