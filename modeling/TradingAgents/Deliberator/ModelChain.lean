import Mathlib.Data.List.Nodup
import Mathlib.Data.List.Perm.Subperm
import Mathlib.Order.Basic
import Mathlib.Order.Nat
import Mathlib.Tactic.Common
import TradingAgents.ProofKit.Runs

/-! A role's candidates in hand-over order, and the requests that share them.  A request is sent to
the candidate in use; a candidate that refuses it is left for the next one, once for all requests.
The candidate in use is read and left under a lock, so a step of a request is one such read or
move, or what a vendor makes of it. -/

namespace TradingAgents.Deliberator

open ProofKit

variable {α : Type}

inductive ChainError where
  | noCandidate
  | unknownCandidate
  | notEnabled
deriving DecidableEq, Repr

/-! ### The chain -/

/-- The candidates in hand-over order, and the position of the one in use. -/
structure ModelChain (α : Type) where
  candidates : List α
  index : Nat
  inUse : index < candidates.length

namespace ModelChain

/-- Hold the candidates, the first in use. -/
def hold (candidates : List α) : Except ChainError (ModelChain α) :=
  if h : 0 < candidates.length then .ok ⟨candidates, 0, h⟩ else .error .noCandidate

/-- The candidate the process is on. -/
def current (chain : ModelChain α) : α := chain.candidates.get ⟨chain.index, chain.inUse⟩

/-- Move past a refused candidate: the candidate to send to, none at the end. -/
def after [DecidableEq α] (chain : ModelChain α) (refused : α) :
    Except ChainError (Option α × ModelChain α) :=
  let position := chain.candidates.idxOf refused
  if position < chain.candidates.length then
    if h : position + 1 < chain.candidates.length then
      let moved : ModelChain α :=
        ⟨chain.candidates, max chain.index (position + 1), Nat.max_lt.mpr ⟨chain.inUse, h⟩⟩
      .ok (some moved.current, moved)
    else .ok (none, chain)
  else .error .unknownCandidate

end ModelChain

/-! ### Requests -/

/-- Where a request is. -/
inductive RequestPc (α : Type) where
  | waiting
  | trying (candidate : α)
  | refused (candidate : α)
  | answered
  | failed

def RequestPc.ended : RequestPc α → Bool
  | answered => true
  | failed => true
  | _ => false

structure ChainRequest (α : Type) where
  pc : RequestPc α
  /-- The candidates of its attempts, in order. -/
  tried : List α

/-- The chain and its requests, with the refusals so far, which the source does not keep. -/
structure ChainState (α : Type) where
  chain : ModelChain α
  requests : Nat → ChainRequest α
  refusals : List (Nat × α)

/-- What a request does next: it reads the candidate in use, is answered, is refused, fails without
an answer, or moves past the candidate that refused it. -/
inductive ChainMove where
  | current
  | answered
  | refused
  | failed
  | after
deriving DecidableEq, Repr

/-- A request, and its move. -/
abbrev ChainEvent := Nat × ChainMove

namespace ChainState

def goto (s : ChainState α) (r : Nat) (pc : RequestPc α) : ChainState α :=
  { s with requests := Function.update s.requests r { s.requests r with pc } }

/-- An attempt of a request. -/
def attempt (s : ChainState α) (r : Nat) (candidate : α) : ChainState α :=
  let attempted : ChainRequest α := ⟨.trying candidate, (s.requests r).tried ++ [candidate]⟩
  { s with requests := Function.update s.requests r attempted }

/-- No request has begun. -/
def start (chain : ModelChain α) : ChainState α where
  chain := chain
  requests := fun _ => ⟨.waiting, []⟩
  refusals := []

def step [DecidableEq α] (s : ChainState α) (e : ChainEvent) : Except ChainError (ChainState α) :=
  match (s.requests e.1).pc, e.2 with
  | .waiting, .current => .ok (s.attempt e.1 s.chain.current)
  | .trying _, .answered => .ok (s.goto e.1 .answered)
  | .trying c, .refused =>
    .ok ({ s with refusals := s.refusals ++ [(e.1, c)] }.goto e.1 (.refused c))
  | .trying _, .failed => .ok (s.goto e.1 .failed)
  | .refused c, .after =>
    match s.chain.after c with
    | .ok (some next, chain) => .ok ({ s with chain }.attempt e.1 next)
    | .ok (none, chain) => .ok ({ s with chain }.goto e.1 .failed)
    | .error err => .error err
  | _, _ => .error .notEnabled

end ChainState

/-! ### One step -/

section

variable [DecidableEq α] {chain : ModelChain α} {candidates : List α} {s s' : ChainState α}
  {e : ChainEvent} {r : Nat} {c : α}

omit [DecidableEq α] in
theorem ModelChain.current_mem (chain : ModelChain α) : chain.current ∈ chain.candidates :=
  List.get_mem _ _

theorem ModelChain.idxOf_current (hnodup : chain.candidates.Nodup) :
    chain.candidates.idxOf chain.current = chain.index := by
  unfold current
  rw [List.get_eq_getElem]
  exact hnodup.idxOf_getElem _ chain.inUse

/-- What a move past a refused candidate leaves. -/
theorem ModelChain.after_cases (hmem : c ∈ chain.candidates) :
    (chain.candidates.idxOf c + 1 = chain.candidates.length ∧ chain.after c = .ok (none, chain)) ∨
    ∃ moved, chain.after c = .ok (some moved.current, moved) ∧
      moved.candidates = chain.candidates ∧
      moved.index = max chain.index (chain.candidates.idxOf c + 1) := by
  have hlt := List.idxOf_lt_length_iff.mpr hmem
  unfold after
  simp only [if_pos hlt]
  split
  · exact .inr ⟨_, rfl, rfl, rfl⟩
  · exact .inl ⟨by omega, rfl⟩

/-- What a request is in the middle of, and what it may do then. -/
def RequestPc.candidate? : RequestPc α → Option α
  | trying c => some c
  | refused c => some c
  | _ => none

/-- The most steps that have brought a request to where it is. -/
def ChainRequest.steps (request : ChainRequest α) : Nat :=
  match request.pc with
  | .waiting => 0
  | .trying _ => 2 * request.tried.length - 1
  | .refused _ => 2 * request.tried.length
  | _ => 2 * request.tried.length + 1

/-- The invariant of one request over a chain whose candidate in use is the `index`-th. -/
structure RequestKept (candidates : List α) (index : Nat) (request : ChainRequest α) : Prop where
  tried : ∀ c ∈ request.tried, c ∈ candidates
  increasing : (request.tried.map candidates.idxOf).Pairwise (· < ·)
  waiting : request.pc = .waiting → request.tried = []
  last : ∀ c, request.pc.candidate? = some c → request.tried.getLast? = some c
  behind : ∀ c ∈ request.tried, candidates.idxOf c ≤ index

/-- The invariant of the requests. -/
structure ChainKept (candidates : List α) (s : ChainState α) : Prop where
  same : s.chain.candidates = candidates
  requests : ∀ r, RequestKept candidates s.chain.index (s.requests r)
  refused : ∀ r c, (s.requests r).pc = .refused c → (r, c) ∈ s.refusals
  advanced : ∀ i < s.chain.index, ∃ r c, candidates[i]? = some c ∧ (r, c) ∈ s.refusals

section

variable {index index' : Nat} {request : ChainRequest α}

theorem RequestKept.mono (h : RequestKept candidates index request) (hle : index ≤ index') :
    RequestKept candidates index' request :=
  ⟨h.tried, h.increasing, h.waiting, h.last, fun c hc => (h.behind c hc).trans hle⟩

/-- The candidate of a refusal may stay with the request; nothing stays with one that ends. -/
theorem RequestKept.goto (h : RequestKept candidates index request) {pc : RequestPc α}
    (hpc : pc.candidate? = none ∨ pc.candidate? = request.pc.candidate?)
    (hwaiting : pc ≠ .waiting) : RequestKept candidates index { request with pc } := by
  refine ⟨h.tried, h.increasing, fun hpc' => absurd hpc' hwaiting, fun c hc => ?_, h.behind⟩
  change pc.candidate? = some c at hc
  rcases hpc with hnone | hsame
  · rw [hnone] at hc
    cases hc
  · exact h.last c (by rw [← hsame, hc])

/-- An attempt at the candidate in use, past every candidate tried before. -/
theorem RequestKept.attempt (h : RequestKept candidates index request) (hmem : c ∈ candidates)
    (hpast : ∀ d ∈ request.tried, candidates.idxOf d < candidates.idxOf c)
    (hle : index ≤ candidates.idxOf c) :
    RequestKept candidates (candidates.idxOf c) ⟨.trying c, request.tried ++ [c]⟩ := by
  refine ⟨?_, ?_, nofun, ?_, ?_⟩
  · intro d hd
    rcases List.mem_append.mp hd with hd | hd
    · exact h.tried d hd
    · rw [List.mem_singleton.mp hd]
      exact hmem
  · rw [List.map_append, List.pairwise_append]
    refine ⟨h.increasing, List.pairwise_singleton _ _, ?_⟩
    intro i hi j hj
    obtain ⟨d, hd, rfl⟩ := List.mem_map.mp hi
    obtain rfl : j = candidates.idxOf c := by simpa using hj
    exact hpast d hd
  · intro d hd
    cases hd
    exact List.getLast?_concat
  · intro d hd
    rcases List.mem_append.mp hd with hd | hd
    · exact (h.behind d hd).trans hle
    · exact List.mem_singleton.mp hd ▸ Nat.le_refl _

/-- The last candidate tried stands behind all the others. -/
theorem RequestKept.le_last (h : RequestKept candidates index request)
    (hlast : request.tried.getLast? = some c) :
    ∀ d ∈ request.tried, candidates.idxOf d ≤ candidates.idxOf c := by
  obtain ⟨before, hbefore⟩ := List.getLast?_eq_some_iff.mp hlast
  intro d hd
  have hincreasing := h.increasing
  rw [hbefore, List.map_append, List.pairwise_append] at hincreasing
  rw [hbefore] at hd
  rcases List.mem_append.mp hd with hd | hd
  · exact Nat.le_of_lt (hincreasing.2.2 _ (List.mem_map_of_mem hd) _
      (List.mem_map_of_mem (List.mem_singleton_self c)))
  · exact List.mem_singleton.mp hd ▸ Nat.le_refl _

/-- A request tries no candidate twice. -/
theorem RequestKept.length_tried_le (h : RequestKept candidates index request) :
    request.tried.length ≤ candidates.length := by
  have hnodup : request.tried.Nodup :=
    List.Nodup.of_map candidates.idxOf (h.increasing.imp fun hlt => hlt.ne)
  exact (hnodup.subperm h.tried).length_le

end

/-- Every step of a request, with what it leaves. -/
theorem ChainState.step_cases (h : s.step e = .ok s') :
    ((s.requests e.1).pc = .waiting ∧ s' = s.attempt e.1 s.chain.current) ∨
    (∃ c, (s.requests e.1).pc = .trying c ∧
      (s' = s.goto e.1 .answered ∨ s' = s.goto e.1 .failed)) ∨
    (∃ c, (s.requests e.1).pc = .trying c ∧
      s' = { s with refusals := s.refusals ++ [(e.1, c)] }.goto e.1 (.refused c)) ∨
    (∃ c chain, (s.requests e.1).pc = .refused c ∧
      ((s.chain.after c = .ok (none, chain) ∧ s' = { s with chain }.goto e.1 .failed) ∨
        ∃ next, s.chain.after c = .ok (some next, chain) ∧
          s' = { s with chain }.attempt e.1 next)) := by
  obtain ⟨r, move⟩ := e
  unfold step at h
  split at h
  · rename_i hpc _
    exact .inl ⟨hpc, (Except.ok.inj h).symm⟩
  · rename_i c hpc _
    exact .inr (.inl ⟨c, hpc, .inl (Except.ok.inj h).symm⟩)
  · rename_i c hpc _
    exact .inr (.inr (.inl ⟨c, hpc, (Except.ok.inj h).symm⟩))
  · rename_i c hpc _
    exact .inr (.inl ⟨c, hpc, .inr (Except.ok.inj h).symm⟩)
  · rename_i c hpc _
    split at h
    · rename_i next chain hafter
      exact .inr (.inr (.inr ⟨c, chain, hpc, .inr ⟨next, hafter, (Except.ok.inj h).symm⟩⟩))
    · rename_i chain hafter
      exact .inr (.inr (.inr ⟨c, chain, hpc, .inl ⟨hafter, (Except.ok.inj h).symm⟩⟩))
    · cases h
  · cases h

/-! ### Runs -/

/-- The index never goes back, and moves on by one, past the candidate that has just refused a
request. -/
structure IndexMoved (s : ChainState α) (e : ChainEvent) (s' : ChainState α) : Prop where
  le : s.chain.index ≤ s'.chain.index
  past : s.chain.index ≠ s'.chain.index → s'.chain.index = s.chain.index + 1 ∧
    (s.requests e.1).pc = .refused s.chain.current

namespace ChainKept

variable (h : ChainKept candidates s)
include h

/-- One request moves and the others stand. -/
theorem update {chain : ModelChain α} {request : ChainRequest α} (r : Nat)
    (hsame : chain.candidates = candidates) (hle : s.chain.index ≤ chain.index)
    (hadvanced : ∀ i < chain.index, s.chain.index ≤ i →
      ∃ r c, candidates[i]? = some c ∧ (r, c) ∈ s.refusals)
    (hrequest : RequestKept candidates chain.index request)
    (hrefused : ∀ c, request.pc = .refused c → (r, c) ∈ s.refusals) :
    ChainKept candidates
      { s with chain, requests := Function.update s.requests r request } := by
  refine ⟨hsame, fun r' => ?_, fun r' c hpc => ?_, fun i hi => ?_⟩
  · change RequestKept candidates chain.index (Function.update s.requests r request r')
    rcases Decidable.em (r' = r) with rfl | hne
    · rwa [Function.update_self]
    · rw [Function.update_of_ne hne]
      exact (h.requests r').mono hle
  · change (Function.update s.requests r request r').pc = .refused c at hpc
    rcases Decidable.em (r' = r) with rfl | hne
    · rw [Function.update_self] at hpc
      exact hrefused c hpc
    · rw [Function.update_of_ne hne] at hpc
      exact h.refused r' c hpc
  · rcases Nat.lt_or_ge i s.chain.index with hlt | hge
    · exact h.advanced i hlt
    · exact hadvanced i hi hge

/-- A request goes where it has ended, or stands with the candidate it was sent to. -/
theorem goto (r : Nat) {pc : RequestPc α}
    (hpc : pc.candidate? = none ∨ pc.candidate? = (s.requests r).pc.candidate?)
    (hwaiting : pc ≠ .waiting) (hrefused : ∀ c, pc = .refused c → (r, c) ∈ s.refusals) :
    ChainKept candidates (s.goto r pc) :=
  h.update r h.same (Nat.le_refl _) (fun _ hi hge => absurd hi (Nat.not_lt.mpr hge))
    ((h.requests r).goto hpc hwaiting) hrefused

/-- A refusal is kept. -/
theorem refuse (r : Nat) (c : α) :
    ChainKept candidates { s with refusals := s.refusals ++ [(r, c)] } := by
  refine ⟨h.same, h.requests, fun r' d hpc => ?_, fun i hi => ?_⟩
  · exact List.mem_append_left _ (h.refused r' d hpc)
  · obtain ⟨r', d, hget, hmem⟩ := h.advanced i hi
    exact ⟨r', d, hget, List.mem_append_left _ hmem⟩

/-- A request that has been refused is sent to a candidate that it has not tried. -/
theorem attempt_after (hnodup : candidates.Nodup) {r : Nat} {c : α} {moved : ModelChain α}
    (hpc : (s.requests r).pc = .refused c) (hsame : moved.candidates = s.chain.candidates)
    (hindex : moved.index = max s.chain.index (s.chain.candidates.idxOf c + 1)) :
    ChainKept candidates ({ s with chain := moved }.attempt r moved.current) ∧
      IndexMoved s (r, .after) ({ s with chain := moved }.attempt r moved.current) := by
  have hr := h.requests r
  have hlast := hr.last c (by rw [hpc]; rfl)
  have hmem : c ∈ candidates := hr.tried c (List.mem_of_getLast? hlast)
  have hbehind := hr.behind c (List.mem_of_getLast? hlast)
  rw [h.same] at hsame hindex
  have hcurrent : candidates.idxOf moved.current = moved.index := by
    have hindex : moved.candidates.idxOf moved.current = moved.index :=
      ModelChain.idxOf_current (by rw [hsame]; exact hnodup)
    rwa [hsame] at hindex
  constructor
  · refine h.update r hsame (hindex ▸ Nat.le_max_left _ _) (fun i (hi : i < moved.index) hge => ?_)
      ?_ nofun
    · -- the only candidate passed is the one that has refused
      have hi' : i = candidates.idxOf c := by omega
      refine ⟨r, c, ?_, h.refused r c hpc⟩
      rw [hi']
      exact List.getElem?_idxOf hmem
    · rw [← hcurrent]
      refine hr.attempt (hsame ▸ moved.current_mem) (fun d hd => ?_) (by omega)
      have := hr.le_last hlast d hd
      omega
  · refine ⟨?_, fun hne => ?_⟩
    · change s.chain.index ≤ moved.index
      omega
    · change s.chain.index ≠ moved.index at hne
      have hposition : candidates.idxOf c = s.chain.index := by omega
      refine ⟨?_, ?_⟩
      · change moved.index = s.chain.index + 1
        omega
      · have hc : s.chain.current = c := by
          unfold ModelChain.current
          rw [List.get_eq_getElem]
          have hget := List.getElem?_idxOf hmem
          rw [hposition, ← h.same] at hget
          exact (List.getElem?_eq_some_iff.mp hget).2
        rw [hc]
        exact hpc

/-- Every step keeps the invariant, and moves the index on past a refusal only. -/
theorem step (hnodup : candidates.Nodup) (hstep : s.step e = .ok s') :
    ChainKept candidates s' ∧ IndexMoved s e s' := by
  have stays : ∀ {t : ChainState α}, t.chain = s.chain → IndexMoved s e t := by
    intro t ht
    exact ⟨Nat.le_of_eq (by rw [ht]), fun hne => absurd (by rw [ht]) hne⟩
  obtain ⟨hpc, rfl⟩ | ⟨c, hpc, hends⟩ | ⟨c, hpc, rfl⟩ | ⟨c, chain, hpc, hafter⟩ :=
    ChainState.step_cases hstep
  · refine ⟨?_, stays rfl⟩
    have hcurrent : candidates.idxOf s.chain.current = s.chain.index := by
      rw [← h.same]
      exact ModelChain.idxOf_current (h.same ▸ hnodup)
    refine h.update e.1 h.same (Nat.le_refl _) (fun _ hi hge => absurd hi (Nat.not_lt.mpr hge)) ?_
      nofun
    rw [← hcurrent]
    refine (h.requests e.1).attempt (h.same ▸ s.chain.current_mem) ?_ (Nat.le_of_eq hcurrent.symm)
    rw [(h.requests e.1).waiting hpc]
    nofun
  · refine ⟨?_, stays (by rcases hends with rfl | rfl <;> rfl)⟩
    rcases hends with rfl | rfl
    · exact h.goto e.1 (.inl rfl) nofun nofun
    · exact h.goto e.1 (.inl rfl) nofun nofun
  · refine ⟨?_, stays rfl⟩
    refine (h.refuse e.1 c).goto e.1 (.inr ?_) nofun fun d hd => ?_
    · change some c = (s.requests e.1).pc.candidate?
      rw [hpc]
      rfl
    · cases hd
      exact List.mem_append_right _ (List.mem_singleton_self _)
  · have hlast := (h.requests e.1).last c (by rw [hpc]; rfl)
    have hmem : c ∈ s.chain.candidates :=
      h.same ▸ (h.requests e.1).tried c (List.mem_of_getLast? hlast)
    obtain ⟨-, hnone⟩ | ⟨moved, hmoved, hsame, hindex⟩ := ModelChain.after_cases hmem
    · rw [hnone] at hafter
      obtain ⟨heq, rfl⟩ | ⟨next, heq, -⟩ := hafter
      · cases heq
        exact ⟨h.goto e.1 (.inl rfl) nofun nofun, stays rfl⟩
      · cases heq
    · rw [hmoved] at hafter
      obtain ⟨heq, -⟩ | ⟨next, heq, rfl⟩ := hafter
      · cases heq
      · cases heq
        obtain ⟨hkept, hle, hpast⟩ := h.attempt_after hnodup hpc hsame hindex
        exact ⟨hkept, hle, hpast⟩

/-- A request that has not ended can move on, whatever the others do. -/
theorem exists_step {r : Nat} (hpc : (s.requests r).pc.ended = false) :
    ∃ move s', s.step (r, move) = .ok s' := by
  cases hr : (s.requests r).pc with
  | waiting => exact ⟨.current, _, by simp only [ChainState.step, hr]; rfl⟩
  | trying c => exact ⟨.answered, _, by simp only [ChainState.step, hr]; rfl⟩
  | refused c =>
    have hlast := (h.requests r).last c (by rw [hr]; rfl)
    have hmem : c ∈ s.chain.candidates :=
      h.same ▸ (h.requests r).tried c (List.mem_of_getLast? hlast)
    obtain ⟨-, hnone⟩ | ⟨moved, hmoved, -⟩ := ModelChain.after_cases hmem
    · exact ⟨.after, _, by simp only [ChainState.step, hr, hnone]; rfl⟩
    · exact ⟨.after, _, by simp only [ChainState.step, hr, hmoved]; rfl⟩
  | answered => simp [RequestPc.ended, hr] at hpc
  | failed => simp [RequestPc.ended, hr] at hpc

end ChainKept

omit [DecidableEq α] in
@[simp] theorem ChainState.requests_goto (r : Nat) (pc : RequestPc α) (r' : Nat) :
    (s.goto r pc).requests r' = if r' = r then { s.requests r with pc } else s.requests r' := by
  unfold goto Function.update
  split <;> simp_all

omit [DecidableEq α] in
@[simp] theorem ChainState.requests_attempt (r : Nat) (c : α) (r' : Nat) :
    (s.attempt r c).requests r' =
      if r' = r then ⟨.trying c, (s.requests r).tried ++ [c]⟩ else s.requests r' := by
  unfold attempt Function.update
  split <;> simp_all

/-- A step counts for the request that takes it. -/
theorem ChainKept.steps (h : ChainKept candidates s) (hstep : s.step e = .ok s') (r : Nat) :
    (s.requests r).steps + (if e.1 = r then 1 else 0) ≤ (s'.requests r).steps := by
  have hr := h.requests e.1
  rcases Decidable.em (e.1 = r) with rfl | hne
  · rw [if_pos rfl]
    obtain ⟨hpc, rfl⟩ | ⟨c, hpc, hends⟩ | ⟨c, hpc, rfl⟩ | ⟨c, chain, hpc, hafter⟩ :=
      ChainState.step_cases hstep
    · simp [ChainRequest.steps, hpc, hr.waiting hpc]
    · have hpos := List.length_pos_of_mem (List.mem_of_getLast? (hr.last c (by rw [hpc]; rfl)))
      rcases hends with rfl | rfl <;> simp [ChainRequest.steps, hpc]
    · have hpos := List.length_pos_of_mem (List.mem_of_getLast? (hr.last c (by rw [hpc]; rfl)))
      simp [ChainRequest.steps, hpc]
      omega
    · obtain ⟨-, rfl⟩ | ⟨next, -, rfl⟩ := hafter
      · simp [ChainRequest.steps, hpc]
      · simp [ChainRequest.steps, hpc]
        omega
  · rw [if_neg hne]
    have hne' : r ≠ e.1 := fun heq => hne heq.symm
    obtain ⟨-, rfl⟩ | ⟨c, -, rfl | rfl⟩ | ⟨c, -, rfl⟩ | ⟨c, chain, -, ⟨-, rfl⟩ | ⟨next, -, rfl⟩⟩ :=
      ChainState.step_cases hstep <;> simp [hne']

/-- The steps that a request takes in a run. -/
def stepsOf (r : Nat) (events : List ChainEvent) : Nat :=
  (events.filter fun e => e.1 = r).length

/-- What holds of every run of requests over the candidates. -/
structure ChainOrdered (candidates : List α) (events : List ChainEvent) (s : ChainState α) :
    Prop where
  /-- Only candidates that have refused a request are left behind. -/
  advanced : ∀ i < s.chain.index, ∃ r c, candidates[i]? = some c ∧ (r, c) ∈ s.refusals
  moved : ∀ e s', s.step e = .ok s' → IndexMoved s e s'
  increasing : ∀ r, ((s.requests r).tried.map candidates.idxOf).Pairwise (· < ·)
  attempts : ∀ r, (s.requests r).tried.length ≤ candidates.length
  /-- A request that has not ended can go on, and it takes so many steps at most. -/
  goesOn : ∀ r, (s.requests r).pc.ended = false → ∃ move s', s.step (r, move) = .ok s'
  steps : ∀ r, stepsOf r events ≤ 2 * candidates.length + 1

/-- The invariant holds after every run, and no request has taken more steps than it accounts
for. -/
theorem ChainKept.run (hnodup : candidates.Nodup) {events : List ChainEvent}
    (h : ChainKept candidates s) (hrun : events.foldlM ChainState.step s = .ok s') :
    ChainKept candidates s' ∧
      ∀ r, (s.requests r).steps + stepsOf r events ≤ (s'.requests r).steps := by
  induction events generalizing s with
  | nil =>
    cases hrun
    exact ⟨h, fun r => Nat.le_refl _⟩
  | cons e events ih =>
    rw [List.foldlM_cons] at hrun
    obtain ⟨t, ht, hrest⟩ := Fallible.bind_eq_ok.mp hrun
    obtain ⟨hkept, hsteps⟩ := ih (h.step hnodup ht).1 hrest
    refine ⟨hkept, fun r => ?_⟩
    have hone := h.steps ht r
    have hmany := hsteps r
    have hcount : stepsOf r (e :: events) = (if e.1 = r then 1 else 0) + stepsOf r events := by
      unfold stepsOf
      rw [List.filter_cons]
      split <;> simp_all [Nat.add_comm]
    omega

/-- However requests interleave and whatever they meet, the index only moves on, past a candidate
that has just refused, and each request tries later and later candidates, each once. -/
theorem chain_ordered (hnodup : candidates.Nodup)
    (hhold : ModelChain.hold candidates = .ok chain) {events : List ChainEvent}
    (hrun : events.foldlM ChainState.step (ChainState.start chain) = .ok s) :
    ChainOrdered candidates events s := by
  have hstart : ChainKept candidates (ChainState.start chain) := by
    unfold ModelChain.hold at hhold
    split at hhold
    · cases hhold
      exact ⟨rfl, fun r => ⟨nofun, List.Pairwise.nil, fun _ => rfl, nofun, nofun⟩, nofun, nofun⟩
    · cases hhold
  obtain ⟨hkept, hsteps⟩ := hstart.run hnodup hrun
  refine ⟨hkept.advanced, fun e s' hstep => (hkept.step hnodup hstep).2,
    fun r => (hkept.requests r).increasing, fun r => (hkept.requests r).length_tried_le,
    fun r hpc => hkept.exists_step hpc, fun r => ?_⟩
  have hcount := hsteps r
  have hlength := (hkept.requests r).length_tried_le
  have hlast : (s.requests r).steps ≤ 2 * (s.requests r).tried.length + 1 := by
    unfold ChainRequest.steps
    split <;> omega
  have hzero : ((ChainState.start chain).requests r).steps = 0 := rfl
  omega

/-- Two requests refused by the first of three candidates, the second of them after the process has
moved on: both are sent to the second candidate. -/
theorem chain_ordered_two_refused :
    ∃ s : ChainState String,
      [(0, .current), (1, .current), (0, .refused), (1, .refused), (0, .after), (1, .after)].foldlM
        ChainState.step (ChainState.start ⟨["a", "b", "c"], 0, by decide⟩) = .ok s ∧
      s.chain.index = 1 ∧
      ChainOrdered ["a", "b", "c"] [(0, .current), (1, .current), (0, .refused), (1, .refused),
        (0, .after), (1, .after)] s :=
  ⟨_, rfl, by decide, chain_ordered (by decide) rfl rfl⟩

end

end TradingAgents.Deliberator
