import Mathlib
import TradingAgents.ProofKit.Dict

/-! Spans of presence.  A sequence of snapshots, each the keys present at a time, is turned into
spans: a key that appears opens a span, and a key that is gone closes its span at the time of the
snapshot before.  Each presence lies in one span, and a span holds presences only. -/

namespace TradingAgents.ProofKit

variable {κ τ : Type} [DecidableEq κ]

/-- A key present from one time to another. -/
structure Span (κ τ : Type) where
  key : κ
  first : τ
  last : τ

/-- The open spans by their start, the closed ones, and the time of the last snapshot. -/
structure OpenSpans (κ τ : Type) where
  active : Dict κ τ
  closed : List (Span κ τ)
  previous : Option τ

namespace OpenSpans

def empty : OpenSpans κ τ := ⟨.empty, [], none⟩

/-- The spans of the keys that are gone, closed at the time before. -/
def close (active : Dict κ τ) (seen : List κ) (previous : τ) : List (Span κ τ) :=
  (active.entries.filter fun p => decide (p.1 ∉ seen)).map fun p => ⟨p.1, p.2, previous⟩

/-- The open keys that are still seen. -/
def keep (active : Dict κ τ) (seen : List κ) : Dict κ τ :=
  active.eraseAll (active.keys.filter fun k => decide (k ∉ seen))

/-- `setdefault` of each key. -/
def openAll (active : Dict κ τ) (seen : List κ) (t : τ) : Dict κ τ :=
  seen.foldl (fun d k => if (d.get? k).isSome then d else d.set k t) active

/-- One more snapshot. -/
def observe (s : OpenSpans κ τ) (t : τ) (seen : List κ) : OpenSpans κ τ :=
  match s.previous with
  | none => ⟨openAll s.active seen t, s.closed, some t⟩
  | some previous =>
    ⟨openAll (keep s.active seen) seen t, s.closed ++ close s.active seen previous, some t⟩

/-- The spans, those still open closed at the last snapshot. -/
def finish (s : OpenSpans κ τ) : List (Span κ τ) :=
  match s.previous with
  | none => []
  | some previous => s.closed ++ close s.active [] previous

end OpenSpans

def observeAll (snapshots : List (τ × List κ)) : OpenSpans κ τ :=
  snapshots.foldl (fun s p => s.observe p.1 p.2) OpenSpans.empty

/-- The spans of the keys of a sequence of snapshots. -/
def spans (snapshots : List (τ × List κ)) : List (Span κ τ) := (observeAll snapshots).finish

/-- The key is in its span at a time. -/
def Span.covers [LinearOrder τ] (k : κ) (t : τ) (e : Span κ τ) : Bool :=
  decide (e.key = k) && decide (e.first ≤ t) && decide (t ≤ e.last)

namespace OpenSpans

variable {s : OpenSpans κ τ} {active : Dict κ τ} {seen : List κ} {k : κ} {t u previous : τ}

theorem get?_openAll :
    (openAll active seen t).get? k = if k ∈ seen then some ((active.get? k).getD t)
      else active.get? k := by
  unfold openAll
  induction seen generalizing active with
  | nil => simp
  | cons a seen ih =>
    rw [List.foldl_cons, ih]
    by_cases hka : k = a
    · subst hka
      cases hget : active.get? k with
      | none => simp
      | some start => simp [hget]
    · have hother : (if (active.get? a).isSome then active else active.set a t).get? k =
          active.get? k := by
        split
        · rfl
        · exact Dict.get?_set_ne active t hka
      rw [hother]
      simp [hka]

theorem get?_keep : (keep active seen).get? k = if k ∈ seen then active.get? k else none := by
  rw [keep, Dict.get?_eraseAll]
  by_cases hseen : k ∈ seen
  · simp [hseen]
  · by_cases hkey : k ∈ active.keys
    · simp [hseen, hkey]
    · simp [hseen, Dict.notMem_keys_iff.mp hkey]

theorem mem_close {e : Span κ τ} (h : e ∈ close active seen previous) : e.last = previous := by
  obtain ⟨p, -, rfl⟩ := List.mem_map.mp h
  rfl

theorem closed_observe : (s.observe t seen).closed =
    s.closed ++ (s.previous.map (close s.active seen)).getD [] := by
  unfold observe
  cases s.previous with
  | none => simp
  | some previous => rfl

theorem previous_observe : (s.observe t seen).previous = some t := by
  unfold observe
  cases s.previous <;> rfl

variable [LinearOrder τ]

/-- The closed spans that cover a time count the key once if it is gone and was open by then. -/
theorem countP_close (h : u ≤ previous) :
    (close active seen previous).countP (Span.covers k u) =
      if k ∉ seen ∧ (active.get? k).any (fun start => decide (start ≤ u)) then 1 else 0 := by
  have hcount : (close active seen previous).countP (Span.covers k u) =
      (active.entries.flatMap fun p =>
        if p.1 ∉ seen ∧ p.1 = k ∧ p.2 ≤ u then [()] else []).length := by
    rw [close, List.countP_map, List.countP_filter]
    induction active.entries with
    | nil => rfl
    | cons p rest ih =>
      rw [List.countP_cons, ih, List.flatMap_cons, List.length_append, Nat.add_comm]
      congr 1
      by_cases hp : p.1 ∉ seen ∧ p.1 = k ∧ p.2 ≤ u
      · obtain ⟨hgone, rfl, hle⟩ := hp
        simp [Span.covers, hgone, hle, h]
      · rw [if_neg hp, if_neg]
        · rfl
        · simp only [Function.comp, Span.covers, Bool.and_eq_true, decide_eq_true_eq]
          tauto
  rw [hcount]
  cases hget : active.get? k with
  | none =>
    rw [List.flatMap_eq_nil_iff.mpr, if_neg (by simp), List.length_nil]
    intro p hp
    rw [if_neg]
    rintro ⟨-, hkey, -⟩
    have hstart := Dict.mem_entries_iff.mp hp
    rw [hkey, hget] at hstart
    cases hstart
  | some start =>
    rw [Dict.flatMap_entries hget fun p _ hne => if_neg fun h => hne h.2.1]
    by_cases hcond : k ∉ seen ∧ start ≤ u
    · simp [hcond]
    · rw [if_neg (by tauto), if_neg (by simpa using hcond), List.length_nil]

/-- The spans of a key that cover a time, closed or open. -/
def total (s : OpenSpans κ τ) (k : κ) (u : τ) : Nat :=
  s.closed.countP (Span.covers k u) +
    if (s.active.get? k).any (fun start => decide (start ≤ u)) then 1 else 0

/-- Nothing is later than the last snapshot. -/
structure Settled (s : OpenSpans κ τ) : Prop where
  closed : ∀ e ∈ s.closed, ∃ previous ∈ s.previous, e.last ≤ previous
  active : ∀ k start, s.active.get? k = some start → ∃ previous ∈ s.previous, start ≤ previous

theorem get?_observe (hs : s.Settled) : (s.observe t seen).active.get? k =
    if k ∈ seen then some ((s.active.get? k).getD t) else none := by
  unfold observe
  cases hprevious : s.previous with
  | none =>
    have hnone : s.active.get? k = none := by
      cases hget : s.active.get? k with
      | none => rfl
      | some start =>
        obtain ⟨previous, hmem, -⟩ := hs.active k start hget
        rw [hprevious] at hmem
        cases hmem
    simp only
    rw [get?_openAll, hnone]
  | some previous =>
    simp only
    rw [get?_openAll, get?_keep]
    split
    · rfl
    · rfl

theorem Settled.observe (hs : s.Settled) (h : ∀ previous ∈ s.previous, previous < t) :
    (s.observe t seen).Settled where
  closed e he := by
    refine ⟨t, previous_observe, ?_⟩
    rw [closed_observe] at he
    rcases List.mem_append.mp he with he | he
    · obtain ⟨previous, hmem, hle⟩ := hs.closed e he
      exact hle.trans (h previous hmem).le
    · cases hprevious : s.previous with
      | none =>
        rw [hprevious] at he
        cases he
      | some previous =>
        rw [hprevious] at he
        rw [mem_close he]
        exact (h previous hprevious).le
  active k start hget := by
    refine ⟨t, previous_observe, ?_⟩
    rw [get?_observe hs] at hget
    split at hget
    · cases hopen : s.active.get? k with
      | none =>
        rw [hopen] at hget
        exact (Option.some.inj hget).ge
      | some start' =>
        rw [hopen] at hget
        obtain ⟨previous, hmem, hle⟩ := hs.active k start' hopen
        rw [← Option.some.inj hget]
        exact hle.trans (h previous hmem).le
    · cases hget

/-- A snapshot changes nothing for the times before it. -/
theorem total_observe_before (hs : s.Settled) (hmem : previous ∈ s.previous) (hu : u ≤ previous)
    (ht : previous < t) : (s.observe t seen).total k u = s.total k u := by
  have hnew : ¬ t ≤ u := not_le.mpr (hu.trans_lt ht)
  rw [total, closed_observe, Option.mem_def.mp hmem, List.countP_append, get?_observe hs,
    Option.map_some, Option.getD_some, countP_close hu, total, Nat.add_assoc]
  congr 1
  by_cases hseen : k ∈ seen
  · cases hget : s.active.get? k with
    | none => simp [hseen, hnew]
    | some start => simp [hseen]
  · simp [hseen]

/-- At its own time a snapshot has one span for each of its keys. -/
theorem total_observe (hs : s.Settled) (h : ∀ previous ∈ s.previous, previous < t) :
    (s.observe t seen).total k t = if k ∈ seen then 1 else 0 := by
  have hclosed : (s.observe t seen).closed.countP (Span.covers k t) = 0 := by
    rw [List.countP_eq_zero]
    intro e he
    rw [closed_observe] at he
    have hlast : e.last < t := by
      rcases List.mem_append.mp he with he | he
      · obtain ⟨previous, hmem, hle⟩ := hs.closed e he
        exact hle.trans_lt (h previous hmem)
      · cases hprevious : s.previous with
        | none =>
          rw [hprevious] at he
          cases he
        | some previous =>
          rw [hprevious] at he
          rw [mem_close he]
          exact h previous hprevious
    simp [Span.covers, not_le.mpr hlast]
  rw [total, hclosed, Nat.zero_add, get?_observe hs]
  by_cases hseen : k ∈ seen
  · cases hget : s.active.get? k with
    | none => simp [hseen]
    | some start =>
      obtain ⟨previous, hmem, hle⟩ := hs.active k start hget
      simp [hseen, (hle.trans (h previous hmem).le)]
  · simp [hseen]

theorem countP_finish (hmem : previous ∈ s.previous) (hu : u ≤ previous) :
    s.finish.countP (Span.covers k u) = s.total k u := by
  rw [finish, Option.mem_def.mp hmem]
  simp only
  rw [List.countP_append, countP_close hu, total]
  simp

end OpenSpans

section

variable {snapshots : List (τ × List κ)} {p last : τ × List κ}

theorem previous_observeAll :
    (observeAll snapshots).previous = snapshots.getLast?.map Prod.fst := by
  induction snapshots using List.reverseRecOn with
  | nil => rfl
  | append_singleton snapshots q _ =>
    rw [observeAll, List.foldl_concat, OpenSpans.previous_observe, List.getLast?_concat,
      Option.map_some]

omit [DecidableEq κ] in
theorem exists_last (hp : p ∈ snapshots) : ∃ last, snapshots.getLast? = some last := by
  cases hlast : snapshots.getLast? with
  | none =>
    rw [List.getLast?_eq_none_iff.mp hlast] at hp
    cases hp
  | some last => exact ⟨last, rfl⟩

variable [LinearOrder τ]

omit [DecidableEq κ] in
theorem time_le_last (h : snapshots.Pairwise fun p q => p.1 < q.1)
    (hlast : snapshots.getLast? = some last) (hp : p ∈ snapshots) : p.1 ≤ last.1 := by
  obtain ⟨init, rfl⟩ := List.getLast?_eq_some_iff.mp hlast
  rcases List.mem_append.mp hp with hp | hp
  · exact ((List.pairwise_append.mp h).2.2 p hp last (List.mem_singleton_self last)).le
  · rw [List.mem_singleton.mp hp]

/-- After a run each presence so far lies in one span of its key, closed or open. -/
theorem observeAll_total (h : snapshots.Pairwise fun p q => p.1 < q.1) (k : κ) :
    (observeAll snapshots).Settled ∧
      ∀ p ∈ snapshots, (observeAll snapshots).total k p.1 = if k ∈ p.2 then 1 else 0 := by
  induction snapshots using List.reverseRecOn with
  | nil => exact ⟨⟨by simp [observeAll, OpenSpans.empty], by simp [observeAll, OpenSpans.empty]⟩,
      by simp⟩
  | append_singleton snapshots q ih =>
    obtain ⟨hbefore, -, hafter⟩ := List.pairwise_append.mp h
    obtain ⟨hsettled, htotal⟩ := ih hbefore
    have hlt : ∀ previous ∈ (observeAll snapshots).previous, previous < q.1 := by
      intro previous hmem
      rw [previous_observeAll] at hmem
      obtain ⟨r, hr, rfl⟩ := Option.map_eq_some_iff.mp hmem
      exact hafter r (List.mem_of_getLast? hr) q (List.mem_singleton_self q)
    have hstep : observeAll (snapshots ++ [q]) = (observeAll snapshots).observe q.1 q.2 :=
      List.foldl_concat _ _ _ _
    rw [hstep]
    refine ⟨hsettled.observe hlt, fun r hr => ?_⟩
    rcases List.mem_append.mp hr with hr | hr
    · obtain ⟨last, hlast⟩ := exists_last hr
      have hmem : last.1 ∈ (observeAll snapshots).previous := by
        rw [previous_observeAll, hlast]
        rfl
      rw [OpenSpans.total_observe_before hsettled hmem (time_le_last hbefore hlast hr)
        (hlt _ hmem), htotal r hr]
    · rw [List.mem_singleton.mp hr]
      exact OpenSpans.total_observe hsettled hlt

/-- Each presence of a key lies in one span of the key, and its absence in none. -/
theorem countP_spans (h : snapshots.Pairwise fun p q => p.1 < q.1) (hp : p ∈ snapshots) (k : κ) :
    (spans snapshots).countP (Span.covers k p.1) = if k ∈ p.2 then 1 else 0 := by
  obtain ⟨last, hlast⟩ := exists_last hp
  have hmem : last.1 ∈ (observeAll snapshots).previous := by
    rw [previous_observeAll, hlast]
    rfl
  rw [spans, OpenSpans.countP_finish hmem (time_le_last h hlast hp)]
  exact (observeAll_total h k).2 p hp

end

end TradingAgents.ProofKit
