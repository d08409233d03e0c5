import Mathlib.Data.List.Chain
import Mathlib.Data.List.Nodup
import Mathlib.Tactic.Common

/-! Walks along a relation: walks of a given length, the distance of one point from another, and the
level of a search that the points at a distance form.  A walk is also given by the list of the
points it visits; a shortest one visits no point twice. -/

namespace TradingAgents.ProofKit

variable {α : Type} {r : α → α → Prop}

/-- A walk of `n` steps. -/
inductive Hops (r : α → α → Prop) (a : α) : Nat → α → Prop
  | refl : Hops r a 0 a
  | tail {n : Nat} {b c : α} : Hops r a n b → r b c → Hops r a (n + 1) c

/-- The length of the shortest walk. -/
def Distance (r : α → α → Prop) (a b : α) (n : Nat) : Prop :=
  Hops r a n b ∧ ∀ m < n, ¬ Hops r a m b

namespace Distance

variable {a b c : α} {m n : Nat}

theorem unique (h : Distance r a b m) (h' : Distance r a b n) : m = n := by
  rcases Nat.lt_trichotomy m n with hlt | heq | hgt
  · exact (h'.2 m hlt h.1).elim
  · exact heq
  · exact (h.2 n hgt h'.1).elim

theorem zero_iff : Distance r a b 0 ↔ b = a := by
  constructor
  · rintro ⟨⟨⟩, -⟩
    rfl
  · rintro rfl
    exact ⟨.refl, fun m hm => absurd hm (Nat.not_lt_zero m)⟩

/-- Every walk has a shortest one. -/
theorem exists_le (h : Hops r a n b) : ∃ m ≤ n, Distance r a b m := by
  induction n using Nat.strong_induction_on with
  | _ n ih =>
    by_cases hshort : ∃ m < n, Hops r a m b
    · obtain ⟨m, hm, hwalk⟩ := hshort
      obtain ⟨k, hk, hdist⟩ := ih m hm hwalk
      exact ⟨k, by omega, hdist⟩
    · exact ⟨n, le_rfl, h, fun m hm hwalk => hshort ⟨m, hm, hwalk⟩⟩

/-- A point at a distance is one step from a point one step nearer. -/
theorem pred (h : Distance r a c (n + 1)) : ∃ b, Distance r a b n ∧ r b c := by
  obtain ⟨hwalk, hmin⟩ := h
  cases hwalk with
  | @tail _ b _ hwalk hstep =>
    refine ⟨b, ⟨hwalk, fun m hm hshort => ?_⟩, hstep⟩
    exact hmin (m + 1) (by omega) (.tail hshort hstep)

/-- The points at distance `n + 1` are those not nearer that are one step from a point at distance
`n`. -/
theorem succ_iff :
    Distance r a c (n + 1) ↔ (∀ m ≤ n, ¬ Distance r a c m) ∧ ∃ b, Distance r a b n ∧ r b c := by
  constructor
  · intro h
    refine ⟨fun m hm hd => ?_, h.pred⟩
    have := h.unique hd
    omega
  · rintro ⟨hfar, b, hb, hstep⟩
    refine ⟨.tail hb.1 hstep, fun m hm hwalk => ?_⟩
    obtain ⟨k, hk, hd⟩ := exists_le hwalk
    exact hfar k (by omega) hd

/-- Where no point is at a distance, none is farther. -/
theorem none_beyond (h : ∀ c, ¬ Distance r a c n) (hle : n ≤ m) : ¬ Distance r a c m := by
  induction m generalizing c with
  | zero =>
    have hn : n = 0 := by omega
    subst hn
    exact h c
  | succ m ih =>
    intro hd
    rcases Nat.lt_or_ge m n with hlt | hge
    · have hn : n = m + 1 := by omega
      subst hn
      exact h c hd
    · obtain ⟨b, hb, -⟩ := hd.pred
      exact ih hge hb

end Distance

/-! ### The points of a walk -/

/-- The walk from `a` that visits the points of `l`, in order, and ends at `b`. -/
def Visits (r : α → α → Prop) (a : α) (l : List α) (b : α) : Prop :=
  List.IsChain r (a :: l) ∧ l.getLast? = some b

section Visits

variable {a b c : α} {l : List α}

theorem Visits.snoc_iff : Visits r a (l ++ [b]) c ↔
    b = c ∧ ((l = [] ∧ r a b) ∨ ∃ d, Visits r a l d ∧ r d b) := by
  unfold Visits
  rw [List.getLast?_concat, Option.some.injEq, and_comm, ← List.cons_append, List.isChain_append]
  refine and_congr_right fun _ => ?_
  rcases List.eq_nil_or_concat l with rfl | ⟨l', d, rfl⟩
  · simp
  · simp only [List.concat_eq_append, List.isChain_singleton, true_and, List.getLast?_concat]
    rw [← List.cons_append, List.getLast?_concat]
    simp

theorem Visits.hops (h : Visits r a l b) : Hops r a l.length b := by
  induction l using List.reverseRecOn generalizing b with
  | nil => cases h.2
  | append_singleton l c ih =>
    obtain ⟨rfl, ⟨rfl, hstep⟩ | ⟨d, hd, hstep⟩⟩ := Visits.snoc_iff.mp h
    · exact .tail .refl hstep
    · rw [List.length_append]
      exact .tail (ih hd) hstep

/-- A step leads to every point of a walk. -/
theorem Visits.step_to (h : Visits r a l b) (hc : c ∈ l) : ∃ d, r d c := by
  induction l using List.reverseRecOn generalizing b with
  | nil => cases hc
  | append_singleton l e ih =>
    obtain ⟨rfl, hstep⟩ := Visits.snoc_iff.mp h
    rcases List.mem_append.mp hc with hc | hc
    · obtain ⟨rfl, -⟩ | ⟨d, hd, -⟩ := hstep
      · cases hc
      · exact ih hd hc
    · rw [List.mem_singleton.mp hc]
      obtain ⟨-, hstep⟩ | ⟨d, -, hstep⟩ := hstep
      · exact ⟨a, hstep⟩
      · exact ⟨d, hstep⟩

/-- A shortest walk visits points at growing distances, and so none of them twice. -/
theorem Distance.visits {n : Nat} (h : Distance r a b (n + 1)) :
    ∃ l, Visits r a l b ∧ l.length = n + 1 ∧ l.Nodup ∧
      ∀ c ∈ l, ∃ m ≤ n + 1, 0 < m ∧ Distance r a c m := by
  induction n generalizing b with
  | zero =>
    obtain ⟨c, hc, hstep⟩ := h.pred
    rw [Distance.zero_iff] at hc
    subst hc
    refine ⟨[b], ⟨by simpa using hstep, rfl⟩, rfl, List.nodup_singleton b, fun d hd => ?_⟩
    rw [List.mem_singleton.mp hd]
    exact ⟨1, le_rfl, Nat.one_pos, h⟩
  | succ n ih =>
    obtain ⟨c, hc, hstep⟩ := h.pred
    obtain ⟨l, hvisits, hlen, hnodup, hnear⟩ := ih hc
    refine ⟨l ++ [b], Visits.snoc_iff.mpr ⟨rfl, .inr ⟨c, hvisits, hstep⟩⟩, by simp [hlen], ?_, ?_⟩
    · rw [List.nodup_append]
      refine ⟨hnodup, List.nodup_singleton b, fun d hd e he heq => ?_⟩
      rw [List.mem_singleton.mp he] at heq
      subst heq
      obtain ⟨m, hm, -, hdist⟩ := hnear d hd
      have := h.unique hdist
      omega
    · intro d hd
      rcases List.mem_append.mp hd with hd | hd
      · obtain ⟨m, hm, hpos, hdist⟩ := hnear d hd
        exact ⟨m, by omega, hpos, hdist⟩
      · rw [List.mem_singleton.mp hd]
        exact ⟨n + 2, le_rfl, by omega, h⟩

/-- A point on a cycle has one that visits no point twice. -/
theorem Hops.cycle {n : Nat} (h : Hops r a (n + 1) a) :
    ∃ l, Visits r a l a ∧ l.length ≤ n + 1 ∧ l.Nodup := by
  cases h with
  | @tail _ d _ hwalk hstep =>
    obtain ⟨m, hm, hdist⟩ := Distance.exists_le hwalk
    cases m with
    | zero =>
      rw [Distance.zero_iff] at hdist
      subst hdist
      exact ⟨[d], ⟨by simpa using hstep, rfl⟩, by simp, List.nodup_singleton d⟩
    | succ m =>
      obtain ⟨l, hvisits, hlen, hnodup, hnear⟩ := hdist.visits
      refine ⟨l ++ [a], Visits.snoc_iff.mpr ⟨rfl, .inr ⟨d, hvisits, hstep⟩⟩, by simp; omega, ?_⟩
      rw [List.nodup_append]
      refine ⟨hnodup, List.nodup_singleton a, fun e he e' he' heq => ?_⟩
      rw [List.mem_singleton.mp he'] at heq
      subst heq
      obtain ⟨k, -, hpos, hd⟩ := hnear e he
      have hzero := hd.unique (Distance.zero_iff.mpr rfl)
      omega

end Visits

end TradingAgents.ProofKit
