import Mathlib.Data.List.MinMax
import Mathlib.Data.String.Basic
import TradingAgents.Kernel.GraphFacts
import TradingAgents.ProofKit.StableSort

/-! The order in which the two backends list the nodes of a label, and the first of the listed nodes
that are least in a measure.  The in-memory backend lists nodes as they came, the PostgreSQL backend
by key, so a node that comes later stands behind the others only in the first. -/

namespace TradingAgents.Kernel

open ProofKit

section

variable {α ι κ : Type} [LinearOrder ι] [LinearOrder κ]

/-- In a sorted list the first of the least elements is the least by measure and then by key. -/
theorem argmin_of_sorted {f : α → ι} {key : α → κ} {l : List α} {m : α}
    (hsorted : l.Pairwise fun a b => key a ≤ key b) (h : l.argmin f = some m) :
    ∀ a ∈ l, f m < f a ∨ f m = f a ∧ key m ≤ key a := by
  induction l using List.reverseRecOn generalizing m with
  | nil => simp
  | append_singleton l last ih =>
    obtain ⟨hl, -, hlast⟩ := List.pairwise_append.mp hsorted
    intro a ha
    rw [List.argmin_concat] at h
    cases hc : l.argmin f with
    | none =>
      rw [List.argmin_eq_none.mp hc, List.nil_append, List.mem_singleton] at ha
      rw [hc] at h
      cases Option.some.inj h
      exact .inr ⟨by rw [ha], by rw [ha]⟩
    | some c =>
      have hcmem : c ∈ l := List.argmin_mem hc
      rw [hc] at h
      change (if f last < f c then some last else some c) = some m at h
      split at h
      · rename_i hlt
        cases Option.some.inj h
        rcases List.mem_append.mp ha with ha | ha
        · exact .inl (lt_of_lt_of_le hlt (List.le_of_mem_argmin ha hc))
        · rw [List.mem_singleton.mp ha]
          exact .inr ⟨rfl, le_rfl⟩
      · rename_i hnot
        cases Option.some.inj h
        rcases List.mem_append.mp ha with ha | ha
        · exact ih hl hc a ha
        · rw [List.mem_singleton.mp ha]
          rcases lt_or_eq_of_le (not_lt.mp hnot) with hlt | heq
          · exact .inl hlt
          · exact .inr ⟨heq, hlast m hcmem last (List.mem_singleton_self last)⟩

end

/-- The stores that a program may run on. -/
inductive Backend where
  | memory
  | postgres
deriving DecidableEq, Repr

namespace Backend

variable {δ : Type} {ι : Type} [LinearOrder ι]

def listNodes (b : Backend) (g : Graph δ) (label : String) : List (Node δ) :=
  match b with
  | memory => g.listNodes label
  | postgres => (g.listNodes label).insertionSort fun a b => a.key ≤ b.key

theorem perm_listNodes (b : Backend) (g : Graph δ) (label : String) :
    (b.listNodes g label).Perm (g.listNodes label) := by
  cases b with
  | memory => exact .refl _
  | postgres => exact List.perm_insertionSort _ _

@[simp] theorem mem_listNodes {b : Backend} {g : Graph δ} {label : String} {n : Node δ} :
    n ∈ b.listNodes g label ↔ n ∈ g.listNodes label :=
  (b.perm_listNodes g label).mem_iff

theorem sorted_listNodes (g : Graph δ) (label : String) :
    (postgres.listNodes g label).Pairwise fun a b => a.key ≤ b.key :=
  pairwise_insertionSort Node.key _

theorem listNodes_put_of_ne {b : Backend} {g : Graph δ} {n : Node δ} {label : String}
    (h : n.label ≠ label) : b.listNodes (g.put n) label = b.listNodes g label := by
  cases b with
  | memory => exact Graph.listNodes_put_of_ne h
  | postgres => exact congrArg _ (Graph.listNodes_put_of_ne h)

/-- The first of the listed nodes with `p` that are least in `f`. -/
def first (b : Backend) (p : Node δ → Bool) (f : Node δ → ι) (g : Graph δ) (label : String) :
    Option (Node δ) :=
  ((b.listNodes g label).filter p).argmin f

variable {b : Backend} {p : Node δ → Bool} {f : Node δ → ι} {g g' : Graph δ} {label : String}
  {m : Node δ}

theorem mem_first (h : b.first p f g label = some m) : m ∈ (g.listNodes label).filter p := by
  have hmem := List.argmin_mem h
  rw [List.mem_filter, mem_listNodes] at hmem
  exact List.mem_filter.mpr hmem

theorem first_le (h : b.first p f g label = some m) {n : Node δ}
    (hn : n ∈ (g.listNodes label).filter p) : f m ≤ f n := by
  rw [List.mem_filter, ← mem_listNodes (b := b)] at hn
  exact List.le_of_mem_argmin (List.mem_filter.mpr hn) h

theorem first_least (h : postgres.first p f g label = some m) {n : Node δ}
    (hn : n ∈ (g.listNodes label).filter p) : f m < f n ∨ f m = f n ∧ m.key ≤ n.key := by
  rw [List.mem_filter, ← mem_listNodes (b := postgres)] at hn
  exact argmin_of_sorted ((sorted_listNodes g label).sublist List.filter_sublist) h n
    (List.mem_filter.mpr hn)

theorem first_isSome (hn : m ∈ (g.listNodes label).filter p) :
    ∃ n, b.first p f g label = some n := by
  cases h : b.first p f g label with
  | some n => exact ⟨n, rfl⟩
  | none =>
    rw [List.mem_filter, ← mem_listNodes (b := b)] at hn
    have hnil := List.argmin_eq_none.mp h
    exact absurd (List.mem_filter.mpr hn) (by rw [hnil]; exact List.not_mem_nil)

theorem first_concat {l added : List (Node δ)} (h : l.argmin f = some m)
    (hlater : ∀ x ∈ added, f m ≤ f x) : (l ++ added).argmin f = some m := by
  induction added using List.reverseRecOn with
  | nil => rw [List.append_nil]; exact h
  | append_singleton added x ih =>
    rw [← List.append_assoc, List.argmin_concat,
      ih fun y hy => hlater y (List.mem_append_left _ hy)]
    exact if_neg (not_lt.mpr (hlater x (by simp)))

/-- When nodes of no smaller measure come, the first of the least nodes stays, or on the store that
lists by key one of the same measure that is listed before it takes its place. -/
theorem first_append {added : List (Node δ)} (h : b.first p f g label = some m)
    (hadd : (g'.listNodes label).filter p = (g.listNodes label).filter p ++ added)
    (hlater : ∀ x ∈ added, f m ≤ f x) : b.first p f g' label = some m ∨
      b = postgres ∧ ∃ x ∈ added, b.first p f g' label = some x ∧ f m = f x ∧ x.key ≤ m.key := by
  cases b with
  | memory =>
    left
    change ((g'.listNodes label).filter p).argmin f = some m
    rw [hadd]
    exact first_concat h hlater
  | postgres =>
    have hm : m ∈ (g'.listNodes label).filter p := by
      rw [hadd]
      exact List.mem_append_left _ (mem_first h)
    obtain ⟨m', h'⟩ := first_isSome (b := postgres) (f := f) hm
    have hmem := mem_first h'
    rw [hadd] at hmem
    have hle := first_least h' hm
    rcases List.mem_append.mp hmem with hold | hnew
    · -- both are least among the old nodes
      left
      have hkey : m'.key = m.key := by
        rcases hle with hlt | ⟨heq, hk⟩
        · exact absurd (first_le h hold) (not_le.mpr hlt)
        · rcases first_least h hold with hlt | ⟨-, hk'⟩
          · exact absurd hlt (by rw [heq]; exact lt_irrefl _)
          · exact le_antisymm hk hk'
      have hget := (Graph.mem_listNodes.mp (List.mem_filter.mp hold).1).2
      have hget' := (Graph.mem_listNodes.mp (List.mem_filter.mp (mem_first h)).1).2
      rw [hkey, hget'] at hget
      rw [h', hget]
    · right
      rcases hle with hlt | ⟨heq, hk⟩
      · exact absurd hlt (not_lt.mpr (hlater m' hnew))
      · exact ⟨rfl, m', hnew, h', heq.symm, hk⟩

end Backend

end TradingAgents.Kernel
