import Mathlib

/-! Elements taken from a pool one after another, each worth within a slack of the best that is
left.  Whatever decides among those, no other choice of as many elements is worth more than the
slack for each of them above what was taken. -/

namespace TradingAgents.ProofKit.NearGreedy

variable {α R : Type} [AddCommGroup R]

/-- What some elements are worth together. -/
def worth (value : α → R) (l : List α) : R := (l.map value).sum

/-- The elements were taken from the pool, one by one, each within the slack of what was left. -/
inductive Picks [LE R] (value : α → R) (slack : R) : List α → List α → Prop where
  | stop (pool : List α) : Picks value slack pool []
  | take {pool rest taken : List α} {a : α} (hsplit : pool.Perm (a :: rest))
      (hbest : ∀ b ∈ pool, value b ≤ value a + slack) (hrest : Picks value slack rest taken) :
      Picks value slack pool (a :: taken)

variable {value : α → R} {slack : R} {pool pool' taken other : List α}

@[simp] theorem worth_cons (a : α) (l : List α) : worth value (a :: l) = value a + worth value l :=
  List.sum_cons

theorem worth_perm (h : pool.Perm pool') : worth value pool = worth value pool' :=
  (h.map value).sum_eq

theorem Picks.subperm [LE R] (h : Picks value slack pool taken) : taken.Subperm pool := by
  induction h with
  | stop pool => exact List.nil_subperm
  | take hsplit _ _ ih => exact ((List.subperm_cons _).mpr ih).trans hsplit.symm.subperm

/-- A choice from a pool with one element `a` put first: it holds `a`, or it avoids it and any
element of it may be left out instead. -/
theorem exchange {a : α} {rest : List α} (hsplit : pool.Perm (a :: rest))
    (hother : other.Subperm pool) (hsome : other ≠ []) :
    ∃ b ∈ pool, ∃ others, other.Perm (b :: others) ∧ others.Subperm rest := by
  classical
  have hin : other.Subperm (a :: rest) := hother.trans hsplit.subperm
  by_cases ha : a ∈ other
  · refine ⟨a, hother.subset ha, other.erase a, List.perm_cons_erase ha, ?_⟩
    have herase := hin.erase a
    rwa [List.erase_cons_head] at herase
  · obtain ⟨b, others, rfl⟩ := List.exists_cons_of_ne_nil hsome
    refine ⟨b, hother.subset List.mem_cons_self, others, List.Perm.refl _, ?_⟩
    have herase := hin.erase a
    rw [List.erase_cons_head, List.erase_of_not_mem ha] at herase
    exact (List.sublist_cons_self b others).subperm.trans herase

/-- No other choice of as many elements is worth more than the slack for each of them above. -/
theorem Picks.worth_le [LinearOrder R] [IsOrderedAddMonoid R]
    (h : Picks value slack pool taken) (hother : other.Subperm pool)
    (hlength : other.length = taken.length) :
    worth value other ≤ worth value taken + taken.length • slack := by
  induction h generalizing other with
  | stop pool =>
    rw [List.length_nil, List.length_eq_zero_iff] at hlength
    subst hlength
    simp
  | @take pool rest taken a hsplit hbest _ ih =>
    have hsome : other ≠ [] := by
      rintro rfl
      cases hlength
    obtain ⟨b, hb, others, hperm, hothers⟩ := exchange hsplit hother hsome
    have hcount : others.length = taken.length := by
      have hsame := hperm.length_eq
      rw [hlength, List.length_cons, List.length_cons] at hsame
      omega
    have hstep : value b + worth value others ≤
        (value a + slack) + (worth value taken + taken.length • slack) :=
      add_le_add (hbest b hb) (ih hothers hcount)
    calc worth value other = value b + worth value others := by rw [worth_perm hperm, worth_cons]
      _ ≤ (value a + slack) + (worth value taken + taken.length • slack) := hstep
      _ = worth value (a :: taken) + (a :: taken).length • slack := by
        rw [worth_cons, List.length_cons, succ_nsmul]
        abel

end TradingAgents.ProofKit.NearGreedy
