import Mathlib.Data.List.Sort
import Mathlib.Tactic.Common

/-! Insertion sort by a key is stable: it keeps the order of the elements of one key.  A list sorted
by a key is determined by what it holds under each key, and a position in a strictly sorted list by
what is below it. -/

namespace TradingAgents.ProofKit

variable {α κ : Type} [LinearOrder κ] {key : α → κ}

variable (key) in
/-- What a key sorts is in the order of the key. -/
theorem pairwise_insertionSort (l : List α) :
    (l.insertionSort fun a b => key a ≤ key b).Pairwise fun a b => key a ≤ key b := by
  have htotal : Std.Total fun a b : α => key a ≤ key b := ⟨fun a b => le_total (key a) (key b)⟩
  have htrans : IsTrans α fun a b => key a ≤ key b := ⟨fun a b c => le_trans (a := key a)⟩
  exact List.pairwise_insertionSort _ _

/-- The elements of one key come out of the sort as they went in. -/
theorem filter_insertionSort (l : List α) (k : κ) :
    (l.insertionSort fun a b => key a ≤ key b).filter (fun a => decide (key a = k)) =
      l.filter fun a => decide (key a = k) := by
  have htied : (l.filter fun a => decide (key a = k)).Pairwise fun a b => key a ≤ key b := by
    refine List.pairwise_of_forall_mem_list fun a ha b hb => ?_
    have ha' : key a = k := by simpa using List.of_mem_filter ha
    have hb' : key b = k := by simpa using List.of_mem_filter hb
    rw [ha', hb']
  have hsublist : (l.filter fun a => decide (key a = k)).Sublist
      (l.insertionSort fun a b => key a ≤ key b) :=
    List.sublist_insertionSort htied List.filter_sublist
  have hfiltered := hsublist.filter fun a => decide (key a = k)
  rw [List.filter_filter] at hfiltered
  simp only [Bool.and_self] at hfiltered
  refine (hfiltered.eq_of_length ?_).symm
  exact (((List.perm_insertionSort (fun a b => key a ≤ key b) l).filter _).length_eq).symm

/-- Two sorted lists that hold the same under each key are one list. -/
theorem eq_of_filter_key {l l' : List α} (h : l.Pairwise fun a b => key a ≤ key b)
    (h' : l'.Pairwise fun a b => key a ≤ key b)
    (hkeys : ∀ k, l.filter (fun a => decide (key a = k)) = l'.filter fun a => decide (key a = k)) :
    l = l' := by
  have hmem : ∀ {l l' : List α}, (∀ k, l.filter (fun a => decide (key a = k)) =
      l'.filter fun a => decide (key a = k)) → ∀ a ∈ l, a ∈ l' := by
    intro l l' hkeys a ha
    have hin : a ∈ l.filter fun b => decide (key b = key a) := List.mem_filter.mpr ⟨ha, by simp⟩
    rw [hkeys] at hin
    exact List.mem_of_mem_filter hin
  induction l generalizing l' with
  | nil =>
    cases l' with
    | nil => rfl
    | cons b l' => exact absurd (hmem (fun k => (hkeys k).symm) b (by simp)) List.not_mem_nil
  | cons a l ih =>
    cases l' with
    | nil => exact absurd (hmem hkeys a (by simp)) List.not_mem_nil
    | cons b l' =>
      rw [List.pairwise_cons] at h h'
      -- each head is least in both lists, so they have one key and stand first under it
      have hkey : key a = key b := by
        apply le_antisymm
        · rcases List.mem_cons.mp (hmem (fun k => (hkeys k).symm) b (by simp)) with rfl | hb
          · exact le_rfl
          · exact h.1 b hb
        · rcases List.mem_cons.mp (hmem hkeys a (by simp)) with rfl | ha
          · exact le_rfl
          · exact h'.1 a ha
      have hhead := hkeys (key b)
      rw [List.filter_cons_of_pos (by simp [hkey]), List.filter_cons_of_pos (by simp)] at hhead
      obtain ⟨rfl, -⟩ := List.cons_eq_cons.mp hhead
      refine congrArg (List.cons a) (ih h.2 h'.2 fun k => ?_)
      have hk := hkeys k
      by_cases hak : key a = k
      · rw [List.filter_cons_of_pos (by simp [hak]), List.filter_cons_of_pos (by simp [hak])] at hk
        exact List.tail_eq_of_cons_eq hk
      · rwa [List.filter_cons_of_neg (by simp [hak]), List.filter_cons_of_neg (by simp [hak])]
          at hk

/-- What sorts after everything else is sorted comes last. -/
theorem insertionSort_append_last {l : List α} {x : α} (h : ∀ a ∈ l, key a ≤ key x) :
    ((l ++ [x]).insertionSort fun a b => key a ≤ key b) =
      (l.insertionSort fun a b => key a ≤ key b) ++ [x] := by
  apply @eq_of_filter_key α κ _ key _ _ (pairwise_insertionSort key _)
  · rw [List.pairwise_append]
    refine ⟨pairwise_insertionSort key _, List.pairwise_singleton _ _, fun a ha b hb => ?_⟩
    rw [List.mem_singleton.mp hb]
    exact h a ((List.mem_insertionSort _).mp ha)
  · intro k
    rw [filter_insertionSort, List.filter_append, List.filter_append, filter_insertionSort]

/-- The sort of the elements that pass a test is what passes it of the sort. -/
theorem filter_insertionSort_eq (l : List α) (p : α → Bool) :
    (l.insertionSort fun a b => key a ≤ key b).filter p =
      (l.filter p).insertionSort fun a b => key a ≤ key b := by
  apply @eq_of_filter_key α κ _ key
  · exact (pairwise_insertionSort key l).sublist List.filter_sublist
  · exact pairwise_insertionSort key _
  · intro k
    rw [filter_insertionSort, List.filter_comm, filter_insertionSort, List.filter_comm]

/-- The same elements under distinct keys sort to one list. -/
theorem insertionSort_eq_of_perm {l l' : List α} (h : l.Perm l') (hnodup : (l.map key).Nodup) :
    (l.insertionSort fun a b => key a ≤ key b) = l'.insertionSort fun a b => key a ≤ key b := by
  apply eq_of_filter_key (pairwise_insertionSort key l) (pairwise_insertionSort key l')
  intro k
  rw [filter_insertionSort, filter_insertionSort]
  have hperm := h.filter fun a => decide (key a = k)
  -- under one key stands one element at most, so the order cannot differ
  have hone : (l.filter fun a => decide (key a = k)).length ≤ 1 := by
    by_contra hmore
    obtain ⟨a, b, rest, hl⟩ : ∃ a b rest,
        (l.filter fun a => decide (key a = k)) = a :: b :: rest := by
      match hl : l.filter fun a => decide (key a = k) with
      | [] => simp [hl] at hmore
      | [a] => simp [hl] at hmore
      | a :: b :: rest => exact ⟨a, b, rest, rfl⟩
    have hkeys := hnodup.sublist (List.filter_sublist.map key :
      ((l.filter fun a => decide (key a = k)).map key).Sublist (l.map key))
    have hmem : ∀ c ∈ l.filter fun a => decide (key a = k), key c = k := by
      intro c hc
      simpa using List.of_mem_filter hc
    rw [hl] at hkeys hmem
    have ha := hmem a (by simp)
    have hb := hmem b (by simp)
    simp [ha, hb] at hkeys
  match hl : l.filter fun a => decide (key a = k) with
  | [] => rw [hl] at hperm; exact (List.nil_perm.mp hperm).symm
  | [a] => rw [hl] at hperm; exact List.singleton_perm.mp hperm
  | a :: b :: rest => simp [hl] at hone

/-- A sorted list is what stands up to a key and then what stands after it. -/
theorem filter_le_append_filter_lt {l : List α} (h : l.Pairwise fun a b => key a ≤ key b) (k : κ) :
    l.filter (fun a => decide (key a ≤ k)) ++ l.filter (fun a => decide (k < key a)) = l := by
  induction l with
  | nil => rfl
  | cons a l ih =>
    obtain ⟨ha, hl⟩ := List.pairwise_cons.mp h
    by_cases hak : key a ≤ k
    · rw [List.filter_cons_of_pos (by simpa using hak),
        List.filter_cons_of_neg (by simpa using hak), List.cons_append, ih hl]
    · have hafter : ∀ b ∈ l, k < key b := fun b hb => (not_le.mp hak).trans_le (ha b hb)
      rw [List.filter_cons_of_neg (by simpa using hak),
        List.filter_cons_of_pos (by simpa using hak),
        List.filter_eq_nil_iff.mpr (by simpa using hafter),
        List.filter_eq_self.mpr (by simpa using hafter), List.nil_append]

/-- What a sorted list has up to a key is its head, and what it has after it is its tail. -/
theorem takeWhile_le {l : List α} (h : l.Pairwise fun a b => key a ≤ key b) (k : κ) :
    l.takeWhile (fun a => decide (key a ≤ k)) = l.filter (fun a => decide (key a ≤ k)) ∧
      l.dropWhile (fun a => decide (key a ≤ k)) = l.filter (fun a => decide (k < key a)) := by
  induction l with
  | nil => exact ⟨rfl, rfl⟩
  | cons a l ih =>
    obtain ⟨ha, hl⟩ := List.pairwise_cons.mp h
    obtain ⟨htake, hdrop⟩ := ih hl
    by_cases hak : key a ≤ k
    · rw [List.takeWhile_cons_of_pos (by simpa using hak),
        List.dropWhile_cons_of_pos (by simpa using hak), htake, hdrop,
        List.filter_cons_of_pos (by simpa using hak),
        List.filter_cons_of_neg (by simpa using hak)]
      exact ⟨rfl, rfl⟩
    · have hafter : ∀ b ∈ l, k < key b := fun b hb => (not_le.mp hak).trans_le (ha b hb)
      rw [List.takeWhile_cons_of_neg (by simpa using hak),
        List.dropWhile_cons_of_neg (by simpa using hak),
        List.filter_cons_of_neg (by simpa using hak),
        List.filter_cons_of_pos (by simpa using hak),
        List.filter_eq_nil_iff.mpr (by simpa using hafter),
        List.filter_eq_self.mpr (by simpa using hafter)]
      exact ⟨rfl, rfl⟩

/-- The element at a position of a list in strict order is the one with as many below it. -/
theorem getElem?_eq_some_iff_below {l : List κ} (hl : l.Pairwise (· < ·)) {i : Nat} {t : κ} :
    l[i]? = some t ↔ t ∈ l ∧ (l.filter fun d => decide (d < t)).length = i := by
  induction l generalizing i with
  | nil => simp
  | cons a l ih =>
    obtain ⟨ha, htail⟩ := List.pairwise_cons.mp hl
    cases i with
    | zero =>
      rw [List.getElem?_cons_zero, Option.some.injEq]
      constructor
      · rintro rfl
        refine ⟨List.mem_cons_self, ?_⟩
        rw [List.length_eq_zero_iff, List.filter_eq_nil_iff]
        intro d hd
        rcases List.mem_cons.mp hd with rfl | hd
        · simp
        · simpa using (ha d hd).le
      · rintro ⟨hmem, hnone⟩
        rcases List.mem_cons.mp hmem with rfl | hmem
        · rfl
        · rw [List.length_eq_zero_iff, List.filter_eq_nil_iff] at hnone
          exact absurd (decide_eq_true (ha t hmem)) (hnone a List.mem_cons_self)
    | succ i =>
      rw [List.getElem?_cons_succ, ih htail]
      constructor
      · rintro ⟨hmem, hlength⟩
        refine ⟨List.mem_cons_of_mem a hmem, ?_⟩
        rw [List.filter_cons_of_pos (by simpa using ha t hmem), List.length_cons, hlength]
      · rintro ⟨hmem, hlength⟩
        rcases List.mem_cons.mp hmem with rfl | hmem
        · have hnone : ((t :: l).filter fun d => decide (d < t)) = [] := by
            rw [List.filter_eq_nil_iff]
            intro d hd
            rcases List.mem_cons.mp hd with rfl | hd
            · simp
            · simpa using (ha d hd).le
          rw [hnone] at hlength
          cases hlength
        · rw [List.filter_cons_of_pos (by simpa using ha t hmem), List.length_cons] at hlength
          exact ⟨hmem, Nat.succ.inj hlength⟩
end TradingAgents.ProofKit
