import Mathlib.Tactic.Common

/-! A list cut into chunks from left to right: an element joins the current chunk if the chunk still
fits with it, and else begins the next.  What fits is up to the caller.  Where every part of a
fitting chunk fits, no other cut into fitting chunks has fewer of them. -/

namespace TradingAgents.ProofKit.GreedyChunks

variable {α : Type} (Fits : List α → Prop) [DecidablePred Fits]

/-- The chunks of the elements of `current` and of those that follow. -/
def cut : List α → List α → List (List α)
  | current, [] => if current = [] then [] else [current]
  | current, a :: rest =>
    if Fits (current ++ [a]) then cut (current ++ [a]) rest else current :: cut [a] rest

variable {Fits} {current rest : List α}

theorem cut_nil (h : current ≠ []) : cut Fits current [] = [current] := if_neg h

theorem cut_join {a : α} (h : Fits (current ++ [a])) :
    cut Fits current (a :: rest) = cut Fits (current ++ [a]) rest := if_pos h

theorem cut_next {a : α} (h : ¬Fits (current ++ [a])) :
    cut Fits current (a :: rest) = current :: cut Fits [a] rest := if_neg h

/-- No element is lost, repeated or moved. -/
theorem flatten_cut : (cut Fits current rest).flatten = current ++ rest := by
  induction rest generalizing current with
  | nil =>
    by_cases h : current = []
    · rw [cut, if_pos h, h]
      rfl
    · rw [cut_nil h]
      rfl
  | cons a rest ih =>
    by_cases h : Fits (current ++ [a])
    · rw [cut_join h, ih, List.append_assoc]
      rfl
    · rw [cut_next h, List.flatten_cons, ih]
      rfl

/-- Every chunk fits and has an element. -/
theorem cut_fits (single : ∀ a, Fits [a]) (hcurrent : current ≠ [] → Fits current) :
    ∀ chunk ∈ cut Fits current rest, Fits chunk ∧ chunk ≠ [] := by
  induction rest generalizing current with
  | nil =>
    intro chunk hchunk
    by_cases h : current = []
    · rw [cut, if_pos h] at hchunk
      cases hchunk
    · rw [cut_nil h, List.mem_singleton] at hchunk
      rw [hchunk]
      exact ⟨hcurrent h, h⟩
  | cons a rest ih =>
    intro chunk hchunk
    by_cases h : Fits (current ++ [a])
    · rw [cut_join h] at hchunk
      exact ih (fun _ => h) chunk hchunk
    · rw [cut_next h] at hchunk
      rcases List.mem_cons.mp hchunk with rfl | hlater
      · have hne : chunk ≠ [] := by
          rintro rfl
          exact h (single a)
        exact ⟨hcurrent hne, hne⟩
      · exact ih (fun _ => single a) chunk hlater

/-- A chunk that fits is not cut. -/
theorem cut_append (part : ∀ l l' : List α, l'.Sublist l → Fits l → Fits l') {chunk : List α}
    (h : Fits (current ++ chunk)) :
    cut Fits current (chunk ++ rest) = cut Fits (current ++ chunk) rest := by
  induction chunk generalizing current with
  | nil => rw [List.append_nil, List.nil_append]
  | cons a chunk ih =>
    rw [List.append_cons] at h
    rw [List.cons_append, cut_join (part _ _ (List.sublist_append_left _ _) h), ih h,
      ← List.append_cons]

/-- A shorter beginning saves at most one chunk and costs none. -/
theorem length_cut_suffix (part : ∀ l l' : List α, l'.Sublist l → Fits l → Fits l')
    {current' : List α} (h : current' <:+ current) :
    (cut Fits current' rest).length ≤ (cut Fits current rest).length ∧
    (cut Fits current rest).length ≤ (cut Fits current' rest).length + 1 := by
  induction rest generalizing current current' with
  | nil =>
    by_cases hcurrent : current = []
    · rw [hcurrent, List.suffix_nil] at h
      rw [hcurrent, h]
      exact ⟨Nat.le_refl _, Nat.le_succ _⟩
    · rw [cut_nil hcurrent]
      by_cases hcurrent' : current' = []
      · rw [cut, if_pos hcurrent']
        exact ⟨Nat.zero_le _, Nat.le_refl _⟩
      · rw [cut_nil hcurrent']
        exact ⟨Nat.le_refl _, Nat.le_succ _⟩
  | cons a rest ih =>
    have hjoined : current' ++ [a] <:+ current ++ [a] := by
      obtain ⟨front, rfl⟩ := h
      exact ⟨front, by rw [List.append_assoc]⟩
    by_cases hfits : Fits (current ++ [a])
    · rw [cut_join hfits, cut_join (part _ _ hjoined.sublist hfits)]
      exact ih hjoined
    · rw [cut_next hfits, List.length_cons]
      by_cases hfits' : Fits (current' ++ [a])
      · -- the longer beginning is closed here, and the shorter goes on
        rw [cut_join hfits']
        obtain ⟨hless, hmore⟩ := ih (List.suffix_append current' [a])
        exact ⟨hmore, Nat.succ_le_succ hless⟩
      · rw [cut_next hfits', List.length_cons]
        omega

/-- No other cut of the list into chunks that fit has fewer chunks. -/
theorem length_cut_le (part : ∀ l l' : List α, l'.Sublist l → Fits l → Fits l')
    {chunks : List (List α)} (hfits : ∀ chunk ∈ chunks, Fits chunk) :
    (cut Fits [] chunks.flatten).length ≤ chunks.length := by
  induction chunks with
  | nil => exact Nat.le_refl _
  | cons chunk chunks ih =>
    have hchunk : Fits ([] ++ chunk) := hfits chunk List.mem_cons_self
    rw [List.flatten_cons, cut_append part hchunk, List.length_cons]
    have hrest := ih fun c hc => hfits c (List.mem_cons_of_mem _ hc)
    have hone : (cut Fits ([] ++ chunk) chunks.flatten).length ≤
        (cut Fits [] chunks.flatten).length + 1 := (length_cut_suffix part List.nil_suffix).2
    omega

end TradingAgents.ProofKit.GreedyChunks
