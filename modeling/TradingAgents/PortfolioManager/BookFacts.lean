import Mathlib.Algebra.BigOperators.Group.Finset.Basic
import Mathlib.Algebra.Order.BigOperators.Group.Finset
import Mathlib.Tactic.Linarith
import TradingAgents.PortfolioManager.Concentration

/-! The exposure of an issuer in the book.  While the exits of a batch are taken, it is the value of
the tickers of the issuer that are still held; an entry adds its cost. -/

namespace TradingAgents.PortfolioManager

open ProofKit

section Tables

variable {d : Dict String ℚ} {m : Dict String (Finset String)} {k k' : String}

@[simp] theorem amountAt_set (v : ℚ) :
    amountAt (d.set k v) k' = if k' = k then v else amountAt d k' := by
  simp only [amountAt, Dict.get?_set]
  split <;> rfl

@[simp] theorem amountAt_erase :
    amountAt (d.erase k) k' = if k' = k then 0 else amountAt d k' := by
  simp only [amountAt, Dict.get?_erase]
  split <;> rfl

@[simp] theorem membersAt_set (v : Finset String) :
    membersAt (m.set k v) k' = if k' = k then v else membersAt m k' := by
  simp only [membersAt, Dict.get?_set]
  split <;> rfl

@[simp] theorem membersAt_erase :
    membersAt (m.erase k) k' = if k' = k then ∅ else membersAt m k' := by
  simp only [membersAt, Dict.get?_erase]
  split <;> rfl

@[simp] theorem membersAt_discard (member : String) :
    membersAt (SectorBook.discard m k member) k' =
      if k' = k then (membersAt m k).erase member else membersAt m k' := by
  unfold SectorBook.discard
  cases hk : m.get? k with
  | none =>
    by_cases h : k' = k
    · simp [membersAt, h, hk]
    · simp [h]
  | some members =>
    rw [membersAt_set]
    simp [membersAt, hk]

end Tables

namespace SectorBook

variable {c : CaseMap} {b : SectorBook} {values : Dict String Money} {ticker i s : String}
  {item : Recommendation} {cost : ℚ}

@[simp] theorem issuerFor_upper : b.issuerFor c (c.upper s) = b.issuerFor c s :=
  issuerKey_upper c b.issuerMap s

/-! ### What each operation does to the issuers -/

@[simp] theorem seed_issuerMap : (b.seed c values ticker).issuerMap = b.issuerMap := by
  simp only [seed]
  split <;> rfl

@[simp] theorem seed_issuerFor :
    (b.seed c values ticker).issuerFor c s = b.issuerFor c s := by
  simp only [issuerFor, seed_issuerMap]

theorem seed_tickerValues :
    (b.seed c values ticker).tickerValues = b.tickerValues.set ticker
      (heldValue c values ticker) := by
  simp only [seed]
  split <;> rfl

theorem seed_issuerTickers :
    membersAt (b.seed c values ticker).issuerTickers i =
      if b.issuerFor c ticker = i then insert ticker (membersAt b.issuerTickers i)
      else membersAt b.issuerTickers i := by
  have h : (b.seed c values ticker).issuerTickers = b.issuerTickers.set (b.issuerFor c ticker)
      (insert ticker (membersAt b.issuerTickers (b.issuerFor c ticker))) := by
    simp only [seed]
    split <;> rfl
  rw [h, membersAt_set]
  by_cases hi : b.issuerFor c ticker = i
  · simp [hi]
  · simp [hi, Ne.symm hi]

theorem seed_issuerValue :
    (b.seed c values ticker).issuerValue i =
      b.issuerValue i + if b.issuerFor c ticker = i then heldValue c values ticker else 0 := by
  have h : (b.seed c values ticker).issuerValues = b.issuerValues.set (b.issuerFor c ticker)
      (amountAt b.issuerValues (b.issuerFor c ticker) + heldValue c values ticker) := by
    simp only [seed]
    split <;> rfl
  rw [issuerValue, h, amountAt_set, issuerValue]
  by_cases hi : b.issuerFor c ticker = i
  · simp [hi]
  · simp [hi, Ne.symm hi]

@[simp] theorem record_issuerMap : (b.record c item cost).issuerMap = b.issuerMap := by
  simp only [record]
  split <;> rfl

theorem record_issuerValue :
    (b.record c item cost).issuerValue i =
      b.issuerValue i + if b.issuerFor c item.ticker = i then cost else 0 := by
  have h : (b.record c item cost).issuerValues = b.issuerValues.set (b.issuerFor c item.ticker)
      (amountAt b.issuerValues (b.issuerFor c item.ticker) + cost) := by
    simp only [record, issuerFor_upper]
    split <;> rfl
  rw [issuerValue, h, amountAt_set, issuerValue]
  by_cases hi : b.issuerFor c item.ticker = i
  · simp [hi]
  · simp [hi, Ne.symm hi]

/-- Only the sector tables change after the symbol is dropped. -/
theorem recordExit_tables :
    (b.recordExit c ticker).issuerMap = b.issuerMap ∧
      (b.recordExit c ticker).tickerValues = b.tickerValues.erase (c.upper ticker) ∧
      (b.recordExit c ticker).issuerTickers = (b.dropTicker c (c.upper ticker)).issuerTickers ∧
      (b.recordExit c ticker).issuerValues = (b.dropTicker c (c.upper ticker)).issuerValues := by
  simp only [recordExit]
  split <;> exact ⟨rfl, rfl, rfl, rfl⟩

@[simp] theorem recordExit_issuerMap : (b.recordExit c ticker).issuerMap = b.issuerMap :=
  recordExit_tables.1

@[simp] theorem recordExit_issuerFor :
    (b.recordExit c ticker).issuerFor c s = b.issuerFor c s := by
  simp only [issuerFor, recordExit_issuerMap]

theorem recordExit_tickerValues :
    (b.recordExit c ticker).tickerValues = b.tickerValues.erase (c.upper ticker) :=
  recordExit_tables.2.1

theorem recordExit_issuerTickers :
    membersAt (b.recordExit c ticker).issuerTickers i =
      if b.issuerFor c ticker = i then (membersAt b.issuerTickers i).erase (c.upper ticker)
      else membersAt b.issuerTickers i := by
  rw [recordExit_tables.2.2.1]
  simp only [dropTicker, issuerFor_upper]
  by_cases hi : b.issuerFor c ticker = i
  · subst hi
    split
    · rename_i hempty
      simpa using (of_decide_eq_true hempty).symm
    · simp
  · split <;> simp [Ne.symm hi]

/-- The exposure of the issuer falls by the value of the ticker; the last ticker takes the issuer
with it. -/
theorem recordExit_issuerValue :
    (b.recordExit c ticker).issuerValue i =
      if b.issuerFor c ticker = i then
        if (membersAt b.issuerTickers i).erase (c.upper ticker) = ∅ then 0
        else max 0 (b.issuerValue i - amountAt b.tickerValues (c.upper ticker))
      else b.issuerValue i := by
  rw [issuerValue, recordExit_tables.2.2.2]
  simp only [dropTicker, issuerFor_upper, membersAt_discard, if_true, decide_eq_true_eq,
    issuerValue]
  by_cases hi : b.issuerFor c ticker = i
  · subst hi
    split <;> simp
  · split <;> simp [Ne.symm hi]

/-! ### The book of what is held -/

/-- The book shows the tickers in `live`, each at its `value`, and nothing else. -/
structure Shows (c : CaseMap) (b : SectorBook) (live : Finset String) (value : String → ℚ) :
    Prop where
  tickers : ∀ s ∈ live, b.tickerValues.get? s = some (value s)
  others : ∀ s ∉ live, b.tickerValues.get? s = none
  members : ∀ i, membersAt b.issuerTickers i = live.filter fun s => b.issuerFor c s = i
  values : ∀ i, b.issuerValue i = ∑ s ∈ live with b.issuerFor c s = i, value s

theorem Shows.seed {live : Finset String} (h : b.Shows c live (heldValue c values))
    (hnew : ticker ∉ live) :
    (b.seed c values ticker).Shows c (insert ticker live) (heldValue c values) where
  tickers s hs := by
    rw [seed_tickerValues, Dict.get?_set]
    split
    · rename_i heq
      rw [heq]
    · rename_i hne
      exact h.tickers s ((Finset.mem_insert.mp hs).resolve_left hne)
  others s hs := by
    rw [Finset.mem_insert, not_or] at hs
    rw [seed_tickerValues, Dict.get?_set_ne _ _ hs.1]
    exact h.others s hs.2
  members i := by
    simp only [seed_issuerTickers, h.members, seed_issuerFor, Finset.filter_insert]
  values i := by
    simp only [seed_issuerValue, h.values, seed_issuerFor, Finset.filter_insert]
    by_cases hi : b.issuerFor c ticker = i
    · rw [if_pos hi, if_pos hi, Finset.sum_insert (by simp [hnew]), add_comm]
    · rw [if_neg hi, if_neg hi, add_zero]

theorem Shows.seedAll {live : Finset String} (h : b.Shows c live (heldValue c values))
    {tickers : List String} (hnodup : tickers.Nodup) (hnew : ∀ s ∈ tickers, s ∉ live) :
    (tickers.foldl (SectorBook.seed c values) b).Shows c (live ∪ tickers.toFinset)
      (heldValue c values) ∧
      (tickers.foldl (SectorBook.seed c values) b).issuerMap = b.issuerMap := by
  induction tickers generalizing b live with
  | nil => simpa using h
  | cons t tickers ih =>
    obtain ⟨ht, htickers⟩ := List.nodup_cons.mp hnodup
    have hrest : ∀ s ∈ tickers, s ∉ insert t live := by
      intro s hs
      rw [Finset.mem_insert, not_or]
      exact ⟨fun heq => ht (heq ▸ hs), hnew s (List.mem_cons_of_mem t hs)⟩
    obtain ⟨hshows, hmap⟩ := ih (h.seed (hnew t List.mem_cons_self)) htickers hrest
    refine ⟨?_, hmap.trans seed_issuerMap⟩
    rw [List.foldl_cons, List.toFinset_cons, Finset.union_insert, ← Finset.insert_union]
    exact hshows

theorem init_shows (c : CaseMap) (sectors : Dict String String) (held : List String)
    (values : Dict String Money) (issuerMap : Dict String String) :
    (init c sectors held values issuerMap).Shows c (held.map c.upper).toFinset
      (heldValue c values) ∧ (init c sectors held values issuerMap).issuerMap = issuerMap := by
  have hempty : (⟨.ofList (sectors.entries.map fun p => (c.upper p.1, p.2)), issuerMap,
      .empty, .empty, .empty, .empty, .empty, .empty⟩ : SectorBook).Shows c ∅
        (heldValue c values) :=
    ⟨by simp, by simp, by simp [membersAt], by simp [issuerValue, amountAt]⟩
  have h := hempty.seedAll (List.nodup_dedup (held.map c.upper)) (by simp)
  have hset : (held.map c.upper).dedup.toFinset = (held.map c.upper).toFinset := by
    ext t
    simp
  rw [Finset.empty_union, hset] at h
  exact h

theorem Shows.recordExit {live : Finset String} {value : String → ℚ} (h : b.Shows c live value)
    (hnonneg : ∀ s, 0 ≤ value s) (ticker : String) :
    (b.recordExit c ticker).Shows c (live.erase (c.upper ticker)) value where
  tickers s hs := by
    obtain ⟨hne, hs⟩ := Finset.mem_erase.mp hs
    rw [recordExit_tickerValues, Dict.get?_erase, if_neg hne]
    exact h.tickers s hs
  others s hs := by
    rw [recordExit_tickerValues, Dict.get?_erase]
    split
    · rfl
    · rename_i hne
      exact h.others s fun hlive => hs (Finset.mem_erase.mpr ⟨hne, hlive⟩)
  members i := by
    simp only [recordExit_issuerTickers, h.members, recordExit_issuerFor, Finset.filter_erase]
    split
    · rfl
    · rename_i hi
      rw [Finset.erase_eq_of_notMem]
      simp [hi]
  values i := by
    simp only [recordExit_issuerValue, h.members, h.values, recordExit_issuerFor,
      Finset.filter_erase]
    by_cases hi : b.issuerFor c ticker = i
    · rw [if_pos hi]
      split
      · rename_i hempty
        rw [hempty, Finset.sum_empty]
      · by_cases hlive : c.upper ticker ∈ live
        · have hmem : c.upper ticker ∈ live.filter fun s => b.issuerFor c s = i := by
            simp [hlive, hi]
          have hsum := Finset.add_sum_erase _ value hmem
          have hrest : 0 ≤ ∑ s ∈ (live.filter fun s => b.issuerFor c s = i).erase
              (c.upper ticker), value s := Finset.sum_nonneg fun s _ => hnonneg s
          rw [amountAt, h.tickers _ hlive, Option.getD_some, max_eq_right (by linarith)]
          linarith
        · rw [amountAt, h.others _ hlive, Option.getD_none, sub_zero,
            Finset.erase_eq_of_notMem (by simp [hlive]),
            max_eq_right (Finset.sum_nonneg fun s _ => hnonneg s)]
    · rw [if_neg hi, Finset.erase_eq_of_notMem]
      simp [hi]

end SectorBook

end TradingAgents.PortfolioManager
