import TradingAgents.PortfolioManager.RiskBounds

/-! The book that the updates of a batch leave against the book of the positions they leave.  The
exposures agree.  The issuers of a sector agree unless an exit takes the last symbol of an issuer
under one label while the issuer is still held under another: the issuer then stays under the label
it has left. -/

namespace TradingAgents.PortfolioManager

open ProofKit ProofKit.Fallible

/-- A list split by a key adds up to the part of it whose key is in the set. -/
theorem sum_by_key {α : Type} (key : α → String) (cost : α → ℚ) (F : Finset String) (l : List α) :
    ∑ t ∈ F, ((l.filter fun a => decide (key a = t)).map cost).sum =
      ((l.filter fun a => decide (key a ∈ F)).map cost).sum := by
  induction l with
  | nil => simp
  | cons a l ih =>
    have hsplit : ∀ t, (((a :: l).filter fun a => decide (key a = t)).map cost).sum =
        (if key a = t then cost a else 0) +
          ((l.filter fun a => decide (key a = t)).map cost).sum := by
      intro t
      by_cases ht : key a = t <;> simp [ht]
    rw [Finset.sum_congr rfl fun t _ => hsplit t, Finset.sum_add_distrib, ih, Finset.sum_ite_eq]
    by_cases ha : key a ∈ F <;> simp [ha]

namespace SectorBook

variable {c : CaseMap} {b : SectorBook} {values : Dict String Money} {ticker i s t : String}
  {item : Recommendation} {cost : ℚ} {live : Finset String} {value : String → ℚ}

/-- Held plus tentative exposure of one sector. -/
def sectorValue (b : SectorBook) (sector : String) : ℚ :=
  amountAt b.heldValues sector + amountAt b.batchValues sector

/-- Two books with the same issuers in each sector and the same value of each issuer and sector. -/
structure Same (b b' : SectorBook) : Prop where
  issuers : ∀ s, membersAt b.sectorIssuers s = membersAt b'.sectorIssuers s
  issuerValue : ∀ i, b.issuerValue i = b'.issuerValue i
  sectorValue : ∀ s, b.sectorValue s = b'.sectorValue s

/-! ### What each operation does to the sectors -/

@[simp] theorem sector_upper : b.sector c (c.upper t) = b.sector c t := by
  rw [sector, sector, c.upper_upper]

@[simp] theorem seed_sector : (b.seed c values ticker).sector c t = b.sector c t := by
  simp only [seed]
  split <;> rfl

@[simp] theorem record_sector : (b.record c item cost).sector c t = b.sector c t := by
  simp only [record]
  split <;> rfl

@[simp] theorem record_issuerFor : (b.record c item cost).issuerFor c t = b.issuerFor c t := by
  simp only [issuerFor, record_issuerMap]

@[simp] theorem recordExit_sector : (b.recordExit c ticker).sector c t = b.sector c t := by
  simp only [recordExit]
  split <;> rfl

/-- A change of one sector's entry, or of none. -/
theorem seed_sectorTables :
    membersAt (b.seed c values ticker).sectorIssuers s =
      (if b.sector c ticker = some s then insert (b.issuerFor c ticker)
        (membersAt b.sectorIssuers s)
      else membersAt b.sectorIssuers s) ∧
    amountAt (b.seed c values ticker).heldValues s = amountAt b.heldValues s +
      (if b.sector c ticker = some s then heldValue c values ticker else 0) ∧
    (b.seed c values ticker).batchValues = b.batchValues := by
  simp only [seed]
  split
  · rename_i hnone
    have hs : b.sector c ticker = none := hnone
    simp [hs]
  · rename_i sector hsome
    have hs : b.sector c ticker = some sector := hsome
    by_cases heq : sector = s
    · subst heq
      simp [hs]
    · simp [hs, heq, Ne.symm heq]

theorem record_sectorTables :
    membersAt (b.record c item cost).sectorIssuers s =
      (if b.sector c item.ticker = some s then
        insert (b.issuerFor c item.ticker) (membersAt b.sectorIssuers s)
      else membersAt b.sectorIssuers s) ∧
    (b.record c item cost).sectorValue s =
      b.sectorValue s + if b.sector c item.ticker = some s then cost else 0 := by
  simp only [record, sectorValue, issuerFor_upper]
  split
  · rename_i hnone
    have hs : b.sector c item.ticker = none := by rw [← sector_upper]; exact hnone
    simp [hs]
  · rename_i sector hsome
    have hs : b.sector c item.ticker = some sector := by rw [← sector_upper]; exact hsome
    by_cases heq : sector = s
    · subst heq
      simp [hs, add_assoc]
    · simp [hs, heq, Ne.symm heq]

@[simp] theorem dropTicker_heldValues (symbol : String) :
    (b.dropTicker c symbol).heldValues = b.heldValues := rfl

@[simp] theorem dropTicker_batchValues (symbol : String) :
    (b.dropTicker c symbol).batchValues = b.batchValues := rfl

@[simp] theorem dropTicker_sectorIssuers (symbol : String) :
    (b.dropTicker c symbol).sectorIssuers = b.sectorIssuers := rfl

/-- The issuer has left the table of the tickers exactly if no ticker of it is left. -/
theorem dropTicker_gone (symbol : String) :
    (b.dropTicker c symbol).issuerTickers.get? (b.issuerFor c symbol) = none ↔
      (membersAt b.issuerTickers (b.issuerFor c symbol)).erase symbol = ∅ := by
  simp only [dropTicker, membersAt_discard, if_true, decide_eq_true_eq]
  split
  · rename_i hempty
    simp [hempty]
  · rename_i hne
    refine iff_of_false (fun hnone => hne ?_) hne
    have hmembers : membersAt (discard b.issuerTickers (b.issuerFor c symbol) symbol)
        (b.issuerFor c symbol) = ∅ := by
      rw [membersAt, hnone]
      rfl
    rwa [membersAt_discard, if_pos rfl] at hmembers

/-- Only the sector of the ticker changes; the issuer leaves it with its last ticker. -/
theorem recordExit_sectorTables :
    membersAt (b.recordExit c ticker).sectorIssuers s =
      (if b.sector c ticker = some s ∧
          (membersAt b.issuerTickers (b.issuerFor c ticker)).erase (c.upper ticker) = ∅ then
        (membersAt b.sectorIssuers s).erase (b.issuerFor c ticker)
      else membersAt b.sectorIssuers s) ∧
    amountAt (b.recordExit c ticker).heldValues s =
      (if b.sector c ticker = some s then
        max 0 (amountAt b.heldValues s - amountAt b.tickerValues (c.upper ticker))
      else amountAt b.heldValues s) ∧
    (b.recordExit c ticker).batchValues = b.batchValues := by
  have hsector : (b.dropTicker c (c.upper ticker)).sector c (c.upper ticker) =
    b.sector c ticker := by
    rw [sector, sector, c.upper_upper]
    rfl
  have hgone := dropTicker_gone (c := c) (b := b) (c.upper ticker)
  rw [issuerFor_upper] at hgone
  simp only [recordExit, issuerFor_upper]
  rw [hsector]
  cases hs : b.sector c ticker with
  | none => simp
  | some sector =>
    simp only [hgone, Option.some.injEq]
    by_cases heq : sector = s
    · subst heq
      split
      · rename_i hlast
        simp [hlast]
      · rename_i hlast
        simp [hlast]
    · split <;> simp [heq, Ne.symm heq]

/-! ### The labels of what is held -/

/-- The book shows under each sector the tickers in `live` that bear its label, and nothing else. -/
structure Labels (c : CaseMap) (b : SectorBook) (live : Finset String) (value : String → ℚ) :
    Prop where
  issuers : ∀ s, membersAt b.sectorIssuers s =
    (live.filter fun t => b.sector c t = some s).image (b.issuerFor c)
  held : ∀ s, amountAt b.heldValues s = ∑ t ∈ live with b.sector c t = some s, value t
  batch : ∀ s, amountAt b.batchValues s = 0

theorem Labels.seed (h : b.Labels c live (heldValue c values)) (hnew : ticker ∉ live) :
    (b.seed c values ticker).Labels c (insert ticker live) (heldValue c values) where
  issuers s := by
    rw [seed_sectorTables.1, h.issuers]
    simp only [seed_sector, Finset.filter_insert]
    have himage : (b.seed c values ticker).issuerFor c = b.issuerFor c := by
      funext t
      rw [seed_issuerFor]
    rw [himage]
    split <;> simp
  held s := by
    rw [seed_sectorTables.2.1, h.held]
    simp only [seed_sector, Finset.filter_insert]
    by_cases hs : b.sector c ticker = some s
    · rw [if_pos hs, if_pos hs, Finset.sum_insert (by simp [hnew]), add_comm]
    · rw [if_neg hs, if_neg hs, add_zero]
  batch s := by
    have hbatch : (b.seed c values ticker).batchValues = b.batchValues :=
      (seed_sectorTables (s := s)).2.2
    rw [hbatch, h.batch]

theorem Labels.seedAll (h : b.Labels c live (heldValue c values)) {tickers : List String}
    (hnodup : tickers.Nodup) (hnew : ∀ s ∈ tickers, s ∉ live) :
    (tickers.foldl (SectorBook.seed c values) b).Labels c (live ∪ tickers.toFinset)
      (heldValue c values) ∧
    ∀ t, (tickers.foldl (SectorBook.seed c values) b).sector c t = b.sector c t := by
  induction tickers generalizing b live with
  | nil => simpa using h
  | cons u tickers ih =>
    obtain ⟨hu, htickers⟩ := List.nodup_cons.mp hnodup
    have hrest : ∀ s ∈ tickers, s ∉ insert u live := by
      intro s hs
      rw [Finset.mem_insert, not_or]
      exact ⟨fun heq => hu (heq ▸ hs), hnew s (List.mem_cons_of_mem u hs)⟩
    obtain ⟨hlabels, hsector⟩ := ih (h.seed (hnew u List.mem_cons_self)) htickers hrest
    refine ⟨?_, fun t => (hsector t).trans seed_sector⟩
    rw [List.foldl_cons, List.toFinset_cons, Finset.union_insert, ← Finset.insert_union]
    exact hlabels

/-- The label of a ticker in the table that the book is given. -/
def labelOf (c : CaseMap) (sectors : Dict String String) (ticker : String) : Option String :=
  (Dict.ofList (sectors.entries.map fun p => (c.upper p.1, p.2))).get? (c.upper ticker)

theorem init_labels (c : CaseMap) (sectors : Dict String String) (held : List String)
    (values : Dict String Money) (issuerMap : Dict String String) :
    (init c sectors held values issuerMap).Labels c (held.map c.upper).toFinset
      (heldValue c values) ∧
    ∀ t, (init c sectors held values issuerMap).sector c t = labelOf c sectors t := by
  have hempty : (⟨.ofList (sectors.entries.map fun p => (c.upper p.1, p.2)), issuerMap,
      .empty, .empty, .empty, .empty, .empty, .empty⟩ : SectorBook).Labels c ∅
        (heldValue c values) :=
    ⟨by simp [membersAt], by simp [amountAt], by simp [amountAt]⟩
  have h := hempty.seedAll (List.nodup_dedup (held.map c.upper)) (by simp)
  have hset : (held.map c.upper).dedup.toFinset = (held.map c.upper).toFinset := by
    ext t
    simp
  rw [Finset.empty_union, hset] at h
  exact h

end SectorBook

namespace Evaluation

variable {e : Evaluation} {exits : List String} {buys : List (Recommendation × ℚ)} {i s t : String}

/-- The sector label of a ticker. -/
def sectorOf (e : Evaluation) (ticker : String) : Option String :=
  SectorBook.labelOf e.caseMap e.sectors ticker

/-- The book after the exits of a batch. -/
def afterExits (e : Evaluation) (exits : List String) : SectorBook :=
  exits.foldl (SectorBook.recordExit e.caseMap) e.initBook

/-- The book after the exits of a batch and then its buys, each with its cost. -/
def afterUpdates (e : Evaluation) (exits : List String) (buys : List (Recommendation × ℚ)) :
    SectorBook :=
  buys.foldl (fun b buy => b.record e.caseMap buy.1 buy.2) (e.afterExits exits)

/-! ### The positions a batch leaves

A position counts under its symbol: the book does not tell tickers apart that differ in case. -/

/-- The held symbols that no exit names. -/
def kept (e : Evaluation) (exits : List String) : Finset String :=
  e.openTickersOf.filter fun t => t ∉ exits.map e.caseMap.upper

def symbolsAfter (e : Evaluation) (exits : List String) (buys : List (Recommendation × ℚ)) :
    List String :=
  (e.portfolio.positions.keys.map e.caseMap.upper).filter (fun t => decide (t ∈ e.kept exits)) ++
    buys.map fun buy => e.caseMap.upper buy.1.ticker

/-- The value of a symbol: what is still held of it and what was bought. -/
def valueAfter (e : Evaluation) (exits : List String) (buys : List (Recommendation × ℚ))
    (symbol : String) : ℚ :=
  (if symbol ∈ e.kept exits then e.bookValue symbol else 0) +
    ((buys.filter fun buy => decide (e.caseMap.upper buy.1.ticker = symbol)).map Prod.snd).sum

/-- The book built afresh from the positions the batch leaves. -/
def rebuilt (e : Evaluation) (exits : List String) (buys : List (Recommendation × ℚ)) :
    SectorBook :=
  let symbols := e.symbolsAfter exits buys
  .init e.caseMap e.sectors symbols
    (.ofList (symbols.map fun symbol => (symbol, ⟨e.valueAfter exits buys symbol, "USD"⟩)))
    e.issuerMap

/-- At some exit under the label, no symbol of the issuer is held any more. -/
def Closes (e : Evaluation) (exits : List String) (issuer label : String) : Prop :=
  ∃ before ticker, before ++ [ticker] <+: exits ∧ e.issuerOf ticker = issuer ∧
    e.sectorOf ticker = some label ∧
    ∀ u ∈ e.openTickersOf, e.issuerOf u = issuer → u ∈ (before ++ [ticker]).map e.caseMap.upper

/-- Each label that an exited symbol bears is left with the issuer, or another symbol of the issuer
bears it afterwards. -/
def LabelsLeave (e : Evaluation) (exits : List String) (buys : List (Recommendation × ℚ)) : Prop :=
  ∀ t ∈ e.openTickersOf, t ∈ exits.map e.caseMap.upper → ∀ label, e.sectorOf t = some label →
    e.Closes exits (e.issuerOf t) label ∨
    ∃ u ∈ e.symbolsAfter exits buys, e.issuerOf u = e.issuerOf t ∧ e.sectorOf u = some label

/-! ### The exits -/

@[simp] theorem issuerOf_upper : e.issuerOf (e.caseMap.upper t) = e.issuerOf t :=
  issuerKey_upper e.caseMap e.issuerMap t

@[simp] theorem sectorOf_upper : e.sectorOf (e.caseMap.upper t) = e.sectorOf t := by
  rw [sectorOf, sectorOf, SectorBook.labelOf, SectorBook.labelOf, e.caseMap.upper_upper]

theorem kept_nil : e.kept [] = e.openTickersOf := by simp [kept]

theorem kept_append (ticker : String) :
    e.kept (exits ++ [ticker]) = (e.kept exits).erase (e.caseMap.upper ticker) := by
  ext u
  simp only [kept, List.map_append, List.map_cons, List.map_nil, List.mem_append,
    List.mem_singleton, not_or, Finset.mem_filter, Finset.mem_erase]
  exact ⟨fun ⟨hopen, hkept, hne⟩ => ⟨hne, hopen, hkept⟩,
    fun ⟨hne, hopen, hkept⟩ => ⟨hopen, hkept, hne⟩⟩

theorem Closes.append {ticker : String} :
    e.Closes (exits ++ [ticker]) i s ↔ e.Closes exits i s ∨
      e.issuerOf ticker = i ∧ e.sectorOf ticker = some s ∧
        (∀ u ∈ e.openTickersOf, e.issuerOf u = i →
          u ∈ (exits ++ [ticker]).map e.caseMap.upper) := by
  constructor
  · rintro ⟨before, u, hstart, hissuer, hsector, hall⟩
    rcases List.prefix_concat_iff.mp hstart with heq | hstart
    · obtain ⟨rfl, hu⟩ := List.append_inj' heq rfl
      cases hu
      exact .inr ⟨hissuer, hsector, hall⟩
    · exact .inl ⟨before, u, hstart, hissuer, hsector, hall⟩
  · rintro (⟨before, u, hstart, hrest⟩ | hlast)
    · exact ⟨before, u, hstart.trans (List.prefix_append _ _), hrest⟩
    · exact ⟨exits, ticker, List.prefix_rfl, hlast⟩

/-- What the exits of a batch leave of the book. -/
structure Exited (e : Evaluation) (exits : List String) (b : SectorBook) : Prop where
  issuerMap : b.issuerMap = e.issuerMap
  sector : b.sector e.caseMap = e.sectorOf
  shows : b.Shows e.caseMap (e.kept exits) e.bookValue
  held : ∀ s, amountAt b.heldValues s = ∑ t ∈ e.kept exits with e.sectorOf t = some s, e.bookValue t
  batch : ∀ s, amountAt b.batchValues s = 0
  issuers : ∀ s i, i ∈ membersAt b.sectorIssuers s ↔
    (∃ t ∈ e.openTickersOf, e.sectorOf t = some s ∧ e.issuerOf t = i) ∧ ¬ e.Closes exits i s

theorem Exited.issuerFor {b : SectorBook} (h : e.Exited exits b) :
    b.issuerFor e.caseMap = e.issuerOf := by
  funext t
  rw [SectorBook.issuerFor, h.issuerMap, issuerOf]

theorem initBook_exited (e : Evaluation) : e.Exited [] e.initBook := by
  obtain ⟨hshows, hmap⟩ := SectorBook.init_shows e.caseMap e.sectors e.portfolio.positions.keys
    e.portfolio.positionValues e.issuerMap
  obtain ⟨hlabels, hsector⟩ := SectorBook.init_labels e.caseMap e.sectors
    e.portfolio.positions.keys e.portfolio.positionValues e.issuerMap
  have hsector' : e.initBook.sector e.caseMap = e.sectorOf := funext hsector
  have hissuer : e.initBook.issuerFor e.caseMap = e.issuerOf := by
    funext t
    rw [SectorBook.issuerFor, initBook, hmap, issuerOf]
  refine ⟨hmap, hsector', by rw [kept_nil]; exact hshows, fun s => ?_, hlabels.batch, fun s i => ?_⟩
  · rw [kept_nil, ← hsector']
    exact hlabels.held s
  · have hnone : ¬ e.Closes [] i s := by
      rintro ⟨before, t, hstart, -⟩
      simp at hstart
    have hmembers : membersAt e.initBook.sectorIssuers s =
        (e.openTickersOf.filter fun t => e.initBook.sector e.caseMap t = some s).image
          (e.initBook.issuerFor e.caseMap) := hlabels.issuers s
    rw [hmembers, hsector', hissuer, Finset.mem_image]
    simp only [Finset.mem_filter, hnone, not_false_iff, and_true, and_assoc]

/-- One exit. -/
theorem Exited.exit {b : SectorBook} (h : e.Exited exits b) (ticker : String) :
    e.Exited (exits ++ [ticker]) (b.recordExit e.caseMap ticker) := by
  have hsector : b.sector e.caseMap = e.sectorOf := h.sector
  have hlast : (membersAt b.issuerTickers (e.issuerOf ticker)).erase (e.caseMap.upper ticker) = ∅ ↔
      ∀ u ∈ e.openTickersOf, e.issuerOf u = e.issuerOf ticker →
        u ∈ (exits ++ [ticker]).map e.caseMap.upper := by
    rw [h.shows.members, h.issuerFor, ← Finset.filter_erase, ← kept_append,
      Finset.filter_eq_empty_iff]
    simp only [kept, Finset.mem_filter]
    exact ⟨fun hempty u hu hi => by_contra fun hnot => hempty ⟨hu, hnot⟩ hi,
      fun hall u hu hi => hu.2 (hall u hu.1 hi)⟩
  refine ⟨SectorBook.recordExit_issuerMap.trans h.issuerMap, ?_, ?_, fun s => ?_, fun s => ?_,
    fun s i => ?_⟩
  · rw [← h.sector]
    exact funext fun t => SectorBook.recordExit_sector
  · rw [kept_append]
    exact h.shows.recordExit e.bookValue_nonneg ticker
  · rw [SectorBook.recordExit_sectorTables.2.1, hsector, h.held, kept_append, Finset.filter_erase]
    by_cases hs : e.sectorOf ticker = some s
    · rw [if_pos hs]
      by_cases hlive : e.caseMap.upper ticker ∈ e.kept exits
      · have hmem : e.caseMap.upper ticker ∈
            (e.kept exits).filter fun t => e.sectorOf t = some s := by simp [hlive, hs]
        have hsum := Finset.add_sum_erase _ e.bookValue hmem
        have hrest : 0 ≤ ∑ t ∈ ((e.kept exits).filter fun t => e.sectorOf t = some s).erase
            (e.caseMap.upper ticker), e.bookValue t :=
          Finset.sum_nonneg fun t _ => e.bookValue_nonneg t
        rw [amountAt, h.shows.tickers _ hlive, Option.getD_some, max_eq_right (by linarith)]
        linarith
      · rw [amountAt, h.shows.others _ hlive, Option.getD_none, sub_zero,
          Finset.erase_eq_of_notMem (by simp [hlive]),
          max_eq_right (Finset.sum_nonneg fun t _ => e.bookValue_nonneg t)]
    · rw [if_neg hs, Finset.erase_eq_of_notMem (by simp [hs])]
  · have hbatch : (b.recordExit e.caseMap ticker).batchValues = b.batchValues :=
      (SectorBook.recordExit_sectorTables (s := s)).2.2
    rw [hbatch, h.batch]
  · rw [SectorBook.recordExit_sectorTables.1, hsector, h.issuerFor, Closes.append]
    by_cases hs : e.sectorOf ticker = some s
    · by_cases hall : ∀ u ∈ e.openTickersOf, e.issuerOf u = e.issuerOf ticker →
          u ∈ (exits ++ [ticker]).map e.caseMap.upper
      · rw [if_pos ⟨hs, hlast.mpr hall⟩, Finset.mem_erase, h.issuers]
        by_cases hi : e.issuerOf ticker = i
        · subst hi
          exact iff_of_false (fun hin => hin.1 rfl) fun hin => hin.2 (.inr ⟨rfl, hs, hall⟩)
        · simp [hi, Ne.symm hi]
      · rw [if_neg fun hboth => hall (hlast.mp hboth.2), h.issuers]
        by_cases hi : e.issuerOf ticker = i
        · subst hi
          rw [or_iff_left fun hclosed => hall hclosed.2.2]
        · simp [hi]
    · rw [if_neg fun hboth => hs hboth.1, h.issuers]
      simp [hs]

theorem afterExits_exited (e : Evaluation) (exits : List String) :
    e.Exited exits (e.afterExits exits) := by
  induction exits using List.reverseRecOn with
  | nil => exact e.initBook_exited
  | append_singleton exits ticker ih =>
    rw [afterExits, List.foldl_append]
    exact ih.exit ticker

/-! ### The buys -/

/-- What the buys add to a book. -/
structure Bought (e : Evaluation) (buys : List (Recommendation × ℚ)) (before b : SectorBook) :
    Prop where
  issuerFor : b.issuerFor e.caseMap = e.issuerOf
  sector : b.sector e.caseMap = e.sectorOf
  issuerValue : ∀ i, b.issuerValue i = before.issuerValue i +
    ((buys.filter fun buy => decide (e.issuerOf buy.1.ticker = i)).map Prod.snd).sum
  sectorValue : ∀ s, b.sectorValue s = before.sectorValue s +
    ((buys.filter fun buy => decide (e.sectorOf buy.1.ticker = some s)).map Prod.snd).sum
  issuers : ∀ s i, i ∈ membersAt b.sectorIssuers s ↔ i ∈ membersAt before.sectorIssuers s ∨
    ∃ buy ∈ buys, e.sectorOf buy.1.ticker = some s ∧ e.issuerOf buy.1.ticker = i

/-- One buy. -/
theorem Bought.buy {before b : SectorBook} (h : e.Bought buys before b) (item : Recommendation)
    (cost : ℚ) : e.Bought (buys ++ [(item, cost)]) before (b.record e.caseMap item cost) where
  issuerFor := by
    rw [← h.issuerFor]
    exact funext fun t => SectorBook.record_issuerFor
  sector := by
    rw [← h.sector]
    exact funext fun t => SectorBook.record_sector
  issuerValue i := by
    rw [SectorBook.record_issuerValue, h.issuerFor, h.issuerValue, List.filter_append,
      List.map_append, List.sum_append, add_assoc]
    by_cases hi : e.issuerOf item.ticker = i <;> simp [hi]
  sectorValue s := by
    rw [SectorBook.record_sectorTables.2, h.sector, h.sectorValue, List.filter_append,
      List.map_append, List.sum_append, add_assoc]
    by_cases hs : e.sectorOf item.ticker = some s <;> simp [hs]
  issuers s i := by
    rw [SectorBook.record_sectorTables.1, h.sector, h.issuerFor]
    simp only [List.mem_append, List.mem_singleton, or_and_right, exists_or, exists_eq_left,
      ← or_assoc, ← h.issuers]
    by_cases hs : e.sectorOf item.ticker = some s
    · rw [if_pos hs, Finset.mem_insert]
      simp only [hs, true_and]
      exact or_comm.trans (or_congr_right eq_comm)
    · rw [if_neg hs]
      simp [hs]

theorem afterUpdates_bought (e : Evaluation) (exits : List String)
    (buys : List (Recommendation × ℚ)) :
    e.Bought buys (e.afterExits exits) (e.afterUpdates exits buys) := by
  have hexited := e.afterExits_exited exits
  induction buys using List.reverseRecOn with
  | nil => exact ⟨hexited.issuerFor, hexited.sector, by simp [afterUpdates], by simp [afterUpdates],
      by simp [afterUpdates]⟩
  | append_singleton buys buy ih =>
    rw [afterUpdates, List.foldl_append]
    exact ih.buy buy.1 buy.2

/-! ### The book built afresh -/

theorem mem_symbolsAfter : t ∈ e.symbolsAfter exits buys ↔
    t ∈ e.kept exits ∨ ∃ buy ∈ buys, e.caseMap.upper buy.1.ticker = t := by
  have hopen : t ∈ e.kept exits → t ∈ e.portfolio.positions.keys.map e.caseMap.upper :=
    fun h => List.mem_toFinset.mp (Finset.mem_filter.mp h).1
  simp only [symbolsAfter, List.mem_append, List.mem_filter, decide_eq_true_eq]
  rw [and_iff_right_of_imp hopen, List.mem_map]

theorem upper_of_symbolsAfter (h : t ∈ e.symbolsAfter exits buys) : e.caseMap.upper t = t := by
  rcases mem_symbolsAfter.mp h with hkept | ⟨buy, -, rfl⟩
  · obtain ⟨u, -, rfl⟩ := List.mem_map.mp (List.mem_toFinset.mp (Finset.mem_filter.mp hkept).1)
    exact e.caseMap.upper_upper u
  · exact e.caseMap.upper_upper _

/-- The values of the positions a batch leaves, over the symbols with a property: what is kept of
them and what was bought. -/
theorem sum_valueAfter (e : Evaluation) (exits : List String) (buys : List (Recommendation × ℚ))
    (p : String → Prop) [DecidablePred p] (hp : ∀ t, p (e.caseMap.upper t) ↔ p t) :
    ∑ t ∈ (e.symbolsAfter exits buys).toFinset with p t, e.valueAfter exits buys t =
      (∑ t ∈ e.kept exits with p t, e.bookValue t) +
        ((buys.filter fun buy => decide (p buy.1.ticker)).map Prod.snd).sum := by
  have hkept : ∑ t ∈ (e.symbolsAfter exits buys).toFinset with p t,
      (if t ∈ e.kept exits then e.bookValue t else 0) = ∑ t ∈ e.kept exits with p t,
        e.bookValue t := by
    rw [← Finset.sum_filter, Finset.filter_filter]
    apply Finset.sum_congr _ fun t _ => rfl
    ext t
    simp only [Finset.mem_filter, List.mem_toFinset, mem_symbolsAfter]
    tauto
  have hbought : ∀ buy ∈ buys, (e.caseMap.upper buy.1.ticker ∈
      (e.symbolsAfter exits buys).toFinset.filter p ↔ p buy.1.ticker) := by
    intro buy hbuy
    rw [Finset.mem_filter, List.mem_toFinset, mem_symbolsAfter, hp]
    exact and_iff_right (.inr ⟨buy, hbuy, rfl⟩)
  have hfilter : (buys.filter fun buy => decide (e.caseMap.upper buy.1.ticker ∈
      (e.symbolsAfter exits buys).toFinset.filter p)) =
      buys.filter fun buy => decide (p buy.1.ticker) :=
    List.filter_congr fun buy hbuy => decide_eq_decide.mpr (hbought buy hbuy)
  simp only [valueAfter]
  rw [Finset.sum_add_distrib, hkept, sum_by_key, hfilter]

theorem rebuilt_values (h : t ∈ e.symbolsAfter exits buys) :
    heldValue e.caseMap (.ofList ((e.symbolsAfter exits buys).map fun symbol =>
      (symbol, ⟨e.valueAfter exits buys symbol, "USD"⟩))) t = e.valueAfter exits buys t := by
  have hget := Dict.get?_ofList_map (fun symbol => (⟨e.valueAfter exits buys symbol, "USD"⟩ : Money))
    (e.symbolsAfter exits buys) t
  rw [if_pos h] at hget
  rw [heldValue, hget]

/-- What the book built afresh shows. -/
theorem rebuilt_shows (e : Evaluation) (exits : List String) (buys : List (Recommendation × ℚ)) :
    (∀ i, (e.rebuilt exits buys).issuerValue i = (∑ t ∈ e.kept exits with e.issuerOf t = i,
      e.bookValue t) + ((buys.filter fun buy => decide (e.issuerOf buy.1.ticker = i)).map
        Prod.snd).sum) ∧
    (∀ s, (e.rebuilt exits buys).sectorValue s = (∑ t ∈ e.kept exits with e.sectorOf t = some s,
      e.bookValue t) + ((buys.filter fun buy => decide (e.sectorOf buy.1.ticker = some s)).map
        Prod.snd).sum) ∧
    ∀ s i, i ∈ membersAt (e.rebuilt exits buys).sectorIssuers s ↔
      ∃ t ∈ e.symbolsAfter exits buys, e.sectorOf t = some s ∧ e.issuerOf t = i := by
  obtain ⟨hshows, hmap⟩ := SectorBook.init_shows e.caseMap e.sectors (e.symbolsAfter exits buys)
    (.ofList ((e.symbolsAfter exits buys).map fun symbol =>
      (symbol, ⟨e.valueAfter exits buys symbol, "USD"⟩))) e.issuerMap
  obtain ⟨hlabels, hsector⟩ := SectorBook.init_labels e.caseMap e.sectors
    (e.symbolsAfter exits buys) (.ofList ((e.symbolsAfter exits buys).map fun symbol =>
      (symbol, ⟨e.valueAfter exits buys symbol, "USD"⟩))) e.issuerMap
  have hsymbols : ((e.symbolsAfter exits buys).map e.caseMap.upper).toFinset =
      (e.symbolsAfter exits buys).toFinset := by
    rw [List.map_congr_left fun t ht => upper_of_symbolsAfter ht, List.map_id']
  have hsector' : (e.rebuilt exits buys).sector e.caseMap = e.sectorOf := funext hsector
  have hissuer : (e.rebuilt exits buys).issuerFor e.caseMap = e.issuerOf := by
    funext t
    rw [SectorBook.issuerFor, rebuilt, hmap, issuerOf]
  have hvalues : ∀ t ∈ (e.symbolsAfter exits buys).toFinset, heldValue e.caseMap
      (.ofList ((e.symbolsAfter exits buys).map fun symbol =>
        (symbol, ⟨e.valueAfter exits buys symbol, "USD"⟩))) t = e.valueAfter exits buys t :=
    fun t ht => rebuilt_values (List.mem_toFinset.mp ht)
  rw [hsymbols] at hshows hlabels
  refine ⟨fun i => ?_, fun s => ?_, fun s i => ?_⟩
  · rw [← e.sum_valueAfter exits buys (fun t => e.issuerOf t = i) fun t => by rw [issuerOf_upper]]
    refine (hshows.values i).trans ?_
    rw [← hissuer]
    exact Finset.sum_congr rfl fun t ht => hvalues t (Finset.mem_filter.mp ht).1
  · rw [← e.sum_valueAfter exits buys (fun t => e.sectorOf t = some s) fun t => by
      rw [sectorOf_upper]]
    have hheld := hlabels.held s
    have hbatch := hlabels.batch s
    rw [SectorBook.sectorValue, rebuilt, hheld, hbatch, add_zero, ← hsector']
    exact Finset.sum_congr rfl fun t ht => hvalues t (Finset.mem_filter.mp ht).1
  · have hmembers : membersAt (e.rebuilt exits buys).sectorIssuers s =
        ((e.symbolsAfter exits buys).toFinset.filter fun t =>
          (e.rebuilt exits buys).sector e.caseMap t = some s).image
          ((e.rebuilt exits buys).issuerFor e.caseMap) := hlabels.issuers s
    rw [hmembers, hsector', hissuer, Finset.mem_image]
    simp only [Finset.mem_filter, List.mem_toFinset, and_assoc]

/-- The issuers of the two books agree where the labels of what left have left with it. -/
theorem issuers_agree_iff (e : Evaluation) (exits : List String)
    (buys : List (Recommendation × ℚ)) :
    (∀ s i, i ∈ membersAt (e.afterUpdates exits buys).sectorIssuers s ↔
      i ∈ membersAt (e.rebuilt exits buys).sectorIssuers s) ↔ e.LabelsLeave exits buys := by
  have hbefore : ∀ s i, i ∈ membersAt (e.afterUpdates exits buys).sectorIssuers s ↔
      ((∃ t ∈ e.openTickersOf, e.sectorOf t = some s ∧ e.issuerOf t = i) ∧
        ¬ e.Closes exits i s) ∨
      ∃ buy ∈ buys, e.sectorOf buy.1.ticker = some s ∧ e.issuerOf buy.1.ticker = i := by
    intro s i
    rw [(e.afterUpdates_bought exits buys).issuers, (e.afterExits_exited exits).issuers]
  constructor
  · intro hagree t ht hexit label hlabel
    by_contra hnot
    obtain ⟨hopen, hnone⟩ := not_or.mp hnot
    have hin := (hbefore label (e.issuerOf t)).mpr (.inl ⟨⟨t, ht, hlabel, rfl⟩, hopen⟩)
    obtain ⟨u, hu, hsector, hissuer⟩ :=
      ((e.rebuilt_shows exits buys).2.2 _ _).mp ((hagree _ _).mp hin)
    exact hnone ⟨u, hu, hissuer, hsector⟩
  · intro hleave s i
    rw [hbefore, (e.rebuilt_shows exits buys).2.2]
    constructor
    · rintro (⟨⟨t, ht, hlabel, rfl⟩, hopen⟩ | ⟨buy, hbuy, hlabel, hissuer⟩)
      · by_cases hexit : t ∈ exits.map e.caseMap.upper
        · obtain ⟨u, hu, hissuer, hsector⟩ := (hleave t ht hexit s hlabel).resolve_left hopen
          exact ⟨u, hu, hsector, hissuer⟩
        · exact ⟨t, mem_symbolsAfter.mpr (.inl (Finset.mem_filter.mpr ⟨ht, hexit⟩)), hlabel, rfl⟩
      · exact ⟨_, mem_symbolsAfter.mpr (.inr ⟨buy, hbuy, rfl⟩), by rw [sectorOf_upper, hlabel],
          by rw [issuerOf_upper, hissuer]⟩
    · rintro ⟨t, ht, hlabel, rfl⟩
      rcases mem_symbolsAfter.mp ht with hkept | ⟨buy, hbuy, rfl⟩
      · obtain ⟨hopen, hkept⟩ := Finset.mem_filter.mp hkept
        -- a kept symbol is still of its issuer at every exit
        refine .inl ⟨⟨t, hopen, hlabel, rfl⟩, ?_⟩
        rintro ⟨before, u, hstart, -, -, hall⟩
        exact hkept ((hstart.sublist.map _).subset (hall t hopen rfl))
      · exact .inr ⟨buy, hbuy, by rwa [sectorOf_upper] at hlabel, by rw [issuerOf_upper]⟩

/-- The updates of a batch leave the book of the positions that are left exactly if the labels leave
with the symbols. -/
theorem afterUpdates_same_iff (e : Evaluation) (exits : List String)
    (buys : List (Recommendation × ℚ)) :
    (e.afterUpdates exits buys).Same (e.rebuilt exits buys) ↔ e.LabelsLeave exits buys := by
  rw [← issuers_agree_iff]
  have hexited := e.afterExits_exited exits
  have hbought := e.afterUpdates_bought exits buys
  constructor
  · intro hsame s i
    rw [hsame.issuers]
  · intro hagree
    refine ⟨fun s => Finset.ext (hagree s), fun i => ?_, fun s => ?_⟩
    · rw [hbought.issuerValue, hexited.shows.values, hexited.issuerFor,
        (e.rebuilt_shows exits buys).1]
    · rw [hbought.sectorValue, SectorBook.sectorValue, hexited.held, hexited.batch, add_zero,
        (e.rebuilt_shows exits buys).2.1]

/-! ### The evaluation -/

/-- The tickers of the approved sells. -/
def soldTickers (approved : List OrderIntent) : List String :=
  (approved.filter fun o => decide (o.action = .sell)).map fun o => o.ticker

/-- The exits and the buys, with their costs, that an evaluation performs. -/
structure Performs (e : Evaluation) (recommendations : List Recommendation) (exits : List String)
    (buys : List (Recommendation × ℚ)) (b : Batch) : Prop where
  run : (ordered recommendations).foldlM e.evaluateOne e.initBatch = .ok b
  exits : exits = soldTickers b.approved
  buys : (buys.map fun buy => (buy.1.ticker, buy.2)) =
    (entries b.approved).map fun o => (o.ticker, o.cost)

/-- The book of a batch is the initial one after the approved sells and then the approved buys. -/
def Updated (e : Evaluation) (b : Batch) : Prop :=
  ∃ buys, (buys.map fun buy : Recommendation × ℚ => (buy.1.ticker, buy.2)) =
      ((entries b.approved).map fun o => (o.ticker, o.cost)) ∧
    b.book = e.afterUpdates (soldTickers b.approved) buys

theorem Updated.step {b b' : Batch} {item : Recommendation} (h : e.Updated b)
    (hsells : item.action = .sell → ∀ o ∈ b.approved, o.action = .sell)
    (hpassed : e.Passed b item b') : e.Updated b' := by
  obtain ⟨buys, hbuys, hbook⟩ := h
  cases hpassed with
  | reject => exact ⟨buys, hbuys, hbook⟩
  | @exit o hitem hticker hsell =>
    have hnone : entries b.approved = [] := entries_of_sells (hsells hitem)
    rw [hnone] at hbuys
    have hnil : buys = [] := List.map_eq_nil_iff.mp hbuys
    subst hnil
    refine ⟨[], ?_, ?_⟩
    · simp only [Batch.exit, entries, List.filter_append]
      rw [← entries, hnone]
      simp [hsell]
    · show b.book.recordExit e.caseMap item.ticker = _
      rw [hbook]
      simp [Batch.exit, soldTickers, hsell, hticker, afterUpdates, afterExits]
  | @enter o _ _ hticker hbuy =>
    refine ⟨buys ++ [(item, o.cost)], ?_, ?_⟩
    · rw [List.map_append, hbuys, Batch.enter, entries_append_buy hbuy]
      simp [hticker]
    · show b.book.record e.caseMap item o.cost = _
      rw [hbook]
      simp [Batch.enter, soldTickers, hbuy, afterUpdates]

/-- An evaluation that ends performs its exits and then its buys on the book. -/
theorem evaluation_updates {recommendations : List Recommendation} {b : Batch}
    (h : (ordered recommendations).foldlM e.evaluateOne e.initBatch = .ok b) :
    ∃ exits buys, e.Performs recommendations exits buys b ∧
      b.book = e.afterUpdates exits buys := by
  have hsorted := ordered_sorted recommendations
  obtain ⟨-, buys, hbuys, hbook⟩ := foldlM_induction
    (P := fun done b => e.Kept done b ∧ e.Updated b) h
    ⟨e.initBatch_kept, [], rfl, rfl⟩ fun done item rest b b' hl hb hok => by
      rw [hl] at hsorted
      have hbefore : ∀ r ∈ done, orderKey r ≤ orderKey item := fun r hr =>
        (List.pairwise_append.mp hsorted).2.2 r hr item List.mem_cons_self
      refine ⟨evaluateOne_kept hb.1 hbefore hok, hb.2.step (fun hitem o ho => ?_)
        (passed_of_evaluateOne hok)⟩
      obtain ⟨r, hr, haction⟩ := hb.1.accounted.action ho
      rw [← haction]
      exact sell_of_le (hbefore r hr) hitem
  exact ⟨_, buys, ⟨h, rfl, hbuys⟩, hbook⟩

theorem no_values_nonneg : ∀ p ∈ (Dict.empty : Dict String Money).entries, 0 ≤ p.2.amount :=
  fun _ hp => absurd hp List.not_mem_nil

def classesHeld : PortfolioState where
  cash := ⟨1000, "USD"⟩
  positions := .ofList [("GOOG", 5), ("GOOGL", 5)]
  positionValues_nonneg := no_values_nonneg

/-- Two share classes of one issuer under two sector labels. -/
def twoClasses : Evaluation :=
  { evaluationOf classesHeld with
    prices := .ofList [("GOOG", ⟨10, "USD"⟩)]
    sectors := .ofList [("GOOG", "Communication"), ("GOOGL", "Media")]
    issuerMap := .ofList [("GOOG", "alphabet"), ("GOOGL", "alphabet")] }

def sellGoog : Recommendation := { buyAcme with ticker := "GOOG", action := .sell }

end Evaluation

end TradingAgents.PortfolioManager
