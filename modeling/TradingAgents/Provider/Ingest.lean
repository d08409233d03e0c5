import TradingAgents.ProofKit.Sample
import TradingAgents.Provider.Integrity

/-! The ingest of a universe in one request and in chunks.  Each chunk goes through the provider's
own integrity check, and the reassembled batch is checked again as a whole. -/

namespace TradingAgents.Provider

open ProofKit.Sample (average average_perm)

/-- Whether a note names a degraded optional feed. -/
def isDegradedFeedNote (note : String) : Bool :=
  "_degraded".toList.isSuffixOf (note.toList.takeWhile (· ≠ ':'))

/-- A note that a source leaves about one of its optional feeds. -/
structure FeedNote where
  text : String
  degraded : isDegradedFeedNote text = true

structure Window where
  start : ℤ
  stop : ℤ
  start_le : start ≤ stop

/-- The market-data source: the bars of some tickers, or an error, and the notes about its optional
feeds. -/
structure Source (ε : Type) where
  fetchOhlcv : List String → Window → Except ε (List FetchedBar)
  feedNotes : List String → List FeedNote

/-- The bars and the quality of a delivery. -/
structure MarketData where
  bars : List FetchedBar
  quality : DataQualityTrace

/-- The notes of the optional feeds beside those of the bars; they change nothing else. -/
def withFeedNotes (quality : DataQualityTrace) (notes : List FeedNote) : DataQualityTrace :=
  if notes.isEmpty then quality
  else { quality with notes := (quality.notes ++ notes.map FeedNote.text).eraseDups }

section

variable {ε : Type} (arith : MoveArithmetic) (source : Source ε) (holidays : Holidays)
  (settings : ProviderSettings) (window : Window)

/-- The provider's answer to one request. -/
def getMarketData (tickers : List String) : MarketData :=
  match source.fetchOhlcv tickers window with
  | .ok bars =>
    let (bars, quality) := validateBars arith holidays settings tickers bars window.stop
    ⟨bars, withFeedNotes quality (source.feedNotes tickers)⟩
  | .error _ =>
    ⟨[], withFeedNotes (degradedQuality tickers "source_unavailable") (source.feedNotes tickers)⟩

/-- Consecutive parts of a universe, of at most `size` tickers each. -/
def chunks (requested : List String) (size : Nat) : List (List String) :=
  let step := max 1 size
  (List.range ((requested.length + step - 1) / step)).map fun i =>
    (requested.drop (i * step)).take step

/-- The notes of the parts about optional feeds. -/
def optionalNotes (parts : List MarketData) : List String :=
  ((parts.flatMap fun part => part.quality.notes).filter isDegradedFeedNote).eraseDups

/-- The parts as one batch, checked on the whole universe. -/
def mergeParts (parts : List MarketData) (requested : List String) : MarketData :=
  let bars := parts.flatMap MarketData.bars
  let (validated, ohlcv) := validateBars arith holidays settings requested bars window.stop
  ⟨validated, { ohlcv with notes := (ohlcv.notes ++ optionalNotes parts).eraseDups }⟩

/-- The ingest of a universe in one request; an empty universe is a no-op. -/
def ingestOnce (requested : List String) : Option MarketData :=
  if requested.isEmpty then none
  else some (getMarketData arith source holidays settings window requested)

def ingestChunked (requested : List String) (size : Nat) : Option MarketData :=
  if requested.isEmpty then none
  else
    let parts := (chunks requested size).map (getMarketData arith source holidays settings window)
    some (mergeParts arith holidays settings window parts requested)

end

/-- The source answers every request for tickers of the universe, and a ticker's bars do not depend
on what else is requested. -/
def AnswersEach {ε : Type} (source : Source ε) (window : Window) (requested : List String)
    (answer : String → List FetchedBar) : Prop :=
  ∀ tickers, tickers ⊆ requested → ∃ bars, source.fetchOhlcv tickers window = .ok bars ∧
    ∀ ticker, series bars ticker = if ticker ∈ tickers then answer ticker else []

/-- The verdict on the bars: a trace without the notes of the optional feeds. -/
def DataQualityTrace.ohlcv (quality : DataQualityTrace) : DataQualityTrace :=
  { quality with notes := quality.notes.filter fun note => !isDegradedFeedNote note }

/-- Two ingests deliver the same bars of each ticker with the same verdict. -/
def SameDelivery : Option MarketData → Option MarketData → Prop
  | none, none => True
  | some a, some b => SameSeries a.bars b.bars ∧ a.quality.ohlcv = b.quality.ohlcv
  | _, _ => False

/-! ### Chunks -/

theorem flatten_take_drop (l : List String) (step n : Nat) :
    ((List.range n).map fun i => (l.drop (i * step)).take step).flatten = l.take (n * step) := by
  induction n with
  | zero => simp
  | succ n ih =>
    rw [List.range_succ, List.map_append, List.flatten_append, ih, Nat.succ_mul, List.take_add]
    simp

theorem flatten_chunks (requested : List String) (size : Nat) :
    (chunks requested size).flatten = requested := by
  rw [chunks, flatten_take_drop, List.take_of_length_le]
  generalize hstep : max 1 size = step
  have hpos : 0 < step := by omega
  have hlt := Nat.lt_mul_div_succ (requested.length + step - 1) hpos
  rw [Nat.mul_add, Nat.mul_one, Nat.mul_comm] at hlt
  omega

theorem subset_of_chunk {requested chunk : List String} {size : Nat}
    (h : chunk ∈ chunks requested size) : chunk ⊆ requested := fun _ ht =>
  flatten_chunks requested size ▸ List.mem_flatten.mpr ⟨chunk, h, ht⟩

/-! ### One check -/

section Check

variable {arith : MoveArithmetic} {holidays : Holidays} {settings : ProviderSettings}
  {tickers : List String} {bars : List FetchedBar} {windowEnd : ℤ}

theorem barFault_note {bar : FetchedBar} {note : String} (h : barFault bar = some note) :
    isDegradedFeedNote note = false ∧ note ≠ "stale_or_missing_tickers" := by
  unfold barFault at h
  simp only at h
  split at h
  · cases h; decide
  · split at h
    · cases h; decide
    · split at h
      · cases h; decide
      · cases h

theorem isValid_iff {bar : FetchedBar} : isValid bar = true ↔ barFault bar = none := by
  rw [isValid, Option.isNone_iff_eq_none]

theorem filterMap_barFault (h : ∀ bar ∈ bars, isValid bar = true) : bars.filterMap barFault = [] :=
  List.filterMap_eq_nil_iff.mpr fun bar hbar => isValid_iff.mp (h bar hbar)

theorem series_filter (p : FetchedBar → Bool) (ticker : String) :
    series (bars.filter p) ticker = (series bars ticker).filter p := by
  simp only [series, List.filter_filter]
  exact List.filter_congr fun bar _ => Bool.and_comm _ _

/-- The delivered bars of a ticker: its valid ones, unless the ticker is excluded. -/
theorem series_validateBars (ticker : String) :
    series (validateBars arith holidays settings tickers bars windowEnd).1 ticker =
      if ticker ∈ anomalousTickers arith (bars.filter isValid) settings then []
      else (series bars ticker).filter isValid := by
  rw [validateBars]
  simp only
  rw [series_filter, series_filter]
  split
  · rename_i hmem
    refine List.filter_eq_nil_iff.mpr fun bar hbar => ?_
    have ht : bar.ticker = ticker := by
      simpa using (List.mem_filter.mp (List.mem_of_mem_filter hbar)).2
    simp [ht, hmem]
  · rename_i hmem
    refine List.filter_eq_self.mpr fun bar hbar => ?_
    have ht : bar.ticker = ticker := by
      simpa using (List.mem_filter.mp (List.mem_of_mem_filter hbar)).2
    simp [ht, hmem]

theorem anomalous_of_validateBars :
    (validateBars arith holidays settings tickers bars windowEnd).2.anomalousTickers =
      anomalousTickers arith (bars.filter isValid) settings := rfl

/-- A check that finds only valid bars and excludes nothing delivers them as they are. -/
theorem validateBars_clean (hvalid : ∀ bar ∈ bars, isValid bar = true)
    (hnone : anomalousTickers arith bars settings = []) :
    (validateBars arith holidays settings tickers bars windowEnd).1 = bars := by
  have hbars : bars.filter isValid = bars := List.filter_eq_self.mpr hvalid
  rw [validateBars]
  simp [hbars, hnone]

variable (arith holidays settings tickers windowEnd)

/-- The notes on valid bars tell of stale tickers alone. -/
theorem notes_of_valid (hvalid : ∀ bar ∈ bars, isValid bar = true) :
    (validateBars arith holidays settings tickers bars windowEnd).2.notes =
      if staleTickers holidays tickers bars windowEnd settings.maxStalenessDays = [] then []
      else ["stale_or_missing_tickers"] := by
  have hbars : bars.filter isValid = bars := List.filter_eq_self.mpr hvalid
  simp only [validateBars, hbars, filterMap_barFault hvalid, List.nil_append]
  split <;> simp [List.eraseDups_cons]

/-- The check of valid bars depends on each ticker's bars only. -/
theorem validateBars_congr {bars' : List FetchedBar} (h : SameSeries bars bars')
    (hvalid : ∀ bar ∈ bars, isValid bar = true) :
    SameSeries (validateBars arith holidays settings tickers bars windowEnd).1
        (validateBars arith holidays settings tickers bars' windowEnd).1 ∧
      (validateBars arith holidays settings tickers bars windowEnd).2 =
        (validateBars arith holidays settings tickers bars' windowEnd).2 := by
  have hvalid' : ∀ bar ∈ bars', isValid bar = true := fun bar hbar =>
    hvalid bar (h.perm.mem_iff.mpr hbar)
  have hbars : bars.filter isValid = bars := List.filter_eq_self.mpr hvalid
  have hbars' : bars'.filter isValid = bars' := List.filter_eq_self.mpr hvalid'
  have hanomalous := h.anomalousTickers_eq arith settings
  have hstale := h.staleTickers_eq holidays tickers windowEnd settings.maxStalenessDays
  have hdelivered : SameSeries (validateBars arith holidays settings tickers bars windowEnd).1
      (validateBars arith holidays settings tickers bars' windowEnd).1 := by
    intro ticker
    rw [series_validateBars, series_validateBars, hbars, hbars', hanomalous, h ticker]
  refine ⟨hdelivered, ?_⟩
  have hreturned := hdelivered.perm
  simp only [validateBars, hbars, hbars', filterMap_barFault hvalid, filterMap_barFault hvalid',
    hanomalous, hstale] at hreturned ⊢
  have hmem : ∀ ticker, ticker ∈ (bars.filter fun bar =>
      decide (bar.ticker ∉ anomalousTickers arith bars' settings)).map BarOf.ticker ↔
      ticker ∈ (bars'.filter fun bar =>
        decide (bar.ticker ∉ anomalousTickers arith bars' settings)).map BarOf.ticker :=
      fun ticker => (hreturned.map BarOf.ticker).mem_iff
  simp only [hmem]

end Check

/-! ### Feed notes -/

section Notes

variable {quality : DataQualityTrace} {notes : List FeedNote} {extra : List String}

theorem mem_ohlcv_notes (hextra : ∀ note ∈ extra, isDegradedFeedNote note = true) {note : String} :
    note ∈ DataQualityTrace.notes (DataQualityTrace.ohlcv
        { quality with notes := (quality.notes ++ extra).eraseDups }) ↔
      note ∈ quality.notes ∧ isDegradedFeedNote note = false := by
  simp only [DataQualityTrace.ohlcv, List.mem_filter, List.mem_eraseDups, List.mem_append,
    Bool.not_eq_true']
  refine and_congr_left fun hnote => or_iff_left fun hmem => ?_
  rw [hextra note hmem] at hnote
  cases hnote

/-- Notes of optional feeds leave the verdict on the bars as it is. -/
theorem ohlcv_extra (hextra : ∀ note ∈ extra, isDegradedFeedNote note = true)
    (hdistinct : quality.notes.eraseDups = quality.notes)
    (hown : ∀ note ∈ quality.notes, isDegradedFeedNote note = false) :
    ({ quality with notes := (quality.notes ++ extra).eraseDups } : DataQualityTrace).ohlcv =
      quality := by
  have hkeep : quality.notes.filter (fun note => !isDegradedFeedNote note) = quality.notes :=
    List.filter_eq_self.mpr fun note hnote => by simp [hown note hnote]
  have hdrop : (extra.removeAll quality.notes).eraseDups.filter
      (fun note => !isDegradedFeedNote note) = [] := by
    refine List.filter_eq_nil_iff.mpr fun note hnote => ?_
    have hmem := List.mem_of_mem_filter (List.mem_eraseDups.mp hnote)
    simp [hextra note hmem]
  rw [DataQualityTrace.ohlcv]
  simp only [List.eraseDups_append, hdistinct, List.filter_append, hkeep, hdrop, List.append_nil]

theorem degraded_texts (notes : List FeedNote) :
    ∀ note ∈ notes.map FeedNote.text, isDegradedFeedNote note = true := by
  intro note hnote
  obtain ⟨feedNote, -, rfl⟩ := List.mem_map.mp hnote
  exact feedNote.degraded

theorem degraded_optionalNotes (parts : List MarketData) :
    ∀ note ∈ optionalNotes parts, isDegradedFeedNote note = true := fun _ hnote =>
  (List.mem_filter.mp (List.mem_eraseDups.mp hnote)).2

theorem mem_withFeedNotes {note : String} : note ∈ (withFeedNotes quality notes).ohlcv.notes ↔
    note ∈ quality.notes ∧ isDegradedFeedNote note = false := by
  unfold withFeedNotes
  split
  · simp [DataQualityTrace.ohlcv]
  · exact mem_ohlcv_notes (degraded_texts notes)

theorem withFeedNotes_ohlcv (hdistinct : quality.notes.eraseDups = quality.notes)
    (hown : ∀ note ∈ quality.notes, isDegradedFeedNote note = false) :
    (withFeedNotes quality notes).ohlcv = quality := by
  unfold withFeedNotes
  split
  · have h := ohlcv_extra (List.forall_mem_nil _) hdistinct hown
    rwa [List.append_nil, hdistinct] at h
  · exact ohlcv_extra (degraded_texts notes) hdistinct hown

theorem withFeedNotes_anomalous :
    (withFeedNotes quality notes).anomalousTickers = quality.anomalousTickers := by
  unfold withFeedNotes
  split <;> rfl

end Notes

/-! ### The two ingests -/

section Ingests

variable {ε : Type} {arith : MoveArithmetic} {source : Source ε} {holidays : Holidays}
  {settings : ProviderSettings} {window : Window} {requested : List String}
  {answer : String → List FetchedBar} {size : Nat}

/-- Every answered bar is valid, and no chunk on its own has an outlier. -/
structure CleanChunks (arith : MoveArithmetic) (settings : ProviderSettings)
    (requested : List String) (answer : String → List FetchedBar) (size : Nat) : Prop where
  valid : ∀ ticker ∈ requested, ∀ bar ∈ answer ticker, isValid bar = true
  kept : ∀ chunk ∈ chunks requested size,
    anomalousTickers arith (chunk.flatMap answer) settings = []

theorem getMarketData_of {tickers : List String} {bars : List FetchedBar}
    (h : source.fetchOhlcv tickers window = .ok bars) :
    getMarketData arith source holidays settings window tickers =
      ⟨(validateBars arith holidays settings tickers bars window.stop).1,
        withFeedNotes (validateBars arith holidays settings tickers bars window.stop).2
          (source.feedNotes tickers)⟩ := by
  rw [getMarketData, h]

theorem AnswersEach.ticker_eq (h : AnswersEach source window requested answer) {ticker : String}
    (ht : ticker ∈ requested) {bar : FetchedBar} (hbar : bar ∈ answer ticker) :
    bar.ticker = ticker := by
  obtain ⟨bars, -, hseries⟩ := h requested (List.Subset.refl _)
  have hown := hseries ticker
  rw [if_pos ht] at hown
  rw [← hown, series] at hbar
  simpa using (List.mem_filter.mp hbar).2

/-- The bars of a request are those of its tickers together. -/
theorem AnswersEach.sameSeries (h : AnswersEach source window requested answer)
    {tickers : List String} (hsub : tickers ⊆ requested) (hdistinct : tickers.Nodup)
    {bars : List FetchedBar}
    (hbars : ∀ ticker, series bars ticker = if ticker ∈ tickers then answer ticker else []) :
    SameSeries bars (tickers.flatMap answer) := by
  intro ticker
  have hown : ∀ l : List String, l ⊆ requested → l.Nodup → series (l.flatMap answer) ticker =
      if ticker ∈ l then answer ticker else [] := by
    intro l
    induction l with
    | nil => intros; rfl
    | cons t l ih =>
      intro hl hnodup
      have ht := hl List.mem_cons_self
      rw [List.nodup_cons] at hnodup
      have hrest := ih (fun s hs => hl (List.mem_cons_of_mem t hs)) hnodup.2
      rw [List.flatMap_cons, series, List.filter_append]
      by_cases heq : ticker = t
      · subst heq
        rw [show (l.flatMap answer).filter (fun bar => bar.ticker = ticker) =
          series (l.flatMap answer) ticker from rfl, hrest, if_neg hnodup.1, List.append_nil,
          if_pos List.mem_cons_self]
        exact List.filter_eq_self.mpr fun bar hbar => by simpa using h.ticker_eq ht hbar
      · have hnone : (answer t).filter (fun bar => bar.ticker = ticker) = [] := by
          refine List.filter_eq_nil_iff.mpr fun bar hbar => ?_
          rw [h.ticker_eq ht hbar]
          simpa using Ne.symm heq
        rw [hnone, List.nil_append, show (l.flatMap answer).filter
          (fun bar => bar.ticker = ticker) =
          series (l.flatMap answer) ticker from rfl, hrest]
        simp [heq]
  rw [hbars, hown tickers hsub hdistinct]

theorem eq_of_chunks (hdistinct : requested.Nodup) {chunk chunk' : List String} {ticker : String}
    (hc : chunk ∈ chunks requested size) (hc' : chunk' ∈ chunks requested size)
    (ht : ticker ∈ chunk) (ht' : ticker ∈ chunk') : chunk = chunk' := by
  rw [← flatten_chunks requested size, List.nodup_flatten] at hdistinct
  have hsymm : Std.Symm (List.Disjoint (α := String)) := ⟨fun _ _ h => h.symm⟩
  by_contra hne
  exact hdistinct.2.forall hc hc' hne ht ht'

theorem nodup_chunk (hdistinct : requested.Nodup) {chunk : List String}
    (hc : chunk ∈ chunks requested size) : chunk.Nodup := by
  rw [← flatten_chunks requested size, List.nodup_flatten] at hdistinct
  exact hdistinct.1 chunk hc

theorem series_flatMap {α : Type} (l : List α) (f : α → List FetchedBar) (ticker : String) :
    series (l.flatMap f) ticker = l.flatMap fun a => series (f a) ticker := by
  rw [series, List.filter_flatMap]
  rfl

theorem anomalous_series {bars : List FetchedBar} {ticker : String}
    (h : ticker ∈ anomalousTickers arith bars settings) : series bars ticker ≠ [] :=
  ((mem_anomalousTickers _ _ _ _).mp h).1

variable (holidays settings)

/-- The bars that a chunk's part keeps of a ticker. -/
theorem series_part (h : AnswersEach source window requested answer) {chunk : List String}
    (hc : chunk ∈ chunks requested size) : ∃ bars : List FetchedBar,
      (∀ ticker, series bars ticker = if ticker ∈ chunk then answer ticker else []) ∧
      getMarketData arith source holidays settings window chunk =
        ⟨(validateBars arith holidays settings chunk bars window.stop).1,
          withFeedNotes (validateBars arith holidays settings chunk bars window.stop).2
            (source.feedNotes chunk)⟩ := by
  obtain ⟨bars, hbars, hseries⟩ := h chunk (subset_of_chunk hc)
  exact ⟨bars, hseries, getMarketData_of hbars⟩

variable {holidays settings}

/-- A chunk of valid answers is fetched as these answers. -/
theorem chunk_bars (h : AnswersEach source window requested answer)
    (hvalid : ∀ ticker ∈ requested, ∀ bar ∈ answer ticker, isValid bar = true)
    {chunk : List String} (hsub : chunk ⊆ requested) (hnodup : chunk.Nodup) {bars : List FetchedBar}
    (hseries : ∀ ticker, series bars ticker = if ticker ∈ chunk then answer ticker else []) :
    SameSeries bars (chunk.flatMap answer) ∧ ∀ bar ∈ bars, isValid bar = true := by
  have hsame := h.sameSeries hsub hnodup hseries
  refine ⟨hsame, fun bar hbar => ?_⟩
  obtain ⟨ticker, ht, hbar⟩ := List.mem_flatMap.mp (hsame.perm.mem_iff.mp hbar)
  exact hvalid ticker (hsub ht) bar hbar

/-- The bars of the parts together. -/
def partBars (arith : MoveArithmetic) (source : Source ε) (holidays : Holidays)
    (settings : ProviderSettings) (window : Window) (requested : List String) (size : Nat) :
    List FetchedBar :=
  ((chunks requested size).map (getMarketData arith source holidays settings window)).flatMap
    MarketData.bars

theorem mergeParts_eq :
    let parts := (chunks requested size).map (getMarketData arith source holidays settings window)
    let checked := validateBars arith holidays settings requested
      (partBars arith source holidays settings window requested size) window.stop
    mergeParts arith holidays settings window parts requested =
      ⟨checked.1, { checked.2 with notes := (checked.2.notes ++ optionalNotes parts).eraseDups }⟩ :=
  rfl

theorem series_partBars (ticker : String) :
    series (partBars arith source holidays settings window requested size) ticker =
      (chunks requested size).flatMap fun chunk =>
        series (getMarketData arith source holidays settings window chunk).bars ticker := by
  rw [partBars, List.flatMap_map, series_flatMap]

theorem valid_partBars (h : AnswersEach source window requested answer) :
    ∀ bar ∈ partBars arith source holidays settings window requested size, isValid bar = true := by
  intro bar hbar
  rw [partBars, List.flatMap_map, List.mem_flatMap] at hbar
  obtain ⟨chunk, hc, hbar⟩ := hbar
  obtain ⟨bars, -, hpart⟩ := series_part holidays settings h hc
  rw [hpart] at hbar
  exact (List.mem_filter.mp (List.mem_of_mem_filter hbar)).2

variable (holidays settings)

/-- A ticker that its chunk excludes is missing from the reassembled batch. -/
theorem partBars_excluded (h : AnswersEach source window requested answer)
    (hdistinct : requested.Nodup)
    (hvalid : ∀ ticker ∈ requested, ∀ bar ∈ answer ticker, isValid bar = true)
    {chunk : List String} (hc : chunk ∈ chunks requested size) {ticker : String}
    (ht : ticker ∈ anomalousTickers arith (chunk.flatMap answer) settings) :
    ticker ∈ chunk ∧ answer ticker ≠ [] ∧
      series (partBars arith source holidays settings window requested size) ticker = [] := by
  have hsub := subset_of_chunk hc
  have hnodup := nodup_chunk hdistinct hc
  have hmem : ticker ∈ chunk ∧ answer ticker ≠ [] := by
    obtain ⟨bars, -, hseries⟩ := h chunk hsub
    have hne := anomalous_series ht
    rw [← h.sameSeries hsub hnodup hseries ticker, hseries ticker] at hne
    split at hne
    · rename_i hmem
      exact ⟨hmem, hne⟩
    · exact absurd rfl hne
  refine ⟨hmem.1, hmem.2, ?_⟩
  rw [series_partBars]
  refine List.flatMap_eq_nil_iff.mpr fun chunk' hc' => ?_
  obtain ⟨bars, hseries, hpart⟩ := series_part holidays settings h hc'
  rw [hpart, series_validateBars]
  by_cases ht' : ticker ∈ chunk'
  · cases eq_of_chunks hdistinct hc hc' hmem.1 ht'
    obtain ⟨hsame, hall⟩ := chunk_bars h hvalid hsub hnodup hseries
    rw [List.filter_eq_self.mpr hall, hsame.anomalousTickers_eq arith settings, if_pos ht]
  · rw [hseries, if_neg ht']
    simp

/-- With clean chunks the parts together are the bars of the whole universe. -/
theorem partBars_clean (h : AnswersEach source window requested answer)
    (hdistinct : requested.Nodup) (hclean : CleanChunks arith settings requested answer size) :
    SameSeries (partBars arith source holidays settings window requested size)
      (requested.flatMap answer) := by
  intro ticker
  have hparts : ∀ chunk ∈ chunks requested size,
      series (getMarketData arith source holidays settings window chunk).bars ticker =
        series (chunk.flatMap answer) ticker := by
    intro chunk hc
    obtain ⟨bars, hseries, hpart⟩ := series_part holidays settings h hc
    obtain ⟨hsame, hall⟩ := chunk_bars h hclean.valid (subset_of_chunk hc)
      (nodup_chunk hdistinct hc) hseries
    rw [hpart, validateBars_clean hall
      ((hsame.anomalousTickers_eq arith settings).trans (hclean.kept chunk hc)), hsame ticker]
  rw [series_partBars, List.flatMap_congr hparts, ← series_flatMap]
  conv_rhs => rw [← flatten_chunks requested size, ← List.flatMap_id, List.flatMap_assoc]
  rfl

variable {holidays settings}

/-- An ingest that delivers the same as in one request has valid answers only: the note of an
invalid bar would be missing from the reassembled batch. -/
theorem valid_of_sameDelivery (h : AnswersEach source window requested answer)
    (hsame : (getMarketData arith source holidays settings window requested).quality.ohlcv =
      (mergeParts arith holidays settings window ((chunks requested size).map
        (getMarketData arith source holidays settings window)) requested).quality.ohlcv) :
    ∀ ticker ∈ requested, ∀ bar ∈ answer ticker, isValid bar = true := by
  intro ticker ht bar hbar
  rw [isValid_iff]
  by_contra hfault
  obtain ⟨note, hnote⟩ := Option.ne_none_iff_exists'.mp hfault
  obtain ⟨hown, hstale⟩ := barFault_note hnote
  obtain ⟨bars, hbars, hseries⟩ := h requested (List.Subset.refl _)
  have honce : note ∈
      (getMarketData arith source holidays settings window requested).quality.ohlcv.notes := by
    rw [getMarketData_of hbars, mem_withFeedNotes]
    refine ⟨List.mem_eraseDups.mpr (List.mem_append_left _ ?_), hown⟩
    have hmem : bar ∈ series bars ticker := by rw [hseries, if_pos ht]; exact hbar
    exact List.mem_filterMap.mpr ⟨bar, List.mem_of_mem_filter hmem, hnote⟩
  rw [hsame, mergeParts_eq] at honce
  have hmerged := ((mem_ohlcv_notes (degraded_optionalNotes _)).mp honce).1
  rw [notes_of_valid _ _ _ _ _ (valid_partBars h)] at hmerged
  split at hmerged
  · cases hmerged
  · exact hstale (List.mem_singleton.mp hmerged)

/-- An ingest that delivers the same as in one request excludes no ticker in a chunk: what a chunk
excludes is missing from the reassembled batch and is not counted as anomalous there. -/
theorem kept_of_sameDelivery (h : AnswersEach source window requested answer)
    (hdistinct : requested.Nodup)
    (hvalid : ∀ ticker ∈ requested, ∀ bar ∈ answer ticker, isValid bar = true)
    (hsame : SameDelivery (some (getMarketData arith source holidays settings window requested))
      (some (mergeParts arith holidays settings window ((chunks requested size).map
        (getMarketData arith source holidays settings window)) requested))) :
    ∀ chunk ∈ chunks requested size,
      anomalousTickers arith (chunk.flatMap answer) settings = [] := by
  intro chunk hc
  rw [List.eq_nil_iff_forall_not_mem]
  intro ticker ht
  obtain ⟨hmem, hne, hgone⟩ := partBars_excluded holidays settings h hdistinct hvalid hc ht
  obtain ⟨hbars, hquality⟩ := hsame
  obtain ⟨bars, hfetch, hseries⟩ := h requested (List.Subset.refl _)
  obtain ⟨-, hall⟩ := chunk_bars h hvalid (List.Subset.refl _) hdistinct hseries
  have hmissing : ticker ∉ anomalousTickers arith ((partBars arith source holidays settings window
      requested size).filter isValid) settings := by
    intro hanomalous
    have hnone := anomalous_series hanomalous
    rw [series_filter, hgone] at hnone
    exact hnone rfl
  have hdelivered := hbars ticker
  have hanomalous := congrArg DataQualityTrace.anomalousTickers hquality
  simp only [DataQualityTrace.ohlcv, mergeParts_eq, getMarketData_of hfetch,
    withFeedNotes_anomalous,
    anomalous_of_validateBars] at hdelivered hanomalous
  rw [series_validateBars, series_validateBars, hanomalous, if_neg hmissing, if_neg hmissing, hgone,
    List.filter_nil, List.filter_eq_nil_iff] at hdelivered
  obtain ⟨bar, hbar⟩ := List.exists_mem_of_ne_nil _ hne
  have hin : bar ∈ series bars ticker := by
    rw [hseries, if_pos (subset_of_chunk hc hmem)]
    exact hbar
  exact hdelivered bar hin (hvalid ticker (subset_of_chunk hc hmem) bar hbar)

/-- With clean chunks both ingests deliver the same. -/
theorem sameDelivery_of_clean (h : AnswersEach source window requested answer)
    (hdistinct : requested.Nodup) (hclean : CleanChunks arith settings requested answer size) :
    SameDelivery (some (getMarketData arith source holidays settings window requested))
      (some (mergeParts arith holidays settings window ((chunks requested size).map
        (getMarketData arith source holidays settings window)) requested)) := by
  obtain ⟨bars, hfetch, hseries⟩ := h requested (List.Subset.refl _)
  obtain ⟨hone, hall⟩ := chunk_bars h hclean.valid (List.Subset.refl _) hdistinct hseries
  have hmany := partBars_clean holidays settings h hdistinct hclean
  obtain ⟨hbars, hquality⟩ := validateBars_congr arith holidays settings requested window.stop
    (fun ticker => (hone ticker).trans (hmany ticker).symm) hall
  have hnotes := notes_of_valid arith holidays settings requested window.stop hall
  have hdistinctNotes :
    (validateBars arith holidays settings requested bars window.stop).2.notes.eraseDups =
      (validateBars arith holidays settings requested bars window.stop).2.notes := by
    rw [hnotes]
    split <;> simp [List.eraseDups_cons]
  have hown : ∀ note ∈ (validateBars arith holidays settings requested bars window.stop).2.notes,
      isDegradedFeedNote note = false := by
    intro note hnote
    rw [hnotes] at hnote
    split at hnote
    · cases hnote
    · rw [List.mem_singleton.mp hnote]; decide
  rw [mergeParts_eq, getMarketData_of hfetch]
  refine ⟨hbars, ?_⟩
  rw [withFeedNotes_ohlcv hdistinctNotes hown]
  simp only [← hquality]
  exact (ohlcv_extra (degraded_optionalNotes _) hdistinctNotes hown).symm

end Ingests

/-- For distinct tickers and a source that answers each on its own, an ingest in chunks delivers the
same bars and the same verdict as an ingest in one request exactly when every bar is valid and no
chunk excludes a ticker on its own; whatever the arithmetic of the moves. -/
theorem chunked_ingest_agrees_iff {ε : Type} (arith : MoveArithmetic) {source : Source ε}
    (holidays : Holidays) (settings : ProviderSettings) {window : Window} {requested : List String}
    {answer : String → List FetchedBar} (size : Nat) (hdistinct : requested.Nodup)
    (h : AnswersEach source window requested answer) :
    SameDelivery (ingestOnce arith source holidays settings window requested)
        (ingestChunked arith source holidays settings window requested size) ↔
      CleanChunks arith settings requested answer size := by
  unfold ingestOnce ingestChunked
  cases requested with
  | nil =>
    refine iff_of_true trivial ⟨by simp, fun chunk hc => ?_⟩
    rw [List.subset_nil.mp (subset_of_chunk hc)]
    rfl
  | cons first rest =>
    simp only [List.isEmpty_cons, Bool.false_eq_true, if_false]
    constructor
    · intro hsame
      have hvalid := valid_of_sameDelivery h hsame.2
      exact ⟨hvalid, kept_of_sameDelivery h hdistinct hvalid hsame⟩
    · exact sameDelivery_of_clean h hdistinct

/-- The moves in exact numbers; both sides of the comparison with the deviation are squared. -/
def exactMoves : MoveArithmetic where
  Float := ℚ
  move bar := (bar.close.untopD 0 - bar.openPrice.untopD 0) / bar.openPrice.untopD 0
  pstdev values := average (values.map fun value => (value - average values) ^ 2)
  mean := average
  isZero sigma := sigma = 0
  beyond maxSigma sigma center value := maxSigma ^ 2 * sigma < (value - center) ^ 2
  pstdev_perm values values' h := by
    rw [average_perm h]
    exact average_perm (h.map _)
  mean_perm _ _ := average_perm

/-- The source of fixed bars. -/
def fixtureSource (bars : List FetchedBar) : Source Unit where
  fetchOhlcv tickers window := .ok (bars.filter fun bar => bar.ticker ∈ tickers ∧
    window.start ≤ bar.barDate ∧ bar.barDate ≤ window.stop)
  feedNotes _ := []

def fixtureAnswer (bars : List FetchedBar) (window : Window) : String → List FetchedBar :=
  series (bars.filter fun bar => window.start ≤ bar.barDate ∧ bar.barDate ≤ window.stop)

theorem fixture_answersEach (bars : List FetchedBar) (window : Window) (requested : List String) :
    AnswersEach (fixtureSource bars) window requested (fixtureAnswer bars window) := by
  intro tickers _
  refine ⟨_, rfl, fun ticker => ?_⟩
  simp only [fixtureAnswer, series, List.filter_filter]
  split
  · rename_i hmem
    refine List.filter_congr fun bar _ => ?_
    by_cases ht : bar.ticker = ticker <;> simp [ht, hmem]
  · rename_i hmem
    refine List.filter_eq_nil_iff.mpr fun bar _ => ?_
    by_cases ht : bar.ticker = ticker <;> simp [ht, hmem]

/-- A bar of ten shares at one price, with a given high. -/
def plainBar (ticker : String) (barDate : ℤ) (high : ℚ) (hhigh : 0 < high) : FetchedBar where
  ticker := ticker
  barDate := barDate
  openPrice := (100 : ℚ)
  high := high
  low := (100 : ℚ)
  close := (100 : ℚ)
  volume := 10
  open_admitted := by norm_cast
  high_admitted := by exact_mod_cast hhigh
  low_admitted := by norm_cast
  close_admitted := by norm_cast

def septemberWindow : Window := ⟨739130, 739138, by decide⟩

def cleanBars : List FetchedBar := [
  plainBar "ACME" 739138 101 (by norm_num),
  plainBar "COST" 739138 102 (by norm_num)]

theorem chunked_ingest_agrees_clean : SameDelivery
    (ingestOnce exactMoves (fixtureSource cleanBars) [] {} septemberWindow ["ACME", "COST"])
    (ingestChunked exactMoves (fixtureSource cleanBars) [] {} septemberWindow ["ACME", "COST"]
      1) := by
  refine (chunked_ingest_agrees_iff exactMoves [] {} 1 (by decide)
    (fixture_answersEach cleanBars septemberWindow ["ACME", "COST"])).mpr ⟨?_, ?_⟩
  · decide +kernel
  · decide +kernel

/-- A bar whose high lies under its close, before a sound one. -/
def staleHighBars : List FetchedBar := [
  plainBar "ACME" 739137 99 (by norm_num),
  plainBar "ACME" 739138 101 (by norm_num)]

/-- One request falls back for the rejected bar, and the ingest in chunks forgets it. -/
theorem chunked_ingest_forgets : ¬ ∀ (arith : MoveArithmetic) (source : Source Unit)
    (holidays : Holidays) (settings : ProviderSettings) (window : Window) (requested : List String)
    (answer : String → List FetchedBar) (size : Nat), requested.Nodup → 0 < size →
    AnswersEach source window requested answer →
    SameDelivery (ingestOnce arith source holidays settings window requested)
      (ingestChunked arith source holidays settings window requested size) := by
  intro hall
  have hsame := hall exactMoves (fixtureSource staleHighBars) [] {} septemberWindow ["ACME"] _ 1
    (by decide) (by decide) (fixture_answersEach staleHighBars septemberWindow ["ACME"])
  have honce : (ingestOnce exactMoves (fixtureSource staleHighBars) [] {} septemberWindow
      ["ACME"]).all (fun market => market.quality.usedFallback) = true := by decide +kernel
  have hchunked : (ingestChunked exactMoves (fixtureSource staleHighBars) [] {} septemberWindow
      ["ACME"] 1).any (fun market => !market.quality.usedFallback) = true := by decide +kernel
  unfold ingestOnce ingestChunked at *
  simp only [List.isEmpty_cons, Bool.false_eq_true, if_false, Option.all_some,
    Option.any_some] at hsame honce hchunked
  have hfallback := congrArg DataQualityTrace.usedFallback hsame.2
  simp only [DataQualityTrace.ohlcv] at hfallback
  rw [honce] at hfallback
  rw [← hfallback] at hchunked
  cases hchunked

end TradingAgents.Provider
