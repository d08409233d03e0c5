import TradingAgents.ProofKit.GateChain
import TradingAgents.ProofKit.Grouping
import TradingAgents.ProofKit.Tally
import TradingAgents.Scanner.Beta

/-! The filter chain of the scanner: every ticker of the universe is judged once, each drop is
counted under the filter that fired, and a bypass lets the dropped through without changing what is
recorded of them. -/

namespace TradingAgents.Scanner

open ProofKit
open GateChain (Answer Attested attest heard saying)

inductive ScanFilter where
  | missingHistory
  | minPrice
  | minAverageVolume
  | minRelativeStrength
  | maxBeta
  | earningsWindow
deriving DecidableEq, Repr

structure ScannerSettings where
  minRelativeStrength : ℚ := 2 / 100
  minPrice : ℚ := 5
  minAverageVolume : ℚ := 500000
  candidateCap : Nat := 5
  maxBeta : ℚ := 5 / 2
  betaMinObservations : Nat := 3
  earningsExclusionDays : Int := 5
  bypassScannerFilter : Bool := false
  strength_bounds : -1 ≤ minRelativeStrength ∧ minRelativeStrength ≤ 5 := by norm_num
  price_bounds : 1 / 100 ≤ minPrice ∧ minPrice ≤ 1000 := by norm_num
  volume_bounds : 0 ≤ minAverageVolume ∧ minAverageVolume ≤ 1000000000 := by norm_num
  cap_bounds : 1 ≤ candidateCap ∧ candidateCap ≤ 50 := by norm_num
  beta_bounds : 0 ≤ maxBeta ∧ maxBeta ≤ 10 := by norm_num
  observation_bounds : 2 ≤ betaMinObservations ∧ betaMinObservations ≤ 252 := by norm_num
  exclusion_bounds : 0 ≤ earningsExclusionDays ∧ earningsExclusionDays ≤ 60 := by norm_num

/-- What the filters judge a ticker on; a beta or the days to its earnings may be missing. -/
structure Features where
  latestClose : ℚ
  averageVolume : ℚ
  relativeStrength : ℚ
  beta : Option ℚ
  daysToEarnings : Option Int
deriving DecidableEq

/-- Whether a missing date of earnings proves that there are none inside the window. -/
def absenceIsAnAnswer (settings : ScannerSettings) (earningsHorizonDays : Option Int) : Bool :=
  match earningsHorizonDays with
  | none => false
  | some horizon => decide (horizon > settings.earningsExclusionDays)

/-- The filter that drops the ticker, if any, and the gates that it passed and skipped. -/
def evaluateFilters (features : Features) (settings : ScannerSettings)
    (earningsHorizonDays : Option Int) : Attested ScanFilter :=
  if features.latestClose < settings.minPrice then ⟨some .minPrice, [], []⟩
  else
    let passed := [ScanFilter.minPrice]
    if features.averageVolume < settings.minAverageVolume then
      ⟨some .minAverageVolume, passed, []⟩
    else
      let passed := passed ++ [.minAverageVolume]
      if features.relativeStrength < settings.minRelativeStrength then
        ⟨some .minRelativeStrength, passed, []⟩
      else
        let passed := passed ++ [.minRelativeStrength]
        let earnings (passed skipped : List ScanFilter) : Attested ScanFilter :=
          match features.daysToEarnings with
          | some days =>
            if 0 ≤ days ∧ days ≤ settings.earningsExclusionDays then
              ⟨some .earningsWindow, passed, skipped⟩
            else ⟨none, passed ++ [.earningsWindow], skipped⟩
          | none =>
            if absenceIsAnAnswer settings earningsHorizonDays then
              ⟨none, passed ++ [.earningsWindow], skipped⟩
            else ⟨none, passed, skipped ++ [.earningsWindow]⟩
        match features.beta with
        | some beta =>
          if beta > settings.maxBeta then ⟨some .maxBeta, passed, []⟩
          else earnings (passed ++ [.maxBeta]) []
        | none => earnings passed [.maxBeta]

/-- Whole days until the earnings of a ticker, negative where the known date is past. -/
def daysToEarnings (ticker : String) (earnings : Dict String Int) (asOf : Int) : Option Int :=
  (earnings.get? ticker).map fun nextDate => nextDate - asOf

/-- The features of a ticker, from its first bar and the bars after it. -/
def featuresOf (first : OHLCVBar) (rest : List OHLCVBar) (benchmarkBars : List OHLCVBar)
    (earnings : Dict String Int) (asOf : Int) (settings : ScannerSettings) : Features where
  latestClose := (rest.getLastD first).close
  averageVolume := (((first :: rest).map BarOf.volume).sum : ℚ) / (first :: rest).length
  relativeStrength := ((rest.getLastD first).close - first.close) / first.close
  beta := computeBeta (first :: rest) benchmarkBars settings.betaMinObservations
  daysToEarnings := daysToEarnings first.ticker earnings asOf

inductive Decision where
  | survived
  | dropped
deriving DecidableEq, Repr

/-- A ticker that passed the filters, or was bypassed through them. -/
structure Survivor where
  ticker : String
  survivedFilters : List ScanFilter
  skippedFilters : List ScanFilter
  metrics : Features
deriving DecidableEq

/-- The decision on a ticker, and the features it was judged on. -/
structure FilterVerdict where
  ticker : String
  decision : Decision
  filterFired : Option ScanFilter := none
  skippedFilters : List ScanFilter := []
  features : Option Features := none
  bypassed : Bool := false
deriving DecidableEq

structure FilterTrace where
  universeSize : Nat
  evaluated : Nat
  droppedByFilter : Dict ScanFilter Nat := .empty
  verdicts : List FilterVerdict := []

/-- What a scan has gathered so far. -/
structure Scan where
  drops : Dict ScanFilter Nat := .empty
  survivors : List Survivor := []
  verdicts : List FilterVerdict := []

/-- The market that a scan reads, and its settings. -/
structure ScanInput where
  bars : List OHLCVBar
  benchmarkBars : List OHLCVBar
  earnings : Dict String Int
  asOf : Int
  settings : ScannerSettings
  earningsHorizonDays : Option Int

def Scan.drop (scan : Scan) (filter : ScanFilter) : Scan :=
  { scan with drops := tally scan.drops filter }

def Scan.record (scan : Scan) (verdict : FilterVerdict) : Scan :=
  { scan with verdicts := scan.verdicts ++ [verdict] }

def Scan.keep (scan : Scan) (survivor : Survivor) : Scan :=
  { scan with survivors := scan.survivors ++ [survivor] }

def groupBars (bars : List OHLCVBar) : Dict String (List OHLCVBar) :=
  groupBy BarOf.ticker id bars

/-- The bars of a ticker by their dates. -/
def tickerBars (input : ScanInput) (ticker : String) : List OHLCVBar :=
  (((groupBars input.bars).get? ticker).getD []).insertionSort fun a b => a.barDate ≤ b.barDate

/-- One turn of the loop over the universe. -/
def scanTicker (input : ScanInput) (scan : Scan) (ticker : String) : Scan :=
  match tickerBars input ticker with
  | first :: second :: rest =>
    let features := featuresOf first (second :: rest) input.benchmarkBars input.earnings input.asOf
      input.settings
    let attested := evaluateFilters features input.settings input.earningsHorizonDays
    match attested.fired with
    | none =>
      (scan.record { ticker, decision := .survived, skippedFilters := attested.skipped,
                     features := some features }).keep
        ⟨ticker, attested.passed, attested.skipped, features⟩
    | some fired =>
      let scan := (scan.drop fired).record
        { ticker, decision := .dropped, filterFired := some fired,
          skippedFilters := attested.skipped, features := some features,
          bypassed := input.settings.bypassScannerFilter }
      if input.settings.bypassScannerFilter then
        scan.keep ⟨ticker, attested.passed, attested.skipped, features⟩
      else scan
  | _ =>
    -- no bars to compute features from, so a bypass cannot rescue it
    (scan.drop .missingHistory).record
      { ticker, decision := .dropped, filterFired := some .missingHistory }

/-- Apply the filter chain to a universe. -/
def applyFilters (tickers : List String) (input : ScanInput) : List Survivor × FilterTrace :=
  let scan := tickers.foldl (scanTicker input) {}
  (scan.survivors, ⟨tickers.length, tickers.length, scan.drops, scan.verdicts⟩)

/-! ### The chain of gates -/

section

variable {features : Features} {settings : ScannerSettings} {horizon : Option Int}

/-- What each gate says of a ticker, in the order in which they are asked. -/
def gates (features : Features) (settings : ScannerSettings) (horizon : Option Int) :
    List (ScanFilter × Answer) :=
  [(.minPrice, if features.latestClose < settings.minPrice then .refuses else .passes),
    (.minAverageVolume,
      if features.averageVolume < settings.minAverageVolume then .refuses else .passes),
    (.minRelativeStrength,
      if features.relativeStrength < settings.minRelativeStrength then .refuses else .passes),
    (.maxBeta, match features.beta with
      | some beta => if beta > settings.maxBeta then .refuses else .passes
      | none => .silent),
    (.earningsWindow, match features.daysToEarnings with
      | some days =>
        if 0 ≤ days ∧ days ≤ settings.earningsExclusionDays then .refuses else .passes
      | none => if absenceIsAnAnswer settings horizon then .passes else .silent)]

/-- The filters of a ticker are a chain of its gates. -/
theorem evaluateFilters_eq :
    evaluateFilters features settings horizon = attest (gates features settings horizon) := by
  unfold evaluateFilters gates
  by_cases hprice : features.latestClose < settings.minPrice
  · simp [hprice, attest]
  by_cases hvolume : features.averageVolume < settings.minAverageVolume
  · simp [hprice, hvolume, attest]
  by_cases hstrength : features.relativeStrength < settings.minRelativeStrength
  · simp [hprice, hvolume, hstrength, attest]
  cases hbeta : features.beta with
  | none => cases hdays : features.daysToEarnings with
    | none => by_cases ha : absenceIsAnAnswer settings horizon <;>
        simp [hprice, hvolume, hstrength, ha, attest]
    | some days => by_cases hd : 0 ≤ days ∧ days ≤ settings.earningsExclusionDays <;>
        simp [hprice, hvolume, hstrength, hd, attest]
  | some beta =>
    by_cases hb : beta > settings.maxBeta
    · simp [hprice, hvolume, hstrength, hb, attest]
    · cases hdays : features.daysToEarnings with
      | none => by_cases ha : absenceIsAnAnswer settings horizon <;>
          simp [hprice, hvolume, hstrength, hb, ha, attest]
      | some days => by_cases hd : 0 ≤ days ∧ days ≤ settings.earningsExclusionDays <;>
          simp [hprice, hvolume, hstrength, hb, hd, attest]

end

/-! ### The accounts of a scan -/

/-- The features of a ticker with a history, and what the gates attest of it. -/
def judged (input : ScanInput) (ticker : String) : Option (Features × Attested ScanFilter) :=
  match tickerBars input ticker with
  | first :: second :: rest =>
    let features := featuresOf first (second :: rest) input.benchmarkBars input.earnings input.asOf
      input.settings
    some (features, evaluateFilters features input.settings input.earningsHorizonDays)
  | _ => none

def verdictOf (input : ScanInput) (ticker : String) : FilterVerdict :=
  match judged input ticker with
  | none => { ticker, decision := .dropped, filterFired := some .missingHistory }
  | some (features, attested) =>
    { ticker, decision := if attested.fired = none then .survived else .dropped,
      filterFired := attested.fired, skippedFilters := attested.skipped, features := some features,
      bypassed := attested.fired.isSome && input.settings.bypassScannerFilter }

/-- The survivor that a ticker comes out as, if it does. -/
def survivorOf (input : ScanInput) (ticker : String) : Option Survivor :=
  match judged input ticker with
  | none => none
  | some (features, attested) =>
    if attested.fired = none ∨ input.settings.bypassScannerFilter = true then
      some ⟨ticker, attested.passed, attested.skipped, features⟩
    else none

section

variable {input : ScanInput} {tickers : List String}

/-- One turn of the loop adds the verdict of its ticker, its drop and its survivor. -/
theorem scanTicker_eq (scan : Scan) (ticker : String) : scanTicker input scan ticker =
    ⟨(verdictOf input ticker).filterFired.toList.foldl tally scan.drops,
      scan.survivors ++ (survivorOf input ticker).toList,
      scan.verdicts ++ [verdictOf input ticker]⟩ := by
  unfold scanTicker verdictOf survivorOf judged
  split
  · dsimp only
    split
    · rename_i hfired
      simp [hfired, Scan.record, Scan.keep]
    · rename_i hfired
      by_cases hbypass : input.settings.bypassScannerFilter = true <;>
        simp [hfired, hbypass, Scan.record, Scan.keep, Scan.drop]
  · simp [Scan.record, Scan.drop]

theorem foldl_scanTicker (scan : Scan) : tickers.foldl (scanTicker input) scan =
    ⟨(tickers.filterMap fun ticker => (verdictOf input ticker).filterFired).foldl tally scan.drops,
      scan.survivors ++ tickers.filterMap (survivorOf input),
      scan.verdicts ++ tickers.map (verdictOf input)⟩ := by
  induction tickers generalizing scan with
  | nil => simp
  | cons ticker tickers ih =>
    rw [List.foldl_cons, ih, scanTicker_eq]
    cases hfired : (verdictOf input ticker).filterFired <;>
      cases hsurvivor : survivorOf input ticker <;> simp [hfired, hsurvivor]

theorem applyFilters_eq : applyFilters tickers input =
    (tickers.filterMap (survivorOf input),
      ⟨tickers.length, tickers.length,
        (tickers.filterMap fun ticker => (verdictOf input ticker).filterFired).foldl tally .empty,
        tickers.map (verdictOf input)⟩) := by
  rw [applyFilters, foldl_scanTicker]
  rfl

/-- A verdict says what the gates say of its features: the first gate that refuses fired, and the
gates before it that had nothing to go by are the skipped ones.  Without features the history is
missing. -/
def Attests (input : ScanInput) (verdict : FilterVerdict) : Prop :=
  (verdict.decision = .survived ↔ verdict.filterFired = none) ∧
  match verdict.features with
  | none => verdict.filterFired = some .missingHistory ∧ verdict.skippedFilters = [] ∧
      verdict.bypassed = false
  | some features =>
    let said := gates features input.settings input.earningsHorizonDays
    verdict.filterFired = (saying .refuses said).head? ∧
    verdict.skippedFilters = saying .silent (heard said) ∧
    (verdict.bypassed = true ↔ verdict.decision = .dropped ∧
      input.settings.bypassScannerFilter = true)

/-- What a verdict and a survivor both record. -/
def FilterVerdict.shared (verdict : FilterVerdict) :
    Option (String × List ScanFilter × Features) :=
  if verdict.decision = .survived ∨ verdict.bypassed = true then
    verdict.features.map fun features => (verdict.ticker, verdict.skippedFilters, features)
  else none

def Survivor.shared (survivor : Survivor) : String × List ScanFilter × Features :=
  (survivor.ticker, survivor.skippedFilters, survivor.metrics)

theorem attested_of_judged {ticker : String} {features : Features} {attested : Attested ScanFilter}
    (h : judged input ticker = some (features, attested)) :
    attested = evaluateFilters features input.settings input.earningsHorizonDays := by
  unfold judged at h
  split at h
  · cases h
    rfl
  · cases h

theorem isSome_judged (ticker : String) :
    (judged input ticker).isSome = decide (2 ≤ (tickerBars input ticker).length) := by
  unfold judged
  split
  · rename_i hbars
    rw [hbars]
    simp
  · rename_i hfew
    match hbars : tickerBars input ticker with
    | [] => simp
    | [_] => simp
    | first :: second :: rest => exact absurd hbars (hfew first second rest)

theorem verdictOf_attests (ticker : String) : Attests input (verdictOf input ticker) := by
  unfold verdictOf
  cases hjudged : judged input ticker with
  | none => simp [Attests]
  | some found =>
    obtain ⟨features, attested⟩ := found
    have hattested : attested = attest (gates features input.settings input.earningsHorizonDays) :=
      (attested_of_judged hjudged).trans evaluateFilters_eq
    dsimp only [Attests]
    rw [hattested]
    refine ⟨?_, GateChain.attest_fired, GateChain.attest_skipped, ?_⟩
    · split <;> simp_all
    · cases hfired : (attest (gates features input.settings input.earningsHorizonDays)).fired <;>
        simp

theorem shared_verdictOf (ticker : String) :
    (verdictOf input ticker).shared = (survivorOf input ticker).map Survivor.shared := by
  unfold verdictOf survivorOf
  cases judged input ticker with
  | none => rfl
  | some found =>
    obtain ⟨features, attested⟩ := found
    dsimp only [FilterVerdict.shared]
    cases hfired : attested.fired <;>
      by_cases hbypass : input.settings.bypassScannerFilter = true <;>
        simp [hbypass, Survivor.shared]

/-- A ticker is dropped or survives. -/
theorem length_drops_add_count :
    (tickers.filterMap fun ticker => (verdictOf input ticker).filterFired).length +
      ((tickers.map (verdictOf input)).map FilterVerdict.decision).count .survived =
    tickers.length := by
  induction tickers with
  | nil => rfl
  | cons ticker tickers ih =>
    have hdecision : (verdictOf input ticker).decision = .survived ↔
        (verdictOf input ticker).filterFired = none := (verdictOf_attests ticker).1
    rw [List.map_cons, List.map_cons, List.length_cons, List.count_cons]
    cases hfired : (verdictOf input ticker).filterFired with
    | none =>
      rw [hdecision.mpr hfired]
      simp only [List.filterMap_cons, hfired, beq_self_eq_true, if_true]
      omega
    | some filter =>
      have hdropped : (verdictOf input ticker).decision ≠ .survived := fun h => by
        rw [hdecision.mp h] at hfired
        cases hfired
      simp only [List.filterMap_cons, hfired, List.length_cons, beq_iff_eq, hdropped, if_false]
      omega

/-- Every ticker of a universe is judged once and in order, each drop is counted under the first
gate that refused its ticker, the counts and the survivors account for the whole universe, and the
scan lets through exactly what the verdicts say, with the features it was judged on. -/
theorem applyFilters_accounts (tickers : List String) (input : ScanInput) :
    let (survivors, trace) := applyFilters tickers input
    trace.verdicts.map FilterVerdict.ticker = tickers ∧
    (∀ verdict ∈ trace.verdicts, Attests input verdict) ∧
    (∀ filter, (trace.droppedByFilter.get? filter).getD 0 =
      (trace.verdicts.map FilterVerdict.filterFired).count (some filter)) ∧
    trace.droppedByFilter.total + (trace.verdicts.map FilterVerdict.decision).count .survived =
      trace.universeSize ∧
    survivors.map Survivor.shared = trace.verdicts.filterMap FilterVerdict.shared := by
  rw [applyFilters_eq]
  dsimp only
  refine ⟨?_, ?_, fun filter => ?_, ?_, ?_⟩
  · rw [List.map_map]
    conv_rhs => rw [← List.map_id tickers]
    apply List.map_congr_left
    intro ticker _
    show (verdictOf input ticker).ticker = ticker
    unfold verdictOf
    split <;> rfl
  · intro verdict hverdict
    obtain ⟨ticker, -, rfl⟩ := List.mem_map.mp hverdict
    exact verdictOf_attests ticker
  · rw [getD_foldl_tally]
    show 0 + _ = _
    rw [Nat.zero_add, List.map_map, List.count_filterMap, List.count_eq_countP, List.countP_map]
    rfl
  · rw [total_foldl_tally]
    show 0 + _ + _ = _
    rw [Nat.zero_add]
    exact length_drops_add_count
  · rw [List.filterMap_map, List.map_filterMap]
    congr 1
    funext ticker
    exact (shared_verdictOf ticker).symm

/-- The input with the bypass switched on or off. -/
def ScanInput.bypass (input : ScanInput) (on : Bool) : ScanInput :=
  { input with settings := { input.settings with bypassScannerFilter := on } }

/-- Whether no gate refuses the features that a survivor was judged on. -/
def Survivor.clears (input : ScanInput) (survivor : Survivor) : Bool :=
  (evaluateFilters survivor.metrics input.settings input.earningsHorizonDays).fired.isNone

/-- A verdict without the mark of the bypassed. -/
def FilterVerdict.unmarked (verdict : FilterVerdict) : FilterVerdict :=
  { verdict with bypassed := false }

theorem judged_bypass (on : Bool) (ticker : String) :
    judged (input.bypass on) ticker = judged input ticker := rfl

theorem unmarked_verdictOf (ticker : String) :
    (verdictOf (input.bypass true) ticker).unmarked = verdictOf (input.bypass false) ticker := by
  unfold verdictOf
  rw [judged_bypass, judged_bypass]
  cases judged input ticker with
  | none => rfl
  | some found => simp [FilterVerdict.unmarked, ScanInput.bypass]

theorem bypassed_verdictOf (ticker : String) : (verdictOf (input.bypass true) ticker).bypassed =
    ((verdictOf (input.bypass true) ticker).features.isSome &&
      (verdictOf (input.bypass true) ticker).filterFired.isSome) := by
  unfold verdictOf
  rw [judged_bypass]
  cases judged input ticker with
  | none => rfl
  | some found => simp [ScanInput.bypass]

theorem filter_survivorOf (ticker : String) :
    (survivorOf (input.bypass true) ticker).filter (Survivor.clears input) =
      survivorOf (input.bypass false) ticker := by
  unfold survivorOf
  rw [judged_bypass, judged_bypass]
  cases hjudged : judged input ticker with
  | none => rfl
  | some found =>
    obtain ⟨features, attested⟩ := found
    have hattested := attested_of_judged hjudged
    cases hfired : attested.fired <;>
      simp [ScanInput.bypass, Survivor.clears, ← hattested, hfired]

theorem map_survivorOf (ticker : String) :
    (survivorOf (input.bypass true) ticker).map Survivor.ticker =
      if 2 ≤ (tickerBars input ticker).length then some ticker else none := by
  have hsome : (judged input ticker).isSome = _ := isSome_judged ticker
  unfold survivorOf
  rw [judged_bypass]
  cases hjudged : judged input ticker with
  | none =>
    rw [hjudged] at hsome
    simpa using hsome
  | some found =>
    rw [hjudged] at hsome
    have hmany : 2 ≤ (tickerBars input ticker).length := by simpa using hsome
    simp [ScanInput.bypass, hmany]

/-- The bypass is not seen in what is recorded: it changes no verdict but for the mark of the
bypassed, and no count.  It lets through every ticker with a history, and those of them that clear
the gates come out as they do without it. -/
theorem applyFilters_bypass (tickers : List String) (input : ScanInput) :
    let on := applyFilters tickers (input.bypass true)
    let off := applyFilters tickers (input.bypass false)
    on.2.droppedByFilter = off.2.droppedByFilter ∧
    on.2.verdicts.map FilterVerdict.unmarked = off.2.verdicts ∧
    (∀ verdict ∈ on.2.verdicts,
      verdict.bypassed = (verdict.features.isSome && verdict.filterFired.isSome)) ∧
    on.1.filter (Survivor.clears input) = off.1 ∧
    on.1.map Survivor.ticker =
      tickers.filter fun ticker => decide (2 ≤ (tickerBars input ticker).length) := by
  dsimp only
  rw [applyFilters_eq, applyFilters_eq]
  refine ⟨?_, ?_, fun verdict hverdict => ?_, ?_, ?_⟩
  · dsimp only
    congr 2
    funext ticker
    rw [← unmarked_verdictOf]
    rfl
  · rw [List.map_map]
    apply List.map_congr_left
    exact fun ticker _ => unmarked_verdictOf ticker
  · obtain ⟨ticker, -, rfl⟩ := List.mem_map.mp hverdict
    exact bypassed_verdictOf ticker
  · rw [List.filter_filterMap]
    congr 1
    funext ticker
    exact filter_survivorOf ticker
  · rw [List.map_filterMap, ← List.filterMap_eq_filter]
    congr 1
    funext ticker
    rw [map_survivorOf]
    simp [Option.guard]

end

end TradingAgents.Scanner
