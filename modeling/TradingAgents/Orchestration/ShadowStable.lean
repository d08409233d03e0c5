import TradingAgents.Orchestration.ShadowBook

/-! The shadow book when a snapshot with a later window is added.  Its prices give way to the older
ones, so no price changes.  A day that only it shows a bar of does change the count of the trading
days: an outcome keeps its target date exactly if no such day lies before it. -/

namespace TradingAgents.Orchestration.Shadow

open Kernel ProofKit ProofKit.Fallible

variable {r : ShadowReaders} {g : PipelineGraph} {n : PipelineNode} {h h' : History}
  {bars : List ShadowBar} {horizons : List Int}

/-! ### The history -/

@[simp] theorem mem_dates_recordBar {bar : ShadowBar} {day : Int} :
    day ∈ (recordBar h bar).dates ↔ day = bar.barDate ∨ day ∈ h.dates := List.mem_insert_iff

theorem mem_dates_recordBars {day : Int} : day ∈ (bars.foldl recordBar h).dates ↔
    day ∈ h.dates ∨ ∃ bar ∈ bars, bar.barDate = day := by
  induction bars generalizing h with
  | nil => simp
  | cons bar bars ih =>
    rw [List.foldl_cons, ih, mem_dates_recordBar]
    simp only [List.exists_mem_cons_iff]
    rw [or_assoc, or_left_comm, eq_comm (a := day)]

/-- The first price of a day stays. -/
theorem price_recordBar {bar : ShadowBar} {ticker : String} {day : Int} {price : ℚ}
    (hprice : h.price ticker day = some price) :
    (recordBar h bar).price ticker day = some price := by
  simp only [History.price, recordBar, Dict.get?_set] at hprice ⊢
  by_cases hticker : ticker = bar.ticker
  · subst hticker
    rw [if_pos rfl, Option.getD_some, setDefault]
    split
    · exact hprice
    · rename_i hnone
      rw [Dict.get?_set_ne _ _ (fun heq => by rw [heq, hnone] at hprice; cases hprice)]
      exact hprice
  · rw [if_neg hticker]
    exact hprice

theorem price_recordBars {ticker : String} {day : Int} {price : ℚ}
    (hprice : h.price ticker day = some price) :
    (bars.foldl recordBar h).price ticker day = some price := by
  induction bars generalizing h with
  | nil => exact hprice
  | cons bar bars ih => exact ih (price_recordBar hprice)

/-- A snapshot whose window ends after those of the others is recorded last. -/
theorem marketHistory_append {nodes : List PipelineNode} {later : String}
    (hwindow : (n.props.get? "window_end").map valueText = some later)
    (hlater : ∀ m ∈ nodes, windowEnd m < later) (hbars : snapshotBars r n = .ok bars)
    (hok : marketHistory r nodes = .ok h) :
    marketHistory r (nodes ++ [n]) = .ok (bars.foldl recordBar h) := by
  have hend : windowEnd n = later := by
    obtain ⟨v, hv, rfl⟩ := Option.map_eq_some_iff.mp hwindow
    rw [windowEnd, hv]
  have hsome : (n.props.get? "window_end").isSome = true := by
    obtain ⟨v, hv, -⟩ := Option.map_eq_some_iff.mp hwindow
    rw [hv]
    rfl
  unfold marketHistory at hok ⊢
  split at hok
  · rename_i hall
    rw [if_pos (by rw [List.all_append, hall, List.all_cons, hsome]; rfl),
      @insertionSort_append_last _ _ _ (fun m : PipelineNode => toLex (windowEnd m, m.key)) _ _
        fun m hm => (Prod.Lex.toLex_lt_toLex.mpr (.inl (hend ▸ hlater m hm))).le,
      List.foldlM_append, hok, ok_bind, List.foldlM_cons, recordNode, hbars]
    rfl
  · cases hok

/-! ### The target date -/

theorem tradingDates_sorted (h : History) : h.tradingDates.Pairwise (· < ·) := by
  have hsorted : h.tradingDates.Pairwise (· ≤ ·) := List.pairwise_insertionSort _ _
  have hnodup : h.tradingDates.Nodup := (List.perm_insertionSort _ _).nodup_iff.mpr h.nodup
  exact hsorted.imp₂ (fun _ _ hle hne => lt_of_le_of_ne hle hne) hnodup

@[simp] theorem mem_tradingDates {day : Int} : day ∈ h.tradingDates ↔ day ∈ h.dates :=
  List.mem_insertionSort _

/-- The trading days between two days. -/
def daysBetween (h : History) (asOf target : Int) : List Int :=
  h.tradingDates.filter fun day => decide (asOf < day ∧ day < target)

/-- The target is the trading day with as many trading days before it as the horizon says. -/
theorem targetDate_eq_some_iff {asOf horizon target : Int} :
    targetDate h.tradingDates asOf horizon = some target ↔ target ∈ h.dates ∧ asOf < target ∧
      (daysBetween h asOf target).length = horizon.toNat - 1 := by
  have hfuture : (h.tradingDates.filter fun day => decide (asOf < day)).Pairwise (· < ·) :=
    (tradingDates_sorted h).filter _
  have hget : (h.tradingDates.filter fun day => decide (asOf < day))[horizon.toNat - 1]? =
      some target ↔ target ∈ h.dates ∧ asOf < target ∧
        (daysBetween h asOf target).length = horizon.toNat - 1 := by
    rw [getElem?_eq_some_iff_below hfuture, List.mem_filter, List.filter_filter, mem_tradingDates,
      decide_eq_true_eq, and_assoc, daysBetween]
    simp only [Bool.decide_and, Bool.and_comm]
  rw [← hget, targetDate]
  split
  · exact Iff.rfl
  · rename_i hshort
    refine iff_of_false (by simp) fun hsome => ?_
    obtain ⟨hlt, -⟩ := List.getElem?_eq_some_iff.mp hsome
    omega

/-- More bars keep a target date exactly if none of them is of a new day before it. -/
theorem targetDate_recordBars_iff {asOf horizon target : Int}
    (htarget : targetDate h.tradingDates asOf horizon = some target) :
    targetDate (bars.foldl recordBar h).tradingDates asOf horizon = some target ↔
      ∀ bar ∈ bars, asOf < bar.barDate → bar.barDate < target → bar.barDate ∈ h.dates := by
  obtain ⟨hmem, hafter, hcount⟩ := targetDate_eq_some_iff.mp htarget
  have hnodup : ∀ h : History, (daysBetween h asOf target).Nodup := fun h =>
    ((List.perm_insertionSort _ _).nodup_iff.mpr h.nodup).filter _
  have hbetween : ∀ {h : History} {day : Int}, day ∈ daysBetween h asOf target ↔
      day ∈ h.dates ∧ asOf < day ∧ day < target := by
    intro h day
    rw [daysBetween, List.mem_filter, mem_tradingDates, decide_eq_true_eq]
  have hsub : daysBetween h asOf target ⊆ daysBetween (bars.foldl recordBar h) asOf target := by
    intro day hday
    obtain ⟨hday, hrest⟩ := hbetween.mp hday
    exact hbetween.mpr ⟨mem_dates_recordBars.mpr (.inl hday), hrest⟩
  have hsubperm := (hnodup h).subperm hsub
  rw [targetDate_eq_some_iff, ← hcount]
  constructor
  · rintro ⟨-, -, hlength⟩ bar hbar hlow hhigh
    have hperm := hsubperm.perm_of_length_le hlength.le
    exact (hbetween.mp (hperm.mem_iff.mpr
      (hbetween.mpr ⟨mem_dates_recordBars.mpr (.inr ⟨bar, hbar, rfl⟩), hlow, hhigh⟩))).1
  · intro hold
    refine ⟨mem_dates_recordBars.mpr (.inl hmem), hafter, ?_⟩
    refine le_antisymm ((hnodup _).subperm fun day hday => ?_).length_le hsubperm.length_le
    obtain ⟨hday, hlow, hhigh⟩ := hbetween.mp hday
    rcases mem_dates_recordBars.mp hday with hday | ⟨bar, hbar, rfl⟩
    · exact hbetween.mpr ⟨hday, hlow, hhigh⟩
    · exact hbetween.mpr ⟨hold bar hbar hlow hhigh, hlow, hhigh⟩

/-! ### The outcomes under another history -/

theorem priced_priced (o : ShadowOutcome) : priced h' (priced h o) = priced h' o := by
  have hfields : ∃ status forwardPrice forwardReturn,
      priced h o = { o with status, forwardPrice, forwardReturn } := by
    simp only [priced]
    split <;> exact ⟨_, _, _, rfl⟩
  obtain ⟨status, forwardPrice, forwardReturn, heq⟩ := hfields
  rw [heq]
  rfl

theorem outcome_repriced (c : OutcomeContext) (horizon : Int) :
    outcome h' c horizon = (outcome h c horizon).map (priced h') := by
  unfold outcome
  cases c.recommendation.require "action" with
  | error e => rfl
  | ok action =>
    cases Forecaster.requireFloat c.recommendation "confidence" with
    | error e => rfl
    | ok confidence =>
      cases Forecaster.requireFloat c.recommendation "technical_score" with
      | error e => rfl
      | ok technicalScore =>
        simp only [ok_bind, pure_eq_ok, Except.map, priced_priced]

theorem recommendationOutcomes_repriced (analystRun : PipelineNode)
    (market : Option (List ShadowBar)) (orders : Option OrderIntentSet) (asOf : Int)
    (outcomes : List ShadowOutcome) (recommendation : PipelineNode) :
    recommendationOutcomes h' horizons analystRun market orders asOf
        (outcomes.map (priced h')) recommendation =
      (recommendationOutcomes h horizons analystRun market orders asOf outcomes
        recommendation).map (List.map (priced h')) := by
  unfold recommendationOutcomes
  cases recommendation.require "ticker" with
  | error e => rfl
  | ok ticker =>
    refine foldlM_map (φ := List.map (priced h')) (fun horizon _ outcomes => ?_) outcomes
    rw [outcome_repriced (h := h)]
    cases outcome h _ horizon with
    | error e => rfl
    | ok o => simp [Except.map]

theorem runOutcomes_repriced (recommendations : Dict String (List PipelineNode))
    (pmOrders : Dict String OrderIntentSet) (analystRun : PipelineNode)
    (outcomes : List ShadowOutcome) :
    runOutcomes r g h' horizons recommendations pmOrders (outcomes.map (priced h')) analystRun =
      (runOutcomes r g h horizons recommendations pmOrders outcomes analystRun).map
        (List.map (priced h')) := by
  unfold runOutcomes
  split
  · rfl
  · cases sourceMarket r g analystRun with
    | error e => rfl
    | ok market =>
      cases analystRun.require "created_at" with
      | error e => rfl
      | ok createdAt =>
        dsimp only [ok_bind]
        cases r.stampDate (valueText createdAt) with
        | none => rfl
        | some asOf =>
          exact foldlM_map (φ := List.map (priced h')) (fun recommendation _ outcomes =>
            recommendationOutcomes_repriced _ _ _ _ outcomes recommendation) outcomes

/-- The fold over the analyst runs, by a price history. -/
def outcomesBy (r : ShadowReaders) (g : PipelineGraph) (horizons : List Int)
    (recommendations : Dict String (List PipelineNode)) (pmOrders : Dict String OrderIntentSet)
    (h : History) : Except HandlerError (List ShadowOutcome) :=
  (analystRuns g).foldlM (runOutcomes r g h horizons recommendations pmOrders) []

theorem outcomesBy_repriced (recommendations : Dict String (List PipelineNode))
    (pmOrders : Dict String OrderIntentSet) :
    outcomesBy r g horizons recommendations pmOrders h' =
      (outcomesBy r g horizons recommendations pmOrders h).map (List.map (priced h')) :=
  foldlM_map (φ := List.map (priced h')) (fun analystRun _ outcomes =>
    runOutcomes_repriced recommendations pmOrders analystRun outcomes) []

/-! ### A later snapshot -/

/-- A valid MarketData node that the graph does not hold, with a window that ends strictly after
those of all that it holds. -/
structure LaterSnapshot (r : ShadowReaders) (g : PipelineGraph) (n : PipelineNode)
    (bars : List ShadowBar) : Prop where
  label : n.label = marketDataLabel
  fresh : g.getNode n.label n.key = none
  window : ∃ later, (n.props.get? "window_end").map valueText = some later ∧
    ∀ m ∈ g.listNodes marketDataLabel, windowEnd m < later
  bars : snapshotBars r n = .ok bars

theorem LaterSnapshot.sourceMarket (hlater : LaterSnapshot r g n bars) (run : PipelineNode) :
    sourceMarket r (g.put n) run = sourceMarket r g run := by
  have hscan : ∀ key, (g.put n).getNode scanRunLabel key = g.getNode scanRunLabel key := by
    intro key
    rw [Graph.getNode_put, if_neg]
    rintro ⟨hlabel, -⟩
    exact absurd (hlabel.trans hlater.label) (by decide)
  have hchild : ∀ node : NodeKey, ((g.put n).descendants node 1 (some [derivedFrom])).head? =
      (g.descendants node 1 (some [derivedFrom])).head? := by
    intro node
    rw [Graph.head?_descendants_one, Graph.head?_descendants_one, Graph.edges_put]
    cases hedge : g.edges.find? (Graph.childEdge node [derivedFrom]) with
    | none => rfl
    | some e =>
      have hin := (g.closed e (List.mem_of_find?_eq_some hedge)).2
      have hout : n.nodeKey ∉ g.nodes.keys := Dict.notMem_keys_iff.mpr hlater.fresh
      have hne : e.child ≠ n.nodeKey := fun heq => hout (heq ▸ hin)
      exact Dict.get?_set_ne _ _ hne
  simp only [Shadow.sourceMarket, hscan, hchild]

/-- All else that the shadow book reads stays as it was. -/
theorem LaterSnapshot.reads (hlater : LaterSnapshot r g n bars) (horizons : List Int) :
    analystRuns (g.put n) = analystRuns g ∧
    (∀ runs, recommendationsByAnalyst (g.put n) runs = recommendationsByAnalyst g runs) ∧
    pmOrdersByAnalyst (g.put n) = pmOrdersByAnalyst g ∧
    (g.put n).listNodes marketDataLabel = g.listNodes marketDataLabel ++ [n] ∧
    ∀ recommendations pmOrders h, outcomesBy r (g.put n) horizons recommendations pmOrders h =
      outcomesBy r g horizons recommendations pmOrders h := by
  have hother : ∀ label, label ≠ marketDataLabel → (g.put n).listNodes label = g.listNodes label :=
    fun label hne => Graph.listNodes_put_of_ne fun heq => hne (heq.symm.trans hlater.label)
  have hruns : analystRuns (g.put n) = analystRuns g := by
    rw [analystRuns, analystRuns, hother _ (by decide)]
  refine ⟨hruns, fun runs => ?_, ?_, ?_, fun recommendations pmOrders h => ?_⟩
  · rw [recommendationsByAnalyst, recommendationsByAnalyst, hother _ (by decide)]
  · rw [pmOrdersByAnalyst, pmOrdersByAnalyst, hother _ (by decide)]
  · have hfresh := Graph.listNodes_put_fresh hlater.fresh
    rwa [hlater.label] at hfresh
  · rw [outcomesBy, outcomesBy, hruns]
    congr 1
    funext outcomes run
    simp only [runOutcomes, hlater.sourceMarket]

/-- The shadow book after a later snapshot is the old one by the longer history. -/
theorem LaterSnapshot.derive (hlater : LaterSnapshot r g n bars) {outcomes : List ShadowOutcome}
    (hok : deriveShadowBook r g horizons = .ok outcomes) :
    ∃ h, marketHistory r (g.listNodes marketDataLabel) = .ok h ∧
      marketHistory r ((g.put n).listNodes marketDataLabel) = .ok (bars.foldl recordBar h) ∧
      outcomes.map (priced h) = outcomes ∧
      deriveShadowBook r (g.put n) horizons =
        .ok (outcomes.map (priced (bars.foldl recordBar h))) := by
  obtain ⟨hruns, hrecommendations, hpm, hlist, hby⟩ := hlater.reads horizons
  obtain ⟨later, hwindow, hbefore⟩ := hlater.window
  unfold deriveShadowBook at hok ⊢
  split at hok
  · cases hok
  rename_i hhorizons
  obtain ⟨recommendations, hrec, hrest⟩ := bind_eq_ok.mp hok
  obtain ⟨h, hhistory, hrest⟩ := bind_eq_ok.mp hrest
  obtain ⟨pmOrders, horders, hfold⟩ := bind_eq_ok.mp hrest
  have hhistory' := marketHistory_append hwindow hbefore hlater.bars hhistory
  have hfold' : outcomesBy r g horizons recommendations pmOrders h = .ok outcomes := hfold
  refine ⟨h, hhistory, hlist ▸ hhistory', ?_, ?_⟩
  · have hself : outcomesBy r g horizons recommendations pmOrders h =
        (outcomesBy r g horizons recommendations pmOrders h).map (List.map (priced h)) :=
      outcomesBy_repriced recommendations pmOrders
    rw [hfold'] at hself
    exact (Except.ok.inj hself).symm
  · rw [if_neg hhorizons, hruns, hrecommendations, hrec, ok_bind, hlist, hhistory', ok_bind, hpm,
      horders, ok_bind]
    have hnew : outcomesBy r g horizons recommendations pmOrders (bars.foldl recordBar h) =
        (outcomesBy r g horizons recommendations pmOrders h).map
          (List.map (priced (bars.foldl recordBar h))) :=
      outcomesBy_repriced recommendations pmOrders
    rw [hfold', ← hby recommendations pmOrders (bars.foldl recordBar h), outcomesBy, hruns] at hnew
    exact hnew

/-- A scored outcome has a target date with a price. -/
theorem scored_target {o : ShadowOutcome} (hpriced : priced h o = o)
    (hscored : o.status = .scored) :
    ∃ reference target forward, o.referencePrice = some reference ∧
      targetDate h.tradingDates o.asOf o.horizon = some target ∧
      h.price o.ticker target = some forward := by
  rw [← hpriced] at hscored
  simp only [priced] at hscored
  split at hscored
  · rename_i reference target forward href htarget hforward
    rw [htarget] at hforward
    exact ⟨reference, target, forward, href, htarget, hforward⟩
  · cases hscored
  · cases hscored

/-- An outcome with a target date, reference and price that two histories share is priced alike. -/
theorem priced_congr {o : ShadowOutcome} {reference forward : ℚ} {target : Int}
    (href : o.referencePrice = some reference)
    (htarget : targetDate h.tradingDates o.asOf o.horizon = some target)
    (htarget' : targetDate h'.tradingDates o.asOf o.horizon = some target)
    (hforward : h.price o.ticker target = some forward)
    (hforward' : h'.price o.ticker target = some forward) : priced h' o = priced h o := by
  simp only [priced, href, htarget, htarget', Option.bind_some, hforward, hforward']

/-- When a snapshot with a later window is added, each outcome that was scored keeps its target
date, prices and return exactly if each bar of the snapshot that lies after the day of the analyst
and before the target date is of a day that was a trading day already. -/
theorem scored_stable_iff (hlater : LaterSnapshot r g n bars) {outcomes : List ShadowOutcome}
    (hok : deriveShadowBook r g horizons = .ok outcomes) :
    ∃ h h' outcomes', marketHistory r (g.listNodes marketDataLabel) = .ok h ∧
      marketHistory r ((g.put n).listNodes marketDataLabel) = .ok h' ∧
      deriveShadowBook r (g.put n) horizons = .ok outcomes' ∧
      outcomes'.length = outcomes.length ∧
      ∀ (i : Nat) (o : ShadowOutcome), outcomes[i]? = some o → o.status = .scored →
        ∃ target, targetDate h.tradingDates o.asOf o.horizon = some target ∧
          ((targetDate h'.tradingDates o.asOf o.horizon = some target ∧ outcomes'[i]? = some o) ↔
            ∀ bar ∈ bars, o.asOf < bar.barDate → bar.barDate < target → bar.barDate ∈ h.dates) := by
  obtain ⟨h, hhistory, hhistory', hself, hderive⟩ := hlater.derive hok
  refine ⟨h, _, _, hhistory, hhistory', hderive, List.length_map _, fun i o hi hscored => ?_⟩
  have hpriced : priced h o = o := by
    have hmap := congrArg (fun l => l[i]?) hself
    simp only [List.getElem?_map, hi, Option.map_some] at hmap
    exact Option.some.inj hmap
  obtain ⟨reference, target, forward, href, htarget, hforward⟩ := scored_target hpriced hscored
  refine ⟨target, htarget, ?_⟩
  rw [← targetDate_recordBars_iff htarget]
  constructor
  · exact And.left
  · intro htarget'
    refine ⟨htarget', ?_⟩
    rw [List.getElem?_map, hi, Option.map_some,
      priced_congr href htarget htarget' hforward (price_recordBars hforward), hpriced]

/-! ### A Friday, a Monday and a Saturday -/

def decodeBar : Value Document → Option ShadowBar
  | .list [.str ticker, .int barDate, .num close] =>
    if h : 0 < close then some ⟨ticker, barDate, close, h⟩ else none
  | _ => none

/-- Snapshots as lists of rows; every analyst run is of the first day. -/
def rowReaders : ShadowReaders where
  marketBars
    | .list rows => rows.mapM decodeBar
    | _ => none
  stampDate _ := some 1

def snapshotNode (key windowEnd ticker : String) (barDate : Int) (close : ℚ) : PipelineNode :=
  ⟨marketDataLabel, key, .ofList [("window_end", .str windowEnd),
    ("snapshot", .list [.list [.str ticker, .int barDate, .num close]])], 1⟩

/-- A recommendation of the first day with the snapshots of that day and of the fourth. -/
def weekend : Except HandlerError PipelineGraph := do
  let g := (Graph.empty.put (snapshotNode "friday" "2026-08-07" "MSFT" 1 100)).put
    (snapshotNode "monday" "2026-08-10" "MSFT" 4 110)
  let (g, _) ← liftGraph (g.mergeNode analystRunLabel "run"
    (.ofList [("created_at", .str "2026-08-07T20:00:00+00:00"),
      ("source_scan_run_id", .str "scan")]))
  let (g, scan) ← liftGraph (g.mergeNode scanRunLabel "scan" (.ofList []))
  let g ← liftGraph (g.addEdge scan.nodeKey (marketDataLabel, "friday") derivedFrom)
  let (g, _) ← liftGraph (g.mergeNode recommendationLabel "run:MSFT"
    (.ofList [("ticker", .str "MSFT"), ("action", .str "buy"), ("confidence", .num (1 / 2)),
      ("technical_score", .num (1 / 2))]))
  pure g

/-- A later snapshot with a bar of the Saturday, and one with a bar of the Tuesday. -/
def saturday : PipelineNode := snapshotNode "late" "2026-08-11" "BTC" 2 50

def tuesday : PipelineNode := snapshotNode "late" "2026-08-11" "MSFT" 5 120

theorem one_hundred_twenty_pos : (0 : ℚ) < 120 := by norm_num

theorem fifty_pos : (0 : ℚ) < 50 := by norm_num

/-- What the two additions have in common. -/
theorem weekend_later : ∃ (g : PipelineGraph) (outcomes : List ShadowOutcome) (o : ShadowOutcome),
    weekend = .ok g ∧
    g.getNode marketDataLabel "late" = none ∧
    (∀ m ∈ g.listNodes marketDataLabel, windowEnd m < "2026-08-11") ∧
    deriveShadowBook rowReaders g [1] = .ok outcomes ∧ outcomes[0]? = some o ∧
    o.status = .scored ∧ o.asOf = 1 ∧
    check (fun outcomes => decide (outcomes[0]? ≠ some o))
      (deriveShadowBook rowReaders (g.put saturday) [1]) = true ∧
    check (fun h => decide (targetDate h.tradingDates 1 1 = some 4 ∧ o.horizon = 1))
      (marketHistory rowReaders (g.listNodes marketDataLabel)) = true := by
  have hrun : check (fun g : PipelineGraph => decide (g.getNode marketDataLabel "late" = none) &&
      decide (∀ m ∈ g.listNodes marketDataLabel, windowEnd m < "2026-08-11") &&
      check (fun outcomes : List ShadowOutcome => match outcomes[0]? with
        | none => false
        | some o => decide (o.status = .scored) && decide (o.asOf = 1) &&
          check (fun outcomes' => decide (outcomes'[0]? ≠ some o))
            (deriveShadowBook rowReaders (g.put saturday) [1]) &&
          check (fun h => decide (targetDate h.tradingDates 1 1 = some 4 ∧ o.horizon = 1))
            (marketHistory rowReaders (g.listNodes marketDataLabel)))
        (deriveShadowBook rowReaders g [1])) weekend = true := by decide +kernel
  obtain ⟨g, hg, htest⟩ := check_eq_true.mp hrun
  simp only [Bool.and_eq_true, decide_eq_true_eq] at htest
  obtain ⟨⟨hfresh, hwindow⟩, hbook⟩ := htest
  obtain ⟨outcomes, hderive, hfirst⟩ := check_eq_true.mp hbook
  cases ho : outcomes[0]? with
  | none => simp [ho] at hfirst
  | some o =>
    simp only [ho, Bool.and_eq_true, decide_eq_true_eq] at hfirst
    obtain ⟨⟨⟨hscored, hday⟩, hchanged⟩, hdates⟩ := hfirst
    exact ⟨g, outcomes, o, hg, hfresh, hwindow, hderive, ho, hscored, hday, hchanged, hdates⟩

/-- A bar of the Tuesday leaves the outcome as it was. -/
theorem tuesday_kept : ∃ (g : PipelineGraph) (outcomes outcomes' : List ShadowOutcome)
    (o : ShadowOutcome), weekend = .ok g ∧
    deriveShadowBook rowReaders g [1] = .ok outcomes ∧
    deriveShadowBook rowReaders (g.put tuesday) [1] = .ok outcomes' ∧ o.status = .scored ∧
    outcomes[0]? = some o ∧ outcomes'[0]? = some o := by
  obtain ⟨g, outcomes, o, hg, hfresh, hwindow, hderive, ho, hscored, hday, -, hdates⟩ :=
    weekend_later
  have hlater : LaterSnapshot rowReaders g tuesday [⟨"MSFT", 5, 120, one_hundred_twenty_pos⟩] :=
    ⟨rfl, hfresh, ⟨"2026-08-11", rfl, hwindow⟩, rfl⟩
  obtain ⟨h, h', outcomes', hhistory, -, hderive', -, hkept⟩ := scored_stable_iff hlater hderive
  obtain ⟨target, htarget, hiff⟩ := hkept 0 o ho hscored
  obtain ⟨h₀, hh₀, htest⟩ := check_eq_true.mp hdates
  rw [hhistory] at hh₀
  cases hh₀
  obtain ⟨hfour, hhorizon⟩ := of_decide_eq_true htest
  rw [hday, hhorizon, hfour] at htarget
  cases htarget
  refine ⟨g, outcomes, outcomes', o, hg, hderive, hderive', hscored, ho, (hiff.mpr ?_).2⟩
  intro bar hbar _ hbefore
  rw [List.mem_singleton.mp hbar] at hbefore
  exact absurd hbefore (by decide)

/-- A bar of the Saturday moves the target date of a scored outcome. -/
theorem saturday_moves : ¬ ∀ (r : ShadowReaders) (g : PipelineGraph) n bars horizons outcomes,
    LaterSnapshot r g n bars → deriveShadowBook r g horizons = .ok outcomes →
    ∃ outcomes', deriveShadowBook r (g.put n) horizons = .ok outcomes' ∧
      ∀ (i : Nat) (o : ShadowOutcome), outcomes[i]? = some o → o.status = .scored →
        outcomes'[i]? = some o := by
  intro hall
  obtain ⟨g, outcomes, o, -, hfresh, hwindow, hderive, ho, hscored, -, hchanged, -⟩ := weekend_later
  have hlater : LaterSnapshot rowReaders g saturday [⟨"BTC", 2, 50, fifty_pos⟩] :=
    ⟨rfl, hfresh, ⟨"2026-08-11", rfl, hwindow⟩, rfl⟩
  obtain ⟨outcomes', hderive', hkept⟩ := hall _ _ _ _ _ _ hlater hderive
  obtain ⟨outcomes'', hderive'', hne⟩ := check_eq_true.mp hchanged
  rw [hderive'] at hderive''
  cases hderive''
  exact of_decide_eq_true hne (hkept 0 o ho hscored)

end TradingAgents.Orchestration.Shadow
