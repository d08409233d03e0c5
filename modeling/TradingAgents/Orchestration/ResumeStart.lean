import TradingAgents.Orchestration.ResumeRecovery
import TradingAgents.Pipeline.Reads
import TradingAgents.Provider.RunIngest

/-! The start of a resumed run: what the agents of the stages find of a child that is placed,
whether they can read what they find, and when the provider accepts its request. -/

namespace TradingAgents.Orchestration

open Kernel ProofKit Pipeline Execution Provider StopWidth

/-! ### The work of a stage -/

/-- The name of the node on which the agent of a stage works. -/
def workName : ResumeStage → ChainKey
  | .positionSync => .runRequest
  | .provider => .runRequest
  | .scanner => .marketData
  | .analyst => .scanRun
  | .pm => .analystRun
  | .execution => .pmRun
  | .monitor => .executionRun
  | .reporter => .monitorRun

/-- The edge by which a node counts as worked on. -/
def processedEdge : ResumeStage → String
  | .positionSync => snapshotRefreshEdge
  | .provider => ingestedEdge
  | .scanner => scannedEdge
  | .analyst => analyzedEdge
  | .pm => evaluatedEdge
  | .execution => executedEdge
  | .monitor => monitoredEdge
  | .reporter => reportedEdge

/-- Whether the agent of a stage takes up a node that it finds unprocessed. -/
def takesUp (fromIso : String → Option Int) (settings : ExecutionSettings) (g : PipelineGraph)
    (now : Int) : ResumeStage → PipelineNode → Except HandlerError Bool
  | .analyst, n => .ok (bookSyncAttempted g n)
  | .execution, n => do pure !(← isWaiting fromIso g n now settings)
  | .reporter, n => .ok !(n.get "phase").pyEq (.str positionSyncPhase)
  | _, _ => .ok true

/-- A poll that completes finds the unprocessed nodes that the agent takes up. -/
theorem mem_stagePoll {fromIso : String → Option Int} {settings : ExecutionSettings}
    {g : PipelineGraph} {now : Int} {stage : ResumeStage} {items : List PipelineNode}
    (h : stagePoll fromIso settings g now stage = .ok items) {n : PipelineNode} :
    n ∈ items ↔ n ∈ g.pendingNodes (workName stage).label (processedEdge stage) ∧
      takesUp fromIso settings g now stage n = .ok true := by
  cases stage with
  | analyst =>
    cases h
    rw [findPendingAnalysis, List.mem_filter]
    exact and_congr_right fun _ => ⟨congrArg _, Except.ok.inj⟩
  | execution => exact Fallible.mem_filter h
  | reporter =>
    cases h
    rw [findPendingReport, List.mem_filter]
    exact and_congr_right fun _ => ⟨congrArg _, Except.ok.inj⟩
  | positionSync | provider | scanner | pm | monitor => cases h; exact (and_iff_left rfl).symm

/-- What the agent of a stage reads of the node that it works on. -/
def stageReads (r : SnapshotReaders) : ResumeStage → PipelineNode → Except HandlerError Unit
  | .scanner, n => scanMarketReads r n
  | .analyst, n => analyzeScanReads n
  | .pm, n => evaluateAnalystReads n
  | .execution, n => executePmReads n
  | .reporter, n => reportMonitorReads n
  | _, _ => pure ()

/-- The MarketData that the agents from a stage onward reach from the node the stage works on. -/
def lineageMarket (g : PipelineGraph) : ResumeStage → PipelineNode → Option PipelineNode
  | .scanner, n => some n
  | .analyst, n => marketNode g n.nodeKey
  | .pm, n => analystMarket g n.nodeKey
  | .execution, n => pmMarket g n.nodeKey
  | .monitor, n => executionMarket g n.nodeKey
  | _, _ => none

/-- The stages from which an agent is still to read the MarketData; the monitor is the last. -/
def marketReaders : List ResumeStage := [.scanner, .analyst, .pm, .execution, .monitor]

/-- The stages from which an agent is still to read the regime; the portfolio manager is the
last. -/
def regimeReaders : List ResumeStage := [.scanner, .analyst, .pm]

/-! ### A child that runs -/

/-- From some time on each completed poll of the stage's agent finds the child's node. -/
def Found (fromIso : String → Option Int) (settings : ExecutionSettings) (u : PipelineGraph)
    (child : String) (stage : ResumeStage) : Prop :=
  ∃ n, u.nodes.get? (cloneOf child (workName stage)) = some n ∧
    ∃ start, ∀ now ≥ start, ∀ items,
      stagePoll fromIso settings u now stage = .ok items → n ∈ items

/-- The provider's readers, and the day on which it comes to a request. -/
structure IngestReaders where
  names : NameReader
  numerals : Numerals
  digest : String → String
  holidays : Holidays
  today : Day

/-- What the provider ingests for a request. -/
def IngestReaders.ingest (r : IngestReaders) (g : PipelineGraph) (n : PipelineNode) :
    Except HandlerError RunIngest :=
  ingestRunNode r.names r.numerals r.digest r.holidays r.today g n

/-- The provider accepts both requests, for one window, one required history and one benchmark. -/
def IngestedAlike (r : IngestReaders) (g u : PipelineGraph) (source request : PipelineNode) :
    Prop :=
  ∃ theirs ours, r.ingest g source = .ok theirs ∧ r.ingest u request = .ok ours ∧
    ours.asOf = theirs.asOf ∧ ours.lookbackDays = theirs.lookbackDays ∧
    ours.benchmarkTicker = theirs.benchmarkTicker ∧
    requiredHistoryBars request = requiredHistoryBars source

/-- The agents from a stage onward can read what they reach from the node that it works on. -/
structure StageReadable (s : SnapshotReaders) (u : PipelineGraph) (stage : ResumeStage)
    (n : PipelineNode) : Prop where
  work : stageReads s stage n = .ok ()
  lineage : stage ∈ marketReaders → ∃ market, lineageMarket u stage n = some market ∧
    readMarket s market = .ok () ∧ (stage ∈ regimeReaders → readRegime s u market = .ok ())

/-- A child placed in `u` lets the stages from `stage` onward run. -/
structure ChildRuns (fromIso : String → Option Int) (settings : ExecutionSettings)
    (r : IngestReaders) (s : SnapshotReaders) (g u : PipelineGraph) (sourceRunId : String)
    (stage : ResumeStage) : Prop where
  /-- The resumed stage comes to its work. -/
  found : Found fromIso settings u (childId sourceRunId stage) stage
  /-- It can do the work, and the stages after it theirs. -/
  readable : ∀ n, u.nodes.get? (cloneOf (childId sourceRunId stage) (workName stage)) = some n →
    StageReadable s u stage n
  /-- A stage that fetches fetches what the source fetched. -/
  ingested : stage = .positionSync ∨ stage = .provider →
    ∀ source, g.getNode runRequestLabel (runRequestKey sourceRunId) = some source →
      ∀ request, u.getNode runRequestLabel (runRequestKey (childId sourceRunId stage)) =
        some request → IngestedAlike r g u source request
  /-- A scan that is to come finds its book synced. -/
  synced : stage = .scanner → positionBookSyncAttempted u (childId sourceRunId stage) = true

/-- The source run came as far as the stage: its book was synced before its scans were analysed, and
its MonitorRun is one of a report. -/
def SourceReady (g : PipelineGraph) (sourceRunId : String) : ResumeStage → Prop
  | .scanner => positionBookSyncAttempted g sourceRunId = true
  | .analyst => positionBookSyncAttempted g sourceRunId = true
  | .reporter => ∀ m, (walkChain g sourceRunId).get? .monitorRun = some m →
      (m.get "phase").pyEq (.str positionSyncPhase) = false
  | _ => True

/-- The artifacts of the source run, and the regime of its MarketData, hold what the agents from the
stage onward read.  A MonitorRun is told its PMRun when it is linked. -/
structure SourceReadable (s : SnapshotReaders) (g : PipelineGraph) (sourceRunId : String)
    (stage : ResumeStage) : Prop where
  work : stage ≠ .reporter → ∀ src, (walkChain g sourceRunId).get? (workName stage) = some src →
    stageReads s stage src = .ok ()
  market : stage ∈ marketReaders → ∀ m, (walkChain g sourceRunId).get? .marketData = some m →
    readMarket s m = .ok ()
  regime : stage ∈ regimeReaders → ∀ n,
    regimeSource g (walkChain g sourceRunId) (requiredArtifacts stage) = some n →
      requireValid n "snapshot" s.regimeContext = .ok ()

/-! ### The provider and a child -/

section Child

variable {g u : PipelineGraph} {sourceRunId : String} {stage : ResumeStage} {source : PipelineNode}
  {nodes : Dict ChainKey PipelineNode} {resumedAt : String} {added : Linked}

/-- A child request declares no history, so the provider refuses it. -/
theorem PlacementWrote.refused
    (hw : PlacementWrote g sourceRunId stage source nodes resumedAt added u)
    (h : Placeable g sourceRunId stage source nodes) {request : PipelineNode}
    (hrequest : u.getNode runRequestLabel (runRequestKey (childId sourceRunId stage)) =
      some request) (r : IngestReaders) (t : PipelineGraph) (ours : RunIngest) :
    r.ingest t request ≠ .ok ours := by
  obtain ⟨tickers, request', -, hstands, -, hprops⟩ := hw.request_stands h
  cases hrequest.symm.trans hstands
  have hnone : request.get "lookback_days" = .null := by
    rw [Node.get, hprops]
    rfl
  rw [IngestReaders.ingest, ingestRunNode, declaredHistory_of_null hnone, Fallible.error_bind]
  intro heq
  cases heq

/-! ### The nodes of a child -/

theorem exists_required (hfirst : stage ≠ .positionSync) (hsecond : stage ≠ .provider) :
    ∃ a ∈ requiredArtifacts stage, a.chainKey = workName stage ∧
      a.label = (workName stage).label := by
  cases stage with
  | positionSync => exact absurd rfl hfirst
  | provider => exact absurd rfl hsecond
  | scanner | analyst | pm | execution | monitor | reporter => decide

theorem work_unprocessed (stage : ResumeStage) :
    (some (workName stage), processedEdge stage) ∉ childTags stage := by
  cases stage <;> decide

/-- The clone on which a stage is to work stands unprocessed. -/
theorem PlacementWrote.work_pending
    (hw : PlacementWrote g sourceRunId stage source nodes resumedAt added u)
    (h : Placeable g sourceRunId stage source nodes) (hfirst : stage ≠ .positionSync)
    (hsecond : stage ≠ .provider) : ∃ src props n, nodes.get? (workName stage) = some src ∧
      linkedProps (workName stage) src (childId sourceRunId stage) = .ok props ∧
      u.nodes.get? (cloneOf (childId sourceRunId stage) (workName stage)) = some n ∧
      n.props = props ∧ n.nodeKey = cloneOf (childId sourceRunId stage) (workName stage) ∧
      n ∈ u.pendingNodes (workName stage).label (processedEdge stage) := by
  obtain ⟨a, ha, hkey, hlabel⟩ := exists_required hfirst hsecond
  obtain ⟨src, props, hsrc, hprops, hstands, -⟩ := hw.clone_stands h ha
  have hclone := cloneOf_artifact (childId sourceRunId stage) (mem_artifacts_of_required ha)
  rw [hkey] at hsrc hprops hstands hclone
  rw [hlabel] at hstands hclone
  refine ⟨src, props, _, hsrc, hprops, hstands, rfl, hclone, Graph.mem_pendingNodes.mpr ⟨?_, rfl,
    fun e he ht hp => hw.no_edge h (work_unprocessed stage) he ht (hp.trans hclone)⟩⟩
  rw [Graph.getNode, hclone]
  exact hstands

/-! ### The synced book of a child -/

/-- The walk of a run holds its sync marker. -/
theorem walkFrom_positionSync {stages : List (String × ChainKey)} {k : NodeKey}
    {acc : Dict ChainKey PipelineNode} (h : ∀ p ∈ stages, p.2 ≠ .positionSync) :
    (walkFrom g stages k acc).get? .positionSync = acc.get? .positionSync := by
  induction stages generalizing k acc with
  | nil => rfl
  | cons p stages ih =>
    rw [walkFrom]
    split
    · rfl
    · rename_i child _
      have hset : (withArtifact g p.2 child acc).get? .positionSync = acc.get? .positionSync := by
        have hne : ChainKey.positionSync ≠ p.2 := (h p List.mem_cons_self).symm
        unfold withArtifact
        dsimp only
        split
        · split
          · exact Dict.get?_set_ne _ _ hne
          · rw [Dict.get?_set_ne _ _ (by decide), Dict.get?_set_ne _ _ hne]
        · exact Dict.get?_set_ne _ _ hne
      rw [ih fun q hq => h q (List.mem_cons_of_mem p hq), hset]

theorem walkChain_positionSync
    (hsource : g.getNode runRequestLabel (runRequestKey sourceRunId) = some source) :
    (walkChain g sourceRunId).get? .positionSync = positionSyncMarker g source.nodeKey := by
  unfold walkChain
  rw [hsource]
  dsimp only
  rw [walkFrom_positionSync (by decide)]
  cases positionSyncMarker g source.nodeKey with
  | none => rfl
  | some sync => exact Dict.get?_set_self _ _ _

/-- A run's book is synced when its marker says that it is fresh or stale. -/
theorem positionBookSyncAttempted_eq {runId : String} {request marker : PipelineNode}
    (hrequest : g.getNode runRequestLabel (runRequestKey runId) = some request)
    (hmarker : positionSyncMarker g request.nodeKey = some marker) :
    positionBookSyncAttempted g runId =
      ((marker.get "position_book_status").pyEq (.str "fresh") ||
        (marker.get "position_book_status").pyEq (.str "stale")) := by
  unfold positionBookSyncAttempted
  rw [hrequest]
  dsimp only
  rw [hmarker]

/-- An edge of an artifact's clone is the first of its type. -/
theorem PlacementWrote.firstChild_artifact
    (hw : PlacementWrote g sourceRunId stage source nodes resumedAt added u)
    (h : Placeable g sourceRunId stage source nodes) {a : ResumeArtifact}
    (ha : a ∈ requiredArtifacts stage) {src : PipelineNode}
    (hsrc : nodes.get? a.chainKey = some src)
    {e : Edge} (he : e ∈ artifactEdges (childId sourceRunId stage) a src.nodeKey)
    (hne : e.child ≠ e.parent) : firstChild u e.parent e.edgeType = u.nodes.get? e.child := by
  refine hw.firstChild_eq h ?_ hne
  refine List.mem_cons_of_mem _ (List.mem_append_left _ (List.mem_flatMap.mpr ⟨a, ha, ?_⟩))
  unfold artifactWriteEdges
  rw [hsrc]
  exact List.mem_append_left _ he

def syncArtifact : ResumeArtifact :=
  ⟨.positionSync, .positionSync, "MonitorRun", positionSyncEdge, .runRequest⟩

def scanArtifact : ResumeArtifact := ⟨.scanner, .scanRun, "ScanRun", scannedEdge, .marketData⟩

def marketArtifact : ResumeArtifact :=
  ⟨.provider, .marketData, "MarketData", ingestedEdge, .runRequest⟩

/-- A clone keeps what its links do not name. -/
theorem get?_linkedProps {key : ChainKey} {src : PipelineNode} {child : String}
    {props : Props Document} (h : linkedProps key src child = .ok props) {name : String}
    (hlink : name ∉ ["linked_from_key", "resume_run_id", "source_run_id", "run_id",
      "order_intent_set", "source_pm_run_id", "exec_run_id"]) :
    props.get? name = src.props.get? name := by
  simp only [List.mem_cons, List.not_mem_nil, or_false, not_or] at hlink
  obtain ⟨h₁, h₂, h₃, h₄, h₅, h₆, h₇⟩ := hlink
  have hbase : ∀ {p : Props Document} {link : String} {v : Value Document}, name ≠ link →
      (p.set link v).get? name = p.get? name := Dict.get?_set_ne _ _
  unfold linkedProps at h
  dsimp only at h
  split at h
  · cases h
    rw [hbase h₃, hbase h₂, hbase h₁]
  · cases h
    rw [hbase h₄, hbase h₂, hbase h₁]
  · split at h
    · cases h
    · cases h
      rw [hbase h₅, hbase h₂, hbase h₁]
    · cases h
  · cases h
    rw [hbase h₆, hbase h₂, hbase h₁]
  · cases h
    rw [hbase h₇, hbase h₃, hbase h₂, hbase h₁]
  · cases h
    rw [hbase h₂, hbase h₁]

theorem get_linkedProps {key : ChainKey} {src : PipelineNode} {child : String}
    {props : Props Document} (h : linkedProps key src child = .ok props) {name : String}
    (hlink : name ∉ ["linked_from_key", "resume_run_id", "source_run_id", "run_id",
      "order_intent_set", "source_pm_run_id", "exec_run_id"]) :
    Props.get props name = src.get name := by
  rw [Props.get, Node.get, Props.get, get?_linkedProps h hlink]

/-- The child's marker is a clone of the source's. -/
theorem PlacementWrote.book_synced
    (hw : PlacementWrote g sourceRunId stage source nodes resumedAt added u)
    (h : Placeable g sourceRunId stage source nodes)
    (hsource : g.getNode runRequestLabel (runRequestKey sourceRunId) = some source)
    (hnodes : nodes = walkChain g sourceRunId) (hfirst : stage ≠ .positionSync) :
    positionBookSyncAttempted u (childId sourceRunId stage) =
      positionBookSyncAttempted g sourceRunId := by
  have ha : syncArtifact ∈ requiredArtifacts stage := by
    revert hfirst
    cases stage <;> decide
  obtain ⟨marker, props, hmarker, hprops, hstands, -⟩ := hw.clone_stands h ha
  obtain ⟨tickers, request, -, hrequest, hkey, -⟩ := hw.request_stands h
  have hchild : firstChild u (cloneOf (childId sourceRunId stage) .runRequest) positionSyncEdge =
      some ⟨"MonitorRun", cloneKey (childId sourceRunId stage) .positionSync, props, 1⟩ :=
    (hw.firstChild_artifact h ha hmarker List.mem_cons_self fun heq =>
      (show "MonitorRun" ≠ "RunRequest" by decide) (congrArg Prod.fst heq)).trans hstands
  replace hmarker : (walkChain g sourceRunId).get? .positionSync = some marker := hnodes ▸ hmarker
  rw [walkChain_positionSync hsource] at hmarker
  -- the clone keeps the phase and the status of the marker
  have hkept {name : String} := @get_linkedProps _ _ _ _ hprops name
  have hphase : isSyncMarker
      ⟨"MonitorRun", cloneKey (childId sourceRunId stage) .positionSync, props, 1⟩ = true := by
    have hmarks := List.find?_some hmarker
    rw [isSyncMarker, Bool.and_eq_true] at hmarks ⊢
    refine ⟨decide_eq_true rfl, ?_⟩
    rw [Node.get, hkept (by decide)]
    exact hmarks.2
  have hcloned : positionSyncMarker u request.nodeKey = some
      ⟨"MonitorRun", cloneKey (childId sourceRunId stage) .positionSync, props, 1⟩ := by
    obtain ⟨rest, hlist⟩ := List.head?_eq_some_iff.mp hchild
    rw [hkey, positionSyncMarker, hlist, List.find?_cons_of_pos hphase]
  rw [positionBookSyncAttempted_eq hrequest hcloned, positionBookSyncAttempted_eq hsource hmarker]
  simp only [Node.get, hkept (show "position_book_status" ∉ _ by decide)]

/-- The scan of a child is derived from its market data. -/
theorem PlacementWrote.scan_market
    (hw : PlacementWrote g sourceRunId stage source nodes resumedAt added u)
    (h : Placeable g sourceRunId stage source nodes)
    (hscan : scanArtifact ∈ requiredArtifacts stage) {market : PipelineNode}
    (hmarket : u.nodes.get? (cloneOf (childId sourceRunId stage) .marketData) = some market) :
    marketNode u (cloneOf (childId sourceRunId stage) .scanRun) = some market := by
  obtain ⟨scan, -, hsource, -⟩ := hw.clone_stands h hscan
  have hderived : ⟨cloneOf (childId sourceRunId stage) .scanRun,
      cloneOf (childId sourceRunId stage) .marketData, derivedFromEdge⟩ ∈
        artifactEdges (childId sourceRunId stage) scanArtifact scan.nodeKey :=
    List.mem_append_right _ List.mem_cons_self
  exact (hw.firstChild_artifact h hscan hsource hderived fun heq =>
    (show "MarketData" ≠ "ScanRun" by decide) (congrArg Prod.fst heq)).trans hmarket

/-- The market data of a child carries the child's id. -/
theorem PlacementWrote.market_stands
    (hw : PlacementWrote g sourceRunId stage source nodes resumedAt added u)
    (h : Placeable g sourceRunId stage source nodes)
    (hmarket : marketArtifact ∈ requiredArtifacts stage) :
    ∃ src market, nodes.get? .marketData = some src ∧
      u.nodes.get? (cloneOf (childId sourceRunId stage) .marketData) = some market ∧
      (∀ r, readMarket r market = readMarket r src) ∧
      market.props.get? "run_id" = some (.str (childId sourceRunId stage)) := by
  obtain ⟨src, props, hsrc, hprops, hstands, -⟩ := hw.clone_stands h hmarket
  refine ⟨src, _, hsrc, hstands,
    fun r => requireValid_congr (get?_linkedProps hprops (by decide)), ?_⟩
  cases hprops
  exact Dict.get?_set_self _ _ _

/-- The scan of a child has the child's book. -/
theorem PlacementWrote.scan_synced
    (hw : PlacementWrote g sourceRunId stage source nodes resumedAt added u)
    (h : Placeable g sourceRunId stage source nodes)
    (hscan : scanArtifact ∈ requiredArtifacts stage)
    (hmarket : marketArtifact ∈ requiredArtifacts stage) {n : PipelineNode}
    (hkey : n.nodeKey = cloneOf (childId sourceRunId stage) .scanRun) :
    bookSyncAttempted u n = positionBookSyncAttempted u (childId sourceRunId stage) := by
  obtain ⟨src, market, -, hstands, -, hrun⟩ := hw.market_stands h hmarket
  unfold bookSyncAttempted
  rw [hkey, hw.scan_market h hscan hstands]
  dsimp only
  rw [marketRunId, Node.get, Props.get, hrun]
  rfl

/-! ### The reads of a child -/

/-- A child whose source's market data has no regime gets none. -/
theorem PlacementWrote.no_regime
    (hw : PlacementWrote g sourceRunId stage source nodes resumedAt added u)
    (h : Placeable g sourceRunId stage source nodes)
    (hregime : regimeSource g nodes (requiredArtifacts stage) = none) :
    u.getNode regimeContextLabel (regimeKey (childId sourceRunId stage)) = none := by
  have hother : ∀ w ∈ added.writes,
      w.node? ≠ some (regimeContextLabel, regimeKey (childId sourceRunId stage)) := by
    intro w hmem hnode
    have hin := List.mem_filterMap.mpr ⟨w, hmem, hnode⟩
    rw [hw.adds.nodes, placementNodes, hregime] at hin
    simp only [Option.toList_none, List.map_nil, List.append_nil, List.mem_cons,
      List.mem_map] at hin
    rcases hin with hin | ⟨a, -, hin⟩
    · exact cloneOf_ne_regime _ _ _ hin.symm
    · exact cloneOf_ne_regime _ _ _ hin
  rw [Graph.getNode_writeAll hw.wrote hother]
  have hfree := h.untouched none
  rw [Graph.mem_keys_iff] at hfree
  exact Option.not_isSome_iff_eq_none.mp hfree

/-- A child whose source's market data has a regime gets a clone of it. -/
theorem PlacementWrote.regime_clone
    (hw : PlacementWrote g sourceRunId stage source nodes resumedAt added u)
    (h : Placeable g sourceRunId stage source nodes) {src : PipelineNode}
    (hregime : regimeSource g nodes (requiredArtifacts stage) = some src) :
    u.getNode regimeContextLabel (regimeKey (childId sourceRunId stage)) =
      some ⟨regimeContextLabel, regimeKey (childId sourceRunId stage),
        (src.props.set "run_id" (.str (childId sourceRunId stage))).set "linked_from_key"
          (.str src.key), 1⟩ := by
  refine hw.node_eq h ?_
  have hpart : linkRegime (childId sourceRunId stage) nodes (requiredArtifacts stage) g = .ok {
      writes := [
        .merge regimeContextLabel (regimeKey (childId sourceRunId stage))
          ((src.props.set "run_id" (.str (childId sourceRunId stage))).set "linked_from_key"
            (.str src.key)),
        .link ⟨regimeOf (childId sourceRunId stage), src.nodeKey, linkedFromEdge⟩]
      refs := [nodeRef src] } := by
    rw [linkRegime, hregime]
  rw [hw.writes, placementSteps, List.mem_flatMap]
  refine ⟨_, List.mem_cons_of_mem _ (List.mem_append_right _ (List.mem_singleton_self _)), ?_⟩
  rw [writesAt_eq hpart]
  exact List.mem_cons_self

/-- The regime of a child is readable exactly when the one it is a clone of is. -/
theorem PlacementWrote.regime_reads
    (hw : PlacementWrote g sourceRunId stage source nodes resumedAt added u)
    (h : Placeable g sourceRunId stage source nodes) {market : PipelineNode}
    (hrun : market.props.get? "run_id" = some (.str (childId sourceRunId stage)))
    (s : SnapshotReaders) : readRegime s u market = .ok () ↔
      ∀ n, regimeSource g nodes (requiredArtifacts stage) = some n →
        requireValid n "snapshot" s.regimeContext = .ok () := by
  have hread : readRegime s u market =
      (u.getNode regimeContextLabel (regimeKey (childId sourceRunId stage))).elim (.ok ())
        fun regime => requireValid regime "snapshot" s.regimeContext :=
    readRegime_of_run s u hrun
  rw [hread]
  cases hregime : regimeSource g nodes (requiredArtifacts stage) with
  | none =>
    rw [hw.no_regime h hregime]
    simp
  | some src =>
    rw [hw.regime_clone h hregime]
    have hsame : requireValid ⟨regimeContextLabel, regimeKey (childId sourceRunId stage),
        (src.props.set "run_id" (.str (childId sourceRunId stage))).set "linked_from_key"
          (.str src.key), 1⟩ "snapshot" s.regimeContext =
        requireValid src "snapshot" s.regimeContext := by
      refine requireValid_congr ?_
      rw [Dict.get?_set_ne _ _ (by decide), Dict.get?_set_ne _ _ (by decide)]
    simp only [Option.elim_some, hsame, Option.some.injEq, forall_eq']

/-- The parent of a clone by the edge of its artifact. -/
theorem PlacementWrote.firstParent_clone
    (hw : PlacementWrote g sourceRunId stage source nodes resumedAt added u)
    (h : Placeable g sourceRunId stage source nodes) {a b : ResumeArtifact}
    (ha : a ∈ requiredArtifacts stage) (hb : b ∈ requiredArtifacts stage)
    (hparent : a.parent = b.chainKey) (hne : b.chainKey ≠ a.chainKey) :
    ∃ parent, firstParent u (cloneOf (childId sourceRunId stage) a.chainKey) a.edge =
      some parent ∧ parent.nodeKey = cloneOf (childId sourceRunId stage) b.chainKey := by
  obtain ⟨_, _, _, _, hstands, _⟩ := hw.clone_stands h hb
  refine ⟨_, ?_, u.named _ _ hstands⟩
  have hmain := h.filter_edges
  have hedge : mainEdge (childId sourceRunId stage) a ∈ u.edges := by
    have hin := List.mem_map_of_mem (f := mainEdge (childId sourceRunId stage)) ha
    rw [← hmain] at hin
    rw [hw.edges_eq h]
    exact List.mem_append_right _ (List.mem_filter.mp hin).1
  refine firstParent_eq (e := mainEdge (childId sourceRunId stage) a) hedge ?_
    ((congrArg (fun key => u.nodes.get? (cloneOf _ key)) hparent).trans hstands) ?_
  · intro heq
    exact hne (hparent ▸ cloneOf_injective _ heq)
  · intro e he hchild htype
    rw [hw.edges_eq h] at he
    rcases List.mem_append.mp he with hold | hnew
    · have hin := (g.closed e hold).2
      rw [hchild] at hin
      exact (h.untouched (some a.chainKey) hin).elim
    · have hin : e ∈ (requiredArtifacts stage).map (mainEdge (childId sourceRunId stage)) := by
        rw [← hmain]
        refine List.mem_filter.mpr ⟨hnew, decide_eq_true ?_⟩
        rw [htype]
        exact List.mem_map_of_mem (mem_artifacts_of_required ha)
      obtain ⟨a', ha', rfl⟩ := List.mem_map.mp hin
      have hkey : a'.chainKey = a.chainKey := cloneOf_injective _ hchild
      have hsame : a' = a := by
        have hall : ∀ x ∈ artifacts, ∀ y ∈ artifacts, x.chainKey = y.chainKey → x = y := by decide
        exact hall _ (mem_artifacts_of_required ha') _ (mem_artifacts_of_required ha) hkey
      rw [hsame]

def analystArtifact : ResumeArtifact :=
  ⟨.analyst, .analystRun, "AnalystRun", analyzedEdge, .scanRun⟩

def pmArtifact : ResumeArtifact := ⟨.pm, .pmRun, "PMRun", evaluatedEdge, .analystRun⟩

def executionArtifact : ResumeArtifact :=
  ⟨.execution, .executionRun, "ExecutionRun", executedEdge, .pmRun⟩

/-- The agents from a stage onward reach the child's market data. -/
theorem PlacementWrote.lineage_market
    (hw : PlacementWrote g sourceRunId stage source nodes resumedAt added u)
    (h : Placeable g sourceRunId stage source nodes) (hstage : stage ∈ marketReaders)
    {n market : PipelineNode}
    (hn : u.nodes.get? (cloneOf (childId sourceRunId stage) (workName stage)) = some n)
    (hmarket : u.nodes.get? (cloneOf (childId sourceRunId stage) .marketData) = some market) :
    lineageMarket u stage n = some market := by
  have hkey := u.named _ _ hn
  have hscan (hr : scanArtifact ∈ requiredArtifacts stage) := hw.scan_market h hr hmarket
  have hanalyst (hr : scanArtifact ∈ requiredArtifacts stage)
      (hr' : analystArtifact ∈ requiredArtifacts stage) :
      analystMarket u (cloneOf (childId sourceRunId stage) .analystRun) = some market := by
    obtain ⟨scan, hparent, hscanKey⟩ := hw.firstParent_clone h hr' hr rfl (by decide)
    unfold analystMarket
    rw [show firstParent u (cloneOf (childId sourceRunId stage) .analystRun) analyzedEdge =
      some scan from hparent, Option.bind_some, hscanKey]
    exact hscan hr
  have hpm (hr : scanArtifact ∈ requiredArtifacts stage)
      (hr' : analystArtifact ∈ requiredArtifacts stage)
      (hr'' : pmArtifact ∈ requiredArtifacts stage) :
      pmMarket u (cloneOf (childId sourceRunId stage) .pmRun) = some market := by
    obtain ⟨analyst, hparent, hanalystKey⟩ := hw.firstParent_clone h hr'' hr' rfl (by decide)
    unfold pmMarket
    rw [show firstParent u (cloneOf (childId sourceRunId stage) .pmRun) evaluatedEdge = some analyst
      from hparent, Option.bind_some, hanalystKey]
    exact hanalyst hr hr'
  cases stage with
  | scanner => exact hn.symm.trans hmarket
  | analyst =>
    rw [lineageMarket, hkey]
    exact hscan (by decide)
  | pm =>
    rw [lineageMarket, hkey]
    exact hanalyst (by decide) (by decide)
  | execution =>
    rw [lineageMarket, hkey]
    exact hpm (by decide) (by decide) (by decide)
  | monitor =>
    obtain ⟨pmRun, hparent, hpmKey⟩ := hw.firstParent_clone (a := executionArtifact)
      (b := pmArtifact) h (by decide) (by decide) rfl (by decide)
    have hparent' : firstParent u n.nodeKey executedEdge = some pmRun := hkey ▸ hparent
    rw [lineageMarket, executionMarket, hparent', Option.bind_some, hpmKey]
    exact hpm (by decide) (by decide) (by decide)
  | positionSync | provider | reporter => exact absurd hstage (by decide)

/-- The clone of a PMRun carries an order set. -/
theorem orderSet_of_linkedProps {src n : PipelineNode} {child : String}
    (h : linkedProps .pmRun src child = .ok n.props) : ∃ s, orderIntentSet? n = some s := by
  unfold linkedProps at h
  dsimp only at h
  split at h
  · cases h
  · rename_i s _
    refine ⟨relinkOrderSet s (cloneKey child .pmRun), orderIntentSet?_eq_some.mpr ?_⟩
    rw [← Except.ok.inj h]
    exact Dict.get?_set_self _ _ _
  · cases h

/-- A PMRun that is cloned carries an order set itself. -/
theorem orderSet_of_source {src : PipelineNode} {props : Props Document} {child : String}
    (h : linkedProps .pmRun src child = .ok props) :
    ∃ s, src.props.get? "order_intent_set" = some (.doc (.orderIntentSet s)) := by
  unfold linkedProps at h
  dsimp only at h
  rw [Dict.get?_set_ne _ _ (by decide), Dict.get?_set_ne _ _ (by decide)] at h
  split at h
  · cases h
  · rename_i s hs
    exact ⟨s, hs⟩
  · cases h

/-- An agent reads off a clone what it would read off the source's artifact; a MonitorRun is told
its PMRun when it is linked. -/
theorem PlacementWrote.stage_reads
    (hw : PlacementWrote g sourceRunId stage source nodes resumedAt added u)
    (h : Placeable g sourceRunId stage source nodes) (hfirst : stage ≠ .positionSync)
    (hsecond : stage ≠ .provider) {n : PipelineNode}
    (hn : u.nodes.get? (cloneOf (childId sourceRunId stage) (workName stage)) = some n)
    (s : SnapshotReaders) : stageReads s stage n = .ok () ↔
      (stage ≠ .reporter → ∀ src, nodes.get? (workName stage) = some src →
        stageReads s stage src = .ok ()) := by
  obtain ⟨src, props, n', hsrc, hprops, hstands, rfl, -⟩ := hw.work_pending h hfirst hsecond
  cases hn.symm.trans hstands
  simp only [hsrc, Option.some.injEq, forall_eq']
  have hkept {name : String} := @get?_linkedProps _ _ _ _ hprops name
  cases stage with
  | positionSync => exact absurd rfl hfirst
  | provider => exact absurd rfl hsecond
  | scanner =>
    have hsame : scanMarketReads s n = scanMarketReads s src := by
      unfold scanMarketReads readMarket
      rw [requireValid_congr (hkept (by decide)), requireValid_congr (hkept (by decide)),
        requireValid_congr (hkept (by decide))]
    exact ⟨fun hok _ => hsame.symm.trans hok, fun hok => hsame.trans (hok (by decide))⟩
  | analyst =>
    have hsame : analyzeScanReads n = analyzeScanReads src :=
      requireValid_congr (hkept (by decide))
    exact ⟨fun hok _ => hsame.symm.trans hok, fun hok => hsame.trans (hok (by decide))⟩
  | pm =>
    have hsame : evaluateAnalystReads n = evaluateAnalystReads src :=
      requireValid_congr (hkept (by decide))
    exact ⟨fun hok _ => hsame.symm.trans hok, fun hok => hsame.trans (hok (by decide))⟩
  | execution =>
    refine iff_of_true ?_ fun _ => ?_
    · obtain ⟨set, hset⟩ := orderSet_of_linkedProps hprops
      change executePmReads n = _
      rw [executePmReads, requireValid, Kernel.Node.require, orderIntentSet?_eq_some.mp hset]
      rfl
    · obtain ⟨set, hset⟩ := orderSet_of_source hprops
      change executePmReads src = _
      rw [executePmReads, requireValid, Kernel.Node.require, hset]
      rfl
  | monitor => exact iff_of_true rfl fun _ => rfl
  | reporter =>
    refine iff_of_true ?_ fun hne => absurd rfl hne
    change reportMonitorReads n = _
    have hrun : n.props.get? "source_run_id" =
        some (.str (cloneKey (childId sourceRunId .reporter) .pmRun)) := by
      rw [← Except.ok.inj hprops, Dict.get?_set_ne _ _ (by decide), Dict.get?_set_self]
    rw [reportMonitorReads, Kernel.Node.require, hrun]
    rfl

/-- The agents can read a child exactly when they could read the source's artifacts. -/
theorem PlacementWrote.readable_iff
    (hw : PlacementWrote g sourceRunId stage source nodes resumedAt added u)
    (h : Placeable g sourceRunId stage source nodes) (hnodes : nodes = walkChain g sourceRunId)
    (hfirst : stage ≠ .positionSync) (hsecond : stage ≠ .provider) (s : SnapshotReaders) :
    (∀ n, u.nodes.get? (cloneOf (childId sourceRunId stage) (workName stage)) = some n →
      StageReadable s u stage n) ↔ SourceReadable s g sourceRunId stage := by
  subst hnodes
  obtain ⟨-, -, n, -, -, hn, -⟩ := hw.work_pending h hfirst hsecond
  have hreads := hw.stage_reads h hfirst hsecond hn s
  have hmarketArtifact : marketArtifact ∈ requiredArtifacts stage := by
    revert hfirst hsecond
    cases stage <;> decide
  obtain ⟨src, market, hsrc, hmarket, hsame, hrun⟩ := hw.market_stands h hmarketArtifact
  have hregime := hw.regime_reads h hrun s
  simp only [hn, Option.some.injEq, forall_eq']
  constructor
  · rintro ⟨hwork, hlineage⟩
    refine ⟨hreads.mp hwork, fun hstage m hm => ?_, fun hstage => ?_⟩
    · obtain ⟨market', hreached, hread, -⟩ := hlineage hstage
      rw [hw.lineage_market h hstage hn hmarket, Option.some.injEq] at hreached
      rw [hsrc, Option.some.injEq] at hm
      rw [← hm, ← hsame s, hreached]
      exact hread
    · have hreader : stage ∈ marketReaders := by
        revert hstage
        cases stage <;> decide
      obtain ⟨market', hreached, -, hread⟩ := hlineage hreader
      rw [hw.lineage_market h hreader hn hmarket, Option.some.injEq] at hreached
      rw [← hregime, hreached]
      exact hread hstage
  · rintro ⟨hwork, hmarketRead, hregimeRead⟩
    refine ⟨hreads.mpr hwork, fun hstage => ⟨market, hw.lineage_market h hstage hn hmarket, ?_,
      fun hreader => hregime.mpr (hregimeRead hreader)⟩⟩
    rw [hsame s]
    exact hmarketRead hstage src hsrc

/-- Once its grace is over a PMRun is not waited for. -/
theorem eventually_taken (fromIso : String → Option Int) (settings : ExecutionSettings)
    (n : PipelineNode) {s : OrderIntentSet} (hset : orderIntentSet? n = some s) :
    ∃ start, ∀ now ≥ start, takesUp fromIso settings u now .execution n = .ok true := by
  have hget : n.get "order_intent_set" = .doc (.orderIntentSet s) := by
    rw [Node.get, Props.get, orderIntentSet?_eq_some.mp hset]
    rfl
  have hover : ∃ start, ∀ now ≥ start,
      graceOver fromIso n now settings.deliberationGraceSeconds = true := by
    unfold graceOver ageMicros
    split
    · rename_i raw hraw
      cases fromIso raw with
      | none => exact ⟨0, fun _ _ => rfl⟩
      | some created =>
        refine ⟨settings.deliberationGraceSeconds * 1000000 + created, fun now hnow => ?_⟩
        exact decide_eq_true (by dsimp only; omega)
    · exact ⟨0, fun _ _ => rfl⟩
  obtain ⟨start, hstart⟩ := hover
  refine ⟨start, fun now hnow => ?_⟩
  have hstatus : deliberationStatus fromIso u n s now settings.deliberationGraceSeconds ≠
      .waiting := by
    unfold deliberationStatus
    rw [hstart now hnow]
    split
    · split <;> decide
    · split
      · decide
      · split <;> decide
  have hwaits : isWaiting fromIso u n now settings = .ok false := by
    unfold isWaiting
    rw [hget]
    exact congrArg Except.ok (decide_eq_false hstatus)
  change (do pure !(← isWaiting fromIso u n now settings)) = _
  rw [hwaits]
  rfl

/-- A child from a later stage is found when the source came as far. -/
theorem PlacementWrote.found_of_ready
    (hw : PlacementWrote g sourceRunId stage source nodes resumedAt added u)
    (h : Placeable g sourceRunId stage source nodes)
    (hsource : g.getNode runRequestLabel (runRequestKey sourceRunId) = some source)
    (hnodes : nodes = walkChain g sourceRunId) (hfirst : stage ≠ .positionSync)
    (hsecond : stage ≠ .provider) (hready : SourceReady g sourceRunId stage)
    (fromIso : String → Option Int) (settings : ExecutionSettings) :
    Found fromIso settings u (childId sourceRunId stage) stage := by
  obtain ⟨src, props, n, hsrc, hprops, hstands, rfl, hkey, hpending⟩ :=
    hw.work_pending h hfirst hsecond
  suffices ∃ start, ∀ now ≥ start, takesUp fromIso settings u now stage n = .ok true by
    obtain ⟨start, htaken⟩ := this
    exact ⟨n, hstands, start, fun now hnow items hok =>
      (mem_stagePoll hok).mpr ⟨hpending, htaken now hnow⟩⟩
  cases stage with
  | positionSync => exact absurd rfl hfirst
  | provider => exact absurd rfl hsecond
  | scanner => exact ⟨0, fun _ _ => rfl⟩
  | analyst =>
    refine ⟨0, fun _ _ => congrArg Except.ok ?_⟩
    rw [hw.scan_synced h (by decide) (by decide) hkey, hw.book_synced h hsource hnodes hfirst]
    exact hready
  | pm => exact ⟨0, fun _ _ => rfl⟩
  | execution =>
    obtain ⟨s, hset⟩ := orderSet_of_linkedProps hprops
    exact eventually_taken fromIso settings n hset
  | monitor => exact ⟨0, fun _ _ => rfl⟩
  | reporter =>
    refine ⟨0, fun _ _ => congrArg Except.ok ?_⟩
    have hphase := hready src (hnodes ▸ hsrc)
    rw [← get_linkedProps hprops (by decide)] at hphase
    rw [Node.get, hphase]
    rfl

/-- A child that is found tells that the source came as far. -/
theorem PlacementWrote.ready_of_found
    (hw : PlacementWrote g sourceRunId stage source nodes resumedAt added u)
    (h : Placeable g sourceRunId stage source nodes)
    (hsource : g.getNode runRequestLabel (runRequestKey sourceRunId) = some source)
    (hnodes : nodes = walkChain g sourceRunId) {fromIso : String → Option Int}
    {settings : ExecutionSettings}
    (hfound : Found fromIso settings u (childId sourceRunId stage) stage)
    (hsynced : stage = .scanner → positionBookSyncAttempted u (childId sourceRunId stage) = true) :
    SourceReady g sourceRunId stage := by
  obtain ⟨n, hstands, start, hpolls⟩ := hfound
  cases stage with
  | scanner =>
    rw [SourceReady, ← hw.book_synced h hsource hnodes (by decide)]
    exact hsynced rfl
  | analyst =>
    have hok : stagePoll fromIso settings u start .analyst = .ok (findPendingAnalysis u) := rfl
    have htaken := ((mem_stagePoll hok).mp (hpolls start le_rfl _ hok)).2
    have hbook : bookSyncAttempted u n = true := Except.ok.inj htaken
    rw [SourceReady, ← hw.book_synced h hsource hnodes (by decide),
      ← hw.scan_synced h (by decide) (by decide) (u.named _ _ hstands)]
    exact hbook
  | reporter =>
    intro m hm
    obtain ⟨src, props, n', hsrc, hprops, hstands', rfl, -⟩ :=
      hw.work_pending h (by decide) (by decide)
    cases hstands.symm.trans hstands'
    cases hm.symm.trans (hnodes ▸ hsrc)
    have hok : stagePoll fromIso settings u start .reporter = .ok (findPendingReport u) := rfl
    have htaken := ((mem_stagePoll hok).mp (hpolls start le_rfl _ hok)).2
    have hphase : (!(n.get "phase").pyEq (.str positionSyncPhase)) = true := Except.ok.inj htaken
    rw [Node.get, get_linkedProps hprops (by decide)] at hphase
    simpa using hphase
  | positionSync | provider | pm | execution | monitor => trivial

end Child

/-- A child lets its stages run exactly when it is resumed after the provider from a source that
came as far, of artifacts that the stages can read: the request of an earlier one declares no
history, and the provider refuses it. -/
theorem child_runs_iff (fromIso : String → Option Int) (settings : ExecutionSettings)
    (r : IngestReaders) (s : SnapshotReaders) {g u : PipelineGraph}
    {sourceRunId resumedAt : String} {stage : ResumeStage} {placement : ResumePlacement}
    (hfree : Untouched g (childId sourceRunId stage))
    (hplaced : resumeRun g sourceRunId stage resumedAt = .ok (placement, u)) :
    ChildRuns fromIso settings r s g u sourceRunId stage ↔
      (stage ≠ .positionSync ∧ stage ≠ .provider) ∧ SourceReady g sourceRunId stage ∧
        SourceReadable s g sourceRunId stage := by
  obtain ⟨source, nodes, added, hwalk, hrun, -⟩ := resumeRun_fresh hfree hplaced
  obtain ⟨hsource, hnodes, -⟩ := resumeSource_ok hwalk
  have h := Placeable.of_source hfree hwalk
  have hw := h.wrote hrun
  constructor
  · intro hruns
    have hlater (hearly : stage = .positionSync ∨ stage = .provider) : False := by
      obtain ⟨tickers, request, -, hrequest, -⟩ := hw.request_stands h
      obtain ⟨-, ours, -, hours, -⟩ := hruns.ingested hearly source hsource request hrequest
      exact hw.refused h hrequest r u ours hours
    have hfirst : stage ≠ .positionSync := fun hs => hlater (.inl hs)
    have hsecond : stage ≠ .provider := fun hs => hlater (.inr hs)
    exact ⟨⟨hfirst, hsecond⟩, hw.ready_of_found h hsource hnodes hruns.found hruns.synced,
      (hw.readable_iff h hnodes hfirst hsecond s).mp hruns.readable⟩
  · rintro ⟨⟨hfirst, hsecond⟩, hready, hreadable⟩
    refine ⟨hw.found_of_ready h hsource hnodes hfirst hsecond hready fromIso settings,
      (hw.readable_iff h hnodes hfirst hsecond s).mpr hreadable, fun hearly => ?_, ?_⟩
    · rcases hearly with hs | hs
      · exact absurd hs hfirst
      · exact absurd hs hsecond
    · rintro rfl
      rw [hw.book_synced h hsource hnodes hfirst]
      exact hready

/-! ### Two requests -/

/-- Readers that take texts as they are, on the tenth of August. -/
def plainIngest : IngestReaders where
  names := ⟨BrokerStops.textOr, id, id⟩
  numerals := ⟨fun _ => none, fun _ => none⟩
  digest := id
  holidays := []
  today := .ofFields 2026 8 10 (by decide)

/-- Snapshots are texts, and so are days. -/
def textReaders : SnapshotReaders where
  marketData v := v.str?.isSome
  regimeContext v := v.str?.isSome
  isoDate v := (v.str?.bind fromIsoformat).isSome

/-- A request that declares thirty days for ten sessions. -/
def declaredRequest : PipelineNode where
  label := runRequestLabel
  key := "run-request:acme"
  props := .ofList [("run_id", .str "acme"), ("tickers", .list [.str "AAPL"]),
    ("requested_at", .str "2026-08-07"), ("lookback_days", .int 30),
    ("required_history_bars", .int 10), ("benchmark_ticker", .str "SPY")]

def declaredGraph : PipelineGraph := Graph.empty.put declaredRequest

theorem declaredGraph_untouched : Untouched declaredGraph (childId "acme" .positionSync) := by
  rintro (_ | key)
  · decide
  · cases key <;> decide

/-- The provider accepts the request and refuses that of its child. -/
theorem child_of_accepted_refused : ∃ theirs placement u,
    plainIngest.ingest declaredGraph declaredRequest = .ok theirs ∧
      resumeRun declaredGraph "acme" .positionSync "t1" = .ok (placement, u) ∧
      ¬ ChildRuns (fun _ => none) {} plainIngest textReaders declaredGraph u "acme" .positionSync :=
    by
  have haccepted : Fallible.check (fun i => decide (i.lookbackDays = 30))
      (plainIngest.ingest declaredGraph declaredRequest) = true := by decide +kernel
  have hplaces : Fallible.check (fun r => decide (r.1.created = true))
      (resumeRun declaredGraph "acme" .positionSync "t1") = true := by decide +kernel
  obtain ⟨theirs, hok, -⟩ := Fallible.check_eq_true.mp haccepted
  obtain ⟨⟨placement, u⟩, hplaced, -⟩ := Fallible.check_eq_true.mp hplaces
  refine ⟨theirs, placement, u, hok, hplaced, fun hruns => ?_⟩
  obtain ⟨source, nodes, added, hwalk, hrun, -⟩ := resumeRun_fresh declaredGraph_untouched hplaced
  have h := Placeable.of_source declaredGraph_untouched hwalk
  have hw := h.wrote hrun
  obtain ⟨tickers, request, -, hrequest, -⟩ := hw.request_stands h
  obtain ⟨-, ours, -, hours, -⟩ := hruns.ingested (.inl rfl) declaredRequest rfl request hrequest
  exact hw.refused h hrequest plainIngest u ours hours

/-- Market data as its ingest writes it, with its snapshot as a text. -/
def ingestedMarket : PipelineNode where
  label := "MarketData"
  key := "market-data:acme"
  props := .ofList [("run_id", .str "acme"), ("tickers", .list [.str "AAPL"]),
    ("window_end", .str "2026-08-07"), ("snapshot", .str "bars")]

def ingestedRegime : PipelineNode where
  label := "RegimeContext"
  key := "regime-context:acme"
  props := .ofList [("run_id", .str "acme"), ("snapshot", .str "calm")]

/-- A synced run with its market data and the regime of it. -/
def ingestedGraph : PipelineGraph :=
  ((syncedGraph.put ingestedMarket).put ingestedRegime).link
    ⟨syncedRequest.nodeKey, ingestedMarket.nodeKey, ingestedEdge⟩ (by decide) (by decide)

theorem ingestedGraph_readable : SourceReadable textReaders ingestedGraph "acme" .scanner where
  work := fun _ src hsrc => by
    have hmarket : (walkChain ingestedGraph "acme").get? (workName .scanner) =
      some ingestedMarket := rfl
    cases hsrc.symm.trans hmarket
    rfl
  market := fun _ m hm => by
    have hmarket : (walkChain ingestedGraph "acme").get? .marketData = some ingestedMarket := rfl
    cases hm.symm.trans hmarket
    rfl
  regime := fun _ n hn => by
    have hregime : regimeSource ingestedGraph (walkChain ingestedGraph "acme")
      (requiredArtifacts .scanner) = some ingestedRegime := rfl
    cases hn.symm.trans hregime
    rfl

theorem child_runs_iff_scanner : ∃ placement u,
    resumeRun ingestedGraph "acme" .scanner "t1" = .ok (placement, u) ∧
      ChildRuns (fun _ => none) {} plainIngest textReaders ingestedGraph u "acme" .scanner := by
  have hplaces : Fallible.check (fun r => decide (r.1.created = true))
      (resumeRun ingestedGraph "acme" .scanner "t1") = true := by decide +kernel
  have hfree : Untouched ingestedGraph (childId "acme" .scanner) := by
    rintro (_ | key)
    · decide
    · cases key <;> decide
  have hsynced : positionBookSyncAttempted ingestedGraph "acme" = true := by decide +kernel
  obtain ⟨⟨placement, u⟩, hplaced, -⟩ := Fallible.check_eq_true.mp hplaces
  exact ⟨placement, u, hplaced, (child_runs_iff _ _ plainIngest textReaders hfree hplaced).mpr
    ⟨⟨by decide, by decide⟩, hsynced, ingestedGraph_readable⟩⟩

end TradingAgents.Orchestration
