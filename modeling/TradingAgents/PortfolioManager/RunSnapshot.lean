import Mathlib.Data.List.MinMax
import Mathlib.Data.String.Basic
import TradingAgents.Contracts.Documents
import TradingAgents.ProofKit.Grouping
import TradingAgents.ProofKit.Lineage

/-! The broker snapshot that a run weighs its held book at: its own, or that of the nearest run that
it resumes. -/

namespace TradingAgents.PortfolioManager

open Kernel ProofKit

def snapshotLabel : String := "BrokerPositionSnapshot"

def runRequestLabel : String := "RunRequest"

def maxResumeHops : Nat := 8

/-- `str` of a property. -/
structure StrOf where
  text : Value Document → String
  text_str : ∀ s, text (.str s) = s

variable (t : StrOf)

/-- `str(props.get(name, ""))`. -/
def StrOf.get (n : PipelineNode) (name : String) : String :=
  match n.props.get? name with
  | some v => t.text v
  | none => ""

/-- The first of the latest snapshots. -/
def latest (snapshots : List PipelineNode) : Option PipelineNode :=
  snapshots.argmax fun n => t.get n "created_at"

/-- The snapshots under the run that they name. -/
def snapshotsByRun (snapshots : List PipelineNode) : Dict String (List PipelineNode) :=
  snapshots.foldl (fun byRun n =>
    byRun.set (t.get n "run_id") ((byRun.get? (t.get n "run_id")).getD [] ++ [n])) .empty

/-- The run that a run resumes. -/
def sourceRunId (g : PipelineGraph) (runId : String) : Option String :=
  match g.getNode runRequestLabel ("run-request:" ++ runId) with
  | none => none
  | some request =>
    let source := request.get "source_run_id"
    if source.truthy then some (t.text source) else none

/-- The search of a lineage, in so many looks. -/
def snapshotAlong (g : PipelineGraph) (byRun : Dict String (List PipelineNode)) :
    Nat → Option String → Option PipelineNode
  | 0, _ => none
  | _ + 1, none => none
  | looks + 1, some current =>
    match latest t ((byRun.get? current).getD []) with
    | some found => some found
    | none => snapshotAlong g byRun looks (sourceRunId t g current)

/-- The latest snapshot of a run, else of the nearest run it resumes; of all runs if there is no
run. -/
def runSnapshot (g : PipelineGraph) (runId : Option String) : Option PipelineNode :=
  let snapshots := g.listNodes snapshotLabel
  match runId with
  | none => latest t snapshots
  | some runId => snapshotAlong t g (snapshotsByRun t snapshots) (maxResumeHops + 1) (some runId)

/-! ### The nearest snapshot -/

/-- The snapshots of a run, in the order of the store. -/
def snapshotsOf (g : PipelineGraph) (runId : String) : List PipelineNode :=
  (g.listNodes snapshotLabel).filter fun n => t.get n "run_id" = runId

section

variable {t} {g : PipelineGraph} {snapshots : List PipelineNode} {n : PipelineNode}

theorem latest_eq_none : latest t snapshots = none ↔ snapshots = [] := List.argmax_eq_none

theorem mem_of_latest (h : latest t snapshots = some n) : n ∈ snapshots := List.argmax_mem h

theorem le_latest (h : latest t snapshots = some n) {m : PipelineNode} (hm : m ∈ snapshots) :
    t.get m "created_at" ≤ t.get n "created_at" :=
  List.le_of_mem_argmax hm h

/-- A run finds its own snapshots under its name. -/
theorem get?_snapshotsByRun (runId : String) :
    ((snapshotsByRun t snapshots).get? runId).getD [] =
      snapshots.filter fun n => t.get n "run_id" = runId := by
  change ((groupBy (fun n => t.get n "run_id") id snapshots).get? runId).getD [] = _
  rw [getD_groupBy, List.map_id]

theorem snapshotAlong_eq_nearest (looks : Nat) (runId : Option String) :
    snapshotAlong t g (snapshotsByRun t (g.listNodes snapshotLabel)) looks runId =
      nearest (sourceRunId t g) (fun run => latest t (snapshotsOf t g run)) looks runId := by
  induction looks generalizing runId with
  | zero => rfl
  | succ looks ih =>
    cases runId with
    | none => rfl
    | some run =>
      rw [snapshotAlong, nearest, get?_snapshotsByRun, ← snapshotsOf, ih]
      cases latest t (snapshotsOf t g run) <;> rfl

end

/-- A snapshot that stands in the store at a run of the lineage within the hop bound, where no
nearer run has a snapshot and the run itself none that is later. -/
structure NearestSnapshot (g : PipelineGraph) (runId : String) (n : PipelineNode) : Prop where
  listed : n ∈ g.listNodes snapshotLabel
  nearest : ∃ hops ≤ maxResumeHops,
    lineage (sourceRunId t g) hops runId = some (t.get n "run_id") ∧
      ∀ nearer < hops, ∀ run, lineage (sourceRunId t g) nearer runId = some run →
        ∀ m ∈ g.listNodes snapshotLabel, t.get m "run_id" ≠ run
  latest : ∀ m ∈ g.listNodes snapshotLabel, t.get m "run_id" = t.get n "run_id" →
    t.get m "created_at" ≤ t.get n "created_at"

theorem snapshotsOf_eq_nil {g : PipelineGraph} {runId : String} :
    snapshotsOf t g runId = [] ↔ ∀ m ∈ g.listNodes snapshotLabel, t.get m "run_id" ≠ runId := by
  unfold snapshotsOf
  rw [List.filter_eq_nil_iff]
  simp

/-- Whatever the lineages of a graph look like, a run gets the snapshot nearest to it, and none only
if no run of its lineage within the hop bound has any. -/
theorem run_snapshot_nearest (g : PipelineGraph) (runId : String) :
    (∀ n, runSnapshot t g (some runId) = some n → NearestSnapshot t g runId n) ∧
      (runSnapshot t g (some runId) = none ↔ ∀ hops ≤ maxResumeHops, ∀ run,
        lineage (sourceRunId t g) hops runId = some run →
          ∀ m ∈ g.listNodes snapshotLabel, t.get m "run_id" ≠ run) := by
  change (∀ n, snapshotAlong t g _ _ _ = some n → _) ∧ (snapshotAlong t g _ _ _ = none ↔ _)
  rw [snapshotAlong_eq_nearest]
  constructor
  · intro n h
    obtain ⟨hops, hlt, run, hrun, hlatest, hnearer⟩ := lineage_of_nearest h
    obtain ⟨hlisted, hname⟩ := List.mem_filter.mp (mem_of_latest hlatest)
    have hname : t.get n "run_id" = run := by simpa using hname
    refine ⟨hlisted, ⟨hops, Nat.le_of_lt_succ hlt, hname ▸ hrun, ?_⟩, fun m hm hrun' => ?_⟩
    · intro nearer hlt' run' hrun'
      exact (snapshotsOf_eq_nil t).mp (latest_eq_none.mp (hnearer nearer hlt' run' hrun'))
    · exact le_latest hlatest (List.mem_filter.mpr ⟨hm, by simpa using hrun'.trans hname⟩)
  · rw [nearest_eq_none]
    refine forall_congr' fun hops => ?_
    refine imp_congr Nat.lt_succ_iff (forall_congr' fun run => imp_congr_right fun _ => ?_)
    rw [latest_eq_none, snapshotsOf_eq_nil]

end TradingAgents.PortfolioManager
