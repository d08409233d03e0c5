import Mathlib
import TradingAgents.Execution.FillAttempts

/-! What the broker did with the orders of an execution run: the counts by outcome, the stage view
that carries them, and the acceptance verdict over the views of a run. -/

namespace TradingAgents.Orchestration

open Kernel ProofKit Execution

/-! ### Outcomes -/

inductive Outcome where
  | filled
  | unfilled
  | unresolved
deriving DecidableEq, Repr

def filledStatuses : List String := ["filled", "partial"]

def resolvedUnfilled : List String := ["rejected", "canceled", "cancelled", "expired", "dropped"]

def pmEdge : String := "EXECUTED_BY"

def orderEdge : String := "EMITTED_BY"

/-- `str` of a property that holds a text, a whole number or nothing. -/
def valueText : Value Document → String
  | .str s => s
  | .null => "None"
  | .bool b => if b then "True" else "False"
  | .int n => toString n
  | _ => ""

/-- Broker evidence wins over the status recorded at submit time. -/
def effectiveStatus (fill : PipelineNode) : String :=
  if (fill.get "drop_reason").truthy then "dropped"
  else
    let brokerStatus := fill.get "broker_status"
    let status := if brokerStatus.truthy then brokerStatus else fill.get "status"
    if status.truthy then valueText status else "unknown"

def outcome (fill : PipelineNode) : Outcome :=
  let status := effectiveStatus fill
  if status ∈ filledStatuses then .filled
  else if status ∈ resolvedUnfilled then .unfilled
  else .unresolved

/-- The name under which the fills of a PM run are looked up. -/
def fillSource (pmRun : PipelineNode) : String :=
  match pmRun.props.get? "linked_from_key" with
  | some v => valueText v
  | none => pmRun.key

/-- The fill that stands for an order intent. -/
def intentFill (g : PipelineGraph) (source : String) (order : PipelineNode) : Option PipelineNode :=
  g.getNode fillLabel
    (source ++ ":" ++ valueText (order.get "ticker") ++ ":" ++ valueText (order.get "action"))

/-- The Fill nodes for the PM run that an ExecutionRun executed. -/
def runFills (g : PipelineGraph) (executionRun : PipelineNode) : List PipelineNode :=
  match (g.ancestors executionRun.nodeKey 1 (some [pmEdge])).head? with
  | none => []
  | some pmRun =>
    (g.ancestors pmRun.nodeKey 1 (some [orderEdge])).filterMap (intentFill g (fillSource pmRun))

/-- One run's orders, split by what the broker did with them. -/
structure FillOutcomes where
  filled : Nat
  unfilled : Nat
  unresolved : Nat
  statuses : List String

def FillOutcomes.submitted (o : FillOutcomes) : Nat := o.filled + o.unfilled + o.unresolved

def fillOutcomes (g : PipelineGraph) (executionRun : PipelineNode) : FillOutcomes :=
  let fills := runFills g executionRun
  { filled := fills.countP fun f => decide (outcome f = .filled)
    unfilled := fills.countP fun f => decide (outcome f = .unfilled)
    unresolved := fills.countP fun f => decide (outcome f = .unresolved)
    statuses := (fills.map effectiveStatus).dedup.insertionSort (· ≤ ·) }

/-! ### Stage views -/

inductive CheckRule where
  | required
  | floor (bound : ℚ)
  | ceiling (bound : ℚ)
  | oneof (options : List String)

inductive Severity where
  | fail
  | warn
deriving DecidableEq, Repr

/-- One locked invariant on a named observed value. -/
structure Check where
  key : String
  rule : CheckRule
  severity : Severity := .fail

abbrev Observed := Dict String (Value Document)

structure StageView where
  name : String
  observed : Observed
  reached : Bool
  checks : List Check := []

/-- An invariant that did not hold. -/
structure Breach where
  stage : String
  key : String
  severity : Severity := .fail
deriving DecidableEq

def executionView (g : PipelineGraph) (node : PipelineNode) : StageView where
  name := "execution"
  observed :=
    let outcomes := fillOutcomes g node
    .ofList [
      ("submitted", node.get "submitted"),
      ("orders", .int outcomes.submitted),
      ("filled", .int outcomes.filled),
      ("unfilled", .int outcomes.unfilled),
      ("statuses", .str (", ".intercalate outcomes.statuses))]
  reached := true
  checks := [⟨"submitted", .required, .fail⟩]

/-- `float` of an observed value. -/
def number : Value Document → Except HandlerError ℚ
  | .int n => .ok n
  | .num q => .ok q
  | .bool b => .ok (if b then 1 else 0)
  | _ => .error (.validation "float")

/-- Whether an observed value holds an invariant. -/
def holds (value : Value Document) (rule : CheckRule) : Except HandlerError Bool :=
  match rule, value with
  | .required, v => .ok (decide (v ≠ .null))
  | _, .null => .ok false
  | .floor bound, v => do pure (decide (bound ≤ (← number v)))
  | .ceiling bound, v => do pure (decide ((← number v) ≤ bound))
  | .oneof options, v => .ok (options.any fun o => v.pyEq (.str o))

/-- Every invariant a stage failed; an unreached stage counts as one breach. -/
def breaches (stage : StageView) : Except HandlerError (List Breach) :=
  if stage.reached then
    stage.checks.foldlM (fun out check => do
      let ok ← holds ((stage.observed.get? check.key).getD .null) check.rule
      pure (if ok then out else out ++ [⟨stage.name, check.key, check.severity⟩])) []
  else .ok [⟨stage.name, "*stage*", .fail⟩]

/-! ### Boundaries between stages -/

abbrev CrossCheck := Dict String Observed → Option Breach

/-- The integer an observed value is; a truth value is one too. -/
def observedInt (observed : Dict String Observed) (stage key : String) : Option Int :=
  match ((observed.get? stage).getD .empty).get? key with
  | some (.int n) => some n
  | some (.bool b) => some (if b then 1 else 0)
  | _ => none

/-- No fabrication: a stage's output count cannot exceed its input count. -/
def conserves (child childKey parent parentKey : String) : CrossCheck := fun observed =>
  match observedInt observed child childKey, observedInt observed parent parentKey with
  | some out, some src => if src < out then some ⟨child, childKey, .fail⟩ else none
  | _, _ => none

/-- The analyst may score scanner survivors and held tickers. -/
def analystConserves : CrossCheck := fun observed =>
  match observedInt observed "analyst" "scored", observedInt observed "scanner" "survived",
      observedInt observed "analyst" "held" with
  | some scored, some survived, some held =>
    if survived + held < scored then some ⟨"analyst", "scored", .fail⟩ else none
  | _, _, _ => none

/-- A run that the broker resolved with no fill is a breach. -/
def ordersMustFill : CrossCheck := fun observed =>
  match observedInt observed "execution" "orders", observedInt observed "execution" "filled",
      observedInt observed "execution" "unfilled" with
  | some orders, some filled, some unfilled =>
    if orders ≠ 0 ∧ filled = 0 ∧ unfilled = orders then some ⟨"execution", "filled", .fail⟩
    else none
  | _, _, _ => none

def conservation : List CrossCheck := [
  conserves "scanner" "survived" "provider" "returned",
  analystConserves,
  conserves "pm" "approved" "analyst" "scored",
  conserves "execution" "submitted" "pm" "approved",
  ordersMustFill]

/-! ### The verdict -/

structure AcceptanceResult where
  passed : Bool
  breaches : List Breach

/-- The verdict of the observatory: no stage and no boundary failed. -/
def accept (stages : List StageView) (crossChecks : List CrossCheck) :
    Except HandlerError AcceptanceResult := do
  let own ← stages.mapM breaches
  let observed := Dict.ofList ((stages.filter StageView.reached).map fun s => (s.name, s.observed))
  let found := own.flatten ++ crossChecks.filterMap fun check => check observed
  pure ⟨found.all fun b => decide (b.severity ≠ .fail), found⟩

inductive AcceptanceVerdict where
  | pass
  | noTrade
  | unproven
  | fail
deriving DecidableEq, Repr

structure TradingAcceptanceResult where
  verdict : AcceptanceVerdict
  breaches : List Breach

/-- Orders were submitted but the broker has not resolved them yet. -/
def undecided (stages : List StageView) : Bool :=
  match stages.find? fun s => decide (s.name = "execution") with
  | none => false
  | some execution =>
    let observed := Dict.ofList [("execution", execution.observed)]
    execution.reached &&
      match observedInt observed "execution" "orders", observedInt observed "execution" "filled",
          observedInt observed "execution" "unfilled" with
      | some orders, some filled, some unfilled =>
        decide (orders ≠ 0) && decide (filled = 0) && decide (unfilled ≠ orders)
      | _, _, _ => false

def noTradeBreaches : List (String × String) := [("analyst", "scored"), ("pm", "evaluated")]

/-- A complete, zero-scored run explained by confidence evidence. -/
def isNoTrade (stages : List StageView) (found : List Breach) (rejectionEvidence : Bool) : Bool :=
  rejectionEvidence && !stages.isEmpty && stages.all StageView.reached &&
    match stages.find? fun s => decide (s.name = "analyst") with
    | none => false
    | some analyst =>
      let blocking := (found.filter fun b => decide (b.severity = .fail)).map fun b =>
        (b.stage, b.key)
      ((analyst.observed.get? "scored").getD .null).pyEq (.int 0) && !blocking.isEmpty &&
        blocking.all fun b => decide (b ∈ noTradeBreaches)

/-- Classify the observed stages of a run. -/
def evaluateStages (stages : List StageView) (rejectionEvidence : Bool) :
    Except HandlerError TradingAcceptanceResult := do
  let result ← accept stages conservation
  let verdict :=
    if result.passed then if undecided stages then .unproven else .pass
    else if isNoTrade stages result.breaches rejectionEvidence then .noTrade
    else .fail
  pure ⟨verdict, result.breaches⟩

end TradingAgents.Orchestration
