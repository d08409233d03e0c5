import TradingAgents.Orchestration.ResumeChild
import TradingAgents.Pipeline.Polls

/-! A placement among other agents: what is left of it between two of its writes, and what each
stage's agent finds in the graph as its work. -/

namespace TradingAgents.Orchestration

open Kernel ProofKit Pipeline Execution

/-- What is left of a placement: writes already decided, and steps that have not read the graph. -/
structure Remaining where
  writes : List (Write Document)
  steps : List Step

/-- One write, or the next read. -/
def Remaining.next (r : Remaining) (g : PipelineGraph) :
    Except HandlerError (PipelineGraph × Remaining) :=
  match r.writes with
  | w :: ws => do
    let g ← liftGraph (g.write w)
    pure (g, { r with writes := ws })
  | [] =>
    match r.steps with
    | [] => .ok (g, r)
    | s :: steps => do
      let added ← s g
      pure (g, ⟨added.writes, steps⟩)

/-- What the agent of a stage finds as its work. -/
def stagePoll (fromIso : String → Option Int) (settings : ExecutionSettings) (g : PipelineGraph)
    (now : Int) : ResumeStage → Except HandlerError (List PipelineNode)
  | .positionSync => .ok (findPendingPositionSync g)
  | .provider => .ok (findPendingIngest g)
  | .scanner => .ok (findPendingScan g)
  | .analyst => .ok (findPendingAnalysis g)
  | .pm => .ok (findPendingEvaluation g)
  | .execution => findPending fromIso g now settings
  | .monitor => .ok (findPendingMonitor g)
  | .reporter => .ok (findPendingReport g)

end TradingAgents.Orchestration
