import TradingAgents.Contracts.Documents

/-! The run posture that a RunRequest declares. -/

namespace TradingAgents

open Kernel

inductive RunPosture where
  | normal
  | degraded
deriving DecidableEq, Repr

def RunPosture.value : RunPosture → String
  | normal => "normal"
  | degraded => "degraded"

/-- A RunRequest's posture; an absent one, or no request, reads as normal. -/
def runPosture (props : Option (Props Document)) : RunPosture :=
  match props with
  | some p =>
    if (Props.get p "run_posture").pyEq (.str RunPosture.degraded.value) then .degraded else .normal
  | none => .normal

def runRequestLabel : String := "RunRequest"

/-- The graph key of a RunRequest. -/
def runRequestKey (runId : String) : String := "run-request:" ++ runId

end TradingAgents
