import Mathlib.Data.Finset.Basic
import Mathlib.Logic.Function.Basic
import TradingAgents.ProofKit.Dict

/-! The remediation of failed credentials.  An activation that is refused asks a planner for one
remediation of the catalogue, counts the automatic attempts of the same failure on the graph, runs
an executor if the plan and the count allow it, tests the credentials again, and records the
attempt. Each step of an activation stands alone, so that activations interleave between any two. -/

namespace TradingAgents.Master

open ProofKit

/-- One vetted remediation option. -/
structure Remediation where
  name : String
  description : String
  destructive : Bool
deriving DecidableEq, Repr

def fallbackRemediation : Remediation where
  name := "pause-and-escalate"
  description := "Pause automation and escalate to a human operator decision."
  destructive := false

structure RemediationPlan where
  remediation : String
  rationale : String
  autoEligible : Bool
  status : String
deriving DecidableEq, Repr

/-- One execution attempt for a planned remediation. -/
structure RemediationAttempt where
  remediation : String
  status : String
  message : String
  executor : String
  auto : Bool
deriving DecidableEq, Repr

/-- What the planner answers: it raises, or answers without an object, or with one. -/
inductive PlannerAnswer where
  | raised (errorName : String)
  | noObject
  | object (remediation rationale : Option String)

/-- The settings of remediation; a catalogue names no remediation twice. -/
structure RemediationSettings where
  hasPlanner : Bool
  catalogue : List Remediation
  catalogue_nodup : (catalogue.map Remediation.name).Nodup
  mode : String
  scope : String
  maxAutoRemediationAttempts : Nat
  /-- The name of the executor under each remediation. -/
  executors : Dict String String

/-- A refused activation on the graph. -/
structure Escalation where
  key : String
  agentType : String
  failedCredentials : List String
deriving DecidableEq, Repr

/-- A recorded attempt with what it is counted by. -/
structure AttemptRow where
  escalationKey : String
  agentType : String
  failedCredentials : List String
  attempt : RemediationAttempt
deriving DecidableEq, Repr

/-- What an automatic run is limited by: the agent type, the set of failed credentials, and the
remediation. -/
structure FailureSignature where
  agentType : String
  failedCredentials : Finset String
  remediation : String
deriving DecidableEq

/-- Where an activation is; `ran` says whether its executor was run. -/
inductive RemediationPc where
  | idle
  | escalated (e : Escalation)
  | planned (e : Escalation) (plan : RemediationPlan)
  | counted (e : Escalation) (plan : RemediationPlan) (prior : Nat)
  | attempted (e : Escalation) (plan : RemediationPlan) (attempt : RemediationAttempt) (ran : Bool)
  | finalized (e : Escalation) (plan : RemediationPlan) (attempt : RemediationAttempt) (ran : Bool)
  | done

/-- The activations, the attempts on the graph, and the executor runs so far. -/
structure RemediationState where
  pcs : Nat → RemediationPc
  attempts : Dict String AttemptRow
  runs : List FailureSignature

/-- What the world answers to a step: a graph write, the re-test and the planner may raise, and an
executor returns any attempt or raises. -/
inductive RemediationInput where
  | activation (agentType : String) (failedCredentials : List String) (stamp : String)
      (raises : Bool)
  | plan (answer : PlannerAnswer) (raises : Bool)
  | count
  | execute (outcome : Except String RemediationAttempt)
  | retest (failures : Option (List String))
  | record (stamp : String) (raises : Bool)

inductive RemediationError where
  | notEnabled
deriving DecidableEq, Repr

def defaultRationale : String := "Selected from the bounded remediation catalogue."

section

variable (settings : RemediationSettings)

/-- The choice of the planner with its rationale; anything outside the catalogue falls back. -/
def selectWithRationale (answer : PlannerAnswer) : String × String :=
  match answer with
  | .raised errorName =>
    (fallbackRemediation.name, "Planner failed open to human review (" ++ errorName ++ ").")
  | .noObject => (fallbackRemediation.name, "Planner response was not valid JSON.")
  | .object none _ => (fallbackRemediation.name, "Planner choice was outside the catalogue.")
  | .object (some choice) rationale =>
    if choice ∈ settings.catalogue.map Remediation.name then
      match rationale with
      | none => (choice, defaultRationale)
      | some text => (choice, if text = "" then defaultRationale else text)
    else (fallbackRemediation.name, "Planner choice was outside the catalogue.")

def findRemediation (name : String) : Remediation :=
  (settings.catalogue.find? fun option => option.name = name).getD fallbackRemediation

/-- Plan a remediation and mark whether it can run automatically under the settings. -/
def planRemediation (answer : PlannerAnswer) : RemediationPlan :=
  let selected := selectWithRationale settings answer
  let remediation := findRemediation settings selected.1
  { remediation := remediation.name
    rationale := selected.2
    autoEligible := decide (settings.mode = "automatic" ∧
      (settings.scope = "all" ∨ remediation.destructive = false))
    status := "planned" }

/-- The automatic attempts on the graph for the same listing of the failure. -/
def priorAutoAttempts (attempts : Dict String AttemptRow) (e : Escalation) (remediation : String) :
    Nat :=
  (attempts.entries.map Prod.snd).countP fun row => row.attempt.auto &&
    decide (row.agentType = e.agentType ∧ row.failedCredentials = e.failedCredentials ∧
      row.attempt.remediation = remediation)

def skipped (remediation message : String) : RemediationAttempt :=
  ⟨remediation, "skipped", message, "none", false⟩

/-- Whether the executor of a plan is run under a count. -/
def executes (plan : RemediationPlan) (prior : Nat) : Bool :=
  plan.autoEligible && decide (prior < settings.maxAutoRemediationAttempts) &&
    (settings.executors.get? plan.remediation).isSome

/-- Run one eligible executor, or skip. -/
def runRemediation (plan : RemediationPlan) (prior : Nat)
    (outcome : Except String RemediationAttempt) : RemediationAttempt :=
  if plan.autoEligible = false then skipped plan.remediation "plan is not auto-eligible"
  else if settings.maxAutoRemediationAttempts ≤ prior then
    skipped plan.remediation "auto-remediation attempt cap reached"
  else
    match settings.executors.get? plan.remediation with
    | none => skipped plan.remediation "no executor registered"
    | some executor =>
      match outcome with
      | .ok attempt => attempt
      | .error errorName =>
        ⟨plan.remediation, "failed", "executor raised " ++ errorName, executor, true⟩

/-- The attempt after the re-test. -/
def finalizeAttempt (attempt : RemediationAttempt) (failures : List String) : RemediationAttempt :=
  if attempt.status ≠ "succeeded" ∨ failures = [] then attempt
  else { attempt with
    status := "failed"
    message := "post-remediation credential test failed: " ++ ", ".intercalate failures }

def signatureOf (e : Escalation) (plan : RemediationPlan) : FailureSignature :=
  ⟨e.agentType, e.failedCredentials.toFinset, plan.remediation⟩

def RemediationState.goto (s : RemediationState) (t : Nat) (pc : RemediationPc) :
    RemediationState :=
  { s with pcs := Function.update s.pcs t pc }

def attemptKey (e : Escalation) (stamp : String) : String :=
  "remediation-attempt:" ++ e.key ++ ":" ++ stamp

/-- Write an attempt: one that stands under its key already is refused unless it is the same. -/
def writeAttempt (attempts : Dict String AttemptRow) (e : Escalation) (stamp : String)
    (attempt : RemediationAttempt) : Dict String AttemptRow :=
  let row := ⟨e.key, e.agentType, e.failedCredentials, attempt⟩
  match attempts.get? (attemptKey e stamp) with
  | none => attempts.set (attemptKey e stamp) row
  | some _ => attempts

/-- The next step of activation `t`. -/
def remediationStep (s : RemediationState) (t : Nat) (input : RemediationInput) :
    Except RemediationError RemediationState :=
  match s.pcs t, input with
  | .idle, .activation agentType failedCredentials stamp raises =>
    if raises then .ok (s.goto t .done)
    else .ok (s.goto t (.escalated
      ⟨"escalation:" ++ agentType ++ ":" ++ stamp, agentType, failedCredentials⟩))
  | .escalated e, .plan answer raises =>
    -- nothing is planned without a planner and a catalogue, and a raise here is contained
    if settings.hasPlanner = false ∨ settings.catalogue = [] ∨ raises = true then
      .ok (s.goto t .done)
    else .ok (s.goto t (.planned e (planRemediation settings answer)))
  | .planned e plan, .count =>
    .ok (s.goto t (.counted e plan (priorAutoAttempts s.attempts e plan.remediation)))
  | .counted e plan prior, .execute outcome =>
    let attempt := runRemediation settings plan prior outcome
    if executes settings plan prior then
      .ok ({ s with runs := s.runs ++ [signatureOf e plan] }.goto t
        (.attempted e plan attempt true))
    else .ok (s.goto t (.attempted e plan attempt false))
  | .attempted e plan attempt ran, .retest failures =>
    if attempt.status ≠ "succeeded" then .ok (s.goto t (.finalized e plan attempt ran))
    else
      match failures with
      | none => .ok (s.goto t .done)
      | some failures => .ok (s.goto t (.finalized e plan (finalizeAttempt attempt failures) ran))
  | .finalized e _ attempt _, .record stamp raises =>
    if raises then .ok (s.goto t .done)
    else .ok ({ s with attempts := writeAttempt s.attempts e stamp attempt }.goto t .done)
  | _, _ => .error .notEnabled

end

end TradingAgents.Master
