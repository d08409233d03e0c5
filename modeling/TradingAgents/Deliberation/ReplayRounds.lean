import TradingAgents.Deliberation.Debate

/-! Stored decisions debated again through a batch provider.  A turn's prompt holds the turns before
it, so a batch is one round of all debates: the turns of a debate come one after another, and the
debates do not wait for each other. -/

namespace TradingAgents.Deliberation

open ProofKit
open Deliberator (DebateRole ServedRole Ruling)

/-! ### Debates to replay -/

/-- One turn of a replayed debate; the judge rules last. -/
inductive Step where
  | argue (role : DebateRole) (round : Nat)
  | judge
deriving DecidableEq, Repr

def Step.role : Step → ServedRole
  | argue .defender _ => .defender
  | argue .challenger _ => .challenger
  | judge => .judge

/-- The number in the step's name; the judge's is 0. -/
def Step.number : Step → Nat
  | argue _ round => round
  | judge => 0

def Step.ofSpeaker (speaker : DebateRole × Nat) : Step := .argue speaker.1 speaker.2

/-- One configuration under test. -/
structure Arm where
  name : String
  model : String
  effort : String
  maxRounds : Int
  maxTokens : Nat := 4096
deriving DecidableEq

/-- The turns of so many rounds, and the judge. -/
def turnSteps (rounds : Nat) : List Step := (speakingOrder rounds).map Step.ofSpeaker ++ [.judge]

def Arm.steps (arm : Arm) : List Step := turnSteps (debateRounds arm.maxRounds)

/-- One stored decision. -/
structure ReplaySubject where
  pmRun : String
  ticker : String
  proposition : Proposition
deriving DecidableEq

structure BatchRequest where
  customId : String
  model : String
  maxTokens : Nat
  effort : String
  system : String
  user : String
deriving DecidableEq

structure BatchResult where
  customId : String
  status : String
  text : String := ""
deriving DecidableEq

/-- The running state of one replayed debate. -/
structure DebateState where
  subject : ReplaySubject
  «repeat» : Nat
  arm : Arm
  transcript : List Turn := []
  verdict : Option Verdict := none
  /-- Why the debate is left out of every metric. -/
  failure : Option String := none
  steps : List Step

/-! ### Keys -/

structure ReplayKey where
  pmRun : String
  ticker : String
  «repeat» : Nat
  arm : String
  role : ServedRole
  round : Nat
deriving DecidableEq

def ReplayKey.label (key : ReplayKey) : String :=
  ":".intercalate [key.pmRun, key.ticker, toString key.repeat, key.arm, key.role.value,
    "r" ++ toString key.round]

def isWireSafe (c : Char) : Bool := c.isAlphanum || c = '_' || c = '-'

def slugLimit : Nat := 48

def digestChars : Nat := 12

/-- The wire-safe identity of a turn; `digestText` is the hexadecimal SHA-256 of a text. -/
def ReplayKey.customId (digestText : String → String) (key : ReplayKey) : String :=
  let label := key.label
  let slug := (label.toList.map fun c => if isWireSafe c then c else '_').take slugLimit
  String.ofList slug ++ "-" ++ String.ofList ((digestText label).toList.take digestChars)

def DebateState.key (state : DebateState) (step : Step) : ReplayKey :=
  ⟨state.subject.pmRun, state.subject.ticker, state.repeat, state.arm.name, step.role, step.number⟩

/-! ### Rounds -/

/-- One state for each subject, repeat and arm. -/
def buildStates (subjects : List ReplaySubject) (arms : List Arm) (repeats : Int) :
    List DebateState :=
  subjects.flatMap fun subject => (List.range (max 1 repeats).toNat).flatMap fun n =>
    arms.map fun arm => { subject, «repeat» := n + 1, arm, steps := arm.steps }

/-- The most rounds of any arm, 0 without one. -/
def mostRounds (arms : List Arm) : Nat :=
  arms.foldl (fun most arm => max most (debateRounds arm.maxRounds)) 0

/-- The order in which the rounds are submitted: it covers every arm, and all are judged last. -/
def planSteps (arms : List Arm) : List Step :=
  if mostRounds arms = 0 then [] else turnSteps (mostRounds arms)

/-- Whether a debate still runs and takes this turn. -/
def DebateState.participates (state : DebateState) (step : Step) : Bool :=
  state.failure.isNone && decide (step ∈ state.steps)

def systemPrompt (prompts : DeliberationPrompts) : ServedRole → String
  | .defender => prompts.defender
  | .challenger => prompts.challenger
  | .judge => prompts.judge

/-- What the debates of a sweep are run with: the hexadecimal SHA-256 of a text, the system prompts
and `json.loads`. -/
structure DebateKit where
  digestText : String → String
  prompts : DeliberationPrompts
  loads : String → Option VerdictJson

section

variable (kit : DebateKit)

/-- The request of a debate for one of its turns. -/
def DebateState.request (state : DebateState) (step : Step) : BatchRequest where
  customId := (state.key step).customId kit.digestText
  model := state.arm.model
  maxTokens := state.arm.maxTokens
  effort := state.arm.effort
  system := systemPrompt kit.prompts step.role
  user := renderDebatePrompt state.subject.proposition state.transcript

inductive ReplayError where
  | plannedTwice (step : Step)
  | unrequested (strays : List String)
deriving DecidableEq, Repr

/-- The requests of the debates that take this turn; two of one identity would share an answer. -/
def roundRequests (states : List DebateState) (step : Step) :
    Except ReplayError (List BatchRequest) :=
  let requests := (states.filter (·.participates step)).map (·.request kit step)
  if (requests.map BatchRequest.customId).Nodup then .ok requests else .error (.plannedTwice step)

/-- A client that has already been asked. -/
def answered (text : String) : LLMClient := fun _ _ => .ok text

/-- Fold one answer into a debate. -/
def DebateState.applyOne (state : DebateState) (step : Step) :
    Option BatchResult → DebateState
  | none => { state with failure := some "missing_result" }
  | some result =>
    if result.status ≠ "succeeded" then { state with failure := some result.status }
    else
      let text := PyText.strip result.text
      if text = "" then { state with failure := some "empty_turn" }
      else match step with
        | .judge =>
          match judgeVerdict kit.loads (answered text) kit.prompts state.subject.proposition
              state.transcript with
          | .ok verdict => { state with verdict := some verdict }
          | .error e => { state with failure := some ("unreadable_verdict:" ++ e.text) }
        | .argue role round =>
          { state with transcript := state.transcript ++ [⟨role, round, text⟩] }

/-- The answers by identity; of two for one identity the later stays. -/
def answersById (results : List BatchResult) : Dict String BatchResult :=
  .ofList (results.map fun result => (result.customId, result))

/-- Fold the answers of a round into the debates that take the turn. -/
def applyResults (states : List DebateState) (step : Step) (results : List BatchResult) :
    List DebateState :=
  states.map fun state =>
    if state.participates step then
      state.applyOne kit step
        ((answersById results).get? ((state.key step).customId kit.digestText))
    else state

/-! ### The sweep -/

/-- Submits a round and returns its answers in any order; the number is that of the round. -/
abbrev BatchGateway := Nat → List BatchRequest → List BatchResult

structure ReplayOutcome where
  states : List DebateState
  roundsSubmitted : Nat
  requestsSubmitted : Nat

/-- The debates that reached a verdict. -/
def ReplayOutcome.completed (outcome : ReplayOutcome) : List DebateState :=
  outcome.states.filter fun state => state.failure.isNone && state.verdict.isSome

/-- The debates that are left out. -/
def ReplayOutcome.failures (outcome : ReplayOutcome) : List DebateState :=
  outcome.states.filter fun state => state.failure.isSome

/-- Refuse an answer to a question that the round never asked. -/
def checked (requests : List BatchRequest) (results : List BatchResult) :
    Except ReplayError (List BatchResult) :=
  let strays := (results.map BatchResult.customId).filter
    fun id => id ∉ requests.map BatchRequest.customId
  if strays = [] then .ok results
  else .error (.unrequested ((strays.dedup.insertionSort (· ≤ ·)).take 3))

/-- One round: nothing is submitted when no debate takes the turn.  `raised` raises in the monad of
the gateway's `run`. -/
def replayRoundIn {m : Type → Type} [Monad m] (raised : {α : Type} → Except ReplayError α → m α)
    (run : Nat → List BatchRequest → m (List BatchResult)) (outcome : ReplayOutcome)
    (step : Step) : m ReplayOutcome := do
  let requests ← raised (roundRequests kit outcome.states step)
  if requests = [] then return outcome
  let number := outcome.roundsSubmitted + 1
  let answers ← run number requests
  let results ← raised (checked requests answers)
  return {
    states := applyResults kit outcome.states step results
    roundsSubmitted := number
    requestsSubmitted := outcome.requestsSubmitted + requests.length }

/-- A round through a gateway that neither raises nor remembers. -/
def replayRound (gateway : BatchGateway) :
    ReplayOutcome → Step → Except ReplayError ReplayOutcome :=
  replayRoundIn kit (fun result => result) fun number requests => .ok (gateway number requests)

theorem replayRound_eq (gateway : BatchGateway) (outcome : ReplayOutcome) (step : Step) :
    replayRound kit gateway outcome step =
      (roundRequests kit outcome.states step >>= fun requests =>
        if requests = [] then .ok outcome
        else checked requests (gateway (outcome.roundsSubmitted + 1) requests) >>= fun results =>
          .ok {
            states := applyResults kit outcome.states step results
            roundsSubmitted := outcome.roundsSubmitted + 1
            requestsSubmitted := outcome.requestsSubmitted + requests.length }) := rfl

/-- Replay every subject through every arm, one batch for each round. -/
def replayDebates (subjects : List ReplaySubject) (arms : List Arm) (repeats : Int)
    (gateway : BatchGateway) : Except ReplayError ReplayOutcome :=
  (planSteps arms).foldlM (replayRound kit gateway)
    ⟨buildStates subjects arms repeats, 0, 0⟩

/-! ### The batches of a sweep -/

/-- The batches submitted so far. -/
abbrev BatchLog := StateT (List (List BatchRequest)) (Except ReplayError)

/-- A gateway that keeps the batches that it is handed. -/
def logged (gateway : BatchGateway) (number : Nat) (requests : List BatchRequest) :
    BatchLog (List BatchResult) := do
  modify (· ++ [requests])
  return gateway number requests

/-- The same sweep through a gateway that keeps its batches. -/
def loggedSweep (subjects : List ReplaySubject) (arms : List Arm) (repeats : Int)
    (gateway : BatchGateway) : BatchLog ReplayOutcome :=
  (planSteps arms).foldlM (replayRoundIn kit StateT.lift (logged gateway))
    ⟨buildStates subjects arms repeats, 0, 0⟩

theorem loggedRound_eq (gateway : BatchGateway) (outcome : ReplayOutcome) (step : Step)
    (batches : List (List BatchRequest)) :
    (replayRoundIn kit StateT.lift (logged gateway) outcome step).run batches =
      (roundRequests kit outcome.states step >>= fun requests =>
        if requests = [] then .ok (outcome, batches)
        else checked requests (gateway (outcome.roundsSubmitted + 1) requests) >>= fun results =>
          .ok ({
            states := applyResults kit outcome.states step results
            roundsSubmitted := outcome.roundsSubmitted + 1
            requestsSubmitted := outcome.requestsSubmitted + requests.length },
            batches ++ [requests])) := by
  unfold replayRoundIn
  cases roundRequests kit outcome.states step with
  | error e => rfl
  | ok requests =>
    by_cases hnone : requests = []
    · subst hnone
      rfl
    · rw [Fallible.ok_bind, if_neg hnone]
      show ((ite (requests = []) _ _ : BatchLog ReplayOutcome)).run batches = _
      rw [if_neg hnone]
      have hlogged : (logged gateway (outcome.roundsSubmitted + 1) requests).run batches =
          .ok (gateway (outcome.roundsSubmitted + 1) requests, batches ++ [requests]) := rfl
      rw [StateT.run_bind, hlogged, Fallible.ok_bind, StateT.run_bind, StateT.run_lift]
      cases checked requests (gateway (outcome.roundsSubmitted + 1) requests) <;> rfl

end

end TradingAgents.Deliberation
