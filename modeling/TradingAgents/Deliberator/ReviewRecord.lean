import Mathlib
import TradingAgents.Contracts.Documents

/-! The record of a batch of order reviews: what each order's debate came to, the fields assembled
from the reviews in the order of the portfolio manager, and the models and switches read from the
rows of the batch's calls. -/

namespace TradingAgents.Deliberator

open ProofKit

/-! ### Debates -/

inductive DebateRole where
  | defender
  | challenger
deriving DecidableEq, Repr

def DebateRole.value : DebateRole → String
  | defender => "defender"
  | challenger => "challenger"

inductive Ruling where
  | uphold
  | overturn
  | revise
deriving DecidableEq, Repr

def Ruling.value : Ruling → String
  | uphold => "uphold"
  | overturn => "overturn"
  | revise => "revise"

inductive Bearing where
  | supports
  | against
  | neutral
deriving DecidableEq, Repr

structure EvidenceReading where
  metric : String
  value : String
  meaningHere : String
  bearsOn : Bearing
deriving DecidableEq

structure GuidedReasoning where
  readings : List EvidenceReading
  gaps : List String
deriving DecidableEq

/-- The trading decision and the evidence packet under review. -/
structure DebateProposition where
  decision : String
  context : String
deriving DecidableEq

structure DebateTurnRecord where
  role : DebateRole
  round : Nat
  text : String
  reasoning : Option GuidedReasoning := none
  reasoningError : Option String := none
deriving DecidableEq

/-! ### Reviews -/

/-- One order's recorded debate outcome. -/
structure OrderReview where
  verdict : Ruling
  rationale : String
  turns : List DebateTurnRecord
  llmCallKeys : List String
  failedOpen : Bool := false
  failedOpenReason : String := ""
  proposition : Option DebateProposition := none

def failedOpenReasonLimit : Nat := 500

def unknownFailOpenReason : String := "UnknownError: reason unavailable"

def failedOpenReason (errorType message : String) : String :=
  let reason := errorType ++ ": " ++ message
  if reason.toList.length ≤ failedOpenReasonLimit then reason
  else .ofList (reason.toList.take (failedOpenReasonLimit - 3)) ++ "..."

/-- The review of an order whose debate failed. -/
def failOpenReview (reason : Option String) (proposition : Option DebateProposition) :
    OrderReview :=
  let recorded := match reason with
    | some reason => if reason = "" then unknownFailOpenReason else reason
    | none => unknownFailOpenReason
  { verdict := .uphold
    rationale := "fail-open: " ++ recorded
    turns := []
    llmCallKeys := []
    failedOpen := true
    failedOpenReason := recorded
    proposition := proposition }

structure TurnEntry where
  role : DebateRole
  round : Nat
  text : String
deriving DecidableEq

/-- The debate of one ticker as it is stored. -/
structure DebateRecord where
  verdict : Ruling
  rationale : String
  failedOpen : Bool
  failedOpenReason : String
  turns : List TurnEntry
  decision : Option String
  context : Option String
deriving DecidableEq

def debateRecord (review : OrderReview) : DebateRecord where
  verdict := review.verdict
  rationale := review.rationale
  failedOpen := review.failedOpen
  failedOpenReason := review.failedOpenReason
  turns := review.turns.map fun turn => ⟨turn.role, turn.round, turn.text⟩
  decision := review.proposition.map DebateProposition.decision
  context := review.proposition.map DebateProposition.context

structure TranscriptRow where
  ticker : String
  turn : DebateTurnRecord
deriving DecidableEq

def transcriptRecords (ticker : String) (turns : List DebateTurnRecord) : List TranscriptRow :=
  turns.map fun turn => ⟨ticker, turn⟩

def narrative (debates : Dict String DebateRecord) : String :=
  if debates.entries.isEmpty then "No PM-approved orders required deliberation."
  else "; ".intercalate ((debates.entries.insertionSort fun a b => a.1 ≤ b.1).map fun p =>
    p.1 ++ ": " ++ p.2.verdict.value ++ " - " ++ p.2.rationale)

/-! ### Batches -/

/-- The fields assembled from the reviews, in the order of the portfolio manager. -/
structure ReviewBatch where
  verdicts : Dict String Ruling := .empty
  vetoedTickers : List String := []
  debates : Dict String DebateRecord := .empty
  transcript : List TranscriptRow := []
  llmCallKeys : List String := []
  realDebateCount : Nat := 0
  failedOpenTickers : List String := []
  failedOpenReasons : List String := []

def ReviewBatch.add (batch : ReviewBatch) (p : OrderIntent × OrderReview) : ReviewBatch :=
  let ticker := p.1.ticker
  let review := p.2
  { verdicts := batch.verdicts.set ticker review.verdict
    vetoedTickers :=
      if review.verdict = .overturn then batch.vetoedTickers ++ [ticker] else batch.vetoedTickers
    debates := batch.debates.set ticker (debateRecord review)
    transcript := batch.transcript ++ transcriptRecords ticker review.turns
    llmCallKeys := batch.llmCallKeys ++ review.llmCallKeys
    realDebateCount := batch.realDebateCount + if review.turns.isEmpty then 0 else 1
    failedOpenTickers :=
      if review.failedOpen then batch.failedOpenTickers ++ [ticker] else batch.failedOpenTickers
    failedOpenReasons :=
      if review.failedOpen then batch.failedOpenReasons ++ [review.failedOpenReason]
      else batch.failedOpenReasons }

def assemble (ordered : List (OrderIntent × OrderReview)) : ReviewBatch :=
  ordered.foldl ReviewBatch.add {}

/-- The reasons, each distinct one once. -/
def combinedFailedOpenReason (reasons : List String) : String :=
  "; ".intercalate reasons.eraseDups

/-! ### The rows of the calls -/

/-- Who serves a completion. -/
inductive ServedRole where
  | defender
  | challenger
  | judge
deriving DecidableEq, Repr

def ServedRole.value : ServedRole → String
  | defender => "defender"
  | challenger => "challenger"
  | judge => "judge"

structure ReviewSettings where
  identity : String
  proponentIdentity : String
  opponentIdentity : String
  maxRounds : Nat
  /-- The model a role is set to, resolved. -/
  modelForRole : ServedRole → String

def ReviewSettings.served (settings : ReviewSettings) : ServedRole → String
  | .defender => settings.proponentIdentity
  | .challenger => settings.opponentIdentity
  | .judge => settings.identity

/-- One row of the ledger of calls. -/
structure LLMCall where
  callingAgent : String
  model : String
  passedOver : List String
deriving DecidableEq

/-- The models of the rows, by the agent that called them. -/
def answeredModels (calls : Dict String LLMCall) (keys : List String) :
    Dict String (Finset String) :=
  keys.foldl (fun answered key =>
    match calls.get? key with
    | none => answered
    | some call => answered.set call.callingAgent
        (insert call.model ((answered.get? call.callingAgent).getD ∅))) .empty

def joinModels (models : Finset String) : String := ", ".intercalate models.sort

/-- The models that answered for a role; the one it is set to where none did. -/
def roleModels (settings : ReviewSettings) (calls : Dict String LLMCall) (keys : List String)
    (role : ServedRole) : String :=
  let joined := joinModels (((answeredModels calls keys).get? (settings.served role)).getD ∅)
  if joined = "" then settings.modelForRole role else joined

def switchLine (call : LLMCall) : String :=
  call.callingAgent ++ " switched to " ++ call.model ++ " (passed over " ++
    "; ".intercalate call.passedOver ++ ")"

/-- A line for each row that was answered after a refusal, each distinct line once. -/
def llmSwitches (calls : Dict String LLMCall) (keys : List String) : List String :=
  keys.foldl (fun lines key =>
    match calls.get? key with
    | none => lines
    | some call =>
      if call.passedOver.isEmpty then lines
      else if switchLine call ∈ lines then lines else lines ++ [switchLine call]) []

/-! ### The deliberation run -/

structure DeliberationRun where
  sourcePmRunId : String
  verdicts : Dict String Ruling
  vetoedTickers : List String
  debates : Dict String DebateRecord
  narrative : String
  transcript : List TranscriptRow
  roleModels : ServedRole → String
  maxRounds : Nat
  realDebateCount : Nat
  failedOpenCount : Nat
  orphanedReplyCount : Int
  failedOpenTickers : List String
  failedOpenReason : String
  llmSwitches : List String
  createdAt : String

/-- The nodes and edges that a review writes. -/
structure ReviewStore where
  calls : Dict String LLMCall
  runs : Dict String DeliberationRun
  deliberatedBy : List (String × String)
  producedBy : List (String × String)

/-- An edge, unless it stands already. -/
def addLink (edges : List (String × String)) (e : String × String) : List (String × String) :=
  if e ∈ edges then edges else edges ++ [e]

def linkCalls (calls : Dict String LLMCall) (runId : String) (edges : List (String × String))
    (keys : List String) : List (String × String) :=
  keys.foldl (fun edges key =>
    if (calls.get? key).isSome then addLink edges (runId, key) else edges) edges

/-- Write the run once, and link the rows of its calls. -/
def writeDeliberationRun (store : ReviewStore) (pmKey runId : String) (run : DeliberationRun)
    (keys : List String) : ReviewStore where
  calls := store.calls
  runs := if (store.runs.get? runId).isSome then store.runs else store.runs.set runId run
  deliberatedBy := addLink store.deliberatedBy (pmKey, runId)
  producedBy := linkCalls store.calls runId store.producedBy keys

/-! ### What the fields hold -/

section

variable {ordered : List (OrderIntent × OrderReview)} {ticker : String}

theorem assemble_concat (p : OrderIntent × OrderReview) :
    assemble (ordered ++ [p]) = (assemble ordered).add p :=
  List.foldl_concat _ _ _ _

theorem vetoedTickers_assemble : (assemble ordered).vetoedTickers =
    (ordered.filter fun p => decide (p.2.verdict = .overturn)).map fun p => p.1.ticker := by
  induction ordered using List.reverseRecOn with
  | nil => rfl
  | append_singleton ordered p ih =>
    rw [assemble_concat, List.filter_append, List.map_append, ← ih]
    by_cases h : p.2.verdict = .overturn
    · simp [ReviewBatch.add, h]
    · simp [ReviewBatch.add, h]

theorem failedOpenTickers_assemble : (assemble ordered).failedOpenTickers =
    (ordered.filter fun p => p.2.failedOpen).map fun p => p.1.ticker := by
  induction ordered using List.reverseRecOn with
  | nil => rfl
  | append_singleton ordered p ih =>
    rw [assemble_concat, List.filter_append, List.map_append, ← ih]
    by_cases h : p.2.failedOpen
    · simp [ReviewBatch.add, h]
    · simp [ReviewBatch.add, h]

theorem llmCallKeys_assemble :
    (assemble ordered).llmCallKeys = ordered.flatMap fun p => p.2.llmCallKeys := by
  induction ordered using List.reverseRecOn with
  | nil => rfl
  | append_singleton ordered p ih =>
    rw [assemble_concat, List.flatMap_append, ← ih, List.flatMap_singleton]
    rfl

/-- What is set at each order's ticker reads the last order of the ticker. -/
theorem get?_set_last {ν : Type} {d : Dict String ν} (read : OrderIntent × OrderReview → ν)
    (p : OrderIntent × OrderReview)
    (h : d.get? ticker = (ordered.reverse.find? fun p => decide (p.1.ticker = ticker)).map read) :
    (d.set p.1.ticker (read p)).get? ticker =
      ((ordered ++ [p]).reverse.find? fun p => decide (p.1.ticker = ticker)).map read := by
  rw [List.reverse_concat, List.find?_cons, Dict.get?_set, h]
  by_cases hticker : ticker = p.1.ticker
  · simp [hticker]
  · rw [if_neg hticker, decide_eq_false (Ne.symm hticker)]

/-- Under a ticker stands the record of its last order. -/
theorem debates_assemble : (assemble ordered).debates.get? ticker =
    (ordered.reverse.find? fun p => decide (p.1.ticker = ticker)).map
      fun p => debateRecord p.2 := by
  induction ordered using List.reverseRecOn with
  | nil => rfl
  | append_singleton ordered p ih =>
    rw [assemble_concat]
    exact get?_set_last (fun p => debateRecord p.2) p ih

theorem verdicts_assemble : (assemble ordered).verdicts.get? ticker =
    (ordered.reverse.find? fun p => decide (p.1.ticker = ticker)).map fun p => p.2.verdict := by
  induction ordered using List.reverseRecOn with
  | nil => rfl
  | append_singleton ordered p ih =>
    rw [assemble_concat]
    exact get?_set_last (fun p => p.2.verdict) p ih

end

section

variable {calls : Dict String LLMCall} {keys : List String} {agent model : String}

/-- The models that answered for an agent are those of its rows. -/
theorem mem_answeredModels : model ∈ ((answeredModels calls keys).get? agent).getD ∅ ↔
    ∃ key ∈ keys, ∃ call, calls.get? key = some call ∧ call.callingAgent = agent ∧
      call.model = model := by
  induction keys using List.reverseRecOn with
  | nil => simp [answeredModels]
  | append_singleton keys key ih =>
    rw [answeredModels, List.foldl_concat, ← answeredModels]
    simp only [List.mem_append, List.mem_singleton, or_and_right, exists_or, exists_eq_left, ← ih]
    cases hcall : calls.get? key with
    | none => simp
    | some call =>
      by_cases hagent : agent = call.callingAgent
      · subst hagent
        simp only [Dict.get?_set_self, Option.getD_some, Finset.mem_insert, Option.some.injEq,
          exists_eq_left', true_and]
        constructor
        · rintro (rfl | h)
          · exact .inr rfl
          · exact .inl h
        · rintro (h | rfl)
          · exact .inr h
          · exact .inl rfl
      · simp only [Dict.get?_set_ne _ _ hagent, Option.some.injEq, exists_eq_left',
          Ne.symm hagent, false_and, or_false]

/-- The lines are those of the rows that were answered after a refusal. -/
theorem mem_llmSwitches {line : String} : line ∈ llmSwitches calls keys ↔
    ∃ key ∈ keys, ∃ call, calls.get? key = some call ∧ call.passedOver ≠ [] ∧
      switchLine call = line := by
  induction keys using List.reverseRecOn with
  | nil => simp [llmSwitches]
  | append_singleton keys key ih =>
    rw [llmSwitches, List.foldl_concat, ← llmSwitches]
    simp only [List.mem_append, List.mem_singleton, or_and_right, exists_or, exists_eq_left, ← ih]
    cases hcall : calls.get? key with
    | none => simp
    | some call =>
      by_cases hover : call.passedOver = []
      · simp [hover]
      · by_cases hline : switchLine call ∈ llmSwitches calls keys
        · simp only [List.isEmpty_iff, hover, if_false, if_pos hline, Option.some.injEq,
            exists_eq_left', ne_eq, not_false_eq_true, true_and]
          constructor
          · exact .inl
          · rintro (h | rfl)
            · exact h
            · exact hline
        · simp only [List.isEmpty_iff, hover, if_false, if_neg hline, List.mem_append,
            List.mem_singleton, Option.some.injEq, exists_eq_left', ne_eq, not_false_eq_true,
            true_and]
          exact or_congr_right eq_comm

theorem mem_addLink {edges : List (String × String)} {e e' : String × String} :
    e' ∈ addLink edges e ↔ e' ∈ edges ∨ e' = e := by
  unfold addLink
  split
  · rename_i h
    constructor
    · exact .inl
    · rintro (h' | rfl)
      · exact h'
      · exact h
  · rw [List.mem_append, List.mem_singleton]

theorem mem_linkCalls {runId : String} {edges : List (String × String)} {e : String × String} :
    e ∈ linkCalls calls runId edges keys ↔
      e ∈ edges ∨ ∃ key ∈ keys, (calls.get? key).isSome ∧ e = (runId, key) := by
  induction keys using List.reverseRecOn with
  | nil => simp [linkCalls]
  | append_singleton keys key ih =>
    rw [linkCalls, List.foldl_concat, ← linkCalls]
    simp only [List.mem_append, List.mem_singleton, or_and_right, exists_or, exists_eq_left]
    by_cases h : (calls.get? key).isSome
    · rw [if_pos h, mem_addLink, ih, or_assoc]
      simp [h]
    · rw [if_neg h, ih]
      simp [h]

end

end TradingAgents.Deliberator
