import TradingAgents.Contracts.Documents
import TradingAgents.ProofKit.Effects
import TradingAgents.ProofKit.FreshOrdinal
import TradingAgents.ProofKit.PyText

/-! The operator's command interpreter: what a model answers to a command is read as a typed intent
of a known family or as a refusal, and every command leaves its ledger row, its audit and, where it
was understood, its intent in the graph. -/

namespace TradingAgents.Operator

open Kernel ProofKit

/-! ### The grammar -/

inductive IntentFamily where
  | status
  | explain
  | approve
  | reject
  | modify
  | run
  | mode
  | stage
  | pause
  | resume
deriving DecidableEq, Repr

def IntentFamily.value : IntentFamily → String
  | status => "status"
  | explain => "explain"
  | approve => "approve"
  | reject => "reject"
  | modify => "modify"
  | run => "run"
  | mode => "mode"
  | stage => "stage"
  | pause => "pause"
  | resume => "resume"

def IntentFamily.all : List IntentFamily :=
  [status, explain, approve, reject, modify, run, mode, stage, pause, resume]

def IntentFamily.ofValue (name : String) : Option IntentFamily :=
  IntentFamily.all.find? fun family => decide (family.value = name)

structure TypedIntent where
  family : IntentFamily
  parameters : Dict String String
  requiresConfirmation : Bool
  provenance : Provenance
deriving DecidableEq

/-- Set a parameter of an intent. -/
def TypedIntent.withParameter (intent : TypedIntent) (name value : String) : TypedIntent :=
  { intent with parameters := intent.parameters.set name value }

/-- What a family asks for: whether it must be confirmed, and the parameters it cannot do without,
each by the names its readers take. -/
structure FamilySpec where
  requiresConfirmation : Bool
  required : List (List String) := []

/-- `INTENT_FAMILIES`. -/
def intentFamilies : IntentFamily → FamilySpec
  | .status => ⟨false, []⟩
  | .explain => ⟨false, []⟩
  | .approve => ⟨true, [["target", "subject"]]⟩
  | .reject => ⟨true, [["target", "subject"]]⟩
  | .modify => ⟨true, [["name"], ["value"]]⟩
  | .run => ⟨true, []⟩
  | .mode => ⟨true, [["mode"]]⟩
  | .stage => ⟨true, [["stage", "target"]]⟩
  | .pause => ⟨false, []⟩
  | .resume => ⟨true, [["stage", "from_stage"]]⟩

/-- The required parameters that none of their names gives. -/
def missingParameters (family : IntentFamily) (parameters : Dict String String) : List String :=
  ((intentFamilies family).required.filter fun names =>
    !names.any fun name => decide (PyText.strip ((parameters.get? name).getD "") ≠ ""))
    |>.map fun names => names.headD ""

/-- The grammar decides on the confirmation, whatever the model says. -/
def applyConfirmationPolicy (family : IntentFamily) (intent : TypedIntent) : TypedIntent :=
  { intent with requiresConfirmation := (intentFamilies family).requiresConfirmation }

/-! ### The reply of the model -/

/-- A value in a reply that is no object: a text, a number or a truth value, or anything else, each
by its `str`. -/
inductive ReplyScalar where
  | text (s : String)
  | scalar (shown : String) (truthy : Bool)
  | other (shown : String) (truthy : Bool)
deriving DecidableEq

inductive ReplyValue where
  | plain (v : ReplyScalar)
  | object (entries : Dict String ReplyScalar) (shown : String)
deriving DecidableEq

abbrev ReplyData := Dict String ReplyValue

/-- How a request to the model ended: with a text that holds an object, other JSON or none, cut off
at the output limit, or failed, with the operator-facing words for it. -/
inductive ModelAnswer where
  | object (data : ReplyData)
  | otherJson
  | malformed
  | cutOff
  | failed (reply : String)

inductive Outcome where
  | intent
  | refused
  | needsClarification
deriving DecidableEq, Repr

def Outcome.value : Outcome → String
  | intent => "intent"
  | refused => "refused"
  | needsClarification => "needs_clarification"

def text (s : String) : ReplyValue := .plain (.text s)

def cutOffReply : String :=
  "The model's reply was cut off at its output limit before it finished, " ++
    "so there is no answer. Ask again, or ask something narrower."

def unknownFamilyReply : String :=
  "The model's reply named no command this system has, so nothing was done."

def missingParametersReply (family : String) (missing : List String) : String :=
  "The " ++ family ++ " command needs its " ++ String.intercalate " and " missing ++
    ", and the model's reply gave none, so nothing was done. Say it again and name it."

def refusal (reason : String) : ReplyData :=
  .ofList [("outcome", text "refused"), ("reason", text reason)]

def parseJson : ModelAnswer → ReplyData
  | .object data => data
  | .otherJson => .ofList [("outcome", text "refused")]
  | .malformed => refusal "model returned malformed JSON"
  | .cutOff => refusal cutOffReply
  | .failed reply => refusal reply

def outcome (data : ReplyData) : Outcome :=
  if data.get? "outcome" = some (text "intent") then .intent
  else if data.get? "outcome" = some (text "needs_clarification") then .needsClarification
  else .refused

/-- The text of a parameter that is kept: a text, a number or a truth value. -/
def ReplyScalar.shown? : ReplyScalar → Option String
  | .text s => some s
  | .scalar shown _ => some shown
  | .other _ _ => none

/-- `_params`. -/
def params : Option ReplyValue → Dict String String
  | some (.object entries _) => .ofList (entries.entries.filterMap fun entry =>
      entry.2.shown?.map fun shown => (entry.1, shown))
  | _ => .empty

theorem params_get? (entries : Dict String ReplyScalar) (shown name : String) :
    (params (some (.object entries shown))).get? name =
      (entries.get? name).bind ReplyScalar.shown? := by
  have hlookup : ∀ l : List (String × ReplyScalar), (l.map Prod.fst).Nodup →
      let kept := l.filterMap fun entry => entry.2.shown?.map fun shown => (entry.1, shown)
      (kept.map Prod.fst).Sublist (l.map Prod.fst) ∧
        kept.lookup name = (l.lookup name).bind ReplyScalar.shown? := by
    intro l
    induction l with
    | nil => exact fun _ => ⟨.slnil, rfl⟩
    | cons entry l ih =>
      intro hnodup
      obtain ⟨key, value⟩ := entry
      rw [List.map_cons, List.nodup_cons] at hnodup
      obtain ⟨hsub, heq⟩ := ih hnodup.2
      dsimp only
      cases hvalue : value.shown? with
      | none =>
        rw [List.filterMap_cons_none (by simp [hvalue]), Dict.lookup_cons]
        refine ⟨hsub.cons _, ?_⟩
        by_cases hname : name = key
        · -- the key does not come again
          have hlast : l.lookup name = none := by
            rw [List.lookup_eq_none_iff]
            intro p hp
            have hne : p.1 ≠ key := by
              intro h
              have hmem : p.1 ∈ l.map Prod.fst := List.mem_map_of_mem hp
              exact hnodup.1 (h ▸ hmem)
            simpa [hname] using hne.symm
          rw [if_pos hname, heq, hlast]
          exact hvalue.symm
        · rw [if_neg hname, heq]
      | some s =>
        rw [List.filterMap_cons_some (by rw [hvalue]; rfl), Dict.lookup_cons, Dict.lookup_cons]
        refine ⟨hsub.cons_cons _, ?_⟩
        by_cases hname : name = key
        · rw [if_pos hname, if_pos hname]
          exact hvalue.symm
        · rw [if_neg hname, if_neg hname, heq]
  obtain ⟨hsub, heq⟩ := hlookup entries.entries entries.nodup
  show List.lookup name (Dict.ofList _).entries = _
  rw [Dict.entries_ofList (hsub.nodup entries.nodup)]
  exact heq

/-- Pin the explicit approval of the command text, whatever family the model picked. -/
def normalizeExplicitIntent (approveTarget : String → Option String) (commandText : String)
    (data : ReplyData) : ReplyData :=
  match approveTarget commandText with
  | none => data
  | some target =>
    let existing := match data.get? "parameters" with
      | some (.object entries _) => entries
      | _ => .empty
    ((data.set "outcome" (text "intent")).set "family" (text "approve")).set "parameters"
      (.object (existing.set "target" (.text target)) "")

/-- Read an intent of no known family, or without what it needs, as a refusal. -/
def checkedIntent (data : ReplyData) : ReplyData :=
  if outcome data ≠ .intent then data
  else
    let named := match data.get? "family" with
      | some (.plain (.text name)) => (IntentFamily.ofValue name).map fun family => (name, family)
      | _ => none
    match named with
    | none => refusal unknownFamilyReply
    | some (name, family) =>
      let missing := missingParameters family (params (data.get? "parameters"))
      if missing = [] then data else refusal (missingParametersReply name missing)

/-- The typed intent of checked data; the grammar owns the confirmation. -/
def intentFromData (data : ReplyData) (correlationId : String) : Except HandlerError TypedIntent :=
  match data.get? "family" with
  | some (.plain (.text name)) =>
    match IntentFamily.ofValue name with
    | some family => .ok (applyConfirmationPolicy family
        ⟨family, params (data.get? "parameters"), false, ⟨correlationId, "operator", none⟩⟩)
    | none => .error (.validation "TypedIntent")
  | some _ => .error (.validation "TypedIntent")
  | none => .error (.keyError "family")

/-- `str(data.get("reason") or "Command refused.")`. -/
def message (data : ReplyData) : String :=
  match data.get? "reason" with
  | some (.plain (.text s)) => if s = "" then "Command refused." else s
  | some (.plain (.scalar shown truthy)) => if truthy then shown else "Command refused."
  | some (.plain (.other shown truthy)) => if truthy then shown else "Command refused."
  | some (.object entries shown) => if entries.entries = [] then "Command refused." else shown
  | none => "Command refused."

/-! ### The handlers -/

/-- A handler over the graph; a raise keeps what was written before it. -/
abbrev GraphM := EStateM HandlerError PipelineGraph

def mergeM (label key : String) (props : Props Document) : GraphM PipelineNode := do
  let g ← get
  match g.mergeNode label key props with
  | .ok (g, node) => set g; pure node
  | .error e => throw (.graph e)

def addEdgeM (parent child : PipelineNode) (edgeType : String) : GraphM Unit := do
  let g ← get
  match g.addEdge parent.nodeKey child.nodeKey edgeType with
  | .ok g => set g
  | .error e => throw (.graph e)

/-- The node under a key, merged with `props` where there is none. -/
def mergeOnce (label key : String) (props : Props Document) : GraphM PipelineNode := do
  let g ← get
  match g.getNode label key with
  | some node => pure node
  | none => mergeM label key props

structure HumanCommand where
  text : String
  actor : String
  channel : String
  requestId : Option String

structure CommandResult where
  outcome : Outcome
  intent : Option TypedIntent
  message : String

/-- What the interpreter takes from outside: the digest of a text, the target that a command text
approves in so many words, and the JSON text of parameters. -/
structure OperatorKit where
  digest : String → String
  approveTarget : String → Option String
  dumps : Dict String String → String

/-- What a command is read as; no grammar is applied to a request that failed. -/
def readAnswer (kit : OperatorKit) (commandText : String) : ModelAnswer → ReplyData
  | .failed reply => refusal reply
  | answer =>
    checkedIntent (normalizeExplicitIntent kit.approveTarget commandText (parseJson answer))

/-- A request to the model: how it ended, and the properties of its ledger row. -/
structure ModelCall where
  answer : ModelAnswer
  row : Props Document
  now : String

def llmCallLabel : String := "LLMCall"

def commandAuditLabel : String := "CommandAudit"

def intentLabel : String := "Intent"

/-- `correlation_id`: a stable id of a command. -/
def correlationId (kit : OperatorKit) (parts : List String) : String :=
  String.ofList ((kit.digest (String.intercalate "\x00" parts)).toList.take 16)

/-- `request_correlation`: with a request id the command is one of its own. -/
def requestCorrelation (kit : OperatorKit) (requestId : Option String) (parts : List String) :
    String :=
  match requestId with
  | none => correlationId kit parts
  | some id => if id = "" then correlationId kit parts else correlationId kit (parts ++ [id])

/-- The `n`-th key of the ledger rows of a command. -/
def llmCallKey (corr : String) (n : Nat) : String :=
  let first := "llmcall:operator:" ++ corr
  if n = 0 then first else first ++ ":repeat-" ++ toString n

/-- Append a row to the ledger under the first free key. -/
def writeLlmCall (corr : String) (row : Props Document) : GraphM PipelineNode := do
  let g ← get
  let n := firstOrdinal (g.listNodes llmCallLabel).length fun n =>
    (g.getNode llmCallLabel (llmCallKey corr n)).isNone
  mergeM llmCallLabel (llmCallKey corr n) row

/-- One audit of a command, linked to every request made for it. -/
def writeCommandAudit (corr actor channel text outcome now : String) (row : PipelineNode) :
    GraphM PipelineNode := do
  let node ← mergeOnce commandAuditLabel ("audit:" ++ corr) (.ofList [
    ("correlation_id", .str corr), ("actor", .str actor), ("channel", .str channel),
    ("text", .str text), ("outcome", .str outcome), ("created_at", .str now)])
  addEdgeM node row "PRODUCED_BY"
  pure node

/-- One intent of a command, linked to its audit. -/
def writeIntent (kit : OperatorKit) (corr : String) (audit : PipelineNode) (intent : TypedIntent) :
    GraphM PipelineNode := do
  let node ← mergeOnce intentLabel ("intent:" ++ corr) (.ofList [
    ("family", .str intent.family.value), ("parameters", .str (kit.dumps intent.parameters)),
    ("requires_confirmation", .bool intent.requiresConfirmation)])
  addEdgeM audit node "RESULTED_IN"
  pure node

/-- Attach the intent's node to its provenance. -/
def withGraph (intent : TypedIntent) (node : PipelineNode) : TypedIntent :=
  { intent with provenance := ⟨intent.provenance.runId, "operator",
      some (node.label ++ ":" ++ node.key)⟩ }

def interpretCommand (kit : OperatorKit) (command : HumanCommand) (call : ModelCall) :
    GraphM CommandResult := do
  let corr := requestCorrelation kit command.requestId
    [command.actor, command.channel, command.text]
  let row ← writeLlmCall corr call.row
  let data := readAnswer kit command.text call.answer
  let audit ← writeCommandAudit corr command.actor command.channel command.text
    (outcome data).value call.now row
  if outcome data ≠ .intent then pure ⟨outcome data, none, message data⟩
  else
    match intentFromData data corr with
    | .error e => throw e
    | .ok intent =>
      let node ← writeIntent kit corr audit intent
      pure ⟨.intent, some (withGraph intent node), "Parsed " ++ intent.family.value ++ " intent."⟩

/-- The capability: whatever raises in it, the command is refused. -/
def interpret (kit : OperatorKit) (command : HumanCommand) (call : ModelCall) :
    GraphM CommandResult :=
  tryCatch (interpretCommand kit command call) fun _ =>
    pure ⟨.refused, none, "Operator could not parse the command."⟩

/-- The capability to explain: the row and the audit of the question, and the model's words. -/
def explain (kit : OperatorKit) (subject : String) (requestId : Option String) (call : ModelCall)
    (words : String) : GraphM String := do
  let corr := requestCorrelation kit requestId ["explain", subject, "operator"]
  let row ← writeLlmCall corr call.row
  let _ ← writeCommandAudit corr "operator" "dashboard" subject "explain" call.now row
  pure words

end TradingAgents.Operator
