import Mathlib.Data.Rat.Defs
import TradingAgents.Kernel.Graph
import TradingAgents.ProofKit.Fallible

/-! Ready events: the small bus messages that announce a graph node, and the request envelope that
the announced node holds.  `loads` is the JSON reader. -/

namespace TradingAgents.Kernel

open ProofKit

/-- The errors that the receivers of ready events tell apart. -/
inductive PyError where
  | runtimeError
  | typeError
  | valueError
  | other (name : String)
deriving DecidableEq, Repr

/-- A JSON value. -/
inductive MessageJson where
  | null
  | bool (b : Bool)
  | num (q : ℚ)
  | str (s : String)
  | array (xs : List MessageJson)
  | object (fields : List (String × MessageJson))

/-- A part of a message body. -/
inductive BodyChunk where
  | bytes (b : ByteArray)
  | shown (s : String)

/-- The body of a bus message, as the bus library hands it over. -/
inductive Body where
  | bytes (b : ByteArray)
  | text (s : String)
  | chunks (parts : List BodyChunk)
  | shown (s : String)

/-- A message of the bus; a delivery count that is missing or unreadable is `none`. -/
structure RawMessage where
  sequenceNumber : Nat
  body : Body
  deliveryCount : Option Int

def utf8Text (b : ByteArray) : Except PyError String :=
  match String.fromUTF8? b with
  | some s => .ok s
  | none => .error .valueError

def chunkText : BodyChunk → Except PyError String
  | .bytes b => utf8Text b
  | .shown s => .ok s

def bodyText : Body → Except PyError String
  | .bytes b => utf8Text b
  | .text s => .ok s
  | .chunks parts => do
    let texts ← parts.mapM chunkText
    pure (String.join texts)
  | .shown s => .ok s

/-- A field of a JSON object; the last one of a name counts. -/
def field? (fields : List (String × MessageJson)) (name : String) : Option MessageJson :=
  fields.reverse.lookup name

/-- The ready event in a message body. -/
def readyEventFromRaw (loads : String → Except PyError MessageJson) (raw : RawMessage) :
    Except PyError (List (String × MessageJson)) := do
  let text ← bodyText raw.body
  match ← loads text with
  | .object fields => pure fields
  | _ => .error .valueError

/-- What a ready event announces. -/
structure ReadyEvent where
  topic : String
  label : String
  ref : String
  runId : Option String
deriving DecidableEq

def textField (fields : List (String × MessageJson)) (name : String) : Except PyError String :=
  match field? fields name with
  | some (.str s) => .ok s
  | _ => .error .valueError

def optionalTextField (fields : List (String × MessageJson)) (name : String) :
    Except PyError (Option String) :=
  match field? fields name with
  | some (.str s) => .ok (some s)
  | some .null | none => .ok none
  | some _ => .error .valueError

def readyEvent (fields : List (String × MessageJson)) : Except PyError ReadyEvent := do
  let topic ← textField fields "topic"
  let label ← textField fields "label"
  let ref ← textField fields "ref"
  let runId ← optionalTextField fields "run_id"
  pure ⟨topic, label, ref, runId⟩

/-- The node that a ready event announces. -/
def claimCheckRead {δ : Type} (getNode : String → String → Except PyError (Option (Node δ)))
    (fields : List (String × MessageJson)) : Except PyError (Node δ) := do
  let ready ← readyEvent fields
  match ← getNode ready.label ready.ref with
  | some node => pure node
  | none => .error .runtimeError

/-! ### Envelopes -/

inductive MessageType where
  | request
  | response
  | notification
  | error
deriving DecidableEq, Repr

def MessageType.ofText : String → Option MessageType
  | "request" => some request
  | "response" => some response
  | "notification" => some notification
  | "error" => some error
  | _ => none

def isBlank (s : String) : Bool := s.toList.all Char.isWhitespace

/-- One communication between agents; an absent id is drawn when the envelope is built. -/
structure AgentMessage (δ : Type) where
  id : Option String
  sender : String
  recipient : String
  messageType : MessageType
  capability : String
  payload : Option δ
  correlationId : Option String
  sender_ne : sender ≠ recipient
  uncorrelated : messageType = .request → correlationId = none
  correlated : messageType = .response ∨ messageType = .error → correlationId ≠ none
  capability_shown : isBlank capability = false
deriving DecidableEq

/-- The text formats that an envelope's identifiers and time must have. -/
structure Formats where
  isUuid : String → Bool
  isDatetime : String → Bool

section Validation

variable {δ : Type} (formats : Formats) (props : Props δ)

def textProp (name : String) : Except PyError String :=
  match props.get? name with
  | some (.str s) => .ok s
  | _ => .error .valueError

/-- A property that is left out, or a text of a format. -/
def formattedProp (accepts : String → Bool) (name : String) : Except PyError (Option String) :=
  match props.get? name with
  | none => .ok none
  | some (.str s) => if accepts s then .ok (some s) else .error .valueError
  | some _ => .error .valueError

def correlationProp : Except PyError (Option String) :=
  match props.get? "correlation_id" with
  | some .null => .ok none
  | _ => formattedProp props formats.isUuid "correlation_id"

def payloadProp : Except PyError (Option δ) :=
  match props.get? "payload" with
  | none => .ok none
  | some (.doc d) => .ok (some d)
  | some _ => .error .valueError

def messageTypeProp : Except PyError MessageType := do
  let text ← textProp props "message_type"
  match MessageType.ofText text with
  | some messageType => .ok messageType
  | none => .error .valueError

/-- The envelope that a node's properties hold. -/
def agentMessage : Except PyError (AgentMessage δ) := do
  let id ← formattedProp props formats.isUuid "id"
  let _ ← formattedProp props formats.isDatetime "sent_at"
  let sender ← textProp props "sender"
  let recipient ← textProp props "recipient"
  let messageType ← messageTypeProp props
  let capability ← textProp props "capability"
  let payload ← payloadProp props
  let correlationId ← correlationProp formats props
  if hne : sender = recipient then .error .valueError
  else if hun : messageType = .request ∧ correlationId ≠ none then .error .valueError
  else if hco : (messageType = .response ∨ messageType = .error) ∧ correlationId = none then
    .error .valueError
  else if hcap : isBlank capability = true then .error .valueError
  else
    pure ⟨id, sender, recipient, messageType, capability, payload, correlationId, hne,
      fun h => by_contra fun hc => hun ⟨h, hc⟩, fun h hc => hco ⟨h, hc⟩, by simpa using hcap⟩

end Validation

end TradingAgents.Kernel
