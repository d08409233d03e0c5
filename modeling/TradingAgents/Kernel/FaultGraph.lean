import Mathlib
import TradingAgents.Kernel.Graph
import TradingAgents.ProofKit.Text

/-! The fault sink that writes to the graph, and the queries that count what it wrote.  The first
fault of a window is a node of its own; the repeats of it are counted in memory and written as one
summary when the window closes. -/

namespace TradingAgents.Kernel

open ProofKit

/-- The moments of faults, the texts of moments, and the digests of messages.  `iso` writes a moment
with its offset and `fromIso` reads it back; a digest has 64 hexadecimal digits, and no part of a
moment's text between two colons is that long. -/
structure FaultTexts (τ : Type) where
  micros : τ → Int
  iso : τ → String
  fromIso : String → Option τ
  hexdigest : String → String
  fromIso_iso : ∀ t, fromIso (iso t) = some t
  iso_parts : ∀ t part, part <:+: (iso t).toList → ':' ∉ part → part.length < 64
  hexdigest_length : ∀ message, (hexdigest message).toList.length = 64
  hexdigest_colon : ∀ message, ':' ∉ (hexdigest message).toList

/-- A failure; `δ` is the type of its context. -/
structure AgentFault (τ δ : Type) where
  occurredAt : τ
  sourceAgent : String
  sourceModule : String
  capability : Option String
  severity : String
  errorType : String
  message : String
  traceback : Option String
  correlationId : Option String
  context : δ

structure FaultCollapsePolicy where
  collapseWindowSeconds : ℚ := 3600
  positive : 0 < collapseWindowSeconds := by norm_num

structure FaultSignature where
  key : String
  messageDigest : String

structure FaultWindow (τ δ : Type) where
  signature : FaultSignature
  firstFault : AgentFault τ δ
  firstFaultKey : String
  suppressedCount : Nat := 0
  lastSeenAt : Option String := none

namespace FaultWindow

variable {τ δ : Type}

def occurrenceCount (w : FaultWindow τ δ) : Nat := w.suppressedCount + 1

end FaultWindow

/-- A sink: its graph, the faults that the inner sink was given, and the open windows. -/
structure GraphFaultSink (τ δ : Type) where
  graph : Graph δ
  inner : List (AgentFault τ δ)
  windows : Dict String (FaultWindow τ δ)

def optionalText {δ : Type} : Option String → Value δ
  | some s => .str s
  | none => .null

section

variable {τ δ : Type} (texts : FaultTexts τ)

/-- `capability or "none"`. -/
def AgentFault.capabilityText (fault : AgentFault τ δ) : String :=
  match fault.capability with
  | some capability => if capability = "" then "none" else capability
  | none => "none"

def faultSignature (fault : AgentFault τ δ) : FaultSignature :=
  let digest := texts.hexdigest fault.message
  { key := fault.sourceAgent ++ ":" ++ fault.sourceModule ++ ":" ++ fault.capabilityText ++ ":" ++
      fault.errorType ++ ":" ++ digest
    messageDigest := digest }

def withinWindow (firstFault fault : AgentFault τ δ) (policy : FaultCollapsePolicy) : Bool :=
  let age : ℚ := (texts.micros fault.occurredAt - texts.micros firstFault.occurredAt) / 1000000
  decide (0 ≤ age) && decide (age ≤ policy.collapseWindowSeconds)

def suppressionKey (w : FaultWindow τ δ) : String :=
  "fault-suppression:" ++ w.signature.key ++ ":" ++ texts.iso w.firstFault.occurredAt

def suppressionProps (w : FaultWindow τ δ) : Props δ :=
  let started := texts.iso w.firstFault.occurredAt
  .ofList [
    ("first_fault_key", .str w.firstFaultKey),
    ("source_agent", .str w.firstFault.sourceAgent),
    ("source_module", .str w.firstFault.sourceModule),
    ("capability", optionalText w.firstFault.capability),
    ("error_type", .str w.firstFault.errorType),
    ("message_digest", .str w.signature.messageDigest),
    ("window_started_at", .str started),
    ("window_last_seen_at", .str (w.lastSeenAt.getD started)),
    ("occurrence_count", .int w.occurrenceCount),
    ("suppressed_count", .int w.suppressedCount),
    ("status", .str "summarized")]

def faultNodeKey (fault : AgentFault τ δ) : String :=
  "fault:" ++ fault.sourceAgent ++ ":" ++ fault.sourceModule ++ ":" ++ fault.capabilityText ++
    ":" ++ texts.iso fault.occurredAt

def faultProps (fault : AgentFault τ δ) : Props δ := .ofList [
  ("source_agent", .str fault.sourceAgent),
  ("source_module", .str fault.sourceModule),
  ("capability", optionalText fault.capability),
  ("severity", .str fault.severity),
  ("error_type", .str fault.errorType),
  ("message", .str fault.message),
  ("traceback", optionalText fault.traceback),
  ("correlation_id", optionalText fault.correlationId),
  ("context", .doc fault.context),
  ("occurred_at", .str (texts.iso fault.occurredAt)),
  ("status", .str "pending")]

def faultLabel : String := "Fault"

def faultSuppressionLabel : String := "FaultSuppression"

namespace GraphFaultSink

variable [DecidableEq δ] (policy : FaultCollapsePolicy)

/-- `_flush`: the window leaves the sink, and its summary is written when it has repeats.  What the
store raises comes beside the sink as it is then. -/
def flushKey (s : GraphFaultSink τ δ) (signatureKey : String) :
    GraphFaultSink τ δ × Option GraphError :=
  match s.windows.get? signatureKey with
  | none => (s, none)
  | some w =>
    let popped := { s with windows := s.windows.erase signatureKey }
    if w.suppressedCount = 0 then (popped, none)
    else
      match s.graph.mergeNode faultSuppressionLabel (suppressionKey texts w)
        (suppressionProps texts w) with
      | .ok (graph, _) => ({ popped with graph := graph }, none)
      | .error e => (popped, some e)

def writeFirst (s : GraphFaultSink τ δ) (fault : AgentFault τ δ) :
    GraphFaultSink τ δ × Option GraphError :=
  let key := faultNodeKey texts fault
  let signature := faultSignature texts fault
  match s.graph.mergeNode faultLabel key (faultProps texts fault) with
  | .ok (graph, _) =>
    let w : FaultWindow τ δ := {
      signature := signature
      firstFault := fault
      firstFaultKey := key
      lastSeenAt := some (texts.iso fault.occurredAt) }
    ({ graph := graph
       inner := s.inner ++ [fault]
       windows := s.windows.set signature.key w }, none)
  | .error e => (s, some e)

def submit (s : GraphFaultSink τ δ) (fault : AgentFault τ δ) :
    GraphFaultSink τ δ × Option GraphError :=
  let key := (faultSignature texts fault).key
  match s.windows.get? key with
  | none => s.writeFirst texts fault
  | some w =>
    if withinWindow texts w.firstFault fault policy then
      let w := { w with
        suppressedCount := w.suppressedCount + 1
        lastSeenAt := some (texts.iso fault.occurredAt) }
      ({ s with
         inner := s.inner ++ [fault]
         windows := s.windows.set key w }, none)
    else
      match s.flushKey texts key with
      | (s, none) => s.writeFirst texts fault
      | (s, some e) => (s, some e)

def flushKeys (s : GraphFaultSink τ δ) : List String → GraphFaultSink τ δ × Option GraphError
  | [] => (s, none)
  | key :: keys =>
    match s.flushKey texts key with
    | (s, none) => s.flushKeys keys
    | (s, some e) => (s, some e)

def flush (s : GraphFaultSink τ δ) : GraphFaultSink τ δ × Option GraphError :=
  s.flushKeys texts s.windows.keys

end GraphFaultSink

/-! ### The queries -/

structure FaultOccurrence (τ δ : Type) where
  node : Node δ
  occurredAt : τ
  occurrenceCount : Int
  suppressedCount : Int

inductive FaultQueryError where
  | missingTimestamp (key : String)
  | badTimestamp (key : String)
deriving DecidableEq

/-- The occurrence and repeat counts of the summaries, by the key of the first fault. -/
def suppressionCounts (g : Graph δ) : Dict String (Int × Int) :=
  (g.listNodes faultSuppressionLabel).foldl (fun counts node =>
    match node.props.get? "first_fault_key" with
    | some (.str key) =>
      counts.set key ((((node.props.get? "occurrence_count").bind Value.int?).getD 1),
        (((node.props.get? "suppressed_count").bind Value.int?).getD 0))
    | _ => counts) .empty

def faultTimestamp (node : Node δ) : Except FaultQueryError τ :=
  match node.props.get? "occurred_at" with
  | none => .error (.missingTimestamp node.key)
  | some raw =>
    match (raw.str?).bind texts.fromIso with
    | some t => .ok t
    | none => .error (.badTimestamp node.key)

def faultOccurrence (counts : Int × Int) (node : Node δ) :
    Except FaultQueryError (FaultOccurrence τ δ) := do
  let occurredAt ← faultTimestamp texts node
  pure ⟨node, occurredAt, counts.1, counts.2⟩

/-- All faults, the newest first. -/
def faultOccurrences (g : Graph δ) : Except FaultQueryError (List (FaultOccurrence τ δ)) := do
  let suppressions := suppressionCounts g
  let occurrences ← (g.listNodes faultLabel).mapM fun node =>
    faultOccurrence texts ((suppressions.get? node.key).getD (1, 0)) node
  pure (occurrences.mergeSort fun a b =>
    decide (texts.micros b.occurredAt ≤ texts.micros a.occurredAt))

def faultsOccurredInWindow (g : Graph δ) (start : τ) (stop : Option τ) :
    Except FaultQueryError (List (FaultOccurrence τ δ)) := do
  let occurrences ← faultOccurrences texts g
  pure (occurrences.filter fun item =>
    decide (texts.micros start ≤ texts.micros item.occurredAt) &&
      stop.all fun stop => decide (texts.micros item.occurredAt < texts.micros stop))

def faultCountInWindow (g : Graph δ) (start : τ) (stop : Option τ) :
    Except FaultQueryError Int := do
  let faults ← faultsOccurredInWindow texts g start stop
  pure (faults.map FaultOccurrence.occurrenceCount).sum

end

end TradingAgents.Kernel
