import Mathlib
import TradingAgents.Kernel.RequestConsumer
import TradingAgents.ProofKit.Runs

/-! The reply inbox of the deliberator manager.  Each peer call is a thread that registers its id,
publishes its request, and receives ready events until its own one comes.  A step of a thread is one
block under the lock of the inbox, one call of the bus, or its decision over the event it holds. -/

namespace TradingAgents.Deliberator

open Kernel ProofKit

abbrev EventFields := List (String × MessageJson)

/-- A message of the bus, with the requests that were published when it arrived. -/
structure Arrival where
  raw : RawMessage
  published : Finset String

/-- How a peer call comes to the end of its wait. -/
inductive Outcome where
  | replied (event : EventFields) (orphanCount : Nat)
  | timedOut (orphanCount : Nat)
  | broken

/-- Where a peer call is in the code; `id` is its correlation id and `orphans` its orphan count. -/
inductive Pc where
  | idle
  | expecting (id : String)
  | popping (id : String) (orphans : Nat)
  | checking (id : String) (orphans : Nat)
  | receiving (id : String) (orphans : Nat) (remaining : ℚ)
  | missed (id : String) (orphans : Nat) (remaining : ℚ)
  | held (id : String) (orphans : Nat) (message : Arrival)
  | testing (id : String) (orphans : Nat) (message : Arrival) (runId : String) (event : EventFields)
  | completing (id : String) (orphans : Nat) (message : Arrival) (runId : String)
      (event : EventFields)
  | stashing (id : String) (orphans : Nat) (runId : String) (event : EventFields)
  | rejecting (id : String) (orphans : Nat) (message : Arrival)
  | replying (id : String) (orphans : Nat) (message : Arrival) (event : EventFields)
  | leaving (id : String) (outcome : Outcome)
  | left (id : String) (outcome : Outcome)

/-- The inbox, the bus and the peer calls.  `requested` are the ids ever registered, and
`deadLetters` the dead-lettered messages with the requests then in flight. -/
structure Inbox where
  pending : Finset String
  stashed : Dict String EventFields
  requested : Finset String
  published : Finset String
  nextNumber : Nat
  queue : List Arrival
  settled : List (Nat × Verb)
  deadLetters : List (Arrival × Finset String)
  pc : Nat → Pc

namespace Inbox

def init : Inbox where
  pending := ∅
  stashed := .empty
  requested := ∅
  published := ∅
  nextNumber := 0
  queue := []
  settled := []
  deadLetters := []
  pc := fun _ => .idle

def goto (s : Inbox) (t : Nat) (pc : Pc) : Inbox := { s with pc := Function.update s.pc t pc }

/-- The block of `_pop`. -/
def popStash (s : Inbox) (id : String) : Option EventFields × Inbox :=
  (s.stashed.get? id, { s with stashed := s.stashed.erase id })

def stash (s : Inbox) (runId : String) (event : EventFields) : Inbox :=
  { s with stashed := s.stashed.set runId event }

def settle (s : Inbox) (message : Arrival) (verb : Verb) : Inbox :=
  { s with settled := s.settled ++ [(message.raw.sequenceNumber, verb)] }

def deadLetter (s : Inbox) (message : Arrival) : Inbox :=
  { s.settle message (.deadLettered "S171OrphanedReply") with
    deadLetters := s.deadLetters ++ [(message, s.pending)] }

/-- The blocks of `expecting`. -/
def register (s : Inbox) (id : String) : Inbox :=
  { s with pending := insert id s.pending, requested := insert id s.requested }

def unregister (s : Inbox) (id : String) : Inbox :=
  { s with pending := s.pending.erase id, stashed := s.stashed.erase id }

def arrive (s : Inbox) (body : Body) (deliveryCount : Option Int) : Inbox :=
  { s with
    nextNumber := s.nextNumber + 1
    queue := s.queue ++ [⟨⟨s.nextNumber, body, deliveryCount⟩, s.published⟩] }

end Inbox

def replyReceiveSliceSeconds : ℚ := 1

/-- The run id of an event. -/
def runId (event : EventFields) : Option String :=
  match field? event "run_id" with
  | some (.str s) => some s
  | _ => none

/-- Whether the decoder's error marks a malformed message instead of ending the wait. -/
def Malformed (e : PyError) : Prop := e = .typeError ∨ e = .valueError

instance : DecidablePred Malformed := fun e => inferInstanceAs (Decidable (e = _ ∨ e = _))

/-- What a peer call does with the message it holds. -/
def Pc.decoded (loads : String → Except PyError MessageJson) (id : String) (orphans : Nat)
    (message : Arrival) : Pc :=
  match readyEventFromRaw loads message.raw with
  | .error e => if Malformed e then .rejecting id orphans message else .leaving id .broken
  | .ok event =>
    match runId event with
    | none => .rejecting id orphans message
    | some run =>
      if run = id then .replying id orphans message event
      else .testing id orphans message run event

/-- A move: a message arrives, a peer call begins with its id, or the call `thread` takes its next
step.  What the clock and the bus answer is part of the move. -/
inductive Move where
  | arrive (body : Body) (deliveryCount : Option Int)
  | expect (thread : Nat) (id : String)
  | publish (thread : Nat) (succeeds : Bool)
  | pop (thread : Nat)
  | check (thread : Nat) (remaining : ℚ)
  | receive (thread : Nat) (sequenceNumber : Option Nat)
  | decode (thread : Nat)
  | test (thread : Nat)
  | settle (thread : Nat)
  | stash (thread : Nat)
  | leave (thread : Nat)

inductive Blocked where
  | notEnabled

/-- One move, where the place of its thread allows it.  The id of a call is a fresh one. -/
def step (loads : String → Except PyError MessageJson) (s : Inbox) : Move → Except Blocked Inbox
  | .arrive body deliveryCount => .ok (s.arrive body deliveryCount)
  | .expect t id =>
    match s.pc t with
    | .idle =>
      if id ∈ s.requested then .error .notEnabled
      else .ok ((s.register id).goto t (.expecting id))
    | _ => .error .notEnabled
  | .publish t succeeds =>
    match s.pc t with
    | .expecting id =>
      let s := { s with published := insert id s.published }
      .ok (s.goto t (if succeeds then .popping id 0 else .leaving id .broken))
    | _ => .error .notEnabled
  | .pop t =>
    match s.pc t with
    | .popping id orphans =>
      match s.popStash id with
      | (some event, s) => .ok (s.goto t (.leaving id (.replied event orphans)))
      | (none, s) => .ok (s.goto t (.checking id orphans))
    | .missed id orphans remaining =>
      match s.popStash id with
      | (some event, s) => .ok (s.goto t (.leaving id (.replied event orphans)))
      | (none, s) =>
        if remaining ≤ min remaining replyReceiveSliceSeconds then
          .ok (s.goto t (.leaving id (.timedOut orphans)))
        else .ok (s.goto t (.popping id orphans))
    | _ => .error .notEnabled
  | .check t remaining =>
    match s.pc t with
    | .checking id orphans =>
      .ok (s.goto t
        (if remaining ≤ 0 then .leaving id
          (.timedOut orphans) else .receiving id orphans remaining))
    | _ => .error .notEnabled
  | .receive t sequenceNumber =>
    match s.pc t, sequenceNumber with
    | .receiving id orphans remaining, none => .ok (s.goto t (.missed id orphans remaining))
    | .receiving id orphans _, some n =>
      match s.queue.find? fun m => m.raw.sequenceNumber = n with
      | some message =>
        let s := { s with queue := s.queue.eraseP fun m => m.raw.sequenceNumber = n }
        .ok (s.goto t (.held id orphans message))
      | none => .error .notEnabled
    | _, _ => .error .notEnabled
  | .decode t =>
    match s.pc t with
    | .held id orphans message => .ok (s.goto t (.decoded loads id orphans message))
    | _ => .error .notEnabled
  | .test t =>
    match s.pc t with
    | .testing id orphans message run event =>
      .ok (s.goto t (if run ∈ s.pending then .completing id orphans message run event
        else .rejecting id orphans message))
    | _ => .error .notEnabled
  | .settle t =>
    match s.pc t with
    | .completing id orphans message run event =>
      .ok ((s.settle message .completed).goto t (.stashing id orphans run event))
    | .replying id orphans message event =>
      .ok ((s.settle message .completed).goto t (.leaving id (.replied event orphans)))
    | .rejecting id orphans message =>
      .ok ((s.deadLetter message).goto t (.popping id (orphans + 1)))
    | _ => .error .notEnabled
  | .stash t =>
    match s.pc t with
    | .stashing id orphans run event => .ok ((s.stash run event).goto t (.popping id orphans))
    | _ => .error .notEnabled
  | .leave t =>
    match s.pc t with
    | .leaving id outcome => .ok ((s.unregister id).goto t (.left id outcome))
    | _ => .error .notEnabled

end TradingAgents.Deliberator
