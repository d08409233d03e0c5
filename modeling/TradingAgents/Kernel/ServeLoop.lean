import Mathlib.Data.List.Induction
import TradingAgents.Kernel.ReadyEvents

/-! The serve loop: requests are polled from an inbox, dispatched through the bus and answered.  A
handler works on the state of its agent and may raise after it has changed it; a reply may fail on
its way back.  How the requests fall into polls is not seen in what the loop does. -/

namespace TradingAgents.Kernel

open ProofKit

/-- What an exception is reported as. -/
structure RaisedError where
  errorType : String
  message : String
deriving DecidableEq, Repr

/-- What a fault boundary hands to the sink. -/
structure BoundaryFault where
  sourceAgent : String
  sourceModule : String
  capability : String
  error : RaisedError
deriving DecidableEq, Repr

/-- A message that has been built has its id. -/
abbrev BuiltMessage (δ : Type) := { m : AgentMessage δ // m.id ≠ none }

/-- A handler: what it returns for a payload, and the state it leaves. -/
abbrev MessageHandler (δ σ : Type) := Option δ → σ → Except RaisedError (Option δ) × σ

/-- The registered handlers and their callers; an error's payload names its type and its text. -/
structure InProcessBus (δ σ : Type) where
  handlers : Dict (String × String) (MessageHandler δ σ)
  allowed : Dict (String × String) (List String)
  errorPayload : (errorType message : String) → δ

/-- Without named callers a capability is open to all. -/
def callerAuthorized (allowedCallers : List String) (sender : String) : Bool :=
  allowedCallers.isEmpty || decide (sender ∈ allowedCallers)

/-- What a request comes to: its answer, the state it leaves, the fault of its handler, and the
outcome in its metric. -/
structure Handled (δ σ : Type) where
  response : AgentMessage δ
  world : σ
  fault : Option BoundaryFault
  ok : Bool

namespace InProcessBus

variable {δ σ : Type}

def register (bus : InProcessBus δ σ) (recipient capability : String)
    (handler : MessageHandler δ σ) (allowedCallers : List String := []) : InProcessBus δ σ :=
  { bus with
    handlers := bus.handlers.set (recipient, capability) handler
    allowed := bus.allowed.set (recipient, capability) allowedCallers }

/-- A message back to the sender of `message`. -/
def answer (message : BuiltMessage δ) (messageType : MessageType)
    (htype : messageType ≠ .request) (payload : Option δ) : AgentMessage δ where
  id := none
  sender := message.1.recipient
  recipient := message.1.sender
  messageType := messageType
  capability := message.1.capability
  payload := payload
  correlationId := message.1.id
  sender_ne := message.1.sender_ne.symm
  uncorrelated h := absurd h htype
  correlated _ := message.2
  capability_shown := message.1.capability_shown

variable (bus : InProcessBus δ σ)

def errorMessage (message : BuiltMessage δ) (errorType text : String) : AgentMessage δ :=
  answer message .error nofun (some (bus.errorPayload errorType text))

def address (message : BuiltMessage δ) : String :=
  message.1.recipient ++ "." ++ message.1.capability

/-- Whether the bus lets a message through to a handler. -/
def admits (message : BuiltMessage δ) : Bool :=
  (bus.handlers.get? (message.1.recipient, message.1.capability)).isSome &&
    callerAuthorized ((bus.allowed.get? (message.1.recipient, message.1.capability)).getD [])
      message.1.sender

/-- Dispatch a request; no fault of a handler is raised. -/
def request (message : BuiltMessage δ) (world : σ) : Handled δ σ :=
  match bus.handlers.get? (message.1.recipient, message.1.capability) with
  | none =>
    ⟨bus.errorMessage message "UnknownCapability"
      ("No handler registered for " ++ address message), world, none, false⟩
  | some handler =>
    if callerAuthorized ((bus.allowed.get? (message.1.recipient, message.1.capability)).getD [])
        message.1.sender = false then
      ⟨bus.errorMessage message "Unauthorized"
        (message.1.sender ++ " is not an authorized caller of " ++ address message), world, none,
        false⟩
    else match handler message.1.payload world with
      | (.ok payload, world') => ⟨answer message .response nofun payload, world', none, true⟩
      | (.error e, world') =>
        ⟨bus.errorMessage message e.errorType e.message, world',
          some ⟨message.1.recipient, "kernel.bus", message.1.capability, e⟩, false⟩

end InProcessBus

/-! ### The loop -/

/-- The loop's inbox, what has been delivered back, the faults and request metrics recorded, and the
state of the agents. -/
structure Server (δ σ : Type) where
  inbox : List (BuiltMessage δ) := []
  replies : List (AgentMessage δ) := []
  faults : List BoundaryFault := []
  metrics : List (String × String × Bool) := []
  world : σ

section

variable {δ σ : Type} (bus : InProcessBus δ σ)
  (transport : Nat → AgentMessage δ → Option RaisedError)

/-- Dispatch one request and reply; `transport` says how the reply fails, by the number of requests
before it. -/
def serveOne (s : Server δ σ) (message : BuiltMessage δ) : Server δ σ :=
  let handled := bus.request message s.world
  let s' : Server δ σ := { s with
    faults := s.faults ++ handled.fault.toList
    metrics := s.metrics ++ [(message.1.recipient, message.1.capability, handled.ok)]
    world := handled.world }
  match transport s.metrics.length handled.response with
  | none => { s' with replies := s'.replies ++ [handled.response] }
  | some e => { s' with
    faults := s'.faults ++ [⟨message.1.recipient, "kernel.serve_loop", message.1.capability, e⟩] }

/-- Serve every pending request, and count them. -/
def Server.serveOnce (s : Server δ σ) : Server δ σ × Nat :=
  (s.inbox.foldl (serveOne bus transport) { s with inbox := [] }, s.inbox.length)

/-- A request arrives, or the loop polls. -/
inductive ServeEvent (δ : Type) where
  | submit (message : BuiltMessage δ)
  | poll

def Server.step (s : Server δ σ) : ServeEvent δ → Server δ σ
  | .submit message => { s with inbox := s.inbox ++ [message] }
  | .poll => (Server.serveOnce bus transport s).1

def ServeEvent.message? : ServeEvent δ → Option (BuiltMessage δ)
  | .submit message => some message
  | .poll => none

/-! ### One request after another -/

/-- The outcomes of requests handled one after another. -/
def handleAll : List (BuiltMessage δ) → σ → List (Handled δ σ)
  | [], _ => []
  | message :: messages, world =>
    let handled := bus.request message world
    handled :: handleAll messages handled.world

/-- The state that requests leave. -/
def worldAfter (messages : List (BuiltMessage δ)) (world : σ) : σ :=
  messages.foldl (fun w message => (bus.request message w).world) world

/-- The answer to a request goes back to its sender, under its id, and it is a response exactly if
the request was admitted and its handler returned. -/
structure Answers (message : BuiltMessage δ) (handled : Handled δ σ) : Prop where
  sender : handled.response.sender = message.1.recipient
  recipient : handled.response.recipient = message.1.sender
  capability : handled.response.capability = message.1.capability
  correlationId : handled.response.correlationId = message.1.id
  messageType : handled.response.messageType = if handled.ok then .response else .error
  admitted : handled.ok = true ∨ handled.fault ≠ none ↔ bus.admits message = true

end

section

variable {δ σ : Type} {bus : InProcessBus δ σ}
  {transport : Nat → AgentMessage δ → Option RaisedError} {message : BuiltMessage δ} {world : σ}
  {s : Server δ σ} {messages : List (BuiltMessage δ)}

theorem request_answers (bus : InProcessBus δ σ) (message : BuiltMessage δ) (world : σ) :
    Answers bus message (bus.request message world) := by
  unfold InProcessBus.request
  cases hhandler : bus.handlers.get? (message.1.recipient, message.1.capability) with
  | none => exact ⟨rfl, rfl, rfl, rfl, rfl, by simp [InProcessBus.admits, hhandler]⟩
  | some handler =>
    dsimp only
    split
    · rename_i hcaller
      exact ⟨rfl, rfl, rfl, rfl, rfl, by simp [InProcessBus.admits, hhandler, hcaller]⟩
    · rename_i hcaller
      split
      · exact ⟨rfl, rfl, rfl, rfl, rfl, by simp [InProcessBus.admits, hhandler, hcaller]⟩
      · exact ⟨rfl, rfl, rfl, rfl, rfl, by simp [InProcessBus.admits, hhandler, hcaller]⟩

/-- A request that is not admitted reaches no handler. -/
theorem request_refused (h : bus.admits message = false) :
    (bus.request message world).world = world := by
  unfold InProcessBus.request
  cases hhandler : bus.handlers.get? (message.1.recipient, message.1.capability) with
  | none => rfl
  | some handler =>
    have hcaller : callerAuthorized ((bus.allowed.get? (message.1.recipient,
        message.1.capability)).getD []) message.1.sender = false := by
      simpa [InProcessBus.admits, hhandler] using h
    dsimp only
    rw [if_pos hcaller]

theorem worldAfter_admitted : worldAfter bus messages world =
    worldAfter bus (messages.filter bus.admits) world := by
  induction messages generalizing world with
  | nil => rfl
  | cons message messages ih =>
    rw [List.filter_cons]
    cases hadmits : bus.admits message with
    | true => exact ih
    | false =>
      show worldAfter bus messages (bus.request message world).world =
        worldAfter bus (messages.filter bus.admits) world
      rw [request_refused hadmits]
      exact ih

theorem handleAll_answers : List.Forall₂ (Answers bus) messages (handleAll bus messages world) := by
  induction messages generalizing world with
  | nil => exact .nil
  | cons message messages ih => exact .cons (request_answers bus message world) ih

theorem handleAll_concat : handleAll bus (messages ++ [message]) world =
    handleAll bus messages world ++ [bus.request message (worldAfter bus messages world)] := by
  induction messages generalizing world with
  | nil => rfl
  | cons first messages ih =>
    show _ :: handleAll bus (messages ++ [message]) _ = _ :: (handleAll bus messages _ ++ _)
    rw [ih]
    rfl

@[simp] theorem length_handleAll : (handleAll bus messages world).length = messages.length := by
  induction messages generalizing world with
  | nil => rfl
  | cons message messages ih =>
    show (handleAll bus messages _).length + 1 = _
    rw [ih]
    rfl

/-- What the loop has recorded of some requests: the state that they leave, their outcomes in order,
the replies that went through, and a fault for each handler and each reply that raised. -/
structure Recorded (bus : InProcessBus δ σ)
    (transport : Nat → AgentMessage δ → Option RaisedError) (messages : List (BuiltMessage δ))
    (start : σ) (s : Server δ σ) : Prop where
  world : s.world = worldAfter bus messages start
  metrics : s.metrics = List.zipWith
    (fun message handled => (message.1.recipient, message.1.capability, handled.ok)) messages
    (handleAll bus messages start)
  replies : s.replies = (((handleAll bus messages start).zipIdx).filter fun entry =>
    (transport entry.2 entry.1.response).isNone).map fun entry => entry.1.response
  faults : s.faults.length = ((handleAll bus messages start).filter (·.fault.isSome)).length +
    (((handleAll bus messages start).zipIdx).filter fun entry =>
      (transport entry.2 entry.1.response).isSome).length

/-- One more request. -/
theorem Recorded.serveOne {start : σ} (h : Recorded bus transport messages start s) :
    Recorded bus transport (messages ++ [message]) start
      (serveOne bus transport s message) := by
  obtain ⟨hworld, hmetrics, hreplies, hfaults⟩ := h
  have hcount : s.metrics.length = messages.length := by
    rw [hmetrics, List.length_zipWith, length_handleAll, Nat.min_self]
  have hzip : (handleAll bus (messages ++ [message]) start).zipIdx =
      (handleAll bus messages start).zipIdx ++
        [(bus.request message (worldAfter bus messages start), messages.length)] := by
    rw [handleAll_concat, List.zipIdx_append, length_handleAll]
    simp
  have hadd : (bus.request message (worldAfter bus messages start)).fault.toList.length =
      ([bus.request message (worldAfter bus messages start)].filter (·.fault.isSome)).length := by
    cases hfault : (bus.request message (worldAfter bus messages start)).fault <;> simp [hfault]
  have hmetrics' : s.metrics ++ [(message.1.recipient, message.1.capability,
      (bus.request message (worldAfter bus messages start)).ok)] = List.zipWith
        (fun message handled => (message.1.recipient, message.1.capability, handled.ok))
        (messages ++ [message]) (handleAll bus (messages ++ [message]) start) := by
    rw [handleAll_concat, List.zipWith_append length_handleAll.symm, ← hmetrics]
    rfl
  have hworld' : worldAfter bus (messages ++ [message]) start =
      (bus.request message (worldAfter bus messages start)).world := by
    rw [worldAfter, List.foldl_append]
    rfl
  unfold Kernel.serveOne
  rw [hworld, hcount]
  dsimp only
  cases htransport : transport messages.length
      (bus.request message (worldAfter bus messages start)).response with
  | none =>
    refine ⟨hworld'.symm, hmetrics', ?_, ?_⟩
    · rw [hzip, List.filter_append, List.map_append, hreplies]
      simp [htransport]
    · rw [hzip, handleAll_concat, List.filter_append, List.filter_append, List.length_append,
        List.length_append, List.length_append, hfaults, hadd]
      simp [htransport]
      omega
  | some e =>
    refine ⟨hworld'.symm, hmetrics', ?_, ?_⟩
    · rw [hzip, List.filter_append, List.map_append, hreplies]
      simp [htransport]
    · rw [hzip, handleAll_concat, List.filter_append, List.filter_append, List.length_append,
        List.length_append, List.length_append, List.length_append, hfaults, hadd]
      simp [htransport]
      omega

theorem inbox_serve : (messages.foldl (serveOne bus transport) s).inbox = s.inbox := by
  induction messages generalizing s with
  | nil => rfl
  | cons message messages ih =>
    rw [List.foldl_cons, ih]
    unfold Kernel.serveOne
    dsimp only
    split <;> rfl

/-- The requests that have left the inbox were served one after another. -/
theorem served_in_order {start : σ} (events : List (ServeEvent δ)) :
    ∃ done, events.filterMap ServeEvent.message? =
        done ++ (events.foldl (Server.step bus transport) ({ world := start } : Server δ σ)).inbox ∧
      { events.foldl (Server.step bus transport) ({ world := start } : Server δ σ) with
        inbox := [] } = done.foldl (serveOne bus transport) { world := start } := by
  induction events using List.reverseRecOn with
  | nil => exact ⟨[], rfl, rfl⟩
  | append_singleton events event ih =>
    obtain ⟨done, hdone, hserved⟩ := ih
    rw [List.filterMap_append, hdone, List.foldl_append]
    generalize events.foldl (Server.step bus transport) { world := start } = s at *
    cases event with
    | submit message =>
      refine ⟨done, ?_, hserved⟩
      show _ = done ++ (s.inbox ++ [message])
      rw [← List.append_assoc]
      rfl
    | poll =>
      refine ⟨done ++ s.inbox, ?_, ?_⟩
      · show _ = _ ++ (s.inbox.foldl (serveOne bus transport) { s with inbox := [] }).inbox
        rw [inbox_serve]
        rfl
      · rw [List.foldl_append, ← hserved]
        show { s.inbox.foldl (serveOne bus transport) { s with inbox := [] } with inbox := [] } = _
        have hempty : (s.inbox.foldl (serveOne bus transport) { s with inbox := [] }).inbox = [] :=
          inbox_serve
        generalize s.inbox.foldl (serveOne bus transport) { s with inbox := [] } = t at *
        cases t
        cases hempty
        rfl

/-- In whatever polls the requests are served, the loop does what handling them one after another
does: every request is answered once, in the order in which it arrived, to its sender and under its
id; only an admitted one reaches a handler; and a handler or a reply that raises is recorded and
stops nothing.  After a poll no request is left. -/
theorem serve_runs (bus : InProcessBus δ σ)
    (transport : Nat → AgentMessage δ → Option RaisedError) (start : σ)
    (events : List (ServeEvent δ)) :
    let s := events.foldl (Server.step bus transport) { world := start }
    ∃ done, events.filterMap ServeEvent.message? = done ++ s.inbox ∧
      Recorded bus transport done start s ∧
      List.Forall₂ (Answers bus) done (handleAll bus done start) ∧
      s.world = worldAfter bus (done.filter bus.admits) start ∧
      (events.getLast? = some .poll → s.inbox = []) := by
  intro s
  obtain ⟨done, hdone, hserved⟩ : ∃ done, events.filterMap ServeEvent.message? = done ++ s.inbox ∧
      { s with inbox := [] } = done.foldl (serveOne bus transport) { world := start } :=
    served_in_order events
  have hrecorded : Recorded bus transport done start
      (done.foldl (serveOne bus transport) { world := start }) := by
    clear hdone hserved
    induction done using List.reverseRecOn with
    | nil => exact ⟨rfl, rfl, rfl, rfl⟩
    | append_singleton done message ih =>
      rw [List.foldl_append]
      exact ih.serveOne
  rw [← hserved] at hrecorded
  refine ⟨done, hdone, ⟨hrecorded.world, hrecorded.metrics, hrecorded.replies, hrecorded.faults⟩,
    handleAll_answers, ?_, fun hlast => ?_⟩
  · rw [← worldAfter_admitted]
    exact hrecorded.world
  · obtain ⟨before, rfl⟩ := List.getLast?_eq_some_iff.mp hlast
    have hpoll : s = (Server.serveOnce bus transport
        (before.foldl (Server.step bus transport) { world := start })).1 := by
      show (before ++ [ServeEvent.poll]).foldl (Server.step bus transport) { world := start } = _
      rw [List.foldl_append]
      rfl
    rw [hpoll]
    exact inbox_serve

end

end TradingAgents.Kernel
