import TradingAgents.Kernel.ReadyEvents

/-! The bus request consumer: each message of a batch is resolved and settled in turn, and the
requests are handed over when the whole batch is through.  What the graph and the bus do with each
message is an argument. -/

namespace TradingAgents.Kernel

open ProofKit

/-- What the bus does with a settlement call: an error may come after the settlement took effect. -/
inductive Settlement where
  | settled
  | refused (e : PyError)
  | settledThenRaised (e : PyError)
deriving DecidableEq

def Settlement.raises : Settlement → Bool
  | settled => false
  | refused _ | settledThenRaised _ => true

def Settlement.takesEffect : Settlement → Bool
  | settled | settledThenRaised _ => true
  | refused _ => false

/-- A received message, with the graph as it answers while the message is resolved and the answer of
the bus to its settlement. -/
structure Delivery (δ : Type) where
  raw : RawMessage
  getNode : String → String → Except PyError (Option (Node δ))
  settlement : Settlement

/-- What the bus was told about a message. -/
inductive Verb where
  | completed
  | abandoned
  | deadLettered (reason : String)
deriving DecidableEq

structure ConsumerSettings where
  maxDeliveryCount : Int := 5

/-- What one poll did: the messages settled at the bus, the requests among the completed ones, and
what the caller gets. -/
structure Poll (δ : Type) where
  settled : List (Nat × Verb)
  completed : List (AgentMessage δ)
  result : Except PyError (List (AgentMessage δ))

section

variable {δ : Type} (loads : String → Except PyError MessageJson) (formats : Formats)

/-- The request that a message announces. -/
def Delivery.request (d : Delivery δ) : Except PyError (AgentMessage δ) := do
  let event ← readyEventFromRaw loads d.raw
  let node ← claimCheckRead d.getNode event
  agentMessage formats node.props

/-- Whether the poll turns a message away for an error instead of raising it. -/
def PyError.rejected : PyError → Bool
  | runtimeError | typeError | valueError => true
  | other _ => false

/-- How a message that cannot be resolved is settled. -/
def rejectVerb (settings : ConsumerSettings) (raw : RawMessage) : Verb :=
  if settings.maxDeliveryCount ≤ raw.deliveryCount.getD 1 then .deadLettered "S100ReceiverFailure"
  else .abandoned

/-- The entry of a settlement call in the log of the bus. -/
def Delivery.entry (d : Delivery δ) (verb : Verb) : List (Nat × Verb) :=
  if d.settlement.takesEffect then [(d.raw.sequenceNumber, verb)] else []

/-- The settlement of one message, and the rest of the batch when it goes through. -/
def Poll.after (d : Delivery δ) (verb : Verb) (requests : List (AgentMessage δ)) (rest : Poll δ) :
    Poll δ :=
  let completed := if d.settlement.takesEffect then requests else []
  match d.settlement with
  | .settled => ⟨d.entry verb ++ rest.settled, completed ++ rest.completed, rest.result⟩
  | .refused e | .settledThenRaised e => ⟨d.entry verb, completed, .error e⟩

/-- Resolve and settle a batch; `requests` holds what the messages before it gave. -/
def pollFrom (settings : ConsumerSettings) :
    List (Delivery δ) → List (AgentMessage δ) → Poll δ
  | [], requests => ⟨[], [], .ok requests⟩
  | d :: rest, requests =>
    match d.request loads formats with
    | .ok request =>
      .after d .completed [request] (pollFrom settings rest (requests ++ [request]))
    | .error e =>
      if e.rejected then .after d (rejectVerb settings d.raw) [] (pollFrom settings rest requests)
      else ⟨[], [], .error e⟩

def poll (settings : ConsumerSettings) (batch : List (Delivery δ)) : Poll δ :=
  pollFrom loads formats settings batch []

/-- The requests that a poll hands to its caller: a poll that raises hands over none. -/
def Poll.returned (p : Poll δ) : List (AgentMessage δ) :=
  match p.result with
  | .ok requests => requests
  | .error _ => []

/-- What serving batch after batch came to; after a poll that raised a new process goes on. -/
structure Service (δ : Type) where
  acknowledged : List (AgentMessage δ) := []
  served : List (AgentMessage δ) := []

def serveOnce (settings : ConsumerSettings) (s : Service δ) (batch : List (Delivery δ)) :
    Service δ :=
  let p := poll loads formats settings batch
  ⟨s.acknowledged ++ p.completed, s.served ++ p.returned⟩

def serveLoop (settings : ConsumerSettings) (batches : List (List (Delivery δ))) : Service δ :=
  batches.foldl (serveOnce loads formats settings) {}

/-! ### One poll -/

/-- The message ends the poll: it is not resolved for an error that the poll does not catch, or its
settlement raises. -/
def Delivery.ends (d : Delivery δ) : Bool :=
  match d.request loads formats with
  | .ok _ => d.settlement.raises
  | .error e => !e.rejected || d.settlement.raises

/-- The message is acknowledged when its turn comes: it holds a request, and its completion takes
effect. -/
def Delivery.acknowledges (d : Delivery δ) : Bool :=
  match d.request loads formats with
  | .ok _ => d.settlement.takesEffect
  | .error _ => false

/-- Once a request is acknowledged, neither its own message nor a later one of the batch ends the
poll. -/
def OrderlyBatch (batch : List (Delivery δ)) : Prop :=
  ∀ before d after, batch = before ++ d :: after → (∀ b ∈ before, b.ends loads formats = false) →
    d.acknowledges loads formats = true → ∀ b ∈ d :: after, b.ends loads formats = false

variable {loads formats} (settings : ConsumerSettings)

/-- A message that ends the poll ends it with an error, whatever it acknowledged. -/
theorem pollFrom_ends {d : Delivery δ} (rest : List (Delivery δ)) (requests : List (AgentMessage δ))
    (h : d.ends loads formats = true) :
    let p := pollFrom loads formats settings (d :: rest) requests
    (∃ e, p.result = .error e) ∧ (p.completed = [] ↔ d.acknowledges loads formats = false) := by
  unfold Delivery.ends at h
  unfold pollFrom Delivery.acknowledges
  cases hreq : d.request loads formats with
  | ok request =>
    simp only [hreq] at h ⊢
    cases hs : d.settlement with
    | settled => rw [hs] at h; cases h
    | refused e => simp [Poll.after, hs, Settlement.takesEffect]
    | settledThenRaised e => simp [Poll.after, hs, Settlement.takesEffect]
  | error e =>
    simp only [hreq] at h ⊢
    split
    · rename_i hrej
      cases hs : d.settlement with
      | settled => simp [hrej, hs, Settlement.raises] at h
      | refused e' => simp [Poll.after, hs]
      | settledThenRaised e' => simp [Poll.after, hs]
    · simp

/-- A message that does not end the poll leaves it to the rest of the batch, with its request when
it is acknowledged. -/
theorem pollFrom_goesOn {d : Delivery δ} (rest : List (Delivery δ))
    (requests : List (AgentMessage δ)) (h : d.ends loads formats = false) :
    ∃ own : List (AgentMessage δ), (own = [] ↔ d.acknowledges loads formats = false) ∧
      let after := pollFrom loads formats settings rest (requests ++ own)
      let p := pollFrom loads formats settings (d :: rest) requests
      p.completed = own ++ after.completed ∧ p.result = after.result := by
  unfold Delivery.ends at h
  unfold Delivery.acknowledges
  cases hreq : d.request loads formats with
  | ok request =>
    simp only [hreq] at h
    cases hs : d.settlement with
    | settled =>
      refine ⟨[request], by simp [Settlement.takesEffect], ?_⟩
      simp [pollFrom, hreq, Poll.after, hs, Settlement.takesEffect]
    | refused e => rw [hs] at h; cases h
    | settledThenRaised e => rw [hs] at h; cases h
  | error e =>
    simp only [hreq, Bool.or_eq_false_iff, Bool.not_eq_false'] at h
    refine ⟨[], by simp, ?_⟩
    cases hs : d.settlement with
    | settled => simp [pollFrom, hreq, h.1, Poll.after, hs]
    | refused e => rw [hs] at h; cases h.2
    | settledThenRaised e => rw [hs] at h; cases h.2

/-- A batch none of whose messages ends the poll hands over what it acknowledged. -/
theorem pollFrom_whole {batch : List (Delivery δ)} (h : ∀ b ∈ batch, b.ends loads formats = false)
    (requests : List (AgentMessage δ)) :
    let p := pollFrom loads formats settings batch requests
    p.result = .ok (requests ++ p.completed) := by
  induction batch generalizing requests with
  | nil => simp [pollFrom]
  | cons d rest ih =>
    obtain ⟨own, -, hcompleted, hresult⟩ := pollFrom_goesOn settings rest requests
      (h d List.mem_cons_self)
    show _ = _
    rw [hcompleted, hresult, ih (fun b hb => h b (List.mem_cons_of_mem d hb)), List.append_assoc]

theorem pollFrom_raised {batch : List (Delivery δ)}
    (h : ∃ b ∈ batch, b.ends loads formats = true) (requests : List (AgentMessage δ)) :
    ∃ e, (pollFrom loads formats settings batch requests).result = .error e := by
  induction batch generalizing requests with
  | nil => obtain ⟨b, hb, -⟩ := h; cases hb
  | cons d rest ih =>
    cases hd : d.ends loads formats with
    | true => exact (pollFrom_ends settings rest requests hd).1
    | false =>
      obtain ⟨own, -, -, hresult⟩ := pollFrom_goesOn settings rest requests hd
      obtain ⟨b, hb, hends⟩ := h
      rcases List.mem_cons.mp hb with rfl | hb
      · rw [hd] at hends; cases hends
      · rw [hresult]; exact ih ⟨b, hb, hends⟩ _

theorem orderlyBatch_cons_ends {d : Delivery δ} {rest : List (Delivery δ)}
    (h : d.ends loads formats = true) :
    OrderlyBatch loads formats (d :: rest) ↔ d.acknowledges loads formats = false := by
  constructor
  · intro hall
    by_contra hack
    have := hall [] d rest rfl (by simp) (by simpa using hack) d List.mem_cons_self
    rw [h] at this; cases this
  · intro hack before x after hsplit hbefore hx
    cases before with
    | nil =>
      obtain ⟨rfl, rfl⟩ := List.cons_eq_cons.mp hsplit
      rw [hack] at hx; cases hx
    | cons b before =>
      obtain ⟨rfl, -⟩ := List.cons_eq_cons.mp hsplit
      rw [hbefore d List.mem_cons_self] at h; cases h

theorem orderlyBatch_cons {d : Delivery δ} {rest : List (Delivery δ)}
    (h : d.ends loads formats = false) : OrderlyBatch loads formats (d :: rest) ↔
      OrderlyBatch loads formats rest ∧ (d.acknowledges loads formats = true →
        ∀ b ∈ rest, b.ends loads formats = false) := by
  constructor
  · intro hall
    refine ⟨fun before x after hrest hbefore hx => ?_, fun hack b hb => ?_⟩
    · refine hall (d :: before) x after (by rw [hrest]; rfl) (fun b hb => ?_) hx
      rcases List.mem_cons.mp hb with rfl | hb
      · exact h
      · exact hbefore b hb
    · exact hall [] d rest rfl (by simp) hack b (List.mem_cons_of_mem d hb)
  · rintro ⟨hrest, hack⟩ before x after hsplit hbefore hx
    cases before with
    | nil =>
      obtain ⟨rfl, rfl⟩ := List.cons_eq_cons.mp hsplit
      exact List.forall_mem_cons.mpr ⟨h, hack hx⟩
    | cons d' before =>
      injection hsplit with hhead hsplit
      subst hhead
      exact hrest before x after hsplit (fun c hc => hbefore c (List.mem_cons_of_mem _ hc)) hx

variable (loads formats)

/-- A poll of an orderly batch hands over what it acknowledged; another batch loses it. -/
theorem pollFrom_kept (batch : List (Delivery δ)) (requests : List (AgentMessage δ)) :
    let p := pollFrom loads formats settings batch requests
    (p.result = .ok (requests ++ p.completed) ∨ (p.completed = [] ∧ ∃ e, p.result = .error e)) ↔
      OrderlyBatch loads formats batch := by
  induction batch generalizing requests with
  | nil =>
    refine iff_of_true (.inl (by simp [pollFrom])) fun before d after hsplit => ?_
    simp at hsplit
  | cons d rest ih =>
    cases hd : d.ends loads formats with
    | true =>
      obtain ⟨⟨e, he⟩, hack⟩ := pollFrom_ends settings rest requests hd
      rw [orderlyBatch_cons_ends hd, ← hack]
      simp [he]
    | false =>
      obtain ⟨own, hown, hcompleted, hresult⟩ := pollFrom_goesOn settings rest requests hd
      have hrest := ih (requests ++ own)
      simp only [List.append_assoc] at hrest
      rw [orderlyBatch_cons hd, ← hrest]
      simp only [hcompleted, hresult]
      by_cases hnone : own = []
      · have hack := hown.mp hnone
        simp [hnone, hack]
      · have hack : d.acknowledges loads formats = true := by
          rw [← Bool.not_eq_false, ← hown]; exact hnone
        by_cases hends : ∃ b ∈ rest, b.ends loads formats = true
        · obtain ⟨e, he⟩ := pollFrom_raised settings hends (requests ++ own)
          obtain ⟨b, hb, hb'⟩ := hends
          refine iff_of_false ?_ ?_
          · simp [he, hnone]
          · rintro ⟨-, hall⟩
            rw [hall hack b hb] at hb'; cases hb'
        · push Not at hends
          have hall : ∀ b ∈ rest, b.ends loads formats = false := fun b hb => by
            simpa using hends b hb
          have hwhole := pollFrom_whole settings hall (requests ++ own)
          simp only [List.append_assoc] at hwhole
          exact iff_of_true (.inl hwhole) ⟨.inl hwhole, fun _ => hall⟩

/-! ### Serving -/

/-- A poll hands over what it acknowledged, or loses something and hands over nothing. -/
theorem poll_returned (batch : List (Delivery δ)) :
    let p := poll loads formats settings batch
    (OrderlyBatch loads formats batch ∧ p.returned = p.completed) ∨
      (¬ OrderlyBatch loads formats batch ∧ p.returned = [] ∧ p.completed ≠ []) := by
  have hkept := pollFrom_kept loads formats settings batch []
  show (_ ∧ Poll.returned (pollFrom _ _ _ _ _) = _) ∨
    (_ ∧ Poll.returned (pollFrom _ _ _ _ _) = _ ∧ _)
  unfold poll Poll.returned
  by_cases horder : OrderlyBatch loads formats batch
  · refine .inl ⟨horder, ?_⟩
    rcases hkept.mpr horder with hok | ⟨hnone, e, he⟩
    · rw [hok]; rfl
    · rw [he, hnone]
  · refine .inr ⟨horder, ?_⟩
    have hnot := fun h => horder (hkept.mp h)
    by_cases hends : ∃ b ∈ batch, b.ends loads formats = true
    · obtain ⟨e, he⟩ := pollFrom_raised settings hends []
      rw [he]
      exact ⟨rfl, fun hnone => hnot (.inr ⟨hnone, e, he⟩)⟩
    · push Not at hends
      exact absurd (.inl (pollFrom_whole settings (fun b hb => by simpa using hends b hb) [])) hnot

theorem serveLoop_from (batches : List (List (Delivery δ))) (s : Service δ)
    (hle : s.served.length ≤ s.acknowledged.length) :
    let after := batches.foldl (serveOnce loads formats settings) s
    after.acknowledged = after.served ↔
      s.acknowledged = s.served ∧ ∀ batch ∈ batches, OrderlyBatch loads formats batch := by
  induction batches generalizing s with
  | nil => simp
  | cons batch rest ih =>
    rw [List.foldl_cons, List.forall_mem_cons, ← and_assoc]
    rcases poll_returned loads formats settings batch with
      ⟨horder, hsame⟩ | ⟨horder, hnone, hlost⟩
    · refine (ih _ ?_).trans (and_congr_left' ?_)
      · simp [serveOnce, hsame, hle]
      · simp [serveOnce, hsame, horder]
    · have hlonger := List.length_pos_iff.mpr hlost
      refine (ih _ ?_).trans (iff_of_false ?_ fun h => horder h.1.2)
      · simp only [serveOnce, hnone, List.append_nil, List.length_append]
        omega
      · rintro ⟨heq, -⟩
        have := congrArg List.length heq
        simp only [serveOnce, hnone, List.append_nil, List.length_append] at this
        omega

/-- Over any batches, every acknowledged request is served, as often as it was acknowledged and in
that order, exactly when each batch is orderly. -/
theorem acknowledged_served_iff (loads : String → Except PyError MessageJson) (formats : Formats)
    (settings : ConsumerSettings) (batches : List (List (Delivery δ))) :
    (serveLoop loads formats settings batches).acknowledged =
        (serveLoop loads formats settings batches).served ↔
      ∀ batch ∈ batches, OrderlyBatch loads formats batch := by
  have h := serveLoop_from loads formats settings batches {} le_rfl
  simpa [serveLoop] using h

end

/-- A JSON reader that finds the announcement of one request in every message. -/
def announcesTurn : String → Except PyError MessageJson := fun _ => .ok (.object [
  ("topic", .str "deliberator-challenger.request"),
  ("label", .str "AgentMessage"),
  ("ref", .str "turn-1")])

def anyFormat : Formats := ⟨fun _ => true, fun _ => true⟩

def turnNode : Node Unit := ⟨"AgentMessage", "turn-1", .ofList [
  ("sender", .str "deliberator"),
  ("recipient", .str "deliberator-challenger"),
  ("message_type", .str "request"),
  ("capability", .str "debate_turn")], 1⟩

/-- A batch of two messages whose second one meets a lost connection to the graph. -/
def brokenBatch : List (Delivery Unit) := [
  ⟨⟨1, .text "first", some 1⟩, fun _ _ => .ok (some turnNode), .settled⟩,
  ⟨⟨2, .text "second", some 1⟩, fun _ _ => .error (.other "OperationalError"), .settled⟩]

theorem acknowledged_then_lost : ¬ ∀ (batches : List (List (Delivery Unit))),
    ∀ request ∈ (serveLoop announcesTurn anyFormat {} batches).acknowledged,
      request ∈ (serveLoop announcesTurn anyFormat {} batches).served := by
  intro hall
  have hserved : (serveLoop announcesTurn anyFormat {} [brokenBatch]).served = [] := by
    decide +kernel
  have hlength : (serveLoop announcesTurn anyFormat {} [brokenBatch]).acknowledged.length = 1 := by
    decide +kernel
  obtain ⟨request, hrequest⟩ := List.length_eq_one_iff.mp hlength
  have hmem := hall [brokenBatch] request (by rw [hrequest]; exact List.mem_singleton_self request)
  rw [hserved] at hmem
  cases hmem

end TradingAgents.Kernel
