import TradingAgents.Execution.StopLiveness

/-! The stop part of an execution pass against a broker's book, one broker call at a time: the
status refresh, the cancels of stale stops and of exits, the placements, the realignment, and the
order fills.  Each loop of the pass works off what it read when it began; between any two calls
orders may end at the broker and other agents may write. -/

namespace TradingAgents.Execution

open Kernel ProofKit BrokerLifecycle BrokerStops

/-- A stop order in the broker's book, under its client order id. -/
structure StopOrder where
  key : String
  orderId : String
  positionRef : String
  ticker : String
  quantity : Int
  stopCents : Int
  status : FillStatus
deriving DecidableEq

def StopOrder.isOpen (o : StopOrder) : Bool :=
  decide (o.status = .pending ∨ o.status = .partially)

def centsToMoney (cents : Int) : Money := ⟨cents / 100, "USD"⟩

/-- The broker's account of a stop order. -/
def StopOrder.fill (o : StopOrder) : BrokerFill where
  idempotencyKey := o.key
  ticker := o.ticker
  side := .sell
  quantity := o.quantity
  price := centsToMoney o.stopCents
  brokerOrderId := o.orderId
  status := o.status

/-- What the broker answers to a call. -/
inductive Answer where
  | accept (orderId : String) (status : FillStatus)
  | refuse
  | orders (statuses : List (String × String))

def StopOrder.of (plan : BrokerStopThresholdPlan) (key orderId : String) (status : FillStatus) :
    StopOrder where
  key := key
  orderId := orderId
  positionRef := plan.threshold.positionRef
  ticker := plan.threshold.ticker
  quantity := plan.threshold.quantity
  stopCents := plan.stopCents
  status := status

/-- The outcome recorded for a submission that failed at the broker. -/
def refusedStop (plan : BrokerStopThresholdPlan) (key : String) : BrokerFill where
  idempotencyKey := key
  ticker := plan.threshold.ticker
  side := .sell
  quantity := plan.threshold.quantity
  price := centsToMoney plan.stopCents
  brokerOrderId := "rejected:" ++ key
  status := .rejected

/-- A stop submission: the broker replays the order it knows under the key, and else answers. -/
def submitStop (book : List StopOrder) (plan : BrokerStopThresholdPlan) (key : String)
    (answer : Answer) : List StopOrder × BrokerFill :=
  match book.find? fun o => o.key = key with
  | some o => (book, o.fill)
  | none =>
    match answer with
    | .accept orderId status =>
      (book ++ [.of plan key orderId status], (StopOrder.of plan key orderId status).fill)
    | _ => (book, refusedStop plan key)

/-- The book with the open orders that `p` selects in a new status. -/
def setStatus (book : List StopOrder) (p : StopOrder → Bool) (status : FillStatus) :
    List StopOrder :=
  book.map fun o => if o.isOpen && p o then { o with status := status } else o

/-- The broker moves an open stop in place to a new order under `key`; `none` when it refuses. -/
def replaceAtBroker (book : List StopOrder) (plan : BrokerStopThresholdPlan) (old : BrokerStopOrder)
    (key : String) (answer : Answer) : Option (List StopOrder × BrokerFill) :=
  match answer with
  | .accept orderId status =>
    if status ≠ .rejected ∧ (∃ o ∈ book, o.orderId = old.brokerOrderId ∧ o.isOpen) ∧
        ∀ o ∈ book, o.key ≠ key then
      some (setStatus book (fun o => o.orderId = old.brokerOrderId) .rejected ++
        [.of plan key orderId status], (StopOrder.of plan key orderId status).fill)
    else none
  | _ => none

/-- What one pass works on: the plans of the held tickers, one for each ticker and each of its own
position, and the readings of the broker and of the graph that the stop functions do not make. -/
structure PassInput where
  now : Timestamp
  reports : List BrokerFill
  activeRefs : List String
  sold : List String
  fresh : Bool
  quantities : Dict String Int
  plans : Dict String BrokerStopThresholdPlan
  errors : List String
  marketValues : Dict String Int
  fills : List (BrokerFill × OrderIntentSet)
  plans_named : ∀ t plan, plans.get? t = some plan → plan.threshold.ticker = t
  plans_distinct : ∀ t t' plan plan', plans.get? t = some plan → plans.get? t' = some plan' →
    plan.threshold.positionRef = plan'.threshold.positionRef → t = t'

/-- Where a pass stands, with what is left of the loop it is in. -/
inductive Phase where
  | idle
  | reconciling (todo : List BrokerStopOrder)
  | exiting (todo : List BrokerStopOrder)
  | placing (protectedRefs : List String) (todo : List String)
      (kept : List BrokerStopThresholdPlan)
  | realigning (todo : List (BrokerStopThresholdPlan × BrokerStopOrder))
      (statuses : List (String × String))
  | submitting (todo : List (BrokerFill × OrderIntentSet))

structure World where
  graph : PipelineGraph
  book : List StopOrder
  input : PassInput
  phase : Phase

/-- Cancel one stop at the broker and, when that went through, append its cancellation fact. -/
def cancelNext (w : World) (order : BrokerStopOrder) (answer : Answer) :
    Except HandlerError World :=
  match answer with
  | .accept _ _ => do
    let g ← cancelStop w.graph order w.input.now
    pure { w with
      graph := g
      book := setStatus w.book (fun o => decide (o.orderId = order.brokerOrderId)) .rejected }
  | _ => pure w

/-- The plan of a ticker that still needs a stop: fresh quantity, not sold, no threshold error. -/
def planFor (input : PassInput) (ticker : String) : Option BrokerStopThresholdPlan :=
  if ticker ∈ input.sold ∨ ticker ∈ input.errors then none
  else match input.plans.get? ticker with
    | none => none
    | some plan =>
      if input.quantities.get? ticker = some plan.threshold.quantity then some plan else none

/-- Submit and record one stop under the next free key, unless a fact is live. -/
def placeNext (w : World) (plan : BrokerStopThresholdPlan) (answer : Answer) :
    Except HandlerError World :=
  match nextBrokerStopOrderKey w.graph plan.threshold.positionRef plan.threshold.ticker with
  | none => pure w
  | some key => do
    let (book, fill) := submitStop w.book plan key answer
    let g ← placeStop w.graph plan key fill w.input.now
    pure { w with graph := g, book := book }

/-- The live stop of a protected position, when it rests off its decided price. -/
def mismatch (g : PipelineGraph) (plan : BrokerStopThresholdPlan) :
    Option (BrokerStopThresholdPlan × BrokerStopOrder) :=
  let live := (activeBrokerStopOrders g).reverse
  match live.find? fun o => o.positionRef = plan.threshold.positionRef with
  | none => none
  | some stop =>
    if 1 ≤ (stop.stopPriceCents - plan.stopCents).natAbs then some (plan, stop) else none

/-- The protected positions whose live stop rests off its decided price. -/
def mismatched (g : PipelineGraph) (plans : List BrokerStopThresholdPlan) :
    List (BrokerStopThresholdPlan × BrokerStopOrder) := plans.filterMap (mismatch g)

/-- Whether a mismatched stop may be replaced: its order is `new` and the decided price lies below
the market. -/
def replaceable (w : World) (statuses : List (String × String)) (plan : BrokerStopThresholdPlan)
    (stop : BrokerStopOrder) : Bool :=
  decide (statuses.reverse.lookup stop.brokerOrderId = some "new") &&
    decide (plan.stopCents * plan.threshold.quantity <
      (w.input.marketValues.get? plan.threshold.ticker).getD 0)

/-- Replace one mismatched stop under the first free key. -/
def replaceNext (w : World) (plan : BrokerStopThresholdPlan) (stop : BrokerStopOrder)
    (answer : Answer) : Except HandlerError World :=
  let key := freeBrokerStopOrderKey w.graph plan.threshold.positionRef plan.threshold.ticker
  match replaceAtBroker w.book plan stop key answer with
  | none => pure w
  | some (book, fill) => do
    let g ← replaceStop w.graph plan stop key fill w.input.now
    pure { w with graph := g, book := book }

/-- The pass goes on by one item of the loop it is in, with the broker's answer to its call. -/
def World.next (w : World) (answer : Answer) : Except HandlerError World :=
  match w.phase with
  | .idle => pure w
  | .reconciling [] =>
    let targets := (activeBrokerStopOrders w.graph).filter fun o => o.ticker ∈ w.input.sold
    pure { w with phase := .exiting targets }
  | .reconciling (order :: rest) => cancelNext { w with phase := .reconciling rest } order answer
  | .exiting [] =>
    if w.input.fresh then
      let tickers := w.input.quantities.keys.insertionSort (· ≤ ·)
      pure { w with phase := .placing (activeBrokerStopRefs w.graph) tickers [] }
    else pure { w with phase := .submitting w.input.fills }
  | .exiting (order :: rest) => cancelNext { w with phase := .exiting rest } order answer
  | .placing protectedRefs (ticker :: rest) kept =>
    match planFor w.input ticker with
    | none => pure { w with phase := .placing protectedRefs rest kept }
    | some plan =>
      if plan.threshold.positionRef ∈ protectedRefs then
        pure { w with phase := .placing protectedRefs rest (kept ++ [plan]) }
      else placeNext { w with phase := .placing protectedRefs rest kept } plan answer
  | .placing _ [] kept =>
    match mismatched w.graph kept, answer with
    | [], _ => pure { w with phase := .submitting w.input.fills }
    | targets, .orders statuses => pure { w with phase := .realigning targets statuses }
    | _, _ => pure { w with phase := .submitting w.input.fills }
  | .realigning ((plan, stop) :: rest) statuses =>
    if replaceable w statuses plan stop then
      replaceNext { w with phase := .realigning rest statuses } plan stop answer
    else pure { w with phase := .realigning rest statuses }
  | .realigning [] _ => pure { w with phase := .submitting w.input.fills }
  | .submitting (item :: rest) =>
    match writeFill w.graph item.1 item.2 with
    | .ok g => pure { w with graph := g, phase := .submitting rest }
    | .error _ => pure { w with phase := .submitting rest }
  | .submitting [] => pure { w with phase := .idle }

/-- One step of the system: a pass begins, it goes on, an order ends at the broker, or another agent
writes. -/
inductive StopEvent where
  | begin (input : PassInput)
  | next (answer : Answer)
  | broker (key : String) (status : FillStatus)
  | merge (label key : String) (props : Props Document)
  | link (parent child : NodeKey) (edgeType : String)

def World.step (w : World) : StopEvent → Except HandlerError World
  | .begin input =>
    match w.phase with
    | .idle => do
      let g ← refreshPendingFills w.graph input.reports input.now.text
      let stale := (activeBrokerStopOrders g).filter fun o => o.positionRef ∉ input.activeRefs
      pure { graph := g, book := w.book, input := input, phase := .reconciling stale }
    | _ => .error (.validation "phase")
  | .next answer => w.next answer
  | .broker key status =>
    pure { w with book := setStatus w.book (fun o => decide (o.key = key)) status }
  | .merge label key props => do
    let g ← mergeElsewhere w.graph label key props
    pure { w with graph := g }
  | .link parent child edgeType => do
    let g ← linkElsewhere w.graph parent child edgeType
    pure { w with graph := g }

/-- What the broker is trusted with: its reports show the orders of its book as they are, and a new
order has an id of its own. -/
def World.Honest (w : World) : StopEvent → Prop
  | .begin input => ∀ r ∈ input.reports, ∀ o ∈ w.book,
      r.idempotencyKey = o.key ∨ r.brokerOrderId = o.orderId → r.status = o.status
  | .next (.accept orderId _) => ∀ o ∈ w.book, o.orderId ≠ orderId
  | _ => True

/-- The stop that the next step submits or moves, with the key and the broker's reply, when the
reply is an accepted stop. -/
def World.accepted (w : World) (answer : Answer) :
    Option (BrokerStopThresholdPlan × String × BrokerFill) :=
  match w.phase with
  | .placing protectedRefs (ticker :: _) _ =>
    match planFor w.input ticker with
    | none => none
    | some plan =>
      if plan.threshold.positionRef ∈ protectedRefs then none
      else
        match nextBrokerStopOrderKey w.graph plan.threshold.positionRef plan.threshold.ticker with
        | none => none
        | some key =>
          let fill := (submitStop w.book plan key answer).2
          if fill.status = .rejected then none else some (plan, key, fill)
  | .realigning ((plan, stop) :: _) statuses =>
    let key := freeBrokerStopOrderKey w.graph plan.threshold.positionRef plan.threshold.ticker
    if replaceable w statuses plan stop then
      (replaceAtBroker w.book plan stop key answer).map fun done => (plan, key, done.2)
    else none
  | _ => none

/-- A Fill waits on no refresh and never did. -/
def Inert (fill : PipelineNode) : Prop :=
  ∃ s, fill.props.get? "status" = some (.str s) ∧ s ≠ "pending"

instance (fill : PipelineNode) : Decidable (Inert fill) :=
  match h : fill.props.get? "status" with
  | some (.str s) => decidable_of_iff (s ≠ "pending") (by simp [Inert, h])
  | some .null | some (.bool _) | some (.int _) | some (.num _) | some (.list _) | some (.doc _)
  | none => isFalse (by simp [Inert, h])

/-- The Fill under a stop key, if there is one, does not end the stop that is recorded under it: it
has no terminal broker status, and either the submission is recorded in it or it waits on no
refresh. -/
def Unclouded (g : PipelineGraph) (plan : BrokerStopThresholdPlan) (key : String)
    (fill : BrokerFill) : Prop :=
  ∀ current ∈ g.getNode fillLabel key,
    isTerminalFillBrokerStatus (current.get "broker_status") = false ∧
      (RecordsUnderKey g plan key fill ∨ Inert current)

instance (g : PipelineGraph) (plan : BrokerStopThresholdPlan) (key : String) (fill : BrokerFill) :
    Decidable (Unclouded g plan key fill) :=
  inferInstanceAs (Decidable (∀ current ∈ g.getNode fillLabel key, _))

/-- Every stop that this step records as accepted stands under an unclouded key. -/
def World.Recorded (w : World) : StopEvent → Prop
  | .next answer => ∀ done ∈ w.accepted answer, Unclouded w.graph done.1 done.2.1 done.2.2
  | _ => True

instance (w : World) : (event : StopEvent) → Decidable (w.Honest event)
  | .begin input => inferInstanceAs (Decidable (∀ r ∈ input.reports, ∀ o ∈ w.book,
      r.idempotencyKey = o.key ∨ r.brokerOrderId = o.orderId → r.status = o.status))
  | .next (.accept orderId _) => inferInstanceAs (Decidable (∀ o ∈ w.book, o.orderId ≠ orderId))
  | .next .refuse | .next (.orders _) | .broker _ _ | .merge _ _ _ | .link _ _ _ => isTrue trivial

instance (w : World) : (event : StopEvent) → Decidable (w.Recorded event)
  | .next answer => inferInstanceAs (Decidable (∀ done ∈ w.accepted answer, _))
  | .begin _ | .broker _ _ | .merge _ _ _ | .link _ _ _ => isTrue trivial

end TradingAgents.Execution
