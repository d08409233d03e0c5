import TradingAgents.Execution.PaperBroker
import TradingAgents.ProofKit.Runs

/-! Exits over many runs.  The exit of a position has one key in every run, so that the broker
answers a later exit with the order of the first, whatever became of it. -/

namespace TradingAgents.Execution

open Kernel ProofKit ProofKit.Fallible

/-- A broker order that an exit of a run has made. -/
structure ExitOrder where
  runId : String
  positionRef : Option String
  ticker : String
  key : String
deriving DecidableEq

/-- The graph, the broker, and the orders that exits have made. -/
structure ExitWorld where
  graph : PipelineGraph
  broker : PaperBroker
  exits : List ExitOrder

/-- A submission of one approved intent, a move of the broker's own or of another submission, and a
write of any agent. -/
inductive ExitEvent where
  | submit (config : OrderToleranceConfig) (orderSet : OrderIntentSet) (intent : OrderIntent)
  | broker (b : PaperBroker)
  | graph (g : PipelineGraph)

namespace ExitWorld

/-- Submit one approved intent under the tolerance settings of its run. -/
def submit (config : OrderToleranceConfig) (w : ExitWorld) (orderSet : OrderIntentSet)
    (intent : OrderIntent) : Except HandlerError ExitWorld := do
  let order ← orderFromIntent config orderSet.runId intent
  match completedExitFill w.graph intent order with
  | some _ => pure w
  | none =>
    let (broker, reply) := w.broker.submit order.idempotencyKey order.ticker order.side
      order.quantity order.limitPrice (some order.tolerance.appliedToleranceBps)
    let st := submitIntent (fun _ _ => reply) orderSet { graph := w.graph } (intent, order)
    let made := (w.broker.fills.get? order.idempotencyKey).isNone && decide (order.side = .sell)
    pure {
      graph := st.graph
      broker := broker
      exits := if made then w.exits ++
          [⟨orderSet.runId, intent.positionRef, intent.ticker, order.idempotencyKey⟩]
        else w.exits }

def step (w : ExitWorld) : ExitEvent → Except HandlerError ExitWorld
  | .submit config orderSet intent => w.submit config orderSet intent
  | .broker b => .ok { w with broker := b }
  | .graph g => .ok { w with graph := g }

/-- The broker forgets no order. -/
def Allowed (w : ExitWorld) : ExitEvent → Prop
  | .broker b => w.broker.Keeps b
  | _ => True

/-- No order has been made yet. -/
def Start (w : ExitWorld) : Prop := w.broker.fills = .empty ∧ w.exits = []

/-- The orders of the earlier exits of an intent's position. -/
def earlier (w : ExitWorld) (intent : OrderIntent) : List ExitOrder :=
  w.exits.filter fun e => decide (e.positionRef = intent.positionRef ∧ e.ticker = intent.ticker)

/-- Whether an order ended without filling: rejected, cancelled, dropped or expired. -/
def ended (w : ExitWorld) (e : ExitOrder) : Bool :=
  match w.broker.fills.get? e.key with
  | some fill => decide (fill.status = .rejected)
  | none => false

/-- What an approved exit is to do: it makes an order under a key that the broker has not seen when
the orders of the exits of earlier runs all ended without filling, and makes none while one is open
or filled. -/
structure Honours (w w' : ExitWorld) (runId : String) (intent : OrderIntent) : Prop where
  retried : w.earlier intent ≠ [] →
    (∀ e ∈ w.earlier intent, e.runId ≠ runId ∧ w.ended e = true) →
    ∃ key fill, w.broker.fills.get? key = none ∧ w'.broker.fills.get? key = some fill ∧
      fill.ticker = intent.ticker ∧ fill.side = .sell
  single : (∃ e ∈ w.earlier intent, w.ended e = false) →
    ∀ key, w.broker.fills.get? key = none → w'.broker.fills.get? key = none

/-- When an exit is honoured.  One that names its position: no order of an exit of an earlier run
ended without filling.  One that names none: its run's key is new if they all ended so, and known if
one did not. -/
def Clear (w : ExitWorld) (runId : String) (intent : OrderIntent) : Prop :=
  match intent.positionRef with
  | some _ => ∀ e ∈ w.earlier intent, e.runId ≠ runId → w.ended e = false
  | none =>
    (w.earlier intent ≠ [] → (∀ e ∈ w.earlier intent, e.runId ≠ runId ∧ w.ended e = true) →
      w.broker.fills.get? (orderKey runId intent .sell) = none) ∧
    ((∃ e ∈ w.earlier intent, w.ended e = false) →
      w.broker.fills.get? (orderKey runId intent .sell) ≠ none)

/-! ### The log of the exits -/

/-- Every order of an exit is known to the broker, that of a position stands under its key, and no
two have one key. -/
structure Logged (w : ExitWorld) : Prop where
  known : ∀ e ∈ w.exits, (w.broker.fills.get? e.key).isSome = true
  named : ∀ e ∈ w.exits, ∀ ref, e.positionRef = some ref →
    e.key = "exit:" ++ ref ++ ":" ++ e.ticker ++ ":sell"
  distinct : (w.exits.map ExitOrder.key).Nodup

variable {config : OrderToleranceConfig} {w w' : ExitWorld} {orderSet : OrderIntentSet}
  {intent : OrderIntent}

theorem orderFromIntent_sell (config : OrderToleranceConfig) (runId : String)
    (hsell : intent.action = .sell) :
    orderFromIntent config runId intent =
      .ok ⟨orderKey runId intent .sell, intent.ticker, .sell, intent.quantity,
        intent.estPrice, resolveOrderTolerance intent .sell config⟩ := by
  rw [orderFromIntent, hsell]
  rfl

/-- What a submission of a sell does: it makes an order under its key, or leaves the broker as it is
since it knows the key or the exit is complete. -/
theorem submit_sell (hsell : intent.action = .sell)
    (h : w.submit config orderSet intent = .ok w') :
    (w.broker.fills.get? (orderKey orderSet.runId intent .sell) = none ∧
      ∃ fill, w'.broker.fills = w.broker.fills.set (orderKey orderSet.runId intent .sell) fill ∧
        fill.ticker = intent.ticker ∧ fill.side = .sell ∧
        w'.exits = w.exits ++ [⟨orderSet.runId, intent.positionRef, intent.ticker,
          orderKey orderSet.runId intent .sell⟩]) ∨
    (w'.broker = w.broker ∧ w'.exits = w.exits ∧
      ((w.broker.fills.get? (orderKey orderSet.runId intent .sell)).isSome = true ∨
        intent.positionRef.isSome = true)) := by
  rw [submit, orderFromIntent_sell _ _ hsell, ok_bind] at h
  split at h
  · rename_i fill hfill
    cases h
    exact .inr ⟨rfl, rfl, .inr (completedExitFill_some hfill).2⟩
  · cases h
    rcases Option.eq_none_or_eq_some
      (w.broker.fills.get? (orderKey orderSet.runId intent .sell)) with hnew | ⟨current, hknown⟩
    · obtain ⟨hticker, hside⟩ := w.broker.firstOutcome_of (orderKey orderSet.runId intent .sell)
        intent.ticker .sell intent.quantity intent.estPrice
        (some (resolveOrderTolerance intent .sell config).appliedToleranceBps)
      exact .inl ⟨hnew, _, PaperBroker.submit_unknown hnew, hticker, hside, by simp [hnew]⟩
    · refine .inr ⟨?_, by simp [hknown], .inl (by simp [hknown])⟩
      exact congrArg Prod.fst (PaperBroker.submit_known hknown)

theorem Logged.start (h : w.Start) : w.Logged := by
  obtain ⟨-, hexits⟩ := h
  refine ⟨?_, ?_, ?_⟩ <;> simp [hexits]

/-- A broker that keeps its orders keeps those of the exits. -/
theorem Logged.keeps (h : w.Logged) (hexits : w'.exits = w.exits)
    (hkeeps : w.broker.Keeps w'.broker) : w'.Logged where
  known e he := hkeeps _ (h.known e (hexits ▸ he))
  named e he := h.named e (hexits ▸ he)
  distinct := hexits ▸ h.distinct

theorem orderKey_sell (runId : String) (hsell : intent.action = .sell) {ref : String}
    (href : intent.positionRef = some ref) :
    orderKey runId intent .sell = "exit:" ++ ref ++ ":" ++ intent.ticker ++ ":sell" := by
  rw [orderKey, hsell, href]

theorem Logged.submit_sell (h : w.Logged) (hsell : intent.action = .sell)
    (hok : w.submit config orderSet intent = .ok w') : w'.Logged := by
  rcases ExitWorld.submit_sell hsell hok with
    ⟨hnew, fill, hfills, -, -, hexits⟩ | ⟨hbroker, hexits, -⟩
  · refine ⟨fun e he => ?_, fun e he ref href => ?_, ?_⟩
    · rw [hfills, Dict.get?_set]
      split
      · rfl
      · rename_i hne
        rw [hexits, List.mem_append, List.mem_singleton] at he
        rcases he with hold | rfl
        · exact h.known e hold
        · exact (hne rfl).elim
    · rw [hexits, List.mem_append, List.mem_singleton] at he
      rcases he with hold | rfl
      · exact h.named e hold ref href
      · exact orderKey_sell _ hsell href
    · rw [hexits, List.map_append, List.nodup_append]
      refine ⟨h.distinct, by simp, fun k hk k' hk' heq => ?_⟩
      obtain ⟨e, he, rfl⟩ := List.mem_map.mp hk
      rw [List.map_singleton, List.mem_singleton] at hk'
      have hknown := h.known e he
      rw [heq, hk', hnew] at hknown
      cases hknown
  · exact h.keeps hexits (by rw [hbroker]; exact fun _ hk => hk)

/-- A buy adds no exit. -/
theorem Logged.submit_buy (h : w.Logged) (hbuy : intent.action = .buy)
    (hok : w.submit config orderSet intent = .ok w') : w'.Logged := by
  rw [submit, orderFromIntent, hbuy] at hok
  obtain ⟨order, horder, hok⟩ := bind_eq_ok.mp hok
  cases horder
  split at hok
  · cases hok
    exact h
  · cases hok
    exact h.keeps (by simp) PaperBroker.submit_keeps

theorem Logged.step (h : w.Logged) {event : ExitEvent} (hallowed : w.Allowed event)
    (hok : w.step event = .ok w') : w'.Logged := by
  match event, hallowed, hok with
  | .submit config orderSet intent, _, hok =>
    cases haction : intent.action with
    | buy => exact h.submit_buy haction hok
    | sell => exact h.submit_sell haction hok
    | hold =>
      obtain ⟨order, horder, -⟩ := bind_eq_ok.mp hok
      rw [orderFromIntent, haction] at horder
      cases horder
  | .broker b, hallowed, hok =>
    cases hok
    exact h.keeps rfl hallowed
  | .graph g, _, hok =>
    cases hok
    exact h.keeps rfl fun _ hk => hk

/-! ### One exit -/

/-- The orders of one position are one order. -/
theorem Logged.earlier_key (h : w.Logged) (hsell : intent.action = .sell) {ref : String}
    (href : intent.positionRef = some ref) (runId : String) {e : ExitOrder}
    (he : e ∈ w.earlier intent) : e.key = orderKey runId intent .sell := by
  rw [earlier, List.mem_filter, decide_eq_true_eq] at he
  obtain ⟨hmem, hposition, hticker⟩ := he
  rw [h.named e hmem ref (hposition.trans href), hticker, orderKey_sell runId hsell href]

/-- An exit that names its position makes no order after an earlier one. -/
theorem Logged.named_exit (h : w.Logged) (hsell : intent.action = .sell) {ref : String}
    (href : intent.positionRef = some ref)
    (hok : w.submit config orderSet intent = .ok w') :
    w.Honours w' orderSet.runId intent ↔
      ∀ e ∈ w.earlier intent, e.runId ≠ orderSet.runId → w.ended e = false := by
  have hreplayed : ∀ e ∈ w.earlier intent, w'.broker = w.broker := by
    intro e he
    have hknown := h.known e (List.mem_of_mem_filter he)
    rw [h.earlier_key hsell href orderSet.runId he] at hknown
    rcases ExitWorld.submit_sell hsell hok with ⟨hnew, -⟩ | ⟨hbroker, -⟩
    · rw [hnew] at hknown
      cases hknown
    · exact hbroker
  have hsame : ∀ e ∈ w.earlier intent, ∀ e' ∈ w.earlier intent, e' = e := by
    intro e he e' he'
    refine List.inj_on_of_nodup_map h.distinct (List.mem_of_mem_filter he')
      (List.mem_of_mem_filter he) ?_
    rw [h.earlier_key hsell href "" he, h.earlier_key hsell href "" he']
  constructor
  · intro hhonours e he hlater
    by_contra hended
    rw [Bool.not_eq_false] at hended
    obtain ⟨key, fill, hnew, hmade, -⟩ := hhonours.retried (List.ne_nil_of_mem he)
      fun e' he' => by rw [hsame e he e' he']; exact ⟨hlater, hended⟩
    rw [hreplayed e he, hnew] at hmade
    cases hmade
  · intro hclear
    refine ⟨fun hsome hall => ?_, fun hopen key hnew => ?_⟩
    · obtain ⟨e, he⟩ := List.exists_mem_of_ne_nil _ hsome
      obtain ⟨hlater, hended⟩ := hall e he
      rw [hclear e he hlater] at hended
      cases hended
    · obtain ⟨e, he, -⟩ := hopen
      rw [hreplayed e he, hnew]

/-- An exit that names no position makes an order exactly when its run's key is new. -/
theorem unnamed_exit (hsell : intent.action = .sell) (href : intent.positionRef = none)
    (hok : w.submit config orderSet intent = .ok w') :
    w.Honours w' orderSet.runId intent ↔
      (w.earlier intent ≠ [] →
        (∀ e ∈ w.earlier intent, e.runId ≠ orderSet.runId ∧ w.ended e = true) →
        w.broker.fills.get? (orderKey orderSet.runId intent .sell) = none) ∧
      ((∃ e ∈ w.earlier intent, w.ended e = false) →
        w.broker.fills.get? (orderKey orderSet.runId intent .sell) ≠ none) := by
  rcases ExitWorld.submit_sell hsell hok with
    ⟨hnew, fill, hfills, hticker, hside, -⟩ | ⟨hbroker, -, hknown⟩
  · have hmade : w'.broker.fills.get? (orderKey orderSet.runId intent .sell) = some fill := by
      rw [hfills, Dict.get?_set_self]
    constructor
    · intro hhonours
      refine ⟨fun _ _ => hnew, fun hopen => ?_⟩
      have hnone := hhonours.single hopen _ hnew
      rw [hmade] at hnone
      cases hnone
    · intro hclear
      exact ⟨fun _ _ => ⟨_, fill, hnew, hmade, hticker, hside⟩,
        fun hopen => (hclear.2 hopen hnew).elim⟩
  · have hknown : w.broker.fills.get? (orderKey orderSet.runId intent .sell) ≠ none := by
      rcases hknown with hknown | hsome
      · exact Option.isSome_iff_ne_none.mp hknown
      · rw [href] at hsome
        cases hsome
    constructor
    · intro hhonours
      refine ⟨fun hsome hall => ?_, fun _ => hknown⟩
      obtain ⟨key, fill, hnew, hmade, -⟩ := hhonours.retried hsome hall
      rw [hbroker, hnew] at hmade
      cases hmade
    · intro hclear
      exact ⟨fun hsome hall => (hknown (hclear.1 hsome hall)).elim,
        fun _ key hnew => by rw [hbroker, hnew]⟩

theorem logged_of_reach (hrun : Reach step Allowed Start w) : w.Logged :=
  hrun.invariant (P := Logged) (fun _ => .start) fun _ _ _ h hallowed hok => h.step hallowed hok

theorem submit_total (config : OrderToleranceConfig) (w : ExitWorld) (orderSet : OrderIntentSet)
    (hsell : intent.action = .sell) :
    ∃ w', w.submit config orderSet intent = .ok w' := by
  rw [submit, orderFromIntent_sell _ _ hsell, ok_bind]
  split <;> exact ⟨_, rfl⟩

/-- In every state of every history of exits, a sell is honoured exactly when it is clear. -/
theorem exit_honoured_iff (hrun : Reach step Allowed Start w)
    (config : OrderToleranceConfig) (orderSet : OrderIntentSet) (hsell : intent.action = .sell) :
    ∃ w', w.submit config orderSet intent = .ok w' ∧
      (w.Honours w' orderSet.runId intent ↔ w.Clear orderSet.runId intent) := by
  obtain ⟨w', hok⟩ := submit_total config w orderSet hsell
  refine ⟨w', hok, ?_⟩
  cases href : intent.positionRef with
  | some ref => simpa only [Clear, href] using (logged_of_reach hrun).named_exit hsell href hok
  | none => simpa only [Clear, href] using unnamed_exit hsell href hok

/-- The exit of a held position, approved in two runs. -/
def acmeExit : OrderIntent := ⟨"ACME", .sell, 10, ⟨100, "USD"⟩, none, some "p1", by decide⟩

def exitSet (runId : String) : OrderIntentSet where
  runId := runId
  approved := [acmeExit]
  rejected := []
  provenance := ⟨runId, "portfolio_manager", none⟩

/-- A broker whose price slips out of the tolerance, so that orders rest. -/
def restingBroker : PaperBroker := { slippageBps := 100 }

def unsold : ExitWorld := ⟨Graph.empty, restingBroker, []⟩

theorem reach_firstExit (hw : unsold.submit {} (exitSet "run-1") acmeExit = .ok w) :
    Reach step Allowed Start w := by
  have hstart : Reach step Allowed Start unsold := .start ⟨rfl, rfl⟩
  exact hstart.step (.submit {} (exitSet "run-1") acmeExit) trivial hw

theorem exit_honoured_acme : ∃ w w' : ExitWorld, w.earlier acmeExit ≠ [] ∧
    w.submit {} (exitSet "run-2") acmeExit = .ok w' ∧
    w.Honours w' "run-2" acmeExit := by
  have htest : Fallible.check (fun w : ExitWorld => decide (w.earlier acmeExit ≠ []) &&
      (w.earlier acmeExit).all fun e => !w.ended e)
      (unsold.submit {} (exitSet "run-1") acmeExit) = true := by decide +kernel
  obtain ⟨w, hw, hafter⟩ := Fallible.check_eq_true.mp htest
  rw [Bool.and_eq_true, decide_eq_true_eq, List.all_eq_true] at hafter
  have hrun := reach_firstExit hw
  obtain ⟨w', hok, hiff⟩ := exit_honoured_iff hrun {} (exitSet "run-2")
    (show acmeExit.action = .sell from rfl)
  exact ⟨w, w', hafter.1, hok, hiff.mpr fun e he _ => by simpa using hafter.2 e he⟩

/-- The exit of one run rests, and is cancelled as the sweep of the next run drops it: the exit of
that run gets no order of its own. -/
theorem dropped_exit_not_retried : ¬ ∀ w : ExitWorld, Reach step Allowed Start w →
    ∀ w', w.submit {} (exitSet "run-2") acmeExit = .ok w' →
      w.Honours w' "run-2" acmeExit := by
  intro hall
  have htest : Fallible.check (fun w : ExitWorld =>
      let dropped : ExitWorld := { w with broker := w.broker.cancel "paper:exit:p1:ACME:sell" }
      (dropped.earlier acmeExit).any fun e => decide (e.runId ≠ "run-2") && dropped.ended e)
      (unsold.submit {} (exitSet "run-1") acmeExit) = true := by decide +kernel
  obtain ⟨w, hw, hafter⟩ := Fallible.check_eq_true.mp htest
  have hrun : Reach step Allowed Start
      { w with broker := w.broker.cancel "paper:exit:p1:ACME:sell" } :=
    .step (.broker _) (reach_firstExit hw) (w.broker.cancel_keeps _) rfl
  obtain ⟨e, he, hdead⟩ := List.any_eq_true.mp hafter
  rw [Bool.and_eq_true, decide_eq_true_eq] at hdead
  obtain ⟨w', hok⟩ := submit_total {}
    { w with broker := w.broker.cancel "paper:exit:p1:ACME:sell" } (exitSet "run-2")
    (show acmeExit.action = .sell from rfl)
  have hclear := ((logged_of_reach hrun).named_exit rfl rfl hok).mp (hall _ hrun w' hok)
  rw [hclear e he hdead.1] at hdead
  cases hdead.2

end ExitWorld

end TradingAgents.Execution
