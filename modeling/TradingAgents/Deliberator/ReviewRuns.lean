import Mathlib
import TradingAgents.Deliberator.ModelChain
import TradingAgents.Deliberator.ReviewRecord
import TradingAgents.Deliberator.TurnLedger

/-! The debates of a batch of orders, in any interleaving.  Each order is debated by two peers in
rounds and ruled on by the manager; a completion is sent to the candidate that its role is on, and
each completion writes a row, answered or not.  An order whose debate faults fails open. -/

namespace TradingAgents.Deliberator

open ProofKit

/-- One handed-over way to run a role, with its client. -/
structure ChainCandidate where
  label : String
  model : String
  client : Nat
deriving DecidableEq

/-- What a fault boundary captured. -/
structure ReviewFault where
  errorType : String
  message : String
deriving DecidableEq

/-- What the reviews of a run share: its orders by number, and the approved ones in the order of the
portfolio manager. -/
structure ReviewPlan where
  runId : String
  settings : ReviewSettings
  intent : Nat → OrderIntent
  approved : List Nat
  nodup : approved.Nodup

/-! ### One debate -/

inductive DebateEnding where
  | ruled (ruling : Ruling) (rationale : String)
  | faulted (fault : ReviewFault)
deriving DecidableEq

/-- A debate so far. -/
structure Debate where
  proposition : Option DebateProposition := none
  turns : List DebateTurnRecord := []
  ending : Option DebateEnding := none
deriving DecidableEq

/-- What happens to an order's debate: its packet is built or not, a request is sent to the
candidate in use, refused by it with another candidate left or none, answered by a peer or the
judge, or failed, its row written or not; and a request of it that nobody awaits writes a row. -/
inductive OrderMove where
  | propose (proposition : DebateProposition)
  | packetFault (fault : ReviewFault)
  | send
  | refuse (status : Nat)
  | exhaust (status : Nat) (fault : ReviewFault)
  | turn (turn : DebateTurnRecord)
  | verdict (ruling : Ruling) (rationale : String)
  | fail (fault : ReviewFault) (wrote : Bool)
  | stray (role : ServedRole) (round : Nat) (model : String) (passedOver : List String)

/-- The move is the reply that a request waits for. -/
def OrderMove.answers : OrderMove → Bool
  | turn _ => true
  | verdict _ _ => true
  | _ => false

def Debate.observe (d : Debate) : OrderMove → Debate
  | .propose proposition => { d with proposition := some proposition }
  | .packetFault fault => { d with ending := some (.faulted fault) }
  | .exhaust _ fault => { d with ending := some (.faulted fault) }
  | .turn turn => { d with turns := d.turns ++ [turn] }
  | .verdict ruling rationale => { d with ending := some (.ruled ruling rationale) }
  | .fail fault _ => { d with ending := some (.faulted fault) }
  | _ => d

def Debate.overturned (d : Debate) : Bool :=
  match d.ending with
  | some (.ruled ruling _) => decide (ruling = .overturn)
  | _ => false

def Debate.faulted (d : Debate) : Bool :=
  match d.ending with
  | some (.faulted _) => true
  | _ => false

/-! ### The batch -/

/-- A request at a candidate, with the candidates that refused it before. -/
structure ChainAttempt where
  candidate : ChainCandidate
  passedOver : List String

structure OrderRun where
  debate : Debate := {}
  attempt : Option ChainAttempt := none
  keys : List String := []

/-- A row, the order it is about, and whether its reply was awaited; not in the source. -/
structure LogEntry where
  order : Nat
  key : String
  call : LLMCall
  answered : Bool

structure BatchState where
  store : ReviewStore
  chains : ServedRole → ModelChain ChainCandidate
  orders : Nat → OrderRun
  log : List LogEntry

/-- No order has been debated. -/
def BatchState.start (store : ReviewStore) (chains : ServedRole → ModelChain ChainCandidate) :
    BatchState where
  store := store
  chains := chains
  orders := fun _ => {}
  log := []

variable (plan : ReviewPlan)

def ReviewPlan.ticker (i : Nat) : String := (plan.intent i).ticker

/-- Whom the next request of a debate is for. -/
def requestRole (d : Debate) : ServedRole :=
  if d.turns.length < 2 * plan.settings.maxRounds then
    if d.turns.length % 2 = 0 then .defender else .challenger
  else .judge

def requestRound (d : Debate) : Nat := d.turns.length / 2 + 1

def requestId (i : Nat) (role : ServedRole) (round : Nat) : String :=
  plan.runId ++ ":" ++ plan.ticker i ++ ":" ++ role.value ++
    if role = .judge then "" else ":r" ++ toString round

namespace BatchState

def put (s : BatchState) (i : Nat) (o : OrderRun) : BatchState :=
  { s with orders := Function.update s.orders i o }

/-- The key that the next row of a request is written under. -/
def callKey (s : BatchState) (i : Nat) (role : ServedRole) (round : Nat) : String :=
  freeKey s.store.calls.keys
    ("llmcall:" ++ plan.settings.served role ++ ":" ++ requestId plan i role round)

/-- The state with one more row. -/
def record (s : BatchState) (i : Nat) (role : ServedRole) (round : Nat) (model : String)
    (passedOver : List String) (answered : Bool) : BatchState :=
  let key := s.callKey plan i role round
  let call : LLMCall := ⟨plan.settings.served role, model, passedOver⟩
  { s with
    store := { s.store with calls := s.store.calls.set key call }
    log := s.log ++ [⟨i, key, call, answered⟩] }

/-- The row of the attempt of an order's request. -/
def recordAttempt (s : BatchState) (i : Nat) (a : ChainAttempt) (answered : Bool) : BatchState :=
  let d := (s.orders i).debate
  s.record plan i (requestRole plan d) (requestRound d) a.candidate.model a.passedOver answered

/-- A move of an order that has not ended; `next` is the order with its debate moved on. -/
def liveStep (s : BatchState) (i : Nat) (move : OrderMove) : Except ReviewError BatchState :=
  let o := s.orders i
  let role := requestRole plan o.debate
  let next : OrderRun := { o with debate := o.debate.observe move }
  match move, o.debate.proposition, o.attempt with
  | .propose _, none, _ => .ok (s.put i next)
  | .packetFault _, none, _ => .ok (s.put i next)
  | .send, some _, none =>
    .ok (s.put i { next with attempt := some ⟨(s.chains role).current, []⟩ })
  | .refuse status, _, some a =>
    match refusalOf (some status), (s.chains role).after a.candidate with
    | some reason, .ok (some following, chain) =>
      let passedOver := a.passedOver ++ [a.candidate.label ++ ": " ++ reason]
      .ok ({ s.recordAttempt plan i a false with
        chains := Function.update s.chains role chain }.put i
          { next with attempt := some ⟨following, passedOver⟩ })
    | _, _ => .error .notEnabled
  | .exhaust status _, _, some a =>
    match refusalOf (some status), (s.chains role).after a.candidate with
    | some _, .ok (none, _) =>
      .ok ((s.recordAttempt plan i a false).put i { next with attempt := none })
    | _, _ => .error .notEnabled
  | .turn _, _, some a =>
    if role ≠ .judge then
      .ok ((s.recordAttempt plan i a true).put i { next with
        attempt := none
        keys := o.keys ++ [s.callKey plan i role (requestRound o.debate)] })
    else .error .notEnabled
  | .verdict _ _, _, some a =>
    if role = .judge then
      .ok ((s.recordAttempt plan i a true).put i { next with
        attempt := none
        keys := o.keys ++ [s.callKey plan i role (requestRound o.debate)] })
    else .error .notEnabled
  | .fail _ true, some _, some a =>
    .ok ((s.recordAttempt plan i a false).put i { next with attempt := none })
  | .fail _ false, some _, _ => .ok (s.put i { next with attempt := none })
  | _, _, _ => .error .notEnabled

def step (s : BatchState) (e : Nat × OrderMove) : Except ReviewError BatchState :=
  if e.1 ∉ plan.approved then .error .notEnabled
  else match e.2 with
    | .stray role round model passedOver =>
      .ok (s.record plan e.1 role round model passedOver false)
    | move =>
      if (s.orders e.1).debate.ending.isSome then .error .notEnabled else s.liveStep plan e.1 move

/-- The debates of a batch, in the order in which their moves come. -/
def run (s : BatchState) (es : List (Nat × OrderMove)) : Except ReviewError BatchState :=
  es.foldlM (step plan) s

end BatchState

/-! ### The record of the batch -/

/-- The review of an order: what its debate came to, or the mark of one that failed. -/
def OrderRun.review (o : OrderRun) : OrderReview :=
  match o.debate.ending with
  | some (.ruled ruling rationale) =>
    { verdict := ruling
      rationale := rationale
      turns := o.debate.turns
      llmCallKeys := o.keys
      proposition := o.debate.proposition }
  | some (.faulted fault) =>
    failOpenReview (some (failedOpenReason fault.errorType fault.message)) o.debate.proposition
  | none => failOpenReview none none

def reviewApprovedOrders (s : BatchState) : ReviewBatch :=
  assemble (plan.approved.map fun i => (plan.intent i, (s.orders i).review))

/-- What the manager writes when every order has been reviewed. -/
def deliberationRun (s : BatchState) (orphanedReplyCount : Int) (createdAt : String) :
    DeliberationRun :=
  let batch := reviewApprovedOrders plan s
  { sourcePmRunId := plan.runId
    verdicts := batch.verdicts
    vetoedTickers := batch.vetoedTickers
    debates := batch.debates
    narrative := narrative batch.debates
    transcript := batch.transcript
    roleModels := roleModels plan.settings s.store.calls batch.llmCallKeys
    maxRounds := plan.settings.maxRounds
    realDebateCount := batch.realDebateCount
    failedOpenCount := batch.failedOpenTickers.length
    orphanedReplyCount := orphanedReplyCount
    failedOpenTickers := batch.failedOpenTickers
    failedOpenReason := combinedFailedOpenReason batch.failedOpenReasons
    llmSwitches := llmSwitches s.store.calls batch.llmCallKeys
    createdAt := createdAt }

/-- The review of a run, written after its debates. -/
def reviewPmNode (s : BatchState) (pmKey : String) (orphanedReplyCount : Int) (createdAt : String) :
    ReviewStore :=
  writeDeliberationRun s.store pmKey plan.runId
    (deliberationRun plan s orphanedReplyCount createdAt) (reviewApprovedOrders plan s).llmCallKeys

/-! ### One step -/

section

variable {plan} {s s' : BatchState} {e : Nat × OrderMove}

/-- A step wrote no row, or one under a free key; the key stays with the order if the row is the
reply that was awaited. -/
inductive Recorded (s s' : BatchState) (e : Nat × OrderMove) (keys : List String) : Prop
  | none : e.2.answers = false → s'.store = s.store → s'.log = s.log →
      keys = (s.orders e.1).keys → Recorded s s' e keys
  | row (key : String) (call : LLMCall) : key ∉ s.store.calls.keys →
      s'.store = { s.store with calls := s.store.calls.set key call } →
      s'.log = s.log ++ [⟨e.1, key, call, e.2.answers⟩] →
      keys = (s.orders e.1).keys ++ (if e.2.answers then [key] else []) → Recorded s s' e keys

/-- What a step does to the order it is about, and to the ledger. -/
structure Stepped (plan : ReviewPlan) (s s' : BatchState) (e : Nat × OrderMove) (o : OrderRun) :
    Prop where
  approved : e.1 ∈ plan.approved
  orders : s'.orders = Function.update s.orders e.1 o
  debate : o.debate = (s.orders e.1).debate.observe e.2
  recorded : Recorded s s' e o.keys
  live : (s.orders e.1).debate.ending = none ∨
    e.2.answers = false ∧ (s.orders e.1).debate.observe e.2 = (s.orders e.1).debate

theorem Recorded.attempt {i : Nat} {move : OrderMove} {a : ChainAttempt} {keys : List String}
    (hstore : s'.store = (s.recordAttempt plan i a move.answers).store)
    (hlog : s'.log = (s.recordAttempt plan i a move.answers).log)
    (hkeys : keys = (s.orders i).keys ++ (if move.answers then
      [s.callKey plan i (requestRole plan (s.orders i).debate) (requestRound (s.orders i).debate)]
      else [])) : Recorded s s' (i, move) keys :=
  .row _ _ (freeKey_notMem _ _) hstore hlog hkeys

theorem BatchState.liveStep_cases {i : Nat} {move : OrderMove}
    (h : s.liveStep plan i move = .ok s') : ∃ o, s'.orders = Function.update s.orders i o ∧
      o.debate = (s.orders i).debate.observe move ∧ Recorded s s' (i, move) o.keys := by
  unfold liveStep at h
  dsimp only at h
  split at h
  · cases h
    exact ⟨_, rfl, rfl, .none rfl rfl rfl rfl⟩
  · cases h
    exact ⟨_, rfl, rfl, .none rfl rfl rfl rfl⟩
  · cases h
    exact ⟨_, rfl, rfl, .none rfl rfl rfl rfl⟩
  · split at h
    · cases h
      exact ⟨_, rfl, rfl, .attempt rfl rfl (List.append_nil _).symm⟩
    · cases h
  · split at h
    · cases h
      exact ⟨_, rfl, rfl, .attempt rfl rfl (List.append_nil _).symm⟩
    · cases h
  · split at h
    · cases h
      exact ⟨_, rfl, rfl, .attempt rfl rfl rfl⟩
    · cases h
  · split at h
    · cases h
      exact ⟨_, rfl, rfl, .attempt rfl rfl rfl⟩
    · cases h
  · cases h
    exact ⟨_, rfl, rfl, .attempt rfl rfl (List.append_nil _).symm⟩
  · cases h
    exact ⟨_, rfl, rfl, .none rfl rfl rfl rfl⟩
  · cases h

theorem BatchState.step_cases (h : s.step plan e = .ok s') : ∃ o, Stepped plan s s' e o := by
  obtain ⟨i, move⟩ := e
  unfold step at h
  split at h
  · cases h
  · rename_i happroved
    have happroved := not_not.mp happroved
    split at h
    · rename_i role round model passedOver hmove
      cases hmove
      cases h
      exact ⟨s.orders i, happroved, (Function.update_eq_self i _).symm, rfl,
        .row _ _ (freeKey_notMem _ _) rfl rfl (List.append_nil _).symm, .inr ⟨rfl, rfl⟩⟩
    · split at h
      · cases h
      · rename_i hending
        obtain ⟨o, horders, hdebate, hrecorded⟩ := liveStep_cases h
        exact ⟨o, happroved, horders, hdebate, hrecorded,
          .inl (Option.not_isSome_iff_eq_none.mp hending)⟩

end

/-! ### Runs -/

/-- The moves of one order. -/
def movesOf (es : List (Nat × OrderMove)) (i : Nat) : List OrderMove :=
  es.filterMap fun e => if e.1 = i then some e.2 else none

/-- The debate of one order, by its own moves. -/
def debateOf (es : List (Nat × OrderMove)) (i : Nat) : Debate :=
  (movesOf es i).foldl Debate.observe {}

/-- The completions that a debate has had an answer from. -/
def Debate.answers (d : Debate) : Nat :=
  d.turns.length + match d.ending with
    | some (.ruled _ _) => 1
    | _ => 0

/-- The rows of an order whose replies were awaited. -/
def BatchState.answered (s : BatchState) (i : Nat) : List LogEntry :=
  s.log.filter fun entry => decide (entry.order = i) && entry.answered

/-- The invariant of the ledger. -/
structure BatchKept (plan : ReviewPlan) (s : BatchState) : Prop where
  logged : ∀ entry ∈ s.log, s.store.calls.get? entry.key = some entry.call
  owned : ∀ entry ∈ s.log, entry.order ∈ plan.approved
  answered : ∀ i, (s.answered i).map LogEntry.key = (s.orders i).keys
  counted : ∀ i, (s.orders i).keys.length = (s.orders i).debate.answers

section

variable {plan} {s s' : BatchState} {e : Nat × OrderMove} {es : List (Nat × OrderMove)}
  {o : OrderRun}

theorem debateOf_concat (i : Nat) : debateOf (es ++ [e]) i =
    if e.1 = i then (debateOf es i).observe e.2 else debateOf es i := by
  unfold debateOf movesOf
  rw [List.filterMap_append, List.foldl_append]
  by_cases h : e.1 = i
  · simp [h]
  · simp [h]

theorem Debate.answers_observe {d : Debate} {move : OrderMove} (h : d.ending = none) :
    (d.observe move).answers = d.answers + if move.answers then 1 else 0 := by
  obtain ⟨proposition, turns, ending⟩ := d
  cases h
  cases move <;> simp [observe, answers, OrderMove.answers]

theorem Stepped.answers (h : Stepped plan s s' e o) :
    o.debate.answers = (s.orders e.1).debate.answers + if e.2.answers then 1 else 0 := by
  rw [h.debate]
  rcases h.live with hlive | ⟨hanswers, hsame⟩
  · exact Debate.answers_observe hlive
  · rw [hsame, if_neg (by rw [hanswers]; exact Bool.false_ne_true), Nat.add_zero]

theorem Stepped.orders_self (h : Stepped plan s s' e o) : s'.orders e.1 = o := by
  rw [h.orders, Function.update_self]

theorem Stepped.orders_ne (h : Stepped plan s s' e o) {i : Nat} (hi : i ≠ e.1) :
    s'.orders i = s.orders i := by
  rw [h.orders, Function.update_of_ne hi]

theorem Recorded.runs {keys : List String} (h : Recorded s s' e keys) :
    s'.store.runs = s.store.runs := by
  rcases h with ⟨-, hstore, -, -⟩ | ⟨_, _, -, hstore, -, -⟩
  · rw [hstore]
  · rw [hstore]

theorem BatchKept.start (store : ReviewStore) (chains : ServedRole → ModelChain ChainCandidate) :
    BatchKept plan (.start store chains) where
  logged := by simp [BatchState.start]
  owned := by simp [BatchState.start]
  answered := fun _ => rfl
  counted := fun _ => rfl

theorem BatchKept.step (hs : BatchKept plan s) (h : Stepped plan s s' e o) :
    BatchKept plan s' := by
  have hcount : ∀ i, (s'.orders i).keys.length = (s'.orders i).debate.answers := by
    intro i
    by_cases hi : i = e.1
    · subst hi
      rw [h.orders_self, h.answers, ← hs.counted]
      rcases h.recorded with ⟨hanswers, -, -, hkeys⟩ | ⟨key, call, -, -, -, hkeys⟩
      · rw [hkeys, hanswers]
        rfl
      · rw [hkeys, List.length_append]
        split
        · rfl
        · rfl
    · rw [h.orders_ne hi]
      exact hs.counted i
  rcases h.recorded with ⟨hanswers, hstore, hlog, hkeys⟩ | ⟨key, call, hfree, hstore, hlog, hkeys⟩
  · refine ⟨?_, ?_, fun i => ?_, hcount⟩
    · rw [hlog, hstore]
      exact hs.logged
    · rw [hlog]
      exact hs.owned
    · rw [BatchState.answered, hlog, ← BatchState.answered, hs.answered]
      by_cases hi : i = e.1
      · subst hi
        rw [h.orders_self, hkeys]
      · rw [h.orders_ne hi]
  · refine ⟨?_, ?_, fun i => ?_, hcount⟩
    · intro entry hentry
      rw [hlog] at hentry
      rw [hstore]
      rcases List.mem_append.mp hentry with hold | hnew
      · -- the key of a new row is not that of a row that stands
        have hget := hs.logged entry hold
        have hne : entry.key ≠ key := by
          rintro rfl
          exact hfree (Dict.mem_keys_iff.mpr (by rw [hget]; rfl))
        exact (Dict.get?_set_ne _ _ hne).trans hget
      · rw [List.mem_singleton.mp hnew]
        exact Dict.get?_set_self _ _ _
    · intro entry hentry
      rw [hlog] at hentry
      rcases List.mem_append.mp hentry with hold | hnew
      · exact hs.owned entry hold
      · rw [List.mem_singleton.mp hnew]
        exact h.approved
    · rw [BatchState.answered, hlog, List.filter_append, List.map_append, ← BatchState.answered,
        hs.answered]
      by_cases hi : i = e.1
      · subst hi
        rw [h.orders_self, hkeys]
        congr 1
        cases e.2.answers
        · simp
        · simp
      · rw [h.orders_ne hi]
        simp [Ne.symm hi]

/-- After a run the ledger is kept, and each order is debated by its own moves. -/
theorem run_kept {store : ReviewStore} {chains : ServedRole → ModelChain ChainCandidate}
    (h : (BatchState.start store chains).run plan es = .ok s) :
    BatchKept plan s ∧ (∀ i, (s.orders i).debate = debateOf es i) ∧
      s.store.runs = store.runs := by
  refine Fallible.foldlM_induction (P := fun done t => BatchKept plan t ∧
    (∀ i, (t.orders i).debate = debateOf done i) ∧ t.store.runs = store.runs) h
      ⟨.start store chains, fun _ => rfl, rfl⟩ ?_
  rintro done e rest t t' - ⟨hkept, hdebates, hruns⟩ hstep
  obtain ⟨o, hstepped⟩ := BatchState.step_cases hstep
  refine ⟨hkept.step hstepped, fun i => ?_, hstepped.recorded.runs.trans hruns⟩
  rw [debateOf_concat]
  by_cases hi : e.1 = i
  · subst hi
    rw [if_pos rfl, hstepped.orders_self, hstepped.debate, hdebates]
  · rw [if_neg hi, hstepped.orders_ne (Ne.symm hi), hdebates]

end

/-! ### What the record says -/

/-- The record of a debate. -/
def recordOf (d : Debate) : DebateRecord := debateRecord (OrderRun.review { debate := d })

/-- No approved order after this one is for its ticker. -/
def ReviewPlan.LastOf (plan : ReviewPlan) (i : Nat) : Prop :=
  ∃ before after, plan.approved = before ++ i :: after ∧ ∀ k ∈ after, plan.ticker k ≠ plan.ticker i

/-- The plan without one order. -/
def ReviewPlan.without (plan : ReviewPlan) (j : Nat) : ReviewPlan where
  runId := plan.runId
  settings := plan.settings
  intent := plan.intent
  approved := plan.approved.filter fun i => decide (i ≠ j)
  nodup := plan.nodup.filter _

/-- The row is the reply that a request of an order waited for. -/
def Awaited (s : BatchState) (entry : LogEntry) : Prop := entry ∈ s.log ∧ entry.answered = true

/-- The row answered a request of an order that did not fail. -/
def Answering (es : List (Nat × OrderMove)) (s : BatchState) (entry : LogEntry) : Prop :=
  Awaited s entry ∧ (debateOf es entry.order).faulted = false

/-- The tickers, records, links, models and switches of a deliberation run, by the debates of its
orders and the rows that answered them. -/
structure Deliberated (plan : ReviewPlan) (es : List (Nat × OrderMove)) (s : BatchState)
    (run : DeliberationRun) (store : ReviewStore) : Prop where
  vetoed : run.vetoedTickers =
    (plan.approved.filter fun i => (debateOf es i).overturned).map plan.ticker
  failedOpen : run.failedOpenTickers =
    (plan.approved.filter fun i => (debateOf es i).faulted).map plan.ticker
  recorded : ∀ i ∈ plan.approved, plan.LastOf i →
    run.debates.get? (plan.ticker i) = some (recordOf (debateOf es i)) ∧
      run.verdicts.get? (plan.ticker i) = some (recordOf (debateOf es i)).verdict
  marked : ∀ i ∈ plan.approved, (recordOf (debateOf es i)).failedOpen = (debateOf es i).faulted ∧
    ((debateOf es i).faulted = true → (recordOf (debateOf es i)).verdict = .uphold)
  apart : ∀ j store' chains' es' s' orphans createdAt, (debateOf es j).faulted = true →
    (BatchState.start store' chains').run (plan.without j) es' = .ok s' →
    (∀ i ∈ plan.approved, i ≠ j → debateOf es' i = debateOf es i) →
    ∀ i ∈ plan.approved, i ≠ j → plan.LastOf i →
      (deliberationRun (plan.without j) s' orphans createdAt).debates.get? (plan.ticker i) =
        run.debates.get? (plan.ticker i)
  linked : ∀ entry, Answering es s entry → (plan.runId, entry.key) ∈ store.producedBy
  awaited : ∀ key, (plan.runId, key) ∈ store.producedBy →
    (plan.runId, key) ∈ s.store.producedBy ∨ ∃ entry, Awaited s entry ∧ entry.key = key
  models : ∀ role, ∃ models : Finset String,
    (∀ entry, Answering es s entry → entry.call.callingAgent = plan.settings.served role →
      entry.call.model ∈ models) ∧
    (∀ model ∈ models, ∃ entry, Awaited s entry ∧
      entry.call.callingAgent = plan.settings.served role ∧ entry.call.model = model) ∧
    run.roleModels role =
      if joinModels models = "" then plan.settings.modelForRole role else joinModels models
  switched : ∀ entry, Answering es s entry → entry.call.passedOver ≠ [] →
    switchLine entry.call ∈ run.llmSwitches
  switches : ∀ line ∈ run.llmSwitches, ∃ entry, Awaited s entry ∧
    entry.call.passedOver ≠ [] ∧ switchLine entry.call = line
  rows : ∀ i ∈ plan.approved, (debateOf es i).faulted = false →
    (s.answered i).length = (debateOf es i).turns.length + 1

section

variable {plan} {s : BatchState} {es : List (Nat × OrderMove)} {o : OrderRun} {d : Debate} {i : Nat}

theorem debateRecord_review : debateRecord o.review = recordOf o.debate := by
  obtain ⟨debate, attempt, keys⟩ := o
  unfold recordOf OrderRun.review
  rcases debate.ending with _ | (_ | _)
  · rfl
  · rfl
  · rfl

theorem review_overturn : o.review.verdict = .overturn ↔ o.debate.overturned = true := by
  unfold OrderRun.review Debate.overturned
  rcases o.debate.ending with _ | (_ | _)
  · simp [failOpenReview]
  · simp
  · simp [failOpenReview]

theorem review_failedOpen (h : o.debate.ending.isSome) :
    o.review.failedOpen = o.debate.faulted := by
  unfold OrderRun.review Debate.faulted
  rcases hending : o.debate.ending with _ | (_ | _)
  · rw [hending] at h
    cases h
  · rfl
  · rfl

theorem review_llmCallKeys (h : o.debate.ending.isSome) :
    o.review.llmCallKeys = if o.debate.faulted then [] else o.keys := by
  unfold OrderRun.review Debate.faulted
  rcases hending : o.debate.ending with _ | (_ | _)
  · rw [hending] at h
    cases h
  · rfl
  · rfl

theorem recordOf_marked (h : d.ending.isSome) : (recordOf d).failedOpen = d.faulted ∧
    (d.faulted = true → (recordOf d).verdict = .uphold) := by
  unfold recordOf OrderRun.review Debate.faulted
  rcases hending : d.ending with _ | (_ | _)
  · rw [hending] at h
    cases h
  · exact ⟨rfl, fun h => absurd h Bool.false_ne_true⟩
  · exact ⟨rfl, fun _ => rfl⟩

/-- The last order of a ticker is the one that the record is found at. -/
theorem find?_of_lastOf (h : plan.LastOf i) {α : Type} (f : Nat → OrderIntent × α)
    (hf : ∀ k, (f k).1 = plan.intent k) :
    (plan.approved.map f).reverse.find? (fun p => decide (p.1.ticker = plan.ticker i)) =
      some (f i) := by
  obtain ⟨before, after, hsplit, hafter⟩ := h
  have hnone : (after.map f).reverse.find? (fun p => decide (p.1.ticker = plan.ticker i)) =
      none := by
    refine List.find?_eq_none.mpr fun p hp => ?_
    obtain ⟨k, hk, rfl⟩ := List.mem_map.mp (List.mem_reverse.mp hp)
    rw [decide_eq_true_eq, hf]
    exact hafter k hk
  rw [hsplit, List.map_append, List.map_cons, List.reverse_append, List.reverse_cons,
    List.append_assoc, List.find?_append, hnone, Option.none_or, List.singleton_append,
    List.find?_cons_of_pos]
  rw [decide_eq_true_eq, hf]
  rfl

theorem ReviewPlan.LastOf.without (h : plan.LastOf i) {j : Nat} (hne : i ≠ j) :
    (plan.without j).LastOf i := by
  obtain ⟨before, after, hsplit, hafter⟩ := h
  refine ⟨before.filter fun i => decide (i ≠ j), after.filter fun i => decide (i ≠ j), ?_, ?_⟩
  · change plan.approved.filter (fun i => decide (i ≠ j)) = _
    rw [hsplit, List.filter_append,
      List.filter_cons_of_pos (p := fun i => decide (i ≠ j)) (decide_eq_true hne)]
  · exact fun k hk => hafter k (List.mem_of_mem_filter hk)

theorem debates_reviewApprovedOrders (h : plan.LastOf i) :
    (reviewApprovedOrders plan s).debates.get? (plan.ticker i) =
      some (recordOf (s.orders i).debate) := by
  rw [reviewApprovedOrders, debates_assemble, find?_of_lastOf h _ fun _ => rfl, Option.map_some,
    debateRecord_review]

theorem verdicts_reviewApprovedOrders (h : plan.LastOf i) :
    (reviewApprovedOrders plan s).verdicts.get? (plan.ticker i) =
      some (recordOf (s.orders i).debate).verdict := by
  rw [reviewApprovedOrders, verdicts_assemble, find?_of_lastOf h _ fun _ => rfl, Option.map_some,
    ← debateRecord_review]
  rfl

/-- The keys of the batch are those of the rows that answered orders that did not fail. -/
theorem mem_llmCallKeys (hkept : BatchKept plan s)
    (hdebates : ∀ i, (s.orders i).debate = debateOf es i)
    (hended : ∀ i ∈ plan.approved, (debateOf es i).ending.isSome) {key : String} :
    key ∈ (reviewApprovedOrders plan s).llmCallKeys ↔
      ∃ entry, Answering es s entry ∧ entry.key = key := by
  rw [reviewApprovedOrders, llmCallKeys_assemble, List.flatMap_map, List.mem_flatMap]
  constructor
  · rintro ⟨i, hi, hkey⟩
    have hending := hended i hi
    rw [← hdebates] at hending
    rw [review_llmCallKeys hending] at hkey
    split at hkey
    · cases hkey
    · rename_i hfaulted
      rw [← hkept.answered i] at hkey
      obtain ⟨entry, hentry, rfl⟩ := List.mem_map.mp hkey
      obtain ⟨hlog, hanswered⟩ := List.mem_filter.mp hentry
      rw [Bool.and_eq_true, decide_eq_true_eq] at hanswered
      obtain ⟨rfl, hanswered⟩ := hanswered
      rw [hdebates, Bool.not_eq_true] at hfaulted
      exact ⟨entry, ⟨⟨hlog, hanswered⟩, hfaulted⟩, rfl⟩
  · rintro ⟨entry, ⟨⟨hlog, hanswered⟩, hfaulted⟩, rfl⟩
    have hi := hkept.owned entry hlog
    have hending := hended entry.order hi
    rw [← hdebates] at hending hfaulted
    refine ⟨entry.order, hi, ?_⟩
    rw [review_llmCallKeys hending, hfaulted, if_neg Bool.false_ne_true, ← hkept.answered]
    exact List.mem_map_of_mem (List.mem_filter.mpr ⟨hlog, by simp [hanswered]⟩)

theorem Debate.answers_of_ruled (hended : d.ending.isSome) (hfaulted : d.faulted = false) :
    d.answers = d.turns.length + 1 := by
  unfold Debate.faulted at hfaulted
  unfold answers
  rcases hending : d.ending with _ | (_ | _)
  · rw [hending] at hended
    cases hended
  · rfl
  · rw [hending] at hfaulted
    cases hfaulted

/-- The run vetoes the tickers of the debates that ended in an overturn, marks those that faulted,
keeps every other order's record apart from them, and links and counts the rows that answered the
orders that did not fail. -/
theorem deliberated_of_run {store : ReviewStore} {chains : ServedRole → ModelChain ChainCandidate}
    (pmKey : String) (orphanedReplyCount : Int) (createdAt : String)
    (h : (BatchState.start store chains).run plan es = .ok s)
    (hended : ∀ i ∈ plan.approved, (debateOf es i).ending.isSome)
    (hnew : store.runs.get? plan.runId = none) :
    ∃ run, (reviewPmNode plan s pmKey orphanedReplyCount createdAt).runs.get? plan.runId =
        some run ∧
      Deliberated plan es s run (reviewPmNode plan s pmKey orphanedReplyCount createdAt) := by
  obtain ⟨hkept, hdebates, hruns⟩ := run_kept h
  have hkey : ∀ entry, Answering es s entry →
      entry.key ∈ (reviewApprovedOrders plan s).llmCallKeys :=
    fun entry hentry => (mem_llmCallKeys hkept hdebates hended).mpr ⟨entry, hentry, rfl⟩
  have hcall : ∀ entry, Answering es s entry → s.store.calls.get? entry.key = some entry.call :=
    fun entry hentry => hkept.logged entry hentry.1.1
  have hentry : ∀ key ∈ (reviewApprovedOrders plan s).llmCallKeys, ∃ entry, Awaited s entry ∧
      entry.key = key ∧ s.store.calls.get? key = some entry.call := by
    intro key hmem
    obtain ⟨entry, hanswering, rfl⟩ := (mem_llmCallKeys hkept hdebates hended).mp hmem
    exact ⟨entry, hanswering.1, rfl, hcall entry hanswering⟩
  refine ⟨deliberationRun plan s orphanedReplyCount createdAt, ?_, ?_⟩
  · have hnone : (s.store.runs.get? plan.runId).isSome = false := by rw [hruns, hnew]; rfl
    rw [reviewPmNode, writeDeliberationRun]
    simp only [hnone, Bool.false_eq_true, if_false]
    exact Dict.get?_set_self _ _ _
  refine ⟨?_, ?_, fun i _ hlast => ?_, fun i hi => ?_, ?_, fun entry hanswering => ?_,
    fun key hlink => ?_, fun role => ?_, fun entry hanswering hover => ?_, fun line hline => ?_,
    fun i hi hfaulted => ?_⟩
  · change (reviewApprovedOrders plan s).vetoedTickers = _
    rw [reviewApprovedOrders, vetoedTickers_assemble, List.filter_map, List.map_map]
    refine congrArg _ (List.filter_congr fun i _ => ?_)
    rw [Function.comp, Bool.eq_iff_iff, decide_eq_true_eq, review_overturn, hdebates]
  · change (reviewApprovedOrders plan s).failedOpenTickers = _
    rw [reviewApprovedOrders, failedOpenTickers_assemble, List.filter_map, List.map_map]
    refine congrArg _ (List.filter_congr fun i hi => ?_)
    have hending := hended i hi
    rw [← hdebates] at hending
    rw [Function.comp, review_failedOpen hending, hdebates]
  · rw [← hdebates]
    exact ⟨debates_reviewApprovedOrders hlast, verdicts_reviewApprovedOrders hlast⟩
  · exact recordOf_marked (hended i hi)
  · intro j store' chains' es' s' orphans createdAt' _ h' hsame i hi hne hlast
    obtain ⟨-, hdebates', -⟩ := run_kept h'
    calc (reviewApprovedOrders (plan.without j) s').debates.get? (plan.ticker i)
        = some (recordOf (s'.orders i).debate) := debates_reviewApprovedOrders (hlast.without hne)
      _ = some (recordOf (s.orders i).debate) := by rw [hdebates', hsame i hi hne, ← hdebates]
      _ = (reviewApprovedOrders plan s).debates.get? (plan.ticker i) :=
        (debates_reviewApprovedOrders hlast).symm
  · exact mem_linkCalls.mpr (.inr ⟨entry.key, hkey entry hanswering, by
      rw [hcall entry hanswering]; rfl, rfl⟩)
  · rcases mem_linkCalls.mp hlink with hold | ⟨key', hmem, -, heq⟩
    · exact .inl hold
    · cases heq
      obtain ⟨entry, hawaited, hsame, -⟩ := hentry key hmem
      exact .inr ⟨entry, hawaited, hsame⟩
  · refine ⟨((answeredModels s.store.calls (reviewApprovedOrders plan s).llmCallKeys).get?
      (plan.settings.served role)).getD ∅, fun entry hanswering hagent => ?_,
      fun model hmodel => ?_, rfl⟩
    · exact mem_answeredModels.mpr
        ⟨entry.key, hkey entry hanswering, entry.call, hcall entry hanswering, hagent, rfl⟩
    · obtain ⟨key, hmem, call, hget, hagent, hmodel⟩ := mem_answeredModels.mp hmodel
      obtain ⟨entry, hawaited, -, hcall'⟩ := hentry key hmem
      rw [hget] at hcall'
      cases hcall'
      exact ⟨entry, hawaited, hagent, hmodel⟩
  · exact mem_llmSwitches.mpr
      ⟨entry.key, hkey entry hanswering, entry.call, hcall entry hanswering, hover, rfl⟩
  · obtain ⟨key, hmem, call, hget, hover, hline⟩ := mem_llmSwitches.mp hline
    obtain ⟨entry, hawaited, -, hcall'⟩ := hentry key hmem
    rw [hget] at hcall'
    cases hcall'
    exact ⟨entry, hawaited, hover, hline⟩
  · rw [← List.length_map (f := LogEntry.key), hkept.answered, hkept.counted, hdebates]
    exact Debate.answers_of_ruled (hended i hi) hfaulted

end

/-! ### A refused challenger and a failed order -/

theorem one_le_sampleQuantity : 1 ≤ 1 := le_rfl

def sampleIntent (i : Nat) : OrderIntent where
  ticker := if i = 0 then "AAA" else "BBB"
  action := .buy
  quantity := 1
  estPrice := ⟨10, "USD"⟩
  quantity_pos := one_le_sampleQuantity

def samplePlan : ReviewPlan where
  runId := "run-1"
  settings := ⟨"deliberator-manager", "deliberator-proponent", "deliberator-opponent", 1,
    fun _ => "gpt-5.5"⟩
  intent := sampleIntent
  approved := [0, 1]
  nodup := by decide

theorem sampleChain_inUse : 0 < [(⟨"openai/gpt-5.5", "gpt-5.5", 0⟩ : ChainCandidate),
    ⟨"anthropic/claude-opus-5", "claude-opus-5", 1⟩].length := by decide

def sampleChain : ModelChain ChainCandidate where
  candidates := [⟨"openai/gpt-5.5", "gpt-5.5", 0⟩, ⟨"anthropic/claude-opus-5", "claude-opus-5", 1⟩]
  index := 0
  inUse := sampleChain_inUse

def emptyStore : ReviewStore := ⟨.empty, .empty, [], []⟩

/-- The challenger's first candidate refuses the first order, which is overturned; the second order
fails after the defender's answer. -/
def sampleMoves : List (Nat × OrderMove) := [
  (0, .propose ⟨"buy AAA (qty 1)", "packet"⟩),
  (1, .propose ⟨"buy BBB (qty 1)", "packet"⟩),
  (0, .send), (0, .turn ⟨.defender, 1, "holds", none, none⟩),
  (0, .send), (0, .refuse 429),
  (1, .send), (1, .turn ⟨.defender, 1, "holds", none, none⟩),
  (0, .turn ⟨.challenger, 1, "breaks", none, none⟩),
  (1, .send), (1, .fail ⟨"RuntimeError", "no deliberator peer reply received"⟩ true),
  (0, .send), (0, .verdict .overturn "stale price")]

theorem deliberated_of_run_sample :
    ∃ s, (BatchState.start emptyStore fun _ => sampleChain).run samplePlan sampleMoves = .ok s ∧
      ∃ run, (reviewPmNode samplePlan s "pm-run" 0 "").runs.get? "run-1" = some run ∧
        Deliberated samplePlan sampleMoves s run (reviewPmNode samplePlan s "pm-run" 0 "") := by
  have hok : ((BatchState.start emptyStore fun _ => sampleChain).run samplePlan
      sampleMoves).isOk = true := by
    decide +kernel
  cases hrun : (BatchState.start emptyStore fun _ => sampleChain).run samplePlan sampleMoves with
  | error e =>
    rw [hrun] at hok
    cases hok
  | ok s =>
    exact ⟨s, rfl, deliberated_of_run "pm-run" 0 "" hrun (by decide) rfl⟩

/-- The row of the refused candidate is a row of the run, and the run does not link it. -/
theorem refused_row_unlinked :
    ∃ s, (BatchState.start emptyStore fun _ => sampleChain).run samplePlan sampleMoves = .ok s ∧
      ¬ ∀ entry ∈ s.log,
        ("run-1", entry.key) ∈ (reviewPmNode samplePlan s "pm-run" 0 "").producedBy := by
  have hlost : (((BatchState.start emptyStore fun _ => sampleChain).run samplePlan
      sampleMoves).toOption.any fun s => s.log.any fun entry =>
        decide (entry.order = 0 ∧ entry.call.model = "gpt-5.5" ∧ ("run-1", entry.key) ∉
          (reviewPmNode samplePlan s "pm-run" 0 "").producedBy)) = true := by
    decide +kernel
  cases hrun : (BatchState.start emptyStore fun _ => sampleChain).run samplePlan sampleMoves with
  | error e =>
    rw [hrun] at hlost
    cases hlost
  | ok s =>
    rw [hrun] at hlost
    obtain ⟨entry, hentry, hunlinked⟩ := List.any_eq_true.mp hlost
    rw [decide_eq_true_eq] at hunlinked
    exact ⟨s, rfl, fun hall => hunlinked.2.2 (hall entry hentry)⟩

end TradingAgents.Deliberator
