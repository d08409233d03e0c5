import Mathlib
import TradingAgents.Replay.Day
import TradingAgents.Replay.Marks

/-! The session loop of the replay: what the broker and the calendar do to the book, what the day
run is shown, and the orders that it leaves for the next session. -/

namespace TradingAgents.Replay

open ProofKit Execution

/-! ### Series and windows -/

structure Universe where
  sessions : List Date
  episodes : List Episode
  bars : List BarRow

/-- The cache of a replay. -/
structure ReplayContext where
  replayUniverse : Universe
  benchmark : Dict Date RowBar
  vix : Dict Date ℚ
  sectors : Dict String String

def boundedSessions (sessions : List Date) (start stop : Option Date) : List Date :=
  sessions.filter fun day =>
    decide ((∀ d ∈ start, d ≤ day) ∧ ∀ d ∈ stop, day ≤ d)

/-- The bars of a line in the order of their dates; bars of one date keep their order. -/
def barsByLine (bars : List BarRow) : LineBars := fun line =>
  (bars.filter fun row => decide (row.line = line)).insertionSort fun a b => a.date ≤ b.date

/-- The bar of a date and a line, the last one where there are several. -/
def barsByDate (bars : List BarRow) : Date → DayBars := fun day line =>
  (bars.filter fun row => decide (row.line = line ∧ row.date = day)).getLast?

def membersOn (episodes : List Episode) (session : Date) : List String :=
  ((episodes.filter fun span => decide (span.first ≤ session ∧ session ≤ span.last)).map
    Episode.line).insertionSort (· ≤ ·)

def windowBars (lineBars : LineBars) (members : List String) (session : Date) (days : Int) :
    List BarRow :=
  members.flatMap fun line => (lineBars line).filter fun row =>
    decide (session - days ≤ row.date ∧ row.date ≤ session)

/-- The bar of a row.  The contract refuses prices that are not positive; here they are taken as
they are. -/
def contractBar (row : BarRow) : RowBar :=
  ⟨row.line, row.date, row.openPrice, row.high, row.low, row.close, row.volume.toNat, trivial,
    trivial, trivial, trivial⟩

/-- The benchmark on the days of the visible rows and today. -/
def benchmarkWindow (benchmark : Date → Option RowBar) (session : Date) (rows : List BarRow) :
    List RowBar :=
  (((session :: rows.map BarRow.date).dedup).insertionSort (· ≤ ·)).filterMap benchmark

def sortedItems (positions : Dict String ReplayPosition) : List (String × ReplayPosition) :=
  positions.entries.insertionSort fun a b => a.1 ≤ b.1

def held (positions : Dict String ReplayPosition) : List OpenPosition :=
  (sortedItems positions).map fun item => ⟨item.1, item.2.quantity, item.2.positionRef⟩

def heldStops (positions : Dict String ReplayPosition) : List PositionStopThreshold :=
  ((positions.entries.map Prod.snd).insertionSort fun a b => a.line ≤ b.line).map fun p =>
    ⟨p.line, p.quantity, p.positionRef, p.entryPriceCents, p.stopPriceCents / p.entryPriceCents⟩

/-- The market value of a position at the latest visible close of its line. -/
def positionValue (lineBars : LineBars) (session : Date) (item : String × ReplayPosition) :
    Option (String × Money) :=
  (latestOnOrBefore (lineBars item.1) session).map fun latest =>
    let priceCents := roundHalfEven (latest.close * 100 * item.2.priceScale)
    (item.1, ⟨(item.2.quantity * priceCents : Int) / 100, "USD"⟩)

def positionValues (positions : Dict String ReplayPosition) (lineBars : LineBars)
    (session : Date) : Dict String Money :=
  Dict.ofList (positions.entries.filterMap (positionValue lineBars session))

/-- The members that a session offers and their bars. -/
structure OfferedLines where
  members : List String
  bars : List BarRow

/-- Keep a held line, or one whose window holds the required bars. -/
def offerLines (required : Nat) (members : List String) (rows : List BarRow)
    (heldLines : List String) : OfferedLines :=
  let kept := members.filter fun line =>
    decide (line ∈ heldLines ∨ required ≤ rows.countP fun row => decide (row.line = line))
  ⟨kept, rows.filter fun row => decide (row.line ∈ kept)⟩

/-! ### Exit policies -/

/-- How positions leave the book besides their stop. -/
structure ExitPolicy where
  takeProfit : Bool := false
  timeExitSessions : Option Nat := none
  trailingStop : Bool := false
  reentryCooldownSessions : Nat := 0
deriving DecidableEq

namespace ExitPolicy

/-- Start the cool-down for each line whose stop filled. -/
def noteStops (policy : ExitPolicy) (newFills : List FillRow) (cooling : Dict String Nat) :
    Dict String Nat :=
  newFills.foldl (fun cooling row =>
    if policy.reentryCooldownSessions ≠ 0 ∧ row.reason = "stop" then
      cooling.set row.line policy.reentryCooldownSessions
    else cooling) cooling

/-- The members that are not cooling down. -/
def cool (cooling : Dict String Nat) (members : List String) : List String :=
  members.filter fun line => (cooling.get? line).isNone

/-- The cool-downs after one more session. -/
def coolNext (cooling : Dict String Nat) : Dict String Nat :=
  Dict.ofList (cooling.entries.filterMap fun item =>
    if 1 < item.2 then some (item.1, item.2 - 1) else none)

def raiseStop (session : Date) (dayBars : DayBars) (b : Book) (item : String × ReplayPosition) :
    Book :=
  match dayBars item.1 with
  | none => b
  | some row =>
    let raised := stopPriceCents (replayBar row).highCents item.2.stopPct
    if session < item.2.stopActiveFrom ∨ raised ≤ item.2.stopPriceCents then b
    else b.revise item.1 { item.2 with stopPriceCents := raised }

/-- Lift each active stop to the session's high less its stop percent. -/
def raiseStops (policy : ExitPolicy) (session : Date) (dayBars : DayBars) (b : Book) : Book :=
  if policy.trailingStop then b.positions.entries.foldl (raiseStop session dayBars) b else b

/-- Sessions a position has closed in the book by the session of an index, its first one. -/
def heldSessions (sessions : List Date) (opened : Date) (index : Nat) : Int :=
  index - bisectLeft sessions opened + 1

/-- The sale of a position at today's close; an order is of one share at least. -/
def timeExit (line : String) (position : ReplayPosition) (row : BarRow) :
    Option PortfolioManager.OrderIntent :=
  if h : 1 ≤ position.quantity then
    some { ticker := line, action := .sell, quantity := position.quantity,
           estPrice := ⟨row.close, "USD"⟩, positionRef := some position.positionRef,
           quantity_pos := h }
  else none

/-- The time exits of a session: what has been held long enough and has no sale waiting. -/
def timeExits (limit : Nat) (sessions : List Date) (index : Nat)
    (positions : Dict String ReplayPosition) (pending : List PendingOrder) (dayBars : DayBars) :
    List PortfolioManager.OrderIntent :=
  let selling := (pending.filter fun order => decide (order.side = .sell)).map PendingOrder.line
  (sortedItems positions).filterMap fun item =>
    if item.1 ∉ selling ∧ (limit : Int) ≤ heldSessions sessions item.2.opened index then
      (dayBars item.1).bind (timeExit item.1 item.2)
    else none

/-- Queue the intents of the portfolio manager, then the time exits. -/
def queueDay (policy : ExitPolicy) (index : Nat) (sessions : List Date)
    (positions : Dict String ReplayPosition) (pending : List PendingOrder) (dayBars : DayBars)
    (approved : List PortfolioManager.OrderIntent) (config : OrderToleranceConfig) :
    List PendingOrder :=
  let queued := (queueOrders approved sessions index pending config policy.takeProfit "limit").1
  match policy.timeExitSessions with
  | none => queued
  | some limit =>
    (queueOrders (timeExits limit sessions index positions queued dayBars) sessions index queued
      config false "time_exit").1

end ExitPolicy

/-! ### The loop -/

/-- The options of a replay and the parts of the fleet's settings that it reads. -/
structure ReplaySettings where
  isoformat : Date → String
  fixedLines : Option (List String) := none
  knownMoves : List KnownMove := []
  slippageBps : Int := 10
  dayRunner : DayInputs → DayResult
  requireHistory : Bool := false
  exits : ExitPolicy := {}
  startingCash : ℚ
  tolerance : OrderToleranceConfig
  lookbackDays : Date → Int
  requiredHistoryBars : Nat

/-- The cached series that a replay reads. -/
structure ReplaySeries where
  sessions : List Date
  lineBars : LineBars
  dateBars : Date → DayBars
  episodes : List Episode
  benchmark : Date → Option RowBar
  vix : Date → Option ℚ
  sectors : Dict String String

structure ReplaySetup extends ReplaySettings, ReplaySeries

structure EquityPoint where
  date : Date
  equityCents : Int
  longCents : Int
deriving DecidableEq

/-- The counts of one session. -/
structure SessionRow where
  date : String
  expired : Nat
  expiredNoBar : Nat
  gapMarks : Nat
  members : Nat
  candidates : Nat
  recommendationsBuy : Nat
  recommendationsHold : Nat
  recommendationsSell : Nat
  approvedBuy : Nat
  approvedSell : Nat
  rejected : Dict String Nat
deriving DecidableEq

structure ReplayState where
  book : Book
  pending : List PendingOrder := []
  cooling : Dict String Nat := .empty
  equity : List EquityPoint := []
  sessionRows : List SessionRow := []

/-- A rejection reason without the blanks around it. -/
def strippedReason (reason : String) : String :=
  let front := reason.toList.dropWhile Char.isWhitespace
  let text := (front.reverse.dropWhile Char.isWhitespace).reverse
  if text = [] then "unknown" else .ofList text

def countRejected (rejected : List PortfolioManager.RejectedOrder) : Dict String Nat :=
  rejected.foldl (fun counts item =>
    let reason := strippedReason item.reason
    counts.set reason ((counts.get? reason).getD 0 + 1)) .empty

/-- An amount in cents, cut to the whole one. -/
def wholeCents (amount : ℚ) : Int := (amount * 100).num.tdiv (amount * 100).den

namespace ReplaySetup

variable (r : ReplaySetup)

def start : ReplayState where
  book := ⟨wholeCents r.startingCash, .empty, []⟩

/-- The book after the broker and the calendar, with the cool-downs and the orders that expired. -/
structure Settled where
  book : Book
  cooling : Dict String Nat
  expired : Nat
  noBar : Nat

/-- Rebases, stops and targets, queued orders, ended lines and trailing stops, in this order. -/
def settleSession (index : Nat) (session : Date) (s : ReplayState) : Settled :=
  let dayBars := r.dateBars session
  let rebased := applyAdjustmentRebases session r.lineBars r.knownMoves s.book
  let stopped := settleStops r.isoformat dayBars r.slippageBps rebased.lines rebased.book
  let cooling := r.exits.noteStops (stopped.fills.drop rebased.book.fills.length) s.cooling
  let next := nextSession r.sessions index session
  let settled := settlePending r.isoformat session next s.pending dayBars r.slippageBps stopped
  let ended := exitEndedPositions r.isoformat session r.lineBars r.episodes settled.book
  ⟨r.exits.raiseStops session dayBars ended, cooling, settled.expired, settled.noBar⟩

/-- The lines that the session offers, with the bars inside the declared lookback. -/
def offered (session : Date) (settled : Settled) : OfferedLines :=
  let lines := match r.fixedLines with
    | some (line :: rest) => line :: rest
    | _ => membersOn r.episodes session
  let cooled := ExitPolicy.cool settled.cooling lines
  let visible := windowBars r.lineBars cooled session (r.lookbackDays session)
  let members := if r.fixedLines.isSome then
      cooled.filter fun line => visible.any fun row => decide (row.line = line)
    else cooled
  if r.requireHistory then
    offerLines r.requiredHistoryBars members visible settled.book.positions.keys
  else ⟨members, visible⟩

def marked (session : Date) (book : Book) : MarkResult :=
  markPositions book.cashCents book.positions r.lineBars session

/-- What the day run is shown. -/
def dayInputs (session : Date) (settled : Settled) : DayInputs :=
  let lines := r.offered session settled
  let positions := settled.book.positions
  { runId := "replay-" ++ r.isoformat session
    session := session
    tickers := lines.members
    bars := lines.bars.map contractBar
    benchmarkBars := benchmarkWindow r.benchmark session lines.bars
    vix := r.vix session
    equityCents := (r.marked session settled.book).equityCents
    held := held positions
    heldStops := heldStops positions
    activeBrokerStopRefs := positions.entries.map fun item => item.2.positionRef
    sectors := r.sectors
    positionValues := positionValues positions r.lineBars session }

def sessionRow (session : Date) (settled : Settled) (result : DayResult) : SessionRow where
  date := r.isoformat session
  expired := settled.expired
  expiredNoBar := settled.noBar
  gapMarks := (r.marked session settled.book).gapMarks
  members := (r.offered session settled).members.length
  candidates := result.candidates.length
  recommendationsBuy := result.recommendations.countP fun item => decide (item.action = .buy)
  recommendationsHold := result.recommendations.countP fun item => decide (item.action = .hold)
  recommendationsSell := result.recommendations.countP fun item => decide (item.action = .sell)
  approvedBuy := result.approved.countP fun item => decide (item.action = .buy)
  approvedSell := result.approved.countP fun item => decide (item.action = .sell)
  rejected := countRejected result.rejected

/-- What the day run decides at a session. -/
def dayResult (index : Nat) (session : Date) (s : ReplayState) : DayResult :=
  r.dayRunner (r.dayInputs session (r.settleSession index session s))

/-- One turn of the loop. -/
def sessionStep (s : ReplayState) (item : Date × Nat) : ReplayState :=
  let session := item.1
  let settled := r.settleSession item.2 session s
  let result := r.dayResult item.2 session s
  let mark := r.marked session settled.book
  let waiting := s.pending.filter fun order => decide (session < order.targetSession)
  { book := settled.book
    pending := r.exits.queueDay item.2 r.sessions settled.book.positions waiting
      (r.dateBars session) result.approved r.tolerance
    cooling := ExitPolicy.coolNext settled.cooling
    equity := s.equity ++ [⟨session, mark.equityCents, mark.longCents⟩]
    sessionRows := s.sessionRows ++ [r.sessionRow session settled result] }

/-- The state after the first sessions. -/
def stateAfter (k : Nat) : ReplayState := (r.sessions.zipIdx.take k).foldl r.sessionStep r.start

end ReplaySetup

/-- Give every row each rejection reason of the run, zero where the row has none. -/
def zeroAbsentReasons (rows : List SessionRow) : List SessionRow :=
  let reasons := ((rows.flatMap fun row => row.rejected.keys).dedup).insertionSort (· ≤ ·)
  rows.map fun row =>
    { row with rejected :=
      (Dict.ofList (reasons.map fun reason => (reason, 0))).update row.rejected }

structure ReplayLoopResult where
  equity : List EquityPoint
  fills : List FillRow
  sessionRows : List SessionRow

/-- The series of a cache between two days. -/
def replaySeries (context : ReplayContext) (start stop : Option Date) : ReplaySeries where
  sessions := boundedSessions context.replayUniverse.sessions start stop
  lineBars := barsByLine context.replayUniverse.bars
  dateBars := barsByDate context.replayUniverse.bars
  episodes := context.replayUniverse.episodes
  benchmark := context.benchmark.get?
  vix := context.vix.get?
  sectors := context.sectors

/-- Run the replay sessions and return the output rows. -/
def runReplaySessions (r : ReplaySetup) : ReplayLoopResult :=
  let last := r.stateAfter r.sessions.length
  ⟨last.equity, last.book.fills, zeroAbsentReasons last.sessionRows⟩

/-! ### The sessions one by one -/

theorem ReplaySetup.stateAfter_succ (r : ReplaySetup) {k : Nat} {session : Date}
    (h : r.sessions[k]? = some session) :
    r.stateAfter (k + 1) = r.sessionStep (r.stateAfter k) (session, k) := by
  have hitem : r.sessions.zipIdx[k]? = some (session, k) := by simp [h]
  obtain ⟨hk, hget⟩ := List.getElem?_eq_some_iff.mp hitem
  rw [ReplaySetup.stateAfter, List.take_succ_eq_append_getElem hk, List.foldl_append, hget]
  rfl

/-- After the last session nothing changes. -/
theorem ReplaySetup.stateAfter_of_le (r : ReplaySetup) {k : Nat} (h : r.sessions.length ≤ k) :
    r.stateAfter k = r.stateAfter r.sessions.length := by
  have hlen : r.sessions.zipIdx.length = r.sessions.length := List.length_zipIdx
  rw [ReplaySetup.stateAfter, ReplaySetup.stateAfter, List.take_of_length_le (hlen.trans_le h),
    List.take_of_length_le hlen.le]

/-- What holds at the start and is kept by each session holds after any number of them. -/
theorem ReplaySetup.stateAfter_induction (r : ReplaySetup) {P : Nat → ReplayState → Prop}
    (hstart : P 0 r.start)
    (hstep : ∀ k session s, r.sessions[k]? = some session → P k s →
      P (k + 1) (r.sessionStep s (session, k))) {k : Nat} (hk : k ≤ r.sessions.length) :
    P k (r.stateAfter k) := by
  induction k with
  | zero => simpa [ReplaySetup.stateAfter] using hstart
  | succ k ih =>
    have hget : r.sessions[k]? = some r.sessions[k] := List.getElem?_eq_getElem hk
    rw [r.stateAfter_succ hget]
    exact hstep k _ _ hget (ih (by omega))

end TradingAgents.Replay
