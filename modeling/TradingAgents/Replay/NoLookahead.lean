import Mathlib
import TradingAgents.ProofKit.StableSort
import TradingAgents.Replay.LedgerRuns

/-! No lookahead: two caches that agree on everything dated up to a day, and on which bars there
are, give replays that agree on every session up to that day. -/

namespace TradingAgents.Replay

open ProofKit Execution

/-! ### Bars of a line that look alike up to a day -/

/-- Rows of the same dates, and the same rows up to a day. -/
def SeenAlike (s : Date) : List BarRow → List BarRow → Prop :=
  List.Forall₂ fun a b => a.date = b.date ∧ (a.date ≤ s → a = b)

namespace SeenAlike

variable {s session : Date} {rows rows' : List BarRow}

theorem of_filter (hdates : rows.map BarRow.date = rows'.map BarRow.date)
    (hseen : rows.filter (fun row => decide (row.date ≤ s)) =
      rows'.filter fun row => decide (row.date ≤ s)) : SeenAlike s rows rows' := by
  induction rows generalizing rows' with
  | nil =>
    rw [List.map_nil, eq_comm, List.map_eq_nil_iff] at hdates
    rw [hdates]
    exact .nil
  | cons a rows ih =>
    cases rows' with
    | nil => simp at hdates
    | cons b rows' =>
      rw [List.map_cons, List.map_cons] at hdates
      obtain ⟨hdate, hrest⟩ := List.cons_eq_cons.mp hdates
      by_cases ha : a.date ≤ s
      · have hb : b.date ≤ s := hdate ▸ ha
        rw [List.filter_cons_of_pos (by simpa using ha),
          List.filter_cons_of_pos (by simpa using hb)] at hseen
        obtain ⟨hab, htail⟩ := List.cons_eq_cons.mp hseen
        exact .cons ⟨hdate, fun _ => hab⟩ (ih hrest htail)
      · have hb : ¬ b.date ≤ s := hdate ▸ ha
        rw [List.filter_cons_of_neg (by simpa using ha),
          List.filter_cons_of_neg (by simpa using hb)] at hseen
        exact .cons ⟨hdate, fun hle => absurd hle ha⟩ (ih hrest hseen)

theorem map_date (h : SeenAlike s rows rows') : rows.map BarRow.date = rows'.map BarRow.date := by
  induction h with
  | nil => rfl
  | cons hab _ ih => rw [List.map_cons, List.map_cons, hab.1, ih]

/-- A choice of rows that are all seen chooses the same rows. -/
theorem filter_eq (h : SeenAlike s rows rows') {p : BarRow → Bool}
    (hp : ∀ row, p row = true → row.date ≤ s) : rows.filter p = rows'.filter p := by
  induction h with
  | nil => rfl
  | @cons a b _ _ hab _ ih =>
    by_cases ha : a.date ≤ s
    · rw [hab.2 ha, List.filter_cons, List.filter_cons, ih]
    · have hna : ¬ p a = true := fun h => ha (hp a h)
      have hnb : ¬ p b = true := fun h => ha (hab.1.trans_le (hp b h))
      rw [List.filter_cons_of_neg hna, List.filter_cons_of_neg hnb, ih]

theorem getElem?_eq (h : SeenAlike s rows rows') {index : Nat}
    (hindex : (rows.map BarRow.date)[index]? = some session) (hs : session ≤ s) :
    rows[index]? = rows'[index]? := by
  induction h generalizing index with
  | nil => rfl
  | cons hab _ ih =>
    cases index with
    | zero =>
      have hdate := Option.some.inj hindex
      rw [List.getElem?_cons_zero, List.getElem?_cons_zero, hab.2 (hdate.trans_le hs)]
    | succ index =>
      rw [List.getElem?_cons_succ, List.getElem?_cons_succ]
      exact ih hindex

theorem latestOnOrBefore_eq (h : SeenAlike s rows rows') (hs : session ≤ s) :
    latestOnOrBefore rows session = latestOnOrBefore rows' session := by
  have htake : rows.takeWhile (fun row => decide (row.date ≤ session)) =
      rows'.takeWhile fun row => decide (row.date ≤ session) := by
    induction h with
    | nil => rfl
    | @cons a b _ _ hab _ ih =>
      by_cases ha : a.date ≤ session
      · rw [hab.2 (ha.trans hs), List.takeWhile_cons, List.takeWhile_cons, ih]
      · have hb : ¬ b.date ≤ session := hab.1 ▸ ha
        rw [List.takeWhile_cons_of_neg (by simpa using ha),
          List.takeWhile_cons_of_neg (by simpa using hb)]
  rw [latestOnOrBefore, latestOnOrBefore, htake]

theorem hasFutureBar_eq (h : SeenAlike s rows rows') :
    hasFutureBar rows session = hasFutureBar rows' session := by
  have hdates : ∀ rows : List BarRow, hasFutureBar rows session =
      (rows.map BarRow.date).any fun day => decide (session < day) := by
    intro rows
    rw [List.any_map]
    rfl
  rw [hdates, hdates, h.map_date]

theorem indexOf_eq (h : SeenAlike s rows rows') : indexOf rows session = indexOf rows' session := by
  unfold indexOf
  rw [h.map_date]

theorem endedToday_eq (h : SeenAlike s rows rows') {spans : List Episode} {cacheEnd : Date} :
    endedToday rows session spans cacheEnd = endedToday rows' session spans cacheEnd := by
  unfold endedToday
  rw [h.indexOf_eq, h.map_date]

/-- The ratio is read from the bars up to the session. -/
theorem sameLineRatio_eq (h : SeenAlike s rows rows') (hs : session ≤ s) :
    sameLineRatio rows session = sameLineRatio rows' session := by
  suffices hall : ∀ prior, sameLineRatioAfter session prior rows =
      sameLineRatioAfter session prior rows' from hall none
  induction h with
  | nil => exact fun _ => rfl
  | @cons a b _ _ hab _ ih =>
    intro prior
    by_cases ha : a.date ≤ s
    · rw [hab.2 ha, sameLineRatioAfter, sameLineRatioAfter]
      simp only [ih]
    · have hlate : session < a.date := hs.trans_lt (not_le.mp ha)
      have hna : ¬ a.date = session := hlate.ne'
      have hnb : ¬ b.date = session := hab.1 ▸ hna
      simp [sameLineRatioAfter, hna, hnb, hlate.le, hab.1 ▸ hlate.le]

end SeenAlike

/-! ### Series that look alike up to a day -/

/-- The same sessions, episodes and sectors, the same dates of bars, and the same values up to a
day. -/
structure AlikeUpTo (s : Date) (a b : ReplaySeries) : Prop where
  sessions : a.sessions = b.sessions
  episodes : a.episodes = b.episodes
  sectors : a.sectors = b.sectors
  lineBars : ∀ line, SeenAlike s (a.lineBars line) (b.lineBars line)
  dateBars : ∀ day ≤ s, a.dateBars day = b.dateBars day
  benchmark : ∀ day ≤ s, a.benchmark day = b.benchmark day
  vix : ∀ day ≤ s, a.vix day = b.vix day

section Functions

variable {s session : Date} {bars bars' : LineBars}

theorem applyAdjustmentRebases_eq (h : ∀ line, SeenAlike s (bars line) (bars' line))
    (hs : session ≤ s) (knownMoves : List KnownMove) (b : Book) :
    applyAdjustmentRebases session bars knownMoves b =
      applyAdjustmentRebases session bars' knownMoves b := by
  have hline : rebaseLine session bars = rebaseLine session bars' := by
    funext r line
    rw [rebaseLine, rebaseLine, (h line).sameLineRatio_eq hs]
  rw [applyAdjustmentRebases, applyAdjustmentRebases, hline]

theorem exitEnded_eq (h : ∀ line, SeenAlike s (bars line) (bars' line)) (hs : session ≤ s)
    (isoformat : Date → String) (episodes : List Episode) :
    exitEnded isoformat session bars episodes = exitEnded isoformat session bars' episodes := by
  funext b item
  have hline := h item.1
  simp only [exitEnded, ← hline.endedToday_eq, ← hline.indexOf_eq]
  cases hindex : indexOf (bars item.1) session with
  | none => simp [endedToday, hindex]
  | some index =>
    have hdate : ((bars item.1).map BarRow.date)[index]? = some session := by
      simp only [indexOf] at hindex
      split at hindex
      · rename_i hd
        rw [← Option.some.inj hindex]
        exact hd
      · cases hindex
    rw [Option.getD_some, hline.getElem?_eq hdate hs]

theorem markPositions_eq (h : ∀ line, SeenAlike s (bars line) (bars' line)) (hs : session ≤ s)
    (cashCents : Int) (positions : Dict String ReplayPosition) :
    markPositions cashCents positions bars session =
      markPositions cashCents positions bars' session := by
  have hmark : markCents bars session = markCents bars' session := by
    funext item
    rw [markCents, markCents, (h item.1).latestOnOrBefore_eq hs]
  have hgap : isGapMark bars session = isGapMark bars' session := by
    funext item
    rw [isGapMark, isGapMark, (h item.1).latestOnOrBefore_eq hs, (h item.1).hasFutureBar_eq]
  rw [markPositions, markPositions, hmark, hgap]

theorem positionValues_eq (h : ∀ line, SeenAlike s (bars line) (bars' line)) (hs : session ≤ s)
    (positions : Dict String ReplayPosition) :
    positionValues positions bars session = positionValues positions bars' session := by
  have hvalue : positionValue bars session = positionValue bars' session := by
    funext item
    rw [positionValue, positionValue, (h item.1).latestOnOrBefore_eq hs]
  rw [positionValues, positionValues, hvalue]

theorem windowBars_eq (h : ∀ line, SeenAlike s (bars line) (bars' line)) (hs : session ≤ s)
    (members : List String) (days : Int) :
    windowBars bars members session days = windowBars bars' members session days := by
  refine congrArg List.flatten (List.map_congr_left fun line _ => ?_)
  refine (h line).filter_eq fun row hrow => ?_
  have hwithin := of_decide_eq_true hrow
  exact hwithin.2.trans hs

theorem date_le_of_mem_windowBars {members : List String} {days : Int} {row : BarRow}
    (h : row ∈ windowBars bars members session days) : row.date ≤ session := by
  obtain ⟨line, -, hrow⟩ := List.mem_flatMap.mp h
  have hwithin := of_decide_eq_true (List.mem_filter.mp hrow).2
  exact hwithin.2

theorem benchmarkWindow_eq {benchmark benchmark' : Date → Option RowBar} {rows : List BarRow}
    (h : ∀ day ≤ s, benchmark day = benchmark' day) (hs : session ≤ s)
    (hrows : ∀ row ∈ rows, row.date ≤ session) :
    benchmarkWindow benchmark session rows = benchmarkWindow benchmark' session rows := by
  refine List.filterMap_congr fun day hday => h day ?_
  rw [List.mem_insertionSort, List.mem_dedup, List.mem_cons, List.mem_map] at hday
  rcases hday with rfl | ⟨row, hrow, rfl⟩
  · exact hs
  · exact (hrows row hrow).trans hs

end Functions

/-! ### One session -/

section Session

variable {s session : Date} {a b : ReplaySeries} {o : ReplaySettings}

theorem settleSession_eq (h : AlikeUpTo s a b) (hs : session ≤ s) (index : Nat)
    (state : ReplayState) : (ReplaySetup.mk o a).settleSession index session state =
      (ReplaySetup.mk o b).settleSession index session state := by
  simp only [ReplaySetup.settleSession, exitEndedPositions, h.dateBars session hs, h.sessions,
    h.episodes, applyAdjustmentRebases_eq h.lineBars hs, exitEnded_eq h.lineBars hs]

theorem offered_eq (h : AlikeUpTo s a b) (hs : session ≤ s) (settled : ReplaySetup.Settled) :
    (ReplaySetup.mk o a).offered session settled =
      (ReplaySetup.mk o b).offered session settled := by
  simp only [ReplaySetup.offered, h.episodes, windowBars_eq h.lineBars hs]

/-- A session is offered no bar after it. -/
theorem date_le_of_mem_offered {r : ReplaySetup} {settled : ReplaySetup.Settled} {row : BarRow}
    (h : row ∈ (r.offered session settled).bars) : row.date ≤ session := by
  simp only [ReplaySetup.offered] at h
  split at h
  · exact date_le_of_mem_windowBars (List.mem_of_mem_filter h)
  · exact date_le_of_mem_windowBars h

theorem marked_eq (h : AlikeUpTo s a b) (hs : session ≤ s) (book : Book) :
    (ReplaySetup.mk o a).marked session book = (ReplaySetup.mk o b).marked session book :=
  markPositions_eq h.lineBars hs book.cashCents book.positions

/-- The day run is shown the same. -/
theorem dayInputs_eq (h : AlikeUpTo s a b) (hs : session ≤ s) (settled : ReplaySetup.Settled) :
    (ReplaySetup.mk o a).dayInputs session settled =
      (ReplaySetup.mk o b).dayInputs session settled := by
  have hwindow : benchmarkWindow a.benchmark session
        ((ReplaySetup.mk o b).offered session settled).bars =
      benchmarkWindow b.benchmark session ((ReplaySetup.mk o b).offered session settled).bars :=
    benchmarkWindow_eq h.benchmark hs fun _ => date_le_of_mem_offered
  simp only [ReplaySetup.dayInputs, hwindow, offered_eq h hs, marked_eq h hs, h.vix session hs,
    h.sectors, positionValues_eq h.lineBars hs]

theorem dayResult_eq (h : AlikeUpTo s a b) (hs : session ≤ s) (index : Nat)
    (state : ReplayState) : (ReplaySetup.mk o a).dayResult index session state =
      (ReplaySetup.mk o b).dayResult index session state := by
  rw [ReplaySetup.dayResult, ReplaySetup.dayResult, settleSession_eq h hs, dayInputs_eq h hs]

theorem sessionStep_eq (h : AlikeUpTo s a b) (hs : session ≤ s) (index : Nat)
    (state : ReplayState) : (ReplaySetup.mk o a).sessionStep state (session, index) =
      (ReplaySetup.mk o b).sessionStep state (session, index) := by
  simp only [ReplaySetup.sessionStep, ReplaySetup.sessionRow, settleSession_eq h hs,
    dayResult_eq h hs, marked_eq h hs, offered_eq h hs, h.sessions, h.dateBars session hs]

/-- The states after sessions up to the day are the same. -/
theorem stateAfter_eq (h : AlikeUpTo s a b) {k : Nat} (hk : ∀ d ∈ a.sessions.take k, d ≤ s) :
    (ReplaySetup.mk o a).stateAfter k = (ReplaySetup.mk o b).stateAfter k := by
  induction k with
  | zero => rfl
  | succ k ih =>
    have hbefore := ih fun d hd => hk d (List.take_subset_take_left a.sessions k.le_succ hd)
    cases hget : a.sessions[k]? with
    | none =>
      have hlen := List.getElem?_eq_none_iff.mp hget
      have hlen' : b.sessions.length ≤ k := h.sessions ▸ hlen
      rw [(ReplaySetup.mk o a).stateAfter_of_le (hlen.trans k.le_succ),
        (ReplaySetup.mk o b).stateAfter_of_le (hlen'.trans k.le_succ),
        ← (ReplaySetup.mk o a).stateAfter_of_le hlen, ← (ReplaySetup.mk o b).stateAfter_of_le hlen',
        hbefore]
    | some session =>
      have hseen : session ≤ s := hk session (List.mem_of_getElem? (i := k)
        (by rwa [List.getElem?_take_of_lt k.lt_succ_self]))
      rw [(ReplaySetup.mk o a).stateAfter_succ hget,
        (ReplaySetup.mk o b).stateAfter_succ (h.sessions ▸ hget), hbefore,
        sessionStep_eq h hseen]

end Session

/-! ### What a run has recorded stays recorded -/

section Recorded

variable {r : ReplaySetup}

/-- What each session only adds to, the sessions after it only add to. -/
theorem stateAfter_grows {α : Type} {f : ReplayState → List α}
    (hstep : ∀ state item, f state <+: f (r.sessionStep state item)) {k n : Nat} (h : k ≤ n) :
    f (r.stateAfter k) <+: f (r.stateAfter n) := by
  induction n, h using Nat.le_induction with
  | base => exact List.prefix_rfl
  | succ n _ ih =>
    cases hget : r.sessions[n]? with
    | none =>
      have hlen := List.getElem?_eq_none_iff.mp hget
      rw [r.stateAfter_of_le (hlen.trans n.le_succ), ← r.stateAfter_of_le hlen]
      exact ih
    | some session =>
      rw [r.stateAfter_succ hget]
      exact ih.trans (hstep _ _)

theorem foldl_fills {α : Type} {step : Book → α → Book}
    (hstep : ∀ b x, b.fills <+: (step b x).fills) (items : List α) (b : Book) :
    b.fills <+: (items.foldl step b).fills := by
  induction items generalizing b with
  | nil => exact List.prefix_rfl
  | cons x items ih => exact (hstep b x).trans (ih _)

variable {session : Date} {b : Book}

theorem fills_applyAdjustmentRebases {lineBars : LineBars} {knownMoves : List KnownMove} :
    (applyAdjustmentRebases session lineBars knownMoves b).book.fills = b.fills := by
  suffices hall : ∀ (lines : List String) (state : Rebased),
      (lines.foldl (rebaseLine session lineBars) state).book.fills = state.book.fills from
    hall _ { book := b }
  intro lines
  induction lines with
  | nil => exact fun _ => rfl
  | cons line lines ih =>
    intro state
    rw [List.foldl_cons, ih, rebaseLine]
    split <;> rfl

theorem fills_settleStops {isoformat : Date → String} {dayBars : DayBars} {slippageBps : Int}
    {skipLines : List String} :
    b.fills <+: (settleStops isoformat dayBars slippageBps skipLines b).fills := by
  refine foldl_fills (fun b item => ?_) _ b
  unfold settleStop
  split
  · exact List.prefix_rfl
  · split
    · exact List.prefix_rfl
    · exact List.prefix_append _ _

theorem fills_settlePending {isoformat : Date → String} {next : Date} {dayBars : DayBars}
    {slippageBps : Int} {pending : List PendingOrder} :
    b.fills <+:
      (settlePending isoformat session next pending dayBars slippageBps b).book.fills := by
  suffices hall : ∀ state : PendingSettlement, state.book.fills <+: (pending.foldl
      (settleOrder isoformat session next dayBars slippageBps) state).book.fills from
    hall { book := b }
  induction pending with
  | nil => exact fun _ => List.prefix_rfl
  | cons order pending ih =>
    intro state
    have horder : state.book.fills <+:
        (settleOrder isoformat session next dayBars slippageBps state order).book.fills := by
      unfold settleOrder
      split
      · exact List.prefix_rfl
      · split
        · exact List.prefix_rfl
        · split
          · exact List.prefix_rfl
          · unfold recordFill
            split
            · exact List.prefix_append _ _
            · split
              · exact List.prefix_rfl
              · exact List.prefix_append _ _
    exact horder.trans (ih _)

theorem fills_exitEndedPositions {isoformat : Date → String} {lineBars : LineBars}
    {episodes : List Episode} :
    b.fills <+: (exitEndedPositions isoformat session lineBars episodes b).fills := by
  refine foldl_fills (fun b item => ?_) _ b
  simp only [exitEnded]
  split
  · exact List.prefix_rfl
  · split
    · exact List.prefix_rfl
    · exact List.prefix_append _ _

theorem fills_raiseStops {policy : ExitPolicy} {dayBars : DayBars} :
    b.fills <+: (policy.raiseStops session dayBars b).fills := by
  unfold ExitPolicy.raiseStops
  split
  · refine foldl_fills (fun b item => ?_) _ b
    simp only [ExitPolicy.raiseStop]
    split
    · exact List.prefix_rfl
    · split <;> exact List.prefix_rfl
  · exact List.prefix_rfl

theorem fills_sessionStep (state : ReplayState) (item : Date × Nat) :
    state.book.fills <+: (r.sessionStep state item).book.fills := by
  have hrebased : (applyAdjustmentRebases item.1 r.lineBars r.knownMoves state.book).book.fills =
      state.book.fills := fills_applyAdjustmentRebases
  rw [← hrebased]
  exact fills_settleStops.trans (fills_settlePending.trans
    (fills_exitEndedPositions.trans fills_raiseStops))

theorem dates_stateAfter (k : Nat) :
    (r.stateAfter k).equity.map EquityPoint.date = r.sessions.take k := by
  induction k with
  | zero => rfl
  | succ k ih =>
    cases hget : r.sessions[k]? with
    | none =>
      have hlen := List.getElem?_eq_none_iff.mp hget
      rw [r.stateAfter_of_le (hlen.trans k.le_succ), ← r.stateAfter_of_le hlen, ih,
        List.take_of_length_le hlen, List.take_of_length_le (hlen.trans k.le_succ)]
    | some session =>
      obtain ⟨hk, hsession⟩ := List.getElem?_eq_some_iff.mp hget
      rw [r.stateAfter_succ hget, List.take_succ_eq_append_getElem hk, hsession, ← ih]
      simp [ReplaySetup.sessionStep]

/-- The same row, where a reason that is missing counts zero. -/
def SameCounts (row row' : SessionRow) : Prop :=
  { row with rejected := row'.rejected } = row' ∧
    ∀ reason, (row.rejected.get? reason).getD 0 = (row'.rejected.get? reason).getD 0

theorem sameCounts_zeroAbsentReasons {rows : List SessionRow} {i : Nat} {row : SessionRow}
    (h : rows[i]? = some row) :
    ∃ row', (zeroAbsentReasons rows)[i]? = some row' ∧ SameCounts row row' := by
  simp only [zeroAbsentReasons, List.getElem?_map, h, Option.map_some]
  refine ⟨_, rfl, rfl, fun reason => ?_⟩
  rw [Dict.get?_update]
  cases row.rejected.get? reason with
  | some n => rfl
  | none =>
    rw [Option.none_or, Option.getD_none]
    cases hzero : Dict.get? _ reason with
    | none => rfl
    | some n =>
      obtain ⟨_, -, hpair⟩ := List.mem_map.mp (Dict.mem_of_get?_ofList hzero)
      exact (congrArg Prod.snd hpair)

/-- The output of a replay begins with what a state has recorded. -/
structure Begins (state : ReplayState) (out : ReplayLoopResult) : Prop where
  fills : state.book.fills <+: out.fills
  equity : state.equity <+: out.equity
  sessionRows : ∀ (i : Nat) (row : SessionRow), state.sessionRows[i]? = some row →
    ∃ row', out.sessionRows[i]? = some row' ∧ SameCounts row row'

theorem stateAfter_begins (k : Nat) : Begins (r.stateAfter k) (runReplaySessions r) := by
  rcases Nat.le_total k r.sessions.length with hk | hk
  · refine ⟨stateAfter_grows fills_sessionStep hk,
      stateAfter_grows (fun _ _ => List.prefix_append _ _) hk, fun i row hrow => ?_⟩
    have hrows : (r.stateAfter k).sessionRows <+: (r.stateAfter r.sessions.length).sessionRows :=
      stateAfter_grows (fun _ _ => List.prefix_append _ _) hk
    obtain ⟨later, hlater⟩ := hrows
    apply sameCounts_zeroAbsentReasons
    rw [← hlater, List.getElem?_append_left (List.getElem?_eq_some_iff.mp hrow).1]
    exact hrow
  · rw [r.stateAfter_of_le hk]
    exact ⟨List.prefix_rfl, List.prefix_rfl, fun i row => sameCounts_zeroAbsentReasons⟩

end Recorded

/-! ### Two caches -/

/-- The bars of a line and a date. -/
def barsAt (bars : List BarRow) (line : String) (day : Date) : List BarRow :=
  bars.filter fun row => decide (row.line = line ∧ row.date = day)

/-- The same sessions, episodes and sectors, bars of the same lines and dates, and the same bars,
benchmark and VIX up to a day.  What the values of later days are is left open. -/
structure AgreeUpTo (s : Date) (c c' : ReplayContext) : Prop where
  sessions : c.replayUniverse.sessions = c'.replayUniverse.sessions
  episodes : c.replayUniverse.episodes = c'.replayUniverse.episodes
  sectors : c.sectors = c'.sectors
  present : (c.replayUniverse.bars.map fun row => (row.line, row.date)).Perm
    (c'.replayUniverse.bars.map fun row => (row.line, row.date))
  bars : ∀ line, ∀ day ≤ s, barsAt c.replayUniverse.bars line day =
    barsAt c'.replayUniverse.bars line day
  benchmark : ∀ day ≤ s, c.benchmark.get? day = c'.benchmark.get? day
  vix : ∀ day ≤ s, c.vix.get? day = c'.vix.get? day

section Caches

variable {s : Date} {bars bars' : List BarRow}

theorem pairwise_barsByLine (bars : List BarRow) (line : String) :
    (barsByLine bars line).Pairwise fun a b => a.date ≤ b.date :=
  List.pairwise_insertionSort _ _

theorem filter_barsByLine (bars : List BarRow) (line : String) (day : Date) :
    (barsByLine bars line).filter (fun row => decide (row.date = day)) = barsAt bars line day := by
  rw [barsByLine, filter_insertionSort, List.filter_filter, barsAt]
  refine List.filter_congr fun row _ => ?_
  rw [Bool.decide_and, Bool.and_comm]

/-- The dates of a line's bars are those of the pairs with its name. -/
theorem dates_perm (hpresent : (bars.map fun row => (row.line, row.date)).Perm
      (bars'.map fun row => (row.line, row.date))) (line : String) :
    ((barsByLine bars line).map BarRow.date).Perm ((barsByLine bars' line).map BarRow.date) := by
  have hpairs : ∀ bars : List BarRow, ((barsByLine bars line).map BarRow.date).Perm
      (((bars.map fun row => (row.line, row.date)).filter fun p => decide (p.1 = line)).map
        Prod.snd) := by
    intro bars
    refine ((List.perm_insertionSort _ _).map BarRow.date).trans (.of_eq ?_)
    rw [List.filter_map, List.map_map]
    rfl
  exact (hpairs bars).trans (((hpresent.filter _).map Prod.snd).trans (hpairs bars').symm)

theorem barsByLine_alike (hpresent : (bars.map fun row => (row.line, row.date)).Perm
      (bars'.map fun row => (row.line, row.date)))
    (hbars : ∀ line, ∀ day ≤ s, barsAt bars line day = barsAt bars' line day) (line : String) :
    SeenAlike s (barsByLine bars line) (barsByLine bars' line) := by
  apply SeenAlike.of_filter
  · refine (dates_perm hpresent line).eq_of_pairwise (fun _ _ _ _ => le_antisymm) ?_ ?_
    · exact List.pairwise_map.mpr (pairwise_barsByLine bars line)
    · exact List.pairwise_map.mpr (pairwise_barsByLine bars' line)
  · refine eq_of_filter_key ((pairwise_barsByLine bars line).filter _)
      ((pairwise_barsByLine bars' line).filter _) fun day => ?_
    -- under a day that is seen both hold the bars of that day, under a later one nothing
    rw [List.filter_filter, List.filter_filter]
    by_cases hday : day ≤ s
    · have hseen : ∀ row : BarRow, (decide (row.date = day) && decide (row.date ≤ s)) =
          decide (row.date = day) := by
        intro row
        by_cases h : row.date = day <;> simp [h, hday]
      simp only [hseen, filter_barsByLine]
      exact hbars line day hday
    · have hnone : ∀ row : BarRow, (decide (row.date = day) && decide (row.date ≤ s)) = false := by
        intro row
        by_cases h : row.date = day <;> simp [h, hday]
      simp only [hnone, List.filter_false]

theorem AgreeUpTo.series {c c' : ReplayContext} (h : AgreeUpTo s c c') (start stop : Option Date) :
    AlikeUpTo s (replaySeries c start stop) (replaySeries c' start stop) where
  sessions := congrArg (boundedSessions · start stop) h.sessions
  episodes := h.episodes
  sectors := h.sectors
  lineBars := barsByLine_alike h.present h.bars
  dateBars day hday := funext fun line => congrArg List.getLast? (h.bars line day hday)
  benchmark := h.benchmark
  vix := h.vix

/-- Two replays that record the same in their first sessions: every session has its equity point,
the day runs decide the same, and both outputs begin with the same fills, equity and rows. -/
structure SameUpTo (k : Nat) (r r' : ReplaySetup) : Prop where
  dates : (r.stateAfter k).equity.map EquityPoint.date = r.sessions.take k
  states : r.stateAfter k = r'.stateAfter k
  results : ∀ i < k, ∀ session, r.sessions[i]? = some session → r'.sessions[i]? = some session ∧
    r.dayResult i session (r.stateAfter i) = r'.dayResult i session (r'.stateAfter i)
  begins : Begins (r.stateAfter k) (runReplaySessions r)
  begins' : Begins (r.stateAfter k) (runReplaySessions r')

/-- No price of the future influences the past: under the same settings, with any day runner, two
caches that agree up to a day record the same in all the first sessions that are not after it. -/
theorem no_lookahead (o : ReplaySettings) (start stop : Option Date) (c c' : ReplayContext)
    (s : Date) (h : AgreeUpTo s c c') (k : Nat)
    (hk : ∀ session ∈ (replaySeries c start stop).sessions.take k, session ≤ s) :
    SameUpTo k (.mk o (replaySeries c start stop)) (.mk o (replaySeries c' start stop)) := by
  have halike := h.series start stop
  have hstates := stateAfter_eq (o := o) halike hk
  refine ⟨dates_stateAfter k, hstates, fun i hi session hsession =>
    ⟨halike.sessions ▸ hsession, ?_⟩,
    stateAfter_begins k, hstates ▸ stateAfter_begins k⟩
  have hfirst := List.take_subset_take_left (replaySeries c start stop).sessions hi.le
  have hseen : session ≤ s := hk session (List.mem_of_getElem? (i := i)
    (by rwa [List.getElem?_take_of_lt hi]))
  rw [stateAfter_eq halike fun d hd => hk d (hfirst hd), dayResult_eq halike hseen]

end Caches

/-! ### Two caches that part after the second day -/

section Parted

/-- Stages that buy ten shares whenever nothing is held. -/
def flatStages : FleetStages Unit Unit where
  classifyRegime _ _ := "neutral"
  applyFilters _ _ _ _ := []
  rankSurvivors _ := []
  scoreCandidates _ := none
  splitDecisions _ := []
  evaluateRecommendations _ e :=
    (if e.positions = [] then [tenShares] else [], [])

def flatSettings : ReplaySettings where
  isoformat day := s!"day {day}"
  dayRunner := runReplayDay flatStages
  startingCash := 10000
  tolerance := ⟨.flat, 50, 1, 10, 100⟩
  lookbackDays _ := 30
  requiredHistoryBars := 2

/-- A cache of one line over four days, with the lows of the last two given. -/
def cacheWithLows (low₃ low₄ : ℚ) : ReplayContext where
  replayUniverse :=
    { sessions := [1, 2, 3, 4]
      episodes := [⟨"AAA", 1, 4⟩]
      bars := [⟨"AAA", 1, 100, 101, 99, 100, 1000⟩, ⟨"AAA", 2, 100, 101, 99, 100, 1000⟩,
        ⟨"AAA", 3, 100, 101, low₃, 100, 1000⟩, ⟨"AAA", 4, 100, 101, low₄, 100, 1000⟩] }
  benchmark := .empty
  vix := .empty
  sectors := .empty

theorem cacheWithLows_agree (low₃ low₄ low₃' low₄' : ℚ) :
    AgreeUpTo 2 (cacheWithLows low₃ low₄) (cacheWithLows low₃' low₄') where
  sessions := rfl
  episodes := rfl
  sectors := rfl
  present := .of_eq rfl
  bars line day hday := by
    have h₃ : ¬ (3 : Date) = day := fun h => absurd (h ▸ hday) (by decide)
    have h₄ : ¬ (4 : Date) = day := fun h => absurd (h ▸ hday) (by decide)
    simp [barsAt, cacheWithLows, List.filter_cons, h₃, h₄]
  benchmark _ _ := rfl
  vix _ _ := rfl

def flatReplay (low₃ low₄ : ℚ) : ReplaySetup :=
  .mk flatSettings (replaySeries (cacheWithLows low₃ low₄) none none)

/-- The purchase of the second day is in both replays, the stop of the third in one only. -/
theorem flatReplay_no_lookahead :
    SameUpTo 2 (flatReplay 90 99) (flatReplay 99 99) ∧
    ((flatReplay 90 99).stateAfter 2).book.fills.map (fun row => row.reason) = ["limit"] ∧
    (runReplaySessions (flatReplay 90 99)).fills.length = 3 ∧
    (runReplaySessions (flatReplay 99 99)).fills.length = 1 :=
  ⟨no_lookahead flatSettings none none _ _ 2 (cacheWithLows_agree 90 99 99 99) 2
    (by decide +kernel), by decide +kernel, by decide +kernel, by decide +kernel⟩

end Parted

end TradingAgents.Replay
