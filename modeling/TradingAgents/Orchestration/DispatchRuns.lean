import TradingAgents.Kernel.Writes
import TradingAgents.Orchestration.DispatchFires
import TradingAgents.ProofKit.Runs

/-! Runs of the scheduled dispatcher: the fires of one session among the answers of the dashboard,
the answers that the fires of other sessions poll, and the writes of other agents.  The first answer
stands as long as no answer on the dashboard comes in the second of an effective Telegram answer on
the store that lists by key; with it stand the rules of placing and holding. -/

namespace TradingAgents.Orchestration

open Kernel ProofKit

/-- The desk of a session, the last reading of the clock, and the results of the fires. -/
structure DispatchState where
  desk : Desk
  clock : Moment
  results : List ScheduledDispatchResult

/-- What may come next: a fire of the session, an answer on the dashboard, an answer that the fire
of another session polls, or a write of another agent. -/
inductive DispatchMove where
  | fire (now : Moment) (telegram : TelegramReplies)
  | post (now : Moment) (request : HoldAnswerRequest)
  | otherPoll (now : Moment) (day : Day) (answer : TelegramAnswer)
  | write (w : Write Document)

def DispatchState.graph (s : DispatchState) : PipelineGraph := s.desk.graph

/-- The desk that a program leaves, whether it raised or not. -/
def deskAfter {α : Type} (x : Dispatch α) (d : Desk) : Desk :=
  match x d with
  | .ok _ t => t
  | .error _ t => t

def dispatchStep (setup : DispatchSetup) (asOf : Day) (s : DispatchState) :
    DispatchMove → DispatchState
  | .fire now telegram =>
    match dispatchWithHumanAnswer setup asOf now telegram s.desk with
    | .ok result t => ⟨t, now, s.results ++ [result]⟩
    | .error _ t => ⟨t, now, s.results⟩
  | .post now request => ⟨deskAfter (handleHoldAnswer setup request now) s.desk, now, s.results⟩
  | .otherPoll now day answer =>
    ⟨deskAfter (recordAnswer setup.backend (answer.fact setup day now)) s.desk, now, s.results⟩
  | .write w =>
    match s.graph.write w with
    | .ok g => ⟨{ s.desk with graph := g }, s.clock, s.results⟩
    | .error _ => s

def dispatchStepOk (setup : DispatchSetup) (asOf : Day) (s : DispatchState) (m : DispatchMove) :
    Except DispatchError DispatchState :=
  .ok (dispatchStep setup asOf s m)

/-- The labels that only the dispatcher and the answer routes write. -/
def dispatchLabels : List String := [runRequestLabel, runHoldLabel, runHoldAnswerLabel]

/-- The clock does not go back, and other agents write other labels. -/
def Permitted (s : DispatchState) : DispatchMove → Prop
  | .fire now _ => s.clock ≤ now
  | .post now _ => s.clock ≤ now
  | .otherPoll now _ _ => s.clock ≤ now
  | .write w => ∀ k ∈ w.node?, k.1 ∉ dispatchLabels

/-- An answer that the dashboard records does not overtake the effective answer. -/
def FirstStands (setup : DispatchSetup) (asOf : Day) (s : DispatchState) : DispatchMove → Prop
  | .post now request => request.isPost = true →
    (setup.backend.listNodes s.graph runHoldLabel).any (awaitsAnswer (scheduledRunId asOf)) = true →
    ∀ answer ∈ Answer.ofValue request.answer,
      request.runId = .str (scheduledRunId asOf) → ¬ Overtakes setup.backend s.graph
        ⟨scheduledRunId asOf, now.date, answer, .dashboard, now, 0⟩
  | _ => True

instance (s : DispatchState) (m : DispatchMove) : Decidable (Permitted s m) :=
  match m with
  | .fire now _ => inferInstanceAs (Decidable (s.clock ≤ now))
  | .post now _ => inferInstanceAs (Decidable (s.clock ≤ now))
  | .otherPoll now _ _ => inferInstanceAs (Decidable (s.clock ≤ now))
  | .write w => inferInstanceAs (Decidable (∀ k ∈ w.node?, k.1 ∉ dispatchLabels))

instance (setup : DispatchSetup) (asOf : Day) (s : DispatchState) (m : DispatchMove) :
    Decidable (FirstStands setup asOf s m) :=
  match m with
  | .fire _ _ => .isTrue trivial
  | .post _ request => inferInstanceAs (Decidable (request.isPost = true →
      (setup.backend.listNodes s.graph runHoldLabel).any (awaitsAnswer (scheduledRunId asOf)) =
        true →
      ∀ answer ∈ Answer.ofValue request.answer,
        request.runId = .str (scheduledRunId asOf) → ¬ Overtakes setup.backend s.graph _))
  | .otherPoll _ _ _ => .isTrue trivial
  | .write _ => .isTrue trivial

/-- Nothing of the run is in the graph. -/
structure NewRun (runId : String) (g : PipelineGraph) : Prop where
  request : g.getNode runRequestLabel (runRequestKey runId) = none
  holds : ∀ n ∈ g.listNodes runHoldLabel, n.get "run_id" ≠ .str runId
  answers : answersOf g runId = []
  names : ∀ source ordinal, g.getNode runHoldAnswerLabel (answerKey runId source ordinal) = none

def NewSession (asOf : Day) (s : DispatchState) : Prop :=
  NewRun (scheduledRunId asOf) s.graph ∧ s.results = []

/-! ### One move -/

/-- The fires that say they placed the run. -/
def DispatchState.placements (s : DispatchState) : List ScheduledDispatchResult :=
  s.results.filter fun result => result.action = .placed

/-- The invariant of a session. -/
structure SessionInvariant (asOf : Day) (s : DispatchState) : Prop where
  answers : AnswersKept (scheduledRunId asOf) s.clock s.graph
  holds : HoldsKept (scheduledRunId asOf) s.graph
  unplaced : ¬ Placed s.graph (scheduledRunId asOf) → s.placements = []
  once : s.placements.length ≤ 1

/-- What a move does. -/
structure MoveEffect (setup : DispatchSetup) (asOf : Day) (s : DispatchState) (m : DispatchMove)
    (s' : DispatchState) : Prop where
  effect : FireEffect setup (scheduledRunId asOf) s'.clock s.desk s'.desk
  placed : ¬ Placed s.graph (scheduledRunId asOf) → Placed s'.graph (scheduledRunId asOf) →
    ∃ telegram, m = .fire s'.clock telegram
  results : s'.placements = s.placements ∨ ¬ Placed s.graph (scheduledRunId asOf) ∧
    Placed s'.graph (scheduledRunId asOf) ∧ ∃ result, s'.placements = s.placements ++ [result]

section

variable {setup : DispatchSetup} {asOf : Day} {s : DispatchState} {m : DispatchMove}

theorem deskAfter_of_ends {α : Type} {x : Dispatch α} {d : Desk} {P : Desk → Prop}
    (h : Ends x d (fun _ t => P t) P) : P (deskAfter x d) := by
  unfold Ends at h
  unfold deskAfter
  cases hx : x d with
  | ok a t =>
    rw [hx] at h
    exact h
  | error e t =>
    rw [hx] at h
    exact h

/-- A move that leaves requests and holds as they are. -/
theorem MoveEffect.of_polled {t : Desk} {now : Moment}
    (h : Polled setup.backend (scheduledRunId asOf) now s.desk t)
    (hholds : HoldsKept (scheduledRunId asOf) s.graph) :
    MoveEffect setup asOf s m ⟨t, now, s.results⟩ where
  effect := (h.waiting hholds).effect
  placed := fun hnot hp => absurd ((h.waiting hholds).placed.mp hp) hnot
  results := .inl rfl

theorem Same.of_write {label : String} {g g' : PipelineGraph} {w : Write Document}
    (h : g.write w = .ok g') (hw : ∀ k ∈ w.node?, k.1 ≠ label) : Same label g g' := by
  cases w with
  | merge other key props =>
    obtain ⟨⟨g₁, n⟩, hm, hret⟩ := Fallible.bind_eq_ok.mp h
    cases hret
    exact .of_merge hm (hw (other, key) rfl)
  | link e =>
    have hnodes := (Graph.addEdge_ok h).1
    exact ⟨Graph.listNodes_of_nodes_eq hnodes label, Graph.getNode_of_nodes_eq hnodes label⟩

theorem move_effect (hs : SessionInvariant asOf s) (hmay : Permitted s m)
    (hfirst : FirstStands setup asOf s m) :
    MoveEffect setup asOf s m (dispatchStep setup asOf s m) := by
  match m, hmay, hfirst with
  | .fire now telegram, hle, _ =>
    have hfire : Ends (dispatchWithHumanAnswer setup asOf now telegram) s.desk
        (FireResult setup (scheduledRunId asOf) now s.desk)
        (FireEffect setup (scheduledRunId asOf) now s.desk) :=
      dispatch_ends telegram hs.answers hle hs.holds
    unfold Ends at hfire
    rw [dispatchStep]
    cases hx : dispatchWithHumanAnswer setup asOf now telegram s.desk with
    | error e t =>
      rw [hx] at hfire
      exact ⟨hfire, fun _ _ => ⟨telegram, rfl⟩, .inl rfl⟩
    | ok result t =>
      rw [hx] at hfire
      refine ⟨hfire.effect, fun _ _ => ⟨telegram, rfl⟩, ?_⟩
      rcases Decidable.em (result.action = .placed) with hplaced | hother
      · refine .inr ⟨(hfire.placed hplaced).1, (hfire.placed hplaced).2, result, ?_⟩
        simp [DispatchState.placements, hplaced]
      · left
        simp [DispatchState.placements, hother]
  | .post now request, hle, hfirst =>
    refine .of_polled (deskAfter_of_ends (handleHoldAnswer_ends hs.answers hle ?_)) hs.holds
    rintro fact hsource hat hpost hrun hanswer hactive heq hover
    obtain ⟨hb, -, hm⟩ := hover
    rw [heq] at hm hactive
    refine hfirst hpost hactive fact.answer hanswer (by rw [hrun, heq]) ⟨hb, rfl, ?_⟩
    rw [← hat]
    exact hm
  | .otherPoll now day answer, hle, _ =>
    refine .of_polled (deskAfter_of_ends ?_) hs.holds
    have hrecord : Ends (recordAnswer setup.backend (answer.fact setup day now)) s.desk
        (fun _ t => Polled setup.backend (scheduledRunId asOf) now s.desk t)
        (Polled setup.backend (scheduledRunId asOf) now s.desk) :=
      recordAnswer_polled hs.answers hle fun _ hover => by cases hover.2.1
    exact hrecord
  | .write w, hlabels, _ =>
    rw [dispatchStep]
    have hstay : Polled setup.backend (scheduledRunId asOf) s.clock s.desk s.desk :=
      .refl hs.answers
    split
    · rename_i g hw
      have hsame : ∀ label ∈ dispatchLabels, Same label s.graph g :=
        fun label hlabel => .of_write hw fun k hk heq => hlabels k hk (heq ▸ hlabel)
      have hplaced : Placed g (scheduledRunId asOf) ↔ Placed s.graph (scheduledRunId asOf) :=
        Placed.of_same (hsame runRequestLabel (by decide))
      have hholds := hsame runHoldLabel (by decide)
      have hanswers := hsame runHoldAnswerLabel (by decide)
      refine ⟨⟨?_, ?_, ?_, ?_, ?_⟩, fun hnot hp => absurd (hplaced.mp hp) hnot, .inl rfl⟩
      · exact hs.answers.of_same (Moment.le_refl _) hanswers
      · exact fun a ha => (effectiveAnswer_same hanswers).trans ha
      · exact hs.holds.of_same hholds hplaced.mp
      · exact fun hp => ⟨hplaced.mpr hp, hholds, rfl⟩
      · exact fun hnot hp => absurd (hplaced.mp hp) hnot
    · exact .of_polled hstay hs.holds

/-- A session that keeps its invariant before a move keeps it after. -/
theorem MoveEffect.invariant {s' : DispatchState} (hs : SessionInvariant asOf s)
    (h : MoveEffect setup asOf s m s') : SessionInvariant asOf s' where
  answers := h.effect.answers
  holds := h.effect.holds
  unplaced := by
    intro hnot
    have hbefore : ¬ Placed s.graph (scheduledRunId asOf) := fun hp => hnot (h.effect.after hp).1
    rcases h.results with heq | ⟨-, hp, -⟩
    · exact heq.trans (hs.unplaced hbefore)
    · exact absurd hp hnot
  once := by
    rcases h.results with heq | ⟨hnot, -, result, heq⟩
    · rw [heq]
      exact hs.once
    · rw [heq, hs.unplaced hnot]
      exact Nat.le_refl 1

theorem NewSession.invariant (h : NewSession asOf s) : SessionInvariant asOf s where
  answers := by
    refine ⟨?_, ?_, ?_⟩
    · rw [h.1.answers]
      exact fun n hn => by cases hn
    · intro source ordinal n hn
      rw [h.1.names] at hn
      cases hn
    · rw [h.1.answers]
      exact fun n hn => by cases hn
  holds := by
    have hnone : ∀ key n, ¬ ActiveHold s.graph (scheduledRunId asOf) key n := by
      rintro key n ⟨hget, hactive⟩
      obtain ⟨hlabel, hkey⟩ := Graph.getNode_nodeKey hget
      have hmem := Graph.mem_listNodes.mpr ⟨hlabel, by rw [hkey]; exact hget⟩
      rw [holdsRun, Bool.and_eq_true, decide_eq_true_eq] at hactive
      exact h.1.holds n hmem hactive.1
    exact ⟨fun key n _ _ hn => absurd hn (hnone key n), fun _ key n hn => absurd hn (hnone key n)⟩
  unplaced := fun _ => by rw [DispatchState.placements, h.2]; rfl
  once := by rw [DispatchState.placements, h.2]; exact Nat.zero_le 1

end

/-! ### Runs -/

/-- The moves of a run in which the first answer stands. -/
def InOrder (setup : DispatchSetup) (asOf : Day) (s : DispatchState) (m : DispatchMove) : Prop :=
  Permitted s m ∧ FirstStands setup asOf s m

instance (setup : DispatchSetup) (asOf : Day) (s : DispatchState) (m : DispatchMove) :
    Decidable (InOrder setup asOf s m) :=
  inferInstanceAs (Decidable (Permitted s m ∧ FirstStands setup asOf s m))

/-- The states that follow a state. -/
def Later (setup : DispatchSetup) (asOf : Day) (s s' : DispatchState) : Prop :=
  Reach (dispatchStepOk setup asOf) (InOrder setup asOf) (· = s) s'

/-- The rules of a session: one active hold and one placement at most; a run is placed by a fire in
the window, for a ready fleet or a human's word, and not against it; after the placement no hold is
written or announced; and the effective answer stays. -/
structure SessionKept (setup : DispatchSetup) (asOf : Day) (s : DispatchState) : Prop where
  oneHold : ∀ key n key' n', ActiveHold s.graph (scheduledRunId asOf) key n →
    ActiveHold s.graph (scheduledRunId asOf) key' n' → key = key'
  onePlacement : s.placements.length ≤ 1
  placing : ∀ m, InOrder setup asOf s m → ¬ Placed s.graph (scheduledRunId asOf) →
    Placed (dispatchStep setup asOf s m).graph (scheduledRunId asOf) →
    ∃ now telegram, m = .fire now telegram ∧ isActionTime now = true ∧
      effectiveAnswer setup.backend (dispatchStep setup asOf s m).graph (scheduledRunId asOf) ≠
        some .skipToday ∧
      (FleetReady setup s.graph now ∨ effectiveAnswer setup.backend
        (dispatchStep setup asOf s m).graph (scheduledRunId asOf) = some .runNow)
  placed : ∀ s', Later setup asOf s s' → Placed s.graph (scheduledRunId asOf) →
    Placed s'.graph (scheduledRunId asOf) ∧ Same runHoldLabel s.graph s'.graph ∧
      s'.desk.holdNotices = s.desk.holdNotices
  skipped : ∀ s', Later setup asOf s s' →
    effectiveAnswer setup.backend s.graph (scheduledRunId asOf) = some .skipToday →
    ¬ Placed s.graph (scheduledRunId asOf) → ¬ Placed s'.graph (scheduledRunId asOf)
  effective : ∀ s', Later setup asOf s s' → ∀ a,
    effectiveAnswer setup.backend s.graph (scheduledRunId asOf) = some a →
    effectiveAnswer setup.backend s'.graph (scheduledRunId asOf) = some a

section

variable {setup : DispatchSetup} {asOf : Day} {s s' : DispatchState} {m : DispatchMove}

theorem InOrder.effect (hs : SessionInvariant asOf s) (hm : InOrder setup asOf s m) :
    MoveEffect setup asOf s m (dispatchStep setup asOf s m) :=
  move_effect hs hm.1 hm.2

/-- What a session keeps from one state to every later one. -/
structure SinceKept (setup : DispatchSetup) (asOf : Day) (s s' : DispatchState) : Prop where
  invariant : SessionInvariant asOf s'
  effective : ∀ a, effectiveAnswer setup.backend s.graph (scheduledRunId asOf) = some a →
    effectiveAnswer setup.backend s'.graph (scheduledRunId asOf) = some a
  placed : Placed s.graph (scheduledRunId asOf) → Placed s'.graph (scheduledRunId asOf) ∧
    Same runHoldLabel s.graph s'.graph ∧ s'.desk.holdNotices = s.desk.holdNotices
  skipped : effectiveAnswer setup.backend s.graph (scheduledRunId asOf) = some .skipToday →
    ¬ Placed s.graph (scheduledRunId asOf) → ¬ Placed s'.graph (scheduledRunId asOf)

theorem SinceKept.step (h : SinceKept setup asOf s s') (hm : InOrder setup asOf s' m) :
    SinceKept setup asOf s (dispatchStep setup asOf s' m) := by
  have heffect := hm.effect h.invariant
  refine ⟨heffect.invariant h.invariant, fun a ha => heffect.effect.effective a (h.effective a ha),
    fun hp => ?_, fun hskip hnot hp => ?_⟩
  · obtain ⟨hp', hsame, hnotices⟩ := h.placed hp
    obtain ⟨hp'', hsame', hnotices'⟩ := heffect.effect.after hp'
    exact ⟨hp'', hsame.trans hsame', hnotices'.trans hnotices⟩
  · -- the answer that forbids the run still stands after the move
    have hstill := heffect.effect.effective _ (h.effective _ hskip)
    exact (heffect.effect.placing (h.skipped hskip hnot) hp).2.1 hstill

theorem Later.kept (hs : SessionInvariant asOf s) (h : Later setup asOf s s') :
    SinceKept setup asOf s s' := by
  refine h.invariant ?_ fun t m t' ht hm hok => ?_
  · rintro _ rfl
    exact ⟨hs, fun _ ha => ha, fun hp => ⟨hp, .refl _ _, rfl⟩, fun _ hnot => hnot⟩
  · cases hok
    exact ht.step hm

/-- In every run in which no answer on the dashboard overtakes an effective Telegram answer the
session keeps its rules. -/
theorem session_kept (h : Reach (dispatchStepOk setup asOf) (InOrder setup asOf) (NewSession asOf)
    s) : SessionKept setup asOf s := by
  have hs : SessionInvariant asOf s := by
    refine h.invariant (fun _ => NewSession.invariant) fun t m t' ht hm hok => ?_
    cases hok
    exact (hm.effect ht).invariant ht
  refine ⟨hs.holds.single, hs.once, fun m hm hnot hp => ?_, fun _ hl => (hl.kept hs).placed,
    fun _ hl => (hl.kept hs).skipped, fun _ hl => (hl.kept hs).effective⟩
  have heffect := hm.effect hs
  obtain ⟨telegram, hfire⟩ := heffect.placed hnot hp
  obtain ⟨htime, hskip, hgo⟩ := heffect.effect.placing hnot hp
  exact ⟨_, telegram, hfire, htime, hskip, hgo⟩

end

/-! ### Two runs -/

/-- A Monday on which the exchange is open. -/
def sessionDay : Day := .ofFields 2026 1 5 (by decide)

def nextDay : Day := .ofFields 2026 1 6 (by decide)

/-- A dispatcher on the store that lists by key, before any preflight. -/
def sessionSetup : DispatchSetup where
  backend := .postgres
  calendar := ⟨fun _ => true, sessionDay⟩
  settings := ⟨"paper", 30, "UTC"⟩
  members := fun _ => ["AAPL"]
  degradableAgents := []
  requestDefaults := fun _ => ⟨400, 250, "SPY"⟩
  fromIso := fun _ => none
  dayFromIso := fun text => if text = "2026-01-05" then some sessionDay else none
  localClock := fun _ => none

def quietTelegram : TelegramReplies where
  polled := .ok []
  acked := fun _ => .ok true
  confirmed := .ok true
  holdNotice := .ok (some 7)
  degradedNotice := .ok none
  brief := none

def emptySession : DispatchState := ⟨⟨.empty, [], []⟩, .ofClock sessionDay 0 0 0 0, []⟩

theorem emptySession_new : NewSession sessionDay emptySession :=
  ⟨⟨rfl, (fun _ hn => by cases hn), rfl, fun _ _ => rfl⟩, rfl⟩

def postedAnswer (answer : Answer) : HoldAnswerRequest :=
  ⟨true, .str (scheduledRunId sessionDay), .str answer.value⟩

def pressedAnswer (answer : Answer) (updateId : Int) : TelegramAnswer :=
  ⟨updateId, answer, scheduledRunId sessionDay, "query"⟩

/-- A held run that the dashboard lets go; a later press of the other button changes nothing. -/
def releasedRun : List DispatchMove := [
  .fire (.ofClock sessionDay 22 30 5 0) quietTelegram,
  .post (.ofClock sessionDay 22 34 0 0) (postedAnswer .runNow),
  .fire (.ofClock sessionDay 22 40 5 0)
    { quietTelegram with polled := .ok [pressedAnswer .skipToday 11] },
  .fire (.ofClock sessionDay 22 50 5 0) quietTelegram]

/-- The session keeps its rules after such a run. -/
theorem releasedRun_kept : ∃ s, SessionKept sessionSetup sessionDay s ∧
    Placed s.graph (scheduledRunId sessionDay) := by
  have hrun : Fallible.check (fun s : DispatchState =>
      (s.graph.getNode runRequestLabel (runRequestKey (scheduledRunId sessionDay))).isSome)
      (releasedRun.foldlM (fun s m =>
        if InOrder sessionSetup sessionDay s m then
          dispatchStepOk sessionSetup sessionDay s m
        else .error (.valueError "")) emptySession) = true := by decide +kernel
  obtain ⟨s, hs, hplaced⟩ := Fallible.check_eq_true.mp hrun
  exact ⟨s, session_kept (Reach.of_checked (.start emptySession_new) hs), hplaced⟩

/-- A held run whose button is pressed the day after, when the fire of the next session polls, and
that the dashboard skips in the same second: the later answer takes the place of the first. -/
def overtakenRun : List DispatchMove := [
  .fire (.ofClock sessionDay 22 30 5 0) quietTelegram,
  .otherPoll (.ofClock nextDay 22 40 5 100000) nextDay (pressedAnswer .runNow 11)]

def overtakingPost : DispatchMove :=
  .post (.ofClock nextDay 22 40 5 900000) (postedAnswer .skipToday)

theorem effective_answer_overtaken : ¬ ∀ s,
    Reach (dispatchStepOk sessionSetup sessionDay) Permitted (NewSession sessionDay) s →
    ∀ m, Permitted s m → ∀ a,
      effectiveAnswer sessionSetup.backend s.graph (scheduledRunId sessionDay) = some a →
      effectiveAnswer sessionSetup.backend (dispatchStep sessionSetup sessionDay s m).graph
        (scheduledRunId sessionDay) = some a := by
  intro hall
  have hrun : Fallible.check (fun s : DispatchState => decide (Permitted s overtakingPost ∧
      effectiveAnswer sessionSetup.backend s.graph (scheduledRunId sessionDay) = some .runNow ∧
      effectiveAnswer sessionSetup.backend
        (dispatchStep sessionSetup sessionDay s overtakingPost).graph
        (scheduledRunId sessionDay) = some .skipToday))
      (overtakenRun.foldlM (fun s m =>
        if Permitted s m then dispatchStepOk sessionSetup sessionDay s m
        else .error (.valueError "")) emptySession) = true := by decide +kernel
  obtain ⟨s, hs, hpost⟩ := Fallible.check_eq_true.mp hrun
  obtain ⟨hmay, hfirst, hthen⟩ := of_decide_eq_true hpost
  have hstays := hall s (Reach.of_checked (.start emptySession_new) hs) overtakingPost hmay .runNow
    hfirst
  rw [hthen] at hstays
  cases hstays

end TradingAgents.Orchestration
