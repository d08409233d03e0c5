import TradingAgents.Deliberation.ReplayRounds
import TradingAgents.ProofKit.Lockstep

/-! A replayed debate is the live debate.  The rounds of a sweep take every debate through its own
turns as if it were alone, and alone its requests are the prompts of the live debate, so it ends
with the transcript and the verdict that the live debate has when the provider's answers are given
to it one by one.  The replay hands the judge's answer on without the white space around it, where
the live debate reads the answer as it came: a verdict that only this white space makes unreadable
is the one difference. -/

namespace TradingAgents.Deliberation

open ProofKit
open Deliberator (DebateRole ServedRole Ruling)

/-- A gateway that hands on what the provider answers to each request. -/
def Serves (gateway : BatchGateway) (answer : BatchRequest → Option BatchResult) : Prop :=
  ∀ number requests, (requests.map BatchRequest.customId).Nodup → ∀ request ∈ requests,
    (answersById (gateway number requests)).get? request.customId = answer request

/-- A gateway that answers nothing else. -/
def AnswersOnly (gateway : BatchGateway) : Prop :=
  ∀ number requests, ∀ result ∈ gateway number requests,
    result.customId ∈ requests.map BatchRequest.customId

/-- The reason that a replay gives for the error of a live debate. -/
def failureText : DebateError → String
  | .completion (.stopped _ _) => "empty_turn"
  | .completion (.raised reason) => reason
  | .unreadable .empty => "empty_turn"
  | .unreadable e => "unreadable_verdict:" ++ e.text

/-- What a completion gives when its answer is one of a batch. -/
def completionOf : Option BatchResult → Except CompletionError String
  | none => .error (.raised "missing_result")
  | some result =>
    if result.status ≠ "succeeded" then .error (.raised result.status) else .ok result.text

/-- A provider whose answers have no white space around them. -/
def stripped (answer : BatchRequest → Option BatchResult) : BatchRequest → Option BatchResult :=
  fun request => (answer request).map fun result => { result with text := PyText.strip result.text }

/-- `json.loads` reads what is left of a text without the white space around it, when it reads the
text. -/
def SkipsPadding (loads : String → Option VerdictJson) : Prop :=
  ∀ raw data, loads raw = some data → loads (PyText.strip raw) = some data

namespace DebateState

section

variable (kit : DebateKit) (answer : BatchRequest → Option BatchResult)

/-- The request of a live debate: its `n`-th is that of the `n`-th turn, with the prompts that the
debate asks. -/
def wire (state : DebateState) (n : Nat) (prompt : Prompt) : BatchRequest :=
  { state.request kit (state.steps.getD n .judge) with
    system := prompt.system, user := prompt.user }

/-- The provider as the client of one live debate. -/
def client (state : DebateState) : LLMClient := fun n prompt =>
  completionOf (answer (state.wire kit n prompt))

/-- The decision of a state debated live. -/
def live (state : DebateState) : Except DebateError DebateResult :=
  deliberate kit.loads kit.prompts (state.client kit answer) none state.subject.proposition
    state.arm.maxRounds

/-- The requests that the live debate sends. -/
def liveRequests (state : DebateState) : List BatchRequest :=
  (debatePrompts (state.client kit answer) kit.prompts state.subject.proposition
    state.arm.maxRounds).mapIdx (state.wire kit)

/-- Every speaker of the debate speaks, and the judge answers what no verdict can be read from
before the white space around it is off. -/
def Padded (state : DebateState) : Prop :=
  ∃ said result,
    speak (state.client kit answer) kit.prompts state.subject.proposition []
      (speakingOrder (debateRounds state.arm.maxRounds)) = .ok said ∧
    answer (state.wire kit said.length
      ⟨kit.prompts.judge, renderDebatePrompt state.subject.proposition said⟩) = some result ∧
    result.status = "succeeded" ∧
    parseVerdict kit.loads result.text = .error .unparseable ∧
    parseVerdict kit.loads (PyText.strip result.text) ≠ .error .unparseable

/-- What a debate makes of a round. -/
def takeTurn (state : DebateState) (step : Step) : DebateState :=
  if state.participates step then state.applyOne kit step (answer (state.request kit step))
  else state

/-- The requests that a debate sends in a round. -/
def sends (state : DebateState) (step : Step) : Multiset BatchRequest :=
  if state.participates step then {state.request kit step} else 0

/-- The debate after some rounds. -/
def after (state : DebateState) (steps : List Step) : DebateState :=
  steps.foldl (takeTurn kit answer) state

/-- The requests that a debate sends in some rounds. -/
def sent (state : DebateState) (steps : List Step) : Multiset BatchRequest :=
  Lockstep.spent (takeTurn kit answer) (sends kit) steps state

end

variable {kit : DebateKit} {answer : BatchRequest → Option BatchResult} {state : DebateState}
  {step : Step} {steps : List Step}

@[simp] theorem after_nil : state.after kit answer [] = state := rfl

theorem after_cons : state.after kit answer (step :: steps) =
    (state.takeTurn kit answer step).after kit answer steps := rfl

@[simp] theorem sent_nil : state.sent kit answer [] = 0 := rfl

theorem sent_cons : state.sent kit answer (step :: steps) =
    state.sends kit step + (state.takeTurn kit answer step).sent kit answer steps := rfl

theorem after_append {steps' : List Step} : state.after kit answer (steps ++ steps') =
    (state.after kit answer steps).after kit answer steps' := List.foldl_append

theorem sent_append {steps' : List Step} : state.sent kit answer (steps ++ steps') =
    state.sent kit answer steps + (state.after kit answer steps).sent kit answer steps' := by
  induction steps generalizing state with
  | nil => simp
  | cons step steps ih =>
    rw [List.cons_append, sent_cons, sent_cons, after_cons, ih, add_assoc]

/-! ### What a turn leaves -/

/-- The parts of a state that no turn changes. -/
def SameDebate (s t : DebateState) : Prop :=
  t.subject = s.subject ∧ t.repeat = s.repeat ∧ t.arm = s.arm ∧ t.steps = s.steps

theorem applyOne_same (state : DebateState) (step : Step) (result : Option BatchResult) :
    state.SameDebate (state.applyOne kit step result) := by
  unfold applyOne
  split
  · exact ⟨rfl, rfl, rfl, rfl⟩
  · split
    · exact ⟨rfl, rfl, rfl, rfl⟩
    · dsimp only
      split
      · exact ⟨rfl, rfl, rfl, rfl⟩
      · split
        · split <;> exact ⟨rfl, rfl, rfl, rfl⟩
        · exact ⟨rfl, rfl, rfl, rfl⟩

theorem takeTurn_same (state : DebateState) (step : Step) :
    state.SameDebate (state.takeTurn kit answer step) := by
  unfold takeTurn
  split
  · exact applyOne_same state step _
  · exact ⟨rfl, rfl, rfl, rfl⟩

theorem SameDebate.key {t : DebateState} (h : state.SameDebate t) (step : Step) :
    t.key step = state.key step := by
  obtain ⟨hsubject, hrepeat, harm, -⟩ := h
  unfold DebateState.key
  rw [hsubject, hrepeat, harm]

theorem participates_iff : state.participates step = true ↔
    state.failure = none ∧ step ∈ state.steps := by
  simp [participates]

/-- A debate stands still in a round that it takes no part in. -/
theorem takeTurn_idle (h : state.participates step = false) :
    state.takeTurn kit answer step = state ∧ state.sends kit step = 0 := by
  simp [takeTurn, sends, h]

/-- A debate that has failed takes no further turn. -/
theorem after_failed (h : state.failure ≠ none) :
    state.after kit answer steps = state ∧ state.sent kit answer steps = 0 := by
  induction steps with
  | nil => simp
  | cons step steps ih =>
    obtain ⟨hstill, hfree⟩ := @takeTurn_idle kit answer state step
      (by simp [participates, h])
    rw [after_cons, sent_cons, hstill, hfree]
    simpa using ih

/-! ### The turns of one debate -/

/-- One turn of the replay is one of the live debate. -/
theorem takeTurn_argue {role : DebateRole} {round : Nat} (hfailure : state.failure = none)
    (hstep : state.steps[state.transcript.length]? = some (.argue role round)) :
    state.takeTurn kit answer (.argue role round) =
      (match debateTurn (state.client kit (stripped answer)) kit.prompts state.subject.proposition
        role round state.transcript with
      | .ok turn => { state with transcript := state.transcript ++ [turn] }
      | .error e => { state with failure := some (failureText e) }) ∧
    state.sends kit (.argue role round) = {state.wire kit state.transcript.length
      ⟨kit.prompts.system role,
        renderDebatePrompt state.subject.proposition state.transcript⟩} := by
  have hown : state.participates (.argue role round) = true :=
    participates_iff.mpr ⟨hfailure, List.mem_of_getElem? hstep⟩
  have hwire : state.wire kit state.transcript.length
      ⟨kit.prompts.system role, renderDebatePrompt state.subject.proposition state.transcript⟩ =
      state.request kit (.argue role round) := by
    unfold wire
    rw [List.getD_eq_getElem?_getD, hstep]
    cases role <;> rfl
  refine ⟨?_, by rw [sends, if_pos hown, hwire]⟩
  rw [takeTurn, if_pos hown, debateTurn, client, hwire, stripped]
  cases answer (state.request kit (.argue role round)) with
  | none => rfl
  | some result =>
    simp only [applyOne, completionOf, Option.map_some]
    by_cases hstatus : result.status = "succeeded"
    · simp only [hstatus, ne_eq, not_true_eq_false, if_false, PyText.strip_strip]
      by_cases htext : PyText.strip result.text = ""
      · simp [htext, failureText]
      · simp [htext]
    · simp [hstatus, failureText]

/-- An answer of which something is left is not read as empty. -/
theorem parseVerdict_nonempty {loads : String → Option VerdictJson} {text : String}
    {e : UnreadableVerdict} (htext : PyText.strip text ≠ "")
    (he : parseVerdict loads text = .error e) : e ≠ .empty := by
  rintro rfl
  unfold parseVerdict at he
  rw [if_neg htext] at he
  split at he
  · split at he
    · dsimp only at he
      split at he <;> cases he
    · cases he
  · cases he

/-- The judge's turn of the replay is that of the live debate. -/
theorem takeTurn_judge (hfailure : state.failure = none)
    (hstep : state.steps[state.transcript.length]? = some .judge) :
    state.takeTurn kit answer .judge =
      (match judgeVerdict kit.loads (state.client kit (stripped answer)) kit.prompts
        state.subject.proposition state.transcript with
      | .ok verdict => { state with verdict := some verdict }
      | .error e => { state with failure := some (failureText e) }) ∧
    state.sends kit .judge = {state.wire kit state.transcript.length
      ⟨kit.prompts.judge, renderDebatePrompt state.subject.proposition state.transcript⟩} := by
  have hown : state.participates .judge = true :=
    participates_iff.mpr ⟨hfailure, List.mem_of_getElem? hstep⟩
  have hwire : state.wire kit state.transcript.length
      ⟨kit.prompts.judge, renderDebatePrompt state.subject.proposition state.transcript⟩ =
      state.request kit .judge := by
    unfold wire
    rw [List.getD_eq_getElem?_getD, hstep]
    rfl
  refine ⟨?_, by rw [sends, if_pos hown, hwire]⟩
  rw [takeTurn, if_pos hown, judgeVerdict, client, hwire, stripped]
  cases answer (state.request kit .judge) with
  | none => rfl
  | some result =>
    simp only [applyOne, completionOf, Option.map_some]
    by_cases hstatus : result.status = "succeeded"
    · simp only [hstatus, ne_eq, not_true_eq_false, if_false]
      by_cases htext : PyText.strip result.text = ""
      · simp [htext, parseVerdict, Except.mapError, failureText]
      · simp only [htext, if_false, judgeVerdict, answered]
        cases hread : parseVerdict kit.loads (PyText.strip result.text) with
        | ok verdict => rfl
        | error e =>
          have hne := parseVerdict_nonempty (by rwa [PyText.strip_strip]) hread
          cases e <;> first | rfl | exact absurd rfl hne
    · simp [hstatus, failureText]

/-- What is left of a debate after the turns of its speakers. -/
def Argued (kit : DebateKit) (answer : BatchRequest → Option BatchResult) (state : DebateState)
    (speakers : List (DebateRole × Nat)) : Except DebateError (List Turn) → Prop
  | .ok said => state.after kit answer (speakers.map Step.ofSpeaker) =
      { state with transcript := said }
  | .error e => ∃ said, state.after kit answer (speakers.map Step.ofSpeaker) =
      { state with transcript := said, failure := some (failureText e) }

/-- The turns of a debate, from any point of it on, and the requests that they send. -/
theorem argued {speakers : List (DebateRole × Nat)} (hfailure : state.failure = none)
    (hsteps : ∀ i speaker, speakers[i]? = some speaker →
      state.steps[state.transcript.length + i]? = some (Step.ofSpeaker speaker)) :
    Argued kit answer state speakers (speak (state.client kit (stripped answer)) kit.prompts
      state.subject.proposition state.transcript speakers) ∧
    state.sent kit answer (speakers.map Step.ofSpeaker) =
      (speakPrompts (state.client kit (stripped answer)) kit.prompts state.subject.proposition
        state.transcript speakers).mapIdx fun i => state.wire kit (state.transcript.length + i) := by
  induction speakers generalizing state with
  | nil => exact ⟨rfl, rfl⟩
  | cons speaker speakers ih =>
    obtain ⟨hturn, hsends⟩ := @takeTurn_argue kit answer state _ _ hfailure (hsteps 0 speaker rfl)
    rw [speak_cons, speakPrompts, List.mapIdx_cons, List.map_cons, sent_cons,
      show state.sends kit (Step.ofSpeaker speaker) = _ from hsends, ← Multiset.cons_coe,
      ← Multiset.singleton_add]
    cases hlive : debateTurn (state.client kit (stripped answer)) kit.prompts
        state.subject.proposition speaker.1 speaker.2 state.transcript with
    | error e =>
      rw [hlive] at hturn
      obtain ⟨hstill, hfree⟩ := @after_failed kit answer
        { state with failure := some (failureText e) } (speakers.map Step.ofSpeaker) (by simp)
      rw [Step.ofSpeaker, hturn]
      exact ⟨⟨state.transcript, by rw [List.map_cons, after_cons, Step.ofSpeaker, hturn, hstill]⟩,
        by rw [hfree]; rfl⟩
    | ok turn =>
      rw [hlive] at hturn
      obtain ⟨hrest, hsent⟩ := @ih { state with transcript := state.transcript ++ [turn] } hfailure
        fun i next hi => by
          rw [← hsteps (i + 1) next (by simpa using hi), List.length_append,
            List.length_singleton]
          congr 1
          omega
      have hnext : state.after kit answer ((speaker :: speakers).map Step.ofSpeaker) =
          { state with transcript := state.transcript ++ [turn] }.after kit answer
            (speakers.map Step.ofSpeaker) := by
        rw [List.map_cons, after_cons, Step.ofSpeaker, hturn]
      constructor
      · show Argued kit answer state (speaker :: speakers) (speak (state.client kit
          (stripped answer)) kit.prompts state.subject.proposition (state.transcript ++ [turn])
          speakers)
        change Argued kit answer _ _ (speak (state.client kit (stripped answer)) kit.prompts
          state.subject.proposition (state.transcript ++ [turn]) speakers) at hrest
        cases hsaid : speak (state.client kit (stripped answer)) kit.prompts
            state.subject.proposition (state.transcript ++ [turn]) speakers with
        | ok said =>
          rw [hsaid] at hrest
          exact hnext.trans hrest
        | error e =>
          rw [hsaid] at hrest
          obtain ⟨said, hdone⟩ := hrest
          exact ⟨said, hnext.trans hdone⟩
      · have hshift : (fun i => { state with transcript := state.transcript ++ [turn] }.wire kit
            ((state.transcript ++ [turn]).length + i)) =
            fun i => state.wire kit (state.transcript.length + (i + 1)) := by
          funext i
          rw [List.length_append, List.length_singleton, Nat.add_assoc, Nat.add_comm 1]
          rfl
        rw [Step.ofSpeaker, hturn, hsent, hshift]
        rfl

/-- A debate that nothing has happened to yet. -/
structure Fresh (state : DebateState) : Prop where
  failure : state.failure = none
  transcript : state.transcript = []
  steps : state.steps = state.arm.steps

/-- What a replay makes of a debate: the transcript and the verdict of the live debate, or the
reason why it has none. -/
def Replayed (live : Except DebateError DebateResult) (state final : DebateState) : Prop :=
  match live with
  | .ok result =>
    final = { state with transcript := result.transcript, verdict := some result.verdict }
  | .error e => ∃ said, final = { state with transcript := said, failure := some (failureText e) }

/-- Without the white space around the answers a live debate is asked and says the same. -/
theorem speak_stripped {transcript : List Turn} {speakers : List (DebateRole × Nat)} :
    speak (state.client kit (stripped answer)) kit.prompts state.subject.proposition transcript
      speakers =
      speak (state.client kit answer) kit.prompts state.subject.proposition transcript speakers ∧
    speakPrompts (state.client kit (stripped answer)) kit.prompts state.subject.proposition
      transcript speakers =
      speakPrompts (state.client kit answer) kit.prompts state.subject.proposition transcript
        speakers := by
  refine speak_congr fun n prompt _ => ?_
  unfold client stripped
  cases answer (state.wire kit (transcript.length + n) prompt) with
  | none => rfl
  | some result =>
    by_cases hstatus : result.status = "succeeded" <;>
      simp [completionOf, hstatus, Except.map]

/-- A debate that takes its own turns alone is the live debate of the answers without the white
space around them, and its requests are those of the live debate. -/
theorem replayed_alone (hfresh : state.Fresh) :
    state.Replayed (state.live kit (stripped answer)) (state.after kit answer state.steps) ∧
    state.sent kit answer state.steps = state.liveRequests kit answer := by
  obtain ⟨hfailure, hnothing, hsteps⟩ := hfresh
  let order := speakingOrder (debateRounds state.arm.maxRounds)
  have hplan : state.steps = order.map Step.ofSpeaker ++ [.judge] := hsteps
  have hlive : state.live kit (stripped answer) =
      speak (state.client kit (stripped answer)) kit.prompts state.subject.proposition [] order >>=
        fun said => judgeVerdict kit.loads (state.client kit (stripped answer)) kit.prompts
          state.subject.proposition said >>=
        fun verdict => pure ⟨state.subject.proposition, said, verdict⟩ := rfl
  have hrequests : state.liveRequests kit answer =
      (speakPrompts (state.client kit (stripped answer)) kit.prompts state.subject.proposition []
        order ++
        match speak (state.client kit (stripped answer)) kit.prompts state.subject.proposition []
          order with
        | .ok said => [⟨kit.prompts.judge, renderDebatePrompt state.subject.proposition said⟩]
        | .error _ => []).mapIdx (state.wire kit) := by
    rw [speak_stripped.1, speak_stripped.2]
    rfl
  obtain ⟨hspoken, hsent⟩ := @argued kit answer state order hfailure fun i speaker hi => by
    have hlt : i < (order.map Step.ofSpeaker).length := by
      rw [List.length_map]
      exact (List.getElem?_eq_some_iff.mp hi).1
    rw [hnothing, hplan, List.length_nil, Nat.zero_add, List.getElem?_append_left hlt,
      List.getElem?_map, hi]
    rfl
  simp only [hnothing, List.length_nil, Nat.zero_add] at hspoken hsent
  rw [hlive, hrequests, hplan, after_append, sent_append, after_cons, sent_cons, after_nil,
    sent_nil, add_zero, hsent, List.mapIdx_append, ← Multiset.coe_add]
  cases hsaid : speak (state.client kit (stripped answer)) kit.prompts state.subject.proposition []
      order with
  | error e =>
    rw [hsaid] at hspoken
    obtain ⟨said, hafter⟩ := hspoken
    obtain ⟨hstill, hfree⟩ := @takeTurn_idle kit answer
      { state with transcript := said, failure := some (failureText e) } .judge
      (by simp [participates])
    rw [hafter, hstill, hfree]
    exact ⟨⟨said, rfl⟩, rfl⟩
  | ok said =>
    rw [hsaid] at hspoken
    have hlength : said.length = order.length := by
      obtain ⟨turns, rfl, horder, -⟩ := speak_ok hsaid
      rw [← horder, List.length_map]
    have hasked := length_speakPrompts hsaid
    rw [List.length_nil, Nat.zero_add] at hasked
    have hlast : state.steps[said.length]? = some .judge := by
      rw [hplan, hlength, List.getElem?_append_right (by simp)]
      simp
    obtain ⟨hjudge, hsends⟩ :=
      @takeTurn_judge kit answer { state with transcript := said } hfailure hlast
    have hwire : { state with transcript := said }.wire kit = state.wire kit := rfl
    rw [hspoken, hjudge, hsends, hasked, hwire, List.mapIdx_singleton, Nat.zero_add,
      Multiset.coe_singleton]
    refine ⟨?_, rfl⟩
    show Replayed (judgeVerdict kit.loads (state.client kit (stripped answer)) kit.prompts
      state.subject.proposition said >>= fun verdict => pure _) _ _
    have hclient : { state with transcript := said }.client kit (stripped answer) =
      state.client kit (stripped answer) := rfl
    rw [hclient]
    cases judgeVerdict kit.loads (state.client kit (stripped answer)) kit.prompts
        state.subject.proposition said with
    | ok verdict => rfl
    | error e => exact ⟨said, rfl⟩

/-! ### White space around a verdict -/

theorem parseVerdict_error {loads : String → Option VerdictJson} {text : String}
    {e : UnreadableVerdict} (he : parseVerdict loads text = .error e) :
    e = .empty ∨ e = .unparseable ∨ ∃ ruling, e = .unrecognised ruling := by
  unfold parseVerdict at he
  split at he
  · cases he
    exact .inl rfl
  · split at he
    · split at he
      · dsimp only at he
        split at he <;> cases he
        exact .inr (.inr ⟨_, rfl⟩)
      · cases he
        exact .inr (.inl rfl)
    · cases he
      exact .inr (.inl rfl)

/-- White space around a text keeps its verdict, or keeps it from being read. -/
theorem parseVerdict_strip {loads : String → Option VerdictJson} (hloads : SkipsPadding loads)
    (text : String) : parseVerdict loads (PyText.strip text) = parseVerdict loads text ∨
      parseVerdict loads text = .error .unparseable := by
  unfold parseVerdict
  rw [PyText.strip_strip]
  split
  · exact .inl rfl
  · cases hdata : loads text with
    | none => exact .inr rfl
    | some data =>
      rw [hloads text data hdata]
      exact .inl rfl

/-- A debate whose judge's answer is padded has no readable verdict. -/
theorem live_of_padded (h : state.Padded kit answer) :
    state.live kit answer = .error (.unreadable .unparseable) := by
  obtain ⟨said, result, hsaid, hresult, hstatus, hread, -⟩ := h
  have hjudge : judgeVerdict kit.loads (state.client kit answer) kit.prompts
      state.subject.proposition said = .error (.unreadable .unparseable) := by
    rw [judgeVerdict, client, hresult]
    simp [completionOf, hstatus, hread, Except.mapError]
  unfold live deliberate
  rw [hsaid, Fallible.ok_bind, Option.getD_none, hjudge]
  rfl

/-- Without the white space around it, the verdict of a padded answer is read, or its ruling is
not one. -/
theorem live_stripped_of_padded (h : state.Padded kit answer) :
    (∃ result, state.live kit (stripped answer) = .ok result) ∨
    ∃ ruling, state.live kit (stripped answer) =
      .error (.unreadable (.unrecognised ruling)) := by
  obtain ⟨said, result, hsaid, hresult, hstatus, hread, hstripped⟩ := h
  have hjudge : judgeVerdict kit.loads (state.client kit (stripped answer)) kit.prompts
      state.subject.proposition said =
      (parseVerdict kit.loads (PyText.strip result.text)).mapError .unreadable := by
    rw [judgeVerdict, client, stripped, hresult]
    simp [completionOf, hstatus]
  unfold live deliberate
  rw [speak_stripped.1, hsaid, Fallible.ok_bind, Option.getD_none, hjudge]
  cases he : parseVerdict kit.loads (PyText.strip result.text) with
  | ok verdict => exact .inl ⟨_, rfl⟩
  | error e =>
    obtain rfl | rfl | ⟨ruling, rfl⟩ := parseVerdict_error he
    · refine absurd rfl (parseVerdict_nonempty ?_ he)
      rw [PyText.strip_strip]
      intro hnothing
      rw [parseVerdict, if_pos hnothing] at hread
      cases hread
    · exact absurd he hstripped
    · exact .inr ⟨ruling, rfl⟩

/-- No other debate hears the white space around an answer. -/
theorem live_stripped (hloads : SkipsPadding kit.loads) (h : ¬ state.Padded kit answer) :
    state.live kit (stripped answer) = state.live kit answer := by
  unfold live deliberate
  rw [speak_stripped.1]
  cases hsaid : speak (state.client kit answer) kit.prompts state.subject.proposition []
      (speakingOrder (debateRounds state.arm.maxRounds)) with
  | error e => rfl
  | ok said =>
    rw [Fallible.ok_bind, Fallible.ok_bind, Option.getD_none, Option.getD_none]
    congr 1
    rw [judgeVerdict, judgeVerdict, client, client, stripped]
    cases hresult : answer (state.wire kit said.length
        ⟨kit.prompts.judge, renderDebatePrompt state.subject.proposition said⟩) with
    | none => rfl
    | some result =>
      by_cases hstatus : result.status = "succeeded"
      · have hread : parseVerdict kit.loads (PyText.strip result.text) =
            parseVerdict kit.loads result.text := by
          refine (parseVerdict_strip hloads result.text).elim id fun hnone => ?_
          rw [hnone]
          by_contra hsome
          exact h ⟨said, result, hsaid, hresult, hstatus, hnone, hsome⟩
        simp [completionOf, hstatus, hread]
      · simp [completionOf, hstatus]

/-- The text of a ruling that is none differs from that of no ruling. -/
theorem unrecognised_text_ne (ruling : String) :
    (UnreadableVerdict.unrecognised ruling).text ≠ UnreadableVerdict.unparseable.text := by
  intro h
  have hfirst : ("unrecognised ruling '" ++ ruling ++ "'").toList.head? =
      "judge response unparseable".toList.head? := congrArg (fun text => text.toList.head?) h
  simp only [String.toList_append, List.append_assoc, List.head?_append,
    show "unrecognised ruling '".toList.head? = some 'u' by decide,
    show "judge response unparseable".toList.head? = some 'j' by decide, Option.some_or] at hfirst
  exact absurd (Option.some.inj hfirst) (by decide)

/-- A replay is the live debate as the answers came, if and only if the judge's is not padded. -/
theorem replayed_iff (hloads : SkipsPadding kit.loads) (hfresh : state.Fresh)
    {final : DebateState} (h : state.Replayed (state.live kit (stripped answer)) final) :
    state.Replayed (state.live kit answer) final ↔ ¬ state.Padded kit answer := by
  constructor
  · intro hlive hpadded
    rw [live_of_padded hpadded] at hlive
    obtain ⟨said, hfinal⟩ := hlive
    obtain ⟨result, hok⟩ | ⟨ruling, herror⟩ := live_stripped_of_padded hpadded
    · rw [hok] at h
      have hfailure : state.failure = some _ := congrArg DebateState.failure (h.symm.trans hfinal)
      rw [hfresh.failure] at hfailure
      cases hfailure
    · rw [herror] at h
      obtain ⟨said', hfinal'⟩ := h
      have hfailure := congrArg DebateState.failure (hfinal'.symm.trans hfinal)
      exact unrecognised_text_ne ruling
        ((String.append_right_inj "unreadable_verdict:").mp (Option.some.inj hfailure))
  · intro hpadded
    rwa [← live_stripped hloads hpadded]

end DebateState

end TradingAgents.Deliberation
