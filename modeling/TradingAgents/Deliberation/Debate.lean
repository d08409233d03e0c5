import TradingAgents.Deliberator.ReviewRecord
import TradingAgents.ProofKit.Fallible
import TradingAgents.ProofKit.PyText

/-! A debate of one decision: the defender and the challenger speak in turn, each on the proposition
and what was said so far, and then the judge rules.  A client answers its requests in order, so its
answer is a function of the number of the request and of the two prompts. -/

namespace TradingAgents.Deliberation

open ProofKit
open Deliberator (DebateRole ServedRole Ruling)

/-- The system prompts of the roles. -/
structure DeliberationPrompts where
  defender : String
  challenger : String
  judge : String

/-- The decision under test and the evidence the roles reason over. -/
structure Proposition where
  decision : String
  context : String
deriving DecidableEq

structure Turn where
  role : DebateRole
  round : Nat
  text : String
deriving DecidableEq

structure Verdict where
  ruling : Ruling
  rationale : String
deriving DecidableEq

structure DebateResult where
  proposition : Proposition
  transcript : List Turn
  verdict : Verdict
deriving DecidableEq

/-! ### Completions -/

structure Prompt where
  system : String
  user : String
deriving DecidableEq

/-- How a completion fails: the provider says that it stopped, or the client raises. -/
inductive CompletionError where
  | stopped (provider stopReason : String)
  | raised (reason : String)
deriving DecidableEq, Repr

def CompletionError.text : CompletionError → String
  | stopped provider stopReason => provider ++ " completion stopped: stop_reason=" ++ stopReason
  | raised reason => reason

/-- A client: its answer to its `n`-th request. -/
abbrev LLMClient := Nat → Prompt → Except CompletionError String

/-! ### Verdicts -/

inductive UnreadableVerdict where
  | empty
  | unparseable
  | unrecognised (ruling : String)
  | stopped (e : CompletionError)
deriving DecidableEq, Repr

def UnreadableVerdict.text : UnreadableVerdict → String
  | empty => "judge response empty"
  | unparseable => "judge response unparseable"
  | unrecognised ruling => "unrecognised ruling '" ++ ruling ++ "'"
  | stopped e => "judge response stopped: " ++ e.text

/-- What `json.loads` gives: an object, its members as `str` prints them, or something that no key
can be looked up in. -/
inductive VerdictJson where
  | object (members : Dict String String)
  | other

def ruling? : String → Option Ruling
  | "uphold" => some .uphold
  | "overturn" => some .overturn
  | "revise" => some .revise
  | _ => none

/-- Read the judge's answer; `loads` is `json.loads`, without a result where it raises. -/
def parseVerdict (loads : String → Option VerdictJson) (raw : String) :
    Except UnreadableVerdict Verdict :=
  if PyText.strip raw = "" then .error .empty
  else match loads raw with
    | some (.object members) =>
      match members.get? "ruling" with
      | some written =>
        let ruling := String.ofList ((PyText.strip written).toList.map Char.toLower)
        let rationale := PyText.strip ((members.get? "rationale").getD "")
        match ruling? ruling with
        | some known => .ok ⟨known, rationale⟩
        | none => .error (.unrecognised ruling)
      | none => .error .unparseable
    | _ => .error .unparseable

/-! ### The debate -/

inductive DebateError where
  | completion (e : CompletionError)
  | unreadable (e : UnreadableVerdict)
deriving DecidableEq, Repr

def DebateError.text : DebateError → String
  | completion e => e.text
  | unreadable e => e.text

def turnLine (turn : Turn) : String :=
  "  [" ++ turn.role.value ++ " r" ++ toString turn.round ++ "] " ++ turn.text

/-- The user prompt of every role: the proposition and the debate so far. -/
def renderDebatePrompt (proposition : Proposition) (transcript : List Turn) : String :=
  "\n".intercalate ([
    "DECISION UNDER TEST: " ++ proposition.decision,
    "CONTEXT / EVIDENCE: " ++ proposition.context,
    "",
    "DEBATE SO FAR:"] ++ transcript.map turnLine ++
    if transcript.isEmpty then ["  (none yet)"] else [])

def DeliberationPrompts.system (prompts : DeliberationPrompts) : DebateRole → String
  | .defender => prompts.defender
  | .challenger => prompts.challenger

/-- Ask one arguing role for its next turn.  The client has answered once for each turn so far. -/
def debateTurn (llm : LLMClient) (prompts : DeliberationPrompts) (proposition : Proposition)
    (role : DebateRole) (round : Nat) (transcript : List Turn) : Except DebateError Turn :=
  match llm transcript.length
      ⟨prompts.system role, renderDebatePrompt proposition transcript⟩ with
  | .error e => .error (.completion e)
  | .ok answer =>
    let text := PyText.strip answer
    if text = "" then .error (.completion (.stopped "kernel" "empty_debate_turn"))
    else .ok ⟨role, round, text⟩

/-- Ask the judge.  A completion that stopped is an unreadable verdict. -/
def judgeVerdict (loads : String → Option VerdictJson) (llm : LLMClient)
    (prompts : DeliberationPrompts) (proposition : Proposition) (transcript : List Turn) :
    Except DebateError Verdict :=
  match llm transcript.length ⟨prompts.judge, renderDebatePrompt proposition transcript⟩ with
  | .error (.stopped provider stopReason) =>
    .error (.unreadable (.stopped (.stopped provider stopReason)))
  | .error e => .error (.completion e)
  | .ok raw => (parseVerdict loads raw).mapError .unreadable

/-- The roles of a round, in the order in which they speak. -/
def roundRoles : List DebateRole := [.defender, .challenger]

/-- Who speaks when in a debate of so many rounds. -/
def speakingOrder (rounds : Nat) : List (DebateRole × Nat) :=
  (List.range rounds).flatMap fun n => roundRoles.map fun role => (role, n + 1)

/-- A debate has one round at least. -/
def debateRounds (maxRounds : Int) : Nat := (max 1 maxRounds).toNat

/-- The transcript after the turns of the given speakers. -/
def speak (llm : LLMClient) (prompts : DeliberationPrompts) (proposition : Proposition)
    (transcript : List Turn) (speakers : List (DebateRole × Nat)) :
    Except DebateError (List Turn) :=
  speakers.foldlM (fun said speaker => do
    let turn ← debateTurn llm prompts proposition speaker.1 speaker.2 said
    return said ++ [turn]) transcript

/-- The bounded debate: every round in turn, then the judge. -/
def deliberate (loads : String → Option VerdictJson) (prompts : DeliberationPrompts)
    (llm : LLMClient) (judgeLlm : Option LLMClient) (proposition : Proposition) (maxRounds : Int) :
    Except DebateError DebateResult := do
  let transcript ← speak llm prompts proposition [] (speakingOrder (debateRounds maxRounds))
  let verdict ← judgeVerdict loads (judgeLlm.getD llm) prompts proposition transcript
  return ⟨proposition, transcript, verdict⟩

/-- The prompts of some speakers' turns, up to the one that fails. -/
def speakPrompts (llm : LLMClient) (prompts : DeliberationPrompts) (proposition : Proposition)
    (transcript : List Turn) : List (DebateRole × Nat) → List Prompt
  | [] => []
  | speaker :: speakers =>
    ⟨prompts.system speaker.1, renderDebatePrompt proposition transcript⟩ ::
      match debateTurn llm prompts proposition speaker.1 speaker.2 transcript with
      | .ok turn => speakPrompts llm prompts proposition (transcript ++ [turn]) speakers
      | .error _ => []

/-- The prompts that a debate asks its one client, in their order. -/
def debatePrompts (llm : LLMClient) (prompts : DeliberationPrompts) (proposition : Proposition)
    (maxRounds : Int) : List Prompt :=
  let speakers := speakingOrder (debateRounds maxRounds)
  speakPrompts llm prompts proposition [] speakers ++
    match speak llm prompts proposition [] speakers with
    | .ok said => [⟨prompts.judge, renderDebatePrompt proposition said⟩]
    | .error _ => []

/-! ### What a debate has said -/

section

variable {llm : LLMClient} {prompts : DeliberationPrompts} {proposition : Proposition}
  {transcript transcript' : List Turn} {role : DebateRole} {round : Nat} {turn : Turn}

theorem one_le_debateRounds (maxRounds : Int) : 1 ≤ debateRounds maxRounds := by
  unfold debateRounds
  omega

theorem debateTurn_ok (h : debateTurn llm prompts proposition role round transcript = .ok turn) :
    turn.role = role ∧ turn.round = round ∧ turn.text ≠ "" := by
  unfold debateTurn at h
  split at h
  · cases h
  · dsimp only at h
    split at h
    · cases h
    · rename_i hne
      cases h
      exact ⟨rfl, rfl, hne⟩

/-- The speakers speak in their order, each once, and none without a word. -/
theorem speak_ok {speakers : List (DebateRole × Nat)}
    (h : speak llm prompts proposition transcript speakers = .ok transcript') :
    ∃ turns, transcript' = transcript ++ turns ∧
      turns.map (fun t => (t.role, t.round)) = speakers ∧ ∀ t ∈ turns, t.text ≠ "" := by
  induction speakers generalizing transcript with
  | nil =>
    cases h
    exact ⟨[], by simp, rfl, by simp⟩
  | cons speaker speakers ih =>
    unfold speak at h
    rw [List.foldlM_cons] at h
    obtain ⟨said, hsaid, hrest⟩ := Fallible.bind_eq_ok.mp h
    obtain ⟨turn, hturn, hsaid⟩ := Fallible.bind_eq_ok.mp hsaid
    cases hsaid
    obtain ⟨turns, rfl, horder, hspoke⟩ := ih hrest
    obtain ⟨hrole, hround, htext⟩ := debateTurn_ok hturn
    refine ⟨turn :: turns, by simp, ?_, ?_⟩
    · rw [List.map_cons, horder, hrole, hround]
    · simpa using ⟨htext, hspoke⟩

theorem round_of_mem_speakingOrder {rounds : Nat} {speaker : DebateRole × Nat}
    (h : speaker ∈ speakingOrder rounds) : 1 ≤ speaker.2 ∧ speaker.2 ≤ rounds := by
  simp only [speakingOrder, List.mem_flatMap, List.mem_range, List.mem_map] at h
  obtain ⟨n, hn, role, -, rfl⟩ := h
  exact ⟨by omega, by omega⟩

end

/-! ### What a debate asks -/

section

variable {llm llm' : LLMClient} {prompts : DeliberationPrompts} {proposition : Proposition}
  {transcript : List Turn} {speaker : DebateRole × Nat} {speakers : List (DebateRole × Nat)}

theorem speak_cons : speak llm prompts proposition transcript (speaker :: speakers) =
    debateTurn llm prompts proposition speaker.1 speaker.2 transcript >>= fun turn =>
      speak llm prompts proposition (transcript ++ [turn]) speakers := by
  unfold speak
  rw [List.foldlM_cons, bind_assoc]
  rfl

/-- A turn hears an answer without the white space around it. -/
theorem debateTurn_congr {role : DebateRole} {round : Nat}
    (h : (llm transcript.length ⟨prompts.system role, renderDebatePrompt proposition transcript⟩).map
        PyText.strip =
      (llm' transcript.length ⟨prompts.system role, renderDebatePrompt proposition transcript⟩).map
        PyText.strip) :
    debateTurn llm prompts proposition role round transcript =
      debateTurn llm' prompts proposition role round transcript := by
  unfold debateTurn
  generalize llm transcript.length _ = heard at h
  generalize llm' transcript.length _ = heard' at h
  cases heard <;> cases heard' <;> simp_all [Except.map]

/-- Clients that answer alike what the one is asked hold the same debate of the same prompts. -/
theorem speak_congr (h : ∀ n prompt,
    (speakPrompts llm prompts proposition transcript speakers)[n]? = some prompt →
      (llm (transcript.length + n) prompt).map PyText.strip =
        (llm' (transcript.length + n) prompt).map PyText.strip) :
    speak llm prompts proposition transcript speakers =
      speak llm' prompts proposition transcript speakers ∧
    speakPrompts llm prompts proposition transcript speakers =
      speakPrompts llm' prompts proposition transcript speakers := by
  induction speakers generalizing transcript with
  | nil => exact ⟨rfl, rfl⟩
  | cons speaker speakers ih =>
    have hturn := @debateTurn_congr llm llm' prompts proposition transcript speaker.1 speaker.2
      (h 0 _ rfl)
    rw [speak_cons, speak_cons, speakPrompts, speakPrompts, ← hturn]
    cases hsaid : debateTurn llm prompts proposition speaker.1 speaker.2 transcript with
    | error e => exact ⟨rfl, rfl⟩
    | ok turn =>
      obtain ⟨hspeak, hprompts⟩ := @ih (transcript ++ [turn]) fun n prompt hn => by
        have hnext := h (n + 1) prompt (by rw [speakPrompts, hsaid]; exact hn)
        rwa [List.length_append, List.length_singleton, Nat.add_assoc, Nat.add_comm 1]
      exact ⟨hspeak, congrArg _ hprompts⟩

/-- Speakers who all speak are asked once for each turn. -/
theorem length_speakPrompts {said : List Turn}
    (h : speak llm prompts proposition transcript speakers = .ok said) :
    transcript.length + (speakPrompts llm prompts proposition transcript speakers).length =
      said.length := by
  induction speakers generalizing transcript with
  | nil =>
    cases h
    rfl
  | cons speaker speakers ih =>
    rw [speak_cons] at h
    obtain ⟨turn, hturn, hrest⟩ := Fallible.bind_eq_ok.mp h
    have hlength := ih hrest
    rw [List.length_append, List.length_singleton] at hlength
    rw [speakPrompts, hturn, List.length_cons, ← hlength, Nat.add_assoc, Nat.add_comm 1]

end

end TradingAgents.Deliberation
