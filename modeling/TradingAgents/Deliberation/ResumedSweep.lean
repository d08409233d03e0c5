import TradingAgents.Deliberation.ReplayChunks
import TradingAgents.ProofKit.Effects

/-! A sweep that is interrupted and started again.  The answers of each round are on disk before the
next round is planned, and a round that is on disk is read instead of submitted. -/

namespace TradingAgents.Deliberation

open ProofKit

/-- The answers on disk by the number of their round, and what the provider was asked for.  The file
of a round is there whole or not at all: one that a crash tore within its write, which the next
attempt could not read, is left out. -/
structure SweepDisk where
  rounds : Dict Nat (List BatchResult) := .empty
  sent : List (Nat × List BatchRequest) := []

/-- How an attempt ends without an outcome: the submission of a round is lost, or the replay
raises. -/
inductive SweepStop where
  | lost (round : Nat)
  | replay (e : ReplayError)
deriving DecidableEq, Repr

abbrev SweepM := EStateM SweepStop SweepDisk

def raiseReplay {α : Type} : Except ReplayError α → SweepM α
  | .ok a => pure a
  | .error e => throw (.replay e)

/-- One process: it plans and prices only, or it submits through a provider, and it lives for some
rounds of the plan. -/
structure Attempt where
  dryRun : Bool
  api : BatchApi
  lives : Nat

def dryAnswer (request : BatchRequest) : BatchResult :=
  ⟨request.customId, "succeeded", "\x7b\"ruling\": \"uphold\"\x7d"⟩

/-- One answer for each request, from disk when the round was paid for. -/
def Attempt.run (attempt : Attempt) (number : Nat) (requests : List BatchRequest) :
    SweepM (List BatchResult) := do
  match (← get).rounds.get? number with
  | some results => return results
  | none =>
    if attempt.dryRun then return requests.map dryAnswer
    modify fun disk => { disk with sent := disk.sent ++ [(number, requests)] }
    match submit attempt.api number requests with
    | none => throw (.lost number)
    | some results =>
      modify fun disk => { disk with rounds := disk.rounds.set number results }
      return results

section

variable (kit : DebateKit) (subjects : List ReplaySubject) (arms : List Arm) (repeats : Int)

def startOutcome : ReplayOutcome := ⟨buildStates subjects arms repeats, 0, 0⟩

/-- The rounds that an attempt lives to take. -/
def sweep (attempt : Attempt) : SweepM ReplayOutcome :=
  ((planSteps arms).take attempt.lives).foldlM (replayRoundIn kit raiseReplay attempt.run)
    (startOutcome subjects arms repeats)

/-- The disk that an attempt leaves. -/
def afterAttempt (disk : SweepDisk) (attempt : Attempt) : SweepDisk :=
  match (sweep kit subjects arms repeats attempt).run disk with
  | .ok _ disk' => disk'
  | .error _ disk' => disk'

/-- The disk after some attempts, from an empty one on. -/
def afterAttempts (attempts : List Attempt) : SweepDisk :=
  attempts.foldl (afterAttempt kit subjects arms repeats) {}

/-- An attempt takes every round and ends with an outcome. -/
def Finishes (disk : SweepDisk) (attempt : Attempt) (outcome : ReplayOutcome) : Prop :=
  (planSteps arms).length ≤ attempt.lives ∧
  ∃ disk', (sweep kit subjects arms repeats attempt).run disk = .ok outcome disk'

end

/-- The gateway that reads the rounds from disk. -/
def recorded (rounds : Dict Nat (List BatchResult)) : BatchGateway := fun number _ =>
  (rounds.get? number).getD []

/-! ### Replays from disk -/

/-- Every round up to a number is on disk. -/
def Covered (rounds : Dict Nat (List BatchResult)) (last : Nat) : Prop :=
  ∀ number, 1 ≤ number → number ≤ last → (rounds.get? number).isSome

/-- No round on disk is lost or changed. -/
def Keeps (rounds rounds' : Dict Nat (List BatchResult)) : Prop :=
  ∀ number results, rounds.get? number = some results → rounds'.get? number = some results

section

variable {kit : DebateKit} {gateway : BatchGateway} {outcome outcome' : ReplayOutcome}
  {step : Step} {plan : List Step} {rounds rounds' : Dict Nat (List BatchResult)}

theorem Covered.mono {last last' : Nat} (h : Covered rounds last) (hle : last' ≤ last) :
    Covered rounds last' := fun number hfirst hlast => h number hfirst (Nat.le_trans hlast hle)

theorem Covered.keeps {last : Nat} (h : Covered rounds last) (hkeeps : Keeps rounds rounds') :
    Covered rounds' last := by
  intro number hfirst hlast
  obtain ⟨results, hresults⟩ := Option.isSome_iff_exists.mp (h number hfirst hlast)
  rw [hkeeps number results hresults]
  rfl

/-- A round counts one submission when it submits, and none when no debate takes its turn. -/
theorem replayRound_number {requests : List BatchRequest}
    (hrequests : roundRequests kit outcome.states step = .ok requests)
    (h : replayRound kit gateway outcome step = .ok outcome') :
    outcome'.roundsSubmitted = outcome.roundsSubmitted + if requests = [] then 0 else 1 := by
  rw [replayRound_eq, hrequests, Fallible.ok_bind] at h
  split at h
  · rename_i hnone
    cases h
    rw [if_pos hnone, Nat.add_zero]
  · rename_i hsome
    obtain ⟨results, -, h⟩ := Fallible.bind_eq_ok.mp h
    cases h
    rw [if_neg hsome]

theorem replayRound_le (h : replayRound kit gateway outcome step = .ok outcome') :
    outcome.roundsSubmitted ≤ outcome'.roundsSubmitted := by
  have h' := h
  rw [replayRound_eq] at h'
  obtain ⟨requests, hrequests, -⟩ := Fallible.bind_eq_ok.mp h'
  rw [replayRound_number hrequests h]
  exact Nat.le_add_right _ _

theorem replayRounds_le (h : plan.foldlM (replayRound kit gateway) outcome = .ok outcome') :
    outcome.roundsSubmitted ≤ outcome'.roundsSubmitted :=
  Fallible.foldlM_induction (P := fun _ t => outcome.roundsSubmitted ≤ t.roundsSubmitted) h
    (Nat.le_refl _) fun _ _ _ _ _ _ hle hround => Nat.le_trans hle (replayRound_le hround)

/-- A round that is on disk is replayed as it was. -/
theorem replayRound_keeps (hkeeps : Keeps rounds rounds')
    (h : replayRound kit (recorded rounds) outcome step = .ok outcome')
    (hcovered : Covered rounds outcome'.roundsSubmitted) :
    replayRound kit (recorded rounds') outcome step = .ok outcome' := by
  have h' := h
  rw [replayRound_eq] at h'
  obtain ⟨requests, hrequests, -⟩ := Fallible.bind_eq_ok.mp h'
  have hnumber := replayRound_number hrequests h
  rw [replayRound_eq, hrequests, Fallible.ok_bind] at h ⊢
  split at h
  · rename_i hnone
    rw [if_pos hnone]
    exact h
  · rename_i hsome
    rw [if_neg hsome]
    rw [if_neg hsome] at hnumber
    obtain ⟨results, hresults⟩ := Option.isSome_iff_exists.mp
      (hcovered (outcome.roundsSubmitted + 1) (Nat.le_add_left 1 _) (Nat.le_of_eq hnumber.symm))
    have hsame : recorded rounds' (outcome.roundsSubmitted + 1) requests =
        recorded rounds (outcome.roundsSubmitted + 1) requests := by
      rw [recorded, recorded, hresults, hkeeps _ _ hresults]
    rw [hsame]
    exact h

theorem replayRounds_keeps (hkeeps : Keeps rounds rounds')
    (h : plan.foldlM (replayRound kit (recorded rounds)) outcome = .ok outcome')
    (hcovered : Covered rounds outcome'.roundsSubmitted) :
    plan.foldlM (replayRound kit (recorded rounds')) outcome = .ok outcome' := by
  induction plan generalizing outcome with
  | nil => exact h
  | cons step plan ih =>
    rw [List.foldlM_cons] at h ⊢
    obtain ⟨next, hround, hrest⟩ := Fallible.bind_eq_ok.mp h
    rw [replayRound_keeps hkeeps hround (hcovered.mono (replayRounds_le hrest)), Fallible.ok_bind]
    exact ih hrest

end

/-! ### What a round is asked for -/

/-- The requests of a round of the replay, as the rounds on disk before it determine them. -/
def Planned (kit : DebateKit) (subjects : List ReplaySubject) (arms : List Arm) (repeats : Int)
    (rounds : Dict Nat (List BatchResult)) (number : Nat) (requests : List BatchRequest) : Prop :=
  ∃ done step rest outcome, planSteps arms = done ++ step :: rest ∧
    done.foldlM (replayRound kit (recorded rounds)) (startOutcome subjects arms repeats) =
      .ok outcome ∧
    Covered rounds outcome.roundsSubmitted ∧ outcome.roundsSubmitted + 1 = number ∧
    roundRequests kit outcome.states step = .ok requests ∧ requests ≠ []

section

variable {kit : DebateKit} {subjects : List ReplaySubject} {arms : List Arm} {repeats : Int}
  {rounds rounds' : Dict Nat (List BatchResult)} {number : Nat}
  {requests requests' : List BatchRequest}

theorem Planned.keeps (h : Planned kit subjects arms repeats rounds number requests)
    (hkeeps : Keeps rounds rounds') :
    Planned kit subjects arms repeats rounds' number requests := by
  obtain ⟨done, step, rest, outcome, hplan, hdone, hcovered, hnumber, hrequests, hsome⟩ := h
  exact ⟨done, step, rest, outcome, hplan, replayRounds_keeps hkeeps hdone hcovered,
    hcovered.keeps hkeeps, hnumber, hrequests, hsome⟩

/-- A round that is asked for has been counted after its step. -/
theorem number_le_of_prefix {gateway : BatchGateway} {start outcome outcome' : ReplayOutcome}
    {done mid : List Step} {step : Step}
    (hdone : done.foldlM (replayRound kit gateway) start = .ok outcome)
    (hrequests : roundRequests kit outcome.states step = .ok requests) (hsome : requests ≠ [])
    (hlater : (done ++ step :: mid).foldlM (replayRound kit gateway) start = .ok outcome') :
    outcome.roundsSubmitted + 1 ≤ outcome'.roundsSubmitted := by
  rw [List.foldlM_append, hdone, Fallible.ok_bind, List.foldlM_cons] at hlater
  obtain ⟨next, hround, hrest⟩ := Fallible.bind_eq_ok.mp hlater
  have hnumber := replayRound_number hrequests hround
  rw [if_neg hsome] at hnumber
  rw [← hnumber]
  exact replayRounds_le hrest

/-- A round is always asked for the same. -/
theorem Planned.unique (h : Planned kit subjects arms repeats rounds number requests)
    (h' : Planned kit subjects arms repeats rounds number requests') : requests = requests' := by
  obtain ⟨done, step, rest, outcome, hplan, hdone, -, hnumber, hrequests, hsome⟩ := h
  obtain ⟨done', step', rest', outcome', hplan', hdone', -, hnumber', hrequests', hsome'⟩ := h'
  have heq : done ++ step :: rest = done' ++ step' :: rest' := by rw [← hplan, hplan']
  rcases List.append_eq_append_iff.mp heq with ⟨mid, hlong, htail⟩ | ⟨mid, hlong, htail⟩
  · cases mid with
    | nil =>
      rw [List.append_nil] at hlong
      obtain ⟨rfl, -⟩ := List.cons.inj htail
      rw [hlong, hdone] at hdone'
      cases hdone'
      rw [hrequests] at hrequests'
      exact Except.ok.inj hrequests'
    | cons first mid =>
      obtain ⟨rfl, -⟩ := List.cons.inj htail
      rw [hlong] at hdone'
      have := number_le_of_prefix hdone hrequests hsome hdone'
      omega
  · cases mid with
    | nil =>
      rw [List.append_nil] at hlong
      obtain ⟨rfl, -⟩ := List.cons.inj htail
      rw [← hlong, hdone] at hdone'
      cases hdone'
      rw [hrequests] at hrequests'
      exact Except.ok.inj hrequests'
    | cons first mid =>
      obtain ⟨rfl, -⟩ := List.cons.inj htail
      rw [hlong] at hdone
      have := number_le_of_prefix hdone' hrequests' hsome' hdone
      omega

end

/-! ### One attempt -/

/-- What a later state of the disk keeps of an earlier one: every round, and what was sent; and no
round that was on disk has been sent again. -/
structure Kept (disk disk' : SweepDisk) : Prop where
  rounds : Keeps disk.rounds disk'.rounds
  sent : ∃ new, disk'.sent = disk.sent ++ new ∧
    ∀ entry ∈ new, disk.rounds.get? entry.1 = none

theorem Kept.refl (disk : SweepDisk) : Kept disk disk :=
  ⟨fun _ _ h => h, [], by simp, fun _ h => absurd h List.not_mem_nil⟩

theorem Kept.trans {disk disk' disk'' : SweepDisk} (h : Kept disk disk') (h' : Kept disk' disk'') :
    Kept disk disk'' := by
  obtain ⟨hrounds, new, hsent, hnew⟩ := h
  obtain ⟨hrounds', new', hsent', hnew'⟩ := h'
  refine ⟨fun number results hget => hrounds' number results (hrounds number results hget),
    new ++ new', by rw [hsent', hsent, List.append_assoc], fun entry hentry => ?_⟩
  rcases List.mem_append.mp hentry with hfirst | hsecond
  · exact hnew entry hfirst
  · have hnone := hnew' entry hsecond
    cases hget : disk.rounds.get? entry.1 with
    | none => rfl
    | some results =>
      rw [hrounds _ _ hget] at hnone
      cases hnone

/-- A disk that holds what the attempts were answered, each asked for what its round plans. -/
structure Sound (kit : DebateKit) (subjects : List ReplaySubject) (arms : List Arm) (repeats : Int)
    (attempts : List Attempt) (disk : SweepDisk) : Prop where
  planned : ∀ entry ∈ disk.sent,
    Planned kit subjects arms repeats disk.rounds entry.1 entry.2
  answered : ∀ number results, disk.rounds.get? number = some results →
    ∃ attempt ∈ attempts, ∃ requests, (number, requests) ∈ disk.sent ∧
      submit attempt.api number requests = some results

section

variable {kit : DebateKit} {subjects : List ReplaySubject} {arms : List Arm} {repeats : Int}
  {attempts : List Attempt} {attempt : Attempt} {disk disk' : SweepDisk} {number : Nat}
  {requests : List BatchRequest} {outcome : ReplayOutcome}

theorem Sound.more (h : Sound kit subjects arms repeats attempts disk) :
    Sound kit subjects arms repeats (attempts ++ [attempt]) disk :=
  ⟨h.planned, fun number results hget =>
    let ⟨a, ha, rest⟩ := h.answered number results hget
    ⟨a, List.mem_append_left _ ha, rest⟩⟩

/-- A round comes from disk, or is made up in a dry run, or is sent and then written. -/
theorem run_spec (attempt : Attempt) (disk : SweepDisk) (number : Nat)
    (requests : List BatchRequest) :
    Ends (attempt.run number requests) disk
      (fun results disk' => disk' = disk ∧ disk.rounds.get? number = some results ∨
        disk.rounds.get? number = none ∧
          (disk' = disk ∧ attempt.dryRun = true ∨
            attempt.dryRun = false ∧ submit attempt.api number requests = some results ∧
            disk' = ⟨disk.rounds.set number results, disk.sent ++ [(number, requests)]⟩))
      (fun disk' => disk.rounds.get? number = none ∧ attempt.dryRun = false ∧
        disk' = { disk with sent := disk.sent ++ [(number, requests)] }) := by
  unfold Attempt.run
  refine .bind (Q := fun now t => disk = now ∧ disk = t) (.get ⟨rfl, rfl⟩) ?_
  rintro _ _ ⟨rfl, rfl⟩
  split
  · rename_i results hget
    exact .pure (.inl ⟨rfl, hget⟩)
  · rename_i hget
    split
    · rename_i hdry
      exact .pure (.inr ⟨hget, .inl ⟨rfl, hdry⟩⟩)
    · rename_i hpaid
      have hpaid : attempt.dryRun = false := eq_false_of_ne_true hpaid
      refine .bind (.modify (Q := fun _ t => t = { disk with
        sent := disk.sent ++ [(number, requests)] }) rfl) ?_
      rintro _ _ rfl
      split
      · exact .throw ⟨hget, hpaid, rfl⟩
      · rename_i results hresults
        refine .bind (.modify (Q := fun _ t => t = ⟨disk.rounds.set number results,
          disk.sent ++ [(number, requests)]⟩) rfl) ?_
        rintro _ _ rfl
        exact .pure (.inr ⟨hget, .inr ⟨hpaid, hresults, rfl⟩⟩)

/-- What an attempt has established after some rounds of the plan. -/
structure Passed (kit : DebateKit) (subjects : List ReplaySubject) (arms : List Arm)
    (repeats : Int) (attempts : List Attempt) (disk : SweepDisk) (done : List Step)
    (outcome : ReplayOutcome) (disk' : SweepDisk) : Prop where
  replayed : done.foldlM (replayRound kit (recorded disk'.rounds))
    (startOutcome subjects arms repeats) = .ok outcome
  covered : Covered disk'.rounds outcome.roundsSubmitted
  kept : Kept disk disk'
  sound : Sound kit subjects arms repeats attempts disk'

/-- The first submission of a round. -/
theorem sent_sound (hsound : Sound kit subjects arms repeats attempts disk)
    (hplanned : Planned kit subjects arms repeats disk.rounds number requests)
    (hget : disk.rounds.get? number = none) :
    Sound kit subjects arms repeats attempts
        { disk with sent := disk.sent ++ [(number, requests)] } ∧
      Kept disk { disk with sent := disk.sent ++ [(number, requests)] } := by
  refine ⟨⟨fun entry hentry => ?_, fun number' results hresults => ?_⟩, fun _ _ h => h,
    [(number, requests)], rfl, fun entry hentry => ?_⟩
  · rcases List.mem_append.mp hentry with hold | hnew
    · exact hsound.planned entry hold
    · rw [List.mem_singleton.mp hnew]
      exact hplanned
  · obtain ⟨a, ha, requests', hsent, hsubmit⟩ := hsound.answered number' results hresults
    exact ⟨a, ha, requests', List.mem_append_left _ hsent, hsubmit⟩
  · rw [List.mem_singleton.mp hentry]
    exact hget

theorem keeps_set {rounds : Dict Nat (List BatchResult)} (hget : rounds.get? number = none)
    (results : List BatchResult) : Keeps rounds (rounds.set number results) := by
  intro number' results' hget'
  rw [Dict.get?_set_ne _ _ ?_]
  · exact hget'
  · rintro rfl
    rw [hget] at hget'
    cases hget'

/-- The answers of a submitted round are written. -/
theorem written_sound {results : List BatchResult} (hattempt : attempt ∈ attempts)
    (hsound : Sound kit subjects arms repeats attempts
      { disk with sent := disk.sent ++ [(number, requests)] })
    (hkept : Kept disk { disk with sent := disk.sent ++ [(number, requests)] })
    (hget : disk.rounds.get? number = none)
    (hsubmit : submit attempt.api number requests = some results) :
    Sound kit subjects arms repeats attempts
        ⟨disk.rounds.set number results, disk.sent ++ [(number, requests)]⟩ ∧
      Kept disk ⟨disk.rounds.set number results, disk.sent ++ [(number, requests)]⟩ := by
  have hkeeps := keeps_set hget results
  refine ⟨⟨fun entry hentry => (hsound.planned entry hentry).keeps hkeeps,
    fun number' results' hget' => ?_⟩, hkeeps, hkept.sent⟩
  rw [Dict.get?_set] at hget'
  split at hget'
  · rename_i hnumber
    cases hget'
    rw [hnumber]
    exact ⟨attempt, hattempt, requests, by simp, hsubmit⟩
  · exact hsound.answered number' results' hget'

/-- One round of a paid attempt. -/
theorem passed_round {done rest : List Step} {step : Step} (hattempt : attempt ∈ attempts)
    (hpaid : attempt.dryRun = false) (hplan : planSteps arms = done ++ step :: rest)
    (h : Passed kit subjects arms repeats attempts disk done outcome disk') :
    Ends (replayRoundIn kit raiseReplay attempt.run outcome step) disk'
      (Passed kit subjects arms repeats attempts disk (done ++ [step]))
      (fun t => Sound kit subjects arms repeats attempts t ∧ Kept disk t) := by
  obtain ⟨hreplayed, hcovered, hkept, hsound⟩ := h
  have hnext : ∀ {t next}, Keeps disk'.rounds t.rounds →
      replayRound kit (recorded t.rounds) outcome step = .ok next →
      Covered t.rounds next.roundsSubmitted → Sound kit subjects arms repeats attempts t →
      Kept disk' t → Passed kit subjects arms repeats attempts disk (done ++ [step]) next t := by
    intro t next hkeeps hround hcovered' hsound' hkept'
    refine ⟨?_, hcovered', hkept.trans hkept', hsound'⟩
    rw [List.foldlM_append, replayRounds_keeps hkeeps hreplayed hcovered, Fallible.ok_bind,
      List.foldlM_cons, hround]
    rfl
  unfold replayRoundIn
  cases hrequests : roundRequests kit outcome.states step with
  | error e => exact .bind (Q := fun _ _ => False) (.throw ⟨hsound, hkept⟩) fun _ _ h => h.elim
  | ok requests =>
    refine .bind (Q := fun given t => requests = given ∧ disk' = t) (.pure ⟨rfl, rfl⟩) ?_
    rintro _ _ ⟨rfl, rfl⟩
    split
    · rename_i hnone
      refine .pure (hnext (fun _ _ h => h) ?_ hcovered hsound (.refl _))
      rw [replayRound_eq, hrequests, Fallible.ok_bind, if_pos hnone]
    · rename_i hsome
      have hplanned : Planned kit subjects arms repeats disk'.rounds (outcome.roundsSubmitted + 1)
          requests :=
        ⟨done, step, rest, outcome, hplan, hreplayed, hcovered, rfl, hrequests, hsome⟩
      have hrun : Ends (attempt.run (outcome.roundsSubmitted + 1) requests) disk'
          (fun results t => t.rounds.get? (outcome.roundsSubmitted + 1) = some results ∧
            Sound kit subjects arms repeats attempts t ∧ Kept disk' t)
          (fun t => Sound kit subjects arms repeats attempts t ∧ Kept disk t) := by
        refine (run_spec attempt disk' _ requests).mono ?_ ?_
        · rintro results t (⟨rfl, hget⟩ | ⟨hget, ⟨-, hdry⟩ | ⟨-, hsubmit, rfl⟩⟩)
          · exact ⟨hget, hsound, .refl _⟩
          · rw [hpaid] at hdry
            cases hdry
          · obtain ⟨hsent, hkept'⟩ := sent_sound hsound hplanned hget
            exact ⟨Dict.get?_set_self _ _ _, written_sound hattempt hsent hkept' hget hsubmit⟩
        · rintro t ⟨hget, -, rfl⟩
          obtain ⟨hsent, hkept'⟩ := sent_sound hsound hplanned hget
          exact ⟨hsent, hkept.trans hkept'⟩
      refine .bind hrun fun results t ⟨hget, hsound', hkept'⟩ => ?_
      cases hchecked : checked requests results with
      | error e =>
        exact .bind (Q := fun _ _ => False) (.throw ⟨hsound', hkept.trans hkept'⟩)
          fun _ _ h => h.elim
      | ok given =>
        refine .bind (Q := fun read t' => given = read ∧ t = t') (.pure ⟨rfl, rfl⟩) ?_
        rintro _ _ ⟨rfl, rfl⟩
        refine .pure (hnext hkept'.rounds ?_ ?_ hsound' hkept')
        · have hread : recorded t.rounds (outcome.roundsSubmitted + 1) requests = results := by
            rw [recorded, hget]
            rfl
          rw [replayRound_eq, hrequests, Fallible.ok_bind, if_neg hsome, hread, hchecked,
            Fallible.ok_bind]
        · intro number hfirst hlast
          rcases Nat.lt_or_eq_of_le hlast with hbefore | rfl
          · exact (hcovered.keeps hkept'.rounds) number hfirst (Nat.le_of_lt_succ hbefore)
          · rw [hget]
            rfl

/-- A paid attempt, whether it ends with an outcome or not. -/
theorem passed_sweep (hattempt : attempt ∈ attempts) (hpaid : attempt.dryRun = false)
    (hsound : Sound kit subjects arms repeats attempts disk) :
    Ends (sweep kit subjects arms repeats attempt) disk
      (Passed kit subjects arms repeats attempts disk ((planSteps arms).take attempt.lives))
      (fun t => Sound kit subjects arms repeats attempts t ∧ Kept disk t) := by
  refine Ends.foldlM_done (fun done step rest hdone outcome t hpassed => ?_)
    ⟨rfl, fun number hfirst hlast => absurd hlast (by show ¬number ≤ 0; omega), .refl _, hsound⟩
  have hplan : planSteps arms = done ++ step :: (rest ++ (planSteps arms).drop attempt.lives) := by
    conv_lhs => rw [← List.take_append_drop attempt.lives (planSteps arms), hdone]
    simp
  exact passed_round hattempt hpaid hplan hpassed

/-- A dry run leaves the disk alone. -/
theorem dry_sweep (hdry : attempt.dryRun = true) :
    Ends (sweep kit subjects arms repeats attempt) disk (fun _ t => disk = t) (disk = ·) := by
  refine Ends.foldlM (fun step _ outcome t ht => ?_) rfl
  subst ht
  have hraise : ∀ {α : Type} (result : Except ReplayError α),
      Ends (raiseReplay result) disk (fun _ t => disk = t) (disk = ·) := by
    intro α result
    cases result with
    | ok a => exact .pure rfl
    | error e => exact .throw rfl
  refine .bind (hraise _) fun requests t ht => ?_
  subst ht
  split
  · exact .pure rfl
  · have hrun : Ends (attempt.run (outcome.roundsSubmitted + 1) requests) disk
        (fun _ t => disk = t) (disk = ·) := by
      refine (run_spec attempt disk _ requests).mono ?_ ?_
      · rintro results t (⟨rfl, -⟩ | ⟨-, ⟨rfl, -⟩ | ⟨hpaid, -⟩⟩)
        · rfl
        · rfl
        · rw [hdry] at hpaid
          cases hpaid
      · rintro t ⟨-, hpaid, -⟩
        rw [hdry] at hpaid
        cases hpaid
    refine .bind hrun fun results t ht => ?_
    subst ht
    refine .bind (hraise _) fun given t ht => ?_
    subst ht
    exact .pure rfl

/-- The disk that any attempt leaves. -/
theorem afterAttempt_sound (hattempt : attempt ∈ attempts)
    (hsound : Sound kit subjects arms repeats attempts disk) :
    Sound kit subjects arms repeats attempts (afterAttempt kit subjects arms repeats disk attempt) ∧
      Kept disk (afterAttempt kit subjects arms repeats disk attempt) := by
  unfold afterAttempt
  cases hdry : attempt.dryRun with
  | true =>
    have hends : Ends (sweep kit subjects arms repeats attempt) disk (fun _ t => disk = t)
      (disk = ·) := dry_sweep hdry
    split
    · rename_i h
      rw [← hends.of_ok h]
      exact ⟨hsound, .refl _⟩
    · rename_i h
      rw [← hends.of_error h]
      exact ⟨hsound, .refl _⟩
  | false =>
    have hends := passed_sweep hattempt hdry hsound
    split
    · rename_i h
      exact ⟨(hends.of_ok h).sound, (hends.of_ok h).kept⟩
    · rename_i h
      exact hends.of_error h

theorem afterAttempts_sound (attempts : List Attempt) :
    Sound kit subjects arms repeats attempts (afterAttempts kit subjects arms repeats attempts) := by
  induction attempts using List.reverseRecOn with
  | nil =>
    exact ⟨fun _ h => absurd h List.not_mem_nil, fun _ _ h => by cases h⟩
  | append_singleton attempts attempt ih =>
    rw [afterAttempts, List.foldl_append]
    exact (afterAttempt_sound (by simp) ih.more).1

/-! ### After the sweep -/

/-- A round that is on disk is read. -/
theorem cached_round {next : ReplayOutcome} {step : Step}
    (h : replayRound kit (recorded disk.rounds) outcome step = .ok next)
    (hcovered : Covered disk.rounds next.roundsSubmitted) :
    Ends (replayRoundIn kit raiseReplay attempt.run outcome step) disk
      (fun outcome' t => outcome' = next ∧ disk = t) fun _ => False := by
  have h' := h
  rw [replayRound_eq] at h'
  obtain ⟨requests, hrequests, h'⟩ := Fallible.bind_eq_ok.mp h'
  have hnumber := replayRound_number hrequests h
  unfold replayRoundIn
  rw [hrequests]
  refine .bind (Q := fun given t => requests = given ∧ disk = t) (.pure ⟨rfl, rfl⟩) ?_
  rintro _ _ ⟨rfl, rfl⟩
  split at h'
  · rename_i hnone
    cases h'
    rw [if_pos hnone]
    exact .pure ⟨rfl, rfl⟩
  · rename_i hsome
    rw [if_neg hsome] at hnumber ⊢
    obtain ⟨results, hget⟩ := Option.isSome_iff_exists.mp
      (hcovered (outcome.roundsSubmitted + 1) (Nat.le_add_left 1 _) (Nat.le_of_eq hnumber.symm))
    have hread : recorded disk.rounds (outcome.roundsSubmitted + 1) requests = results := by
      rw [recorded, hget]
      rfl
    rw [hread] at h'
    obtain ⟨given, hchecked, h'⟩ := Fallible.bind_eq_ok.mp h'
    cases h'
    refine .bind (Q := fun read t => results = read ∧ disk = t)
      ((run_spec attempt disk _ requests).mono ?_ ?_) ?_
    · rintro read t (⟨rfl, hget'⟩ | ⟨hnone, -⟩)
      · rw [hget] at hget'
        exact ⟨Option.some.inj hget', rfl⟩
      · rw [hget] at hnone
        cases hnone
    · rintro t ⟨hnone, -⟩
      rw [hget] at hnone
      cases hnone
    · rintro _ _ ⟨rfl, rfl⟩
      rw [hchecked]
      exact .bind (Q := fun read t => given = read ∧ disk = t) (.pure ⟨rfl, rfl⟩) fun _ _ ⟨h, ht⟩ =>
        .pure ⟨by rw [← h], ht⟩

/-- A replay of rounds that are all on disk sends nothing. -/
theorem cached_rounds {plan : List Step} {outcome' : ReplayOutcome}
    (h : plan.foldlM (replayRound kit (recorded disk.rounds)) outcome = .ok outcome')
    (hcovered : Covered disk.rounds outcome'.roundsSubmitted) :
    Ends (plan.foldlM (replayRoundIn kit raiseReplay attempt.run) outcome) disk
      (fun outcome t => outcome = outcome' ∧ disk = t) fun _ => False := by
  induction plan generalizing outcome with
  | nil =>
    cases h
    exact .pure ⟨rfl, rfl⟩
  | cons step plan ih =>
    rw [List.foldlM_cons] at h ⊢
    obtain ⟨next, hround, hrest⟩ := Fallible.bind_eq_ok.mp h
    refine .bind (cached_round hround (hcovered.mono (replayRounds_le hrest))) ?_
    rintro _ _ ⟨rfl, rfl⟩
    exact ih hrest

/-- A disk that holds a whole sweep. -/
def Complete (kit : DebateKit) (subjects : List ReplaySubject) (arms : List Arm) (repeats : Int)
    (rounds : Dict Nat (List BatchResult)) (outcome : ReplayOutcome) : Prop :=
  replayDebates kit subjects arms repeats (recorded rounds) = .ok outcome ∧
    Covered rounds outcome.roundsSubmitted

/-- Whatever is attempted on it, a disk that holds a whole sweep stays as it is. -/
theorem afterAttempt_complete (h : Complete kit subjects arms repeats disk.rounds outcome) :
    afterAttempt kit subjects arms repeats disk attempt = disk ∧
    ((planSteps arms).length ≤ attempt.lives →
      (sweep kit subjects arms repeats attempt).run disk = .ok outcome disk) := by
  obtain ⟨hreplayed, hcovered⟩ := h
  have hsplit := List.take_append_drop attempt.lives (planSteps arms)
  have hrun : (planSteps arms).foldlM (replayRound kit (recorded disk.rounds))
    (startOutcome subjects arms repeats) = .ok outcome := hreplayed
  rw [← hsplit, List.foldlM_append] at hrun
  obtain ⟨reached, htaken, hrest⟩ := Fallible.bind_eq_ok.mp hrun
  have hcached : Ends (((planSteps arms).take attempt.lives).foldlM
      (replayRoundIn kit raiseReplay attempt.run) (startOutcome subjects arms repeats)) disk
      (fun outcome t => outcome = reached ∧ disk = t) fun _ => False :=
    cached_rounds htaken (hcovered.mono (replayRounds_le hrest))
  obtain ⟨outcome', t, hok, rfl, rfl⟩ := hcached.exists_ok
  change (sweep kit subjects arms repeats attempt).run disk = _ at hok
  refine ⟨by rw [afterAttempt, hok], fun hlives => ?_⟩
  rw [List.drop_eq_nil_of_le hlives] at hrest
  cases hrest
  exact hok

theorem afterAttempts_complete (later : List Attempt)
    (h : Complete kit subjects arms repeats disk.rounds outcome) :
    later.foldl (afterAttempt kit subjects arms repeats) disk = disk := by
  induction later with
  | nil => rfl
  | cons attempt later ih =>
    rw [List.foldl_cons, (afterAttempt_complete h).1]
    exact ih

/-- A paid attempt that ends has the whole sweep on disk. -/
theorem finishes_complete (hattempt : attempt ∈ attempts) (hpaid : attempt.dryRun = false)
    (hsound : Sound kit subjects arms repeats attempts disk)
    (h : Finishes kit subjects arms repeats disk attempt outcome) :
    Complete kit subjects arms repeats (afterAttempt kit subjects arms repeats disk attempt).rounds
      outcome := by
  obtain ⟨hlives, disk', hok⟩ := h
  obtain ⟨hreplayed, hcovered, -, -⟩ := (passed_sweep hattempt hpaid hsound).of_ok hok
  rw [List.take_of_length_le hlives] at hreplayed
  rw [afterAttempt, hok]
  exact ⟨hreplayed, hcovered⟩

/-- However often a sweep is interrupted and started again: every submission of a round asks for the
same, what is on disk was answered to it, no attempt changes or submits again a round that is on
disk, and once an attempt has ended with an outcome it is the replay of the rounds on disk, every
later attempt that takes all rounds ends with it too, and nothing is sent any more. -/
theorem sweep_resumed (kit : DebateKit) (subjects : List ReplaySubject) (arms : List Arm)
    (repeats : Int) (attempts : List Attempt) (attempt : Attempt) :
    let disk := afterAttempts kit subjects arms repeats attempts
    let disk' := afterAttempts kit subjects arms repeats (attempts ++ [attempt])
    (∀ number requests requests', (number, requests) ∈ disk.sent →
      (number, requests') ∈ disk.sent → requests = requests') ∧
    (∀ number results, disk.rounds.get? number = some results → ∃ a ∈ attempts, ∃ requests,
      (number, requests) ∈ disk.sent ∧ submit a.api number requests = some results) ∧
    Kept disk disk' ∧
    (∀ outcome, attempt.dryRun = false → Finishes kit subjects arms repeats disk attempt outcome →
      replayDebates kit subjects arms repeats (recorded disk'.rounds) = .ok outcome ∧
      ∀ later : List Attempt,
        afterAttempts kit subjects arms repeats (attempts ++ attempt :: later) = disk' ∧
        ∀ next : Attempt, (planSteps arms).length ≤ next.lives →
          Finishes kit subjects arms repeats disk' next outcome) := by
  intro disk disk'
  have hsound : Sound kit subjects arms repeats attempts disk := afterAttempts_sound attempts
  have hlast : disk' = afterAttempt kit subjects arms repeats disk attempt := by
    show afterAttempts kit subjects arms repeats (attempts ++ [attempt]) = _
    rw [afterAttempts, List.foldl_append]
    rfl
  have hmember : attempt ∈ attempts ++ [attempt] := by simp
  refine ⟨fun number requests requests' hsent hsent' =>
    (hsound.planned _ hsent).unique (hsound.planned _ hsent'), hsound.answered, ?_, ?_⟩
  · rw [hlast]
    exact (afterAttempt_sound hmember hsound.more).2
  · intro outcome hpaid hfinishes
    have hcomplete := finishes_complete hmember hpaid hsound.more hfinishes
    rw [← hlast] at hcomplete
    refine ⟨hcomplete.1, fun later => ⟨?_, fun next hlives => ?_⟩⟩
    · have hthen : afterAttempts kit subjects arms repeats (attempts ++ attempt :: later) =
          later.foldl (afterAttempt kit subjects arms repeats) disk' := by
        rw [hlast, afterAttempts, List.foldl_append]
        rfl
      rw [hthen]
      exact afterAttempts_complete later hcomplete
    · exact ⟨hlives, disk', (afterAttempt_complete hcomplete).2 hlives⟩

end

end TradingAgents.Deliberation
