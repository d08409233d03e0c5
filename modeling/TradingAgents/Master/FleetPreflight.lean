import TradingAgents.Master.CredentialRuns
import TradingAgents.Orchestration.ScheduledDispatch

/-! The fleet preflight: the master tests every agent type that it may activate and records what
failed, one line of text a failure.  The dispatcher reads the lines back. -/

namespace TradingAgents.Master

open Kernel ProofKit
open Orchestration (fleetPreflightLabel splitColons isDegradableFailure allFailuresDegradable
  ReadinessState)

/-- One failed credential check of an agent type. -/
structure PreflightFailure where
  probe : String
  agentType : String
  klass : String
  reason : String
deriving DecidableEq, Repr

/-- The line of a failure. -/
def PreflightFailure.line (failure : PreflightFailure) : String :=
  failure.klass ++ ":" ++ failure.agentType ++ ":" ++ failure.probe ++ ":" ++ failure.reason

/-- The failures of a report so far, and the names that they stand under. -/
structure Noted where
  failures : List PreflightFailure := []
  seen : List String := []

/-- Note a failure of a name that has none yet. -/
def Noted.note (agentType : String) (klass : String → String) (noted : Noted)
    (failure : String × String) : Noted :=
  if failure.1 ∈ noted.seen then noted
  else ⟨noted.failures ++ [⟨failure.1, agentType, klass failure.2, failure.2⟩],
    noted.seen ++ [failure.1]⟩

def credentialClass (reason : String) : String :=
  if "unrecoverable:".toList.isPrefixOf reason.toList then "unrecoverable" else "unexpected"

/-- The failures of one agent type, one a name, those of a credential first. -/
def reportFailures (agentType : String) (outcomes : Outcomes) : List PreflightFailure :=
  let noted := outcomes.credentialFailures.foldl (Noted.note agentType credentialClass) {}
  (outcomes.transportFailures.foldl (Noted.note agentType fun _ => "transient") noted).failures

/-- What a preflight gathers. -/
structure Preflight where
  failures : List PreflightFailure := []
  passedOver : List String := []
deriving DecidableEq

section

variable (m : MasterSetup) (errorName : CheckError → String) (w : String → Surroundings)
  (turn : Nat)

/-- One agent type of a preflight; what raises fails that type alone. -/
def preflightAgent (found : Preflight × PassCache) (agentType : String) : Preflight × PassCache :=
  match (resolveAndTestReport m (w agentType) turn agentType).run found.2 with
  | .ok (_, report) cache =>
    (⟨found.1.failures ++ reportFailures agentType report.outcomes,
      found.1.passedOver ++ report.llmPassedOver.map fun line => agentType ++ ": " ++ line⟩, cache)
  | .error e cache =>
    ({ found.1 with failures := found.1.failures ++
        [⟨"secrets", agentType, "transient", errorName e⟩] }, cache)

/-- `sorted(grant_policy)`. -/
def agentTypesChecked : List String := m.grantTypes.insertionSort (· ≤ ·)

def preflightFleet (cache : PassCache) : Preflight × PassCache :=
  (agentTypesChecked m).foldl (preflightAgent m errorName w turn) ({}, cache)

end

/-- The properties of a preflight's node. -/
def preflightProps (m : MasterSetup) (now : Moment) (found : Preflight) : Props Document := .ofList [
  ("checked_at", .str now.isoformat),
  ("passed", .bool found.failures.isEmpty),
  ("failure_count", .int found.failures.length),
  ("failures", .list (found.failures.map fun failure => .str failure.line)),
  ("agent_types_checked", .list ((agentTypesChecked m).map .str)),
  ("llm_passed_over", .list (found.passedOver.map .str))]

def preflightKey (now : Moment) : String := "preflight:" ++ now.isoformat

/-- The fault of a preflight that found failures. -/
def preflightMessage (failures : List PreflightFailure) : String :=
  "fleet preflight failure_count=" ++ toString failures.length ++ " classes=" ++
    ",".intercalate ((failures.map PreflightFailure.klass).dedup.insertionSort (· ≤ ·))

/-! ### The failures of a report -/

theorem Noted.note_mem {agentType : String} {klass : String → String} {noted : Noted}
    {failure : String × String} (f : PreflightFailure)
    (h : f ∈ (noted.note agentType klass failure).failures) :
    f ∈ noted.failures ∨ f = ⟨failure.1, agentType, klass failure.2, failure.2⟩ := by
  unfold Noted.note at h
  split at h
  · exact .inl h
  · rcases List.mem_append.mp h with hin | hlast
    · exact .inl hin
    · exact .inr (List.mem_singleton.mp hlast)

theorem foldl_note_mem {agentType : String} {klass : String → String}
    {found : List (String × String)} {noted : Noted} {f : PreflightFailure}
    (h : f ∈ (found.foldl (Noted.note agentType klass) noted).failures) :
    f ∈ noted.failures ∨ ∃ failure ∈ found,
      f = ⟨failure.1, agentType, klass failure.2, failure.2⟩ := by
  induction found generalizing noted with
  | nil => exact .inl h
  | cons failure found ih =>
    rcases ih h with hin | ⟨later, hlater, rfl⟩
    · rcases Noted.note_mem f hin with hbefore | rfl
      · exact .inl hbefore
      · exact .inr ⟨failure, List.mem_cons_self, rfl⟩
    · exact .inr ⟨later, List.mem_cons_of_mem _ hlater, rfl⟩

/-! ### The line of a failure -/

/-- A name that starts with something other than a colon; it may hold one further on, as that of a
candidate's probe does. -/
def Leads (name : String) : Prop := ∃ c rest, name.toList = c :: rest ∧ c ≠ ':'

/-- A failure as its line can be read: its class is one of the three, its agent type holds no colon,
and its probe does not start with one. -/
structure PreflightFailure.Legible (failure : PreflightFailure) : Prop where
  klass : failure.klass ∈ ["unrecoverable", "unexpected", "transient"]
  agentType : ¬ Text.Holds ':' failure.agentType
  probe : Leads failure.probe

theorem splitColons_cons {k : Nat} {x rest : List Char} (h : ':' ∉ x) :
    splitColons (k + 1) (x ++ ':' :: rest) = x :: splitColons k rest := by
  have hall : ∀ c ∈ x, decide (c ≠ ':') = true := fun c hc => by
    rw [decide_eq_true_iff]
    rintro rfl
    exact h hc
  have hdrop : (x ++ ':' :: rest).dropWhile (· ≠ ':') = ':' :: rest := by
    rw [List.dropWhile_append_of_pos hall]
    simp
  have htake : (x ++ ':' :: rest).takeWhile (· ≠ ':') = x := by
    rw [List.takeWhile_append_of_pos hall]
    simp
  rw [splitColons, hdrop, htake]

/-- The line of a failure gives its class and its agent type back, and then what stands up to the
first colon of its probe and reason. -/
theorem splitColons_line {failure : PreflightFailure} (h : failure.Legible)
    {probe reason : List Char} (hprobe : ':' ∉ probe)
    (hrest : failure.probe.toList ++ ':' :: failure.reason.toList = probe ++ ':' :: reason) :
    splitColons 3 failure.line.toList =
      [failure.klass.toList, failure.agentType.toList, probe, reason] := by
  have hclass : ':' ∉ failure.klass.toList := by
    obtain ⟨hklass, -, -, -⟩ := h
    simp only [List.mem_cons, List.not_mem_nil, or_false] at hklass
    rcases hklass with hk | hk | hk <;> rw [hk] <;> decide
  have hline : failure.line.toList = failure.klass.toList ++ ':' :: (failure.agentType.toList ++
      ':' :: (failure.probe.toList ++ ':' :: failure.reason.toList)) := by
    have hcolon : (":" : String).toList = [':'] := rfl
    simp only [PreflightFailure.line, String.toList_append, hcolon, List.append_assoc,
      List.cons_append, List.nil_append]
  rw [hline, splitColons_cons hclass, splitColons_cons h.agentType, hrest, splitColons_cons hprobe]
  rfl

/-- Whether the line of a failure shows a reason: one is given, or the name of its probe goes on
after a colon. -/
def PreflightFailure.ShowsReason (failure : PreflightFailure) : Prop :=
  failure.reason ≠ "" ∨ Text.Holds ':' failure.probe

instance (failure : PreflightFailure) : Decidable failure.ShowsReason :=
  inferInstanceAs (Decidable (_ ∨ _))

/-- A failure is one that a degraded fleet can do without when its agent type is and its line shows a
reason. -/
theorem isDegradableFailure_line {failure : PreflightFailure} (h : failure.Legible)
    (agents : List String) : isDegradableFailure failure.line agents =
      (decide (failure.agentType ∈ agents) && decide failure.ShowsReason) := by
  obtain ⟨c, rest, hname, hc⟩ := h.probe
  have hread : ∀ probe reason : List Char, ':' ∉ probe → probe ≠ [] →
      failure.probe.toList ++ ':' :: failure.reason.toList = probe ++ ':' :: reason →
      isDegradableFailure failure.line agents =
        (decide (failure.agentType ∈ agents) && !reason.isEmpty) := by
    intro probe reason hcolon hsome hrest
    unfold isDegradableFailure
    rw [splitColons_line h hcolon hrest]
    dsimp only
    rw [String.ofList_toList, String.ofList_toList, decide_eq_true h.klass,
      List.isEmpty_eq_false_iff.mpr hsome]
    simp
  by_cases hholds : Text.Holds ':' failure.probe
  · -- what follows the first colon of the name is read as a reason
    obtain ⟨first, last, hsplit, hfirst⟩ := List.eq_append_cons_of_mem hholds
    have hsome : first ≠ [] := by
      rintro rfl
      rw [hname, List.nil_append, List.cons.injEq] at hsplit
      exact hc hsplit.1
    have hshows : failure.ShowsReason := .inr hholds
    rw [hread first (last ++ ':' :: failure.reason.toList) hfirst hsome (by rw [hsplit]; simp),
      decide_eq_true hshows]
    simp
  · have hreason : (!failure.reason.toList.isEmpty) = decide failure.ShowsReason := by
      rw [Bool.eq_iff_iff, Bool.not_eq_true', List.isEmpty_eq_false_iff, Ne,
        String.toList_eq_nil_iff, decide_eq_true_iff]
      exact (or_iff_left hholds).symm
    rw [hread failure.probe.toList failure.reason.toList hholds (by rw [hname]; simp) rfl, hreason]

/-- The state of a fleet by its failures: no failure at all, or only such as it can do without. -/
def classify (failures : List PreflightFailure) (agents : List String) : ReadinessState :=
  if failures = [] then .ready
  else if agents ≠ [] ∧ ∀ f ∈ failures, f.agentType ∈ agents ∧ f.ShowsReason then .degraded
  else .failing

/-- The reading of the lines is the state of the failures. -/
theorem allFailuresDegradable_lines {failures : List PreflightFailure}
    (h : ∀ f ∈ failures, f.Legible) (hsome : failures ≠ []) (agents : List String) :
    (if allFailuresDegradable (failures.map PreflightFailure.line) agents then
      ReadinessState.degraded else .failing) = classify failures agents := by
  have hall : (failures.map PreflightFailure.line).all
      (fun item => isDegradableFailure item agents) =
        decide (∀ f ∈ failures, f.agentType ∈ agents ∧ f.ShowsReason) := by
    rw [List.all_map, Bool.eq_iff_iff, List.all_eq_true, decide_eq_true_iff]
    refine forall₂_congr fun f hf => ?_
    rw [Function.comp_apply, isDegradableFailure_line (h f hf), Bool.and_eq_true,
      decide_eq_true_iff, decide_eq_true_iff]
  unfold allFailuresDegradable classify
  rw [hall, if_neg hsome]
  congr 1
  simp [hsome]

end TradingAgents.Master
