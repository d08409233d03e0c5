import Mathlib.Data.List.Nodup
import TradingAgents.Master.CredentialCheck
import TradingAgents.ProofKit.Fallible

/-! The expansion of the LLM probes of the role types.  Each probe of a vendor becomes one probe for
each candidate of that vendor, for each role type that names it. -/

namespace TradingAgents.Master

open ProofKit

/-- A declared test with the vendor that it probes and the probe itself. -/
structure DeclaredTest extends CredentialTest where
  llmProvider : String
  takesCandidate : Bool
  run : Config → CheckResult

/-- The ordered candidates and the agent types that choose among them. -/
structure LlmPlan where
  candidates : List LlmCandidate
  roles : Dict String LlmRole

abbrev SecretMap := Dict String (List (String × String))

/-- The candidates of the declared provider first, each group in declared order. -/
def LlmPlan.ordered (plan : LlmPlan) (provider : String) : List LlmCandidate :=
  (plan.candidates.filter fun c => decide (c.vendor = provider)) ++
    plan.candidates.filter fun c => decide (c.vendor ≠ provider)

/-- The configuration that the probe of a candidate runs against. -/
def withCandidate (config : Config) (candidate : LlmCandidate) : Config :=
  (config.set "llm:model" candidate.model).set "llm:effort" candidate.effort

/-- A probe bound to one candidate of one role type. -/
def DeclaredTest.forCandidate (agentType : String) (role : LlmRole) (candidate : LlmCandidate)
    (test : DeclaredTest) : DeclaredTest :=
  { test with
    name := test.name ++ ":" ++ candidate.model ++ ":" ++ candidate.effort
    run := fun config => test.run (withCandidate config candidate)
    agentTypes := [agentType]
    choice := some (candidate, role) }

/-- Refuse a role that could not run on a candidate. -/
def refuseUnrunnable (agentType : String) (candidate : LlmCandidate) (probes : List DeclaredTest)
    (granted : List String) : Except String Unit :=
  let place := agentType ++ " candidate " ++ candidate.label
  if probes = [] then .error (place ++ " has no " ++ candidate.vendor ++ " probe")
  else if probes.all DeclaredTest.takesCandidate = false then
    .error (place ++ " has a probe without candidate_paths")
  else
    match keyEnv.lookup candidate.vendor with
    | none => .error candidate.vendor
    | some key =>
      if key ∈ granted then .ok () else .error (place ++ " is not granted " ++ key)

/-- The probes of a candidate's vendor that name an agent type. -/
def vendorProbes (tests : List DeclaredTest) (agentType : String) (candidate : LlmCandidate) :
    List DeclaredTest :=
  tests.filter fun test =>
    decide (test.llmProvider = candidate.vendor ∧ agentType ∈ test.agentTypes)

/-- The probes of one candidate for one role type. -/
def expandCandidate (tests : List DeclaredTest) (granted : List String)
    (entry : String × LlmRole) (expanded : List DeclaredTest) (candidate : LlmCandidate) :
    Except String (List DeclaredTest) := do
  let probes := vendorProbes tests entry.1 candidate
  refuseUnrunnable entry.1 candidate probes granted
  pure (expanded ++ probes.map (DeclaredTest.forCandidate entry.1 entry.2 candidate))

/-- The environment names of an agent type's secrets. -/
def grantedTo (secretMap : Option SecretMap) (agentType : String) : List String :=
  (((secretMap.getD .empty).get? agentType).getD []).map Prod.snd

def expandRole (plan : LlmPlan) (provider : String) (tests : List DeclaredTest)
    (secretMap : Option SecretMap) (expanded : List DeclaredTest) (entry : String × LlmRole) :
    Except String (List DeclaredTest) :=
  (plan.ordered provider).foldlM (expandCandidate tests (grantedTo secretMap entry.1) entry)
    expanded

/-- The tests that stay as they are: those of no vendor, and those that name no role type. -/
def keptTests (plan : LlmPlan) (tests : List DeclaredTest) : List DeclaredTest :=
  tests.filter fun test =>
    decide (test.llmProvider = "" ∨ ∀ agentType ∈ test.agentTypes, agentType ∉ plan.roles.keys)

/-- Replace each role type's LLM probes with its candidates' probes, in order. -/
def expandLlmCandidates (plan : Option LlmPlan) (provider : String) (tests : List DeclaredTest)
    (secretMap : Option SecretMap) : Except String (List DeclaredTest) :=
  match plan with
  | none => .ok tests
  | some plan => do
    let expanded ← plan.roles.entries.foldlM (expandRole plan provider tests secretMap) []
    pure (keptTests plan tests ++ expanded)

/-! ### What an expansion is for -/

/-- A test that names no agent type applies to all. -/
def DeclaredTest.appliesTo (agentType : String) (test : DeclaredTest) : Bool :=
  decide (test.agentTypes = [] ∨ agentType ∈ test.agentTypes)

/-- The LLM probes that apply to an agent type. -/
def llmProbes (agentType : String) (tests : List DeclaredTest) : List DeclaredTest :=
  tests.filter fun test => test.appliesTo agentType && decide (test.llmProvider ≠ "")

/-- One probe for each ordered candidate and each probe of its vendor that applies. -/
def candidateProbes (plan : LlmPlan) (provider : String) (tests : List DeclaredTest)
    (agentType : String) (role : LlmRole) : List DeclaredTest :=
  (plan.ordered provider).flatMap fun candidate =>
    (tests.filter fun test => test.appliesTo agentType &&
      decide (test.llmProvider = candidate.vendor)).map
        (DeclaredTest.forCandidate agentType role candidate)

/-- A role type has the probes of its candidates for its LLM probes; every other agent type has the
tests that it had. -/
structure Expansion (plan : LlmPlan) (provider : String) (tests tests' : List DeclaredTest) :
    Prop where
  roles : ∀ agentType role, plan.roles.get? agentType = some role →
    (llmProbes agentType tests').Perm (candidateProbes plan provider tests agentType role)
  others : ∀ agentType, plan.roles.get? agentType = none →
    (tests'.filter (DeclaredTest.appliesTo agentType)).Perm
      (tests.filter (DeclaredTest.appliesTo agentType))

/-- Every LLM probe names its agent types, if there are roles, and they are all roles or none is. -/
def Unshared (plan : LlmPlan) (tests : List DeclaredTest) : Prop :=
  ∀ test ∈ tests, test.llmProvider ≠ "" → (test.agentTypes = [] → plan.roles.keys = []) ∧
    ∀ role ∈ test.agentTypes, role ∈ plan.roles.keys →
      ∀ other ∈ test.agentTypes, other ∈ plan.roles.keys

section

variable {plan : LlmPlan} {provider : String} {tests tests' expanded : List DeclaredTest}
  {secretMap : Option SecretMap} {agentType : String} {role : LlmRole} {candidate : LlmCandidate}
  {granted : List String} {entry : String × LlmRole} {test : DeclaredTest}

theorem refuseUnrunnable_ok {probes : List DeclaredTest}
    (h : refuseUnrunnable agentType candidate probes granted = .ok ()) :
    ∃ key, keyEnv.lookup candidate.vendor = some key := by
  unfold refuseUnrunnable at h
  dsimp only at h
  split at h
  · cases h
  · split at h
    · cases h
    · split at h
      · cases h
      · rename_i key hkey
        exact ⟨key, hkey⟩

theorem vendor_ne_empty {key : String} (h : keyEnv.lookup candidate.vendor = some key) :
    candidate.vendor ≠ "" := by
  intro hempty
  rw [hempty] at h
  cases h

/-- The probes that one role type is given. -/
def roleProbes (plan : LlmPlan) (provider : String) (tests : List DeclaredTest)
    (entry : String × LlmRole) : List DeclaredTest :=
  (plan.ordered provider).flatMap fun candidate =>
    (vendorProbes tests entry.1 candidate).map
      (DeclaredTest.forCandidate entry.1 entry.2 candidate)

theorem expandRole_ok (h : expandRole plan provider tests secretMap expanded entry = .ok tests') :
    tests' = expanded ++ roleProbes plan provider tests entry ∧
      ∀ candidate ∈ plan.ordered provider, candidate.vendor ≠ "" := by
  refine Fallible.foldlM_induction h (P := fun done tests' => tests' = expanded ++
    (done.flatMap fun candidate => (vendorProbes tests entry.1 candidate).map
      (DeclaredTest.forCandidate entry.1 entry.2 candidate)) ∧
    ∀ candidate ∈ done, candidate.vendor ≠ "") ⟨(List.append_nil _).symm, by simp⟩ ?_
  rintro done candidate rest t t' - ⟨rfl, hdone⟩ hpass
  obtain ⟨⟨⟩, hrefuse, hpass⟩ := Fallible.bind_eq_ok.mp hpass
  cases hpass
  obtain ⟨key, hkey⟩ := refuseUnrunnable_ok hrefuse
  refine ⟨?_, fun c hc => ?_⟩
  · rw [List.flatMap_append, List.flatMap_singleton, List.append_assoc]
  · rcases List.mem_append.mp hc with hin | hlast
    · exact hdone c hin
    · rw [List.mem_singleton.mp hlast]
      exact vendor_ne_empty hkey

/-- An expansion that is not refused keeps the other tests and adds the probes of each role type. -/
theorem expandLlmCandidates_ok
    (h : expandLlmCandidates (some plan) provider tests secretMap = .ok tests') :
    tests' = keptTests plan tests ++ plan.roles.entries.flatMap (roleProbes plan provider tests) ∧
      (plan.roles.keys ≠ [] → ∀ candidate ∈ plan.ordered provider, candidate.vendor ≠ "") := by
  obtain ⟨expanded, hloop, hresult⟩ := Fallible.bind_eq_ok.mp h
  cases hresult
  have hexpanded := Fallible.foldlM_induction hloop (P := fun done expanded =>
    expanded = done.flatMap (roleProbes plan provider tests) ∧
    (done ≠ [] → ∀ candidate ∈ plan.ordered provider, candidate.vendor ≠ "")) ⟨rfl, by simp⟩ ?_
  · refine ⟨by rw [hexpanded.1], fun hkeys => hexpanded.2 fun hnil => hkeys ?_⟩
    unfold Dict.keys
    rw [hnil]
    rfl
  · rintro done entry rest t t' - ⟨rfl, -⟩ hpass
    obtain ⟨rfl, hvendors⟩ := expandRole_ok hpass
    exact ⟨by rw [List.flatMap_append, List.flatMap_singleton], fun _ => hvendors⟩

/-! ### To whom the new probes apply -/

theorem agentTypes_roleProbes (h : test ∈ roleProbes plan provider tests entry) :
    test.agentTypes = [entry.1] := by
  obtain ⟨candidate, -, htest⟩ := List.mem_flatMap.mp h
  obtain ⟨probe, -, rfl⟩ := List.mem_map.mp htest
  rfl

theorem agentTypes_candidateProbes
    (h : test ∈ candidateProbes plan provider tests agentType role) :
    test.agentTypes = [agentType] := by
  obtain ⟨candidate, -, htest⟩ := List.mem_flatMap.mp h
  obtain ⟨probe, -, rfl⟩ := List.mem_map.mp htest
  rfl

theorem roleProbes_appliesTo (h : test ∈ roleProbes plan provider tests entry) :
    test.appliesTo agentType = true ↔ agentType = entry.1 := by
  unfold DeclaredTest.appliesTo
  rw [decide_eq_true_iff, agentTypes_roleProbes h]
  simp

theorem roleProbes_llmProvider
    (hvendors : ∀ candidate ∈ plan.ordered provider, candidate.vendor ≠ "")
    (h : test ∈ roleProbes plan provider tests entry) : test.llmProvider ≠ "" := by
  obtain ⟨candidate, hcandidate, htest⟩ := List.mem_flatMap.mp h
  obtain ⟨probe, hprobe, rfl⟩ := List.mem_map.mp htest
  change probe.llmProvider ≠ ""
  have hvendor := (of_decide_eq_true (List.mem_filter.mp hprobe).2).1
  rw [hvendor]
  exact hvendors candidate hcandidate

/-- The new LLM probes of a role type are those that it was given. -/
theorem llmProbes_expanded (hrole : plan.roles.get? agentType = some role)
    (hvendors : ∀ candidate ∈ plan.ordered provider, candidate.vendor ≠ "") :
    llmProbes agentType (plan.roles.entries.flatMap (roleProbes plan provider tests)) =
      roleProbes plan provider tests (agentType, role) := by
  unfold llmProbes
  rw [List.filter_flatMap, Dict.flatMap_entries hrole fun p _ hne => ?_]
  · refine List.filter_eq_self.mpr fun test htest => ?_
    rw [Bool.and_eq_true, roleProbes_appliesTo htest, decide_eq_true_iff]
    exact ⟨rfl, roleProbes_llmProvider hvendors htest⟩
  · refine List.filter_eq_nil_iff.mpr fun test htest => ?_
    rw [Bool.and_eq_true, roleProbes_appliesTo htest]
    exact fun h => hne h.1.symm

theorem filter_expanded_of_not_role (hrole : plan.roles.get? agentType = none) :
    (plan.roles.entries.flatMap (roleProbes plan provider tests)).filter
      (DeclaredTest.appliesTo agentType) = [] := by
  refine List.filter_eq_nil_iff.mpr fun test htest happlies => ?_
  obtain ⟨p, hp, htest⟩ := List.mem_flatMap.mp htest
  rw [roleProbes_appliesTo htest] at happlies
  exact Dict.notMem_keys_iff.mpr hrole (happlies ▸ List.mem_map_of_mem hp)

/-! ### Where the expansion is exact -/

theorem mem_keptTests : test ∈ keptTests plan tests ↔ test ∈ tests ∧
    (test.llmProvider = "" ∨ ∀ agentType ∈ test.agentTypes, agentType ∉ plan.roles.keys) := by
  unfold keptTests
  rw [List.mem_filter, decide_eq_true_iff]

theorem mem_llmProbes : test ∈ llmProbes agentType tests ↔ test ∈ tests ∧
    (test.agentTypes = [] ∨ agentType ∈ test.agentTypes) ∧ test.llmProvider ≠ "" := by
  unfold llmProbes DeclaredTest.appliesTo
  rw [List.mem_filter, Bool.and_eq_true, decide_eq_true_iff, decide_eq_true_iff]

theorem mem_keys_of_get? (hrole : plan.roles.get? agentType = some role) :
    agentType ∈ plan.roles.keys :=
  Dict.mem_keys_iff.mpr (by rw [hrole]; rfl)

/-- No old LLM probe is left to a role type. -/
theorem Unshared.llmProbes_kept (h : Unshared plan tests)
    (hrole : plan.roles.get? agentType = some role) :
    llmProbes agentType (keptTests plan tests) = [] := by
  refine List.eq_nil_iff_forall_not_mem.mpr fun test htest => ?_
  obtain ⟨hkept, happlies, hllm⟩ := mem_llmProbes.mp htest
  obtain ⟨hin, hplain | hapart⟩ := mem_keptTests.mp hkept
  · exact hllm hplain
  · have hkey := mem_keys_of_get? hrole
    rcases happlies with hall | hnamed
    · rw [(h test hin hllm).1 hall] at hkey
      exact List.not_mem_nil hkey
    · exact hapart agentType hnamed hkey

theorem Unshared.roleProbes_eq (h : Unshared plan tests)
    (hrole : plan.roles.get? agentType = some role)
    (hvendors : ∀ candidate ∈ plan.ordered provider, candidate.vendor ≠ "") :
    roleProbes plan provider tests (agentType, role) =
      candidateProbes plan provider tests agentType role := by
  unfold roleProbes candidateProbes
  refine List.flatMap_congr fun candidate hcandidate => congrArg _ (List.filter_congr ?_)
  intro test htest
  unfold DeclaredTest.appliesTo
  rw [Bool.eq_iff_iff, Bool.and_eq_true, decide_eq_true_iff, decide_eq_true_iff,
    decide_eq_true_iff]
  refine ⟨fun ⟨hvendor, hnamed⟩ => ⟨.inr hnamed, hvendor⟩, fun ⟨happlies, hvendor⟩ =>
    ⟨hvendor, happlies.resolve_left fun hall => ?_⟩⟩
  have hnone := (h test htest (hvendor ▸ hvendors candidate hcandidate)).1 hall
  have hkey := mem_keys_of_get? hrole
  rw [hnone] at hkey
  exact List.not_mem_nil hkey

/-- Another agent type keeps every test. -/
theorem Unshared.filter_kept (h : Unshared plan tests)
    (hrole : plan.roles.get? agentType = none) :
    (keptTests plan tests).filter (DeclaredTest.appliesTo agentType) =
      tests.filter (DeclaredTest.appliesTo agentType) := by
  unfold keptTests
  rw [List.filter_filter]
  refine List.filter_congr fun test htest => ?_
  rw [Bool.and_eq_left_iff_imp]
  intro happlies
  refine decide_eq_true (or_iff_not_imp_left.mpr fun hllm named hnamed hkey => ?_)
  rcases of_decide_eq_true happlies with hall | hmem
  · rw [hall] at hnamed
    exact List.not_mem_nil hnamed
  · exact Dict.notMem_keys_iff.mpr hrole ((h test htest hllm).2 named hnamed hkey agentType hmem)

/-- An expansion that is not refused is exact if and only if no LLM probe is shared between a role
type and another, or by all agent types. -/
theorem expand_llm_candidates_iff
    (h : expandLlmCandidates (some plan) provider tests secretMap = .ok tests') :
    Expansion plan provider tests tests' ↔ Unshared plan tests := by
  obtain ⟨rfl, hvendors⟩ := expandLlmCandidates_ok h
  constructor
  · intro hexp test htest hllm
    constructor
    · intro hall
      by_contra hkeys
      obtain ⟨agentType, hkey⟩ := List.exists_mem_of_ne_nil _ hkeys
      obtain ⟨role, hrole⟩ := Option.isSome_iff_exists.mp (Dict.mem_keys_iff.mp hkey)
      have hkept : test ∈ keptTests plan tests :=
        mem_keptTests.mpr ⟨htest, .inr fun _ hnamed => absurd (hall ▸ hnamed) List.not_mem_nil⟩
      have hstays := (hexp.roles agentType role hrole).subset
        (mem_llmProbes.mpr ⟨List.mem_append_left _ hkept, .inl hall, hllm⟩)
      rw [agentTypes_candidateProbes hstays] at hall
      cases hall
    · intro role hrole hkey other hother
      by_contra hnone
      have hstays := (hexp.others other (Dict.notMem_keys_iff.mp hnone)).symm.subset
        (List.mem_filter.mpr ⟨htest, decide_eq_true (.inr hother)⟩)
      rcases List.mem_append.mp (List.mem_of_mem_filter hstays) with hkept | hnew
      · rcases (mem_keptTests.mp hkept).2 with hplain | hapart
        · exact hllm hplain
        · exact hapart role hrole hkey
      · obtain ⟨p, hp, hprobe⟩ := List.mem_flatMap.mp hnew
        rw [agentTypes_roleProbes hprobe, List.mem_singleton] at hother
        exact hnone (hother ▸ List.mem_map_of_mem hp)
  · intro hun
    refine ⟨fun agentType role hrole => ?_, fun agentType hrole => ?_⟩
    · have hvendors := hvendors (List.ne_nil_of_mem (mem_keys_of_get? hrole))
      unfold llmProbes
      rw [List.filter_append]
      change (llmProbes agentType _ ++ llmProbes agentType _).Perm _
      rw [hun.llmProbes_kept hrole, llmProbes_expanded hrole hvendors,
        hun.roleProbes_eq hrole hvendors, List.nil_append]
    · rw [List.filter_append, filter_expanded_of_not_role hrole, List.append_nil,
        hun.filter_kept hrole]

end

/-! ### A plan of one candidate -/

def soloPlan : LlmPlan :=
  ⟨[⟨"openai", "gpt", "high"⟩],
    .ofList [("deliberator", ⟨"LLM_PROVIDER", "LLM_MODEL", "LLM_EFFORT", "LLM_FALLBACKS"⟩)]⟩

def soloSecrets : SecretMap := .ofList [("deliberator", [("openai-key", "OPENAI_API_KEY")])]

/-- An OpenAI probe of some agent types. -/
def soloProbe (agentTypes : List String) : DeclaredTest where
  name := "openai"
  required := true
  cost := .cheap
  agentTypes := agentTypes
  choice := none
  llmProvider := "openai"
  takesCandidate := true
  run := fun _ => ⟨.passed, ""⟩

/-- Two role types that choose among two vendors. -/
def duoPlan : LlmPlan :=
  ⟨[⟨"openai", "gpt-5.5", "high"⟩, ⟨"anthropic", "claude-opus-5", "medium"⟩],
    .ofList [("deliberator", ⟨"LLM_PROVIDER", "LLM_MODEL", "LLM_EFFORT", "LLM_FALLBACKS"⟩),
      ("deliberator-opponent",
        ⟨"OPPONENT_PROVIDER", "OPPONENT_MODEL", "OPPONENT_EFFORT", "OPPONENT_FALLBACKS"⟩)]⟩

def duoSecrets : SecretMap :=
  let keys := [("openai-key", "OPENAI_API_KEY"), ("anthropic-key", "ANTHROPIC_API_KEY")]
  .ofList [("deliberator", keys), ("deliberator-opponent", keys)]

/-- A probe of each vendor for both role types, one for the operator, and a test of the database. -/
def duoTests : List DeclaredTest :=
  let roles := ["deliberator", "deliberator-opponent"]
  [soloProbe roles, { soloProbe roles with name := "anthropic", llmProvider := "anthropic" },
    soloProbe ["operator"],
    { soloProbe [] with name := "database", llmProvider := "", takesCandidate := false }]

theorem expand_llm_candidates_iff_duo : ∃ tests',
    expandLlmCandidates (some duoPlan) "anthropic" duoTests (some duoSecrets) = .ok tests' ∧
      tests'.length = 6 ∧ Expansion duoPlan "anthropic" duoTests tests' := by
  have hrun : Fallible.check (fun tests' => decide (tests'.length = 6)) (expandLlmCandidates
      (some duoPlan) "anthropic" duoTests (some duoSecrets)) = true := by
    decide +kernel
  have hunshared : Unshared duoPlan duoTests := by
    unfold Unshared
    decide +kernel
  obtain ⟨tests', htests, hlength⟩ := Fallible.check_eq_true.mp hrun
  exact ⟨tests', htests, of_decide_eq_true hlength,
    (expand_llm_candidates_iff htests).mpr hunshared⟩

/-- A probe shared between a role type and the operator is dropped for the operator too. -/
theorem shared_probe_lost :
    ¬ ∀ (plan : LlmPlan) (provider : String) (tests tests' : List DeclaredTest)
      (secretMap : Option SecretMap),
      expandLlmCandidates (some plan) provider tests secretMap = .ok tests' →
        Expansion plan provider tests tests' := by
  intro h
  have hrun : Fallible.check
      (fun tests' => (tests'.filter (DeclaredTest.appliesTo "operator")).isEmpty)
      (expandLlmCandidates (some soloPlan) "openai" [soloProbe ["deliberator", "operator"]]
        (some soloSecrets)) = true := by
    decide +kernel
  obtain ⟨tests', htests, hlost⟩ := Fallible.check_eq_true.mp hrun
  have hlength := ((h _ _ _ _ _ htests).others "operator" (by decide)).length_eq
  rw [List.isEmpty_iff.mp hlost] at hlength
  revert hlength
  decide

end TradingAgents.Master
