import TradingAgents.ProofKit.Dict
import TradingAgents.ProofKit.Effects

/-! The credential check of an activation.  Every applicable test runs against the config that the
secret map resolves for the agent type, or is stood in for by a fresh pass of a test of its name;
an agent type with candidates is handed the first one that passes and each later one that passes. -/

namespace TradingAgents.Master

open ProofKit

inductive Cost where
  | cheap
  | costly
deriving DecidableEq, Repr

/-- One declared way to run a role: a vendor, a model and an effort. -/
structure LlmCandidate where
  vendor : String
  model : String
  effort : String
deriving DecidableEq, Repr

def LlmCandidate.label (c : LlmCandidate) : String := c.vendor ++ "/" ++ c.model ++ "/" ++ c.effort

/-- The configuration keys an agent type reads its candidates from. -/
structure LlmRole where
  vendorKey : String
  modelKey : String
  effortKey : String
  fallbacksKey : String
deriving DecidableEq, Repr

def LlmRole.keys (r : LlmRole) : List String :=
  [r.vendorKey, r.modelKey, r.effortKey, r.fallbacksKey]

/-- One credential check run against the resolved config; a test that probes a candidate carries the
role that reads it. -/
structure CredentialTest where
  name : String
  required : Bool
  cost : Cost
  agentTypes : List String
  choice : Option (LlmCandidate × LlmRole)
deriving DecidableEq, Repr

inductive CheckStatus where
  | passed
  | credentialFailure
  | transportFailure
deriving DecidableEq, Repr

structure CheckResult where
  status : CheckStatus
  reason : String
deriving DecidableEq, Repr

abbrev Config := Dict String String

/-- A test that was run live in a check: the agent type and the config it was run on, what it
answered, and when a pass was recorded. -/
structure TestRun where
  test : CredentialTest
  agentType : String
  config : Config
  status : CheckStatus
  recordedAt : Int
  check : Nat
deriving DecidableEq

/-- The passes that the master remembers under the names of tests, and the live runs so far. -/
structure PassCache where
  passes : Dict String Int
  runs : List TestRun

/-- What one check meets: the secrets of the store, the answers of the probes, and the clock where a
pass is looked up and where it is recorded.  A secret that is `none` raises, and so does a probe. -/
structure Surroundings where
  secret : String → Option String
  answer : CredentialTest → Config → Option CheckResult
  freshAt : CredentialTest → Int
  recordAt : CredentialTest → Int

/-- What the master is wired with. -/
structure MasterSetup where
  grantTypes : List String
  secretMap : Dict String (List (String × String))
  tests : List CredentialTest
  ttlMinutes : Nat

inductive CheckError where
  | secretStore
  | probe
  | unknownAgentType
  | refused
deriving DecidableEq, Repr

/-- Microseconds. -/
def minute : Int := 60000000

/-- A pass recorded at one time still stands at another; zero minutes never expire. -/
def lives (ttlMinutes : Nat) (recordedAt now : Int) : Bool :=
  decide (ttlMinutes = 0) || decide (now - recordedAt < ttlMinutes * minute)

/-- Whether a test of this name passed recently enough to skip a live one. -/
def PassCache.fresh (ttlMinutes : Nat) (cache : PassCache) (name : String) (now : Int) : Bool :=
  match cache.passes.get? name with
  | none => false
  | some recordedAt => lives ttlMinutes recordedAt now

abbrev CheckM := EStateM CheckError PassCache

/-! ### Outcomes -/

/-- Every name a run of tests declared, tested, passed, reused or failed. -/
structure Outcomes where
  applicable : List String
  tested : List String
  passed : List String
  cached : List String
  failedRequired : List String
  failedOptional : List String
  transportFailures : List (String × String)
  credentialFailures : List (String × String)
deriving DecidableEq

namespace Outcomes

def empty : Outcomes := ⟨[], [], [], [], [], [], [], []⟩

/-- No required test was refused and none went unanswered. -/
def proven (o : Outcomes) : Bool := o.failedRequired.isEmpty && o.transportFailures.isEmpty

/-- The first refusal's reason, else the first unanswered test's. -/
def firstReason (o : Outcomes) : String :=
  let refused := (o.credentialFailures.filter fun f => decide (f.1 ∈ o.failedRequired)).map Prod.snd
  let unanswered := o.transportFailures.map Prod.snd
  ((if refused = [] then unanswered else refused).head?).getD ""

def extend (o other : Outcomes) : Outcomes where
  applicable := o.applicable ++ other.applicable
  tested := o.tested ++ other.tested
  passed := o.passed ++ other.passed
  cached := o.cached ++ other.cached
  failedRequired := o.failedRequired ++ other.failedRequired
  failedOptional := o.failedOptional ++ other.failedOptional
  transportFailures := o.transportFailures ++ other.transportFailures
  credentialFailures := o.credentialFailures ++ other.credentialFailures

/-- The outcomes with the answer of one live test. -/
def answered (o : Outcomes) (test : CredentialTest) (result : CheckResult) : Outcomes :=
  let o := { o with tested := o.tested ++ [test.name] }
  match result.status with
  | .passed => { o with passed := o.passed ++ [test.name] }
  | .transportFailure =>
    { o with transportFailures := o.transportFailures ++ [(test.name, result.reason)] }
  | .credentialFailure =>
    let o := { o with credentialFailures := o.credentialFailures ++ [(test.name, result.reason)] }
    if test.required then { o with failedRequired := o.failedRequired ++ [test.name] }
    else { o with failedOptional := o.failedOptional ++ [test.name] }

end Outcomes

section

variable (m : MasterSetup) (w : Surroundings) (check : Nat) (agentType : String)

/-- The cache after a live test. -/
def PassCache.answered (cache : PassCache) (test : CredentialTest) (config : Config)
    (result : CheckResult) : PassCache where
  passes := if result.status = .passed ∧ test.cost = .costly then
      cache.passes.set test.name (w.recordAt test) else cache.passes
  runs := cache.runs ++ [⟨test, agentType, config, result.status, w.recordAt test, check⟩]

/-- Run one applicable test, or reuse its fresh costly pass. -/
def Outcomes.run (config : Config) (o : Outcomes) (test : CredentialTest) : CheckM Outcomes := do
  let o := { o with applicable := o.applicable ++ [test.name] }
  let cache ← get
  if test.cost = .costly ∧ cache.fresh m.ttlMinutes test.name (w.freshAt test) = true then
    pure { o with cached := o.cached ++ [test.name] }
  else
    match w.answer test config with
    | none => throw .probe
    | some result =>
      modify fun cache => cache.answered w check agentType test config result
      pure (o.answered test result)

/-- The outcomes of a group of tests. -/
def runTests (config : Config) (tests : List CredentialTest) : CheckM Outcomes :=
  tests.foldlM (Outcomes.run m w check agentType config) .empty

/-! ### The choice of a candidate -/

/-- The environment variable of each vendor's key. -/
def keyEnv : List (String × String) :=
  [("anthropic", "ANTHROPIC_API_KEY"), ("openai", "OPENAI_API_KEY")]

/-- The tests of each candidate, in the order in which the candidates come. -/
def candidateGroups (entries : List (CredentialTest × LlmCandidate)) :
    Dict LlmCandidate (List CredentialTest) :=
  entries.foldl (fun groups e => groups.set e.2 ((groups.get? e.2).getD [] ++ [e.1])) .empty

/-- The role that the last test of a candidate carries. -/
def roleOf (tests : List CredentialTest) (candidate : LlmCandidate) : Option LlmRole :=
  (tests.reverse.filterMap CredentialTest.choice).findSome? fun c =>
    if c.1 = candidate then some c.2 else none

/-- Name the candidate and its fallbacks; withhold every vendor's key none uses. -/
def handOver (config : Config) (candidate : LlmCandidate) (fallbacks : List LlmCandidate)
    (role : LlmRole) : Config :=
  let vendors := candidate.vendor :: fallbacks.map LlmCandidate.vendor
  let unused := (keyEnv.filter fun p => decide (p.1 ∉ vendors)).map Prod.snd
  ((((config.eraseAll unused).set role.vendorKey candidate.vendor).set role.modelKey
    candidate.model).set role.effortKey candidate.effort).set role.fallbacksKey
      (",".intercalate (fallbacks.map LlmCandidate.label))

/-- The evidence of one check with the config to hand over. -/
structure CredentialTestReport where
  config : Config
  outcomes : Outcomes
  /-- The chosen candidate and its fallbacks. -/
  candidates : List LlmCandidate
  roleKeys : List String
  llmPassedOver : List String

def runGroup (config : Config) (tried : List (LlmCandidate × Outcomes))
    (group : LlmCandidate × List CredentialTest) : CheckM (List (LlmCandidate × Outcomes)) := do
  let outcomes ← runTests m w check agentType config group.2
  pure (tried ++ [(group.1, outcomes)])

/-- The candidate to hand over: the first proven one, else the first that was not refused. -/
def chooseTried (tried : List (LlmCandidate × Outcomes)) : Option (LlmCandidate × Outcomes) :=
  (tried.find? fun item => item.2.proven).or
    (tried.find? fun item => item.2.failedRequired.isEmpty)

/-- The report of the candidates that were tried. -/
def choiceReport (tests : List CredentialTest) (config : Config) (base : Outcomes)
    (tried : List (LlmCandidate × Outcomes)) : CredentialTestReport :=
  match chooseTried tried with
  | none => ⟨config, tried.foldl (fun o item => o.extend item.2) base, [], [], []⟩
  | some chosen =>
    let later := tried.drop (tried.idxOf chosen + 1)
    let fallbacks := (later.filter fun item => item.2.proven).map Prod.fst
    let named := later.filter fun item => decide (item.1 ∈ fallbacks)
    let outcomes := named.foldl (fun o item => o.extend item.2) (base.extend chosen.2)
    let passedOver := (tried.filter fun item =>
      decide (item.1 ≠ chosen.1 ∧ item.1 ∉ fallbacks)).map fun item =>
        item.1.label ++ ": " ++ item.2.firstReason
    match roleOf tests chosen.1 with
    | none => ⟨config, outcomes, chosen.1 :: fallbacks, [], passedOver⟩
    | some role =>
      ⟨handOver config chosen.1 fallbacks role, outcomes, chosen.1 :: fallbacks, role.keys,
        passedOver⟩

/-! ### One check -/

/-- The secrets that an agent type is entitled to; an empty one is left out. -/
def resolveConfig : CheckM Config :=
  ((m.secretMap.get? agentType).getD []).foldlM (fun config entry =>
    match w.secret entry.1 with
    | none => throw .secretStore
    | some value => pure (if value = "" then config else config.set entry.2 value)) .empty

def MasterSetup.applicable : List CredentialTest :=
  m.tests.filter fun test => decide (test.agentTypes = [] ∨ agentType ∈ test.agentTypes)

/-- Resolve the secrets, run the applicable tests, and report. -/
def resolveAndTestReport : CheckM (Config × CredentialTestReport) := do
  let config ← resolveConfig m w agentType
  let tests := m.applicable agentType
  let outcomes ← runTests m w check agentType config
    (tests.filter fun test => test.choice.isNone)
  let entries := tests.filterMap fun test => test.choice.map fun c => (test, c.1)
  if entries = [] then pure (config, ⟨config, outcomes, [], [], []⟩)
  else
    let tried ← (candidateGroups entries).entries.foldlM (runGroup m w check agentType config) []
    pure (config, choiceReport tests config outcomes tried)

/-- A handover: the agent type, the config handed over, and the check that allowed it. -/
structure Handover where
  agentType : String
  check : Nat
  surroundings : Surroundings
  report : CredentialTestReport

/-- An activation of an agent type.  One that is refused may test once more after a remediation. -/
def activate (retest : Option Surroundings) : CheckM Handover := do
  if agentType ∈ m.grantTypes then
    let (_, report) ← resolveAndTestReport m w check agentType
    if report.outcomes.failedRequired = [] then pure ⟨agentType, check, w, report⟩
    else
      match retest with
      | none => throw .refused
      | some w' =>
        let _ ← resolveAndTestReport m w' check agentType
        throw .refused
  else throw .unknownAgentType

end

end TradingAgents.Master
