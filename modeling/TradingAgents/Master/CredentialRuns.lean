import Mathlib.Data.List.Sort
import Mathlib.Data.String.Basic
import TradingAgents.Master.CredentialCheck
import TradingAgents.ProofKit.Grouping
import TradingAgents.ProofKit.Runs

/-! Activations and preflights that share one pass cache.  A required test of a handover accepted
the values handed over in that check, went unanswered, or was stood in for by a fresh pass of a
costly test of its name. -/

namespace TradingAgents.Master

open ProofKit

structure MasterState where
  cache : PassCache
  checks : Nat
  handovers : List Handover

inductive MasterMove where
  | activate (agentType : String) (w : Surroundings) (retest : Option Surroundings)
  | preflight (w : String → Surroundings)

variable (m : MasterSetup)

/-- The cache after one agent type of a preflight; what raises fails that type alone. -/
def preflightOne (w : String → Surroundings) (check : Nat) (cache : PassCache)
    (agentType : String) : PassCache :=
  match (resolveAndTestReport m (w agentType) check agentType).run cache with
  | .ok _ cache => cache
  | .error _ cache => cache

/-- One activation or one preflight of the fleet. -/
def masterStep (s : MasterState) : MasterMove → Except CheckError MasterState
  | .activate agentType w retest =>
    match (activate m w s.checks agentType retest).run s.cache with
    | .ok h cache => .ok ⟨cache, s.checks + 1, s.handovers ++ [h]⟩
    | .error _ cache => .ok ⟨cache, s.checks + 1, s.handovers⟩
  | .preflight w =>
    .ok { s with
      cache := (m.grantTypes.insertionSort (· ≤ ·)).foldl (preflightOne m w s.checks) s.cache
      checks := s.checks + 1 }

def MasterState.Start (s : MasterState) : Prop :=
  s.cache.passes = .empty ∧ s.cache.runs = [] ∧ s.handovers = []

/-! ### What is known of a handover -/

/-- A test accepted a value for the agent type, live in the check or within the lifetime. -/
def Accepted (runs : List TestRun) (h : Handover) (test : CredentialTest) (key value : String) :
    Prop :=
  ∃ r ∈ runs, r.test = test ∧ r.agentType = h.agentType ∧ r.status = .passed ∧
    r.config.get? key = some value ∧
    (r.check = h.check ∨ lives m.ttlMinutes r.recordedAt (h.surroundings.freshAt test) = true)

/-- A test accepted a value for the agent type live in the check. -/
def AcceptedLive (runs : List TestRun) (h : Handover) (test : CredentialTest)
    (key value : String) : Prop :=
  ∃ r ∈ runs, r.test = test ∧ r.agentType = h.agentType ∧ r.check = h.check ∧
    r.status = .passed ∧ r.config.get? key = some value

/-- A test went unanswered in the check. -/
def Unanswered (runs : List TestRun) (h : Handover) (test : CredentialTest) : Prop :=
  ∃ r ∈ runs, r.test = test ∧ r.agentType = h.agentType ∧ r.check = h.check ∧
    r.status = .transportFailure

/-- A costly test was skipped on a fresh pass under its name. -/
def StoodIn (runs : List TestRun) (freshAt : CredentialTest → Int) (test : CredentialTest) : Prop :=
  test.cost = .costly ∧ ∃ r ∈ runs, r.test.name = test.name ∧ r.test.cost = .costly ∧
    r.status = .passed ∧ lives m.ttlMinutes r.recordedAt (freshAt test) = true

/-- A handover passes on what a test probes unless the test's candidate was passed over. -/
def Handover.carries (h : Handover) (test : CredentialTest) : Prop :=
  ∀ c, test.choice = some c → c.1 ∈ h.report.candidates

/-- Every credential handed over that an applicable test reads was accepted by that test, or the
test went unanswered. -/
def CredentialsTested (reads : CredentialTest → List String) (s : MasterState) : Prop :=
  ∀ h ∈ s.handovers, ∀ test ∈ m.applicable h.agentType, ∀ key ∈ reads test,
    key ∉ h.report.roleKeys → ∀ value, h.report.config.get? key = some value →
      Accepted m s.cache.runs h test key value ∨ Unanswered s.cache.runs h test

/-- Every credential handed over, by each required test that the handover carries: accepted live,
unanswered, or a costly test that was skipped on a fresh pass under its name. -/
def RequiredTested (s : MasterState) : Prop :=
  ∀ h ∈ s.handovers, ∀ test ∈ m.applicable h.agentType, test.required = true → h.carries test →
    ∀ key value, key ∉ h.report.roleKeys → h.report.config.get? key = some value →
      AcceptedLive s.cache.runs h test key value ∨ Unanswered s.cache.runs h test ∨
        StoodIn m s.cache.runs h.surroundings.freshAt test

/-- Every pass that the cache remembers was a live pass of a costly test of that name. -/
def PassCache.Sound (cache : PassCache) : Prop :=
  ∀ name recordedAt, cache.passes.get? name = some recordedAt →
    ∃ r ∈ cache.runs, r.test.name = name ∧ r.test.cost = .costly ∧ r.status = .passed ∧
      r.recordedAt = recordedAt

/-- A cache that has seen more runs, and is still sound. -/
def PassCache.Extends (cache cache' : PassCache) : Prop :=
  cache.runs ⊆ cache'.runs ∧ cache'.Sound

section

variable {m : MasterSetup} {w : Surroundings} {check : Nat} {agentType : String} {config : Config}
  {cache cache' : PassCache} {test : CredentialTest}

theorem PassCache.Extends.trans {later : PassCache} (h : cache.Extends cache')
    (h' : cache'.Extends later) : cache.Extends later :=
  ⟨List.Subset.trans h.1 h'.1, h'.2⟩

theorem PassCache.Sound.self (h : cache.Sound) : cache.Extends cache :=
  ⟨List.Subset.refl _, h⟩

theorem PassCache.Sound.fresh (h : cache.Sound) {now : Int}
    (hfresh : cache.fresh m.ttlMinutes test.name now = true) :
    ∃ r ∈ cache.runs, r.test.name = test.name ∧ r.test.cost = .costly ∧ r.status = .passed ∧
      lives m.ttlMinutes r.recordedAt now = true := by
  unfold PassCache.fresh at hfresh
  split at hfresh
  · cases hfresh
  · rename_i recordedAt hpass
    obtain ⟨r, hr, hname, hcost, hstatus, rfl⟩ := h _ _ hpass
    exact ⟨r, hr, hname, hcost, hstatus, hfresh⟩

/-- A live test adds its run, and a pass of it if it passed and is costly. -/
theorem PassCache.Sound.answered (h : cache.Sound) (test : CredentialTest) (config : Config)
    (result : CheckResult) :
    cache.Extends (cache.answered w check agentType test config result) := by
  refine ⟨List.subset_append_left _ _, fun name recordedAt hpass => ?_⟩
  have hold : cache.passes.get? name = some recordedAt →
      ∃ r ∈ (cache.answered w check agentType test config result).runs, r.test.name = name ∧
        r.test.cost = .costly ∧ r.status = .passed ∧ r.recordedAt = recordedAt := fun hpass => by
    obtain ⟨r, hr, hrest⟩ := h name recordedAt hpass
    exact ⟨r, List.mem_append_left _ hr, hrest⟩
  unfold PassCache.answered at hpass
  dsimp only at hpass
  split at hpass
  · rename_i hrecorded
    rw [Dict.get?_set] at hpass
    split at hpass
    · rename_i hname
      cases hpass
      exact ⟨_, List.mem_append_right _ (List.mem_singleton_self _), hname.symm, hrecorded.2,
        hrecorded.1, rfl⟩
    · exact hold hpass
  · exact hold hpass

/-- A required test that did not fail: run live on the config and not refused, or stood in for. -/
def Settled (m : MasterSetup) (w : Surroundings) (check : Nat) (agentType : String)
    (config : Config) (cache : PassCache) (test : CredentialTest) : Prop :=
  test.required = true →
    (∃ r ∈ cache.runs, r.test = test ∧ r.agentType = agentType ∧ r.check = check ∧
      r.config = config ∧ r.status ≠ .credentialFailure) ∨
    StoodIn m cache.runs w.freshAt test

theorem Settled.mono (h : Settled m w check agentType config cache test)
    (hext : cache.Extends cache') : Settled m w check agentType config cache' test := by
  intro hrequired
  rcases h hrequired with ⟨r, hr, hrest⟩ | ⟨hcost, r, hr, hrest⟩
  · exact .inl ⟨r, hext.1 hr, hrest⟩
  · exact .inr ⟨hcost, r, hext.1 hr, hrest⟩

/-- A required test that is not refused leaves the refusals as they are and is settled. -/
theorem Outcomes.run_ends (o : Outcomes) (hsound : cache.Sound) :
    Ends (Outcomes.run m w check agentType config o test) cache
      (fun o' cache' => cache.Extends cache' ∧ (o'.failedRequired = [] →
        o.failedRequired = [] ∧ Settled m w check agentType config cache' test))
      cache.Extends := by
  refine Ends.bind (Ends.get (Q := fun a v => cache = a ∧ cache = v) ⟨rfl, rfl⟩) ?_
  rintro _ _ ⟨rfl, rfl⟩
  split
  · rename_i hskip
    refine Ends.pure ⟨hsound.self, fun hnone => ⟨hnone, fun _ => .inr ⟨hskip.1, ?_⟩⟩⟩
    exact hsound.fresh hskip.2
  · split
    · exact Ends.throw hsound.self
    · rename_i result _
      refine Ends.bind (Ends.modify (Q := fun _ v =>
        v = cache.answered w check agentType test config result) rfl) ?_
      rintro _ _ rfl
      refine Ends.pure ⟨hsound.answered test config result, fun hnone => ?_⟩
      have hrun : (⟨test, agentType, config, result.status, w.recordAt test, check⟩ : TestRun) ∈
          (cache.answered w check agentType test config result).runs :=
        List.mem_append_right _ (List.mem_singleton_self _)
      unfold Outcomes.answered at hnone
      dsimp only at hnone
      cases hstatus : result.status with
      | passed =>
        rw [hstatus] at hnone hrun
        exact ⟨hnone, fun _ => .inl ⟨_, hrun, rfl, rfl, rfl, rfl, fun h => by cases h⟩⟩
      | transportFailure =>
        rw [hstatus] at hnone hrun
        exact ⟨hnone, fun _ => .inl ⟨_, hrun, rfl, rfl, rfl, rfl, fun h => by cases h⟩⟩
      | credentialFailure =>
        rw [hstatus] at hnone
        dsimp only at hnone
        split at hnone
        · exact absurd hnone (List.append_ne_nil_of_right_ne_nil _ (List.cons_ne_nil _ _))
        · rename_i hoptional
          exact ⟨hnone, fun hrequired => absurd hrequired hoptional⟩

/-- A group of tests of which no required one was refused is settled. -/
theorem runTests_ends (tests : List CredentialTest) (hsound : cache.Sound) :
    Ends (runTests m w check agentType config tests) cache
      (fun o cache' => cache.Extends cache' ∧ (o.failedRequired = [] →
        ∀ test ∈ tests, Settled m w check agentType config cache' test))
      cache.Extends := by
  refine Ends.foldlM_done (I := fun done (o : Outcomes) cache' => cache.Extends cache' ∧
    (o.failedRequired = [] → ∀ test ∈ done, Settled m w check agentType config cache' test)) ?_
    ⟨hsound.self, fun _ _ h => absurd h List.not_mem_nil⟩
  rintro done test - - o t ⟨hext, hdone⟩
  refine (Outcomes.run_ends o hext.2).mono (fun o' t' h => ?_) fun t' h => hext.trans h
  refine ⟨hext.trans h.1, fun hnone test' hmem => ?_⟩
  rcases List.mem_append.mp hmem with hin | hlast
  · exact (hdone (h.2 hnone).1 test' hin).mono h.1
  · exact List.mem_singleton.mp hlast ▸ (h.2 hnone).2

/-! ### The candidates -/

theorem mem_candidateGroups {entries : List (CredentialTest × LlmCandidate)}
    {candidate : LlmCandidate} (h : (test, candidate) ∈ entries) :
    test ∈ ((candidateGroups entries).get? candidate).getD [] := by
  change test ∈ ((groupBy Prod.snd Prod.fst entries).get? candidate).getD []
  rw [getD_groupBy]
  exact List.mem_map.mpr ⟨_, List.mem_filter.mpr ⟨h, decide_eq_true rfl⟩, rfl⟩

/-- What is known of the candidates that were tried. -/
def TriedSettled (m : MasterSetup) (w : Surroundings) (check : Nat) (agentType : String)
    (config : Config) (groups : Dict LlmCandidate (List CredentialTest)) (cache : PassCache)
    (tried : List (LlmCandidate × Outcomes)) : Prop :=
  ∀ item ∈ tried, item.2.failedRequired = [] →
    ∀ test ∈ (groups.get? item.1).getD [], Settled m w check agentType config cache test

theorem tried_ends (groups : Dict LlmCandidate (List CredentialTest)) (hsound : cache.Sound) :
    Ends (groups.entries.foldlM (runGroup m w check agentType config) []) cache
      (fun tried cache' => cache.Extends cache' ∧
        TriedSettled m w check agentType config groups cache' tried)
      cache.Extends := by
  refine Ends.foldlM ?_ ⟨hsound.self, fun _ h => absurd h List.not_mem_nil⟩
  rintro ⟨candidate, tests⟩ hgroup tried t ⟨hext, htried⟩
  have hget : groups.get? candidate = some tests := Dict.mem_entries_iff.mp hgroup
  refine Ends.bind ((runTests_ends tests hext.2).mono (fun _ _ h => h) fun _ h => hext.trans h) ?_
  rintro outcomes t' ⟨hext', hsettled⟩
  refine Ends.pure ⟨hext.trans hext', fun item hitem hnone test htest => ?_⟩
  rcases List.mem_append.mp hitem with hin | hlast
  · exact (htried item hin hnone test htest).mono hext'
  · rw [List.mem_singleton.mp hlast] at hnone htest
    rw [hget] at htest
    exact hsettled hnone test htest

theorem chooseTried_ok {tried : List (LlmCandidate × Outcomes)} {chosen : LlmCandidate × Outcomes}
    (h : chooseTried tried = some chosen) : chosen ∈ tried ∧ chosen.2.failedRequired = [] := by
  rcases Option.or_eq_some_iff.mp h with hproven | ⟨-, hopen⟩
  · have htest := List.find?_some hproven
    exact ⟨List.mem_of_find?_eq_some hproven,
      List.isEmpty_iff.mp (Bool.and_eq_true_iff.mp htest).1⟩
  · have htest := List.find?_some hopen
    exact ⟨List.mem_of_find?_eq_some hopen, List.isEmpty_iff.mp htest⟩

/-- A candidate that a report hands over was tried and not refused. -/
theorem choiceReport_candidates {tests : List CredentialTest} {base : Outcomes}
    {tried : List (LlmCandidate × Outcomes)} {candidate : LlmCandidate}
    (h : candidate ∈ (choiceReport tests config base tried).candidates) :
    ∃ item ∈ tried, item.1 = candidate ∧ item.2.failedRequired = [] := by
  unfold choiceReport at h
  split at h
  · exact absurd h List.not_mem_nil
  · rename_i chosen hchosen
    have hmem : candidate ∈ chosen.1 :: ((tried.drop (tried.idxOf chosen + 1)).filter
        fun item => item.2.proven).map Prod.fst := by
      dsimp only at h
      split at h <;> exact h
    rcases List.mem_cons.mp hmem with rfl | hfallback
    · obtain ⟨hin, hnone⟩ := chooseTried_ok hchosen
      exact ⟨chosen, hin, rfl, hnone⟩
    · obtain ⟨item, hitem, rfl⟩ := List.mem_map.mp hfallback
      obtain ⟨hin, hproven⟩ := List.mem_filter.mp hitem
      exact ⟨item, List.mem_of_mem_drop hin, rfl,
        List.isEmpty_iff.mp (Bool.and_eq_true_iff.mp hproven).1⟩

theorem extend_foldl_failedRequired (tried : List (LlmCandidate × Outcomes)) (o : Outcomes)
    (h : (tried.foldl (fun o item => o.extend item.2) o).failedRequired = []) :
    o.failedRequired = [] := by
  induction tried generalizing o with
  | nil => exact h
  | cons item rest ih => exact (List.append_eq_nil_iff.mp (ih _ h)).1

/-- The refusals of the other tests stand in the report. -/
theorem choiceReport_failedRequired {tests : List CredentialTest} {base : Outcomes}
    {tried : List (LlmCandidate × Outcomes)}
    (h : (choiceReport tests config base tried).outcomes.failedRequired = []) :
    base.failedRequired = [] := by
  unfold choiceReport at h
  split at h
  · exact extend_foldl_failedRequired _ _ h
  · dsimp only at h
    split at h <;> exact (List.append_eq_nil_iff.mp (extend_foldl_failedRequired _ _ h)).1

/-- Under a key that the role does not write, a report hands over what was tested. -/
theorem choiceReport_config {tests : List CredentialTest} {base : Outcomes}
    {tried : List (LlmCandidate × Outcomes)} {key value : String}
    (hkey : key ∉ (choiceReport tests config base tried).roleKeys)
    (h : (choiceReport tests config base tried).config.get? key = some value) :
    config.get? key = some value := by
  unfold choiceReport at hkey h
  split at h
  · exact h
  · rename_i chosen hchosen
    rw [hchosen] at hkey
    dsimp only at hkey h
    split at h
    · exact h
    · rename_i role hrole
      rw [hrole] at hkey
      simp only [LlmRole.keys, List.mem_cons, List.not_mem_nil, or_false, not_or] at hkey
      obtain ⟨hvendor, hmodel, heffort, hfallbacks⟩ := hkey
      unfold handOver at h
      rw [Dict.get?_set_ne _ _ hfallbacks, Dict.get?_set_ne _ _ heffort,
        Dict.get?_set_ne _ _ hmodel, Dict.get?_set_ne _ _ hvendor, Dict.get?_eraseAll] at h
      split at h
      · cases h
      · exact h

/-! ### A check -/

theorem resolveConfig_ends :
    Ends (resolveConfig m w agentType) cache (fun _ cache' => cache' = cache)
      fun cache' => cache' = cache := by
  refine Ends.foldlM (I := fun _ cache' => cache' = cache) ?_ rfl
  rintro entry - config _ rfl
  split
  · exact Ends.throw rfl
  · exact Ends.pure rfl

/-- What a report without a refusal says: the tests that it carries are settled for the config, and
the credentials come from it. -/
structure ReportKept (m : MasterSetup) (w : Surroundings) (check : Nat) (agentType : String)
    (cache : PassCache) (config : Config) (report : CredentialTestReport) : Prop where
  settled : report.outcomes.failedRequired = [] → ∀ test ∈ m.applicable agentType,
    (∀ c, test.choice = some c → c.1 ∈ report.candidates) →
      Settled m w check agentType config cache test
  config : ∀ key value, key ∉ report.roleKeys → report.config.get? key = some value →
    config.get? key = some value

theorem ReportKept.mono {report : CredentialTestReport}
    (h : ReportKept m w check agentType cache config report) (hext : cache.Extends cache') :
    ReportKept m w check agentType cache' config report :=
  ⟨fun hnone test htest hcarries => (h.settled hnone test htest hcarries).mono hext, h.config⟩

theorem resolveAndTestReport_ends (hsound : cache.Sound) :
    Ends (resolveAndTestReport m w check agentType) cache
      (fun a cache' => cache.Extends cache' ∧
        ReportKept m w check agentType cache' a.1 a.2) cache.Extends := by
  refine Ends.bind (resolveConfig_ends.mono (fun _ _ h => h) fun _ h => h ▸ hsound.self) ?_
  rintro config _ rfl
  refine Ends.bind (runTests_ends _ hsound) ?_
  rintro outcomes t ⟨hext, hplain⟩
  have hplain' : ∀ {cache'}, t.Extends cache' → outcomes.failedRequired = [] →
      ∀ test ∈ m.applicable agentType, test.choice = none →
        Settled m w check agentType config cache' test := fun hlater hnone test htest hchoice =>
    (hplain hnone test (List.mem_filter.mpr ⟨htest, by rw [hchoice]; rfl⟩)).mono hlater
  dsimp only
  split
  · rename_i hentries
    refine Ends.pure ⟨hext, fun hnone test htest _ => ?_, fun _ _ _ h => h⟩
    refine hplain' hext.2.self hnone test htest ?_
    have hmapped := List.filterMap_eq_nil_iff.mp hentries test htest
    exact Option.map_eq_none_iff.mp hmapped
  · refine Ends.bind ((tried_ends _ hext.2).mono (fun _ _ h => h) fun _ h => hext.trans h) ?_
    rintro tried t' ⟨hext', htried⟩
    refine Ends.pure ⟨hext.trans hext', fun hnone test htest hcarries => ?_,
      fun _ _ => choiceReport_config⟩
    cases hchoice : test.choice with
    | none => exact hplain' hext' (choiceReport_failedRequired hnone) test htest hchoice
    | some c =>
      obtain ⟨item, hitem, hcandidate, hopen⟩ := choiceReport_candidates (hcarries c hchoice)
      refine htried item hitem hopen test ?_
      rw [hcandidate]
      refine mem_candidateGroups (List.mem_filterMap.mpr ⟨test, htest, ?_⟩)
      rw [hchoice]
      rfl

/-- A handover of which every test that it carries is settled. -/
def HandoverKept (m : MasterSetup) (cache : PassCache) (h : Handover) : Prop :=
  h.report.outcomes.failedRequired = [] ∧
    ∃ config, ReportKept m h.surroundings h.check h.agentType cache config h.report

theorem activate_ends (hsound : cache.Sound) (retest : Option Surroundings) :
    Ends (activate m w check agentType retest) cache
      (fun h cache' => cache.Extends cache' ∧ HandoverKept m cache' h) cache.Extends := by
  unfold activate
  split
  · refine Ends.bind (resolveAndTestReport_ends hsound) ?_
    rintro ⟨config, report⟩ t ⟨hext, hreport⟩
    dsimp only
    split
    · rename_i hnone
      exact Ends.pure ⟨hext, hnone, config, hreport⟩
    · split
      · exact Ends.throw hext
      · refine Ends.bind ((resolveAndTestReport_ends hext.2).mono (fun _ _ h => h)
          fun _ h => hext.trans h) ?_
        rintro _ t' ⟨hext', -⟩
        exact Ends.throw (hext.trans hext')
  · exact Ends.throw hsound.self

/-! ### Runs -/

/-- The invariant of the master. -/
structure MasterKept (m : MasterSetup) (s : MasterState) : Prop where
  sound : s.cache.Sound
  handovers : ∀ h ∈ s.handovers, HandoverKept m s.cache h

theorem preflight_extends (agentTypes : List String) (w : String → Surroundings)
    (hsound : cache.Sound) :
    cache.Extends (agentTypes.foldl (preflightOne m w check) cache) := by
  induction agentTypes generalizing cache with
  | nil => exact hsound.self
  | cons agentType rest ih =>
    have hone : cache.Extends (preflightOne m w check cache agentType) := by
      unfold preflightOne
      split
      · rename_i hreport
        exact ((resolveAndTestReport_ends hsound).of_ok hreport).1
      · rename_i hreport
        exact (resolveAndTestReport_ends hsound).of_error hreport
    exact hone.trans (ih hone.2)

theorem HandoverKept.mono {h : Handover} (hkept : HandoverKept m cache h)
    (hext : cache.Extends cache') : HandoverKept m cache' h := by
  obtain ⟨hnone, config, hreport⟩ := hkept
  exact ⟨hnone, config, hreport.mono hext⟩

theorem MasterKept.step {s s' : MasterState} (h : MasterKept m s) {move : MasterMove}
    (hstep : masterStep m s move = .ok s') : MasterKept m s' := by
  have hold : ∀ {cache'}, s.cache.Extends cache' → ∀ h ∈ s.handovers, HandoverKept m cache' h :=
    fun hext handover hin => (h.handovers handover hin).mono hext
  cases move with
  | activate agentType w retest =>
    unfold masterStep at hstep
    dsimp only at hstep
    split at hstep
    · rename_i handover cache' hresult
      cases hstep
      have hends := (activate_ends h.sound retest).of_ok hresult
      refine ⟨hends.1.2, fun h' hin => ?_⟩
      rcases List.mem_append.mp hin with hin | hlast
      · exact hold hends.1 h' hin
      · exact List.mem_singleton.mp hlast ▸ hends.2
    · rename_i e cache' hresult
      cases hstep
      have hends := (activate_ends h.sound retest).of_error hresult
      exact ⟨hends.2, hold hends⟩
  | preflight w =>
    cases hstep
    have hext : s.cache.Extends ((m.grantTypes.insertionSort (· ≤ ·)).foldl
        (preflightOne m w s.checks) s.cache) := preflight_extends _ w h.sound
    exact ⟨hext.2, hold hext⟩

theorem MasterKept.tested {s : MasterState} (h : MasterKept m s) : RequiredTested m s := by
  intro handover hin test htest hrequired hcarries key value hkey hvalue
  obtain ⟨hnone, config, hreport⟩ := h.handovers handover hin
  have hconfig := hreport.config key value hkey hvalue
  rcases hreport.settled hnone test htest hcarries hrequired with
    ⟨r, hr, heq, htype, hcheck, rfl, hstatus⟩ | hstood
  · cases hanswer : r.status with
    | passed => exact .inl ⟨r, hr, heq, htype, hcheck, hanswer, hconfig⟩
    | transportFailure => exact .inr (.inl ⟨r, hr, heq, htype, hcheck, hanswer⟩)
    | credentialFailure => exact absurd hanswer hstatus
  · exact .inr (.inr hstood)

theorem MasterState.Start.kept {s : MasterState} (h : s.Start) : MasterKept m s := by
  obtain ⟨hpasses, -, hnone⟩ := h
  refine ⟨fun name recordedAt hpass => ?_, fun handover hin => ?_⟩
  · rw [hpasses] at hpass
    cases hpass
  · rw [hnone] at hin
    exact absurd hin List.not_mem_nil

/-- Over every sequence of activations and preflights. -/
theorem required_tested {s : MasterState}
    (h : Reach (masterStep m) (fun _ _ => True) MasterState.Start s) : RequiredTested m s := by
  have hkept : MasterKept m s := h.invariant (fun _ => MasterState.Start.kept)
    fun _ _ _ hkept _ hstep => MasterKept.step hkept hstep
  exact hkept.tested

end

/-! ### Three handovers -/

def noHandovers : MasterState := ⟨⟨.empty, []⟩, 0, []⟩

theorem noHandovers_start : noHandovers.Start := ⟨rfl, rfl, rfl⟩

def probeOf (name : String) (required : Bool) (cost : Cost)
    (choice : Option (LlmCandidate × LlmRole)) : CredentialTest :=
  ⟨name, required, cost, [], choice⟩

def alphaSetup (tests : List CredentialTest) : MasterSetup where
  grantTypes := ["alpha"]
  secretMap := .ofList [("alpha", [("api-key", "ANTHROPIC_API_KEY")])]
  tests := tests
  ttlMinutes := 5

/-- The store holds one secret, and the probes refuse the tests named. -/
def surroundingsOf (secret : String) (refusing : List String) : Surroundings where
  secret _ := some secret
  answer test _ := some (if test.name ∈ refusing then ⟨.credentialFailure, "rejected"⟩
    else ⟨.passed, ""⟩)
  freshAt _ := 0
  recordAt _ := 0

def activateAlpha (secret : String) (refusing : List String) : MasterMove :=
  .activate "alpha" (surroundingsOf secret refusing) none

def costlyProbe : CredentialTest := probeOf "llm" true .costly none

def cheapProbe : CredentialTest := probeOf "ping" true .cheap none

/-- The value is tested by both probes, and handed over again after a cheap test alone. -/
theorem costlyProbe_tested : ∃ s : MasterState,
    s.handovers.length = 2 ∧ s.cache.runs.map (fun r => (r.test.name, r.check)) =
      [("llm", 0), ("ping", 0), ("ping", 1)] ∧
    RequiredTested (alphaSetup [costlyProbe, cheapProbe]) s := by
  have hrun : Fallible.check (fun s : MasterState => decide (s.handovers.length = 2 ∧
        s.cache.runs.map (fun r => (r.test.name, r.check)) =
          [("llm", 0), ("ping", 0), ("ping", 1)]))
      ([activateAlpha "key" [], activateAlpha "key" []].foldlM
        (masterStep (alphaSetup [costlyProbe, cheapProbe])) noHandovers) = true := by
    decide +kernel
  obtain ⟨s, hs, hlength⟩ := Fallible.check_eq_true.mp hrun
  obtain ⟨hlength, hruns⟩ := of_decide_eq_true hlength
  exact ⟨s, hlength, hruns, required_tested (Reach.of_foldlM (.start noHandovers_start) hs)⟩

/-- A value is handed over that no run of the test has accepted or left unanswered. -/
def handsOverUntested (m : MasterSetup) (test : CredentialTest) (key value : String)
    (s : MasterState) : Bool :=
  s.handovers.any fun h => decide (test ∈ m.applicable h.agentType ∧ key ∉ h.report.roleKeys ∧
    h.report.config.get? key = some value ∧ ∀ r ∈ s.cache.runs, r.test = test →
      r.status ≠ .transportFailure ∧ (r.config.get? key = some value → r.status ≠ .passed))

theorem not_tested_of_untested {m : MasterSetup} {key : String} (test : CredentialTest)
    (value : String) (moves : List MasterMove) {reads : CredentialTest → List String}
    (hreads : key ∈ reads test) (hrun : Fallible.check (handsOverUntested m test key value)
      (moves.foldlM (masterStep m) noHandovers) = true) :
    ¬ ∀ s, Reach (masterStep m) (fun _ _ => True) MasterState.Start s →
      CredentialsTested m reads s := by
  intro hall
  obtain ⟨s, hs, huntested⟩ := Fallible.check_eq_true.mp hrun
  obtain ⟨h, hin, hdecided⟩ := List.any_eq_true.mp huntested
  obtain ⟨happlicable, hkey, hvalue, hruns⟩ := of_decide_eq_true hdecided
  rcases hall s (Reach.of_foldlM (.start noHandovers_start) hs) h hin test happlicable key hreads
      hkey value hvalue with ⟨r, hr, heq, -, hpassed, hget, -⟩ | ⟨r, hr, heq, -, -, hunanswered⟩
  · exact (hruns r hr heq).2 hget hpassed
  · exact (hruns r hr heq).1 hunanswered

def optionalProbe : CredentialTest := probeOf "extra" false .cheap none

def roleOfAlpha : LlmRole := ⟨"VENDOR", "MODEL", "EFFORT", "FALLBACKS"⟩

def firstProbe : CredentialTest :=
  probeOf "llm:a" true .cheap (some (⟨"anthropic", "a", "max"⟩, roleOfAlpha))

def secondProbe : CredentialTest :=
  probeOf "llm:b" true .cheap (some (⟨"anthropic", "b", "max"⟩, roleOfAlpha))

/-- A pass of the value before a rotation stands in for the value after it; an optional test that
refuses its value does not hold it back; and the key of a candidate that was passed over is handed
over with another candidate of its vendor. -/
theorem untested_values : let reads := fun _ : CredentialTest => ["ANTHROPIC_API_KEY"];
    (¬ ∀ s, Reach (masterStep (alphaSetup [costlyProbe])) (fun _ _ => True) MasterState.Start s →
      CredentialsTested (alphaSetup [costlyProbe]) reads s) ∧
    (¬ ∀ s, Reach (masterStep (alphaSetup [optionalProbe])) (fun _ _ => True) MasterState.Start s →
      CredentialsTested (alphaSetup [optionalProbe]) reads s) ∧
    ¬ ∀ s, Reach (masterStep (alphaSetup [firstProbe, secondProbe])) (fun _ _ => True)
        MasterState.Start s →
      CredentialsTested (alphaSetup [firstProbe, secondProbe]) reads s := by
  have hkey : "ANTHROPIC_API_KEY" ∈ ["ANTHROPIC_API_KEY"] := List.mem_singleton_self _
  refine ⟨?_, ?_, ?_⟩
  · refine not_tested_of_untested costlyProbe "new"
      [activateAlpha "old" [], activateAlpha "new" ["llm"]] hkey ?_
    decide +kernel
  · refine not_tested_of_untested optionalProbe "key" [activateAlpha "key" ["extra"]] hkey ?_
    decide +kernel
  · refine not_tested_of_untested firstProbe "key" [activateAlpha "key" ["llm:a"]] hkey ?_
    decide +kernel

end TradingAgents.Master
