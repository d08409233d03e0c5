import Mathlib.Data.List.Nodup
import TradingAgents.Master.CredentialCheck
import TradingAgents.ProofKit.Grouping

/-! The choice of a candidate.  Every candidate is probed with all its tests; the first proven one
is handed over with each later proven one, or the first that was only unanswered, alone; every other
one is passed over and leaves nothing in the evidence. -/

namespace TradingAgents.Master

open ProofKit

/-- The probes of the candidates, each with the candidate that it proves. -/
def candidateEntries (tests : List CredentialTest) : List (CredentialTest × LlmCandidate) :=
  tests.filterMap fun test => test.choice.map fun c => (test, c.1)

section

variable (m : MasterSetup) (w : Surroundings) (check : Nat) (agentType : String)

/-- Probe every candidate and report the choice. -/
def chooseLlm (config : Config) (tests : List CredentialTest) : CheckM CredentialTestReport := do
  let tried ← (candidateGroups (candidateEntries tests)).entries.foldlM
    (runGroup m w check agentType config) []
  pure (choiceReport tests config .empty tried)

end

/-! ### What one probe did -/

/-- A probe and what it answered; one that a fresh pass stood in for answered nothing. -/
abbrev Probed := CredentialTest × Option CheckResult

/-- The outcomes with one probe under its name. -/
def Outcomes.file (o : Outcomes) (p : Probed) : Outcomes :=
  let o := { o with applicable := o.applicable ++ [p.1.name] }
  match p.2 with
  | none => { o with cached := o.cached ++ [p.1.name] }
  | some result => o.answered p.1 result

def filed (probed : List Probed) : Outcomes := probed.foldl Outcomes.file .empty

/-- The live run that a probe leaves. -/
def Probed.run (w : Surroundings) (check : Nat) (agentType : String) (config : Config)
    (p : Probed) : Option TestRun :=
  p.2.map fun result => ⟨p.1, agentType, config, result.status, w.recordAt p.1, check⟩

/-- The probes were made on the config, one after the other: each was answered, or is costly and its
name has a pass. -/
structure ProbesMade (w : Surroundings) (check : Nat) (agentType : String) (config : Config)
    (cache cache' : PassCache) (probed : List Probed) : Prop where
  live : cache'.runs = cache.runs ++ probed.filterMap (Probed.run w check agentType config)
  answered : ∀ p ∈ probed, ∀ result, p.2 = some result → w.answer p.1 config = some result
  reused : ∀ p ∈ probed, p.2 = none →
    p.1.cost = .costly ∧ (cache'.passes.get? p.1.name).isSome = true
  kept : ∀ name, (cache.passes.get? name).isSome = true →
    (cache'.passes.get? name).isSome = true

section

variable {m : MasterSetup} {w : Surroundings} {check : Nat} {agentType : String} {config : Config}
  {cache cache' cache'' : PassCache} {tests : List CredentialTest}

theorem ProbesMade.nil : ProbesMade w check agentType config cache cache [] where
  live := (List.append_nil _).symm
  answered := fun _ h => absurd h List.not_mem_nil
  reused := fun _ h => absurd h List.not_mem_nil
  kept := fun _ h => h

theorem ProbesMade.append {probed more : List Probed}
    (h : ProbesMade w check agentType config cache cache' probed)
    (h' : ProbesMade w check agentType config cache' cache'' more) :
    ProbesMade w check agentType config cache cache'' (probed ++ more) where
  live := by rw [h'.live, h.live, List.append_assoc, List.filterMap_append]
  answered := fun p hp => (List.mem_append.mp hp).elim (h.answered p) (h'.answered p)
  reused := fun p hp hnone => (List.mem_append.mp hp).elim
    (fun hp => ⟨(h.reused p hp hnone).1, h'.kept _ (h.reused p hp hnone).2⟩)
    (fun hp => h'.reused p hp hnone)
  kept := fun name hname => h'.kept name (h.kept name hname)

/-- A pass stays remembered when a test answers. -/
theorem PassCache.answered_kept {test : CredentialTest} {result : CheckResult} {name : String}
    (h : (cache.passes.get? name).isSome = true) :
    ((cache.answered w check agentType test config result).passes.get? name).isSome = true := by
  unfold PassCache.answered
  dsimp only
  split
  · rw [Dict.get?_set]
    split
    · rfl
    · exact h
  · exact h

theorem PassCache.fresh_get? {name : String} {now : Int}
    (h : cache.fresh m.ttlMinutes name now = true) :
    (cache.passes.get? name).isSome = true := by
  unfold PassCache.fresh at h
  cases hget : cache.passes.get? name with
  | none =>
    rw [hget] at h
    cases h
  | some recordedAt => rfl

/-- Running a test that is answered files one probe of it. -/
theorem Outcomes.run_files {test : CredentialTest} (o : Outcomes)
    (hanswer : (w.answer test config).isSome = true) :
    Ends (Outcomes.run m w check agentType config o test) cache
      (fun o' cache' => ∃ p : Probed, p.1 = test ∧ o' = o.file p ∧
        ProbesMade w check agentType config cache cache' [p]) fun _ => False := by
  refine Ends.bind (Ends.get (Q := fun a v => cache = a ∧ cache = v) ⟨rfl, rfl⟩) ?_
  rintro _ _ ⟨rfl, rfl⟩
  split
  · rename_i hskip
    refine Ends.pure ⟨(test, none), rfl, rfl, (List.append_nil _).symm, ?_, ?_, fun _ h => h⟩
    · rintro p hp result hresult
      rw [List.mem_singleton.mp hp] at hresult
      cases hresult
    · rintro p hp -
      rw [List.mem_singleton.mp hp]
      exact ⟨hskip.1, PassCache.fresh_get? hskip.2⟩
  · obtain ⟨result, hresult⟩ := Option.isSome_iff_exists.mp hanswer
    rw [hresult]
    refine Ends.bind (Ends.modify (Q := fun _ v =>
      v = cache.answered w check agentType test config result) rfl) ?_
    rintro _ _ rfl
    refine Ends.pure ⟨(test, some result), rfl, rfl, rfl, ?_, ?_,
      fun _ => PassCache.answered_kept⟩
    · rintro p hp r hr
      rw [List.mem_singleton.mp hp] at hr ⊢
      cases hr
      exact hresult
    · rintro p hp hnone
      rw [List.mem_singleton.mp hp] at hnone
      cases hnone

/-- The tests of a group are all probed, in their order. -/
theorem runTests_files (hanswers : ∀ test ∈ tests, (w.answer test config).isSome = true) :
    Ends (runTests m w check agentType config tests) cache
      (fun o cache' => ∃ probed : List Probed, probed.map Prod.fst = tests ∧ o = filed probed ∧
        ProbesMade w check agentType config cache cache' probed) fun _ => False := by
  refine Ends.foldlM_done (I := fun done o cache' => ∃ probed : List Probed,
    probed.map Prod.fst = done ∧ o = filed probed ∧
      ProbesMade w check agentType config cache cache' probed) ?_ ⟨[], rfl, rfl, .nil⟩
  rintro done test rest rfl o t ⟨probed, hdone, rfl, hmade⟩
  refine (Outcomes.run_files (filed probed) (hanswers test (by simp))).mono ?_ fun _ h => h
  rintro o' t' ⟨p, htest, rfl, hp⟩
  refine ⟨probed ++ [p], ?_, ?_, hmade.append hp⟩
  · rw [List.map_append, hdone, List.map_singleton, htest]
  · exact (List.foldl_concat _ _ _ _).symm

/-- The tests of one candidate, in the order of the list. -/
def probesOf (tests : List CredentialTest) (candidate : LlmCandidate) : List CredentialTest :=
  tests.filter fun test => decide (test.choice.map Prod.fst = some candidate)

theorem filter_candidateEntries (candidate : LlmCandidate) :
    ((candidateEntries tests).filter fun e => decide (e.2 = candidate)).map Prod.fst =
      probesOf tests candidate := by
  unfold candidateEntries probesOf
  induction tests with
  | nil => rfl
  | cons test rest ih =>
    cases hchoice : test.choice with
    | none => simpa [hchoice] using ih
    | some c =>
      by_cases hc : c.1 = candidate
      · simpa [hchoice, hc] using ih
      · simpa [hchoice, hc] using ih

theorem candidateGroups_eq (entries : List (CredentialTest × LlmCandidate)) :
    candidateGroups entries = groupBy Prod.snd Prod.fst entries := rfl

/-- The declared candidates, each where it comes first. -/
def declared (tests : List CredentialTest) : List LlmCandidate :=
  ((candidateEntries tests).map Prod.snd).reverse.dedup.reverse

theorem nodup_declared (tests : List CredentialTest) : (declared tests).Nodup :=
  List.nodup_reverse.mpr (List.nodup_dedup _)

theorem mem_declared {candidate : LlmCandidate} (h : candidate ∈ declared tests) :
    ∃ test ∈ tests, ∃ role, test.choice = some (candidate, role) := by
  have hmem : candidate ∈ (candidateEntries tests).map Prod.snd := by
    simpa [declared] using h
  obtain ⟨e, he, rfl⟩ := List.mem_map.mp hmem
  obtain ⟨test, htest, hentry⟩ := List.mem_filterMap.mp he
  obtain ⟨c, hchoice, rfl⟩ := Option.map_eq_some_iff.mp hentry
  exact ⟨test, htest, c.2, hchoice⟩

/-- The groups are the declared candidates, each with its tests. -/
theorem candidateGroups_entries : (candidateGroups (candidateEntries tests)).entries =
    (declared tests).map fun candidate => (candidate, probesOf tests candidate) := by
  have hkeys : (candidateGroups (candidateEntries tests)).keys = declared tests := by
    rw [candidateGroups_eq, keys_groupBy]
    rfl
  rw [← hkeys]
  unfold Dict.keys
  rw [List.map_map]
  refine (List.map_id' _).symm.trans (List.map_congr_left fun g hg => ?_)
  have hget : ((groupBy Prod.snd Prod.fst (candidateEntries tests)).get? g.1).getD [] = _ :=
    getD_groupBy _ _
  rw [← candidateGroups_eq, Dict.mem_entries_iff.mp hg, Option.getD_some,
    filter_candidateEntries] at hget
  exact Prod.ext rfl hget

/-- The probes of every candidate, and what came of each candidate. -/
abbrev ProbedCandidate := LlmCandidate × List Probed

def outcomesOf (probes : List ProbedCandidate) : List (LlmCandidate × Outcomes) :=
  probes.map fun g => (g.1, filed g.2)

/-- Every declared candidate is probed with all its tests. -/
structure AllProbed (w : Surroundings) (check : Nat) (agentType : String) (config : Config)
    (tests : List CredentialTest) (cache cache' : PassCache) (probes : List ProbedCandidate) :
    Prop where
  probed : (probes.map fun g => (g.1, g.2.map Prod.fst)) =
    (declared tests).map fun candidate => (candidate, probesOf tests candidate)
  made : ProbesMade w check agentType config cache cache' (probes.flatMap Prod.snd)

theorem tried_files (hanswers : ∀ test ∈ tests, test.choice ≠ none →
      (w.answer test config).isSome = true) :
    Ends ((candidateGroups (candidateEntries tests)).entries.foldlM
        (runGroup m w check agentType config) []) cache
      (fun tried cache' => ∃ probes, tried = outcomesOf probes ∧
        AllProbed w check agentType config tests cache cache' probes) fun _ => False := by
  have hloop : Ends ((candidateGroups (candidateEntries tests)).entries.foldlM
      (runGroup m w check agentType config) []) cache
      (fun tried cache' => ∃ probes : List ProbedCandidate, tried = outcomesOf probes ∧
        (probes.map fun g => (g.1, g.2.map Prod.fst)) =
          (candidateGroups (candidateEntries tests)).entries ∧
        ProbesMade w check agentType config cache cache' (probes.flatMap Prod.snd))
      fun _ => False := by
    refine Ends.foldlM_done (I := fun done tried cache' => ∃ probes : List ProbedCandidate,
      tried = outcomesOf probes ∧ (probes.map fun g => (g.1, g.2.map Prod.fst)) = done ∧
        ProbesMade w check agentType config cache cache' (probes.flatMap Prod.snd)) ?_
      ⟨[], rfl, rfl, .nil⟩
    rintro done ⟨candidate, group⟩ rest hsplit _ t ⟨probes, rfl, hdone, hmade⟩
    have hgroup : ∀ test ∈ group, (w.answer test config).isSome = true := by
      intro test htest
      have hmem : (candidate, group) ∈ (declared tests).map
          fun candidate => (candidate, probesOf tests candidate) := by
        rw [← candidateGroups_entries, hsplit]
        simp
      obtain ⟨c, -, hc⟩ := List.mem_map.mp hmem
      cases hc
      obtain ⟨hin, hchoice⟩ := List.mem_filter.mp htest
      refine hanswers test hin fun hnone => ?_
      rw [hnone] at hchoice
      cases of_decide_eq_true hchoice
    refine Ends.bind (runTests_files hgroup) ?_
    rintro _ t' ⟨probed, htests, rfl, hmore⟩
    refine Ends.pure ⟨probes ++ [(candidate, probed)], ?_, ?_, ?_⟩
    · simp [outcomesOf]
    · rw [List.map_append, hdone, List.map_singleton, htests]
    · rw [List.flatMap_append, List.flatMap_singleton]
      exact hmade.append hmore
  refine hloop.mono ?_ fun _ h => h
  rintro tried cache' ⟨probes, htried, hgroups, hmade⟩
  exact ⟨probes, htried, hgroups.trans candidateGroups_entries, hmade⟩

theorem AllProbed.keys {probes : List ProbedCandidate}
    (h : AllProbed w check agentType config tests cache cache' probes) :
    (outcomesOf probes).map Prod.fst = declared tests := by
  have hmap := congrArg (List.map Prod.fst) h.probed
  rw [List.map_map, List.map_map] at hmap
  unfold outcomesOf
  rw [List.map_map]
  exact hmap.trans (List.map_id _)

end

/-! ### What was chosen -/

/-- A required probe that the vendor refused. -/
def Probed.refused (p : Probed) : Prop :=
  p.1.required = true ∧ ∃ reason, p.2 = some ⟨.credentialFailure, reason⟩

def Probed.unanswered (p : Probed) : Prop := ∃ reason, p.2 = some ⟨.transportFailure, reason⟩

/-- The first proven candidate; with none proven, the first that was not refused. -/
def FirstChoice (before : List (LlmCandidate × Outcomes)) (chosen : LlmCandidate × Outcomes)
    (after : List (LlmCandidate × Outcomes)) : Prop :=
  (chosen.2.proven = true ∧ ∀ item ∈ before, item.2.proven = false) ∨
    ((∀ item ∈ before ++ chosen :: after, item.2.proven = false) ∧
      chosen.2.failedRequired = [] ∧ ∀ item ∈ before, item.2.failedRequired ≠ [])

/-- Of the vendor keys that the config held, apart from the keys that the role itself writes, it
keeps exactly those of the vendors that are handed over. -/
def KeysWithheld (config : Config) (report : CredentialTestReport) : Prop :=
  ∀ p ∈ keyEnv, p.2 ∉ report.roleKeys → report.config.get? p.2 =
    if p.1 ∈ report.candidates.map LlmCandidate.vendor then config.get? p.2 else none

/-- What is reported of a chosen candidate, those before it and those after it. -/
structure HandedChoice (config : Config) (before : List (LlmCandidate × Outcomes))
    (chosen : LlmCandidate × Outcomes) (after : List (LlmCandidate × Outcomes))
    (report : CredentialTestReport) : Prop where
  first : FirstChoice before chosen after
  candidates : report.candidates =
    chosen.1 :: (after.filter fun item => item.2.proven).map Prod.fst
  alone : chosen.2.proven = false → report.candidates = [chosen.1]
  parted : (report.candidates ++
      (before ++ after.filter fun item => !item.2.proven).map Prod.fst).Perm
    ((before ++ chosen :: after).map Prod.fst)
  passedOver : report.llmPassedOver = (before ++ after.filter fun item => !item.2.proven).map
    fun item => item.1.label ++ ": " ++ item.2.firstReason
  outcomes : report.outcomes = (chosen :: after.filter fun item => item.2.proven).foldl
    (fun o item => o.extend item.2) .empty
  keys : KeysWithheld config report
  others : ∀ key, key ∉ report.roleKeys → key ∉ keyEnv.map Prod.snd →
    report.config.get? key = config.get? key

/-- One candidate is handed over, or every one was refused and every refusal is reported. -/
inductive Choice (config : Config) (tried : List (LlmCandidate × Outcomes))
    (report : CredentialTestReport) : Prop
  | handed (before : List (LlmCandidate × Outcomes)) (chosen : LlmCandidate × Outcomes)
      (after : List (LlmCandidate × Outcomes)) (htried : tried = before ++ chosen :: after)
      (hchoice : HandedChoice config before chosen after report)
  | refused (hrefused : ∀ item ∈ tried, item.2.failedRequired ≠ [])
      (hreport : report = ⟨config, tried.foldl (fun o item => o.extend item.2) .empty, [], [], []⟩)

section

variable {config : Config} {tests : List CredentialTest}
  {before after tried : List (LlmCandidate × Outcomes)} {chosen : LlmCandidate × Outcomes}

/-- The two passes over the tried candidates. -/
theorem chooseTried_cases (tried : List (LlmCandidate × Outcomes)) :
    (chooseTried tried = none ∧ ∀ item ∈ tried, item.2.failedRequired ≠ []) ∨
      ∃ before chosen after, tried = before ++ chosen :: after ∧
        chooseTried tried = some chosen ∧ FirstChoice before chosen after := by
  unfold chooseTried
  cases hproven : tried.find? fun item => item.2.proven with
  | some chosen =>
    obtain ⟨hchosen, before, after, hsplit, hbefore⟩ := List.find?_eq_some_iff_append.mp hproven
    refine .inr ⟨before, chosen, after, hsplit, rfl, .inl ⟨hchosen, fun item hitem => ?_⟩⟩
    simpa using hbefore item hitem
  | none =>
    have hnone : ∀ item ∈ tried, item.2.proven = false := fun item hitem => by
      simpa using List.find?_eq_none.mp hproven item hitem
    cases hopen : tried.find? fun item => item.2.failedRequired.isEmpty with
    | none =>
      refine .inl ⟨rfl, fun item hitem => ?_⟩
      simpa using List.find?_eq_none.mp hopen item hitem
    | some chosen =>
      obtain ⟨hchosen, before, after, hsplit, hbefore⟩ := List.find?_eq_some_iff_append.mp hopen
      refine .inr ⟨before, chosen, after, hsplit, rfl, .inr ⟨hsplit ▸ hnone, ?_, ?_⟩⟩
      · exact List.isEmpty_iff.mp hchosen
      · intro item hitem
        simpa using hbefore item hitem

theorem drop_idxOf (hkeys : ((before ++ chosen :: after).map Prod.fst).Nodup) :
    (before ++ chosen :: after).drop ((before ++ chosen :: after).idxOf chosen + 1) = after := by
  have hnotin : chosen ∉ before := by
    have hnodup := List.Nodup.of_map _ hkeys
    intro hmem
    exact (List.nodup_append.mp hnodup).2.2 chosen hmem chosen List.mem_cons_self rfl
  rw [List.idxOf_append_of_notMem hnotin, List.idxOf_cons_self, Nat.add_zero]
  exact List.drop_length_add_append 1

/-- A later candidate is among the fallbacks if and only if it is proven. -/
theorem mem_fallbacks (hkeys : (after.map Prod.fst).Nodup) {item : LlmCandidate × Outcomes}
    (hitem : item ∈ after) :
    item.1 ∈ (after.filter fun item => item.2.proven).map Prod.fst ↔ item.2.proven = true := by
  constructor
  · intro h
    obtain ⟨other, hother, hsame⟩ := List.mem_map.mp h
    obtain ⟨hin, hproven⟩ := List.mem_filter.mp hother
    rwa [← List.inj_on_of_nodup_map hkeys hin hitem hsame]
  · exact fun h => List.mem_map_of_mem (List.mem_filter.mpr ⟨hitem, h⟩)

theorem named_eq (hkeys : (after.map Prod.fst).Nodup) :
    (after.filter fun item => decide (item.1 ∈
      (after.filter fun item => item.2.proven).map Prod.fst)) =
    after.filter fun item => item.2.proven := by
  refine List.filter_congr fun item hitem => ?_
  rw [Bool.eq_iff_iff, decide_eq_true_iff]
  exact mem_fallbacks hkeys hitem

/-- The candidates that are neither chosen nor a fallback come before the chosen one, or after it
and are not proven. -/
theorem passed_eq (hkeys : ((before ++ chosen :: after).map Prod.fst).Nodup) :
    ((before ++ chosen :: after).filter fun item => decide (item.1 ≠ chosen.1 ∧
      item.1 ∉ (after.filter fun item => item.2.proven).map Prod.fst)) =
    before ++ after.filter fun item => !item.2.proven := by
  rw [List.map_append, List.map_cons, List.nodup_append] at hkeys
  obtain ⟨-, htail, hapart⟩ := hkeys
  obtain ⟨hchosen, hafter⟩ := List.nodup_cons.mp htail
  rw [List.filter_append, List.filter_cons_of_neg (by simp)]
  congr 1
  · refine List.filter_eq_self.mpr fun item hitem => ?_
    have hne := hapart item.1 (List.mem_map_of_mem hitem)
    refine decide_eq_true ⟨hne chosen.1 List.mem_cons_self, fun hfallback => ?_⟩
    obtain ⟨other, hother, hsame⟩ := List.mem_map.mp hfallback
    exact hne item.1 (List.mem_cons_of_mem _ (hsame ▸
      List.mem_map_of_mem (List.mem_of_mem_filter hother))) rfl
  · refine List.filter_congr fun item hitem => ?_
    have hne : item.1 ≠ chosen.1 := fun hsame => hchosen (hsame ▸ List.mem_map_of_mem hitem)
    rw [Bool.eq_iff_iff, decide_eq_true_iff, mem_fallbacks hafter hitem]
    simp [hne]

theorem parted_perm : ((chosen.1 :: (after.filter fun item => item.2.proven).map Prod.fst) ++
      (before ++ after.filter fun item => !item.2.proven).map Prod.fst).Perm
    ((before ++ chosen :: after).map Prod.fst) := by
  rw [← List.map_cons, ← List.map_append]
  refine List.Perm.map _ ?_
  calc (chosen :: after.filter fun item => item.2.proven) ++
        (before ++ after.filter fun item => !item.2.proven)
    _ = chosen :: ((after.filter fun item => item.2.proven) ++
        (before ++ after.filter fun item => !item.2.proven)) := rfl
    List.Perm _ (chosen :: (before ++ ((after.filter fun item => item.2.proven) ++
        after.filter fun item => !item.2.proven))) :=
      .cons _ (by rw [← List.append_assoc, ← List.append_assoc]
                  exact List.perm_append_comm.append_right _)
    List.Perm _ (chosen :: (before ++ after)) :=
      .cons _ ((List.filter_append_perm _ after).append_left before)
    List.Perm _ (before ++ chosen :: after) := List.perm_middle.symm

/-- A candidate that was tried carries a role. -/
theorem roleOf_declared {candidate : LlmCandidate} (h : candidate ∈ declared tests) :
    ∃ role, roleOf tests candidate = some role := by
  obtain ⟨test, htest, role, hchoice⟩ := mem_declared h
  unfold roleOf
  rw [← Option.isSome_iff_exists, List.findSome?_isSome_iff]
  refine ⟨(candidate, role), List.mem_filterMap.mpr ⟨test, List.mem_reverse.mpr htest, hchoice⟩, ?_⟩
  rw [if_pos rfl]
  rfl

/-- A handed config away from the keys that the role writes. -/
theorem get?_handOver {candidate : LlmCandidate} {fallbacks : List LlmCandidate} {role : LlmRole}
    {key : String} (hkey : key ∉ role.keys) :
    (handOver config candidate fallbacks role).get? key =
      if key ∈ (keyEnv.filter fun p => decide (p.1 ∉ candidate.vendor ::
        fallbacks.map LlmCandidate.vendor)).map Prod.snd then none else config.get? key := by
  simp only [LlmRole.keys, List.mem_cons, List.not_mem_nil, or_false, not_or] at hkey
  obtain ⟨hvendor, hmodel, heffort, hfallbacks⟩ := hkey
  unfold handOver
  rw [Dict.get?_set_ne _ _ hfallbacks, Dict.get?_set_ne _ _ heffort, Dict.get?_set_ne _ _ hmodel,
    Dict.get?_set_ne _ _ hvendor, Dict.get?_eraseAll]

/-- The key of a vendor is withheld if and only if the vendor is not used. -/
theorem mem_unused {vendors : List String} {p : String × String} (hp : p ∈ keyEnv) :
    p.2 ∈ (keyEnv.filter fun p => decide (p.1 ∉ vendors)).map Prod.snd ↔ p.1 ∉ vendors := by
  constructor
  · intro h
    obtain ⟨q, hq, hsame⟩ := List.mem_map.mp h
    obtain ⟨hin, hunused⟩ := List.mem_filter.mp hq
    rw [← List.inj_on_of_nodup_map (by decide) hin hp hsame]
    exact of_decide_eq_true hunused
  · exact fun h => List.mem_map_of_mem (List.mem_filter.mpr ⟨hp, decide_eq_true h⟩)

theorem handed_report (hkeys : ((before ++ chosen :: after).map Prod.fst).Nodup)
    (hchosen : chooseTried (before ++ chosen :: after) = some chosen)
    (hfirst : FirstChoice before chosen after) (hdeclared : chosen.1 ∈ declared tests) :
    HandedChoice config before chosen after
      (choiceReport tests config .empty (before ++ chosen :: after)) := by
  obtain ⟨role, hrole⟩ := roleOf_declared hdeclared
  have hafter : (after.map Prod.fst).Nodup := by
    rw [List.map_append, List.map_cons, List.nodup_append] at hkeys
    exact (List.nodup_cons.mp hkeys.2.1).2
  have hreport : choiceReport tests config .empty (before ++ chosen :: after) =
      ⟨handOver config chosen.1 ((after.filter fun item => item.2.proven).map Prod.fst) role,
        (chosen :: after.filter fun item => item.2.proven).foldl
          (fun o item => o.extend item.2) .empty,
        chosen.1 :: (after.filter fun item => item.2.proven).map Prod.fst, role.keys,
        (before ++ after.filter fun item => !item.2.proven).map
          fun item => item.1.label ++ ": " ++ item.2.firstReason⟩ := by
    unfold choiceReport
    rw [hchosen]
    dsimp only
    rw [hrole, drop_idxOf hkeys, named_eq hafter, passed_eq hkeys]
    rfl
  rw [hreport]
  refine ⟨hfirst, rfl, fun hopen => ?_, parted_perm, rfl, rfl, fun p hp hrole => ?_,
    fun key hrole hkey => ?_⟩
  · rcases hfirst with ⟨hproven, -⟩ | ⟨hnone, -⟩
    · rw [hopen] at hproven
      cases hproven
    · have hempty : (after.filter fun item => item.2.proven) = [] :=
        List.filter_eq_nil_iff.mpr fun item hitem => by
          simp [hnone item (List.mem_append_right _ (List.mem_cons_of_mem _ hitem))]
      rw [hempty]
      rfl
  · rw [get?_handOver hrole]
    by_cases hused : p.1 ∈ chosen.1.vendor ::
        ((after.filter fun item => item.2.proven).map Prod.fst).map LlmCandidate.vendor
    · rw [if_neg fun h => (mem_unused hp).mp h hused]
      exact (if_pos hused).symm
    · rw [if_pos ((mem_unused hp).mpr hused)]
      exact (if_neg hused).symm
  · rw [get?_handOver hrole, if_neg fun h => hkey ?_]
    obtain ⟨q, hq, hsame⟩ := List.mem_map.mp h
    exact hsame ▸ List.mem_map_of_mem (List.mem_of_mem_filter hq)

theorem choiceReport_choice (hkeys : (tried.map Prod.fst).Nodup)
    (hdeclared : ∀ item ∈ tried, item.1 ∈ declared tests) :
    Choice config tried (choiceReport tests config .empty tried) := by
  rcases chooseTried_cases tried with ⟨hnone, hrefused⟩ |
    ⟨before, chosen, after, rfl, hchosen, hfirst⟩
  · refine .refused hrefused ?_
    unfold choiceReport
    rw [hnone]
  · refine .handed before chosen after rfl (handed_report hkeys hchosen hfirst ?_)
    exact hdeclared chosen (List.mem_append_right _ List.mem_cons_self)

/-! ### What the outcomes say -/

theorem filed_append (probed : List Probed) (p : Probed) :
    filed (probed ++ [p]) = (filed probed).file p := List.foldl_concat _ _ _ _

theorem Outcomes.file_failedRequired (o : Outcomes) (p : Probed) :
    (o.file p).failedRequired = [] ↔ o.failedRequired = [] ∧ ¬ p.refused := by
  obtain ⟨test, answer⟩ := p
  unfold Outcomes.file Probed.refused
  cases answer with
  | none => simp
  | some result =>
    obtain ⟨status, reason⟩ := result
    unfold Outcomes.answered
    cases status <;> cases hrequired : test.required <;> simp

theorem Outcomes.file_transportFailures (o : Outcomes) (p : Probed) :
    (o.file p).transportFailures = [] ↔ o.transportFailures = [] ∧ ¬ p.unanswered := by
  obtain ⟨test, answer⟩ := p
  unfold Outcomes.file Probed.unanswered
  cases answer with
  | none => simp
  | some result =>
    obtain ⟨status, reason⟩ := result
    unfold Outcomes.answered
    cases status <;> cases hrequired : test.required <;> simp

theorem filed_failedRequired (probed : List Probed) :
    (filed probed).failedRequired = [] ↔ ∀ p ∈ probed, ¬ p.refused := by
  induction probed using List.reverseRecOn with
  | nil => exact ⟨fun _ _ h => absurd h List.not_mem_nil, fun _ => rfl⟩
  | append_singleton probed p ih =>
    rw [filed_append, Outcomes.file_failedRequired, ih]
    simp [or_imp, forall_and]

theorem filed_transportFailures (probed : List Probed) :
    (filed probed).transportFailures = [] ↔ ∀ p ∈ probed, ¬ p.unanswered := by
  induction probed using List.reverseRecOn with
  | nil => exact ⟨fun _ _ h => absurd h List.not_mem_nil, fun _ => rfl⟩
  | append_singleton probed p ih =>
    rw [filed_append, Outcomes.file_transportFailures, ih]
    simp [or_imp, forall_and]

theorem filed_proven (probed : List Probed) :
    (filed probed).proven = true ↔ ∀ p ∈ probed, ¬ p.refused ∧ ¬ p.unanswered := by
  unfold Outcomes.proven
  rw [Bool.and_eq_true, List.isEmpty_iff, List.isEmpty_iff, filed_failedRequired,
    filed_transportFailures]
  exact ⟨fun h p hp => ⟨h.1 p hp, h.2 p hp⟩, fun h =>
    ⟨fun p hp => (h p hp).1, fun p hp => (h p hp).2⟩⟩

/-- What the outcomes of a candidate say of its probes. -/
def Judged (probes : List ProbedCandidate) : Prop :=
  ∀ g ∈ probes, ((filed g.2).failedRequired = [] ↔ ∀ p ∈ g.2, ¬ p.refused) ∧
    ((filed g.2).proven = true ↔ ∀ p ∈ g.2, ¬ p.refused ∧ ¬ p.unanswered)

/-! ### The choice in the check of an agent type -/

theorem Outcomes.extend_assoc (a b c : Outcomes) :
    (a.extend b).extend c = a.extend (b.extend c) := by
  simp [Outcomes.extend]

theorem Outcomes.extend_empty (o : Outcomes) : o.extend .empty = o := by
  simp [Outcomes.extend, Outcomes.empty]

theorem foldl_extend (items : List (LlmCandidate × Outcomes)) (base o : Outcomes) :
    items.foldl (fun o item => o.extend item.2) (base.extend o) =
      base.extend (items.foldl (fun o item => o.extend item.2) o) := by
  induction items generalizing o with
  | nil => rfl
  | cons item rest ih =>
    rw [List.foldl_cons, List.foldl_cons, Outcomes.extend_assoc, ih]

/-- The outcomes of the choice come after those of the other tests. -/
theorem choiceReport_base (tests : List CredentialTest) (config : Config) (base : Outcomes)
    (tried : List (LlmCandidate × Outcomes)) : choiceReport tests config base tried =
      { choiceReport tests config .empty tried with
        outcomes := base.extend (choiceReport tests config .empty tried).outcomes } := by
  unfold choiceReport
  split
  · dsimp only
    rw [← foldl_extend, Outcomes.extend_empty]
  · rename_i chosen _
    have hchosen : base.extend chosen.2 = base.extend (Outcomes.empty.extend chosen.2) := rfl
    dsimp only
    rw [hchosen, foldl_extend]
    split <;> rfl

/-- A check of an agent type with candidates makes the choice after its other tests. -/
theorem resolveAndTestReport_chooses (m : MasterSetup) (w : Surroundings) (check : Nat)
    (agentType : String) : resolveAndTestReport m w check agentType = (do
      let config ← resolveConfig m w agentType
      let tests := m.applicable agentType
      let outcomes ← runTests m w check agentType config
        (tests.filter fun test => test.choice.isNone)
      if candidateEntries tests = [] then pure (config, ⟨config, outcomes, [], [], []⟩)
      else
        let report ← chooseLlm m w check agentType config tests
        pure (config, { report with outcomes := outcomes.extend report.outcomes })) := by
  unfold resolveAndTestReport chooseLlm
  simp only [bind_assoc, pure_bind, ← choiceReport_base]
  rfl

/-- Every candidate is probed.  The first proven one is handed over, else the first that was not
refused, alone; its fallbacks are the later proven ones, and every other candidate is passed over
and leaves nothing in the evidence.  Of the vendor keys that the config held it keeps those of the
vendors handed over.  When every candidate was refused the config stays and every refusal is
reported. -/
theorem choose_llm_choice (m : MasterSetup) (w : Surroundings) (check : Nat) (agentType : String)
    (config : Config) (tests : List CredentialTest) (cache : PassCache)
    (hanswers : ∀ test ∈ tests, test.choice ≠ none → (w.answer test config).isSome = true) :
    ∃ probes report cache', (chooseLlm m w check agentType config tests).run cache =
        .ok report cache' ∧
      AllProbed w check agentType config tests cache cache' probes ∧ Judged probes ∧
      (declared tests).Nodup ∧ Choice config (outcomesOf probes) report := by
  have hends : Ends (chooseLlm m w check agentType config tests) cache
      (fun report cache' => ∃ probes,
        AllProbed w check agentType config tests cache cache' probes ∧
        Choice config (outcomesOf probes) report) fun _ => False := by
    refine Ends.bind (tried_files hanswers) ?_
    rintro _ cache' ⟨probes, rfl, hprobed⟩
    refine Ends.pure ⟨probes, hprobed, choiceReport_choice ?_ fun item hitem => ?_⟩
    · rw [hprobed.keys]
      exact nodup_declared tests
    · rw [← hprobed.keys]
      exact List.mem_map_of_mem hitem
  obtain ⟨report, cache', hrun, probes, hprobed, hchoice⟩ := hends.exists_ok
  exact ⟨probes, report, cache', hrun, hprobed,
    fun g _ => ⟨filed_failedRequired g.2, filed_proven g.2⟩, nodup_declared tests, hchoice⟩

end

/-! ### A candidate of each vendor -/

def shortlistRole : LlmRole := ⟨"LLM_PROVIDER", "LLM_MODEL", "LLM_EFFORT", "LLM_FALLBACKS"⟩

def openaiProbe : CredentialTest where
  name := "openai/gpt/high"
  required := true
  cost := .costly
  agentTypes := ["deliberator"]
  choice := some (⟨"openai", "gpt", "high"⟩, shortlistRole)

def anthropicProbe : CredentialTest where
  name := "anthropic/opus/high"
  required := true
  cost := .costly
  agentTypes := ["deliberator"]
  choice := some (⟨"anthropic", "opus", "high"⟩, shortlistRole)

/-- Probes that need the key of their vendor. -/
def keyedSurroundings : Surroundings where
  secret := fun _ => none
  answer := fun test config =>
    if (config.get? (if test.name = "openai/gpt/high" then "OPENAI_API_KEY" else
      "ANTHROPIC_API_KEY")).isSome then some ⟨.passed, ""⟩
    else some ⟨.credentialFailure, "no key"⟩
  freshAt := fun _ => 0
  recordAt := fun _ => 0

def shortlistSetup : MasterSetup := ⟨["deliberator"], .empty, [openaiProbe, anthropicProbe], 0⟩

/-- One key: the vendor with the key is chosen and the other is passed over. -/
theorem choose_llm_choice_one_key :
    (∀ test ∈ [openaiProbe, anthropicProbe], test.choice ≠ none →
      (keyedSurroundings.answer test (.ofList [("ANTHROPIC_API_KEY", "k")])).isSome = true) ∧
    ∃ probes report cache', (chooseLlm shortlistSetup keyedSurroundings 0 "deliberator"
        (.ofList [("ANTHROPIC_API_KEY", "k")]) [openaiProbe, anthropicProbe]).run ⟨.empty, []⟩ =
          .ok report cache' ∧
      AllProbed keyedSurroundings 0 "deliberator" (.ofList [("ANTHROPIC_API_KEY", "k")])
        [openaiProbe, anthropicProbe] ⟨.empty, []⟩ cache' probes ∧ Judged probes ∧
      (declared [openaiProbe, anthropicProbe]).Nodup ∧
      Choice (.ofList [("ANTHROPIC_API_KEY", "k")]) (outcomesOf probes) report :=
  have hanswers : ∀ test ∈ [openaiProbe, anthropicProbe], test.choice ≠ none →
      (keyedSurroundings.answer test (.ofList [("ANTHROPIC_API_KEY", "k")])).isSome = true := by
    decide
  ⟨hanswers, choose_llm_choice shortlistSetup keyedSurroundings 0 "deliberator" _ _ _ hanswers⟩

/-- A pass still stands in for a candidate whose vendor's key is gone from the store: the candidate
is handed over, and the config does not hold the key. -/
theorem key_gone_handed_over :
    ¬ ∀ (m : MasterSetup) (w : Surroundings) (check : Nat) (agentType : String) (config : Config)
      (tests : List CredentialTest) (cache cache' : PassCache) (report : CredentialTestReport),
      (chooseLlm m w check agentType config tests).run cache = .ok report cache' →
      report.candidates ≠ [] → ∀ p ∈ keyEnv, p.2 ∉ report.roleKeys →
        ((report.config.get? p.2).isSome = true ↔
          p.1 ∈ report.candidates.map LlmCandidate.vendor) := by
  intro h
  have hkey := h shortlistSetup keyedSurroundings 1 "deliberator" .empty [openaiProbe]
    ⟨.ofList [("openai/gpt/high", 0)], []⟩ _ _ rfl (by decide) ("openai", "OPENAI_API_KEY")
    (by decide) (by decide)
  revert hkey
  decide

end TradingAgents.Master
