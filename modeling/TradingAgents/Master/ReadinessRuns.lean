import Mathlib
import TradingAgents.Master.FleetPreflight
import TradingAgents.ProofKit.Instant

/-! Preflights and their reader over one graph.  The master records a preflight under the second of
its check, everyone else writes other nodes, and the dispatcher reads the state of the fleet from
the newest record. -/

namespace TradingAgents.ProofKit.Moment

/-- The reading at the start of its second. -/
def onSecond (m : Moment) : Moment := { m with microsecond := 0, microsecond_bound := by decide }

theorem isoformat_onSecond (m : Moment) : m.onSecond.isoformat = m.isoformat := rfl

theorem onSecond_le {a b : Moment} (h : a ≤ b) : a.onSecond ≤ b.onSecond := by
  show a.seconds ++ [0] ≤ b.seconds ++ [0]
  rcases lt_or_eq_of_le (seconds_le h) with hlt | heq
  · exact le_of_lt (append_lt_append hlt rfl)
  · rw [heq]

/-- Two readings in one second have one text. -/
theorem isoformat_eq_of_onSecond {a b : Moment} (h : a.onSecond.micros = b.onSecond.micros) :
    a.isoformat = b.isoformat := by
  have hle : a.onSecond ≤ b.onSecond := le_iff_micros.mpr (le_of_eq h)
  have hge : b.onSecond ≤ a.onSecond := le_iff_micros.mpr (le_of_eq h.symm)
  have hsame : a.onSecond = b.onSecond := fields_inj (le_antisymm hle hge)
  rw [← isoformat_onSecond a, hsame, isoformat_onSecond]

end TradingAgents.ProofKit.Moment

namespace TradingAgents.Master

open Kernel ProofKit
open Orchestration (fleetPreflightLabel DispatchSetup Readiness fleetReadiness latestPreflight
  preflightCheckedAt ReadinessState allFailuresDegradable)

/-- What the master faults: the failures of a preflight, or a preflight that it could not record. -/
inductive FleetFault where
  | failed (message : String) (failures : List String)
  | boundary (error : GraphError)

/-- A preflight that was recorded. -/
structure Check where
  now : Moment
  found : Preflight

structure FleetState where
  graph : PipelineGraph
  cache : PassCache
  turn : Nat
  faults : List FleetFault
  checks : List Check

inductive FleetMove where
  | preflight (now : Moment) (w : String → Surroundings)
  | write (label key : String) (props : Props Document) (schemaVersion : Int)
  | link (parent child : NodeKey) (edgeType : String)

section

variable (m : MasterSetup) (errorName : CheckError → String)

/-- One turn of the preflight loop; what it raises is faulted. -/
def runFleetPreflight (s : FleetState) (now : Moment) (w : String → Surroundings) : FleetState :=
  let (found, cache) := preflightFleet m errorName w s.turn s.cache
  let s := { s with cache, turn := s.turn + 1 }
  match s.graph.mergeNode fleetPreflightLabel (preflightKey now) (preflightProps m now found) with
  | .error e => { s with faults := s.faults ++ [.boundary e] }
  | .ok (graph, _) =>
    let s := { s with graph, checks := s.checks ++ [⟨now, found⟩] }
    if found.failures = [] then s
    else { s with faults := s.faults ++
      [.failed (preflightMessage found.failures) (found.failures.map PreflightFailure.line)] }

/-- A preflight, or a write to the graph by anyone. -/
def fleetStep (s : FleetState) : FleetMove → Except GraphError FleetState
  | .preflight now w => .ok (runFleetPreflight m errorName s now w)
  | .write label key props schemaVersion => do
    let (graph, _) ← s.graph.mergeNode label key props schemaVersion
    return { s with graph }
  | .link parent child edgeType => do
    let graph ← s.graph.addEdge parent child edgeType
    return { s with graph }

end

/-- The clock of the master does not go back, and only the master writes preflights. -/
def FleetMove.Allowed (s : FleetState) : FleetMove → Prop
  | .preflight now _ => ∀ check ∈ s.checks, check.now ≤ now
  | .write label _ _ _ => label ≠ fleetPreflightLabel
  | .link _ _ _ => True

def FleetState.Start (s : FleetState) : Prop :=
  s.graph.listNodes fleetPreflightLabel = [] ∧ s.checks = []

/-- No agent type of the setup holds a colon, and the name of no test starts with one. -/
structure MasterSetup.Legible (m : MasterSetup) : Prop where
  agentTypes : ∀ agentType ∈ m.grantTypes, ¬ Text.Holds ':' agentType
  tests : ∀ test ∈ m.tests, Leads test.name

/-! ### What a preflight finds -/

section

variable {m : MasterSetup} {w : Surroundings} {turn : Nat} {agentType : String} {config : Config}
  {cache : PassCache} {test : CredentialTest} {tests : List CredentialTest}

/-- The failures of some outcomes stand under names of tests. -/
def Outcomes.Named (tests : List CredentialTest) (o : Outcomes) : Prop :=
  ∀ failure ∈ o.credentialFailures ++ o.transportFailures, ∃ test ∈ tests, test.name = failure.1

theorem Outcomes.Named.empty : Outcomes.empty.Named tests :=
  fun _ h => absurd h List.not_mem_nil

theorem Outcomes.Named.extend {o o' : Outcomes} (h : o.Named tests) (h' : o'.Named tests) :
    (o.extend o').Named tests := by
  intro failure hfailure
  show ∃ test ∈ tests, _
  simp only [Outcomes.extend, List.mem_append] at hfailure
  rcases hfailure with (hf | hf) | (hf | hf)
  · exact h failure (List.mem_append_left _ hf)
  · exact h' failure (List.mem_append_left _ hf)
  · exact h failure (List.mem_append_right _ hf)
  · exact h' failure (List.mem_append_right _ hf)

theorem Outcomes.Named.answered {o : Outcomes} (h : o.Named tests) (htest : test ∈ tests)
    (result : CheckResult) : (o.answered test result).Named tests := by
  intro failure hfailure
  unfold Outcomes.answered at hfailure
  cases hstatus : result.status with
  | passed =>
    rw [hstatus] at hfailure
    exact h failure hfailure
  | transportFailure =>
    rw [hstatus] at hfailure
    simp only [List.mem_append, List.mem_singleton] at hfailure
    rcases hfailure with hf | hf | rfl
    · exact h failure (List.mem_append_left _ hf)
    · exact h failure (List.mem_append_right _ hf)
    · exact ⟨test, htest, rfl⟩
  | credentialFailure =>
    rw [hstatus] at hfailure
    have hmem : failure ∈ (o.credentialFailures ++ [(test.name, result.reason)]) ++
        o.transportFailures := by
      dsimp only at hfailure
      split at hfailure <;> exact hfailure
    simp only [List.mem_append, List.mem_singleton] at hmem
    rcases hmem with (hf | rfl) | hf
    · exact h failure (List.mem_append_left _ hf)
    · exact ⟨test, htest, rfl⟩
    · exact h failure (List.mem_append_right _ hf)

theorem Outcomes.run_named {o : Outcomes} (h : o.Named tests) (htest : test ∈ tests) :
    Ends (Outcomes.run m w turn agentType config o test) cache (fun o' _ => o'.Named tests)
      fun _ => True := by
  refine Ends.bind (Ends.get (Q := fun _ _ => True) trivial) ?_
  rintro cache' _ -
  split
  · exact Ends.pure h
  · split
    · exact Ends.throw trivial
    · rename_i result _
      refine Ends.bind (Ends.modify (Q := fun _ _ => True) trivial) ?_
      rintro _ _ -
      exact Ends.pure (Outcomes.Named.answered (o := { o with
        applicable := o.applicable ++ [test.name] }) h htest result)

theorem runTests_named {group : List CredentialTest} (hsub : ∀ test ∈ group, test ∈ tests) :
    Ends (runTests m w turn agentType config group) cache (fun o _ => o.Named tests)
      fun _ => True := by
  refine Ends.foldlM (I := fun (o : Outcomes) (_ : PassCache) => o.Named tests) ?_
    Outcomes.Named.empty
  exact fun test htest o _ ho => Outcomes.run_named ho (hsub test htest)

theorem tried_named {groups : Dict LlmCandidate (List CredentialTest)}
    (hsub : ∀ group ∈ groups.entries, ∀ test ∈ group.2, test ∈ tests) :
    Ends (groups.entries.foldlM (runGroup m w turn agentType config) []) cache
      (fun tried _ => ∀ item ∈ tried, item.2.Named tests) fun _ => True := by
  refine Ends.foldlM (I := fun (tried : List (LlmCandidate × Outcomes)) (_ : PassCache) =>
    ∀ item ∈ tried, item.2.Named tests) ?_ fun _ h => absurd h List.not_mem_nil
  intro group hgroup tried t htried
  refine Ends.bind (runTests_named (hsub group hgroup)) ?_
  rintro outcomes _ houtcomes
  refine Ends.pure fun item hitem => ?_
  rcases List.mem_append.mp hitem with hin | hlast
  · exact htried item hin
  · rw [List.mem_singleton.mp hlast]
    exact houtcomes

theorem foldl_extend_named {tried : List (LlmCandidate × Outcomes)} {o : Outcomes}
    (h : o.Named tests) (htried : ∀ item ∈ tried, item.2.Named tests) :
    (tried.foldl (fun o item => o.extend item.2) o).Named tests := by
  induction tried generalizing o with
  | nil => exact h
  | cons item tried ih =>
    exact ih (h.extend (htried item List.mem_cons_self)) fun other hother =>
      htried other (List.mem_cons_of_mem _ hother)

theorem choiceReport_named {tried : List (LlmCandidate × Outcomes)} {base : Outcomes}
    {carrying : List CredentialTest} (h : base.Named tests)
    (htried : ∀ item ∈ tried, item.2.Named tests) :
    (choiceReport carrying config base tried).outcomes.Named tests := by
  unfold choiceReport
  split
  · exact foldl_extend_named h htried
  · rename_i chosen hchosen
    have hlater : ∀ item ∈ tried.drop (tried.idxOf chosen + 1), item.2.Named tests :=
      fun item hitem => htried item (List.mem_of_mem_drop hitem)
    have hbase := h.extend (htried chosen (chooseTried_ok hchosen).1)
    dsimp only
    split <;> exact foldl_extend_named hbase fun item hitem =>
      hlater item (List.mem_of_mem_filter hitem)

/-- The tests of a candidate came with it. -/
theorem mem_of_candidateGroups {entries : List (CredentialTest × LlmCandidate)}
    {group : LlmCandidate × List CredentialTest}
    (hgroup : group ∈ (candidateGroups entries).entries) (htest : test ∈ group.2) :
    (test, group.1) ∈ entries := by
  have hget : ((candidateGroups entries).get? group.1).getD [] = group.2 := by
    rw [Dict.mem_entries_iff.mp hgroup]
    rfl
  rw [← hget] at htest
  change test ∈ ((groupBy Prod.snd Prod.fst entries).get? group.1).getD [] at htest
  rw [getD_groupBy] at htest
  obtain ⟨⟨carrying, candidate⟩, hentry, rfl⟩ := List.mem_map.mp htest
  obtain ⟨hmem, hsame⟩ := List.mem_filter.mp hentry
  rw [← of_decide_eq_true hsame]
  exact hmem

/-- The failures of a check stand under names of tests. -/
theorem resolveAndTestReport_named : Ends (resolveAndTestReport m w turn agentType) cache
    (fun r _ => r.2.outcomes.Named m.tests) fun _ => True := by
  have happlicable : ∀ test ∈ m.applicable agentType, test ∈ m.tests := fun test htest =>
    List.mem_of_mem_filter htest
  refine Ends.bind (resolveConfig_ends.mono (R := fun _ _ => True) (F := fun _ => True)
    (fun _ _ _ => trivial) fun _ _ => trivial) ?_
  rintro config _ -
  refine Ends.bind (runTests_named fun test htest =>
    happlicable test (List.mem_of_mem_filter htest)) ?_
  rintro outcomes _ houtcomes
  dsimp only
  split
  · exact Ends.pure houtcomes
  · refine Ends.bind (@tried_named m w turn agentType config _ m.tests _
      fun group hgroup test htest => ?_) ?_
    · obtain ⟨carrying, hcarrying, hcandidate⟩ :=
        List.mem_filterMap.mp (mem_of_candidateGroups hgroup htest)
      obtain ⟨c, -, hsame⟩ := Option.map_eq_some_iff.mp hcandidate
      rw [← (Prod.mk.inj hsame).1]
      exact happlicable carrying hcarrying
    · rintro tried _ htried
      exact Ends.pure (choiceReport_named houtcomes htried)

end

section

variable {m : MasterSetup} {errorName : CheckError → String} {w : String → Surroundings}
  {turn : Nat}

/-- What fails of one agent type can be read from its line. -/
theorem reportFailures_legible (hm : m.Legible) {agentType : String}
    (hagent : agentType ∈ m.grantTypes)
    {outcomes : Outcomes} (hnamed : outcomes.Named m.tests) :
    ∀ f ∈ reportFailures agentType outcomes, f.Legible := by
  have hlegible : ∀ failure ∈ outcomes.credentialFailures ++ outcomes.transportFailures,
      ∀ klass ∈ ["unrecoverable", "unexpected", "transient"],
        PreflightFailure.Legible ⟨failure.1, agentType, klass, failure.2⟩ := by
    intro failure hfailure klass hklass
    obtain ⟨test, htest, hname⟩ := hnamed failure hfailure
    exact ⟨hklass, hm.agentTypes agentType hagent, hname ▸ hm.tests test htest⟩
  intro f hf
  rcases foldl_note_mem hf with hrefused | ⟨failure, hfailure, rfl⟩
  · rcases foldl_note_mem hrefused with hnone | ⟨failure, hfailure, rfl⟩
    · exact absurd hnone List.not_mem_nil
    · refine hlegible failure (List.mem_append_left _ hfailure) _ ?_
      unfold credentialClass
      split <;> simp
  · exact hlegible failure (List.mem_append_right _ hfailure) _ (by simp)

/-- The names of the failures' agent types and probes can be read from their lines. -/
theorem preflightFleet_legible (hm : m.Legible) (cache : PassCache) :
    ∀ f ∈ (preflightFleet m errorName w turn cache).1.failures, f.Legible := by
  have hgrants : ∀ agentType ∈ agentTypesChecked m, agentType ∈ m.grantTypes := fun agentType h =>
    (List.mem_insertionSort _).mp h
  suffices ∀ (agentTypes : List String) (found : Preflight × PassCache),
      (∀ agentType ∈ agentTypes, agentType ∈ m.grantTypes) → (∀ f ∈ found.1.failures, f.Legible) →
      ∀ f ∈ (agentTypes.foldl (preflightAgent m errorName w turn) found).1.failures, f.Legible from
    this _ ({}, cache) hgrants fun _ h => absurd h List.not_mem_nil
  intro agentTypes
  induction agentTypes with
  | nil => exact fun _ _ hfound => hfound
  | cons agentType agentTypes ih =>
    intro found hall hfound
    obtain ⟨hagent, hrest⟩ := List.forall_mem_cons.mp hall
    refine ih _ hrest fun f hf => ?_
    unfold preflightAgent at hf
    split at hf
    · rename_i report cache' hrun
      rcases List.mem_append.mp hf with hin | hnew
      · exact hfound f hin
      · have hnamed : report.outcomes.Named m.tests := resolveAndTestReport_named.of_ok hrun
        exact reportFailures_legible hm hagent hnamed f hnew
    · rcases List.mem_append.mp hf with hin | hnew
      · exact hfound f hin
      · rw [List.mem_singleton.mp hnew]
        have hprobe : Leads "secrets" := ⟨'s', "ecrets".toList, by decide, by decide⟩
        exact ⟨by simp, hm.agentTypes agentType hagent, hprobe⟩

end

/-! ### The newest record -/

section

variable {setup : DispatchSetup} {nodes : List PipelineNode} {t : Int} {n : PipelineNode}

/-- Nothing where nothing can be read, else a preflight that no other is later than. -/
def Newest (setup : DispatchSetup) (nodes : List PipelineNode) : Option (Int × PipelineNode) → Prop
  | none => ∀ n ∈ nodes, preflightCheckedAt setup n = none
  | some (t, n) => n ∈ nodes ∧ preflightCheckedAt setup n = some t ∧
      ∀ n' ∈ nodes, ∀ t', preflightCheckedAt setup n' = some t' → t' ≤ t

theorem latestPreflight_newest : Newest setup nodes (latestPreflight setup nodes) := by
  induction nodes using List.reverseRecOn with
  | nil => exact fun _ h => absurd h List.not_mem_nil
  | append_singleton nodes last ih =>
    have hstep : latestPreflight setup (nodes ++ [last]) =
        (preflightCheckedAt setup last).elim (latestPreflight setup nodes) fun t =>
          (latestPreflight setup nodes).elim (some (t, last)) fun best =>
            if best.1 < t then some (t, last) else some best := by
      unfold latestPreflight
      rw [List.foldl_concat]
      cases preflightCheckedAt setup last <;> cases nodes.foldl _ none <;> rfl
    have hlast : ∀ {p : PipelineNode → Prop}, (∀ n ∈ nodes, p n) → p last →
        ∀ n ∈ nodes ++ [last], p n := fun hp hl n hn =>
      (List.mem_append.mp hn).elim (hp n) fun h => List.mem_singleton.mp h ▸ hl
    rw [hstep]
    cases hread : preflightCheckedAt setup last with
    | none =>
      cases hbest : latestPreflight setup nodes with
      | none =>
        rw [hbest] at ih
        exact hlast ih hread
      | some best =>
        rw [hbest] at ih
        obtain ⟨hmem, hchecked, hnewest⟩ := ih
        refine ⟨List.mem_append_left _ hmem, hchecked, hlast hnewest fun t' ht' => ?_⟩
        rw [hread] at ht'
        cases ht'
    | some t =>
      cases hbest : latestPreflight setup nodes with
      | none =>
        rw [hbest] at ih
        refine ⟨List.mem_append_right _ (List.mem_singleton_self _), hread,
          hlast (fun n hn t' ht' => ?_) fun t' ht' => ?_⟩
        · rw [ih n hn] at ht'
          cases ht'
        · rw [hread] at ht'
          cases ht'
          exact le_rfl
      | some best =>
        obtain ⟨newest, n⟩ := best
        rw [hbest] at ih
        obtain ⟨hmem, hchecked, hnewest⟩ := ih
        show Newest setup _ (if newest < t then some (t, last) else some (newest, n))
        by_cases hlater : newest < t
        · rw [if_pos hlater]
          refine ⟨List.mem_append_right _ (List.mem_singleton_self _), hread,
            hlast (fun n hn t' ht' => (hnewest n hn t' ht').trans hlater.le) fun t' ht' => ?_⟩
          rw [hread] at ht'
          cases ht'
          exact le_rfl
        · rw [if_neg hlater]
          refine ⟨List.mem_append_left _ hmem, hchecked, hlast hnewest fun t' ht' => ?_⟩
          rw [hread] at ht'
          cases ht'
          exact not_lt.mp hlater

end

/-! ### The runs -/

/-- A node that records a check. -/
structure Records (n : PipelineNode) (check : Check) : Prop where
  key : n.key = preflightKey check.now
  checkedAt : n.props.get? "checked_at" = some (.str check.now.isoformat)
  passed : n.get "passed" = .bool check.found.failures.isEmpty
  failures : n.get "failures" =
    .list (check.found.failures.map fun failure => .str failure.line)

/-- What the dispatcher makes of the last check that was recorded. -/
def reading (setup : DispatchSetup) (now : Moment) : Option Check → Readiness
  | none => ⟨.unknown, "", "", []⟩
  | some check =>
    let checkedAt := check.now.isoformat
    let key := preflightKey check.now
    if setup.settings.preflightMaxAgeMinutes * 60000000 < now.micros - check.now.onSecond.micros then
      ⟨.unknown, key, checkedAt, []⟩
    else
      ⟨classify check.found.failures setup.degradableAgents, key, checkedAt,
        check.found.failures.map PreflightFailure.line⟩

/-- The nodes of the preflights record the checks, and the last check is recorded. -/
structure FleetState.Kept (s : FleetState) : Prop where
  recorded : ∀ n ∈ s.graph.listNodes fleetPreflightLabel, ∃ check ∈ s.checks, Records n check
  last : ∀ check, s.checks.getLast? = some check →
    (∃ n ∈ s.graph.listNodes fleetPreflightLabel, Records n check) ∧
    ∀ earlier ∈ s.checks, earlier.now ≤ check.now
  legible : ∀ check ∈ s.checks, ∀ f ∈ check.found.failures, f.Legible

section

variable {m : MasterSetup} {errorName : CheckError → String} {s s' : FleetState}

theorem FleetState.Start.kept (h : s.Start) : s.Kept := by
  obtain ⟨hnodes, hchecks⟩ := h
  constructor
  · intro n hn
    rw [hnodes] at hn
    exact absurd hn List.not_mem_nil
  · intro check hlast
    rw [hchecks] at hlast
    cases hlast
  · intro check hcheck
    rw [hchecks] at hcheck
    exact absurd hcheck List.not_mem_nil

/-- A write that leaves the preflights where they are. -/
theorem FleetState.Kept.of_listNodes (h : s.Kept) {graph : PipelineGraph}
    (hnodes : graph.listNodes fleetPreflightLabel = s.graph.listNodes fleetPreflightLabel) :
    ({ s with graph } : FleetState).Kept where
  recorded := by
    show ∀ n ∈ graph.listNodes fleetPreflightLabel, _
    rw [hnodes]
    exact h.recorded
  last := by
    show ∀ check, s.checks.getLast? = some check →
      (∃ n ∈ graph.listNodes fleetPreflightLabel, Records n check) ∧ _
    rw [hnodes]
    exact h.last
  legible := h.legible

/-- A merge of a check's properties leaves a node that records it. -/
theorem records_mergeNode {graph graph' : PipelineGraph} {n : PipelineNode} {now : Moment}
    {found : Preflight}
    (h : graph.mergeNode fleetPreflightLabel (preflightKey now) (preflightProps m now found) =
      .ok (graph', n)) : Records n ⟨now, found⟩ := by
  obtain ⟨-, -, hkey, -⟩ := Graph.mergeNode_ok h
  have hget : ∀ {name v}, (preflightProps m now found).get? name = some v →
      n.props.get? name = some v := fun hv => by rw [Graph.mergeNode_get? h, hv, Option.some_or]
  refine ⟨hkey, hget rfl, ?_, ?_⟩
  · show (n.props.get? "passed").getD .null = _
    rw [hget (v := .bool found.failures.isEmpty) rfl]
    rfl
  · show (n.props.get? "failures").getD .null = _
    rw [hget (v := .list (found.failures.map fun failure => .str failure.line)) rfl]
    rfl

/-- A preflight that is recorded is the last check from then on. -/
theorem FleetState.Kept.recorded_check (h : s.Kept) {graph : PipelineGraph} {n : PipelineNode}
    {check : Check}
    (hmerge : s.graph.mergeNode fleetPreflightLabel (preflightKey check.now)
      (preflightProps m check.now check.found) = .ok (graph, n))
    (hlater : ∀ earlier ∈ s.checks, earlier.now ≤ check.now)
    (hlegible : ∀ f ∈ check.found.failures, f.Legible) :
    ({ s with graph, checks := s.checks ++ [check] } : FleetState).Kept := by
  have hrecords : Records n check := records_mergeNode hmerge
  obtain ⟨hnew, hothers⟩ := Graph.mergeNode_listNodes hmerge
  refine ⟨fun other hother => ?_, fun last hlast => ?_, fun c hc => ?_⟩
  · rcases hothers other hother with rfl | hbefore
    · exact ⟨check, List.mem_append_right _ (List.mem_singleton_self _), hrecords⟩
    · obtain ⟨earlier, hearlier, hrecorded⟩ := h.recorded other hbefore
      exact ⟨earlier, List.mem_append_left _ hearlier, hrecorded⟩
  · rw [List.getLast?_concat] at hlast
    cases hlast
    refine ⟨⟨n, hnew, hrecords⟩, fun earlier hearlier => ?_⟩
    rcases List.mem_append.mp hearlier with hin | hsame
    · exact hlater earlier hin
    · rw [List.mem_singleton.mp hsame]
      exact Moment.le_refl _
  · rcases List.mem_append.mp hc with hin | hsame
    · exact h.legible c hin
    · rw [List.mem_singleton.mp hsame]
      exact hlegible

theorem FleetState.Kept.step (hm : m.Legible) (h : s.Kept) {move : FleetMove}
    (hallowed : move.Allowed s) (hstep : fleetStep m errorName s move = .ok s') : s'.Kept := by
  cases move with
  | preflight now w =>
    cases hstep
    unfold runFleetPreflight
    have hlegible : ∀ f ∈ (preflightFleet m errorName w s.turn s.cache).1.failures, f.Legible :=
      preflightFleet_legible hm s.cache
    dsimp only
    split
    · exact ⟨h.recorded, h.last, h.legible⟩
    · rename_i graph n hmerge
      have hkept := @FleetState.Kept.recorded_check m s h graph n ⟨now, _⟩ hmerge hallowed hlegible
      split <;> exact ⟨hkept.recorded, hkept.last, hkept.legible⟩
  | write label key props schemaVersion =>
    obtain ⟨⟨graph, n⟩, hmerge, hreturn⟩ := Fallible.bind_eq_ok.mp hstep
    cases hreturn
    obtain ⟨hput, hlabel, -⟩ := Graph.mergeNode_ok hmerge
    refine h.of_listNodes ?_
    rw [hput]
    exact Graph.listNodes_put_of_ne (hlabel ▸ hallowed)
  | link parent child edgeType =>
    obtain ⟨graph, hedge, hreturn⟩ := Fallible.bind_eq_ok.mp hstep
    cases hreturn
    exact h.of_listNodes (Graph.listNodes_of_nodes_eq (Graph.addEdge_ok hedge).1 _)

/-- The dispatcher reads the time of a check off its record. -/
theorem Records.checkedAt_read {setup : DispatchSetup} {n : PipelineNode} {check : Check}
    (h : Records n check)
    (hiso : setup.fromIso check.now.isoformat = some check.now.onSecond.micros) :
    preflightCheckedAt setup n = some check.now.onSecond.micros := by
  have hget : n.get "checked_at" = .str check.now.isoformat := by
    show (n.props.get? "checked_at").getD .null = _
    rw [h.checkedAt]
    rfl
  rw [preflightCheckedAt, hget]
  exact hiso

theorem Records.failureTexts {n : PipelineNode} {check : Check} (h : Records n check) :
    Orchestration.textsOf n "failures" = check.found.failures.map PreflightFailure.line := by
  rw [Orchestration.textsOf, h.failures]
  show List.map _ (List.map _ _) = _
  rw [List.map_map]
  rfl

/-- The state that the dispatcher reads off the record of a legible check. -/
theorem Records.state_read {n : PipelineNode} {check : Check} (h : Records n check)
    (hlegible : ∀ f ∈ check.found.failures, f.Legible) (agents : List String) :
    (if n.get "passed" = .bool true then ReadinessState.ready
      else if allFailuresDegradable (check.found.failures.map PreflightFailure.line) agents then
        .degraded
      else .failing) = classify check.found.failures agents := by
  have hpassed : n.get "passed" = .bool true ↔ check.found.failures = [] := by
    rw [h.passed]
    simp
  by_cases hfine : check.found.failures = []
  · rw [if_pos (hpassed.mpr hfine), hfine]
    rfl
  · rw [if_neg (fun hp => hfine (hpassed.mp hp))]
    exact allFailuresDegradable_lines hlegible hfine _

/-- The latest preflight node is the one that records the last check. -/
theorem FleetState.Kept.latestPreflight_last {setup : DispatchSetup} (h : s.Kept)
    (hiso : ∀ check ∈ s.checks,
      setup.fromIso check.now.isoformat = some check.now.onSecond.micros) {last : Check}
    (hlast : s.checks.getLast? = some last) : ∃ n, Records n last ∧
      latestPreflight setup (setup.backend.listNodes s.graph fleetPreflightLabel) =
        some (last.now.onSecond.micros, n) := by
  have hnewest : Newest setup (setup.backend.listNodes s.graph fleetPreflightLabel)
      (latestPreflight setup (setup.backend.listNodes s.graph fleetPreflightLabel)) :=
    latestPreflight_newest
  obtain ⟨⟨n, hn, hrecords⟩, hlater⟩ := h.last last hlast
  have hread := hrecords.checkedAt_read (hiso last (List.mem_of_getLast? hlast))
  cases hlatest : latestPreflight setup
      (setup.backend.listNodes s.graph fleetPreflightLabel) with
  | none =>
    rw [hlatest] at hnewest
    have hunread := hnewest n (Backend.mem_listNodes.mpr hn)
    rw [hread] at hunread
    cases hunread
  | some found =>
    obtain ⟨t, n'⟩ := found
    rw [hlatest] at hnewest
    obtain ⟨hn', hchecked, hall⟩ := hnewest
    obtain ⟨check, hcheck, hrecords'⟩ := h.recorded n' (Backend.mem_listNodes.mp hn')
    -- the newest record is of the second of the last check, so it is the node of the last check
    rw [hrecords'.checkedAt_read (hiso check hcheck), Option.some.injEq] at hchecked
    have hge := hall n (Backend.mem_listNodes.mpr hn) _ hread
    have hle : check.now.onSecond.micros ≤ last.now.onSecond.micros :=
      Moment.le_iff_micros.mp (Moment.onSecond_le (hlater check hcheck))
    have hsecond : check.now.onSecond.micros = last.now.onSecond.micros := by omega
    have hsame : n' = n := by
      have hkey : n'.key = n.key := by
        rw [hrecords'.key, hrecords.key, preflightKey, preflightKey,
          Moment.isoformat_eq_of_onSecond hsecond]
      have hget := (Graph.mem_listNodes.mp (Backend.mem_listNodes.mp hn')).2
      rw [hkey, (Graph.mem_listNodes.mp hn).2] at hget
      exact (Option.some.inj hget).symm
    exact ⟨n, hrecords, by rw [← hchecked, hsecond, hsame]⟩

/-- The dispatcher reads the last check that was recorded. -/
theorem FleetState.Kept.fleetReadiness {setup : DispatchSetup} (h : s.Kept)
    (hiso : ∀ check ∈ s.checks,
      setup.fromIso check.now.isoformat = some check.now.onSecond.micros) (now : Moment) :
    Orchestration.fleetReadiness setup s.graph now = reading setup now s.checks.getLast? := by
  unfold Orchestration.fleetReadiness
  cases hlast : s.checks.getLast? with
  | none =>
    have hnewest : Newest setup (setup.backend.listNodes s.graph fleetPreflightLabel)
        (latestPreflight setup (setup.backend.listNodes s.graph fleetPreflightLabel)) :=
      latestPreflight_newest
    cases hlatest : latestPreflight setup
        (setup.backend.listNodes s.graph fleetPreflightLabel) with
    | none => rfl
    | some found =>
      rw [hlatest] at hnewest
      obtain ⟨check, hcheck, -⟩ := h.recorded found.2 (Backend.mem_listNodes.mp hnewest.1)
      rw [List.getLast?_eq_none_iff.mp hlast] at hcheck
      exact absurd hcheck List.not_mem_nil
  | some last =>
    obtain ⟨n, hrecords, hlatest⟩ := h.latestPreflight_last hiso hlast
    rw [hlatest]
    dsimp only [reading]
    rw [hrecords.checkedAt, hrecords.key, hrecords.failureTexts,
      hrecords.state_read (h.legible last (List.mem_of_getLast? hlast))]
    rfl

end

/-- In any run of preflights among other writes, the dispatcher reads the state of the fleet off the
last check that the master recorded: nothing before the first check and nothing once it is too old;
ready when no agent type failed; degraded when every one that did may fail and gave a reason; and
failing otherwise.  It reads the failures as they were written. -/
theorem fleetReadiness_follows {m : MasterSetup} {errorName : CheckError → String}
    {setup : DispatchSetup} {s : FleetState} (hm : m.Legible)
    (h : Reach (fleetStep m errorName) FleetMove.Allowed FleetState.Start s)
    (hiso : ∀ check ∈ s.checks,
      setup.fromIso check.now.isoformat = some check.now.onSecond.micros) (now : Moment) :
    fleetReadiness setup s.graph now = reading setup now s.checks.getLast? := by
  have hkept : s.Kept := by
    refine Reach.invariant (P := FleetState.Kept) (fun _ => FleetState.Start.kept) ?_ h
    exact fun s move s' hs hallowed hstep => hs.step hm hallowed hstep
  exact hkept.fleetReadiness hiso now

/-! ### A fleet that degrades -/

deriving instance DecidableEq for Orchestration.Readiness

instance (s : FleetState) (move : FleetMove) : Decidable (move.Allowed s) :=
  match move with
  | .preflight now _ => inferInstanceAs (Decidable (∀ check ∈ s.checks, check.now ≤ now))
  | .write label _ _ _ => inferInstanceAs (Decidable (label ≠ fleetPreflightLabel))
  | .link _ _ _ => inferInstanceAs (Decidable True)

def nineOClock (minute : Nat) : Moment :=
  .ofClock ⟨2031, 1, 5, by decide, by decide, by decide⟩ 9 minute 0 500000

def twoAgents : MasterSetup where
  grantTypes := ["scanner", "deliberator"]
  secretMap := .empty
  tests := [⟨"openai:gpt-5.5:high", true, .cheap, ["deliberator"], none⟩]
  ttlMinutes := 5

def modelAnswers (result : CheckResult) : String → Surroundings := fun _ =>
  ⟨fun _ => none, fun _ _ => some result, fun _ => 0, fun _ => 0⟩

/-- A fleet that may do without its deliberator. -/
def degradableSetup : DispatchSetup where
  backend := .postgres
  calendar := ⟨fun _ => true, (nineOClock 0).date⟩
  settings := ⟨"paper", 30, "UTC"⟩
  members := fun _ => []
  degradableAgents := ["deliberator"]
  requestDefaults := fun _ => ⟨400, 250, "SPY"⟩
  fromIso := fun text =>
    ([nineOClock 0, nineOClock 5].find? fun m => decide (m.isoformat = text)).map fun m =>
      m.onSecond.micros
  dayFromIso := fun _ => none
  localClock := fun _ => none

def degradingMoves : List FleetMove :=
  [.preflight (nineOClock 0) (modelAnswers ⟨.passed, ""⟩),
    .write "RunHold" "hold:r1" .empty 1,
    .preflight (nineOClock 5) (modelAnswers ⟨.transportFailure, ""⟩)]

theorem fleetReadiness_follows_degraded : ∃ s : FleetState, s.checks.length = 2 ∧
    fleetReadiness degradableSetup s.graph (nineOClock 7) =
      ⟨.degraded, "preflight:2031-01-05T09:05:00+00:00", "2031-01-05T09:05:00+00:00",
        ["transient:deliberator:openai:gpt-5.5:high:"]⟩ := by
  let start : FleetState := ⟨.empty, ⟨.empty, []⟩, 0, [], []⟩
  have hrun : Fallible.check (fun s : FleetState => decide (s.checks.length = 2 ∧
      s.checks.map Check.now = [nineOClock 0, nineOClock 5] ∧
      reading degradableSetup (nineOClock 7) s.checks.getLast? =
        ⟨.degraded, "preflight:2031-01-05T09:05:00+00:00", "2031-01-05T09:05:00+00:00",
          ["transient:deliberator:openai:gpt-5.5:high:"]⟩))
      (degradingMoves.foldlM (fun s move => if move.Allowed s then
        fleetStep twoAgents (fun _ => "KeyError") s move else .error .schemaVersionChanged) start) =
      true := by decide +kernel
  obtain ⟨s, hs, htest⟩ := Fallible.check_eq_true.mp hrun
  obtain ⟨hlength, hnows, hreading⟩ := of_decide_eq_true htest
  have hreach : Reach (fleetStep twoAgents fun _ => "KeyError") FleetMove.Allowed
      FleetState.Start s := Reach.of_checked (.start ⟨rfl, rfl⟩) hs
  have hlegible : twoAgents.Legible := by
    refine ⟨by decide +kernel, fun test htest => ?_⟩
    rw [List.mem_singleton.mp htest]
    exact ⟨'o', "penai:gpt-5.5:high".toList, by decide, by decide⟩
  refine ⟨s, hlength, ?_⟩
  rw [fleetReadiness_follows hlegible hreach fun check hcheck => ?_, hreading]
  have hnow : check.now ∈ [nineOClock 0, nineOClock 5] := by
    rw [← hnows]
    exact List.mem_map_of_mem hcheck
  simp only [List.mem_cons, List.not_mem_nil, or_false] at hnow
  rcases hnow with hnow | hnow <;> rw [hnow] <;> decide +kernel

end TradingAgents.Master
