import TradingAgents.Forecaster.BarrierSettlement
import TradingAgents.ProofKit.Crash
import TradingAgents.ProofKit.Runs

/-! Runs of settlement passes that may crash after any write.  A retry links the settlements that a
crash left without their link, so a claim that a pass decides has one settlement, linked once, as
soon as some pass over it goes through. -/

namespace TradingAgents.Forecaster

open Kernel ProofKit

/-! ### What the ledger says of a claim -/

/-- The settlements recorded for a claim. -/
def settlementsOf (g : PipelineGraph) (claimKey : String) : List PipelineNode :=
  (g.listNodes settlementLabel).filter fun n => (n.get "claim_key").str? = some claimKey

/-- The links from a claim to a settlement. -/
def linksOf (g : PipelineGraph) (claimKey : String) : List Edge :=
  g.edges.filter fun e => e.edgeType = settledEdge ∧ e.parent = (barrierLabel, claimKey)

/-- The marks of a run's pass. -/
def marksOf (g : PipelineGraph) (runKey : String) : List PipelineNode :=
  (g.listNodes settlementMarkerLabel).filter fun n =>
    (n.get "analyst_run_key").str? = some runKey

/-- The claim has one settlement, and one link, which leads to it. -/
def SettledOnce (g : PipelineGraph) (claimKey : String) : Prop :=
  ∃ n, settlementsOf g claimKey = [n] ∧ n.nodeKey = (settlementLabel, settlementKey claimKey) ∧
    linksOf g claimKey = [settledLink claimKey]

/-- The claim has neither a settlement nor a link. -/
def Unsettled (g : PipelineGraph) (claimKey : String) : Prop :=
  settlementsOf g claimKey = [] ∧ linksOf g claimKey = []

/-- An attempt at the pass over a run: the run, the graph that it started from, and the day. -/
structure Attempt where
  run : PipelineNode
  graph : PipelineGraph
  today : Day

variable {r : SettlementReaders} {g t u : PipelineGraph} {a : Attempt} {tried : List Attempt}
  {claimKey : String} {n : PipelineNode}

/-- The bars of the attempt decide the claim. -/
def Attempt.Decides (r : SettlementReaders) (a : Attempt) (claimKey : String) : Prop :=
  ∃ claim s props, a.graph.getNode barrierLabel claimKey = some claim ∧
    claimSettlement r (passInput r a.graph a.today a.run) claim = .ok (some (s, props))

/-- The claim is decided when the attempt is over: by its bars, or by an attempt before it. -/
def Attempt.Closes (r : SettlementReaders) (a : Attempt) (claimKey : String) : Prop :=
  a.Decides r claimKey ∨ settlementsOf a.graph claimKey ≠ []

/-- A settlement of a claim that stands and that an attempt decided. -/
def RecordsDecision (r : SettlementReaders) (tried : List Attempt) (g : PipelineGraph)
    (key : String) (n : PipelineNode) : Prop :=
  ∃ claimKey, key = settlementKey claimKey ∧ n.props.get? "claim_key" = some (.str claimKey) ∧
    (g.getNode barrierLabel claimKey).isSome ∧ ∃ a ∈ tried, a.Decides r claimKey

/-- A mark of an attempt whose closed claims are linked. -/
def MarksPass (r : SettlementReaders) (tried : List Attempt) (g : PipelineGraph) (key : String)
    (n : PipelineNode) : Prop :=
  ∃ a ∈ tried, key = settlementMarkerKey a.run.key ∧
    n.props.get? "analyst_run_key" = some (.str a.run.key) ∧
    ∀ claimKey, a.Closes r claimKey → settledLink claimKey ∈ g.edges

/-- The ledger after some attempts: every link is that of a claim to its own settlement, and every
settlement and every mark is of one of the attempts. -/
structure Ledger (r : SettlementReaders) (tried : List Attempt) (g : PipelineGraph) : Prop where
  links : ∀ e ∈ g.edges, e.edgeType = settledEdge → ∃ claimKey, e = settledLink claimKey
  settlements : ∀ key n, g.getNode settlementLabel key = some n → RecordsDecision r tried g key n
  marks : ∀ key n, g.getNode settlementMarkerLabel key = some n → MarksPass r tried g key n

theorem settlementKey_injective {a b : String} (h : settlementKey a = settlementKey b) : a = b :=
  String.append_right_inj _ |>.mp h

theorem settlementMarkerKey_injective {a b : String}
    (h : settlementMarkerKey a = settlementMarkerKey b) : a = b :=
  String.append_right_inj _ |>.mp h

theorem isSome_of_extends {label key : String} (h : g.Extends t)
    (hsome : (g.getNode label key).isSome) : (t.getNode label key).isSome := by
  obtain ⟨n, hn⟩ := Option.isSome_iff_exists.mp hsome
  obtain ⟨m, hm, -⟩ := h.nodes label key n hn
  rw [hm]
  rfl

namespace Ledger

theorem mono (h : Ledger r tried g) (a : Attempt) : Ledger r (tried ++ [a]) g := by
  refine ⟨h.links, fun key n hn => ?_, fun key n hn => ?_⟩
  · obtain ⟨claimKey, hkey, hclaim, hstands, b, hb, hdecides⟩ := h.settlements key n hn
    exact ⟨claimKey, hkey, hclaim, hstands, b, List.mem_append_left _ hb, hdecides⟩
  · obtain ⟨b, hb, hrest⟩ := h.marks key n hn
    exact ⟨b, List.mem_append_left _ hb, hrest⟩

/-- A settlement stands under the key of its claim. -/
theorem mem_settlementsOf (h : Ledger r tried g) :
    n ∈ settlementsOf g claimKey ↔
      g.getNode settlementLabel (settlementKey claimKey) = some n := by
  rw [settlementsOf, List.mem_filter, Graph.mem_listNodes, decide_eq_true_eq]
  constructor
  · rintro ⟨⟨-, hn⟩, hclaim⟩
    obtain ⟨claimKey', hkey, hprop, -⟩ := h.settlements n.key n hn
    rw [Node.get, Props.get, hprop] at hclaim
    cases hclaim
    rw [← hkey]
    exact hn
  · intro hn
    obtain ⟨claimKey', hkey, hprop, -⟩ := h.settlements _ n hn
    obtain rfl := settlementKey_injective hkey
    obtain ⟨hlabel, hk⟩ := Graph.getNode_nodeKey hn
    refine ⟨⟨hlabel, hk ▸ hn⟩, ?_⟩
    rw [Node.get, Props.get, hprop]
    rfl

theorem settlementsOf_eq (h : Ledger r tried g) (claimKey : String) :
    settlementsOf g claimKey =
      (g.getNode settlementLabel (settlementKey claimKey)).toList := by
  have hnodup : (settlementsOf g claimKey).Nodup :=
    ((g.nodup_listNodes_keys settlementLabel).of_map _).filter _
  cases hn : g.getNode settlementLabel (settlementKey claimKey) with
  | none =>
    refine List.eq_nil_iff_forall_not_mem.mpr fun n hmem => ?_
    rw [h.mem_settlementsOf, hn] at hmem
    cases hmem
  | some n =>
    refine List.perm_singleton.mp ((List.perm_ext_iff_of_nodup hnodup (by simp)).mpr fun m => ?_)
    rw [h.mem_settlementsOf, hn, Option.some_inj, List.mem_singleton, eq_comm]

/-- A claim has its own link at most. -/
theorem linksOf_eq (h : Ledger r tried g) (claimKey : String) :
    linksOf g claimKey =
      if settledLink claimKey ∈ g.edges then [settledLink claimKey] else [] := by
  have hmem : ∀ e, e ∈ linksOf g claimKey ↔ e = settledLink claimKey ∧
      settledLink claimKey ∈ g.edges := by
    intro e
    rw [linksOf, List.mem_filter, decide_eq_true_eq]
    constructor
    · rintro ⟨he, htype, hparent⟩
      obtain ⟨claimKey', rfl⟩ := h.links e he htype
      obtain rfl := (Prod.mk.inj hparent).2
      exact ⟨rfl, he⟩
    · rintro ⟨rfl, he⟩
      exact ⟨he, rfl, rfl⟩
  split
  · rename_i hin
    have hnodup : (linksOf g claimKey).Nodup := g.simple.filter _
    refine List.perm_singleton.mp ((List.perm_ext_iff_of_nodup hnodup (by simp)).mpr fun e => ?_)
    rw [hmem, List.mem_singleton, and_iff_left hin]
  · rename_i hout
    exact List.eq_nil_iff_forall_not_mem.mpr fun e he => hout ((hmem e).mp he).2

/-- A linked claim is settled once. -/
theorem settledOnce (h : Ledger r tried g) (hlink : settledLink claimKey ∈ g.edges) :
    SettledOnce g claimKey := by
  obtain ⟨n, hn⟩ := Option.isSome_iff_exists.mp (Graph.mem_keys_iff.mp (g.closed _ hlink).2)
  refine ⟨n, ?_, Prod.ext_iff.mpr (Graph.getNode_nodeKey hn), ?_⟩
  · rw [h.settlementsOf_eq, hn]
    rfl
  · rw [h.linksOf_eq, if_pos hlink]

/-- A claim that no attempt has decided has no settlement. -/
theorem unsettled (h : Ledger r tried g) (hnone : ∀ a ∈ tried, ¬ a.Decides r claimKey) :
    Unsettled g claimKey := by
  have hfree : g.getNode settlementLabel (settlementKey claimKey) = none := by
    cases hn : g.getNode settlementLabel (settlementKey claimKey) with
    | none => rfl
    | some n =>
      obtain ⟨claimKey', hkey, -, -, b, hb, hdecides⟩ := h.settlements _ n hn
      obtain rfl := settlementKey_injective hkey
      exact absurd hdecides (hnone b hb)
  refine ⟨by rw [h.settlementsOf_eq, hfree]; rfl, ?_⟩
  rw [h.linksOf_eq, if_neg]
  intro hlink
  have hstands := Graph.mem_keys_iff.mp (g.closed _ hlink).2
  rw [hfree] at hstands
  cases hstands

theorem getNode_of_mem_marksOf {runKey : String} (h : Ledger r tried g)
    (hn : n ∈ marksOf g runKey) :
    g.getNode settlementMarkerLabel (settlementMarkerKey runKey) = some n := by
  rw [marksOf, List.mem_filter, Graph.mem_listNodes, decide_eq_true_eq] at hn
  obtain ⟨⟨-, hget⟩, hrun⟩ := hn
  obtain ⟨b, -, hkey, hprop, -⟩ := h.marks n.key n hget
  rw [Node.get, Props.get, hprop] at hrun
  cases hrun
  rw [← hkey]
  exact hget

/-- A run is marked once at most. -/
theorem length_marksOf (h : Ledger r tried g) (runKey : String) :
    (marksOf g runKey).length ≤ 1 := by
  refine length_le_one (((g.nodup_listNodes_keys settlementMarkerLabel).of_map _).filter _) ?_
  intro n hn m hm
  exact Option.some_inj.mp
    ((h.getNode_of_mem_marksOf hn).symm.trans (h.getNode_of_mem_marksOf hm))

/-! ### One write -/

/-- A write keeps the ledger if what it adds belongs there. -/
theorem write (h : Ledger r tried g) {w : Write Document} (hok : g.write w = .ok t)
    (hlinks : ∀ e, w.edge? = some e → e.edgeType = settledEdge → ∃ key, e = settledLink key)
    (hsettle : ∀ key n, w.node? = some (settlementLabel, key) →
      t.getNode settlementLabel key = some n → RecordsDecision r tried t key n)
    (hmarks : ∀ key n, w.node? = some (settlementMarkerLabel, key) →
      t.getNode settlementMarkerLabel key = some n → MarksPass r tried t key n) :
    Ledger r tried t := by
  refine ⟨fun e he htype => ?_, fun key n hn => ?_, fun key n hn => ?_⟩
  · rcases (Graph.mem_edges_write hok).mp he with hold | hnew
    · exact h.links e hold htype
    · exact hlinks e hnew htype
  · by_cases hnode : w.node? = some (settlementLabel, key)
    · exact hsettle key n hnode hn
    · rw [Graph.getNode_write hok hnode] at hn
      obtain ⟨claimKey, hkey, hclaim, hstands, hdecided⟩ := h.settlements key n hn
      exact ⟨claimKey, hkey, hclaim, isSome_of_extends (Graph.write_extends hok) hstands, hdecided⟩
  · by_cases hnode : w.node? = some (settlementMarkerLabel, key)
    · exact hmarks key n hnode hn
    · rw [Graph.getNode_write hok hnode] at hn
      obtain ⟨b, hb, hkey, hrun, hclosed⟩ := h.marks key n hn
      exact ⟨b, hb, hkey, hrun, fun k hk =>
        (Graph.write_extends hok).edges.subset (hclosed k hk)⟩

/-- The link of a claim whose settlement stands. -/
theorem link (h : Ledger r tried g) (hclaim : (g.getNode barrierLabel claimKey).isSome)
    (hstands : (g.getNode settlementLabel (settlementKey claimKey)).isSome) :
    ∃ t, g.write (.link (settledLink claimKey)) = .ok t ∧ Ledger r tried t ∧
      settledLink claimKey ∈ t.edges := by
  have hok : g.write (.link (settledLink claimKey)) = .ok (g.link (settledLink claimKey)
      (Graph.mem_keys_iff.mpr hclaim) (Graph.mem_keys_iff.mpr hstands)) :=
    Graph.addEdge_eq_link settledEdge _ _
  refine ⟨_, hok, h.write hok ?_ ?_ ?_, (Graph.mem_edges_write hok).mpr (.inr rfl)⟩
  · rintro e ⟨⟩ -
    exact ⟨claimKey, rfl⟩
  · intro key n hnode
    cases hnode
  · intro key n hnode
    cases hnode

/-- A merge under a free key goes through. -/
theorem merge_fresh {label key : String} (props : Props Document)
    (hfree : g.getNode label key = none) : ∃ t, g.write (.merge label key props) = .ok t := by
  refine ⟨g.put ⟨label, key, props, 1⟩, ?_⟩
  rw [Graph.write, Graph.mergeNode_fresh props hfree]
  rfl

end Ledger

/-! ### One attempt -/

theorem settlementProps_claim {claim : PipelineNode} {s : Settlement} {settlingRef : Option String}
    {props : String → Props Document} (h : settlementProps claim s settlingRef = .ok props)
    (now : String) : (props now).get? "claim_key" = some (.str claim.key) := by
  unfold settlementProps at h
  obtain ⟨pStop, -, h⟩ := Fallible.bind_eq_ok.mp h
  obtain ⟨pTarget, -, h⟩ := Fallible.bind_eq_ok.mp h
  obtain ⟨pNeither, -, h⟩ := Fallible.bind_eq_ok.mp h
  obtain ⟨modelId, -, h⟩ := Fallible.bind_eq_ok.mp h
  obtain ⟨ticker, -, h⟩ := Fallible.bind_eq_ok.mp h
  obtain ⟨asOf, -, h⟩ := Fallible.bind_eq_ok.mp h
  rw [← Except.ok.inj h]
  change (Dict.ofList (_ :: _)).get? _ = _
  rw [Dict.ofList, Dict.setAll_cons, Dict.get?_setAll_of_notMem _ (by simp), Dict.get?_set_self]

/-- The properties of a settlement name its claim. -/
theorem claimSettlement_claim {input : PassInput} {claim : PipelineNode} {s : Settlement}
    {props : String → Props Document}
    (h : claimSettlement r input claim = .ok (some (s, props))) (now : String) :
    (props now).get? "claim_key" = some (.str claim.key) := by
  unfold claimSettlement at h
  obtain ⟨ticker, -, h⟩ := Fallible.bind_eq_ok.mp h
  obtain ⟨asOfText, -, h⟩ := Fallible.bind_eq_ok.mp h
  obtain ⟨asOf, -, h⟩ := Fallible.bind_eq_ok.mp h
  obtain ⟨entryClose, -, h⟩ := Fallible.bind_eq_ok.mp h
  obtain ⟨stopPct, -, h⟩ := Fallible.bind_eq_ok.mp h
  obtain ⟨targetPct, -, h⟩ := Fallible.bind_eq_ok.mp h
  obtain ⟨decided, -, h⟩ := Fallible.bind_eq_ok.mp h
  cases decided with
  | none => cases h
  | some settlement =>
    obtain ⟨props', hprops, h⟩ := Fallible.bind_eq_ok.mp h
    cases h
    exact settlementProps_claim hprops now

theorem settlementMarkerProps_run (run : PipelineNode) (input : PassInput)
    (statuses : List ClaimStatus) (now : String) :
    (settlementMarkerProps run input statuses now).get? "analyst_run_key" =
      some (.str run.key) := by
  rw [settlementMarkerProps, Dict.ofList, Dict.setAll_cons, Dict.get?_setAll_of_notMem _ (by simp),
    Dict.get?_set_self]

/-- How far an attempt has come: the settlements of the claims that it has not yet been at are as it
found them, and those of the others that it closes are linked. -/
structure Underway (r : SettlementReaders) (a : Attempt) (done : List String)
    (t : PipelineGraph) : Prop where
  untouched : ∀ key, key ∉ done → t.getNode settlementLabel (settlementKey key) =
    a.graph.getNode settlementLabel (settlementKey key)
  marks : ∀ key, t.getNode settlementMarkerLabel key = a.graph.getNode settlementMarkerLabel key
  linked : ∀ key ∈ done, a.Closes r key → settledLink key ∈ t.edges

/-- A store with its ledger in order that has come from `g`. -/
def Kept (r : SettlementReaders) (tried : List Attempt) (g t : PipelineGraph) : Prop :=
  Ledger r tried t ∧ g.Extends t

theorem settlementMarkerEdge_ne_settled : settlementMarkerEdge ≠ settledEdge := by decide

theorem settlementLabel_ne_marker : settlementLabel ≠ settlementMarkerLabel := by decide

/-- What the writes of one claim leave of an attempt under way. -/
theorem Underway.next {done : List String} (h : Underway r a done t) (hgrown : t.edges <+: u.edges)
    (hother : ∀ key, key ≠ claimKey → u.getNode settlementLabel (settlementKey key) =
      t.getNode settlementLabel (settlementKey key))
    (hmarks : ∀ key, u.getNode settlementMarkerLabel key = t.getNode settlementMarkerLabel key)
    (hlinked : a.Closes r claimKey → settledLink claimKey ∈ u.edges) :
    Underway r a (done ++ [claimKey]) u := by
  refine ⟨fun key hkey => ?_, fun key => (hmarks key).trans (h.marks key),
    fun key hkey hcloses => ?_⟩
  · rw [List.mem_append, List.mem_singleton, not_or] at hkey
    rw [hother key hkey.2, h.untouched key hkey.1]
  · rcases List.mem_append.mp hkey with hold | hnew
    · exact hgrown.subset (h.linked key hold hcloses)
    · rw [List.mem_singleton] at hnew
      exact hnew ▸ hlinked (hnew ▸ hcloses)

/-- The writes for one claim go through, wherever they are cut off. -/
theorem passClaim_safe {done : List String} (hstart : Ledger r tried a.graph) (ha : a ∈ tried)
    (hclaim : (a.graph.getNode barrierLabel claimKey).isSome) (hnew : claimKey ∉ done)
    (hkept : Kept r tried a.graph t) (h : Underway r a done t) :
    CrashSafe Graph.write (Kept r tried a.graph) (Underway r a (done ++ [claimKey]))
      (passClaim r a.graph (passInput r a.graph a.today a.run) claimKey).1 t := by
  obtain ⟨claim, hget⟩ := Option.isSome_iff_exists.mp hclaim
  obtain ⟨-, hkey⟩ := Graph.getNode_nodeKey hget
  have hstands : (t.getNode barrierLabel claimKey).isSome := isSome_of_extends hkept.2 hclaim
  have hfound := h.untouched claimKey hnew
  -- the link closes the claim, as soon as its settlement stands
  have hlink : ∀ {v : PipelineGraph}, Kept r tried a.graph v → t.Extends v →
      (∀ key, key ≠ claimKey → v.getNode settlementLabel (settlementKey key) =
        t.getNode settlementLabel (settlementKey key)) →
      (∀ key, v.getNode settlementMarkerLabel key = t.getNode settlementMarkerLabel key) →
      (v.getNode settlementLabel (settlementKey claimKey)).isSome →
      ∃ u, v.write (.link (settledLink claimKey)) = .ok u ∧
        Kept r tried a.graph u ∧ Underway r a (done ++ [claimKey]) u := by
    intro v hv hgrown hother hmarks hsome
    obtain ⟨u, hu, hledger, hlinked⟩ := hv.1.link (isSome_of_extends hgrown hstands) hsome
    have hsame : ∀ label key, u.getNode label key = v.getNode label key :=
      fun label key => Graph.getNode_write hu nofun
    exact ⟨u, hu, ⟨hledger, hv.2.trans (Graph.write_extends hu)⟩,
      h.next (hgrown.edges.trans (Graph.write_extends hu).edges)
        (fun key hne => (hsame _ _).trans (hother key hne))
        (fun key => (hsame _ _).trans (hmarks key)) fun _ => hlinked⟩
  unfold passClaim
  rw [hget]
  simp only [hkey]
  cases hsettlement : a.graph.getNode settlementLabel (settlementKey claimKey) with
  | some m =>
    rw [hsettlement] at hfound
    refine ⟨hkept, fun _ => ?_⟩
    exact hlink hkept (.refl t) (fun _ _ => rfl) (fun _ => rfl) (by rw [hfound]; rfl)
  | none =>
    rw [hsettlement] at hfound
    simp only [settleClaim]
    split
    · rename_i s props hdecided
      have hdecides : a.Decides r claimKey := ⟨claim, s, props, hget, hdecided⟩
      refine ⟨hkept, fun now => ?_⟩
      obtain ⟨v, hv⟩ := Ledger.merge_fresh (props now) hfound
      have hfresh := Graph.getNode_write_fresh hv hfound
      have hledger : Ledger r tried v := by
        refine hkept.1.write hv nofun ?_ fun key n hnode => ?_
        · rintro key n ⟨⟩ hn
          cases hfresh.symm.trans hn
          exact ⟨claimKey, rfl, hkey ▸ claimSettlement_claim hdecided now,
            isSome_of_extends (Graph.write_extends hv) hstands, a, ha, hdecides⟩
        · exact absurd (Prod.mk.inj (Option.some.inj hnode)).1 settlementLabel_ne_marker
      have hkv : Kept r tried a.graph v := ⟨hledger, hkept.2.trans (Graph.write_extends hv)⟩
      rw [hkey]
      refine ⟨v, hv, hkv, fun _ => ?_⟩
      refine hlink hkv (Graph.write_extends hv) (fun key hne => Graph.getNode_write hv ?_)
        (fun key => Graph.getNode_write hv ?_) (by rw [hfresh]; rfl)
      · intro hnode
        exact hne (settlementKey_injective (Prod.mk.inj (Option.some.inj hnode)).2.symm)
      · intro hnode
        exact settlementLabel_ne_marker (Prod.mk.inj (Option.some.inj hnode)).1
    · rename_i hopen
      refine ⟨hkept, h.next List.prefix_rfl (fun _ _ => rfl) (fun _ => rfl) ?_⟩
      rintro (⟨claim', s, props, hget', hdecided⟩ | hsettled)
      · cases hget.symm.trans hget'
        exact absurd hdecided (hopen s props)
      · rw [hstart.settlementsOf_eq, hsettlement] at hsettled
        exact absurd rfl hsettled

/-- The writes for a list of claims go through, wherever they are cut off. -/
theorem passClaims_safe {claims done : List String} (hstart : Ledger r tried a.graph)
    (ha : a ∈ tried) (hclaims : ∀ key ∈ claims, (a.graph.getNode barrierLabel key).isSome)
    (hnodup : (done ++ claims).Nodup) (hkept : Kept r tried a.graph t) (h : Underway r a done t) :
    CrashSafe Graph.write (Kept r tried a.graph) (Underway r a (done ++ claims))
      (claims.flatMap fun key =>
        (passClaim r a.graph (passInput r a.graph a.today a.run) key).1) t := by
  induction claims generalizing done t with
  | nil =>
    rw [List.append_nil]
    exact ⟨hkept, h⟩
  | cons key claims ih =>
    have hnew : key ∉ done := fun hin =>
      (List.nodup_append.mp hnodup).2.2 key hin key List.mem_cons_self rfl
    rw [List.append_cons] at hnodup ⊢
    rw [List.flatMap_cons]
    exact (passClaim_safe hstart ha (hclaims key List.mem_cons_self) hnew hkept h).append
      fun u hu hunder => ih (fun k hk => hclaims k (List.mem_cons_of_mem _ hk)) hnodup hu hunder

/-- What an attempt that went through leaves: its claims are linked and its run is marked. -/
def Attempt.Passed (r : SettlementReaders) (a : Attempt) (g : PipelineGraph) : Prop :=
  (∀ claimKey, a.Closes r claimKey → settledLink claimKey ∈ g.edges) ∧
    (g.getNode settlementMarkerLabel (settlementMarkerKey a.run.key)).isSome

theorem Attempt.Passed.mono (h : a.Passed r g) (hgt : g.Extends t) : a.Passed r t :=
  ⟨fun claimKey hcloses => hgt.edges.subset (h.1 claimKey hcloses), isSome_of_extends hgt h.2⟩

/-- A claim that an attempt closes and did not find open was linked before. -/
theorem Ledger.linked_of_not_open (hstart : Ledger r tried a.graph)
    (hcloses : a.Closes r claimKey)
    (hnot : claimKey ∉ a.graph.keysWithoutEdge barrierLabel settledEdge) :
    settledLink claimKey ∈ a.graph.edges := by
  have hclaim : (a.graph.getNode barrierLabel claimKey).isSome := by
    rcases hcloses with ⟨claim, -, -, hget, -⟩ | hsettled
    · rw [hget]
      rfl
    · obtain ⟨n, hn⟩ := List.exists_mem_of_ne_nil _ hsettled
      obtain ⟨key, hkey, -, hstands, -⟩ := hstart.settlements _ n (hstart.mem_settlementsOf.mp hn)
      exact settlementKey_injective hkey ▸ hstands
  rw [Graph.mem_keysWithoutEdge, not_and] at hnot
  have hedge := hnot hclaim
  push Not at hedge
  obtain ⟨e, he, htype, hparent⟩ := hedge
  obtain ⟨key, rfl⟩ := hstart.links e he htype
  obtain rfl := (Prod.mk.inj hparent).2
  exact he

/-- The mark of a run and its link go through once the claims that the attempt closes are linked. -/
theorem mark_safe (ha : a ∈ tried) (hrun : a.graph.getNode analystRunLabel a.run.key = some a.run)
    (hu : Kept r tried a.graph u)
    (hlinked : ∀ claimKey, a.Closes r claimKey → settledLink claimKey ∈ u.edges)
    (hfree : u.getNode settlementMarkerLabel (settlementMarkerKey a.run.key) = none)
    (input : PassInput) (statuses : List ClaimStatus) :
    CrashSafe Graph.write (Kept r tried a.graph) (a.Passed r) [
      fun now => .merge settlementMarkerLabel (settlementMarkerKey a.run.key)
        (settlementMarkerProps a.run input statuses now),
      fun _ => .link ⟨a.run.nodeKey, (settlementMarkerLabel, settlementMarkerKey a.run.key),
        settlementMarkerEdge⟩] u := by
  refine ⟨hu, fun now => ?_⟩
  obtain ⟨v, hv⟩ := Ledger.merge_fresh (settlementMarkerProps a.run input statuses now) hfree
  have hmark := Graph.getNode_write_fresh hv hfree
  have hgrown := Graph.write_extends hv
  have hkv : Kept r tried a.graph v := by
    refine ⟨hu.1.write hv nofun (fun key n hnode => ?_) ?_, hu.2.trans hgrown⟩
    · exact absurd (Prod.mk.inj (Option.some.inj hnode)).1 settlementLabel_ne_marker.symm
    · rintro key n ⟨⟩ hn
      cases hmark.symm.trans hn
      exact ⟨a, ha, rfl, settlementMarkerProps_run _ _ _ now,
        fun key hcloses => hgrown.edges.subset (hlinked key hcloses)⟩
  refine ⟨v, hv, hkv, fun _ => ?_⟩
  have hstands : (v.getNode a.run.label a.run.key).isSome := by
    rw [(Graph.getNode_nodeKey hrun).1]
    exact isSome_of_extends hkv.2 (by rw [hrun]; rfl)
  have hmarked : (v.getNode settlementMarkerLabel (settlementMarkerKey a.run.key)).isSome := by
    rw [hmark]
    rfl
  have hw : v.write (.link ⟨a.run.nodeKey, (settlementMarkerLabel, settlementMarkerKey a.run.key),
      settlementMarkerEdge⟩) = .ok (v.link _ (Graph.mem_keys_iff.mpr hstands)
        (Graph.mem_keys_iff.mpr hmarked)) := Graph.addEdge_eq_link settlementMarkerEdge _ _
  refine ⟨_, hw, ⟨hkv.1.write hw ?_ nofun nofun, hkv.2.trans (Graph.write_extends hw)⟩,
    fun key hcloses => ?_, isSome_of_extends (Graph.write_extends hw) hmarked⟩
  · rintro e ⟨⟩ htype
    exact absurd htype settlementMarkerEdge_ne_settled
  · exact (Graph.write_extends hw).edges.subset (hgrown.edges.subset (hlinked key hcloses))

/-- A pass goes through, wherever it is cut off. -/
theorem settleAnalystNode_safe (hstart : Ledger r tried a.graph) (ha : a ∈ tried)
    (hrun : a.graph.getNode analystRunLabel a.run.key = some a.run)
    (hfree : a.graph.getNode settlementMarkerLabel (settlementMarkerKey a.run.key) = none) :
    CrashSafe Graph.write (Kept r tried a.graph) (a.Passed r)
      (settleAnalystNode r a.graph a.today a.run) a.graph := by
  have hopen : ∀ key ∈ a.graph.keysWithoutEdge barrierLabel settledEdge,
      (a.graph.getNode barrierLabel key).isSome :=
    fun key hkey => (Graph.mem_keysWithoutEdge.mp hkey).1
  have hnodup : ([] ++ a.graph.keysWithoutEdge barrierLabel settledEdge).Nodup :=
    a.graph.nodup_keysWithoutEdge barrierLabel settledEdge
  unfold settleAnalystNode
  rw [hfree]
  refine (passClaims_safe hstart ha hopen hnodup ⟨hstart, .refl _⟩
    ⟨fun _ _ => rfl, fun _ => rfl, fun _ hmem => absurd hmem List.not_mem_nil⟩).append
    fun u hu hunder => mark_safe ha hrun hu (fun claimKey hcloses => ?_)
      ((hunder.marks _).trans hfree) _ _
  by_cases hin : claimKey ∈ a.graph.keysWithoutEdge barrierLabel settledEdge
  · exact hunder.linked claimKey hin hcloses
  · exact hu.2.edges.subset (hstart.linked_of_not_open hcloses hin)

/-! ### Runs -/

/-- The store, the attempts so far, and those among them that went through. -/
structure SettlementStore where
  graph : PipelineGraph
  tried : List Attempt
  passed : List Attempt

/-- An attempt at the pass over a run, which crashes when its clock readings run out, or a write of
the rest of the system. -/
inductive SettlementMove where
  | attempt (runKey : String) (today : Day) (times : List String)
  | write (w : Write Document)

/-- One move.  An attempt over a run that is marked already writes nothing and does not count as
one that went through. -/
def settlementStep (r : SettlementReaders) (s : SettlementStore) :
    SettlementMove → Except GraphError SettlementStore
  | .attempt runKey today times =>
    match s.graph.getNode analystRunLabel runKey with
    | none => .ok s
    | some run => do
      let a : Attempt := ⟨run, s.graph, today⟩
      let ops := settleAnalystNode r s.graph today run
      let graph ← carryOut Graph.write ops times s.graph
      let passed := if !ops.isEmpty ∧ ops.length ≤ times.length then s.passed ++ [a] else s.passed
      pure ⟨graph, s.tried ++ [a], passed⟩
  | .write w => do
    let graph ← s.graph.write w
    pure { s with graph }

/-- The rest of the system leaves the settlements, their links and the marks alone. -/
def LeavesLedger (_ : SettlementStore) : SettlementMove → Prop
  | .attempt _ _ _ => True
  | .write w => w.node?.map Prod.fst ≠ some settlementLabel ∧
      w.node?.map Prod.fst ≠ some settlementMarkerLabel ∧
      w.edge?.map Edge.edgeType ≠ some settledEdge

instance (s : SettlementStore) : DecidablePred (LeavesLedger s)
  | .attempt _ _ _ => inferInstanceAs (Decidable True)
  | .write _ => inferInstanceAs (Decidable (_ ≠ _ ∧ _ ≠ _ ∧ _ ≠ _))

/-- A store without settlements. -/
def SettlementStore.Fresh (s : SettlementStore) : Prop :=
  s.tried = [] ∧ s.passed = [] ∧ s.graph.listNodes settlementLabel = [] ∧
    s.graph.listNodes settlementMarkerLabel = [] ∧ ∀ e ∈ s.graph.edges, e.edgeType ≠ settledEdge

abbrev Settles (r : SettlementReaders) (s : SettlementStore) : Prop :=
  Reach (settlementStep r) LeavesLedger SettlementStore.Fresh s

/-- The invariant of a run. -/
structure SettlementStore.Sound (r : SettlementReaders) (s : SettlementStore) : Prop where
  ledger : Ledger r s.tried s.graph
  passed : ∀ a ∈ s.passed, a.Passed r s.graph

theorem SettlementStore.Fresh.sound {s : SettlementStore} (h : s.Fresh) : s.Sound r := by
  obtain ⟨-, hpassed, hsettlements, hmarks, hlinks⟩ := h
  have hnone : ∀ {label}, s.graph.listNodes label = [] → ∀ key, s.graph.getNode label key = none :=
    fun hnil key => Graph.getNode_eq_none_of_notMem (by rw [hnil]; exact List.not_mem_nil)
  refine ⟨⟨fun e he htype => absurd htype (hlinks e he), fun key n hn => ?_, fun key n hn => ?_⟩,
    fun a ha => ?_⟩
  · cases (hnone hsettlements key).symm.trans hn
  · cases (hnone hmarks key).symm.trans hn
  · rw [hpassed] at ha
    cases ha

/-- An attempt goes through as far as it gets. -/
theorem SettlementStore.Sound.attempt {s : SettlementStore} (h : s.Sound r) (runKey : String)
    (today : Day) (times : List String) :
    ∃ s', settlementStep r s (.attempt runKey today times) = .ok s' ∧ s'.Sound r ∧
      (marksOf s.graph runKey ≠ [] → s'.graph = s.graph) := by
  rw [settlementStep]
  cases hrun : s.graph.getNode analystRunLabel runKey with
  | none => exact ⟨s, rfl, h, fun _ => rfl⟩
  | some run =>
    obtain ⟨-, rfl⟩ := Graph.getNode_nodeKey hrun
    let a : Attempt := ⟨run, s.graph, today⟩
    have hledger : Ledger r (s.tried ++ [a]) s.graph := h.ledger.mono a
    cases hmark : s.graph.getNode settlementMarkerLabel (settlementMarkerKey run.key) with
    | some m =>
      have hops : settleAnalystNode r s.graph today run = [] := by
        rw [settleAnalystNode, hmark]
      refine ⟨⟨s.graph, s.tried ++ [a], s.passed⟩, ?_, ⟨hledger, h.passed⟩, fun _ => rfl⟩
      simp only [hops]
      rfl
    | none =>
      obtain ⟨t, ht, ⟨hkept, hgrown⟩, hpassed⟩ := (settleAnalystNode_safe (a := a) hledger
        (List.mem_append_right _ List.mem_cons_self) hrun hmark).carryOut times
      have hunmarked : marksOf s.graph run.key = [] := by
        refine List.eq_nil_iff_forall_not_mem.mpr fun n hn => ?_
        cases hmark.symm.trans (h.ledger.getNode_of_mem_marksOf hn)
      have ht : carryOut Graph.write
        (settleAnalystNode r s.graph today run) times s.graph = .ok t :=
        ht
      simp only [ht, Fallible.ok_bind]
      refine ⟨_, rfl, ⟨hkept, fun b hb => ?_⟩, fun hne => absurd hunmarked hne⟩
      dsimp only at hb
      split at hb
      · rename_i hall
        rcases List.mem_append.mp hb with hold | hnew
        · exact (h.passed b hold).mono hgrown
        · cases List.mem_singleton.mp hnew
          exact hpassed hall.2
      · exact (h.passed b hb).mono hgrown

/-- One move keeps the invariant. -/
theorem SettlementStore.Sound.step {s s' : SettlementStore} (h : s.Sound r) {i : SettlementMove}
    (hleaves : LeavesLedger s i) (hok : settlementStep r s i = .ok s') : s'.Sound r := by
  cases i with
  | attempt runKey today times =>
    obtain ⟨t, ht, hsound, -⟩ := h.attempt runKey today times
    cases ht.symm.trans hok
    exact hsound
  | write w =>
    obtain ⟨t, ht, hret⟩ := Fallible.bind_eq_ok.mp hok
    cases hret
    obtain ⟨hsettlement, hmark, hlink⟩ := hleaves
    refine ⟨h.ledger.write ht (fun e he htype => ?_) (fun key n hnode => ?_) fun key n hnode => ?_,
      fun a ha => (h.passed a ha).mono (Graph.write_extends ht)⟩
    · exact absurd (by rw [he, Option.map_some, htype]) hlink
    · exact absurd (by rw [hnode]; rfl) hsettlement
    · exact absurd (by rw [hnode]; rfl) hmark

/-- What the passes of a run leave behind. -/
structure SettlementStore.SettledByPasses (r : SettlementReaders) (s : SettlementStore) : Prop where
  /-- A claim has one settlement and one link at most. -/
  single : ∀ claimKey, (settlementsOf s.graph claimKey).length ≤ 1 ∧
    (linksOf s.graph claimKey).length ≤ 1
  /-- What no attempt decided has none. -/
  undecided : ∀ claimKey, (∀ a ∈ s.tried, ¬ a.Decides r claimKey) → Unsettled s.graph claimKey
  /-- What an attempt decided is settled once, as soon as an attempt went through. -/
  decided : ∀ a ∈ s.passed, ∀ claimKey, a.Closes r claimKey → SettledOnce s.graph claimKey
  /-- A run is marked once at most, and when the claims that the attempt decided are settled. -/
  marked : ∀ runKey, (marksOf s.graph runKey).length ≤ 1 ∧ (marksOf s.graph runKey ≠ [] →
    ∃ a ∈ s.tried, a.run.key = runKey ∧ ∀ claimKey, a.Closes r claimKey →
      SettledOnce s.graph claimKey)
  /-- Another attempt goes through, and writes nothing once the run is marked. -/
  retry : ∀ runKey today times, ∃ s', settlementStep r s (.attempt runKey today times) = .ok s' ∧
    (marksOf s.graph runKey ≠ [] → s'.graph = s.graph)

/-- In every run of attempts, each cut off anywhere, a claim that an attempt decides ends with one
settlement and one link to it. -/
theorem passes_settle {s : SettlementStore} (h : Settles r s) : s.SettledByPasses r := by
  have hsound : s.Sound r := h.invariant (fun _ hs => hs.sound) fun _ _ _ hs hleaves hok =>
    hs.step hleaves hok
  have hledger := hsound.ledger
  refine ⟨fun claimKey => ⟨?_, ?_⟩, fun _ hnone => hledger.unsettled hnone,
    fun a ha claimKey hcloses => hledger.settledOnce ((hsound.passed a ha).1 claimKey hcloses),
    fun runKey => ⟨hledger.length_marksOf runKey, fun hne => ?_⟩, fun runKey today times => ?_⟩
  · rw [hledger.settlementsOf_eq]
    cases s.graph.getNode settlementLabel (settlementKey claimKey) <;> simp
  · rw [hledger.linksOf_eq]
    split <;> simp
  · obtain ⟨n, hn⟩ := List.exists_mem_of_ne_nil _ hne
    obtain ⟨a, ha, hkey, -, hlinked⟩ :=
      hledger.marks _ n (hledger.getNode_of_mem_marksOf hn)
    exact ⟨a, ha, (settlementMarkerKey_injective hkey).symm, fun claimKey hcloses =>
      hledger.settledOnce (hlinked claimKey hcloses)⟩
  · obtain ⟨s', hs', -, hsame⟩ := hsound.attempt runKey today times
    exact ⟨s', hs', hsame⟩

/-! ### A run over two claims -/

theorem january_bounds (n : Nat) : (1 ≤ 2026 ∧ 2026 ≤ 9999) ∧ (1 ≤ 1 ∧ 1 ≤ 12) ∧
    1 ≤ n % 31 + 1 ∧ n % 31 + 1 ≤ daysInMonth 2026 1 := by
  have hbound : daysInMonth 2026 1 = 31 := by decide
  have hmod : n % 31 < 31 := Nat.mod_lt n (by decide)
  omega

/-- A day of January, counted from zero. -/
def january (n : Nat) : Day :=
  ⟨2026, 1, n % 31 + 1, (january_bounds n).1, (january_bounds n).2.1, (january_bounds n).2.2⟩

/-- Readers that know the texts of the run below. -/
def januaryReaders : SettlementReaders where
  day text := if text = "2026-01-05" then some (january 4) else none
  stampDay text := if text = "2026-01-20T23:00:00+00:00" then some (january 19) else none
  snapshotBars market := if market.key = "market-data:run-1" then
    some ((List.range 11).map fun n => ⟨"AAPL", ⟨january (4 + n), 109, 99, 100⟩⟩) else none

def claimProps (ticker : String) : Props Document := .ofList [
  ("ticker", .str ticker),
  ("as_of", .str "2026-01-05"),
  ("entry_close", .int 100),
  ("stop_pct", .num (1 / 20)),
  ("target_pct", .num (2 / 25)),
  ("p_stop_first", .num (3 / 10)),
  ("p_target_first", .num (1 / 2)),
  ("p_neither", .num (1 / 5)),
  ("model_id", .str "garch-v1")]

/-- Two claims and a run whose bars decide the first: the first attempt stops before it has linked
its settlement, the second goes through. -/
def twoClaims : List SettlementMove := [
  .write (.merge barrierLabel "garch-v1:AAPL:2026-01-05" (claimProps "AAPL")),
  .write (.merge barrierLabel "garch-v1:MSFT:2026-01-05" (claimProps "MSFT")),
  .write (.merge analystRunLabel "run-1" (.ofList [
    ("created_at", .str "2026-01-20T23:00:00+00:00")])),
  .write (.merge "ScanRun" "scan-1" .empty),
  .write (.merge "MarketData" "market-data:run-1" .empty),
  .write (.link ⟨("ScanRun", "scan-1"), ("MarketData", "market-data:run-1"), "DERIVED_FROM"⟩),
  .write (.link ⟨("ScanRun", "scan-1"), (analystRunLabel, "run-1"), "ANALYZED_BY"⟩),
  .attempt "run-1" (january 19) ["2026-01-20T23:05:00+00:00"],
  .attempt "run-1" (january 19) ["2026-01-20T23:10:00+00:00", "2026-01-20T23:10:01+00:00",
    "2026-01-20T23:10:02+00:00"]]

def emptySettlements : SettlementStore := ⟨.empty, [], []⟩

theorem emptySettlements_fresh : emptySettlements.Fresh :=
  ⟨rfl, rfl, rfl, rfl, fun _ he => absurd he List.not_mem_nil⟩

/-- The claim that the crash left without its link is settled once. -/
theorem twoClaims_settle : ∃ s : SettlementStore, s.SettledByPasses januaryReaders ∧
    s.passed.length = 1 ∧ (marksOf s.graph "run-1").length = 1 ∧
    (settlementsOf s.graph "garch-v1:AAPL:2026-01-05").map
      (fun n => (n.get "outcome").str?) = [some "target"] ∧
    linksOf s.graph "garch-v1:AAPL:2026-01-05" = [settledLink "garch-v1:AAPL:2026-01-05"] := by
  have hrun : Fallible.check (fun s : SettlementStore => decide (s.passed.length = 1 ∧
      (marksOf s.graph "run-1").length = 1 ∧
      (settlementsOf s.graph "garch-v1:AAPL:2026-01-05").map
        (fun n => (n.get "outcome").str?) = [some "target"] ∧
      linksOf s.graph "garch-v1:AAPL:2026-01-05" = [settledLink "garch-v1:AAPL:2026-01-05"]))
      (twoClaims.foldlM (fun s i => if LeavesLedger s i then settlementStep januaryReaders s i
        else .error (.missingNode "" "")) emptySettlements) = true := by decide +kernel
  obtain ⟨s, hs, hcheck⟩ := Fallible.check_eq_true.mp hrun
  exact ⟨s, passes_settle (.of_checked (.start emptySettlements_fresh) hs),
    of_decide_eq_true hcheck⟩

/-- The run is marked while its bars have left the other claim open. -/
theorem openClaim_marked : ¬ ∀ r s, Settles r s → ∀ runKey, marksOf s.graph runKey ≠ [] →
    ∀ claimKey, (s.graph.getNode barrierLabel claimKey).isSome → SettledOnce s.graph claimKey := by
  intro hall
  have hrun : Fallible.check (fun s : SettlementStore =>
      decide ((marksOf s.graph "run-1").length = 1 ∧
        (s.graph.getNode barrierLabel "garch-v1:MSFT:2026-01-05").isSome ∧
        linksOf s.graph "garch-v1:MSFT:2026-01-05" = []))
      (twoClaims.foldlM (fun s i => if LeavesLedger s i then settlementStep januaryReaders s i
        else .error (.missingNode "" "")) emptySettlements) = true := by decide +kernel
  obtain ⟨s, hs, hcheck⟩ := Fallible.check_eq_true.mp hrun
  obtain ⟨hmarked, hclaim, hlinks⟩ := of_decide_eq_true hcheck
  have hne : marksOf s.graph "run-1" ≠ [] := by
    intro hnil
    rw [hnil] at hmarked
    cases hmarked
  obtain ⟨-, -, -, hlinked⟩ := hall januaryReaders s
    (.of_checked (.start emptySettlements_fresh) hs)
    "run-1" hne "garch-v1:MSFT:2026-01-05" hclaim
  rw [hlinks] at hlinked
  cases hlinked

end TradingAgents.Forecaster
