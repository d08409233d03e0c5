import Mathlib
import TradingAgents.Execution.AttemptChains
import TradingAgents.Execution.PmExecution
import TradingAgents.Execution.StatusRefresh
import TradingAgents.Kernel.AppendOnly

/-! Replays of a submission.  A pass over an order set may break off anywhere before its PMRun is
linked, and is then made again: the broker answers an order it knows with its present account, which
is recorded as an attempt of its own when it differs from the first.  The Fills of one broker order
are counted once exactly as long as no two of them may come to count. -/

namespace TradingAgents.Execution

open Kernel ProofKit ProofKit.Fallible BrokerLifecycle

/-- Whether a Fill counts as filled, or may come to count with a refresh. -/
def mayCount (n : PipelineNode) : Bool := isFilledFill n || awaitsBroker n

/-- The Fills of a broker order that count as filled. -/
def countedFills (g : PipelineGraph) (brokerKey : String) : List PipelineNode :=
  (g.listNodes fillLabel).filter fun n =>
    isFilledFill n && decide (brokerIdempotencyKey n = brokerKey)

/-- The Fill of one answer, without its order lineage. -/
def recordFill (g : PipelineGraph) (fill : BrokerFill) (orderSet : OrderIntentSet) :
    Except HandlerError PipelineGraph := do
  let attempt := selectFillAttempt g fill.idempotencyKey (fillProps fill orderSet)
  let (g, _) ← liftGraph (g.mergeNode fillLabel attempt.key attempt.props)
  pure g

/-- Whether an attempt of the answer's key stands that agrees with the answer. -/
def standsAlready (g : PipelineGraph) (fill : BrokerFill) (orderSet : OrderIntentSet) : Bool :=
  (List.range (g.listNodes fillLabel).length).any fun ordinal =>
    match g.getNode fillLabel (fillAttemptKey fill.idempotencyKey ordinal) with
    | none => false
    | some n => propsCompatible n.props
        (withAttemptProps (fillProps fill orderSet) fill.idempotencyKey ordinal)

/-- A step of the replays of order sets: one intent of a pass under the tolerance settings of that
pass, an intent whose pass breaks off between its Fill and the edge to its order, a refresh, and a
write of something else. -/
inductive ReplayEvent where
  | submit (config : OrderToleranceConfig) (orderSet : OrderIntentSet) (intent : OrderIntent)
      (answer : BrokerReply)
  | breakOff (config : OrderToleranceConfig) (orderSet : OrderIntentSet) (intent : OrderIntent)
      (answer : BrokerReply)
  | refresh (reports : List BrokerFill) (now : String)
  | outside (c : Call Document)

def replayStep (g : PipelineGraph) : ReplayEvent → Except HandlerError PipelineGraph
  | .submit config orderSet intent answer => do
    let order ← orderFromIntent config orderSet.runId intent
    pure (submitIntent (fun _ _ => answer) orderSet { graph := g } (intent, order)).graph
  | .breakOff config orderSet intent answer => do
    let order ← orderFromIntent config orderSet.runId intent
    recordFill g (submitOrder order answer) orderSet
  | .refresh reports now => refreshPendingFills g reports now
  | .outside c => .ok (c.after g)

/-- The broker answers under the key of the order. -/
def Answers (config : OrderToleranceConfig) (orderSet : OrderIntentSet) (intent : OrderIntent)
    (answer : BrokerReply) : Prop :=
  ∀ order, orderFromIntent config orderSet.runId intent = .ok order →
    (submitOrder order answer).idempotencyKey = order.idempotencyKey

/-- An answer that stands already, or that does not come to count beside another. -/
def CountsOnce (g : PipelineGraph) (config : OrderToleranceConfig) (orderSet : OrderIntentSet)
    (intent : OrderIntent) (answer : BrokerReply) : Prop :=
  ∀ order, orderFromIntent config orderSet.runId intent = .ok order →
    let fill := submitOrder order answer
    standsAlready g fill orderSet = true ∨ (fill.status ≠ .filled ∧ fill.status ≠ .pending) ∨
      ∀ n ∈ g.listNodes fillLabel, brokerIdempotencyKey n = fill.idempotencyKey → mayCount n = false

/-- A write of something else leaves the names that a Fill is counted by. -/
def LeavesCounted (g : PipelineGraph) : Call Document → Prop
  | .mergeNode label key props _ => label = fillLabel → g.getNode fillLabel key ≠ none ∧
      ∀ name ∈ ["broker_idempotency_key", "status", "broker_status"], props.get? name = none
  | .addEdge _ _ _ => True

def AnsweredEvent (g : PipelineGraph) : ReplayEvent → Prop
  | .submit config orderSet intent answer => Answers config orderSet intent answer
  | .breakOff config orderSet intent answer => Answers config orderSet intent answer
  | .refresh _ _ => True
  | .outside c => LeavesCounted g c

def OnceEvent (g : PipelineGraph) : ReplayEvent → Prop
  | .submit config orderSet intent answer =>
    Answers config orderSet intent answer ∧ CountsOnce g config orderSet intent answer
  | .breakOff config orderSet intent answer =>
    Answers config orderSet intent answer ∧ CountsOnce g config orderSet intent answer
  | .refresh _ _ => True
  | .outside c => LeavesCounted g c

/-- Nothing has been submitted yet. -/
def Unsubmitted (g : PipelineGraph) : Prop := ∀ key, g.getNode fillLabel key = none

/-! ### What a Fill is counted by -/

/-- A Fill after a write: its key and its status are as they were, and it may count only if it might
before. -/
structure KeepsCount (n n' : PipelineNode) : Prop where
  brokerKey : n'.props.get? "broker_idempotency_key" = n.props.get? "broker_idempotency_key"
  status : n'.props.get? "status" = n.props.get? "status"
  counts : mayCount n' = true → mayCount n = true

theorem KeepsCount.refl (n : PipelineNode) : KeepsCount n n := ⟨rfl, rfl, id⟩

theorem mayCount_congr {n n' : PipelineNode}
    (hstatus : n'.props.get? "status" = n.props.get? "status")
    (hbroker : n'.props.get? "broker_status" = n.props.get? "broker_status") :
    mayCount n' = mayCount n := by
  have heffective : effectiveFillStatus n' = effectiveFillStatus n := by
    simp only [effectiveFillStatus, Node.get, Props.get, hstatus, hbroker]
  have hawaits : awaitsBroker n' = awaitsBroker n := by
    simp only [awaitsBroker, Node.get, Props.get, hstatus, hbroker]
  rw [mayCount, mayCount, isFilledFill, isFilledFill, heffective, hawaits]

theorem brokerIdempotencyKey_eq {n : PipelineNode} {brokerKey : String} (hne : brokerKey ≠ "")
    (h : n.props.get? "broker_idempotency_key" = some (.str brokerKey)) :
    brokerIdempotencyKey n = brokerKey := by
  simp [brokerIdempotencyKey, Node.get, Props.get, h, hne]

/-- A Fill without a broker status counts as its own status says. -/
theorem mayCount_unrefreshed {n : PipelineNode} {status : FillStatus}
    (hstatus : n.props.get? "status" = some (.str status.value))
    (hbroker : n.props.get? "broker_status" = none) :
    mayCount n = true ↔ status = .filled ∨ status = .pending := by
  simp only [mayCount, isFilledFill, effectiveFillStatus, awaitsBroker, hbroker,
    Option.getD_none, Node.get, Props.get, hstatus, Option.getD_some, Bool.or_eq_true]
  cases status <;> decide

/-- A Fill stands under the key of an attempt of its broker key, after the attempts below it. -/
structure StandsAsAttempt (g : PipelineGraph) (key : String) (n : PipelineNode) (brokerKey : String)
    (ordinal : Nat) : Prop where
  key_eq : key = fillAttemptKey brokerKey ordinal
  named : brokerKey ≠ ""
  names : n.props.get? "broker_idempotency_key" = some (.str brokerKey)
  below : ∀ m < ordinal, (g.getNode fillLabel (fillAttemptKey brokerKey m)).isSome = true
  status : ∃ status, n.props.get? "status" = some (.str status)

/-- Every Fill is an attempt, and no two of a broker key may count. -/
structure CountedOnce (g : PipelineGraph) : Prop where
  attempts : ∀ key n, g.getNode fillLabel key = some n →
    ∃ brokerKey ordinal, StandsAsAttempt g key n brokerKey ordinal
  single : ∀ n ∈ g.listNodes fillLabel, ∀ m ∈ g.listNodes fillLabel,
    brokerIdempotencyKey n = brokerIdempotencyKey m → mayCount n = true → mayCount m = true → n = m

section Steps

variable {g g' : PipelineGraph}

/-- The Fills of two graphs, one by one. -/
def CountsKept (g g' : PipelineGraph) : Prop :=
  ∀ key, Option.Rel KeepsCount (g.getNode fillLabel key) (g'.getNode fillLabel key)

theorem CountsKept.forward (h : CountsKept g g') {key : String} {n : PipelineNode}
    (hn : g.getNode fillLabel key = some n) :
    ∃ n', g'.getNode fillLabel key = some n' ∧ KeepsCount n n' := by
  have hrel := h key
  rw [hn] at hrel
  cases hn' : g'.getNode fillLabel key with
  | none => rw [hn'] at hrel; cases hrel
  | some n' =>
    rw [hn'] at hrel
    cases hrel
    exact ⟨n', rfl, by assumption⟩

theorem CountsKept.back (h : CountsKept g g') {key : String} {n' : PipelineNode}
    (hn' : g'.getNode fillLabel key = some n') :
    ∃ n, g.getNode fillLabel key = some n ∧ KeepsCount n n' := by
  have hrel := h key
  rw [hn'] at hrel
  cases hn : g.getNode fillLabel key with
  | none => rw [hn] at hrel; cases hrel
  | some n =>
    rw [hn] at hrel
    cases hrel
    exact ⟨n, rfl, by assumption⟩

theorem StandsAsAttempt.kept {key : String} {n n' : PipelineNode} {brokerKey : String}
    {ordinal : Nat} (h : StandsAsAttempt g key n brokerKey ordinal) (hkept : CountsKept g g')
    (hn : KeepsCount n n') : StandsAsAttempt g' key n' brokerKey ordinal where
  key_eq := h.key_eq
  named := h.named
  names := hn.brokerKey.trans h.names
  below m hm := by
    obtain ⟨l, hl⟩ := Option.isSome_iff_exists.mp (h.below m hm)
    obtain ⟨l', hl', -⟩ := hkept.forward hl
    rw [hl']
    rfl
  status := by
    obtain ⟨status, hstatus⟩ := h.status
    exact ⟨status, hn.status.trans hstatus⟩

/-- Writes that keep every Fill's count keep the single counts. -/
theorem CountedOnce.kept (h : CountedOnce g) (hkept : CountsKept g g') : CountedOnce g' where
  attempts key n' hn' := by
    obtain ⟨n, hn, hkeeps⟩ := hkept.back hn'
    obtain ⟨brokerKey, ordinal, hattempt⟩ := h.attempts key n hn
    exact ⟨brokerKey, ordinal, hattempt.kept hkept hkeeps⟩
  single := by
    intro n' hn' m' hm' hkey hcn hcm
    have hn' := (Graph.mem_listNodes.mp hn').2
    have hm' := (Graph.mem_listNodes.mp hm').2
    obtain ⟨n, hn, hnk⟩ := hkept.back hn'
    obtain ⟨m, hm, hmk⟩ := hkept.back hm'
    obtain ⟨hnlabel, hnkey⟩ := Graph.getNode_nodeKey hn
    obtain ⟨hmlabel, hmkey⟩ := Graph.getNode_nodeKey hm
    obtain ⟨bn, i, hbn⟩ := h.attempts _ n hn
    obtain ⟨bm, j, hbm⟩ := h.attempts _ m hm
    rw [brokerIdempotencyKey_eq hbn.named (hnk.brokerKey.trans hbn.names),
      brokerIdempotencyKey_eq hbm.named (hmk.brokerKey.trans hbm.names)] at hkey
    have heq : n = m := by
      refine h.single n (Graph.mem_listNodes.mpr ⟨hnlabel, hnkey ▸ hn⟩) m
        (Graph.mem_listNodes.mpr ⟨hmlabel, hmkey ▸ hm⟩) ?_ (hnk.counts hcn) (hmk.counts hcm)
      rw [brokerIdempotencyKey_eq hbn.named hbn.names,
        brokerIdempotencyKey_eq hbm.named hbm.names, hkey]
    rw [← hnkey, heq, hmkey, hm'] at hn'
    exact (Option.some.inj hn').symm

/-! ### Refreshes and other writes -/

/-- A refresh changes the Fills that it lists only. -/
theorem refreshPendingFills_rest {reports : List BrokerFill} {now : String}
    (h : refreshPendingFills g reports now = .ok g') {key : String}
    (hfree : g.getNode fillLabel key = none) : g'.getNode fillLabel key = none := by
  have hrest := foldlM_induction (P := fun done t =>
    ∀ key, key ∉ done.map Node.key → t.getNode fillLabel key = g.getNode fillLabel key) h
    (fun _ _ => rfl) ?_
  · rw [hrest key, hfree]
    intro hmem
    obtain ⟨n, hn, rfl⟩ := List.mem_map.mp hmem
    rw [(Graph.mem_listNodes.mp hn).2] at hfree
    cases hfree
  · intro done n rest t t' hl hP hok key hkey
    simp only [List.map_append, List.map_cons, List.map_nil, List.mem_append, List.mem_singleton,
      not_or] at hkey
    have hnodup := Graph.nodup_listNodes_keys g fillLabel
    rw [hl, List.map_append, List.nodup_append] at hnodup
    have hn := (Graph.mem_listNodes.mp (show n ∈ g.listNodes fillLabel by rw [hl]; simp)).2
    have hstands := (hP n.key fun hdone => hnodup.2.2 _ hdone _ (by simp) rfl).trans hn
    rw [(refreshFill_ok hstands hok).others _ _ fun heq => hkey.2 (Prod.mk.inj heq).2]
    exact hP key hkey.1

theorem RefreshedFill.keepsCount {reports : List BrokerFill} {n n' : PipelineNode}
    (h : RefreshedFill reports n n') {brokerKey status : String}
    (hkey : n.props.get? "broker_idempotency_key" = some (.str brokerKey))
    (hstatus : n.props.get? "status" = some (.str status)) : KeepsCount n n' where
  brokerKey := by rw [h.grows.get_str (by decide) hkey, hkey]
  status := by rw [h.grows.get_str (by decide) hstatus, hstatus]
  counts hcounts := by
    rcases h.status with hsame | ⟨hawaits, -⟩
    · rwa [mayCount_congr (by rw [h.grows.get_str (by decide) hstatus, hstatus]) hsame] at hcounts
    · rw [mayCount, hawaits, Bool.or_true]

theorem CountedOnce.refresh (h : CountedOnce g) {reports : List BrokerFill} {now : String}
    (hok : refreshPendingFills g reports now = .ok g') : CountedOnce g' := by
  refine h.kept fun key => ?_
  cases hn : g.getNode fillLabel key with
  | none =>
    rw [refreshPendingFills_rest hok hn]
    exact .none
  | some n =>
    obtain ⟨n', hn', hrefreshed⟩ := (refreshPendingFills_ok hok).fills key n hn
    obtain ⟨brokerKey, ordinal, hattempt⟩ := h.attempts key n hn
    obtain ⟨status, hstatus⟩ := hattempt.status
    rw [hn']
    exact .some (hrefreshed.keepsCount hattempt.names hstatus)

theorem CountedOnce.outside (h : CountedOnce g) {c : Call Document} (hc : LeavesCounted g c) :
    CountedOnce (c.after g) := by
  unfold Call.after
  rcases c.perform_cases g with ⟨label, key, props, version, g₁, m, rfl, hm, hrun⟩ |
    ⟨parent, child, edgeType, g₁, rfl, hadd, hrun⟩ | ⟨e, hrun⟩
  · rw [hrun]
    refine h.kept fun k => ?_
    have hget := Graph.mergeNode_get? hm
    obtain ⟨rfl, rfl, rfl, -, -⟩ := Graph.mergeNode_ok hm
    rw [Graph.getNode_put]
    by_cases hsame : fillLabel = m.label ∧ k = m.key
    · obtain ⟨hlabel, rfl⟩ := hsame
      rw [if_pos ⟨hlabel, rfl⟩]
      obtain ⟨hstands, hnone⟩ := hc hlabel.symm
      obtain ⟨n, hn⟩ := Option.ne_none_iff_exists'.mp hstands
      have hkeeps : ∀ name ∈ ["broker_idempotency_key", "status", "broker_status"],
          m.props.get? name = n.props.get? name := by
        intro name hname
        rw [hget, hnone name hname, ← hlabel, hn]
        rfl
      rw [hn]
      refine .some ⟨hkeeps _ (by simp), hkeeps _ (by simp), fun hcounts => ?_⟩
      rwa [mayCount_congr (hkeeps _ (by simp)) (hkeeps _ (by simp))] at hcounts
    · rw [if_neg hsame]
      cases g.getNode fillLabel k with
      | none => exact .none
      | some n => exact .some (.refl n)
  · rw [hrun]
    refine h.kept fun k => ?_
    rw [Graph.getNode_of_nodes_eq (Graph.addEdge_ok hadd).1]
    cases g.getNode fillLabel k with
    | none => exact .none
    | some n => exact .some (.refl n)
  · rw [hrun]
    exact h

/-! ### Recorded answers -/

variable {fill : BrokerFill} {orderSet : OrderIntentSet}

/-- An attempt that stands is reached before a free ordinal. -/
theorem CountedOnce.selects_standing (h : CountedOnce g)
    (hstands : standsAlready g fill orderSet = true) :
    (g.getNode fillLabel
      (selectFillAttempt g fill.idempotencyKey (fillProps fill orderSet)).key).isSome = true := by
  simp only [standsAlready, List.any_eq_true, List.mem_range] at hstands
  obtain ⟨ordinal, -, hfits⟩ := hstands
  split at hfits
  · cases hfits
  rename_i n hn
  -- the node is the attempt of this key and ordinal, so the attempts below it stand
  obtain ⟨brokerKey, i, hattempt⟩ := h.attempts _ n hn
  have hkey := propsCompatible_iff.mp hfits _ _ _ hattempt.names (orderAttempt_get? _ _ _ _).1
  rw [Value.pyEq_str, decide_eq_true_eq, Value.str.injEq] at hkey
  subst hkey
  have hordinal : ordinal = i := attemptKey_injective _ hattempt.key_eq
  subst hordinal
  obtain ⟨hselected, -, -, hmin⟩ :=
    selectFillAttempt_spec g fill.idempotencyKey (fillProps fill orderSet) false
  rw [hselected]
  rcases Nat.lt_trichotomy
    (selectFillAttempt g fill.idempotencyKey (fillProps fill orderSet)).ordinal ordinal with
    hlt | heq | hgt
  · exact hattempt.below _ hlt
  · rw [heq, hn]
    rfl
  · have hunfit := hmin ordinal hgt
    rw [attemptFits, hn] at hunfit
    simp [hfits] at hunfit

/-- An answer that agrees with the attempt it is merged into. -/
theorem CountedOnce.merged (h : CountedOnce g) {node current : PipelineNode}
    (hm : g.mergeNode fillLabel (selectFillAttempt g fill.idempotencyKey
        (fillProps fill orderSet)).key (selectFillAttempt g fill.idempotencyKey
        (fillProps fill orderSet)).props = .ok (g', node))
    (hcurrent : g.getNode fillLabel (selectFillAttempt g fill.idempotencyKey
        (fillProps fill orderSet)).key = some current) : CountedOnce g' := by
  obtain ⟨hkey, hprops, hfits, -⟩ :=
    selectFillAttempt_spec g fill.idempotencyKey (fillProps fill orderSet) false
  have hothers := (mergeAttempt_written hm).others
  rw [← hkey] at hothers
  generalize selectFillAttempt g fill.idempotencyKey (fillProps fill orderSet) = attempt at *
  obtain ⟨brokerKey, ordinal, hattempt⟩ := h.attempts _ current hcurrent
  obtain ⟨status, hstatus⟩ := hattempt.status
  obtain ⟨hnewKey, hnewStatus⟩ := orderAttempt_get? fill orderSet
    fill.idempotencyKey attempt.ordinal
  rw [attemptFits, ← hkey, hcurrent] at hfits
  simp only [Bool.not_false, Bool.true_and] at hfits
  have hsame : ∀ name s s', current.props.get? name = some (.str s) →
      (withAttemptProps (fillProps fill orderSet) fill.idempotencyKey attempt.ordinal).get? name =
        some (.str s') → node.props.get? name = some (.str s) := by
    intro name s s' hs hs'
    have heq := propsCompatible_iff.mp hfits _ _ _ hs hs'
    rw [Value.pyEq_str, decide_eq_true_eq] at heq
    rw [Graph.mergeNode_get? hm, hprops, hs', heq]
    rfl
  have hunwritten : node.props.get? "broker_status" = current.props.get? "broker_status" := by
    rw [Graph.mergeNode_get? hm, hprops, fillProps_brokerStatus, hcurrent]
    rfl
  have hstatus' := hsame _ _ _ hstatus hnewStatus
  refine h.kept fun key => ?_
  by_cases heq : key = attempt.key
  · rw [heq, hcurrent]
    rw [Graph.mergeNode_getNode hm]
    refine .some ⟨by rw [hsame _ _ _ hattempt.names hnewKey, hattempt.names],
      by rw [hstatus', hstatus], fun hcounts => ?_⟩
    rwa [mayCount_congr (by rw [hstatus', hstatus]) hunwritten] at hcounts
  · rw [hothers key heq]
    cases g.getNode fillLabel key with
    | none => exact .none
    | some n => exact .some (.refl n)

/-- An answer that gets a Fill of its own, beside none of its key that may count if it may. -/
theorem CountedOnce.added (h : CountedOnce g) (hne : fill.idempotencyKey ≠ "")
    {node : PipelineNode}
    (hm : g.mergeNode fillLabel (selectFillAttempt g fill.idempotencyKey
        (fillProps fill orderSet)).key (selectFillAttempt g fill.idempotencyKey
        (fillProps fill orderSet)).props = .ok (g', node))
    (hfree : g.getNode fillLabel (selectFillAttempt g fill.idempotencyKey
        (fillProps fill orderSet)).key = none)
    (honce : mayCount node = true → ∀ n ∈ g.listNodes fillLabel,
      brokerIdempotencyKey n = fill.idempotencyKey → mayCount n = false) : CountedOnce g' := by
  obtain ⟨hkey, hprops, -, -⟩ :=
    selectFillAttempt_spec g fill.idempotencyKey (fillProps fill orderSet) false
  have hbelow := (mergeAttempt_written hm).below
  have hothers := (mergeAttempt_written hm).others
  rw [← hkey] at hothers
  generalize selectFillAttempt g fill.idempotencyKey (fillProps fill orderSet) = attempt at *
  obtain ⟨hnewKey, hnewStatus⟩ := orderAttempt_get? fill orderSet
    fill.idempotencyKey attempt.ordinal
  have hget := Graph.mergeNode_get? hm
  have hnames : node.props.get? "broker_idempotency_key" = some (.str fill.idempotencyKey) := by
    rw [hget, hprops, hnewKey]
    rfl
  have hnode := Graph.mergeNode_getNode hm
  have hold : ∀ key n, g.getNode fillLabel key = some n → g'.getNode fillLabel key = some n := by
    intro key n hn
    rw [hothers key, hn]
    rintro rfl
    rw [hfree] at hn
    cases hn
  -- an old Fill of the new one's key
  have hbeside : ∀ n ∈ g.listNodes fillLabel, brokerIdempotencyKey n = fill.idempotencyKey →
      mayCount n = true → mayCount node = true → False := by
    intro n hn hnkey hn' hnode'
    rw [honce hnode' n hn hnkey] at hn'
    cases hn'
  have hcase := (Graph.mergeNode_listNodes hm).2
  refine ⟨fun key n hn => ?_, fun n hn m hm' hnm hcn hcm => ?_⟩
  · by_cases heq : key = attempt.key
    · rw [heq, hnode, Option.some.injEq] at hn
      subst hn
      refine ⟨fill.idempotencyKey, attempt.ordinal, heq.trans hkey, hne, hnames, fun m hlt => ?_,
        ⟨fill.status.value, ?_⟩⟩
      · obtain ⟨l, hl⟩ := Option.isSome_iff_exists.mp (hbelow m hlt)
        rw [hold _ l hl]
        rfl
      · rw [hget, hprops, hnewStatus]
        rfl
    · rw [hothers key heq] at hn
      obtain ⟨brokerKey, ordinal, hattempt⟩ := h.attempts key n hn
      refine ⟨brokerKey, ordinal, hattempt.key_eq, hattempt.named, hattempt.names, fun m hlt => ?_,
        hattempt.status⟩
      obtain ⟨l, hl⟩ := Option.isSome_iff_exists.mp (hattempt.below m hlt)
      rw [hold _ l hl]
      rfl
  · rcases hcase n hn with rfl | hn
    · rcases hcase m hm' with rfl | hm'
      · rfl
      · rw [brokerIdempotencyKey_eq hne hnames] at hnm
        exact (hbeside m hm' hnm.symm hcm hcn).elim
    · rcases hcase m hm' with rfl | hm'
      · rw [brokerIdempotencyKey_eq hne hnames] at hnm
        exact (hbeside n hn hnm hcn hcm).elim
      · exact h.single n hn m hm' hnm hcn hcm

theorem CountedOnce.record (h : CountedOnce g) (hne : fill.idempotencyKey ≠ "")
    (honce : standsAlready g fill orderSet = true ∨
      (fill.status ≠ .filled ∧ fill.status ≠ .pending) ∨ ∀ n ∈ g.listNodes fillLabel,
        brokerIdempotencyKey n = fill.idempotencyKey → mayCount n = false)
    (hok : recordFill g fill orderSet = .ok g') : CountedOnce g' := by
  obtain ⟨⟨g₁, node⟩, hm, hret⟩ := bind_eq_ok.mp hok
  cases hret
  rw [liftGraph_eq_ok] at hm
  cases hcurrent : g.getNode fillLabel
      (selectFillAttempt g fill.idempotencyKey (fillProps fill orderSet)).key with
  | some current => exact h.merged hm hcurrent
  | none =>
    refine h.added hne hm hcurrent fun hcounts => ?_
    obtain ⟨-, hprops, -⟩ :=
      selectFillAttempt_spec g fill.idempotencyKey (fillProps fill orderSet) false
    have hget := Graph.mergeNode_get? hm
    have hstatus : node.props.get? "status" = some (.str fill.status.value) := by
      rw [hget, hprops, (orderAttempt_get? _ _ _ _).2]
      rfl
    have hunread : node.props.get? "broker_status" = none := by
      rw [hget, hprops, fillProps_brokerStatus, hcurrent]
      rfl
    rcases honce with hstands | hfinal | hclear
    · have hsome := h.selects_standing hstands
      rw [hcurrent] at hsome
      cases hsome
    · rcases (mayCount_unrefreshed hstatus hunread).mp hcounts with hfilled | hpending
      · exact (hfinal.1 hfilled).elim
      · exact (hfinal.2 hpending).elim
    · exact hclear

end Steps

/-! ### Runs -/

section Runs

variable {g g' : PipelineGraph}

/-- A fill with its order lineage has the nodes of the fill alone. -/
theorem writeFill_record {fill : BrokerFill} {orderSet : OrderIntentSet}
    (h : writeFill g fill orderSet = .ok g') :
    ∃ t, recordFill g fill orderSet = .ok t ∧ g'.nodes = t.nodes := by
  obtain ⟨⟨t, node⟩, hm, h⟩ := bind_eq_ok.mp h
  refine ⟨t, bind_eq_ok.mpr ⟨(t, node), hm, rfl⟩, ?_⟩
  simp only at h
  split at h
  · cases h; rfl
  split at h
  · cases h; rfl
  rw [liftGraph_eq_ok] at h
  exact (Graph.addEdge_ok h).1

theorem CountedOnce.of_nodes_eq (h : CountedOnce g) (hnodes : g'.nodes = g.nodes) :
    CountedOnce g' := by
  refine h.kept fun key => ?_
  rw [Graph.getNode_of_nodes_eq hnodes]
  cases g.getNode fillLabel key with
  | none => exact .none
  | some n => exact .some (.refl n)

theorem Answers.named {config : OrderToleranceConfig} {orderSet : OrderIntentSet}
    {intent : OrderIntent} {answer : BrokerReply} {order : BrokerOrder}
    (h : Answers config orderSet intent answer)
    (horder : orderFromIntent config orderSet.runId intent = .ok order) :
    (submitOrder order answer).idempotencyKey ≠ "" := by
  rw [h order horder]
  obtain ⟨side, -, hret⟩ := bind_eq_ok.mp horder
  cases hret
  exact orderKey_ne_empty _ _ _

theorem CountedOnce.submit (h : CountedOnce g) {config : OrderToleranceConfig}
    {orderSet : OrderIntentSet} {intent : OrderIntent} {order : BrokerOrder} {answer : BrokerReply}
    (horder : orderFromIntent config orderSet.runId intent = .ok order)
    (hanswers : Answers config orderSet intent answer)
    (honce : CountsOnce g config orderSet intent answer) :
    CountedOnce (submitIntent (fun _ _ => answer) orderSet { graph := g }
      (intent, order)).graph := by
  unfold submitIntent
  split
  · exact h
  simp only
  split
  · rename_i g' hwrite
    obtain ⟨t, ht, hnodes⟩ := writeFill_record hwrite
    refine CountedOnce.of_nodes_eq (h.record ?_ (honce order horder) ht) hnodes
    exact hanswers.named horder
  · exact h

theorem CountedOnce.step {event : ReplayEvent} (h : CountedOnce g) (hevent : OnceEvent g event)
    (hok : replayStep g event = .ok g') : CountedOnce g' := by
  match event, hevent, hok with
  | .submit config orderSet intent answer, hevent, hok =>
    obtain ⟨order, horder, hret⟩ := bind_eq_ok.mp hok
    cases hret
    exact h.submit horder hevent.1 hevent.2
  | .breakOff config orderSet intent answer, hevent, hok =>
    obtain ⟨order, horder, hrecord⟩ := bind_eq_ok.mp hok
    exact h.record (hevent.1.named horder) (hevent.2 order horder) hrecord
  | .refresh reports now, _, hok => exact h.refresh hok
  | .outside c, hevent, hok =>
    cases hok
    exact h.outside hevent

theorem CountedOnce.length_le_one (h : CountedOnce g) (brokerKey : String) :
    (countedFills g brokerKey).length ≤ 1 := by
  have hnodup : (countedFills g brokerKey).Nodup :=
    (List.Nodup.of_map Node.key (Graph.nodup_listNodes_keys g fillLabel)).filter _
  have hcounts : ∀ n ∈ countedFills g brokerKey, n ∈ g.listNodes fillLabel ∧
      brokerIdempotencyKey n = brokerKey ∧ mayCount n = true := by
    intro n hn
    rw [countedFills, List.mem_filter, Bool.and_eq_true, decide_eq_true_eq] at hn
    exact ⟨hn.1, hn.2.2, by rw [mayCount, hn.2.1, Bool.true_or]⟩
  have hall : ∀ n ∈ countedFills g brokerKey, ∀ m ∈ countedFills g brokerKey, n = m := by
    intro n hn m hm
    obtain ⟨hnlist, hnkey, hncounts⟩ := hcounts n hn
    obtain ⟨hmlist, hmkey, hmcounts⟩ := hcounts m hm
    exact h.single n hnlist m hmlist (hnkey.trans hmkey.symm) hncounts hmcounts
  exact Kernel.length_le_one hnodup hall

end Runs

/-! ### Passes as runs -/

/-- The events of a pass over the orders of a set. -/
def passEvents (reply : Nat → BrokerOrder → BrokerReply) (config : OrderToleranceConfig)
    (orderSet : OrderIntentSet) (st : SubmitState) :
    List (OrderIntent × BrokerOrder) → List ReplayEvent
  | [] => []
  | item :: items =>
    .submit config orderSet item.1 (reply st.submissions.length item.2) ::
      passEvents reply config orderSet (submitIntent reply orderSet st item) items

section Passes

variable {reply : Nat → BrokerOrder → BrokerReply} {config : OrderToleranceConfig}
  {orderSet : OrderIntentSet}

/-- A pass reads nothing of the intents before but the graph. -/
theorem submitIntent_graph (st : SubmitState) (item : OrderIntent × BrokerOrder) :
    (submitIntent reply orderSet st item).graph =
      (submitIntent (fun _ _ => reply st.submissions.length item.2) orderSet
        { graph := st.graph } item).graph := by
  unfold submitIntent
  cases completedExitFill st.graph item.1 item.2 with
  | some fill => rfl
  | none =>
    simp only
    cases writeFill st.graph (submitOrder item.2 (reply st.submissions.length item.2)) orderSet with
    | ok g => rfl
    | error e => rfl

theorem passEvents_run {items : List (OrderIntent × BrokerOrder)} (st : SubmitState)
    (hitems : ∀ item ∈ items, orderFromIntent config orderSet.runId item.1 = .ok item.2) :
    (passEvents reply config orderSet st items).foldlM replayStep st.graph =
      .ok (items.foldl (submitIntent reply orderSet) st).graph := by
  induction items generalizing st with
  | nil => rfl
  | cons item items ih =>
    have hstep : replayStep st.graph
        (.submit config orderSet item.1 (reply st.submissions.length item.2)) =
        .ok (submitIntent reply orderSet st item).graph := by
      rw [replayStep, hitems item List.mem_cons_self, ok_bind, submitIntent_graph st item]
      rfl
    rw [passEvents, List.foldlM_cons, hstep, ok_bind, List.foldl_cons]
    exact ih _ fun i hi => hitems i (List.mem_cons_of_mem _ hi)

/-- The graph after a submission in a paper-safe stage is that of a run of submit events. -/
theorem runSubmit_run {settings : ExecutionSettings} {g : PipelineGraph} {st : SubmitState}
    (hsafe : (currentStageFromGraph g settings.stage).paperSafe = true)
    (h : runSubmit reply settings g orderSet = .ok st) :
    ∃ items : List (OrderIntent × BrokerOrder),
      (∀ item ∈ items, item.1 ∈ orderSet.approved) ∧
      (passEvents reply settings.tolerance orderSet { graph := g } items).foldlM replayStep g =
        .ok st.graph := by
  obtain ⟨orders, horders, h⟩ := bind_eq_ok.mp h
  rw [if_pos hsafe] at h
  cases h
  obtain ⟨-, hzip⟩ := mapM_orderFromIntent horders
  exact ⟨_, fun item hitem => (hzip item hitem).1,
    passEvents_run { graph := g } fun item hitem => (hzip item hitem).2⟩

/-- An execution of a PMRun in a paper-safe stage submits by a run of submit events, from the graph
that it reads to submit. -/
theorem executePmNode_run {fromIso : String → Option Int} {settings : ExecutionSettings}
    {node : PipelineNode} {reads : GraphReads} {exec : PmExecution}
    (hsafe : (currentStageFromGraph reads.submit settings.stage).paperSafe = true)
    (h : executePmNode fromIso reply settings node reads = .ok exec) :
    ∃ (orderSet : OrderIntentSet) (items : List (OrderIntent × BrokerOrder)),
      (passEvents reply settings.tolerance orderSet { graph := reads.submit } items).foldlM
        replayStep reads.submit = .ok exec.submission.graph := by
  obtain ⟨s, -, h⟩ := bind_eq_ok.mp h
  obtain ⟨kept, -, h⟩ := bind_eq_ok.mp h
  obtain ⟨-, -, h⟩ := bind_eq_ok.mp h
  obtain ⟨st, hst, h⟩ := bind_eq_ok.mp h
  cases h
  obtain ⟨items, -, hrun⟩ := runSubmit_run hsafe hst
  exact ⟨_, items, hrun⟩

end Passes

/-! ### Runs that are checked -/

section Checked

variable {g : PipelineGraph}

instance (config : OrderToleranceConfig) (orderSet : OrderIntentSet) (intent : OrderIntent)
    (P : BrokerOrder → Prop) [DecidablePred P] :
    Decidable (∀ order, orderFromIntent config orderSet.runId intent = .ok order → P order) :=
  match horder : orderFromIntent config orderSet.runId intent with
  | .ok order => decidable_of_iff (P order)
      ⟨fun hP o ho => by cases ho; exact hP, fun hall => hall order rfl⟩
  | .error _ => isTrue fun o ho => by cases ho

instance (config : OrderToleranceConfig) (orderSet : OrderIntentSet) (intent : OrderIntent)
    (answer : BrokerReply) : Decidable (Answers config orderSet intent answer) :=
  inferInstanceAs (Decidable (∀ order,
    orderFromIntent config orderSet.runId intent = .ok order → _ = _))

instance (config : OrderToleranceConfig) (orderSet : OrderIntentSet) (intent : OrderIntent)
    (answer : BrokerReply) : Decidable (CountsOnce g config orderSet intent answer) :=
  inferInstanceAs (Decidable (∀ order, orderFromIntent config orderSet.runId intent = .ok order →
    _ = true ∨ (_ ≠ _ ∧ _ ≠ _) ∨ ∀ n ∈ g.listNodes fillLabel, _ = _ → mayCount n = false))

instance (c : Call Document) : Decidable (LeavesCounted g c) :=
  match c with
  | .mergeNode label key props _ => decidable_of_iff (label = fillLabel →
      (g.getNode fillLabel key).isSome = true ∧
        ∀ name ∈ ["broker_idempotency_key", "status", "broker_status"], props.get? name = none)
      (by rw [Option.isSome_iff_ne_none]; rfl)
  | .addEdge _ _ _ => inferInstanceAs (Decidable True)

instance (event : ReplayEvent) : Decidable (AnsweredEvent g event) :=
  match event with
  | .submit _ _ _ _ => inferInstanceAs (Decidable (Answers _ _ _ _))
  | .breakOff _ _ _ _ => inferInstanceAs (Decidable (Answers _ _ _ _))
  | .refresh _ _ => inferInstanceAs (Decidable True)
  | .outside _ => inferInstanceAs (Decidable (LeavesCounted _ _))

instance (event : ReplayEvent) : Decidable (OnceEvent g event) :=
  match event with
  | .submit _ _ _ _ => inferInstanceAs (Decidable (Answers _ _ _ _ ∧ CountsOnce _ _ _ _ _))
  | .breakOff _ _ _ _ => inferInstanceAs (Decidable (Answers _ _ _ _ ∧ CountsOnce _ _ _ _ _))
  | .refresh _ _ => inferInstanceAs (Decidable True)
  | .outside _ => inferInstanceAs (Decidable (LeavesCounted _ _))

end Checked

theorem one_le_ten : 1 ≤ 10 := by decide

def boughtSet : OrderIntentSet where
  runId := "pm-run-1"
  approved := [⟨"ACME", .buy, 10, ⟨100, "USD"⟩, none, none, one_le_ten⟩]
  rejected := []
  provenance := ⟨"pm-run-1", "portfolio_manager", some "PMRun:pm-run-1"⟩

def acmeBuy : OrderIntent := ⟨"ACME", .buy, 10, ⟨100, "USD"⟩, none, none, one_le_ten⟩

/-- The broker's account of the order of that intent. -/
def acmeBought (status : FillStatus) : BrokerFill :=
  { idempotencyKey := "pm-run-1:ACME:buy", ticker := "ACME", side := .buy, quantity := 10
    price := ⟨100, "USD"⟩, brokerOrderId := "o1", status := status }

/-- The order rests, the pass breaks off and is made again while the order still rests; then it
fills. -/
def restingReplay : List ReplayEvent := [
  .breakOff {} boughtSet acmeBuy (.filled (acmeBought .pending)),
  .submit {} boughtSet acmeBuy (.filled (acmeBought .pending)),
  .refresh [acmeBought .filled] "t1"]

/-- The order fills between the broken-off pass and its replay. -/
def filledReplay : List ReplayEvent := [
  .breakOff {} boughtSet acmeBuy (.filled (acmeBought .pending)),
  .refresh [acmeBought .filled] "t1",
  .submit {} boughtSet acmeBuy (.filled (acmeBought .filled))]

end TradingAgents.Execution
