import TradingAgents.Execution.StopLiveness

/-! The attempt chains over a run of recordings.  A Fill is recorded under the broker key of its
order or stop; the chain of a broker key is read back from the keys of the Fills.  A stop that
follows an earlier one has a numbered key of its own, which reads as an attempt of the first. -/

namespace TradingAgents.Execution

open Kernel ProofKit BrokerStops

/-! ### Numbered keys -/

theorem suffixOrdinal_isSome {base key : String} : (suffixOrdinal base key).isSome = true ↔
    ∃ digits, removePrefix key base = '#' :: digits ∧ digits ≠ [] ∧
      digits.all Char.isDigit = true := by
  unfold suffixOrdinal
  split
  · rename_i digits hkey
    rw [hkey]
    split
    · rename_i h
      exact ⟨fun _ => ⟨digits, rfl, h⟩, fun _ => rfl⟩
    · rename_i h
      constructor
      · intro hsome
        cases hsome
      · rintro ⟨other, heq, hother⟩
        cases heq
        exact (h hother).elim
  · rename_i hkey
    constructor
    · intro hsome
      cases hsome
    · rintro ⟨digits, heq, -⟩
      exact (hkey digits heq).elim

@[simp] theorem suffixOrdinal_self (key : String) : suffixOrdinal key key = none := by
  simp [suffixOrdinal, removePrefix]

theorem toList_attemptKey_succ (base : String) (n : Nat) :
    (attemptKey base (n + 1)).toList = base.toList ++ '#' :: (n + 1).repr.toList := by
  simp [attemptKey, attemptSeparator, String.toList_append]

theorem hash_notMem_repr (n : Nat) : '#' ∉ n.repr.toList := by
  intro h
  have hdigit := Text.isDigit_of_mem_repr h
  revert hdigit
  decide

/-- A numbered key reads as an attempt of its base. -/
theorem suffixOrdinal_attemptKey (base : String) (n : Nat) :
    (suffixOrdinal base (attemptKey base (n + 1))).isSome = true := by
  rw [suffixOrdinal_isSome]
  refine ⟨(n + 1).repr.toList, ?_, ?_, ?_⟩
  · simp [removePrefix, toList_attemptKey_succ]
  · simp
  · exact List.all_eq_true.mpr fun c hc => Text.isDigit_of_mem_repr hc

/-- A numbered key reads as an attempt of no other base. -/
theorem base_of_suffixOrdinal {base key : String} {n : Nat} (hbase : base ≠ "")
    (h : (suffixOrdinal key (attemptKey base (n + 1))).isSome = true) : key = base := by
  obtain ⟨digits, hrest, -, hdigits⟩ := suffixOrdinal_isSome.mp h
  have hhash : '#' ∉ digits := by
    intro hmem
    have hdigit := List.all_eq_true.mp hdigits _ hmem
    revert hdigit
    decide
  unfold removePrefix at hrest
  split at hrest
  · rename_i hprefix
    obtain ⟨rest, hkey⟩ := List.isPrefixOf_iff_prefix.mp hprefix
    rw [← hkey, List.drop_left] at hrest
    rw [hrest, toList_attemptKey_succ] at hkey
    obtain ⟨heq, -⟩ := Text.append_sep_right hhash (hash_notMem_repr (n + 1)) hkey
    exact String.toList_inj.mp heq
  · rw [toList_attemptKey_succ] at hrest
    have hnil : base.toList ++ '#' :: (n + 1).repr.toList = [] ++ '#' :: digits := hrest
    obtain ⟨hempty, -⟩ := Text.append_sep_right (hash_notMem_repr (n + 1)) hhash hnil
    exact (hbase (String.toList_inj.mp hempty)).elim

theorem attemptKey_succ_inj {base base' : String} {n n' : Nat}
    (h : attemptKey base (n + 1) = attemptKey base' (n' + 1)) : base = base' := by
  have hl := congrArg String.toList h
  rw [toList_attemptKey_succ, toList_attemptKey_succ] at hl
  exact String.toList_inj.mp
    (Text.append_sep_right (hash_notMem_repr (n + 1)) (hash_notMem_repr (n' + 1)) hl).1

/-! ### Recordings -/

/-- What identifies the attempt that a Fill records: its broker key and its ordinal. -/
def attemptOf (n : PipelineNode) : Value Document × Value Document :=
  (n.get "broker_idempotency_key", n.get "attempt_ordinal")

/-- A write that records a Fill, under the broker key of an order or of a stop, or one that records
none. -/
inductive Recording where
  | order (fill : BrokerFill) (orderSet : OrderIntentSet)
  | stop (plan : BrokerStopThresholdPlan) (key : String) (fill : BrokerFill)
  | elsewhere (g : PipelineGraph)

/-- The store, and the attempts recorded so far: the broker key and the ordinal of each. -/
structure RecordedFills where
  graph : PipelineGraph
  recorded : List (String × Nat)

/-- The recorded attempts, with one more if its Fill is new. -/
def RecordedFills.note (s : RecordedFills) (brokerKey : String) (ordinal : Nat) :
    List (String × Nat) :=
  match s.graph.getNode fillLabel (fillAttemptKey brokerKey ordinal) with
  | none => s.recorded ++ [(brokerKey, ordinal)]
  | some _ => s.recorded

def RecordedFills.step (s : RecordedFills) : Recording → Except HandlerError RecordedFills
  | .order fill orderSet => do
    let attempt := selectFillAttempt s.graph fill.idempotencyKey (fillProps fill orderSet)
    let g ← writeFill s.graph fill orderSet
    pure ⟨g, s.note fill.idempotencyKey attempt.ordinal⟩
  | .stop plan key fill => do
    let attempt := selectFillAttempt s.graph key (stopFillProps plan key fill)
      (forcesNewAttempt s.graph key fill)
    let (g, _) ← writeStopFill s.graph plan key fill
    pure ⟨g, s.note key attempt.ordinal⟩
  | .elsewhere g => pure ⟨g, s.recorded⟩

/-- A broker key holds at least the colons its builders put into it, and the writes elsewhere add no
Fill and leave the attempt of each as it is. -/
def Recordable (s : RecordedFills) : Recording → Prop
  | .order fill _ => fill.idempotencyKey ≠ ""
  | .stop _ key _ => key ≠ ""
  | .elsewhere g => ∀ key, (g.getNode fillLabel key).map attemptOf =
      (s.graph.getNode fillLabel key).map attemptOf

/-- A store without Fills. -/
def NoFills (s : RecordedFills) : Prop :=
  (∀ key, s.graph.getNode fillLabel key = none) ∧ s.recorded = []

theorem orderKey_ne_empty (runId : String) (intent : OrderIntent) (side : Side) :
    orderKey runId intent side ≠ "" := by
  unfold orderKey
  split <;> simp

theorem attemptKeyOf_ne_empty (positionRef ticker : String) (ordinal : Nat) :
    attemptKeyOf positionRef ticker ordinal ≠ "" := by
  unfold attemptKeyOf attemptKey brokerStopOrderKey
  split <;> simp

/-! ### One recording -/

/-- The attempt that a recording wrote: every earlier attempt of its broker key has a Fill, its own
Fill names the key and the ordinal, and no other Fill changed. -/
structure AttemptWritten (g g' : PipelineGraph) (brokerKey : String) (ordinal : Nat) : Prop where
  below : ∀ m < ordinal, (g.getNode fillLabel (fillAttemptKey brokerKey m)).isSome = true
  written : (g'.getNode fillLabel (fillAttemptKey brokerKey ordinal)).map attemptOf =
    some (.str brokerKey, .int ordinal)
  agrees : ∀ current, g.getNode fillLabel (fillAttemptKey brokerKey ordinal) = some current →
    ∀ key, current.props.get? "broker_idempotency_key" = some (.str key) → key = brokerKey
  others : ∀ key, key ≠ fillAttemptKey brokerKey ordinal →
    g'.getNode fillLabel key = g.getNode fillLabel key

theorem attemptFits_eq_false {g : PipelineGraph} {brokerKey : String} {props : Props Document}
    {forceNew : Bool} {n : Nat} (h : attemptFits g brokerKey props forceNew n = false) :
    (g.getNode fillLabel (fillAttemptKey brokerKey n)).isSome = true := by
  unfold attemptFits at h
  split at h
  · cases h
  · rename_i current hcurrent
    rw [hcurrent]
    rfl

theorem mergeAttempt_written {g g' : PipelineGraph} {brokerKey : String} {props : Props Document}
    {forceNew : Bool} {node : PipelineNode}
    (h : g.mergeNode fillLabel (selectFillAttempt g brokerKey props forceNew).key
      (selectFillAttempt g brokerKey props forceNew).props = .ok (g', node)) :
    AttemptWritten g g' brokerKey (selectFillAttempt g brokerKey props forceNew).ordinal := by
  obtain ⟨hkey, hprops, hfits, hmin⟩ := selectFillAttempt_spec g brokerKey props forceNew
  generalize selectFillAttempt g brokerKey props forceNew = attempt at h hkey hprops hfits hmin ⊢
  have hbroker : attempt.props.get? "broker_idempotency_key" = some (.str brokerKey) := by
    simp [hprops, withAttemptProps]
  have hordinal : attempt.props.get? "attempt_ordinal" = some (.int attempt.ordinal) := by
    simp [hprops, withAttemptProps]
  have hget := Graph.mergeNode_get? h
  obtain ⟨rfl, hlabel, hnode, -⟩ := Graph.mergeNode_ok h
  refine ⟨fun m hm => attemptFits_eq_false (hmin m hm), ?_, ?_, ?_⟩
  · rw [← hkey, Graph.getNode_put, if_pos ⟨hlabel.symm, hnode.symm⟩]
    simp [attemptOf, Node.get, Props.get, hget, hbroker, hordinal]
  · intro current hcurrent key hstands
    unfold attemptFits at hfits
    rw [hcurrent] at hfits
    simp only [Bool.and_eq_true] at hfits
    have hsame := propsCompatible_iff.mp hfits.2 _ _ _ hstands (hprops ▸ hbroker)
    rw [Value.pyEq_str] at hsame
    simpa using hsame
  · intro key hne
    rw [Graph.getNode_put, if_neg]
    rintro ⟨-, heq⟩
    exact hne (by rw [heq, hnode, hkey])

theorem writeFill_written {g g' : PipelineGraph} {fill : BrokerFill} {orderSet : OrderIntentSet}
    (h : writeFill g fill orderSet = .ok g') :
    AttemptWritten g g' fill.idempotencyKey
      (selectFillAttempt g fill.idempotencyKey (fillProps fill orderSet)).ordinal := by
  obtain ⟨⟨g₁, node⟩, hm, h⟩ := Fallible.bind_eq_ok.mp h
  rw [liftGraph_eq_ok] at hm
  have hwritten := mergeAttempt_written hm
  -- the order lineage adds an edge and no node
  have hnodes : g'.nodes = g₁.nodes := by
    simp only at h
    split at h
    · cases h; rfl
    split at h
    · cases h; rfl
    rw [liftGraph_eq_ok] at h
    exact (Graph.addEdge_ok h).1
  have hget := Graph.getNode_of_nodes_eq hnodes
  refine ⟨hwritten.below, by rw [hget]; exact hwritten.written, hwritten.agrees, fun key hne => ?_⟩
  rw [hget, hwritten.others key hne]

theorem writeStopFill_written {g g' : PipelineGraph} {plan : BrokerStopThresholdPlan}
    {key : String} {fill : BrokerFill} {node : PipelineNode}
    (h : writeStopFill g plan key fill = .ok (g', node)) :
    AttemptWritten g g' key (selectFillAttempt g key (stopFillProps plan key fill)
      (forcesNewAttempt g key fill)).ordinal := by
  unfold writeStopFill at h
  simp only [liftGraph_eq_ok] at h
  exact mergeAttempt_written h

/-! ### The recorded attempts -/

/-- The Fills of the store are the recorded attempts, each under its own key and with its own broker
key and ordinal; the attempts of a key were recorded in order, and none before the keys below it
were taken. -/
structure AttemptsRecorded (s : RecordedFills) : Prop where
  stands : ∀ p ∈ s.recorded, (s.graph.getNode fillLabel (fillAttemptKey p.1 p.2)).map attemptOf =
    some (.str p.1, .int p.2)
  known : ∀ key node, s.graph.getNode fillLabel key = some node →
    ∃ p ∈ s.recorded, fillAttemptKey p.1 p.2 = key
  below : ∀ p ∈ s.recorded, ∀ m < p.2,
    (s.graph.getNode fillLabel (fillAttemptKey p.1 m)).isSome = true
  rising : s.recorded.Pairwise fun p q => p.1 = q.1 → p.2 < q.2
  named : ∀ p ∈ s.recorded, p.1 ≠ ""

theorem attemptOf_brokerKey {n : PipelineNode} {brokerKey : String} {v : Value Document}
    (h : attemptOf n = (.str brokerKey, v)) :
    n.props.get? "broker_idempotency_key" = some (.str brokerKey) :=
  get_eq_str.mp (Prod.ext_iff.mp h).1

theorem attemptOrdinal_of_attempt {n : PipelineNode} {key : String} {m : Nat}
    (brokerKey : String) (h : attemptOf n = (.str key, .int m)) :
    attemptOrdinal n brokerKey = m := by
  have hget : n.get "attempt_ordinal" = .int m := (Prod.ext_iff.mp h).2
  rw [attemptOrdinal, hget]

/-- A recorded attempt under the key of the written one is that attempt. -/
theorem AttemptsRecorded.eq_written {s : RecordedFills} (h : AttemptsRecorded s)
    {g : PipelineGraph} {brokerKey : String} {ordinal : Nat}
    (hw : AttemptWritten s.graph g brokerKey ordinal) {p : String × Nat} (hp : p ∈ s.recorded)
    (heq : fillAttemptKey p.1 p.2 = fillAttemptKey brokerKey ordinal) :
      p = (brokerKey, ordinal) := by
  obtain ⟨current, hcurrent, hattempt⟩ := Option.map_eq_some_iff.mp (h.stands p hp)
  have hbroker : p.1 = brokerKey :=
    hw.agrees current (heq ▸ hcurrent) p.1 (attemptOf_brokerKey hattempt)
  obtain ⟨key, m⟩ := p
  subst hbroker
  exact congrArg (Prod.mk key) (attemptKey_injective key heq)

theorem AttemptsRecorded.written {s : RecordedFills} (h : AttemptsRecorded s) {g : PipelineGraph}
    {brokerKey : String} {ordinal : Nat} (hkey : brokerKey ≠ "")
    (hw : AttemptWritten s.graph g brokerKey ordinal) :
    AttemptsRecorded ⟨g, s.note brokerKey ordinal⟩ := by
  have hkept : ∀ key, (s.graph.getNode fillLabel key).isSome = true →
      (g.getNode fillLabel key).isSome = true := by
    intro key hsome
    by_cases heq : key = fillAttemptKey brokerKey ordinal
    · obtain ⟨node, hnode, -⟩ := Option.map_eq_some_iff.mp hw.written
      rw [heq, hnode]
      rfl
    · rw [hw.others key heq]
      exact hsome
  have hstands : ∀ p ∈ s.recorded, (g.getNode fillLabel (fillAttemptKey p.1 p.2)).map attemptOf =
      some (.str p.1, .int p.2) := by
    intro p hp
    by_cases heq : fillAttemptKey p.1 p.2 = fillAttemptKey brokerKey ordinal
    · rw [h.eq_written hw hp heq]
      exact hw.written
    · rw [hw.others _ heq]
      exact h.stands p hp
  have hknown : ∀ key node, key ≠ fillAttemptKey brokerKey ordinal →
      g.getNode fillLabel key = some node → ∃ p ∈ s.recorded, fillAttemptKey p.1 p.2 = key := by
    intro key node hne hnode
    rw [hw.others key hne] at hnode
    exact h.known key node hnode
  have hbelow : ∀ p ∈ s.recorded, ∀ m < p.2,
      (g.getNode fillLabel (fillAttemptKey p.1 m)).isSome = true :=
    fun p hp m hm => hkept _ (h.below p hp m hm)
  unfold RecordedFills.note
  cases hcurrent : s.graph.getNode fillLabel (fillAttemptKey brokerKey ordinal) with
  | some current =>
    refine ⟨hstands, fun key node hnode => ?_, hbelow, h.rising, h.named⟩
    by_cases heq : key = fillAttemptKey brokerKey ordinal
    · obtain ⟨p, hp, hpkey⟩ := h.known _ _ hcurrent
      exact ⟨p, hp, hpkey.trans heq.symm⟩
    · exact hknown key node heq hnode
  | none =>
    refine ⟨fun p hp => ?_, fun key node hnode => ?_, fun p hp m hm => ?_, ?_, fun p hp => ?_⟩
    · rcases List.mem_append.mp hp with hp | hp
      · exact hstands p hp
      · rw [List.mem_singleton.mp hp]
        exact hw.written
    · by_cases heq : key = fillAttemptKey brokerKey ordinal
      · exact ⟨(brokerKey, ordinal), by simp, heq.symm⟩
      · obtain ⟨p, hp, hpkey⟩ := hknown key node heq hnode
        exact ⟨p, by simp [hp], hpkey⟩
    · rcases List.mem_append.mp hp with hp | hp
      · exact hbelow p hp m hm
      · rw [List.mem_singleton.mp hp] at hm ⊢
        exact hkept _ (hw.below m hm)
    · rw [List.pairwise_append]
      refine ⟨h.rising, List.pairwise_singleton _ _, fun p hp q hq heq => ?_⟩
      rw [List.mem_singleton.mp hq] at heq ⊢
      -- the key of the new attempt was free
      rcases Nat.lt_trichotomy p.2 ordinal with hlt | hsame | hgt
      · exact hlt
      · have hnode := h.stands p hp
        rw [heq, hsame, hcurrent] at hnode
        cases hnode
      · have hnode := h.below p hp ordinal hgt
        rw [heq, hcurrent] at hnode
        cases hnode
    · rcases List.mem_append.mp hp with hp | hp
      · exact h.named p hp
      · rw [List.mem_singleton.mp hp]
        exact hkey

theorem AttemptsRecorded.step {s s' : RecordedFills} (h : AttemptsRecorded s) (r : Recording)
    (hr : Recordable s r) (hok : s.step r = .ok s') : AttemptsRecorded s' := by
  cases r with
  | order fill orderSet =>
    obtain ⟨g, hg, hret⟩ := Fallible.bind_eq_ok.mp hok
    cases hret
    exact h.written hr (writeFill_written hg)
  | stop plan key fill =>
    obtain ⟨⟨g, node⟩, hg, hret⟩ := Fallible.bind_eq_ok.mp hok
    cases hret
    exact h.written hr (writeStopFill_written hg)
  | elsewhere g =>
    cases hok
    have hsome : ∀ key, (g.getNode fillLabel key).isSome =
        (s.graph.getNode fillLabel key).isSome := by
      intro key
      rw [← Option.isSome_map (f := attemptOf), hr key, Option.isSome_map]
    refine ⟨fun p hp => ?_, fun key node hnode => ?_, fun p hp m hm => ?_, h.rising, h.named⟩
    · rw [hr]
      exact h.stands p hp
    · have hold := hsome key
      rw [hnode] at hold
      obtain ⟨current, hcurrent⟩ := Option.isSome_iff_exists.mp hold.symm
      exact h.known key current hcurrent
    · rw [hsome]
      exact h.below p hp m hm

theorem AttemptsRecorded.of_noFills {s : RecordedFills} (h : NoFills s) : AttemptsRecorded s := by
  obtain ⟨hnone, hempty⟩ := h
  refine ⟨?_, fun key node hnode => ?_, ?_, ?_, ?_⟩
  · simp [hempty]
  · rw [hnone] at hnode
    cases hnode
  all_goals simp [hempty]

/-! ### The chains -/

/-- The ordinals recorded under a broker key, in the order of the recordings. -/
def RecordedFills.ordinals (s : RecordedFills) (brokerKey : String) : List Nat :=
  (s.recorded.filter fun p => decide (p.1 = brokerKey)).map Prod.snd

/-- Every Fill belongs to the chain of the broker key it was recorded under, and to no other chain
of a recorded key; and the chain of a key is its attempts from the first on, without a gap and in
the order in which they were recorded, so that the latest attempt is the last one recorded. -/
structure ChainsPartition (s : RecordedFills) : Prop where
  owned : ∀ n ∈ s.graph.listNodes fillLabel, ∃ p ∈ s.recorded, fillAttemptKey p.1 p.2 = n.key ∧
    ∀ q ∈ s.recorded, n ∈ fillAttemptChain s.graph q.1 ↔ q.1 = p.1
  contiguous : ∀ p ∈ s.recorded, s.ordinals p.1 = List.range (s.ordinals p.1).length ∧
    (fillAttemptChain s.graph p.1).map Node.key = (s.ordinals p.1).map (fillAttemptKey p.1)
  current : ∀ p ∈ s.recorded, (latestFillAttempt s.graph p.1).map Node.key =
    (s.ordinals p.1).getLast?.map (fillAttemptKey p.1)

/-- No recorded broker key reads as a numbered attempt of another. -/
def KeysApart (s : RecordedFills) : Prop :=
  ∀ p ∈ s.recorded, ∀ q ∈ s.recorded, suffixOrdinal p.1 q.1 = none

instance (s : RecordedFills) : Decidable (KeysApart s) :=
  inferInstanceAs (Decidable (∀ p ∈ s.recorded, ∀ q ∈ s.recorded, suffixOrdinal p.1 q.1 = none))

section Chains

variable {s : RecordedFills}

theorem mem_ordinals {brokerKey : String} {n : Nat} :
    n ∈ s.ordinals brokerKey ↔ (brokerKey, n) ∈ s.recorded := by
  simp [RecordedFills.ordinals]

/-- Attempts of recorded keys that have one Fill key are one attempt. -/
theorem KeysApart.eq_of_key (h : KeysApart s) {p q : String × Nat} (hp : p ∈ s.recorded)
    (hq : ∃ n, (q.1, n) ∈ s.recorded) (heq : fillAttemptKey p.1 p.2 = fillAttemptKey q.1 q.2) :
    p = q := by
  obtain ⟨n, hq⟩ := hq
  obtain ⟨base, i⟩ := p
  obtain ⟨base', j⟩ := q
  have hbase : base = base' := by
    cases i with
    | zero =>
      cases j with
      | zero => exact heq
      | succ j =>
        have hnumbered := suffixOrdinal_attemptKey base' j
        have hkey : attemptKey base' (j + 1) = base := heq.symm
        rw [hkey, h _ hq _ hp] at hnumbered
        cases hnumbered
    | succ i =>
      cases j with
      | zero =>
        have hnumbered := suffixOrdinal_attemptKey base i
        have hkey : attemptKey base (i + 1) = base' := heq
        rw [hkey, h _ hp _ hq] at hnumbered
        cases hnumbered
      | succ j => exact attemptKey_succ_inj heq
  subst hbase
  exact congrArg (Prod.mk base) (attemptKey_injective base heq)

/-- A Fill belongs to the chain of a recorded key exactly when it was recorded under it. -/
theorem KeysApart.belongs_iff (h : KeysApart s) (hs : AttemptsRecorded s) {n : PipelineNode}
    {p q : String × Nat} (hp : p ∈ s.recorded) (hq : q ∈ s.recorded)
    (hkey : fillAttemptKey p.1 p.2 = n.key) (hattempt : attemptOf n = (.str p.1, .int p.2)) :
    belongsToChain q.1 n = true ↔ q.1 = p.1 := by
  have hbroker : n.get "broker_idempotency_key" = .str p.1 := (Prod.ext_iff.mp hattempt).1
  simp only [belongsToChain, hbroker, Value.pyEq_str, Bool.or_eq_true, decide_eq_true_eq,
    Value.str.injEq, ← hkey]
  constructor
  · rintro ((heq | heq) | hsuffix)
    · exact heq.symm
    · exact (Prod.ext_iff.mp (h.eq_of_key (q := (q.1, 0)) hp ⟨q.2, hq⟩ heq)).1.symm
    · cases hn : p.2 with
      | zero =>
        rw [hn, fillAttemptKey, attemptKey_zero, h _ hq _ hp] at hsuffix
        cases hsuffix
      | succ m =>
        rw [hn] at hsuffix
        exact base_of_suffixOrdinal (hs.named p hp) hsuffix
  · intro heq
    exact .inl (.inl heq.symm)

/-- The attempts recorded under a key are the first ones. -/
theorem KeysApart.ordinals_eq_range (h : KeysApart s) (hs : AttemptsRecorded s)
    (brokerKey : String) :
    s.ordinals brokerKey = List.range (s.ordinals brokerKey).length := by
  apply eq_range_of_rising
  · rw [RecordedFills.ordinals, List.pairwise_map]
    refine (hs.rising.filter _).imp_of_mem fun {p q} hp hq hlt => ?_
    have hp := of_decide_eq_true (List.mem_filter.mp hp).2
    have hq := of_decide_eq_true (List.mem_filter.mp hq).2
    exact hlt (hp.trans hq.symm)
  · intro n hn m hm
    rw [mem_ordinals] at hn ⊢
    obtain ⟨node, hnode⟩ := Option.isSome_iff_exists.mp (hs.below _ hn m hm)
    obtain ⟨p, hp, hkey⟩ := hs.known _ _ hnode
    rw [← h.eq_of_key (q := (brokerKey, m)) hp ⟨n, hn⟩ hkey]
    exact hp

/-- Every Fill is a recorded attempt. -/
theorem AttemptsRecorded.attempt (hs : AttemptsRecorded s) {n : PipelineNode}
    (hn : n ∈ s.graph.listNodes fillLabel) : ∃ p ∈ s.recorded, fillAttemptKey p.1 p.2 = n.key ∧
      attemptOf n = (.str p.1, .int p.2) := by
  have hget := (Graph.mem_listNodes.mp hn).2
  obtain ⟨p, hp, hkey⟩ := hs.known _ _ hget
  have hstands := hs.stands p hp
  rw [hkey, hget, Option.map_some, Option.some.injEq] at hstands
  exact ⟨p, hp, hkey, hstands⟩

theorem KeysApart.mem_chain (h : KeysApart s) (hs : AttemptsRecorded s) {brokerKey : String}
    {m : Nat} (hm : (brokerKey, m) ∈ s.recorded) {n : PipelineNode} :
    n ∈ fillAttemptChain s.graph brokerKey ↔ n ∈ s.graph.listNodes fillLabel ∧
      ∃ k, (brokerKey, k) ∈ s.recorded ∧ n.key = fillAttemptKey brokerKey k ∧
        attemptOrdinal n brokerKey = k := by
  rw [fillAttemptChain, List.mem_insertionSort, List.mem_filter]
  refine and_congr_right fun hn => ?_
  obtain ⟨p, hp, hkey, hattempt⟩ := hs.attempt hn
  have hordinal := attemptOrdinal_of_attempt brokerKey hattempt
  rw [h.belongs_iff hs hp hm hkey hattempt]
  constructor
  · intro heq
    obtain ⟨base, k⟩ := p
    cases heq
    exact ⟨k, hp, hkey.symm, hordinal⟩
  · rintro ⟨k, hk, hkey', -⟩
    have heq := h.eq_of_key (q := (brokerKey, k)) hp ⟨k, hk⟩ (hkey.trans hkey')
    rw [heq]

/-- The chain is its attempts in the order in which they were recorded. -/
theorem KeysApart.chain_keys (h : KeysApart s) (hs : AttemptsRecorded s) {brokerKey : String}
    {m : Nat} (hm : (brokerKey, m) ∈ s.recorded) :
    (fillAttemptChain s.graph brokerKey).map Node.key =
      (s.ordinals brokerKey).map (fillAttemptKey brokerKey) := by
  have hmem := fun n => h.mem_chain hs hm (n := n)
  have hsorted : (fillAttemptChain s.graph brokerKey).Pairwise fun a b =>
      attemptOrdinal a brokerKey ≤ attemptOrdinal b brokerKey :=
    List.pairwise_insertionSort _ _
  have hnodup : (fillAttemptChain s.graph brokerKey).Nodup := by
    refine (List.perm_insertionSort _ _).nodup_iff.mpr (List.Nodup.filter _ ?_)
    exact List.Nodup.of_map _ (Graph.nodup_listNodes_keys s.graph fillLabel)
  have hdistinct : (fillAttemptChain s.graph brokerKey).Pairwise fun a b =>
      attemptOrdinal a brokerKey ≠ attemptOrdinal b brokerKey := by
    refine List.Pairwise.imp_of_mem (fun {a b} ha hb hne heq => hne ?_) hnodup
    obtain ⟨hla, i, -, hkeya, hi⟩ := (hmem a).mp ha
    obtain ⟨hlb, j, -, hkeyb, hj⟩ := (hmem b).mp hb
    have hij : i = j := by
      have := hi.symm.trans (heq.trans hj)
      omega
    have hga := (Graph.mem_listNodes.mp hla).2
    have hgb := (Graph.mem_listNodes.mp hlb).2
    rw [hkeya, hij, ← hkeyb, hgb] at hga
    exact (Option.some.inj hga).symm
  have hrising : ((fillAttemptChain s.graph brokerKey).map
      fun n => attemptOrdinal n brokerKey).Pairwise (· < ·) := by
    rw [List.pairwise_map]
    exact (hsorted.and hdistinct).imp fun h => lt_of_le_of_ne h.1 h.2
  have hrange : ((s.ordinals brokerKey).map Int.ofNat).Pairwise (· < ·) := by
    rw [List.pairwise_map, h.ordinals_eq_range hs]
    exact List.pairwise_lt_range.imp fun h => Int.ofNat_lt.mpr h
  have hordinals : (fillAttemptChain s.graph brokerKey).map (fun n => attemptOrdinal n brokerKey) =
      (s.ordinals brokerKey).map Int.ofNat := by
    refine hrising.eq_of_mem_iff hrange fun k => ?_
    rw [List.mem_map, List.mem_map]
    constructor
    · rintro ⟨n, hn, rfl⟩
      obtain ⟨-, i, hi, -, hordinal⟩ := (hmem n).mp hn
      exact ⟨i, mem_ordinals.mpr hi, hordinal.symm⟩
    · rintro ⟨i, hi, rfl⟩
      rw [mem_ordinals] at hi
      obtain ⟨n, hn, hattempt⟩ := Option.map_eq_some_iff.mp (hs.stands _ hi)
      obtain ⟨hlabel, hkey⟩ := Graph.getNode_nodeKey hn
      have hordinal := attemptOrdinal_of_attempt brokerKey hattempt
      exact ⟨n, (hmem n).mpr ⟨Graph.mem_listNodes.mpr ⟨hlabel, hkey ▸ hn⟩, i, hi, hkey, hordinal⟩,
        hordinal⟩
  have hkeys : (fillAttemptChain s.graph brokerKey).map Node.key =
      ((fillAttemptChain s.graph brokerKey).map fun n => attemptOrdinal n brokerKey).map
        fun k => fillAttemptKey brokerKey k.toNat := by
    rw [List.map_map]
    refine List.map_congr_left fun n hn => ?_
    obtain ⟨-, i, -, hkey, hordinal⟩ := (hmem n).mp hn
    rw [hkey, Function.comp_apply, hordinal, Int.toNat_natCast]
  rw [hkeys, hordinals, List.map_map]
  rfl

/-- The Fill under a recorded key itself belongs to its chain, and to the chain of every key that it
reads as an attempt of. -/
theorem AttemptsRecorded.chain_base (hs : AttemptsRecorded s) {q : String × Nat}
    (hq : q ∈ s.recorded) : ∃ n ∈ s.graph.listNodes fillLabel,
      n ∈ fillAttemptChain s.graph q.1 ∧
        ∀ base, (suffixOrdinal base q.1).isSome = true → n ∈ fillAttemptChain s.graph base := by
  have hsome : (s.graph.getNode fillLabel q.1).isSome = true := by
    rcases Nat.eq_zero_or_pos q.2 with hzero | hpos
    · have hstands := hs.stands q hq
      rw [hzero] at hstands
      obtain ⟨n, hn, -⟩ := Option.map_eq_some_iff.mp hstands
      rw [show q.1 = fillAttemptKey q.1 0 from rfl, hn]
      rfl
    · exact hs.below q hq 0 hpos
  obtain ⟨n, hn⟩ := Option.isSome_iff_exists.mp hsome
  obtain ⟨hlabel, hkey⟩ := Graph.getNode_nodeKey hn
  have hlist := Graph.mem_listNodes.mpr ⟨hlabel, hkey ▸ hn⟩
  refine ⟨n, hlist, ?_, fun base hbase => ?_⟩
  · rw [fillAttemptChain, List.mem_insertionSort, List.mem_filter]
    exact ⟨hlist, by simp [belongsToChain, hkey]⟩
  · rw [fillAttemptChain, List.mem_insertionSort, List.mem_filter]
    exact ⟨hlist, by simp [belongsToChain, hkey, hbase]⟩

end Chains

theorem attemptsRecorded_of_reach {s : RecordedFills}
    (h : Reach RecordedFills.step Recordable NoFills s) : AttemptsRecorded s :=
  h.invariant (fun _ => .of_noFills) fun _ r _ hs hr hok => hs.step r hr hok

theorem ChainsPartition.keysApart {s : RecordedFills} (hs : AttemptsRecorded s)
    (hpart : ChainsPartition s) : KeysApart s := by
  intro p hp q hq
  by_contra hne
  obtain ⟨n, hlist, hown, hread⟩ := hs.chain_base hq
  obtain ⟨owner, -, -, hunique⟩ := hpart.owned n hlist
  have hpowner := (hunique p hp).mp (hread p.1 (Option.isSome_iff_ne_none.mpr hne))
  have hqowner := (hunique q hq).mp hown
  rw [hpowner, hqowner] at hne
  exact hne (suffixOrdinal_self owner.1)

theorem KeysApart.partition {s : RecordedFills} (hs : AttemptsRecorded s) (hapart : KeysApart s) :
    ChainsPartition s := by
  refine ⟨fun n hn => ?_, fun p hp => ?_, fun p hp => ?_⟩
  · obtain ⟨p, hp, hkey, hattempt⟩ := hs.attempt hn
    refine ⟨p, hp, hkey, fun q hq => ?_⟩
    rw [fillAttemptChain, List.mem_insertionSort, List.mem_filter, and_iff_right hn]
    exact hapart.belongs_iff hs hp hq hkey hattempt
  · exact ⟨hapart.ordinals_eq_range hs p.1, hapart.chain_keys hs (m := p.2) hp⟩
  · rw [latestFillAttempt, ← List.getLast?_map, hapart.chain_keys hs (m := p.2) hp,
      List.getLast?_map]

/-- After any run of recordings the chains partition the Fills exactly where no recorded broker key
reads as a numbered attempt of another. -/
theorem chains_partition_iff {s : RecordedFills}
    (h : Reach RecordedFills.step Recordable NoFills s) : ChainsPartition s ↔ KeysApart s := by
  have hs := attemptsRecorded_of_reach h
  exact ⟨fun hpart => hpart.keysApart hs, fun hapart => hapart.partition hs⟩

/-- A store without Fills, and none recorded. -/
def unrecorded : RecordedFills := ⟨Graph.empty, []⟩

theorem noFills_unrecorded : NoFills unrecorded := ⟨fun _ => rfl, rfl⟩

def acmeOrders : OrderIntentSet := ⟨"run-1", [], [], ⟨"run-1", "portfolio_manager", none⟩⟩

/-- An order recorded as pending and again as filled, and the stop of its position. -/
def orderAndStop : List Recording := [
  .order (acmeReply "run-1:ACME:buy" "order-1" .pending) acmeOrders,
  .order (acmeReply "run-1:ACME:buy" "order-1" .filled) acmeOrders,
  .stop acmePlan (attemptKeyOf "p1" "ACME" 0) (acmeReply "stop:p1:ACME" "order-2" .pending)]

theorem order_and_stop_partition : ∃ s, orderAndStop.foldlM RecordedFills.step unrecorded = .ok s ∧
    s.ordinals "run-1:ACME:buy" = [0, 1] ∧ ChainsPartition s := by
  have hrun : Fallible.check
      (fun s : RecordedFills => decide (s.ordinals "run-1:ACME:buy" = [0, 1] ∧ KeysApart s))
      (orderAndStop.foldlM RecordedFills.step unrecorded) = true := by decide +kernel
  obtain ⟨s, hs, hcheck⟩ := Fallible.check_eq_true.mp hrun
  obtain ⟨hordinals, hapart⟩ := of_decide_eq_true hcheck
  have hreach : Reach RecordedFills.step Recordable NoFills s := by
    refine Reach.of_allowed (.start noFills_unrecorded) ?_ hs
    simp [orderAndStop, Recordable, acmeReply, attemptKeyOf_ne_empty]
  exact ⟨s, hs, hordinals, (chains_partition_iff hreach).mpr hapart⟩

/-- A second stop of a position, placed after the first one ended. -/
def secondStop : List Recording := [
  .stop acmePlan (attemptKeyOf "p1" "ACME" 0) (acmeReply "stop:p1:ACME" "order-1" .pending),
  .stop acmePlan (attemptKeyOf "p1" "ACME" 1) (acmeReply "stop:p1:ACME#1" "order-2" .pending)]

/-- The Fill of the second stop stands in the chain of the first one too. -/
theorem second_stop_in_two_chains : ∃ s, secondStop.foldlM RecordedFills.step unrecorded = .ok s ∧
    Reach RecordedFills.step Recordable NoFills s ∧ ¬ ChainsPartition s := by
  have hrun : Fallible.check (fun s : RecordedFills => decide (¬ KeysApart s))
      (secondStop.foldlM RecordedFills.step unrecorded) = true := by decide +kernel
  obtain ⟨s, hs, hcheck⟩ := Fallible.check_eq_true.mp hrun
  have hreach : Reach RecordedFills.step Recordable NoFills s := by
    refine Reach.of_allowed (.start noFills_unrecorded) ?_ hs
    simp [secondStop, Recordable, attemptKeyOf_ne_empty]
  refine ⟨s, hs, hreach, fun hpart => of_decide_eq_true hcheck ?_⟩
  exact hpart.keysApart (attemptsRecorded_of_reach hreach)

end TradingAgents.Execution
