import Mathlib
import TradingAgents.Execution.RealignWrites

/-! A whole realignment under any refusals and exceptions of the broker: which positions are still
protected after it, which facts it marks, and what it asks the broker for. -/

namespace TradingAgents.Execution

open Kernel ProofKit BrokerLifecycle BrokerStops

section

variable (broker : StopBroker) (now : Timestamp) (statuses : Dict String (Option String))
  (values : Dict String Int)

/-- The key a replacement of the target would have. -/
def replacementKey (g : PipelineGraph) (target : Target) : String :=
  freeBrokerStopOrderKey g target.1.threshold.positionRef target.1.threshold.ticker

/-- The order that the broker returns for a replacement of the target, when one is attempted and
goes through. -/
def replacement (g : PipelineGraph) (target : Target) : Option BrokerFill :=
  if (statuses.get? target.2.brokerOrderId).join = some replaceableOrderStatus ∧
      target.1.stopCents * target.1.threshold.quantity <
        (values.get? target.1.threshold.ticker).getD 0 then
    (broker.replaceStop target.2.brokerOrderId target.1.stopCents
      (replacementKey g target)).toOption
  else none

/-- A stop that is replaced is replaced under a key whose Fill, if there is one, has not ended, or
beside another live stop of its position. -/
def Sheltered (g : PipelineGraph) (target : Target) : Prop :=
  (replacement broker statuses values g target).isSome →
    ClearKey g (replacementKey g target) ∨ ∃ order ∈ activeBrokerStopOrders g,
      order.positionRef = target.1.threshold.positionRef ∧ order.key ≠ target.2.key

/-- Each stop of a pass is sheltered in the state in which the pass comes to it. -/
def AllSheltered : List Target → RealignState → Prop
  | [], _ => True
  | target :: rest, s => Sheltered broker statuses values s.graph target ∧
    match (realignStop broker now statuses values target).run s with
    | .ok _ t => AllSheltered rest t
    | .error _ _ => True

/-- The call that asks for a replacement of the target. -/
def replaceCall (g : PipelineGraph) (target : Target) : ReplaceCall where
  plan := target.1
  stop := target.2
  key := replacementKey g target
  answer := broker.replaceStop target.2.brokerOrderId target.1.stopCents (replacementKey g target)

/-- A replacement asked for as the pass may ask for one: the broker has the stop's order as new, the
decided price is below the market value of the position, and the answer is the broker's. -/
structure Permitted (call : ReplaceCall) : Prop where
  status : statuses.get? call.stop.brokerOrderId = some (some replaceableOrderStatus)
  price : call.plan.stopCents * call.plan.threshold.quantity <
    (values.get? call.plan.threshold.ticker).getD 0
  answer : call.answer = broker.replaceStop call.stop.brokerOrderId call.plan.stopCents call.key

/-- What the pass does with one target: the other positions are as protected as they were, its own
is exactly when it was sheltered, and a mark is that of a replacement the broker made. -/
structure Stepped (s t : RealignState) (target : Target) : Prop where
  facts : StopFacts t.graph
  others : ∀ k r, r ≠ target.1.threshold.positionRef →
    (LiveKey t.graph k r ↔ LiveKey s.graph k r)
  own : Guards t.graph target.1.threshold.positionRef ↔
    Sheltered broker statuses values s.graph target
  calls : ∃ new, t.calls = s.calls ++ new ∧
    ∀ call ∈ new, Permitted broker statuses values call ∧ call.plan = target.1
  marks : ∀ k, isReplaced t.graph k = true → isReplaced s.graph k = true ∨
    ∃ call ∈ t.calls, call.stop.key = k ∧ ∃ fill, call.answer = .ok fill

/-- What a pass over the targets leaves: the positions without a target are as protected as they
were, a position with one exactly when every stop of the pass was sheltered or its own was. -/
structure Realigned (s t : RealignState) (targets : List Target) : Prop where
  facts : StopFacts t.graph
  others : ∀ k r, r ∉ targets.map (fun target => target.1.threshold.positionRef) →
    (LiveKey t.graph k r ↔ LiveKey s.graph k r)
  own : (∀ target ∈ targets, Guards t.graph target.1.threshold.positionRef) ↔
    AllSheltered broker now statuses values targets s
  calls : ∃ new, t.calls = s.calls ++ new ∧
    ∀ call ∈ new, Permitted broker statuses values call ∧ call.plan ∈ targets.map Prod.fst
  marks : ∀ k, isReplaced t.graph k = true → isReplaced s.graph k = true ∨
    ∃ call ∈ t.calls, call.stop.key = k ∧ ∃ fill, call.answer = .ok fill

end

section

variable {broker : StopBroker} {statuses : Dict String (Option String)}
  {values : Dict String Int} {s : RealignState} {target : Target}

theorem Realign.write_ends {f : PipelineGraph → Except HandlerError PipelineGraph}
    {g : PipelineGraph} {Q : Unit → RealignState → Prop} {E : RealignState → Prop}
    (hf : f s.graph = .ok g) (h : Q ⟨⟩ { s with graph := g }) : Ends (Realign.write f) s Q E := by
  refine Ends.bind (Ends.get (Q := fun a t => s = a ∧ s = t) ⟨rfl, rfl⟩) ?_
  rintro _ _ ⟨rfl, rfl⟩
  simp only [hf]
  exact Ends.set h

/-- The writes that follow an accepted replacement. -/
theorem recordReplacement_ends (now : Timestamp) (h : StopFacts s.graph)
    (hlive : LiveKey s.graph target.2.key target.1.threshold.positionRef) {key : String}
    (hfree : s.graph.getNode brokerStopOrderLabel key = none) (fill : BrokerFill) :
    Ends (recordReplacement now target key fill) s
      (fun _ t => ReplacedStop s.graph t.graph target.1.threshold.positionRef target.2.key key ∧
        t.calls = s.calls) (fun _ => False) := by
  obtain ⟨g₁, node, g₂, g₃, hfill, horder, hmark, hdone⟩ :=
    h.replaced target.1 fill now hlive hfree
  refine Ends.bind (Ends.get (Q := fun a t => s = a ∧ s = t) ⟨rfl, rfl⟩) ?_
  rintro _ _ ⟨rfl, rfl⟩
  simp only [hfill]
  refine Ends.bind (Ends.set (Q := fun _ t => t = _) rfl) ?_
  rintro _ _ rfl
  refine Ends.bind (Realign.write_ends (Q := fun _ t => t = _) horder rfl) ?_
  rintro _ _ rfl
  exact Realign.write_ends hmark ⟨hdone, rfl⟩

/-- A target whose stop is left where it rests. -/
theorem Stepped.kept {t : RealignState} (h : StopFacts s.graph)
    (hlive : LiveKey s.graph target.2.key target.1.threshold.positionRef)
    (hgraph : t.graph = s.graph) (hnone : replacement broker statuses values s.graph target = none)
    (hcalls : ∃ new, t.calls = s.calls ++ new ∧
      ∀ call ∈ new, Permitted broker statuses values call ∧ call.plan = target.1) :
    Stepped broker statuses values s t target := by
  refine ⟨by rw [hgraph]; exact h, fun k r _ => by rw [hgraph], ?_, hcalls, fun k hk => ?_⟩
  · rw [hgraph, Sheltered, hnone]
    exact iff_of_true ⟨_, hlive⟩ (by simp)
  · rw [hgraph] at hk
    exact .inl hk

/-- The one position a stop fact protects. -/
theorem LiveKey.positionRef {g : PipelineGraph} {key ref ref' : String} (h : LiveKey g key ref)
    (h' : LiveKey g key ref') : ref' = ref := by
  obtain ⟨stop, -, hs, href, -⟩ := h
  obtain ⟨stop', -, hs', href', -⟩ := h'
  cases hs.symm.trans hs'
  rw [href] at href'
  cases href'
  rfl

/-- A target whose stop is replaced. -/
theorem Stepped.moved {t : RealignState} {fill : BrokerFill} (h : StopFacts s.graph)
    (hlive : LiveKey s.graph target.2.key target.1.threshold.positionRef)
    (hsome : replacement broker statuses values s.graph target = some fill)
    (hdone : ReplacedStop s.graph t.graph target.1.threshold.positionRef target.2.key
      (replacementKey s.graph target)) {call : ReplaceCall} (hcalls : t.calls = s.calls ++ [call])
    (hcall : Permitted broker statuses values call ∧ call.plan = target.1)
    (hstop : call.stop = target.2)
    (hanswer : call.answer = .ok fill) : Stepped broker statuses values s t target := by
  refine ⟨hdone.facts, fun k r hne => ?_, ?_, ⟨[call], hcalls, by simpa using hcall⟩,
    fun k hk => ?_⟩
  · rw [hdone.live]
    simp only [hne, false_and, and_false, false_or, and_iff_right_iff_imp]
    rintro hr rfl
    exact hne (hlive.positionRef hr)
  · rw [Sheltered, hsome, Option.isSome_some]
    simp only [Guards, hdone.live, forall_const, true_and]
    constructor
    · rintro ⟨k, ⟨-, hclear⟩ | ⟨hne, hk⟩⟩
      · exact .inl hclear
      · obtain ⟨order, hactive, rfl, href⟩ := h.exists_active hk
        exact .inr ⟨order, hactive, href, hne⟩
    · rintro (hclear | ⟨order, hactive, href, hne⟩)
      · exact ⟨_, .inl ⟨rfl, hclear⟩⟩
      · exact ⟨order.key, .inr ⟨hne, href ▸ h.liveKey hactive⟩⟩
  · refine (hdone.marked k hk).imp_right fun hkey => ⟨call, by simp [hcalls], ?_, fill, hanswer⟩
    rw [hstop, hkey]

variable (broker statuses values)

/-- One target of the pass, under any answer of the broker. -/
theorem realignStop_ends (now : Timestamp) (h : StopFacts s.graph)
    (hlive : LiveKey s.graph target.2.key target.1.threshold.positionRef) :
    Ends (realignStop broker now statuses values target) s
      (fun _ t => Stepped broker statuses values s t target) (fun _ => False) := by
  unfold realignStop
  simp only
  split
  · rename_i hstatus
    exact Ends.modify (.kept h hlive rfl (if_neg fun hc => hstatus hc.1) ⟨[], by simp, by simp⟩)
  rename_i hstatus
  split
  · rename_i hprice
    exact Ends.modify (.kept h hlive rfl (if_neg fun hc => by omega) ⟨[], by simp, by simp⟩)
  rename_i hprice
  rw [not_not, Option.join_eq_some_iff] at hstatus
  refine Ends.bind (Ends.get (Q := fun a t => s = a ∧ s = t) ⟨rfl, rfl⟩) ?_
  rintro _ _ ⟨rfl, rfl⟩
  refine Ends.bind (Ends.modify (Q := fun _ t => t = _) rfl) ?_
  rintro _ _ rfl
  have hcall : Permitted broker statuses values (replaceCall broker s.graph target) ∧
      (replaceCall broker s.graph target).plan = target.1 :=
    ⟨⟨hstatus, not_le.mp hprice, rfl⟩, rfl⟩
  have hreplacement : replacement broker statuses values s.graph target =
      (replaceCall broker s.graph target).answer.toOption :=
    if_pos ⟨by rw [hstatus]; rfl, not_le.mp hprice⟩
  split
  · rename_i text hanswer
    refine Ends.modify (.kept h hlive rfl ?_ ⟨_, rfl, fun call hmem => ?_⟩)
    · rw [hreplacement]
      exact congrArg Except.toOption hanswer
    · rw [List.mem_singleton.mp hmem]
      exact hcall
  · rename_i fill hanswer
    have hfree : s.graph.getNode brokerStopOrderLabel (replacementKey s.graph target) = none :=
      freeBrokerStopOrderKey_free _ _ _
    have hrecord := recordReplacement_ends now
      (s := { s with calls := s.calls ++ [replaceCall broker s.graph target] }) h hlive hfree fill
    refine Ends.mono hrecord ?_ fun _ hf => hf
    rintro _ t ⟨hdone, hcalls⟩
    refine .moved h hlive ?_ hdone hcalls hcall rfl hanswer
    rw [hreplacement]
    exact congrArg Except.toOption hanswer

/-! ### The pass -/

theorem realignStop_forM (now : Timestamp) {targets : List Target} (h : StopFacts s.graph)
    (hlive : ∀ target ∈ targets,
      LiveKey s.graph target.2.key target.1.threshold.positionRef)
    (hdistinct : (targets.map fun target => target.1.threshold.positionRef).Nodup) :
    ∃ t, (targets.forM (realignStop broker now statuses values)).run s = .ok ⟨⟩ t ∧
      Realigned broker now statuses values s t targets := by
  induction targets generalizing s with
  | nil =>
    refine ⟨s, rfl, h, fun _ _ _ => Iff.rfl, ?_, ⟨[], by simp, by simp⟩, fun k hk => .inl hk⟩
    exact iff_of_true (by simp) trivial
  | cons target rest ih =>
    rw [List.map_cons, List.nodup_cons] at hdistinct
    obtain ⟨⟨⟩, t, hrun, hstep⟩ := (realignStop_ends broker statuses values now h
      (hlive target (by simp))).exists_ok
    have hne : ∀ other ∈ rest,
        other.1.threshold.positionRef ≠ target.1.threshold.positionRef := fun other ho heq =>
      hdistinct.1 (heq ▸ List.mem_map_of_mem ho)
    obtain ⟨u, hrest, hdone⟩ := ih hstep.facts (fun other ho =>
      (hstep.others _ _ (hne other ho)).mpr (hlive other (by simp [ho]))) hdistinct.2
    obtain ⟨new, hnew, hpermitted⟩ := hstep.calls
    obtain ⟨more, hmore, hpermitted'⟩ := hdone.calls
    refine ⟨u, ?_, hdone.facts, fun k r hr => ?_, ?_, ⟨new ++ more, ?_, fun call hcall => ?_⟩,
      fun k hk => ?_⟩
    · change ((realignStop broker now statuses values target) >>= fun _ =>
        rest.forM (realignStop broker now statuses values)).run s = _
      rw [EStateM.run_bind, hrun]
      exact hrest
    · simp only [List.map_cons, List.mem_cons, not_or] at hr
      exact (hdone.others k r hr.2).trans (hstep.others k r hr.1)
    · rw [AllSheltered, hrun, List.forall_mem_cons, ← hstep.own]
      simp only [← hdone.own]
      refine and_congr_left fun _ => ?_
      exact exists_congr fun k => hdone.others k _ hdistinct.1
    · rw [hmore, hnew, List.append_assoc]
    · rcases List.mem_append.mp hcall with hcall | hcall
      · obtain ⟨hpermit, hplan⟩ := hpermitted call hcall
        exact ⟨hpermit, by simp [hplan]⟩
      · obtain ⟨hpermit, hplan⟩ := hpermitted' call hcall
        exact ⟨hpermit, List.mem_cons_of_mem _ hplan⟩
    · rcases hdone.marks k hk with hk | hcall
      · refine (hstep.marks k hk).imp_right fun ⟨call, hcall, hrest⟩ => ⟨call, ?_, hrest⟩
        rw [hmore]
        exact List.mem_append_left more hcall
      · exact .inr hcall

/-- A pass that cannot read the broker's orders leaves a warning for each target. -/
theorem record_forM_ends {targets : List Target} (reason : String) :
    Ends (targets.forM fun target => Realign.record .failed target reason) s
      (fun _ t => t.graph = s.graph ∧ t.calls = s.calls) (fun _ => False) := by
  induction targets generalizing s with
  | nil => exact Ends.pure ⟨rfl, rfl⟩
  | cons target rest ih =>
    refine Ends.bind (x := Realign.record .failed target reason)
      (Ends.modify (Q := fun _ t => t.graph = s.graph ∧ t.calls = s.calls) ⟨rfl, rfl⟩) ?_
    intro _ t ht
    refine (ih (s := t)).mono (fun _ u hu => ?_) fun _ hf => hf
    exact ⟨hu.1.trans ht.1, hu.2.trans ht.2⟩

end

/-- What a realignment promises, whatever the broker refuses: each position with a live stop still
has one, only a stop that the broker replaced is marked as replaced, and a replacement is asked for
only where the broker reports the stop as new and its decided price is below the market's. -/
structure StopsKept (broker : StopBroker) (holdings : List Holding)
    (plans : List BrokerStopThresholdPlan) (g : PipelineGraph) (t : RealignState) : Prop where
  protected_ : ∀ ref ∈ activeBrokerStopRefs g, ref ∈ activeBrokerStopRefs t.graph
  marked : ∀ key, isReplaced t.graph key = true → isReplaced g key = true ∨
    ∃ call ∈ t.calls, call.stop.key = key ∧ ∃ fill,
      broker.replaceStop call.stop.brokerOrderId call.plan.stopCents call.key = .ok fill
  asked : ∀ call ∈ t.calls,
    (∃ orders, broker.orders (waitingStops (mismatched g plans)) = .ok orders ∧ ∃ o ∈ orders,
      o.brokerOrderId = call.stop.brokerOrderId ∧ o.orderStatus = some replaceableOrderStatus) ∧
    ∃ h ∈ holdings, h.ticker = call.plan.threshold.ticker ∧
      (call.plan.stopCents : ℚ) < h.marketValueCents / call.plan.threshold.quantity

/-- Every stop of a pass is sheltered when the pass comes to it. -/
def PassSheltered (broker : StopBroker) (now : Timestamp) (holdings : List Holding)
    (plans : List BrokerStopThresholdPlan) (g : PipelineGraph) : Prop :=
  ∀ orders, broker.orders (waitingStops (mismatched g plans)) = .ok orders →
    AllSheltered broker now (orderStatuses orders) (marketValues holdings) (mismatched g plans)
      ⟨g, [], []⟩

theorem mismatched_live {g : PipelineGraph} (h : StopFacts g) {plans : List BrokerStopThresholdPlan}
    {target : Target} (hmem : target ∈ mismatched g plans) :
    target.1 ∈ plans ∧ LiveKey g target.2.key target.1.threshold.positionRef := by
  obtain ⟨plan, hplan, htarget⟩ := List.mem_filterMap.mp hmem
  obtain ⟨rfl, hactive, href⟩ := mismatch_spec htarget
  exact ⟨hplan, href ▸ h.liveKey hactive⟩

theorem mismatched_distinct {g : PipelineGraph} {plans : List BrokerStopThresholdPlan}
    (h : (plans.map fun plan => plan.threshold.positionRef).Nodup) :
    ((mismatched g plans).map fun target => target.1.threshold.positionRef).Nodup := by
  rw [List.nodup_iff_pairwise_ne, List.pairwise_map] at h ⊢
  refine List.Pairwise.filterMap _ (fun a a' hne b hb b' hb' => ?_) h
  rwa [(mismatch_spec hb).1, (mismatch_spec hb').1]

/-- A permitted replacement of a position the broker holds is below the market. -/
theorem Permitted.below {broker : StopBroker} {statuses : Dict String (Option String)}
    {holdings : List Holding} {call : ReplaceCall}
    (h : Permitted broker statuses (marketValues holdings) call)
    (hheld : 0 < call.plan.threshold.quantity ∧ ∃ h ∈ holdings,
      h.ticker = call.plan.threshold.ticker ∧ h.quantity = call.plan.threshold.quantity) :
    ∃ h ∈ holdings, h.ticker = call.plan.threshold.ticker ∧
      (call.plan.stopCents : ℚ) < h.marketValueCents / call.plan.threshold.quantity := by
  obtain ⟨hpos, held, hmem, hticker, -⟩ := hheld
  have hsome : ((marketValues holdings).get? call.plan.threshold.ticker).isSome :=
    Dict.isSome_get?_setAll _ (by
      rw [List.map_map]
      exact List.mem_map.mpr ⟨held, hmem, hticker⟩)
  obtain ⟨value, hvalue⟩ := Option.isSome_iff_exists.mp hsome
  have hprice := h.price
  rw [hvalue, Option.getD_some] at hprice
  obtain ⟨priced, hpriced, heq⟩ := List.mem_map.mp (Dict.mem_of_get?_ofList hvalue)
  obtain ⟨hname, rfl⟩ := Prod.mk.inj heq
  refine ⟨priced, hpriced, hname, ?_⟩
  rw [lt_div_iff₀ (by exact_mod_cast hpos)]
  exact_mod_cast hprice

/-- A realignment returns: it has left everything as it was, or has gone through its targets. -/
theorem realignBrokerStops_ends {g : PipelineGraph} (h : StopFacts g) (broker : StopBroker)
    (now : Timestamp) (holdings : List Holding) {plans : List BrokerStopThresholdPlan}
    (hdistinct : (plans.map fun plan => plan.threshold.positionRef).Nodup) :
    Ends (realignBrokerStops broker now holdings plans) ⟨g, [], []⟩
      (fun _ t => (t.graph = g ∧ t.calls = [] ∧ PassSheltered broker now holdings plans g) ∨
        ∃ orders, broker.orders (waitingStops (mismatched g plans)) = .ok orders ∧
          Realigned broker now (orderStatuses orders) (marketValues holdings) ⟨g, [], []⟩ t
            (mismatched g plans)) (fun _ => False) := by
  have hlive : ∀ target ∈ mismatched g plans,
      LiveKey g target.2.key target.1.threshold.positionRef := fun _ hmem =>
    (mismatched_live h hmem).2
  have htargets := mismatched_distinct (g := g) hdistinct
  refine Ends.bind (Ends.get (Q := fun a t => ⟨g, [], []⟩ = a ∧ ⟨g, [], []⟩ = t) ⟨rfl, rfl⟩) ?_
  rintro _ _ ⟨rfl, rfl⟩
  simp only
  split
  · rename_i hnone
    refine Ends.pure (.inl ⟨rfl, rfl, fun orders _ => ?_⟩)
    rw [hnone]
    trivial
  · cases horders : broker.orders (waitingStops (mismatched g plans)) with
    | error text =>
      have hread : Ends (readOrderStatuses broker (mismatched g plans)) ⟨g, [], []⟩
          (fun found t => found = none ∧ t.graph = g ∧ t.calls = []) (fun _ => False) := by
        unfold readOrderStatuses
        rw [horders]
        exact Ends.bind (record_forM_ends _) fun _ t ht => Ends.pure ⟨rfl, ht⟩
      refine Ends.bind hread ?_
      rintro _ t ⟨rfl, hgraph, hcalls⟩
      refine Ends.pure (.inl ⟨hgraph, hcalls, fun orders hok => ?_⟩)
      rw [horders] at hok
      cases hok
    | ok orders =>
      have hread : Ends (readOrderStatuses broker (mismatched g plans)) ⟨g, [], []⟩
          (fun found t => found = some (orderStatuses orders) ∧ t = ⟨g, [], []⟩)
          (fun _ => False) := by
        unfold readOrderStatuses
        rw [horders]
        exact Ends.pure ⟨rfl, rfl⟩
      refine Ends.bind hread ?_
      rintro _ _ ⟨rfl, rfl⟩
      obtain ⟨t, hrun, hdone⟩ := realignStop_forM broker (orderStatuses orders)
        (marketValues holdings) now (s := ⟨g, [], []⟩) h hlive htargets
      exact Ends.of_run hrun (.inr ⟨orders, rfl, hdone⟩)

/-- A pass over its targets keeps what it promises when each of them is sheltered. -/
theorem Realigned.stopsKept_iff {g : PipelineGraph} (h : StopFacts g) {broker : StopBroker}
    {now : Timestamp} {holdings : List Holding} (guarded : ProtectedPlans holdings)
    {orders : List BrokerFill} {t : RealignState}
    (horders : broker.orders (waitingStops (mismatched g guarded.plans)) = .ok orders)
    (hdone : Realigned broker now (orderStatuses orders) (marketValues holdings) ⟨g, [], []⟩ t
      (mismatched g guarded.plans)) :
    StopsKept broker holdings guarded.plans g t ↔
      PassSheltered broker now holdings guarded.plans g := by
  obtain ⟨new, hcalls, hpermitted⟩ := hdone.calls
  rw [List.nil_append] at hcalls
  have hcondition : PassSheltered broker now holdings guarded.plans g ↔
      ∀ target ∈ mismatched g guarded.plans, Guards t.graph target.1.threshold.positionRef := by
    rw [hdone.own, PassSheltered, horders]
    simp
  rw [hcondition]
  constructor
  · intro hkept target hmem
    have hlive := (mismatched_live h hmem).2
    exact hdone.facts.mem_refs.mp (hkept.protected_ _ (h.mem_refs.mpr ⟨_, hlive⟩))
  · intro hown
    refine ⟨fun ref href => ?_, fun key hkey => ?_, fun call hcall => ⟨⟨orders, horders, ?_⟩, ?_⟩⟩
    · rw [hdone.facts.mem_refs]
      by_cases hmem : ref ∈ (mismatched g guarded.plans).map
          fun target => target.1.threshold.positionRef
      · obtain ⟨target, htarget, rfl⟩ := List.mem_map.mp hmem
        exact hown target htarget
      · obtain ⟨key, hlive⟩ := h.mem_refs.mp href
        exact ⟨key, (hdone.others key ref hmem).mpr hlive⟩
    · refine (hdone.marks key hkey).imp_right ?_
      rintro ⟨call, hcall, hstop, fill, hanswer⟩
      refine ⟨call, hcall, hstop, fill, ?_⟩
      rw [← (hpermitted call (hcalls ▸ hcall)).1.answer, hanswer]
    · have hstatus := (hpermitted call (hcalls ▸ hcall)).1.status
      obtain ⟨o, ho, heq⟩ := List.mem_map.mp (Dict.mem_of_get?_ofList hstatus)
      exact ⟨o, ho, (Prod.mk.inj heq).1, (Prod.mk.inj heq).2⟩
    · obtain ⟨hpermit, hplan⟩ := hpermitted call (hcalls ▸ hcall)
      obtain ⟨target, htarget, hplan⟩ := List.mem_map.mp hplan
      exact hpermit.below (hplan ▸ guarded.held _ (mismatched_live h htarget).1)

/-- A realignment returns and keeps what it promises exactly when every stop it replaces is
sheltered: the Fill under the replacement's key, if one stands there, has not ended, or another live
stop of the position remains. -/
theorem realign_keeps_iff {g : PipelineGraph} (h : StopFacts g) (broker : StopBroker)
    (now : Timestamp) (holdings : List Holding) (guarded : ProtectedPlans holdings) :
    (∃ t, (realignBrokerStops broker now holdings guarded.plans).run ⟨g, [], []⟩ = .ok ⟨⟩ t ∧
      StopsKept broker holdings guarded.plans g t) ↔
      PassSheltered broker now holdings guarded.plans g := by
  obtain ⟨⟨⟩, t, hrun, hends⟩ :=
    (realignBrokerStops_ends h broker now holdings guarded.distinct).exists_ok
  have hiff : StopsKept broker holdings guarded.plans g t ↔
      PassSheltered broker now holdings guarded.plans g := by
    rcases hends with ⟨hgraph, hcalls, hsheltered⟩ | ⟨orders, horders, hdone⟩
    · refine iff_of_true ⟨fun ref href => ?_, fun key hkey => ?_, fun call hcall => ?_⟩ hsheltered
      · rwa [hgraph]
      · rw [hgraph] at hkey
        exact .inl hkey
      · rw [hcalls] at hcall
        cases hcall
    · exact hdone.stopsKept_iff h guarded horders
  constructor
  · rintro ⟨t', hrun', hkept⟩
    cases hrun.symm.trans hrun'
    exact hiff.mp hkept
  · exact fun hsheltered => ⟨t, hrun, hiff.mpr hsheltered⟩

/-! ### Runs -/

instance (g : PipelineGraph) (key : String) : Decidable (ClearKey g key) :=
  inferInstanceAs (Decidable (∀ current ∈ g.getNode fillLabel key, _))

/-- The plan of the ten shares at another width. -/
def acmePlanAt (stopPct : ℚ) : BrokerStopThresholdPlan :=
  ⟨⟨"ACME", 10, "p1", 10000, stopPct⟩, .position, .activePosition⟩

def acmeHoldings : List Holding := [⟨"ACME", 10, 100000⟩]

def acmeGuarded (stopPct : ℚ) : ProtectedPlans acmeHoldings where
  plans := [acmePlanAt stopPct]
  distinct := List.nodup_singleton _
  held := by
    intro plan hplan
    rw [List.mem_singleton.mp hplan]
    exact ⟨show (0 : Int) < 10 by decide, ⟨"ACME", 10, 100000⟩, by simp [acmeHoldings], rfl, rfl⟩

/-- A broker that has one order, as new, and accepts a replacement of it. -/
def acmeBroker (held given : String) : StopBroker where
  orders _ := .ok [{ acmeReply "" held .pending with orderStatus := some replaceableOrderStatus }]
  replaceStop _ _ key := .ok (acmeReply key given .pending)

/-- The stop of the ten shares as its fact has it. -/
def acmeTarget : Target :=
  (acmePlanAt (1 / 20), ⟨"stop:p1:ACME", "ACME", "p1", 9000, "order-1"⟩)

theorem realign_keeps_acme : ∃ g, "p1" ∈ activeBrokerStopRefs g ∧
    mismatched g (acmeGuarded (1 / 20)).plans = [acmeTarget] ∧
    ∃ t, (realignBrokerStops (acmeBroker "order-1" "order-2") secondStamp acmeHoldings
      (acmeGuarded (1 / 20)).plans).run ⟨g, [], []⟩ = .ok ⟨⟩ t ∧
      StopsKept (acmeBroker "order-1" "order-2") acmeHoldings (acmeGuarded (1 / 20)).plans g t := by
  have htest : Fallible.check (fun g => decide ("p1" ∈ activeBrokerStopRefs g) &&
      decide (mismatched g (acmeGuarded (1 / 20)).plans = [acmeTarget]) &&
      decide (ClearKey g (replacementKey g acmeTarget)))
      ([placeAcme].foldlM StopOp.apply Graph.empty) = true := by decide +kernel
  obtain ⟨g, hg, hcheck⟩ := Fallible.check_eq_true.mp htest
  simp only [Bool.and_eq_true, decide_eq_true_eq] at hcheck
  obtain ⟨⟨hlive, htargets⟩, hclear⟩ := hcheck
  have hfacts : StopFacts g := .reach (.of_foldlM (.start rfl) hg)
  refine ⟨g, hlive, htargets, (realign_keeps_iff hfacts _ _ _ (acmeGuarded (1 / 20))).mpr ?_⟩
  intro orders _
  rw [htargets]
  refine ⟨fun _ => .inl hclear, ?_⟩
  split <;> trivial

/-- A stop that is rejected twice, accepted, moved, and then seen as replaced by a refresh. -/
def movedStop : List StopOp := [
  .place acmePlan (acmeReply "stop:p1:ACME" "rejected:stop:p1:ACME" .rejected) firstStamp,
  .place acmePlan (acmeReply "stop:p1:ACME" "rejected:stop:p1:ACME" .rejected) firstStamp,
  .place acmePlan (acmeReply "stop:p1:ACME" "order-1" .pending) firstStamp,
  .replace (acmePlanAt (1 / 20)) ⟨"stop:p1:ACME", "ACME", "p1", 9000, "order-1"⟩
    (acmeReply "stop:p1:ACME#1" "order-2" .pending) secondStamp,
  .refresh [acmeReply "stop:p1:ACME" "order-1" .rejected] "t3"]

/-- Whether the next realignment leaves the position without a live stop. -/
def losesStop (g : PipelineGraph) : Bool :=
  match (realignBrokerStops (acmeBroker "order-2" "order-3") secondStamp acmeHoldings
    (acmeGuarded (3 / 100)).plans).run ⟨g, [], []⟩ with
  | .ok _ t =>
    decide ("p1" ∈ activeBrokerStopRefs g) && decide ("p1" ∉ activeBrokerStopRefs t.graph)
  | .error _ _ => false

theorem replaced_stop_lost : ¬ ∀ g, Reach StopOp.apply (fun _ _ => True) (· = Graph.empty) g →
    ∀ (broker : StopBroker) (now : Timestamp) (holdings : List Holding)
      (guarded : ProtectedPlans holdings),
      ∃ t, (realignBrokerStops broker now holdings guarded.plans).run ⟨g, [], []⟩ = .ok ⟨⟩ t ∧
        StopsKept broker holdings guarded.plans g t := by
  intro hall
  have htest : Fallible.check losesStop (movedStop.foldlM StopOp.apply Graph.empty) = true := by
    decide +kernel
  obtain ⟨g, hg, hloses⟩ := Fallible.check_eq_true.mp htest
  obtain ⟨t, hrun, hkept⟩ := hall g (.of_foldlM (.start rfl) hg) (acmeBroker "order-2" "order-3")
    secondStamp acmeHoldings (acmeGuarded (3 / 100))
  rw [losesStop, hrun] at hloses
  simp only [Bool.and_eq_true, decide_eq_true_eq] at hloses
  exact hloses.2 (hkept.protected_ "p1" hloses.1)

end TradingAgents.Execution
