import TradingAgents.Execution.StopProtection
import TradingAgents.ProofKit.Runs

/-! Runs of execution passes: what a pass in progress may rely on in each of its loops, that every
step keeps it together with one open stop for each position, and the history that breaks it. -/

namespace TradingAgents.Execution

open Kernel ProofKit BrokerLifecycle BrokerStops

section

variable {g g' g'' : PipelineGraph} {book book' book'' : List StopOrder}

theorem Evolves.trans {placed : Option (String × String)} (h : Evolves g book g' book' placed)
    (h' : Evolves g' book' g'' book'' none) : Evolves g book g'' book'' placed :=
  ⟨fun order hknown => h'.known order (h.known order hknown), fun key ref hlive =>
    h.live key ref ((h'.live key ref hlive).resolve_right (by simp))⟩

/-- A stop that readers see as live is known, and live for its position. -/
theorem Tied.of_active (h : Tied g book) {order : BrokerStopOrder}
    (hactive : order ∈ activeBrokerStopOrders g) :
    Known g book order ∧ LiveKey g order.key order.positionRef := by
  obtain ⟨n, hn, -, hlive, rfl⟩ := mem_activeBrokerStopOrders.mp hactive
  obtain ⟨o, ho, hk, hfact⟩ := h.facts n.key n hn
  refine ⟨⟨by rw [show (brokerStopOrder n).key = n.key from rfl, hn]; rfl, o, ho, hk, ?_⟩, ?_⟩
  · simp [brokerStopOrder, Node.get, Props.get, hfact.orderId, textOr, Value.str?]
  · have href : (brokerStopOrder n).positionRef = o.positionRef := by
      simp [brokerStopOrder, Node.get, Props.get, hfact.positionRef, textOr, Value.str?]
    rw [href]
    exact (h.liveKey_iff hn hfact.positionRef).mp hlive

/-- A position with a live key is among the protected ones. -/
theorem Tied.mem_activeRefs (h : Tied g book) {key ref : String} (hlive : LiveKey g key ref) :
    ref ∈ activeBrokerStopRefs g := by
  obtain ⟨n, -, hn, href, -⟩ := id hlive
  obtain ⟨hl, rfl⟩ := Graph.getNode_nodeKey hn
  refine List.mem_map.mpr ⟨brokerStopOrder n, mem_activeBrokerStopOrders.mpr
    ⟨n, hn, hl, (h.liveKey_iff hn href).mpr hlive, rfl⟩, ?_⟩
  simp [brokerStopOrder, Node.get, Props.get, href, textOr, Value.str?]

/-! ### The broker calls -/

theorem placeStop_rejected {plan : BrokerStopThresholdPlan} {key : String} {fill : BrokerFill}
    {now : Timestamp} (hs : fill.status = .rejected)
    (h : placeStop g plan key fill now = .ok g') : Quiet g g' := by
  obtain ⟨⟨g₁, node⟩, hfill, hrest⟩ := Fallible.bind_eq_ok.mp h
  simp only [hs, if_true] at hrest
  cases hrest
  exact (writeStopFill_ok hfill).1.grows.quiet

/-- An order that the broker closed at once changes nothing that counts. -/
theorem Tied.closed (h : Tied g book) {o : StopOrder} (hs : o.status = .rejected)
    (hkey : ∀ b ∈ book, b.key ≠ o.key) (hid : ∀ b ∈ book, b.orderId ≠ o.orderId) :
    Tied g (book ++ [o]) ∧ Evolves g book g (book ++ [o]) none := by
  have hold : ∀ b ∈ book ++ [o], b ∈ book ∨ b = o := fun b hb => by simpa using hb
  refine ⟨⟨?_, ?_, fun k stop hstop => ?_, fun b hb hne => ?_, fun b hb hopen => ?_⟩,
    ⟨fun order hknown => ?_, fun _ _ hlive => .inl hlive⟩⟩
  · rw [List.map_append]
    exact h.ids.append (List.nodup_singleton _) (by simpa [List.Disjoint] using hid)
  · rw [List.map_append]
    exact h.keys.append (List.nodup_singleton _) (by simpa [List.Disjoint] using hkey)
  · obtain ⟨b, hb, hbk, hfact⟩ := h.facts k stop hstop
    exact ⟨b, by simp [hb], hbk, hfact⟩
  · rcases hold b hb with hb | rfl
    · exact h.filed b hb hne
    · exact (hne hs).elim
  · rcases hold b hb with hb | rfl
    · exact h.live b hb hopen
    · simp [StopOrder.isOpen, hs] at hopen
  · obtain ⟨hsome, b, hb, hbk, hbid⟩ := hknown
    exact ⟨hsome, b, by simp [hb], hbk, hbid⟩

/-- What one broker call of a pass did: the book and the facts are tied, no position has two live
facts, and for the loops in progress only a fact of the position `ref` was added. -/
structure Kept (g : PipelineGraph) (book : List StopOrder) (g' : PipelineGraph)
    (book' : List StopOrder) (ref : String) : Prop where
  tied : Tied g' book'
  single : Single g'
  evolves : Evolves g book g' book' none ∨ ∃ key, Evolves g book g' book' (some (key, ref))

theorem Kept.of_quiet (hs : Single g) (h : Tied g' book' ∧ Evolves g book g' book' none)
    (ref : String) : Kept g book g' book' ref := ⟨h.1, h.2.single hs, .inl h.2⟩

theorem Kept.known {ref : String} (h : Kept g book g' book' ref) {order : BrokerStopOrder}
    (hknown : Known g book order) : Known g' book' order := by
  rcases h.evolves with hev | ⟨key, hev⟩
  · exact hev.known order hknown
  · exact hev.known order hknown

theorem Kept.live {ref other key : String} (h : Kept g book g' book' ref) (hne : other ≠ ref)
    (hlive : LiveKey g' key other) : LiveKey g key other := by
  rcases h.evolves with hev | ⟨key, hev⟩
  · exact (hev.live _ _ hlive).resolve_right (by simp)
  · exact (hev.live _ _ hlive).resolve_right fun heq =>
      hne (Prod.mk.inj (Option.some.inj heq)).2.symm

/-- One placement, for a position without a live fact. -/
theorem Kept.placed (h : Tied g book) (hs : Single g) {plan : BrokerStopThresholdPlan}
    {key : String} {answer : Answer} {now : Timestamp}
    (hfree : g.getNode brokerStopOrderLabel key = none)
    (hdead : ∀ k, ¬ LiveKey g k plan.threshold.positionRef)
    (hids : ∀ orderId status, answer = .accept orderId status → ∀ o ∈ book, o.orderId ≠ orderId)
    (hclear : (submitStop book plan key answer).2.status ≠ .rejected →
      Unclouded g plan key (submitStop book plan key answer).2)
    (hok : placeStop g plan key (submitStop book plan key answer).2 now = .ok g') :
    Kept g book g' (submitStop book plan key answer).1 plan.threshold.positionRef := by
  unfold submitStop at hclear hok ⊢
  cases hfind : book.find? fun o => o.key = key with
  | some o =>
    -- the broker replays an order without a fact, which it had rejected
    rw [hfind] at hok hclear
    have hkey : o.key = key := by simpa using List.find?_some hfind
    have hrejected : o.status = .rejected := by
      by_contra hne
      have hsome := h.filed o (List.mem_of_find?_eq_some hfind) hne
      rw [hkey, hfree] at hsome
      cases hsome
    exact .of_quiet hs (h.quiet (placeStop_rejected hrejected hok)) _
  | none =>
    rw [hfind] at hok hclear
    have hkeys : ∀ o ∈ book, o.key ≠ key := by simpa using hfind
    cases answer with
    | refuse => exact .of_quiet hs (h.quiet (placeStop_rejected rfl hok)) _
    | orders _ => exact .of_quiet hs (h.quiet (placeStop_rejected rfl hok)) _
    | accept orderId status =>
      have hid := hids orderId status rfl
      by_cases hstatus : status = .rejected
      · obtain ⟨htied, hev⟩ := h.quiet (placeStop_rejected hstatus hok)
        obtain ⟨htied', hev'⟩ := htied.closed
          (o := .of plan key orderId status) hstatus hkeys hid
        exact .of_quiet hs ⟨htied', hev.trans hev'⟩ _
      · obtain ⟨⟨g₁, node⟩, hfill, hrest⟩ := Fallible.bind_eq_ok.mp hok
        simp only [show (StopOrder.of plan key orderId status).fill.status = status from rfl,
          if_neg hstatus] at hrest
        have hp := writeStop_placed (hclear hstatus) hfree hfill hrest
        obtain ⟨htied, hev⟩ := h.placed hp hfree hkeys hid
        refine ⟨htied, fun k k' ref hk hk' => ?_, .inr ⟨key, hev⟩⟩
        rcases hev.live k ref hk with hk | hk <;> rcases hev.live k' ref hk' with hk' | hk'
        · exact hs k k' ref hk hk'
        · cases hk'; exact (hdead k hk).elim
        · cases hk; exact (hdead k' hk').elim
        · cases hk; cases hk'; rfl

/-- One replacement, of the only live stop of its position. -/
theorem Kept.replaced (h : Tied g book) (hs : Single g) {plan : BrokerStopThresholdPlan}
    {old : BrokerStopOrder} {key : String} {answer : Answer} {fill : BrokerFill} {now : Timestamp}
    (hknown : Known g book old)
    (honly : ∀ k, LiveKey g k plan.threshold.positionRef → k = old.key)
    (hfree : g.getNode brokerStopOrderLabel key = none)
    (hids : ∀ orderId status, answer = .accept orderId status → ∀ o ∈ book, o.orderId ≠ orderId)
    (hmoved : replaceAtBroker book plan old key answer = some (book', fill))
    (hclear : Unclouded g plan key fill)
    (hok : replaceStop g plan old key fill now = .ok g') :
    Kept g book g' book' plan.threshold.positionRef := by
  unfold replaceAtBroker at hmoved
  split at hmoved
  · rename_i orderId status
    split at hmoved
    · rename_i hguard
      obtain ⟨-, ⟨o₀, ho₀, hid₀, -⟩, hkeys⟩ := hguard
      have hid := hids orderId status rfl
      cases hmoved
      obtain ⟨⟨g₁, node⟩, hfill, hrest⟩ := Fallible.bind_eq_ok.mp hok
      obtain ⟨g₂, horder, hmark⟩ := Fallible.bind_eq_ok.mp hrest
      have hp := writeStop_placed hclear hfree hfill horder
      obtain ⟨htied, hev⟩ := h.placed hp hfree hkeys hid
      have hknown' := hev.known old hknown
      have hend := markReplaced_ended hmark
      have hbook : setStatus (book ++ [StopOrder.of plan key orderId status])
          (fun o => decide (o.orderId = old.brokerOrderId)) .rejected =
          setStatus book (fun o => decide (o.orderId = old.brokerOrderId)) .rejected ++
            [.of plan key orderId status] := by
        have hne : orderId ≠ old.brokerOrderId := fun heq => hid o₀ ho₀ (hid₀.trans heq.symm)
        simp [setStatus, StopOrder.of, hne]
      have hev' := hev.trans (Evolves.ended hknown' hend
        (fun o => decide (o.orderId = old.brokerOrderId)) .rejected)
      rw [hbook] at hev'
      refine ⟨hbook ▸ htied.ended hknown' hend, fun k k' ref hk hk' => ?_, .inr ⟨key, hev'⟩⟩
      have hdead : ∀ k, LiveKey g' k ref → k ≠ old.key := fun k hlive =>
        ((hend.liveKey_iff hknown'.1).mp hlive).1
      rcases hev'.live k ref hk with hk₀ | hk₀ <;> rcases hev'.live k' ref hk' with hk₀' | hk₀'
      · exact hs k k' ref hk₀ hk₀'
      · cases hk₀'; exact (hdead k hk (honly k hk₀)).elim
      · cases hk₀; exact (hdead k' hk' (honly k' hk₀')).elim
      · cases hk₀; cases hk₀'; rfl
    · cases hmoved
  · cases hmoved

end

/-! ### A pass in progress -/

/-- What the loop that a pass is in may rely on: the stops on its list are known, each plan on it
belongs to its own position, and no other stop protects that position. -/
def PhaseOk (g : PipelineGraph) (book : List StopOrder) (input : PassInput) : Phase → Prop
  | .idle => True
  | .reconciling todo => ∀ order ∈ todo, Known g book order
  | .exiting todo => ∀ order ∈ todo, Known g book order
  | .placing protectedRefs todo kept => todo.Nodup ∧
      (∀ t ∈ todo, ∀ plan, input.plans.get? t = some plan → ∀ key,
        LiveKey g key plan.threshold.positionRef → plan.threshold.positionRef ∈ protectedRefs) ∧
      (∀ plan ∈ kept, input.plans.get? plan.threshold.ticker = some plan ∧
        plan.threshold.ticker ∉ todo) ∧
      kept.Pairwise fun a b => a.threshold.positionRef ≠ b.threshold.positionRef
  | .realigning todo _ =>
      (todo.Pairwise fun a b => a.1.threshold.positionRef ≠ b.1.threshold.positionRef) ∧
      ∀ p ∈ todo, Known g book p.2 ∧
        ∀ key, LiveKey g key p.1.threshold.positionRef → key = p.2.key
  | .submitting _ => True

/-- What holds in every state of a run: the book and the facts agree, no position has two live
facts, and the pass in progress stands on what it may rely on. -/
structure Guarded (w : World) : Prop where
  tied : Tied w.graph w.book
  single : Single w.graph
  phase : PhaseOk w.graph w.book w.input w.phase

/-- What a step that adds no live fact leaves of a phase. -/
theorem PhaseOk.evolves {g g' : PipelineGraph} {book book' : List StopOrder} {input : PassInput}
    {phase : Phase} (h : PhaseOk g book input phase) (hev : Evolves g book g' book' none) :
    PhaseOk g' book' input phase := by
  have hlive : ∀ key ref, LiveKey g' key ref → LiveKey g key ref := fun key ref hl =>
    (hev.live key ref hl).resolve_right (by simp)
  cases phase with
  | idle => trivial
  | reconciling todo => exact fun order ho => hev.known order (h order ho)
  | exiting todo => exact fun order ho => hev.known order (h order ho)
  | placing refs todo kept =>
    obtain ⟨hnodup, hrefs, hkept, hdistinct⟩ := h
    exact ⟨hnodup, fun t ht plan hp key hl => hrefs t ht plan hp key (hlive _ _ hl),
      hkept, hdistinct⟩
  | realigning todo statuses =>
    obtain ⟨hdistinct, hstops⟩ := h
    exact ⟨hdistinct, fun p hp => ⟨hev.known _ (hstops p hp).1, fun key hl =>
      (hstops p hp).2 key (hlive _ _ hl)⟩⟩
  | submitting todo => trivial

theorem Guarded.quiet {w : World} (h : Guarded w) {g' : PipelineGraph} {book' : List StopOrder}
    (hstep : Tied g' book' ∧ Evolves w.graph w.book g' book' none) :
    Guarded { w with graph := g', book := book' } :=
  ⟨hstep.1, hstep.2.single h.single, h.phase.evolves hstep.2⟩

theorem mergeElsewhere_quiet {g g' : PipelineGraph} {label key : String} {props : Props Document}
    (h : mergeElsewhere g label key props = .ok g') : Quiet g g' := by
  unfold mergeElsewhere at h
  split at h
  · cases h
  rename_i hlabel
  obtain ⟨⟨g₁, n⟩, hm, hret⟩ := Fallible.bind_eq_ok.mp h
  cases hret
  obtain ⟨rfl, hl, -⟩ := Graph.mergeNode_ok (liftGraph_eq_ok.mp hm)
  refine .of_same fun label' k hl' => ?_
  rw [Graph.getNode_put, if_neg]
  rintro ⟨rfl, -⟩
  exact hlabel (hl ▸ hl')

theorem linkElsewhere_quiet {g g' : PipelineGraph} {parent child : NodeKey} {edgeType : String}
    (h : linkElsewhere g parent child edgeType = .ok g') : Quiet g g' := by
  unfold linkElsewhere at h
  split at h
  · cases h
  · rw [liftGraph_eq_ok] at h
    exact .of_same fun _ _ _ => Graph.getNode_of_nodes_eq (Graph.addEdge_ok h).1 _ _

/-! ### The steps -/

/-- A cancel in the loop of a phase, at the head of its list. -/
theorem Guarded.cancelNext {w w' : World} {phase : Phase} {order : BrokerStopOrder}
    {answer : Answer} (h : Guarded w) (hphase : PhaseOk w.graph w.book w.input phase)
    (hknown : Known w.graph w.book order)
    (hok : Execution.cancelNext { w with phase := phase } order answer = .ok w') : Guarded w' := by
  unfold Execution.cancelNext at hok
  split at hok
  · obtain ⟨g, hcancel, hret⟩ := Fallible.bind_eq_ok.mp hok
    cases hret
    have hend := cancelStop_ended hcancel
    have hev := Evolves.ended hknown hend
      (fun o => decide (o.orderId = order.brokerOrderId)) .rejected
    exact ⟨h.tied.ended hknown hend, hev.single h.single, hphase.evolves hev⟩
  · cases hok
    exact ⟨h.tied, h.single, hphase⟩

theorem planFor_spec {input : PassInput} {ticker : String} {plan : BrokerStopThresholdPlan}
    (h : planFor input ticker = some plan) : input.plans.get? ticker = some plan := by
  unfold planFor at h
  split at h
  · cases h
  · split at h
    · cases h
    · rename_i hp
      split at h
      · cases h; exact hp
      · cases h

theorem PhaseOk.tail {g : PipelineGraph} {book : List StopOrder} {input : PassInput}
    {refs rest : List String} {ticker : String} {kept : List BrokerStopThresholdPlan}
    (h : PhaseOk g book input (.placing refs (ticker :: rest) kept)) :
    PhaseOk g book input (.placing refs rest kept) := by
  obtain ⟨hnodup, hrefs, hkept, hdistinct⟩ := h
  exact ⟨(List.nodup_cons.mp hnodup).2, fun t ht => hrefs t (List.mem_cons_of_mem _ ht),
    fun plan hp => ⟨(hkept plan hp).1, fun hin => (hkept plan hp).2 (List.mem_cons_of_mem _ hin)⟩,
    hdistinct⟩

/-- A protected position is set aside for the realignment. -/
theorem PhaseOk.protect {g : PipelineGraph} {book : List StopOrder} {input : PassInput}
    {refs rest : List String} {ticker : String} {kept : List BrokerStopThresholdPlan}
    {plan : BrokerStopThresholdPlan}
    (h : PhaseOk g book input (.placing refs (ticker :: rest) kept))
    (hplan : input.plans.get? ticker = some plan) :
    PhaseOk g book input (.placing refs rest (kept ++ [plan])) := by
  have hticker := input.plans_named ticker plan hplan
  obtain ⟨hnodup, hrefs, hkept, hdistinct⟩ := h.tail
  refine ⟨hnodup, hrefs, fun p hp => ?_, ?_⟩
  · rcases List.mem_append.mp hp with hp | hp
    · exact hkept p hp
    · rw [List.mem_singleton.mp hp, hticker]
      exact ⟨hplan, (List.nodup_cons.mp h.1).1⟩
  · rw [List.pairwise_append]
    refine ⟨hdistinct, List.pairwise_singleton _ _, fun a ha b hb heq => ?_⟩
    rw [List.mem_singleton.mp hb] at heq
    -- one position has one ticker, and that of a kept plan is not to do any more
    have hsame := input.plans_distinct _ _ _ _ (hkept a ha).1 hplan heq
    exact (h.2.2.1 a ha).2 (by rw [hsame]; exact List.mem_cons_self)

theorem Guarded.placeNext {w w' : World} {refs rest : List String} {ticker : String}
    {kept : List BrokerStopThresholdPlan} {plan : BrokerStopThresholdPlan} {answer : Answer}
    (h : Guarded w) (hphase : w.phase = .placing refs (ticker :: rest) kept)
    (hplan : planFor w.input ticker = some plan) (hfresh : plan.threshold.positionRef ∉ refs)
    (hhonest : w.Honest (.next answer)) (hrec : w.Recorded (.next answer))
    (hok : Execution.placeNext { w with phase := .placing refs rest kept } plan answer = .ok w') :
    Guarded w' := by
  have hp := h.phase
  rw [hphase] at hp
  have hgot := planFor_spec hplan
  unfold Execution.placeNext at hok
  split at hok
  · cases hok
    exact ⟨h.tied, h.single, hp.tail⟩
  rename_i key hkey
  obtain ⟨g, hplace, hret⟩ := Fallible.bind_eq_ok.mp hok
  cases hret
  have hdead : ∀ k, ¬ LiveKey w.graph k plan.threshold.positionRef := fun k hlive =>
    hfresh (hp.2.1 ticker List.mem_cons_self plan hgot k hlive)
  have hclear : (submitStop w.book plan key answer).2.status ≠ .rejected →
      Unclouded w.graph plan key (submitStop w.book plan key answer).2 := fun hstatus => by
    refine hrec (plan, key, _) (Option.mem_def.mpr ?_)
    have hkey' : nextBrokerStopOrderKey w.graph plan.threshold.positionRef
        plan.threshold.ticker = some key := hkey
    simp only [World.accepted, hphase, hplan, if_neg hfresh, hkey', if_neg hstatus]
  have hkept := Kept.placed h.tied h.single (nextBrokerStopOrderKey_free hkey) hdead
    (fun orderId status heq => by subst heq; exact hhonest) hclear hplace
  obtain ⟨hnodup, hrefs, hkeep, hdistinct⟩ := hp.tail
  refine ⟨hkept.tied, hkept.single, hnodup, fun t ht p hpt k hlive => ?_, hkeep, hdistinct⟩
  refine hrefs t ht p hpt k (hkept.live (fun heq => ?_) hlive)
  have hsame := w.input.plans_distinct _ _ _ _ hpt hgot heq
  exact (List.nodup_cons.mp hp.1).1 (hsame ▸ ht)

theorem Guarded.replaceNext {w w' : World} {plan : BrokerStopThresholdPlan} {stop : BrokerStopOrder}
    {rest : List (BrokerStopThresholdPlan × BrokerStopOrder)} {statuses : List (String × String)}
    {answer : Answer} (h : Guarded w)
    (hphase : w.phase = .realigning ((plan, stop) :: rest) statuses)
    (hmove : replaceable w statuses plan stop = true)
    (hhonest : w.Honest (.next answer)) (hrec : w.Recorded (.next answer))
    (hok : Execution.replaceNext { w with phase := .realigning rest statuses } plan stop answer =
      .ok w') : Guarded w' := by
  have hp := h.phase
  rw [hphase] at hp
  obtain ⟨hdistinct, hstops⟩ := hp
  obtain ⟨hhead, hrest⟩ := List.pairwise_cons.mp hdistinct
  obtain ⟨hknown, honly⟩ := hstops (plan, stop) List.mem_cons_self
  unfold Execution.replaceNext at hok
  simp only at hok
  split at hok
  · cases hok
    exact ⟨h.tied, h.single, hrest, fun p hmem => hstops p (List.mem_cons_of_mem _ hmem)⟩
  rename_i book fill hmoved
  obtain ⟨g, hreplace, hret⟩ := Fallible.bind_eq_ok.mp hok
  cases hret
  have haccepted : w.accepted answer = some (plan, freeBrokerStopOrderKey w.graph
      plan.threshold.positionRef plan.threshold.ticker, fill) := by
    simp only [World.accepted, hphase, hmove, if_true, hmoved, Option.map_some]
  have hclear := hrec _ haccepted
  have hkept := Kept.replaced h.tied h.single hknown honly
    (freeBrokerStopOrderKey_free _ _ _)
    (fun orderId status heq => by subst heq; exact hhonest) hmoved hclear hreplace
  refine ⟨hkept.tied, hkept.single, hrest, fun p hmem => ?_⟩
  obtain ⟨hpknown, hponly⟩ := hstops p (List.mem_cons_of_mem _ hmem)
  exact ⟨hkept.known hpknown, fun key hlive =>
    hponly key (hkept.live (hhead p hmem).symm hlive)⟩

theorem mismatch_spec {g : PipelineGraph} {plan : BrokerStopThresholdPlan}
    {p : BrokerStopThresholdPlan × BrokerStopOrder} (h : mismatch g plan = some p) :
    p.1 = plan ∧ p.2 ∈ activeBrokerStopOrders g ∧ p.2.positionRef = plan.threshold.positionRef := by
  unfold mismatch at h
  simp only at h
  split at h
  · cases h
  · rename_i stop hfind
    split at h
    · cases h
      exact ⟨rfl, List.mem_reverse.mp (List.mem_of_find?_eq_some hfind), by
        simpa using List.find?_some hfind⟩
    · cases h

/-- The targets of a realignment are the live stops of the kept plans. -/
theorem PhaseOk.mismatched {g : PipelineGraph} {book : List StopOrder} {input : PassInput}
    {refs : List String} {kept : List BrokerStopThresholdPlan} (htied : Tied g book)
    (hsingle : Single g) (h : PhaseOk g book input (.placing refs [] kept))
    (statuses : List (String × String)) :
    PhaseOk g book input (.realigning (Execution.mismatched g kept) statuses) := by
  obtain ⟨-, -, -, hdistinct⟩ := h
  refine ⟨List.Pairwise.filterMap _ (fun a a' hne b hb b' hb' => ?_) hdistinct, fun p hp => ?_⟩
  · rwa [(mismatch_spec hb).1, (mismatch_spec hb').1]
  · obtain ⟨plan, -, hplan⟩ := List.mem_filterMap.mp hp
    obtain ⟨rfl, hactive, href⟩ := mismatch_spec hplan
    obtain ⟨hknown, hlive⟩ := htied.of_active hactive
    refine ⟨hknown, fun key hkey => hsingle key p.2.key _ hkey ?_⟩
    rw [← href]
    exact hlive

/-- The pass goes on by one item. -/
theorem Guarded.next {w w' : World} {answer : Answer} (h : Guarded w)
    (hhonest : w.Honest (.next answer)) (hrec : w.Recorded (.next answer))
    (hok : w.next answer = .ok w') : Guarded w' := by
  have hp := h.phase
  unfold World.next at hok
  split at hok
  · cases hok
    exact h
  · -- the exits begin
    cases hok
    exact ⟨h.tied, h.single, fun order ho =>
      (h.tied.of_active (List.mem_filter.mp ho).1).1⟩
  · rename_i order rest hphase
    rw [hphase] at hp
    refine h.cancelNext ?_ (hp order List.mem_cons_self) hok
    exact fun o ho => hp o (List.mem_cons_of_mem _ ho)
  · -- the placements begin
    split at hok
    · cases hok
      refine ⟨h.tied, h.single, ?_, fun t _ plan _ key hlive =>
        h.tied.mem_activeRefs hlive, by simp,
        List.Pairwise.nil⟩
      exact (List.perm_insertionSort _ _).nodup_iff.mpr w.input.quantities.nodup
    · cases hok
      exact ⟨h.tied, h.single, trivial⟩
  · rename_i order rest hphase
    rw [hphase] at hp
    refine h.cancelNext ?_ (hp order List.mem_cons_self) hok
    exact fun o ho => hp o (List.mem_cons_of_mem _ ho)
  · rename_i refs ticker rest kept hphase
    rw [hphase] at hp
    split at hok
    · cases hok
      exact ⟨h.tied, h.single, hp.tail⟩
    · rename_i plan hplan
      split at hok
      · cases hok
        exact ⟨h.tied, h.single, hp.protect (planFor_spec hplan)⟩
      · rename_i hfresh
        exact h.placeNext hphase hplan hfresh hhonest hrec hok
  · rename_i refs kept hphase
    rw [hphase] at hp
    split at hok
    · cases hok
      exact ⟨h.tied, h.single, trivial⟩
    · cases hok
      exact ⟨h.tied, h.single, hp.mismatched h.tied h.single _⟩
    · cases hok
      exact ⟨h.tied, h.single, trivial⟩
  · rename_i plan stop rest statuses hphase
    split at hok
    · rename_i hmove
      exact h.replaceNext hphase hmove hhonest hrec hok
    · cases hok
      rw [hphase] at hp
      obtain ⟨hdistinct, hstops⟩ := hp
      exact ⟨h.tied, h.single, (List.pairwise_cons.mp hdistinct).2,
        fun p hmem => hstops p (List.mem_cons_of_mem _ hmem)⟩
  · cases hok
    exact ⟨h.tied, h.single, trivial⟩
  · split at hok
    · rename_i g hwrite
      cases hok
      have hstep := h.tied.quiet (writeFill_ok hwrite).1.quiet
      exact ⟨hstep.1, hstep.2.single h.single, trivial⟩
    · cases hok
      exact ⟨h.tied, h.single, trivial⟩
  · cases hok
    exact ⟨h.tied, h.single, trivial⟩

/-- Every step keeps the book and the facts tied, one live fact for each position, and what the pass
in progress relies on. -/
theorem Guarded.step {w w' : World} {event : StopEvent} (h : Guarded w) (hhonest : w.Honest event)
    (hrec : w.Recorded event) (hok : w.step event = .ok w') : Guarded w' := by
  cases event with
  | begin input =>
    simp only [World.step] at hok
    split at hok
    · obtain ⟨g, hrefresh, hret⟩ := Fallible.bind_eq_ok.mp hok
      cases hret
      obtain ⟨htied, hev⟩ := h.tied.refresh hhonest (refreshPendingFills_ok hrefresh)
      exact ⟨htied, hev.single h.single, fun order ho =>
        (htied.of_active (List.mem_filter.mp ho).1).1⟩
    · cases hok
  | next answer => exact h.next hhonest hrec hok
  | broker key status =>
    cases hok
    exact h.quiet ⟨h.tied.setStatus _ status, fun order hknown => hknown.setStatus _ status,
      fun _ _ hlive => .inl hlive⟩
  | merge label key props =>
    obtain ⟨g, hmerge, hret⟩ := Fallible.bind_eq_ok.mp hok
    cases hret
    exact h.quiet (h.tied.quiet (mergeElsewhere_quiet hmerge))
  | link parent child edgeType =>
    obtain ⟨g, hlink, hret⟩ := Fallible.bind_eq_ok.mp hok
    cases hret
    exact h.quiet (h.tied.quiet (linkElsewhere_quiet hlink))

/-! ### Runs -/

/-- Nothing has been written or submitted yet. -/
def World.Start (w : World) : Prop := w.graph = Graph.empty ∧ w.book = [] ∧ w.phase = .idle

def World.openOrders (w : World) (ref : String) : List StopOrder :=
  w.book.filter fun o => o.isOpen && decide (o.positionRef = ref)

def World.liveFacts (w : World) (ref : String) : List PipelineNode :=
  (w.graph.listNodes brokerStopOrderLabel).filter fun n =>
    isLiveBrokerStopFact w.graph n && decide (n.get "position_ref" = .str ref)

/-- At most one open order and at most one live fact for each position. -/
def World.OneStop (w : World) : Prop :=
  ∀ ref, (w.openOrders ref).length ≤ 1 ∧ (w.liveFacts ref).length ≤ 1

theorem Guarded.oneStop {w : World} (h : Guarded w) : w.OneStop := by
  refine fun ref => ⟨length_le_one ?_ fun a ha b hb => ?_, length_le_one ?_ fun a ha b hb => ?_⟩
  · exact (List.Nodup.of_map _ h.tied.keys).filter _
  · simp only [World.openOrders, List.mem_filter, Bool.and_eq_true, decide_eq_true_eq] at ha hb
    obtain ⟨ha, haopen, rfl⟩ := ha
    obtain ⟨hb, hbopen, hbref⟩ := hb
    have hlive := h.tied.live b hb hbopen
    rw [hbref] at hlive
    exact eq_of_key h.tied ha hb (h.single _ _ _ (h.tied.live a ha haopen) hlive)
  · exact (List.Nodup.of_map Node.key (Graph.nodup_listNodes_keys _ _)).filter _
  · simp only [World.liveFacts, List.mem_filter, Graph.mem_listNodes, Bool.and_eq_true,
      decide_eq_true_eq] at ha hb
    have hlive : ∀ n : PipelineNode, (n.label = brokerStopOrderLabel ∧
        w.graph.getNode brokerStopOrderLabel n.key = some n) ∧
        isLiveBrokerStopFact w.graph n = true ∧ n.get "position_ref" = .str ref →
        LiveKey w.graph n.key ref := by
      rintro n ⟨⟨-, hn⟩, hfact, href⟩
      obtain ⟨o, -, -, hof⟩ := h.tied.facts n.key n hn
      have hposition := hof.positionRef
      rw [Node.get, Props.get, hposition] at href
      cases href
      exact (h.tied.liveKey_iff hn hposition).mp hfact
    have hkey := h.single _ _ _ (hlive a ha) (hlive b hb)
    have hn := ha.1.2
    rw [hkey, hb.1.2] at hn
    exact (Option.some.inj hn).symm

/-- In every run whose accepted stops stand under unclouded keys, no state has two open orders or
two live facts for one position. -/
theorem one_stop_each {w : World}
    (h : Reach World.step (fun w event => w.Honest event ∧ w.Recorded event) World.Start w) :
    w.OneStop := by
  refine Guarded.oneStop (h.invariant (P := Guarded) (fun s hs => ?_) fun _ _ _ hP hallowed hok =>
    hP.step hallowed.1 hallowed.2 hok)
  obtain ⟨hg, hbook, hphase⟩ := hs
  refine ⟨⟨by simp [hbook], by simp [hbook], fun key stop hn => ?_, by simp [hbook],
    by simp [hbook]⟩, fun k k' ref hlive => ?_, by rw [hphase]; trivial⟩
  · rw [hg] at hn; cases hn
  · obtain ⟨stop, -, hn, -⟩ := hlive
    rw [hg] at hn; cases hn

theorem acmePlans_get? {t : String} {plan : BrokerStopThresholdPlan}
    (h : (Dict.ofList [("ACME", acmePlan)]).get? t = some plan) : t = "ACME" ∧ plan = acmePlan := by
  have hmem : (t, plan) ∈ [("ACME", acmePlan)] := Dict.mem_entries_iff.mpr h
  simpa using hmem

/-- A pass over a book that holds ten shares of one position. -/
def acmePass (reports : List BrokerFill) (sold : List String) (now : Timestamp) : PassInput where
  now := now
  reports := reports
  activeRefs := ["p1"]
  sold := sold
  fresh := true
  quantities := .ofList [("ACME", 10)]
  plans := .ofList [("ACME", acmePlan)]
  errors := []
  marketValues := .ofList [("ACME", 100000)]
  fills := []
  plans_named := fun t plan h => by rw [(acmePlans_get? h).1, (acmePlans_get? h).2]; rfl
  plans_distinct := fun t t' plan plan' h h' _ => by
    rw [(acmePlans_get? h).1, (acmePlans_get? h').1]

def acmeWorld : World := ⟨Graph.empty, [], acmePass [] [] firstStamp, .idle⟩

/-- The steps of a pass over one held position, with the broker's answer to its stop call. -/
def acmeSteps (reports : List BrokerFill) (now : Timestamp) (answer : Answer) : List StopEvent :=
  [.begin (acmePass reports [] now), .next .refuse, .next .refuse, .next answer, .next .refuse,
    .next .refuse]

theorem one_stop_each_acme : ∃ w : World, (w.openOrders "p1").length = 1 ∧ w.OneStop := by
  have htest : Fallible.check (fun w => decide ((w.openOrders "p1").length = 1))
      ((acmeSteps [] firstStamp (.accept "order-1" .pending)).foldlM (fun w event =>
        if w.Honest event ∧ w.Recorded event then w.step event
        else .error (.validation "refused")) acmeWorld) = true := by decide +kernel
  obtain ⟨w, hrun, hopen⟩ := Fallible.check_eq_true.mp htest
  exact ⟨w, of_decide_eq_true hopen, one_stop_each (.of_checked (.start ⟨rfl, rfl, rfl⟩) hrun)⟩

/-- A stop is refused, then accepted under the same key and cancelled for an exit; once a refresh
has read that, the next stop lands on the ended Fill's key, and the pass after it places one more.
-/
def retriedStops : List StopEvent :=
  acmeSteps [] firstStamp .refuse ++
  acmeSteps [] secondStamp (.accept "order-1" .pending) ++
  [.begin (acmePass [] ["ACME"] ⟨"t3", by decide⟩), .next .refuse,
    .next (.accept "cancelled" .rejected), .next .refuse, .next .refuse, .next .refuse,
    .next .refuse] ++
  acmeSteps [acmeReply "stop:p1:ACME" "order-1" .rejected] ⟨"t4", by decide⟩
    (.accept "order-2" .pending) ++
  acmeSteps [] ⟨"t5", by decide⟩ (.accept "order-3" .pending)

theorem two_stops_open : ¬ ∀ w, Reach World.step World.Honest World.Start w → w.OneStop := by
  intro hall
  have htest : Fallible.check (fun w => decide ((w.openOrders "p1").length = 2))
      (retriedStops.foldlM (fun w event => if w.Honest event then w.step event
        else .error (.validation "refused")) acmeWorld) = true := by decide +kernel
  obtain ⟨w, hrun, hopen⟩ := Fallible.check_eq_true.mp htest
  have hone := (hall w (.of_checked (.start ⟨rfl, rfl, rfl⟩) hrun) "p1").1
  rw [of_decide_eq_true hopen] at hone
  exact absurd hone (by decide)

end TradingAgents.Execution
