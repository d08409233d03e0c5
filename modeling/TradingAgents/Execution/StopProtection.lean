import TradingAgents.Execution.StopPass

/-! One open stop for each position: what ties the broker's book to the stop facts, and that every
step of a pass, every event at the broker and every write of another agent keeps it, as long as each
accepted stop is recorded under an unclouded key. -/

namespace TradingAgents.Execution

open Kernel ProofKit BrokerLifecycle BrokerStops

/-- The Fill under a stop's key is that of its order, or one that no refresh ends. -/
def Sees (fill : PipelineNode) (o : StopOrder) : Prop :=
  (fill.props.get? "broker_idempotency_key" = some (.str o.key) ∧
      fill.props.get? "broker_order_id" = some (.str o.orderId)) ∨
    (Inert fill ∧ isTerminalFillBrokerStatus (fill.get "broker_status") = false)

/-- The stop fact of an order of the book. -/
structure FactOf (g : PipelineGraph) (stop : PipelineNode) (o : StopOrder) : Prop where
  orderId : stop.props.get? "broker_order_id" = some (.str o.orderId)
  positionRef : stop.props.get? "position_ref" = some (.str o.positionRef)
  fill : ∃ fill, g.getNode fillLabel o.key = some fill ∧ Sees fill o

/-- The stop fact under `key` protects the position `ref`. -/
def LiveKey (g : PipelineGraph) (key ref : String) : Prop :=
  ∃ stop fill, g.getNode brokerStopOrderLabel key = some stop ∧
    stop.props.get? "position_ref" = some (.str ref) ∧ isEnded stop = false ∧
    g.getNode fillLabel key = some fill ∧
    isTerminalFillBrokerStatus (fill.get "broker_status") = false

/-- The book and the facts agree: every fact is that of one order, every order that was accepted has
its fact, and that of an open order is live. -/
structure Tied (g : PipelineGraph) (book : List StopOrder) : Prop where
  ids : (book.map StopOrder.orderId).Nodup
  keys : (book.map StopOrder.key).Nodup
  facts : ∀ key stop, g.getNode brokerStopOrderLabel key = some stop →
    ∃ o ∈ book, o.key = key ∧ FactOf g stop o
  filed : ∀ o ∈ book, o.status ≠ .rejected → (g.getNode brokerStopOrderLabel o.key).isSome
  live : ∀ o ∈ book, o.isOpen = true → LiveKey g o.key o.positionRef

/-- No position has two live facts. -/
def Single (g : PipelineGraph) : Prop := ∀ k k' ref, LiveKey g k ref → LiveKey g k' ref → k = k'

/-- A stop as a reader took it from its fact: it stands, and its order is in the book. -/
def Known (g : PipelineGraph) (book : List StopOrder) (order : BrokerStopOrder) : Prop :=
  (g.getNode brokerStopOrderLabel order.key).isSome ∧
    ∃ o ∈ book, o.key = order.key ∧ o.orderId = order.brokerOrderId

/-- What a step leaves for the loops in progress: known stops stay known, and no key becomes live
but the one in `placed`, for its position. -/
structure Evolves (g : PipelineGraph) (book : List StopOrder) (g' : PipelineGraph)
    (book' : List StopOrder) (placed : Option (String × String)) : Prop where
  known : ∀ order, Known g book order → Known g' book' order
  live : ∀ key ref, LiveKey g' key ref → LiveKey g key ref ∨ placed = some (key, ref)

section

variable {g g' : PipelineGraph} {book book' : List StopOrder} {key : String}

theorem eq_of_key (h : Tied g book) {o o' : StopOrder} (ho : o ∈ book) (ho' : o' ∈ book)
    (hk : o.key = o'.key) : o = o' :=
  List.inj_on_of_nodup_map h.keys ho ho' hk

/-- A stop fact with a Fill under its key is live, as the liveness contract counts it, when its key
is. -/
theorem isLive_iff_liveKey {stop fill : PipelineNode} {ref : String}
    (hstop : g.getNode brokerStopOrderLabel stop.key = some stop)
    (href : stop.props.get? "position_ref" = some (.str ref))
    (hfill : g.getNode fillLabel stop.key = some fill) :
    isLiveBrokerStopFact g stop = true ↔ LiveKey g stop.key ref := by
  have hsib : siblingFillForBrokerStop g stop = some fill := by
    rw [siblingFillForBrokerStop, show g.getNode "Fill" stop.key = some fill from hfill]
  unfold isLiveBrokerStopFact
  rw [hsib]
  constructor
  · intro hlive
    refine ⟨stop, fill, hstop, href, ?_, hfill, ?_⟩
    · by_contra hended
      rw [if_pos (Bool.eq_true_of_not_eq_false hended)] at hlive
      cases hlive
    · split at hlive
      · cases hlive
      · simpa using hlive
  · rintro ⟨stop', fill', hstop', -, hended, hfill', hterminal⟩
    cases hstop.symm.trans hstop'
    cases hfill.symm.trans hfill'
    rw [if_neg (by rw [hended]; exact Bool.false_ne_true)]
    simp [hterminal]

/-- A live stop fact, as the liveness contract counts it, is live under its key. -/
theorem Tied.liveKey_iff (h : Tied g book) {stop : PipelineNode} {ref : String}
    (hstop : g.getNode brokerStopOrderLabel stop.key = some stop)
    (href : stop.props.get? "position_ref" = some (.str ref)) :
    isLiveBrokerStopFact g stop = true ↔ LiveKey g stop.key ref := by
  obtain ⟨o, -, hk, hfact⟩ := h.facts stop.key stop hstop
  obtain ⟨fill, hfill, -⟩ := hfact.fill
  rw [hk] at hfill
  exact isLive_iff_liveKey hstop href hfill

/-! ### The graph writes -/

/-- Every Fill keeps its properties and its broker status. -/
def FillsKept (g g' : PipelineGraph) : Prop :=
  ∀ key node, g.getNode fillLabel key = some node →
    ∃ after, g'.getNode fillLabel key = some after ∧ Graph.NodeGrows node after ∧
      after.props.get? "broker_status" = node.props.get? "broker_status"

/-- Writes that leave the stop facts as they are and only grow the Fills. -/
structure Quiet (g g' : PipelineGraph) : Prop where
  stops : ∀ key, g'.getNode brokerStopOrderLabel key = g.getNode brokerStopOrderLabel key
  fills : FillsKept g g'

theorem FillsGrow.quiet (h : FillsGrow g g') : Quiet g g' :=
  ⟨fun key => h.others brokerStopOrderLabel key (by decide), h.fills⟩

theorem Quiet.of_same (h : ∀ label key, label = fillLabel ∨ label = brokerStopOrderLabel →
    g'.getNode label key = g.getNode label key) : Quiet g g' :=
  ⟨fun key => h _ key (.inr rfl), fun key node hn =>
    ⟨node, (h _ key (.inl rfl)).trans hn, .refl node, rfl⟩⟩

theorem FillsKept.sees (h : FillsKept g g') {key : String} {fill : PipelineNode} {o : StopOrder}
    (hfill : g.getNode fillLabel key = some fill) (hsees : Sees fill o) :
    ∃ after, g'.getNode fillLabel key = some after ∧ Sees after o := by
  obtain ⟨after, hafter, hgrows, hstatus⟩ := h key fill hfill
  refine ⟨after, hafter, ?_⟩
  rcases hsees with ⟨hkey, hid⟩ | ⟨⟨s, hs, hne⟩, hterminal⟩
  · exact .inl ⟨hgrows.get_str (by decide) hkey, hgrows.get_str (by decide) hid⟩
  · refine .inr ⟨⟨s, hgrows.get_str (by decide) hs, hne⟩, ?_⟩
    rwa [Node.get, Props.get, hstatus]

/-- A live key stays live under writes that keep its fact and let the Fills grow. -/
theorem LiveKey.grow {key ref : String} (h : LiveKey g key ref)
    (hstop : g'.getNode brokerStopOrderLabel key = g.getNode brokerStopOrderLabel key)
    (hfills : FillsKept g g') : LiveKey g' key ref := by
  obtain ⟨stop, fill, hs, href, hended, hfill, hterminal⟩ := h
  obtain ⟨after, hafter, -, hstatus⟩ := hfills key fill hfill
  exact ⟨stop, after, hstop.trans hs, href, hended, hafter, by rwa [Node.get, Props.get, hstatus]⟩

/-- A key that is live after such writes was live before them, if its fact had a Fill under it. -/
theorem LiveKey.shrink_filed {key ref : String} (hlive : LiveKey g' key ref)
    (hstop : g'.getNode brokerStopOrderLabel key = g.getNode brokerStopOrderLabel key)
    (hfills : FillsKept g g')
    (hfiled : ∀ stop, g.getNode brokerStopOrderLabel key = some stop →
      (g.getNode fillLabel key).isSome) : LiveKey g key ref := by
  obtain ⟨stop, after, hs, href, hended, hafter, hterminal⟩ := hlive
  rw [hstop] at hs
  obtain ⟨fill, hfill⟩ := Option.isSome_iff_exists.mp (hfiled stop hs)
  obtain ⟨after', hafter', -, hstatus⟩ := hfills key fill hfill
  cases hafter.symm.trans hafter'
  exact ⟨stop, fill, hs, href, hended, hfill, by rwa [Node.get, Props.get, ← hstatus]⟩

/-- A key that is live after such writes was live before them. -/
theorem LiveKey.shrink (h : Tied g book) {key ref : String} (hlive : LiveKey g' key ref)
    (hstop : g'.getNode brokerStopOrderLabel key = g.getNode brokerStopOrderLabel key)
    (hfills : FillsKept g g') : LiveKey g key ref := by
  refine hlive.shrink_filed hstop hfills fun stop hs => ?_
  obtain ⟨o, -, hk, hfact⟩ := h.facts key stop hs
  obtain ⟨fill, hfill, -⟩ := hfact.fill
  rw [← hk, hfill]
  rfl

/-- Writes that leave the stop facts alone and only grow the Fills change nothing that counts. -/
theorem Tied.quiet (h : Tied g book) (hquiet : Quiet g g') :
    Tied g' book ∧ Evolves g book g' book none := by
  obtain ⟨hstop, hfills⟩ := hquiet
  have hshrink : ∀ key ref, LiveKey g' key ref → LiveKey g key ref := fun key ref hlive =>
    hlive.shrink h (hstop key) hfills
  refine ⟨⟨h.ids, h.keys, fun key stop hs => ?_, fun o ho hne => ?_, fun o ho hopen => ?_⟩,
    ⟨fun order hknown => ⟨by rw [hstop]; exact hknown.1, hknown.2⟩,
      fun key ref hlive => .inl (hshrink key ref hlive)⟩⟩
  · rw [hstop] at hs
    obtain ⟨o, ho, hk, hfact⟩ := h.facts key stop hs
    obtain ⟨fill, hfill, hsees⟩ := hfact.fill
    exact ⟨o, ho, hk, hfact.orderId, hfact.positionRef, hfills.sees hfill hsees⟩
  · rw [hstop]; exact h.filed o ho hne
  · exact (h.live o ho hopen).grow (hstop o.key) hfills

theorem Evolves.single (h : Evolves g book g' book' none) (hs : Single g) : Single g' := by
  intro k k' ref hk hk'
  have hold : ∀ key, LiveKey g' key ref → LiveKey g key ref := fun key hlive =>
    (h.live key ref hlive).resolve_right (by simp)
  exact hs k k' ref (hold k hk) (hold k' hk')

theorem reportFor_spec {reports : List BrokerFill} {node : PipelineNode} {r : BrokerFill}
    (h : reportFor reports node = some r) : r ∈ reports ∧
      (r.idempotencyKey = brokerIdempotencyKey node ∨
        node.get "broker_order_id" = .str r.brokerOrderId) := by
  unfold reportFor at h
  simp only at h
  split at h
  · rename_i f hf
    cases h
    exact ⟨List.mem_reverse.mp (List.mem_of_find?_eq_some hf),
      .inl (by simpa using List.find?_some hf)⟩
  · split at h
    · rename_i orderId hid
      have hr := List.find?_some h
      simp only [decide_eq_true_eq] at hr
      exact ⟨List.mem_reverse.mp (List.mem_of_find?_eq_some h), .inr (by rw [hid, hr.1])⟩
    · cases h

/-- The client key of a Fill that stands under the key it was submitted with. -/
theorem brokerIdempotencyKey_own {fill : PipelineNode}
    (h : fill.props.get? "broker_idempotency_key" = some (.str fill.key)) :
    brokerIdempotencyKey fill = fill.key := by
  unfold brokerIdempotencyKey
  rw [show fill.get "broker_idempotency_key" = .str fill.key by simp [Node.get, Props.get, h]]
  by_cases hk : fill.key = ""
  · simp [hk, brokerIdempotencyKey.untilSeparator]
  · simp [hk]

theorem awaitsBroker_inert {fill : PipelineNode} (h : Inert fill) : awaitsBroker fill = false := by
  obtain ⟨s, hs, hne⟩ := h
  have hget : fill.get "status" = .str s := by simp [Node.get, Props.get, hs]
  simp [awaitsBroker, hget, Value.pyEq_str, FillStatus.value, hne]

/-- A refresh from honest reports ends no fact whose order is open, and revives none. -/
theorem Tied.refresh (h : Tied g book) {reports : List BrokerFill}
    (hhonest : ∀ r ∈ reports, ∀ o ∈ book,
      r.idempotencyKey = o.key ∨ r.brokerOrderId = o.orderId → r.status = o.status)
    (href : Refreshed reports g g') : Tied g' book ∧ Evolves g book g' book none := by
  have hstop := fun key => href.others brokerStopOrderLabel key (by decide)
  have hshrink : ∀ key ref, LiveKey g' key ref → LiveKey g key ref := by
    rintro key ref ⟨stop, after, hs, hposition, hended, hafter, hterminal⟩
    rw [hstop] at hs
    obtain ⟨o, -, hk, hfact⟩ := h.facts key stop hs
    obtain ⟨fill, hfill, -⟩ := hfact.fill
    rw [hk] at hfill
    obtain ⟨after', hafter', hre⟩ := href.fills key fill hfill
    cases hafter.symm.trans hafter'
    refine ⟨stop, fill, hs, hposition, hended, hfill, ?_⟩
    rcases hre.status with hsame | ⟨hawaits, -⟩
    · rwa [Node.get, Props.get, ← hsame]
    · simp only [awaitsBroker, Bool.and_eq_true, Bool.not_eq_true'] at hawaits
      exact hawaits.2
  refine ⟨⟨h.ids, h.keys, fun key stop hs => ?_, fun o ho hne => ?_, fun o ho hopen => ?_⟩, ⟨
    fun order hknown => ⟨by rw [hstop]; exact hknown.1, hknown.2⟩,
    fun key ref hlive => .inl (hshrink key ref hlive)⟩⟩
  · rw [hstop] at hs
    obtain ⟨o, ho, hk, hfact⟩ := h.facts key stop hs
    obtain ⟨fill, hfill, hsees⟩ := hfact.fill
    obtain ⟨after, hafter, hre⟩ := href.fills _ fill hfill
    refine ⟨o, ho, hk, hfact.orderId, hfact.positionRef, after, hafter, ?_⟩
    rcases hsees with ⟨hkey, hid⟩ | ⟨hinert, hterminal⟩
    · exact .inl ⟨hre.grows.get_str (by decide) hkey, hre.grows.get_str (by decide) hid⟩
    · rcases hre.status with hsame | ⟨hawaits, -⟩
      · obtain ⟨s, hs', hne⟩ := hinert
        exact .inr ⟨⟨s, hre.grows.get_str (by decide) hs', hne⟩, by
          rwa [Node.get, Props.get, hsame]⟩
      · rw [awaitsBroker_inert hinert] at hawaits; cases hawaits
  · rw [hstop]; exact h.filed o ho hne
  · obtain ⟨stop, fill, hs, hposition, hended, hfill, hterminal⟩ := h.live o ho hopen
    obtain ⟨after, hafter, hre⟩ := href.fills _ fill hfill
    refine ⟨stop, after, (hstop o.key).trans hs, hposition, hended, hafter, ?_⟩
    rcases hre.status with hsame | ⟨hawaits, r, hr, hpending, hstatus⟩
    · rwa [Node.get, Props.get, hsame]
    · obtain ⟨o', ho', hk', hfact⟩ := h.facts _ stop hs
      cases eq_of_key h ho' ho hk'
      obtain ⟨fill', hfill', hsees⟩ := hfact.fill
      cases hfill.symm.trans hfill'
      rcases hsees with ⟨hkey, hid⟩ | ⟨hinert, -⟩
      · obtain ⟨hmem, hmatch⟩ := reportFor_spec hr
        have hfk := (Graph.getNode_nodeKey hfill).2
        have hsame : r.status = o.status := by
          refine hhonest r hmem o ho (hmatch.imp (fun hkr => ?_) fun hidr => ?_)
          · rw [hkr, brokerIdempotencyKey_own (by rw [hfk]; exact hkey), hfk]
          · rw [Node.get, Props.get, hid] at hidr
            exact (Value.str.inj hidr).symm
        have hstill : r.status = .partially := by
          simp only [StopOrder.isOpen, decide_eq_true_eq, ← hsame] at hopen
          exact hopen.resolve_left hpending
        rw [Node.get, Props.get, hstatus, hstill]
        decide
      · rw [awaitsBroker_inert hinert] at hawaits; cases hawaits

/-! ### The book -/

theorem mem_setStatus {p : StopOrder → Bool} {status : FillStatus} {o' : StopOrder}
    (h : o' ∈ setStatus book p status) : ∃ o ∈ book, o'.key = o.key ∧ o'.orderId = o.orderId ∧
      o'.positionRef = o.positionRef ∧ ((o' = o ∧ (o.isOpen = true → p o = false)) ∨
        (o.isOpen = true ∧ p o = true ∧ o'.status = status)) := by
  obtain ⟨o, ho, rfl⟩ := List.mem_map.mp h
  refine ⟨o, ho, ?_⟩
  by_cases hsel : o.isOpen = true ∧ p o = true
  · simp [hsel.1, hsel.2]
  · have hkeep : (o.isOpen && p o) = false := by
      rw [← Bool.not_eq_true, Bool.and_eq_true]; exact hsel
    rw [hkeep]
    exact ⟨rfl, rfl, rfl, .inl ⟨rfl, fun hopen => by
      rw [← Bool.not_eq_true]; exact fun hp => hsel ⟨hopen, hp⟩⟩⟩

theorem map_setStatus {β : Type} (p : StopOrder → Bool) (status : FillStatus) (f : StopOrder → β)
    (hf : ∀ o s, f { o with status := s } = f o) : (setStatus book p status).map f =
      book.map f := by
  rw [setStatus, List.map_map]
  refine List.map_congr_left fun o _ => ?_
  simp only [Function.comp_apply]
  split
  · exact hf o status
  · rfl

theorem FactOf.congr {stop : PipelineNode} {o o' : StopOrder} (h : FactOf g stop o)
    (hk : o'.key = o.key) (hid : o'.orderId = o.orderId) (href : o'.positionRef = o.positionRef) :
    FactOf g stop o' := by
  obtain ⟨hoid, hpos, fill, hfill, hsees⟩ := h
  exact ⟨by rw [hid]; exact hoid, by rw [href]; exact hpos, fill, by rw [hk]; exact hfill, by
    rw [Sees, hk, hid]; exact hsees⟩

theorem exists_setStatus (p : StopOrder → Bool) (status : FillStatus) {o : StopOrder}
    (ho : o ∈ book) : ∃ o' ∈ setStatus book p status, o'.key = o.key ∧ o'.orderId = o.orderId ∧
      o'.positionRef = o.positionRef := by
  refine ⟨_, List.mem_map_of_mem ho, ?_⟩
  split <;> exact ⟨rfl, rfl, rfl⟩

theorem Known.setStatus {order : BrokerStopOrder} (h : Known g book order) (p : StopOrder → Bool)
    (status : FillStatus) : Known g (Execution.setStatus book p status) order := by
  obtain ⟨hstands, o, ho, hk, hid⟩ := h
  obtain ⟨o', ho', hk', hid', -⟩ := exists_setStatus p status ho
  exact ⟨hstands, o', ho', hk'.trans hk, hid'.trans hid⟩

/-- Whatever happens to open orders at the broker keeps the book tied to the facts. -/
theorem Tied.setStatus (h : Tied g book) (p : StopOrder → Bool) (status : FillStatus) :
    Tied g (Execution.setStatus book p status) := by
  refine ⟨by rw [map_setStatus p status _ fun _ _ => rfl]; exact h.ids,
    by rw [map_setStatus p status _ fun _ _ => rfl]; exact h.keys, fun key stop hs => ?_,
    fun o' ho' hne => ?_, fun o' ho' hopen' => ?_⟩
  · obtain ⟨o, ho, hk, hfact⟩ := h.facts key stop hs
    obtain ⟨o', ho', hk', hid', hposition⟩ := exists_setStatus p status ho
    exact ⟨o', ho', hk'.trans hk, hfact.congr hk' hid' hposition⟩
  · obtain ⟨o, ho, hk, -, -, ⟨rfl, -⟩ | ⟨hopen, -, -⟩⟩ := mem_setStatus ho'
    · exact h.filed _ ho hne
    · rw [hk]
      obtain ⟨stop, -, hs, -⟩ := h.live o ho hopen
      rw [hs]; rfl
  · obtain ⟨o, ho, hk, -, hposition, ⟨rfl, -⟩ | ⟨hopen, -, -⟩⟩ := mem_setStatus ho'
    · exact h.live _ ho hopen'
    · rw [hk, hposition]; exact h.live o ho hopen

/-! ### Ended facts -/

/-- The fact under `key` is ended and nothing else changed. -/
structure EndedAt (g g' : PipelineGraph) (key : String) : Prop where
  others : ∀ label k, (label, k) ≠ (brokerStopOrderLabel, key) →
    g'.getNode label k = g.getNode label k
  stop : ∀ stop, g.getNode brokerStopOrderLabel key = some stop →
    ∃ after, g'.getNode brokerStopOrderLabel key = some after ∧ Graph.NodeGrows stop after ∧
      isEnded after = true

theorem mergeMarker_ended {key name : String} {t : Timestamp} {props : Props Document}
    {n : PipelineNode} (hname : name ∈ endedMarkers)
    (hprops : props.get? name = some (.str t.text))
    (h : g.mergeNode brokerStopOrderLabel key props = .ok (g', n)) : EndedAt g g' key := by
  have hget := Graph.mergeNode_get? h name
  have hgrows : ∀ stop, g.getNode brokerStopOrderLabel key = some stop → Graph.NodeGrows stop n :=
    fun stop hs => Graph.mergeNode_grows h hs
  obtain ⟨rfl, hl, hk, -⟩ := Graph.mergeNode_ok h
  refine ⟨fun label k hne => ?_, fun stop hs => ⟨n, ?_, hgrows stop hs, ?_⟩⟩
  · rw [Graph.getNode_put, if_neg]
    rintro ⟨rfl, rfl⟩
    exact hne (by rw [hl, hk])
  · rw [Graph.getNode_put, if_pos ⟨hl.symm, hk.symm⟩]
  · rw [hprops] at hget
    refine List.any_eq_true.mpr ⟨name, hname, ?_⟩
    have hstamp : n.get name = .str t.text := by
      rw [Node.get, Props.get, hget]; rfl
    simp [hstamp, truthyStr, t.nonempty]

theorem cancelStop_ended {order : BrokerStopOrder} {now : Timestamp}
    (h : cancelStop g order now = .ok g') : EndedAt g g' order.key := by
  obtain ⟨⟨g₁, n⟩, hm, hret⟩ := Fallible.bind_eq_ok.mp h
  cases hret
  exact mergeMarker_ended (t := now) (show "cancelled_at" ∈ endedMarkers by decide)
    (by simp [Dict.ofList]) (liftGraph_eq_ok.mp hm)

theorem markReplaced_ended {old : BrokerStopOrder} {key : String} {fill : BrokerFill}
    {now : Timestamp} (h : markReplaced g old key fill now = .ok g') : EndedAt g g' old.key := by
  obtain ⟨⟨g₁, n⟩, hm, hret⟩ := Fallible.bind_eq_ok.mp h
  cases hret
  exact mergeMarker_ended (t := now) (show "replaced_at" ∈ endedMarkers by decide)
    (by simp [Dict.ofList]) (liftGraph_eq_ok.mp hm)

theorem EndedAt.stops (h : EndedAt g g' key) {k : String} (hk : k ≠ key) :
    g'.getNode brokerStopOrderLabel k = g.getNode brokerStopOrderLabel k :=
  h.others _ _ fun heq => hk (Prod.mk.inj heq).2

theorem EndedAt.fills (h : EndedAt g g' key) (k : String) :
    g'.getNode fillLabel k = g.getNode fillLabel k :=
  h.others _ _ fun heq => absurd (Prod.mk.inj heq).1 (by decide)

theorem EndedAt.isSome_iff (h : EndedAt g g' key)
    (hstands : (g.getNode brokerStopOrderLabel key).isSome) (k : String) :
    (g'.getNode brokerStopOrderLabel k).isSome ↔ (g.getNode brokerStopOrderLabel k).isSome := by
  by_cases hk : k = key
  · obtain ⟨stop, hs⟩ := Option.isSome_iff_exists.mp hstands
    obtain ⟨after, hafter, -⟩ := h.stop stop hs
    rw [hk, hafter, hs]
    simp
  · rw [h.stops hk]

/-- After the marker the key is dead, and the other keys are live as they were. -/
theorem EndedAt.liveKey_iff (h : EndedAt g g' key)
    (hstands : (g.getNode brokerStopOrderLabel key).isSome) {k ref : String} :
    LiveKey g' k ref ↔ k ≠ key ∧ LiveKey g k ref := by
  by_cases hk : k = key
  · subst hk
    refine ⟨?_, fun hlive => (hlive.1 rfl).elim⟩
    rintro ⟨stop', -, hs', -, hended, -⟩
    obtain ⟨stop, hs⟩ := Option.isSome_iff_exists.mp hstands
    obtain ⟨after, hafter, -, hdead⟩ := h.stop stop hs
    cases hs'.symm.trans hafter
    rw [hdead] at hended; cases hended
  · simp only [ne_eq, hk, not_false_eq_true, true_and]
    unfold LiveKey
    rw [h.stops hk, h.fills k]

/-- A known stop that is ended, in the book and by its marker, leaves the rest tied. -/
theorem Tied.ended (h : Tied g book) {order : BrokerStopOrder} (hknown : Known g book order)
    (hend : EndedAt g g' order.key) :
    Tied g' (Execution.setStatus book (fun o => decide (o.orderId = order.brokerOrderId))
      .rejected) := by
  obtain ⟨hstands, o₀, ho₀, hk₀, hid₀⟩ := hknown
  have hset := h.setStatus (fun o => decide (o.orderId = order.brokerOrderId)) .rejected
  refine ⟨hset.ids, hset.keys, fun key stop' hs' => ?_, fun o ho hne => ?_, fun o ho hopen => ?_⟩
  · have hold : ∃ stop, g.getNode brokerStopOrderLabel key = some stop ∧
        Graph.NodeGrows stop stop' := by
      by_cases hk : key = order.key
      · obtain ⟨stop, hs⟩ := Option.isSome_iff_exists.mp hstands
        obtain ⟨after, hafter, hgrows, -⟩ := hend.stop stop hs
        rw [hk] at hs' ⊢
        cases hs'.symm.trans hafter
        exact ⟨stop, hs, hgrows⟩
      · rw [hend.stops hk] at hs'
        exact ⟨stop', hs', .refl stop'⟩
    obtain ⟨stop, hs, hgrows⟩ := hold
    obtain ⟨o, ho, hk, hfact⟩ := hset.facts key stop hs
    obtain ⟨fill, hfill, hsees⟩ := hfact.fill
    exact ⟨o, ho, hk, hgrows.get_str (by decide) hfact.orderId,
      hgrows.get_str (by decide) hfact.positionRef, fill, by rw [hend.fills]; exact hfill, hsees⟩
  · rw [hend.isSome_iff hstands]; exact hset.filed o ho hne
  · rw [hend.liveKey_iff hstands]
    refine ⟨fun hk => ?_, hset.live o ho hopen⟩
    -- the only order under the key is the one that was just closed
    obtain ⟨o', ho', hk', hid', -, ⟨rfl, hkeep⟩ | ⟨-, -, hstatus⟩⟩ := mem_setStatus ho
    · cases eq_of_key h ho' ho₀ (hk.trans hk₀.symm)
      have := hkeep hopen
      simp [hid₀] at this
    · simp [StopOrder.isOpen, hstatus] at hopen

theorem Evolves.ended {order : BrokerStopOrder} (hknown : Known g book order)
    (hend : EndedAt g g' order.key) (p : StopOrder → Bool) (status : FillStatus) :
    Evolves g book g' (Execution.setStatus book p status) none := by
  refine ⟨fun other hother => ?_, fun key ref hlive =>
    .inl ((hend.liveKey_iff hknown.1).mp hlive).2⟩
  obtain ⟨hstands, hrest⟩ := hother.setStatus p status
  exact ⟨(hend.isSome_iff hknown.1 other.key).mpr hstands, hrest⟩

/-! ### Placed facts -/

/-- The fact and the Fill of the order `o` stand in `g'`, live, and the other facts are as in `g`.
-/
structure Placed (g g' : PipelineGraph) (o : StopOrder) : Prop where
  stops : ∀ k, k ≠ o.key →
    g'.getNode brokerStopOrderLabel k = g.getNode brokerStopOrderLabel k
  fills : FillsKept g g'
  live : LiveKey g' o.key o.positionRef
  fact : ∀ stop, g'.getNode brokerStopOrderLabel o.key = some stop → FactOf g' stop o

theorem recordsUnderKey_of_free {plan : BrokerStopThresholdPlan} {fill : BrokerFill}
    (h : g.getNode fillLabel key = none) : RecordsUnderKey g plan key fill := by
  rw [RecordsUnderKey, attemptFits, fillAttemptKey, attemptKey_zero, h]

/-- The Fill under the key of a recorded stop sees its order and does not end it. -/
theorem writeStopFill_sees {plan : BrokerStopThresholdPlan} {orderId : String} {status : FillStatus}
    {node : PipelineNode}
    (hclear : Unclouded g plan key (StopOrder.of plan key orderId status).fill)
    (h : writeStopFill g plan key (StopOrder.of plan key orderId status).fill = .ok (g', node)) :
    ∃ fill, g'.getNode fillLabel key = some fill ∧ Sees fill (.of plan key orderId status) ∧
      isTerminalFillBrokerStatus (fill.get "broker_status") = false := by
  obtain ⟨hw, hkey⟩ := writeStopFill_ok h
  by_cases hrec : RecordsUnderKey g plan key (StopOrder.of plan key orderId status).fill
  · have hk := hkey hrec
    refine ⟨node, hk ▸ hw.stands, .inl ⟨hw.brokerKey, hw.brokerOrderId⟩, ?_⟩
    rw [Node.get, Props.get, hw.brokerStatus, hk]
    cases hc : g.getNode fillLabel key with
    | none => rfl
    | some current => exact (hclear current hc).1
  · obtain ⟨current, hc⟩ := Option.ne_none_iff_exists'.mp fun hnone =>
      hrec (recordsUnderKey_of_free hnone)
    obtain ⟨hterminal, hother⟩ := hclear current hc
    obtain ⟨s, hs, hne⟩ := hother.resolve_left hrec
    obtain ⟨after, hafter, hgrows, hstatus⟩ := hw.grows.fills key current hc
    have hterminal' : isTerminalFillBrokerStatus (after.get "broker_status") = false := by
      rwa [Node.get, Props.get, hstatus]
    exact ⟨after, hafter, .inr ⟨⟨s, hgrows.get_str (by decide) hs, hne⟩, hterminal'⟩, hterminal'⟩

theorem writeStop_placed {g₁ : PipelineGraph} {plan : BrokerStopThresholdPlan} {orderId : String}
    {status : FillStatus} {node : PipelineNode} {now : Timestamp}
    {replaces : Option BrokerStopOrder}
    (hclear : Unclouded g plan key (StopOrder.of plan key orderId status).fill)
    (hfree : g.getNode brokerStopOrderLabel key = none)
    (hfill : writeStopFill g plan key (StopOrder.of plan key orderId status).fill = .ok (g₁, node))
    (horder : writeStopOrder g₁ node plan key (StopOrder.of plan key orderId status).fill now
      replaces = .ok g') : Placed g g' (.of plan key orderId status) := by
  obtain ⟨fill, hf, hsees, hterminal⟩ := writeStopFill_sees hclear hfill
  have hw := (writeStopFill_ok hfill).1
  have hstops := fun k => hw.grows.others brokerStopOrderLabel k (by decide)
  have ho := writeStopOrder_ok ((hstops key).trans hfree) horder
  have hfills : ∀ k, g'.getNode fillLabel k = g₁.getNode fillLabel k := fun k => by
    rw [ho.nodes, if_neg fun hc => absurd hc.1 (by decide)]
  obtain ⟨hid, hposition, hcancelled, hreplaced⟩ := stopOrderProps_get? plan
    (StopOrder.of plan key orderId status).fill now replaces
  have hstop : g'.getNode brokerStopOrderLabel key = some ⟨brokerStopOrderLabel, key,
      stopOrderProps plan (StopOrder.of plan key orderId status).fill now replaces, 1⟩ := by
    rw [ho.nodes, if_pos ⟨rfl, rfl⟩]
  refine ⟨fun k hk => ?_, fun k n hn => ?_, ?_, fun stop hs => ?_⟩
  · rw [ho.nodes, if_neg fun hc => hk hc.2, hstops]
  · rw [hfills]; exact hw.grows.fills k n hn
  · refine ⟨_, fill, hstop, hposition, ?_, (hfills key).trans hf, hterminal⟩
    rw [isEnded, List.any_eq_false]
    intro name hname
    rcases List.mem_pair.mp hname with rfl | rfl
    · simp [Node.get, Props.get, hcancelled, truthyStr]
    · simp [Node.get, Props.get, hreplaced, truthyStr]
  · cases hs.symm.trans hstop
    exact ⟨hid, hposition, fill, (hfills key).trans hf, hsees⟩

/-- A new order of the book, recorded under a free key, leaves the book and the facts tied. -/
theorem Tied.placed (h : Tied g book) {o : StopOrder} (hp : Placed g g' o)
    (hfree : g.getNode brokerStopOrderLabel o.key = none) (hkey : ∀ b ∈ book, b.key ≠ o.key)
    (hid : ∀ b ∈ book, b.orderId ≠ o.orderId) :
    Tied g' (book ++ [o]) ∧ Evolves g book g' (book ++ [o]) (some (o.key, o.positionRef)) := by
  have hstands : ∀ k, (g.getNode brokerStopOrderLabel k).isSome →
      k ≠ o.key ∧ (g'.getNode brokerStopOrderLabel k).isSome := fun k hsome => by
    have hne : k ≠ o.key := by rintro rfl; rw [hfree] at hsome; cases hsome
    exact ⟨hne, by rw [hp.stops k hne]; exact hsome⟩
  refine ⟨⟨?_, ?_, fun k stop hs => ?_, fun b hb hne => ?_, fun b hb hopen => ?_⟩,
    ⟨fun order hknown => ?_, fun k ref hlive => ?_⟩⟩
  · rw [List.map_append, List.nodup_append]
    refine ⟨h.ids, List.nodup_singleton _, fun a ha b hb => ?_⟩
    obtain ⟨c, hc, rfl⟩ := List.mem_map.mp ha
    rw [List.mem_singleton.mp hb]
    exact hid c hc
  · rw [List.map_append, List.nodup_append]
    refine ⟨h.keys, List.nodup_singleton _, fun a ha b hb => ?_⟩
    obtain ⟨c, hc, rfl⟩ := List.mem_map.mp ha
    rw [List.mem_singleton.mp hb]
    exact hkey c hc
  · by_cases hk : k = o.key
    · subst hk
      exact ⟨o, by simp, rfl, hp.fact stop hs⟩
    · rw [hp.stops k hk] at hs
      obtain ⟨b, hb, hbk, hfact⟩ := h.facts k stop hs
      obtain ⟨fill, hf, hsees⟩ := hfact.fill
      refine ⟨b, by simp [hb], hbk, hfact.orderId, hfact.positionRef, ?_⟩
      exact hp.fills.sees hf hsees
  · rcases List.mem_append.mp hb with hb | hb
    · exact (hstands _ (h.filed b hb hne)).2
    · obtain ⟨stop, -, hs, -⟩ := hp.live
      rw [List.mem_singleton.mp hb, hs]; rfl
  · rcases List.mem_append.mp hb with hb | hb
    · have hlive := h.live b hb hopen
      obtain ⟨stop, -, hs, -⟩ := id hlive
      exact hlive.grow (hp.stops _ (hstands _ (by rw [hs]; rfl)).1) hp.fills
    · rw [List.mem_singleton.mp hb]; exact hp.live
  · obtain ⟨hsome, b, hb, hbk, hbid⟩ := hknown
    exact ⟨(hstands _ hsome).2, b, by simp [hb], hbk, hbid⟩
  · by_cases hk : k = o.key
    · subst hk
      right
      obtain ⟨stop, -, hs, hposition, -⟩ := hlive
      rw [(hp.fact stop hs).positionRef] at hposition
      cases hposition
      rfl
    · exact .inl (hlive.shrink h (hp.stops k hk) hp.fills)

end

end TradingAgents.Execution
