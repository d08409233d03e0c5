import TradingAgents.Contracts.PositionBasis
import TradingAgents.Execution.StopLiveness

/-! The stops of the forecaster's held-name plans, against the stops that the shared liveness
contract counts: of each held position the plan takes the newest placement, if no marker ends it,
and does not ask what became of the order at the broker. -/

namespace TradingAgents.Forecaster

open Kernel ProofKit BrokerLifecycle BrokerStops Positions Execution

/-- The position that a stop fact was placed for. -/
def refOf (n : PipelineNode) : String := textOr (n.get "position_ref")

def placedAt (n : PipelineNode) : String := textOr (n.get "placed_at")

/-- The active positions of a ticker, in listing order. -/
def lotsOf (g : PipelineGraph) (ticker : String) : List PipelineNode :=
  (activePositionNodes g).filter fun n => textOr (n.get "ticker") = ticker

/-- The tickers of the book in order. -/
def heldTickers (g : PipelineGraph) : List String :=
  ((activePositionNodes g).map fun n => textOr (n.get "ticker")).dedup.insertionSort (· ≤ ·)

/-- The stable reference of a held ticker's position; `digest` is the hash of its keys. -/
def heldRef (digest : String → String) (g : PipelineGraph) (ticker : String) : String :=
  positionRefForKeys digest ((lotsOf g ticker).map Node.key)

def heldRefs (digest : String → String) (g : PipelineGraph) : List String :=
  (heldTickers g).map (heldRef digest g)

/-- A later placement takes the place of the one known for its position. -/
def takeNewer (newest : Dict String PipelineNode) (n : PipelineNode) : Dict String PipelineNode :=
  match newest.get? (refOf n) with
  | none => newest.set (refOf n) n
  | some known => if placedAt known < placedAt n then newest.set (refOf n) n else newest

def newestStop (g : PipelineGraph) (ref : String) : Option PipelineNode :=
  ((g.listNodes brokerStopOrderLabel).foldl takeNewer .empty).get? ref

/-- Whether an append-only marker ends the placement. -/
def isMarked (n : PipelineNode) : Bool := endedMarkers.any fun name => (n.get name).truthy

/-- The newest placement of a position, if that one still lives. -/
def liveStop (g : PipelineGraph) (ref : String) : Option PipelineNode :=
  (newestStop g ref).filter fun n => !isMarked n

/-- The price of a position's live stop, in dollars. -/
def stopPrice (g : PipelineGraph) (ref : String) : Option ℚ :=
  (liveStop g ref).map fun n => (brokerStopOrder n).stopPriceCents / 100

/-- Each held name with the stop price of its plan. -/
def heldRequests (digest : String → String) (g : PipelineGraph) : List (String × Option ℚ) :=
  (heldTickers g).map fun ticker => (ticker, stopPrice g (heldRef digest g ticker))

/-- The stops that the held plan treats as live. -/
def planStops (digest : String → String) (g : PipelineGraph) : List BrokerStopOrder :=
  (heldRefs digest g).filterMap fun ref => (liveStop g ref).map brokerStopOrder

/-- The stops of the held positions that the shared contract counts as live. -/
def contractStops (digest : String → String) (g : PipelineGraph) : List BrokerStopOrder :=
  (activeBrokerStopOrders g).filter fun order => order.positionRef ∈ heldRefs digest g

/-- The two readers take the same stops for live. -/
def SameStops (digest : String → String) (g : PipelineGraph) : Prop :=
  ∀ order, order ∈ planStops digest g ↔ order ∈ contractStops digest g

/-- Of the placements of a position, only the newest can live, and its order has not ended at the
broker: the Fill of the newest one without a marker is not terminal, and that of every older one
without a marker is. -/
structure NewestDecides (g : PipelineGraph) (ref : String) : Prop where
  newest : ∀ n, newestStop g ref = some n → isMarked n = false →
    ∀ fill ∈ siblingFillForBrokerStop g n,
      isTerminalFillBrokerStatus (fill.get "broker_status") = false
  older : ∀ n ∈ g.listNodes brokerStopOrderLabel, refOf n = ref → newestStop g ref ≠ some n →
    isMarked n = false → ∃ fill ∈ siblingFillForBrokerStop g n,
      isTerminalFillBrokerStatus (fill.get "broker_status") = true

/-! ### The newest placement -/

theorem get?_takeNewer (newest : Dict String PipelineNode) (n : PipelineNode) (ref : String) :
    (takeNewer newest n).get? ref =
      if refOf n = ref ∧ ∀ known ∈ newest.get? ref, placedAt known < placedAt n then some n
      else newest.get? ref := by
  unfold takeNewer
  by_cases hr : refOf n = ref
  · subst hr
    cases hk : newest.get? (refOf n) with
    | none => simp
    | some known =>
      by_cases hlt : placedAt known < placedAt n
      · have htakes : ∀ k ∈ some known, placedAt k < placedAt n := by rintro _ ⟨⟩; exact hlt
        rw [if_pos ⟨rfl, htakes⟩]
        simp only [if_pos hlt, Dict.get?_set_self]
      · have hkeeps : ¬ ∀ k ∈ some known, placedAt k < placedAt n := fun h => hlt (h known rfl)
        simp only [if_neg hlt, hk, hkeeps, and_false, if_false]
  · split
    · simp [hr, Ne.symm hr]
    · split <;> simp [hr, Ne.symm hr]

/-- What the pass over the placements knows of a position: a placement of it that none of those seen
so far is newer than, as soon as one was seen. -/
def Newest (ns : List PipelineNode) (ref : String) : Option PipelineNode → Prop
  | none => ∀ n ∈ ns, refOf n ≠ ref
  | some known => known ∈ ns ∧ refOf known = ref ∧
      ∀ n ∈ ns, refOf n = ref → ¬ placedAt known < placedAt n

theorem foldl_takeNewer (ns : List PipelineNode) (ref : String) :
    Newest ns ref ((ns.foldl takeNewer .empty).get? ref) := by
  induction ns using List.reverseRecOn with
  | nil => simp [Newest]
  | append_singleton ns n ih =>
    rw [List.foldl_append, List.foldl_cons, List.foldl_nil, get?_takeNewer]
    generalize (ns.foldl takeNewer .empty).get? ref = known at ih ⊢
    split
    · rename_i htakes
      refine ⟨by simp, htakes.1, fun m hm hmr => ?_⟩
      rcases List.mem_append.mp hm with hm | hm
      · cases known with
        | none => exact absurd hmr (ih m hm)
        | some known => exact fun hlt => ih.2.2 m hm hmr ((htakes.2 known rfl).trans hlt)
      · rw [List.mem_singleton.mp hm]; exact lt_irrefl _
    · rename_i hkeeps
      cases known with
      | none =>
        intro m hm hmr
        rcases List.mem_append.mp hm with hm | hm
        · exact ih m hm hmr
        · rw [List.mem_singleton.mp hm] at hmr
          exact hkeeps ⟨hmr, by simp⟩
      | some known =>
        refine ⟨List.mem_append_left _ ih.1, ih.2.1, fun m hm hmr => ?_⟩
        rcases List.mem_append.mp hm with hm | hm
        · exact ih.2.2 m hm hmr
        · rw [List.mem_singleton.mp hm] at hmr ⊢
          exact fun hlt => hkeeps ⟨hmr, by simpa using hlt⟩

/-- The newest placement of a position is one of its placements, and none is newer. -/
theorem newestStop_spec {g : PipelineGraph} {ref : String} {n : PipelineNode}
    (h : newestStop g ref = some n) : n ∈ g.listNodes brokerStopOrderLabel ∧ refOf n = ref ∧
      ∀ m ∈ g.listNodes brokerStopOrderLabel, refOf m = ref → ¬ placedAt n < placedAt m := by
  have hspec := foldl_takeNewer (g.listNodes brokerStopOrderLabel) ref
  rw [newestStop] at h
  rwa [h] at hspec

/-! ### The two readers -/

/-- The markers of a stop fact are times where they stand. -/
def StampedStops (g : PipelineGraph) : Prop :=
  ∀ key stop, g.getNode brokerStopOrderLabel key = some stop →
    ∀ name ∈ endedMarkers, Stamped stop name

theorem isMarked_eq_isEnded {stop : PipelineNode} (h : ∀ name ∈ endedMarkers, Stamped stop name) :
    isMarked stop = isEnded stop := by
  unfold isMarked isEnded
  rw [Bool.eq_iff_iff, List.any_eq_true, List.any_eq_true]
  refine exists_congr fun name => and_congr_right fun hname => ?_
  rcases h name hname with hnone | ⟨t, ht⟩
  · simp [Node.get, Props.get, hnone, Value.truthy, truthyStr]
  · simp [Node.get, Props.get, ht, Value.truthy, truthyStr, t.nonempty]

theorem isLive_iff {g : PipelineGraph} {stop : PipelineNode}
    (h : ∀ name ∈ endedMarkers, Stamped stop name) : isLiveBrokerStopFact g stop = true ↔
      isMarked stop = false ∧ ∀ fill ∈ siblingFillForBrokerStop g stop,
        isTerminalFillBrokerStatus (fill.get "broker_status") = false := by
  rw [isMarked_eq_isEnded h]
  unfold isLiveBrokerStopFact
  cases isEnded stop with
  | true => simp
  | false => cases siblingFillForBrokerStop g stop <;> simp

theorem mem_planStops {digest : String → String} {g : PipelineGraph} {order : BrokerStopOrder} :
    order ∈ planStops digest g ↔ ∃ ref ∈ heldRefs digest g, ∃ n, newestStop g ref = some n ∧
      isMarked n = false ∧ brokerStopOrder n = order := by
  simp [planStops, liveStop, Option.filter_eq_some_iff, and_assoc]

/-- A stop order is read from one fact. -/
theorem eq_of_order {g : PipelineGraph} {n m : PipelineNode}
    (hn : n ∈ g.listNodes brokerStopOrderLabel) (hm : m ∈ g.listNodes brokerStopOrderLabel)
    (h : brokerStopOrder n = brokerStopOrder m) : n = m := by
  have hn := (Graph.mem_listNodes.mp hn).2
  have hkey : n.key = m.key := congrArg BrokerStopOrder.key h
  rw [hkey, (Graph.mem_listNodes.mp hm).2] at hn
  exact (Option.some.inj hn).symm

theorem mem_contractStops {digest : String → String} {g : PipelineGraph}
    (hstamped : StampedStops g) {order : BrokerStopOrder} :
    order ∈ contractStops digest g ↔ ∃ n ∈ g.listNodes brokerStopOrderLabel,
      refOf n ∈ heldRefs digest g ∧ isMarked n = false ∧
        (∀ fill ∈ siblingFillForBrokerStop g n,
          isTerminalFillBrokerStatus (fill.get "broker_status") = false) ∧
        brokerStopOrder n = order := by
  rw [contractStops, List.mem_filter, mem_activeBrokerStopOrders, decide_eq_true_eq]
  constructor
  · rintro ⟨⟨n, hn, hl, hlive, rfl⟩, hheld⟩
    obtain ⟨hmarked, hfills⟩ := (isLive_iff (hstamped _ n hn)).mp hlive
    exact ⟨n, Graph.mem_listNodes.mpr ⟨hl, hn⟩, hheld, hmarked, hfills, rfl⟩
  · rintro ⟨n, hn, hheld, hmarked, hfills, rfl⟩
    obtain ⟨hl, hn⟩ := Graph.mem_listNodes.mp hn
    exact ⟨⟨n, hn, hl, (isLive_iff (hstamped _ n hn)).mpr ⟨hmarked, hfills⟩, rfl⟩, hheld⟩

theorem sameStops_iff {digest : String → String} {g : PipelineGraph} (hstamped : StampedStops g) :
    SameStops digest g ↔ ∀ ref ∈ heldRefs digest g, NewestDecides g ref := by
  unfold SameStops
  simp only [mem_planStops, mem_contractStops hstamped]
  constructor
  · intro hsame ref href
    refine ⟨fun n hnew hmarked => ?_, fun n hn hnr hold hmarked => ?_⟩
    · obtain ⟨m, hm, -, -, hfills, horder⟩ := (hsame _).mp ⟨ref, href, n, hnew, hmarked, rfl⟩
      rwa [eq_of_order (newestStop_spec hnew).1 hm horder.symm]
    · by_contra hnone
      push Not at hnone
      obtain ⟨ref', -, m, hnew, -, horder⟩ := (hsame _).mpr ⟨n, hn, hnr ▸ href, hmarked,
        fun fill hfill => by simpa using hnone fill hfill, rfl⟩
      obtain ⟨hm, hmr, -⟩ := newestStop_spec hnew
      have heq := eq_of_order hm hn horder
      rw [← hmr, heq, hnr] at hnew
      exact hold hnew
  · intro hall order
    constructor
    · rintro ⟨ref, href, n, hnew, hmarked, rfl⟩
      obtain ⟨hn, hnr, -⟩ := newestStop_spec hnew
      exact ⟨n, hn, hnr ▸ href, hmarked, (hall ref href).newest n hnew hmarked, rfl⟩
    · rintro ⟨n, hn, href, hmarked, hfills, rfl⟩
      refine ⟨refOf n, href, n, ?_, hmarked, rfl⟩
      by_contra hold
      obtain ⟨fill, hfill, hterminal⟩ := (hall _ href).older n hn rfl hold hmarked
      rw [hfills fill hfill] at hterminal
      cases hterminal

/-! ### Reachable graphs -/

theorem StampedStops.keeps {g g' : PipelineGraph} (h : StampedStops g) (hk : KeepsStops g g') :
    StampedStops g' := by
  intro key stop' hstop' name hname
  obtain ⟨stop, hstop, hstamped⟩ := hk.stops key stop' hstop'
  exact hstamped name hname (h key stop hstop name hname)

theorem StampedStops.writeStopOrder {g g' : PipelineGraph} (h : StampedStops g)
    {fillNode : PipelineNode} {plan : BrokerStopThresholdPlan} {key : String} {now : Timestamp}
    {fill : BrokerFill} {replaces : Option BrokerStopOrder}
    (hfree : g.getNode brokerStopOrderLabel key = none)
    (hok : Execution.writeStopOrder g fillNode plan key fill now replaces = .ok g') :
    StampedStops g' := by
  intro k stop hstop name hname
  rw [(writeStopOrder_ok hfree hok).nodes] at hstop
  split at hstop
  · cases hstop
    obtain ⟨-, -, hcancelled, hreplaced⟩ := stopOrderProps_get? plan fill now replaces
    refine .inl ?_
    rcases List.mem_pair.mp hname with rfl | rfl
    · exact hcancelled
    · exact hreplaced
  · exact h k stop hstop name hname

theorem StampedStops.placeStop {g g' : PipelineGraph} (h : StampedStops g)
    {plan : BrokerStopThresholdPlan} {key : String} {now : Timestamp} {fill : BrokerFill}
    (hfree : g.getNode brokerStopOrderLabel key = none)
    (hok : Execution.placeStop g plan key fill now = .ok g') : StampedStops g' := by
  obtain ⟨⟨g₁, fillNode⟩, hfill, hok⟩ := Fallible.bind_eq_ok.mp hok
  obtain ⟨hw, -⟩ := writeStopFill_ok hfill
  have hs := h.keeps hw.keepsStops
  simp only at hok
  split at hok
  · cases hok; exact hs
  · refine hs.writeStopOrder ?_ hok
    rw [hw.grows.others _ _ (by decide), hfree]

theorem StampedStops.replaceStop {g g' : PipelineGraph} (h : StampedStops g)
    {plan : BrokerStopThresholdPlan} {old : BrokerStopOrder} {key : String} {now : Timestamp}
    {fill : BrokerFill} (hfree : g.getNode brokerStopOrderLabel key = none)
    (hstands : (g.getNode brokerStopOrderLabel old.key).isSome)
    (hok : Execution.replaceStop g plan old key fill now = .ok g') : StampedStops g' := by
  obtain ⟨⟨g₁, fillNode⟩, hfill, hok⟩ := Fallible.bind_eq_ok.mp hok
  obtain ⟨g₂, horder, hok⟩ := Fallible.bind_eq_ok.mp hok
  obtain ⟨hw, -⟩ := writeStopFill_ok hfill
  have hfree₁ : g₁.getNode brokerStopOrderLabel key = none := by
    rw [hw.grows.others _ _ (by decide), hfree]
  refine ((h.keeps hw.keepsStops).writeStopOrder hfree₁ horder).keeps
    (markReplaced_keepsStops ?_ hok)
  rw [(writeStopOrder_ok hfree₁ horder).nodes]
  split
  · rfl
  · rw [hw.grows.others _ _ (by decide)]; exact hstands

/-- Every operation on the stops keeps the markers times. -/
theorem StampedStops.apply {g g' : PipelineGraph} (h : StampedStops g) {op : StopOp}
    (hok : op.apply g = .ok g') : StampedStops g' := by
  cases op with
  | submit fill orderSet => exact h.keeps (writeFill_keepsStops hok)
  | place plan fill now =>
    simp only [StopOp.apply] at hok
    split at hok
    · cases hok; exact h
    · rename_i key hkey
      exact h.placeStop (nextBrokerStopOrderKey_free hkey) hok
  | replace plan old fill now =>
    simp only [StopOp.apply] at hok
    split at hok
    · rename_i hactive
      exact h.replaceStop (freeBrokerStopOrderKey_free _ _ _) (stands_of_active hactive) hok
    · cases hok; exact h
  | cancel order now =>
    simp only [StopOp.apply] at hok
    split at hok
    · rename_i hactive
      exact h.keeps (cancelStop_keepsStops (stands_of_active hactive) hok)
    · cases hok; exact h
  | refresh reports now => exact h.keeps (refreshPendingFills_ok hok).keepsStops
  | merge label key props => exact h.keeps (mergeElsewhere_keepsStops hok)
  | link parent child edgeType => exact h.keeps (linkElsewhere_keepsStops hok)

/-- In every graph that operations on the stops reach, the held plan takes the stops for live that
the contract counts exactly when the newest placement decides for every held position. -/
theorem held_stops_agree_iff {digest : String → String} {g : PipelineGraph}
    (h : Reach StopOp.apply (fun _ _ => True) (· = Graph.empty) g) :
    SameStops digest g ↔ ∀ ref ∈ heldRefs digest g, NewestDecides g ref := by
  refine sameStops_iff (h.invariant (P := StampedStops) (fun s hs => ?_) ?_)
  · subst hs
    intro key stop hstop
    cases hstop
  · exact fun _ _ _ hP _ hok => hP.apply hok

/-- The key of a position's hash, as the book of the example has it. -/
def acmeDigest : String → String := fun _ => "50bdd78fb012701c"

def heldPlan : BrokerStopThresholdPlan :=
  ⟨⟨"ACME", 10, "50bdd78fb012701c", 10000, 1 / 10⟩, .position, .activePosition⟩

/-- A position of ten shares is opened, and a stop is placed for it. -/
def protectedPosition : List StopOp := [
  .merge positionLabel "pm-run-1:ACME" (.ofList [
    ("ticker", .str "ACME"), ("quantity", .int 10), ("opened_price_cents", .int 10000),
    ("status", .str "open")]),
  .place heldPlan (acmeReply "stop:50bdd78fb012701c:ACME" "order-1" .pending) firstStamp]

/-- The stop fills at the broker. -/
def stoppedOut : List StopOp := protectedPosition ++ [
  .refresh [acmeReply "stop:50bdd78fb012701c:ACME" "order-1" .filled] "t2"]

/-- While its order rests, the stop of the example is the newest of its position and decides. -/
theorem held_stops_agree_acme : ∃ g, protectedPosition.foldlM StopOp.apply Graph.empty = .ok g ∧
    heldRefs acmeDigest g ≠ [] ∧ ∀ ref ∈ heldRefs acmeDigest g, NewestDecides g ref := by
  have htest : Fallible.check (fun g => decide (planStops acmeDigest g = contractStops acmeDigest g)
      && !(heldRefs acmeDigest g).isEmpty)
      (protectedPosition.foldlM StopOp.apply Graph.empty) = true := by decide +kernel
  obtain ⟨g, hg, hall⟩ := Fallible.check_eq_true.mp htest
  rw [Bool.and_eq_true, decide_eq_true_eq] at hall
  refine ⟨g, hg, by simpa using hall.2, (held_stops_agree_iff (.of_foldlM (.start rfl) hg)).mp ?_⟩
  intro order
  rw [hall.1]

/-- The stop of the example stays in the plan after it has filled. -/
theorem filled_stop_still_planned : ¬ ∀ digest g,
    Reach StopOp.apply (fun _ _ => True) (· = Graph.empty) g → SameStops digest g := by
  intro hall
  have htest : Fallible.check
      (fun g => !(planStops acmeDigest g).isEmpty && (contractStops acmeDigest g).isEmpty)
      (stoppedOut.foldlM StopOp.apply Graph.empty) = true := by decide +kernel
  obtain ⟨g, hg, hstops⟩ := Fallible.check_eq_true.mp htest
  rw [Bool.and_eq_true, List.isEmpty_iff] at hstops
  have hsame := hall acmeDigest g (.of_foldlM (.start rfl) hg)
  obtain ⟨order, horder⟩ := List.exists_mem_of_ne_nil (planStops acmeDigest g)
    (by simpa using hstops.1)
  have hmem := (hsame order).mp horder
  rw [hstops.2] at hmem
  cases hmem

end TradingAgents.Forecaster
