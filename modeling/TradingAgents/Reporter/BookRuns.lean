import TradingAgents.Kernel.Writes
import TradingAgents.Orchestration.Resume
import TradingAgents.ProofKit.Runs
import TradingAgents.Reporter.BookWindow

/-! Runs of Fills, refreshes, portfolio runs and their clones under a clock that does not go back.
Each filled Fill lies in the window of one instant, and the metrics of a run stay what they were,
but for a Fill that becomes known at the very instant of the run. -/

namespace TradingAgents.Reporter

open Kernel ProofKit Execution BrokerLifecycle

/-! ### The refresh of one Fill -/

section Read

variable {digest : String → String} {reports : List BrokerFill} {now : String}
  {g g' t : PipelineGraph} {n n' : PipelineNode} {fill : BrokerFill}

def refreshedAtProp : String := "broker_status_refreshed_at"

theorem not_awaits_of_isFilled (h : isFilled n = true) : awaitsBroker n = false := by
  have hfilled : normalise (n.get "broker_status") = "filled" := by
    simpa [isFilled, filledBrokerStatuses] using h
  have hterminal : isTerminalFillBrokerStatus (n.get "broker_status") = true := by
    rw [isTerminalFillBrokerStatus, hfilled]
    decide
  rw [awaitsBroker, hterminal, Bool.not_true, Bool.and_false]

/-- The time that a read writes. -/
theorem readProps_refreshedAt {pnl : Props Document}
    (hpnl : realizedPnlProps digest g n fill now = .ok pnl) :
    (readProps n fill now pnl).get? refreshedAtProp =
      if shouldWriteStatus n fill then some (.str now) else none := by
  have hnone : pnl.get? refreshedAtProp = none := by
    rcases realizedPnlProps_ok hpnl with ⟨-, rfl⟩ | ⟨-, -, rfl⟩ | ⟨v, -, -, rfl⟩
    · rfl
    · simp [Dict.ofList, refreshedAtProp]
    · simp [Dict.ofList, refreshedAtProp]
  rw [readProps, Dict.get?_update, hnone, Option.none_or, brokerStatusProps]
  cases shouldWriteStatus n fill <;> cases shouldWritePrice n fill <;>
    by_cases hf : fill.status = .filled <;> simp [hf, Dict.ofList, refreshedAtProp]

/-- What the refresh of one Fill leaves: besides its own facts it changes that Fill alone, a filled
one not even, and a Fill that it fills is known from now. -/
structure ReadLeaves (now : String) (g t : PipelineGraph) (n : PipelineNode) : Prop where
  others : ∀ label key, label ≠ brokerOrderStatusLabel → (label, key) ≠ (fillLabel, n.key) →
    t.getNode label key = g.getNode label key
  own : ∃ n', t.getNode fillLabel n.key = some n' ∧
    (n' = n ∨ isFilled n = false ∧
      (isFilled n' = true → n'.props.get? refreshedAtProp = some (.str now)))

theorem ReadLeaves.unread (hn : g.getNode fillLabel n.key = some n) : ReadLeaves now g g n :=
  ⟨fun _ _ _ _ => rfl, n, hn, .inl rfl⟩

theorem isFilled_congr (h : n'.props.get? "broker_status" = n.props.get? "broker_status") :
    isFilled n' = isFilled n := by
  rw [isFilled, isFilled, Node.get, Node.get, Props.get, Props.get, h]

theorem writeOrderStatus_others (h : writeOrderStatus g n fill now = .ok t) {label key : String}
    (hne : label ≠ brokerOrderStatusLabel) : t.getNode label key = g.getNode label key := by
  obtain ⟨⟨t₁, status⟩, hmerge, hlink⟩ := Fallible.bind_eq_ok.mp h
  rw [liftGraph_eq_ok] at hmerge hlink
  obtain ⟨rfl, hlabel, -⟩ := Graph.mergeNode_ok hmerge
  rw [Graph.getNode_of_nodes_eq (Graph.addEdge_ok hlink).1, Graph.getNode_put, if_neg]
  rw [hlabel]
  exact fun heq => hne heq.1

theorem fillLabel_ne_status : fillLabel ≠ brokerOrderStatusLabel := by decide

theorem refreshRead_leaves (hn : g.getNode fillLabel n.key = some n)
    (h : refreshRead digest reports now g n = .ok t) : ReadLeaves now g t n := by
  unfold refreshRead at h
  split at h
  · cases h
    exact .unread hn
  rename_i hawaits
  have hopen : isFilled n = false := by
    cases hfilled : isFilled n with
    | false => rfl
    | true =>
      rw [not_awaits_of_isFilled hfilled] at hawaits
      exact absurd rfl hawaits
  split at h
  · cases h
    exact .unread hn
  rename_i fill hfill
  obtain ⟨t₁, hwrite, h⟩ := Fallible.bind_eq_ok.mp h
  have hwritten : ∀ label key, label ≠ brokerOrderStatusLabel →
      t₁.getNode label key = g.getNode label key :=
    fun label key hne => writeOrderStatus_others hwrite hne
  have hn₁ := (hwritten fillLabel n.key fillLabel_ne_status).trans hn
  have hrecorded : ReadLeaves now g t₁ n := ⟨fun l k hl _ => hwritten l k hl, n, hn₁, .inl rfl⟩
  split at h
  · cases h
    exact hrecorded
  obtain ⟨pnl, hpnl, h⟩ := Fallible.bind_eq_ok.mp h
  have hprops : (brokerStatusProps n fill now).update pnl = readProps n fill now pnl := rfl
  simp only [hprops] at h
  split at h
  · cases h
    exact hrecorded
  obtain ⟨⟨t₂, after⟩, hmerge, hret⟩ := Fallible.bind_eq_ok.mp h
  cases hret
  rw [liftGraph_eq_ok] at hmerge
  have hstatus := Graph.mergeNode_get? hmerge "broker_status"
  have htime := Graph.mergeNode_get? hmerge refreshedAtProp
  rw [hn₁, readProps_status hpnl] at hstatus
  rw [hn₁, readProps_refreshedAt hpnl] at htime
  obtain ⟨rfl, hlabel, hkey, -⟩ := Graph.mergeNode_ok hmerge
  refine ⟨fun l k hl hne => ?_, after, ?_, .inr ⟨hopen, fun hfilled => ?_⟩⟩
  · rw [Graph.getNode_put, if_neg, hwritten l k hl]
    rintro ⟨rfl, rfl⟩
    exact hne (by rw [hlabel, hkey])
  · rw [Graph.getNode_put, if_pos ⟨hlabel.symm, hkey.symm⟩]
  · cases hwrites : shouldWriteStatus n fill with
    | true =>
      rw [hwrites] at htime
      exact htime
    | false =>
      -- without a new status the Fill would have been filled before
      rw [hwrites] at hstatus
      rw [isFilled_congr hstatus, hopen] at hfilled
      cases hfilled

end Read

/-! ### Moves -/

section Moves

variable {τ : Type} [LinearOrder τ] {c : IsoClock τ} {digest : String → String}

/-- The store and the last reading of the clock. -/
structure BookState (τ : Type) where
  graph : PipelineGraph
  clock : τ

/-- The refresh of one Fill, a portfolio run, or any other write: a new Fill and the clone of a run
are such writes. -/
inductive BookMove (τ : Type) where
  | refresh (reports : List BrokerFill) (key : String) (now : τ)
  | pmRun (key : String) (props : Props Document) (now : τ)
  | write (w : Write Document)

def bookStep (c : IsoClock τ) (digest : String → String) (s : BookState τ) :
    BookMove τ → Except HandlerError (BookState τ)
  | .refresh reports key now =>
    match s.graph.getNode fillLabel key with
    | none => .ok s
    | some fill => do
      let graph ← refreshRead digest reports (c.isoformat now) s.graph fill
      pure ⟨graph, now⟩
  | .pmRun key props now => do
    let graph ← liftGraph (s.graph.write (.merge pmRunLabel key
      (props.set "created_at" (.str (c.isoformat now)))))
    pure ⟨graph, now⟩
  | .write w => do
    let graph ← liftGraph (s.graph.write w)
    pure { s with graph }

/-- A write that repeats what a Fill holds. -/
def Repeats (n : PipelineNode) (props : Props Document) : Prop :=
  ∀ p ∈ props.entries, n.props.get? p.1 = some p.2

/-- The clock does not go back.  Only the refresh writes what it writes on a Fill, a filled Fill
gets nothing new, and another write of a run carries the creation of a run that stands. -/
def BookAllowed (s : BookState τ) : BookMove τ → Prop
  | .refresh _ _ now => s.clock ≤ now
  | .pmRun _ _ now => s.clock ≤ now
  | .write (.merge label key props) =>
    (label = fillLabel → (∀ name ∈ refreshNames, props.get? name = none) ∧
      ∀ n ∈ s.graph.getNode fillLabel key, isFilled n = true → Repeats n props) ∧
    (label = pmRunLabel → ∀ v ∈ props.get? "created_at",
      ∃ source ∈ s.graph.listNodes pmRunLabel, source.props.get? "created_at" = some v)
  | .write (.link _) => True

instance (n : PipelineNode) (props : Props Document) : Decidable (Repeats n props) :=
  inferInstanceAs (Decidable (∀ p ∈ props.entries, n.props.get? p.1 = some p.2))

instance (s : BookState τ) : DecidablePred (BookAllowed s)
  | .refresh _ _ now => inferInstanceAs (Decidable (s.clock ≤ now))
  | .pmRun _ _ now => inferInstanceAs (Decidable (s.clock ≤ now))
  | .write (.merge label key props) => inferInstanceAs (Decidable
      ((label = fillLabel → (∀ name ∈ refreshNames, props.get? name = none) ∧
        ∀ n ∈ s.graph.getNode fillLabel key, isFilled n = true → Repeats n props) ∧
      (label = pmRunLabel → ∀ v ∈ props.get? "created_at",
        ∃ source ∈ s.graph.listNodes pmRunLabel, source.props.get? "created_at" = some v)))
  | .write (.link _) => inferInstanceAs (Decidable True)

abbrev BookRun (c : IsoClock τ) (digest : String → String) (start s : BookState τ) : Prop :=
  Reach (bookStep c digest) BookAllowed (· = start) s

/-- A resume clones a run with the creation of its source. -/
theorem clone_allowed {s : BookState τ} {source : PipelineNode} {child key : String}
    {props : Props Document} (hsource : source ∈ s.graph.listNodes pmRunLabel)
    (hprops : Orchestration.linkedProps .pmRun source child = .ok props) :
    BookAllowed s (.write (.merge pmRunLabel key props)) := by
  refine ⟨fun h => absurd h (by decide), fun _ v hv => ⟨source, hsource, ?_⟩⟩
  unfold Orchestration.linkedProps at hprops
  simp only at hprops
  split at hprops
  · cases hprops
  · cases hprops
    simpa using hv
  · cases hprops

/-- The instants of the runs in a store. -/
def instantsOf (c : IsoClock τ) (g : PipelineGraph) : List τ :=
  runInstants c (g.listNodes pmRunLabel)

omit [LinearOrder τ] in
theorem mem_instantsOf {g : PipelineGraph} {t : τ} :
    t ∈ instantsOf c g ↔ ∃ key n, g.getNode pmRunLabel key = some n ∧
      utcInstant c (n.get "created_at") = some t := by
  rw [instantsOf, runInstants, List.mem_filterMap]
  constructor
  · rintro ⟨n, hn, ht⟩
    exact ⟨n.key, n, (Graph.mem_listNodes.mp hn).2, ht⟩
  · rintro ⟨key, n, hn, ht⟩
    obtain ⟨hlabel, hkey⟩ := Graph.getNode_nodeKey hn
    exact ⟨n, Graph.mem_listNodes.mpr ⟨hlabel, hkey ▸ hn⟩, ht⟩

omit [LinearOrder τ] in
/-- A readable instant is that of a text. -/
theorem utcInstant_eq_some {v : Value Document} {t : τ} :
    utcInstant c v = some t ↔ ∃ s, v = .str s ∧ c.fromisoformat s = some t := by
  cases v <;> simp [utcInstant]

/-- What a store keeps from one state of a run to a later one: its filled Fills and the creations
of its runs, while what is new is known from the clock of the first state on. -/
structure Grown (c : IsoClock τ) (s s' : BookState τ) : Prop where
  clock : s.clock ≤ s'.clock
  frozen : ∀ key n, s.graph.getNode fillLabel key = some n → isFilled n = true →
    s'.graph.getNode fillLabel key = some n
  fills : ∀ key n m, s'.graph.getNode fillLabel key = some n → isFilled n = true →
    utcInstant c (n.get refreshedAtProp) = some m →
    s.graph.getNode fillLabel key = some n ∨ s.clock ≤ m
  instants : ∀ t ∈ instantsOf c s'.graph, t ∈ instantsOf c s.graph ∨ s.clock ≤ t ∧ t ≤ s'.clock
  runs : ∀ key n, s.graph.getNode pmRunLabel key = some n →
    ∃ n', s'.graph.getNode pmRunLabel key = some n' ∧
      ∀ text, n.props.get? "created_at" = some (.str text) →
        n'.props.get? "created_at" = some (.str text)

namespace Grown

variable {s s' s'' : BookState τ}

theorem refl (s : BookState τ) : Grown c s s :=
  ⟨le_rfl, fun _ _ hn _ => hn, fun _ _ _ hn _ _ => .inl hn, fun _ ht => .inl ht,
    fun _ n hn => ⟨n, hn, fun _ htext => htext⟩⟩

theorem trans (h : Grown c s s') (h' : Grown c s' s'') : Grown c s s'' where
  clock := h.clock.trans h'.clock
  frozen key n hn hfilled := h'.frozen key n (h.frozen key n hn hfilled) hfilled
  fills key n m hn hfilled hm := by
    rcases h'.fills key n m hn hfilled hm with hold | hnew
    · exact h.fills key n m hold hfilled hm
    · exact .inr (h.clock.trans hnew)
  instants t ht := by
    rcases h'.instants t ht with hold | hnew
    · exact (h.instants t hold).imp id fun hnew => ⟨hnew.1, hnew.2.trans h'.clock⟩
    · exact .inr ⟨h.clock.trans hnew.1, hnew.2⟩
  runs key n hn := by
    obtain ⟨n', hn', hkept⟩ := h.runs key n hn
    obtain ⟨n'', hn'', hkept'⟩ := h'.runs key n' hn'
    exact ⟨n'', hn'', fun text htext => hkept' text (hkept text htext)⟩

/-- A state with the same runs and Fills. -/
theorem of_same (hclock : s.clock ≤ s'.clock)
    (hruns : ∀ key, s'.graph.getNode pmRunLabel key = s.graph.getNode pmRunLabel key)
    (hfills : ∀ key n, s.graph.getNode fillLabel key = some n → isFilled n = true →
      s'.graph.getNode fillLabel key = some n)
    (hnew : ∀ key n m, s'.graph.getNode fillLabel key = some n → isFilled n = true →
      utcInstant c (n.get refreshedAtProp) = some m →
      s.graph.getNode fillLabel key = some n ∨ s.clock ≤ m) : Grown c s s' := by
  refine ⟨hclock, hfills, hnew, fun t ht => .inl ?_, fun key n hn => ⟨n, (hruns key).trans hn,
    fun _ htext => htext⟩⟩
  obtain ⟨key, n, hn, hinstant⟩ := mem_instantsOf.mp ht
  exact mem_instantsOf.mpr ⟨key, n, (hruns key).symm.trans hn, hinstant⟩

end Grown

/-! ### One move -/

variable {s s' : BookState τ}

theorem pmRunLabel_ne_fill : pmRunLabel ≠ fillLabel := by decide

theorem pmRunLabel_ne_status : pmRunLabel ≠ brokerOrderStatusLabel := by decide

theorem grown_refresh {reports : List BrokerFill} {key : String} {now : τ} (hclock : s.clock ≤ now)
    (hok : bookStep c digest s (.refresh reports key now) = .ok s') : Grown c s s' := by
  rw [bookStep] at hok
  split at hok
  · cases hok
    exact .refl _
  rename_i fill hfill
  obtain ⟨-, rfl⟩ := Graph.getNode_nodeKey hfill
  obtain ⟨t, ht, hret⟩ := Fallible.bind_eq_ok.mp hok
  cases hret
  have hleaves := refreshRead_leaves hfill ht
  obtain ⟨fill', hfill', hcase⟩ := hleaves.own
  have hother : ∀ key, key ≠ fill.key → t.getNode fillLabel key = s.graph.getNode fillLabel key :=
    fun key hne => hleaves.others _ _ fillLabel_ne_status fun heq => hne (Prod.mk.inj heq).2
  refine .of_same hclock (fun key => hleaves.others _ _ pmRunLabel_ne_status
    fun heq => pmRunLabel_ne_fill (Prod.mk.inj heq).1) (fun key n hn hfilled => ?_)
    fun key n m hn hfilled hm => ?_
  · by_cases hkey : key = fill.key
    · subst hkey
      cases hfill.symm.trans hn
      rcases hcase with rfl | ⟨hopen, -⟩
      · exact hfill'
      · exact absurd hfilled (by rw [hopen]; exact Bool.false_ne_true)
    · exact (hother key hkey).trans hn
  · by_cases hkey : key = fill.key
    · subst hkey
      cases hfill'.symm.trans hn
      rcases hcase with rfl | ⟨-, htime⟩
      · exact .inl hfill
      · rw [Node.get, Props.get, htime hfilled, Option.getD_some, utcInstant, c.read_back] at hm
        cases hm
        exact .inr hclock
    · exact .inl ((hother key hkey).symm.trans hn)

omit [LinearOrder τ] in
/-- The instants after a write are those before it, and that of the node it merges. -/
theorem instantsOf_write {g g' : PipelineGraph} {w : Write Document} (hok : g.write w = .ok g')
    {t : τ} (ht : t ∈ instantsOf c g') : t ∈ instantsOf c g ∨
      ∃ key n, w.node? = some (pmRunLabel, key) ∧ g'.getNode pmRunLabel key = some n ∧
        utcInstant c (n.get "created_at") = some t := by
  obtain ⟨key, n, hn, hinstant⟩ := mem_instantsOf.mp ht
  by_cases hnode : w.node? = some (pmRunLabel, key)
  · exact .inr ⟨key, n, hnode, hn, hinstant⟩
  · rw [Graph.getNode_write hok hnode] at hn
    exact .inl (mem_instantsOf.mpr ⟨key, n, hn, hinstant⟩)

/-- A text property stands after any write. -/
theorem run_kept {g g' : PipelineGraph} {w : Write Document} (hok : g.write w = .ok g')
    {key : String} {n : PipelineNode} (hn : g.getNode pmRunLabel key = some n) :
    ∃ n', g'.getNode pmRunLabel key = some n' ∧
      ∀ text, n.props.get? "created_at" = some (.str text) →
        n'.props.get? "created_at" = some (.str text) := by
  obtain ⟨n', hn', hgrows⟩ := (Graph.write_extends hok).nodes _ _ n hn
  exact ⟨n', hn', fun text htext => hgrows.get_str (by decide) htext⟩

theorem grown_pmRun {key : String} {props : Props Document} {now : τ} (hclock : s.clock ≤ now)
    (hok : bookStep c digest s (.pmRun key props now) = .ok s') : Grown c s s' := by
  obtain ⟨t, ht, hret⟩ := Fallible.bind_eq_ok.mp hok
  cases hret
  rw [liftGraph_eq_ok] at ht
  have hfills : ∀ k, t.getNode fillLabel k = s.graph.getNode fillLabel k := fun k =>
    Graph.getNode_write ht fun h => pmRunLabel_ne_fill (Prod.mk.inj (Option.some.inj h)).1
  refine ⟨hclock, fun k n hn _ => (hfills k).trans hn, fun k n _ hn _ _ => .inl ?_, fun u hu => ?_,
    fun k n hn => run_kept ht hn⟩
  · exact (hfills k).symm.trans hn
  · rcases instantsOf_write ht hu with hold | ⟨k, n, hnode, hn, hinstant⟩
    · exact .inl hold
    · cases hnode
      obtain ⟨⟨g₁, m⟩, hmerge, hret⟩ := Fallible.bind_eq_ok.mp ht
      cases hret
      have hcreated := Graph.mergeNode_get? hmerge "created_at"
      obtain ⟨rfl, hlabel, hkey, -⟩ := Graph.mergeNode_ok hmerge
      rw [Graph.getNode_put, if_pos ⟨hlabel.symm, hkey.symm⟩] at hn
      cases hn
      rw [Dict.get?_set_self, Option.some_or] at hcreated
      rw [Node.get, Props.get, hcreated, Option.getD_some, utcInstant, c.read_back] at hinstant
      cases hinstant
      exact .inr ⟨hclock, le_rfl⟩

/-- The node of a merge that is allowed on a Fill: it is filled only if it was, and then nothing on
it has changed. -/
theorem merged_fill {g g' : PipelineGraph} {key : String} {props : Props Document}
    {n : PipelineNode} (hok : g.write (.merge fillLabel key props) = .ok g')
    (hnames : ∀ name ∈ refreshNames, props.get? name = none)
    (hrepeats : ∀ m ∈ g.getNode fillLabel key, isFilled m = true → Repeats m props)
    (hn : g'.getNode fillLabel key = some n) (hfilled : isFilled n = true) :
    g.getNode fillLabel key = some n := by
  obtain ⟨⟨g₁, merged⟩, hmerge, hret⟩ := Fallible.bind_eq_ok.mp hok
  cases hret
  have hstatus := Graph.mergeNode_get? hmerge "broker_status"
  rw [hnames _ (by decide), Option.none_or] at hstatus
  obtain ⟨rfl, hlabel, hkey, hversion, hcase⟩ := Graph.mergeNode_ok hmerge
  rw [Graph.getNode_put, if_pos ⟨hlabel.symm, hkey.symm⟩] at hn
  cases hn
  rcases hcase with ⟨hnone, -⟩ | ⟨m, hm, hmversion, -, hprops⟩
  · rw [hnone, Option.bind_none] at hstatus
    rw [isFilled, Node.get, Props.get, hstatus] at hfilled
    exact absurd hfilled (by decide)
  · rw [hm, Option.bind_some] at hstatus
    rw [isFilled_congr hstatus] at hfilled
    have hsame : m.props.update props = m.props :=
      Dict.setAll_of_get? (hrepeats m hm hfilled)
    obtain ⟨hmlabel, hmkey⟩ := Graph.getNode_nodeKey hm
    rw [hm, Option.some_inj]
    cases m
    cases n
    simp only at hmlabel hmkey hlabel hkey hversion hmversion hprops hsame
    rw [hmlabel, hmkey, hmversion, hlabel, hkey, hversion, hprops, hsame]

/-- A filled Fill stands as it is after an allowed merge. -/
theorem frozen_fill {g g' : PipelineGraph} {key : String} {props : Props Document}
    {n : PipelineNode} (hok : g.write (.merge fillLabel key props) = .ok g')
    (hnames : ∀ name ∈ refreshNames, props.get? name = none)
    (hrepeats : ∀ m ∈ g.getNode fillLabel key, isFilled m = true → Repeats m props)
    (hn : g.getNode fillLabel key = some n) (hfilled : isFilled n = true) :
    g'.getNode fillLabel key = some n := by
  obtain ⟨n', hn', -⟩ := (Graph.write_extends hok).nodes _ _ n hn
  obtain ⟨⟨g₁, merged⟩, hmerge, hret⟩ := Fallible.bind_eq_ok.mp hok
  have hstatus := Graph.mergeNode_get? hmerge "broker_status"
  rw [hnames _ (by decide), Option.none_or, hn, Option.bind_some] at hstatus
  cases hret
  obtain ⟨rfl, hlabel, hkey, -⟩ := Graph.mergeNode_ok hmerge
  have hmerged := hn'
  rw [Graph.getNode_put, if_pos ⟨hlabel.symm, hkey.symm⟩] at hmerged
  cases hmerged
  have hstill : isFilled n' = true := by rw [isFilled_congr hstatus, hfilled]
  rw [← hn, merged_fill hok hnames hrepeats hn' hstill]
  exact hn'

theorem grown_write {w : Write Document} (hallowed : BookAllowed s (.write w))
    (hok : bookStep c digest s (.write w) = .ok s') : Grown c s s' := by
  obtain ⟨t, ht, hret⟩ := Fallible.bind_eq_ok.mp hok
  cases hret
  rw [liftGraph_eq_ok] at ht
  cases w with
  | link e =>
    have hsame : ∀ label key, t.getNode label key = s.graph.getNode label key :=
      fun label key => Graph.getNode_write ht nofun
    exact .of_same le_rfl (fun key => hsame _ key) (fun key n hn _ => (hsame _ key).trans hn)
      fun key n _ hn _ _ => .inl ((hsame _ key).symm.trans hn)
  | merge label key props =>
    obtain ⟨hfill, hrun⟩ := hallowed
    have hother : ∀ k, (label, key) ≠ (fillLabel, k) →
        t.getNode fillLabel k = s.graph.getNode fillLabel k :=
      fun k hne => Graph.getNode_write ht fun h => hne (Option.some.inj h)
    refine ⟨le_rfl, fun k n hn hfilled => ?_, fun k n _ hn hfilled _ => .inl ?_,
      fun u hu => .inl ?_, fun k n hn => run_kept ht hn⟩
    · by_cases hsame : (label, key) = (fillLabel, k)
      · cases hsame
        exact frozen_fill ht (hfill rfl).1 (hfill rfl).2 hn hfilled
      · exact (hother k hsame).trans hn
    · by_cases hsame : (label, key) = (fillLabel, k)
      · cases hsame
        exact merged_fill ht (hfill rfl).1 (hfill rfl).2 hn hfilled
      · exact (hother k hsame).symm.trans hn
    · rcases instantsOf_write ht hu with hold | ⟨k, n, hnode, hn, hinstant⟩
      · exact hold
      · cases hnode
        obtain ⟨⟨g₁, m⟩, hmerge, hret⟩ := Fallible.bind_eq_ok.mp ht
        cases hret
        have hcreated := Graph.mergeNode_get? hmerge "created_at"
        obtain ⟨rfl, hlabel, hkey, -⟩ := Graph.mergeNode_ok hmerge
        rw [Graph.getNode_put, if_pos ⟨hlabel.symm, hkey.symm⟩] at hn
        cases hn
        cases hprops : props.get? "created_at" with
        | some v =>
          obtain ⟨source, hsource, hv⟩ := hrun rfl v hprops
          rw [hprops, Option.some_or] at hcreated
          rw [Node.get, Props.get, hcreated, ← hv] at hinstant
          exact mem_instantsOf.mpr
            ⟨source.key, source, (Graph.mem_listNodes.mp hsource).2, hinstant⟩
        | none =>
          rw [hprops, Option.none_or] at hcreated
          cases hm : s.graph.getNode pmRunLabel key with
          | none =>
            rw [hm, Option.bind_none] at hcreated
            rw [Node.get, Props.get, hcreated] at hinstant
            cases hinstant
          | some m =>
            rw [hm, Option.bind_some] at hcreated
            rw [Node.get, Props.get, hcreated] at hinstant
            exact mem_instantsOf.mpr ⟨key, m, hm, hinstant⟩

theorem grown_step {i : BookMove τ} (hallowed : BookAllowed s i)
    (hok : bookStep c digest s i = .ok s') : Grown c s s' := by
  cases i with
  | refresh reports key now => exact grown_refresh hallowed hok
  | pmRun key props now => exact grown_pmRun hallowed hok
  | write w => exact grown_write hallowed hok

/-- What a run keeps of the state that it starts from. -/
theorem BookRun.grown (h : BookRun c digest s s') : Grown c s s' := by
  induction h with
  | start hs => exact hs ▸ .refl _
  | step i _ hallowed hok ih => exact ih.trans (grown_step hallowed hok)

/-- No run is created after the last reading of the clock. -/
theorem BookRun.instants_le {at₀ : τ} (h : BookRun c digest ⟨.empty, at₀⟩ s) {t : τ}
    (ht : t ∈ instantsOf c s.graph) : t ≤ s.clock := by
  rcases h.grown.instants t ht with hempty | hnew
  · cases hempty
  · exact hnew.2

/-! ### The metrics of a run -/

/-- The filled Fills of a store with the times at which they became known. -/
def timedFills (c : IsoClock τ) (g : PipelineGraph) : List (TimedFill τ) :=
  filledFills c (g.listNodes fillLabel)

omit [LinearOrder τ] in
theorem mem_timedFills {g : PipelineGraph} {m : τ} {n : PipelineNode} :
    (m, n) ∈ timedFills c g ↔ g.getNode fillLabel n.key = some n ∧ isFilled n = true ∧
      utcInstant c (n.get refreshedAtProp) = some m := by
  rw [timedFills, filledFills, List.mem_filterMap]
  constructor
  · rintro ⟨fill, hfill, hsome⟩
    split at hsome
    · rename_i hfilled
      obtain ⟨moment, hmoment, heq⟩ := Option.map_eq_some_iff.mp hsome
      cases heq
      exact ⟨(Graph.mem_listNodes.mp hfill).2, hfilled, hmoment⟩
    · cases hsome
  · rintro ⟨hn, hfilled, hm⟩
    refine ⟨n, Graph.mem_listNodes.mpr ⟨(Graph.getNode_nodeKey hn).1, hn⟩, ?_⟩
    rw [if_pos hfilled]
    exact Option.map_eq_some_iff.mpr ⟨m, hm, rfl⟩

omit [LinearOrder τ] in
theorem nodup_timedFills (c : IsoClock τ) (g : PipelineGraph) : (timedFills c g).Nodup := by
  have hfills : (g.listNodes fillLabel).Nodup := (g.nodup_listNodes_keys fillLabel).of_map _
  refine hfills.filterMap fun a a' b hb hb' => ?_
  have hfill : ∀ {n : PipelineNode}, b ∈ (if isFilled n then
      (utcInstant c (n.get "broker_status_refreshed_at")).map fun moment => (moment, n)
      else none) → b.2 = n := by
    intro n hn
    rw [Option.mem_def] at hn
    split at hn
    · obtain ⟨moment, -, rfl⟩ := Option.map_eq_some_iff.mp hn
      rfl
    · cases hn
  exact (hfill hb).symm.trans (hfill hb')

/-- The counts of the window of an instant. -/
def windowCounts (c : IsoClock τ) (g : PipelineGraph) (t : τ) : BookCounts :=
  bookCounts (fillsBetween (timedFills c g) (lastBefore (instantsOf c g) t) t)

/-- A Fill lies in a window as it is read. -/
theorem mem_fillsBetween {g : PipelineGraph} {t m : τ} {n : PipelineNode}
    (hn : (m, n) ∈ timedFills c g) :
    n ∈ fillsBetween (timedFills c g) (lastBefore (instantsOf c g) t) t ↔
      InWindow (instantsOf c g) t m := by
  simp only [fillsBetween, List.mem_map, List.mem_filter, Bool.and_eq_true, decide_eq_true_eq,
    inWindow_iff]
  constructor
  · rintro ⟨⟨m', n'⟩, ⟨hn', hin⟩, rfl⟩
    cases (mem_timedFills.mp hn).2.2.symm.trans (mem_timedFills.mp hn').2.2
    exact hin
  · exact fun hin => ⟨(m, n), ⟨hn, hin⟩, rfl⟩

/-- A count of a window is a count over the filled Fills. -/
theorem countP_window {g : PipelineGraph} (p : PipelineNode → Bool) (t : τ) :
    (fillsBetween (timedFills c g) (lastBefore (instantsOf c g) t) t).countP p =
      (timedFills c g).countP fun a => p a.2 && decide (InWindow (instantsOf c g) t a.1) := by
  rw [fillsBetween, List.countP_map, List.countP_filter]
  refine List.countP_congr fun a _ => ?_
  simp only [Function.comp_apply, Bool.and_eq_true, decide_eq_true_eq, inWindow_iff]

/-- A Fill that became known at `t`, but only after the first of two states. -/
def LateFill (c : IsoClock τ) (g g' : PipelineGraph) (t : τ) : Prop :=
  ∃ n, (t, n) ∈ timedFills c g' ∧ (t, n) ∉ timedFills c g

/-- Up to an instant that the clock has reached, nothing but a late Fill comes in. -/
theorem Grown.perm_timedFills (h : Grown c s s') {t : τ} (ht : t ≤ s.clock)
    (hlate : ¬ LateFill c s.graph s'.graph t) :
    ((timedFills c s'.graph).filter (·.1 ≤ t)).Perm ((timedFills c s.graph).filter (·.1 ≤ t)) := by
  refine (List.perm_ext_iff_of_nodup ((nodup_timedFills c _).filter _)
    ((nodup_timedFills c _).filter _)).mpr ?_
  rintro ⟨m, n⟩
  simp only [List.mem_filter, decide_eq_true_eq]
  constructor
  · rintro ⟨hn, hle⟩
    obtain ⟨hget, hfilled, hm⟩ := mem_timedFills.mp hn
    rcases h.fills _ n m hget hfilled hm with hold | hnew
    · exact ⟨mem_timedFills.mpr ⟨hold, hfilled, hm⟩, hle⟩
    · have hsame : m = t := le_antisymm hle (ht.trans hnew)
      subst hsame
      refine ⟨?_, hle⟩
      by_contra hnot
      exact hlate ⟨n, hn, hnot⟩
  · rintro ⟨hn, hle⟩
    obtain ⟨hget, hfilled, hm⟩ := mem_timedFills.mp hn
    exact ⟨mem_timedFills.mpr ⟨h.frozen _ n hget hfilled, hfilled, hm⟩, hle⟩

/-- A late Fill comes in only while the clock still reads its instant. -/
theorem Grown.clock_le_of_late (h : Grown c s s') {t : τ} (hlate : LateFill c s.graph s'.graph t) :
    s.clock ≤ t := by
  obtain ⟨n, hn, hnot⟩ := hlate
  obtain ⟨hget, hfilled, ht⟩ := mem_timedFills.mp hn
  refine (h.fills _ n t hget hfilled ht).resolve_left fun hold => hnot ?_
  exact mem_timedFills.mpr ⟨hold, hfilled, ht⟩

/-- The window of an instant that the clock has reached starts where it started. -/
theorem Grown.lastBefore_eq (h : Grown c s s') {t : τ} (ht : t ≤ s.clock) :
    lastBefore (instantsOf c s'.graph) t = lastBefore (instantsOf c s.graph) t := by
  refine lastBefore_congr fun u hu => ⟨fun hin => ?_, fun hin => ?_⟩
  · rcases h.instants u hin with hold | hnew
    · exact hold
    · exact absurd hnew.1 (not_le.mpr (hu.trans_le ht))
  · obtain ⟨key, n, hn, hinstant⟩ := mem_instantsOf.mp hin
    obtain ⟨text, htext, hread⟩ := utcInstant_eq_some.mp hinstant
    obtain ⟨n', hn', hkept⟩ := h.runs key n hn
    refine mem_instantsOf.mpr ⟨key, n', hn', ?_⟩
    rw [get_eq_str.mpr (hkept text (get_eq_str.mp htext))]
    exact hread

theorem fillsBetween_eq_filter (timed : List (TimedFill τ)) (after : Option τ) (t : τ) :
    fillsBetween timed after t = ((timed.filter (·.1 ≤ t)).filter fun p =>
      decide (∀ a, after = some a → a < p.1)).map Prod.snd := by
  rw [fillsBetween, List.filter_filter]
  refine congrArg _ (List.filter_congr fun p _ => ?_)
  rw [Bool.and_comm]

theorem exitsSince_eq_filter (timed : List (TimedFill τ)) (since t : τ) :
    exitsSince timed since t = ((timed.filter (·.1 ≤ t)).filter fun p =>
      decide (since ≤ p.1) && isSide "sell" p.2).map Prod.snd := by
  rw [exitsSince, List.filter_filter]
  refine congrArg _ (List.filter_congr fun p _ => ?_)
  rw [Bool.and_right_comm]

theorem bookCounts_perm {l l' : List PipelineNode} (h : l.Perm l') : bookCounts l =
    bookCounts l' := by
  rw [bookCounts, bookCounts, h.countP_eq, h.countP_eq, h.countP_eq]

theorem collectTradeOutcomes_perm {l l' : List PipelineNode} (h : l.Perm l') :
    collectTradeOutcomes l = collectTradeOutcomes l' := by
  have hpnls := h.filterMap pnlCents
  unfold collectTradeOutcomes
  generalize l.filterMap pnlCents = pnls at hpnls
  generalize l'.filterMap pnlCents = pnls' at hpnls
  cases pnls with
  | nil => rw [hpnls.nil_eq]
  | cons a rest =>
    cases pnls' with
    | nil => cases hpnls.symm.nil_eq
    | cons a' rest' =>
      simp only
      rw [hpnls.length_eq, hpnls.sum_eq, (hpnls.filter _).sum_eq, (hpnls.filter _).sum_eq]

/-- The metrics of a run that the clock has reached change by a late Fill only. -/
theorem Grown.readBookMetrics_eq (h : Grown c s s') {run run' : PipelineNode} {t : τ} (since : τ)
    (hrun : s.graph.getNode pmRunLabel run.key = some run)
    (hrun' : s'.graph.getNode pmRunLabel run.key = some run')
    (hinstant : utcInstant c (run.get "created_at") = some t) (ht : t ≤ s.clock)
    (hlate : ¬ LateFill c s.graph s'.graph t) :
    readBookMetrics c s'.graph run' since = readBookMetrics c s.graph run since := by
  obtain ⟨text, htext, hread⟩ := utcInstant_eq_some.mp hinstant
  obtain ⟨n', hn', hkept⟩ := h.runs _ run hrun
  cases hrun'.symm.trans hn'
  have hinstant' : utcInstant c (run'.get "created_at") = some t := by
    rw [get_eq_str.mpr (hkept text (get_eq_str.mp htext))]
    exact hread
  have htimed : ((filledFills c (s'.graph.listNodes fillLabel)).filter (·.1 ≤ t)).Perm
      ((filledFills c (s.graph.listNodes fillLabel)).filter (·.1 ≤ t)) :=
    h.perm_timedFills ht hlate
  have hstart : windowStart c (s'.graph.listNodes pmRunLabel) t =
      windowStart c (s.graph.listNodes pmRunLabel) t := h.lastBefore_eq ht
  rw [readBookMetrics, readBookMetrics, hinstant, hinstant', Option.map_some, Option.map_some,
    Option.some_inj]
  simp only [hstart, fillsBetween_eq_filter, exitsSince_eq_filter]
  rw [bookCounts_perm ((htimed.filter _).map _), collectTradeOutcomes_perm
    ((htimed.filter _).map _)]

/-- The book windows of a state: each filled Fill in one window, each counted once, and the metrics
of the runs that stand kept in every later state. -/
structure BookWindows (c : IsoClock τ) (digest : String → String) (s : BookState τ) (since : τ) :
    Prop where
  /-- A filled Fill lies in the window of the first instant that is no earlier, and in no other. -/
  placed : ∀ m n, (m, n) ∈ timedFills c s.graph → (∃ u ∈ instantsOf c s.graph, m ≤ u) →
    ∃ t, IsLeast {u | u ∈ instantsOf c s.graph ∧ m ≤ u} t ∧ ∀ u ∈ instantsOf c s.graph,
      n ∈ fillsBetween (timedFills c s.graph) (lastBefore (instantsOf c s.graph) u) u ↔ u = t
  /-- What a run reports is the count of the window of its instant. -/
  reported : ∀ run t, utcInstant c (run.get "created_at") = some t →
    (readBookMetrics c s.graph run since).map BookMetrics.counts = some (windowCounts c s.graph t)
  /-- The windows count every buy and every sell once. -/
  opened : ∑ t ∈ (instantsOf c s.graph).toFinset, (windowCounts c s.graph t).positionsOpened =
    (timedFills c s.graph).countP fun a => isSide "buy" a.2 &&
      decide (∃ u ∈ instantsOf c s.graph, a.1 ≤ u)
  closed : ∑ t ∈ (instantsOf c s.graph).toFinset, (windowCounts c s.graph t).positionsClosed =
    (timedFills c s.graph).countP fun a => isSide "sell" a.2 &&
      decide (∃ u ∈ instantsOf c s.graph, a.1 ≤ u)
  /-- A Fill is late only while the clock still reads the instant. -/
  late : ∀ t s', BookRun c digest s s' → t < s.clock → ¬ LateFill c s.graph s'.graph t
  /-- Without a late Fill a later reading gives the same numbers. -/
  kept : ∀ run t, s.graph.getNode pmRunLabel run.key = some run →
    utcInstant c (run.get "created_at") = some t → ∀ s' run', BookRun c digest s s' →
    s'.graph.getNode pmRunLabel run.key = some run' → ¬ LateFill c s.graph s'.graph t →
    readBookMetrics c s'.graph run' since = readBookMetrics c s.graph run since

/-- In every run under a clock that does not go back, the windows hold every filled Fill once and
the metrics stay what they were, unless a Fill becomes known late at the very instant of a run. -/
theorem runs_bookWindows {at₀ : τ} (h : BookRun c digest ⟨.empty, at₀⟩ s) (since : τ) :
    BookWindows c digest s since := by
  refine ⟨fun m n hn hle => ?_, fun run t hinstant => ?_, ?_, ?_,
    fun t s' hlater hlt hlate => not_le.mpr hlt (hlater.grown.clock_le_of_late hlate),
    fun run t hrun hinstant s' run' hlater hrun' hlate => ?_⟩
  · obtain ⟨t, ht, hin⟩ := exists_window hle
    refine ⟨t, (inWindow_iff_isLeast ht).mp hin, fun u hu => (mem_fillsBetween hn).trans
      ⟨fun hin' =>
      window_unique hu ht hin' hin, fun heq => heq ▸ hin⟩⟩
  · rw [readBookMetrics, hinstant]
    rfl
  · simp only [windowCounts, bookCounts, countP_window]
    exact sum_countP_inWindow Prod.fst (fun a => isSide "buy" a.2) _
  · simp only [windowCounts, bookCounts, countP_window]
    exact sum_countP_inWindow Prod.fst (fun a => isSide "sell" a.2) _
  · exact hlater.grown.readBookMetrics_eq since hrun hrun' hinstant
      (h.instants_le (mem_instantsOf.mpr ⟨run.key, run, hrun, hinstant⟩)) hlate

end Moves

/-! ### Two runs -/

def threeTimes : Fin 3 → String
  | 0 => "2026-10-01T03:57:58+00:00"
  | 1 => "2026-10-01T22:30:51+00:00"
  | 2 => "2026-10-01T22:40:17+00:00"

/-- A clock with three instants. -/
def threeClock : IsoClock (Fin 3) where
  isoformat := threeTimes
  fromisoformat text := [0, 1, 2].find? fun t => threeTimes t = text
  read_back := by decide

def buyKey : String := "pm-run-1:TGT:buy"

def buyReport : BrokerFill where
  idempotencyKey := buyKey
  ticker := "TGT"
  side := .buy
  quantity := 1
  price := ⟨90, "USD"⟩
  brokerOrderId := "o1"
  status := .filled

def firstRun : List (BookMove (Fin 3)) := [
  .pmRun "pm-run-1" .empty 0,
  .write (.merge fillLabel buyKey (.ofList [("side", .str "buy"), ("status", .str "pending")]))]

/-- The buy of a run is filled before the next run, which is resumed. -/
def filledBetween : List (BookMove (Fin 3)) := firstRun ++ [
  .refresh [buyReport] buyKey 1,
  .pmRun "pm-run-2" .empty 2,
  .write (.merge pmRunLabel "resume-link:pm-run-2" (.ofList [
    ("created_at", .str (threeTimes 2)), ("linked_from_key", .str "pm-run-2")]))]

def bookStart : BookState (Fin 3) := ⟨.empty, 0⟩

/-- The buy is opened in the window of the second run. -/
theorem filledBetween_bookWindows : ∃ s, BookWindows threeClock id s 0 ∧
    (windowCounts threeClock s.graph 0).positionsOpened = 0 ∧
    (windowCounts threeClock s.graph 2).positionsOpened = 1 := by
  have hrun : Fallible.check (fun s : BookState (Fin 3) => decide
      ((windowCounts threeClock s.graph 0).positionsOpened = 0 ∧
        (windowCounts threeClock s.graph 2).positionsOpened = 1))
      (filledBetween.foldlM (fun s i => if BookAllowed s i then bookStep threeClock id s i
        else .error (.keyError "")) bookStart) = true := by decide +kernel
  obtain ⟨s, hs, hcheck⟩ := Fallible.check_eq_true.mp hrun
  exact ⟨s, runs_bookWindows (.of_checked (.start rfl) hs) 0, of_decide_eq_true hcheck⟩

def firstState : Except HandlerError (BookState (Fin 3)) :=
  firstRun.foldlM (fun s i => if BookAllowed s i then bookStep threeClock id s i
    else .error (.keyError "")) bookStart

/-- A Fill that is refreshed at the instant of the run, but after the run was reported, is counted
when the run is reported again. -/
theorem tiedFill_changes : ¬ ∀ s : BookState (Fin 3), BookRun threeClock id bookStart s →
    ∀ run, s.graph.getNode pmRunLabel "pm-run-1" = some run →
    ∀ s' run', BookRun threeClock id s s' → s'.graph.getNode pmRunLabel "pm-run-1" = some run' →
    readBookMetrics threeClock s'.graph run' 0 = readBookMetrics threeClock s.graph run 0 := by
  intro hall
  have hrun : Fallible.check (fun p : BookState (Fin 3) × BookState (Fin 3) => decide
      (∃ run ∈ p.1.graph.getNode pmRunLabel "pm-run-1",
        ∃ run' ∈ p.2.graph.getNode pmRunLabel "pm-run-1",
          readBookMetrics threeClock p.2.graph run' 0 ≠
            readBookMetrics threeClock p.1.graph run 0))
      (do
        let s ← firstState
        let s' ← [BookMove.refresh [buyReport] buyKey 0].foldlM (fun s i =>
          if BookAllowed s i then bookStep threeClock id s i else .error (.keyError "")) s
        pure (s, s')) = true := by decide +kernel
  obtain ⟨⟨s, s'⟩, hs, hcheck⟩ := Fallible.check_eq_true.mp hrun
  obtain ⟨t, ht, hs⟩ := Fallible.bind_eq_ok.mp hs
  obtain ⟨t', ht', hret⟩ := Fallible.bind_eq_ok.mp hs
  cases hret
  obtain ⟨run, hget, run', hget', hne⟩ := of_decide_eq_true hcheck
  exact hne (hall s (.of_checked (.start rfl) ht) run hget s' run'
    (.of_checked (.start rfl) ht') hget')

end TradingAgents.Reporter
