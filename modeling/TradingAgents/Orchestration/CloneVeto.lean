import TradingAgents.Orchestration.ResumeStart

/-! The execution agent beside a resume that clones a PMRun: any single write of the placement may
come between two reads of a pass.  The clone can be found from its first write on, and it inherits
the DELIBERATED_BY edge of its source some writes later. -/

namespace TradingAgents.Orchestration

open Kernel ProofKit Execution

/-! ### A pass beside a placement -/

/-- How far a pass over one PMRun has come, with the graph and the clock of each read it made. -/
inductive PassPhase where
  | idle
  | polled (found : List PipelineNode) (graph : PipelineGraph) (polledAt : Int)
  | classified (found : List PipelineNode) (graph : PipelineGraph) (polledAt : Int)
      (classified : PipelineGraph) (now : Int)
  | vetoed (found : List PipelineNode) (graph : PipelineGraph) (polledAt : Int)
      (classified : PipelineGraph) (now : Int) (vetoed : PipelineGraph)

/-- One PMRun that execution took up: what it read, and what came of it. -/
structure TakenUp where
  node : PipelineNode
  reads : GraphReads
  outcome : Except HandlerError PmExecution

/-- A placement and the execution agent at work on one graph. -/
structure Interleaving where
  placing : Placing
  phase : PassPhase := .idle
  taken : List TakenUp := []

inductive InterleavedEvent where
  | placement
  | elsewhere (w : Write Document)
  | poll (now : Int)
  | classify (now : Int)
  | readVeto
  | submit (key : NodeKey) (runStart : Except HandlerError Unit)
      (reply : Nat → BrokerOrder → BrokerReply)

/-- A write of the placement, another write, or the next read of the pass; its submission is that of
a PMRun the poll found. -/
def Interleaving.step (fromIso : String → Option Int) (settings : ExecutionSettings)
    (w : Interleaving) : InterleavedEvent → Except HandlerError Interleaving
  | .placement => do
    let p ← w.placing.step .next
    pure { w with placing := p }
  | .elsewhere write => do
    let p ← w.placing.step (.elsewhere write)
    pure { w with placing := p }
  | .poll now => do
    let found ← findPending fromIso w.placing.graph now settings
    pure { w with phase := .polled found w.placing.graph now }
  | .classify now =>
    match w.phase with
    | .polled found graph polledAt =>
      if polledAt ≤ now then
        pure { w with phase := .classified found graph polledAt w.placing.graph now }
      else .error (.validation "now")
    | _ => .error (.validation "poll")
  | .readVeto =>
    match w.phase with
    | .classified found graph polledAt classified now =>
      pure { w with phase := .vetoed found graph polledAt classified now w.placing.graph }
    | _ => .error (.validation "classify")
  | .submit key runStart reply =>
    match w.phase with
    | .vetoed found graph polledAt classified now vetoed =>
      match found.find? fun node => decide (node.nodeKey = key) with
      | some node =>
        let reads : GraphReads := ⟨classified, now, vetoed, w.placing.graph, runStart⟩
        pure { w with
          phase := .polled found graph polledAt
          taken := w.taken ++ [⟨node, reads, executePmNode fromIso reply settings node reads⟩] }
      | none => .error (.validation "found")
    | _ => .error (.validation "veto")

/-- The other writes are those of the execution agent: it merges no PMRun and links no
deliberation. -/
def ExecutionWrites (_ : Interleaving) : InterleavedEvent → Prop
  | .elsewhere w => (∀ k, w.node? = some k → k.1 ≠ pmRunLabel) ∧
      ∀ e, w.edge? = some e → e.edgeType ≠ deliberatedEdge
  | _ => True

/-- The deliberation vetoed a ticker. -/
def VetoedBy (delib : PipelineNode) (ticker : String) : Prop :=
  ∃ vetoed, vetoedTickers delib = .ok vetoed ∧ isVetoed vetoed ticker = true

/-- The veto of the source holds for a clone that was taken up: it is not classified as having
proceeded without one, and no buy of a vetoed ticker was submitted. -/
structure TakenUp.KeepsVeto (fromIso : String → Option Int) (settings : ExecutionSettings)
    (delib : PipelineNode) (t : TakenUp) : Prop where
  status : ∀ s, orderIntentSet? t.node = some s →
    deliberationStatus fromIso t.reads.classified t.node s t.reads.now
      settings.deliberationGraceSeconds ≠ .proceededUnvetoed
  buys : ∀ exec, t.outcome = .ok exec → ∀ order ∈ exec.submission.submissions,
    order.side = .buy → ¬ VetoedBy delib order.ticker

/-- The graph in which the clone is classified has its deliberation, if it carries a buy of a run
that is not degraded. -/
def TakenUp.Linked (t : TakenUp) : Prop :=
  ∀ s, orderIntentSet? t.node = some s → hasBuy s = true →
    isDegradedRun t.reads.classified s = false →
      linkedDeliberation t.reads.classified t.node.nodeKey ≠ none

/-! ### What a clone inherits -/

section Clone

variable {fromIso : String → Option Int} {settings : ExecutionSettings} {g : PipelineGraph}
  {sourceRunId : String} {stage : ResumeStage} {source pm delib : PipelineNode}
  {nodes : Dict ChainKey PipelineNode} {resumedAt : String}

/-- What stands of the clone of a PMRun: an order set, and no deliberation but the one of the
source. -/
structure Inherits (g : PipelineGraph) (clone : NodeKey) (delib : PipelineNode)
    (t : PipelineGraph) : Prop where
  grows : g.Extends t
  links : ∀ e ∈ t.edges, e.parent = clone → e.edgeType = deliberatedEdge → e.child = delib.nodeKey
  orderSet : ∀ n, t.getNode clone.1 clone.2 = some n → ∃ s, orderIntentSet? n = some s

/-- A write that keeps it. -/
structure InheritsWrite (clone : NodeKey) (delib : PipelineNode) (w : Write Document) : Prop where
  link : ∀ e, w.edge? = some e → e.parent = clone → e.edgeType = deliberatedEdge →
    e.child = delib.nodeKey
  merge : ∀ props, w = .merge clone.1 clone.2 props →
    ∃ s, props.get? "order_intent_set" = some (.doc (.orderIntentSet s))

theorem Inherits.write {clone : NodeKey} {t t' : PipelineGraph} (h : Inherits g clone delib t)
    {w : Write Document} (hw : InheritsWrite clone delib w) (ht : t.write w = .ok t') :
    Inherits g clone delib t' := by
  have hext := Graph.write_extends ht
  refine ⟨h.grows.trans hext, fun e he hparent htype => ?_, fun n hn => ?_⟩
  · rcases (Graph.mem_edges_write ht).mp he with hold | hnew
    · exact h.links e hold hparent htype
    · exact hw.link e hnew hparent htype
  · cases hold : t.getNode clone.1 clone.2 with
    | some m =>
      obtain ⟨s, hs⟩ := h.orderSet m hold
      obtain ⟨m', hm', hgrows⟩ := hext.nodes _ _ m hold
      cases Option.some.inj (hn.symm.trans hm')
      exact ⟨s, orderIntentSet?_eq_some.mpr
        (hgrows.get_doc (by decide) (orderIntentSet?_eq_some.mp hs))⟩
    | none =>
      by_cases hnode : w.node? = some (clone.1, clone.2)
      · cases w with
        | merge label key props =>
          cases Option.some.inj hnode
          obtain ⟨s, hs⟩ := hw.merge props rfl
          rw [Graph.getNode_write_fresh ht hold] at hn
          cases hn
          exact ⟨s, orderIntentSet?_eq_some.mpr hs⟩
        | link e => cases hnode
      · rw [Graph.getNode_write ht hnode, hold] at hn
        cases hn

/-- A deliberation of the clone is that of the source, as it has grown. -/
theorem Inherits.linked {clone : NodeKey} {t : PipelineGraph} (h : Inherits g clone delib t)
    (hdelib : g.getNode delib.label delib.key = some delib) {found : PipelineNode}
    (hfound : linkedDeliberation t clone = some found) : Graph.NodeGrows delib found := by
  rw [linkedDeliberation, Graph.head?_descendants_one] at hfound
  obtain ⟨e, he, hnode⟩ := Option.bind_eq_some_iff.mp hfound
  have hchild := List.find?_some he
  simp only [Graph.childEdge, Bool.and_eq_true, decide_eq_true_eq, List.mem_singleton] at hchild
  rw [h.links e (List.mem_of_find?_eq_some he) hchild.1.1 hchild.1.2] at hnode
  obtain ⟨found', hfound', hgrows⟩ := h.grows.nodes _ _ delib hdelib
  cases Option.some.inj (hnode.symm.trans hfound')
  exact hgrows

theorem canonList_mem_str {xs : List (Value Document)} {ticker : String} :
    .str ticker ∈ Value.canonList xs ↔ .str ticker ∈ xs := by
  induction xs with
  | nil => rfl
  | cons x xs ih => rw [Value.canonList, List.mem_cons, List.mem_cons, ih, eq_comm,
      Value.canon_eq_str, eq_comm]

/-- A vetoed ticker stays vetoed. -/
theorem VetoedBy.grows {found : PipelineNode} {ticker : String} (h : VetoedBy delib ticker)
    (hgrows : Graph.NodeGrows delib found) : VetoedBy found ticker := by
  obtain ⟨vetoed, hvetoed, hticker⟩ := h
  unfold vetoedTickers at hvetoed
  cases hprop : delib.props.get? "vetoed_tickers" with
  | none =>
    rw [hprop] at hvetoed
    cases hvetoed
    cases hticker
  | some v =>
    obtain ⟨w, hw, hcanon⟩ := hgrows _ v (by decide) hprop
    rw [hprop] at hvetoed
    cases v with
    | list xs =>
      cases hvetoed
      cases w with
      | list ys =>
        refine ⟨ys, by simp only [vetoedTickers, hw], isVetoed_iff.mpr ?_⟩
        rw [← canonList_mem_str, (Value.list.inj hcanon), canonList_mem_str]
        exact isVetoed_iff.mp hticker
      | null | bool | int | num | str | doc => cases hcanon
    | str s =>
      cases hvetoed
      rw [Value.canon_eq_str.mp hcanon] at hw
      exact ⟨_, by simp only [vetoedTickers, hw], hticker⟩
    | null | bool | int | num | doc => cases hvetoed

theorem artifact_edge_ne {a : ResumeArtifact} (ha : a ∈ artifacts) : a.edge ≠ deliberatedEdge := by
  revert a
  decide

/-- The edges of a clone to its parent and its source link no deliberation. -/
theorem artifactEdges_type {child : String} {a : ResumeArtifact} (ha : a ∈ artifacts)
    {from_ : NodeKey} {e : Edge} (he : e ∈ artifactEdges child a from_) :
    e.edgeType ≠ deliberatedEdge := by
  simp only [artifactEdges, List.mem_append, List.mem_cons, List.not_mem_nil, or_false] at he
  rcases he with (rfl | rfl) | he
  · exact artifact_edge_ne ha
  · exact (by decide : linkedFromEdge ≠ deliberatedEdge)
  · split at he
    · rw [List.mem_singleton.mp he]
      exact (by decide : derivedFromEdge ≠ deliberatedEdge)
    · cases he

theorem InheritsWrite.link_other {clone parent child : NodeKey} {edgeType : String}
    (h : edgeType ≠ deliberatedEdge) :
    InheritsWrite clone delib (.link ⟨parent, child, edgeType⟩) where
  link _ he _ htype := by
    cases he
    exact absurd htype h
  merge _ heq := by cases heq

theorem InheritsWrite.merge_other {clone : NodeKey} {label key : String} {props : Props Document}
    (h : (label, key) ≠ clone) : InheritsWrite clone delib (.merge label key props) where
  link _ he := by cases he
  merge _ heq := by
    cases heq
    exact absurd rfl h

/-- The clone's edge to a side branch leads to the deliberation of the source. -/
theorem sideEdges_inherits {t : PipelineGraph} {child : String}
    (hpm : nodes.get? .pmRun = some pm) {found : PipelineNode}
    (hlinked : linkedDeliberation t pm.nodeKey = some found)
    (hkey : found.nodeKey = delib.nodeKey) {a : ResumeArtifact} (ha : a ∈ artifacts)
    {src : PipelineNode} (hsrc : nodes.get? a.chainKey = some src) {e : Edge}
    (he : e ∈ sideEdges t child a src.nodeKey) :
    InheritsWrite (cloneOf child .pmRun) delib (.link e) := by
  have hparent := sideEdges_parent ha he
  refine ⟨fun e' he' hclone htype => ?_, fun _ heq => by cases heq⟩
  cases Option.some.inj he'
  have hname : some a.chainKey = some ChainKey.pmRun :=
    nodeOf_injective child (hparent.symm.trans hclone)
  rw [Option.some.inj hname, hpm] at hsrc
  cases hsrc
  rw [sideEdges, Option.some.inj hname] at he
  simp only [sideBranchEdge] at he
  have hfirst : firstChild t pm.nodeKey "DELIBERATED_BY" = some found := hlinked
  rw [hfirst] at he
  rw [List.mem_singleton.mp he]
  exact hkey

/-- What a step of the placement writes keeps what the clone inherits. -/
theorem placementSteps_inherits (hpm : nodes.get? .pmRun = some pm)
    (hlinked : linkedDeliberation g pm.nodeKey = some delib) {step : Step}
    (hstep : step ∈ placementSteps source sourceRunId stage nodes resumedAt) {t : PipelineGraph}
    (ht : g.Extends t) {part : Linked} (hok : step t = .ok part) :
    ∀ w ∈ part.writes, InheritsWrite (cloneOf (childId sourceRunId stage) .pmRun) delib w := by
  intro w hw
  obtain ⟨found, hfound, hkey, -⟩ := linkedDeliberation_mono ht hlinked
  rcases List.mem_cons.mp hstep with rfl | hstep
  · obtain ⟨tickers, -, hret⟩ := Fallible.bind_eq_ok.mp hok
    cases hret
    simp only [List.mem_cons, List.not_mem_nil, or_false] at hw
    rcases hw with rfl | rfl
    · exact .merge_other fun heq =>
        absurd (Prod.mk.inj heq).1 (by decide : runRequestLabel ≠ ChainKey.pmRun.label)
    · exact .link_other (by decide)
  rcases List.mem_append.mp hstep with hstep | hstep
  · obtain ⟨a, ha, hstep⟩ := List.mem_flatMap.mp hstep
    have ha := mem_artifacts_of_required ha
    unfold artifactSteps at hstep
    split at hstep
    · cases hstep
    rename_i src hsrc
    simp only [List.mem_cons, List.not_mem_nil, or_false] at hstep
    rcases hstep with rfl | rfl
    · obtain ⟨props, hprops, -, hwrites⟩ := edges_linkArtifact hok
      rw [hwrites] at hw
      rcases List.mem_cons.mp hw with rfl | hw
      · refine ⟨fun _ he => (by cases he), fun props' heq => ?_⟩
        rw [Write.merge.injEq] at heq
        have hname : some a.chainKey = some ChainKey.pmRun := nodeOf_injective _
          ((cloneOf_artifact _ ha).symm.trans (Prod.ext heq.1 heq.2.1))
        rw [Option.some.inj hname] at hprops
        obtain ⟨s, hs⟩ := orderSet_of_linkedProps (n := ⟨"", "", props, 1⟩) hprops
        exact ⟨s, heq.2.2 ▸ orderIntentSet?_eq_some.mp hs⟩
      · obtain ⟨e, he, rfl⟩ := List.mem_map.mp hw
        exact .link_other (artifactEdges_type ha he)
    · cases hok
      obtain ⟨e, he, rfl⟩ := List.mem_map.mp hw
      exact sideEdges_inherits hpm hfound hkey ha hsrc he
  · rw [List.mem_singleton.mp hstep, linkRegime] at hok
    split at hok
    · cases hok
      cases hw
    · cases hok
      simp only [List.mem_cons, List.not_mem_nil, or_false] at hw
      rcases hw with rfl | rfl
      · exact .merge_other fun heq => absurd (Prod.mk.inj heq).1 (by decide)
      · exact .link_other (by decide)

/-- A placement on its way, with what its clone of the PMRun inherits. -/
structure PlacingInherits (g : PipelineGraph) (source : PipelineNode) (sourceRunId : String)
    (stage : ResumeStage) (nodes : Dict ChainKey PipelineNode) (resumedAt : String)
    (delib : PipelineNode) (p : Placing) : Prop where
  graph : Inherits g (cloneOf (childId sourceRunId stage) .pmRun) delib p.graph
  writes : ∀ w ∈ p.rest.writes,
    InheritsWrite (cloneOf (childId sourceRunId stage) .pmRun) delib w
  steps : ∀ s ∈ p.rest.steps, s ∈ placementSteps source sourceRunId stage nodes resumedAt

theorem PlacingInherits.next (hpm : nodes.get? .pmRun = some pm)
    (hlinked : linkedDeliberation g pm.nodeKey = some delib) {p p' : Placing}
    (h : PlacingInherits g source sourceRunId stage nodes resumedAt delib p)
    (hok : p.step .next = .ok p') :
    PlacingInherits g source sourceRunId stage nodes resumedAt delib p' ∧
      p.graph.Extends p'.graph := by
  obtain ⟨⟨t, rest⟩, hnext, hret⟩ := Fallible.bind_eq_ok.mp hok
  cases hret
  cases hwrites : p.rest.writes with
  | cons w ws =>
    rw [Remaining.next, hwrites] at hnext
    obtain ⟨t', ht', hret⟩ := Fallible.bind_eq_ok.mp hnext
    cases hret
    rw [liftGraph_eq_ok] at ht'
    have hmem := h.writes
    rw [hwrites] at hmem
    exact ⟨⟨h.graph.write (hmem w List.mem_cons_self) ht',
      fun v hv => hmem v (List.mem_cons_of_mem _ hv), h.steps⟩, Graph.write_extends ht'⟩
  | nil =>
    rw [Remaining.next, hwrites] at hnext
    cases hsteps : p.rest.steps with
    | nil =>
      rw [hsteps] at hnext
      cases hnext
      exact ⟨h, .refl _⟩
    | cons s steps =>
      rw [hsteps] at hnext
      obtain ⟨part, hpart, hret⟩ := Fallible.bind_eq_ok.mp hnext
      cases hret
      have hmem := h.steps
      rw [hsteps] at hmem
      exact ⟨⟨h.graph, placementSteps_inherits hpm hlinked (hmem s List.mem_cons_self)
        h.graph.grows hpart, fun s' hs' => hmem s' (List.mem_cons_of_mem _ hs')⟩, .refl _⟩

theorem PlacingInherits.elsewhere {p p' : Placing}
    (h : PlacingInherits g source sourceRunId stage nodes resumedAt delib p) {w : Write Document}
    (hnode : ∀ k, w.node? = some k → k.1 ≠ pmRunLabel)
    (hedge : ∀ e, w.edge? = some e → e.edgeType ≠ deliberatedEdge)
    (hok : p.step (.elsewhere w) = .ok p') :
    PlacingInherits g source sourceRunId stage nodes resumedAt delib p' ∧
      p.graph.Extends p'.graph := by
  obtain ⟨t, ht, hret⟩ := Fallible.bind_eq_ok.mp hok
  cases hret
  rw [liftGraph_eq_ok] at ht
  have hw : InheritsWrite (cloneOf (childId sourceRunId stage) .pmRun) delib w := by
    refine ⟨fun e he _ htype => absurd htype (hedge e he), ?_⟩
    rintro props rfl
    exact absurd rfl (hnode _ rfl)
  exact ⟨⟨h.graph.write hw ht, h.writes, h.steps⟩, Graph.write_extends ht⟩

/-! ### A pass over the clone -/

/-- Over a clone that the poll found, the veto of the source holds exactly when the clone is linked
in the graph in which it is classified. -/
theorem Inherits.keepsVeto_iff {clone : NodeKey} (p : Pickup fromIso settings)
    (hpolled : Inherits g clone delib p.polled) (hvetoed : Inherits g clone delib p.reads.vetoed)
    (hdelib : g.getNode delib.label delib.key = some delib) {node : PipelineNode}
    (hfound : node ∈ p.found) (hclone : node.nodeKey = clone)
    (reply : Nat → BrokerOrder → BrokerReply) :
    TakenUp.KeepsVeto fromIso settings delib
        ⟨node, p.reads, executePmNode fromIso reply settings node p.reads⟩ ↔
      TakenUp.Linked ⟨node, p.reads, executePmNode fromIso reply settings node p.reads⟩ := by
  obtain ⟨hpending, -⟩ := (mem_findPending p.found_eq).mp hfound
  have hstands := (Graph.mem_pendingNodes.mp hpending).1
  obtain ⟨s, hs⟩ := hpolled.orderSet node (by
    rw [← hclone]
    exact p.polled.named _ _ hstands ▸ hstands)
  have hready := p.not_waiting hfound hs
  constructor
  · intro hkeeps s' hs' hbuy hnormal hunlinked
    cases Option.some.inj (hs.symm.trans hs')
    have hstatus := hkeeps.status s hs
    rw [deliberationStatus_unlinked fromIso hunlinked, hbuy, hnormal] at hready hstatus
    simp only [Bool.not_true, Bool.false_eq_true, if_false] at hready hstatus
    split at hstatus
    · exact hstatus rfl
    · rename_i hgrace
      exact hready (if_neg hgrace)
  · intro hlinked
    have hlinked := hlinked s hs
    refine ⟨fun s' hs' => ?_, fun exec hexec order horder hside hticker => ?_⟩
    · cases Option.some.inj (hs.symm.trans hs')
      cases hdelibd : linkedDeliberation p.reads.classified node.nodeKey with
      | some d =>
        have happlied : deliberationStatus fromIso p.reads.classified node s p.reads.now
            settings.deliberationGraceSeconds = .applied ∨ deliberationStatus fromIso
              p.reads.classified node s p.reads.now settings.deliberationGraceSeconds =
                .appliedFailedOpen := deliberationStatus_linked fromIso hdelibd
        rcases happlied with h | h <;>
        · rw [h]
          decide
      | none =>
        rw [deliberationStatus_unlinked fromIso hdelibd]
        split
        · decide
        · rename_i hbuy
          split
          · decide
          · rename_i hnormal
            refine absurd hdelibd (hlinked ?_ ?_)
            · simpa using hbuy
            · simpa using hnormal
    · obtain ⟨kept, hkept, hstatus, hout⟩ := executePmNode_ok hs hexec
      obtain ⟨intent, hintent, hof⟩ := hout.orders order horder
      obtain ⟨hname, haction⟩ := orderFromIntent_ok hof
      have hbuy : intent.action = .buy := by
        rcases haction with ⟨ha, -⟩ | ⟨-, hsell⟩
        · exact ha
        · rw [hside] at hsell
          cases hsell
      obtain ⟨hmem, hfree⟩ := mem_applyDeliberationPosture.mp hintent
      obtain ⟨happroved, hnot⟩ := (mem_dropVetoed hkept).mp hmem
      have hbuys : hasBuy s = true := hasBuy_iff.mpr ⟨intent, happroved, hbuy⟩
      cases hdelibd : linkedDeliberation p.reads.classified node.nodeKey with
      | some d =>
        -- the link is still there when the veto is read, and is that of the source
        obtain ⟨d', hd', -⟩ := linkedDeliberation_mono p.classified_vetoed hdelibd
        obtain ⟨vetoed, hread, hclear⟩ := hnot d' hd'
        obtain ⟨vetoed', hread', hhit⟩ :=
          hticker.grows (hvetoed.linked hdelib (hclone ▸ hd'))
        cases Except.ok.inj (hread.symm.trans hread')
        rw [hname, hclear] at hhit
        cases hhit
      | none =>
        have hdegraded : isDegradedRun p.reads.classified s = true := by
          by_contra hnormal
          exact hlinked hbuys (Bool.eq_false_of_not_eq_true hnormal) hdelibd
        refine (hfree hbuy).1 ?_
        rw [hstatus, deliberationStatus_unlinked fromIso hdelibd, hbuys, hdegraded]
        rfl

/-- What the reads of a pass have seen of the clone. -/
def PassPhase.Seen (fromIso : String → Option Int) (settings : ExecutionSettings)
    (g : PipelineGraph) (clone : NodeKey) (delib : PipelineNode) (t : PipelineGraph) :
    PassPhase → Prop
  | .idle => True
  | .polled found graph polledAt =>
    findPending fromIso graph polledAt settings = .ok found ∧ Inherits g clone delib graph ∧
      graph.Extends t
  | .classified found graph polledAt c now =>
    findPending fromIso graph polledAt settings = .ok found ∧ Inherits g clone delib graph ∧
      polledAt ≤ now ∧ graph.Extends c ∧ c.Extends t
  | .vetoed found graph polledAt c now v =>
    findPending fromIso graph polledAt settings = .ok found ∧ Inherits g clone delib graph ∧
      polledAt ≤ now ∧ graph.Extends c ∧ c.Extends v ∧ Inherits g clone delib v ∧ v.Extends t

theorem PassPhase.Seen.mono {clone : NodeKey} {t t' : PipelineGraph} {phase : PassPhase}
    (h : phase.Seen fromIso settings g clone delib t) (ht : t.Extends t') :
    phase.Seen fromIso settings g clone delib t' := by
  cases phase with
  | idle => trivial
  | polled found polled polledAt => exact ⟨h.1, h.2.1, h.2.2.trans ht⟩
  | classified found polled polledAt classified now =>
    obtain ⟨hfound, hpolled, hnow, hgrows, hlast⟩ := h
    exact ⟨hfound, hpolled, hnow, hgrows, hlast.trans ht⟩
  | vetoed found polled polledAt classified now vetoed =>
    obtain ⟨hfound, hpolled, hnow, hgrows, hgrows', hvetoed, hlast⟩ := h
    exact ⟨hfound, hpolled, hnow, hgrows, hgrows', hvetoed, hlast.trans ht⟩

/-- A placement beside execution, as its clone of the PMRun inherits the deliberation. -/
structure InterleavingInherits (fromIso : String → Option Int) (settings : ExecutionSettings)
    (g : PipelineGraph) (source : PipelineNode) (sourceRunId : String) (stage : ResumeStage)
    (nodes : Dict ChainKey PipelineNode) (resumedAt : String) (delib : PipelineNode)
    (w : Interleaving) : Prop where
  placing : PlacingInherits g source sourceRunId stage nodes resumedAt delib w.placing
  phase : w.phase.Seen fromIso settings g (cloneOf (childId sourceRunId stage) .pmRun) delib
    w.placing.graph
  taken : ∀ t ∈ w.taken, t.node.nodeKey = cloneOf (childId sourceRunId stage) .pmRun →
    (t.KeepsVeto fromIso settings delib ↔ t.Linked)

theorem InterleavingInherits.step (hpm : nodes.get? .pmRun = some pm)
    (hlinked : linkedDeliberation g pm.nodeKey = some delib) {w w' : Interleaving}
    {e : InterleavedEvent}
    (h : InterleavingInherits fromIso settings g source sourceRunId stage nodes resumedAt delib w)
    (hours : ExecutionWrites w e) (hok : w.step fromIso settings e = .ok w') :
    InterleavingInherits fromIso settings g source sourceRunId stage nodes resumedAt delib w' := by
  cases e with
  | placement =>
    obtain ⟨p, hp, hret⟩ := Fallible.bind_eq_ok.mp hok
    cases hret
    obtain ⟨hplacing, hgrows⟩ := h.placing.next hpm hlinked hp
    exact ⟨hplacing, h.phase.mono hgrows, h.taken⟩
  | elsewhere write =>
    obtain ⟨p, hp, hret⟩ := Fallible.bind_eq_ok.mp hok
    cases hret
    obtain ⟨hplacing, hgrows⟩ := h.placing.elsewhere hours.1 hours.2 hp
    exact ⟨hplacing, h.phase.mono hgrows, h.taken⟩
  | poll now =>
    obtain ⟨found, hfound, hret⟩ := Fallible.bind_eq_ok.mp hok
    cases hret
    exact ⟨h.placing, ⟨hfound, h.placing.graph, .refl _⟩, h.taken⟩
  | classify now =>
    cases hphase : w.phase with
    | polled found polled polledAt =>
      have hseen := h.phase
      rw [hphase] at hseen
      simp only [Interleaving.step, hphase] at hok
      split at hok
      · rename_i hnow
        cases hok
        exact ⟨h.placing, ⟨hseen.1, hseen.2.1, hnow, hseen.2.2, .refl _⟩, h.taken⟩
      · cases hok
    | idle | classified | vetoed =>
      simp only [Interleaving.step, hphase] at hok
      cases hok
  | readVeto =>
    cases hphase : w.phase with
    | classified found polled polledAt classified now =>
      have hseen := h.phase
      rw [hphase] at hseen
      obtain ⟨hfound, hpolled, hnow, hgrows, hlast⟩ := hseen
      simp only [Interleaving.step, hphase] at hok
      cases hok
      exact ⟨h.placing, ⟨hfound, hpolled, hnow, hgrows, hlast, h.placing.graph, .refl _⟩, h.taken⟩
    | idle | polled | vetoed =>
      simp only [Interleaving.step, hphase] at hok
      cases hok
  | submit key runStart reply =>
    cases hphase : w.phase with
    | vetoed found polled polledAt classified now vetoed =>
      have hseen := h.phase
      rw [hphase] at hseen
      obtain ⟨hfound, hpolled, hnow, hgrows, hgrows', hvetoed, hlast⟩ := hseen
      simp only [Interleaving.step, hphase] at hok
      split at hok
      · rename_i node hnode
        cases hok
        refine ⟨h.placing, ⟨hfound, hpolled, hgrows.trans (hgrows'.trans hlast)⟩,
          fun t ht hclone => ?_⟩
        rcases List.mem_append.mp ht with hold | hnew
        · exact h.taken t hold hclone
        · cases List.mem_singleton.mp hnew
          have hfirst : firstChild g pm.nodeKey deliberatedEdge = some delib := hlinked
          have hdelib := firstChild_stands hfirst
          exact Inherits.keepsVeto_iff ⟨polled, polledAt, found,
            ⟨classified, now, vetoed, w.placing.graph, runStart⟩, hfound, hgrows, hgrows', hnow⟩
            hpolled hvetoed hdelib (List.mem_of_find?_eq_some hnode) hclone reply
      · cases hok
    | idle | polled | classified =>
      simp only [Interleaving.step, hphase] at hok
      cases hok

/-- However the writes of a placement and those of execution interleave with the reads of its
passes, the veto of the source holds for the clone in exactly those passes that find it linked when
they classify it. -/
theorem clone_keeps_veto_iff (hfree : Untouched g (childId sourceRunId stage))
    (hsource : resumeSource g sourceRunId stage = .ok (source, nodes))
    (hpm : nodes.get? .pmRun = some pm) (hlinked : linkedDeliberation g pm.nodeKey = some delib)
    {w : Interleaving}
    (hrun : Reach (Interleaving.step fromIso settings) ExecutionWrites
      (· = ⟨⟨g, [], placementSteps source sourceRunId stage nodes resumedAt⟩, .idle, []⟩) w) :
    ∀ t ∈ w.taken, t.node.nodeKey = cloneOf (childId sourceRunId stage) .pmRun →
      (t.KeepsVeto fromIso settings delib ↔ t.Linked) := by
  have h := Placeable.of_source hfree hsource
  have hstart : Inherits g (cloneOf (childId sourceRunId stage) .pmRun) delib g := by
    refine ⟨.refl g, fun e he hparent _ => ?_, fun n hn => ?_⟩
    · have hstands := (g.closed e he).1
      rw [hparent] at hstands
      exact absurd hstands (h.untouched (some .pmRun))
    · exact absurd (Graph.mem_keys_of_getNode hn) (h.untouched (some .pmRun))
  refine (hrun.invariant (P := InterleavingInherits fromIso settings g source sourceRunId stage
    nodes resumedAt delib) ?_ fun w e w' hw hours hok => hw.step hpm hlinked hours hok).taken
  rintro _ rfl
  exact ⟨⟨hstart, fun _ hw => absurd hw List.not_mem_nil, fun _ hs => hs⟩, trivial,
    fun _ ht => absurd ht List.not_mem_nil⟩

end Clone

/-! ### One vetoed buy -/

def scannedRun : PipelineNode := ⟨"ScanRun", "scan-1", .empty, 1⟩

def analyzedRun : PipelineNode := ⟨"AnalystRun", "analyst-1", .empty, 1⟩

def vetoOfAapl : PipelineNode where
  label := "DeliberationRun"
  key := "deliberation-1"
  props := .ofList [("vetoed_tickers", .list [.str "AAPL"])]

/-- A run up to a PMRun with a buy that its deliberation vetoed. -/
def vetoedGraph : PipelineGraph :=
  let nodes := (((ingestedGraph.put scannedRun).put analyzedRun).put mixedRun).put vetoOfAapl
  (((nodes.link ⟨ingestedMarket.nodeKey, scannedRun.nodeKey, "SCANNED_BY"⟩ (by decide)
    (by decide)).link ⟨scannedRun.nodeKey, analyzedRun.nodeKey, "ANALYZED_BY"⟩ (by decide)
    (by decide)).link ⟨analyzedRun.nodeKey, mixedRun.nodeKey, "EVALUATED_BY"⟩ (by decide)
    (by decide)).link ⟨mixedRun.nodeKey, vetoOfAapl.nodeKey, deliberatedEdge⟩ (by decide)
    (by decide)

/-- Execution takes up the clone of the PMRun after the first `n` steps of a resume from it. -/
def takeUpAfter (n : Nat) : List InterleavedEvent :=
  List.replicate n .placement ++ [.poll 900000000, .classify 900000000, .readVeto,
    .submit (cloneOf (childId "acme" .execution) .pmRun) (.ok ()) fun _ _ => .failed "down"]

def vetoedStart : Interleaving :=
  ⟨⟨vetoedGraph, [], placementSteps syncedRequest "acme" .execution (walkChain vetoedGraph "acme")
    "t1"⟩, .idle, []⟩

def advisory : ExecutionSettings := { deliberationPosture := .advisory }

theorem vetoedGraph_source : resumeSource vetoedGraph "acme" .execution =
    .ok (syncedRequest, walkChain vetoedGraph "acme") := by
  have hnone : ((requiredArtifacts .execution).find? fun a =>
      ((walkChain vetoedGraph "acme").get? a.chainKey).isNone) = none := by
    decide +kernel
  have hrequest : vetoedGraph.getNode runRequestLabel (runRequestKey "acme") =
      some syncedRequest := rfl
  simp only [resumeSource, hrequest, hnone]

theorem vetoedGraph_untouched : Untouched vetoedGraph (childId "acme" .execution) := by
  rintro (_ | key)
  · decide
  · cases key <;> decide

theorem takeUpAfter_reach {n : Nat} {w : Interleaving}
    (h : (takeUpAfter n).foldlM (Interleaving.step (fun _ => some 0) advisory) vetoedStart =
      .ok w) :
    Reach (Interleaving.step (fun _ => some 0) advisory) ExecutionWrites (· = vetoedStart) w := by
  refine Reach.of_allowed (.start rfl) (fun e he s => ?_) h
  simp only [takeUpAfter, List.mem_append, List.mem_replicate, List.mem_cons, List.not_mem_nil,
    or_false] at he
  rcases he with ⟨-, rfl⟩ | rfl | rfl | rfl | rfl <;> trivial

theorem clone_keeps_veto_iff_placed : ∃ w t,
    Reach (Interleaving.step (fun _ => some 0) advisory) ExecutionWrites (· = vetoedStart) w ∧
      t ∈ w.taken ∧ t.node.nodeKey = cloneOf (childId "acme" .execution) .pmRun ∧
      t.KeepsVeto (fun _ => some 0) advisory vetoOfAapl := by
  have htest : Fallible.check (fun w : Interleaving => w.taken.any fun t =>
      decide (t.node.nodeKey = cloneOf (childId "acme" .execution) .pmRun) &&
        (linkedDeliberation t.reads.classified t.node.nodeKey).isSome)
      ((takeUpAfter 40).foldlM (Interleaving.step (fun _ => some 0) advisory) vetoedStart) =
        true := by
    decide +kernel
  obtain ⟨w, hok, htaken⟩ := Fallible.check_eq_true.mp htest
  obtain ⟨t, ht, hboth⟩ := List.any_eq_true.mp htaken
  obtain ⟨hclone, hlinked⟩ := Bool.and_eq_true_iff.mp hboth
  have hreach := takeUpAfter_reach hok
  refine ⟨w, t, hreach, ht, of_decide_eq_true hclone, ?_⟩
  have hpm : (walkChain vetoedGraph "acme").get? .pmRun = some mixedRun := rfl
  refine (clone_keeps_veto_iff vetoedGraph_untouched vetoedGraph_source hpm
    (show linkedDeliberation vetoedGraph mixedRun.nodeKey = some vetoOfAapl from rfl) hreach t ht
    (of_decide_eq_true hclone)).mpr fun _ _ _ _ hnone => ?_
  rw [hnone] at hlinked
  cases hlinked

/-- Taken up with its first write, the clone is bought though its source was vetoed. -/
theorem vetoed_clone_bought : ∃ w t,
    Reach (Interleaving.step (fun _ => some 0) advisory) ExecutionWrites (· = vetoedStart) w ∧
      t ∈ w.taken ∧ t.node.nodeKey = cloneOf (childId "acme" .execution) .pmRun ∧
      linkedDeliberation vetoedGraph mixedRun.nodeKey = some vetoOfAapl ∧
      ¬ t.KeepsVeto (fun _ => some 0) advisory vetoOfAapl := by
  have htest : Fallible.check (fun w : Interleaving => w.taken.any fun t =>
      decide (t.node.nodeKey = cloneOf (childId "acme" .execution) .pmRun) &&
        Fallible.check (fun exec => exec.submission.submissions.any fun o =>
          decide (o.side = .buy ∧ o.ticker = "AAPL")) t.outcome)
      ((takeUpAfter 26).foldlM (Interleaving.step (fun _ => some 0) advisory) vetoedStart) =
        true := by
    decide +kernel
  obtain ⟨w, hok, htaken⟩ := Fallible.check_eq_true.mp htest
  obtain ⟨t, ht, hboth⟩ := List.any_eq_true.mp htaken
  obtain ⟨hclone, hbought⟩ := Bool.and_eq_true_iff.mp hboth
  obtain ⟨exec, hexec, hany⟩ := Fallible.check_eq_true.mp hbought
  obtain ⟨order, horder, hbuy⟩ := List.any_eq_true.mp hany
  obtain ⟨hside, hticker⟩ := of_decide_eq_true hbuy
  refine ⟨w, t, takeUpAfter_reach hok, ht, of_decide_eq_true hclone, rfl, fun hkeeps => ?_⟩
  exact hkeeps.buys exec hexec order horder hside
    ⟨_, rfl, hticker ▸ isVetoed_iff.mpr (List.mem_singleton_self _)⟩

end TradingAgents.Orchestration
