import Mathlib
import TradingAgents.Kernel.FaultGraph
import TradingAgents.Kernel.GraphFacts
import TradingAgents.ProofKit.Runs

/-! Runs of the fault sink: any sequence of submitted faults and flushes, and a last flush.  Every
submitted fault is counted at one node, the one of the first fault of its window, and the invariant
says for each node how many faults that are. -/

namespace TradingAgents.Kernel

open ProofKit

/-- Distinct keys that cover a list share out its members. -/
theorem sum_map_count {α : Type} [DecidableEq α] {keys l : List α} (hk : keys.Nodup)
    (h : ∀ a ∈ l, a ∈ keys) : (keys.map fun k => l.count k).sum = l.length := by
  have hone : ∀ a (keys : List α), (keys.map fun k => if a = k then 1 else 0).sum =
      keys.count a := by
    intro a keys
    induction keys with
    | nil => rfl
    | cons k keys ih =>
      rw [List.map_cons, List.sum_cons, ih, List.count_cons, Nat.add_comm]
      by_cases h : a = k
      · simp [h]
      · simp [h, Ne.symm h]
  induction l with
  | nil => simp
  | cons a l ih =>
    have hcons : (keys.map fun k => (a :: l).count k) =
        keys.map fun k => l.count k + if a = k then 1 else 0 := by
      simp [List.count_cons]
    rw [hcons, List.sum_map_add, ih fun b hb => h b (List.mem_cons_of_mem a hb), hone,
      List.count_eq_one_of_mem hk (h a List.mem_cons_self)]
    rfl

section

variable {τ δ : Type} {texts : FaultTexts τ}

/-! ### Keys -/

/-- What identifies a fault, as its node records it. -/
def AgentFault.identity (fault : AgentFault τ δ) : List (Value δ) :=
  [.str fault.sourceAgent, .str fault.sourceModule, optionalText fault.capability,
    .str fault.errorType, .str fault.message]

/-- What a node records of the identity of its fault. -/
def faultIdentity (n : Node δ) : List (Value δ) :=
  ["source_agent", "source_module", "capability", "error_type", "message"].map n.get

/-- A fault repeated at its own moment is a repeat. -/
theorem withinWindow_self (policy : FaultCollapsePolicy) (f : AgentFault τ δ) :
    withinWindow texts f f policy = true := by
  simp [withinWindow, policy.positive.le]

/-- The key of the summary of the window that a fault opens. -/
def summaryKey (texts : FaultTexts τ) (f : AgentFault τ δ) : String :=
  "fault-suppression:" ++ (faultSignature texts f).key ++ ":" ++ texts.iso f.occurredAt

theorem suppressionKey_eq {w : FaultWindow τ δ}
    (h : w.signature = faultSignature texts w.firstFault) :
    suppressionKey texts w = summaryKey texts w.firstFault := by
  unfold suppressionKey summaryKey
  exact congrArg (fun sig : FaultSignature => _ ++ sig.key ++ _ ++ _) h

theorem faultSuppressionLabel_ne : faultSuppressionLabel ≠ faultLabel := by decide

theorem colon_toList : (":" : String).toList = [':'] := String.toList_singleton ':'

/-- A signature ends in a colon and the digest of the message. -/
theorem faultSignature_toList (texts : FaultTexts τ) (f : AgentFault τ δ) : ∃ x : List Char,
    (faultSignature texts f).key.toList = x ++ ':' :: (texts.hexdigest f.message).toList := by
  refine ⟨(f.sourceAgent ++ ":" ++ f.sourceModule ++ ":" ++ f.capabilityText ++ ":" ++
    f.errorType).toList, ?_⟩
  simp only [faultSignature, String.toList_append, colon_toList, List.append_assoc,
    List.singleton_append]

theorem keyed_toList (pre key text : String) : (pre ++ key ++ ":" ++ text).toList =
    pre.toList ++ (key.toList ++ ':' :: text.toList) := by
  simp only [String.toList_append, colon_toList, List.append_assoc, List.singleton_append]

/-- The summary's key holds the signature and the moment of the first fault. -/
theorem summaryKey_injective {f g : AgentFault τ δ} (h : summaryKey texts f = summaryKey texts g) :
    (faultSignature texts f).key = (faultSignature texts g).key ∧
      texts.iso f.occurredAt = texts.iso g.occurredAt := by
  obtain ⟨x, hx⟩ := faultSignature_toList texts f
  obtain ⟨y, hy⟩ := faultSignature_toList texts g
  have hl := congrArg String.toList h
  unfold summaryKey at hl
  rw [keyed_toList, keyed_toList] at hl
  have hcut := List.append_cancel_left hl
  rw [hx, hy] at hcut
  obtain ⟨hsig, hiso⟩ := Text.append_sep_fixed (texts.hexdigest_colon _) (texts.hexdigest_colon _)
    (texts.hexdigest_length _) (texts.hexdigest_length _) (texts.iso_parts _)
      (texts.iso_parts _) hcut
  exact ⟨String.toList_inj.mp (by rw [hx, hy, hsig]), String.toList_inj.mp hiso⟩

/-! ### Summaries -/

/-- The number of faults that are counted at a node. -/
def tally (home : List (AgentFault τ δ × String)) (key : String) : Nat :=
  (home.map Prod.snd).count key

theorem tally_append (home : List (AgentFault τ δ × String)) (f : AgentFault τ δ)
    (key key' : String) :
    tally (home ++ [(f, key)]) key' = tally home key' + if key = key' then 1 else 0 := by
  simp [tally, List.count_append, List.count_singleton]

theorem suppressionCounts_of_listNodes {g g' : Graph δ}
    (h : g'.listNodes faultSuppressionLabel = g.listNodes faultSuppressionLabel) :
    suppressionCounts g' = suppressionCounts g := by
  rw [suppressionCounts, h]
  rfl

/-- A new summary sets the counts of its first fault. -/
theorem suppressionCounts_put {g : Graph δ} (w : FaultWindow τ δ)
    (hfresh : g.getNode faultSuppressionLabel (suppressionKey texts w) = none) :
    suppressionCounts (g.put ⟨faultSuppressionLabel, suppressionKey texts w,
        suppressionProps texts w, 1⟩) =
      (suppressionCounts g).set w.firstFaultKey (w.occurrenceCount, w.suppressedCount) := by
  rw [suppressionCounts, Graph.listNodes_put_fresh hfresh, List.foldl_append]
  simp [suppressionProps, Dict.ofList, suppressionCounts, Value.int?]

/-! ### The invariant -/

/-- What an open window says of the faults counted at its node. -/
structure WindowTally (texts : FaultTexts τ) (g : Graph δ) (home : List (AgentFault τ δ × String))
    (key : String) (w : FaultWindow τ δ) : Prop where
  key_eq : key = (faultSignature texts w.firstFault).key
  signature : w.signature = faultSignature texts w.firstFault
  first_key : w.firstFaultKey = faultNodeKey texts w.firstFault
  first_home : (w.firstFault, w.firstFaultKey) ∈ home
  count : w.occurrenceCount = tally home w.firstFaultKey
  unsummarised : (suppressionCounts g).get? w.firstFaultKey = none

/-- The occurrences that the queries read for a node. -/
def recordedCount (g : Graph δ) (key : String) : Int :=
  (((suppressionCounts g).get? key).getD (1, 0)).1

/-- Every submitted fault has the node where it is counted: `home` lists the faults with the keys of
their nodes. -/
structure Tallied (texts : FaultTexts τ) (s : GraphFaultSink τ δ)
    (home : List (AgentFault τ δ × String)) : Prop where
  counted : ∀ p ∈ home, ∃ n, s.graph.getNode faultLabel p.2 = some n ∧
    faultIdentity n = p.1.identity
  nodes : ∀ n ∈ s.graph.listNodes faultLabel, ∃ f, n.props = faultProps texts f ∧
    (f, n.key) ∈ home
  windows : ∀ key w, s.windows.get? key = some w → WindowTally texts s.graph home key w
  apart : ∀ key key' w w', s.windows.get? key = some w → s.windows.get? key' = some w' →
    w.firstFaultKey = w'.firstFaultKey → key = key'
  closed : ∀ n ∈ s.graph.listNodes faultLabel,
    (∀ key w, s.windows.get? key = some w → w.firstFaultKey ≠ n.key) →
      recordedCount s.graph n.key = tally home n.key
  known : ∀ key, ((suppressionCounts s.graph).get? key).isSome → ∃ p ∈ home, p.2 = key

variable {s : GraphFaultSink τ δ} {home : List (AgentFault τ δ × String)}

theorem faultIdentity_faultProps (label key : String) (f : AgentFault τ δ) (version : Int) :
    faultIdentity ⟨label, key, faultProps texts f, version⟩ = f.identity := by
  simp [faultIdentity, faultProps, Node.get, Dict.ofList, AgentFault.identity]

/-- A repeat is counted at the node of the window's first fault. -/
theorem Tallied.join (h : Tallied texts s home) {f : AgentFault τ δ} {w : FaultWindow τ δ}
    {seen : Option String} (hw : s.windows.get? (faultSignature texts f).key = some w)
    (hid : w.firstFault.identity = f.identity) :
    Tallied texts
      { s with
        inner := s.inner ++ [f]
        windows := s.windows.set (faultSignature texts f).key
          { w with suppressedCount := w.suppressedCount + 1, lastSeenAt := seen } }
      (home ++ [(f, w.firstFaultKey)]) := by
  have hwin := h.windows _ w hw
  have hold : ∀ p, p ∈ home → p ∈ home ++ [(f, w.firstFaultKey)] := fun p hp => by simp [hp]
  have hother : ∀ key w', s.windows.get? key = some w' → key ≠ (faultSignature texts f).key →
      tally (home ++ [(f, w.firstFaultKey)]) w'.firstFaultKey = tally home w'.firstFaultKey := by
    intro key w' hw' hne
    rw [tally_append, if_neg fun he => hne (h.apart _ _ _ _ hw' hw he.symm), Nat.add_zero]
  refine ⟨fun p hp => ?_, fun n hn => ?_, fun key w' hw' => ?_,
    fun key key' w₁ w₂ hw₁ hw₂ he => ?_, fun n hn hopen => ?_, fun key hk => ?_⟩
  · rcases List.mem_append.mp hp with hp | hp
    · exact h.counted p hp
    · obtain ⟨n, hn, hfirst⟩ := h.counted _ hwin.first_home
      rw [List.mem_singleton.mp hp]
      exact ⟨n, hn, hfirst.trans hid⟩
  · obtain ⟨f', hprops, hmem⟩ := h.nodes n hn
    exact ⟨f', hprops, hold _ hmem⟩
  · rw [Dict.get?_set] at hw'
    split at hw'
    · rename_i hkey
      cases hw'
      refine ⟨hkey ▸ hwin.key_eq, hwin.signature, hwin.first_key, hold _ hwin.first_home, ?_,
        hwin.unsummarised⟩
      rw [tally_append, if_pos rfl, ← hwin.count]
      rfl
    · rename_i hkey
      have hwin' := h.windows key w' hw'
      exact ⟨hwin'.key_eq, hwin'.signature, hwin'.first_key, hold _ hwin'.first_home,
        hwin'.count.trans (hother key w' hw' hkey).symm, hwin'.unsummarised⟩
  · have hback : ∀ key w', (s.windows.set (faultSignature texts f).key
        { w with suppressedCount := w.suppressedCount + 1, lastSeenAt :=
          seen }).get? key = some w' →
        ∃ w₀, s.windows.get? key = some w₀ ∧ w₀.firstFaultKey = w'.firstFaultKey := by
      intro key w' hw'
      rw [Dict.get?_set] at hw'
      split at hw'
      · rename_i hkey
        cases hw'
        exact ⟨w, hkey ▸ hw, rfl⟩
      · exact ⟨w', hw', rfl⟩
    obtain ⟨u₁, hu₁, he₁⟩ := hback _ _ hw₁
    obtain ⟨u₂, hu₂, he₂⟩ := hback _ _ hw₂
    exact h.apart _ _ _ _ hu₁ hu₂ (he₁.trans (he.trans he₂.symm))
  · have hne : w.firstFaultKey ≠ n.key := hopen (faultSignature texts f).key
      { w with suppressedCount := w.suppressedCount + 1, lastSeenAt := seen }
      (Dict.get?_set_self _ _ _)
    rw [tally_append, if_neg hne]
    refine h.closed n hn fun key w' hw' => ?_
    by_cases hkey : key = (faultSignature texts f).key
    · rw [hkey, hw] at hw'
      cases hw'
      exact hne
    · exact hopen key w' (by rw [Dict.get?_set, if_neg hkey, hw'])
  · obtain ⟨p, hp, he⟩ := h.known key hk
    exact ⟨p, hold p hp, he⟩

/-- The window under `key` can be closed: its summary, if it has repeats, is not written yet. -/
def GraphFaultSink.Closable (texts : FaultTexts τ) (s : GraphFaultSink τ δ) (key : String) : Prop :=
  ∀ w, s.windows.get? key = some w → 0 < w.suppressedCount →
    s.graph.getNode faultSuppressionLabel (suppressionKey texts w) = none

theorem Tallied.windows_erase (h : Tallied texts s home) {g : Graph δ} {key : String}
    (hcounts : ∀ key' w', key' ≠ key → s.windows.get? key' = some w' →
      (suppressionCounts g).get? w'.firstFaultKey = none) :
    ∀ key' w', (s.windows.erase key).get? key' = some w' → WindowTally texts g home key' w' := by
  intro key' w' hw'
  rw [Dict.get?_erase] at hw'
  split at hw'
  · cases hw'
  · rename_i hne
    exact { h.windows key' w' hw' with unsummarised := hcounts key' w' hne hw' }

theorem Tallied.apart_erase (h : Tallied texts s home) (key : String) :
    ∀ key₁ key₂ w₁ w₂, (s.windows.erase key).get? key₁ = some w₁ →
      (s.windows.erase key).get? key₂ = some w₂ → w₁.firstFaultKey = w₂.firstFaultKey →
      key₁ = key₂ := by
  intro key₁ key₂ w₁ w₂ hw₁ hw₂ he
  rw [Dict.get?_erase] at hw₁ hw₂
  split at hw₁
  · cases hw₁
  split at hw₂
  · cases hw₂
  exact h.apart _ _ _ _ hw₁ hw₂ he

/-- A node whose window is not `key`'s has no open window besides. -/
theorem not_open_of_erase {key : String} {w : FaultWindow τ δ} {n : Node δ}
    (hw : s.windows.get? key = some w) (hne : w.firstFaultKey ≠ n.key)
    (hopen : ∀ key' w', (s.windows.erase key).get? key' = some w' → w'.firstFaultKey ≠ n.key) :
    ∀ key' w', s.windows.get? key' = some w' → w'.firstFaultKey ≠ n.key := by
  intro key' w' hw'
  by_cases hkey : key' = key
  · rw [hkey, hw] at hw'
    cases hw'
    exact hne
  · exact hopen key' w' (by rw [Dict.get?_erase, if_neg hkey, hw'])

/-- Closing a window writes down how often its fault occurred. -/
theorem Tallied.close [DecidableEq δ] (h : Tallied texts s home) {key : String}
    {w : FaultWindow τ δ} (hw : s.windows.get? key = some w) (hclosable : s.Closable texts key) :
    ∃ s', s.flushKey texts key = (s', none) ∧ Tallied texts s' home ∧
      s'.windows = s.windows.erase key ∧
      (∀ key', s'.graph.getNode faultLabel key' = s.graph.getNode faultLabel key') ∧
      ∀ key', key' ≠ suppressionKey texts w → s'.graph.getNode faultSuppressionLabel key' =
        s.graph.getNode faultSuppressionLabel key' := by
  have hwin := h.windows key w hw
  by_cases hzero : w.suppressedCount = 0
  · refine ⟨{ s with windows := s.windows.erase key }, ?_, ?_, rfl, fun _ => rfl, fun _ _ => rfl⟩
    · rw [GraphFaultSink.flushKey, hw]
      exact if_pos hzero
    · refine { h with
        windows := h.windows_erase fun key' w' _ hw' => (h.windows key' w' hw').unsummarised
        apart := h.apart_erase key
        closed := fun n hn hopen => ?_ }
      by_cases hne : w.firstFaultKey = n.key
      · rw [recordedCount, ← hne, hwin.unsummarised, ← hwin.count,
          FaultWindow.occurrenceCount, hzero]
        rfl
      · exact h.closed n hn (not_open_of_erase hw hne hopen)
  · have hfresh := hclosable w hw (Nat.pos_of_ne_zero hzero)
    let node : Node δ := ⟨faultSuppressionLabel, suppressionKey texts w,
      suppressionProps texts w, 1⟩
    have hcounts : suppressionCounts (s.graph.put node) =
        (suppressionCounts s.graph).set w.firstFaultKey (w.occurrenceCount, w.suppressedCount) :=
      suppressionCounts_put w hfresh
    have hfaults : (s.graph.put node).listNodes faultLabel = s.graph.listNodes faultLabel :=
      Graph.listNodes_put_of_ne faultSuppressionLabel_ne
    have hget : ∀ key', (s.graph.put node).getNode faultLabel key' =
        s.graph.getNode faultLabel key' := fun key' => by
      rw [Graph.getNode_put, if_neg fun h => faultSuppressionLabel_ne h.1.symm]
    refine ⟨{ s with windows := s.windows.erase key, graph := s.graph.put node }, ?_, ?_, rfl, hget,
      fun key' hne => by rw [Graph.getNode_put, if_neg fun h => hne h.2]⟩
    · rw [GraphFaultSink.flushKey, hw]
      simp only [if_neg hzero, Graph.mergeNode_fresh _ hfresh]
      rfl
    · refine ⟨fun p hp => ?_, fun n hn => h.nodes n (hfaults ▸ hn), ?_, h.apart_erase key,
        fun n hn hopen => ?_, fun key' hk => ?_⟩
      · obtain ⟨n, hn, hid⟩ := h.counted p hp
        exact ⟨n, (hget p.2).trans hn, hid⟩
      · refine h.windows_erase fun key' w' hne hw' => ?_
        rw [hcounts, Dict.get?_set, if_neg fun he => hne (h.apart _ _ _ _ hw' hw he)]
        exact (h.windows key' w' hw').unsummarised
      · show recordedCount (s.graph.put node) n.key = _
        rw [recordedCount, hcounts, Dict.get?_set]
        split
        · rename_i he
          rw [he, ← hwin.count]
          rfl
        · rename_i hne
          exact h.closed n (hfaults ▸ hn) (not_open_of_erase hw (Ne.symm hne) hopen)
      · have hk' : ((suppressionCounts (s.graph.put node)).get? key').isSome := hk
        rw [hcounts, Dict.get?_set] at hk'
        split at hk'
        · rename_i he
          exact ⟨_, hwin.first_home, he.symm⟩
        · exact h.known key' hk'

/-- A fault that opens a window has a node of its own. -/
theorem Tallied.first [DecidableEq δ] (h : Tallied texts s home) {f : AgentFault τ δ}
    (hwin : s.windows.get? (faultSignature texts f).key = none)
    (hfresh : s.graph.getNode faultLabel (faultNodeKey texts f) = none) :
    ∃ s', s.writeFirst texts f = (s', none) ∧
      Tallied texts s' (home ++ [(f, faultNodeKey texts f)]) := by
  let node : Node δ := ⟨faultLabel, faultNodeKey texts f, faultProps texts f, 1⟩
  have hfree : ∀ p ∈ home, p.2 ≠ faultNodeKey texts f := fun p hp he => by
    obtain ⟨n, hn, -⟩ := h.counted p hp
    rw [he, hfresh] at hn
    cases hn
  have hnone : tally home (faultNodeKey texts f) = 0 :=
    List.count_eq_zero.mpr fun hmem => by
      obtain ⟨p, hp, he⟩ := List.mem_map.mp hmem
      exact hfree p hp he
  have hcounts : suppressionCounts (s.graph.put node) = suppressionCounts s.graph :=
    suppressionCounts_of_listNodes (Graph.listNodes_put_of_ne faultSuppressionLabel_ne.symm)
  have hunsummarised : (suppressionCounts s.graph).get? (faultNodeKey texts f) = none := by
    by_contra hne
    obtain ⟨p, hp, he⟩ := h.known _ (Option.isSome_iff_ne_none.mpr hne)
    exact hfree p hp he
  have hfaults : (s.graph.put node).listNodes faultLabel = s.graph.listNodes faultLabel ++ [node] :=
    Graph.listNodes_put_fresh (n := node) hfresh
  have hold : ∀ p, p ∈ home → p ∈ home ++ [(f, faultNodeKey texts f)] := fun p hp => by simp [hp]
  have htally : ∀ p ∈ home, tally (home ++ [(f, faultNodeKey texts f)]) p.2 = tally home p.2 :=
    fun p hp => by rw [tally_append, if_neg (hfree p hp).symm, Nat.add_zero]
  let w : FaultWindow τ δ := {
    signature := faultSignature texts f
    firstFault := f
    firstFaultKey := faultNodeKey texts f
    lastSeenAt := some (texts.iso f.occurredAt) }
  refine ⟨{ graph := s.graph.put node, inner := s.inner ++ [f]
            windows := s.windows.set (faultSignature texts f).key w }, ?_, ?_⟩
  · rw [GraphFaultSink.writeFirst, Graph.mergeNode_fresh _ hfresh]
  refine ⟨fun p hp => ?_, fun n hn => ?_, fun key w' hw' => ?_,
    fun key key' w₁ w₂ hw₁ hw₂ he => ?_, fun n hn hopen => ?_, fun key hk => ?_⟩
  · rcases List.mem_append.mp hp with hp | hp
    · obtain ⟨n, hn, hid⟩ := h.counted p hp
      refine ⟨n, ?_, hid⟩
      rw [Graph.getNode_put, if_neg fun he => hfree p hp he.2, hn]
    · rw [List.mem_singleton.mp hp]
      refine ⟨node, ?_, faultIdentity_faultProps _ _ f _⟩
      rw [Graph.getNode_put, if_pos ⟨rfl, rfl⟩]
  · rcases List.mem_append.mp (hfaults ▸ hn) with hn | hn
    · obtain ⟨f', hprops, hmem⟩ := h.nodes n hn
      exact ⟨f', hprops, hold _ hmem⟩
    · rw [List.mem_singleton.mp hn]
      exact ⟨f, rfl, List.mem_append_right _ (List.mem_singleton_self _)⟩
  · rw [Dict.get?_set] at hw'
    split at hw'
    · rename_i hkey
      cases hw'
      refine ⟨hkey, rfl, rfl, List.mem_append_right _ (List.mem_singleton_self _), ?_, ?_⟩
      · rw [tally_append, if_pos rfl, hnone]
        rfl
      · rw [hcounts, hunsummarised]
    · have hwin' := h.windows key w' hw'
      refine ⟨hwin'.key_eq, hwin'.signature, hwin'.first_key, hold _ hwin'.first_home, ?_, ?_⟩
      · exact hwin'.count.trans (htally _ hwin'.first_home).symm
      · rw [hcounts, hwin'.unsummarised]
  · have hother : ∀ key' w', s.windows.get? key' = some w' → w'.firstFaultKey ≠ w.firstFaultKey :=
      fun key' w' hw' => hfree _ (h.windows key' w' hw').first_home
    rw [Dict.get?_set] at hw₁ hw₂
    split at hw₁ <;> split at hw₂
    · rename_i hkey₁ hkey₂
      exact hkey₁.trans hkey₂.symm
    · cases hw₁
      exact absurd he.symm (hother _ _ hw₂)
    · cases hw₂
      exact absurd he (hother _ _ hw₁)
    · exact h.apart _ _ _ _ hw₁ hw₂ he
  · show recordedCount (s.graph.put node) n.key = _
    rcases List.mem_append.mp (hfaults ▸ hn) with hn | hn
    · obtain ⟨f', -, hmem⟩ := h.nodes n hn
      rw [htally _ hmem, recordedCount, hcounts]
      refine h.closed n hn fun key w' hw' => hopen key w' ?_
      rw [Dict.get?_set, if_neg, hw']
      rintro rfl
      rw [hwin] at hw'
      cases hw'
    · rw [List.mem_singleton.mp hn] at hopen
      exact absurd rfl (hopen _ w (Dict.get?_set_self _ _ _))
  · obtain ⟨p, hp, he⟩ := h.known key (by rw [← hcounts]; exact hk)
    exact ⟨p, hold p hp, he⟩

/-- Two open windows have summaries of different keys. -/
theorem Tallied.suppressionKey_ne (h : Tallied texts s home) {key key' : String}
    {w w' : FaultWindow τ δ} (hw : s.windows.get? key = some w)
    (hw' : s.windows.get? key' = some w') (hne : key' ≠ key) :
    suppressionKey texts w' ≠ suppressionKey texts w := by
  have hwin := h.windows key w hw
  have hwin' := h.windows key' w' hw'
  rw [suppressionKey_eq hwin.signature, suppressionKey_eq hwin'.signature]
  intro he
  exact hne (hwin'.key_eq.trans ((summaryKey_injective he).1.trans hwin.key_eq.symm))

/-- Flushing closes every window of a list of keys. -/
theorem Tallied.flushKeys [DecidableEq δ] (h : Tallied texts s home) (keys : List String)
    (hkeys : keys.Nodup) (hopen : ∀ key ∈ keys, (s.windows.get? key).isSome)
    (hclosable : ∀ key ∈ keys, s.Closable texts key) :
    ∃ s', s.flushKeys texts keys = (s', none) ∧ Tallied texts s' home ∧
      ∀ key, s'.windows.get? key = if key ∈ keys then none else s.windows.get? key := by
  induction keys generalizing s with
  | nil => exact ⟨s, rfl, h, by simp⟩
  | cons key keys ih =>
    obtain ⟨hnot, hrest⟩ := List.nodup_cons.mp hkeys
    obtain ⟨w, hw⟩ := Option.isSome_iff_exists.mp (hopen key List.mem_cons_self)
    obtain ⟨s₁, hflush, h₁, hwindows, -, hnodes⟩ := h.close hw (hclosable key List.mem_cons_self)
    have hget : ∀ key', s₁.windows.get? key' = if key' = key then none else s.windows.get? key' :=
      fun key' => by rw [hwindows, Dict.get?_erase]
    have hne : ∀ key' ∈ keys, key' ≠ key := fun key' hmem he => hnot (he ▸ hmem)
    obtain ⟨s', hok, h', hs'⟩ := ih h₁ hrest
      (fun key' hmem => by
        rw [hget, if_neg (hne key' hmem)]
        exact hopen key' (List.mem_cons_of_mem _ hmem))
      (fun key' hmem w' hw' hpos => by
        rw [hget, if_neg (hne key' hmem)] at hw'
        rw [hnodes _ (h.suppressionKey_ne hw hw' (hne key' hmem))]
        exact hclosable key' (List.mem_cons_of_mem _ hmem) w' hw' hpos)
    refine ⟨s', ?_, h', fun key' => ?_⟩
    · rw [GraphFaultSink.flushKeys, hflush]
      exact hok
    · rw [hs', hget]
      by_cases he : key' = key <;> simp [he]

theorem Tallied.flush [DecidableEq δ] (h : Tallied texts s home)
    (hclosable : ∀ key, s.Closable texts key) :
    ∃ s', s.flush texts = (s', none) ∧ Tallied texts s' home ∧ ∀ key,
      s'.windows.get? key = none := by
  obtain ⟨s', hok, h', hs'⟩ := h.flushKeys s.windows.keys s.windows.nodup
    (fun key hkey => Dict.mem_keys_iff.mp hkey) fun key _ => hclosable key
  refine ⟨s', hok, h', fun key => ?_⟩
  rw [hs']
  split
  · rfl
  · exact Dict.notMem_keys_iff.mp ‹_›

/-! ### Counting -/

/-- The queries count every submitted fault, and the faults of each identity at the nodes that
record it. -/
structure FaultsCounted [DecidableEq δ] (texts : FaultTexts τ) (g : Graph δ)
    (submitted : List (AgentFault τ δ)) : Prop where
  total : ∀ start, (∀ f ∈ submitted, texts.micros start ≤ texts.micros f.occurredAt) →
    faultCountInWindow texts g start none = .ok submitted.length
  groups : ∀ identity : List (Value δ), ∃ faults, faultOccurrences texts g = .ok faults ∧
    ((faults.filter fun o => decide (faultIdentity o.node = identity)).map
      FaultOccurrence.occurrenceCount).sum =
        submitted.countP fun f => decide (f.identity = identity)

/-- What the query reads of the node of a fault. -/
theorem faultOccurrence_ok {n : Node δ} {f : AgentFault τ δ} (h : n.props = faultProps texts f)
    (counts : Int × Int) :
    faultOccurrence texts counts n = .ok ⟨n, f.occurredAt, counts.1, counts.2⟩ := by
  have hprop : n.props.get? "occurred_at" = some (.str (texts.iso f.occurredAt)) := by
    rw [h]
    rfl
  rw [faultOccurrence, faultTimestamp, hprop]
  simp only [Value.str?, Option.bind_some, texts.fromIso_iso]
  rfl

/-- The occurrences of nodes that faults were written to: each node once, with its count. -/
theorem mapM_faultOccurrence {g : Graph δ} {nodes : List (Node δ)}
    (h : ∀ n ∈ nodes, ∃ f, n.props = faultProps texts f ∧ (f, n.key) ∈ home) :
    ∃ faults : List (FaultOccurrence τ δ), (nodes.mapM fun node =>
        faultOccurrence texts (((suppressionCounts g).get? node.key).getD (1, 0)) node) =
          .ok faults ∧
      faults.map FaultOccurrence.node = nodes ∧
      ∀ o ∈ faults, o.occurrenceCount = recordedCount g o.node.key ∧
        ∃ f, o.occurredAt = f.occurredAt ∧ (f, o.node.key) ∈ home := by
  induction nodes with
  | nil => exact ⟨[], rfl, rfl, by simp⟩
  | cons n nodes ih =>
    obtain ⟨f, hprops, hmem⟩ := h n List.mem_cons_self
    obtain ⟨faults, hok, hnodes, hfaults⟩ := ih fun n hn => h n (List.mem_cons_of_mem _ hn)
    let counts := ((suppressionCounts g).get? n.key).getD (1, 0)
    refine ⟨⟨n, f.occurredAt, counts.1, counts.2⟩ :: faults, ?_, congrArg (n :: ·) hnodes,
      fun o ho => ?_⟩
    · rw [List.mapM_cons, faultOccurrence_ok hprops, hok]
      rfl
    · rcases List.mem_cons.mp ho with rfl | ho
      · exact ⟨rfl, f, rfl, hmem⟩
      · exact hfaults o ho

theorem Tallied.occurrences (h : Tallied texts s home)
    (hclosed : ∀ key, s.windows.get? key = none) :
    ∃ faults, faultOccurrences texts s.graph = .ok faults ∧
      (faults.map FaultOccurrence.node).Perm (s.graph.listNodes faultLabel) ∧
      ∀ o ∈ faults, o.occurrenceCount = tally home o.node.key ∧
        ∃ f, o.occurredAt = f.occurredAt ∧ (f, o.node.key) ∈ home := by
  obtain ⟨faults, hok, hnodes, hfaults⟩ := mapM_faultOccurrence (g := s.graph) h.nodes
  let newest := faults.mergeSort fun a b =>
    decide (texts.micros b.occurredAt ≤ texts.micros a.occurredAt)
  have hperm : newest.Perm faults := List.mergeSort_perm _ _
  refine ⟨newest, ?_, hnodes ▸ hperm.map _, fun o ho => ?_⟩
  · rw [faultOccurrences]
    simp only [hok]
    rfl
  · have hmem := hperm.mem_iff.mp ho
    obtain ⟨hcount, hf⟩ := hfaults o hmem
    refine ⟨hcount.trans ?_, hf⟩
    refine h.closed o.node (hnodes ▸ List.mem_map_of_mem hmem) fun key w hw => ?_
    rw [hclosed] at hw
    cases hw

/-- Nodes that cover a part of the faults share it out. -/
theorem Tallied.sum_tally (h : Tallied texts s home) (test : Node δ → Bool)
    (testFault : AgentFault τ δ → Bool)
    (hsame : ∀ p ∈ home, ∀ n, s.graph.getNode faultLabel p.2 = some n → test n = testFault p.1) :
    (((s.graph.listNodes faultLabel).filter test).map fun n => tally home n.key).sum =
      home.countP fun p => testFault p.1 := by
  let part := home.filter fun p => testFault p.1
  have hnode : ∀ n ∈ s.graph.listNodes faultLabel, s.graph.getNode faultLabel n.key = some n :=
    fun n hn => (Graph.mem_listNodes.mp hn).2
  have hpart : ∀ n ∈ (s.graph.listNodes faultLabel).filter test,
      tally home n.key = (part.map Prod.snd).count n.key := by
    intro n hn
    obtain ⟨hmem, htest⟩ := List.mem_filter.mp hn
    rw [tally, List.count_eq_countP, List.count_eq_countP, List.countP_map, List.countP_map,
      List.countP_filter]
    refine List.countP_congr fun p hp => ?_
    simp only [Function.comp_apply, Bool.and_eq_true, beq_iff_eq]
    refine ⟨fun he => ⟨he, ?_⟩, fun he => he.1⟩
    rw [← hsame p hp n (he ▸ hnode n hmem), htest]
  rw [List.map_congr_left hpart, List.countP_eq_length_filter, ← List.length_map Prod.snd]
  have hkeys : (((s.graph.listNodes faultLabel).filter test).map Node.key).Nodup :=
    (List.filter_sublist.map _).nodup (Graph.nodup_listNodes_keys s.graph faultLabel)
  have hsum := sum_map_count (l := part.map Prod.snd) hkeys fun key hkey => by
    obtain ⟨p, hp, rfl⟩ := List.mem_map.mp hkey
    obtain ⟨hmem, htest⟩ := List.mem_filter.mp hp
    obtain ⟨n, hn, -⟩ := h.counted p hmem
    obtain ⟨hl, hk⟩ := Graph.getNode_nodeKey hn
    refine List.mem_map.mpr ⟨n, List.mem_filter.mpr ⟨Graph.mem_listNodes.mpr ⟨hl, hk ▸ hn⟩, ?_⟩, hk⟩
    rw [hsame p hmem n hn, htest]
  rw [List.map_map] at hsum
  exact hsum

theorem Tallied.faultsCounted [DecidableEq δ] (h : Tallied texts s home)
    (hclosed : ∀ key, s.windows.get? key = none) :
    FaultsCounted texts s.graph (home.map Prod.fst) := by
  obtain ⟨faults, hok, hperm, hfaults⟩ := h.occurrences hclosed
  -- the sum over the occurrences of some nodes is the sum over these nodes
  have hsum : ∀ test : Node δ → Bool, ((faults.filter fun o => test o.node).map
      FaultOccurrence.occurrenceCount).sum =
        (((s.graph.listNodes faultLabel).filter test).map fun n =>
          (tally home n.key : Int)).sum := by
    intro test
    have hcounts : (faults.filter fun o => test o.node).map FaultOccurrence.occurrenceCount =
        ((faults.map FaultOccurrence.node).filter test).map fun n => (tally home n.key : Int) := by
      rw [List.filter_map, List.map_map]
      exact List.map_congr_left fun o ho => (hfaults o (List.mem_of_mem_filter ho)).1
    rw [hcounts]
    exact ((hperm.filter test).map _).sum_eq
  have hcast : ∀ nodes : List (Node δ), (nodes.map fun n => (tally home n.key : Int)).sum =
      ((nodes.map fun n => tally home n.key).sum : Nat) := fun nodes => by
    rw [Nat.cast_list_sum, List.map_map]
    rfl
  refine ⟨fun start hstart => ?_, fun identity => ⟨faults, hok, ?_⟩⟩
  · have hall : faults.filter (fun item =>
        decide (texts.micros start ≤ texts.micros item.occurredAt) &&
          (none : Option τ).all fun stop =>
            decide (texts.micros item.occurredAt < texts.micros stop)) =
        faults.filter fun _ => true := by
      refine List.filter_congr fun o ho => ?_
      obtain ⟨-, f, hf, hmem⟩ := hfaults o ho
      simp [hf, hstart f (List.mem_map_of_mem (f := Prod.fst) hmem)]
    have hwhole := h.sum_tally (fun _ => true) (fun _ => true) fun _ _ _ _ => rfl
    rw [faultCountInWindow, faultsOccurredInWindow, hok]
    simp only [Fallible.ok_bind, Fallible.pure_eq_ok]
    rw [hall, hsum fun _ => true, hcast, hwhole, List.countP_true, List.length_map]
  · have hgroup := h.sum_tally (fun n => decide (faultIdentity n = identity))
      (fun f => decide (f.identity = identity)) fun p hp n hn => by
        obtain ⟨m, hm, hid⟩ := h.counted p hp
        rw [hm] at hn
        cases hn
        rw [hid]
    rw [hsum fun n => decide (faultIdentity n = identity), hcast, hgroup, List.countP_map]
    rfl

/-! ### Runs -/

/-- A call of the sink. -/
inductive FaultCall (τ δ : Type) where
  | submit (fault : AgentFault τ δ)
  | flush

/-- A sink with the faults that it was given. -/
structure SinkRun (τ δ : Type) where
  sink : GraphFaultSink τ δ
  submitted : List (AgentFault τ δ)

/-- A sink without windows over a graph without faults. -/
def SinkRun.Fresh (r : SinkRun τ δ) : Prop :=
  r.submitted = [] ∧ r.sink.windows = .empty ∧ r.sink.graph.listNodes faultLabel = [] ∧
    r.sink.graph.listNodes faultSuppressionLabel = []

theorem Tallied.of_fresh {r : SinkRun τ δ} (h : r.Fresh) : Tallied texts r.sink [] := by
  obtain ⟨-, hwindows, hfaults, hsummaries⟩ := h
  have hcounts : suppressionCounts r.sink.graph = .empty := by
    rw [suppressionCounts, hsummaries]
    rfl
  exact {
    counted := by simp
    nodes := by simp [hfaults]
    windows := by simp [hwindows]
    apart := by simp [hwindows]
    closed := by simp [hfaults]
    known := by simp [hcounts] }

variable [DecidableEq δ] (texts) (policy : FaultCollapsePolicy)

def SinkRun.perform (r : SinkRun τ δ) : FaultCall τ δ → SinkRun τ δ
  | .submit fault => ⟨(r.sink.submit texts policy fault).1, r.submitted ++ [fault]⟩
  | .flush => ⟨(r.sink.flush texts).1, r.submitted⟩

/-- A fault opens a window when there is none of its signature, or when it lies outside that one. -/
def GraphFaultSink.opens (s : GraphFaultSink τ δ) (fault : AgentFault τ δ) : Prop :=
  ∀ w, s.windows.get? (faultSignature texts fault).key = some w →
    withinWindow texts w.firstFault fault policy = false

/-- A call is clear when a fault joins the window of a fault of its own identity only, finds its
node key free when it opens a window, and every window that the call closes finds the key of its
summary free. -/
def GraphFaultSink.Clear (s : GraphFaultSink τ δ) : FaultCall τ δ → Prop
  | .submit fault =>
    (∀ w, s.windows.get? (faultSignature texts fault).key = some w →
      withinWindow texts w.firstFault fault policy = true →
        w.firstFault.identity = fault.identity) ∧
    (s.opens texts policy fault → s.Closable texts (faultSignature texts fault).key ∧
      s.graph.getNode faultLabel (faultNodeKey texts fault) = none)
  | .flush => ∀ key, s.Closable texts key

variable {texts policy}

theorem submit_first {f : AgentFault τ δ}
    (hw : s.windows.get? (faultSignature texts f).key = none) :
    s.submit texts policy f = s.writeFirst texts f := by
  simp only [GraphFaultSink.submit, hw]

theorem submit_join {f : AgentFault τ δ} {w : FaultWindow τ δ}
    (hw : s.windows.get? (faultSignature texts f).key = some w)
    (hin : withinWindow texts w.firstFault f policy = true) :
    s.submit texts policy f =
      ({ s with
         inner := s.inner ++ [f]
         windows := s.windows.set (faultSignature texts f).key { w with
           suppressedCount := w.suppressedCount + 1
           lastSeenAt := some (texts.iso f.occurredAt) } }, none) := by
  simp only [GraphFaultSink.submit, hw, hin, if_true]

theorem submit_reopen {f : AgentFault τ δ} {w : FaultWindow τ δ} {s' : GraphFaultSink τ δ}
    (hw : s.windows.get? (faultSignature texts f).key = some w)
    (hin : withinWindow texts w.firstFault f policy = false)
    (hflush : s.flushKey texts (faultSignature texts f).key = (s', none)) :
    s.submit texts policy f = s'.writeFirst texts f := by
  simp only [GraphFaultSink.submit, hw, hin, hflush, Bool.false_eq_true, if_false]

theorem Tallied.submit (h : Tallied texts s home) {f : AgentFault τ δ}
    (hclear : s.Clear texts policy (.submit f)) :
    ∃ s' key, s.submit texts policy f = (s', none) ∧ Tallied texts s' (home ++ [(f, key)]) := by
  obtain ⟨hjoin, hopen⟩ := hclear
  cases hw : s.windows.get? (faultSignature texts f).key with
  | none =>
    have hopens : s.opens texts policy f := fun w hw' => by rw [hw] at hw'; cases hw'
    obtain ⟨s', hok, h'⟩ := h.first hw (hopen hopens).2
    exact ⟨s', _, (submit_first hw).trans hok, h'⟩
  | some w =>
    cases hin : withinWindow texts w.firstFault f policy with
    | true => exact ⟨_, w.firstFaultKey, submit_join hw hin, h.join hw (hjoin w hw hin)⟩
    | false =>
      have hopens : s.opens texts policy f := fun w' hw' => by
        rw [hw] at hw'
        cases hw'
        exact hin
      obtain ⟨hclosable, hfresh⟩ := hopen hopens
      obtain ⟨s₁, hflush, h₁, hwindows, hnodes, -⟩ := h.close hw hclosable
      have hnone : s₁.windows.get? (faultSignature texts f).key = none := by
        rw [hwindows, Dict.get?_erase, if_pos rfl]
      obtain ⟨s', hok, h'⟩ := h₁.first hnone ((hnodes _).trans hfresh)
      exact ⟨s', _, (submit_reopen hw hin hflush).trans hok, h'⟩

/-- The runs of a sink whose calls are all allowed. -/
def SinkRuns (texts : FaultTexts τ) (policy : FaultCollapsePolicy)
    (allowed : SinkRun τ δ → FaultCall τ δ → Prop) : SinkRun τ δ → Prop :=
  Reach (fun r call => (.ok (r.perform texts policy call) : Except Empty (SinkRun τ δ))) allowed
    SinkRun.Fresh

theorem SinkRuns.tallied {r : SinkRun τ δ}
    (h : SinkRuns texts policy (fun r => r.sink.Clear texts policy) r) :
    ∃ home, home.map Prod.fst = r.submitted ∧ Tallied texts r.sink home := by
  refine Reach.invariant
    (P := fun r => ∃ home, home.map Prod.fst = r.submitted ∧ Tallied texts r.sink home) ?_ ?_ h
  · exact fun r hr => ⟨[], hr.1.symm, .of_fresh hr⟩
  · rintro r call r' ⟨home, hhome, ht⟩ hclear hok
    cases hok
    cases call with
    | submit f =>
      obtain ⟨s', key, hok, ht'⟩ := ht.submit hclear
      refine ⟨home ++ [(f, key)], by simp [SinkRun.perform, hhome], ?_⟩
      rw [SinkRun.perform, hok]
      exact ht'
    | flush =>
      obtain ⟨s', hok, ht', -⟩ := ht.flush hclear
      refine ⟨home, hhome, ?_⟩
      rw [SinkRun.perform, hok]
      exact ht'

/-- After a run of clear calls and a clear last flush, which succeeds, the queries count every
submitted fault, each identity at its own nodes. -/
theorem clear_faultsCounted {r : SinkRun τ δ}
    (h : SinkRuns texts policy (fun r => r.sink.Clear texts policy) r)
    (hlast : r.sink.Clear texts policy .flush) :
    (r.sink.flush texts).2 = none ∧
      FaultsCounted texts (r.sink.flush texts).1.graph r.submitted := by
  obtain ⟨home, hhome, ht⟩ := h.tallied
  obtain ⟨s', hok, ht', hclosed⟩ := ht.flush hlast
  rw [hok, ← hhome]
  exact ⟨rfl, ht'.faultsCounted hclosed⟩

end

/-! ### Two faults at one moment -/

/-- One moment, and the digests of two messages. -/
def nightTexts : FaultTexts Unit where
  micros _ := 1784556000000000
  iso _ := "2026-07-20T14:00:00+00:00"
  fromIso text := if text = "2026-07-20T14:00:00+00:00" then some () else none
  hexdigest message :=
    if message = "order rejected" then
      "2c7f6a6dcfedc1189cdf7acbfbddaac8ce2f3e7bb9fedcc84de93394d8fde0d3"
    else "d2ef4281b0e6559e87acb43f6a90556e47ce03d44fcae1c5cbb44ca8660be898"
  fromIso_iso _ := rfl
  iso_parts _ part hpart _ := lt_of_le_of_lt hpart.length_le (by decide)
  hexdigest_length _ := by split <;> decide +kernel
  hexdigest_colon _ := by split <;> decide +kernel

def nightFault (message : String) : AgentFault Unit Unit where
  occurredAt := ()
  sourceAgent := "execution"
  sourceModule := "agents.execution.poll"
  capability := none
  severity := "error"
  errorType := "ValueError"
  message := message
  traceback := none
  correlationId := none
  context := ()

def emptyRun : SinkRun Unit Unit := ⟨⟨.empty, [], .empty⟩, []⟩

theorem emptyRun_fresh : emptyRun.Fresh := ⟨rfl, rfl, rfl, rfl⟩

/-- One fault twice: the second one is a repeat. -/
def repeatedRun : SinkRun Unit Unit :=
  (emptyRun.perform nightTexts {} (.submit (nightFault "order rejected"))).perform nightTexts {}
    (.submit (nightFault "order rejected"))

theorem repeatedRun_faultsCounted : (repeatedRun.sink.flush nightTexts).2 = none ∧
    FaultsCounted nightTexts (repeatedRun.sink.flush nightTexts).1.graph repeatedRun.submitted := by
  have hone : SinkRuns nightTexts {} (fun r => r.sink.Clear nightTexts {})
      (emptyRun.perform nightTexts {} (.submit (nightFault "order rejected"))) :=
    .step (.submit (nightFault "order rejected")) (.start emptyRun_fresh)
      ⟨fun w hw => (by cases hw), fun _ => ⟨fun w hw => (by cases hw), rfl⟩⟩ rfl
  have htwo : SinkRuns nightTexts {} (fun r => r.sink.Clear nightTexts {}) repeatedRun := by
    refine .step (.submit (nightFault "order rejected")) hone
      ⟨fun w hw _ => ?_, fun hopens => ?_⟩ rfl
    · cases hw
      rfl
    · cases (withinWindow_self {} (nightFault "order rejected")).symm.trans (hopens _ rfl)
  have hnone : repeatedRun.sink.graph.listNodes faultSuppressionLabel = [] :=
    List.isEmpty_iff.mp (by decide +kernel)
  refine clear_faultsCounted htwo fun key w _ _ => Graph.getNode_eq_none_of_notMem ?_
  rw [hnone]
  exact List.not_mem_nil

/-- Two faults of one origin at one moment, with different messages. -/
def twoFaultsRun : SinkRun Unit Unit :=
  (emptyRun.perform nightTexts {} (.submit (nightFault "order rejected"))).perform nightTexts {}
    (.submit (nightFault "position missing"))

/-- The store refuses the node of the second fault, since it has the key of the first one. -/
theorem twoFaultsRun_lost : ¬ ∀ r : SinkRun Unit Unit,
    SinkRuns nightTexts {} (fun _ _ => True) r →
      FaultsCounted nightTexts (r.sink.flush nightTexts).1.graph r.submitted := by
  intro hall
  have hrun : SinkRuns nightTexts {} (fun _ _ => True) twoFaultsRun :=
    .step (.submit (nightFault "position missing"))
      (.step (.submit (nightFault "order rejected"))
        (.start emptyRun_fresh) trivial rfl) trivial rfl
  have hone : Fallible.check (fun n => decide (n = 1)) (faultCountInWindow nightTexts
      (twoFaultsRun.sink.flush nightTexts).1.graph () none) = true := by decide +kernel
  rw [(hall _ hrun).total () fun f _ => le_rfl] at hone
  cases hone

end TradingAgents.Kernel
