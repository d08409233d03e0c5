import TradingAgents.Execution.DivergenceEpisodes
import TradingAgents.ProofKit.Crash

/-! The divergence flags of the store.  A subject names its kind, its ticker and the snapshot that
opened it, so the open flags of an identity share their subject, and a subject is only resolved
after a later snapshot has been taken. -/

namespace TradingAgents.Execution

open Kernel ProofKit

/-! ### Subjects -/

theorem takeWhile_sep {c : Char} {x y : List Char} (h : c ∉ x) :
    (x ++ c :: y).takeWhile (· ≠ c) = x ∧ (x ++ c :: y).dropWhile (· ≠ c) = c :: y := by
  induction x with
  | nil => simp
  | cons a x ih =>
    simp only [List.mem_cons, not_or] at h
    obtain ⟨htake, hdrop⟩ := ih h.2
    have ha : decide (a ≠ c) = true := by simpa using Ne.symm h.1
    exact ⟨by rw [List.cons_append, List.takeWhile_cons, if_pos ha, htake],
      by rw [List.cons_append, List.dropWhile_cons, if_pos ha, hdrop]⟩

theorem kind_colon (k : DivergenceKind) : ':' ∉ k.text.toList := by
  cases k <;> decide

theorem subjectRefFor_toList (d : Divergence) (episode : String) :
    (subjectRefFor d episode).toList = divergencePrefix.toList ++
      (d.kind.text.toList ++ ':' :: (d.ticker.toList ++ ':' :: episode.toList)) := by
  have hcolon : (":" : String).toList = [':'] := String.toList_singleton ':'
  unfold subjectRefFor
  simp only [String.toList_append, hcolon, List.append_assoc, List.cons_append, List.nil_append]

/-- A subject belongs to the family. -/
theorem inFamily_subjectRefFor (d : Divergence) (episode : String) :
    inFamily (subjectRefFor d episode) = true := by
  have hlegacy : legacyPrefix.toList =
      divergencePrefix.toList ++ "broker-position-snapshot:".toList := String.toList_append ..
  have hnot : ¬ "broker-position-snapshot:".toList <+:
      d.kind.text.toList ++ ':' :: (d.ticker.toList ++ ':' :: episode.toList) := by
    cases d.kind <;> exact fun h => by cases (List.cons_prefix_cons.mp h).1
  rw [inFamily, startsWith, startsWith, hlegacy, subjectRefFor_toList]
  simp only [Bool.and_eq_true, Bool.not_eq_true', List.isPrefixOf_iff_prefix,
    List.prefix_append, true_and]
  rw [Bool.eq_false_iff, ne_eq, List.isPrefixOf_iff_prefix, List.prefix_append_right_inj]
  exact hnot

/-- The parser finds the identity of a divergence in its subject when the ticker has no colon. -/
theorem subjectIdentity_subjectRefFor {d : Divergence} (h : ':' ∉ d.ticker.toList)
    (episode : String) : subjectIdentity (subjectRefFor d episode) = d.identity := by
  have hstart : startsWith (subjectRefFor d episode) divergencePrefix = true := by
    rw [startsWith, subjectRefFor_toList, List.isPrefixOf_iff_prefix]
    exact List.prefix_append _ _
  have hdrop : (subjectRefFor d episode).toList.drop divergencePrefix.length =
      d.kind.text.toList ++ ':' :: (d.ticker.toList ++ ':' :: episode.toList) := by
    rw [subjectRefFor_toList, ← String.length_toList, List.drop_left]
  obtain ⟨hkind, hrest⟩ := takeWhile_sep (y := d.ticker.toList ++ ':' :: episode.toList)
    (kind_colon d.kind)
  obtain ⟨hticker, -⟩ := takeWhile_sep (y := episode.toList) h
  simp only [subjectIdentity, hstart, if_true, hdrop, hkind, hrest, List.drop_one, List.tail_cons,
    hticker, String.ofList_toList, Divergence.identity]

/-- A subject holds the snapshot that opened its episode. -/
theorem subjectRefFor_injective {d d' : Divergence} {episode episode' : String}
    (h : ':' ∉ d.ticker.toList) (h' : ':' ∉ d'.ticker.toList)
    (heq : subjectRefFor d episode = subjectRefFor d' episode') :
    d.identity = d'.identity ∧ episode = episode' := by
  have hl := congrArg String.toList heq
  rw [subjectRefFor_toList, subjectRefFor_toList, List.append_cancel_left_eq] at hl
  obtain ⟨hkind, hrest⟩ := Text.append_sep_left (kind_colon d.kind) (kind_colon d'.kind) hl
  obtain ⟨hticker, hepisode⟩ := Text.append_sep_left h h' hrest
  refine ⟨?_, String.toList_inj.mp hepisode⟩
  rw [Divergence.identity, Divergence.identity, String.toList_inj.mp hkind,
    String.toList_inj.mp hticker]

/-- The severities that a pass writes. -/
def FlagSeverity (severity : String) : Prop := severity = "warn" ∨ severity = "critical"

theorem FlagSeverity.colon {severity : String} (h : FlagSeverity severity) :
    ':' ∉ severity.toList := by
  rcases h with rfl | rfl <;> decide

/-- A flag's key holds its subject and its severity. -/
theorem divergenceFlagKey_injective {subject subject' severity severity' : String}
    (h : FlagSeverity severity) (h' : FlagSeverity severity')
    (heq : divergenceFlagKey subject severity = divergenceFlagKey subject' severity') :
    subject = subject' ∧ severity = severity' := by
  obtain ⟨hsubject, hseverity⟩ := Text.split_right (c := ':') h.colon h'.colon heq
  exact ⟨String.append_right_inj _ |>.mp hsubject, hseverity⟩

/-! ### What the store holds -/

/-- A snapshot and what it found. -/
structure Sighting where
  key : String
  divergences : List Divergence

/-- The snapshot `key` found the identity. -/
def Saw (history : List Sighting) (identity : String × String) (key : String) : Prop :=
  ∃ x ∈ history, x.key = key ∧ identity ∈ x.divergences.map Divergence.identity

/-- A snapshot later than `key` was taken. -/
def Older (history : List Sighting) (key : String) : Prop :=
  ∃ before x after, history = before ++ x :: after ∧ x.key = key ∧ after ≠ []

/-- A snapshot later than `key` found the identity. -/
def SawAfter (history : List Sighting) (identity : String × String) (key : String) : Prop :=
  ∃ before x after, history = before ++ x :: after ∧ x.key = key ∧
    ∃ y ∈ after, identity ∈ y.divergences.map Divergence.identity

/-- An open flag of the family. -/
def IsOpen (g : PipelineGraph) (n : PipelineNode) : Prop :=
  n ∈ g.listNodes divergenceFlagLabel ∧ inFamily (flagJoin n).1 = true ∧
    flagJoin n ∉ (g.listNodes divergenceResolutionLabel).map flagJoin

def flagIdentity (n : PipelineNode) : String × String := subjectIdentity (flagJoin n).1

/-- A node that is none of the family's. -/
def Foreign (pre : String) (n : PipelineNode) : Prop :=
  inFamily (flagJoin n).1 = false ∧
    ∀ d episode severity, n.key ≠ pre ++ divergenceFlagKey (subjectRefFor d episode) severity

/-- A flag as a pass writes it. -/
def Raised (history : List Sighting) (n : PipelineNode) : Prop :=
  ∃ d episode severity, n.key = divergenceFlagKey (subjectRefFor d episode) severity ∧
    flagJoin n = (subjectRefFor d episode, severity) ∧ ':' ∉ d.ticker.toList ∧
    Saw history d.identity episode ∧
    (severity = "warn" ∨ severity = "critical" ∧ SawAfter history d.identity episode)

/-- A resolution as a pass writes it. -/
def Retired (history : List Sighting) (g : PipelineGraph) (n : PipelineNode) : Prop :=
  ∃ d episode severity,
    n.key = "resolution:" ++ divergenceFlagKey (subjectRefFor d episode) severity ∧
    flagJoin n = (subjectRefFor d episode, severity) ∧ ':' ∉ d.ticker.toList ∧
    FlagSeverity severity ∧ Older history episode ∧
    (g.getNode divergenceFlagLabel
      (divergenceFlagKey (subjectRefFor d episode) severity)).isSome = true

/-- The invariant of the flags and their resolutions. -/
structure Orderly (history : List Sighting) (g : PipelineGraph) : Prop where
  flags : ∀ n ∈ g.listNodes divergenceFlagLabel, Foreign "" n ∨ Raised history n
  resolutions : ∀ n ∈ g.listNodes divergenceResolutionLabel,
    Foreign "resolution:" n ∨ Retired history g n
  single : ∀ n m, IsOpen g n → IsOpen g m → flagIdentity n = flagIdentity m →
    (flagJoin n).1 = (flagJoin m).1

section

variable {history : List Sighting} {g g' : PipelineGraph} {n m : PipelineNode}

theorem SawAfter.older {identity : String × String} {key : String}
    (h : SawAfter history identity key) : Older history key := by
  obtain ⟨before, x, after, rfl, hkey, y, hy, -⟩ := h
  exact ⟨before, x, after, rfl, hkey, List.ne_nil_of_mem hy⟩

/-- The last snapshot is not older than another one. -/
theorem not_older_last {past : List Sighting} {x : Sighting}
    (hnodup : ((past ++ [x]).map Sighting.key).Nodup) : ¬ Older (past ++ [x]) x.key := by
  rintro ⟨before, y, after, hsplit, hkey, hne⟩
  obtain ⟨after', last, rfl⟩ := List.eq_nil_or_concat after |>.resolve_left hne
  rw [List.concat_eq_append, ← List.cons_append, ← List.append_assoc] at hsplit
  obtain ⟨rfl, hlast⟩ := List.append_inj' hsplit rfl
  rw [List.map_append, List.nodup_append] at hnodup
  exact hnodup.2.2 y.key (List.mem_map_of_mem (by simp)) x.key (by simp) hkey

theorem Orderly.raised (h : Orderly history g) (hn : IsOpen g n) : Raised history n := by
  rcases h.flags n hn.1 with hforeign | hraised
  · cases hforeign.1.symm.trans hn.2.1
  · exact hraised

theorem Raised.severity (h : Raised history n) : FlagSeverity (flagJoin n).2 := by
  obtain ⟨d, episode, severity, -, hjoin, -, -, hseverity⟩ := h
  rw [hjoin]
  exact hseverity.imp id And.left

theorem Raised.key_eq (h : Raised history n) :
    n.key = divergenceFlagKey (flagJoin n).1 (flagJoin n).2 := by
  obtain ⟨d, episode, severity, hkey, hjoin, -⟩ := h
  rw [hjoin]
  exact hkey

/-- The open flags of an identity differ in severity. -/
theorem Orderly.eq_of_open (h : Orderly history g) (hn : IsOpen g n) (hm : IsOpen g m)
    (hid : flagIdentity n = flagIdentity m) (hseverity : (flagJoin n).2 = (flagJoin m).2) :
    n = m := by
  have hkey : n.key = m.key := by
    rw [(h.raised hn).key_eq, (h.raised hm).key_eq, h.single n m hn hm hid, hseverity]
  have hn' := (Graph.mem_listNodes.mp hn.1).2
  have hm' := (Graph.mem_listNodes.mp hm.1).2
  rw [hkey, hm'] at hn'
  exact (Option.some.inj hn').symm

/-- No resolution is written for a flag that does not stand, nor for one of the last snapshot. -/
theorem Orderly.not_resolved (h : Orderly history g) {d : Divergence} {episode severity : String}
    (hcolon : ':' ∉ d.ticker.toList)
    (hfree : g.getNode divergenceFlagLabel
      (divergenceFlagKey (subjectRefFor d episode) severity) = none ∨ ¬ Older history episode) :
    (subjectRefFor d episode, severity) ∉
      (g.listNodes divergenceResolutionLabel).map flagJoin := by
  intro hmem
  obtain ⟨r, hr, hjoin⟩ := List.mem_map.mp hmem
  rcases h.resolutions r hr with hforeign | ⟨d', episode', severity', -, hjoin', hcolon', -,
    hold, hsome⟩
  · rw [Foreign, hjoin, inFamily_subjectRefFor] at hforeign
    cases hforeign.1
  · rw [hjoin] at hjoin'
    obtain ⟨hsubject, rfl⟩ := Prod.mk.inj hjoin'
    obtain ⟨-, rfl⟩ := subjectRefFor_injective hcolon hcolon' hsubject
    rcases hfree with hfree | hyoung
    · rw [← hsubject, hfree] at hsome
      cases hsome
    · exact hyoung hold

/-! ### One write -/

/-- The node that a flag is written as. -/
def flagNode (subjectRef severity reason now : String) : PipelineNode :=
  ⟨divergenceFlagLabel, divergenceFlagKey subjectRef severity, .ofList [
    ("subject_ref", .str subjectRef),
    ("severity", .str severity),
    ("reason", .str reason),
    ("status", .str "pending"),
    ("created_at", .str now)], 1⟩

/-- The node that a resolution is written as. -/
def resolutionNode (join : String × String) (reason snapshotKey now : String) : PipelineNode :=
  ⟨divergenceResolutionLabel, "resolution:" ++ divergenceFlagKey join.1 join.2, .ofList [
    ("subject_ref", .str join.1),
    ("severity", .str join.2),
    ("resolved_at", .str now),
    ("resolved_by", .str "run-start-reconciliation"),
    ("resolution_reason", .str reason),
    ("resolving_snapshot_key", .str snapshotKey)], 1⟩

theorem flagLabel_ne : divergenceFlagLabel ≠ divergenceResolutionLabel := by decide

/-- The open flags depend on the nodes alone. -/
theorem isOpen_of_lists
    (hflags : g'.listNodes divergenceFlagLabel = g.listNodes divergenceFlagLabel)
    (hres : g'.listNodes divergenceResolutionLabel = g.listNodes divergenceResolutionLabel) :
    IsOpen g' n ↔ IsOpen g n := by
  rw [IsOpen, IsOpen, hflags, hres]

theorem Orderly.of_nodes (h : Orderly history g) (hnodes : g'.nodes = g.nodes) :
    Orderly history g' := by
  have hlist := Graph.listNodes_of_nodes_eq hnodes
  have hopen : ∀ {n}, IsOpen g' n ↔ IsOpen g n := isOpen_of_lists (hlist _) (hlist _)
  refine ⟨fun n hn => h.flags n (hlist _ ▸ hn), fun n hn => ?_, fun n m hn hm =>
    h.single n m (hopen.mp hn) (hopen.mp hm)⟩
  refine (h.resolutions n (hlist _ ▸ hn)).imp id ?_
  rintro ⟨d, episode, severity, hkey, hjoin, hcolon, hsev, hold, hsome⟩
  exact ⟨d, episode, severity, hkey, hjoin, hcolon, hsev, hold, by
    rw [Graph.getNode_of_nodes_eq hnodes]; exact hsome⟩

/-- A new flag: its key is free, and the open flags of its identity have its subject. -/
theorem Orderly.raise (h : Orderly history g) {d : Divergence} {episode severity : String}
    (reason now : String) (hcolon : ':' ∉ d.ticker.toList) (hsaw : Saw history d.identity episode)
    (hseverity : severity = "warn" ∨ severity = "critical" ∧ SawAfter history d.identity episode)
    (hfree : g.getNode divergenceFlagLabel
      (divergenceFlagKey (subjectRefFor d episode) severity) = none)
    (hsame : ∀ n, IsOpen g n → flagIdentity n = d.identity →
      (flagJoin n).1 = subjectRefFor d episode) :
    Orderly history (g.put (flagNode (subjectRefFor d episode) severity reason now)) ∧
      ∀ n, IsOpen (g.put (flagNode (subjectRefFor d episode) severity reason now)) n ↔
        IsOpen g n ∨ n = flagNode (subjectRefFor d episode) severity reason now := by
  let node := flagNode (subjectRefFor d episode) severity reason now
  have hflags : (g.put node).listNodes divergenceFlagLabel =
      g.listNodes divergenceFlagLabel ++ [node] := Graph.listNodes_put_fresh (n := node) hfree
  have hres : (g.put node).listNodes divergenceResolutionLabel =
      g.listNodes divergenceResolutionLabel := Graph.listNodes_put_of_ne flagLabel_ne
  have hnew : IsOpen (g.put node) node := by
    refine ⟨by rw [hflags]; simp, inFamily_subjectRefFor d episode, ?_⟩
    rw [hres]
    exact h.not_resolved hcolon (.inl hfree)
  have hopen : ∀ n, IsOpen (g.put node) n ↔ IsOpen g n ∨ n = node := by
    refine fun n => ⟨fun hn => ?_, ?_⟩
    · obtain ⟨hmem, hfamily, hnot⟩ := hn
      rw [hflags, List.mem_append, List.mem_singleton] at hmem
      rw [hres] at hnot
      exact hmem.imp (fun hmem => ⟨hmem, hfamily, hnot⟩) id
    · rintro (⟨hmem, hfamily, hnot⟩ | rfl)
      · exact ⟨by rw [hflags]; simp [hmem], hfamily, by rw [hres]; exact hnot⟩
      · exact hnew
  have hidentity : flagIdentity node = d.identity := subjectIdentity_subjectRefFor hcolon episode
  refine ⟨⟨fun n hn => ?_, fun n hn => ?_, fun n m hn hm hid => ?_⟩, hopen⟩
  · rw [hflags, List.mem_append, List.mem_singleton] at hn
    rcases hn with hn | rfl
    · exact h.flags n hn
    · exact .inr ⟨d, episode, severity, rfl, rfl, hcolon, hsaw, hseverity⟩
  · refine (h.resolutions n (hres ▸ hn)).imp id ?_
    rintro ⟨d', episode', severity', hkey, hjoin, hcolon', hsev, hold, hsome⟩
    refine ⟨d', episode', severity', hkey, hjoin, hcolon', hsev, hold, ?_⟩
    rw [Graph.getNode_put]
    split
    · rfl
    · exact hsome
  · rcases (hopen n).mp hn with hn | rfl <;> rcases (hopen m).mp hm with hm | rfl
    · exact h.single n m hn hm hid
    · exact hsame n hn (hid.trans hidentity)
    · exact (hsame m hm (hid.symm.trans hidentity)).symm
    · rfl

/-- The resolution of an open flag, whose episode is not of the last snapshot. -/
theorem Orderly.retire (h : Orderly history g) (hn : IsOpen g n) (reason snapshotKey now : String)
    (hold : ∀ d episode, ':' ∉ d.ticker.toList → (flagJoin n).1 = subjectRefFor d episode →
      Older history episode) :
    g.getNode divergenceResolutionLabel
        ("resolution:" ++ divergenceFlagKey (flagJoin n).1 (flagJoin n).2) = none ∧
      Orderly history (g.put (resolutionNode (flagJoin n) reason snapshotKey now)) ∧
      ∀ m, IsOpen (g.put (resolutionNode (flagJoin n) reason snapshotKey now)) m ↔
        IsOpen g m ∧ flagJoin m ≠ flagJoin n := by
  let node := resolutionNode (flagJoin n) reason snapshotKey now
  have hraised := h.raised hn
  obtain ⟨d, episode, severity, hkey, hjoin, hcolon, hsaw, hseverity⟩ := id hraised
  have hsev : FlagSeverity severity := hseverity.imp id And.left
  have hfree : g.getNode divergenceResolutionLabel
      ("resolution:" ++ divergenceFlagKey (flagJoin n).1 (flagJoin n).2) = none := by
    by_contra hne
    obtain ⟨r, hr⟩ := Option.ne_none_iff_exists'.mp hne
    obtain ⟨hlabel, hrkey⟩ := Graph.getNode_nodeKey hr
    have hmem := Graph.mem_listNodes.mpr ⟨hlabel, hrkey ▸ hr⟩
    rw [hjoin] at hrkey
    rcases h.resolutions r hmem with hforeign | ⟨d', episode', severity', hkey', hjoin',
      -, hsev', -⟩
    · exact hforeign.2 d episode severity hrkey
    · have hkeys := String.append_right_inj _ |>.mp (hrkey.symm.trans hkey')
      obtain ⟨hsubject, rfl⟩ := divergenceFlagKey_injective hsev hsev' hkeys
      refine hn.2.2 (List.mem_map.mpr ⟨r, hmem, ?_⟩)
      rw [hjoin, hjoin']
      exact Prod.ext hsubject.symm rfl
  have hflags : (g.put node).listNodes divergenceFlagLabel = g.listNodes divergenceFlagLabel :=
    Graph.listNodes_put_of_ne flagLabel_ne.symm
  have hres : (g.put node).listNodes divergenceResolutionLabel =
      g.listNodes divergenceResolutionLabel ++ [node] := Graph.listNodes_put_fresh (n := node) hfree
  have hopen : ∀ m, IsOpen (g.put node) m ↔ IsOpen g m ∧ flagJoin m ≠ flagJoin n := by
    intro m
    rw [IsOpen, IsOpen, hflags, hres, List.map_append, List.mem_append, not_or]
    simp only [List.map_cons, List.map_nil, List.mem_singleton]
    exact ⟨fun ⟨a, b, c, d⟩ => ⟨⟨a, b, c⟩, d⟩, fun ⟨⟨a, b, c⟩, d⟩ => ⟨a, b, c, d⟩⟩
  refine ⟨hfree, ⟨fun m hm => h.flags m (hflags ▸ hm), fun r hr => ?_, fun m k hm hk =>
    h.single m k ((hopen m).mp hm).1 ((hopen k).mp hk).1⟩, hopen⟩
  have hget : ∀ key, (g.put node).getNode divergenceFlagLabel key =
      g.getNode divergenceFlagLabel key := fun key => by
    rw [Graph.getNode_put, if_neg fun he => flagLabel_ne he.1]
  rw [hres, List.mem_append, List.mem_singleton] at hr
  rcases hr with hr | rfl
  · refine (h.resolutions r hr).imp id ?_
    rintro ⟨d', episode', severity', hkey', hjoin', hcolon', hsev', hold', hsome'⟩
    exact ⟨d', episode', severity', hkey', hjoin', hcolon', hsev', hold', by
      rw [hget]; exact hsome'⟩
  · refine .inr ⟨d, episode, severity, ?_, hjoin, hcolon, hsev, hold d episode hcolon ?_, ?_⟩
    · show "resolution:" ++ divergenceFlagKey (flagJoin n).1 (flagJoin n).2 = _
      rw [hjoin]
    · rw [hjoin]
    · rw [hget, ← hkey, (Graph.mem_listNodes.mp hn.1).2]
      rfl

/-! ### The writes of a pass -/

/-- Every flag of the first graph stands in the second one as it was. -/
def FlagsKept (g g' : PipelineGraph) : Prop :=
  ∀ key n, g.getNode divergenceFlagLabel key = some n → g'.getNode divergenceFlagLabel key = some n

/-- A pass goes on from `p` to `p'` by writes that keep the flags in order, and those of `g₀` as
they were, wherever they are cut off. -/
def PassSafe (history : List Sighting) (g₀ : PipelineGraph) (Q : PipelineGraph → Prop)
    (p p' : FlagPass) (g : PipelineGraph) : Prop :=
  ∃ ops, p'.writes = p.writes ++ ops ∧
    CrashSafe Graph.write (fun t => Orderly history t ∧ FlagsKept g₀ t) Q ops g

namespace PassSafe

variable {g₀ : PipelineGraph} {Q Q' : PipelineGraph → Prop} {p p' p'' : FlagPass}

theorem refl (h : Orderly history g) (hkept : FlagsKept g₀ g) (hq : Q g) :
    PassSafe history g₀ Q p p g :=
  ⟨[], by simp, ⟨h, hkept⟩, hq⟩

theorem mono (h : PassSafe history g₀ Q p p' g)
    (hle : ∀ t, Orderly history t → FlagsKept g₀ t → Q t → Q' t) :
    PassSafe history g₀ Q' p p' g := by
  obtain ⟨ops, hops, hsafe⟩ := h
  exact ⟨ops, hops, hsafe.mono fun t ht hq => hle t ht.1 ht.2 hq⟩

/-- The writes lead to some graph when nothing cuts them off. -/
theorem reached (h : PassSafe history g₀ Q p p' g) :
    ∃ t, Orderly history t ∧ FlagsKept g₀ t ∧ Q t := by
  obtain ⟨ops, -, hsafe⟩ := h
  obtain ⟨t, -, ht, hq⟩ := hsafe.carryOut (List.replicate ops.length "")
  exact ⟨t, ht.1, ht.2, hq (by simp)⟩

/-- What a pass writes next goes on from the graph that its writes so far lead to. -/
theorem trans (h : PassSafe history g₀ Q p p' g)
    (h' : ∀ t, Orderly history t → FlagsKept g₀ t → Q t → PassSafe history g₀ Q' p' p'' t) :
    PassSafe history g₀ Q' p p'' g := by
  obtain ⟨t, ht, hkept, hq⟩ := h.reached
  obtain ⟨ops', hops', -⟩ := h' t ht hkept hq
  obtain ⟨ops, hops, hsafe⟩ := h
  refine ⟨ops ++ ops', by rw [hops', hops, List.append_assoc], hsafe.append fun u hu hq => ?_⟩
  obtain ⟨ops'', hops'', hsafe'⟩ := h' u hu.1 hu.2 hq
  have heq : ops'' = ops' := List.append_cancel_left (hops''.symm.trans hops')
  exact heq ▸ hsafe'

end PassSafe

theorem write_fresh {label key : String} {props : Props Document}
    (h : g.getNode label key = none) :
    g.write (.merge label key props) = .ok (g.put ⟨label, key, props, 1⟩) := by
  rw [Graph.write, Graph.mergeNode_fresh props h]
  rfl

/-- The writes of `close`: the flag is no longer open, and nothing else changes. -/
theorem Orderly.close_safe {g₀ : PipelineGraph} (h : Orderly history g) (hkept : FlagsKept g₀ g)
    (hn : IsOpen g n) (p : FlagPass) (snapshotKey reason : String)
    (hold : ∀ d episode, ':' ∉ d.ticker.toList → (flagJoin n).1 = subjectRefFor d episode →
      Older history episode) :
    PassSafe history g₀ (fun t => (∀ m, IsOpen t m ↔ IsOpen g m ∧ flagJoin m ≠ flagJoin n) ∧
      ∀ key, t.getNode divergenceFlagLabel key = g.getNode divergenceFlagLabel key)
      p (p.close n snapshotKey reason) g := by
  refine ⟨_, rfl, ⟨h, hkept⟩, fun now => ?_⟩
  obtain ⟨hfree, hput, hopen⟩ := h.retire hn reason snapshotKey now hold
  let node := resolutionNode (flagJoin n) reason snapshotKey now
  have hget : ∀ key, (g.put node).getNode divergenceFlagLabel key =
      g.getNode divergenceFlagLabel key := fun key => by
    rw [Graph.getNode_put, if_neg fun he => flagLabel_ne he.1]
  refine ⟨g.put node, write_fresh hfree,
    ⟨hput, fun key m hm => (hget key).trans (hkept key m hm)⟩, fun _ => ?_⟩
  have hflag := Graph.mem_listNodes.mp hn.1
  have hparent : node.nodeKey ∈ (g.put node).nodes.keys := by
    refine Graph.mem_keys_of_getNode (n := node) ?_
    rw [Graph.getNode_put, if_pos ⟨rfl, rfl⟩]
  have hchild : n.nodeKey ∈ (g.put node).nodes.keys := by
    refine Graph.mem_keys_of_getNode (n := n) ?_
    rw [hflag.1, hget, hflag.2]
  refine ⟨(g.put node).link ⟨node.nodeKey, n.nodeKey, "RESOLVES"⟩ hparent hchild,
    Graph.addEdge_eq_link "RESOLVES" hparent hchild, ?_⟩
  have hnodes : ((g.put node).link ⟨node.nodeKey, n.nodeKey, "RESOLVES"⟩ hparent hchild).nodes =
      (g.put node).nodes := rfl
  have hlist := Graph.listNodes_of_nodes_eq hnodes
  have hget' := fun key =>
    (Graph.getNode_of_nodes_eq hnodes divergenceFlagLabel key).trans (hget key)
  exact ⟨⟨hput.of_nodes hnodes, fun key m hm => (hget' key).trans (hkept key m hm)⟩,
    fun m => (isOpen_of_lists (hlist _) (hlist _)).trans (hopen m), hget'⟩

/-- The spent keys of a pass are the keys of the flags that stand. -/
def SpentKeys (g : PipelineGraph) (written : List String) : Prop :=
  ∀ key, key ∈ written ↔ (g.getNode divergenceFlagLabel key).isSome = true

/-- The write of `writeFlag`, when the key is not spent. -/
theorem Orderly.flag_safe {g₀ : PipelineGraph} (h : Orderly history g) (hkept : FlagsKept g₀ g)
    {p : FlagPass} (hspent : SpentKeys g p.written) {d : Divergence} (d' : Divergence)
    {episode severity : String} (snapshotKey : String) (hcolon : ':' ∉ d.ticker.toList)
    (hsaw : Saw history d.identity episode)
    (hseverity : severity = "warn" ∨ severity = "critical" ∧ SawAfter history d.identity episode)
    (hfree : divergenceFlagKey (subjectRefFor d episode) severity ∉ p.written)
    (hsame : ∀ n, IsOpen g n → flagIdentity n = d.identity →
      (flagJoin n).1 = subjectRefFor d episode) :
    (p.writeFlag (subjectRefFor d episode) severity snapshotKey d').1 = true ∧
      PassSafe history g₀ (fun t =>
        (∃ node, flagJoin node = (subjectRefFor d episode, severity) ∧
          ∀ m, IsOpen t m ↔ IsOpen g m ∨ m = node) ∧
        SpentKeys t (p.writeFlag (subjectRefFor d episode) severity snapshotKey d').2.written)
        p (p.writeFlag (subjectRefFor d episode) severity snapshotKey d').2 g := by
  have hnone : g.getNode divergenceFlagLabel
      (divergenceFlagKey (subjectRefFor d episode) severity) = none := by
    by_contra hne
    exact hfree ((hspent _).mpr (Option.isSome_iff_ne_none.mpr hne))
  rw [FlagPass.writeFlag, if_neg hfree]
  refine ⟨rfl, _, rfl, ⟨h, hkept⟩, fun now => ?_⟩
  obtain ⟨hput, hopen⟩ := h.raise (flagReason snapshotKey severity d') now hcolon hsaw hseverity
    hnone hsame
  refine ⟨_, write_fresh hnone, ⟨hput, fun key m hm => ?_⟩, ⟨_, rfl, hopen⟩, fun key => ?_⟩
  · rw [Graph.getNode_put, if_neg]
    · exact hkept key m hm
    · rintro ⟨-, rfl⟩
      rw [hkept _ m hm] at hnone
      cases hnone
  · rw [Graph.getNode_put, List.mem_cons, hspent]
    by_cases hkey : key = divergenceFlagKey (subjectRefFor d episode) severity
    · rw [if_pos ⟨rfl, hkey⟩]
      simp [hkey]
    · rw [if_neg fun he => hkey he.2]
      simp [hkey]

end

end TradingAgents.Execution
