import Mathlib.Data.List.Induction
import TradingAgents.Execution.DivergenceFlags
import TradingAgents.ProofKit.Runs

/-! Runs of snapshots over the divergence flags, with crashes and repeated passes.  A pass advances
the episode of each divergence that it found, closes the others, and leaves open exactly the
identities of the snapshot's divergences. -/

namespace TradingAgents.Execution

open Kernel ProofKit

/-! ### The episodes that a pass reads -/

/-- The flags of an episode are the open flags of its identity. -/
structure EpisodeOf (g : PipelineGraph) (identity : String × String)
    (episode : Episode) : Prop where
  sound : ∀ severity n, episode.get? severity = some n →
    IsOpen g n ∧ flagIdentity n = identity ∧ (flagJoin n).2 = severity
  complete : ∀ n, IsOpen g n → flagIdentity n = identity →
    episode.get? (flagJoin n).2 = some n

/-- A flag that `openEpisodes` keeps. -/
def KeptOpen (resolutions : List PipelineNode) (n : PipelineNode) : Prop :=
  inFamily (flagJoin n).1 = true ∧ flagJoin n ∉ resolutions.map flagJoin

instance (resolutions : List PipelineNode) : DecidablePred (KeptOpen resolutions) := fun n =>
  inferInstanceAs (Decidable (inFamily (flagJoin n).1 = true ∧
    flagJoin n ∉ resolutions.map flagJoin))

/-- A dictionary of episodes holds a flag under its identity and severity. -/
theorem get?_openEpisodes (flags resolutions : List PipelineNode)
    (huniq : ∀ n ∈ flags, ∀ m ∈ flags, KeptOpen resolutions n → KeptOpen resolutions m →
      flagIdentity n = flagIdentity m → (flagJoin n).2 = (flagJoin m).2 → n = m)
    (identity : String × String) (severity : String) (n : PipelineNode) :
    (((openEpisodes flags resolutions).get? identity).getD .empty).get? severity = some n ↔
      n ∈ flags ∧ KeptOpen resolutions n ∧ flagIdentity n = identity ∧
        (flagJoin n).2 = severity := by
  induction flags using List.reverseRecOn with
  | nil => simp [openEpisodes]
  | append_singleton flags flag ih =>
    have ih := ih fun n hn m hm =>
      huniq n (List.mem_append_left _ hn) m (List.mem_append_left _ hm)
    have hstep : openEpisodes (flags ++ [flag]) resolutions =
        if KeptOpen resolutions flag then
          (openEpisodes flags resolutions).set (flagIdentity flag)
            ((((openEpisodes flags resolutions).get? (flagIdentity flag)).getD .empty).set
              (flagJoin flag).2 flag)
        else openEpisodes flags resolutions := by
      rw [openEpisodes, List.foldl_append]
      rfl
    rw [hstep, List.mem_append, List.mem_singleton]
    by_cases hkept : KeptOpen resolutions flag
    · rw [if_pos hkept, Dict.get?_set]
      by_cases hid : identity = flagIdentity flag
      · rw [if_pos hid, Option.getD_some, Dict.get?_set]
        by_cases hsev : severity = (flagJoin flag).2
        · rw [if_pos hsev]
          constructor
          · rintro ⟨⟩
            exact ⟨.inr rfl, hkept, hid.symm, hsev.symm⟩
          · rintro ⟨hmem, hn, hnid, hnsev⟩
            have hmem' : n ∈ flags ++ [flag] := by simpa using hmem
            rw [huniq n hmem' flag (by simp) hn hkept (hnid.trans hid) (hnsev.trans hsev)]
        · rw [if_neg hsev, ← hid, ih]
          refine and_congr_left fun hn => ⟨.inl, fun hmem => hmem.resolve_right ?_⟩
          rintro rfl
          exact hsev hn.2.2.symm
      · rw [if_neg hid, ih]
        refine and_congr_left fun hn => ⟨.inl, fun hmem => hmem.resolve_right ?_⟩
        rintro rfl
        exact hid hn.2.1.symm
    · rw [if_neg hkept, ih]
      refine and_congr_left fun hn => ⟨.inl, fun hmem => hmem.resolve_right ?_⟩
      rintro rfl
      exact hkept hn.1

/-- The pass and the episodes that the loop over the divergences starts from. -/
def passStart (g : PipelineGraph) : FlagPass × Dict (String × String) Episode :=
  (⟨[], (g.listNodes divergenceFlagLabel).map Node.key⟩,
    openEpisodes (g.listNodes divergenceFlagLabel) (g.listNodes divergenceResolutionLabel))

section

variable {past history : List Sighting} {cur : Sighting} {g g₀ t : PipelineGraph}
    {n m : PipelineNode}

/-- The episodes of a store in order are the open flags by identity. -/
theorem Orderly.episodeOf (h : Orderly history g) (identity : String × String) :
    EpisodeOf g identity (((passStart g).2.get? identity).getD .empty) := by
  have hspec := get?_openEpisodes (g.listNodes divergenceFlagLabel)
    (g.listNodes divergenceResolutionLabel)
    (fun n hn m hm hkn hkm hid hsev => h.eq_of_open ⟨hn, hkn⟩ ⟨hm, hkm⟩ hid hsev)
  refine ⟨fun severity n hget => ?_, fun n hn hid => ?_⟩
  · obtain ⟨hmem, hkept, hid, hsev⟩ := (hspec identity severity n).mp hget
    exact ⟨⟨hmem, hkept⟩, hid, hsev⟩
  · exact (hspec identity (flagJoin n).2 n).mpr ⟨hn.1, hn.2, hid, rfl⟩

/-! ### One divergence -/

/-- What a pass has done for the divergences of some identities: they are open, and the flags of
the others are as they were. -/
structure Advanced (g : PipelineGraph) (identities : List (String × String))
    (written : List String) (t : PipelineGraph) : Prop where
  isOpen : ∀ identity ∈ identities, ∃ n, IsOpen t n ∧ flagIdentity n = identity
  others : ∀ n, flagIdentity n ∉ identities → (IsOpen t n ↔ IsOpen g n)
  spent : SpentKeys t written

/-- What an open flag is, in the terms of a divergence with its identity. -/
theorem Orderly.open_subject (h : Orderly history g) (hn : IsOpen g n) {d : Divergence}
    (hid : flagIdentity n = d.identity) :
    ∃ episode severity, flagJoin n = (subjectRefFor d episode, severity) ∧
      Saw history d.identity episode ∧
      (severity = "warn" ∨ severity = "critical" ∧ SawAfter history d.identity episode) := by
  obtain ⟨d', episode, severity, -, hjoin, hcolon, hsaw, hseverity⟩ := h.raised hn
  have hsame : d'.identity = d.identity := by
    rw [← hid, flagIdentity, hjoin, subjectIdentity_subjectRefFor hcolon]
  have hsubject : subjectRefFor d' episode = subjectRefFor d episode := by
    obtain ⟨hkind, hticker⟩ := Prod.mk.inj hsame
    rw [subjectRefFor, subjectRefFor, hkind, hticker]
  exact ⟨episode, severity, hsubject ▸ hjoin, hsame ▸ hsaw, hsame ▸ hseverity⟩

/-- The flag keys of the last snapshot are spent by open flags. -/
theorem Orderly.open_of_spent (h : Orderly (past ++ [cur]) g)
    (hkeys : ((past ++ [cur]).map Sighting.key).Nodup) {d : Divergence} {severity : String}
    (hcolon : ':' ∉ d.ticker.toList) (hseverity : FlagSeverity severity)
    (hsome : (g.getNode divergenceFlagLabel
      (divergenceFlagKey (subjectRefFor d cur.key) severity)).isSome = true) :
    ∃ n, IsOpen g n ∧ flagIdentity n = d.identity := by
  obtain ⟨n, hn⟩ := Option.isSome_iff_exists.mp hsome
  obtain ⟨hlabel, hkey⟩ := Graph.getNode_nodeKey hn
  have hmem : n ∈ g.listNodes divergenceFlagLabel := Graph.mem_listNodes.mpr ⟨hlabel, hkey ▸ hn⟩
  rcases h.flags n hmem with hforeign | ⟨d', episode, severity', hkey', hjoin, -, -, hseverity'⟩
  · exact absurd (hkey.trans String.empty_append.symm) (hforeign.2 d cur.key severity)
  · obtain ⟨hsubject, -⟩ := divergenceFlagKey_injective hseverity (hseverity'.imp id And.left)
      (hkey.symm.trans hkey')
    rw [← hsubject] at hjoin
    have hopen : IsOpen g n := by
      refine ⟨hmem, by rw [hjoin]; exact inFamily_subjectRefFor d cur.key, ?_⟩
      rw [hjoin]
      exact h.not_resolved hcolon (.inr (not_older_last hkeys))
    exact ⟨n, hopen, by rw [flagIdentity, hjoin, subjectIdentity_subjectRefFor hcolon]⟩

/-- What was seen before the last snapshot, and at it, was seen later. -/
theorem Saw.after {identity : String × String} {key : String}
    (h : Saw (past ++ [cur]) identity key) (hne : key ≠ cur.key)
    (hcur : identity ∈ cur.divergences.map Divergence.identity) :
    SawAfter (past ++ [cur]) identity key := by
  obtain ⟨x, hx, rfl, -⟩ := h
  rw [List.mem_append, List.mem_singleton] at hx
  rcases hx with hx | rfl
  · obtain ⟨before, after, rfl⟩ := List.append_of_mem hx
    exact ⟨before, x, after ++ [cur], by simp, rfl, cur, by simp, hcur⟩
  · exact absurd rfl hne

/-- The subject of a divergence names the snapshot that it was seen after. -/
theorem SawAfter.older_of {history : List Sighting} {d d' : Divergence} {first first' : String}
    (h : SawAfter history d.identity first)
    (hsubject : subjectRefFor d first = subjectRefFor d' first')
    (hcolon : ':' ∉ d.ticker.toList) (hcolon' : ':' ∉ d'.ticker.toList) : Older history first' := by
  obtain ⟨-, rfl⟩ := subjectRefFor_injective hcolon hcolon' hsubject
  exact h.older

theorem warn_ne_critical : "warn" ≠ "critical" := by decide

theorem advance_warned {p : FlagPass} {snapshotKey : String} {d : Divergence} {episode : Episode}
    {warn : PipelineNode} (hwarn : episode.get? "warn" = some warn)
    (hcritical : episode.get? "critical" = none) :
    p.advance snapshotKey d episode =
      if (p.escalate snapshotKey d warn).1 = true then
        (p.escalate snapshotKey d warn).2.close warn snapshotKey "superseded by critical"
      else (p.escalate snapshotKey d warn).2 := by
  rw [FlagPass.advance, hwarn, hcritical]

/-- Nothing is written: the identity is open already. -/
theorem Advanced.of_open (h : Orderly history g) (hkept : FlagsKept g₀ g) {p : FlagPass}
    (hspent : SpentKeys g p.written) {identity : String × String} (hn : IsOpen g n)
    (hid : flagIdentity n = identity) :
    PassSafe history g₀ (Advanced g [identity] p.written) p p g :=
  .refl h hkept ⟨fun _ hmem => ⟨n, hn, hid.trans (List.mem_singleton.mp hmem).symm⟩,
    fun _ _ => Iff.rfl, hspent⟩

/-- The warning of an episode is closed, and its critical flag stays open. -/
theorem Advanced.of_close (h : Orderly history g) (hkept : FlagsKept g₀ g) {p : FlagPass}
    (hspent : SpentKeys g p.written) {identity : String × String} {warn critical : PipelineNode}
    (hwarn : IsOpen g warn) (hcritical : IsOpen g critical)
    (hwid : flagIdentity warn = identity) (hcid : flagIdentity critical = identity)
    (hne : flagJoin critical ≠ flagJoin warn)
    (hold : ∀ d episode, ':' ∉ d.ticker.toList → (flagJoin warn).1 = subjectRefFor d episode →
      Older history episode) (snapshotKey reason : String) :
    PassSafe history g₀ (Advanced g [identity] (p.close warn snapshotKey reason).written)
      p (p.close warn snapshotKey reason) g := by
  refine (h.close_safe hkept hwarn p snapshotKey reason hold).mono fun t _ _ ⟨hopen, hget⟩ => ?_
  refine ⟨fun id hmem => ⟨critical, (hopen critical).mpr ⟨hcritical, hne⟩, ?_⟩, fun m hm => ?_,
    fun key => ?_⟩
  · rw [hcid, List.mem_singleton.mp hmem]
  · rw [hopen m]
    refine ⟨And.left, fun hm' => ⟨hm', fun hjoin => hm ?_⟩⟩
    rw [List.mem_singleton, flagIdentity, hjoin, ← hwid, flagIdentity]
  · rw [hget]
    exact hspent key

/-- The last snapshot opens the episode of a divergence that has no open flag. -/
theorem Orderly.opens_safe (h : Orderly (past ++ [cur]) g) (hkept : FlagsKept g₀ g)
    (hkeys : ((past ++ [cur]).map Sighting.key).Nodup) {d : Divergence}
    (hsaw : Saw (past ++ [cur]) d.identity cur.key) (hcolon : ':' ∉ d.ticker.toList) {p : FlagPass}
    (hspent : SpentKeys g p.written) (hnone : ∀ n, IsOpen g n → flagIdentity n ≠ d.identity) :
    PassSafe (past ++ [cur]) g₀
      (Advanced g [d.identity]
        (p.writeFlag (subjectRefFor d cur.key) "warn" cur.key d).2.written)
      p (p.writeFlag (subjectRefFor d cur.key) "warn" cur.key d).2 g := by
  have hfree : divergenceFlagKey (subjectRefFor d cur.key) "warn" ∉ p.written := by
    intro hmem
    obtain ⟨n, hn, hid⟩ := h.open_of_spent hkeys hcolon (.inl rfl) ((hspent _).mp hmem)
    exact hnone n hn hid
  obtain ⟨-, hsafe⟩ := h.flag_safe hkept hspent d cur.key hcolon hsaw (.inl rfl) hfree
    fun n hn hid => absurd hid (hnone n hn)
  refine hsafe.mono fun t _ _ hflag => ?_
  obtain ⟨⟨node, hjoin, hopen⟩, hspent'⟩ := hflag
  have hid : flagIdentity node = d.identity := by
    rw [flagIdentity, hjoin, subjectIdentity_subjectRefFor hcolon]
  refine ⟨fun id hmem => ⟨node, (hopen node).mpr (.inr rfl), ?_⟩, fun m hm => ?_, hspent'⟩
  · rw [hid, List.mem_singleton.mp hmem]
  · rw [hopen m, or_iff_left]
    rintro rfl
    exact hm (by simp [hid])

/-- The warning that an earlier pass left open beside its critical flag is closed. -/
theorem Orderly.supersedes_safe (h : Orderly (past ++ [cur]) g) (hkept : FlagsKept g₀ g)
    {d : Divergence} (hcolon : ':' ∉ d.ticker.toList) {p : FlagPass}
    (hspent : SpentKeys g p.written) {warn critical : PipelineNode}
    (hwarn : IsOpen g warn) (hcritical : IsOpen g critical) (hwid : flagIdentity warn = d.identity)
    (hcid : flagIdentity critical = d.identity) (hwsev : (flagJoin warn).2 = "warn")
    (hcsev : (flagJoin critical).2 = "critical") :
    PassSafe (past ++ [cur]) g₀
      (Advanced g [d.identity] (p.close warn cur.key "superseded by critical").written)
      p (p.close warn cur.key "superseded by critical") g := by
  have hne : flagJoin critical ≠ flagJoin warn := by
    intro he
    rw [he, hwsev] at hcsev
    exact warn_ne_critical hcsev
  obtain ⟨first, severity, hjoin, -, hafter⟩ := h.open_subject hcritical hcid
  have hafter' : SawAfter (past ++ [cur]) d.identity first := by
    rw [hjoin] at hcsev
    rcases hafter with hsw | ⟨-, hafter⟩
    · exact absurd (hsw.symm.trans hcsev) warn_ne_critical
    · exact hafter
  refine Advanced.of_close h hkept hspent hwarn hcritical hwid hcid hne ?_ _ _
  intro d' first' hcolon' hsubject
  rw [h.single warn critical hwarn hcritical (hwid.trans hcid.symm), hjoin] at hsubject
  exact hafter'.older_of hsubject hcolon hcolon'

/-- A warning of an earlier snapshot is escalated and closed. -/
theorem Orderly.escalates_safe (h : Orderly (past ++ [cur]) g) (hkept : FlagsKept g₀ g)
    {d : Divergence} (hcolon : ':' ∉ d.ticker.toList) {p : FlagPass}
    (hspent : SpentKeys g p.written) {warn : PipelineNode} {first : String}
    (hopen : IsOpen g warn) (hid : flagIdentity warn = d.identity)
    (hjoin : flagJoin warn = (subjectRefFor d first, "warn"))
    (hfirst : Saw (past ++ [cur]) d.identity first)
    (hafter : SawAfter (past ++ [cur]) d.identity first)
    (hfree : divergenceFlagKey (subjectRefFor d first) "critical" ∉ p.written) :
    (p.writeFlag (subjectRefFor d first) "critical" cur.key d).1 = true ∧
    PassSafe (past ++ [cur]) g₀
      (Advanced g [d.identity]
        ((p.writeFlag (subjectRefFor d first) "critical" cur.key d).2.close warn cur.key
          "superseded by critical").written)
      p ((p.writeFlag (subjectRefFor d first) "critical" cur.key d).2.close warn cur.key
        "superseded by critical") g := by
  obtain ⟨htrue, hsafe⟩ := h.flag_safe hkept hspent d cur.key hcolon hfirst
    (.inr ⟨rfl, hafter⟩) hfree fun n hn hnid => by
      rw [h.single n warn hn hopen (hnid.trans hid.symm), hjoin]
  refine ⟨htrue, hsafe.trans fun t ht hkept' hflag => ?_⟩
  obtain ⟨⟨node, hnode, hopens⟩, hspent'⟩ := hflag
  have hnid : flagIdentity node = d.identity := by
    rw [flagIdentity, hnode, subjectIdentity_subjectRefFor hcolon]
  have hne : flagJoin node ≠ flagJoin warn := by
    rw [hnode, hjoin]
    exact fun he => warn_ne_critical (Prod.mk.inj he).2.symm
  refine (Advanced.of_close ht hkept' hspent' ((hopens warn).mpr (.inl hopen))
    ((hopens node).mpr (.inr rfl)) hid hnid hne ?_ _ _).mono fun u _ _ hu => ?_
  · intro d' first' hcolon' hsubject
    rw [hjoin] at hsubject
    exact hafter.older_of hsubject hcolon hcolon'
  · refine ⟨hu.isOpen, fun m hm => ?_, hu.spent⟩
    rw [hu.others m hm, hopens m, or_iff_left]
    rintro rfl
    exact hm (by simp [hnid])

/-- One divergence of the last snapshot. -/
theorem Orderly.advance_safe (h : Orderly (past ++ [cur]) g) (hkept : FlagsKept g₀ g)
    (hkeys : ((past ++ [cur]).map Sighting.key).Nodup) {d : Divergence}
    (hd : d ∈ cur.divergences) (hcolon : ':' ∉ d.ticker.toList) {p : FlagPass}
    (hspent : SpentKeys g p.written) {episode : Episode} (hep : EpisodeOf g d.identity episode) :
    PassSafe (past ++ [cur]) g₀
      (Advanced g [d.identity] (p.advance cur.key d episode).written)
      p (p.advance cur.key d episode) g := by
  have hcur : d.identity ∈ cur.divergences.map Divergence.identity := List.mem_map_of_mem hd
  cases hwarn : episode.get? "warn" with
  | none =>
    cases hcritical : episode.get? "critical" with
    | some critical =>
      -- the episode has been escalated, and its warning was closed
      obtain ⟨hopen, hid, -⟩ := hep.sound _ _ hcritical
      have heq : p.advance cur.key d episode = p := by
        rw [FlagPass.advance, hwarn, hcritical]
      rw [heq]
      exact Advanced.of_open h hkept hspent hopen hid
    | none =>
      -- no open episode: the snapshot opens one
      have hnone : ∀ n, IsOpen g n → flagIdentity n ≠ d.identity := by
        intro n hn hid
        have hget := hep.complete n hn hid
        rcases (h.raised hn).severity with hsev | hsev
        · rw [hsev, hwarn] at hget; cases hget
        · rw [hsev, hcritical] at hget; cases hget
      have heq : p.advance cur.key d episode =
          (p.writeFlag (subjectRefFor d cur.key) "warn" cur.key d).2 := by
        rw [FlagPass.advance, hwarn, hcritical]
      rw [heq]
      exact h.opens_safe hkept hkeys ⟨cur, by simp, rfl, hcur⟩ hcolon hspent hnone
  | some warn =>
    obtain ⟨hopen, hid, hsev⟩ := hep.sound _ _ hwarn
    cases hcritical : episode.get? "critical" with
    | some critical =>
      obtain ⟨hopen', hid', hsev'⟩ := hep.sound _ _ hcritical
      have heq : p.advance cur.key d episode = p.close warn cur.key "superseded by critical" := by
        rw [FlagPass.advance, hwarn, hcritical]
      rw [heq]
      exact h.supersedes_safe hkept hcolon hspent hopen hopen' hid hid' hsev hsev'
    | none =>
      obtain ⟨first, severity, hjoin, hfirst, -⟩ := h.open_subject hopen hid
      have hseverity : severity = "warn" := by rw [hjoin] at hsev; exact hsev
      rw [hseverity] at hjoin
      have hprop : propText warn "subject_ref" "" = subjectRefFor d first :=
        congrArg Prod.fst hjoin
      by_cases hown : first = cur.key
      · -- the snapshot that opened the episode
        have heq : p.advance cur.key d episode = p := by
          rw [advance_warned hwarn hcritical, FlagPass.escalate]
          simp only [hprop, hown, if_true, Bool.false_eq_true, if_false]
        rw [heq]
        exact Advanced.of_open h hkept hspent hopen hid
      · have hesc : p.escalate cur.key d warn =
            p.writeFlag (subjectRefFor d first) "critical" cur.key d := by
          have hne : subjectRefFor d first ≠ subjectRefFor d cur.key :=
            fun he => hown (subjectRefFor_injective hcolon hcolon he).2
          rw [FlagPass.escalate]
          simp only [hprop, hne, if_false]
        by_cases hfree : divergenceFlagKey (subjectRefFor d first) "critical" ∈ p.written
        · have heq : p.advance cur.key d episode = p := by
            rw [advance_warned hwarn hcritical, hesc, FlagPass.writeFlag, if_pos hfree]
            rfl
          rw [heq]
          exact Advanced.of_open h hkept hspent hopen hid
        · obtain ⟨htrue, hsafe⟩ := h.escalates_safe hkept hcolon hspent hopen hid hjoin hfirst
            (hfirst.after hown hcur) hfree
          have heq : p.advance cur.key d episode =
              (p.writeFlag (subjectRefFor d first) "critical" cur.key d).2.close warn cur.key
                "superseded by critical" := by
            rw [advance_warned hwarn hcritical, hesc, if_pos htrue]
          rw [heq]
          exact hsafe

/-! ### One pass -/

/-- The loop over the divergences, from any of them on. -/
theorem Orderly.advanceAll_safe (h : Orderly (past ++ [cur]) g) (hkept : FlagsKept g₀ g)
    (hkeys : ((past ++ [cur]).map Sighting.key).Nodup) {rest : List Divergence}
    (hrest : ∀ d ∈ rest, d ∈ cur.divergences ∧ ':' ∉ d.ticker.toList)
    (hids : (rest.map Divergence.identity).Nodup) {p : FlagPass} (hspent : SpentKeys g p.written)
    (episodes : Dict (String × String) Episode)
    (hep : ∀ d ∈ rest, EpisodeOf g d.identity ((episodes.get? d.identity).getD .empty)) :
    (advanceAll cur.key rest (p, episodes)).2 = episodes.eraseAll (rest.map Divergence.identity) ∧
      PassSafe (past ++ [cur]) g₀ (Advanced g (rest.map Divergence.identity)
        (advanceAll cur.key rest (p, episodes)).1.written)
        p (advanceAll cur.key rest (p, episodes)).1 g := by
  induction rest generalizing g p episodes with
  | nil => exact ⟨rfl, .refl h hkept ⟨by simp, fun _ _ => Iff.rfl, hspent⟩⟩
  | cons d rest ih =>
    rw [List.map_cons, List.nodup_cons] at hids
    have hfirst := h.advance_safe hkept hkeys (hrest d (by simp)).1 (hrest d (by simp)).2 hspent
      (hep d (by simp))
    -- the passes over the others start where the first one ended
    have hothers : ∀ t, Orderly (past ++ [cur]) t → FlagsKept g₀ t → Advanced g [d.identity]
        (p.advance cur.key d ((episodes.get? d.identity).getD .empty)).written t → _ :=
      fun t ht hkept' hadv => ih ht hkept' (fun e he => hrest e (List.mem_cons_of_mem d he)) hids.2
        hadv.spent (episodes.erase d.identity) fun e he => by
          have hne : e.identity ≠ d.identity := fun heq =>
            hids.1 (heq ▸ List.mem_map_of_mem he)
          have hold := hep e (List.mem_cons_of_mem d he)
          rw [Dict.get?_erase, if_neg hne]
          have hsame : ∀ n, flagIdentity n = e.identity → (IsOpen t n ↔ IsOpen g n) :=
            fun n hn => hadv.others n (by rw [List.mem_singleton, hn]; exact hne)
          refine ⟨fun severity n hget => ?_, fun n hn hid =>
            hold.complete n ((hsame n hid).mp hn) hid⟩
          obtain ⟨hopen, hid, hsev⟩ := hold.sound severity n hget
          exact ⟨(hsame n hid).mpr hopen, hid, hsev⟩
    refine ⟨?_, hfirst.trans fun t ht hkept' hadv =>
      (hothers t ht hkept' hadv).2.mono fun u _ _ hu => ?_⟩
    · obtain ⟨t, ht, hkept', hadv⟩ := hfirst.reached
      exact (hothers t ht hkept' hadv).1
    · refine ⟨fun identity hmem => ?_, fun n hn => ?_, hu.spent⟩
      · rcases List.mem_cons.mp hmem with rfl | hmem
        · obtain ⟨n, hn, hid⟩ := hadv.isOpen d.identity (by simp)
          exact ⟨n, (hu.others n (by rw [hid]; exact hids.1)).mpr hn, hid⟩
        · exact hu.isOpen identity hmem
      · rw [List.map_cons, List.mem_cons, not_or] at hn
        rw [hu.others n hn.2, hadv.others n (by simpa using hn.1)]

/-- The loop that retires the flags of the episodes that are left. -/
theorem Orderly.closeAll_safe (h : Orderly history g) (hkept : FlagsKept g₀ g) {p : FlagPass}
    {flags : List PipelineNode} (hopen : ∀ n ∈ flags, IsOpen g n)
    (hjoins : (flags.map flagJoin).Nodup)
    (hold : ∀ n ∈ flags, ∀ d episode, ':' ∉ d.ticker.toList →
      (flagJoin n).1 = subjectRefFor d episode → Older history episode) (snapshotKey : String) :
    PassSafe history g₀
      (fun t => ∀ m, IsOpen t m ↔ IsOpen g m ∧ flagJoin m ∉ flags.map flagJoin)
      p (closeAll p flags snapshotKey) g := by
  induction flags generalizing g p with
  | nil => exact .refl h hkept fun m => by simp
  | cons n flags ih =>
    rw [List.map_cons, List.nodup_cons] at hjoins
    refine (h.close_safe hkept (hopen n (by simp)) p snapshotKey "divergence no longer present"
      (hold n (by simp))).trans fun t ht hkept' ⟨hopens, _⟩ => ?_
    refine (ih ht hkept' (fun m hm => ?_) hjoins.2
      fun m hm => hold m (List.mem_cons_of_mem n hm)).mono fun u _ _ hu m => ?_
    · refine (hopens m).mpr ⟨hopen m (List.mem_cons_of_mem n hm), fun hjoin => hjoins.1 ?_⟩
      exact hjoin ▸ List.mem_map_of_mem hm
    · rw [hu m, hopens m, List.map_cons, List.mem_cons, not_or, and_assoc]

/-- The flags of the open episodes but those of some identities. -/
def leftFlagsOf (g : PipelineGraph) (identities : List (String × String)) : List PipelineNode :=
  ((passStart g).2.eraseAll identities).entries.flatMap fun e => e.2.entries.map Prod.snd

/-- A pass starts with the keys of the flags that stand. -/
theorem spentKeys_passStart (g : PipelineGraph) : SpentKeys g (passStart g).1.written := by
  intro key
  rw [passStart, List.mem_map, Option.isSome_iff_exists]
  constructor
  · rintro ⟨n, hn, rfl⟩
    exact ⟨n, (Graph.mem_listNodes.mp hn).2⟩
  · rintro ⟨n, hn⟩
    obtain ⟨hlabel, hkey⟩ := Graph.getNode_nodeKey hn
    exact ⟨n, Graph.mem_listNodes.mpr ⟨hlabel, hkey ▸ hn⟩, hkey⟩

/-- The flags of the episodes that are left, once some identities have been taken out. -/
theorem mem_leftFlags {episodes : Dict (String × String) Episode}
    (hep : ∀ identity, EpisodeOf g identity ((episodes.get? identity).getD .empty))
    (identities : List (String × String)) (n : PipelineNode) :
    n ∈ ((episodes.eraseAll identities).entries.flatMap fun e => e.2.entries.map Prod.snd) ↔
      IsOpen g n ∧ flagIdentity n ∉ identities := by
  rw [List.mem_flatMap]
  constructor
  · rintro ⟨⟨identity, episode⟩, hmem, hn⟩
    obtain ⟨⟨severity, m⟩, hm, rfl⟩ := List.mem_map.mp hn
    have hget := Dict.mem_entries_iff.mp hmem
    rw [Dict.get?_eraseAll] at hget
    split at hget
    · cases hget
    · rename_i hleft
      obtain ⟨hopen, hid, -⟩ := (hep identity).sound severity m (by
        rw [hget]
        exact Dict.mem_entries_iff.mp hm)
      exact ⟨hopen, by rw [hid]; exact hleft⟩
  · rintro ⟨hopen, hleft⟩
    have hget := (hep (flagIdentity n)).complete n hopen rfl
    cases hepisode : episodes.get? (flagIdentity n) with
    | none =>
      rw [hepisode] at hget
      cases hget
    | some episode =>
      rw [hepisode] at hget
      refine ⟨(flagIdentity n, episode), Dict.mem_entries_iff.mpr ?_,
        List.mem_map.mpr ⟨_, Dict.mem_entries_iff.mpr hget, rfl⟩⟩
      rw [Dict.get?_eraseAll, if_neg hleft, hepisode]

/-- No two flags of the episodes share their subject and severity. -/
theorem leftFlags_nodup {episodes : Dict (String × String) Episode}
    (hsound : ∀ identity episode severity n, episodes.get? identity = some episode →
      episode.get? severity = some n → flagIdentity n = identity ∧ (flagJoin n).2 = severity) :
    ((episodes.entries.flatMap fun e => e.2.entries.map Prod.snd).map flagJoin).Nodup := by
  rw [List.map_flatMap, List.nodup_flatMap]
  have hof : ∀ e ∈ episodes.entries, ∀ x ∈ e.2.entries,
      flagIdentity x.2 = e.1 ∧ (flagJoin x.2).2 = x.1 := fun e he x hx =>
    hsound e.1 e.2 x.1 x.2 (Dict.mem_entries_iff.mp he) (Dict.mem_entries_iff.mp hx)
  refine ⟨fun e he => ?_, ?_⟩
  · rw [List.map_map]
    refine List.Nodup.map_on (fun x hx y hy hxy => ?_) (.of_map Prod.fst e.2.nodup)
    have hfst : x.1 = y.1 := by
      rw [← (hof e he x hx).2, ← (hof e he y hy).2]
      exact congrArg Prod.snd hxy
    exact List.inj_on_of_nodup_map e.2.nodup hx hy hfst
  · refine List.Pairwise.imp_of_mem ?_ (List.pairwise_map.mp episodes.nodup)
    intro e e' he he' hne
    show List.Disjoint _ _
    rw [List.disjoint_left]
    rintro join hjoin hjoin'
    obtain ⟨n, hn, rfl⟩ := List.mem_map.mp hjoin
    obtain ⟨m, hm, heq⟩ := List.mem_map.mp hjoin'
    obtain ⟨x, hx, rfl⟩ := List.mem_map.mp hn
    obtain ⟨y, hy, rfl⟩ := List.mem_map.mp hm
    refine hne ?_
    rw [← (hof e he x hx).1, ← (hof e' he' y hy).1, flagIdentity, flagIdentity, heq]

/-- The loop over the divergences and the one over the episodes that it leaves: what is open are
the identities of the last snapshot's divergences. -/
theorem Orderly.loops_safe (h : Orderly (past ++ [cur]) g)
    (hkeys : ((past ++ [cur]).map Sighting.key).Nodup)
    (hcolon : ∀ d ∈ cur.divergences, ':' ∉ d.ticker.toList)
    (hids : (cur.divergences.map Divergence.identity).Nodup) :
    PassSafe (past ++ [cur]) g
      (fun t => ∀ identity, (∃ n, IsOpen t n ∧ flagIdentity n = identity) ↔
        identity ∈ cur.divergences.map Divergence.identity)
      (passStart g).1 (closeAll (advanceAll cur.key cur.divergences (passStart g)).1
        (leftFlagsOf g (cur.divergences.map Divergence.identity)) cur.key) g := by
  have hkept : FlagsKept g g := fun _ _ hn => hn
  refine (h.advanceAll_safe hkept hkeys (fun d hd => ⟨hd, hcolon d hd⟩) hids
    (spentKeys_passStart g) _ fun d _ => h.episodeOf d.identity).2.trans fun t ht hkept' hadv => ?_
  refine (ht.closeAll_safe hkept' (fun n hn => ?_) ?_ (fun n hn d episode hd hsubject => ?_)
    cur.key).mono fun u _ _ hu identity => ⟨?_, fun hmem => ?_⟩
  · obtain ⟨hopen, hid⟩ := (mem_leftFlags h.episodeOf _ n).mp hn
    exact (hadv.others n hid).mpr hopen
  · refine leftFlags_nodup fun identity episode severity n hepisode hn => ?_
    rw [Dict.get?_eraseAll] at hepisode
    split at hepisode
    · cases hepisode
    · refine ((h.episodeOf identity).sound severity n ?_).2
      rw [hepisode]
      exact hn
  · -- an identity that the last snapshot does not hold was seen before it
    obtain ⟨hopen, hid⟩ := (mem_leftFlags h.episodeOf _ n).mp hn
    have hdid : flagIdentity n = d.identity := by
      rw [flagIdentity, hsubject, subjectIdentity_subjectRefFor hd]
    obtain ⟨first, severity, hjoin, ⟨x, hx, rfl, hfound⟩, -⟩ := h.open_subject hopen hdid
    rw [hjoin] at hsubject
    obtain ⟨-, rfl⟩ := subjectRefFor_injective hd hd hsubject
    rw [List.mem_append, List.mem_singleton] at hx
    rcases hx with hx | rfl
    · obtain ⟨before, after, rfl⟩ := List.append_of_mem hx
      exact ⟨before, x, after ++ [cur], by simp, rfl, by simp⟩
    · exact absurd (hdid ▸ hfound) hid
  · rintro ⟨n, hn, rfl⟩
    obtain ⟨hn, hleft'⟩ := (hu n).mp hn
    by_contra hid
    exact hleft' (List.mem_map_of_mem
      ((mem_leftFlags h.episodeOf _ n).mpr ⟨(hadv.others n hid).mp hn, hid⟩))
  · obtain ⟨n, hn, hid⟩ := hadv.isOpen identity hmem
    refine ⟨n, (hu n).mpr ⟨hn, fun hjoin => ?_⟩, hid⟩
    obtain ⟨m, hm, heq⟩ := List.mem_map.mp hjoin
    refine ((mem_leftFlags h.episodeOf _ m).mp hm).2 ?_
    rw [flagIdentity, heq, ← flagIdentity, hid]
    exact hmem
/-- A pass over the last snapshot leaves open the identities of its divergences. -/
theorem Orderly.recordDivergences_safe (h : Orderly (past ++ [cur]) g)
    (hkeys : ((past ++ [cur]).map Sighting.key).Nodup)
    (hcolon : ∀ d ∈ cur.divergences, ':' ∉ d.ticker.toList)
    (hids : (cur.divergences.map Divergence.identity).Nodup) :
    CrashSafe Graph.write (fun t => Orderly (past ++ [cur]) t ∧ FlagsKept g t)
      (fun t => ∀ identity, (∃ n, IsOpen t n ∧ flagIdentity n = identity) ↔
        identity ∈ cur.divergences.map Divergence.identity)
      (recordDivergences g cur.key cur.divergences) g := by
  obtain ⟨ops, hops, hsafe⟩ := h.loops_safe hkeys hcolon hids
  obtain ⟨hleft, -⟩ := h.advanceAll_safe (fun _ _ hn => hn) hkeys
    (fun d hd => ⟨hd, hcolon d hd⟩) hids (spentKeys_passStart g) _
    fun d _ => h.episodeOf d.identity
  have hpass : recordDivergences g cur.key cur.divergences = ops := by
    refine Eq.trans ?_ hops
    show (closeAll _ ((advanceAll _ _ (passStart g)).2.entries.flatMap fun e =>
      e.2.entries.map Prod.snd) _).writes = _
    rw [show (advanceAll _ _ (passStart g)).2 = _ from hleft]
    rfl
  rw [hpass]
  exact hsafe

/-! ### Divergences of a snapshot -/

theorem sortedTexts_nodup {l : List String} (h : l.Nodup) : (sortedTexts l).Nodup :=
  (List.perm_insertionSort _ l).nodup_iff.mpr h

/-- No two divergences of a snapshot have one identity. -/
theorem positionDivergences_identity_nodup (graphQty brokerQty : Dict String Int) :
    ((positionDivergences graphQty brokerQty).map Divergence.identity).Nodup := by
  have hpart : ∀ (kind : DivergenceKind) (detail : String → String) {l : List String}, l.Nodup →
      ((l.map fun t => (⟨kind, t, detail t⟩ : Divergence)).map Divergence.identity).Nodup := by
    intro kind detail l hl
    rw [List.map_map]
    exact hl.map fun t t' heq => (Prod.mk.inj heq).2
  have happart : ∀ {kind kind' : DivergenceKind} (detail detail' : String → String)
      (l l' : List String), kind.text ≠ kind'.text →
      ∀ a ∈ (l.map fun t => (⟨kind, t, detail t⟩ : Divergence)).map Divergence.identity,
      ∀ b ∈ (l'.map fun t => (⟨kind', t, detail' t⟩ : Divergence)).map Divergence.identity,
        a ≠ b := by
    intro kind kind' detail detail' l l' hne a ha b hb heq
    rw [List.map_map] at ha hb
    obtain ⟨t, -, rfl⟩ := List.mem_map.mp ha
    obtain ⟨t', -, rfl⟩ := List.mem_map.mp hb
    exact hne (Prod.mk.inj heq).1
  have hkeys : ∀ (quantities : Dict String Int) (p : String → Bool),
      (sortedTexts (quantities.keys.filter p)).Nodup := fun quantities p =>
    sortedTexts_nodup (quantities.nodup.filter p)
  unfold positionDivergences
  rw [List.map_append, List.map_append, List.nodup_append, List.nodup_append]
  refine ⟨⟨hpart _ _ (hkeys _ _), hpart _ _ (hkeys _ _), happart _ _ _ _ (by decide)⟩,
    hpart _ _ ((hkeys _ _).filter _), fun a ha => ?_⟩
  rcases List.mem_append.mp ha with ha | ha
  · exact happart _ _ _ _ (by decide) a ha
  · exact happart _ _ _ _ (by decide) a ha

/-! ### Runs -/

/-- The store with the snapshots that were taken, and whether the last one has been recorded. -/
structure FlagStore where
  graph : PipelineGraph
  history : List Sighting
  recorded : Bool

/-- A new snapshot, a pass over the last one that crashes when its clock readings run out, or a
write of the rest of the system. -/
inductive ReconcileMove where
  | snapshot (key : String) (graphQty brokerQty : Dict String Int)
  | record (times : List String)
  | write (w : Write Document)

def reconcileStep (s : FlagStore) : ReconcileMove → Except GraphError FlagStore
  | .snapshot key graphQty brokerQty =>
    .ok { s with history := s.history ++ [⟨key, positionDivergences graphQty brokerQty⟩],
                 recorded := false }
  | .record times =>
    match s.history.getLast? with
    | none => .ok s
    | some x => do
      let ops := recordDivergences s.graph x.key x.divergences
      let graph ← carryOut Graph.write ops times s.graph
      pure { s with graph, recorded := decide (ops.length ≤ times.length) }
  | .write w => do
    let graph ← s.graph.write w
    pure { s with graph }

/-- Snapshots have keys of their own, and the rest of the system leaves the flags alone. -/
def Separate (s : FlagStore) : ReconcileMove → Prop
  | .snapshot key _ _ => key ∉ s.history.map Sighting.key
  | .record _ => True
  | .write w => w.node?.map Prod.fst ≠ some divergenceFlagLabel ∧
      w.node?.map Prod.fst ≠ some divergenceResolutionLabel

instance (s : FlagStore) : DecidablePred (Separate s)
  | .snapshot _ _ _ => inferInstanceAs (Decidable (_ ∉ _))
  | .record _ => inferInstanceAs (Decidable True)
  | .write _ => inferInstanceAs (Decidable (_ ≠ _ ∧ _ ≠ _))

/-- No divergence of the snapshot is of a ticker with a colon. -/
def PlainTickers : ReconcileMove → Prop
  | .snapshot _ graphQty brokerQty =>
    ∀ d ∈ positionDivergences graphQty brokerQty, ':' ∉ d.ticker.toList
  | _ => True

instance : DecidablePred PlainTickers
  | .snapshot _ _ _ => inferInstanceAs (Decidable (∀ _ ∈ _, _))
  | .record _ => inferInstanceAs (Decidable True)
  | .write _ => inferInstanceAs (Decidable True)

/-- A store with flags of other families only. -/
def FlagStore.Fresh (s : FlagStore) : Prop :=
  s.history = [] ∧ (∀ n ∈ s.graph.listNodes divergenceFlagLabel, Foreign "" n) ∧
    ∀ n ∈ s.graph.listNodes divergenceResolutionLabel, Foreign "resolution:" n

abbrev Reconciles (allowed : ReconcileMove → Prop) (s : FlagStore) : Prop :=
  Reach reconcileStep (fun s i => Separate s i ∧ allowed i) FlagStore.Fresh s

theorem Saw.mono {identity : String × String} {key : String} (h : Saw history identity key)
    (x : Sighting) : Saw (history ++ [x]) identity key := by
  obtain ⟨y, hy, hkey, hfound⟩ := h
  exact ⟨y, List.mem_append_left _ hy, hkey, hfound⟩

theorem SawAfter.mono {identity : String × String} {key : String}
    (h : SawAfter history identity key) (x : Sighting) :
    SawAfter (history ++ [x]) identity key := by
  obtain ⟨before, y, after, rfl, hkey, z, hz, hfound⟩ := h
  exact ⟨before, y, after ++ [x], by simp, hkey, z, List.mem_append_left _ hz, hfound⟩

theorem Older.mono {key : String} (h : Older history key) (x : Sighting) :
    Older (history ++ [x]) key := by
  obtain ⟨before, y, after, rfl, hkey, -⟩ := h
  exact ⟨before, y, after ++ [x], by simp, hkey, by simp⟩

/-- A new snapshot leaves the flags in order. -/
theorem Orderly.snapshot (h : Orderly history g) (x : Sighting) : Orderly (history ++ [x]) g := by
  refine ⟨fun n hn => (h.flags n hn).imp id ?_, fun n hn => (h.resolutions n hn).imp id ?_,
    h.single⟩
  · rintro ⟨d, episode, severity, hkey, hjoin, hcolon, hsaw, hseverity⟩
    exact ⟨d, episode, severity, hkey, hjoin, hcolon, hsaw.mono x,
      hseverity.imp id fun hc => ⟨hc.1, hc.2.mono x⟩⟩
  · rintro ⟨d, episode, severity, hkey, hjoin, hcolon, hseverity, hold, hsome⟩
    exact ⟨d, episode, severity, hkey, hjoin, hcolon, hseverity, hold.mono x, hsome⟩

/-- A write of the rest of the system leaves the flags and their resolutions as they are. -/
theorem listNodes_write {w : Write Document} {label : String}
    (hne : ∀ key, w.node? ≠ some (label, key)) (hok : g.write w = .ok t) :
    t.listNodes label = g.listNodes label := by
  cases w with
  | merge l k props =>
    obtain ⟨⟨g₁, n⟩, hm, hret⟩ := Fallible.bind_eq_ok.mp hok
    cases hret
    obtain ⟨rfl, rfl, -⟩ := Graph.mergeNode_ok hm
    exact Graph.listNodes_put_of_ne fun hl => hne k (by rw [Write.node?, hl])
  | link e => exact Graph.listNodes_of_nodes_eq (Graph.addEdge_ok hok).1 label

/-- The invariant of a run: the flags are in order, the snapshots have keys of their own, their
divergences have an identity each, and a recorded snapshot is what is open. -/
structure FlagStore.Settled (s : FlagStore) : Prop where
  orderly : Orderly s.history s.graph
  keys : (s.history.map Sighting.key).Nodup
  plain : ∀ x ∈ s.history, (∀ d ∈ x.divergences, ':' ∉ d.ticker.toList) ∧
    (x.divergences.map Divergence.identity).Nodup
  exact : s.recorded = true → ∀ x, s.history.getLast? = some x → ∀ identity,
    (∃ n, IsOpen s.graph n ∧ flagIdentity n = identity) ↔
      identity ∈ x.divergences.map Divergence.identity

/-- A pass does not raise, and what it did is in order. -/
theorem FlagStore.Settled.record {s : FlagStore} (h : s.Settled) (times : List String) :
    ∃ s', reconcileStep s (.record times) = .ok s' ∧ s'.Settled ∧ FlagsKept s.graph s'.graph := by
  rcases List.eq_nil_or_concat s.history with hnil | ⟨past, x, hcons⟩
  · exact ⟨s, by rw [reconcileStep, hnil]; rfl, h, fun _ _ hn => hn⟩
  · rw [List.concat_eq_append] at hcons
    have hlast : s.history.getLast? = some x := by rw [hcons, List.getLast?_concat]
    obtain ⟨hplain, hids⟩ := h.plain x (by rw [hcons]; simp)
    have horderly := h.orderly
    have hkeys := h.keys
    rw [hcons] at horderly hkeys
    obtain ⟨t, ht, ⟨hord, hkept⟩, hexact⟩ :=
      (horderly.recordDivergences_safe hkeys hplain hids).carryOut times
    refine ⟨⟨t, s.history,
      decide ((recordDivergences s.graph x.key x.divergences).length ≤ times.length)⟩, ?_,
      ⟨hcons.symm ▸ hord, h.keys, h.plain, fun hrec y hy => ?_⟩, hkept⟩
    · rw [reconcileStep, hlast]
      simp only [ht, Fallible.ok_bind]
      rfl
    · cases hlast.symm.trans hy
      exact hexact (of_decide_eq_true hrec)

/-- One move: the invariant is kept, and so is every flag. -/
theorem FlagStore.Settled.step {s s' : FlagStore} (h : s.Settled) {i : ReconcileMove}
    (hsep : Separate s i) (hplain : PlainTickers i) (hok : reconcileStep s i = .ok s') :
    s'.Settled ∧ FlagsKept s.graph s'.graph := by
  cases i with
  | snapshot key graphQty brokerQty =>
    cases hok
    refine ⟨⟨h.orderly.snapshot _, ?_, fun x hx => ?_, fun hrec => nomatch hrec⟩,
      fun _ _ hn => hn⟩
    · rw [List.map_append, List.nodup_append]
      refine ⟨h.keys, by simp, fun a ha b hb hab => hsep ?_⟩
      rw [List.map_singleton, List.mem_singleton] at hb
      rw [hab, hb] at ha
      exact ha
    · rcases List.mem_append.mp hx with hx | hx
      · exact h.plain x hx
      · rw [List.mem_singleton] at hx
        subst hx
        exact ⟨hplain, positionDivergences_identity_nodup graphQty brokerQty⟩
  | record times =>
    obtain ⟨t, ht, hsettled, hkept⟩ := h.record times
    cases ht.symm.trans hok
    exact ⟨hsettled, hkept⟩
  | write w =>
    obtain ⟨t, ht, hret⟩ := Fallible.bind_eq_ok.mp hok
    cases hret
    have hne : ∀ {label : String}, w.node?.map Prod.fst ≠ some label →
        ∀ key, w.node? ≠ some (label, key) := fun h key he => h (by rw [he]; rfl)
    have hflags := listNodes_write (hne hsep.1) ht
    have hres := listNodes_write (hne hsep.2) ht
    have hget : ∀ key, t.getNode divergenceFlagLabel key =
      s.graph.getNode divergenceFlagLabel key :=
      fun key => Graph.getNode_write ht (hne hsep.1 key)
    have hopen : ∀ n, IsOpen t n ↔ IsOpen s.graph n := fun n => isOpen_of_lists hflags hres
    refine ⟨⟨⟨fun n hn => h.orderly.flags n (hflags ▸ hn), fun n hn =>
      (h.orderly.resolutions n (hres ▸ hn)).imp id ?_, fun n m hn hm =>
      h.orderly.single n m ((hopen n).mp hn) ((hopen m).mp hm)⟩, h.keys, h.plain,
      fun hrec x hx identity => ?_⟩, fun key n hn => (hget key).trans hn⟩
    · rintro ⟨d, episode, severity, hkey, hjoin, hcolon, hseverity, hold, hsome⟩
      exact ⟨d, episode, severity, hkey, hjoin, hcolon, hseverity, hold, by rw [hget]; exact hsome⟩
    · simp only [hopen]
      exact h.exact hrec x hx identity

/-- What the flags of a run say of the snapshots. -/
structure FlagStore.EpisodesKept (s : FlagStore) : Prop where
  /-- At most one episode of an identity is open. -/
  single : ∀ n m, IsOpen s.graph n → IsOpen s.graph m → flagIdentity n = flagIdentity m →
    (flagJoin n).1 = (flagJoin m).1
  /-- After a whole pass the open identities are those of the last snapshot. -/
  exact : s.recorded = true → ∀ x, s.history.getLast? = some x → ∀ identity,
    (∃ n, IsOpen s.graph n ∧ flagIdentity n = identity) ↔
      identity ∈ x.divergences.map Divergence.identity
  /-- A flag is of a divergence and of the snapshot that first saw it, and a critical one is of a
  divergence that a later snapshot saw again. -/
  subject : ∀ n ∈ s.graph.listNodes divergenceFlagLabel, inFamily (flagJoin n).1 = true →
    ∃ d episode, (flagJoin n).1 = subjectRefFor d episode ∧ flagIdentity n = d.identity ∧
      Saw s.history d.identity episode ∧
      ((flagJoin n).2 = "critical" → SawAfter s.history d.identity episode)

theorem FlagStore.Settled.episodesKept {s : FlagStore} (h : s.Settled) : s.EpisodesKept := by
  refine ⟨h.orderly.single, h.exact, fun n hn hfamily => ?_⟩
  rcases h.orderly.flags n hn with hforeign | ⟨d, episode, severity, -, hjoin, hcolon, hsaw, hsev⟩
  · cases hforeign.1.symm.trans hfamily
  · refine ⟨d, episode, congrArg Prod.fst hjoin, ?_, hsaw, fun hcritical => ?_⟩
    · rw [flagIdentity, hjoin, subjectIdentity_subjectRefFor hcolon]
    · rw [hjoin] at hcritical
      exact hsev.elim (fun hwarn => absurd (hwarn.symm.trans hcritical) warn_ne_critical) And.right

theorem Reconciles.settled {s : FlagStore} (h : Reconciles PlainTickers s) : s.Settled := by
  refine h.invariant (P := FlagStore.Settled) (fun s hs => ?_) fun s i s' hs hallowed hok =>
    (hs.step hallowed.1 hallowed.2 hok).1
  obtain ⟨hhistory, hflags, hres⟩ := hs
  refine ⟨⟨fun n hn => .inl (hflags n hn), fun n hn => .inl (hres n hn), fun n m hn => ?_⟩, ?_, ?_,
    ?_⟩
  · cases (hflags n hn.1).1.symm.trans hn.2.1
  · rw [hhistory]; exact List.nodup_nil
  · rw [hhistory]; exact fun x hx => absurd hx List.not_mem_nil
  · rw [hhistory]; exact fun _ x hx => nomatch hx

/-- In a run whose snapshots find no divergence of a ticker with a colon, the flags say what the
snapshots saw, no flag is rewritten, and a pass goes through. -/
theorem plainRun_episodesKept {s : FlagStore} (h : Reconciles PlainTickers s) :
    s.EpisodesKept ∧
      (∀ i s', Separate s i → PlainTickers i → reconcileStep s i = .ok s' →
        FlagsKept s.graph s'.graph) ∧
      ∀ times, ∃ s', reconcileStep s (.record times) = .ok s' :=
  ⟨h.settled.episodesKept, fun _ _ hsep hplain hok => (h.settled.step hsep hplain hok).2,
    fun times => (h.settled.record times).imp fun _ hs => hs.1⟩

end

/-! ### A run -/

def emptyFlags : FlagStore := ⟨.empty, [], false⟩

theorem emptyFlags_fresh : emptyFlags.Fresh :=
  ⟨rfl, fun _ hn => absurd hn List.not_mem_nil, fun _ hn => absurd hn List.not_mem_nil⟩

/-- Two snapshots that find a holding which the graph does not have. -/
def survivedMoves : List ReconcileMove := [
  .snapshot "broker-position-snapshot:r1:t1" .empty (.ofList [("AAPL", 5)]),
  .record ["t1"],
  .snapshot "broker-position-snapshot:r2:t2" .empty (.ofList [("AAPL", 5)]),
  .record ["t2", "t2", "t2"]]

/-- The divergence opens an episode, survives, and is escalated. -/
theorem survivedMoves_episodesKept : ∃ s : FlagStore, s.EpisodesKept ∧ s.recorded = true ∧
    (s.graph.listNodes divergenceFlagLabel).map (fun n => (flagJoin n).2) =
      ["warn", "critical"] := by
  have hrun : Fallible.check (fun s : FlagStore => decide (s.recorded = true ∧
      (s.graph.listNodes divergenceFlagLabel).map (fun n => (flagJoin n).2) = ["warn", "critical"]))
      (survivedMoves.foldlM (fun s i => if Separate s i ∧ PlainTickers i then
        reconcileStep s i else .error (.missingNode "" "")) emptyFlags) = true := by decide +kernel
  obtain ⟨s, hs, hcheck⟩ := Fallible.check_eq_true.mp hrun
  exact ⟨s, (plainRun_episodesKept (.of_checked (.start emptyFlags_fresh) hs)).1,
    of_decide_eq_true hcheck⟩

end TradingAgents.Execution
