import TradingAgents.Forecaster.BarrierSettlement

/-! A settlement against the bars it is read from: a claim settles on the bar of its day and the ten
sessions after it, so bars before and after these change nothing, and it stays open only for want of
sessions. -/

namespace TradingAgents.Forecaster

open ProofKit

variable {bars bars' : List SettlingBar} {asOf passDate passDate' : Day}
  {entryClose stopPct targetPct : ℚ} {s : Settlement}

/-- The bar of the claim's day and the sessions that settle it. -/
def settlingWindow (bars : List SettlingBar) (asOf : Day) : List SettlingBar :=
  (bars.dropWhile fun bar => bar.day ≠ asOf).take (horizonSessions + 1)

/-- The number of sessions after the claim's day, none without a bar of that day. -/
def sessionsAfter (bars : List SettlingBar) (asOf : Day) : Nat :=
  (bars.dropWhile fun bar => bar.day ≠ asOf).length - 1

/-- The claim is too old to stay open without its sessions. -/
def PastAgeLimit (asOf passDate : Day) : Prop :=
  noSettlingBarsDays ≤ (passDate.toOrdinal : Int) - asOf.toOrdinal

/-- Two settlements say the same of the claim; the date of a void is that of the pass. -/
structure SameSettlement (s s' : Settlement) : Prop where
  same : s' = { s with settledOn := s'.settledOn }
  settled : s.outcome ≠ .void → s' = s

theorem length_settlingWindow :
    (settlingWindow bars asOf).length = horizonSessions + 1 ↔
      horizonSessions ≤ sessionsAfter bars asOf := by
  unfold settlingWindow sessionsAfter
  rw [List.length_take]
  unfold horizonSessions
  omega

/-- Without enough sessions a claim is void once it is old, and open before. -/
theorem settle_short (hshort : sessionsAfter bars asOf < horizonSessions) :
    settle bars asOf entryClose stopPct targetPct passDate = .ok (withoutBars asOf passDate) := by
  have hlength : (settlingWindow bars asOf).length < horizonSessions + 1 := by
    have hfull : (settlingWindow bars asOf).length = horizonSessions + 1 ↔
      horizonSessions ≤ sessionsAfter bars asOf := length_settlingWindow
    have hle : (settlingWindow bars asOf).length ≤ horizonSessions + 1 := List.length_take_le _ _
    omega
  unfold settle
  rw [← settlingWindow]
  split
  · rfl
  · rename_i entry sessions hwindow
    rw [hwindow, List.length_cons] at hlength
    rw [if_pos (by omega)]
    rfl

/-- What a claim settles to on the bar of its day and its sessions. -/
def settlementOf (entry : SettlingBar) (sessions : List SettlingBar) (ratio stopPct targetPct : ℚ)
    (growth : ℚ) : Settlement :=
  let touch := firstTouch entry.close stopPct targetPct 1 sessions
  { outcome := touch.1
    voidReason := none
    settledOn := ((entry :: sessions).getLastD entry).day
    entryCloseSettling := some entry.close
    entryRatio := some ratio
    realisedReturn := some (match touch.1 with
      | .stop => -stopPct
      | .target => targetPct
      | _ => growth - 1)
    closeReturn := some (growth - 1)
    outcomeSession := touch.2 }

/-- The two ways to settle with enough sessions. -/
theorem settle_long {entry : SettlingBar} {sessions : List SettlingBar}
    (hwindow : settlingWindow bars asOf = entry :: sessions)
    (hlong : sessions.length = horizonSessions) :
    settle bars asOf entryClose stopPct targetPct passDate = (do
      let ratio ← quotient entry.close entryClose
      if ← corporateAction (entry :: sessions) then
        pure (some { outcome := .void, voidReason := some "suspected_corporate_action",
                     settledOn := passDate, entryCloseSettling := some entry.close,
                     entryRatio := some ratio })
      else do
        let growth ← quotient ((entry :: sessions).getLastD entry).close entry.close
        pure (some (settlementOf entry sessions ratio stopPct targetPct growth))) := by
  unfold settle
  rw [← settlingWindow, hwindow]
  simp only [hlong, lt_irrefl, if_false]
  rfl

theorem exists_settlingWindow (hlong : horizonSessions ≤ sessionsAfter bars asOf) :
    ∃ entry sessions, settlingWindow bars asOf = entry :: sessions ∧
      sessions.length = horizonSessions := by
  have hlength := length_settlingWindow.mpr hlong
  cases hwindow : settlingWindow bars asOf with
  | nil =>
    rw [hwindow] at hlength
    cases hlength
  | cons entry sessions =>
    rw [hwindow] at hlength
    exact ⟨entry, sessions, rfl, Nat.succ.inj hlength⟩

/-- With enough sessions the window decides, whatever else there is and whenever the pass is. -/
theorem settle_window (hwindow : settlingWindow bars' asOf = settlingWindow bars asOf)
    (hlong : horizonSessions ≤ sessionsAfter bars asOf)
    (h : settle bars asOf entryClose stopPct targetPct passDate = .ok (some s)) :
    ∃ s', settle bars' asOf entryClose stopPct targetPct passDate' = .ok (some s') ∧
      SameSettlement s s' := by
  obtain ⟨entry, sessions, hentry, hlength⟩ := exists_settlingWindow hlong
  rw [settle_long hentry hlength] at h
  rw [settle_long (hwindow.trans hentry) hlength]
  obtain ⟨ratio, hratio, h⟩ := Fallible.bind_eq_ok.mp h
  obtain ⟨suspected, hsuspected, h⟩ := Fallible.bind_eq_ok.mp h
  rw [hratio, Fallible.ok_bind, hsuspected, Fallible.ok_bind]
  cases suspected with
  | true =>
    cases h
    exact ⟨_, rfl, rfl, fun hne => absurd rfl hne⟩
  | false =>
    obtain ⟨growth, hgrowth, h⟩ := Fallible.bind_eq_ok.mp h
    cases h
    rw [if_neg Bool.false_ne_true, hgrowth]
    exact ⟨_, rfl, rfl, fun _ => rfl⟩

/-- Bars before the claim's day and after the last of its sessions leave its window. -/
theorem settlingWindow_extend {before after : List SettlingBar}
    (hbefore : ∀ bar ∈ before, bar.day ≠ asOf)
    (hlong : horizonSessions ≤ sessionsAfter bars asOf) :
    settlingWindow (before ++ bars ++ after) asOf = settlingWindow bars asOf := by
  unfold sessionsAfter at hlong
  unfold settlingWindow
  have hskip : (before ++ (bars ++ after)).dropWhile (fun bar => bar.day ≠ asOf) =
      (bars ++ after).dropWhile fun bar => bar.day ≠ asOf :=
    List.dropWhile_append_of_pos fun bar hbar => decide_eq_true (hbefore bar hbar)
  have hkeep : (bars ++ after).dropWhile (fun bar => bar.day ≠ asOf) =
      (bars.dropWhile fun bar => bar.day ≠ asOf) ++ after := by
    rw [List.dropWhile_append, if_neg]
    rw [List.isEmpty_iff]
    intro hnil
    rw [hnil] at hlong
    cases hlong
  rw [List.append_assoc, hskip, hkeep]
  refine List.take_append_of_le_length ?_
  unfold horizonSessions at hlong ⊢
  omega

/-- The bar of the claim's day is among the bars if it has sessions. -/
theorem exists_day_of_sessionsAfter (h : 0 < sessionsAfter bars asOf) :
    ∃ bar ∈ bars, bar.day = asOf := by
  by_contra hnone
  have hall : ∀ bar ∈ bars, decide (bar.day ≠ asOf) = true := fun bar hbar =>
    decide_eq_true fun heq => hnone ⟨bar, hbar, heq⟩
  unfold sessionsAfter at h
  rw [List.dropWhile_eq_nil_iff.mpr hall] at h
  cases h

theorem withoutBars_eq_none : withoutBars asOf passDate = none ↔ ¬ PastAgeLimit asOf passDate := by
  unfold withoutBars PastAgeLimit
  split
  · rename_i hold
    exact ⟨nofun, fun hnot => absurd hold hnot⟩
  · rename_i hyoung
    exact ⟨fun _ => hyoung, fun _ => rfl⟩

/-- What a claim without a settlement lacks. -/
theorem undecided_iff : settle bars asOf entryClose stopPct targetPct passDate = .ok none ↔
    sessionsAfter bars asOf < horizonSessions ∧ ¬ PastAgeLimit asOf passDate := by
  constructor
  · intro h
    have hshort : sessionsAfter bars asOf < horizonSessions := by
      by_contra hlong
      obtain ⟨entry, sessions, hentry, hlength⟩ := exists_settlingWindow (Nat.le_of_not_lt hlong)
      rw [settle_long hentry hlength] at h
      obtain ⟨ratio, -, h⟩ := Fallible.bind_eq_ok.mp h
      obtain ⟨suspected, -, h⟩ := Fallible.bind_eq_ok.mp h
      cases suspected with
      | true => cases h
      | false =>
        obtain ⟨growth, -, h⟩ := Fallible.bind_eq_ok.mp h
        cases h
    rw [settle_short hshort, Except.ok.injEq, withoutBars_eq_none] at h
    exact ⟨hshort, h⟩
  · rintro ⟨hshort, hyoung⟩
    rw [settle_short hshort, withoutBars_eq_none.mpr hyoung]

/-- A settlement that is not for want of bars has enough sessions. -/
theorem sessionsAfter_of_settled
    (h : settle bars asOf entryClose stopPct targetPct passDate = .ok (some s))
    (hreason : s.voidReason ≠ some "no_settling_bars") :
    horizonSessions ≤ sessionsAfter bars asOf := by
  by_contra hshort
  rw [settle_short (Nat.lt_of_not_le hshort), Except.ok.injEq] at h
  unfold withoutBars at h
  split at h
  · cases h
    exact hreason rfl
  · cases h

/-- A claim that has settled on its sessions settles to the same with more bars around it, whenever
the pass is; an open claim is decided only by further sessions or by age. -/
theorem settle_stable (bars : List SettlingBar) (asOf : Day) (entryClose stopPct targetPct : ℚ)
    (passDate : Day) :
    (∀ s, settle bars asOf entryClose stopPct targetPct passDate = .ok (some s) →
      s.voidReason ≠ some "no_settling_bars" → ∀ before after : List SettlingBar,
        ((before ++ bars ++ after).map SettlingBar.day).Nodup → ∀ passDate', ∃ s',
          settle (before ++ bars ++ after) asOf entryClose stopPct targetPct passDate' =
            .ok (some s') ∧ SameSettlement s s') ∧
    (settle bars asOf entryClose stopPct targetPct passDate = .ok none →
      ∀ (bars' : List SettlingBar) (passDate' : Day) (s' : Settlement),
        settle bars' asOf entryClose stopPct targetPct passDate' = .ok (some s') →
          sessionsAfter bars asOf < sessionsAfter bars' asOf ∨ PastAgeLimit asOf passDate') := by
  constructor
  · intro s h hreason before after hdistinct passDate'
    have hlong := sessionsAfter_of_settled h hreason
    have hbefore : ∀ bar ∈ before, bar.day ≠ asOf := by
      have hpos : 0 < sessionsAfter bars asOf := Nat.lt_of_lt_of_le (by decide) hlong
      obtain ⟨entry, hentry, hday⟩ := exists_day_of_sessionsAfter hpos
      rw [List.append_assoc, List.map_append, List.nodup_append] at hdistinct
      intro bar hbar heq
      exact hdistinct.2.2 _ (List.mem_map_of_mem hbar) _
        (List.mem_map_of_mem (List.mem_append_left after hentry)) (heq.trans hday.symm)
    exact settle_window (settlingWindow_extend hbefore hlong) hlong h
  · intro hopen bars' passDate' s' h'
    obtain ⟨hshort, -⟩ := undecided_iff.mp hopen
    by_contra hnot
    rw [not_or] at hnot
    have hopen' : settle bars' asOf entryClose stopPct targetPct passDate' = .ok none :=
      undecided_iff.mpr ⟨by omega, hnot.2⟩
    rw [hopen'] at h'
    cases h'

/-! ### A quiet March -/

theorem march_bound (n : Fin 11) : 1 ≤ n.val + 2 ∧ n.val + 2 ≤ daysInMonth 2026 3 :=
  ⟨Nat.le_add_left 1 _, Nat.le_trans (Nat.add_le_add_right (Nat.le_of_lt n.isLt) 2) (by decide)⟩

/-- The days from March 2 on. -/
def march (n : Fin 11) : Day :=
  ⟨2026, 3, n.val + 2, by decide, by decide, march_bound n⟩

def quietBar (n : Fin 11) : SettlingBar := ⟨march n, 101, 99, 100⟩

/-- 45 days after March 2. -/
def aprilSixteenth : Day := ⟨2026, 4, 16, by decide, by decide, by decide⟩

/-- The bar of the claim's day alone is void for want of bars on the 45th day; ten later bars settle
the claim to neither on the same day. -/
theorem void_then_neither : ¬ ∀ (bars after : List SettlingBar) (asOf passDate : Day)
    (entryClose stopPct targetPct : ℚ) (s : Settlement),
    ((bars ++ after).map SettlingBar.day).Nodup →
    settle bars asOf entryClose stopPct targetPct passDate = .ok (some s) →
    ∃ s', settle (bars ++ after) asOf entryClose stopPct targetPct passDate = .ok (some s') ∧
      s'.outcome = s.outcome := by
  intro hall
  have hdays : (([quietBar 0] ++ (List.finRange 11).tail.map quietBar).map
      SettlingBar.day).Nodup := by
    decide
  have hvoid : settle [quietBar 0] (march 0) 100 (1 / 20) (2 / 25) aprilSixteenth =
      .ok (withoutBars (march 0) aprilSixteenth) :=
    settle_short (by decide)
  have hold : noSettlingBarsDays ≤ (aprilSixteenth.toOrdinal : Int) - (march 0).toOrdinal := by
    decide
  rw [withoutBars, if_pos hold] at hvoid
  obtain ⟨s', hs', hsame⟩ := hall _ _ _ _ _ _ _ _ hdays hvoid
  have hlater : Fallible.check (fun s => decide (s.map Settlement.outcome = some .neither))
      (settle ([quietBar 0] ++ (List.finRange 11).tail.map quietBar) (march 0) 100 (1 / 20) (2 / 25)
        aprilSixteenth) = true := by
    decide +kernel
  obtain ⟨s, hs, hneither⟩ := Fallible.check_eq_true.mp hlater
  rw [hs] at hs'
  cases hs'
  have hneither : s'.outcome = .neither := by simpa using hneither
  rw [hneither] at hsame
  cases hsame

/-- The quiet claim stays at neither with a bar before and a bar after its sessions. -/
theorem settle_stable_quiet : ∃ s s' : Settlement, s.outcome = .neither ∧
    settle ((List.finRange 11).map quietBar) (march 0) 100 (1 / 20) (2 / 25) (march 10) =
      .ok (some s) ∧
    settle ([⟨⟨2026, 2, 27, by decide, by decide, by decide⟩, 50, 40, 45⟩] ++
      (List.finRange 11).map quietBar ++ [⟨aprilSixteenth, 300, 1, 200⟩]) (march 0) 100 (1 / 20)
      (2 / 25) aprilSixteenth = .ok (some s') ∧ SameSettlement s s' := by
  have hrun : Fallible.check (fun s => decide (s.map Settlement.outcome = some .neither ∧
        s.bind Settlement.voidReason = none))
      (settle ((List.finRange 11).map quietBar) (march 0) 100 (1 / 20) (2 / 25) (march 10)) =
        true := by
    decide +kernel
  obtain ⟨s, hs, hfields⟩ := Fallible.check_eq_true.mp hrun
  cases s with
  | none => cases (of_decide_eq_true hfields).1
  | some s =>
    obtain ⟨houtcome, hreason⟩ := of_decide_eq_true hfields
    have hreason : s.voidReason = none := hreason
    obtain ⟨s', hs', hsame⟩ := (settle_stable _ _ _ _ _ _).1 s hs (by rw [hreason]; nofun)
      [⟨⟨2026, 2, 27, by decide, by decide, by decide⟩, 50, 40, 45⟩] [⟨aprilSixteenth, 300, 1, 200⟩]
      (by decide) aprilSixteenth
    exact ⟨s, s', Option.some.inj houtcome, hs, hs', hsame⟩

end TradingAgents.Forecaster
