import TradingAgents.Master.Remediation
import TradingAgents.ProofKit.Runs

/-! Interleaved remediations.  What is run is of the catalogue and allowed by the settings; and as
long as a run is recorded before the same failure is counted again, an executor runs no more often
for a failure than the settings allow. -/

namespace TradingAgents.Master

open ProofKit

variable (settings : RemediationSettings)

/-- The automatic attempts recorded for a signature. -/
def recordedRuns (attempts : Dict String AttemptRow) (sig : FailureSignature) : Nat :=
  (attempts.entries.map Prod.snd).countP fun row => row.attempt.auto &&
    decide (row.agentType = sig.agentType ∧ row.failedCredentials.toFinset = sig.failedCredentials ∧
      row.attempt.remediation = sig.remediation)

def executorRuns (s : RemediationState) (sig : FailureSignature) : Nat :=
  s.runs.countP fun run => decide (run = sig)

/-- An executor has been run for a signature, and the attempt is not recorded. -/
def RemediationPc.Unrecorded (sig : FailureSignature) : RemediationPc → Prop
  | attempted e plan _ ran => ran = true ∧ signatureOf e plan = sig
  | finalized e plan _ ran => ran = true ∧ signatureOf e plan = sig
  | _ => False

/-- An activation is between the count of a failure and the record of its run. -/
def RemediationPc.Holds (sig : FailureSignature) : RemediationPc → Prop
  | counted e plan prior => executes settings plan prior = true ∧ signatureOf e plan = sig
  | attempted e plan _ ran => ran = true ∧ signatureOf e plan = sig
  | finalized e plan _ ran => ran = true ∧ signatureOf e plan = sig
  | _ => False

/-- An executor that is run says so in its attempt. -/
def ReturnsOwn (plan : RemediationPlan) (attempt : RemediationAttempt) : Prop :=
  attempt.auto = true ∧ attempt.remediation = plan.remediation

/-- A failure is counted while no run for it awaits its record and in the listing of the attempts
recorded for it; an executor that is run returns an automatic attempt of its remediation; and what
follows a run neither raises nor meets a taken key. -/
def RecordsRuns (s : RemediationState) (t : Nat) (input : RemediationInput) : Prop :=
  match s.pcs t, input with
  | .planned e plan, .count =>
    (∀ t', t' ≠ t → ¬ (s.pcs t').Holds settings (signatureOf e plan)) ∧
      ∀ row ∈ s.attempts.entries.map Prod.snd, row.attempt.auto = true →
        row.agentType = e.agentType → row.attempt.remediation = plan.remediation →
          row.failedCredentials.toFinset = e.failedCredentials.toFinset →
            row.failedCredentials = e.failedCredentials
  | .counted _ plan prior, .execute (.ok attempt) =>
    executes settings plan prior = true → ReturnsOwn plan attempt
  | .attempted _ _ attempt true, .retest failures => attempt.status = "succeeded" → failures ≠ none
  | .finalized e _ _ true, .record stamp raises =>
    raises = false ∧ s.attempts.get? (attemptKey e stamp) = none
  | _, _ => True

/-- What the automatic runs keep to. -/
structure RemediationKept (s : RemediationState) : Prop where
  capped : ∀ sig, executorRuns s sig ≤ settings.maxAutoRemediationAttempts
  vetted : ∀ run ∈ s.runs, run.remediation ∈ settings.catalogue.map Remediation.name ∨
    run.remediation = fallbackRemediation.name
  automatic : ∀ run ∈ s.runs, settings.mode = "automatic"
  destructive : ∀ run ∈ s.runs, ∀ option ∈ settings.catalogue, option.name = run.remediation →
    option.destructive = true → settings.scope = "all"

/-- A plan of the catalogue that is eligible only as the settings allow. -/
structure RemediationPlan.Vetted (plan : RemediationPlan) : Prop where
  known : plan.remediation ∈ settings.catalogue.map Remediation.name ∨
    plan.remediation = fallbackRemediation.name
  eligible : plan.autoEligible = true → settings.mode = "automatic" ∧
    ∀ option ∈ settings.catalogue, option.name = plan.remediation → option.destructive = true →
      settings.scope = "all"

def PcVetted : RemediationPc → Prop
  | .planned _ plan => plan.Vetted settings
  | .counted _ plan _ => plan.Vetted settings
  | _ => True

def PcOwn : RemediationPc → Prop
  | .attempted _ plan attempt ran => ran = true → ReturnsOwn plan attempt
  | .finalized _ plan attempt ran => ran = true → ReturnsOwn plan attempt
  | _ => True

/-- The invariant of the remediations. -/
structure RemediationInv (s : RemediationState) : Prop extends RemediationKept settings s where
  pcs : ∀ t, PcVetted settings (s.pcs t)
  own : ∀ t, PcOwn (s.pcs t)
  exclusive : ∀ sig t t', (s.pcs t).Holds settings sig → (s.pcs t').Holds settings sig → t = t'
  recorded : ∀ sig, (∀ t, ¬ (s.pcs t).Unrecorded sig) →
    executorRuns s sig ≤ recordedRuns s.attempts sig
  unrecorded : ∀ sig t, (s.pcs t).Unrecorded sig →
    executorRuns s sig ≤ recordedRuns s.attempts sig + 1
  counted : ∀ t e plan prior, s.pcs t = .counted e plan prior →
    executes settings plan prior = true → executorRuns s (signatureOf e plan) ≤ prior

section

variable {settings} {s s' : RemediationState} {t : Nat}

theorem option_eq_of_name {options : List Remediation}
    (hnodup : (options.map Remediation.name).Nodup) {option other : Remediation}
    (h : option ∈ options) (h' : other ∈ options) (hname : option.name = other.name) :
    option = other :=
  List.inj_on_of_nodup_map hnodup h h' hname

theorem selectWithRationale_known (answer : PlannerAnswer) :
    (selectWithRationale settings answer).1 ∈ settings.catalogue.map Remediation.name ∨
      (selectWithRationale settings answer).1 = fallbackRemediation.name := by
  unfold selectWithRationale
  split
  · exact .inr rfl
  · exact .inr rfl
  · exact .inr rfl
  · split
    · rename_i hknown
      split
      · exact .inl hknown
      · exact .inl hknown
    · exact .inr rfl

/-- The remediation under a known name is the option of that name, or else the fallback. -/
theorem findRemediation_cases {name : String}
    (hknown : name ∈ settings.catalogue.map Remediation.name ∨ name = fallbackRemediation.name) :
    findRemediation settings name ∈ settings.catalogue ∨
      findRemediation settings name = fallbackRemediation ∧
        fallbackRemediation.name ∉ settings.catalogue.map Remediation.name := by
  unfold findRemediation
  cases hfind : settings.catalogue.find? fun option => option.name = name with
  | some option => exact .inl (List.mem_of_find?_eq_some hfind)
  | none =>
    have hnot : name ∉ settings.catalogue.map Remediation.name := fun hmem => by
      obtain ⟨option, hoption, hname⟩ := List.mem_map.mp hmem
      exact List.find?_eq_none.mp hfind option hoption (decide_eq_true hname)
    exact .inr ⟨rfl, hknown.resolve_left hnot ▸ hnot⟩

theorem planRemediation_vetted (answer : PlannerAnswer) :
    (planRemediation settings answer).Vetted settings := by
  have hknown : (selectWithRationale settings answer).1 ∈ _ ∨ _ := selectWithRationale_known answer
  have hcases := findRemediation_cases hknown
  refine ⟨?_, fun heligible => ?_⟩
  · rcases hcases with hin | ⟨heq, -⟩
    · exact .inl (List.mem_map_of_mem hin)
    · exact .inr (congrArg Remediation.name heq)
  · obtain ⟨hmode, hscope⟩ := of_decide_eq_true heligible
    refine ⟨hmode, fun option hoption hname hdestructive => hscope.resolve_right fun hsafe => ?_⟩
    rcases hcases with hin | ⟨heq, hnot⟩
    · rw [option_eq_of_name settings.catalogue_nodup hoption hin hname, hsafe] at hdestructive
      cases hdestructive
    · exact hnot (List.mem_map.mpr ⟨option, hoption,
        hname.trans (congrArg Remediation.name heq)⟩)

/-! ### One move -/

/-- A move of activation `t` that runs and records nothing. -/
structure QuietMove (settings : RemediationSettings) (s : RemediationState) (t : Nat)
    (pc : RemediationPc) : Prop where
  vetted : PcVetted settings pc
  own : PcOwn pc
  holds : ∀ sig, pc.Holds settings sig → ∀ t', t' ≠ t → ¬ (s.pcs t').Holds settings sig
  unrecorded : ∀ sig, pc.Unrecorded sig ↔ (s.pcs t).Unrecorded sig
  counted : ∀ e plan prior, pc = .counted e plan prior → executes settings plan prior = true →
    executorRuns s (signatureOf e plan) ≤ prior

theorem goto_pcs (s : RemediationState) (t t' : Nat) (pc : RemediationPc) :
    (s.goto t pc).pcs t' = if t' = t then pc else s.pcs t' := by
  rcases Decidable.em (t' = t) with rfl | hne
  · rw [if_pos rfl]
    exact Function.update_self ..
  · rw [if_neg hne]
    exact Function.update_of_ne hne ..

theorem RemediationInv.quiet (h : RemediationInv settings s) {pc : RemediationPc}
    (hquiet : QuietMove settings s t pc) : RemediationInv settings (s.goto t pc) := by
  have hpcs := goto_pcs s t
  have hsame : ∀ sig t', ((s.goto t pc).pcs t').Unrecorded sig ↔ (s.pcs t').Unrecorded sig := by
    intro sig t'
    rw [hpcs]
    split
    · rename_i heq
      rw [heq]
      exact hquiet.unrecorded sig
    · rfl
  refine ⟨⟨h.capped, h.vetted, h.automatic, h.destructive⟩, fun t' => ?_, fun t' => ?_,
    fun sig t₁ t₂ h₁ h₂ => ?_, fun sig hnone => ?_, fun sig t' hrun => ?_,
    fun t' e plan prior hcounted => ?_⟩
  · rw [hpcs]
    split
    · exact hquiet.vetted
    · exact h.pcs t'
  · rw [hpcs]
    split
    · exact hquiet.own
    · exact h.own t'
  · rw [hpcs] at h₁ h₂
    split at h₁
    · rename_i heq₁
      split at h₂
      · rename_i heq₂
        exact heq₁.trans heq₂.symm
      · rename_i hne₂
        exact absurd h₂ (hquiet.holds sig h₁ t₂ hne₂)
    · rename_i hne₁
      split at h₂
      · exact absurd h₁ (hquiet.holds sig h₂ t₁ hne₁)
      · exact h.exclusive sig t₁ t₂ h₁ h₂
  · exact h.recorded sig fun t' hrun => hnone t' ((hsame sig t').mpr hrun)
  · exact h.unrecorded sig t' ((hsame sig t').mp hrun)
  · rw [hpcs] at hcounted
    split at hcounted
    · exact hquiet.counted e plan prior hcounted
    · exact h.counted t' e plan prior hcounted

theorem RemediationPc.Unrecorded.holds {pc : RemediationPc} {sig : FailureSignature}
    (h : pc.Unrecorded sig) : pc.Holds settings sig := by
  cases pc with
  | attempted e plan attempt ran => exact h
  | finalized e plan attempt ran => exact h
  | idle => exact h.elim
  | escalated e => exact h.elim
  | planned e plan => exact h.elim
  | counted e plan prior => exact h.elim
  | done => exact h.elim

/-- A move to a point that neither holds a failure nor leaves a run unrecorded. -/
theorem QuietMove.free {pc : RemediationPc} (hvetted : PcVetted settings pc) (hown : PcOwn pc)
    (hfree : ∀ sig, ¬ pc.Holds settings sig) (hbefore : ∀ sig, ¬ (s.pcs t).Unrecorded sig) :
    QuietMove settings s t pc where
  vetted := hvetted
  own := hown
  holds := fun sig hholds => absurd hholds (hfree sig)
  unrecorded := fun sig => iff_of_false (fun h => hfree sig h.holds) (hbefore sig)
  counted := fun e plan prior heq hexecutes => by
    subst heq
    exact absurd ⟨hexecutes, rfl⟩ (hfree (signatureOf e plan))

/-- Where the listing agrees, the count is of every recorded run of the failure. -/
theorem recordedRuns_le_prior {attempts : Dict String AttemptRow} {e : Escalation}
    {plan : RemediationPlan}
    (hlisting : ∀ row ∈ attempts.entries.map Prod.snd, row.attempt.auto = true →
      row.agentType = e.agentType → row.attempt.remediation = plan.remediation →
        row.failedCredentials.toFinset = e.failedCredentials.toFinset →
          row.failedCredentials = e.failedCredentials) :
    recordedRuns attempts (signatureOf e plan) ≤
      priorAutoAttempts attempts e plan.remediation := by
  refine List.countP_mono_left fun row hrow hcounted => ?_
  obtain ⟨hauto, hmatch⟩ := Bool.and_eq_true_iff.mp hcounted
  obtain ⟨htype, hset, hremediation⟩ := of_decide_eq_true hmatch
  exact Bool.and_eq_true_iff.mpr ⟨hauto, decide_eq_true
    ⟨htype, hlisting row hrow hauto htype hremediation hset, hremediation⟩⟩

theorem RemediationInv.count (h : RemediationInv settings s) {e : Escalation}
    {plan : RemediationPlan} (hpc : s.pcs t = .planned e plan)
    (hrecords : RecordsRuns settings s t .count) :
    RemediationInv settings
      (s.goto t (.counted e plan (priorAutoAttempts s.attempts e plan.remediation))) := by
  unfold RecordsRuns at hrecords
  rw [hpc] at hrecords
  obtain ⟨hfree, hlisting⟩ := hrecords
  have hvetted := h.pcs t
  rw [hpc] at hvetted
  have hnone : ∀ t', ¬ (s.pcs t').Unrecorded (signatureOf e plan) := by
    intro t' hrun
    rcases Decidable.em (t' = t) with rfl | hne
    · rw [hpc] at hrun
      exact hrun
    · exact hfree t' hne hrun.holds
  refine h.quiet ⟨hvetted, trivial, fun sig hholds => ?_, fun sig => ?_,
    fun e' plan' prior heq _ => ?_⟩
  · obtain ⟨-, rfl⟩ := hholds
    exact hfree
  · rw [hpc]
    exact Iff.rfl
  · cases heq
    exact (h.recorded _ hnone).trans (recordedRuns_le_prior hlisting)

theorem executorRuns_append (sig run : FailureSignature) :
    executorRuns { s with runs := s.runs ++ [run] } sig =
      executorRuns s sig + if run = sig then 1 else 0 := by
  unfold executorRuns
  rw [List.countP_append, List.countP_singleton]
  simp only [decide_eq_true_eq]

/-- The run of an executor: it was counted below the cap, and no other run awaits its record. -/
theorem RemediationInv.execute (h : RemediationInv settings s) {e : Escalation}
    {plan : RemediationPlan} {prior : Nat} {attempt : RemediationAttempt}
    (hpc : s.pcs t = .counted e plan prior) (hexecutes : executes settings plan prior = true)
    (hreturns : ReturnsOwn plan attempt) :
    RemediationInv settings ({ s with runs := s.runs ++ [signatureOf e plan] }.goto t
      (.attempted e plan attempt true)) := by
  have hcounted := h.counted t e plan prior hpc hexecutes
  have hheld : (s.pcs t).Holds settings (signatureOf e plan) := by
    rw [hpc]
    exact ⟨hexecutes, rfl⟩
  have honly : ∀ t', t' ≠ t → ¬ (s.pcs t').Holds settings (signatureOf e plan) :=
    fun t' hne hholds => hne (h.exclusive _ t' t hholds hheld)
  have hnone : ∀ t', ¬ (s.pcs t').Unrecorded (signatureOf e plan) := by
    intro t' hrun
    rcases Decidable.em (t' = t) with rfl | hne
    · rw [hpc] at hrun
      exact hrun
    · exact honly t' hne hrun.holds
  have hvetted : plan.Vetted settings := by
    have hvetted := h.pcs t
    rwa [hpc] at hvetted
  obtain ⟨heligible, hbelow⟩ := Bool.and_eq_true_iff.mp (Bool.and_eq_true_iff.mp hexecutes).1
  have hruns : ∀ {P : FailureSignature → Prop}, (∀ run ∈ s.runs, P run) → P (signatureOf e plan) →
      ∀ run ∈ s.runs ++ [signatureOf e plan], P run := by
    intro P hold hnew run hrun
    rcases List.mem_append.mp hrun with hin | hlast
    · exact hold run hin
    · exact List.mem_singleton.mp hlast ▸ hnew
  have hcount := fun sig => executorRuns_append (s := s) sig (signatureOf e plan)
  have hpcs := goto_pcs { s with runs := s.runs ++ [signatureOf e plan] } t
  refine ⟨⟨fun sig => ?_, hruns h.vetted hvetted.known,
    hruns h.automatic (hvetted.eligible heligible).1,
    hruns h.destructive (hvetted.eligible heligible).2⟩, fun t' => ?_, fun t' => ?_,
    fun sig t₁ t₂ h₁ h₂ => ?_, fun sig hall => ?_, fun sig t' hrun => ?_,
    fun t' e' plan' prior' hpc' hexecutes' => ?_⟩
  · refine (hcount sig).trans_le ?_
    split
    · rename_i heq
      rw [← heq]
      exact (Nat.succ_le_succ hcounted).trans (of_decide_eq_true hbelow)
    · exact h.capped sig
  · rw [hpcs]
    split
    · trivial
    · exact h.pcs t'
  · rw [hpcs]
    split
    · exact fun _ => hreturns
    · exact h.own t'
  · have hback : ∀ t', (((({ s with runs := s.runs ++ [signatureOf e plan] } :
        RemediationState).goto t (.attempted e plan attempt true)).pcs t').Holds settings sig) →
          (s.pcs t').Holds settings sig := by
      intro t' hholds
      rw [hpcs] at hholds
      split at hholds
      · rename_i heq
        rw [heq, ← hholds.2]
        exact hheld
      · exact hholds
    exact h.exclusive sig t₁ t₂ (hback t₁ h₁) (hback t₂ h₂)
  · have hne : ¬ signatureOf e plan = sig := fun heq => by
      refine hall t ?_
      rw [hpcs, if_pos rfl]
      exact ⟨rfl, heq⟩
    refine (hcount sig).trans_le ?_
    rw [if_neg hne]
    refine h.recorded sig fun t' hrun => hall t' ?_
    rw [hpcs, if_neg]
    · exact hrun
    · rintro rfl
      rw [hpc] at hrun
      exact hrun
  · refine (hcount sig).trans_le ?_
    split
    · rename_i heq
      rw [← heq]
      exact Nat.succ_le_succ (h.recorded _ hnone)
    · rename_i hne
      rw [hpcs] at hrun
      split at hrun
      · exact absurd hrun.2 hne
      · exact h.unrecorded sig t' hrun
  · rw [hpcs] at hpc'
    split at hpc'
    · cases hpc'
    · rename_i hne
      have hother : ¬ signatureOf e plan = signatureOf e' plan' := fun heq => by
        refine honly t' hne ?_
        rw [hpc']
        exact ⟨hexecutes', heq.symm⟩
      refine (hcount _).trans_le ?_
      rw [if_neg hother]
      exact h.counted t' e' plan' prior' hpc' hexecutes'

theorem recordedRuns_set {attempts : Dict String AttemptRow} {key : String} {row : AttemptRow}
    (hfree : attempts.get? key = none) (sig : FailureSignature) :
    recordedRuns (attempts.set key row) sig = recordedRuns attempts sig +
      if row.attempt.auto = true ∧ row.agentType = sig.agentType ∧
        row.failedCredentials.toFinset = sig.failedCredentials ∧
          row.attempt.remediation = sig.remediation then 1 else 0 := by
  unfold recordedRuns
  rw [Dict.entries_set_of_notMem row (Dict.notMem_keys_iff.mpr hfree), List.map_append,
    List.countP_append]
  change _ + List.countP _ [row] = _
  rw [List.countP_singleton]
  simp only [Bool.and_eq_true, decide_eq_true_eq]

theorem recordedRuns_le_write (attempts : Dict String AttemptRow) (e : Escalation) (stamp : String)
    (attempt : RemediationAttempt) (sig : FailureSignature) :
    recordedRuns attempts sig ≤ recordedRuns (writeAttempt attempts e stamp attempt) sig := by
  unfold writeAttempt
  dsimp only
  split
  · rename_i hfree
    rw [recordedRuns_set hfree]
    exact Nat.le_add_right _ _
  · exact Nat.le_refl _

/-- More recorded attempts keep the invariant. -/
theorem RemediationInv.grow (h : RemediationInv settings s) {attempts : Dict String AttemptRow}
    (hle : ∀ sig, recordedRuns s.attempts sig ≤ recordedRuns attempts sig) :
    RemediationInv settings { s with attempts } where
  capped := h.capped
  vetted := h.vetted
  automatic := h.automatic
  destructive := h.destructive
  pcs := h.pcs
  own := h.own
  exclusive := h.exclusive
  recorded := fun sig hnone => (h.recorded sig hnone).trans (hle sig)
  unrecorded := fun sig t hrun => (h.unrecorded sig t hrun).trans (Nat.succ_le_succ (hle sig))
  counted := h.counted

/-- The record of a run that was made. -/
theorem RemediationInv.record (h : RemediationInv settings s) {e : Escalation}
    {plan : RemediationPlan} {attempt : RemediationAttempt} {stamp : String}
    (hpc : s.pcs t = .finalized e plan attempt true)
    (hfree : s.attempts.get? (attemptKey e stamp) = none) :
    RemediationInv settings
      ({ s with attempts := writeAttempt s.attempts e stamp attempt }.goto t .done) := by
  have hgrown := h.grow (recordedRuns_le_write s.attempts e stamp attempt)
  have hheld : (s.pcs t).Holds settings (signatureOf e plan) := by
    rw [hpc]
    exact ⟨rfl, rfl⟩
  have hown : ReturnsOwn plan attempt := by
    have hown := h.own t
    rw [hpc] at hown
    exact hown rfl
  have hmore : recordedRuns (writeAttempt s.attempts e stamp attempt) (signatureOf e plan) =
      recordedRuns s.attempts (signatureOf e plan) + 1 := by
    unfold writeAttempt
    dsimp only
    rw [hfree]
    dsimp only
    rw [recordedRuns_set hfree, if_pos ⟨hown.1, rfl, rfl, hown.2⟩]
  have hpcs := goto_pcs { s with attempts := writeAttempt s.attempts e stamp attempt } t
  have hback : ∀ sig t', ¬ t' = t → (s.pcs t').Unrecorded sig →
      ((({ s with attempts := writeAttempt s.attempts e stamp attempt } :
        RemediationState).goto t .done).pcs t').Unrecorded sig := by
    intro sig t' hne hrun
    rw [hpcs, if_neg hne]
    exact hrun
  refine ⟨⟨h.capped, h.vetted, h.automatic, h.destructive⟩, fun t' => ?_, fun t' => ?_,
    fun sig t₁ t₂ h₁ h₂ => ?_, fun sig hall => ?_, fun sig t' hrun => ?_,
    fun t' e' plan' prior' hpc' hexecutes' => ?_⟩
  · rw [hpcs]
    split
    · trivial
    · exact h.pcs t'
  · rw [hpcs]
    split
    · trivial
    · exact h.own t'
  · rw [hpcs] at h₁ h₂
    split at h₁
    · exact h₁.elim
    · split at h₂
      · exact h₂.elim
      · exact h.exclusive sig t₁ t₂ h₁ h₂
  · rcases Decidable.em (signatureOf e plan = sig) with rfl | hne
    · refine (h.unrecorded _ t ?_).trans_eq hmore.symm
      rw [hpc]
      exact ⟨rfl, rfl⟩
    · refine hgrown.recorded sig fun t' hrun => ?_
      rcases Decidable.em (t' = t) with rfl | hother
      · change (s.pcs t').Unrecorded sig at hrun
        rw [hpc] at hrun
        exact hne hrun.2
      · exact hall t' (hback sig t' hother hrun)
  · rw [hpcs] at hrun
    split at hrun
    · exact hrun.elim
    · exact hgrown.unrecorded sig t' hrun
  · rw [hpcs] at hpc'
    split at hpc'
    · cases hpc'
    · exact h.counted t' e' plan' prior' hpc' hexecutes'

theorem finalizeAttempt_own {plan : RemediationPlan} {attempt : RemediationAttempt}
    (h : ReturnsOwn plan attempt) (failures : List String) :
    ReturnsOwn plan (finalizeAttempt attempt failures) := by
  unfold finalizeAttempt
  split
  · exact h
  · exact h

/-- An executor that raises is recorded as an automatic attempt of the plan. -/
theorem runRemediation_own {plan : RemediationPlan} {prior : Nat}
    {outcome : Except String RemediationAttempt} (hexecutes : executes settings plan prior = true)
    (h : ∀ attempt, outcome = .ok attempt → ReturnsOwn plan attempt) :
    ReturnsOwn plan (runRemediation settings plan prior outcome) := by
  obtain ⟨hallowed, hregistered⟩ := Bool.and_eq_true_iff.mp hexecutes
  obtain ⟨heligible, hbelow⟩ := Bool.and_eq_true_iff.mp hallowed
  obtain ⟨executor, hexecutor⟩ := Option.isSome_iff_exists.mp hregistered
  rw [runRemediation, if_neg (by rw [heligible]; exact Bool.noConfusion),
    if_neg (Nat.not_le.mpr (of_decide_eq_true hbelow)), hexecutor]
  cases outcome with
  | ok attempt => exact h attempt rfl
  | error errorName => exact ⟨rfl, rfl⟩

/-- The move from an attempt to its last form. -/
theorem RemediationInv.finalize (h : RemediationInv settings s) {e : Escalation}
    {plan : RemediationPlan} {attempt attempt' : RemediationAttempt} {ran : Bool}
    (hpc : s.pcs t = .attempted e plan attempt ran)
    (hown : ReturnsOwn plan attempt → ReturnsOwn plan attempt') :
    RemediationInv settings (s.goto t (.finalized e plan attempt' ran)) := by
  have hbefore := h.own t
  rw [hpc] at hbefore
  refine h.quiet ⟨trivial, fun hran => hown (hbefore hran), fun sig hholds t' hne hother => ?_,
    fun sig => ?_, fun _ _ _ heq => by cases heq⟩
  · refine hne (h.exclusive sig t' t hother ?_)
    rw [hpc]
    exact hholds
  · rw [hpc]
    exact Iff.rfl

/-- The move to an end that leaves no run unrecorded. -/
theorem RemediationInv.finish (h : RemediationInv settings s)
    (hbefore : ∀ sig, ¬ (s.pcs t).Unrecorded sig) : RemediationInv settings (s.goto t .done) :=
  h.quiet (.free trivial trivial (fun _ hholds => hholds) hbefore)

/-- Every step that records a run before the failure is counted again keeps the invariant. -/
theorem RemediationInv.step (h : RemediationInv settings s) {input : RemediationInput}
    (hrecords : RecordsRuns settings s t input)
    (hstep : remediationStep settings s t input = .ok s') : RemediationInv settings s' := by
  unfold remediationStep at hstep
  split at hstep
  case h_1 hpc =>
    have hbefore : ∀ sig, ¬ (s.pcs t).Unrecorded sig := fun sig => by rw [hpc]; exact id
    split at hstep
    · cases hstep
      exact h.finish hbefore
    · cases hstep
      exact h.quiet (.free trivial trivial (fun _ hholds => hholds) hbefore)
  case h_2 e answer raises hpc =>
    have hbefore : ∀ sig, ¬ (s.pcs t).Unrecorded sig := fun sig => by rw [hpc]; exact id
    split at hstep
    · cases hstep
      exact h.finish hbefore
    · cases hstep
      exact h.quiet (.free (planRemediation_vetted answer) trivial (fun _ hholds => hholds) hbefore)
  case h_3 e plan hpc =>
    cases hstep
    exact h.count hpc hrecords
  case h_4 e plan prior outcome hpc =>
    dsimp only at hstep
    split at hstep
    · rename_i hexecutes
      cases hstep
      refine h.execute hpc hexecutes (runRemediation_own hexecutes fun attempt heq => ?_)
      unfold RecordsRuns at hrecords
      rw [hpc, heq] at hrecords
      exact hrecords hexecutes
    · cases hstep
      refine h.quiet (.free trivial (fun hran => by cases hran) (fun _ hholds => ?_) fun sig => ?_)
      · cases hholds.1
      · rw [hpc]
        exact id
  case h_5 e plan attempt ran failures hpc =>
    split at hstep
    · cases hstep
      exact h.finalize hpc id
    · rename_i hsucceeded
      cases failures with
      | none =>
        cases hstep
        refine h.finish fun sig hrun => ?_
        rw [hpc] at hrun
        obtain ⟨rfl, -⟩ := hrun
        unfold RecordsRuns at hrecords
        rw [hpc] at hrecords
        exact hrecords (Decidable.not_not.mp hsucceeded) rfl
      | some failures =>
        cases hstep
        exact h.finalize hpc fun hown => finalizeAttempt_own hown failures
  case h_6 e plan attempt ran stamp raises hpc =>
    unfold RecordsRuns at hrecords
    rw [hpc] at hrecords
    cases ran with
    | true =>
      obtain ⟨rfl, hfree⟩ := hrecords
      cases hstep
      exact h.record hpc hfree
    | false =>
      have hbefore : ∀ sig, ¬ (s.pcs t).Unrecorded sig := fun sig hrun => by
        rw [hpc] at hrun
        cases hrun.1
      split at hstep
      · cases hstep
        exact h.finish hbefore
      · cases hstep
        exact (h.grow (recordedRuns_le_write s.attempts e stamp attempt)).finish hbefore
  case h_7 => cases hstep

/-! ### Runs -/

/-- Before the first activation. -/
def RemediationState.Start (s : RemediationState) : Prop :=
  (∀ t, s.pcs t = .idle) ∧ s.runs = []

theorem RemediationState.Start.inv (h : s.Start) : RemediationInv settings s := by
  obtain ⟨hidle, hnone⟩ := h
  have hempty : ∀ {P : FailureSignature → Prop}, ∀ run ∈ s.runs, P run := fun run hrun => by
    rw [hnone] at hrun
    exact absurd hrun List.not_mem_nil
  have hzero : ∀ sig, executorRuns s sig = 0 := fun sig => by rw [executorRuns, hnone]; rfl
  refine ⟨⟨fun sig => (hzero sig).trans_le (Nat.zero_le _), hempty, hempty, hempty⟩, fun t => ?_,
    fun t => ?_, fun sig t t' hholds => ?_, fun sig _ => (hzero sig).trans_le (Nat.zero_le _),
    fun sig t hrun => ?_, fun t e plan prior hpc => ?_⟩
  · rw [hidle]
    trivial
  · rw [hidle]
    trivial
  · rw [hidle] at hholds
    exact hholds.elim
  · rw [hidle] at hrun
    exact hrun.elim
  · rw [hidle] at hpc
    cases hpc

/-- For any interleaving in which every run is recorded, and only then counted again. -/
theorem recorded_runs_kept (h : Reach (fun s (i : Nat × RemediationInput) =>
      remediationStep settings s i.1 i.2) (fun s i => RecordsRuns settings s i.1 i.2)
      RemediationState.Start s) : RemediationKept settings s := by
  have hinv : RemediationInv settings s := h.invariant (fun _ => RemediationState.Start.inv)
    fun _ _ _ hinv hrecords hstep => RemediationInv.step hinv hrecords hstep
  exact hinv.toRemediationKept

end

/-! ### One failure -/

def oneShot : RemediationSettings where
  hasPlanner := true
  catalogue := [⟨"refetch-from-key-vault", "Fetch the credential from Key Vault again.", false⟩]
  catalogue_nodup := List.nodup_singleton _
  mode := "automatic"
  scope := "safe_only"
  maxAutoRemediationAttempts := 1
  executors := .ofList [("refetch-from-key-vault", "refetch-from-key-vault")]

def nothingFailed : RemediationState := ⟨fun _ => .idle, .empty, []⟩

theorem nothingFailed_start : nothingFailed.Start := ⟨fun _ => rfl, rfl⟩

def refetched : RemediationAttempt where
  remediation := "refetch-from-key-vault"
  status := "succeeded"
  message := "secret cache invalidated; retry will re-fetch secrets"
  executor := "refetch-from-key-vault"
  auto := true

/-- The steps of one activation up to the re-test. -/
def remediationInputs (stamp : String) (failures : Option (List String)) :
    List RemediationInput := [
  .activation "alpha" ["llm"] stamp false,
  .plan (.object (some "refetch-from-key-vault") none) false, .count, .execute (.ok refetched),
  .retest failures]

/-- The states that the recorded runs of the settings reach. -/
def RecordedReach (s : RemediationState) : Prop :=
  Reach (fun s (i : Nat × RemediationInput) => remediationStep oneShot s i.1 i.2)
    (fun s i => RecordsRuns oneShot s i.1 i.2) RemediationState.Start s

theorem RecordedReach.move {s s' : RemediationState} (h : RecordedReach s) (t : Nat)
    (input : RemediationInput) (hrecords : RecordsRuns oneShot s t input)
    (hstep : remediationStep oneShot s t input = .ok s') : RecordedReach s' :=
  Reach.step (t, input) h hrecords hstep

theorem oneShot_kept : ∃ s : RemediationState, s.runs.length = 1 ∧ s.attempts.keys.length = 1 ∧
    RemediationKept oneShot s := by
  have h0 : RecordedReach nothingFailed := .start nothingFailed_start
  have h1 := h0.move 0 (.activation "alpha" ["llm"] "t" false) trivial rfl
  have h2 := h1.move 0 (.plan (.object (some "refetch-from-key-vault") none) false) trivial rfl
  have h3 := h2.move 0 .count ⟨fun t' hne hholds => by
    rw [goto_pcs, if_neg hne, goto_pcs, if_neg hne] at hholds
    exact hholds, fun row hrow => absurd hrow List.not_mem_nil⟩ rfl
  have h4 := h3.move 0 (.execute (.ok refetched)) (fun _ => ⟨rfl, rfl⟩) rfl
  have h5 := h4.move 0 (.retest (some [])) (fun _ hnone => by cases hnone) rfl
  have h6 := h5.move 0 (.record "t" false) ⟨rfl, rfl⟩ rfl
  exact ⟨_, rfl, rfl, recorded_runs_kept h6⟩

/-- The store raises in the re-test, so the run is not recorded and the next activation runs the
executor again. -/
theorem raising_retest_exceeds : ¬ ∀ (settings : RemediationSettings) (s : RemediationState),
    Reach (fun s (i : Nat × RemediationInput) => remediationStep settings s i.1 i.2)
      (fun _ _ => True) RemediationState.Start s → RemediationKept settings s := by
  intro hall
  have hrun : Fallible.check (fun s : RemediationState => decide
      (1 < executorRuns s ⟨"alpha", {"llm"}, "refetch-from-key-vault"⟩))
      (((remediationInputs "a" none).map (Prod.mk 0) ++
        (remediationInputs "b" none).map (Prod.mk 1)).foldlM
          (fun s (i : Nat × RemediationInput) => remediationStep oneShot s i.1 i.2)
            nothingFailed) = true := by
    decide +kernel
  obtain ⟨s, hs, hexceeds⟩ := Fallible.check_eq_true.mp hrun
  have hkept := hall oneShot s (Reach.of_foldlM (.start nothingFailed_start) hs)
  exact absurd (hkept.capped _) (Nat.not_le.mpr (of_decide_eq_true hexceeds))

end TradingAgents.Master
