import TradingAgents.Analyst.Pillars

/-! The stop and target proposed with a buy, flat or scaled by volatility, and the evidence kept of
it: what was applied, and what the other mode would have applied. -/

namespace TradingAgents.Analyst

open ProofKit

/-- The market regime, with the fields that the analyst reads. -/
structure RegimeContext where
  label : String
  baseMinConfidence : ℚ
  baseStopLossPct : ℚ
  baseTakeProfitPct : ℚ
  incidentRefs : List String := []
  confidence_bounds : 0 ≤ baseMinConfidence ∧ baseMinConfidence ≤ 1 := by norm_num
  stop_bounds : 0 ≤ baseStopLossPct ∧ baseStopLossPct ≤ 1 := by norm_num
  target_bounds : 0 ≤ baseTakeProfitPct ∧ baseTakeProfitPct ≤ 1 := by norm_num

def StopTargetMode.other : StopTargetMode → StopTargetMode
  | flat => scaled
  | scaled => flat

def favorableExcursionPct : String := "favorable_excursion_pct"

def favorableExcursionHorizonDays : String := "favorable_excursion_horizon_days"

def favorableExcursionSampleCount : String := "favorable_excursion_sample_count"

def favorableExcursionLookbackWindows : String := "favorable_excursion_lookback_windows"

/-- What the evidence of a proposal shows. -/
structure StopTargetShown where
  mode : StopTargetMode
  counterfactualMode : StopTargetMode
  atrPct : Option ℚ
  volatilityPresent : Bool
  volatilityFallback : Bool
  appliedStopPct : ℚ
  appliedTargetPct : ℚ
  counterfactualStopPct : ℚ
  counterfactualTargetPct : ℚ
  flatStopPct : ℚ
  flatTargetPct : ℚ
  scaledStopPct : ℚ
  scaledTargetPct : ℚ
  favorableExcursionPct : Option ℚ
  favorableExcursionHorizonDays : Option ℤ
  favorableExcursionSampleCount : Option ℤ
  favorableExcursionLookbackWindows : Option ℤ
deriving DecidableEq

/-- The bounds that the contract puts on it. -/
structure StopTargetShown.Valid (e : StopTargetShown) : Prop where
  levels : ∀ x ∈ [e.appliedStopPct, e.appliedTargetPct, e.counterfactualStopPct,
    e.counterfactualTargetPct, e.flatStopPct, e.flatTargetPct, e.scaledStopPct, e.scaledTargetPct],
    0 ≤ x ∧ x ≤ 1
  atr : ∀ x ∈ e.atrPct, 0 ≤ x
  excursion : ∀ x ∈ e.favorableExcursionPct, 0 ≤ x ∧ x ≤ 1
  horizon : ∀ n ∈ e.favorableExcursionHorizonDays, 1 ≤ n
  samples : ∀ n ∈ e.favorableExcursionSampleCount, 0 ≤ n
  lookback : ∀ n ∈ e.favorableExcursionLookbackWindows, 1 ≤ n

theorem StopTargetShown.valid_iff {e : StopTargetShown} : e.Valid ↔
    (∀ x ∈ [e.appliedStopPct, e.appliedTargetPct, e.counterfactualStopPct,
      e.counterfactualTargetPct, e.flatStopPct, e.flatTargetPct, e.scaledStopPct,
      e.scaledTargetPct], 0 ≤ x ∧ x ≤ 1) ∧
    (∀ x ∈ e.atrPct, 0 ≤ x) ∧ (∀ x ∈ e.favorableExcursionPct, 0 ≤ x ∧ x ≤ 1) ∧
    (∀ n ∈ e.favorableExcursionHorizonDays, 1 ≤ n) ∧
    (∀ n ∈ e.favorableExcursionSampleCount, 0 ≤ n) ∧
    ∀ n ∈ e.favorableExcursionLookbackWindows, 1 ≤ n :=
  ⟨fun ⟨a, b, c, d, f, g⟩ => ⟨a, b, c, d, f, g⟩, fun ⟨a, b, c, d, f, g⟩ => ⟨a, b, c, d, f, g⟩⟩

instance (e : StopTargetShown) : Decidable e.Valid :=
  have : ∀ (o : Option ℚ) (p : ℚ → Prop) [DecidablePred p], Decidable (∀ x ∈ o, p x) :=
    fun o p _ => decidable_of_iff (∀ x ∈ o.toList, p x) (by simp)
  have : ∀ (o : Option ℤ) (p : ℤ → Prop) [DecidablePred p], Decidable (∀ x ∈ o, p x) :=
    fun o p _ => decidable_of_iff (∀ x ∈ o.toList, p x) (by simp)
  decidable_of_iff _ StopTargetShown.valid_iff.symm

/-- The evidence of a proposal that the contract admits. -/
abbrev StopTargetEvidence := { e : StopTargetShown // e.Valid }

/-- A proposal is what its evidence says was applied. -/
structure StopTargetProposal where
  stopPct : ℚ
  targetPct : ℚ
  evidence : StopTargetEvidence
  stop_applied : stopPct = evidence.1.appliedStopPct
  target_applied : targetPct = evidence.1.appliedTargetPct
deriving DecidableEq

/-! ### The two modes -/

def usableAtrPct (metrics : Dict String ℚ) : Option ℚ :=
  (metrics.get? "atr_pct").filter fun value => decide (0 < value)

def scaledStop (flatStop : ℚ) (atrPct : Option ℚ) (settings : AnalystSettings) : ℚ :=
  match atrPct with
  | none => flatStop
  | some atr =>
    let raw := atr / 100 * settings.scaledStopAtrMultiplier
    min (max raw settings.scaledStopFloorPct) settings.scaledStopCeilingPct

def scaledTarget (flatStop flatTarget scaledStop : ℚ) : ℚ :=
  if flatStop ≤ 0 then flatTarget else min (flatTarget * (scaledStop / flatStop)) 1

/-- The measured upside, none when nothing usable was sampled. -/
def measuredTarget (metrics : Dict String ℚ) : Option ℚ :=
  match metrics.get? favorableExcursionSampleCount with
  | none => none
  | some sampleCount =>
    if sampleCount ≤ 0 then none
    else match metrics.get? favorableExcursionPct with
      | none => none
      | some value => if value < 0 then none else some (min value 1)

/-- The flat and the scaled target; a measured one serves both modes. -/
def targets (regime : RegimeContext) (metrics : Dict String ℚ) (scaledStop : ℚ) : Option (ℚ × ℚ) :=
  if (metrics.get? favorableExcursionSampleCount).isNone then
    some (regime.baseTakeProfitPct,
      scaledTarget regime.baseStopLossPct regime.baseTakeProfitPct scaledStop)
  else (measuredTarget metrics).map fun target => (target, target)

/-- `int` of a metric: towards zero. -/
def optionalIntMetric (metrics : Dict String ℚ) (name : String) : Option ℤ :=
  (metrics.get? name).map fun value => value.num.tdiv value.den

/-- What a proposal shows in a mode. -/
def shownIn (mode : StopTargetMode) (flatStop flatTarget scaledStop scaledTarget : ℚ)
    (metrics : Dict String ℚ) : StopTargetShown where
  mode := mode
  counterfactualMode := mode.other
  atrPct := usableAtrPct metrics
  volatilityPresent := (usableAtrPct metrics).isSome
  volatilityFallback := (usableAtrPct metrics).isNone
  appliedStopPct := if mode = .flat then flatStop else scaledStop
  appliedTargetPct := if mode = .flat then flatTarget else scaledTarget
  counterfactualStopPct := if mode = .flat then scaledStop else flatStop
  counterfactualTargetPct := if mode = .flat then scaledTarget else flatTarget
  flatStopPct := flatStop
  flatTargetPct := flatTarget
  scaledStopPct := scaledStop
  scaledTargetPct := scaledTarget
  favorableExcursionPct := metrics.get? favorableExcursionPct
  favorableExcursionHorizonDays := optionalIntMetric metrics favorableExcursionHorizonDays
  favorableExcursionSampleCount := optionalIntMetric metrics favorableExcursionSampleCount
  favorableExcursionLookbackWindows := optionalIntMetric metrics favorableExcursionLookbackWindows

/-- The proposal that is shown, if the contract admits it. -/
def StopTargetShown.propose (shown : StopTargetShown) :
    Except HandlerError (Option StopTargetProposal) :=
  if h : shown.Valid then
    .ok (some ⟨shown.appliedStopPct, shown.appliedTargetPct, ⟨shown, h⟩, rfl, rfl⟩)
  else .error (.validation "StopTargetEvidence")

/-- Resolve the proposal of a buy for the configured mode, none without a target. -/
def resolveStopTarget (regime : RegimeContext) (metrics : Dict String ℚ)
    (settings : AnalystSettings) : Except HandlerError (Option StopTargetProposal) :=
  let flatStop := regime.baseStopLossPct
  let scaledStop := scaledStop flatStop (usableAtrPct metrics) settings
  match targets regime metrics scaledStop with
  | none => .ok none
  | some (flatTarget, scaledTarget) =>
    (shownIn settings.stopTargetMode flatStop flatTarget scaledStop scaledTarget metrics).propose

/-! ### The levels -/

section

variable {regime : RegimeContext} {metrics : Dict String ℚ} {settings : AnalystSettings}
  {flatTarget' scaledTarget' stop : ℚ} {proposal : StopTargetProposal}

/-- What was sampled is reported within the contract. -/
structure Reported (metrics : Dict String ℚ) : Prop where
  excursion : ∀ x ∈ metrics.get? favorableExcursionPct, 0 ≤ x ∧ x ≤ 1
  horizon : ∀ n ∈ optionalIntMetric metrics favorableExcursionHorizonDays, 1 ≤ n
  samples : ∀ n ∈ optionalIntMetric metrics favorableExcursionSampleCount, 0 ≤ n
  lookback : ∀ n ∈ optionalIntMetric metrics favorableExcursionLookbackWindows, 1 ≤ n

/-! ### The challenger -/

/-- The settings with the other mode. -/
def AnalystSettings.challenger (settings : AnalystSettings) : AnalystSettings :=
  { settings with stopTargetMode := settings.stopTargetMode.other }

/-- What is shown when the modes change places. -/
def StopTargetShown.exchanged (e : StopTargetShown) : StopTargetShown :=
  { e with
    mode := e.counterfactualMode
    counterfactualMode := e.mode
    appliedStopPct := e.counterfactualStopPct
    appliedTargetPct := e.counterfactualTargetPct
    counterfactualStopPct := e.appliedStopPct
    counterfactualTargetPct := e.appliedTargetPct }

theorem StopTargetShown.Valid.exchanged {e : StopTargetShown} (h : e.Valid) :
    e.exchanged.Valid := by
  refine ⟨fun x hx => h.levels x ?_, h.atr, h.excursion, h.horizon, h.samples, h.lookback⟩
  simp only [StopTargetShown.exchanged, List.mem_cons, List.not_mem_nil, or_false] at hx ⊢
  tauto

/-- The proposal that its evidence says the other mode would have made. -/
def StopTargetProposal.exchanged (proposal : StopTargetProposal) : StopTargetProposal where
  stopPct := proposal.evidence.1.counterfactualStopPct
  targetPct := proposal.evidence.1.counterfactualTargetPct
  evidence := ⟨proposal.evidence.1.exchanged, proposal.evidence.2.exchanged⟩
  stop_applied := rfl
  target_applied := rfl

theorem exchanged_shownIn (mode : StopTargetMode) (a b c d : ℚ) (metrics : Dict String ℚ) :
    (shownIn mode a b c d metrics).exchanged = shownIn mode.other a b c d metrics := by
  cases mode <;> rfl

theorem StopTargetProposal.unit (proposal : StopTargetProposal) :
    (0 ≤ proposal.stopPct ∧ proposal.stopPct ≤ 1) ∧
      0 ≤ proposal.targetPct ∧ proposal.targetPct ≤ 1 := by
  have hlevels := proposal.evidence.2.levels
  rw [proposal.stop_applied, proposal.target_applied]
  exact ⟨hlevels _ (by simp), hlevels _ (by simp)⟩

theorem propose_exchanged (e : StopTargetShown) :
    e.exchanged.propose = e.propose.map (Option.map StopTargetProposal.exchanged) := by
  unfold StopTargetShown.propose
  by_cases hvalid : e.Valid
  · rw [dif_pos hvalid, dif_pos hvalid.exchanged]
    rfl
  · have hback : e.exchanged.Valid → e.Valid := fun h => h.exchanged
    rw [dif_neg hvalid, dif_neg (mt hback hvalid)]
    rfl

/-- The counterfactual of a proposal is what the other mode proposes. -/
theorem resolveStopTarget_challenger : resolveStopTarget regime metrics settings.challenger =
    (resolveStopTarget regime metrics settings).map
      (Option.map StopTargetProposal.exchanged) := by
  unfold resolveStopTarget
  dsimp only
  show (match targets regime metrics
      (scaledStop regime.baseStopLossPct (usableAtrPct metrics) settings) with
    | none => _
    | some (flatTarget, scaledTarget) => _) = _
  cases targets regime metrics
      (scaledStop regime.baseStopLossPct (usableAtrPct metrics) settings) with
  | none => rfl
  | some pair =>
    dsimp only
    rw [← propose_exchanged, exchanged_shownIn]
    rfl

end

end TradingAgents.Analyst
