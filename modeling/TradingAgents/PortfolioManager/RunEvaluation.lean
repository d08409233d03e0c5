import Mathlib
import TradingAgents.PortfolioManager.RiskBounds

/-! The run of an evaluation with its fault boundary.  The boundary stands around the whole batch: a
helper that raises on one recommendation ends the evaluation, and every recommendation of the batch
is rejected. -/

namespace TradingAgents.PortfolioManager

open ProofKit Fallible

/-- What provider answered a run: the market data and the regime, if they came. -/
structure ProviderAnswer where
  market : Option Bool
  regime : Option Bool

/-- What `run_evaluation` is given beside the batch. -/
structure RunEvaluation where
  evaluation : Evaluation
  provider : ProviderAnswer

/-- The outcome of each recommendation. -/
def OrderSet.outcomes (o : OrderSet) : List (OrderIntent ⊕ RejectedOrder) :=
  o.approved.map .inl ++ o.rejected.map .inr

def evaluationFailed : String := "portfolio_evaluation_failed"

/-- Reject every recommendation with one reason. -/
def rejectAll (recommendations : List Recommendation) (reason : String) : OrderSet where
  approved := []
  rejected := recommendations.map fun item => { ticker := item.ticker, reason }

/-- The reason for which unusable provider data rejects a batch. -/
def ProviderAnswer.rejection (p : ProviderAnswer) : Option String :=
  match p.market, p.regime with
  | some usedFallback, some incident =>
    if usedFallback then some "provider_degraded"
    else if incident then some "provider_degraded"
    else none
  | _, _ => some "provider_unavailable"

namespace RunEvaluation

variable (e : RunEvaluation)

/-- Size and risk-check a batch. -/
def run (recommendations : List Recommendation) : OrderSet :=
  if recommendations = [] then rejectAll recommendations "no_recommendations"
  else
    match e.provider.rejection with
    | some reason => rejectAll recommendations reason
    | none =>
      match e.evaluation.evaluateRecommendations recommendations with
      | .error _ => rejectAll recommendations evaluationFailed
      | .ok orders => orders

/-! ### A recommendation that raises -/

/-- The first recommendation of an evaluated batch on which a helper raises. -/
def Raising (recommendations : List Recommendation) (item : Recommendation) : Prop :=
  e.provider.rejection = none ∧
  ∃ done rest b, Evaluation.ordered recommendations = done ++ item :: rest ∧
    done.foldlM e.evaluation.evaluateOne e.evaluation.initBatch = .ok b ∧
    ∃ error, e.evaluation.evaluateOne b item = .error error

/-- Each recommendation but the one that raises has the outcome that it has without that one. -/
def FailureIsolated (recommendations : List Recommendation) : Prop :=
  ∀ item, e.Raising recommendations item → ∃ outcome,
    (e.run recommendations).outcomes.Perm
      (outcome :: (e.run (recommendations.erase item)).outcomes)

end RunEvaluation

/-- A rejection for which the batch is not to blame. -/
def OwnReason (r : RejectedOrder) : Prop := r.reason ≠ evaluationFailed

theorem positionRejection_own {ticker : String} {outcomes : List GateOutcome} {r : RejectedOrder}
    (h : positionRejection ticker outcomes = some r) : OwnReason r := by
  obtain ⟨outcome, -, houtcome⟩ := List.exists_of_findSome?_eq_some h
  split at houtcome
  · rename_i reason hreason
    split at houtcome
    · cases houtcome
      have hall : ∀ p ∈ [(gateSizing, "sizing"), (gateMinOrderQuantity, "below_min_quantity"),
          (gateMaxPositions, "max_positions"), (gateCashAvailable, "insufficient_cash")],
          p.2 ≠ evaluationFailed := by decide
      exact hall _ (Dict.mem_of_get?_ofList hreason)
    · cases houtcome
  · cases houtcome

theorem rewardRiskRejection_own {ticker : String} {report : StopTarget} {prior : List GateOutcome}
    {r : RejectedOrder} (h : rewardRiskRejection ticker report prior = some r) : OwnReason r := by
  unfold rewardRiskRejection at h
  dsimp only at h
  have hloss : "invalid_stop_loss" ≠ evaluationFailed := by decide
  have hratio : "reward_risk_below_min" ≠ evaluationFailed := by decide
  split at h
  · cases h
    exact hloss
  · split at h
    · cases h
      exact hratio
    · cases h

theorem sectorReason_own {outcome : GateOutcome} {reason : String}
    (h : sectorReason outcome = some reason) : reason ≠ evaluationFailed := by
  unfold sectorReason at h
  rintro rfl
  split at h
  · split at h
    · cases h
    · split at h
      · exact absurd (Option.some.inj h) (by decide)
      · exact absurd (Option.some.inj h) (by decide)
  · split at h
    · exact absurd (Option.some.inj h) (by decide)
    · split at h
      · exact absurd (Option.some.inj h) (by decide)
      · split at h
        · exact absurd (Option.some.inj h) (by decide)
        · cases h
  · cases h

theorem sectorRejection_own {ticker : String} {outcomes prior : List GateOutcome}
    {r : RejectedOrder} (h : sectorRejection ticker outcomes prior = some r) : OwnReason r := by
  obtain ⟨reason, hreason, rfl⟩ := Option.map_eq_some_iff.mp h
  obtain ⟨outcome, -, houtcome⟩ := List.exists_of_findSome?_eq_some hreason
  exact sectorReason_own houtcome

namespace Evaluation

variable {e : Evaluation} {item : Recommendation} {b b' : Batch}

theorem precheck_own {price : Option Money} {r : RejectedOrder}
    (h : e.precheck item price = some r) : OwnReason r := by
  have hhold : "hold_recommendation" ≠ evaluationFailed := by decide
  have hposition : "position_unavailable" ≠ evaluationFailed := by decide
  have haccount : "account_unavailable" ≠ evaluationFailed := by decide
  have hprice : "price_unavailable" ≠ evaluationFailed := by decide
  unfold precheck at h
  split at h
  · cases h
    exact hhold
  split at h
  · cases h
    exact hposition
  split at h
  · cases h
    exact haccount
  split at h
  · cases h
    exact hprice
  split at h
  · cases h
    exact hprice
  · cases h

theorem decideExit_own {price : Money} {book : SectorBook} {r : RejectedOrder}
    (h : e.decideExit item price book = .ok (.inr r)) : OwnReason r := by
  unfold decideExit at h
  split at h
  · cases h
  dsimp only at h
  split at h
  · rename_i hgates
    cases h
    exact positionRejection_own hgates
  · obtain ⟨_, -, hpure⟩ := bind_eq_ok.mp h
    cases hpure

theorem decideEntry_own {price : Money} {book : SectorBook} {reserved : ℚ}
    {openIssuers : Finset String} {r : RejectedOrder}
    (h : e.decideEntry item price book reserved openIssuers = .ok (.inr r)) : OwnReason r := by
  unfold decideEntry at h
  obtain ⟨quantity, -, h⟩ := bind_eq_ok.mp h
  dsimp only at h
  split at h
  · rename_i hgates
    cases h
    exact positionRejection_own hgates
  split at h
  · rename_i hratio
    cases h
    exact rewardRiskRejection_own hratio
  split at h
  · rename_i hsector
    cases h
    exact sectorRejection_own hsector
  split at h
  · cases h
  split at h
  · rename_i hcluster
    cases h
    exact sectorRejection_own hcluster
  · obtain ⟨_, -, hpure⟩ := bind_eq_ok.mp h
    cases hpure

theorem Batch.reject_own {r : RejectedOrder} (h : ∀ r ∈ b.rejected, OwnReason r)
    (hr : OwnReason r) : ∀ r' ∈ (b.reject r).rejected, OwnReason r' := by
  intro r' hr'
  rcases List.mem_append.mp hr' with hin | hlast
  · exact h r' hin
  · exact List.mem_singleton.mp hlast ▸ hr

/-- One pass names a reason of its own. -/
theorem evaluateOne_own (h : ∀ r ∈ b.rejected, OwnReason r)
    (hok : e.evaluateOne b item = .ok b') : ∀ r ∈ b'.rejected, OwnReason r := by
  unfold evaluateOne at hok
  split at hok
  · rename_i hcheck
    cases hok
    exact Batch.reject_own h (precheck_own hcheck)
  split at hok
  · cases hok
  split at hok
  · obtain ⟨decision, hdecision, hpure⟩ := bind_eq_ok.mp hok
    cases decision with
    | inr r =>
      cases hpure
      exact Batch.reject_own h (decideExit_own hdecision)
    | inl order =>
      cases hpure
      exact h
  · obtain ⟨decision, hdecision, hpure⟩ := bind_eq_ok.mp hok
    cases decision with
    | inr r =>
      cases hpure
      exact Batch.reject_own h (decideEntry_own hdecision)
    | inl order =>
      cases hpure
      exact h

end Evaluation

namespace RunEvaluation

variable {e : RunEvaluation} {recommendations : List Recommendation} {item : Recommendation}
  {b b' : Evaluation.Batch} {orders : OrderSet}

/-- A batch is evaluated, or a helper raises on one of its recommendations. -/
theorem evaluateRecommendations_cases (e : RunEvaluation) (hprovider : e.provider.rejection = none)
    (recommendations : List Recommendation) :
    (∃ orders, e.evaluation.evaluateRecommendations recommendations = .ok orders) ∨
      ∃ item, e.Raising recommendations item := by
  rcases e.evaluation.evaluation_ends recommendations with
    ⟨b, hb⟩ | ⟨done, item, rest, b, error, hsplit, hdone, herror, -⟩
  · exact .inl ⟨_, by rw [Evaluation.evaluateRecommendations, hb]; rfl⟩
  · exact .inr ⟨item, hprovider, done, rest, b, hsplit, hdone, error, herror⟩

theorem Raising.evaluateRecommendations (h : e.Raising recommendations item) :
    ∃ error, e.evaluation.evaluateRecommendations recommendations = .error error := by
  obtain ⟨-, done, rest, b, hsplit, hdone, error, herror⟩ := h
  refine ⟨error, ?_⟩
  rw [Evaluation.evaluateRecommendations, hsplit, List.foldlM_append, hdone, ok_bind,
    List.foldlM_cons, herror]
  rfl

theorem Raising.mem (h : e.Raising recommendations item) : item ∈ recommendations := by
  obtain ⟨-, done, rest, b, hsplit, -⟩ := h
  have hperm : (Evaluation.ordered recommendations).Perm recommendations :=
    List.perm_insertionSort _ _
  refine hperm.subset ?_
  rw [hsplit]
  exact List.mem_append_right _ List.mem_cons_self

/-- The fault boundary: one recommendation that raises takes the whole batch with it. -/
theorem Raising.run (h : e.Raising recommendations item) :
    e.run recommendations = rejectAll recommendations evaluationFailed := by
  obtain ⟨error, herror⟩ := h.evaluateRecommendations
  rw [RunEvaluation.run, if_neg (List.ne_nil_of_mem h.mem), h.1]
  dsimp only
  rw [herror]

theorem evaluateRecommendations_own
    (h : e.evaluation.evaluateRecommendations recommendations = .ok orders) :
    ∀ r ∈ orders.rejected, OwnReason r := by
  obtain ⟨b, hb, hpure⟩ := bind_eq_ok.mp h
  cases hpure
  exact foldlM_induction (P := fun _ b => ∀ r ∈ b.rejected, OwnReason r) hb
    (fun r hr => absurd hr List.not_mem_nil)
    fun _ _ _ _ _ _ hown hok => Evaluation.evaluateOne_own hown hok

theorem rejectAll_outcomes (recommendations : List Recommendation) (reason : String) :
    (rejectAll recommendations reason).outcomes =
      recommendations.map fun item => .inr { ticker := item.ticker, reason } := by
  simp [OrderSet.outcomes, rejectAll, List.map_map, Function.comp_def]

/-- An evaluated batch of which nothing failed shares no outcome with one that was rejected whole.
-/
theorem outcome_not_failed
    (hok : e.evaluation.evaluateRecommendations recommendations = .ok orders)
    {outcome : OrderIntent ⊕ RejectedOrder} (hmem : outcome ∈ orders.outcomes)
    (others : List Recommendation) : outcome ∉ (rejectAll others evaluationFailed).outcomes := by
  rw [rejectAll_outcomes]
  intro hfailed
  obtain ⟨item, -, rfl⟩ := List.mem_map.mp hfailed
  rcases List.mem_append.mp hmem with happroved | hrejected
  · obtain ⟨_, -, heq⟩ := List.mem_map.mp happroved
    cases heq
  · obtain ⟨r, hr, heq⟩ := List.mem_map.mp hrejected
    cases heq
    exact evaluateRecommendations_own hok _ hr rfl

/-- A failure is isolated only where there is nothing to isolate it from: the batch holds no other
recommendation, or the others fail too. -/
theorem failureIsolated_iff (e : RunEvaluation) (recommendations : List Recommendation) :
    e.FailureIsolated recommendations ↔ ∀ item, e.Raising recommendations item →
      recommendations.erase item = [] ∨ ∃ other, e.Raising (recommendations.erase item) other := by
  refine forall_congr' fun item => imp_congr_right fun hraising => ?_
  have hperm := List.perm_cons_erase hraising.mem
  rw [hraising.run, rejectAll_outcomes]
  constructor
  · rintro ⟨outcome, houtcomes⟩
    by_contra hnot
    obtain ⟨hne, hothers⟩ := not_or.mp hnot
    rcases e.evaluateRecommendations_cases hraising.1 (recommendations.erase item) with
      ⟨orders, horders⟩ | hraises
    · have hrun : e.run (recommendations.erase item) = orders := by
        rw [RunEvaluation.run, if_neg hne, hraising.1]
        dsimp only
        rw [horders]
      rw [hrun] at houtcomes
      have hlength : (recommendations.erase item).length = orders.outcomes.length := by
        have hall := houtcomes.length_eq
        rw [List.length_map, hperm.length_eq] at hall
        exact Nat.succ.inj hall
      obtain ⟨first, hfirst⟩ := List.exists_mem_of_length_pos
        (hlength ▸ List.length_pos_of_ne_nil hne)
      refine outcome_not_failed horders hfirst recommendations ?_
      rw [rejectAll_outcomes]
      exact houtcomes.symm.subset (List.mem_cons_of_mem _ hfirst)
    · exact hothers hraises
  · intro halone
    refine ⟨.inr { ticker := item.ticker, reason := evaluationFailed }, ?_⟩
    have hrest : (e.run (recommendations.erase item)).outcomes =
        (recommendations.erase item).map fun item =>
          .inr { ticker := item.ticker, reason := evaluationFailed } := by
      rcases halone with hnil | ⟨other, hother⟩
      · rw [hnil, RunEvaluation.run, if_pos rfl, rejectAll_outcomes]
        rfl
      · rw [hother.run, rejectAll_outcomes]
    rw [hrest]
    exact hperm.map _

/-! ### An exit beside an entry that raises -/

theorem certain_nonneg : (0 : ℚ) ≤ 1 := zero_le_one

theorem certain_le_one : (1 : ℚ) ≤ 1 := le_rfl

def sellOld : Recommendation :=
  { ticker := "OLD", action := .sell, confidence := ⟨1, certain_nonneg, certain_le_one⟩ }

theorem ten_nonneg : (0 : ℚ) ≤ 10 := by norm_num

/-- A price so small that the whole share count has more digits than a decimal quotient. -/
def tinyPrice : RunEvaluation where
  evaluation := { Evaluation.evaluationOf (Evaluation.accountOf "OLD" 10 ten_nonneg) with
    prices := .ofList [("OLD", ⟨10, "USD"⟩), ("ACME", ⟨1 / 10 ^ 30, "USD"⟩)] }
  provider := ⟨some false, some false⟩

theorem tinyPrice_raising :
    tinyPrice.Raising [sellOld, Evaluation.buyAcme] Evaluation.buyAcme := by
  have hraises : check
      (fun b => !(tinyPrice.evaluation.evaluateOne b Evaluation.buyAcme).isOk)
      ([sellOld].foldlM tinyPrice.evaluation.evaluateOne tinyPrice.evaluation.initBatch) =
        true := by
    decide +kernel
  obtain ⟨b, hb, herror⟩ := check_eq_true.mp hraises
  refine ⟨rfl, [sellOld], [], b, by decide +kernel, hb, ?_⟩
  cases hone : tinyPrice.evaluation.evaluateOne b Evaluation.buyAcme with
  | ok b' =>
    rw [hone] at herror
    cases herror
  | error error => exact ⟨error, rfl⟩

/-- The entry that raises takes the exit with it. -/
theorem exit_lost : ¬ ∀ (e : RunEvaluation) (recommendations : List Recommendation),
    e.FailureIsolated recommendations := by
  intro hall
  obtain ⟨outcome, houtcomes⟩ := hall tinyPrice _ _ tinyPrice_raising
  have hwithout : ∃ order, .inl order ∈
      (tinyPrice.run ([sellOld, Evaluation.buyAcme].erase Evaluation.buyAcme)).outcomes := by
    have hrun : (tinyPrice.run
        ([sellOld, Evaluation.buyAcme].erase Evaluation.buyAcme)).approved.length = 1 := by
      decide +kernel
    obtain ⟨order, horder⟩ := List.length_eq_one_iff.mp hrun
    refine ⟨order, List.mem_append_left _ (List.mem_map_of_mem ?_)⟩
    rw [horder]
    exact List.mem_singleton_self order
  obtain ⟨order, horder⟩ := hwithout
  have hwith := houtcomes.symm.subset (List.mem_cons_of_mem outcome horder)
  rw [tinyPrice_raising.run, rejectAll_outcomes] at hwith
  obtain ⟨_, -, heq⟩ := List.mem_map.mp hwith
  cases heq

end RunEvaluation

end TradingAgents.PortfolioManager
