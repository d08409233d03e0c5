import Mathlib
import TradingAgents.ProofKit.Dict
import TradingAgents.ProofKit.NearGreedy
import TradingAgents.ProofKit.StableSort

/-! The signals that a rationale shows.  They are taken from a ranking by weighted distance from
neutral, one by one, and a signal of a pillar that is not shown yet goes before a stronger one while
it stays within a slack of it.  The slack is what the diversity costs, and no more. -/

namespace TradingAgents.Analyst

open ProofKit

/-- The midpoint of every sub-score. -/
def neutral : ℚ := 50

structure Signal where
  name : String
  pillar : String
  score : ℚ
deriving DecidableEq, Repr

def technicalSignals (metrics : Dict String ℚ) : List Signal :=
  (metrics.entries.filter fun entry => "_score".toList.isSuffixOf entry.1.toList).map fun entry =>
    ⟨String.ofList (entry.1.toList.take (entry.1.toList.length - "_score".toList.length)),
      "technical", entry.2⟩

def fundamentalSignals (metrics : Dict String ℚ) : List Signal :=
  (metrics.entries.filter fun entry => !"_available".toList.isSuffixOf entry.1.toList).map
    fun entry => ⟨entry.1, "fundamental", entry.2⟩

/-- The weighted distance from neutral; an unweighted pillar contributes nothing. -/
def contribution (weights : Dict String ℚ) (signal : Signal) : ℚ :=
  |signal.score - neutral| * (weights.get? signal.pillar).getD 0

def rankKey (weights : Dict String ℚ) (signal : Signal) : ℚ ×ₗ ℚ :=
  toLex (contribution weights signal, |signal.score - neutral|)

def ranked (weights : Dict String ℚ) (signals : List Signal) : List Signal :=
  signals.insertionSort fun a b => rankKey weights b ≤ rankKey weights a

/-- The first signal of an unused pillar within the slack of the best, else the best. -/
def pickOf (weights : Dict String ℚ) (slack : ℚ) (usedPillars : List String) (best : Signal)
    (remaining : List Signal) : Signal :=
  (remaining.find? fun signal => decide (signal.pillar ∉ usedPillars) &&
    decide (contribution weights best ≤ contribution weights signal + slack)).getD best

/-- The loop of the selection, with room for `room` more signals. -/
def selectFrom (weights : Dict String ℚ) (slack : ℚ) :
    (room : Nat) → (remaining : List Signal) → (usedPillars : List String) → List Signal
  | 0, _, _ => []
  | _ + 1, [], _ => []
  | room + 1, best :: rest, usedPillars =>
    let pick := pickOf weights slack usedPillars best (best :: rest)
    pick :: selectFrom weights slack room ((best :: rest).erase pick) (pick.pillar :: usedPillars)

def selectTopSignals (signals : List Signal) (weights : Dict String ℚ) (slack : ℚ)
    (maxSignals : Int) : List Signal :=
  selectFrom weights slack maxSignals.toNat (ranked weights signals) []

section

variable {weights : Dict String ℚ} {slack : ℚ} {room : Nat} {signals remaining rest : List Signal}
  {used : List String} {best s : Signal}

/-- The signals stand in the order of their contributions. -/
def Descending (weights : Dict String ℚ) (remaining : List Signal) : Prop :=
  remaining.Pairwise fun a b => contribution weights b ≤ contribution weights a

theorem ranked_perm : (ranked weights signals).Perm signals := List.perm_insertionSort _ _

theorem ranked_descending : Descending weights (ranked weights signals) := by
  have hsorted := pairwise_insertionSort (fun signal => OrderDual.toDual (rankKey weights signal))
    signals
  refine hsorted.imp fun {a b} (h : rankKey weights b ≤ rankKey weights a) => ?_
  rcases Prod.Lex.toLex_le_toLex.mp h with hlt | heq
  · exact hlt.le
  · exact heq.1.le

theorem Descending.erase (h : Descending weights remaining) :
    Descending weights (remaining.erase s) :=
  h.sublist List.erase_sublist

/-! ### One pick -/

theorem pickOf_mem : pickOf weights slack used best (best :: rest) ∈ best :: rest := by
  unfold pickOf
  cases hfind : (best :: rest).find? _ with
  | none => exact List.mem_cons_self
  | some signal => exact List.mem_of_find?_eq_some hfind

/-- What is picked is within the slack of everything that remains. -/
theorem le_pickOf (hslack : 0 ≤ slack) (hdesc : Descending weights (best :: rest))
    (hs : s ∈ best :: rest) : contribution weights s ≤
      contribution weights (pickOf weights slack used best (best :: rest)) + slack := by
  have hbest : contribution weights s ≤ contribution weights best := by
    rcases List.mem_cons.mp hs with rfl | hs
    · exact le_rfl
    · exact List.rel_of_pairwise_cons hdesc hs
  unfold pickOf
  cases hfind : (best :: rest).find? _ with
  | none =>
    show contribution weights s ≤ contribution weights best + slack
    linarith
  | some signal =>
    have hnear := List.find?_some hfind
    simp only [Bool.and_eq_true, decide_eq_true_eq] at hnear
    exact hbest.trans hnear.2

/-- A pick of a pillar that is shown already means that no other pillar comes near. -/
theorem far_of_pickOf (hpick : (pickOf weights slack used best (best :: rest)).pillar ∈ used)
    (hs : s ∈ best :: rest) (hfresh : s.pillar ∉ used) : contribution weights s + slack <
      contribution weights (pickOf weights slack used best (best :: rest)) := by
  revert hpick
  unfold pickOf
  cases hfind : (best :: rest).find? _ with
  | none =>
    intro _
    have hfar := List.find?_eq_none.mp hfind s hs
    simp only [Bool.and_eq_true, decide_eq_true_eq, not_and, not_le] at hfar
    exact hfar hfresh
  | some signal =>
    intro hpick
    have hnear := List.find?_some hfind
    simp only [Bool.and_eq_true, decide_eq_true_eq] at hnear
    exact absurd hpick hnear.1

/-! ### The selection -/

theorem length_selectFrom :
    (selectFrom weights slack room remaining used).length = min room remaining.length := by
  induction room generalizing remaining used with
  | zero =>
    show 0 = _
    omega
  | succ room ih =>
    cases remaining with
    | nil => simp [selectFrom]
    | cons best rest =>
      rw [selectFrom, List.length_cons, ih, List.length_erase_of_mem pickOf_mem, List.length_cons]
      omega

theorem selectFrom_picks (hslack : 0 ≤ slack) (hdesc : Descending weights remaining) :
    NearGreedy.Picks (contribution weights) slack remaining
      (selectFrom weights slack room remaining used) := by
  induction room generalizing remaining used with
  | zero => exact .stop _
  | succ room ih =>
    cases remaining with
    | nil => exact .stop _
    | cons best rest =>
      apply NearGreedy.Picks.take
      · exact List.perm_cons_erase pickOf_mem
      · exact fun b hb => le_pickOf hslack hdesc hb
      · exact ih hdesc.erase

/-- A signal of a shown pillar is picked only where every signal of the others falls short of it by
more than the slack. -/
theorem selectFrom_diverse {before after : List Signal} {pick : Signal}
    (h : selectFrom weights slack room remaining used = before ++ pick :: after)
    (hpick : pick.pillar ∈ used ++ before.map Signal.pillar) (hs : s ∈ remaining)
    (hfresh : s.pillar ∉ used ++ before.map Signal.pillar) :
    contribution weights s + slack < contribution weights pick := by
  induction room generalizing remaining used before with
  | zero => simp [selectFrom] at h
  | succ room ih =>
    cases remaining with
    | nil => cases hs
    | cons best rest =>
      rw [selectFrom] at h
      cases before with
      | nil =>
        rw [List.nil_append, List.cons_eq_cons] at h
        simp only [List.map_nil, List.append_nil] at hpick hfresh
        rw [← h.1] at hpick ⊢
        exact far_of_pickOf hpick hs hfresh
      | cons first before =>
        rw [List.cons_append, List.cons_eq_cons] at h
        obtain ⟨hfirst, hrest⟩ := h
        have hsame : ∀ p : String, p ∈ used ++ (first :: before).map Signal.pillar ↔
            p ∈ (first.pillar :: used) ++ before.map Signal.pillar := by
          intro p
          simp only [List.map_cons, List.mem_append, List.mem_cons]
          tauto
        rw [hsame] at hpick hfresh
        rw [hfirst] at hrest
        refine ih hrest hpick ?_ hfresh
        -- what was taken has its pillar shown, so `s` is still there
        have hother : s ≠ first := by
          rintro rfl
          exact hfresh (List.mem_append_left _ List.mem_cons_self)
        exact (List.mem_erase_of_ne hother).mpr hs

/-- The shown signals are some of the given ones, as many as there is room for.  No other choice of
as many contributes more than the slack for each of them above; and a pillar is shown again before
another is shown only if the signals of the other fall short by more than the slack. -/
theorem selectTopSignals_near (signals : List Signal) (weights : Dict String ℚ) (maxSignals : Int)
    (hslack : 0 ≤ slack) :
    let selected := selectTopSignals signals weights slack maxSignals
    selected.Subperm signals ∧ selected.length = min maxSignals.toNat signals.length ∧
    (∀ other : List Signal, other.Subperm signals → other.length = selected.length →
      NearGreedy.worth (contribution weights) other ≤
        NearGreedy.worth (contribution weights) selected + selected.length • slack) ∧
    ∀ before pick after, selected = before ++ pick :: after →
      pick.pillar ∈ before.map Signal.pillar →
      ∀ s ∈ signals, s.pillar ∉ before.map Signal.pillar →
        contribution weights s + slack < contribution weights pick := by
  have hpicks : NearGreedy.Picks (contribution weights) slack (ranked weights signals)
      (selectTopSignals signals weights slack maxSignals) :=
    selectFrom_picks hslack ranked_descending
  refine ⟨hpicks.subperm.trans ranked_perm.subperm, ?_, fun other hother hlength => ?_, ?_⟩
  · rw [selectTopSignals, length_selectFrom, ranked_perm.length_eq]
  · exact hpicks.worth_le (hother.trans ranked_perm.symm.subperm) hlength
  · intro before pick after hsplit hpick s hs hfresh
    exact selectFrom_diverse hsplit hpick (ranked_perm.mem_iff.mpr hs) hfresh

end

/-- Two technical signals of which the weaker gives way to a fundamental one. -/
def threeSignals : List Signal :=
  [⟨"rsi", "technical", 80⟩, ⟨"macd_histogram", "technical", 75⟩, ⟨"roe", "fundamental", 80⟩]

theorem selectTopSignals_near_three :
    (selectTopSignals threeSignals (.ofList [("technical", 1 / 2), ("fundamental", 3 / 10)]) 5
      2).length = 2 :=
  (selectTopSignals_near threeSignals _ 2 (by norm_num)).2.1

example : (selectTopSignals threeSignals (.ofList [("technical", 1 / 2), ("fundamental", 3 / 10)])
    5 2).map Signal.name = ["rsi", "roe"] := by
  decide +kernel

end TradingAgents.Analyst
