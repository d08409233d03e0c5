import Mathlib.Algebra.BigOperators.Group.Finset.Basic
import Mathlib.Algebra.BigOperators.Group.Finset.Piecewise
import Mathlib.Data.Finset.Card
import Mathlib.Data.Finset.Max
import Mathlib.Order.Bounds.Basic

/-! Half-open windows between the instants of a list: the window of an instant runs after the
instant before it, up to and including its own.  Every point that is no later than the last instant
lies in one window, that of the first instant that is no earlier. -/

namespace TradingAgents.ProofKit

variable {τ α : Type} [LinearOrder τ] {instants instants' : List τ} {t x : τ}

/-- The last instant before `t`. -/
def lastBefore (instants : List τ) (t : τ) : Option τ := (instants.filter (· < t)).max?

/-- `x` lies in the window of `t`. -/
def InWindow (instants : List τ) (t x : τ) : Prop := x ≤ t ∧ ∀ u ∈ instants, u < t → u < x

instance (instants : List τ) (t x : τ) : Decidable (InWindow instants t x) :=
  inferInstanceAs (Decidable (_ ∧ _))

theorem lastBefore_eq_some {u : τ} :
    lastBefore instants t = some u ↔
      u ∈ instants ∧ u < t ∧ ∀ v ∈ instants, v < t → v ≤ u := by
  simp only [lastBefore, List.max?_eq_some_iff, List.mem_filter, decide_eq_true_eq]
  exact ⟨fun h => ⟨h.1.1, h.1.2, fun v hv hlt => h.2 v ⟨hv, hlt⟩⟩,
    fun h => ⟨⟨h.1, h.2.1⟩, fun v hv => h.2.2 v hv.1 hv.2⟩⟩

theorem lastBefore_eq_none : lastBefore instants t = none ↔ ∀ u ∈ instants, ¬ u < t := by
  rw [lastBefore, List.max?_eq_none_iff, List.filter_eq_nil_iff]
  simp only [decide_eq_true_eq]

/-- The window as it is read: after the last instant before `t`, if there is one. -/
theorem inWindow_iff :
    InWindow instants t x ↔ x ≤ t ∧ ∀ u, lastBefore instants t = some u → u < x := by
  refine and_congr_right fun _ => ⟨fun h u hu => ?_, fun h u hu hlt => ?_⟩
  · obtain ⟨hmem, hlt, -⟩ := lastBefore_eq_some.mp hu
    exact h u hmem hlt
  · cases hlast : lastBefore instants t with
    | none => exact absurd hlt (lastBefore_eq_none.mp hlast u hu)
    | some v => exact ((lastBefore_eq_some.mp hlast).2.2 u hu hlt).trans_lt (h v hlast)

/-- The last instant before `t` depends on the instants before `t` alone. -/
theorem lastBefore_congr (h : ∀ u < t, u ∈ instants ↔ u ∈ instants') :
    lastBefore instants t = lastBefore instants' t := by
  refine Option.ext fun u => ?_
  rw [lastBefore_eq_some, lastBefore_eq_some]
  constructor
  · rintro ⟨hu, hlt, hmax⟩
    exact ⟨(h u hlt).mp hu, hlt, fun v hv hvt => hmax v ((h v hvt).mpr hv) hvt⟩
  · rintro ⟨hu, hlt, hmax⟩
    exact ⟨(h u hlt).mpr hu, hlt, fun v hv hvt => hmax v ((h v hvt).mp hv) hvt⟩

/-- An instant's window holds the points that it is the first instant for. -/
theorem inWindow_iff_isLeast (ht : t ∈ instants) :
    InWindow instants t x ↔ IsLeast {u | u ∈ instants ∧ x ≤ u} t := by
  constructor
  · rintro ⟨hle, hafter⟩
    refine ⟨⟨ht, hle⟩, fun u hu => ?_⟩
    by_contra hlt
    exact absurd hu.2 (not_le.mpr (hafter u hu.1 (not_le.mp hlt)))
  · rintro ⟨⟨-, hle⟩, hleast⟩
    refine ⟨hle, fun u hu hlt => ?_⟩
    by_contra hxu
    exact absurd (hleast ⟨hu, not_lt.mp hxu⟩) (not_le.mpr hlt)

theorem exists_window (h : ∃ u ∈ instants, x ≤ u) : ∃ t ∈ instants, InWindow instants t x := by
  have hne : (instants.toFinset.filter (x ≤ ·)).Nonempty := by
    obtain ⟨u, hu, hle⟩ := h
    exact ⟨u, Finset.mem_filter.mpr ⟨List.mem_toFinset.mpr hu, hle⟩⟩
  have hmin := Finset.min'_mem _ hne
  rw [Finset.mem_filter, List.mem_toFinset] at hmin
  refine ⟨_, hmin.1, (inWindow_iff_isLeast hmin.1).mpr ⟨hmin, fun u hu => ?_⟩⟩
  exact Finset.min'_le _ u (Finset.mem_filter.mpr ⟨List.mem_toFinset.mpr hu.1, hu.2⟩)

theorem window_unique {u : τ} (ht : t ∈ instants) (hu : u ∈ instants) (h : InWindow instants t x)
    (h' : InWindow instants u x) : t = u :=
  ((inWindow_iff_isLeast ht).mp h).unique ((inWindow_iff_isLeast hu).mp h')

/-- The windows of the instants count every item up to the last instant once. -/
theorem sum_countP_inWindow (f : α → τ) (p : α → Bool) (items : List α) :
    ∑ t ∈ instants.toFinset, items.countP (fun a => p a && decide (InWindow instants t (f a))) =
      items.countP fun a => p a && decide (∃ u ∈ instants, f a ≤ u) := by
  induction items with
  | nil => simp
  | cons a items ih =>
    simp only [List.countP_cons, Finset.sum_add_distrib, ih]
    congr 1
    cases hp : p a with
    | false => simp
    | true =>
      simp only [Bool.true_and, decide_eq_true_eq]
      by_cases h : ∃ u ∈ instants, f a ≤ u
      · obtain ⟨t, ht, hin⟩ := exists_window h
        rw [if_pos h, Finset.sum_eq_single_of_mem t (List.mem_toFinset.mpr ht), if_pos hin]
        intro u hu hne
        rw [if_neg]
        exact fun hin' => hne (window_unique (List.mem_toFinset.mp hu) ht hin' hin)
      · rw [if_neg h]
        refine Finset.sum_eq_zero fun u hu => if_neg fun hin =>
          h ⟨u, List.mem_toFinset.mp hu, hin.1⟩

end TradingAgents.ProofKit
