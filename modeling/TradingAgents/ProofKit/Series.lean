import Mathlib

/-! Series of numbers: the ratios between neighbours multiply up to the ratio of the ends, and the
running peak finds the worst relative fall between any two points in their order. -/

namespace TradingAgents.ProofKit.Series

variable {α K : Type} [Field K]

/-- The pairs of neighbours. -/
def pairwise (l : List α) : List (α × α) := l.zip l.tail

theorem length_pairwise (l : List α) : (pairwise l).length = l.length - 1 := by
  rw [pairwise, List.length_zip, List.length_tail]
  omega

/-- The product of the ratios between neighbours. -/
theorem prod_ratios {f : α → K} {a : α} {l : List α} (h : ∀ x ∈ a :: l, f x ≠ 0) :
    ((pairwise (a :: l)).map fun p => f p.2 / f p.1).prod =
      f ((a :: l).getLast (List.cons_ne_nil a l)) / f a := by
  induction l generalizing a with
  | nil => exact (div_self (h a List.mem_cons_self)).symm
  | cons b l ih =>
    have ha := h a List.mem_cons_self
    have hb := h b (List.mem_cons_of_mem _ List.mem_cons_self)
    have hrest := @ih b fun x hx => h x (List.mem_cons_of_mem _ hx)
    calc ((pairwise (a :: b :: l)).map fun p => f p.2 / f p.1).prod
        = f b / f a * ((pairwise (b :: l)).map fun p => f p.2 / f p.1).prod := rfl
      _ = f b / f a * (f ((b :: l).getLast (List.cons_ne_nil b l)) / f b) := by rw [hrest]
      _ = f ((b :: l).getLast (List.cons_ne_nil b l)) / f a := by field_simp
      _ = f ((a :: b :: l).getLast (List.cons_ne_nil a _)) / f a := by
        rw [List.getLast_cons (List.cons_ne_nil b l)]

/-- What is taken from a product and what is left of it multiply up to it. -/
theorem prod_filterMap_mul {β : Type} {g : α → K} {g' : β → K} {f : α → Option β} {l : List α}
    (hf : ∀ a ∈ l, ∀ b, f a = some b → g' b = g a) :
    ((l.filterMap f).map g').prod * ((l.filter fun a => (f a).isNone).map g).prod =
      (l.map g).prod := by
  induction l with
  | nil => exact one_mul 1
  | cons a l ih =>
    have hrest := ih fun a' ha' => hf a' (List.mem_cons_of_mem _ ha')
    rw [List.map_cons, List.prod_cons, ← hrest]
    cases hfa : f a with
    | none =>
      rw [List.filterMap_cons_none hfa, List.filter_cons_of_pos (by simp [hfa]), List.map_cons,
        List.prod_cons, mul_left_comm]
    | some b =>
      rw [List.filterMap_cons_some hfa, List.filter_cons_of_neg (by simp [hfa]), List.map_cons,
        List.prod_cons, hf a List.mem_cons_self b hfa, mul_assoc]

theorem foldl_mul (l : List α) (g : α → K) (c : K) :
    l.foldl (fun c a => c * g a) c = c * (l.map g).prod := by
  induction l generalizing c with
  | nil => exact (mul_one c).symm
  | cons a l ih => rw [List.foldl_cons, ih, List.map_cons, List.prod_cons, mul_assoc]

/-! ### The worst fall -/

section Drawdown

variable [LinearOrder K]

/-- The highest point so far, and the worst fall from it. -/
def drawdownStep (s : K × K) (x : K) : K × K :=
  let peak := max s.1 x
  (peak, if peak = 0 then s.2 else min s.2 (x / peak - 1))

def drawdown : List K → K
  | [] => 0
  | a :: l => ((a :: l).foldl drawdownStep (a, 0)).2

/-- The worst relative change from one point to a later one, none where nothing falls. -/
structure Worst (l : List K) (d : K) : Prop where
  nonpos : d ≤ 0
  le : ∀ x y, [x, y].Sublist l → d ≤ y / x - 1
  attained : d = 0 ∨ ∃ x y, [x, y].Sublist l ∧ d = y / x - 1

theorem pair_sublist_concat {x y z : α} {l : List α} :
    [x, y].Sublist (l ++ [z]) ↔ [x, y].Sublist l ∨ (x ∈ l ∧ y = z) := by
  constructor
  · intro h
    obtain ⟨l₁, l₂, hsplit, h₁, h₂⟩ := List.sublist_append_iff.mp h
    match l₁, l₂, hsplit with
    | [], _, rfl =>
      have := h₂.length_le
      simp at this
    | [_], [_], rfl => exact .inr ⟨List.singleton_sublist.mp h₁, by simpa using h₂⟩
    | [_, _], [], rfl => exact .inl h₁
  · rintro (h | ⟨hx, rfl⟩)
    · exact h.trans (List.sublist_append_left l [z])
    · exact (List.singleton_sublist.mpr hx).append (List.Sublist.refl [y])

variable [IsStrictOrderedRing K]

/-- One more point: the peak is the highest point, and the fall to the new one is measured from
it. -/
theorem worst_step {l : List K} {x : K} {s : K × K} (hx : 0 < x) (hpos : ∀ y ∈ l, 0 < y)
    (hpeak : s.1 ∈ l) (hhigh : ∀ y ∈ l, y ≤ s.1) (h : Worst l s.2) :
    ((drawdownStep s x).1 ∈ l ++ [x] ∧ ∀ y ∈ l ++ [x], y ≤ (drawdownStep s x).1) ∧
      Worst (l ++ [x]) (drawdownStep s x).2 := by
  have htop : 0 < max s.1 x := lt_max_of_lt_right hx
  have hfall : (drawdownStep s x).2 = min s.2 (x / max s.1 x - 1) := if_neg htop.ne'
  refine ⟨⟨?_, fun y hy => ?_⟩, ?_, fun u v huv => ?_, ?_⟩
  · show max s.1 x ∈ l ++ [x]
    rcases max_choice s.1 x with h | h <;> rw [h]
    · exact List.mem_append_left _ hpeak
    · exact List.mem_append_right _ List.mem_cons_self
  · show y ≤ max s.1 x
    rcases List.mem_append.mp hy with hy | hy
    · exact (hhigh y hy).trans (le_max_left _ _)
    · exact (List.mem_singleton.mp hy).le.trans (le_max_right _ _)
  · rw [hfall]
    exact (min_le_left _ _).trans h.nonpos
  · rw [hfall]
    rcases pair_sublist_concat.mp huv with huv | ⟨hu, rfl⟩
    · exact (min_le_left _ _).trans (h.le u v huv)
    · have hdiv : v / max s.1 v ≤ v / u :=
        div_le_div_of_nonneg_left hx.le (hpos u hu) ((hhigh u hu).trans (le_max_left _ _))
      exact (min_le_right _ _).trans (sub_le_sub_right hdiv 1)
  · rw [hfall]
    rcases min_choice s.2 (x / max s.1 x - 1) with hmin | hmin <;> rw [hmin]
    · rcases h.attained with hzero | ⟨u, v, huv, hattained⟩
      · exact .inl hzero
      · exact .inr ⟨u, v, huv.trans (List.sublist_append_left l [x]), hattained⟩
    · rcases max_choice s.1 x with htop | htop <;> rw [htop]
      · exact .inr ⟨s.1, x, pair_sublist_concat.mpr (.inr ⟨hpeak, rfl⟩), rfl⟩
      · left
        rw [div_self hx.ne', sub_self]

theorem worst_foldl {a : K} {l : List K} (hpos : ∀ x ∈ a :: l, 0 < x) :
    let s := (a :: l).foldl drawdownStep (a, 0)
    (s.1 ∈ a :: l ∧ ∀ x ∈ a :: l, x ≤ s.1) ∧ Worst (a :: l) s.2 := by
  induction l using List.reverseRecOn with
  | nil =>
    have ha := hpos a List.mem_cons_self
    have hstep : drawdownStep (a, 0) a = (a, 0) := by
      unfold drawdownStep
      simp only [max_self, if_neg ha.ne', div_self ha.ne', sub_self, min_self]
    show (([a].foldl drawdownStep (a, 0)).1 ∈ [a] ∧ _) ∧ Worst [a] _
    rw [List.foldl_cons, List.foldl_nil, hstep]
    refine ⟨⟨List.mem_cons_self, fun x hx => (List.mem_singleton.mp hx).le⟩, le_refl _,
      fun x y hxy => ?_, .inl rfl⟩
    have := hxy.length_le
    simp at this
  | append_singleton l x ih =>
    have hall : ∀ y ∈ a :: l, 0 < y := fun y hy => hpos y (by
      rw [← List.cons_append]
      exact List.mem_append_left _ hy)
    obtain ⟨⟨hpeak, hhigh⟩, hworst⟩ := ih hall
    have hlast : 0 < x := hpos x (by simp)
    dsimp only
    rw [← List.cons_append, List.foldl_append]
    exact worst_step hlast hall hpeak hhigh hworst

/-- The running peak finds the worst fall. -/
theorem worst_drawdown {l : List K} (hpos : ∀ x ∈ l, 0 < x) : Worst l (drawdown l) := by
  cases l with
  | nil => exact ⟨le_refl _, fun x y h => absurd h.length_le (by simp), .inl rfl⟩
  | cons a l => exact (worst_foldl hpos).2

theorem Worst.neg_one_lt {l : List K} {d : K} (h : Worst l d) (hpos : ∀ x ∈ l, 0 < x) : -1 < d := by
  rcases h.attained with rfl | ⟨x, y, hxy, rfl⟩
  · exact neg_lt_zero.mpr one_pos
  · have hx := hpos x (hxy.subset List.mem_cons_self)
    have hy := hpos y (hxy.subset (List.mem_cons_of_mem _ List.mem_cons_self))
    have hratio := div_pos hy hx
    linarith

end Drawdown

end TradingAgents.ProofKit.Series
