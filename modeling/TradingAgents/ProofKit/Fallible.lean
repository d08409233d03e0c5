import Mathlib.Tactic.Common

/-! Computations that may raise: what a successful sequence did, the two rules for a loop, one for
what a successful loop has done and one for the success of a loop, and the filtering of a list by a
test that may raise. -/

namespace TradingAgents.ProofKit.Fallible

variable {ε α β σ : Type}

theorem bind_eq_ok {x : Except ε α} {f : α → Except ε β} {b : β} :
    (x >>= f) = .ok b ↔ ∃ a, x = .ok a ∧ f a = .ok b := by
  cases x <;> simp [bind, Except.bind]

/-- A sequence fails at its first part, or at the second after the first has succeeded. -/
theorem bind_eq_error {x : Except ε α} {f : α → Except ε β} {e : ε} :
    (x >>= f) = .error e ↔ x = .error e ∨ ∃ a, x = .ok a ∧ f a = .error e := by
  cases x <;> simp [bind, Except.bind]

@[simp] theorem pure_eq_ok {a : α} : (pure a : Except ε α) = .ok a := rfl

@[simp] theorem ok_bind (a : α) (f : α → Except ε β) : ((.ok a : Except ε α) >>= f) = f a := rfl

@[simp] theorem error_bind (e : ε) (f : α → Except ε β) :
    ((.error e : Except ε α) >>= f) = .error e := rfl

/-- What holds before a loop and is kept by each of its successful passes holds after it. -/
theorem foldlM_induction {f : σ → α → Except ε σ} {P : List α → σ → Prop} {l : List α} {s s' : σ}
    (h : l.foldlM f s = .ok s') (start : P [] s)
    (step : ∀ done a rest t t', l = done ++ a :: rest → P done t → f t a = .ok t' →
      P (done ++ [a]) t') : P l s' := by
  suffices ∀ rest done t, l = done ++ rest → P done t → rest.foldlM f t = .ok s' → P l s' from
    this l [] s rfl start h
  intro rest
  induction rest with
  | nil =>
    intro done t hl hP ht
    cases ht
    simpa [hl] using hP
  | cons a rest ih =>
    intro done t hl hP ht
    rw [List.foldlM_cons] at ht
    obtain ⟨t', ha, hrest⟩ := bind_eq_ok.mp ht
    exact ih (done ++ [a]) t' (by simp [hl]) (step done a rest t t' hl hP ha) hrest

/-- A loop that fails has failed at one element, after the passes over those before it. -/
theorem foldlM_error {f : σ → α → Except ε σ} {l : List α} {s : σ} {e : ε}
    (h : l.foldlM f s = .error e) :
    ∃ done a rest t, l = done ++ a :: rest ∧ done.foldlM f s = .ok t ∧ f t a = .error e := by
  induction l generalizing s with
  | nil => cases h
  | cons b l ih =>
    rw [List.foldlM_cons] at h
    rcases bind_eq_error.mp h with hb | ⟨t, hb, h⟩
    · exact ⟨[], b, l, s, rfl, rfl, hb⟩
    · obtain ⟨done, a, rest, t', hl, hdone, ha⟩ := ih h
      refine ⟨b :: done, a, rest, t', by rw [hl]; rfl, ?_, ha⟩
      rw [List.foldlM_cons, hb]
      exact hdone

/-- A loop each of whose passes succeeds, or fails as allowed, from what the passes before it have
established succeeds or fails as allowed. -/
theorem foldlM_outcome {f : σ → α → Except ε σ} {P : List α → σ → Prop} {E : ε → Prop} {l : List α}
    {s : σ} (start : P [] s)
    (step : ∀ done a rest t, l = done ++ a :: rest → P done t →
      (∃ t', f t a = .ok t' ∧ P (done ++ [a]) t') ∨ ∃ e, f t a = .error e ∧ E e) :
    (∃ s', l.foldlM f s = .ok s' ∧ P l s') ∨ ∃ e, l.foldlM f s = .error e ∧ E e := by
  suffices ∀ rest done t, l = done ++ rest → P done t →
      (∃ s', rest.foldlM f t = .ok s' ∧ P l s') ∨ ∃ e, rest.foldlM f t = .error e ∧ E e from
    this l [] s rfl start
  intro rest
  induction rest with
  | nil => exact fun done t hl hP => .inl ⟨t, rfl, by simpa [hl] using hP⟩
  | cons a rest ih =>
    intro done t hl hP
    rw [List.foldlM_cons]
    rcases step done a rest t hl hP with ⟨t', ha, hP'⟩ | ⟨e, ha, hE⟩
    · rw [ha, ok_bind]
      exact ih (done ++ [a]) t' (by simp [hl]) hP'
    · rw [ha, error_bind]
      exact .inr ⟨e, rfl, hE⟩

/-- A loop each of whose passes succeeds from what the passes before it have established
succeeds. -/
theorem foldlM_total {f : σ → α → Except ε σ} {P : List α → σ → Prop} {l : List α} {s : σ}
    (start : P [] s)
    (step : ∀ done a rest t, l = done ++ a :: rest → P done t →
      ∃ t', f t a = .ok t' ∧ P (done ++ [a]) t') : ∃ s', l.foldlM f s = .ok s' ∧ P l s' := by
  rcases foldlM_outcome (E := fun _ => False) start fun done a rest t hl hP =>
    .inl (step done a rest t hl hP) with hok | ⟨e, -, hE⟩
  · exact hok
  · exact hE.elim

/-- A loop over the lists that a list maps to is a loop of loops. -/
theorem foldlM_flatMap {γ : Type} (l : List γ) (k : γ → List α) (f : σ → α → Except ε σ) (s : σ) :
    (l.flatMap k).foldlM f s = l.foldlM (fun t c => (k c).foldlM f t) s := by
  induction l generalizing s with
  | nil => rfl
  | cons c l ih =>
    rw [List.flatMap_cons, List.foldlM_append, List.foldlM_cons]
    cases (k c).foldlM f s with
    | error e => rfl
    | ok t => exact ih t

/-- A loop that takes each pass of another in the image of its state ends in the image of its end.
-/
theorem foldlM_map {τ : Type} {f : σ → α → Except ε σ} {f' : τ → α → Except ε τ} {φ : σ → τ}
    {l : List α}
    (step : ∀ a ∈ l, ∀ s, f' (φ s) a = (f s a).map φ) (s : σ) :
    l.foldlM f' (φ s) = (l.foldlM f s).map φ := by
  induction l generalizing s with
  | nil => rfl
  | cons a l ih =>
    rw [List.foldlM_cons, List.foldlM_cons, step a List.mem_cons_self]
    cases f s a with
    | error e => rfl
    | ok t => exact ih (fun b hb => step b (List.mem_cons_of_mem a hb)) t

/-! ### Lists of results -/

theorem mapM_cons_eq_ok {f : α → Except ε β} {a : α} {l : List α} {results : List β} :
    (a :: l).mapM f = .ok results ↔
      ∃ b rest, f a = .ok b ∧ l.mapM f = .ok rest ∧ results = b :: rest := by
  rw [List.mapM_cons, bind_eq_ok]
  constructor
  · rintro ⟨b, hb, h⟩
    obtain ⟨rest, hrest, h⟩ := bind_eq_ok.mp h
    cases h
    exact ⟨b, rest, hb, hrest, rfl⟩
  · rintro ⟨b, rest, hb, hrest, rfl⟩
    exact ⟨b, hb, bind_eq_ok.mpr ⟨rest, hrest, rfl⟩⟩

/-- Each result is one of an element. -/
theorem mem_of_mapM {f : α → Except ε β} {l : List α} {results : List β}
    (h : l.mapM f = .ok results) {b : β} (hb : b ∈ results) : ∃ a ∈ l, f a = .ok b := by
  induction l generalizing results with
  | nil =>
    cases h
    exact absurd hb List.not_mem_nil
  | cons a l ih =>
    obtain ⟨first, rest, hfirst, hrest, rfl⟩ := mapM_cons_eq_ok.mp h
    rcases List.mem_cons.mp hb with rfl | hb
    · exact ⟨a, List.mem_cons_self, hfirst⟩
    · obtain ⟨x, hx, hok⟩ := ih hrest hb
      exact ⟨x, List.mem_cons_of_mem a hx, hok⟩

theorem length_mapM {f : α → Except ε β} {l : List α} {results : List β}
    (h : l.mapM f = .ok results) : results.length = l.length := by
  induction l generalizing results with
  | nil =>
    cases h
    rfl
  | cons a l ih =>
    obtain ⟨first, rest, -, hrest, rfl⟩ := mapM_cons_eq_ok.mp h
    rw [List.length_cons, List.length_cons, ih hrest]

/-- Each element has its result. -/
theorem mapM_mem {f : α → Except ε β} {l : List α} {results : List β}
    (h : l.mapM f = .ok results) {a : α} (ha : a ∈ l) : ∃ b ∈ results, f a = .ok b := by
  induction l generalizing results with
  | nil => cases ha
  | cons x l ih =>
    obtain ⟨first, rest, hfirst, hrest, rfl⟩ := mapM_cons_eq_ok.mp h
    rcases List.mem_cons.mp ha with rfl | ha
    · exact ⟨first, List.mem_cons_self, hfirst⟩
    · obtain ⟨b, hb, hok⟩ := ih hrest ha
      exact ⟨b, List.mem_cons_of_mem first hb, hok⟩

theorem mapM_total {f : α → Except ε β} {l : List α} (h : ∀ a ∈ l, ∃ b, f a = .ok b) :
    ∃ results, l.mapM f = .ok results := by
  induction l with
  | nil => exact ⟨[], rfl⟩
  | cons a l ih =>
    obtain ⟨b, hb⟩ := h a List.mem_cons_self
    obtain ⟨rest, hrest⟩ := ih fun x hx => h x (List.mem_cons_of_mem a hx)
    exact ⟨b :: rest, mapM_cons_eq_ok.mpr ⟨b, rest, hb, hrest, rfl⟩⟩

theorem mapM_eq_map {f : α → Except ε β} {g : α → β} {l : List α}
    (h : ∀ a ∈ l, f a = .ok (g a)) : l.mapM f = .ok (l.map g) := by
  induction l with
  | nil => rfl
  | cons a l ih =>
    exact mapM_cons_eq_ok.mpr ⟨g a, l.map g, h a List.mem_cons_self,
      ih fun x hx => h x (List.mem_cons_of_mem a hx), rfl⟩

/-- A list has the results of another function that agrees with this one where it succeeds. -/
theorem mapM_of_ok {f f' : α → Except ε β} {l : List α} {results : List β}
    (h : l.mapM f = .ok results) (hagree : ∀ a ∈ l, ∀ b, f a = .ok b → f' a = .ok b) :
    l.mapM f' = .ok results := by
  induction l generalizing results with
  | nil => exact h
  | cons a l ih =>
    obtain ⟨b, rest, hb, hrest, rfl⟩ := mapM_cons_eq_ok.mp h
    exact mapM_cons_eq_ok.mpr ⟨b, rest, hagree a List.mem_cons_self b hb,
      ih hrest fun x hx => hagree x (List.mem_cons_of_mem a hx), rfl⟩

/-- The elements that pass a test; the first test that raises ends the filtering. -/
def filter (test : α → Except ε Bool) : List α → Except ε (List α)
  | [] => .ok []
  | a :: l => do
    let keep ← test a
    let rest ← filter test l
    pure (if keep then a :: rest else rest)

theorem mem_filter {test : α → Except ε Bool} {l kept : List α} (h : filter test l = .ok kept)
    {a : α} : a ∈ kept ↔ a ∈ l ∧ test a = .ok true := by
  induction l generalizing kept with
  | nil => cases h; simp
  | cons b l ih =>
    obtain ⟨keep, hb, h⟩ := bind_eq_ok.mp h
    obtain ⟨rest, hrest, h⟩ := bind_eq_ok.mp h
    cases h
    rw [List.mem_cons, or_and_right, ← ih hrest]
    cases keep with
    | true =>
      rw [if_pos rfl, List.mem_cons]
      exact or_congr_left ⟨fun heq => ⟨heq, heq ▸ hb⟩, And.left⟩
    | false =>
      refine ⟨.inr, fun ha => ha.resolve_left ?_⟩
      rintro ⟨rfl, htrue⟩
      rw [hb] at htrue; cases htrue

/-- Filtering succeeds when no test of an element raises. -/
theorem filter_total {test : α → Except ε Bool} {l : List α}
    (h : ∀ a ∈ l, ∃ b, test a = .ok b) : ∃ kept, filter test l = .ok kept := by
  induction l with
  | nil => exact ⟨[], rfl⟩
  | cons a l ih =>
    obtain ⟨b, hb⟩ := h a List.mem_cons_self
    obtain ⟨rest, hrest⟩ := ih fun x hx => h x (List.mem_cons_of_mem _ hx)
    exact ⟨if b then a :: rest else rest, by rw [filter, hb, ok_bind, hrest]; rfl⟩

/-- A filtering that fails has failed at a test. -/
theorem filter_error {test : α → Except ε Bool} {l : List α} {e : ε}
    (h : filter test l = .error e) : ∃ a ∈ l, test a = .error e := by
  induction l with
  | nil => cases h
  | cons a l ih =>
    rcases bind_eq_error.mp h with ha | ⟨keep, -, h⟩
    · exact ⟨a, List.mem_cons_self, ha⟩
    rcases bind_eq_error.mp h with hl | ⟨rest, -, h⟩
    · obtain ⟨b, hb, hfail⟩ := ih hl
      exact ⟨b, List.mem_cons_of_mem a hb, hfail⟩
    · cases h

/-- Whether a computation succeeds with a result that passes a test. -/
def check (test : α → Bool) : Except ε α → Bool
  | .ok a => test a
  | .error _ => false

theorem check_eq_true {test : α → Bool} {x : Except ε α} :
    check test x = true ↔ ∃ a, x = .ok a ∧ test a = true := by
  cases x <;> simp [check]

end TradingAgents.ProofKit.Fallible
