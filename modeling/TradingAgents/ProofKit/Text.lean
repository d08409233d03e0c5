import Mathlib.Data.String.Basic
import Mathlib.Tactic.Common

/-! Keys built as text: a separator that a part does not hold can be cut at, a fixed prefix or
suffix can be cancelled, and the decimal text of an integer determines it. -/

namespace TradingAgents.ProofKit.Text

/-! ### The order of texts, by which sets of them are sorted -/

instance le_transitive : IsTrans String (· ≤ ·) := ⟨fun _ _ _ => le_trans⟩

instance le_antisymmetric : Std.Antisymm (α := String) (· ≤ ·) := ⟨fun _ _ => le_antisymm⟩

instance le_connected : Std.Total (α := String) (· ≤ ·) := ⟨le_total⟩

/-! ### Separators -/

/-- A list cut at a separator that no right part holds. -/
theorem append_sep_right {α : Type} {c : α} {x y p q : List α} (hp : c ∉ p) (hq : c ∉ q)
    (h : x ++ c :: p = y ++ c :: q) : x = y ∧ p = q := by
  rcases List.append_eq_append_iff.mp h with ⟨as, hy, hcp⟩ | ⟨as, hx, hcq⟩
  · cases as with
    | nil => exact ⟨by simpa using hy.symm, by simpa using hcp⟩
    | cons a as =>
      simp only [List.cons_append, List.cons.injEq] at hcp
      exact (hp (by rw [hcp.2]; simp)).elim
  · cases as with
    | nil => exact ⟨by simpa using hx, by simpa using hcq.symm⟩
    | cons a as =>
      simp only [List.cons_append, List.cons.injEq] at hcq
      exact (hq (by rw [hcq.2]; simp)).elim

/-- A list cut at a separator that no left part holds. -/
theorem append_sep_left {α : Type} {c : α} {x y p q : List α} (hx : c ∉ x) (hy : c ∉ y)
    (h : x ++ c :: p = y ++ c :: q) : x = y ∧ p = q := by
  have hr : p.reverse ++ c :: x.reverse = q.reverse ++ c :: y.reverse := by
    simpa using congrArg List.reverse h
  obtain ⟨hpq, hxy⟩ := append_sep_right (by simpa using hx) (by simpa using hy) hr
  exact ⟨by simpa using hxy, by simpa using hpq⟩

/-- A list that ends in a part of a fixed length without the separator, and then in a tail none of
whose parts is that long: what follows the fixed part can be cut off. -/
theorem append_sep_fixed {α : Type} {c : α} {n : Nat} {x y d e p q : List α} (hd : c ∉ d)
    (he : c ∉ e) (hdn : d.length = n) (hen : e.length = n)
    (hp : ∀ part, part <:+: p → c ∉ part → part.length < n)
    (hq : ∀ part, part <:+: q → c ∉ part → part.length < n)
    (h : x ++ c :: d ++ c :: p = y ++ c :: e ++ c :: q) : x ++ c :: d = y ++ c :: e ∧ p = q := by
  -- a longer tail would hold the fixed part of the other list
  have longer : ∀ {x y d e p q : List α} {a : α} {as : List α}, c ∉ d → c ∉ e → e.length = n →
      (∀ part, part <:+: p → c ∉ part → part.length < n) →
      y ++ c :: e = (x ++ c :: d) ++ a :: as → c :: p = a :: as ++ c :: q → False := by
    intro x y d e p q a as hd he hen hp hleft hright
    obtain ⟨rfl, rfl⟩ := List.cons_eq_cons.mp hright
    have hin : ∀ part, part <:+ as → part <:+: as ++ c :: q := fun part hpart =>
      hpart.isInfix.trans (List.prefix_append as _).isInfix
    have hsuffix : e <:+ y ++ c :: e := (List.suffix_cons c e).trans (List.suffix_append y _)
    have hsuffix' : as <:+ y ++ c :: e := by
      rw [hleft]
      exact (List.suffix_cons c as).trans (List.suffix_append _ _)
    rcases List.suffix_or_suffix_of_suffix hsuffix hsuffix' with hea | hae
    · exact (Nat.ne_of_lt (hp e (hin e hea) he)) hen
    · have has : c ∉ as := fun hc => he (hae.subset hc)
      obtain ⟨-, rfl⟩ := append_sep_right he has hleft
      exact (Nat.ne_of_lt (hp e (hin e List.suffix_rfl) he)) hen
  rcases List.append_eq_append_iff.mp h with ⟨as, hy, hcp⟩ | ⟨as, hx, hcq⟩
  · cases as with
    | nil => exact ⟨by simpa using hy.symm, by simpa using hcp⟩
    | cons a as => exact (longer hd he hen hp hy hcp).elim
  · cases as with
    | nil => exact ⟨by simpa using hx, by simpa using hcq.symm⟩
    | cons a as => exact (longer he hd hdn hq hx hcq).elim

/-- Whether a text holds a character. -/
def Holds (c : Char) (s : String) : Prop := c ∈ s.toList

instance (c : Char) (s : String) : Decidable (Holds c s) :=
  inferInstanceAs (Decidable (c ∈ s.toList))

theorem split_right {c : Char} {x y p q : String} (hp : ¬ Holds c p) (hq : ¬ Holds c q)
    (h : x ++ c.toString ++ p = y ++ c.toString ++ q) : x = y ∧ p = q := by
  have hl := congrArg String.toList h
  simp only [String.toList_append, Char.toString_eq_singleton, String.toList_singleton,
    List.append_assoc, List.singleton_append] at hl
  obtain ⟨hxy, hpq⟩ := append_sep_right hp hq hl
  exact ⟨String.toList_inj.mp hxy, String.toList_inj.mp hpq⟩

theorem split_left {c : Char} {x y p q : String} (hx : ¬ Holds c x) (hy : ¬ Holds c y)
    (h : x ++ c.toString ++ p = y ++ c.toString ++ q) : x = y ∧ p = q := by
  have hl := congrArg String.toList h
  simp only [String.toList_append, Char.toString_eq_singleton, String.toList_singleton,
    List.append_assoc, List.singleton_append] at hl
  obtain ⟨hxy, hpq⟩ := append_sep_left hx hy hl
  exact ⟨String.toList_inj.mp hxy, String.toList_inj.mp hpq⟩

/-! ### Decimal text -/

theorem repr_injective {m n : Nat} (h : m.repr = n.repr) : m = n := by
  have hd : Nat.toDigits 10 m = Nat.toDigits 10 n := by
    rw [← Nat.toList_repr, ← Nat.toList_repr, h]
  rw [← Nat.ofDigitChars_ten_toDigits (n := m), hd, Nat.ofDigitChars_ten_toDigits]

theorem isDigit_of_mem_repr {n : Nat} {c : Char} (h : c ∈ n.repr.toList) : c.isDigit := by
  rw [Nat.toList_repr] at h
  exact Nat.isDigit_of_mem_toDigits (by omega) (by omega) h

/-- The decimal text of an integer holds digits and the minus sign only. -/
theorem of_mem_int_repr {n : Int} {c : Char} (h : c ∈ (toString n).toList) :
    c.isDigit = true ∨ c = '-' := by
  rw [Int.toString_eq_repr, Int.repr_eq_if] at h
  split at h
  · exact .inl (isDigit_of_mem_repr h)
  · rw [String.toList_append] at h
    rcases List.mem_append.mp h with h | h
    · exact .inr (by simpa using h)
    · exact .inl (isDigit_of_mem_repr h)

theorem not_holds_int {n : Int} {c : Char} (hd : c.isDigit = false) (hm : c ≠ '-') :
    ¬ Holds c (toString n) := by
  intro h
  rcases of_mem_int_repr h with h | h
  · rw [hd] at h; cases h
  · exact hm h

theorem not_holds_nat {n : Nat} {c : Char} (hd : c.isDigit = false) :
    ¬ Holds c (toString n) := by
  intro h
  rw [isDigit_of_mem_repr h] at hd
  cases hd

theorem toString_int_injective {m n : Int} (h : toString m = toString n) : m = n := by
  have not_minus : ∀ (a b : Nat), a.repr ≠ "-" ++ b.repr := by
    intro a b hab
    have hmem : '-' ∈ a.repr.toList := by rw [hab, String.toList_append]; simp
    exact absurd (isDigit_of_mem_repr hmem) (by decide)
  rw [Int.toString_eq_repr, Int.toString_eq_repr, Int.repr_eq_if, Int.repr_eq_if] at h
  split at h <;> split at h
  · have := repr_injective h; omega
  · exact (not_minus _ _ h).elim
  · exact (not_minus _ _ h.symm).elim
  · have hl := congrArg String.toList h
    simp only [String.toList_append, List.append_cancel_left_eq] at hl
    have := repr_injective (String.toList_inj.mp hl); omega

/-- A numeral above one is listed behind it. -/
theorem one_lt_repr {n : Nat} (h : 2 ≤ n) : ['1'] < (toString n).toList := by
  rw [show toString n = n.repr from rfl, Nat.toList_repr]
  induction n using Nat.strongRecOn with
  | ind n ih =>
    rcases Nat.lt_or_ge n 10 with hlt | hge
    · rw [Nat.toDigits_of_lt_base hlt]
      have hall : ∀ n < 10, 2 ≤ n → ['1'] < [Nat.digitChar n] := by decide
      exact hall n hlt h
    · rw [Nat.toDigits_of_base_le (by decide) hge]
      rcases Nat.lt_or_ge (n / 10) 2 with hone | htwo
      · have hdiv : n / 10 = 1 := by omega
        rw [hdiv, Nat.toDigits_of_lt_base (by decide)]
        exact List.cons_lt_cons_iff.mpr (.inr ⟨rfl, List.nil_lt_cons _ _⟩)
      · -- the leading digits decide, and if they are the one digit the numeral is longer
        have hlead := ih (n / 10) (by omega) htwo
        match hd : Nat.toDigits 10 (n / 10), hlead with
        | [], hlead => exact absurd hlead (List.not_lt_nil _)
        | c :: cs, hlead =>
          rw [List.cons_append, List.cons_lt_cons_iff]
          rcases List.cons_lt_cons_iff.mp hlead with hc | ⟨hc, -⟩
          · exact .inl hc
          · refine .inr ⟨hc, ?_⟩
            cases cs with
            | nil => exact List.nil_lt_cons _ _
            | cons d cs => exact List.nil_lt_cons _ _

end TradingAgents.ProofKit.Text
