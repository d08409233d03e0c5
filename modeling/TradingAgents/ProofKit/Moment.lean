import Mathlib

/-! Readings of a clock in UTC.  Readings are compared field by field and their ISO texts letter by
letter; the text to the second has fields of fixed width, so it keeps the order of the readings. -/

namespace TradingAgents.ProofKit

/-! ### Fields of fixed width -/

/-- The last `w` decimal digits of a number. -/
def digits : Nat → Nat → List Char
  | 0, _ => []
  | w + 1, n => digits w (n / 10) ++ [Nat.digitChar (n % 10)]

theorem length_digits (w n : Nat) : (digits w n).length = w := by
  induction w generalizing n with
  | zero => rfl
  | succ w ih => rw [digits, List.length_append, ih, List.length_singleton]

/-- Of two lists of one length the smaller stays smaller, whatever follows. -/
theorem append_lt_append {α : Type} [LinearOrder α] {x y p q : List α} (h : x < y)
    (hlen : x.length = y.length) : x ++ p < y ++ q := by
  induction x generalizing y with
  | nil =>
    rw [List.length_nil] at hlen
    rw [List.eq_nil_of_length_eq_zero hlen.symm] at h
    exact absurd h (lt_irrefl [])
  | cons a x ih =>
    obtain ⟨b, y, rfl⟩ := List.exists_cons_of_length_eq_add_one hlen.symm
    rw [List.cons_append, List.cons_append, List.cons_lt_cons_iff]
    rcases List.cons_lt_cons_iff.mp h with hab | ⟨hab, hxy⟩
    · exact .inl hab
    · exact .inr ⟨hab, ih hxy (Nat.succ.inj hlen)⟩

theorem digitChar_lt {a b : Nat} (h : a < b) (hb : b < 10) : Nat.digitChar a < Nat.digitChar b := by
  have hall : ∀ b < 10, ∀ a < b, Nat.digitChar a < Nat.digitChar b := by decide
  exact hall b hb a h

/-- Fixed-width text keeps the order of the numbers that fit. -/
theorem digits_lt {w a b : Nat} (h : a < b) (hb : b < 10 ^ w) : digits w a < digits w b := by
  induction w generalizing a b with
  | zero => omega
  | succ w ih =>
    rw [digits, digits]
    rcases Nat.lt_or_ge (a / 10) (b / 10) with hlt | hge
    · have hfit : b / 10 < 10 ^ w := by rw [pow_succ] at hb; omega
      exact append_lt_append (ih hlt hfit) (by rw [length_digits, length_digits])
    · have heq : a / 10 = b / 10 := by omega
      rw [heq]
      apply List.append_left_lt
      rw [List.cons_lt_cons_iff]
      exact .inl (digitChar_lt (by omega) (by omega))

/-- Numbers as text, each in the width and before the separator that its place has. -/
def render : List (Nat × Char) → List Nat → List Char
  | (w, c) :: places, n :: ns => digits w n ++ c :: render places ns
  | _, _ => []

/-- Every number fits its place. -/
def Fits : List (Nat × Char) → List Nat → Prop
  | (w, _) :: places, n :: ns => n < 10 ^ w ∧ Fits places ns
  | [], [] => True
  | _, _ => False

theorem render_lt {places : List (Nat × Char)} {ns ms : List Nat} {p q : List Char}
    (hns : Fits places ns) (hms : Fits places ms) (h : ns < ms) :
    render places ns ++ p < render places ms ++ q := by
  induction places generalizing ns ms with
  | nil =>
    cases ns <;> cases ms <;> first | exact absurd h (List.lt_irrefl _) | exact hns.elim |
      exact hms.elim
  | cons place places ih =>
    obtain ⟨w, c⟩ := place
    match ns, ms, hns, hms with
    | n :: ns, m :: ms, hns, hms =>
      rw [render, render, List.append_assoc, List.append_assoc]
      rcases List.cons_lt_cons_iff.mp h with hlt | ⟨rfl, hrest⟩
      · exact append_lt_append (digits_lt hlt hms.1) (by rw [length_digits, length_digits])
      · apply List.append_left_lt
        rw [List.cons_append, List.cons_append, List.cons_lt_cons_iff]
        exact .inr ⟨rfl, ih hns.2 hms.2 hrest⟩

theorem render_le {places : List (Nat × Char)} {ns ms : List Nat} {p : List Char}
    (hns : Fits places ns) (hms : Fits places ms) (h : ns ≤ ms) :
    render places ns ++ p ≤ render places ms ++ p := by
  rcases lt_or_eq_of_le h with hlt | rfl
  · exact le_of_lt (render_lt hns hms hlt)
  · exact le_rfl

/-! ### Days and moments -/

def isLeap (year : Nat) : Bool :=
  decide (year % 4 = 0) && (decide (year % 100 ≠ 0) || decide (year % 400 = 0))

def daysInMonth (year month : Nat) : Nat :=
  if month = 2 then if isLeap year then 29 else 28
  else if month ∈ [4, 6, 9, 11] then 30 else 31

/-- A calendar day. -/
structure Day where
  year : Nat
  month : Nat
  day : Nat
  year_bound : 1 ≤ year ∧ year ≤ 9999
  month_bound : 1 ≤ month ∧ month ≤ 12
  day_bound : 1 ≤ day ∧ day ≤ daysInMonth year month
deriving DecidableEq

namespace Day

/-- A day with fields that are known to be a date. -/
def ofFields (year month day : Nat) (h : (1 ≤ year ∧ year ≤ 9999) ∧ (1 ≤ month ∧ month ≤ 12) ∧
    1 ≤ day ∧ day ≤ daysInMonth year month) : Day :=
  ⟨year, month, day, h.1, h.2.1, h.2.2⟩

def fields (d : Day) : List Nat := [d.year, d.month, d.day]

instance : LE Day := ⟨fun a b => a.fields ≤ b.fields⟩

instance (a b : Day) : Decidable (a ≤ b) := inferInstanceAs (Decidable (a.fields ≤ b.fields))

def isoformat (d : Day) : String :=
  .ofList (digits 4 d.year ++ '-' :: digits 2 d.month ++ '-' :: digits 2 d.day)

/-- The days before the first of a month. -/
def daysBeforeMonth (year month : Nat) : Nat :=
  ((List.range (month - 1)).map fun m => daysInMonth year (m + 1)).sum

/-- The number of the day, the first day of the first year being 1. -/
def toOrdinal (d : Day) : Nat :=
  let y := d.year - 1
  y * 365 + y / 4 - y / 100 + y / 400 + daysBeforeMonth d.year d.month + d.day

theorem day_lt (d : Day) : d.day < 100 := by
  have hmonth : daysInMonth d.year d.month ≤ 31 := by
    unfold daysInMonth
    split
    · split <;> omega
    · split <;> omega
  have := d.day_bound
  omega

end Day

/-- A reading of a clock in UTC. -/
structure Moment where
  date : Day
  hour : Nat
  minute : Nat
  second : Nat
  microsecond : Nat
  hour_bound : hour < 24
  minute_bound : minute < 60
  second_bound : second < 60
  microsecond_bound : microsecond < 1000000
deriving DecidableEq

namespace Moment

theorem mod_24_lt (n : Nat) : n % 24 < 24 := Nat.mod_lt n (by decide)

theorem mod_60_lt (n : Nat) : n % 60 < 60 := Nat.mod_lt n (by decide)

theorem mod_million_lt (n : Nat) : n % 1000000 < 1000000 := Nat.mod_lt n (by decide)

/-- The reading of a day with a time of the day. -/
def ofClock (date : Day) (hour minute second microsecond : Nat) : Moment :=
  ⟨date, hour % 24, minute % 60, second % 60, microsecond % 1000000, mod_24_lt hour,
    mod_60_lt minute, mod_60_lt second, mod_million_lt microsecond⟩

/-- The fields down to the second. -/
def seconds (m : Moment) : List Nat := m.date.fields ++ [m.hour, m.minute, m.second]

def fields (m : Moment) : List Nat := m.seconds ++ [m.microsecond]

instance : LE Moment := ⟨fun a b => a.fields ≤ b.fields⟩

instance (a b : Moment) : Decidable (a ≤ b) := inferInstanceAs (Decidable (a.fields ≤ b.fields))

theorem le_refl (a : Moment) : a ≤ a := le_of_eq (rfl : a.fields = a.fields)

theorem le_trans {a b c : Moment} (h : a ≤ b) (h' : b ≤ c) : a ≤ c :=
  have hab : a.fields ≤ b.fields := h
  hab.trans h'

/-- The microseconds since the start of the first year. -/
def micros (m : Moment) : Int :=
  (((m.date.toOrdinal - 1 : Int) * 24 + m.hour) * 60 + m.minute) * 60000000 +
    m.second * 1000000 + m.microsecond

def places : List (Nat × Char) := [(4, '-'), (2, '-'), (2, 'T'), (2, ':'), (2, ':'), (2, '+')]

/-- The ISO text to the second. -/
def isoformat (m : Moment) : String := .ofList (render places m.seconds ++ "00:00".toList)

theorem fits (m : Moment) : Fits places m.seconds := by
  have := m.date.year_bound
  have := m.date.month_bound
  have := m.date.day_lt
  have := m.hour_bound
  have := m.minute_bound
  have := m.second_bound
  refine ⟨?_, ?_, ?_, ?_, ?_, ?_, trivial⟩ <;> omega

/-- A later reading is in no earlier second. -/
theorem seconds_le {a b : Moment} (h : a ≤ b) : a.seconds ≤ b.seconds := by
  by_contra hnot
  have hlt : b.fields < a.fields := append_lt_append (not_le.mp hnot) rfl
  exact absurd h (not_le.mpr hlt)

/-- The text to the second keeps the order of the readings. -/
theorem isoformat_le {a b : Moment} (h : a ≤ b) : a.isoformat ≤ b.isoformat := by
  have hlist := render_le (p := "00:00".toList) a.fits b.fits (seconds_le h)
  rw [String.le_iff_toList_le]
  simpa only [isoformat, String.toList_ofList] using hlist

end Moment

end TradingAgents.ProofKit
