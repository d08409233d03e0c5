import TradingAgents.ProofKit.Moment

/-! Clock readings with an offset from UTC: the instant that a reading stands for, its reading in
UTC, and the ISO texts.  Among readings in UTC the order of the texts is the order of the instants,
with the microseconds left out where they are zero. -/

namespace TradingAgents.ProofKit

/-- Equal heads may be dropped from two lists in order. -/
theorem lt_of_append_lt_append {α : Type} [LinearOrder α] {x p q : List α} (h : x ++ p < x ++ q) :
    p < q := by
  by_contra hnot
  rcases lt_or_eq_of_le (not_lt.mp hnot) with hlt | rfl
  · exact lt_asymm h (List.append_left_lt hlt)
  · exact lt_irrefl _ h

/-! ### The days of the calendar -/

/-- The days before the first of a year, counted in whole years before it. -/
def daysBeforeYear (years : Nat) : Nat := years * 365 + years / 4 - years / 100 + years / 400

theorem daysBeforeYear_succ (years : Nat) : daysBeforeYear (years + 1) =
    daysBeforeYear years + 365 + if isLeap (years + 1) then 1 else 0 := by
  have hcentury : 100 ∣ years + 1 → 4 ∣ years + 1 := Nat.dvd_trans (by decide)
  have hcycle : 400 ∣ years + 1 → 100 ∣ years + 1 := Nat.dvd_trans (by decide)
  have hle : years / 100 ≤ years / 4 := Nat.div_le_div_left (by decide) (by decide)
  unfold daysBeforeYear isLeap
  rw [Nat.succ_div, Nat.succ_div, Nat.succ_div]
  simp only [Bool.and_eq_true, Bool.or_eq_true, decide_eq_true_eq, ← Nat.dvd_iff_mod_eq_zero, ne_eq]
  generalize years / 4 = p at *
  generalize years / 100 = q at *
  generalize years / 400 = r at *
  by_cases hfour : 4 ∣ years + 1
  · by_cases hhundred : 100 ∣ years + 1
    · by_cases hlong : 400 ∣ years + 1
      · simp only [hfour, hhundred, hlong]
        simp
        omega
      · simp only [hfour, hhundred, hlong]
        simp
        omega
    · have hlong : ¬ 400 ∣ years + 1 := fun h => hhundred (hcycle h)
      simp only [hfour, hhundred, hlong]
      simp
      omega
  · have hhundred : ¬ 100 ∣ years + 1 := fun h => hfour (hcentury h)
    have hlong : ¬ 400 ∣ years + 1 := fun h => hhundred (hcycle h)
    simp only [hfour, hhundred, hlong]
    simp
    omega

theorem daysBeforeYear_mono {a b : Nat} (h : a ≤ b) : daysBeforeYear a ≤ daysBeforeYear b := by
  induction h with
  | refl => exact Nat.le_refl _
  | step _ ih =>
    rw [daysBeforeYear_succ]
    omega

theorem daysBeforeMonth_succ (year : Nat) {month : Nat} (h : 1 ≤ month) :
    Day.daysBeforeMonth year (month + 1) =
      Day.daysBeforeMonth year month + daysInMonth year month := by
  obtain ⟨n, rfl⟩ := Nat.exists_eq_add_of_le' h
  simp [Day.daysBeforeMonth, List.range_succ]

theorem daysBeforeMonth_le (year : Nat) {a b : Nat} (ha : 1 ≤ a) (h : a ≤ b) :
    Day.daysBeforeMonth year a ≤ Day.daysBeforeMonth year b := by
  induction h with
  | refl => exact Nat.le_refl _
  | @step b hb ih =>
    rw [daysBeforeMonth_succ year (Nat.le_trans ha hb)]
    omega

/-- The days of a year. -/
theorem daysBeforeMonth_thirteen (year : Nat) :
    Day.daysBeforeMonth year 13 = 365 + if isLeap year then 1 else 0 := by
  have hrange : List.range (13 - 1) = [0, 1, 2, 3, 4, 5, 6, 7, 8, 9, 10, 11] := by decide
  unfold Day.daysBeforeMonth
  rw [hrange]
  cases hleap : isLeap year <;> simp [daysInMonth, hleap]

namespace Day

theorem toOrdinal_eq (d : Day) :
    d.toOrdinal = daysBeforeYear (d.year - 1) + daysBeforeMonth d.year d.month + d.day := rfl

/-- A day is no later than the last of its month. -/
theorem toOrdinal_le (d : Day) :
    d.toOrdinal ≤ daysBeforeYear (d.year - 1) + daysBeforeMonth d.year (d.month + 1) := by
  have hday := d.day_bound.2
  rw [toOrdinal_eq, daysBeforeMonth_succ d.year d.month_bound.1]
  omega

/-- A day is no later than the last of its year. -/
theorem toOrdinal_le_year (d : Day) : d.toOrdinal ≤ daysBeforeYear d.year := by
  have hmonth := d.month_bound
  have hyear := d.year_bound.1
  have hle := d.toOrdinal_le
  have hlast := daysBeforeMonth_le d.year (Nat.le_add_left 1 d.month)
    (show d.month + 1 ≤ 13 by omega)
  have hsucc := daysBeforeYear_succ (d.year - 1)
  rw [Nat.sub_add_cancel hyear] at hsucc
  have hdays := daysBeforeMonth_thirteen d.year
  omega

theorem lt_toOrdinal_year (d : Day) : daysBeforeYear (d.year - 1) < d.toOrdinal := by
  have hday := d.day_bound.1
  rw [toOrdinal_eq]
  omega

theorem fields_inj {d e : Day} (h : d.fields = e.fields) : d = e := by
  cases d
  cases e
  simp only [fields, List.cons.injEq, and_true] at h
  obtain ⟨rfl, rfl, rfl⟩ := h
  rfl

/-- An earlier day has a smaller number. -/
theorem toOrdinal_lt {d e : Day} (h : d.fields < e.fields) : d.toOrdinal < e.toOrdinal := by
  unfold fields at h
  simp only [List.cons_lt_cons_iff, lt_self_iff_false, and_false, or_false] at h
  rcases h with hyear | ⟨hyear, hmonth | ⟨hmonth, hday⟩⟩
  · have hle := d.toOrdinal_le_year
    have hlt := e.lt_toOrdinal_year
    have hmono := daysBeforeYear_mono (Nat.le_sub_one_of_lt hyear)
    omega
  · have hle := d.toOrdinal_le
    have hmono := daysBeforeMonth_le e.year (Nat.le_add_left 1 d.month) hmonth
    have hday := e.day_bound.1
    rw [toOrdinal_eq e]
    rw [hyear] at hle
    omega
  · rw [toOrdinal_eq, toOrdinal_eq, hyear, hmonth]
    omega

theorem length_isoformat (d : Day) : d.isoformat.toList.length = 10 := by
  simp only [isoformat, String.toList_ofList, List.length_append, List.length_cons, length_digits]

theorem isoformat_lt {d e : Day} (h : d.fields < e.fields) : d.isoformat < e.isoformat := by
  have hd := d.year_bound
  have he := e.year_bound
  have hd' := d.month_bound
  have he' := e.month_bound
  rw [String.lt_iff_toList_lt]
  simp only [isoformat, String.toList_ofList, List.append_assoc]
  unfold fields at h
  simp only [List.cons_lt_cons_iff, lt_self_iff_false, and_false, or_false] at h
  rcases h with hyear | ⟨hyear, hmonth | ⟨hmonth, hday⟩⟩
  · refine append_lt_append (digits_lt hyear (by omega)) ?_
    rw [length_digits, length_digits]
  · rw [hyear]
    refine List.append_left_lt (List.cons_lt_cons_iff.mpr (.inr ⟨rfl, ?_⟩))
    refine append_lt_append (digits_lt hmonth (by omega)) ?_
    rw [length_digits, length_digits]
  · rw [hyear, hmonth]
    refine List.append_left_lt (List.append_left_lt (List.cons_lt_cons_iff.mpr (.inr ⟨rfl, ?_⟩)))
    exact digits_lt hday e.day_lt

/-- The order of the texts is the order of the days. -/
theorem isoformat_le_iff {d e : Day} : d.isoformat ≤ e.isoformat ↔ d.toOrdinal ≤ e.toOrdinal := by
  rcases lt_trichotomy d.fields e.fields with hlt | heq | hlt
  · exact iff_of_true (isoformat_lt hlt).le (toOrdinal_lt hlt).le
  · rw [fields_inj heq]
    exact iff_of_true le_rfl le_rfl
  · exact iff_of_false (not_le.mpr (isoformat_lt hlt)) (not_le.mpr (toOrdinal_lt hlt))

theorem daysInMonth_pos (year month : Nat) : 1 ≤ daysInMonth year month := by
  unfold daysInMonth
  split_ifs <;> omega

/-- The next day; the last day of the calendar has none. -/
def next (d : Day) : Option Day :=
  if hday : d.day < daysInMonth d.year d.month then
    some { d with day := d.day + 1, day_bound := ⟨by omega, hday⟩ }
  else if hmonth : d.month < 12 then
    some { d with month := d.month + 1, month_bound := ⟨by omega, hmonth⟩, day := 1
                  day_bound := ⟨by omega, daysInMonth_pos _ _⟩ }
  else if hyear : d.year < 9999 then
    some ⟨d.year + 1, 1, 1, ⟨by omega, hyear⟩, by omega, by omega, daysInMonth_pos _ _⟩
  else none

/-- The day before; the first day of the calendar has none. -/
def prev (d : Day) : Option Day :=
  if hday : 1 < d.day then
    some { d with day := d.day - 1
                  day_bound := by
                    have := d.day_bound
                    omega }
  else if hmonth : 1 < d.month then
    some ⟨d.year, d.month - 1, daysInMonth d.year (d.month - 1), d.year_bound,
      ⟨by omega, by have := d.month_bound; omega⟩, daysInMonth_pos _ _, Nat.le_refl _⟩
  else if hyear : 1 < d.year then
    some ⟨d.year - 1, 12, 31, ⟨by omega, by have := d.year_bound; omega⟩, by omega, by omega,
      Nat.le_refl _⟩
  else none

theorem toOrdinal_next {d e : Day} (h : d.next = some e) : e.toOrdinal = d.toOrdinal + 1 := by
  have hday := d.day_bound
  have hmonth := d.month_bound
  have hyear := d.year_bound
  unfold next at h
  split_ifs at h with hlast hyearend hend
  · cases h
    rfl
  · cases h
    rw [toOrdinal_eq, toOrdinal_eq]
    dsimp only
    rw [daysBeforeMonth_succ d.year hmonth.1]
    omega
  · cases h
    have hsucc := daysBeforeYear_succ (d.year - 1)
    have hdays := daysBeforeMonth_thirteen d.year
    have hdecember : d.month = 12 := by omega
    rw [daysBeforeMonth_succ d.year (show 1 ≤ 12 by decide)] at hdays
    rw [Nat.sub_add_cancel hyear.1] at hsucc
    rw [toOrdinal_eq, toOrdinal_eq]
    dsimp only
    rw [hdecember] at hlast hday ⊢
    rw [Nat.add_sub_cancel]
    change daysBeforeYear d.year + 0 + 1 = _
    omega

theorem toOrdinal_prev {d e : Day} (h : d.prev = some e) : e.toOrdinal + 1 = d.toOrdinal := by
  have hday := d.day_bound
  have hmonth := d.month_bound
  have hyear := d.year_bound
  unfold prev at h
  split_ifs at h with hfirst hyearstart hstart
  · cases h
    rw [toOrdinal_eq, toOrdinal_eq]
    dsimp only
    omega
  · cases h
    have hsucc := daysBeforeMonth_succ d.year (Nat.le_sub_one_of_lt hyearstart)
    rw [Nat.sub_add_cancel hmonth.1] at hsucc
    rw [toOrdinal_eq, toOrdinal_eq]
    dsimp only
    omega
  · cases h
    have hsucc := daysBeforeYear_succ (d.year - 1 - 1)
    have hdays := daysBeforeMonth_thirteen (d.year - 1)
    have hjanuary : d.month = 1 := by omega
    rw [daysBeforeMonth_succ _ (show 1 ≤ 12 by decide)] at hdays
    rw [Nat.sub_add_cancel (Nat.le_sub_one_of_lt hstart)] at hsucc
    rw [toOrdinal_eq, toOrdinal_eq, hjanuary]
    dsimp only
    change _ = daysBeforeYear (d.year - 1) + 0 + d.day
    have hdecember : daysInMonth (d.year - 1) 12 = 31 := rfl
    omega

end Day

/-! ### Readings in UTC -/

/-- The microseconds of a day. -/
def dayMicros : Nat := 86400000000

namespace Moment

/-- The microseconds since midnight. -/
def timeMicros (m : Moment) : Nat :=
  ((m.hour * 60 + m.minute) * 60 + m.second) * 1000000 + m.microsecond

theorem timeMicros_lt (m : Moment) : m.timeMicros < dayMicros := by
  have := m.hour_bound
  have := m.minute_bound
  have := m.second_bound
  have := m.microsecond_bound
  unfold timeMicros dayMicros
  omega

theorem micros_eq (m : Moment) :
    m.micros = ((m.date.toOrdinal : Int) - 1) * dayMicros + m.timeMicros := by
  unfold micros timeMicros dayMicros
  push_cast
  ring

/-- The reading of a day so many microseconds after midnight. -/
def ofDayMicros (date : Day) (t : Nat) : Moment :=
  ofClock date (t / 3600000000) (t / 60000000) (t / 1000000) t

theorem timeMicros_ofDayMicros (date : Day) {t : Nat} (h : t < dayMicros) :
    (ofDayMicros date t).timeMicros = t := by
  unfold dayMicros at h
  change ((t / 3600000000 % 24 * 60 + t / 60000000 % 60) * 60 + t / 1000000 % 60) * 1000000 +
    t % 1000000 = t
  omega

theorem micros_ofDayMicros (date : Day) {t : Nat} (h : t < dayMicros) :
    (ofDayMicros date t).micros = ((date.toOrdinal : Int) - 1) * dayMicros + t := by
  rw [micros_eq, timeMicros_ofDayMicros date h]
  rfl

theorem fields_inj {a b : Moment} (h : a.fields = b.fields) : a = b := by
  obtain ⟨hdate, htime⟩ := List.append_inj (show a.date.fields ++
    [a.hour, a.minute, a.second, a.microsecond] = b.date.fields ++
      [b.hour, b.minute, b.second, b.microsecond] by
    simpa only [fields, seconds, List.append_assoc, List.cons_append, List.nil_append] using h) rfl
  have hdate := Day.fields_inj hdate
  cases a
  cases b
  simp only [List.cons.injEq, and_true] at htime
  obtain ⟨rfl, rfl, rfl, rfl⟩ := htime
  dsimp only at hdate
  subst hdate
  rfl

/-- An earlier reading is on an earlier day, or earlier on the same day. -/
theorem fields_lt {a b : Moment} (h : a.fields < b.fields) :
    a.date.fields < b.date.fields ∨ a.date = b.date ∧ a.timeMicros < b.timeMicros := by
  have := b.minute_bound
  have := a.minute_bound
  have := a.second_bound
  have := a.microsecond_bound
  unfold fields seconds Day.fields at h
  simp only [List.cons_append, List.nil_append, List.cons_lt_cons_iff, lt_self_iff_false,
    and_false, or_false] at h
  unfold Day.fields timeMicros
  simp only [List.cons_lt_cons_iff, lt_self_iff_false, and_false, or_false]
  rcases h with hyear | ⟨hyear, hmonth | ⟨hmonth, hday | ⟨hday, htime⟩⟩⟩
  · exact .inl (.inl hyear)
  · exact .inl (.inr ⟨hyear, .inl hmonth⟩)
  · exact .inl (.inr ⟨hyear, .inr ⟨hmonth, hday⟩⟩)
  · refine .inr ⟨Day.fields_inj ?_, by omega⟩
    rw [Day.fields, Day.fields, hyear, hmonth, hday]

/-- An earlier reading is an earlier instant. -/
theorem micros_lt {a b : Moment} (h : a.fields < b.fields) : a.micros < b.micros := by
  have hlt := a.timeMicros_lt
  rw [micros_eq, micros_eq]
  rcases fields_lt h with hdate | ⟨hdate, htime⟩
  · have hordinal := Day.toOrdinal_lt hdate
    unfold dayMicros at *
    omega
  · rw [hdate]
    omega

theorem le_iff_micros {a b : Moment} : a ≤ b ↔ a.micros ≤ b.micros := by
  change a.fields ≤ b.fields ↔ _
  rcases lt_trichotomy a.fields b.fields with hlt | heq | hlt
  · exact iff_of_true (le_of_lt hlt) (le_of_lt (micros_lt hlt))
  · rw [fields_inj heq]
    exact iff_of_true le_rfl le_rfl
  · exact iff_of_false (not_le.mpr hlt) (not_le.mpr (micros_lt hlt))

/-! ### Texts -/

/-- The fields down to the minute. -/
def minutes (m : Moment) : List Nat := m.date.fields ++ [m.hour, m.minute]

def minutePlaces : List (Nat × Char) := [(4, '-'), (2, '-'), (2, 'T'), (2, ':'), (2, ':')]

/-- The text of a fraction of a second; zero microseconds are left out. -/
def fractionText (microsecond : Nat) : List Char :=
  if microsecond = 0 then [] else '.' :: digits 6 microsecond

/-- The text of a reading without its offset. -/
def clockText (m : Moment) : List Char :=
  render minutePlaces m.minutes ++ (digits 2 m.second ++ fractionText m.microsecond)

/-- The text of a reading in UTC. -/
def utcText (m : Moment) : String := .ofList (m.clockText ++ "+00:00".toList)

theorem fraction_lt {a b : Nat} (h : a < b) (hb : b < 1000000) :
    fractionText a ++ "+00:00".toList < fractionText b ++ "+00:00".toList := by
  unfold fractionText
  rw [if_neg (show b ≠ 0 by omega)]
  split
  · change '+' :: "00:00".toList < '.' :: _
    exact List.cons_lt_cons_iff.mpr (.inl (by decide))
  · rw [List.cons_append, List.cons_append, List.cons_lt_cons_iff]
    exact .inr ⟨rfl, append_lt_append (digits_lt h hb) (by rw [length_digits, length_digits])⟩

theorem fits_minutes (m : Moment) : Fits minutePlaces m.minutes := by
  have := m.date.year_bound
  have := m.date.month_bound
  have := m.date.day_lt
  have := m.hour_bound
  have := m.minute_bound
  refine ⟨?_, ?_, ?_, ?_, ?_, trivial⟩ <;> omega

theorem fields_eq (m : Moment) : m.fields = m.minutes ++ [m.second, m.microsecond] := by
  simp only [fields, seconds, minutes, List.append_assoc, List.cons_append, List.nil_append]

/-- An earlier reading is in an earlier minute, or earlier in the same minute. -/
theorem minutes_lt {a b : Moment} (h : a.fields < b.fields) : a.minutes < b.minutes ∨
    a.minutes = b.minutes ∧
      (a.second < b.second ∨ a.second = b.second ∧ a.microsecond < b.microsecond) := by
  rw [fields_eq, fields_eq] at h
  rcases lt_trichotomy a.minutes b.minutes with hlt | heq | hlt
  · exact .inl hlt
  · have hrest := lt_of_append_lt_append (heq ▸ h)
    simp only [List.cons_lt_cons_iff, lt_self_iff_false, and_false, or_false] at hrest
    exact .inr ⟨heq, hrest⟩
  · exact absurd h (lt_asymm (append_lt_append hlt rfl))

/-- An earlier reading has a smaller text: the sign of the offset comes before the point of a
fraction. -/
theorem utcText_lt {a b : Moment} (h : a.fields < b.fields) : a.utcText < b.utcText := by
  rw [String.lt_iff_toList_lt]
  simp only [utcText, clockText, String.toList_ofList, List.append_assoc]
  rcases minutes_lt h with hlt | ⟨heq, hsecond | ⟨hsecond, hmicro⟩⟩
  · exact render_lt a.fits_minutes b.fits_minutes hlt
  · have hbound := b.second_bound
    rw [heq]
    refine List.append_left_lt (append_lt_append (digits_lt hsecond (by omega)) ?_)
    rw [length_digits, length_digits]
  · rw [heq, hsecond]
    exact List.append_left_lt (List.append_left_lt (fraction_lt hmicro b.microsecond_bound))

/-- The order of the texts is the order of the instants. -/
theorem utcText_le_iff {a b : Moment} : a.utcText ≤ b.utcText ↔ a.micros ≤ b.micros := by
  rw [← le_iff_micros]
  change _ ↔ a.fields ≤ b.fields
  rcases lt_trichotomy a.fields b.fields with hlt | heq | hlt
  · exact iff_of_true (le_of_lt (utcText_lt hlt)) (le_of_lt hlt)
  · rw [fields_inj heq]
    exact iff_of_true le_rfl le_rfl
  · exact iff_of_false (not_le.mpr (utcText_lt hlt)) (not_le.mpr hlt)

end Moment

/-! ### Readings with an offset -/

/-- A reading of a clock whose offset from UTC is so many microseconds. -/
structure AwareMoment where
  clock : Moment
  offset : Int
  offset_bound : -(dayMicros : Int) < offset ∧ offset < dayMicros
deriving DecidableEq

namespace AwareMoment

/-- The instant: the microseconds since the start of the first year in UTC. -/
def micros (a : AwareMoment) : Int := a.clock.micros - a.offset

/-- The same instant in UTC; none outside the calendar. -/
def astimezoneUtc (a : AwareMoment) : Option Moment :=
  let t := (a.clock.timeMicros : Int) - a.offset
  if t < 0 then a.clock.date.prev.map fun date => Moment.ofDayMicros date (t + dayMicros).toNat
  else if t < dayMicros then some (Moment.ofDayMicros a.clock.date t.toNat)
  else a.clock.date.next.map fun date => Moment.ofDayMicros date (t - dayMicros).toNat

theorem micros_astimezoneUtc {a : AwareMoment} {m : Moment} (h : a.astimezoneUtc = some m) :
    m.micros = a.micros := by
  have htime := a.clock.timeMicros_lt
  have hoffset := a.offset_bound
  have hmicros := a.clock.micros_eq
  unfold astimezoneUtc at h
  dsimp only at h
  unfold micros
  unfold dayMicros at *
  split_ifs at h with hneg hpos
  · obtain ⟨date, hdate, rfl⟩ := Option.map_eq_some_iff.mp h
    have hordinal := Day.toOrdinal_prev hdate
    rw [Moment.micros_ofDayMicros date (by unfold dayMicros; omega)]
    unfold dayMicros
    omega
  · cases h
    rw [Moment.micros_ofDayMicros a.clock.date (by unfold dayMicros; omega)]
    unfold dayMicros
    omega
  · obtain ⟨date, hdate, rfl⟩ := Option.map_eq_some_iff.mp h
    have hordinal := Day.toOrdinal_next hdate
    rw [Moment.micros_ofDayMicros date (by unfold dayMicros; omega)]
    unfold dayMicros
    omega

/-- The text of an offset: hours and minutes, and what is left of it. -/
def offsetText (offset : Int) : List Char :=
  let n := offset.natAbs
  (if offset < 0 then '-' else '+') :: (digits 2 (n / 3600000000) ++
    ':' :: digits 2 (n / 60000000 % 60) ++
    (if n % 60000000 = 0 then [] else ':' :: digits 2 (n / 1000000 % 60)) ++
    Moment.fractionText (n % 1000000))

def isoformat (a : AwareMoment) : String := .ofList (a.clock.clockText ++ offsetText a.offset)

/-- The text begins with the date of the reading. -/
theorem date_prefix_isoformat (a : AwareMoment) :
    a.clock.date.isoformat.toList <+: a.isoformat.toList := by
  refine ⟨'T' :: (render [(2, ':'), (2, ':')] [a.clock.hour, a.clock.minute] ++
    (digits 2 a.clock.second ++ Moment.fractionText a.clock.microsecond)) ++
      offsetText a.offset, ?_⟩
  simp only [Day.isoformat, isoformat, Moment.clockText, Moment.minutes, Moment.minutePlaces,
    Day.fields, render, String.toList_ofList, List.append_assoc, List.cons_append,
    List.nil_append]

/-- A reading of a clock in UTC. -/
def ofUtc (m : Moment) : AwareMoment := ⟨m, 0, by decide⟩

theorem offsetText_zero : offsetText 0 = "+00:00".toList := by decide

theorem isoformat_ofUtc (m : Moment) : (ofUtc m).isoformat = m.utcText := by
  unfold isoformat Moment.utcText
  rw [← offsetText_zero]
  rfl

end AwareMoment

end TradingAgents.ProofKit
