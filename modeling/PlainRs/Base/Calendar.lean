import Mathlib

/-! Dates of the proleptic Gregorian calendar, counted from the first day of the year 1. -/
namespace Calendar

variable {y y' m m' : ℕ}

def IsLeap (y : ℕ) : Prop := 4 ∣ y ∧ (¬ 100 ∣ y ∨ 400 ∣ y)

instance : DecidablePred IsLeap := fun _ => inferInstanceAs (Decidable (_ ∧ _))

def daysInYear (y : ℕ) : ℕ := if IsLeap y then 366 else 365

def daysInMonth (y m : ℕ) : ℕ :=
  if m = 2 then if IsLeap y then 29 else 28
  else if m = 4 ∨ m = 6 ∨ m = 9 ∨ m = 11 then 30 else 31

/-- The days of the years from the year 1 on: each fourth is a leap year, but of the hundredths only
each fourth. -/
def daysBeforeYear (y : ℕ) : ℕ := 365 * (y - 1) + (y - 1) / 4 - (y - 1) / 100 + (y - 1) / 400

def daysBeforeMonth (y m : ℕ) : ℕ := ((List.range' 1 (m - 1)).map (daysInMonth y)).sum

structure Date where
  year : ℕ
  month : ℕ
  day : ℕ
  year_pos : 1 ≤ year
  month_mem : 1 ≤ month ∧ month ≤ 12
  day_mem : 1 ≤ day ∧ day ≤ daysInMonth year month

/-- The first day of the year 1 is day 1. -/
def Date.ordinal (d : Date) : ℕ := daysBeforeYear d.year + daysBeforeMonth d.year d.month + d.day

structure DateTime where
  date : Date
  hour : ℕ
  minute : ℕ
  second : ℕ
  hour_lt : hour < 24
  minute_lt : minute < 60
  second_lt : second < 60

/-- The seconds since the beginning of the day before the first. -/
def DateTime.seconds (t : DateTime) : ℕ :=
  ((t.date.ordinal * 24 + t.hour) * 60 + t.minute) * 60 + t.second

section Counting

theorem daysBeforeYear_succ (h : 1 ≤ y) :
    daysBeforeYear (y + 1) = daysBeforeYear y + daysInYear y := by
  obtain ⟨k, rfl⟩ := Nat.exists_eq_add_of_le' h
  have hle : k / 100 ≤ k / 4 := Nat.div_le_div_left (by omega) (by omega)
  have h400 : 400 ∣ k + 1 → 100 ∣ k + 1 := Nat.dvd_trans (by decide)
  have h100 : 100 ∣ k + 1 → 4 ∣ k + 1 := Nat.dvd_trans (by decide)
  simp only [daysBeforeYear, daysInYear, IsLeap, Nat.add_sub_cancel, Nat.succ_div]
  generalize k / 4 = fours at *
  generalize k / 100 = hundreds at *
  by_cases hfour : 4 ∣ k + 1
  · by_cases hhundred : 100 ∣ k + 1
    · by_cases hfourhundred : 400 ∣ k + 1
      · simp only [hfour, hhundred, hfourhundred, if_true, not_true, or_true, and_self]
        omega
      · simp only [hfour, hhundred, hfourhundred, if_true, if_false, not_true, or_self, and_false]
        omega
    · simp only [hfour, hhundred, mt h400 hhundred, if_true, if_false, not_false_eq_true, true_or,
        and_self]
      omega
  · simp only [hfour, mt h100 hfour, mt h400 (mt h100 hfour), if_false, false_and]
    omega

theorem daysBeforeYear_mono (h : 1 ≤ y) (hle : y ≤ y') : daysBeforeYear y ≤ daysBeforeYear y' := by
  induction y', hle using Nat.le_induction with
  | base => exact le_rfl
  | succ y' hle ih =>
    rw [daysBeforeYear_succ (h.trans hle)]
    exact ih.trans (Nat.le_add_right _ _)

theorem daysBeforeMonth_succ (h : 1 ≤ m) :
    daysBeforeMonth y (m + 1) = daysBeforeMonth y m + daysInMonth y m := by
  obtain ⟨k, rfl⟩ := Nat.exists_eq_add_of_le' h
  rw [daysBeforeMonth, daysBeforeMonth, Nat.add_sub_cancel, Nat.add_sub_cancel, List.range'_concat]
  simp [Nat.add_comm]

theorem daysBeforeMonth_mono (h : 1 ≤ m) (hle : m ≤ m') :
    daysBeforeMonth y m ≤ daysBeforeMonth y m' := by
  induction m', hle using Nat.le_induction with
  | base => exact le_rfl
  | succ m' hle ih =>
    rw [daysBeforeMonth_succ (h.trans hle)]
    exact ih.trans (Nat.le_add_right _ _)

/-- All months make a year. -/
theorem daysBeforeMonth_end (y : ℕ) : daysBeforeMonth y 13 = daysInYear y := by
  have hrange : List.range' 1 12 = [1, 2, 3, 4, 5, 6, 7, 8, 9, 10, 11, 12] := by decide
  rw [daysBeforeMonth, hrange, daysInYear]
  by_cases h : IsLeap y <;> simp [daysInMonth, h]

end Counting

section Dates

theorem Date.ordinal_bounds (d : Date) :
    daysBeforeYear d.year < d.ordinal ∧ d.ordinal ≤ daysBeforeYear (d.year + 1) := by
  have hmonth := daysBeforeMonth_succ (y := d.year) d.month_mem.1
  have hyear := daysBeforeMonth_mono (y := d.year) (show 1 ≤ d.month + 1 by omega)
    (Nat.succ_le_succ d.month_mem.2)
  have hday := d.day_mem
  rw [daysBeforeMonth_end] at hyear
  rw [daysBeforeYear_succ d.year_pos, Date.ordinal]
  omega

/-- A day has one date. -/
theorem Date.ordinal_injective : Function.Injective Date.ordinal := by
  have hyear : ∀ d e : Date, d.ordinal = e.ordinal → ¬ d.year < e.year := by
    intro d e h hlt
    have hmono := daysBeforeYear_mono (show 1 ≤ d.year + 1 by omega) hlt
    have hd := d.ordinal_bounds
    have he := e.ordinal_bounds
    omega
  have hmonth : ∀ d e : Date, d.ordinal = e.ordinal → d.year = e.year → ¬ d.month < e.month := by
    intro d e h hsame hlt
    have hmono := daysBeforeMonth_mono (y := e.year) (show 1 ≤ d.month + 1 by omega) hlt
    have hd := d.day_mem
    have he := e.day_mem
    rw [daysBeforeMonth_succ d.month_mem.1] at hmono
    rw [Date.ordinal, Date.ordinal, hsame] at h
    rw [hsame] at hd
    omega
  intro d e h
  have hy : d.year = e.year :=
    le_antisymm (not_lt.mp (hyear e d h.symm)) (not_lt.mp (hyear d e h))
  have hm : d.month = e.month :=
    le_antisymm (not_lt.mp (hmonth e d h.symm hy.symm)) (not_lt.mp (hmonth d e h hy))
  have hd : d.day = e.day := by
    rw [Date.ordinal, Date.ordinal, hy, hm] at h
    omega
  cases d
  cases e
  simp only at hy hm hd
  subst hy hm hd
  rfl

/-- A count of units is told from what is less than a unit. -/
theorem units_inj {k a b a' b' : ℕ} (hb : b < k) (hb' : b' < k) (h : a * k + b = a' * k + b') :
    a = a' ∧ b = b' := by
  have hdiv := congrArg (· / k) h
  have hmod := congrArg (· % k) h
  simp only [Nat.mul_comm _ k, Nat.mul_add_div (by omega : k > 0), Nat.div_eq_of_lt hb,
    Nat.div_eq_of_lt hb', Nat.mul_add_mod, Nat.mod_eq_of_lt hb, Nat.mod_eq_of_lt hb'] at hdiv hmod
  exact ⟨hdiv, hmod⟩

/-- An instant has one date and time. -/
theorem DateTime.seconds_injective : Function.Injective DateTime.seconds := by
  intro t u h
  rw [DateTime.seconds, DateTime.seconds] at h
  obtain ⟨h, hsecond⟩ := units_inj t.second_lt u.second_lt h
  obtain ⟨h, hminute⟩ := units_inj t.minute_lt u.minute_lt h
  obtain ⟨h, hhour⟩ := units_inj t.hour_lt u.hour_lt h
  have hdate := Date.ordinal_injective h
  cases t
  cases u
  simp only at hdate hhour hminute hsecond
  subst hdate hhour hminute hsecond
  rfl

end Dates

end Calendar
