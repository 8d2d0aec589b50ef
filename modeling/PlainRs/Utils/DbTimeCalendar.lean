import PlainRs.Base.Calendar
import PlainRs.Utils.DbTimeMillis

/-! The date and time that a timestamp shows are those of the calendar. -/
namespace PlainRs.Utils

open Calendar Digits

variable {fuel year y m k days : ℕ}

section Loops

theorem isLeap_iff : isLeap y = true ↔ IsLeap y := by
  simp only [isLeap, IsLeap, decide_eq_true_eq, Nat.dvd_iff_mod_eq_zero]

theorem year_length (y : ℕ) : (if isLeap y then 366 else 365) = daysInYear y := by
  simp only [isLeap_iff, daysInYear]

/-- The days that the loop takes off are those of the years it passes. -/
theorem yearOfDays_count (h : 1 ≤ year) :
    daysBeforeYear (yearOfDays fuel year days).1 + (yearOfDays fuel year days).2 =
      daysBeforeYear year + days := by
  induction fuel generalizing year days with
  | zero => rfl
  | succ fuel ih =>
    by_cases hd : days < if isLeap year then 366 else 365
    · rw [yearOfDays_of_lt hd]
    · rw [yearOfDays_succ_of_ge hd, ih (by omega), daysBeforeYear_succ h]
      rw [year_length] at hd ⊢
      omega

theorem monthLengths_eq (y : ℕ) : monthLengths y = (List.range' 1 12).map (daysInMonth y) := by
  have hrange : List.range' 1 12 = [1, 2, 3, 4, 5, 6, 7, 8, 9, 10, 11, 12] := by decide
  rw [hrange, monthLengths]
  simp [daysInMonth, isLeap_iff]

/-- The days that the loop takes off are those of the months it passes. -/
theorem monthOfDays_count (hm : 1 ≤ m) (h : days < ((List.range' m k).map (daysInMonth y)).sum) :
    m ≤ (monthOfDays ((List.range' m k).map (daysInMonth y)) m days).1 ∧
      (monthOfDays ((List.range' m k).map (daysInMonth y)) m days).1 < m + k ∧
      (monthOfDays ((List.range' m k).map (daysInMonth y)) m days).2 <
        daysInMonth y (monthOfDays ((List.range' m k).map (daysInMonth y)) m days).1 ∧
      daysBeforeMonth y (monthOfDays ((List.range' m k).map (daysInMonth y)) m days).1 +
          (monthOfDays ((List.range' m k).map (daysInMonth y)) m days).2 =
        daysBeforeMonth y m + days := by
  induction k generalizing m days with
  | zero => exact absurd h (Nat.not_lt_zero _)
  | succ k ih =>
    rw [List.range'_succ, List.map_cons, List.sum_cons] at h
    rw [List.range'_succ, List.map_cons, monthOfDays]
    split
    · next hd => exact ⟨le_rfl, by omega, hd, rfl⟩
    · next hd =>
      obtain ⟨hle, hlt, hrest, hcount⟩ :=
        @ih (m + 1) (days - daysInMonth y m) (by omega) (by omega)
      rw [daysBeforeMonth_succ hm] at hcount
      exact ⟨by omega, by omega, hrest, by omega⟩

def epoch : Date where
  year := 1970
  month := 1
  day := 1
  year_pos := by decide
  month_mem := by decide
  day_mem := by decide

/-- The date that the loops come to. -/
theorem civilOfDays_date (days : ℕ) : ∃ d : Date,
    civilOfDays days = (d.year, d.month, d.day) ∧ d.ordinal = epoch.ordinal + days := by
  have hfuel : days < 365 * (days / 365 + 1) := by omega
  have hyear := le_yearOfDays (days / 365) 1970 days
  have hcount := @yearOfDays_count (days / 365) 1970 days (by decide)
  have hrest := yearOfDays_rest 1970 hfuel
  rw [year_length] at hrest
  simp only [civilOfDays]
  generalize yearOfDays (days / 365) 1970 days = at_ at *
  obtain ⟨y, rest⟩ := at_
  dsimp only at *
  rw [monthLengths_eq]
  have hsum : rest < ((List.range' 1 12).map (daysInMonth y)).sum := by
    have hend := daysBeforeMonth_end y
    rw [daysBeforeMonth] at hend
    rwa [hend]
  obtain ⟨hm, hm', hday, hmonth⟩ := monthOfDays_count le_rfl hsum
  generalize monthOfDays ((List.range' 1 12).map (daysInMonth y)) 1 rest = at_ at *
  obtain ⟨m, d⟩ := at_
  dsimp only at *
  refine ⟨⟨y, m, d + 1, by omega, ⟨hm, by omega⟩, by omega, hday⟩, rfl, ?_⟩
  have hzero : daysBeforeMonth y 1 = 0 := rfl
  have hfirst : epoch.ordinal = daysBeforeYear 1970 + 1 := by decide
  rw [hzero] at hmonth
  rw [Date.ordinal, hfirst]
  dsimp only
  omega

end Loops

section Texts

def epochTime : DateTime where
  date := epoch
  hour := 0
  minute := 0
  second := 0
  hour_lt := by decide
  minute_lt := by decide
  second_lt := by decide

/-- The beginning of the year 10000. -/
def lastTime : DateTime where
  date := { year := 10000, month := 1, day := 1, year_pos := by decide, month_mem := by decide,
            day_mem := by decide }
  hour := 0
  minute := 0
  second := 0
  hour_lt := by decide
  minute_lt := by decide
  second_lt := by decide

/-- The milliseconds since the epoch that fall before the year 10000. -/
abbrev Instant := {millis : ℕ // epochTime.seconds + millis / 1000 < lastTime.seconds}

theorem Instant.lt (t : Instant) : t.val / 1000 < 253402300800 := by
  have hfirst : epochTime.seconds = 62135683200 := by decide +kernel
  have hlast : lastTime.seconds = 315537984000 := by decide +kernel
  have ht := t.property
  omega

/-- `YYYY-MM-DDThh:mm:ss` -/
def shown (t : DateTime) : List Char :=
  fixed 4 t.date.year ++ '-' :: (fixed 2 t.date.month ++ '-' :: (fixed 2 t.date.day ++ 'T' ::
    (fixed 2 t.hour ++ ':' :: (fixed 2 t.minute ++ ':' :: fixed 2 t.second))))

theorem stampOfSecs_shown (secs : ℕ) : ∃ t : DateTime,
    t.seconds = epochTime.seconds + secs ∧ stampOfSecs secs = shown t := by
  obtain ⟨d, hcivil, hordinal⟩ := civilOfDays_date (secs / 60 / 60 / 24)
  refine ⟨⟨d, secs / 60 / 60 % 24, secs / 60 % 60, secs % 60, by omega, by omega, by omega⟩, ?_, ?_⟩
  · have hfirst : epochTime.seconds = epoch.ordinal * 24 * 60 * 60 := rfl
    rw [hfirst, DateTime.seconds, hordinal]
    dsimp only
    omega
  · rw [stampOfSecs, hcivil]
    rfl

theorem unixSecsToIso8601_mono :
    StrictMonoOn unixSecsToIso8601 {secs | secs < 253402300800} :=
  fun _ _ _ hlast h => unixSecsToIso8601_lt h hlast

theorem unixMillisToIso8601_mono :
    StrictMonoOn unixMillisToIso8601 {millis | millis / 1000 < 253402300800} := by
  intro a ha b hb h
  rw [Set.mem_ofPred_eq] at ha hb
  have hlt := nowIsoMillis_lt h (by omega)
  rwa [nowIsoMillis, nowIsoMillis, Nat.mod_eq_of_lt (by omega), Nat.mod_eq_of_lt (by omega)] at hlt

/-- A timestamp shows the date and time of its instant, the only ones it has, and the texts are in
the order of the instants, in seconds and in milliseconds. -/
theorem timestamps_sound (t u : Instant) :
    (∃ d : DateTime, (∀ e : DateTime, e.seconds = epochTime.seconds + t.val / 1000 ↔ e = d) ∧
      (unixSecsToIso8601 (t.val / 1000)).toList = shown d ++ ['Z'] ∧
      (unixMillisToIso8601 t).toList = shown d ++ '.' :: (fixed 3 (t.val % 1000) ++ ['Z'])) ∧
    (unixSecsToIso8601 (t.val / 1000) < unixSecsToIso8601 (u.val / 1000) ↔
      t.val / 1000 < u.val / 1000) ∧
    (unixMillisToIso8601 t < unixMillisToIso8601 u ↔ t.val < u.val) := by
  refine ⟨?_, unixSecsToIso8601_mono.lt_iff_lt t.lt u.lt,
    unixMillisToIso8601_mono.lt_iff_lt t.lt u.lt⟩
  obtain ⟨d, hseconds, hstamp⟩ := stampOfSecs_shown (t.val / 1000)
  have ht := t.lt
  refine ⟨d, fun e => ⟨fun he => ?_, ?_⟩, ?_, ?_⟩
  · exact DateTime.seconds_injective (he.trans hseconds.symm)
  · rintro rfl
    exact hseconds
  · rw [unixSecsToIso8601_toList ht, hstamp]
  · rw [unixMillisToIso8601_toList (by omega), hstamp]

end Texts

end PlainRs.Utils
