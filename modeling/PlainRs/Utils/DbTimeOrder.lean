import PlainRs.Base.Digits
import PlainRs.Utils.DbTime

/-! The texts of timestamps are in the order of the times, up to the year 9999. -/
namespace PlainRs.Utils

open Digits

variable {fuel fuel' year month days days' secs secs' : ℕ} {md : List ℕ}

/-- Days of the first year are its own. -/
theorem yearOfDays_of_lt (h : days < if isLeap year then 366 else 365) :
    yearOfDays fuel year days = (year, days) := by
  cases fuel with
  | zero => rfl
  | succ fuel =>
    rw [yearOfDays]
    exact if_pos h

theorem yearOfDays_succ_of_ge (h : ¬ days < if isLeap year then 366 else 365) :
    yearOfDays (fuel + 1) year days =
      yearOfDays fuel (year + 1) (days - if isLeap year then 366 else 365) := by
  rw [yearOfDays]
  exact if_neg h

theorem le_yearOfDays (fuel year days : ℕ) : year ≤ (yearOfDays fuel year days).1 := by
  induction fuel generalizing year days with
  | zero => exact le_rfl
  | succ fuel ih =>
    by_cases h : days < if isLeap year then 366 else 365
    · rw [yearOfDays_of_lt h]
    · rw [yearOfDays_succ_of_ge h]
      exact (Nat.le_succ year).trans (ih ..)

/-- Days in a later year come after those of the first. -/
theorem yearOfDays_of_ge (h : ¬ days < if isLeap year then 366 else 365)
    (hfuel : days < 365 * (fuel + 1)) :
    ∃ left, fuel = left + 1 ∧ yearOfDays fuel year days =
      yearOfDays left (year + 1) (days - if isLeap year then 366 else 365) ∧
      days - (if isLeap year then 366 else 365) < 365 * (left + 1) := by
  have hlen : 365 ≤ if isLeap year then 366 else 365 := by split <;> omega
  cases fuel with
  | zero => omega
  | succ left =>
    exact ⟨left, rfl, yearOfDays_succ_of_ge h, by omega⟩

/-- A later day falls in a later year, or later in the same. -/
theorem yearOfDays_lt (year : ℕ) (h : days < days') (hf : days < 365 * (fuel + 1))
    (hf' : days' < 365 * (fuel' + 1)) :
    (yearOfDays fuel year days).1 < (yearOfDays fuel' year days').1 ∨
      (yearOfDays fuel year days).1 = (yearOfDays fuel' year days').1 ∧
        (yearOfDays fuel year days).2 < (yearOfDays fuel' year days').2 := by
  induction fuel generalizing fuel' year days days' with
  | zero =>
    have hlen : 365 ≤ if isLeap year then 366 else 365 := by split <;> omega
    rw [yearOfDays_of_lt (show days < if isLeap year then 366 else 365 by omega)]
    by_cases hd' : days' < if isLeap year then 366 else 365
    · rw [yearOfDays_of_lt hd']
      exact .inr ⟨rfl, h⟩
    · obtain ⟨left, -, he, -⟩ := yearOfDays_of_ge hd' hf'
      rw [he]
      exact .inl (le_yearOfDays ..)
  | succ fuel ih =>
    by_cases hd' : days' < if isLeap year then 366 else 365
    · rw [yearOfDays_of_lt hd', yearOfDays_of_lt (h.trans hd')]
      exact .inr ⟨rfl, h⟩
    · obtain ⟨left', -, he', hleft'⟩ := yearOfDays_of_ge hd' hf'
      rw [he']
      by_cases hd : days < if isLeap year then 366 else 365
      · rw [yearOfDays_of_lt hd]
        exact .inl (le_yearOfDays ..)
      · obtain ⟨left, hl, he, hleft⟩ := yearOfDays_of_ge hd hf
        obtain rfl := Nat.succ.inj hl
        rw [he]
        exact ih _ (by omega) hleft hleft'

/-- What is left is within the year. -/
theorem yearOfDays_rest (year : ℕ) (hf : days < 365 * (fuel + 1)) : (yearOfDays fuel year days).2 <
    if isLeap (yearOfDays fuel year days).1 then 366 else 365 := by
  induction fuel generalizing year days with
  | zero =>
    have hlen : 365 ≤ if isLeap year then 366 else 365 := by split <;> omega
    exact (show days < 365 by omega).trans_le hlen
  | succ fuel ih =>
    by_cases hd : days < if isLeap year then 366 else 365
    · rw [yearOfDays_of_lt hd]
      exact hd
    · obtain ⟨left, hl, he, hleft⟩ := yearOfDays_of_ge hd hf
      obtain rfl := Nat.succ.inj hl
      rw [he]
      exact ih _ hleft

theorem le_monthOfDays (md : List ℕ) (month days : ℕ) : month ≤ (monthOfDays md month days).1 := by
  induction md generalizing month days with
  | nil => exact le_rfl
  | cons dm md ih =>
    rw [monthOfDays]
    split
    · exact le_rfl
    · exact (Nat.le_succ month).trans (ih ..)

theorem monthOfDays_lt (md : List ℕ) (month : ℕ) (h : days < days') :
    (monthOfDays md month days).1 < (monthOfDays md month days').1 ∨
      (monthOfDays md month days).1 = (monthOfDays md month days').1 ∧
        (monthOfDays md month days).2 < (monthOfDays md month days').2 := by
  induction md generalizing month days days' with
  | nil => exact .inr ⟨rfl, h⟩
  | cons dm md ih =>
    rw [monthOfDays, monthOfDays]
    by_cases hd' : days' < dm
    · rw [if_pos hd', if_pos (h.trans hd')]
      exact .inr ⟨rfl, h⟩
    · rw [if_neg hd']
      by_cases hd : days < dm
      · rw [if_pos hd]
        exact .inl (le_monthOfDays ..)
      · rw [if_neg hd]
        exact ih _ (by omega)

/-- Within the months, the month is one of them and what is left is within it. -/
theorem monthOfDays_rest (month : ℕ) (h : days < md.sum) (hlen : ∀ dm ∈ md, dm ≤ 31) :
    (monthOfDays md month days).1 < month + md.length ∧ (monthOfDays md month days).2 < 31 := by
  induction md generalizing month days with
  | nil => exact absurd h (Nat.not_lt_zero _)
  | cons dm md ih =>
    rw [monthOfDays]
    split
    · next hd => exact ⟨by simp, hd.trans_le (hlen dm List.mem_cons_self)⟩
    · next hd =>
      rw [List.sum_cons] at h
      obtain ⟨hm, hrest⟩ : (monthOfDays md (month + 1) (days - dm)).1 < month + 1 + md.length ∧
          (monthOfDays md (month + 1) (days - dm)).2 < 31 :=
        ih _ (by omega) fun dm hdm => hlen dm (List.mem_cons_of_mem _ hdm)
      rw [List.length_cons]
      exact ⟨by omega, hrest⟩

/-- Year, month and day of the month. -/
def civilOfDays (days : ℕ) : ℕ × ℕ × ℕ :=
  let (year, rest) := yearOfDays (days / 365) 1970 days
  let (month, rest) := monthOfDays (monthLengths year) 1 rest
  (year, month, rest + 1)

theorem civilOfDays_lt (h : days < days') :
    (civilOfDays days).1 < (civilOfDays days').1 ∨
      (civilOfDays days).1 = (civilOfDays days').1 ∧
        ((civilOfDays days).2.1 < (civilOfDays days').2.1 ∨
          (civilOfDays days).2.1 = (civilOfDays days').2.1 ∧
            (civilOfDays days).2.2 < (civilOfDays days').2.2) := by
  rcases yearOfDays_lt 1970 h (show days < 365 * (days / 365 + 1) by omega)
    (show days' < 365 * (days' / 365 + 1) by omega) with hy | ⟨hy, hd⟩
  · exact .inl hy
  · refine .inr ⟨hy, ?_⟩
    simp only [civilOfDays, ← hy]
    rcases monthOfDays_lt (monthLengths (yearOfDays (days / 365) 1970 days).1) 1 hd
      with hm | ⟨hm, hd⟩
    · exact .inl hm
    · exact .inr ⟨hm, Nat.succ_lt_succ hd⟩

theorem civilOfDays_rest (days : ℕ) :
    (civilOfDays days).2.1 < 13 ∧ (civilOfDays days).2.2 < 32 := by
  have hrest := yearOfDays_rest 1970 (show days < 365 * (days / 365 + 1) by omega)
  simp only [civilOfDays]
  generalize yearOfDays (days / 365) 1970 days = at_ at hrest ⊢
  have hsum : (monthLengths at_.1).sum = if isLeap at_.1 then 366 else 365 := by
    rw [monthLengths]
    split <;> rfl
  have hlen : ∀ dm ∈ monthLengths at_.1, dm ≤ 31 := by
    intro dm hdm
    simp only [monthLengths, List.mem_cons, List.not_mem_nil, or_false] at hdm
    split at hdm <;> omega
  obtain ⟨hm, hd⟩ := monthOfDays_rest 1 (hrest.trans_eq hsum.symm) hlen
  exact ⟨hm, Nat.succ_lt_succ hd⟩

/-- The year 10000 begins on day 2932897. -/
theorem civilOfDays_year (h : days < 2932897) : (civilOfDays days).1 < 10000 := by
  have hlast : yearOfDays (2932897 / 365) 1970 2932897 = (10000, 0) := by decide +kernel
  rcases yearOfDays_lt 1970 h (show days < 365 * (days / 365 + 1) by omega)
    (show 2932897 < 365 * (2932897 / 365 + 1) by omega) with hy | ⟨hy, hd⟩
  · rwa [hlast] at hy
  · rw [hlast] at hd
    exact absurd hd (Nat.not_lt_zero _)

/-- The text of a time, without what follows its seconds. -/
def stampOfSecs (secs : ℕ) : List Char :=
  let (year, month, day) := civilOfDays (secs / 60 / 60 / 24)
  fixed 4 year ++ '-' :: (fixed 2 month ++ '-' :: (fixed 2 day ++ 'T' ::
    (fixed 2 (secs / 60 / 60 % 24) ++ ':' :: (fixed 2 (secs / 60 % 60) ++ ':' ::
      fixed 2 (secs % 60)))))

@[simp] theorem length_stampOfSecs (secs : ℕ) : (stampOfSecs secs).length = 19 := by
  simp [stampOfSecs]

theorem padded_toList {width n : ℕ} (hw : 0 < width) (h : n < 10 ^ width) :
    (padded width n).toList = fixed width n := by
  rw [padded, String.toList_ofList, leftpad_toDigits hw h]

theorem unixSecsToIso8601_toList (h : secs < 253402300800) :
    (unixSecsToIso8601 secs).toList = stampOfSecs secs ++ ['Z'] := by
  have hstr : ∀ s : String, toString s = s := fun _ => rfl
  have hyear := civilOfDays_year (show secs / 60 / 60 / 24 < 2932897 by omega)
  obtain ⟨hmonth, hday⟩ := civilOfDays_rest (secs / 60 / 60 / 24)
  simp only [unixSecsToIso8601, splitUnixSecs, stampOfSecs, civilOfDays] at *
  simp only [hstr, String.toList_append, padded_toList (show 0 < 4 by omega) hyear,
    padded_toList (show 0 < 2 by omega) (show _ < 10 ^ 2 from hmonth.trans (by omega)),
    padded_toList (show 0 < 2 by omega) (show _ < 10 ^ 2 from hday.trans (by omega)),
    padded_toList (show 0 < 2 by omega) (show secs / 60 / 60 % 24 < 10 ^ 2 by omega),
    padded_toList (show 0 < 2 by omega) (show secs / 60 % 60 < 10 ^ 2 by omega),
    padded_toList (show 0 < 2 by omega) (show secs % 60 < 10 ^ 2 by omega)]
  simp

/-- A field decides, or, if it is the same, what follows it. -/
theorem field_lt {width n k : ℕ} {c : Char} {a b : List Char} (hk : k < 10 ^ width)
    (h : n < k ∨ n = k ∧ a < b) : fixed width n ++ c :: a < fixed width k ++ c :: b := by
  rcases h with h | ⟨rfl, h⟩
  · exact append_lt_append (fixed_lt h hk) (by simp)
  · exact List.append_left_lt (List.cons_lt_cons_iff.mpr (.inr ⟨rfl, h⟩))

theorem stampOfSecs_lt (h : secs < secs') (hlast : secs' < 253402300800) :
    stampOfSecs secs < stampOfSecs secs' := by
  have hyear := civilOfDays_year (show secs' / 60 / 60 / 24 < 2932897 by omega)
  obtain ⟨hmonth, hday⟩ := civilOfDays_rest (secs' / 60 / 60 / 24)
  have htime : secs / 60 / 60 / 24 = secs' / 60 / 60 / 24 →
      fixed 2 (secs / 60 / 60 % 24) ++ ':' :: (fixed 2 (secs / 60 % 60) ++ ':' ::
          fixed 2 (secs % 60)) <
        fixed 2 (secs' / 60 / 60 % 24) ++ ':' :: (fixed 2 (secs' / 60 % 60) ++ ':' ::
          fixed 2 (secs' % 60)) := by
    intro hdays
    apply field_lt (by omega)
    rcases Nat.lt_or_ge (secs / 60 / 60) (secs' / 60 / 60) with hh | hh
    · exact .inl (by omega)
    · refine .inr ⟨by omega, field_lt (by omega) ?_⟩
      rcases Nat.lt_or_ge (secs / 60) (secs' / 60) with hm | hm
      · exact .inl (by omega)
      · exact .inr ⟨by omega, fixed_lt (by omega) (by omega)⟩
  simp only [stampOfSecs]
  rcases Nat.lt_or_ge (secs / 60 / 60 / 24) (secs' / 60 / 60 / 24) with hd | hd
  · apply field_lt hyear
    rcases civilOfDays_lt hd with hy | ⟨hy, hm | ⟨hm, hd⟩⟩
    · exact .inl hy
    · exact .inr ⟨hy, field_lt (hmonth.trans (by omega)) (.inl hm)⟩
    · exact .inr ⟨hy, field_lt (hmonth.trans (by omega))
        (.inr ⟨hm, field_lt (hday.trans (by omega)) (.inl hd)⟩)⟩
  · have hdays : secs / 60 / 60 / 24 = secs' / 60 / 60 / 24 := by omega
    have htail := htime hdays
    rw [hdays]
    exact field_lt hyear (.inr ⟨rfl, field_lt (hmonth.trans (by omega))
      (.inr ⟨rfl, field_lt (hday.trans (by omega)) (.inr ⟨rfl, htail⟩)⟩)⟩)

/-- Up to the year 9999 a later second has a later text. -/
theorem unixSecsToIso8601_lt (h : secs < secs') (hlast : secs' < 253402300800) :
    unixSecsToIso8601 secs < unixSecsToIso8601 secs' := by
  rw [String.lt_iff, unixSecsToIso8601_toList hlast, unixSecsToIso8601_toList (h.trans hlast)]
  exact append_lt_append (stampOfSecs_lt h hlast) (by simp)

end PlainRs.Utils
