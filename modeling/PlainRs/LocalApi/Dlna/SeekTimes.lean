import PlainRs.Base.Clock
import PlainRs.LocalApi.Dlna.HttpRouter

/-! Positions in a track, written and read as times. -/
namespace PlainRs.Dlna

open Text

/-- Hours, minutes and seconds of a time, where all three are numbers and none is negative. -/
def timeFields (time : String) : Option (Int × Int × Int) :=
  match pieces ':' time.toList with
  | h :: m :: s :: _ => do
    let h ← parseI64 h
    let m ← parseI64 m
    let s ← parseI64 (firstPiece ['.'] s)
    guard (0 ≤ h ∧ 0 ≤ m ∧ 0 ≤ s)
    return (h, m, s)
  | _ => none

def exactMs (fields : Int × Int × Int) : Int :=
  (fields.1 * 3600 + fields.2.1 * 60 + fields.2.2) * 1000

/-- A seek target is refused, or read as what its fields come to, within 64 bits. -/
def ReadExactly (time : String) : Prop :=
  parseDlnaTimeToMs time = -1 ∨
    ∃ fields, timeFields time = some fields ∧ parseDlnaTimeToMs time = exactMs fields ∧
      exactMs fields < 2 ^ 63

variable {cs ds es : List Char} {n : ℕ} {time : String} {fields : Int × Int × Int}

theorem parseDlnaTimeToMs_of_none (h : timeFields time = none) : parseDlnaTimeToMs time = -1 := by
  unfold timeFields at h
  split at h
  · next hh mm ss rest hp =>
    unfold parseDlnaTimeToMs
    rw [hp]
    dsimp only
    cases h₁ : parseI64 hh with
    | none => rfl
    | some a =>
      cases h₂ : parseI64 mm with
      | none => rw [Option.getD_none, if_neg (by omega)]
      | some b =>
        cases h₃ : parseI64 (firstPiece ['.'] ss) with
        | none => rw [Option.getD_none, if_neg (by omega)]
        | some c =>
          rw [h₁, h₂, h₃] at h
          by_cases hall : 0 ≤ a ∧ 0 ≤ b ∧ 0 ≤ c
          · simp [hall, guard] at h
          · simp only [Option.getD_some]
            rw [if_neg hall]
  · next hno =>
    unfold parseDlnaTimeToMs
    split
    · next hh mm ss rest hp => exact absurd hp (hno hh mm ss rest)
    · rfl

theorem timeFields_inv (h : timeFields time = some fields) :
    0 ≤ exactMs fields ∧ parseDlnaTimeToMs time = (exactMs fields).bmod (2 ^ 64) := by
  unfold timeFields at h
  split at h
  · next hh mm ss rest hp =>
    obtain ⟨a, h₁, h⟩ := Option.bind_eq_some_iff.mp h
    obtain ⟨b, h₂, h⟩ := Option.bind_eq_some_iff.mp h
    obtain ⟨c, h₃, h⟩ := Option.bind_eq_some_iff.mp h
    obtain ⟨_, hguard, h⟩ := Option.bind_eq_some_iff.mp h
    obtain ⟨ha, hb, hc⟩ : 0 ≤ a ∧ 0 ≤ b ∧ 0 ≤ c := by
      by_contra hnot
      simp [guard, hnot] at hguard
    obtain rfl := Option.some.inj h
    refine ⟨by simp only [exactMs]; omega, ?_⟩
    unfold parseDlnaTimeToMs
    rw [hp]
    simp only [h₁, h₂, h₃, Option.getD_some]
    rw [if_pos ⟨ha, hb, hc⟩, exactMs]
  · cases h

/-- What does not fit wraps to a multiple of eight, which is neither what it was nor `-1`. -/
theorem readExactly_iff : ReadExactly time ↔ ∀ fields ∈ timeFields time, exactMs fields < 2 ^ 63 := by
  constructor
  · intro h fields hf
    obtain ⟨h0, hparse⟩ := timeFields_inv hf
    rcases h with h | ⟨fields', hf', -, hlt⟩
    · rw [h, Int.bmod_def, exactMs] at hparse
      split at hparse <;> omega
    · rw [hf, Option.some.injEq] at hf'
      rwa [hf']
  · intro h
    cases hf : timeFields time with
    | none => exact .inl (parseDlnaTimeToMs_of_none hf)
    | some fields =>
      obtain ⟨h0, hparse⟩ := timeFields_inv hf
      have hlt := h fields hf
      refine .inr ⟨fields, hf, ?_, hlt⟩
      rw [hparse, Int.bmod_eq_of_le (by omega) (by omega)]

theorem parseI64_digits (hne : cs ≠ []) (h : ∀ c ∈ cs, c.isDigit = true)
    (hlt : Nat.ofDigitChars 10 cs 0 < 2 ^ 63) :
    parseI64 cs = some (Nat.ofDigitChars 10 cs 0 : Int) := by
  unfold parseI64
  split
  · next ds => exact absurd (h '-' List.mem_cons_self) (by decide)
  · next ds => exact absurd (h '+' List.mem_cons_self) (by decide)
  · rw [natOfDigits_of_isDigit hne h, Option.bind_some, if_pos hlt]

/-- A number is written in digits that stand for it. -/
theorem twoDigits_digits (n : ℕ) : (twoDigits n).toList ≠ [] ∧
    (∀ c ∈ (twoDigits n).toList, c.isDigit = true) ∧
    Nat.ofDigitChars 10 (twoDigits n).toList 0 = n := by
  have hrepr : (toString (n : Int)).toList = Nat.toDigits 10 n := by
    have htext : toString (n : Int) = String.ofList (Nat.toDigits 10 n) :=
      Nat.repr_eq_ofList_toDigits
    rw [htext, String.toList_ofList]
  have hdigit : ∀ c ∈ Nat.toDigits 10 n, c.isDigit = true := fun _ hc =>
    Nat.isDigit_of_mem_toDigits (by omega) (by omega) hc
  have hvalue : Nat.ofDigitChars 10 (Nat.toDigits 10 n) 0 = n := Nat.ofDigitChars_ten_toDigits
  unfold twoDigits
  split
  · have hzero : (s!"0{(n : Int)}").toList = '0' :: Nat.toDigits 10 n := by
      have h0 : (toString "0").toList = ['0'] := by decide
      simp [h0, ← hrepr]
    rw [hzero]
    refine ⟨List.cons_ne_nil _ _, ?_, ?_⟩
    · intro c hc
      rcases List.mem_cons.mp hc with rfl | hc
      · decide
      · exact hdigit c hc
    · rw [Nat.ofDigitChars_cons]
      exact hvalue
  · have hplain : (s!"{(n : Int)}").toList = Nat.toDigits 10 n := hrepr
    rw [hplain]
    exact ⟨Nat.toDigits_ne_nil, hdigit, hvalue⟩

theorem parseI64_twoDigits (h : n < 2 ^ 63) : parseI64 (twoDigits n).toList = some (n : Int) := by
  obtain ⟨hne, hdigit, hvalue⟩ := twoDigits_digits n
  rw [parseI64_digits hne hdigit (by rwa [hvalue]), hvalue]

theorem notMem_twoDigits {c : Char} (hc : c.isDigit = false) (n : ℕ) :
    c ∉ (twoDigits n).toList := by
  intro hmem
  rw [(twoDigits_digits n).2.1 c hmem] at hc
  cases hc

/-- A position is read back as it is displayed, in whole seconds. -/
theorem parse_formatPositionMs (n : ℕ) (hn : (n : Int) < 2 ^ 63) :
    parseDlnaTimeToMs (formatPositionMs n) = (n / 1000 * 1000 : ℕ) := by
  have hcolon : ":".toList = [':'] := by decide
  have hparts : pieces ':' (formatPositionMs n).toList =
      [(twoDigits (n / 1000 / 3600 : ℕ)).toList, (twoDigits (n / 1000 % 3600 / 60 : ℕ)).toList,
        (twoDigits (n / 1000 % 60 : ℕ)).toList] := by
    have htext : (formatPositionMs n).toList = (twoDigits (n / 1000 / 3600 : ℕ)).toList ++
        ':' :: ((twoDigits (n / 1000 % 3600 / 60 : ℕ)).toList ++
          ':' :: (twoDigits (n / 1000 % 60 : ℕ)).toList) := by
      unfold formatPositionMs
      simp only [toString, String.toList_append, hcolon]
      simp
      rfl
    rw [htext, pieces, List.splitOn_append_cons_self_of_not_mem (notMem_twoDigits rfl _),
      List.splitOn_append_cons_self_of_not_mem (notMem_twoDigits rfl _),
      List.splitOn_eq_singleton (notMem_twoDigits rfl _)]
  have hdot : firstPiece ['.'] (twoDigits (n / 1000 % 60 : ℕ)).toList =
      (twoDigits (n / 1000 % 60 : ℕ)).toList := by
    rw [firstPiece, List.takeWhile_eq_self_iff]
    intro c hc
    have hne : c ≠ '.' := fun he => notMem_twoDigits rfl _ (he ▸ hc)
    simpa using hne
  unfold parseDlnaTimeToMs
  rw [hparts]
  dsimp only
  rw [hdot, parseI64_twoDigits (by omega), parseI64_twoDigits (by omega),
    parseI64_twoDigits (by omega)]
  simp only [Option.getD_some]
  rw [if_pos (by omega), Int.bmod_eq_of_le (by omega) (by omega)]
  omega

/-- Displayed positions are read back in whole seconds, and a target is read exactly just when what
its fields come to fits in 64 bits. -/
theorem seek_times_iff (ms : Int) (time : String) :
    (0 ≤ ms → ms < 2 ^ 63 → parseDlnaTimeToMs (formatPositionMs ms) = ms / 1000 * 1000) ∧
      (ReadExactly time ↔ ∀ fields ∈ timeFields time, exactMs fields < 2 ^ 63) := by
  refine ⟨?_, readExactly_iff⟩
  intro h0 hlt
  obtain ⟨n, rfl⟩ := Int.eq_ofNat_of_zero_le h0
  rw [parse_formatPositionMs n hlt]
  push_cast
  rfl

theorem seek_times_minute : parseDlnaTimeToMs (formatPositionMs 62500) = 62000 :=
  (seek_times_iff 62500 "1:00").1 (by decide) (by decide)

/-- The least number of hours that does not fit wraps to a negative position. -/
theorem hours_wrap : ¬ ReadExactly "2562047788016:00:00" := by
  have hfields : timeFields "2562047788016:00:00" = some (2562047788016, 0, 0) := by decide +kernel
  intro h
  exact absurd (readExactly_iff.mp h _ hfields) (by decide)

end PlainRs.Dlna
