import PlainRs.Base.Clock
import PlainRs.Utils.Url

/-! The part of a file that a `Range` header asks for. -/
namespace PlainRs.Utils

inductive RangeParse
  | full
  | partialRange (start stop : ℕ)
  | unsatisfiable
  deriving DecidableEq

def trimmed (cs : List Char) : List Char := (Text.trim (String.ofList cs)).toList

/-- `str::parse::<u64>`: a sign may stand before the digits. -/
def parseU64 (cs : List Char) : Option ℕ :=
  (Text.natOfDigits (if cs.head? = some '+' then cs.tail else cs)).filter (· < 2 ^ 64)

/-- What stands on either side of the first `-`, in what stands before the first comma. -/
def firstRange (range : List Char) : Option (List Char × List Char) := do
  let spec ← range.dropPrefix? "bytes=".toList
  let (start, stop) ← splitOnce '-' (trimmed (spec.takeWhile (· ≠ ',')))
  return (trimmed start, trimmed stop)

def parseRangeHeader (range : String) (fileSize : ℕ) : RangeParse :=
  match firstRange range.toList with
  | none => .full
  | some (start, stop) =>
    if fileSize = 0 then .full
    else
      match start.isEmpty, stop.isEmpty with
      | false, false =>
        match parseU64 start, parseU64 stop with
        | some start, some stop =>
          if stop < start then .full
          else if fileSize ≤ start then .unsatisfiable
          else .partialRange start (min stop (fileSize - 1))
        | _, _ => .full
      | false, true =>
        match parseU64 start with
        | some start =>
          if fileSize ≤ start then .unsatisfiable else .partialRange start (fileSize - 1)
        | none => .full
      | true, false =>
        match parseU64 stop with
        | some n =>
          if n = 0 then .unsatisfiable else .partialRange (fileSize - n) (fileSize - 1)
        | none => .full
      | true, true => .full

/-- The three forms of a range of bytes. -/
inductive ByteRange
  | between (first last : ℕ)
  | onward (first : ℕ)
  | ending (n : ℕ)

namespace ByteRange

/-- The positions asked for, of `size` many. -/
def Covers (size : ℕ) : ByteRange → ℕ → Prop
  | between first last, i => first ≤ i ∧ i ≤ last
  | onward first, i => first ≤ i
  | ending n, i => size ≤ i + n

def Inverted : ByteRange → Prop
  | between first last => last < first
  | _ => False

/-- A decimal number below `2 ^ 64`. -/
def Numeral (ds : List Char) (n : ℕ) : Prop :=
  ds ≠ [] ∧ (∀ c ∈ ds, c.isDigit = true) ∧ Nat.ofDigitChars 10 ds 0 = n ∧ n < 2 ^ 64

inductive Written : ByteRange → List Char → Prop
  | between {ds es : List Char} {first last : ℕ} (hd : Numeral ds first) (he : Numeral es last) :
    Written (between first last) (ds ++ '-' :: es)
  | onward {ds : List Char} {first : ℕ} (hd : Numeral ds first) :
    Written (onward first) (ds ++ ['-'])
  | ending {es : List Char} {n : ℕ} (he : Numeral es n) : Written (ending n) ('-' :: es)

/-- What RFC 7233 has a server answer: everything where the range is inverted or there is nothing
to cut, a refusal where the range selects nothing, and otherwise exactly what it selects. -/
def Answered (r : ByteRange) (size : ℕ) : RangeParse → Prop
  | .full => size = 0 ∨ r.Inverted
  | .unsatisfiable => 0 < size ∧ ¬ r.Inverted ∧ ∀ i < size, ¬ r.Covers size i
  | .partialRange start stop => 0 < size ∧ ¬ r.Inverted ∧ start ≤ stop ∧
      ∀ i, start ≤ i ∧ i ≤ stop ↔ i < size ∧ r.Covers size i

end ByteRange

open ByteRange

variable {cs ds es more : List Char} {n size start stop : ℕ} {r : ByteRange} {range : String}

theorem ByteRange.Answered.full_iff {p : RangeParse} (h : r.Answered size p) :
    p = .full ↔ size = 0 ∨ r.Inverted := by
  cases p with
  | full => exact iff_of_true rfl h
  | partialRange start stop =>
    obtain ⟨hpos, hinv, -⟩ := h
    exact iff_of_false (by simp) (by rintro (h0 | h0) <;> [omega; exact hinv h0])
  | unsatisfiable =>
    obtain ⟨hpos, hinv, -⟩ := h
    exact iff_of_false (by simp) (by rintro (h0 | h0) <;> [omega; exact hinv h0])

/-- There is one answer to a range. -/
theorem ByteRange.Answered.unique {p q : RangeParse} (hp : r.Answered size p)
    (hq : r.Answered size q) : p = q := by
  have hfull := hp.full_iff.trans hq.full_iff.symm
  cases p with
  | full => exact (hfull.mp rfl).symm
  | unsatisfiable =>
    cases q with
    | full => exact hfull.mpr rfl
    | unsatisfiable => rfl
    | partialRange s e =>
      obtain ⟨hs, hcov⟩ := (hq.2.2.2 s).mp ⟨Nat.le_refl s, hq.2.2.1⟩
      exact absurd hcov (hp.2.2 s hs)
  | partialRange s e =>
    cases q with
    | full => exact hfull.mpr rfl
    | unsatisfiable =>
      obtain ⟨hs, hcov⟩ := (hp.2.2.2 s).mp ⟨Nat.le_refl s, hp.2.2.1⟩
      exact absurd hcov (hq.2.2 s hs)
    | partialRange s' e' =>
      obtain ⟨-, -, hle, hp⟩ := hp
      obtain ⟨-, -, hle', hq⟩ := hq
      have hs := (hq s).mpr ((hp s).mp ⟨Nat.le_refl s, hle⟩)
      have he := (hq e).mpr ((hp e).mp ⟨hle, Nat.le_refl e⟩)
      have hs' := (hp s').mpr ((hq s').mp ⟨Nat.le_refl s', hle'⟩)
      have he' := (hp e').mpr ((hq e').mp ⟨hle', Nat.le_refl e'⟩)
      rw [RangeParse.partialRange.injEq]
      omega

theorem trimmed_eq (h : ∀ c ∈ cs, Text.isWhitespace c = false) : trimmed cs = cs := by
  have hdrop : ∀ l : List Char, (∀ c ∈ l, Text.isWhitespace c = false) →
      l.dropWhile Text.isWhitespace = l := by
    intro l hl
    cases l with
    | nil => rfl
    | cons c l => rw [List.dropWhile_cons_of_neg (by simp [hl c])]
  rw [trimmed, Text.trim, String.toList_ofList, String.toList_ofList, hdrop cs h,
    hdrop cs.reverse fun c hc => h c (List.mem_reverse.mp hc), List.reverse_reverse]

theorem digit_plain {c : Char} (h : c.isDigit = true) :
    Text.isWhitespace c = false ∧ c ≠ '-' ∧ c ≠ ',' ∧ c ≠ '+' := by
  simp only [Char.isDigit, Bool.and_eq_true, decide_eq_true_eq] at h
  have h48 : 48 ≤ c.toNat := h.1
  have h57 : c.toNat ≤ 57 := h.2
  refine ⟨?_, ?_, ?_, ?_⟩
  · simp only [Text.isWhitespace, Bool.or_eq_false_iff, Bool.and_eq_false_iff, decide_eq_false_iff_not,
      beq_eq_false_iff_ne]
    omega
  all_goals
    rintro rfl
    revert h48 h57
    decide

theorem parseU64_numeral (h : Numeral ds n) : parseU64 ds = some n := by
  obtain ⟨hne, hdig, hval, hlt⟩ := h
  have hplus : ds.head? ≠ some '+' := by
    intro hhead
    exact (digit_plain (hdig _ (List.mem_of_head? hhead))).2.2.2 rfl
  rw [parseU64, if_neg hplus, Text.natOfDigits_of_isDigit hne hdig, hval]
  have hdec : decide (n < 2 ^ 64) = true := decide_eq_true hlt
  rw [Option.filter_some, if_pos hdec]

/-- What stands on either side of the first dash is read, whatever follows the comma. -/
theorem firstRange_written (hd : ∀ c ∈ ds, c.isDigit = true) (he : ∀ c ∈ es, c.isDigit = true)
    (hmore : ∀ c ∈ more.head?, c = ',') :
    firstRange ("bytes=".toList ++ (ds ++ '-' :: es) ++ more) = some (ds, es) := by
  have hplain : ∀ c ∈ ds ++ '-' :: es, Text.isWhitespace c = false ∧ c ≠ ',' := by
    intro c hc
    rcases List.mem_append.mp hc with hc | hc
    · exact ⟨(digit_plain (hd c hc)).1, (digit_plain (hd c hc)).2.2.1⟩
    · rcases List.mem_cons.mp hc with rfl | hc
      · decide
      · exact ⟨(digit_plain (he c hc)).1, (digit_plain (he c hc)).2.2.1⟩
  have htake : ((ds ++ '-' :: es) ++ more).takeWhile (· ≠ ',') = ds ++ '-' :: es := by
    rw [List.takeWhile_append_of_pos fun c hc => by simpa using (hplain c hc).2]
    cases more with
    | nil => simp
    | cons c more =>
      obtain rfl := hmore c rfl
      simp
  have hdash : ∀ c ∈ ds, decide (c ≠ '-') = true := by
    intro c hc
    exact decide_eq_true (digit_plain (hd c hc)).2.1
  have hspec : ("bytes=".toList ++ (ds ++ '-' :: es) ++ more).dropPrefix? "bytes=".toList =
      some ((ds ++ '-' :: es) ++ more) := by
    rw [List.append_assoc]
    exact List.dropPrefix?_append_of_beq _ (beq_self_eq_true _)
  rw [firstRange, hspec, Option.bind_eq_bind, Option.bind_some, htake,
    trimmed_eq fun c hc => (hplain c hc).1, splitOnce, List.dropWhile_append_of_pos hdash,
    List.takeWhile_append_of_pos hdash]
  simp [trimmed_eq fun c hc => (digit_plain (hd c hc)).1,
    trimmed_eq fun c hc => (digit_plain (he c hc)).1]

/-- A range that is written out gets the one answer it has. -/
theorem parseRangeHeader_written {text : List Char} (h : r.Written text)
    (hmore : ∀ c ∈ more.head?, c = ',') (size : ℕ) :
    r.Answered size (parseRangeHeader (String.ofList ("bytes=".toList ++ text ++ more)) size) := by
  have hempty : ∀ {ds n}, Numeral ds n → ds.isEmpty = false := by
    intro ds n hn
    simpa using hn.1
  cases h with
  | @between ds es first last hd he =>
    rw [parseRangeHeader, String.toList_ofList, firstRange_written hd.2.1 he.2.1 hmore]
    simp only [hempty hd, hempty he, parseU64_numeral hd, parseU64_numeral he]
    split
    · next h0 => exact .inl h0
    · next h0 =>
      split
      · next hlt => exact .inr hlt
      · next hle =>
        split
        · next hout =>
          refine ⟨by omega, hle, ?_⟩
          intro i hi hcov
          simp only [Covers] at hcov
          omega
        · next hin =>
          refine ⟨by omega, hle, by omega, ?_⟩
          intro i
          simp only [Covers]
          omega
  | @onward ds first hd =>
    rw [parseRangeHeader, String.toList_ofList, firstRange_written hd.2.1 (by simp) hmore]
    simp only [hempty hd, parseU64_numeral hd, List.isEmpty_nil]
    split
    · next h0 => exact .inl h0
    · next h0 =>
      split
      · next hout =>
        refine ⟨by omega, not_false, ?_⟩
        intro i hi hcov
        simp only [Covers] at hcov
        omega
      · next hin =>
        refine ⟨by omega, not_false, by omega, ?_⟩
        intro i
        simp only [Covers]
        omega
  | @ending es n he =>
    have htext : '-' :: es = [] ++ '-' :: es := rfl
    rw [htext, parseRangeHeader, String.toList_ofList, firstRange_written (by simp) he.2.1 hmore]
    simp only [hempty he, parseU64_numeral he, List.isEmpty_nil]
    split
    · next h0 => exact .inl h0
    · next h0 =>
      split
      · next hn =>
        refine ⟨by omega, not_false, ?_⟩
        intro i hi hcov
        simp only [Covers] at hcov
        omega
      · next hn =>
        refine ⟨by omega, not_false, by omega, ?_⟩
        intro i
        simp only [Covers]
        omega

/-- Whatever the header, a part is a part of the file. -/
theorem parseRangeHeader_bounds (h : parseRangeHeader range size = .partialRange start stop) :
    start ≤ stop ∧ stop < size := by
  unfold parseRangeHeader at h
  split at h
  · cases h
  · split at h
    · cases h
    · -- each form has its own branches, and only the last of each cuts a part out
      repeat' split at h
      all_goals cases h <;> omega

end PlainRs.Utils
