import Mathlib

/-! Strings and their UTF-8 bytes, splitting at a separator, and decimal integers. -/
namespace Text

/-- The UTF-8 bytes of a string. -/
def bytes (s : String) : List UInt8 := s.toByteArray.data.toList

/-- Strict UTF-8 decoding. -/
def ofBytes? (b : List UInt8) : Option String := String.fromUTF8? ⟨b.toArray⟩

theorem ofBytes?_bytes (s : String) : ofBytes? (bytes s) = some s := by
  have h : (⟨s.toByteArray.data.toList.toArray⟩ : ByteArray) = s.toByteArray := by simp
  simp only [ofBytes?, bytes, h, String.fromUTF8?, s.isValidUTF8, dite_true]
  rfl

theorem bytes_of_ofBytes? {b : List UInt8} {s : String} (h : ofBytes? b = some s) :
    bytes s = b := by
  unfold ofBytes? String.fromUTF8? at h
  split at h
  · cases h
    rfl
  · cases h

theorem bytes_injective : Function.Injective bytes := by
  intro s t h
  have hs := ofBytes?_bytes s
  rw [h, ofBytes?_bytes t] at hs
  exact (Option.some.inj hs).symm

@[simp] theorem bytes_append (s t : String) : bytes (s ++ t) = bytes s ++ bytes t := by
  simp [bytes, String.toByteArray_append, ByteArray.data_append]

theorem bytes_ofList (cs : List Char) :
    bytes (String.ofList cs) = cs.flatMap String.utf8EncodeChar := by
  simp [bytes, String.toByteArray_ofList, List.utf8Encode]

/-- An ASCII character is one byte, itself. -/
theorem bytes_ofList_ascii {cs : List Char} (h : ∀ c ∈ cs, c.toNat < 128) :
    bytes (String.ofList cs) = cs.map fun c => c.toNat.toUInt8 := by
  rw [bytes_ofList]
  induction cs with
  | nil => rfl
  | cons c cs ih =>
    have hc : String.utf8EncodeChar c = [c.toNat.toUInt8] := by
      have := h c (by simp)
      unfold String.utf8EncodeChar
      simp only [Char.toNat] at *
      split
      · rfl
      · omega
    rw [List.flatMap_cons, hc, ih fun d hd => h d (by simp [hd])]
    rfl

theorem length_le_bytes (cs : List Char) : cs.length ≤ (bytes (String.ofList cs)).length := by
  rw [bytes_ofList]
  induction cs with
  | nil => exact Nat.le_refl 0
  | cons c cs ih =>
    have hc := c.utf8Size_pos
    rw [List.flatMap_cons, List.length_append, String.length_utf8EncodeChar, List.length_cons]
    omega

/-- A decimal numeral is as many bytes as digits. -/
theorem length_bytes_toString (n : Nat) :
    (bytes (toString (n : Int))).length = (toString (n : Int)).length := by
  have hn : toString (n : Int) = String.ofList (Nat.toDigits 10 n) := Nat.repr_eq_ofList_toDigits
  have hascii : ∀ c ∈ Nat.toDigits 10 n, c.toNat < 128 := by
    intro c hc
    have hd := Nat.isDigit_of_mem_toDigits (by omega) (by omega) hc
    simp only [Char.isDigit, Bool.and_eq_true, decide_eq_true_eq] at hd
    have h57 : c.toNat ≤ 57 := hd.2
    omega
  rw [hn, bytes_ofList_ascii hascii, List.length_map, String.length_ofList]

/-- At most `n` pieces of `s`, cut at `c`; the last one keeps the rest. -/
def splitn : Nat → Char → List Char → List (List Char)
  | 0, _, _ => []
  | 1, _, s => [s]
  | n + 2, c, s =>
    match s.dropWhile (· ≠ c) with
    | [] => [s]
    | _ :: rest => s.takeWhile (· ≠ c) :: splitn (n + 1) c rest

theorem splitn_append {n : Nat} {c : Char} {s t : List Char} (h : c ∉ s) :
    splitn (n + 2) c (s ++ c :: t) = s :: splitn (n + 1) c t := by
  have hs : ∀ x ∈ s, decide (x ≠ c) = true := by
    intro x hx
    simp only [decide_eq_true_eq]
    rintro rfl
    exact h hx
  have hd : (s ++ c :: t).dropWhile (· ≠ c) = c :: t := by
    rw [List.dropWhile_append_of_pos hs]
    simp
  have ht : (s ++ c :: t).takeWhile (· ≠ c) = s := by
    rw [List.takeWhile_append_of_pos hs]
    simp
  rw [splitn, hd, ht]

/-- The pieces put together again are the string. -/
theorem intercalate_splitn (n : Nat) (c : Char) (s : List Char) :
    [c].intercalate (splitn (n + 1) c s) = s := by
  induction n generalizing s with
  | zero => simp [splitn]
  | succ n ih =>
    rw [splitn]
    split
    · simp
    · next d rest hd =>
      have hc : d = c := by
        have hh := List.head?_dropWhile_not (fun x => decide (x ≠ c)) s
        rw [hd] at hh
        simpa using hh
      have hs := List.takeWhile_append_dropWhile (p := fun x => decide (x ≠ c)) (l := s)
      rw [hd, hc] at hs
      have hi := ih rest
      cases hp : splitn (n + 1) c rest with
      | nil => cases n <;> simp [splitn] at hp; split at hp <;> simp at hp
      | cons p ps =>
        rw [hp] at hi
        rw [List.intercalate_cons_cons, hi]
        simpa using hs

theorem length_splitn_le (n : Nat) (c : Char) (s : List Char) : (splitn n c s).length ≤ n := by
  induction n generalizing s with
  | zero => exact Nat.le_refl 0
  | succ n ih =>
    cases n with
    | zero => exact Nat.le_refl 1
    | succ n =>
      rw [splitn]
      split
      · exact Nat.succ_le_succ (Nat.zero_le _)
      · next rest _ => exact Nat.succ_le_succ (ih rest)

/-- The `i`th piece, empty when there are not that many: `parts.next().unwrap_or_default()`. -/
def piece (parts : List (List Char)) (i : Nat) : List Char := parts.getD i []

/-- Cut into three, a string with something in the third piece is the three put together. -/
theorem eq_of_splitn_three {c : Char} {s : List Char} (h : piece (splitn 3 c s) 2 ≠ []) :
    s = piece (splitn 3 c s) 0 ++ c :: (piece (splitn 3 c s) 1 ++ c :: piece (splitn 3 c s) 2) := by
  have hlen := length_splitn_le 3 c s
  have hs := intercalate_splitn 2 c s
  generalize splitn 3 c s = parts at h hlen hs ⊢
  match parts with
  | [] => simp [piece] at h
  | [_] => simp [piece] at h
  | [_, _] => simp [piece] at h
  | [x, y, z] => simpa [piece, List.intercalate_cons_cons] using hs.symm
  | _ :: _ :: _ :: _ :: _ =>
    simp only [List.length_cons] at hlen
    omega

/-- `char::is_whitespace`, the Unicode `White_Space` property. -/
def isWhitespace (c : Char) : Bool :=
  let n := c.toNat
  (9 ≤ n && n ≤ 13) || n == 0x20 || n == 0x85 || n == 0xa0 || n == 0x1680 ||
    (0x2000 ≤ n && n ≤ 0x200a) || n == 0x2028 || n == 0x2029 || n == 0x202f || n == 0x205f ||
    n == 0x3000

/-- `str::trim`. -/
def trim (s : String) : String :=
  String.ofList (((s.toList.dropWhile isWhitespace).reverse.dropWhile isWhitespace).reverse)

/-- The value of a nonempty run of ASCII digits. -/
def natOfDigits (cs : List Char) : Option Nat :=
  if cs = [] then none
  else cs.foldlM (fun acc c => if c.isDigit then some (acc * 10 + (c.toNat - 48)) else none) 0

theorem foldlM_digits_lt {cs : List Char} {a n : Nat}
    (h : cs.foldlM (fun acc c =>
      if c.isDigit then some (acc * 10 + (c.toNat - 48)) else none) a = some n) :
    n < (a + 1) * 10 ^ cs.length := by
  induction cs generalizing a with
  | nil =>
    simp only [List.foldlM_nil, Option.pure_def, Option.some.injEq] at h
    simp [h]
  | cons c cs ih =>
    rw [List.foldlM_cons] at h
    obtain ⟨b, hb, hr⟩ := Option.bind_eq_some_iff.mp h
    split at hb
    · next hc =>
      have hd : c.toNat ≤ 57 := by
        simp only [Char.isDigit, Bool.and_eq_true, decide_eq_true_eq] at hc
        exact hc.2
      have hb : b + 1 ≤ (a + 1) * 10 := by
        simp only [Option.some.injEq] at hb
        omega
      calc n < (b + 1) * 10 ^ cs.length := ih hr
        _ ≤ (a + 1) * 10 * 10 ^ cs.length := Nat.mul_le_mul_right _ hb
        _ = (a + 1) * 10 ^ (c :: cs).length := by
          rw [List.length_cons, Nat.pow_succ]
          ring
    · cases hb

/-- A run of `k` digits is below `10 ^ k`. -/
theorem natOfDigits_lt {cs : List Char} {n : Nat} (h : natOfDigits cs = some n) :
    n < 10 ^ cs.length := by
  unfold natOfDigits at h
  split at h
  · cases h
  · simpa using foldlM_digits_lt h

/-- `str::parse::<i64>`: an optional sign, digits, and no overflow. -/
def parseI64 : List Char → Option Int
  | '-' :: ds => (natOfDigits ds).bind fun n => if n ≤ 2 ^ 63 then some (-(n : Int)) else none
  | '+' :: ds => (natOfDigits ds).bind fun n => if n < 2 ^ 63 then some (n : Int) else none
  | ds => (natOfDigits ds).bind fun n => if n < 2 ^ 63 then some (n : Int) else none

/-- An integer in `k` characters is below `10 ^ k`, whatever its sign, and fits an `i64`. -/
theorem parseI64_bounds {cs : List Char} {n : Int} (h : parseI64 cs = some n) :
    cs ≠ [] ∧ |n| < 10 ^ cs.length ∧ -2 ^ 63 ≤ n ∧ n < 2 ^ 63 := by
  have cast_lt : ∀ {ds : List Char} {k : Nat}, natOfDigits ds = some k →
      (k : Int) < 10 ^ ds.length := by
    intro ds k hk
    exact_mod_cast natOfDigits_lt hk
  have pow_cons : ∀ (c : Char) (ds : List Char), (10 : Int) ^ ds.length ≤ 10 ^ (c :: ds).length := by
    intro c ds
    exact pow_le_pow_right₀ (by norm_num) (by simp)
  unfold parseI64 at h
  split at h <;> obtain ⟨k, hk, hn⟩ := Option.bind_eq_some_iff.mp h <;>
    have hlt := cast_lt hk <;> split at hn <;> cases hn
  · refine ⟨by simp, ?_, by omega, by omega⟩
    rw [abs_neg, Nat.abs_cast]
    exact lt_of_lt_of_le hlt (pow_cons _ _)
  · refine ⟨by simp, ?_, by omega, by omega⟩
    rw [Nat.abs_cast]
    exact lt_of_lt_of_le hlt (pow_cons _ _)
  · refine ⟨?_, by rwa [Nat.abs_cast], by omega, by omega⟩
    rintro rfl
    simp [natOfDigits] at hk

/-- A decimal numeral of more than `k` digits is at least `10 ^ k`. -/
theorem le_of_lt_length_toString {n k : Nat} (hk : 0 < k)
    (h : k < (toString (n : Int)).length) : 10 ^ k ≤ n := by
  by_contra hn
  have := Nat.repr_length n k hk (by omega)
  exact absurd h (Nat.not_lt.mpr this)

end Text
