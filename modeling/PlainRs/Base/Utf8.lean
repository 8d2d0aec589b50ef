import Mathlib

/-! Strings cut at byte positions, and UTF-8 decoding that replaces what is not valid. -/
namespace Text

/-- The characters in the first `n` bytes, unless byte `n` is inside a character or past the end. -/
def takeBytes : Nat → List Char → Option (List Char)
  | 0, _ => some []
  | _ + 1, [] => none
  | n + 1, c :: cs =>
    if c.utf8Size ≤ n + 1 then (takeBytes (n + 1 - c.utf8Size) cs).map (c :: ·) else none

/-- The characters after the first `n` bytes. -/
def dropBytes : Nat → List Char → Option (List Char)
  | 0, cs => some cs
  | _ + 1, [] => none
  | n + 1, c :: cs => if c.utf8Size ≤ n + 1 then dropBytes (n + 1 - c.utf8Size) cs else none

/-- `&s[..n]`. -/
def sliceTo (s : String) (n : Nat) : Option String := (takeBytes n s.toList).map String.ofList

/-- `&s[n..]`. -/
def sliceFrom (s : String) (n : Nat) : Option String := (dropBytes n s.toList).map String.ofList

/-- The byte position of the first `c`. -/
def findByte (c : Char) : List Char → Option Nat
  | [] => none
  | d :: ds => if d = c then some 0 else (findByte c ds).map (d.utf8Size + ·)

/-- `str::find` of a character. -/
def find (s : String) (c : Char) : Option Nat := findByte c s.toList

variable {c : Char} {cs pre post : List Char} {n : Nat} {s : String}

/-- The bytes of a prefix end at a character boundary. -/
theorem takeBytes_append : takeBytes (String.utf8Len pre) (pre ++ post) = some pre := by
  induction pre with
  | nil => cases post <;> rfl
  | cons c cs ih =>
    have hc := c.utf8Size_pos
    obtain ⟨k, hk⟩ : ∃ k, String.utf8Len (c :: cs) = k + 1 :=
      ⟨String.utf8Len cs + c.utf8Size - 1, by simp [String.utf8Len_cons]; omega⟩
    have hrest : k + 1 - c.utf8Size = String.utf8Len cs := by
      rw [← hk, String.utf8Len_cons, Nat.add_sub_cancel]
    rw [hk, List.cons_append, takeBytes, if_pos (by rw [← hk, String.utf8Len_cons]; omega), hrest, ih,
      Option.map_some]

theorem dropBytes_append : dropBytes (String.utf8Len pre) (pre ++ post) = some post := by
  induction pre with
  | nil => cases post <;> rfl
  | cons c cs ih =>
    have hc := c.utf8Size_pos
    obtain ⟨k, hk⟩ : ∃ k, String.utf8Len (c :: cs) = k + 1 :=
      ⟨String.utf8Len cs + c.utf8Size - 1, by simp [String.utf8Len_cons]; omega⟩
    have hrest : k + 1 - c.utf8Size = String.utf8Len cs := by
      rw [← hk, String.utf8Len_cons, Nat.add_sub_cancel]
    rw [hk, List.cons_append, dropBytes, if_pos (by rw [← hk, String.utf8Len_cons]; omega), hrest, ih]

/-- A character that is found stands after a prefix of as many bytes. -/
theorem findByte_eq_some (h : findByte c cs = some n) :
    ∃ pre post, cs = pre ++ c :: post ∧ String.utf8Len pre = n := by
  induction cs generalizing n with
  | nil => cases h
  | cons d ds ih =>
    rw [findByte] at h
    split at h
    · next hd =>
      obtain rfl := Option.some.inj h
      exact ⟨[], ds, by rw [hd]; rfl, rfl⟩
    · obtain ⟨m, hm, rfl⟩ := Option.map_eq_some_iff.mp h
      obtain ⟨pre, post, rfl, rfl⟩ := ih hm
      exact ⟨d :: pre, post, rfl, by rw [String.utf8Len_cons, Nat.add_comm]⟩

/-- Before and after a one-byte character that is found, a string can be cut. -/
theorem slices_of_find (h : find s c = some n) (hc : c.utf8Size = 1) :
    ∃ before after, sliceTo s n = some before ∧ sliceFrom s (n + 1) = some after := by
  obtain ⟨pre, post, hs, rfl⟩ := findByte_eq_some h
  refine ⟨String.ofList pre, String.ofList post, ?_, ?_⟩
  · rw [sliceTo, hs, takeBytes_append, Option.map_some]
  · have hlen : String.utf8Len pre + 1 = String.utf8Len (pre ++ [c]) := by
      simp [String.utf8Len_append, String.utf8Len_cons, hc]
    have happ : pre ++ c :: post = (pre ++ [c]) ++ post := by simp
    rw [sliceFrom, hs, happ, hlen, dropBytes_append, Option.map_some]

def isContinuation (b : UInt8) : Bool := 0x80 ≤ b && b ≤ 0xBF

/-- The second bytes that may follow a leading byte. -/
def secondOk (b₀ b₁ : UInt8) : Bool :=
  (0xC2 ≤ b₀ && b₀ ≤ 0xDF && isContinuation b₁) || (b₀ == 0xE0 && 0xA0 ≤ b₁ && b₁ ≤ 0xBF) ||
  (0xE1 ≤ b₀ && b₀ ≤ 0xEC && isContinuation b₁) || (b₀ == 0xED && 0x80 ≤ b₁ && b₁ ≤ 0x9F) ||
  (0xEE ≤ b₀ && b₀ ≤ 0xEF && isContinuation b₁) || (b₀ == 0xF0 && 0x90 ≤ b₁ && b₁ ≤ 0xBF) ||
  (0xF1 ≤ b₀ && b₀ ≤ 0xF3 && isContinuation b₁) || (b₀ == 0xF4 && 0x80 ≤ b₁ && b₁ ≤ 0x8F)

/-- The character of a leading byte with the given mask and its continuation bytes. -/
def decoded (mask b₀ : UInt8) (bs : List UInt8) : Char :=
  Char.ofNat (bs.foldl (fun n b => n * 64 + (b &&& 0x3F).toNat) (b₀ &&& mask).toNat)

def replacementChar : Char := Char.ofNat 0xFFFD

/-- The longest beginning of a character that is cut short is replaced as one. -/
def lossyChars : List UInt8 → List Char
  | [] => []
  | b₀ :: l₁ =>
    if b₀ < 0x80 then Char.ofNat b₀.toNat :: lossyChars l₁
    else match l₁ with
    | [] => [replacementChar]
    | b₁ :: l₂ =>
      if secondOk b₀ b₁ = false then replacementChar :: lossyChars (b₁ :: l₂)
      else if b₀ < 0xE0 then decoded 0x1F b₀ [b₁] :: lossyChars l₂
      else match l₂ with
      | [] => [replacementChar]
      | b₂ :: l₃ =>
        if isContinuation b₂ = false then replacementChar :: lossyChars (b₂ :: l₃)
        else if b₀ < 0xF0 then decoded 0x0F b₀ [b₁, b₂] :: lossyChars l₃
        else match l₃ with
        | [] => [replacementChar]
        | b₃ :: l₄ =>
          if isContinuation b₃ = false then replacementChar :: lossyChars (b₃ :: l₄)
          else decoded 0x07 b₀ [b₁, b₂, b₃] :: lossyChars l₄

/-- `String::from_utf8_lossy`. -/
def fromUtf8Lossy (b : List UInt8) : String := String.ofList (lossyChars b)

example : fromUtf8Lossy [0x41, 0xC3, 0xA9, 0xE2, 0x82, 0x42, 0xF0, 0x9F, 0x98, 0x80, 0xFF] =
    "Aé�B😀�" := by decide +kernel

end Text
