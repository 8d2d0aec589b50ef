import PlainRs.Base.Text
import PlainRs.Base.Utf8

/-! Lossy decoding gives back what was encoded. -/
namespace Text

variable {c : Char} {cs : List Char} {bs tl rest : List UInt8} {x y : Nat} {p : Char → Bool}

theorem toNat_byte (x base : Nat) (h : x + base < 256) : (UInt8.ofNat (x + base)).toNat = x + base := by
  rw [UInt8.toNat_ofNat']
  omega

/-- A continuation byte holds six bits. -/
theorem continuation_bits (h : x < 64) : (UInt8.ofNat (x + 0x80) &&& 0x3F).toNat = x := by
  have hall : ∀ x : Fin 64, (UInt8.ofNat (x.val + 0x80) &&& 0x3F).toNat = x.val := by decide
  exact hall ⟨x, h⟩

theorem leading2_bits (h : x < 32) : (UInt8.ofNat (x + 0xC0) &&& 0x1F).toNat = x := by
  have hall : ∀ x : Fin 32, (UInt8.ofNat (x.val + 0xC0) &&& 0x1F).toNat = x.val := by decide
  exact hall ⟨x, h⟩

theorem leading3_bits (h : x < 16) : (UInt8.ofNat (x + 0xE0) &&& 0x0F).toNat = x := by
  have hall : ∀ x : Fin 16, (UInt8.ofNat (x.val + 0xE0) &&& 0x0F).toNat = x.val := by decide
  exact hall ⟨x, h⟩

theorem leading4_bits (h : x < 8) : (UInt8.ofNat (x + 0xF0) &&& 0x07).toNat = x := by
  have hall : ∀ x : Fin 8, (UInt8.ofNat (x.val + 0xF0) &&& 0x07).toNat = x.val := by decide
  exact hall ⟨x, h⟩

theorem isContinuation_iff {b : UInt8} : isContinuation b = true ↔ 0x80 ≤ b.toNat ∧ b.toNat ≤ 0xBF := by
  simp [isContinuation, UInt8.le_iff_toNat_le]

theorem secondOk_iff {b₀ b₁ : UInt8} : secondOk b₀ b₁ = true ↔
    0x80 ≤ b₁.toNat ∧ b₁.toNat ≤ 0xBF ∧ 0xC2 ≤ b₀.toNat ∧ b₀.toNat ≤ 0xF4 ∧
      (b₀.toNat = 0xE0 → 0xA0 ≤ b₁.toNat) ∧ (b₀.toNat = 0xED → b₁.toNat ≤ 0x9F) ∧
      (b₀.toNat = 0xF0 → 0x90 ≤ b₁.toNat) ∧ (b₀.toNat = 0xF4 → b₁.toNat ≤ 0x8F) := by
  have heq : ∀ n : UInt8, b₀ = n ↔ b₀.toNat = n.toNat := fun n => UInt8.toNat_inj.symm
  simp only [secondOk, Bool.or_eq_true, Bool.and_eq_true, decide_eq_true_eq, beq_iff_eq,
    isContinuation_iff, UInt8.le_iff_toNat_le, heq, UInt8.reduceToNat]
  omega

theorem lossyChars_one (h : x < 0x80) :
    lossyChars (UInt8.ofNat x :: rest) = Char.ofNat x :: lossyChars rest := by
  have hx : (UInt8.ofNat x).toNat = x := toNat_byte x 0 (by omega)
  have hlt : UInt8.ofNat x < 0x80 := by
    rw [UInt8.lt_iff_toNat_lt, hx]
    exact h
  rw [lossyChars.eq_def]
  simp only [hlt, if_true, hx]

theorem lossyChars_two (hx : 2 ≤ x) (hx' : x < 32) (hy : y < 64) :
    lossyChars (UInt8.ofNat (x + 0xC0) :: UInt8.ofNat (y + 0x80) :: rest) =
      Char.ofNat (x * 64 + y) :: lossyChars rest := by
  have hb₀ := toNat_byte x 0xC0 (by omega)
  have hb₁ := toNat_byte y 0x80 (by omega)
  have hnot : ¬ UInt8.ofNat (x + 0xC0) < 0x80 := by
    rw [UInt8.lt_iff_toNat_lt, hb₀]
    exact not_lt.mpr (by simp)
  have hsecond : secondOk (UInt8.ofNat (x + 0xC0)) (UInt8.ofNat (y + 0x80)) = true := by
    rw [secondOk_iff, hb₀, hb₁]
    omega
  have hlt : UInt8.ofNat (x + 0xC0) < 0xE0 := by
    rw [UInt8.lt_iff_toNat_lt, hb₀]
    simp
    omega
  rw [lossyChars.eq_def]
  simp only [hnot, hsecond, hlt, if_true, if_false, Bool.true_eq_false, decoded, List.foldl_cons,
    List.foldl_nil, leading2_bits hx', continuation_bits hy]

theorem lossyChars_three {z : Nat} (hx : x < 16) (hy : y < 64) (hz : z < 64) (h0 : x = 0 → 32 ≤ y)
    (hd : x = 13 → y < 32) :
    lossyChars (UInt8.ofNat (x + 0xE0) :: UInt8.ofNat (y + 0x80) :: UInt8.ofNat (z + 0x80) :: rest) =
      Char.ofNat ((x * 64 + y) * 64 + z) :: lossyChars rest := by
  have hb₀ := toNat_byte x 0xE0 (by omega)
  have hb₁ := toNat_byte y 0x80 (by omega)
  have hb₂ := toNat_byte z 0x80 (by omega)
  have hnot : ¬ UInt8.ofNat (x + 0xE0) < 0x80 ∧ ¬ UInt8.ofNat (x + 0xE0) < 0xE0 := by
    rw [UInt8.lt_iff_toNat_lt, UInt8.lt_iff_toNat_lt, hb₀]
    simp
  have hsecond : secondOk (UInt8.ofNat (x + 0xE0)) (UInt8.ofNat (y + 0x80)) = true := by
    rw [secondOk_iff, hb₀, hb₁]
    omega
  have hthird : isContinuation (UInt8.ofNat (z + 0x80)) = true := by
    rw [isContinuation_iff, hb₂]
    omega
  have hlt : UInt8.ofNat (x + 0xE0) < 0xF0 := by
    rw [UInt8.lt_iff_toNat_lt, hb₀]
    simp
    omega
  rw [lossyChars.eq_def]
  simp only [hnot.1, hnot.2, hsecond, hthird, hlt, if_true, if_false, Bool.true_eq_false, decoded,
    List.foldl_cons, List.foldl_nil, leading3_bits hx, continuation_bits hy, continuation_bits hz]

theorem lossyChars_four {z w : Nat} (hx : x < 5) (hy : y < 64) (hz : z < 64) (hw : w < 64)
    (h0 : x = 0 → 16 ≤ y) (h4 : x = 4 → y < 16) :
    lossyChars (UInt8.ofNat (x + 0xF0) :: UInt8.ofNat (y + 0x80) :: UInt8.ofNat (z + 0x80) ::
        UInt8.ofNat (w + 0x80) :: rest) =
      Char.ofNat (((x * 64 + y) * 64 + z) * 64 + w) :: lossyChars rest := by
  have hb₀ := toNat_byte x 0xF0 (by omega)
  have hb₁ := toNat_byte y 0x80 (by omega)
  have hb₂ := toNat_byte z 0x80 (by omega)
  have hb₃ := toNat_byte w 0x80 (by omega)
  have hnot : ¬ UInt8.ofNat (x + 0xF0) < 0x80 ∧ ¬ UInt8.ofNat (x + 0xF0) < 0xE0 ∧
      ¬ UInt8.ofNat (x + 0xF0) < 0xF0 := by
    rw [UInt8.lt_iff_toNat_lt, UInt8.lt_iff_toNat_lt, UInt8.lt_iff_toNat_lt, hb₀]
    simp
  have hsecond : secondOk (UInt8.ofNat (x + 0xF0)) (UInt8.ofNat (y + 0x80)) = true := by
    rw [secondOk_iff, hb₀, hb₁]
    omega
  have hcont : isContinuation (UInt8.ofNat (z + 0x80)) = true ∧
      isContinuation (UInt8.ofNat (w + 0x80)) = true := by
    rw [isContinuation_iff, isContinuation_iff, hb₂, hb₃]
    omega
  rw [lossyChars.eq_def]
  simp only [hnot.1, hnot.2.1, hnot.2.2, hsecond, hcont.1, hcont.2, if_false,
    Bool.true_eq_false, decoded, List.foldl_cons, List.foldl_nil,
    leading4_bits (show x < 8 by omega), continuation_bits hy, continuation_bits hz,
    continuation_bits hw]

theorem ofNat_val (c : Char) : Char.ofNat c.val.toNat = c := Char.ofNat_toNat c

/-- Decoding takes the bytes of a character as the character. -/
theorem lossyChars_encodeChar : lossyChars (String.utf8EncodeChar c ++ rest) = c :: lossyChars rest := by
  have hv : c.val.toNat < 0xD800 ∨ 0xDFFF < c.val.toNat ∧ c.val.toNat < 0x110000 := c.valid
  generalize hn : c.val.toNat = v at hv
  have hc : Char.ofNat v = c := by rw [← hn, ofNat_val]
  unfold String.utf8EncodeChar
  simp only [hn]
  split
  · rw [List.singleton_append, lossyChars_one (by omega), hc]
  · split
    · rw [List.cons_append, List.singleton_append, lossyChars_two (by omega) (by omega) (by omega)]
      rw [show v / 64 % 32 * 64 + v % 64 = v by omega, hc]
    · split
      · rw [List.cons_append, List.cons_append, List.singleton_append,
          lossyChars_three (by omega) (by omega) (by omega) (by omega) (by omega)]
        rw [show (v / 4096 % 16 * 64 + v / 64 % 64) * 64 + v % 64 = v by omega, hc]
      · rw [List.cons_append, List.cons_append, List.cons_append, List.singleton_append,
          lossyChars_four (by omega) (by omega) (by omega) (by omega) (by omega) (by omega)]
        rw [show ((v / 262144 % 8 * 64 + v / 4096 % 64) * 64 + v / 64 % 64) * 64 + v % 64 = v by omega,
          hc]

theorem lossyChars_encode : lossyChars (cs.flatMap String.utf8EncodeChar) = cs := by
  induction cs with
  | nil => rw [List.flatMap_nil, lossyChars.eq_def]
  | cons c cs ih => rw [List.flatMap_cons, lossyChars_encodeChar, ih]

/-- The bytes of a text are read as the text. -/
theorem fromUtf8Lossy_bytes (s : String) : fromUtf8Lossy (bytes s) = s := by
  calc fromUtf8Lossy (bytes s)
    _ = fromUtf8Lossy (bytes (String.ofList s.toList)) := by rw [String.ofList_toList]
    _ = String.ofList s.toList := by rw [bytes_ofList, fromUtf8Lossy, lossyChars_encode]
    _ = s := String.ofList_toList

theorem isContinuation_of_secondOk {b₀ b₁ : UInt8} (h : ¬ secondOk b₀ b₁ = false) :
    isContinuation b₁ = true := by
  rw [Bool.not_eq_false, secondOk_iff] at h
  rw [isContinuation_iff]
  omega

/-- Decoding starts anew at a byte that does not continue a character. -/
theorem lossyChars_append (htl : ∀ b ∈ tl.head?, isContinuation b = false) :
    lossyChars (bs ++ tl) = lossyChars bs ++ lossyChars tl := by
  fun_induction lossyChars bs
  case case1 => rfl
  -- what ends within a character is cut short by what follows as it is by the end
  case case3 b₀ h =>
    cases tl with
    | nil => simp [lossyChars, h]
    | cons b tl =>
      have hb : secondOk b₀ b = false := by
        by_contra hok
        have hcont := isContinuation_of_secondOk hok
        rw [htl b rfl] at hcont
        cases hcont
      rw [List.singleton_append, lossyChars.eq_def]
      simp [h, hb]
  case case6 b₀ h b₁ h₁ h₂ =>
    cases tl with
    | nil =>
      rw [lossyChars.eq_def]
      simp [h, h₁, h₂, lossyChars]
    | cons b tl =>
      rw [List.cons_append, List.singleton_append, lossyChars.eq_def]
      simp [h, h₁, h₂, htl b rfl]
  case case9 b₀ h b₁ h₁ h₂ b₂ h₃ h₄ =>
    cases tl with
    | nil =>
      rw [lossyChars.eq_def]
      simp [h, h₁, h₂, h₃, h₄, lossyChars]
    | cons b tl =>
      rw [List.cons_append, List.cons_append, List.singleton_append, lossyChars.eq_def]
      simp [h, h₁, h₂, h₃, h₄, htl b rfl]
  all_goals
    simp only [List.cons_append] at *
    rw [lossyChars.eq_def]
    simp [*]

/-- Of bytes that are not ASCII it takes two to make a character. -/
theorem countP_lossyChars (hp : p replacementChar = false) (h : ∀ b ∈ bs, 128 ≤ b.toNat) :
    2 * (lossyChars bs).countP p ≤ bs.length := by
  fun_induction lossyChars bs
  case case1 => simp
  case case2 b l hlt ih =>
    have hb := h b List.mem_cons_self
    rw [UInt8.lt_iff_toNat_lt] at hlt
    simp at hlt
    omega
  all_goals
    simp only [List.countP_cons, List.countP_nil, List.length_cons, List.length_nil, List.mem_cons,
      hp] at *
    grind
end Text
