import Mathlib

/-! Numbers written with a fixed number of decimal digits, and texts of fixed width, in the order of
their characters. -/
namespace Digits

variable {a b a' b' : List Char} {width n k : ℕ}

/-- Of texts in front that are as long, the lesser one decides. -/
theorem append_lt_append (h : a < b) (hlen : a.length = b.length) : a ++ a' < b ++ b' := by
  induction a generalizing b with
  | nil =>
    obtain rfl := List.length_eq_zero_iff.mp hlen.symm
    exact absurd h (List.lt_irrefl _)
  | cons c a ih =>
    obtain ⟨d, b, rfl⟩ := List.exists_cons_of_length_eq_add_one hlen.symm
    rw [List.cons_append, List.cons_append, List.cons_lt_cons_iff]
    rcases List.cons_lt_cons_iff.mp h with hcd | ⟨hcd, hab⟩
    · exact .inl hcd
    · exact .inr ⟨hcd, ih hab (Nat.succ.inj hlen)⟩

/-- The last `width` digits. -/
def fixed : ℕ → ℕ → List Char
  | 0, _ => []
  | width + 1, n => fixed width (n / 10) ++ [Nat.digitChar (n % 10)]

@[simp] theorem length_fixed (width n : ℕ) : (fixed width n).length = width := by
  induction width generalizing n with
  | zero => rfl
  | succ width ih => simp [fixed, ih]

theorem fixed_zero (width : ℕ) : fixed width 0 = List.replicate width '0' := by
  induction width with
  | zero => rfl
  | succ width ih =>
    rw [fixed, ih, List.replicate_succ']
    rfl

theorem digitChar_lt {c d : ℕ} (h : c < d) (hd : d < 10) : Nat.digitChar c < Nat.digitChar d := by
  interval_cases d <;> interval_cases c <;> decide

theorem fixed_lt (h : n < k) (hk : k < 10 ^ width) : fixed width n < fixed width k := by
  induction width generalizing n k with
  | zero => omega
  | succ width ih =>
    rw [fixed, fixed]
    rcases Nat.lt_or_ge (n / 10) (k / 10) with hlt | hge
    · have hk : k / 10 < 10 ^ width := by
        apply Nat.div_lt_of_lt_mul
        rw [← pow_succ']
        exact hk
      exact append_lt_append (ih hlt hk) (by simp)
    · have heq : n / 10 = k / 10 := by omega
      rw [heq]
      refine List.append_left_lt (List.cons_lt_cons_iff.mpr (.inl ?_))
      exact digitChar_lt (by omega) (by omega)

/-- Zeros in front of the digits. -/
theorem leftpad_toDigits (hw : 0 < width) (h : n < 10 ^ width) :
    (Nat.toDigits 10 n).leftpad width '0' = fixed width n := by
  induction width generalizing n with
  | zero => exact absurd hw (Nat.lt_irrefl 0)
  | succ width ih =>
    by_cases hn : n < 10
    · rw [Nat.toDigits_of_lt_base hn, fixed, Nat.div_eq_of_lt hn, fixed_zero, Nat.mod_eq_of_lt hn]
      simp [List.leftpad]
    · have hwidth : 0 < width := by
        rcases Nat.eq_zero_or_pos width with rfl | hpos
        · omega
        · exact hpos
      have hrest : n / 10 < 10 ^ width := by
        apply Nat.div_lt_of_lt_mul
        rw [← pow_succ']
        exact h
      rw [Nat.toDigits_of_base_le (by omega) (by omega), fixed, ← ih hwidth hrest]
      simp [List.leftpad]

end Digits
