import Mathlib

/-! IPv4 addresses as four decimal numbers with dots between them. -/
namespace Text

def dottedQuad (a b c d : ℕ) : List Char :=
  Nat.toDigits 10 a ++ '.' :: (Nat.toDigits 10 b ++ '.' :: (Nat.toDigits 10 c ++ '.' ::
    Nat.toDigits 10 d))

variable {i j k l n : ℕ} {c : Char}

theorem isDigit_of_mem_toDigits (h : c ∈ Nat.toDigits 10 n) : c.isDigit = true :=
  Nat.isDigit_of_mem_toDigits (by omega) (by omega) h

theorem dot_notMem_toDigits : '.' ∉ Nat.toDigits 10 n := by
  intro h
  exact absurd (isDigit_of_mem_toDigits h) (by decide)

theorem mem_dottedQuad (hc : c ∈ dottedQuad i j k l) : c.isDigit = true ∨ c = '.' := by
  simp only [dottedQuad, List.mem_append, List.mem_cons] at hc
  rcases hc with h | h | h | h | h | h | h
  · exact .inl (isDigit_of_mem_toDigits h)
  · exact .inr h
  · exact .inl (isDigit_of_mem_toDigits h)
  · exact .inr h
  · exact .inl (isDigit_of_mem_toDigits h)
  · exact .inr h
  · exact .inl (isDigit_of_mem_toDigits h)

/-- The numbers between the dots, the last one with what stands behind it. -/
theorem splitOn_dottedQuad (t : List Char) : (dottedQuad i j k l ++ t).splitOn '.' =
    Nat.toDigits 10 i :: Nat.toDigits 10 j :: Nat.toDigits 10 k ::
      (Nat.toDigits 10 l ++ t).splitOn '.' := by
  simp only [dottedQuad, List.append_assoc, List.cons_append]
  rw [List.splitOn_append_cons_self_of_not_mem dot_notMem_toDigits,
    List.splitOn_append_cons_self_of_not_mem dot_notMem_toDigits,
    List.splitOn_append_cons_self_of_not_mem dot_notMem_toDigits]

end Text
