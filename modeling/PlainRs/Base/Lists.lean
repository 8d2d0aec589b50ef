import Mathlib

/-! Cutting a list into pieces of a fixed length. -/
namespace Lists

variable {α : Type*} {n : Nat} {a l : List α}

/-- `chunks` with a bound on how many pieces there can be. -/
def chunksUpTo (n : Nat) : Nat → List α → List (List α)
  | 0, _ => []
  | fuel + 1, l => if l.isEmpty then [] else l.take n :: chunksUpTo n fuel (l.drop n)

/-- Pieces of length `n`; the last one may be shorter. -/
def chunks (n : Nat) (l : List α) : List (List α) := chunksUpTo n l.length l

theorem chunksUpTo_eq {fuel : Nat} (hn : 0 < n) (h : l.length ≤ fuel) :
    chunksUpTo n fuel l = chunks n l := by
  unfold chunks
  induction fuel using Nat.strong_induction_on generalizing l with
  | h fuel ih =>
    cases l with
    | nil => cases fuel <;> rfl
    | cons x l =>
      obtain ⟨fuel, rfl⟩ : ∃ f, fuel = f + 1 := ⟨fuel - 1, by simp at h; omega⟩
      have hd : ((x :: l).drop n).length ≤ l.length := by simp; omega
      simp only [List.length_cons] at h
      simp only [chunksUpTo, List.isEmpty_cons, List.length_cons, Bool.false_eq_true, if_false]
      rw [ih fuel (by omega) (by omega)]
      by_cases hl : l.length = fuel
      · rw [hl, ih fuel (by omega) (by omega)]
      · rw [ih l.length (by omega) hd]

@[simp] theorem chunks_nil : chunks n ([] : List α) = [] := rfl

/-- A full piece at the front comes off as it is. -/
theorem chunks_append (hn : 0 < n) (ha : a.length = n) : chunks n (a ++ l) = a :: chunks n l := by
  obtain ⟨x, a', rfl⟩ : ∃ x a', a = x :: a' := by
    cases a with
    | nil => simp at ha; omega
    | cons x a' => exact ⟨x, a', rfl⟩
  rw [chunks, List.cons_append, List.length_cons, chunksUpTo]
  simp only [List.isEmpty_cons, Bool.false_eq_true, if_false]
  rw [← List.cons_append, List.take_left' ha, List.drop_left' ha, chunksUpTo_eq hn (by simp)]

/-- A list no longer than a piece is one piece. -/
theorem chunks_short (h : l.length ≤ n) (hl : l ≠ []) : chunks n l = [l] := by
  obtain ⟨x, l', rfl⟩ := List.exists_cons_of_ne_nil hl
  rw [chunks, List.length_cons, chunksUpTo]
  simp only [List.isEmpty_cons, Bool.false_eq_true, if_false]
  rw [List.take_of_length_le h, List.drop_of_length_le h]
  cases l'.length <;> rfl

theorem length_chunks (hn : 0 < n) : (chunks n l).length = (l.length + (n - 1)) / n := by
  induction hm : l.length using Nat.strong_induction_on generalizing l with
  | h m ih =>
    subst hm
    by_cases hl : l = []
    · subst hl
      simp [Nat.div_eq_of_lt (by omega : n - 1 < n)]
    · have hpos := List.length_pos_iff.mpr hl
      by_cases hs : l.length ≤ n
      · rw [chunks_short hs hl, List.length_singleton]
        exact (Nat.div_eq_of_lt_le (by omega) (by omega)).symm
      · have hcut := chunks_append (a := l.take n) (l := l.drop n) hn
          (by rw [List.length_take]; omega)
        rw [List.take_append_drop] at hcut
        have hrest := ih (l.drop n).length (by rw [List.length_drop]; omega) (l := l.drop n) rfl
        rw [hcut, List.length_cons, hrest, List.length_drop, ← Nat.add_div_right _ hn]
        congr 1
        omega

end Lists
