import PlainRs.Base.Clock

/-! Distances of two `i64` readings that do not fit an `i64`. -/
namespace Clock

variable {a b w : Int64}

/-- The subtraction overflows, or the absolute value of what it wraps to does. -/
def Overflows (now timestamp : Int64) : Prop :=
  now.toBitVec.ssubOverflow timestamp.toBitVec ∨ (now - timestamp).toBitVec.negOverflow

instance (now timestamp : Int64) : Decidable (Overflows now timestamp) :=
  inferInstanceAs (Decidable (_ ∨ _))

/-- A difference wraps around at most once. -/
theorem toInt_sub_cases (a b : Int64) :
    (a - b).toInt = a.toInt - b.toInt ∧
        -2 ^ 63 ≤ a.toInt - b.toInt ∧ a.toInt - b.toInt < 2 ^ 63 ∨
      (a - b).toInt = a.toInt - b.toInt - 2 ^ 64 ∧ 2 ^ 63 ≤ a.toInt - b.toInt ∨
      (a - b).toInt = a.toInt - b.toInt + 2 ^ 64 ∧ a.toInt - b.toInt < -2 ^ 63 := by
  have ha := a.le_toInt
  have ha' := a.toInt_lt
  have hb := b.le_toInt
  have hb' := b.toInt_lt
  rw [Int64.toInt_sub]
  by_cases hlo : a.toInt - b.toInt < -2 ^ 63
  · right; right
    refine ⟨?_, hlo⟩
    rw [← Int.add_bmod_right, Int.bmod_eq_of_le (by norm_num; omega) (by norm_num; omega)]
    norm_num
  · by_cases hhi : a.toInt - b.toInt < 2 ^ 63
    · left
      refine ⟨?_, by omega, hhi⟩
      rw [Int.bmod_eq_of_le (by norm_num; omega) (by norm_num; omega)]
    · right; left
      refine ⟨?_, by omega⟩
      rw [← Int.sub_bmod_right, Int.bmod_eq_of_le (by norm_num; omega) (by norm_num; omega)]
      norm_num

theorem toInt_abs (x : Int64) :
    x.abs.toInt = if x.toInt = -2 ^ 63 then -2 ^ 63 else |x.toInt| := by
  have habs : x.abs.toInt = x.toBitVec.abs.toInt := rfl
  have hint : (BitVec.intMin 64).toInt = -2 ^ 63 := by decide
  have hmin : x.toBitVec = BitVec.intMin 64 ↔ x.toInt = -2 ^ 63 := by
    rw [← BitVec.toInt_inj, hint, Int64.toInt_toBitVec]
  rw [habs, BitVec.toInt_abs_eq_natAbs]
  simp only [hmin, Int64.toInt_toBitVec, Int.abs_eq_natAbs]
  split
  · exact hint
  · rfl

/-- Nothing overflows just when the distance fits. -/
theorem not_overflows_iff : ¬ Overflows a b ↔ |a.toInt - b.toInt| < 2 ^ 63 := by
  have hsub : a.toBitVec.ssubOverflow b.toBitVec = true ↔
      2 ^ 63 ≤ a.toInt - b.toInt ∨ a.toInt - b.toInt < -2 ^ 63 := by
    simp [BitVec.ssubOverflow, Int64.toInt_toBitVec]
  have hneg : (a - b).toBitVec.negOverflow = true ↔ (a - b).toInt = -2 ^ 63 := by
    simp [BitVec.negOverflow, Int64.toInt_toBitVec]
  rw [Overflows, hsub, hneg, abs_lt]
  rcases toInt_sub_cases a b with ⟨he, hlo, hhi⟩ | ⟨he, hlo⟩ | ⟨he, hhi⟩ <;> omega

/-- With arithmetic that wraps around, the answer is wrong just at the one distance that has no
absolute value and at those that wrap around into the window. -/
theorem within_iff_distance (hw : 0 ≤ w.toInt) :
    (within w a b = true ↔ |a.toInt - b.toInt| ≤ w.toInt) ↔
      |a.toInt - b.toInt| ≠ 2 ^ 63 ∧ |a.toInt - b.toInt| + w.toInt < 2 ^ 64 := by
  have hw' := w.toInt_lt
  rw [within, decide_eq_true_eq, Int64.le_iff_toInt_le, toInt_abs]
  have ha := a.le_toInt
  have ha' := a.toInt_lt
  have hb := b.le_toInt
  have hb' := b.toInt_lt
  rcases toInt_sub_cases a b with ⟨he, hlo, hhi⟩ | ⟨he, hlo⟩ | ⟨he, hhi⟩
  · rw [he]
    rcases abs_cases (a.toInt - b.toInt) with ⟨hd, -⟩ | ⟨hd, -⟩
    · rw [hd]; split <;> omega
    · rw [hd]; split <;> omega
  · rw [he, abs_of_nonneg (show 0 ≤ a.toInt - b.toInt by omega),
      abs_of_neg (show a.toInt - b.toInt - 2 ^ 64 < 0 by omega)]
    split <;> omega
  · rw [he, abs_of_neg (show a.toInt - b.toInt < 0 by omega),
      abs_of_pos (show 0 < a.toInt - b.toInt + 2 ^ 64 by omega)]
    split <;> omega

end Clock
