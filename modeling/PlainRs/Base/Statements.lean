import PlainRs.Base.Keyed

/-! Deletions by a list of values, under the limit on the parameters of a statement. -/
namespace Keyed

/-- The most parameters a statement binds; one with more is refused. -/
def maxVariableNumber : Nat := 32766

namespace Table

variable {ρ κ β : Type*} {key : ρ → κ} [DecidableEq β] {T : Table ρ key} {column : ρ → β}
  {values : List β} {r : ρ}

/-- `DELETE .. WHERE column IN (..)`; a statement that is refused deletes nothing, and the error is
dropped. -/
def deleteIn (T : Table ρ key) (column : ρ → β) (values : List β) : Table ρ key :=
  if values.length ≤ maxVariableNumber then T.filter fun r => column r ∉ values else T

theorem rows_deleteIn : (T.deleteIn column values).rows =
    T.rows.filter fun r => ¬ (values.length ≤ maxVariableNumber ∧ column r ∈ values) := by
  unfold deleteIn
  split
  · next h => simp [filter, h]
  · next h => simp [h]

theorem mem_deleteIn : r ∈ (T.deleteIn column values).rows ↔
    r ∈ T.rows ∧ (values.length ≤ maxVariableNumber → column r ∉ values) := by
  rw [rows_deleteIn, List.mem_filter, decide_eq_true_eq, not_and]

/-- A deletion leaves no row with one of the values just when it is not refused or there was none. -/
theorem deleteIn_clears_iff (T : Table ρ key) (column : ρ → β) (values : List β) :
    (∀ r ∈ (T.deleteIn column values).rows, column r ∉ values) ↔
      values.length ≤ maxVariableNumber ∨ ∀ r ∈ T.rows, column r ∉ values := by
  constructor
  · intro h
    by_cases hl : values.length ≤ maxVariableNumber
    · exact .inl hl
    · exact .inr fun r hr => h r (mem_deleteIn.mpr ⟨hr, fun hs => absurd hs hl⟩)
  · rintro (hl | hn) r hr
    · exact (mem_deleteIn.mp hr).2 hl
    · exact hn r (mem_deleteIn.mp hr).1

end Table

end Keyed
