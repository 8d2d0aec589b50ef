import Mathlib

/-! What a sequence of overwrites leaves in a field: the last value written to it. -/
namespace Overwrites

variable {σ γ β : Type*} {step : σ → γ → σ} {field : σ → β} {writes : γ → Option β} {s : σ}
  {cs : List γ}

/-- The last value that the steps write, where one does. -/
def last (writes : γ → Option β) (cs : List γ) : Option β := (cs.filterMap writes).getLast?

theorem last_concat (c : γ) : last writes (cs ++ [c]) = (writes c).or (last writes cs) := by
  cases h : writes c <;> simp [last, List.filterMap_append, h]

/-- Where each step writes what it says into a field, or leaves it, the last one to write has it. -/
theorem field_foldl (h : ∀ s c, field (step s c) = (writes c).getD (field s)) :
    field (cs.foldl step s) = (last writes cs).getD (field s) := by
  induction cs using List.reverseRecOn with
  | nil => rfl
  | append_singleton cs c ih =>
    rw [List.foldl_append, List.foldl_cons, List.foldl_nil, h, ih, last_concat]
    cases writes c <;> rfl

/-! A property of the state that a step puts there, drops, or leaves as it is. -/

variable {Q A B : Prop} [Decidable Q] [Decidable A] [Decidable B]

theorem put_drop_iff : (Q ∨ A) ∧ ¬ B ↔
    (if B then some false else if A then some true else none).getD (decide Q) = true := by
  by_cases hb : B
  · simp [hb]
  · by_cases ha : A <;> simp [ha, hb]

theorem put_iff : Q ∨ A ↔ (if A then some true else none).getD (decide Q) = true := by
  by_cases ha : A <;> simp [ha]

theorem drop_iff : Q ∧ ¬ B ↔ (if B then some false else none).getD (decide Q) = true := by
  by_cases hb : B <;> simp [hb]

end Overwrites
