import PlainRs.Base.Checked

/-! Parts of a list by their position, and the reads within them. -/
namespace Checked

variable {α : Type} {data xs ys : List α} {a : α} {i : ℕ}

/-- `xs` stands in `data` from `i` on. -/
def At (data : List α) (i : ℕ) (xs : List α) : Prop :=
  ∃ pre post, data = pre ++ xs ++ post ∧ pre.length = i

theorem At.of_append {pre : List α} : At (pre ++ xs) pre.length xs :=
  ⟨pre, [], by rw [List.append_nil], rfl⟩

theorem At.left (h : At data i (xs ++ ys)) : At data i xs := by
  obtain ⟨pre, post, hdata, hlen⟩ := h
  exact ⟨pre, ys ++ post, by simp [hdata], hlen⟩

theorem At.right (h : At data i (xs ++ ys)) : At data (i + xs.length) ys := by
  obtain ⟨pre, post, hdata, hlen⟩ := h
  exact ⟨pre ++ xs, post, by simp [hdata], by simp [hlen]⟩

theorem At.tail (h : At data i (a :: ys)) : At data (i + 1) ys := by
  have h : At data i ([a] ++ ys) := h
  exact h.right

theorem At.le (h : At data i xs) : i + xs.length ≤ data.length := by
  obtain ⟨pre, post, hdata, hlen⟩ := h
  rw [hdata, List.length_append, List.length_append, hlen]
  omega

theorem At.get (h : At data i (a :: ys)) : get data i = .ok a := by
  obtain ⟨pre, post, hdata, rfl⟩ := h
  simp [Checked.get, hdata]

theorem At.slice (h : At data i xs) : slice data i (i + xs.length) = .ok xs := by
  have hle := h.le
  obtain ⟨pre, post, hdata, rfl⟩ := h
  rw [Checked.slice, if_pos ⟨Nat.le_add_right _ _, hle⟩, hdata]
  simp

theorem At.take_drop (h : At data i xs) : (data.drop i).take xs.length = xs := by
  obtain ⟨pre, post, rfl, rfl⟩ := h
  simp

end Checked
