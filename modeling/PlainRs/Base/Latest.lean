import Mathlib

/-! For each key, the first entry of the greatest score among those the list has under the key. -/
namespace Latest

variable {α κ β : Type*} [LinearOrder β] {key : α → Option κ} {score : α → β}
  {m : κ → Option α} {l : List α} {a b : α} {k : κ}

/-- An entry under the key of the greatest score, or nothing where there is none. -/
def Greatest (key : α → Option κ) (score : α → β) (l : List α) (k : κ) : Option α → Prop
  | none => ∀ a ∈ l, key a ≠ some k
  | some a => a ∈ l ∧ key a = some k ∧ ∀ b ∈ l, key b = some k → score b ≤ score a

theorem Greatest.of_ne {r : Option α} (h : Greatest key score l k r) (ha : key a ≠ some k) :
    Greatest key score (l ++ [a]) k r := by
  cases r with
  | none =>
    intro b hb
    rcases List.mem_append.mp hb with hb | hb
    · exact h b hb
    · rw [List.mem_singleton.mp hb]
      exact ha
  | some c =>
    obtain ⟨hc, hk, hmax⟩ := h
    refine ⟨List.mem_append_left _ hc, hk, fun b hb hbk => ?_⟩
    rcases List.mem_append.mp hb with hb | hb
    · exact hmax b hb hbk
    · rw [List.mem_singleton.mp hb] at hbk
      exact absurd hbk ha

/-- An entry no less than the ones before it is the greatest. -/
theorem Greatest.last (ha : key a = some k)
    (h : ∀ b ∈ l, key b = some k → score b ≤ score a) :
    Greatest key score (l ++ [a]) k (some a) := by
  refine ⟨by simp, ha, fun b hb hbk => ?_⟩
  rcases List.mem_append.mp hb with hb | hb
  · exact h b hb hbk
  · rw [List.mem_singleton.mp hb]

/-- An entry that is not greater changes nothing. -/
theorem Greatest.of_le (h : Greatest key score l k (some b)) (ha : score a ≤ score b) :
    Greatest key score (l ++ [a]) k (some b) := by
  obtain ⟨hb, hk, hmax⟩ := h
  refine ⟨List.mem_append_left _ hb, hk, fun c hc hck => ?_⟩
  rcases List.mem_append.mp hc with hc | hc
  · exact hmax c hc hck
  · rw [List.mem_singleton.mp hc]
    exact ha

variable [DecidableEq κ]

/-- The entry takes the place of one with a lesser score. -/
def keep (key : α → Option κ) (score : α → β) (m : κ → Option α) (a : α) : κ → Option α :=
  match key a with
  | none => m
  | some k =>
    match m k with
    | none => Function.update m k (some a)
    | some b => if score b < score a then Function.update m k (some a) else m

/-- Under another key nothing changes. -/
theorem keep_of_ne (h : key a ≠ some k) : keep key score m a k = m k := by
  cases hka : key a with
  | none => simp only [keep, hka]
  | some i =>
    have hne : k ≠ i := fun he => h (he ▸ hka)
    cases hm : m i with
    | none => simp only [keep, hka, hm, Function.update_of_ne hne]
    | some b =>
      simp only [keep, hka, hm, apply_ite (fun f : κ → Option α => f k),
        Function.update_of_ne hne, ite_self]

theorem greatest_keep (h : ∀ k, Greatest key score l k (m k)) (k : κ) :
    Greatest key score (l ++ [a]) k (keep key score m a k) := by
  by_cases hka : key a = some k
  · have hk := h k
    cases hm : m k with
    | none =>
      rw [hm] at hk
      simp only [keep, hka, hm, Function.update_self]
      exact .last hka fun b hb hbk => absurd hbk (hk b hb)
    | some b =>
      rw [hm] at hk
      simp only [keep, hka, hm]
      split
      · rename_i hlt
        rw [Function.update_self]
        exact .last hka fun c hc hck => (hk.2.2 c hc hck).trans hlt.le
      · rename_i hle
        rw [hm]
        exact hk.of_le (not_lt.mp hle)
  · rw [keep_of_ne hka]
    exact (h k).of_ne hka

theorem greatest_foldl : Greatest key score l k (l.foldl (keep key score) (fun _ => none) k) := by
  induction l using List.reverseRecOn generalizing k with
  | nil => exact nofun
  | append_singleton l a ih =>
    rw [List.foldl_append]
    exact greatest_keep (fun _ => ih) k

end Latest
