import Mathlib

/-! Lists whose elements are numbered by their places, and lists without their repeats. -/
namespace Lists

variable {α : Type*} {f : α → Int} {a : α} {l m : List α}

/-- Each element is numbered by its place. -/
def Numbered (f : α → Int) (l : List α) : Prop := ∀ i (h : i < l.length), f l[i] = i

theorem numbered_iff_map : Numbered f l ↔ l.map f = (List.range l.length).map Nat.cast := by
  constructor
  · intro h
    apply List.ext_getElem (by simp)
    intro i hi _
    simpa using h i (by simpa using hi)
  · intro h i hi
    have hget := congrArg (·[i]?) h
    simpa [hi] using hget

instance : Decidable (Numbered f l) := decidable_of_iff _ numbered_iff_map.symm

@[simp] theorem numbered_nil : Numbered f [] := fun _ h => nomatch h

theorem Numbered.of_append (h : Numbered f (l ++ m)) : Numbered f l := by
  intro i hi
  have := h i (by simp; omega)
  rwa [List.getElem_append_left hi] at this

theorem numbered_concat : Numbered f (l ++ [a]) ↔ Numbered f l ∧ f a = l.length := by
  constructor
  · intro h
    exact ⟨h.of_append, by simpa using h l.length (by simp)⟩
  · rintro ⟨h, ha⟩ i hi
    by_cases hl : i < l.length
    · simpa [List.getElem_append_left hl] using h i hl
    · obtain rfl : i = l.length := by simp at hi; omega
      simpa using ha

theorem Numbered.sorted (h : Numbered f l) : l.Pairwise fun a b => f a ≤ f b := by
  rw [List.pairwise_iff_getElem]
  intro i j hi hj hij
  rw [h i hi, h j hj]
  exact_mod_cast hij.le

theorem Numbered.insertionSort_eq (h : Numbered f l) :
    l.insertionSort (fun a b => f a ≤ f b) = l := h.sorted.insertionSort_eq

/-- The number after the last element's, 0 where there is none. -/
def nextNumber (f : α → Int) (l : List α) : Int := (l.getLast?.map fun a => f a + 1).getD 0

theorem nextNumber_concat : nextNumber f (l ++ [a]) = f a + 1 := by
  simp [nextNumber]

theorem Numbered.nextNumber_eq (h : Numbered f l) : nextNumber f l = l.length := by
  induction l using List.reverseRecOn with
  | nil => rfl
  | append_singleton l a _ =>
    rw [nextNumber_concat, (numbered_concat.mp h).2, List.length_append]
    rfl

theorem lt_nextNumber (h : l.Pairwise fun a b => f a < f b) (ha : a ∈ l) : f a < nextNumber f l := by
  induction l using List.reverseRecOn with
  | nil => cases ha
  | append_singleton l b _ =>
    obtain ⟨-, -, hlast⟩ := List.pairwise_append.mp h
    rw [nextNumber_concat]
    rcases List.mem_append.mp ha with hl | hb
    · have := hlast a hl b (by simp)
      omega
    · obtain rfl := List.mem_singleton.mp hb
      omega

/-- Taking elements out of a numbered list leaves it numbered just when they come off its end. -/
theorem Numbered.filter_iff {p : α → Bool} (h : Numbered f l) :
    Numbered f (l.filter p) ↔ l.Pairwise fun a b => ¬ p a → ¬ p b := by
  induction l using List.reverseRecOn with
  | nil => simp
  | append_singleton l a ih =>
    obtain ⟨hl, ha⟩ := numbered_concat.mp h
    rw [List.filter_append, List.pairwise_append, ← ih hl]
    by_cases hp : p a
    · rw [List.filter_cons_of_pos hp, List.filter_nil, numbered_concat, ha]
      have hlen : ((l.length : Int) = (l.filter p).length) ↔ ∀ x ∈ l, p x := by
        rw [← List.length_filter_eq_length_iff]
        omega
      rw [hlen]
      simp [hp]
    · simp [hp]

variable [DecidableEq α]

theorem eraseDups_of_nodup (h : l.Nodup) : l.eraseDups = l := by
  induction l with
  | nil => rfl
  | cons a l ih =>
    obtain ⟨ha, hl⟩ := List.nodup_cons.mp h
    have hf : l.filter (fun b => !b == a) = l := by
      rw [List.filter_eq_self]
      intro b hb
      simp only [Bool.not_eq_true', beq_eq_false_iff_ne]
      rintro rfl
      exact ha hb
    rw [List.eraseDups_cons, hf, ih hl]

/-- The members of `l` that `m` lacks add no repeat to it. -/
theorem nodup_append_filter (h : l.Nodup) : (m ++ l.filter (· ∉ m)).Nodup ↔ m.Nodup := by
  rw [List.nodup_append]
  refine ⟨fun hn => hn.1, fun hn => ⟨hn, h.filter _, ?_⟩⟩
  rintro a ha b hb rfl
  exact absurd ha (by simpa using (List.mem_filter.mp hb).2)

theorem nodup_filter_append (h : l.Nodup) : (l.filter (· ∉ m) ++ m).Nodup ↔ m.Nodup := by
  rw [List.perm_append_comm.nodup_iff]
  exact nodup_append_filter h

/-- A list without repeats starts with the members of `m` just when `m` is its beginning. -/
theorem prefix_iff_filter (h : l.Nodup) : m <+: l ↔ l = m ++ l.filter (· ∉ m) := by
  constructor
  · rintro ⟨r, rfl⟩
    obtain ⟨_, _, hd⟩ := List.nodup_append.mp h
    have hr : r.filter (· ∉ m) = r := by
      rw [List.filter_eq_self]
      intro b hb
      simpa using fun hm => hd b hm b hb rfl
    rw [List.filter_append, hr, List.filter_eq_nil_iff.mpr (by simp), List.nil_append]
  · intro hl
    exact ⟨_, hl.symm⟩

theorem suffix_iff_filter (h : l.Nodup) : m <:+ l ↔ l = l.filter (· ∉ m) ++ m := by
  constructor
  · rintro ⟨r, rfl⟩
    obtain ⟨_, _, hd⟩ := List.nodup_append.mp h
    have hr : r.filter (· ∉ m) = r := by
      rw [List.filter_eq_self]
      intro b hb
      simpa using fun hm => hd b hb b hm rfl
    rw [List.filter_append, hr, List.filter_eq_nil_iff.mpr (by simp), List.append_nil]
  · intro hl
    exact ⟨_, hl.symm⟩

end Lists
