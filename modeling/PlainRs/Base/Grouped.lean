import Mathlib

/-! Values merged by key into a map, sorted lists without repeats, and association lists. -/
namespace Grouped

section

variable {α κ : Type*} [DecidableEq κ] (key : α → κ) (merge : α → α → α)

/-- The first value of a key is kept, and each later one merged into what is there. -/
def add (m : κ → Option α) (x : α) : κ → Option α :=
  Function.update m (key x) (some ((m (key x)).elim x fun old => merge old x))

def grouped (xs : List α) : κ → Option α := xs.foldl (add key merge) fun _ => none

variable {key merge} {m : κ → Option α} {x : α} {xs : List α} {k : κ}

theorem add_self : add key merge m x (key x) = some ((m (key x)).elim x fun old => merge old x) :=
  Function.update_self ..

theorem add_of_ne (h : key x ≠ k) : add key merge m x k = m k :=
  Function.update_of_ne (Ne.symm h) ..

theorem foldl_add_some {old : α} (h : m k = some old) : xs.foldl (add key merge) m k =
    some ((xs.filter (key · = k)).foldl merge old) := by
  induction xs generalizing m old with
  | nil => exact h
  | cons x xs ih =>
    by_cases hx : key x = k
    · subst hx
      rw [List.foldl_cons, ih (by rw [add_self, h]), List.filter_cons_of_pos (by simp)]
      rfl
    · rw [List.foldl_cons, ih ((add_of_ne hx).trans h), List.filter_cons_of_neg (by simpa using hx)]

/-- A key has the values that it was given, merged in their order. -/
theorem grouped_apply : grouped key merge xs k =
    (xs.filter (key · = k)).head?.map ((xs.filter (key · = k)).tail.foldl merge) := by
  have hnone : ∀ m : κ → Option α, m k = none → xs.foldl (add key merge) m k =
      (xs.filter (key · = k)).head?.map ((xs.filter (key · = k)).tail.foldl merge) := by
    induction xs with
    | nil =>
      intro m hm
      exact hm
    | cons x xs ih =>
      intro m hm
      by_cases hx : key x = k
      · subst hx
        rw [List.foldl_cons, foldl_add_some (by rw [add_self, hm]),
          List.filter_cons_of_pos (by simp)]
        rfl
      · rw [List.foldl_cons, ih _ ((add_of_ne hx).trans hm),
          List.filter_cons_of_neg (by simpa using hx)]
  exact hnone _ rfl

theorem grouped_eq_none_iff : grouped key merge xs k = none ↔ ∀ x ∈ xs, key x ≠ k := by
  rw [grouped_apply, Option.map_eq_none_iff, List.head?_eq_none_iff, List.filter_eq_nil_iff]
  simp

end

section

variable {α : Type*} [LinearOrder α] {l l' : List α}

/-- `sort` and then `dedup`. -/
def sortDedup (l : List α) : List α := (l.mergeSort fun a b => decide (a ≤ b)).destutter (· ≠ ·)

theorem mem_destutter'_ne {a : α} (x : α) : x ∈ l.destutter' (· ≠ ·) a ↔ x = a ∨ x ∈ l := by
  induction l generalizing a with
  | nil => simp
  | cons b l ih =>
    by_cases hab : a = b
    · subst hab
      rw [List.destutter'_cons_neg _ (by simp), ih]
      simp
    · rw [List.destutter'_cons_pos _ hab, List.mem_cons, ih, List.mem_cons]

theorem mem_sortDedup {x : α} : x ∈ sortDedup l ↔ x ∈ l := by
  have hsort : x ∈ l.mergeSort (fun a b => decide (a ≤ b)) ↔ x ∈ l := List.mem_mergeSort
  rw [← hsort, sortDedup]
  cases l.mergeSort fun a b => decide (a ≤ b) with
  | nil => rfl
  | cons a l =>
    rw [List.destutter_cons', mem_destutter'_ne, List.mem_cons]

theorem pairwise_sortDedup : (sortDedup l).Pairwise (· < ·) := by
  have hsorted : (l.mergeSort fun a b => decide (a ≤ b)).Pairwise (· ≤ ·) := by
    have h := @List.pairwise_mergeSort α (fun a b => decide (a ≤ b)) (by
      intro a b c hab hbc
      exact decide_eq_true ((of_decide_eq_true hab).trans (of_decide_eq_true hbc))) (by
      intro a b
      simpa using le_total a b) l
    exact h.imp of_decide_eq_true
  have hle : (sortDedup l).Pairwise (· ≤ ·) := hsorted.sublist (List.destutter_sublist _ _)
  have hne : (sortDedup l).IsChain (· ≠ ·) := List.isChain_destutter _ _
  refine List.isChain_iff_pairwise.mp ?_
  rw [List.isChain_iff_getElem] at hne ⊢
  intro i hi
  exact lt_of_le_of_ne (List.pairwise_iff_getElem.mp hle _ _ _ _ (Nat.lt_succ_self i)) (hne i hi)

/-- Only what occurs counts, not the order and not how often. -/
theorem sortDedup_congr (h : ∀ x, x ∈ l ↔ x ∈ l') : sortDedup l = sortDedup l' := by
  refine @List.Perm.eq_of_pairwise' α (· < ·) _ _ _ pairwise_sortDedup pairwise_sortDedup ?_
  refine (List.perm_ext_iff_of_nodup ?_ ?_).mpr ?_
  · exact pairwise_sortDedup.imp ne_of_lt
  · exact pairwise_sortDedup.imp ne_of_lt
  · intro x
    rw [mem_sortDedup, mem_sortDedup, h]

end

/-- A field that each merge gathers in, sorted and without repeats. -/
theorem mem_foldl_gather {α β : Type*} [LinearOrder α] {field : β → List α} {merge : β → β → β}
    (h : ∀ x y, field (merge x y) = sortDedup (field x ++ field y)) (x : β) (xs : List β) (a : α) :
    a ∈ field (xs.foldl merge x) ↔ ∃ y ∈ x :: xs, a ∈ field y := by
  induction xs generalizing x with
  | nil => simp
  | cons y xs ih =>
    rw [List.foldl_cons, ih]
    simp [h, mem_sortDedup, or_assoc]

theorem foldl_gather {α β : Type*} [LinearOrder α] {field : β → List α} {merge : β → β → β}
    (h : ∀ x y, field (merge x y) = sortDedup (field x ++ field y)) {x : β} {xs : List β}
    (hne : xs ≠ []) : field (xs.foldl merge x) = sortDedup ((x :: xs).flatMap field) := by
  obtain ⟨ys, y, rfl⟩ := List.eq_nil_or_concat xs |>.resolve_left hne
  rw [List.concat_eq_append, List.foldl_append, List.foldl_cons, List.foldl_nil, h]
  refine sortDedup_congr ?_
  intro a
  rw [List.mem_append, mem_foldl_gather h]
  simp [or_assoc, or_and_right, exists_or]

/-- An association list with distinct keys is looked up by membership. -/
theorem lookup_iff_mem {κ β : Type*} [DecidableEq κ] {l : List (κ × β)} {k : κ} {v : β}
    (h : (l.map Prod.fst).Nodup) : l.lookup k = some v ↔ (k, v) ∈ l := by
  induction l with
  | nil => simp
  | cons entry l ih =>
    obtain ⟨key, w⟩ := entry
    obtain ⟨hkey, hrest⟩ := List.nodup_cons.mp h
    by_cases hk : k = key
    · subst hk
      rw [List.lookup_cons_self, List.mem_cons]
      constructor
      · intro hw
        exact .inl (by rw [Option.some.inj hw])
      · rintro (hw | hmem)
        · rw [(Prod.mk.inj hw).2]
        · exact absurd (List.mem_map_of_mem hmem) hkey
    · have hbeq : (k == key) = false := beq_eq_false_iff_ne.mpr hk
      rw [List.lookup_cons, hbeq, List.mem_cons]
      simp [hk, ih hrest]

end Grouped
