import PlainRs.Base.Keyed

/-! Rows in descending order of a key, and lists of what was used last. -/
namespace Recent

open Keyed

section Push

variable {α κ : Type*} [DecidableEq κ] {key : α → κ} {l : List α} {r : α} {keep high n : ℕ}

/-- The entry comes to the front, an older one under its key goes, and a list that has grown over
`high` is cut to the first `keep`. -/
def push (keep high : ℕ) (key : α → κ) (r : α) (l : List α) : List α :=
  if high < (r :: l.filter fun a => key a ≠ key r).length then
    (r :: l.filter fun a => key a ≠ key r).take keep
  else r :: l.filter fun a => key a ≠ key r

theorem map_push : (push keep high key r l).map key = push keep high id (key r) (l.map key) := by
  have hmap : (l.filter fun a => key a ≠ key r).map key = (l.map key).filter fun k => k ≠ key r := by
    rw [List.filter_map]
    rfl
  unfold push
  simp only [id, ← hmap, List.length_cons, List.length_map]
  split
  · rw [List.map_take, List.map_cons]
  · rw [List.map_cons]

theorem length_push_le (h : keep ≤ high) : (push keep high key r l).length ≤ high := by
  unfold push
  split
  · exact (List.length_take_le ..).trans h
  · next hle => exact not_lt.mp hle

theorem push_sublist : (push keep high key r l).Sublist (r :: l.filter fun a => key a ≠ key r) := by
  unfold push
  split
  · exact List.take_sublist ..
  · exact List.Sublist.refl _

/-- The keys of the first entries are those of no other. -/
theorem filter_mem_take (h : (l.map key).Nodup) :
    l.filter (fun a => key a ∈ (l.take n).map key) = l.take n := by
  rw [← List.take_append_drop n l, List.map_append, List.nodup_append] at h
  conv_lhs => rw [← List.take_append_drop n l, List.filter_append]
  have htake : ∀ a ∈ l.take n, decide (key a ∈ ((l.take n ++ l.drop n).take n).map key) = true := by
    intro a ha
    rw [List.take_append_drop]
    exact decide_eq_true (List.mem_map_of_mem ha)
  have hdrop : ∀ a ∈ l.drop n,
      decide (key a ∈ ((l.take n ++ l.drop n).take n).map key) ≠ true := by
    intro a ha hmem
    rw [List.take_append_drop] at hmem
    exact h.2.2 _ (of_decide_eq_true hmem) _ (List.mem_map_of_mem ha) rfl
  rw [List.filter_eq_self.mpr htake, List.filter_eq_nil_iff.mpr hdrop, List.append_nil]

end Push

section Sorted

variable {ρ τ : Type*} [LinearOrder τ] {key : ρ → τ} {l rows : List ρ}

theorem nodup_of_desc (hl : l.Pairwise fun a b => key b < key a) : (l.map key).Nodup :=
  List.pairwise_map.mpr (hl.imp fun h => h.ne')

/-- A list in strictly descending order is how its rows are sorted. -/
theorem insertionSort_eq_of_perm (hperm : rows.Perm l)
    (hl : l.Pairwise fun a b => key b < key a) :
    rows.insertionSort (fun a b => key b ≤ key a) = l := by
  have : Std.Total fun a b : ρ => key b ≤ key a := ⟨fun a b => le_total _ _⟩
  have : IsTrans ρ fun a b => key b ≤ key a := ⟨fun a b c hab hbc => hbc.trans hab⟩
  have hsorted := List.pairwise_insertionSort (fun a b : ρ => key b ≤ key a) rows
  have hp := (List.perm_insertionSort (fun a b : ρ => key b ≤ key a) rows).trans hperm
  refine List.Perm.eq_of_pairwise (fun a b ha hb hab hba => ?_) hsorted (hl.imp le_of_lt) hp
  exact List.inj_on_of_nodup_map (nodup_of_desc hl) (hp.mem_iff.mp ha) hb (le_antisymm hba hab)

/-- Rows of different keys sorted in descending order are so strictly. -/
theorem pairwise_insertionSort_of_nodup (h : (rows.map key).Nodup) :
    (rows.insertionSort fun a b => key b ≤ key a).Pairwise fun a b => key b < key a := by
  have : Std.Total fun a b : ρ => key b ≤ key a := ⟨fun a b => le_total _ _⟩
  have : IsTrans ρ fun a b => key b ≤ key a := ⟨fun a b c hab hbc => hbc.trans hab⟩
  have hsorted := List.pairwise_insertionSort (fun a b : ρ => key b ≤ key a) rows
  have hperm := List.perm_insertionSort (fun a b : ρ => key b ≤ key a) rows
  have hne := List.pairwise_map.mp ((hperm.map key).nodup_iff.mpr h)
  exact hsorted.imp₂ (fun a b hle hne => hle.lt_of_ne hne.symm) hne

end Sorted

section Upsert

variable {ρ κ : Type*} [DecidableEq κ] {key : ρ → κ} {T : Table ρ key} {r : ρ} {k : κ}

/-- A row that takes the place of the one under its key, or is added, stands beside the others. -/
theorem upsert_perm {f : ρ → ρ} (hf : ∀ r, key (f r) = key r)
    (hr : ∀ old, key old = key r → f old = r) :
    (T.upsert r f hf).rows.Perm (r :: T.rows.filter fun s => key s ≠ key r) := by
  unfold Table.upsert
  split
  · next h =>
    have hinsert : (T.insert r).rows = T.rows ++ [r] := by simp [Table.insert, h]
    have hall : T.rows.filter (fun s => key s ≠ key r) = T.rows := by
      rw [List.filter_eq_self]
      intro s hs
      exact decide_eq_true fun he => Table.find?_eq_none.mp h (he ▸ List.mem_map_of_mem hs)
    rw [hinsert, hall]
    exact List.perm_append_singleton ..
  · next h =>
    obtain ⟨old, hold⟩ := Option.ne_none_iff_exists'.mp h
    obtain ⟨hmem, hkey⟩ := Table.find?_eq_some.mp hold
    obtain ⟨before, after, hrows⟩ := List.append_of_mem hmem
    have hnodup := T.nodup
    rw [hrows, List.map_append, List.map_cons, List.nodup_append, List.nodup_cons] at hnodup
    -- The key of the row is that of no other.
    have hbefore : ∀ s ∈ before, key s ≠ key r := fun s hs he =>
      hnodup.2.2 _ (List.mem_map_of_mem hs) _ List.mem_cons_self (he.trans hkey.symm)
    have hafter : ∀ s ∈ after, key s ≠ key r := fun s hs he =>
      hnodup.2.1.1 ((he.trans hkey.symm) ▸ List.mem_map_of_mem hs)
    have hmap : ∀ l : List ρ, (∀ s ∈ l, key s ≠ key r) →
        l.map (fun s => if key s = key r then f s else s) = l := by
      intro l hl
      conv_rhs => rw [← List.map_id l]
      exact List.map_congr_left fun s hs => if_neg (hl s hs)
    have hfilter : ∀ l : List ρ, (∀ s ∈ l, key s ≠ key r) →
        l.filter (fun s => key s ≠ key r) = l := fun l hl =>
      List.filter_eq_self.mpr fun s hs => decide_eq_true (hl s hs)
    change (T.rows.map fun s => if key s = key r then f s else s).Perm _
    rw [hrows, List.map_append, List.map_cons, if_pos hkey, hr old hkey, hmap _ hbefore,
      hmap _ hafter, List.filter_append, hfilter _ hbefore, List.filter_cons,
      if_neg (by simp [hkey]), hfilter _ hafter]
    exact List.perm_middle

end Upsert

end Recent
