import Mathlib

/-! A page that is filtered against a page of what the filter keeps. -/
namespace FilteredPages

variable {α : Type} {l before page after : List α} {p : α → Bool} {offset limit : ℕ}

/-- The page begins behind as many hits as rows, and holds all hits it can; or it holds none and
there are none that far, or none are asked for. -/
def Aligned (p : α → Bool) (l : List α) (offset limit : ℕ) : Prop :=
  ((∀ a ∈ (l.drop offset).take limit, p a = false) ∧
      (limit = 0 ∨ (l.filter p).length ≤ offset)) ∨
    ((∀ a ∈ l.take offset, p a = true) ∧
      ((∀ a ∈ (l.drop offset).take limit, p a = true) ∨
        ∀ a ∈ l.drop (offset + limit), p a = false))

instance : Decidable (Aligned p l offset limit) := inferInstanceAs (Decidable (_ ∨ _))

theorem filter_eq_nil_iff_false : l.filter p = [] ↔ ∀ a ∈ l, p a = false := by
  simp [List.filter_eq_nil_iff]

/-- The rows before the page, those of the page and those after it. -/
theorem split_page (l : List α) (offset limit : ℕ) :
    l = l.take offset ++ ((l.drop offset).take limit ++ l.drop (offset + limit)) := by
  rw [← List.drop_drop, List.take_append_drop, List.take_append_drop]

/-- Where two parts of a list without repetition begin alike, they begin at one place. -/
theorem index_unique {a : α} {i j : ℕ} (hl : l.Nodup) (hi : l[i]? = some a) (hj : l[j]? = some a) :
    i = j := by
  obtain ⟨hi', hi⟩ := List.getElem?_eq_some_iff.mp hi
  obtain ⟨hj', hj⟩ := List.getElem?_eq_some_iff.mp hj
  exact (hl.getElem_inj_iff).mp (hi.trans hj.symm)

/-- Behind as many hits as rows, the hits of the page are the first ones. -/
theorem take_hits (hpage : page.length ≤ limit) (hshort : page.length < limit → after = [])
    (h : (∀ a ∈ page, p a = true) ∨ ∀ a ∈ after, p a = false) :
    (page.filter p ++ after.filter p).take limit = page.filter p := by
  have hle : (page.filter p).length ≤ limit := (List.length_filter_le ..).trans hpage
  by_cases hafter : after.filter p = []
  · rw [hafter, List.append_nil, List.take_of_length_le hle]
  · rcases h with hall | hnone
    · rw [List.filter_eq_self.mpr hall]
      rcases Nat.lt_or_ge page.length limit with hlt | hge
      · rw [hshort hlt] at hafter
        exact absurd rfl hafter
      · exact List.take_left' (by omega)
    · exact absurd (filter_eq_nil_iff_false.mpr hnone) hafter

/-- If the hits of the page are the first ones, it holds nothing but hits or all there are. -/
theorem of_take_hits (hpage : page.length ≤ limit)
    (h : (page.filter p ++ after.filter p).take limit = page.filter p) :
    (∀ a ∈ page, p a = true) ∨ ∀ a ∈ after, p a = false := by
  have hle := List.length_filter_le p page
  have hlen := congrArg List.length h
  rw [List.length_take, List.length_append] at hlen
  by_cases hafter : after.filter p = []
  · exact .inr (filter_eq_nil_iff_false.mp hafter)
  · have hpos := List.length_pos_of_ne_nil hafter
    exact .inl (List.length_filter_eq_length_iff.mp (by omega))

/-- Filtering a page gives the page of the filtered rows just when they are aligned. -/
theorem filter_page_iff (hl : l.Nodup) :
    ((l.drop offset).take limit).filter p = ((l.filter p).drop offset).take limit ↔
      Aligned p l offset limit := by
  have hbefore : (l.take offset).length ≤ offset := List.length_take_le ..
  have hpage : ((l.drop offset).take limit).length ≤ limit := List.length_take_le ..
  have hshort : ((l.drop offset).take limit).length < limit → l.drop (offset + limit) = [] := by
    intro h
    rw [List.length_take, List.length_drop] at h
    exact List.drop_eq_nil_of_le (by omega)
  have hfiltered : l.filter p = (l.take offset).filter p ++
      (((l.drop offset).take limit).filter p ++ (l.drop (offset + limit)).filter p) := by
    rw [← List.filter_append, ← List.filter_append, ← split_page]
  constructor
  · intro h
    by_cases hnone : ((l.drop offset).take limit).filter p = []
    · left
      refine ⟨filter_eq_nil_iff_false.mp hnone, ?_⟩
      rw [hnone] at h
      rcases List.take_eq_nil_iff.mp h.symm with h0 | h0
      · exact .inl h0
      · exact .inr (List.drop_eq_nil_iff.mp h0)
    · right
      obtain ⟨a, hits, hhits⟩ := List.exists_cons_of_ne_nil hnone
      -- The first hit of the page stands behind the hits before it, and at the offset.
      have hfirst : (l.filter p)[((l.take offset).filter p).length]? = some a := by
        rw [hfiltered, List.getElem?_append_right le_rfl, hhits]
        simp
      have hoffset : (l.filter p)[offset]? = some a := by
        rw [hhits] at h
        have hhead := congrArg (·[0]?) h
        rw [List.getElem?_take] at hhead
        split at hhead
        · simpa using hhead.symm
        · cases hhead
      have hcount := index_unique (hl.filter p) hfirst hoffset
      have hle := List.length_filter_le p (l.take offset)
      have hall := List.length_filter_eq_length_iff.mp
        (show ((l.take offset).filter p).length = (l.take offset).length by omega)
      refine ⟨hall, of_take_hits hpage ?_⟩
      rw [hfiltered, List.drop_left' hcount] at h
      exact h.symm
  · rintro (⟨hnone, hend⟩ | ⟨hall, hrest⟩)
    · rw [filter_eq_nil_iff_false.mpr hnone, eq_comm, List.take_eq_nil_iff, List.drop_eq_nil_iff]
      exact hend
    · rw [hfiltered, List.filter_eq_self.mpr hall]
      rcases Nat.lt_or_ge (l.take offset).length offset with hlt | hge
      · rw [List.length_take] at hlt
        rw [List.drop_eq_nil_of_le (show l.length ≤ offset by omega),
          List.drop_eq_nil_of_le (show l.length ≤ offset + limit by omega)]
        simp
      · rw [List.drop_left' (by omega), take_hits hpage hshort hrest]

end FilteredPages
