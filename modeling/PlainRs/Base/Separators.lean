import PlainRs.Base.Text

/-! When a list of texts can be told from what its texts are when joined by a separator. -/
namespace Separators

variable {α : Type} {sep : α} {x y a b : List α} {xs ys : List (List α)}

theorem append_sep_inj (hx : sep ∉ x) (hy : sep ∉ y) :
    x ++ sep :: a = y ++ sep :: b ↔ x = y ∧ a = b := by
  constructor
  · intro h
    induction x generalizing y with
    | nil =>
      cases y with
      | nil => exact ⟨rfl, List.tail_eq_of_cons_eq h⟩
      | cons d y =>
        obtain ⟨rfl, -⟩ := List.cons_eq_cons.mp h
        exact absurd List.mem_cons_self hy
    | cons c x ih =>
      cases y with
      | nil =>
        obtain ⟨rfl, -⟩ := List.cons_eq_cons.mp h
        exact absurd List.mem_cons_self hx
      | cons d y =>
        obtain ⟨rfl, hrest⟩ := List.cons_eq_cons.mp h
        obtain ⟨rfl, rfl⟩ := ih (fun hc => hx (List.mem_cons_of_mem _ hc))
          (fun hd => hy (List.mem_cons_of_mem _ hd)) hrest
        exact ⟨rfl, rfl⟩
  · rintro ⟨rfl, rfl⟩
    rfl

/-- As many texts, joined alike, are the same if the separator is at most in the last ones. -/
theorem eq_of_intercalate_eq (hlen : xs.length = ys.length) (hx : ∀ x ∈ xs.dropLast, sep ∉ x)
    (hy : ∀ y ∈ ys.dropLast, sep ∉ y) (h : [sep].intercalate xs = [sep].intercalate ys) :
    xs = ys := by
  induction xs generalizing ys with
  | nil => exact (List.length_eq_zero_iff.mp hlen.symm).symm
  | cons x xs ih =>
    obtain ⟨y, ys, rfl⟩ := List.exists_cons_of_length_eq_add_one hlen.symm
    have hlen' : xs.length = ys.length := Nat.succ.inj hlen
    cases xs with
    | nil =>
      obtain rfl := List.length_eq_zero_iff.mp hlen'.symm
      simpa using h
    | cons x' xs =>
      obtain ⟨y', ys, rfl⟩ := List.exists_cons_of_length_eq_add_one hlen'.symm
      rw [List.dropLast_cons_cons] at hx hy
      rw [List.intercalate_cons_cons, List.intercalate_cons_cons, List.append_assoc,
        List.append_assoc] at h
      obtain ⟨rfl, hrest⟩ :=
        (append_sep_inj (hx x List.mem_cons_self) (hy y List.mem_cons_self)).mp h
      rw [ih hlen' (fun z hz => hx z (List.mem_cons_of_mem _ hz))
        (fun z hz => hy z (List.mem_cons_of_mem _ hz)) hrest]

theorem mem_intercalate {d : α} (h : d ∈ [sep].intercalate xs) : d = sep ∨ ∃ x ∈ xs, d ∈ x := by
  induction xs with
  | nil => cases h
  | cons x xs ih =>
    cases xs with
    | nil => exact .inr ⟨x, List.mem_cons_self, by simpa [List.intercalate] using h⟩
    | cons y xs =>
      rw [List.intercalate_cons_cons, List.mem_append, List.mem_append, List.mem_singleton] at h
      rcases h with (h | h) | h
      · exact .inr ⟨x, List.mem_cons_self, h⟩
      · exact .inl h
      · rcases ih h with h | ⟨z, hz, h⟩
        · exact .inl h
        · exact .inr ⟨z, List.mem_cons_of_mem _ hz, h⟩

theorem mem_intercalate_of_mem {d : α} (hx : x ∈ xs) (h : d ∈ x) : d ∈ [sep].intercalate xs := by
  induction xs with
  | nil => cases hx
  | cons y xs ih =>
    cases xs with
    | nil =>
      rw [List.mem_singleton.mp hx] at h
      simpa [List.intercalate] using h
    | cons z xs =>
      rw [List.intercalate_cons_cons, List.mem_append, List.mem_append]
      rcases List.mem_cons.mp hx with rfl | hx
      · exact .inl (.inl h)
      · exact .inr (ih hx)

variable [DecidableEq α]

/-- The separators in a joined text are those in the texts and those between them. -/
theorem count_intercalate (hne : xs ≠ []) :
    ([sep].intercalate xs).count sep + 1 = (xs.map (List.count sep)).sum + xs.length := by
  induction xs with
  | nil => exact absurd rfl hne
  | cons x xs ih =>
    cases xs with
    | nil => simp
    | cons x' xs =>
      have ih := ih (List.cons_ne_nil x' xs)
      rw [List.intercalate_cons_cons, List.append_assoc, List.count_append, List.count_append,
        List.map_cons, List.sum_cons, List.length_cons]
      simp only [List.count_singleton_self]
      omega

theorem sum_count_eq_zero : (xs.map (List.count sep)).sum = 0 ↔ ∀ x ∈ xs, sep ∉ x := by
  simp [List.sum_eq_zero_iff_forall_eq_nat, List.count_eq_zero]

/-- If none of the texts has the separator in it, neither has any of as many texts that are joined
alike. -/
theorem notMem_of_intercalate_eq (hlen : xs.length = ys.length) (hx : ∀ x ∈ xs, sep ∉ x)
    (h : [sep].intercalate xs = [sep].intercalate ys) : ∀ y ∈ ys, sep ∉ y := by
  by_cases hne : ys = []
  · simp [hne]
  have hne' : xs ≠ [] := by
    rintro rfl
    exact hne (List.length_eq_zero_iff.mp hlen.symm)
  have hcount : ([sep].intercalate ys).count sep + 1 = (ys.map (List.count sep)).sum + ys.length :=
    count_intercalate hne
  rw [← h, count_intercalate hne', sum_count_eq_zero.mpr hx, hlen] at hcount
  exact sum_count_eq_zero.mp (by omega)

end Separators

namespace Text

variable {c : Char} {sep : String} {ss ts : List String}

/-- The separator stands in no text of either list but the last, or in no text of one of them. -/
def Apart (c : Char) (ss ts : List String) : Prop :=
  ((∀ s ∈ ss.dropLast, c ∉ s.toList) ∧ ∀ t ∈ ts.dropLast, c ∉ t.toList) ∨
    (∀ s ∈ ss, c ∉ s.toList) ∨ ∀ t ∈ ts, c ∉ t.toList

/-- As many texts, kept apart, are joined alike only if they are the same. -/
theorem eq_of_intercalate_eq (hsep : sep.toList = [c]) (hlen : ss.length = ts.length)
    (hapart : Apart c ss ts) (h : sep.intercalate ss = sep.intercalate ts) : ss = ts := by
  have hlists : [c].intercalate (ss.map String.toList) =
      [c].intercalate (ts.map String.toList) := by
    rw [← hsep, ← String.toList_intercalate, ← String.toList_intercalate, h]
  have hmapLen : (ss.map String.toList).length = (ts.map String.toList).length := by
    simpa using hlen
  have hsub : ∀ {l : List String}, (∀ s ∈ l, c ∉ s.toList) →
      ∀ x ∈ l.map String.toList, c ∉ x := by
    intro l hl x hx
    obtain ⟨s, hs, rfl⟩ := List.mem_map.mp hx
    exact hl s hs
  have hmap : ss.map String.toList = ts.map String.toList := by
    rcases hapart with ⟨hs, ht⟩ | hs | ht
    · refine Separators.eq_of_intercalate_eq hmapLen ?_ ?_ hlists
      · rw [← List.map_dropLast]
        exact hsub hs
      · rw [← List.map_dropLast]
        exact hsub ht
    · refine Separators.eq_of_intercalate_eq hmapLen
        (fun x hx => hsub hs x (List.mem_of_mem_dropLast hx)) (fun y hy => ?_) hlists
      exact Separators.notMem_of_intercalate_eq hmapLen (hsub hs) hlists y
        (List.mem_of_mem_dropLast hy)
    · refine Separators.eq_of_intercalate_eq hmapLen (fun x hx => ?_)
        (fun y hy => hsub ht y (List.mem_of_mem_dropLast hy)) hlists
      exact Separators.notMem_of_intercalate_eq hmapLen.symm (hsub ht) hlists.symm x
        (List.mem_of_mem_dropLast hx)
  exact List.map_injective_iff.mpr (fun s t => String.toList_injective) hmap

/-- Cut where the separator stands, what the list is joined to gives the list. -/
def Listed (c : Char) (ss : List String) : Prop := (∀ s ∈ ss, c ∉ s.toList) ∧ ss ≠ [""]

theorem splitOn_intercalate (hsep : sep.toList = [c]) (hs : Listed c ss) :
    ((sep.intercalate ss).toList.splitOn c).map String.ofList = if ss = [] then [""] else ss := by
  rw [String.toList_intercalate, hsep]
  split
  · next hnil =>
    subst hnil
    rfl
  · next hne =>
    have hfree : ∀ l ∈ ss.map String.toList, c ∉ l := by
      intro l hl
      obtain ⟨s, hs', rfl⟩ := List.mem_map.mp hl
      exact hs.1 s hs'
    rw [List.splitOn_intercalate c hfree (by simpa using hne), List.map_map]
    simp [Function.comp_def]

/-- Lists of texts without the separator, of whatever length, are joined alike only if they are the
same. -/
theorem listed_inj (hsep : sep.toList = [c]) (hs : Listed c ss) (ht : Listed c ts)
    (h : sep.intercalate ss = sep.intercalate ts) : ss = ts := by
  have hsplit := splitOn_intercalate hsep hs
  rw [h, splitOn_intercalate hsep ht] at hsplit
  split at hsplit <;> split at hsplit
  · next hts hss => rw [hss, hts]
  · exact absurd hsplit.symm hs.2
  · exact absurd hsplit ht.2
  · exact hsplit.symm

end Text
