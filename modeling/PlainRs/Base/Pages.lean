import PlainRs.Base.Like

/-! Rows in descending order of a key, taken in pages from the end and each page turned round. -/
namespace Sql

variable {ρ : Type} {key : ρ → String} {rows : List ρ} {a b : ρ} {k m : ℕ}

theorem slice_natCast (limit offset : ℕ) : slice (limit : Int) (offset : Int) rows =
    (rows.drop offset).take limit := if_neg (by omega)

/-- Pages of `k` rows from the last of `m` pages to the first, each turned round, are all rows
turned round. -/
theorem flatMap_reverse_pages : (List.range m).reverse.flatMap
    (fun j => ((rows.drop (j * k)).take k).reverse) = (rows.take (m * k)).reverse := by
  induction m with
  | zero => simp
  | succ m ih =>
    rw [List.range_succ, List.reverse_append, List.flatMap_append, ih, Nat.succ_mul, List.take_add,
      List.reverse_append]
    simp

theorem orderDesc_perm : (orderDesc key rows).Perm rows := List.mergeSort_perm ..

theorem pairwise_orderDesc : (orderDesc key rows).Pairwise fun a b => key b ≤ key a := by
  have h := @List.pairwise_mergeSort ρ (fun a b => decide (key b ≤ key a))
    (fun a b c hab hbc => by
      rw [decide_eq_true_eq] at *
      exact le_trans hbc hab)
    (fun a b => by
      rw [Bool.or_eq_true, decide_eq_true_eq, decide_eq_true_eq]
      exact le_total _ _) rows
  exact h.imp of_decide_eq_true

/-- Rows with one key keep their order. -/
theorem pair_sublist_orderDesc (h : List.Sublist [a, b] rows) (hkey : key a = key b) :
    List.Sublist [a, b] (orderDesc key rows) := by
  refine List.pair_sublist_mergeSort (fun a b c hab hbc => ?_) (fun a b => ?_) ?_ h
  · rw [decide_eq_true_eq] at *
    exact le_trans hbc hab
  · rw [Bool.or_eq_true, decide_eq_true_eq, decide_eq_true_eq]
    exact le_total _ _
  · exact decide_eq_true hkey.ge

theorem not_both_orders {l : List ρ} (hl : l.Nodup) (hab : List.Sublist [a, b] l) :
    ¬ List.Sublist [b, a] l := by
  induction l with
  | nil => cases hab
  | cons c l ih =>
    obtain ⟨hc, hl⟩ := List.nodup_cons.mp hl
    intro hba
    cases hab with
    | cons _ hab =>
      cases hba with
      | cons _ hba => exact ih hl hab hba
      | cons_cons _ hba => exact hc (hab.subset (by simp))
    | cons_cons _ hab =>
      cases hba with
      | cons _ hba => exact hc (hba.subset (by simp))
      | cons_cons _ hba => exact hc (hba.subset (by simp))

/-- Turned round, rows in descending order are as they were just when their keys ascend. -/
theorem reverse_orderDesc_iff (hnodup : rows.Nodup) :
    (orderDesc key rows).reverse = rows ↔ rows.Pairwise fun a b => key a < key b := by
  constructor
  · intro h
    have hrev : orderDesc key rows = rows.reverse := by rw [← h, List.reverse_reverse, h]
    rw [List.pairwise_iff_forall_sublist]
    intro a b hab
    have hba : List.Sublist [b, a] (orderDesc key rows) := by
      rw [hrev]
      exact List.reverse_sublist.mpr hab
    have hle : key a ≤ key b := List.pairwise_iff_forall_sublist.mp pairwise_orderDesc hba
    refine lt_of_le_of_ne hle fun hkey => ?_
    exact not_both_orders (orderDesc_perm.nodup_iff.mpr hnodup) hba
      (pair_sublist_orderDesc hab hkey)
  · intro h
    have hrev : orderDesc key rows = rows.reverse := by
      refine List.Perm.eq_of_pairwise (fun a b ha hb (hba : key b ≤ key a) hab => ?_)
        pairwise_orderDesc ?_ (orderDesc_perm.trans (List.reverse_perm _).symm)
      · have hkeys : (rows.map key).Nodup :=
          List.Pairwise.imp ne_of_lt (List.pairwise_map.mpr h)
        exact List.inj_on_of_nodup_map hkeys (orderDesc_perm.subset ha) (List.mem_reverse.mp hb)
          (le_antisymm hab hba)
      · exact List.pairwise_reverse.mpr (h.imp le_of_lt)
    rw [hrev, List.reverse_reverse]

end Sql
