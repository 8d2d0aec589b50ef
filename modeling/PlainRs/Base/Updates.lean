import PlainRs.Base.Statements

/-! Statements over many rows, as the row of one key sees them. -/
namespace Keyed

namespace Table

variable {ρ κ : Type*} {key : ρ → κ} {T : Table ρ key} {k : κ} {change : ρ → ρ}

/-- `UPDATE` of all rows, by a change that leaves the key alone. -/
def mapRows (T : Table ρ key) (change : ρ → ρ) (hchange : ∀ r, key (change r) = key r) :
    Table ρ key :=
  ⟨T.rows.map change, by
    rw [List.map_map, show key ∘ change = key from funext hchange]
    exact T.nodup⟩

variable [DecidableEq κ]

theorem modify_of_none {hchange : ∀ r, key (change r) = key r} (hnone : T.find? k = none) :
    T.modify k change hchange = T := by
  have hrows : (T.modify k change hchange).rows = T.rows := by
    refine (List.map_congr_left ?_).trans (List.map_id _)
    intro r hr
    rw [if_neg, id]
    rintro rfl
    exact find?_eq_none.mp hnone (List.mem_map_of_mem hr)
  cases T
  simp only [modify] at hrows ⊢
  simp only [hrows]

theorem find?_mapRows {hchange : ∀ r, key (change r) = key r} :
    (T.mapRows change hchange).find? k = (T.find? k).map change := by
  have hcomp : ((fun r => decide (key r = k)) ∘ change) = fun r => decide (key r = k) := by
    funext r
    simp [hchange]
  rw [find?, mapRows, List.find?_map, hcomp]
  rfl

theorem find?_deleteIn {values : List κ} : (T.deleteIn key values).find? k =
    if values.length ≤ maxVariableNumber ∧ k ∈ values then none else T.find? k := by
  by_cases hlen : values.length ≤ maxVariableNumber
  · rw [deleteIn, if_pos hlen]
    by_cases hk : k ∈ values
    · rw [if_pos ⟨hlen, hk⟩, find?_eq_none]
      intro hmem
      obtain ⟨r, hr, rfl⟩ := List.mem_map.mp hmem
      exact of_decide_eq_true (List.mem_filter.mp hr).2 hk
    · rw [if_neg (fun hboth => hk hboth.2)]
      simp only [find?, filter, List.find?_filter]
      refine List.find?_congr ?_
      intro r _
      by_cases hr : key r = k
      · simp [hr, hk]
      · simp [hr]
  · rw [deleteIn, if_neg hlen, if_neg (fun hboth => hlen hboth.1)]

end Table

end Keyed
