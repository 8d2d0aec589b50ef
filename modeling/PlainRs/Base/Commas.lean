import PlainRs.Base.Text

/-! Lists of texts kept in one text with commas between them. -/
namespace Text

/-- `split(',')`, each piece trimmed and the empty ones left out. -/
def commaPieces (s : String) : List String :=
  ((s.toList.splitOn ',').map fun p => trim (String.ofList p)).filter (· ≠ "")

/-- A text that comes back as it is: not empty, no comma, no space around it. -/
structure CommaFree (s : String) : Prop where
  nonempty : s ≠ ""
  noComma : ',' ∉ s.toList
  trimmed : trim s = s

theorem commaPieces_empty : commaPieces "" = [] := by decide

/-- What is joined by commas is split again into what it was. -/
theorem commaPieces_intercalate {ps : List String} (h : ∀ p ∈ ps, CommaFree p) :
    commaPieces (",".intercalate ps) = ps := by
  by_cases hne : ps = []
  · subst hne
    exact commaPieces_empty
  have hsplit : (",".intercalate ps).toList.splitOn ',' = ps.map String.toList := by
    have hc : ",".toList = [','] := rfl
    rw [String.toList_intercalate, hc, List.splitOn_intercalate]
    · intro l hl
      obtain ⟨p, hp, rfl⟩ := List.mem_map.mp hl
      exact (h p hp).noComma
    · simpa using hne
  have hmap : (ps.map String.toList).map (fun p => trim (String.ofList p)) = ps := by
    rw [List.map_map]
    refine (List.map_congr_left fun p hp => ?_).trans (List.map_id ps)
    simpa using (h p hp).trimmed
  rw [commaPieces, hsplit, hmap, List.filter_eq_self]
  intro p hp
  simpa using (h p hp).nonempty

end Text
