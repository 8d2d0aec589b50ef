import PlainRs.Base.Text

/-! Queries as SQLite runs them: `LIKE` without an escape character, text literals, the order of
rows and the part of them that a page takes. -/
namespace Sql

/-- `s LIKE pattern`: any run of characters for a percent sign, any one for an underscore, and the
ASCII letters in either case. -/
def like : List Char → List Char → Bool
  | [], s => s = []
  | c :: pattern, s =>
    if c = '%' then s.tails.any (like pattern)
    else match s with
      | [] => false
      | d :: s => (c = '_' ∨ c.toLower = d.toLower) && like pattern s

/-- The text stands in `s`, with the ASCII letters in either case. -/
def Contains (text s : List Char) : Prop := text.map Char.toLower <:+: s.map Char.toLower

instance (text s : List Char) : Decidable (Contains text s) :=
  inferInstanceAs (Decidable (_ <:+: _))

/-- No character of the text stands for others. -/
def Plain (text : List Char) : Prop := '%' ∉ text ∧ '_' ∉ text

/-- `'`. -/
def quote : Char := Char.ofNat 39

/-- `replace('\'', "''")`. -/
def escapeQuotes (text : List Char) : List Char :=
  text.flatMap fun c => if c = quote then [quote, quote] else [c]

/-- A text literal behind its opening quote, and what follows its closing one. -/
def readLiteral : List Char → Option (List Char × List Char)
  | [] => none
  | [c] => if c = quote then some ([], []) else none
  | c :: d :: rest =>
    if c = quote then
      if d = quote then (readLiteral rest).map fun read => (quote :: read.1, read.2)
      else some ([], d :: rest)
    else (readLiteral (d :: rest)).map fun read => (c :: read.1, read.2)

/-- `LIMIT limit OFFSET offset`; a negative limit is none, and a negative offset is 0. -/
def slice {ρ : Type} (limit offset : Int) (rows : List ρ) : List ρ :=
  if limit < 0 then rows.drop offset.toNat else (rows.drop offset.toNat).take limit.toNat

/-- `ORDER BY key DESC`, rows with one key as they were. -/
def orderDesc {ρ : Type} (key : ρ → String) (rows : List ρ) : List ρ :=
  rows.mergeSort fun a b => decide (key b ≤ key a)

variable {text s rest : List Char} {c : Char}

theorem like_percent {pattern : List Char} :
    like ('%' :: pattern) s = true ↔ ∃ t, t <:+ s ∧ like pattern t = true := by
  simp [like, List.any_eq_true]

theorem Plain.tail (h : Plain (c :: text)) : Plain text :=
  ⟨fun hc => h.1 (List.mem_cons_of_mem _ hc), fun hc => h.2 (List.mem_cons_of_mem _ hc)⟩

/-- A plain text in front takes the same text, in either case. -/
theorem like_append_of_plain {pattern : List Char} (h : Plain text) :
    like (text ++ pattern) s = true ↔
      ∃ u t, s = u ++ t ∧ u.map Char.toLower = text.map Char.toLower ∧ like pattern t = true := by
  induction text generalizing s with
  | nil =>
    constructor
    · intro hs
      exact ⟨[], s, rfl, rfl, hs⟩
    · rintro ⟨u, t, rfl, hu, ht⟩
      obtain rfl := List.map_eq_nil_iff.mp hu
      exact ht
  | cons c text ih =>
    have hpercent : c ≠ '%' := fun hc => h.1 (by simp [hc])
    have hunder : c ≠ '_' := fun hc => h.2 (by simp [hc])
    cases s with
    | nil =>
      refine iff_of_false (by simp [like, hpercent]) ?_
      rintro ⟨u, t, hs, hu, -⟩
      obtain ⟨rfl, rfl⟩ := List.append_eq_nil_iff.mp hs.symm
      simp at hu
    | cons d s =>
      rw [List.cons_append, like, if_neg hpercent]
      simp only [hunder, false_or, Bool.and_eq_true, decide_eq_true_eq, ih h.tail]
      constructor
      · rintro ⟨hd, u, t, rfl, hu, ht⟩
        exact ⟨d :: u, t, rfl, by simp [hd, hu], ht⟩
      · rintro ⟨u, t, hs, hu, ht⟩
        cases u with
        | nil => simp at hu
        | cons e u =>
          obtain ⟨rfl, rfl⟩ := List.cons_eq_cons.mp hs
          obtain ⟨hd, hu⟩ := List.cons_eq_cons.mp hu
          exact ⟨hd.symm, u, t, rfl, hu, ht⟩

/-- Between percent signs, a plain text is found where it stands. -/
theorem like_iff_contains (h : Plain text) :
    like ('%' :: (text ++ ['%'])) s = true ↔ Contains text s := by
  have hend : ∀ t, like ['%'] t = true := fun t => like_percent.mpr ⟨[], List.nil_suffix, rfl⟩
  rw [like_percent]
  simp only [like_append_of_plain h, hend, and_true]
  constructor
  · rintro ⟨w, ⟨v, rfl⟩, u, t, rfl, hu⟩
    refine ⟨v.map Char.toLower, t.map Char.toLower, ?_⟩
    simp [hu]
  · rintro ⟨a, b, hs⟩
    obtain ⟨v, t, rfl, hv, rfl⟩ := List.map_eq_append_iff.mp hs.symm
    obtain ⟨v, u, rfl, rfl, hu⟩ := List.map_eq_append_iff.mp hv
    exact ⟨u ++ t, ⟨v, by simp⟩, u, t, rfl, hu⟩

/-- What a text stands for if no percent sign stands for anything and each underscore for an x. -/
def filled (text : List Char) : List Char :=
  text.flatMap fun c => if c = '%' then [] else if c = '_' then ['x'] else [c]

theorem like_filled_append {pattern t : List Char} (ht : like pattern t = true) :
    like (text ++ pattern) (filled text ++ t) = true := by
  induction text with
  | nil => exact ht
  | cons c text ih =>
    by_cases hpercent : c = '%'
    · subst hpercent
      exact like_percent.mpr ⟨_, List.suffix_rfl, ih⟩
    · by_cases hunder : c = '_'
      · subst hunder
        exact ih
      · simpa [filled, like, hpercent, hunder] using ih

theorem like_filled (text : List Char) : like ('%' :: (text ++ ['%'])) (filled text) = true := by
  have h : like (text ++ ['%']) (filled text ++ []) = true :=
    like_filled_append (like_percent.mpr ⟨[], List.nil_suffix, rfl⟩)
  rw [List.append_nil] at h
  exact like_percent.mpr ⟨_, List.suffix_rfl, h⟩

theorem filled_of_plain (h : Plain text) : filled text = text := by
  induction text with
  | nil => rfl
  | cons c text ih =>
    have hpercent : c ≠ '%' := fun hc => h.1 (by simp [hc])
    have hunder : c ≠ '_' := fun hc => h.2 (by simp [hc])
    have ih := ih h.tail
    rw [filled] at ih ⊢
    rw [List.flatMap_cons, ih, if_neg hpercent, if_neg hunder]
    rfl

theorem plain_filled : Plain (filled text) := by
  constructor
  · intro h
    obtain ⟨c, -, hc⟩ := List.mem_flatMap.mp h
    split at hc
    · cases hc
    · next hne =>
      split at hc
      · exact absurd (List.mem_singleton.mp hc) (by decide)
      · exact hne (List.mem_singleton.mp hc).symm
  · intro h
    obtain ⟨c, -, hc⟩ := List.mem_flatMap.mp h
    split at hc
    · cases hc
    · split at hc
      · exact absurd (List.mem_singleton.mp hc) (by decide)
      · next hne => exact hne (List.mem_singleton.mp hc).symm

/-- No letter is made a percent sign or an underscore. -/
theorem eq_of_toLower_eq {d : Char} (h : c.toLower = d) (hd : d = '%' ∨ d = '_') : c = d := by
  rw [Char.toLower] at h
  split at h
  · next hupper =>
    have hval : c.val + 32 = d.val := congrArg Char.val h
    have hlow : (65 : UInt32) ≤ c.val := hupper.1
    have hhigh : c.val ≤ (90 : UInt32) := hupper.2
    have hnat := congrArg UInt32.toNat hval
    rw [UInt32.le_iff_toNat_le] at hlow hhigh
    rw [UInt32.toNat_add] at hnat
    rcases hd with rfl | rfl <;> simp at hnat hlow hhigh <;> omega
  · exact h

theorem Plain.of_contains (hs : Plain s) (h : Contains text s) : Plain text := by
  have hmem : ∀ d, d = '%' ∨ d = '_' → d ∈ text → d ∈ s := by
    intro d hd ht
    have hlower : d.toLower = d := by rcases hd with rfl | rfl <;> rfl
    have hin : d ∈ s.map Char.toLower := by
      refine h.subset ?_
      rw [← hlower]
      exact List.mem_map_of_mem ht
    obtain ⟨c, hc, he⟩ := List.mem_map.mp hin
    exact eq_of_toLower_eq he hd ▸ hc
  exact ⟨fun hp => hs.1 (hmem _ (.inl rfl) hp), fun hu => hs.2 (hmem _ (.inr rfl) hu)⟩

theorem Contains.length_le (h : Contains text s) : text.length ≤ s.length := by
  simpa using List.IsInfix.length_le h

theorem contains_self (text : List Char) : Contains text text := List.infix_rfl

theorem escapeQuotes_cons : escapeQuotes (c :: text) =
    if c = quote then quote :: quote :: escapeQuotes text else c :: escapeQuotes text := by
  rw [escapeQuotes, List.flatMap_cons]
  split <;> rfl

/-- A literal of the text, its quotes doubled, is read as the text. -/
theorem readLiteral_escape {d : Char} (hd : d ≠ quote) :
    readLiteral (escapeQuotes text ++ quote :: d :: rest) = some (text, d :: rest) := by
  induction text with
  | nil => simp [escapeQuotes, readLiteral, hd]
  | cons c text ih =>
    rw [escapeQuotes_cons]
    split
    · next hc =>
      rw [List.cons_append, List.cons_append, readLiteral, if_pos rfl, if_pos rfl, ih, hc]
      rfl
    · next hc =>
      obtain ⟨e, more, he⟩ : ∃ e more, escapeQuotes text ++ quote :: d :: rest = e :: more := by
        cases escapeQuotes text <;> exact ⟨_, _, rfl⟩
      rw [List.cons_append, he, readLiteral, if_neg hc, ← he, ih]
      rfl

/-- Without a closing quote there is no literal. -/
theorem readLiteral_open (text : List Char) : readLiteral (escapeQuotes text) = none := by
  induction text with
  | nil => rfl
  | cons c text ih =>
    rw [escapeQuotes_cons]
    split
    · rw [readLiteral, if_pos rfl, if_pos rfl, ih]
      rfl
    · next hc =>
      cases hrest : escapeQuotes text with
      | nil => rw [readLiteral, if_neg hc]
      | cons d more =>
        rw [readLiteral, if_neg hc, ← hrest, ih]
        rfl

end Sql
