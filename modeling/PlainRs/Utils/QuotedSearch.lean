import PlainRs.Utils.SearchDsl

/-! A quoted search text among other fields. -/
namespace PlainRs.SearchDsl

open PlainRs.Utils

/-- The token is one group, and no quote is open behind it. -/
def Reads (text group : List Char) : Prop := text.foldl Scan.step {} = { buf := group }

/-- A `field:value` token as the scanner takes it: quotes and escapes may stand in both parts. -/
structure FieldToken where
  text : List Char
  group : List Char
  reads : Reads text group
  colon : ':' ∈ group
  name_ne : (splitGroup group).field ≠ textName

/-- The token is an `is:text`, whose field is named `text` too. -/
def FieldToken.IsText (t : FieldToken) : Prop :=
  (splitGroup t.group).field = isName ∧ (splitGroup t.group).query = textName

instance : DecidablePred FieldToken.IsText := fun _ => inferInstanceAs (Decidable (_ ∧ _))

/-- A text that needs no escapes between double quotes and is not taken for an operator. -/
structure SearchText where
  value : List Char
  quote_notMem : '"' ∉ value
  escape_notMem : '\\' ∉ value
  no_op : ∀ op ∈ orderedGroupOps, ¬ op <+: value

/-- A value between double quotes, under its name. -/
def quoted (name value : List Char) : List Char := name ++ ':' :: '"' :: (value ++ ['"'])

def joined (texts : List (List Char)) : List Char := [' '].intercalate texts

/-- The other tokens. -/
def others (before after : List FieldToken) : List Char :=
  joined ((before ++ after).map (·.text))

/-- The text stands among the other tokens. -/
def query (before : List FieldToken) (v : SearchText) (after : List FieldToken) : List Char :=
  joined (before.map (·.text) ++ quoted textName v.value :: after.map (·.text))

/-- The text comes back, and the other fields are those that there are without it. -/
def Survives (before : List FieldToken) (v : SearchText) (after : List FieldToken) : Prop :=
  fieldValue (query before v after) textName = some v.value ∧
    (parse (query before v after)).eraseIdx before.length = parse (others before after)

/-- A character that the scanner takes for a double quote. -/
def Misread (c : Char) : Prop := c.toUInt8 = '"'.toUInt8

instance : DecidablePred Misread := fun _ => inferInstanceAs (Decidable (_ = _))

/-- No blank stands outside of what the scanner takes for single quotes; it may begin inside. -/
def Unbroken : Bool → List Char → Prop
  | _, [] => True
  | false, c :: cs => c ∉ blanks ∧ Unbroken (c = Char.ofNat 39) cs
  | true, c :: cs => Unbroken (c.toUInt8 ≠ (Char.ofNat 39).toUInt8) cs

/-- What stands behind the character that the scanner takes for the closing quote. -/
def SearchText.tail (v : SearchText) : List Char := (v.value.dropWhile (¬ Misread ·)).tail

variable {r : List (List Char)} {s : Scan} {c : Char} {cs buf group q name text rest : List Char}
  {gs hs : List (List Char)} {before after : List FieldToken} {v : SearchText} {t : FieldToken}
  {w : List Char}

section Groups

theorem Reads.ne_nil (h : Reads text group) (hcolon : ':' ∈ group) : text ≠ [] := by
  rintro rfl
  rw [Reads, List.foldl_nil, Scan.mk.injEq] at h
  rw [← h.2.1] at hcolon
  cases hcolon

theorem splitInGroup_reads (h : Reads text group) (hne : group ≠ []) :
    splitInGroup text = [group] := by
  rw [splitInGroup, h, Scan.finish, if_neg hne, List.nil_append]

theorem splitInGroup_cons (h : Reads text group) (hne : group ≠ []) (rest : List Char) :
    splitInGroup (text ++ ' ' :: rest) = group :: splitInGroup rest := by
  rw [splitInGroup, List.foldl_append, h, finish_blank List.mem_cons_self hne]

theorem joined_cons (hne : gs ≠ []) : joined (text :: gs) = text ++ ' ' :: joined gs := by
  obtain ⟨g, gs, rfl⟩ := List.exists_cons_of_ne_nil hne
  simp [joined, List.intercalate]

theorem FieldToken.group_ne_nil (t : FieldToken) : t.group ≠ [] := List.ne_nil_of_mem t.colon

/-- The tokens in front are read one by one. -/
theorem splitInGroup_joined (before : List FieldToken) (hne : gs ≠ []) :
    splitInGroup (joined (before.map (·.text) ++ gs)) =
      before.map (·.group) ++ splitInGroup (joined gs) := by
  induction before with
  | nil => rfl
  | cons t before ih =>
    rw [List.map_cons, List.cons_append, joined_cons (List.append_ne_nil_of_right_ne_nil _ hne),
      splitInGroup_cons t.reads t.group_ne_nil, ih, List.map_cons, List.cons_append]

theorem splitInGroup_tokens (ts : List FieldToken) :
    splitInGroup (joined (ts.map (·.text))) = ts.map (·.group) := by
  induction ts with
  | nil => rfl
  | cons t ts ih =>
    rw [List.map_cons, List.map_cons]
    cases ts with
    | nil =>
      have hone : joined [t.text] = t.text := by simp [joined, List.intercalate]
      rw [List.map_nil, hone, splitInGroup_reads t.reads t.group_ne_nil]
      rfl
    | cons u ts =>
      rw [joined_cons (by simp), splitInGroup_cons t.reads t.group_ne_nil, ih]

end Groups

section Quotes

/-- A character of a name or of a value that is not quoted. -/
def Plain (c : Char) : Prop := c ≠ '\\' ∧ c ≠ '"' ∧ c ≠ Char.ofNat 39 ∧ c ∉ blanks

theorem foldl_plain (h : ∀ c ∈ cs, Plain c) (buf : List Char) :
    cs.foldl Scan.step { buf } = { buf := buf ++ cs } := by
  induction cs generalizing buf with
  | nil => rw [List.foldl_nil, List.append_nil]
  | cons c cs ih =>
    rw [List.forall_mem_cons] at h
    obtain ⟨⟨hescape, hdouble, hsingle, hblank⟩, hcs⟩ := h
    have hstep : Scan.step { buf } c = { buf := buf ++ [c] } := by
      simp [Scan.step, hescape, hdouble, hsingle, hblank]
    rw [List.foldl_cons, hstep, ih hcs, List.append_assoc, List.singleton_append]

theorem step_quoted {k : UInt8} (hescape : c ≠ '\\') (hk : k ≠ 0) (buf : List Char) :
    Scan.step { buf, quote := k } c =
      { buf := buf ++ [c], quote := if c.toUInt8 = k then 0 else k } := by
  simp [Scan.step, hescape, hk]

theorem foldl_quoted (hescape : '\\' ∉ cs) (hquote : ∀ c ∈ cs, ¬ Misread c) (buf : List Char) :
    cs.foldl Scan.step { buf, quote := '"'.toUInt8 } =
      { buf := buf ++ cs, quote := '"'.toUInt8 } := by
  induction cs generalizing buf with
  | nil => rw [List.foldl_nil, List.append_nil]
  | cons c cs ih =>
    rw [List.mem_cons, not_or] at hescape
    rw [List.forall_mem_cons] at hquote
    have hopen : c.toUInt8 ≠ '"'.toUInt8 := hquote.1
    rw [List.foldl_cons, step_quoted (Ne.symm hescape.1) (by decide), if_neg hopen,
      ih hescape.2 hquote.2, List.append_assoc, List.singleton_append]

/-- Behind the first quote of a token. -/
theorem foldl_name (hname : ∀ c ∈ name, Plain c) :
    (name ++ [':', '"']).foldl Scan.step {} =
      { buf := name ++ [':', '"'], quote := '"'.toUInt8 } := by
  rw [List.foldl_append, foldl_plain hname, List.nil_append]
  simp [Scan.step, blanks]

theorem quoted_eq (name w : List Char) :
    quoted name w = (name ++ [':', '"']) ++ w ++ ['"'] := by
  simp [quoted]

theorem reads_quoted (hname : ∀ c ∈ name, Plain c) (hescape : '\\' ∉ w)
    (hquote : ∀ c ∈ w, ¬ Misread c) : Reads (quoted name w) (quoted name w) := by
  rw [Reads, quoted_eq, List.foldl_append, List.foldl_append, foldl_name hname,
    foldl_quoted hescape hquote, List.foldl_cons, step_quoted (by decide) (by decide), if_pos rfl]
  rfl

theorem plain_textName : ∀ c ∈ textName, Plain c := by
  simp [textName, Plain, blanks]

/-- Up to the character that is taken for the closing quote. -/
theorem foldl_misread (hescape : '\\' ∉ cs) (hquote : ∀ c ∈ cs, ¬ Misread c) (hc : Misread c)
    (hback : c ≠ '\\') (buf : List Char) :
    (cs ++ [c]).foldl Scan.step { buf, quote := '"'.toUInt8 } = { buf := buf ++ (cs ++ [c]) } := by
  have hclose : c.toUInt8 = '"'.toUInt8 := hc
  rw [List.foldl_append, foldl_quoted hescape hquote, List.foldl_cons,
    step_quoted hback (by decide), if_pos hclose, List.foldl_nil, List.append_assoc]

/-- The quote that is open, of single ones. -/
def single (inside : Bool) : UInt8 := if inside then (Char.ofNat 39).toUInt8 else 0

theorem step_single {inside : Bool} (hescape : c ≠ '\\') (hdouble : c ≠ '"')
    (h : inside = false → c ∉ blanks) (buf : List Char) : ∃ now,
      Scan.step { buf, quote := single inside } c = { buf := buf ++ [c], quote := single now } ∧
        ∀ cs, Unbroken inside (c :: cs) ↔ Unbroken now cs := by
  cases inside with
  | false =>
    refine ⟨c = Char.ofNat 39, ?_, fun cs => and_iff_right (h rfl)⟩
    by_cases hc : c = Char.ofNat 39
    · simp [Scan.step, hc, single]
    · simp [Scan.step, hescape, hdouble, hc, h rfl, single]
  | true =>
    refine ⟨c.toUInt8 ≠ (Char.ofNat 39).toUInt8, ?_, fun cs => Iff.rfl⟩
    rw [show single true = (Char.ofNat 39).toUInt8 from rfl, step_quoted hescape (by decide)]
    by_cases hc : c.toUInt8 = (Char.ofNat 39).toUInt8 <;> simp [hc, single]

/-- A text that is not broken goes to the buffer. -/
theorem foldl_unbroken {inside : Bool} (hescape : '\\' ∉ cs) (hdouble : '"' ∉ cs)
    (h : Unbroken inside cs) (buf : List Char) : ∃ inside',
      cs.foldl Scan.step { buf, quote := single inside } =
        { buf := buf ++ cs, quote := single inside' } := by
  induction cs generalizing inside buf with
  | nil => exact ⟨inside, by rw [List.foldl_nil, List.append_nil]⟩
  | cons c cs ih =>
    rw [List.mem_cons, not_or] at hescape hdouble
    have hblank : inside = false → c ∉ blanks := by
      rintro rfl
      exact h.1
    obtain ⟨now, hstep, hnow⟩ :=
      step_single (Ne.symm hescape.1) (Ne.symm hdouble.1) hblank buf
    obtain ⟨inside', hfold⟩ := ih hescape.2 hdouble.2 ((hnow cs).mp h) (buf ++ [c])
    refine ⟨inside', ?_⟩
    rw [List.foldl_cons, hstep, hfold, List.append_assoc, List.singleton_append]

/-- A text that is broken is read up to a blank. -/
theorem foldl_broken {inside : Bool} (hescape : '\\' ∉ cs) (hdouble : '"' ∉ cs)
    (h : ¬ Unbroken inside cs) (buf : List Char) : ∃ front c back,
      cs = front ++ c :: back ∧ c ∈ blanks ∧
        front.foldl Scan.step { buf, quote := single inside } = { buf := buf ++ front } := by
  induction cs generalizing inside buf with
  | nil => simp [Unbroken] at h
  | cons c cs ih =>
    rw [List.mem_cons, not_or] at hescape hdouble
    by_cases hstop : inside = false ∧ c ∈ blanks
    · obtain ⟨rfl, hblank⟩ := hstop
      exact ⟨[], c, cs, rfl, hblank, by rw [List.append_nil]; rfl⟩
    · obtain ⟨now, hstep, hnow⟩ := step_single (Ne.symm hescape.1) (Ne.symm hdouble.1)
        (fun hinside hc => hstop ⟨hinside, hc⟩) buf
      obtain ⟨front, d, back, rfl, hd, hfold⟩ :=
        ih hescape.2 hdouble.2 (fun hrest => h ((hnow cs).mpr hrest)) (buf ++ [c])
      refine ⟨c :: front, d, back, rfl, hd, ?_⟩
      rw [List.foldl_cons, hstep, hfold, List.append_assoc, List.singleton_append]

/-- What is read of the text up to the character that is taken for the closing quote. -/
theorem SearchText.split_misread (v : SearchText) (h : ∃ c ∈ v.value, Misread c) :
    ∃ front, v.value = front ++ v.tail ∧
      (textName ++ ':' :: '"' :: front).foldl Scan.step {} =
        { buf := textName ++ ':' :: '"' :: front } := by
  have hwhole := List.takeWhile_append_dropWhile (p := fun c => decide (¬ Misread c)) (l := v.value)
  obtain ⟨m, tail, hdrop⟩ : ∃ m tail, v.value.dropWhile (¬ Misread ·) = m :: tail := by
    refine List.exists_cons_of_ne_nil fun hnil => ?_
    obtain ⟨c, hc, hmis⟩ := h
    simpa [hmis] using List.dropWhile_eq_nil_iff.mp hnil c hc
  have hm : Misread m := by
    have hnot := List.head?_dropWhile_not (fun c => decide (¬ Misread c)) v.value
    rw [hdrop] at hnot
    simpa using hnot
  rw [hdrop] at hwhole
  generalize hfront : v.value.takeWhile (fun c => decide (¬ Misread c)) = front at hwhole
  have hsafe : ∀ c ∈ front, ¬ Misread c := by
    intro c hc
    rw [← hfront] at hc
    simpa using List.mem_takeWhile_imp hc
  have hescape : '\\' ∉ front ++ m :: tail := hwhole ▸ v.escape_notMem
  rw [List.mem_append, List.mem_cons, not_or, not_or] at hescape
  refine ⟨front ++ [m], ?_, ?_⟩
  · rw [SearchText.tail, hdrop, List.append_assoc, List.tail_cons, List.singleton_append, hwhole]
  · have happ : textName ++ ':' :: '"' :: (front ++ [m]) =
        (textName ++ [':', '"']) ++ (front ++ [m]) := by simp
    rw [happ, List.foldl_append, foldl_name plain_textName,
      foldl_misread hescape.1 hsafe hm (Ne.symm hescape.2.1)]

end Quotes

section Fields

theorem detectGroupType_mem (group : List Char) : detectGroupType group ∈ orderedGroupOps := by
  rw [detectGroupType]
  cases hstart : orderedGroupOps.find? (· <+: group) with
  | some op => exact List.mem_of_find?_eq_some hstart
  | none =>
    cases hin : orderedGroupOps.find? (· <:+: group) with
    | some op => exact List.mem_of_find?_eq_some hin
    | none => simp [orderedGroupOps]

theorem op_splitGroup (q : List Char) : (splitGroup q).op ∈ orderedGroupOps := by
  have hmem := detectGroupType_mem ((splitGroup q).query)
  have hne : detectGroupType ((splitGroup q).query) ≠ [] := by
    intro h
    rw [h] at hmem
    simp [orderedGroupOps] at hmem
  have hop : (splitGroup q).op = detectGroupType ((splitGroup q).query) := if_neg hne
  rw [hop]
  exact hmem

/-- The value is the query behind its operator, if it begins with one. -/
theorem query_splitGroup (q : List Char) : ∃ op, (op = [] ∨ op ∈ orderedGroupOps) ∧
    (splitGroup q).query = op ++ (splitGroup q).value := by
  have hvalue : (splitGroup q).value =
      if (splitGroup q).op ≠ [] ∧ (splitGroup q).op <+: (splitGroup q).query then
        (splitGroup q).query.drop (splitGroup q).op.length else (splitGroup q).query := rfl
  rw [hvalue]
  split_ifs with h
  · obtain ⟨-, rest, hrest⟩ := h
    refine ⟨_, .inr (op_splitGroup q), ?_⟩
    rw [← hrest, List.drop_left]
  · exact ⟨[], .inl rfl, rfl⟩

theorem value_splitGroup (h : ∀ op ∈ orderedGroupOps, ¬ op <+: (splitGroup q).query) :
    (splitGroup q).value = (splitGroup q).query := by
  obtain ⟨op, rfl | hop, hquery⟩ := query_splitGroup q
  · exact hquery.symm
  · exact absurd ⟨_, hquery.symm⟩ (h op hop)

theorem quote_mem_value (h : '"' ∈ (splitGroup q).query) : '"' ∈ (splitGroup q).value := by
  obtain ⟨op, hop, hquery⟩ := query_splitGroup q
  rw [hquery, List.mem_append] at h
  have hnot : '"' ∉ op := by
    rcases hop with rfl | hop
    · exact List.not_mem_nil
    · simp only [orderedGroupOps, List.mem_cons, List.not_mem_nil, or_false] at hop
      rcases hop with rfl | rfl | rfl | rfl | rfl | rfl <;> simp
  exact h.resolve_left hnot

theorem ne_notType (h : ':' ∈ group) : group ≠ notType := by
  rintro rfl
  simp [notType] at h

/-- A group with a colon in it. -/
theorem parseGroup_colon (h : ':' ∈ group) : parseGroup group =
    if (splitGroup group).field = isName then
      { name := (splitGroup group).query, op := [], value := trueValue }
    else { name := (splitGroup group).field, op := (splitGroup group).op,
           value := (splitGroup group).value } := by
  have hlength : (splitGroup group).length = 2 := if_pos h
  rw [parseGroup, if_neg (ne_notType h)]
  dsimp only
  rw [hlength, if_neg (by decide : ¬ 2 = 1)]

theorem op_parseGroup (h : ':' ∈ group) : (parseGroup group).op ≠ notType := by
  rw [parseGroup_colon h]
  split_ifs
  · simp [notType]
  · intro hop
    have hmem := op_splitGroup group
    simp only at hop
    rw [hop] at hmem
    simp [orderedGroupOps, notType] at hmem

theorem invertFields_append {fs : List FilterField} (h : ∀ f ∈ fs, f.op ≠ notType)
    (rest : List FilterField) :
    invertFields false (fs ++ rest) = fs ++ invertFields false rest := by
  induction fs with
  | nil => rfl
  | cons f fs ih =>
    rw [List.forall_mem_cons] at h
    rw [List.cons_append, invertFields, if_neg h.1, if_neg Bool.false_ne_true, ih h.2,
      List.cons_append]

theorem trimmed_ne_nil (h : ':' ∈ q) : trimmed q ≠ [] := by
  intro hnil
  have hcolon := trimmed_eq_nil_iff.mp hnil ':' h
  simp [Text.isWhitespace] at hcolon

/-- Groups with colons at the beginning are the fields at the beginning. -/
theorem parse_groups (hq : ':' ∈ q) (hsplit : splitInGroup q = gs ++ hs)
    (hgs : ∀ g ∈ gs, ':' ∈ g) : parse q = gs.map parseGroup ++
      (invertFields false (hs.map parseGroup)).filter (·.op ≠ notType) := by
  have hops : ∀ f ∈ gs.map parseGroup, f.op ≠ notType := by
    intro f hf
    obtain ⟨g, hg, rfl⟩ := List.mem_map.mp hf
    exact op_parseGroup (hgs g hg)
  rw [parse, if_neg (trimmed_ne_nil hq), hsplit, List.map_append, invertFields_append hops,
    List.filter_append, List.filter_eq_self.mpr (by simpa using hops)]

theorem parse_groups_all (hq : ':' ∈ q) (hsplit : splitInGroup q = gs) (hgs : ∀ g ∈ gs, ':' ∈ g) :
    parse q = gs.map parseGroup := by
  rw [← List.append_nil gs] at hsplit
  rw [parse_groups hq hsplit hgs]
  exact List.append_nil _

theorem FieldToken.colon_mem_text (t : FieldToken) : ':' ∈ t.text := by
  have hcolon := t.colon
  have hreads := t.reads
  rw [Reads] at hreads
  have hbuf : t.group = (t.text.foldl Scan.step {}).buf := by rw [hreads]
  rw [hbuf] at hcolon
  exact (mem_buf_foldl hcolon).resolve_left List.not_mem_nil

theorem mem_joined (htext : text ∈ gs) (hc : c ∈ text) : c ∈ joined gs := by
  induction gs with
  | nil => cases htext
  | cons g gs ih =>
    by_cases hnil : gs = []
    · subst hnil
      rw [List.mem_singleton] at htext
      subst htext
      simpa [joined, List.intercalate] using hc
    · rw [joined_cons hnil, List.mem_append, List.mem_cons]
      rcases List.mem_cons.mp htext with rfl | htext
      · exact .inl hc
      · exact .inr (.inr (ih htext))

/-- Tokens are read one by one. -/
theorem parse_tokens (ts : List FieldToken) :
    parse (joined (ts.map (·.text))) = ts.map fun t => parseGroup t.group := by
  cases ts with
  | nil => rfl
  | cons t ts =>
    have hcolon : ':' ∈ joined ((t :: ts).map (·.text)) :=
      mem_joined (List.mem_map_of_mem List.mem_cons_self) t.colon_mem_text
    have hgroups : ∀ g ∈ (t :: ts).map (·.group), ':' ∈ g := by
      intro g hg
      obtain ⟨u, -, rfl⟩ := List.mem_map.mp hg
      exact u.colon
    rw [parse_groups_all hcolon (splitInGroup_tokens _) hgroups, List.map_map]
    rfl

end Fields

section Survival

/-- The text is one group of its own. -/
def SearchText.Kept (v : SearchText) (after : List FieldToken) : Prop :=
  (∀ c ∈ v.value, ¬ Misread c) ∨ (after = [] ∧ Unbroken false v.tail)

/-- An unbroken rest is read up to the closing quote, behind which a quote is open. -/
theorem SearchText.foldl_quoted (v : SearchText) (h : ∃ c ∈ v.value, Misread c)
    (htail : Unbroken false v.tail) : ∃ k, k ≠ 0 ∧
      (quoted textName v.value).foldl Scan.step {} =
        { buf := quoted textName v.value, quote := k } := by
  obtain ⟨front, hvalue, hfront⟩ := v.split_misread h
  have hescape : '\\' ∉ v.tail := fun hmem =>
    v.escape_notMem (hvalue ▸ List.mem_append_right _ hmem)
  have hdouble : '"' ∉ v.tail := fun hmem =>
    v.quote_notMem (hvalue ▸ List.mem_append_right _ hmem)
  obtain ⟨inside, hread⟩ := foldl_unbroken hescape hdouble htail (textName ++ ':' :: '"' :: front)
  have hsplit : quoted textName v.value =
      ((textName ++ ':' :: '"' :: front) ++ v.tail) ++ ['"'] := by
    rw [hvalue, quoted]
    simp
  refine ⟨if inside then single true else '"'.toUInt8, by cases inside <;> decide, ?_⟩
  rw [hsplit, List.foldl_append, List.foldl_append, hfront]
  refine (congrArg (List.foldl Scan.step · ['"']) hread).trans ?_
  cases inside with
  | false => simp [Scan.step, single]
  | true =>
    have hescape : '"' ≠ '\\' := by decide
    have hopen : single true ≠ 0 := by decide
    refine (step_quoted hescape hopen _).trans ?_
    rw [if_neg (by decide), if_pos rfl]

theorem SearchText.Kept.split (h : v.Kept after) :
    splitInGroup (joined (quoted textName v.value :: after.map (·.text))) =
      quoted textName v.value :: after.map (·.group) := by
  have hne : quoted textName v.value ≠ [] := by simp [quoted]
  have hone : joined [quoted textName v.value] = quoted textName v.value := by
    simp [joined, List.intercalate]
  by_cases hsafe : ∀ c ∈ v.value, ¬ Misread c
  · have hreads := reads_quoted plain_textName v.escape_notMem hsafe
    cases after with
    | nil => rw [List.map_nil, hone, splitInGroup_reads hreads hne, List.map_nil]
    | cons t after =>
      rw [joined_cons (by simp), splitInGroup_cons hreads hne, splitInGroup_tokens]
  · rcases h with h | ⟨rfl, htail⟩
    · exact absurd h hsafe
    · push Not at hsafe
      obtain ⟨k, -, hread⟩ := v.foldl_quoted hsafe htail
      rw [List.map_nil, hone, splitInGroup, hread, Scan.finish, if_neg hne]
      rfl

/-- Else the group of the text keeps a quote of it. -/
theorem SearchText.split_not_kept (h : ¬ v.Kept after) : ∃ w gs,
    splitInGroup (joined (quoted textName v.value :: after.map (·.text))) =
      (textName ++ ':' :: '"' :: w) :: gs ∧ ('"' ∈ w.dropLast ∨ w.getLast? ≠ some '"') := by
  rw [SearchText.Kept, not_or] at h
  obtain ⟨hmis, hrest⟩ := h
  push Not at hmis
  obtain ⟨rest, hjoined, hspace⟩ : ∃ rest,
      joined (quoted textName v.value :: after.map (·.text)) = quoted textName v.value ++ rest ∧
        (after ≠ [] → ∃ more, rest = ' ' :: more) := by
    cases after with
    | nil => exact ⟨[], by simp [joined, List.intercalate], fun hne => absurd rfl hne⟩
    | cons t after => exact ⟨_, joined_cons (by simp), fun _ => ⟨_, rfl⟩⟩
  rw [hjoined]
  by_cases htail : Unbroken false v.tail
  · obtain ⟨more, rfl⟩ := hspace fun hnil => hrest ⟨hnil, htail⟩
    obtain ⟨k, hk, hread⟩ := v.foldl_quoted hmis htail
    have hgroup := fun now : UInt8 => first_group
      (s := { buf := quoted textName v.value ++ [' '], quote := now }) rfl (by simp) more
    obtain ⟨g, gs, hfinish, x, hg⟩ := hgroup (if ' '.toUInt8 = k then 0 else k)
    refine ⟨v.value ++ '"' :: ' ' :: x, gs, ?_, .inl ?_⟩
    · rw [splitInGroup, List.foldl_append, hread, List.foldl_cons, step_quoted (by decide) hk,
        hfinish, ← hg, quoted]
      simp
    · rw [List.dropLast_append_of_ne_nil (List.cons_ne_nil _ _), List.dropLast_cons_of_ne_nil
        (List.cons_ne_nil _ _)]
      simp
  · obtain ⟨front, hvalue, hfront⟩ := v.split_misread hmis
    have hescape := v.escape_notMem
    have hdouble := v.quote_notMem
    rw [hvalue, List.mem_append, not_or] at hescape hdouble
    obtain ⟨mid, c, back, hcut, hc, hread⟩ :=
      foldl_broken hescape.2 hdouble.2 htail (textName ++ ':' :: '"' :: front)
    refine ⟨front ++ mid, splitInGroup (back ++ '"' :: rest), ?_, .inr fun hlast => ?_⟩
    · have hsplit : quoted textName v.value ++ rest =
          ((textName ++ ':' :: '"' :: front) ++ mid) ++ c :: (back ++ '"' :: rest) := by
        rw [quoted, hvalue, hcut]
        simp
      rw [hsplit, splitInGroup, List.foldl_append, List.foldl_append, hfront]
      refine (congrArg (fun s => ((c :: (back ++ '"' :: rest)).foldl Scan.step s).finish)
        hread).trans ?_
      rw [finish_blank hc (by simp)]
      simp
    · rcases List.mem_append.mp (List.mem_of_getLast? hlast) with hmem | hmem
      · exact hdouble.1 hmem
      · exact hdouble.2 (hcut ▸ List.mem_append_left _ hmem)

theorem splitGroup_text (rest : List Char) :
    (splitGroup (textName ++ ':' :: rest)).field = textName ∧
      (splitGroup (textName ++ ':' :: rest)).query = removeQuotation rest := by
  have hsplit : splitOnce ':' (textName ++ ':' :: rest) = some (textName, rest) := by
    simp [splitOnce, textName]
  simp only [splitGroup, hsplit, Option.elim_some, and_true]
  decide

theorem parseGroup_text (rest : List Char) :
    (parseGroup (textName ++ ':' :: rest)).name = textName ∧
    (parseGroup (textName ++ ':' :: rest)).value =
      (splitGroup (textName ++ ':' :: rest)).value := by
  have hfield := (splitGroup_text rest).1
  rw [parseGroup_colon (by simp), if_neg (by rw [hfield]; decide)]
  exact ⟨hfield, rfl⟩

theorem value_quoted (v : SearchText) :
    (parseGroup (quoted textName v.value)).value = v.value := by
  have hunquoted : removeQuotation ('"' :: (v.value ++ ['"'])) = v.value := by
    have hends : ('"' :: v.value ++ ['"']).getLast? = some '"' := List.getLast?_concat
    rw [← List.cons_append, removeQuotation, if_pos ⟨by simp, .inl ⟨rfl, hends⟩⟩]
    simp
  have hquery := (splitGroup_text ('"' :: (v.value ++ ['"']))).2
  rw [hunquoted] at hquery
  rw [quoted, (parseGroup_text _).2, value_splitGroup (by rw [hquery]; exact v.no_op), hquery]

/-- A value with a quote in it that was not the last character. -/
theorem quote_mem_text (h : '"' ∈ w.dropLast ∨ w.getLast? ≠ some '"') :
    '"' ∈ (parseGroup (textName ++ ':' :: '"' :: w)).value := by
  rw [(parseGroup_text _).2]
  refine quote_mem_value ?_
  rw [(splitGroup_text _).2, removeQuotation]
  split_ifs with hends
  · rcases h with h | h
    · cases w with
      | nil => cases h
      | cons c w => simpa using h
    · cases w with
      | nil => simp at hends
      | cons c w =>
        rw [List.getLast?_cons_cons] at hends
        rcases hends with ⟨-, ⟨-, hlast⟩ | ⟨hhead, -⟩⟩
        · exact absurd hlast h
        · exact absurd hhead (by simp)
  · exact List.mem_cons_self

/-- Of the tokens in front only an `is:text` is a field of that name. -/
theorem name_parseGroup (t : FieldToken) : (parseGroup t.group).name = textName ↔ t.IsText := by
  rw [parseGroup_colon t.colon, FieldToken.IsText]
  split_ifs with h
  · exact (and_iff_right h).symm
  · exact iff_of_false t.name_ne fun his => h his.1

theorem FieldToken.IsText.value (h : t.IsText) : (parseGroup t.group).value = trueValue := by
  rw [parseGroup_colon t.colon, if_pos h.1]

theorem colon_mem_query (before : List FieldToken) (v : SearchText) (after : List FieldToken) :
    ':' ∈ query before v after := by
  have hmem : quoted textName v.value ∈
      before.map (·.text) ++ quoted textName v.value :: after.map (·.text) := by simp
  exact mem_joined hmem (by simp [quoted])

/-- The field that is found is that of the first `is:text` in front, else that of the text. -/
theorem fieldValue_of_split (hsplit : splitInGroup (query before v after) =
      before.map (·.group) ++ group :: hs) (hname : (parseGroup group).name = textName)
    (hcolon : ':' ∈ group) : fieldValue (query before v after) textName =
      some (if ∃ t ∈ before, t.IsText then trueValue else (parseGroup group).value) := by
  have hq := colon_mem_query before v after
  have hfront : splitInGroup (query before v after) = (before.map (·.group) ++ [group]) ++ hs := by
    rw [hsplit, List.append_assoc, List.singleton_append]
  have hcolons : ∀ g ∈ before.map (·.group) ++ [group], ':' ∈ g := by
    intro g hg
    rcases List.mem_append.mp hg with hg | hg
    · obtain ⟨t, -, rfl⟩ := List.mem_map.mp hg
      exact t.colon
    · rwa [List.mem_singleton.mp hg]
  rw [fieldValue, parse_groups hq hfront hcolons, List.map_append, List.append_assoc,
    List.find?_append]
  cases hfind : ((before.map (·.group)).map parseGroup).find? (·.name = textName) with
  | some f =>
    have hmem := List.mem_of_find?_eq_some hfind
    have hf : f.name = textName := by simpa using List.find?_some hfind
    rw [List.map_map, List.mem_map] at hmem
    obtain ⟨t, ht, rfl⟩ := hmem
    have his := (name_parseGroup t).mp hf
    rw [if_pos ⟨t, ht, his⟩]
    exact congrArg some his.value
  | none =>
    have hnone : ¬ ∃ t ∈ before, t.IsText := by
      rintro ⟨t, ht, his⟩
      have hnot := List.find?_eq_none.mp hfind (parseGroup t.group)
        (List.mem_map_of_mem (List.mem_map_of_mem ht))
      exact hnot (by simpa using (name_parseGroup t).mpr his)
    rw [if_neg hnone, List.map_cons, List.map_nil, List.singleton_append,
      List.find?_cons_of_pos (by simpa using hname)]
    rfl

theorem not_misread_trueValue : ∀ c ∈ trueValue, ¬ Misread c := by
  intro c hc
  simp only [trueValue, List.mem_cons, List.not_mem_nil, or_false] at hc
  rcases hc with rfl | rfl | rfl | rfl <;> decide

end Survival

end PlainRs.SearchDsl
