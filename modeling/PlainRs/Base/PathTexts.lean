import PlainRs.Base.Components

/-! The components of a path as texts, and the text that they join to. -/
namespace PathTexts

/-- What stands for itself away from the front of a path. -/
def named (pieces : List (List Char)) : List (List Char) :=
  pieces.filter fun piece => piece ≠ [] ∧ piece ≠ ['.']

/-- `Path::components`: the root directory, a `.` only where the path begins with it, and names. -/
def components (path : List Char) : List (List Char) :=
  match path.splitOn '/' with
  | [] => []
  | first :: rest =>
    (if first ≠ [] then [first] else if path = [] then [] else [['/']]) ++ named rest

def joined (cs : List (List Char)) : List Char := ['/'].intercalate cs

/-- The components of a path that is not absolute. -/
structure Relative (cs : List (List Char)) : Prop where
  ne_nil : ∀ c ∈ cs, c ≠ []
  slash_notMem : ∀ c ∈ cs, '/' ∉ c
  dot_notMem : ['.'] ∉ cs.tail

variable {path : List Char} {cs pieces : List (List Char)} {c : List Char} {x : Char}

theorem mem_named : c ∈ named pieces ↔ c ∈ pieces ∧ c ≠ [] ∧ c ≠ ['.'] := by
  simp [named]

theorem components_of_head (hne : path ≠ []) (h : path.head? ≠ some '/') :
    ∃ first rest, path.splitOn '/' = first :: rest ∧ first ≠ [] ∧
      first.head? = path.head? ∧ components path = first :: named rest := by
  obtain ⟨x, xs, rfl⟩ := List.exists_cons_of_ne_nil hne
  have hx : x ≠ '/' := by
    rintro rfl
    exact h rfl
  cases hsplit : xs.splitOn '/' with
  | nil => exact absurd hsplit (List.splitOn_ne_nil '/' xs)
  | cons first rest =>
    have hpieces : (x :: xs).splitOn '/' = (x :: first) :: rest := by
      rw [List.splitOn_cons_eq_if_modifyHead, if_neg (by simpa using hx), hsplit]
      rfl
    refine ⟨x :: first, rest, hpieces, List.cons_ne_nil _ _, rfl, ?_⟩
    rw [components, hpieces]
    simp

theorem components_ne_nil (hne : path ≠ []) (h : path.head? ≠ some '/') : components path ≠ [] := by
  obtain ⟨first, rest, -, -, -, hcs⟩ := components_of_head hne h
  rw [hcs]
  exact List.cons_ne_nil _ _

theorem relative_components (hne : path ≠ []) (h : path.head? ≠ some '/') :
    Relative (components path) := by
  obtain ⟨first, rest, hsplit, hfirst, -, hcs⟩ := components_of_head hne h
  rw [hcs]
  refine ⟨?_, ?_, ?_⟩
  · intro c hc
    rcases List.mem_cons.mp hc with rfl | hc
    · exact hfirst
    · exact (mem_named.mp hc).2.1
  · intro c hc
    refine PlainRs.Components.not_mem_of_mem_splitOn (l := path) ?_
    rw [hsplit]
    rcases List.mem_cons.mp hc with rfl | hc
    · exact List.mem_cons_self
    · exact List.mem_cons_of_mem _ (mem_named.mp hc).1
  · intro hdot
    exact (mem_named.mp hdot).2.2 rfl

theorem joined_cons (hne : cs ≠ []) : joined (c :: cs) = c ++ '/' :: joined cs := by
  rw [joined, List.intercalate_cons_of_ne_nil hne, List.append_assoc]
  rfl

theorem head?_joined (hc : c ≠ []) : (joined (c :: cs)).head? = c.head? := by
  obtain ⟨x, xs, rfl⟩ := List.exists_cons_of_ne_nil hc
  cases cs with
  | nil => simp [joined]
  | cons d cs => rw [joined_cons (List.cons_ne_nil _ _)]; rfl

theorem joined_ne_nil (h : Relative cs) (hne : cs ≠ []) : joined cs ≠ [] := by
  obtain ⟨c, cs, rfl⟩ := List.exists_cons_of_ne_nil hne
  intro hnil
  have hhead : (joined (c :: cs)).head? = c.head? := head?_joined (h.ne_nil c List.mem_cons_self)
  rw [hnil] at hhead
  exact h.ne_nil c List.mem_cons_self (List.head?_eq_none_iff.mp hhead.symm)

/-- A path that was joined begins with no slash, and splits as it was joined. -/
theorem components_joined (h : Relative cs) (hne : cs ≠ []) :
    (joined cs).head? ≠ some '/' ∧ components (joined cs) = cs := by
  have hsplit : (joined cs).splitOn '/' = cs := List.splitOn_intercalate '/' h.slash_notMem hne
  obtain ⟨c, cs, rfl⟩ := List.exists_cons_of_ne_nil hne
  have hc := h.ne_nil c List.mem_cons_self
  constructor
  · rw [head?_joined hc]
    intro hhead
    exact h.slash_notMem c List.mem_cons_self (List.mem_of_head? hhead)
  · rw [components, hsplit]
    have hrest : named cs = cs := by
      rw [named, List.filter_eq_self]
      intro d hd
      have hdot : d ≠ ['.'] := by
        rintro rfl
        exact h.dot_notMem hd
      simp [h.ne_nil d (List.mem_cons_of_mem _ hd), hdot]
    simp [hc, hrest]

theorem getLast?_joined (h : Relative cs) (hne : cs ≠ []) :
    (joined cs).getLast? = (cs.getLast hne).getLast? := by
  induction cs with
  | nil => exact absurd rfl hne
  | cons c cs ih =>
    cases cs with
    | nil => simp [joined]
    | cons d cs =>
      have htail : Relative (d :: cs) :=
        ⟨fun e he => h.ne_nil e (List.mem_cons_of_mem _ he),
          fun e he => h.slash_notMem e (List.mem_cons_of_mem _ he),
          fun hdot => h.dot_notMem (List.mem_cons_of_mem _ hdot)⟩
      have hjoined := joined_ne_nil htail (List.cons_ne_nil _ _)
      rw [joined_cons (List.cons_ne_nil _ _),
        List.getLast?_append_of_ne_nil _ (List.cons_ne_nil _ _),
        List.getLast?_cons_of_ne_nil hjoined, ih htail (List.cons_ne_nil _ _),
        List.getLast_cons (List.cons_ne_nil _ _)]

theorem getLast?_joined_ne (h : Relative cs) : (joined cs).getLast? ≠ some '/' := by
  intro hlast
  by_cases hne : cs = []
  · subst hne
    cases hlast
  · rw [getLast?_joined h hne] at hlast
    exact h.slash_notMem _ (List.getLast_mem hne) (List.mem_of_getLast? hlast)

theorem mem_joined (hx : x ≠ '/') : x ∈ joined cs ↔ ∃ c ∈ cs, x ∈ c := by
  induction cs with
  | nil => simp [joined]
  | cons c cs ih =>
    cases cs with
    | nil => simp [joined]
    | cons d cs =>
      rw [joined_cons (List.cons_ne_nil _ _), List.mem_append, List.mem_cons, ih]
      simp [hx]

/-- Taking a path apart and joining it again never makes it longer. -/
theorem length_joined_components (hne : path ≠ []) (h : path.head? ≠ some '/') :
    (joined (components path)).length ≤ path.length := by
  have hlength : ∀ cs : List (List Char), cs ≠ [] →
      (joined cs).length + 1 = (cs.map fun c => c.length + 1).sum := by
    intro cs
    induction cs with
    | nil => exact fun h => absurd rfl h
    | cons c cs ih =>
      intro _
      by_cases hcs : cs = []
      · subst hcs
        simp [joined]
      · have htail := ih hcs
        rw [joined_cons hcs, List.length_append, List.length_cons, List.map_cons, List.sum_cons]
        omega
  obtain ⟨first, rest, hsplit, -, -, hcs⟩ := components_of_head hne h
  have hsub : (components path).Sublist (path.splitOn '/') := by
    rw [hcs, hsplit]
    exact List.filter_sublist.cons_cons first
  have hsum := (hsub.map fun c => c.length + 1).sum_le_sum fun _ _ => Nat.zero_le _
  have hjoin : joined (path.splitOn '/') = path := List.intercalate_splitOn '/'
  have hleft := hlength (components path) (components_ne_nil hne h)
  have hright := hlength (path.splitOn '/') (List.splitOn_ne_nil '/' path)
  rw [hjoin] at hright
  omega

section Append

theorem components_slash (path : List Char) :
    components ('/' :: path) = ['/'] :: named (path.splitOn '/') := by
  rw [components, List.splitOn_cons_eq_if_modifyHead, if_pos (by simp)]
  simp

theorem components_append_slash (hne : path ≠ []) (rest : List Char) :
    components (path ++ '/' :: rest) = components path ++ named (rest.splitOn '/') := by
  obtain ⟨first, pieces, hsplit⟩ := List.exists_cons_of_ne_nil (List.splitOn_ne_nil '/' path)
  rw [components, components, List.splitOn_append_cons_self, hsplit]
  simp [hne, named]

/-- What stands before a slash gives its own components, whatever comes after. -/
theorem exists_components_before (path : List Char) :
    ∃ before, ∀ rest, components (path ++ '/' :: rest) = before ++ named (rest.splitOn '/') := by
  by_cases hne : path = []
  · subst hne
    exact ⟨[['/']], components_slash⟩
  · exact ⟨components path, components_append_slash hne⟩

theorem splitOn_append_of_notMem {name : List Char} (h : '/' ∉ name) (rest : List Char) :
    ∃ first pieces, rest.splitOn '/' = first :: pieces ∧
      (name ++ rest).splitOn '/' = (name ++ first) :: pieces := by
  obtain ⟨first, pieces, hrest⟩ := List.exists_cons_of_ne_nil (List.splitOn_ne_nil '/' rest)
  refine ⟨first, pieces, hrest, ?_⟩
  induction name with
  | nil => exact hrest
  | cons x name ih =>
    have hx : x ≠ '/' := fun hx => h (hx ▸ List.mem_cons_self)
    rw [List.cons_append, List.splitOn_cons_eq_if_modifyHead, if_neg (by simpa using hx),
      ih fun hmem => h (List.mem_cons_of_mem _ hmem)]
    rfl

/-- The last name of a path, with what comes before it. -/
theorem exists_last_name (hne : path ≠ []) (hlast : path.getLast? ≠ some '/') :
    ∃ name, name ≠ [] ∧ '/' ∉ name ∧ (path = name ∨ ∃ dir, path = dir ++ '/' :: name) := by
  induction path with
  | nil => exact absurd rfl hne
  | cons x path ih =>
    by_cases hpath : path = []
    · subst hpath
      have hx : x ≠ '/' := by simpa using hlast
      exact ⟨[x], List.cons_ne_nil _ _, by simpa using hx.symm, .inl rfl⟩
    · rw [List.getLast?_cons_of_ne_nil hpath] at hlast
      obtain ⟨name, hname, hslash, rfl | ⟨dir, rfl⟩⟩ := ih hpath hlast
      · by_cases hx : x = '/'
        · subst hx
          exact ⟨path, hname, hslash, .inr ⟨[], rfl⟩⟩
        · exact ⟨x :: path, List.cons_ne_nil _ _, by simp [hslash, Ne.symm hx], .inl rfl⟩
      · exact ⟨name, hname, hslash, .inr ⟨x :: dir, rfl⟩⟩

/-- A text that goes on inside the last name of a path names nothing below the path. -/
theorem not_components_prefix (hne : path ≠ []) (hlast : path.getLast? ≠ some '/')
    (hdot : ¬ ['/', '.'] <:+ path) (hx : x ≠ '/') (rest : List Char) :
    ¬ components path <+: components (path ++ x :: rest) := by
  intro hprefix
  obtain ⟨name, hname, hslash, hpath⟩ := exists_last_name hne hlast
  obtain ⟨first, pieces, hrest, hsplit⟩ := splitOn_append_of_notMem hslash (x :: rest)
  have hlonger : name ≠ name ++ first := by
    intro h
    have hfirst : first = [] := by simpa using h
    rw [List.splitOn_cons_eq_if_modifyHead, if_neg (by simpa using hx), hfirst] at hrest
    cases hmore : rest.splitOn '/' with
    | nil => exact List.splitOn_ne_nil '/' rest hmore
    | cons a as => simp [hmore] at hrest
  rcases hpath with rfl | ⟨dir, rfl⟩
  · rw [components, components, hsplit, List.splitOn_eq_singleton hslash] at hprefix
    simp [hname, hlonger] at hprefix
  · have hself : name ≠ ['.'] := by
      rintro rfl
      exact hdot ⟨dir, rfl⟩
    have hfull : name ++ first ≠ ['.'] := by
      intro h
      rcases List.append_eq_singleton_iff.mp h with ⟨h, -⟩ | ⟨h, -⟩
      · exact hname h
      · exact hself h
    obtain ⟨before, hbefore⟩ := exists_components_before dir
    rw [List.append_assoc, List.cons_append, hbefore, hbefore, hsplit,
      List.splitOn_eq_singleton hslash, List.prefix_append_right_inj] at hprefix
    simp [named, hname, hself, hfull, hlonger] at hprefix

theorem components_rdropWhile (hne : path.rdropWhile (· = '/') ≠ []) :
    components (path.rdropWhile (· = '/')) = components path := by
  induction path using List.reverseRecOn with
  | nil => rfl
  | append_singleton path y ih =>
    by_cases hy : y = '/'
    · subst hy
      rw [List.rdropWhile_concat_pos _ _ _ (by simp)] at hne ⊢
      have hpath : path ≠ [] := by
        rintro rfl
        exact hne rfl
      rw [ih hne, components_append_slash hpath]
      simp [named]
    · rw [List.rdropWhile_concat_neg _ _ _ (by simpa using hy)]

end Append

end PathTexts
