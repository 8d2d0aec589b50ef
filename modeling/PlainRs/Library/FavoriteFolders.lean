import PlainRs.Base.Keyed
import PlainRs.Base.PathTexts
import PlainRs.Utils.Http

/-! The folders pinned in the file browser, and the paths they are known by. -/
namespace PlainRs.FavoriteFolders

open Keyed PathTexts PlainRs.Utils

structure FavoriteFolder where
  rootPath : List Char
  relativePath : List Char
  aliasName : Option (List Char)
  deriving DecidableEq

/-- The columns of the primary key. -/
def FavoriteFolder.key (f : FavoriteFolder) : List Char × List Char := (f.rootPath, f.relativePath)

abbrev Rows := Table FavoriteFolder FavoriteFolder.key

def folderByPaths (rows : Rows) (rootPath relativePath : List Char) : Option FavoriteFolder :=
  rows.find? (rootPath, relativePath)

def insertFolder (rows : Rows) (row : FavoriteFolder) : Rows := rows.insert row

def removeFolder (rows : Rows) (rootPath relativePath : List Char) : Rows × Option FavoriteFolder :=
  (rows.erase (rootPath, relativePath), folderByPaths rows rootPath relativePath)

def setFolderAlias (rows : Rows) (rootPath relativePath : List Char)
    (aliasName : Option (List Char)) : Rows × Bool :=
  (rows.modify (rootPath, relativePath) (fun row => { row with aliasName }) fun _ => rfl,
    (folderByPaths rows rootPath relativePath).isSome)

def cleanPath (p : List Char) : List Char :=
  let p := trimmed p
  if p = [] then []
  else
    let isAbsolute : Bool := p.head? = some '/'
    let body := p.dropWhile (· = '/')
    let cleaned := if body = [] then [] else components body
    if cleaned = [] then if isAbsolute then ['/'] else []
    else if isAbsolute then '/' :: joined cleaned else joined cleaned

def normalizeArgs (rootPath relativePath : List Char) : List Char × List Char :=
  let root := cleanPath rootPath
  let rel := cleanPath relativePath
  (root, if rel = ['.'] then [] else rel)

def toSlash (p : List Char) : List Char := p.map fun c => if c = '\\' then '/' else c

def add (rows : Rows) (rootPath relativePath : List Char) : Rows × FavoriteFolder :=
  let (root, rel) := normalizeArgs rootPath relativePath
  match folderByPaths rows root rel with
  | some existing => (rows, existing)
  | none =>
    let newItem := ⟨toSlash root, toSlash rel, none⟩
    (insertFolder rows newItem, newItem)

def remove (rows : Rows) (rootPath relativePath : List Char) : Rows × FavoriteFolder :=
  let (root, rel) := normalizeArgs rootPath relativePath
  let (rows, removed) := removeFolder rows root rel
  (rows, removed.getD ⟨toSlash root, toSlash rel, none⟩)

/-- A trimmed text, if anything is left of it. -/
def nonblank (aliasName : List Char) : Option (List Char) :=
  if trimmed aliasName = [] then none else some (trimmed aliasName)

def setAlias (rows : Rows) (rootPath relativePath aliasName : List Char) : Rows × Bool :=
  let (root, rel) := normalizeArgs rootPath relativePath
  setFolderAlias rows root rel (nonblank aliasName)

def list (rows : Rows) : List FavoriteFolder :=
  rows.rows.map fun f => ⟨toSlash f.rootPath, toSlash f.relativePath, f.aliasName.bind nonblank⟩

def trimEndSlashes (p : List Char) : List Char := p.rdropWhile (· = '/')

def trimStartSlashes (p : List Char) : List Char := p.dropWhile (· = '/')

def fullPathOf (f : FavoriteFolder) : List Char :=
  if f.relativePath = [] then f.rootPath
  else trimEndSlashes f.rootPath ++ '/' :: trimStartSlashes f.relativePath

def splitFullPath (root full : List Char) : List Char × List Char :=
  let root := trimEndSlashes root
  (root, (((trimEndSlashes full).dropPrefix? root).map trimStartSlashes).getD [])

def findByFullPath (rows : Rows) (full : List Char) : Option FavoriteFolder :=
  (list rows).find? fun f => fullPathOf f = trimEndSlashes full

variable {p q root rel full : List Char} {c : Char}

section Slashes

theorem trimEndSlashes_eq (h : p.getLast? ≠ some '/') : trimEndSlashes p = p := by
  rw [trimEndSlashes, List.rdropWhile_eq_self_iff]
  intro hne
  simpa [List.getLast?_eq_some_getLast hne] using h

theorem trimStartSlashes_eq (h : p.head? ≠ some '/') : trimStartSlashes p = p := by
  cases p with
  | nil => rfl
  | cons c p => rw [trimStartSlashes, List.dropWhile_cons_of_neg (by simpa using h)]

theorem head?_trimStartSlashes (p : List Char) : (trimStartSlashes p).head? ≠ some '/' := by
  intro h
  have hnot := List.head?_dropWhile_not (fun c => decide (c = '/')) p
  rw [trimStartSlashes] at h
  rw [h] at hnot
  simp at hnot

theorem getLast?_trimEndSlashes (p : List Char) : (trimEndSlashes p).getLast? ≠ some '/' := by
  intro h
  have hne : trimEndSlashes p ≠ [] := by
    intro hnil
    rw [hnil] at h
    cases h
  have hnot := List.rdropWhile_last_not (fun c => decide (c = '/')) p hne
  rw [List.getLast?_eq_some_getLast hne, Option.some.injEq] at h
  exact hnot (decide_eq_true h)

end Slashes

section CleanPath

/-- Cleaning takes the text between white space, and puts the components after its leading slashes
together again behind at most one slash. -/
theorem cleanPath_cases (p : List Char) :
    cleanPath p = [] ∨ (trimmed p ≠ [] ∧ cleanPath p = ['/']) ∨
      ∃ body, body ≠ [] ∧ body.head? ≠ some '/' ∧
        ((trimmed p = body ∧ cleanPath p = joined (components body)) ∨
          (body.length < (trimmed p).length ∧ cleanPath p = '/' :: joined (components body))) := by
  rw [cleanPath]
  generalize trimmed p = t
  dsimp only
  by_cases ht : t = []
  · rw [if_pos ht]
    exact .inl rfl
  rw [if_neg ht]
  generalize hbody : t.dropWhile (fun c => decide (c = '/')) = body
  have hhead : body.head? ≠ some '/' := by
    rw [← hbody]
    exact head?_trimStartSlashes t
  by_cases hnil : body = []
  · rw [if_pos hnil, if_pos rfl]
    split
    · exact .inr (.inl ⟨ht, rfl⟩)
    · exact .inl rfl
  rw [if_neg hnil, if_neg (components_ne_nil hnil hhead)]
  refine .inr (.inr ⟨body, hnil, hhead, ?_⟩)
  by_cases habs : t.head? = some '/'
  · rw [if_pos (decide_eq_true habs)]
    refine .inr ⟨?_, rfl⟩
    obtain ⟨t, rfl⟩ := List.head?_eq_some_iff.mp habs
    rw [List.dropWhile_cons_of_pos (by simp)] at hbody
    rw [← hbody, List.length_cons]
    have hle := (List.dropWhile_sublist (fun c => decide (c = '/')) (l := t)).length_le
    omega
  · rw [if_neg (by simpa using habs)]
    exact .inl ⟨(trimStartSlashes_eq habs).symm.trans hbody, rfl⟩

/-- What cleaning leaves: nothing, the root directory, or components joined. -/
inductive CleanText : List Char → Prop
  | empty : CleanText []
  | root : CleanText ['/']
  | relative {cs : List (List Char)} (h : Relative cs) (hne : cs ≠ []) : CleanText (joined cs)
  | absolute {cs : List (List Char)} (h : Relative cs) (hne : cs ≠ []) :
    CleanText ('/' :: joined cs)

theorem cleanText_cleanPath (p : List Char) : CleanText (cleanPath p) := by
  rcases cleanPath_cases p with h | ⟨-, h⟩ | ⟨body, hnil, hhead, ⟨-, h⟩ | ⟨-, h⟩⟩
  · rw [h]
    exact .empty
  · rw [h]
    exact .root
  · rw [h]
    exact .relative (relative_components hnil hhead) (components_ne_nil hnil hhead)
  · rw [h]
    exact .absolute (relative_components hnil hhead) (components_ne_nil hnil hhead)

/-- Only the root directory ends in a slash. -/
theorem CleanText.getLast?_ne (h : CleanText p) (hroot : p ≠ ['/']) : p.getLast? ≠ some '/' := by
  cases h with
  | empty => simp
  | root => exact absurd rfl hroot
  | relative hcs hne => exact getLast?_joined_ne hcs
  | absolute hcs hne =>
    rw [List.getLast?_cons_of_ne_nil (joined_ne_nil hcs hne)]
    exact getLast?_joined_ne hcs

end CleanPath

section Split

/-- A root that does not end in a slash, and a relative path with none at either end, come back. -/
theorem splitFullPath_fullPathOf (hroot : root.getLast? ≠ some '/') (hhead : rel.head? ≠ some '/')
    (hlast : rel.getLast? ≠ some '/') (aliasName : Option (List Char)) :
    splitFullPath root (fullPathOf ⟨root, rel, aliasName⟩) = (root, rel) := by
  have hdrop : ∀ s : List Char, (root ++ s).dropPrefix? root = some s :=
    fun s => List.dropPrefix?_append_of_beq s (beq_self_eq_true root)
  rw [splitFullPath, trimEndSlashes_eq hroot]
  by_cases hrel : rel = []
  · have hself : root.dropPrefix? root = some [] := by simpa using hdrop []
    rw [fullPathOf, if_pos hrel, trimEndSlashes_eq hroot, hself, hrel]
    rfl
  · have hfull : (root ++ '/' :: rel).getLast? ≠ some '/' := by
      rwa [List.getLast?_append_of_ne_nil _ (List.cons_ne_nil _ _),
        List.getLast?_cons_of_ne_nil hrel]
    rw [fullPathOf, if_neg hrel, trimEndSlashes_eq hroot, trimStartSlashes_eq hhead,
      trimEndSlashes_eq hfull, hdrop, Option.map_some, Option.getD_some, trimStartSlashes,
      List.dropWhile_cons_of_pos (by simp)]
    exact congrArg _ (trimStartSlashes_eq hhead)

/-- The full path is the root or a path below it. -/
def AtOrBelow (root full : List Char) : Prop := components root <+: components full

/-- The full path goes on inside the last name of the root. -/
def GoesOnInName (root full : List Char) : Prop :=
  root ≠ [] ∧ ¬ ['/', '.'] <:+ trimEndSlashes root ∧
    ∃ c rest, c ≠ '/' ∧ trimEndSlashes full = trimEndSlashes root ++ c :: rest

theorem components_trimEndSlashes (h : trimEndSlashes p ≠ []) :
    components (trimEndSlashes p) = components p :=
  components_rdropWhile h

theorem components_of_slashes (hne : p ≠ []) (h : trimEndSlashes p = []) :
    components p = [['/']] := by
  obtain ⟨c, p, rfl⟩ := List.exists_cons_of_ne_nil hne
  have hall : ∀ d ∈ c :: p, d = '/' := by
    simpa [trimEndSlashes, List.rdropWhile_eq_nil_iff] using h
  obtain rfl := hall c List.mem_cons_self
  rw [components_slash, List.cons_inj_right, named, List.filter_eq_nil_iff]
  intro piece hpiece
  have hnil : piece = [] := by
    refine List.eq_nil_iff_forall_not_mem.mpr fun x hx => ?_
    have hxp : x ∈ p := by
      have hjoin : joined (p.splitOn '/') = p := List.intercalate_splitOn '/'
      by_cases hslash : x = '/'
      · exact absurd (hslash ▸ hx) (Components.not_mem_of_mem_splitOn hpiece)
      · exact hjoin ▸ (mem_joined hslash).mpr ⟨piece, hpiece, hx⟩
    exact Components.not_mem_of_mem_splitOn hpiece (hall x (List.mem_cons_of_mem _ hxp) ▸ hx)
  simp [hnil]

/-- Where the root is a proper prefix of the full path as a text. -/
theorem atOrBelow_iff {rest : List Char}
    (hfull : trimEndSlashes full = trimEndSlashes root ++ c :: rest) :
    AtOrBelow root full ↔ root = [] ∨ c = '/' ∨ ['/', '.'] <:+ trimEndSlashes root := by
  have hne : trimEndSlashes full ≠ [] := by simp [hfull]
  have hcomponents := components_trimEndSlashes hne
  rw [AtOrBelow, ← hcomponents, hfull]
  by_cases hroot : root = []
  · subst hroot
    exact iff_of_true List.nil_prefix (.inl rfl)
  by_cases hnil : trimEndSlashes root = []
  · rw [components_of_slashes hroot hnil, hnil, List.nil_append]
    by_cases hc : c = '/'
    · subst hc
      rw [components_slash]
      simp
    · have hhead : (c :: rest).head? ≠ some '/' := by simpa using hc
      obtain ⟨first, pieces, -, -, hfirst, hcs⟩ := components_of_head (List.cons_ne_nil _ _) hhead
      have hslash : ['/'] ≠ first := by
        rintro rfl
        exact hc (by simpa using hfirst.symm)
      rw [hcs]
      simp [hroot, hc, hslash]
  · rw [← components_trimEndSlashes hnil]
    by_cases hc : c = '/'
    · subst hc
      rw [components_append_slash hnil]
      simp
    by_cases hdot : ['/', '.'] <:+ trimEndSlashes root
    · refine iff_of_true ?_ (.inr (.inr hdot))
      obtain ⟨dir, hdir⟩ := hdot
      obtain ⟨before, hbefore⟩ := exists_components_before dir
      rw [← hdir, List.append_assoc, hbefore]
      have hself : named (['.'].splitOn '/') = [] := by
        rw [List.splitOn_eq_singleton (by simp)]
        simp [named]
      rw [hself, List.append_nil]
      simp only [List.cons_append, List.nil_append]
      rw [hbefore]
      exact List.prefix_append _ _
    · have hnot := not_components_prefix hnil (getLast?_trimEndSlashes root) hdot hc rest
      simp [hroot, hc, hdot, hnot]

theorem splitFullPath_snd_eq_nil_iff (root full : List Char) :
    (splitFullPath root full).2 = [] ↔
      ∀ c rest, trimEndSlashes full ≠ trimEndSlashes root ++ c :: rest := by
  have hlast := getLast?_trimEndSlashes full
  simp only [splitFullPath]
  generalize trimEndSlashes full = full at hlast ⊢
  generalize trimEndSlashes root = root
  by_cases hprefix : root <+: full
  · obtain ⟨rest, rfl⟩ := hprefix
    rw [List.dropPrefix?_append_of_beq rest (beq_self_eq_true root), Option.map_some,
      Option.getD_some]
    cases rest with
    | nil => simp [trimStartSlashes]
    | cons c rest =>
      refine iff_of_false ?_ fun h => h c rest rfl
      intro hnil
      have hall : ∀ d ∈ c :: rest, d = '/' := by simpa [trimStartSlashes] using hnil
      refine hlast ?_
      rw [List.getLast?_append_of_ne_nil _ (List.cons_ne_nil _ _),
        List.getLast?_eq_some_getLast (List.cons_ne_nil _ _), Option.some.injEq]
      exact hall _ (List.getLast_mem _)
  · have hnone : full.dropPrefix? root = none := by
      by_contra hsome
      obtain ⟨rest, hrest⟩ := Option.ne_none_iff_exists'.mp hsome
      obtain ⟨front, hfront, hbeq⟩ := List.dropPrefix?_eq_some_iff.mp hrest
      exact hprefix ⟨rest, by rw [← eq_of_beq hbeq, hfront]⟩
    rw [hnone]
    refine iff_of_true rfl fun c rest h => ?_
    exact hprefix ⟨c :: rest, h.symm⟩

theorem head?_splitFullPath (root full : List Char) :
    (splitFullPath root full).2.head? ≠ some '/' := by
  simp only [splitFullPath]
  generalize (trimEndSlashes full).dropPrefix? (trimEndSlashes root) = rest
  cases rest with
  | none => simp
  | some rest =>
    rw [Option.map_some, Option.getD_some]
    exact head?_trimStartSlashes rest

theorem cleanText_normalizeArgs (rootPath relativePath : List Char) :
    CleanText (normalizeArgs rootPath relativePath).1 ∧
      CleanText (normalizeArgs rootPath relativePath).2 := by
  simp only [normalizeArgs]
  refine ⟨cleanText_cleanPath rootPath, ?_⟩
  split
  · exact .empty
  · exact cleanText_cleanPath relativePath

/-- Joining a cleaned pair and splitting it again loses the root directory and the slash of an
absolute relative path; a sibling that goes on inside the root's last name counts as below it. -/
theorem splits_as_joined_iff (rootPath relativePath : List Char) (aliasName : Option (List Char))
    (root full : List Char) :
    (let (root, rel) := normalizeArgs rootPath relativePath
     splitFullPath root (fullPathOf ⟨root, rel, aliasName⟩) = (root, rel) ↔
       root ≠ ['/'] ∧ rel.head? ≠ some '/') ∧
    ((¬ AtOrBelow root full → (splitFullPath root full).2 = []) ↔ ¬ GoesOnInName root full) := by
  constructor
  · obtain ⟨hrootClean, hrelClean⟩ := cleanText_normalizeArgs rootPath relativePath
    generalize normalizeArgs rootPath relativePath = args at hrootClean hrelClean
    obtain ⟨root, rel⟩ := args
    dsimp only at hrootClean hrelClean ⊢
    constructor
    · intro h
      constructor
      · rintro rfl
        have hnil : ([] : List Char) = ['/'] := congrArg Prod.fst h
        cases hnil
      · have hhead := head?_splitFullPath root (fullPathOf ⟨root, rel, aliasName⟩)
        rwa [h] at hhead
    · rintro ⟨hroot, hhead⟩
      refine splitFullPath_fullPathOf (hrootClean.getLast?_ne hroot) hhead ?_ aliasName
      refine hrelClean.getLast?_ne ?_
      rintro rfl
      exact hhead rfl
  · rw [splitFullPath_snd_eq_nil_iff]
    constructor
    · rintro h ⟨hroot, hdot, c, rest, hc, hfull⟩
      have hbelow : ¬ AtOrBelow root full := by
        rw [atOrBelow_iff hfull]
        simp [hroot, hc, hdot]
      exact h hbelow c rest hfull
    · intro h hbelow c rest hfull
      rw [atOrBelow_iff hfull, not_or, not_or] at hbelow
      exact h ⟨hbelow.1, hbelow.2.2, c, rest, hbelow.2.1, hfull⟩

/-- A directory beside the root is taken for one below it. -/
theorem sibling_below :
    ¬ ∀ root full, ¬ AtOrBelow root full → (splitFullPath root full).2 = [] := by
  intro h
  have hrel := h "/a/b".toList "/a/bc".toList ?_
  · have hsplit : splitFullPath "/a/b".toList "/a/bc".toList = ("/a/b".toList, ['c']) := by
      decide +kernel
    rw [hsplit] at hrel
    cases hrel
  · have hcomponents : components "/a/b".toList = [['/'], ['a'], ['b']] ∧
        components "/a/bc".toList = [['/'], ['a'], ['b', 'c']] := by
      decide +kernel
    rw [AtOrBelow, hcomponents.1, hcomponents.2]
    decide

end Split

end PlainRs.FavoriteFolders
