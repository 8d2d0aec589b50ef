import PlainRs.Base.Along
import PlainRs.Library.FavoriteFolders
import PlainRs.Utils.Trimmed

/-! The pinned folders over runs of calls, and the pairs that a folder is known by. -/
namespace PlainRs.FavoriteFolders

open Keyed PathTexts PlainRs.Utils Runs

variable {p q root rel full rootPath relativePath : List Char} {rows : Rows} {f : FavoriteFolder}
  {c : Char}

section Cleaning

/-- White space at the end, which a second cleaning takes away. -/
def EndsInSpace (p : List Char) : Prop := ∃ c ∈ p.getLast?, Text.isWhitespace c = true

theorem trimmed_eq_of_not_endsInSpace (hhead : ∀ c ∈ p.head?, Text.isWhitespace c = false)
    (hlast : ¬ EndsInSpace p) : trimmed p = p :=
  trimmed_eq_self hhead fun c hc => by
    by_contra h
    exact hlast ⟨c, hc, by simpa using h⟩

theorem not_endsInSpace_trimmed (p : List Char) : ¬ EndsInSpace (trimmed p) := by
  rintro ⟨c, hc, hspace⟩
  rw [getLast?_trimmed hc] at hspace
  cases hspace

theorem length_trimmed_lt (h : EndsInSpace p) : (trimmed p).length < p.length := by
  by_contra hlt
  have heq := (trimmed_sublist p).eq_of_length_le (by omega)
  exact not_endsInSpace_trimmed p (by rwa [heq])

theorem length_cleanPath_le (p : List Char) : (cleanPath p).length ≤ (trimmed p).length := by
  rcases cleanPath_cases p with h | ⟨hne, h⟩ | ⟨body, hnil, hhead, ⟨htrim, h⟩ | ⟨hlt, h⟩⟩
  · rw [h]
    exact Nat.zero_le _
  · rw [h]
    exact List.length_pos_of_ne_nil hne
  · rw [h, htrim]
    exact length_joined_components hnil hhead
  · rw [h, List.length_cons]
    have hle := length_joined_components hnil hhead
    omega

theorem head?_cleanPath (hc : c ∈ (cleanPath p).head?) : Text.isWhitespace c = false := by
  have hslash : Text.isWhitespace '/' = false := by decide
  rcases cleanPath_cases p with h | ⟨hne, h⟩ | ⟨body, hnil, hhead, ⟨htrim, h⟩ | ⟨hlt, h⟩⟩
  · rw [h] at hc
    cases hc
  · rw [h] at hc
    cases hc
    exact hslash
  · obtain ⟨first, rest, -, hfirst, hfront, hcs⟩ := components_of_head hnil hhead
    rw [h, hcs, head?_joined hfirst, hfront, ← htrim] at hc
    exact head?_trimmed hc
  · rw [h] at hc
    cases hc
    exact hslash

theorem CleanText.cleanPath_eq (h : CleanText p)
    (hhead : ∀ c ∈ p.head?, Text.isWhitespace c = false) (hlast : ¬ EndsInSpace p) :
    cleanPath p = p := by
  rw [cleanPath, trimmed_eq_of_not_endsInSpace hhead hlast]
  cases h with
  | empty => rfl
  | root => rfl
  | relative hcs hne =>
    obtain ⟨hslash, hback⟩ := components_joined hcs hne
    have hnil := joined_ne_nil hcs hne
    have hdrop := trimStartSlashes_eq hslash
    rw [trimStartSlashes] at hdrop
    simp only [hdrop, hback, if_neg hnil, if_neg hne, hslash, decide_false, Bool.false_eq_true,
      if_false]
  | absolute hcs hne =>
    obtain ⟨hslash, hback⟩ := components_joined hcs hne
    have hnil := joined_ne_nil hcs hne
    have hdrop := trimStartSlashes_eq hslash
    rw [trimStartSlashes] at hdrop
    dsimp only
    rw [if_neg (List.cons_ne_nil _ _), List.dropWhile_cons_of_pos (by simp), hdrop, if_neg hnil,
      hback, if_neg hne, if_pos (by simp)]

/-- A second cleaning changes a cleaned path exactly if it ends in white space. -/
theorem cleanPath_cleanPath_iff (p : List Char) :
    cleanPath (cleanPath p) = cleanPath p ↔ ¬ EndsInSpace (cleanPath p) := by
  constructor
  · intro h hspace
    have hlt := length_trimmed_lt hspace
    have hle := length_cleanPath_le (cleanPath p)
    rw [h] at hle
    omega
  · intro h
    exact (cleanText_cleanPath p).cleanPath_eq (fun c hc => head?_cleanPath hc) h

theorem normalizeArgs_normalizeArgs_iff (h : normalizeArgs rootPath relativePath = (root, rel)) :
    normalizeArgs root rel = (root, rel) ↔ ¬ EndsInSpace root ∧ ¬ EndsInSpace rel := by
  simp only [normalizeArgs, Prod.mk.injEq] at h ⊢
  obtain ⟨rfl, hrel⟩ := h
  rw [cleanPath_cleanPath_iff]
  refine and_congr_right fun _ => ?_
  have hnil : cleanPath [] = [] := by
    exact CleanText.empty.cleanPath_eq (by simp) (by simp [EndsInSpace])
  by_cases hdot : cleanPath relativePath = ['.']
  · rw [if_pos hdot] at hrel
    subst hrel
    simp [hnil, EndsInSpace]
  · rw [if_neg hdot] at hrel
    subst hrel
    rw [← cleanPath_cleanPath_iff]
    constructor
    · intro h
      by_cases hagain : cleanPath (cleanPath relativePath) = ['.']
      · rw [if_pos hagain] at h
        rw [← h, hnil] at hagain
        cases hagain
      · rwa [if_neg hagain] at h
    · intro h
      rw [if_neg (by rwa [h]), h]

end Cleaning

section Calls

inductive Call
  | add (rootPath relativePath : List Char)
  | remove (rootPath relativePath : List Char)
  | setAlias (rootPath relativePath aliasName : List Char)

def apply (rows : Rows) : Call → Rows
  | .add rootPath relativePath => (add rows rootPath relativePath).1
  | .remove rootPath relativePath => (remove rows rootPath relativePath).1
  | .setAlias rootPath relativePath aliasName => (setAlias rows rootPath relativePath aliasName).1

def favorites : System Rows Call where
  init rows := rows = .empty
  next rows call := some (apply rows call)

/-- Every listed entry goes with its own pair, and is the one that its full path finds. -/
def Identified (rows : Rows) : Prop :=
  ∀ e ∈ list rows, (remove rows e.rootPath e.relativePath).2 = e ∧
    (∀ e' ∈ list (remove rows e.rootPath e.relativePath).1, e'.key ≠ e.key) ∧
    findByFullPath rows (fullPathOf e) = some e

/-- The arguments of an addition reach what it returned. -/
structure Reached (rows : Rows) (rootPath relativePath : List Char) (added : FavoriteFolder) :
    Prop where
  again : (add rows rootPath relativePath).1 = rows
  aliased : ∀ aliasName, (setAlias rows rootPath relativePath aliasName).2 = true ∧
    ⟨added.rootPath, added.relativePath, nonblank aliasName⟩ ∈
      list (setAlias rows rootPath relativePath aliasName).1
  removed : ∀ e ∈ list (remove rows rootPath relativePath).1, e.key ≠ added.key

/-- What is asked of a call, after which the entries are to be known by one identity. -/
def OneIdentity (rows : Rows) (call : Call) : Prop :=
  Identified (apply rows call) ∧
    match call with
    | .add rootPath relativePath =>
      Reached (apply rows call) rootPath relativePath (add rows rootPath relativePath).2
    | _ => True

/-- A pair that stays itself where it is stored, looked up and joined. -/
structure Plain (root rel : List Char) : Prop where
  backslash : '\\' ∉ root ∧ '\\' ∉ rel
  space : ¬ EndsInSpace root ∧ ¬ EndsInSpace rel
  slash : rel ≠ ['/'] ∧ (rel = [] → root ≠ ['/'])

/-- An added pair is plain, and no other row has the full path that it has. -/
def Fits (rows : Rows) : Call → Prop
  | .add rootPath relativePath =>
    let (root, rel) := normalizeArgs rootPath relativePath
    Plain root rel ∧
      ∀ row ∈ rows.rows, row.key ≠ (root, rel) → fullPathOf row ≠ fullPathOf ⟨root, rel, none⟩
  | _ => True

end Calls

section Rows

/-- A row as plain arguments leave it. -/
structure Stored (row : FavoriteFolder) : Prop where
  normal : normalizeArgs row.rootPath row.relativePath = row.key
  backslash : '\\' ∉ row.rootPath ∧ '\\' ∉ row.relativePath
  slash : (fullPathOf row).getLast? ≠ some '/'
  aliasName : row.aliasName.bind nonblank = row.aliasName

/-- Rows that are each stored as plain arguments leave them, no two of one full path. -/
structure Kept (rows : Rows) : Prop where
  stored : ∀ row ∈ rows.rows, Stored row
  paths : (rows.rows.map fullPathOf).Nodup

theorem toSlash_eq_self_iff : toSlash p = p ↔ '\\' ∉ p := by
  induction p with
  | nil => simp [toSlash]
  | cons d p ih =>
    rw [toSlash] at ih ⊢
    rw [List.map_cons, List.cons.injEq, ih]
    by_cases hd : d = '\\'
    · subst hd
      simp
    · simp [hd, Ne.symm hd]

theorem nonblank_nonblank (aliasName : List Char) :
    (nonblank aliasName).bind nonblank = nonblank aliasName := by
  rw [nonblank]
  by_cases hnil : trimmed aliasName = []
  · rw [if_pos hnil]
    rfl
  · rw [if_neg hnil, Option.bind_some, nonblank, trimmed_trimmed, if_neg hnil]

theorem Kept.list_eq (h : Kept rows) : list rows = rows.rows := by
  rw [list]
  refine (List.map_congr_left fun row hrow => ?_).trans (List.map_id _)
  have hs := h.stored row hrow
  rw [toSlash_eq_self_iff.mpr hs.backslash.1, toSlash_eq_self_iff.mpr hs.backslash.2, hs.aliasName]
  rfl

theorem Kept.erase (h : Kept rows) (k : List Char × List Char) : Kept (rows.erase k) :=
  ⟨fun row hrow => h.stored row (List.mem_of_mem_filter hrow),
    (List.filter_sublist.map fullPathOf).nodup h.paths⟩

theorem remove_eq (h : normalizeArgs rootPath relativePath = (root, rel)) (rows : Rows) :
    remove rows rootPath relativePath = (rows.erase (root, rel),
      (folderByPaths rows root rel).getD ⟨toSlash root, toSlash rel, none⟩) := by
  rw [remove, h]
  rfl

theorem Kept.identified (h : Kept rows) : Identified rows := by
  intro e he
  rw [h.list_eq] at he
  have hs := h.stored e he
  have hfind : folderByPaths rows e.rootPath e.relativePath = some e :=
    Table.find?_eq_some.mpr ⟨he, rfl⟩
  rw [remove_eq hs.normal, hfind]
  refine ⟨rfl, ?_, ?_⟩
  · intro e' he'
    rw [(h.erase _).list_eq] at he'
    exact of_decide_eq_true (List.mem_filter.mp he').2
  · rw [findByFullPath, h.list_eq, trimEndSlashes_eq hs.slash]
    exact (Table.find?_eq_some (T := ⟨rows.rows, h.paths⟩)).mpr ⟨he, rfl⟩

/-- Only the root directory and a relative path of one slash are joined to a text that ends in a
slash. -/
theorem getLast?_fullPathOf_iff (hroot : CleanText root) (hrel : CleanText rel)
    (aliasName : Option (List Char)) :
    (fullPathOf ⟨root, rel, aliasName⟩).getLast? ≠ some '/' ↔
      rel ≠ ['/'] ∧ (rel = [] → root ≠ ['/']) := by
  by_cases hnil : rel = []
  · subst hnil
    rw [fullPathOf, if_pos rfl]
    constructor
    · intro h
      refine ⟨(List.cons_ne_nil _ _).symm, ?_⟩
      rintro - rfl
      exact h rfl
    · rintro ⟨-, h⟩
      exact hroot.getLast?_ne (h rfl)
  rw [fullPathOf, if_neg hnil, List.getLast?_append_of_ne_nil _ (List.cons_ne_nil _ _)]
  by_cases hslash : rel = ['/']
  · subst hslash
    refine iff_of_false (fun h => h ?_) fun h => h.1 rfl
    simp [trimStartSlashes]
  refine iff_of_true ?_ ⟨hslash, fun h => absurd h hnil⟩
  have hlast := hrel.getLast?_ne hslash
  obtain ⟨front, hfront⟩ := List.dropWhile_suffix (fun c => decide (c = '/')) (l := rel)
  have hne : trimStartSlashes rel ≠ [] := by
    intro h
    have hall : ∀ d ∈ rel, d = '/' := by simpa [trimStartSlashes] using h
    rw [List.getLast?_eq_some_getLast hnil] at hlast
    exact hlast (congrArg some (hall _ (List.getLast_mem hnil)))
  rw [List.getLast?_cons_of_ne_nil hne, trimStartSlashes]
  rw [trimStartSlashes] at hne
  rwa [← hfront, List.getLast?_append_of_ne_nil _ hne] at hlast

end Rows

section Step

variable {row added : FavoriteFolder} {call : Call}

theorem add_cases (h : normalizeArgs rootPath relativePath = (root, rel)) (rows : Rows) :
    (∃ existing, folderByPaths rows root rel = some existing ∧
      add rows rootPath relativePath = (rows, existing)) ∨
    (folderByPaths rows root rel = none ∧
      add rows rootPath relativePath =
        (rows.insert ⟨toSlash root, toSlash rel, none⟩, ⟨toSlash root, toSlash rel, none⟩)) := by
  rw [add, h]
  cases hfind : folderByPaths rows root rel with
  | none =>
    simp only [hfind]
    exact .inr ⟨trivial, rfl⟩
  | some existing =>
    simp only [hfind]
    exact .inl ⟨existing, rfl, rfl⟩

theorem setAlias_eq (h : normalizeArgs rootPath relativePath = (root, rel)) (rows : Rows)
    (aliasName : List Char) :
    setAlias rows rootPath relativePath aliasName =
      setFolderAlias rows root rel (nonblank aliasName) := by
  rw [setAlias, h]

theorem fullPathOf_withAlias (row : FavoriteFolder) (aliasName : Option (List Char)) :
    fullPathOf { row with aliasName } = fullPathOf row := by
  rw [fullPathOf, fullPathOf]

theorem Stored.withAlias {aliasName : Option (List Char)} (h : Stored row)
    (halias : aliasName.bind nonblank = aliasName) : Stored { row with aliasName } where
  normal := h.normal
  backslash := h.backslash
  slash := by
    rw [fullPathOf_withAlias]
    exact h.slash
  aliasName := halias

theorem Kept.withAlias (h : Kept rows) (root rel aliasName : List Char) :
    Kept (setFolderAlias rows root rel (nonblank aliasName)).1 := by
  constructor
  · intro row hrow
    obtain ⟨row, hmem, rfl⟩ := List.mem_map.mp hrow
    split
    · exact (h.stored row hmem).withAlias (nonblank_nonblank aliasName)
    · exact h.stored row hmem
  · have hpaths : (setFolderAlias rows root rel (nonblank aliasName)).1.rows.map fullPathOf =
        rows.rows.map fullPathOf := by
      refine List.map_map.trans (List.map_congr_left fun row _ => ?_)
      rw [Function.comp_apply]
      split
      · exact fullPathOf_withAlias row _
      · rfl
    rw [hpaths]
    exact h.paths

/-- A row that the arguments name is reached by them in every way. -/
theorem Kept.reached (h : Kept rows) (hargs : normalizeArgs rootPath relativePath = (root, rel))
    (hfind : folderByPaths rows root rel = some row) (hadded : added.key = (root, rel)) :
    Reached rows rootPath relativePath added := by
  obtain ⟨hrow, hkey⟩ := Table.find?_eq_some.mp hfind
  constructor
  · rcases add_cases hargs rows with ⟨existing, -, hadd⟩ | ⟨hnone, -⟩
    · rw [hadd]
    · rw [hfind] at hnone
      cases hnone
  · intro aliasName
    rw [setAlias_eq hargs, (h.withAlias root rel aliasName).list_eq]
    refine ⟨by simp [setFolderAlias, hfind], ?_⟩
    refine List.mem_map.mpr ⟨row, hrow, ?_⟩
    rw [if_pos hkey]
    cases row
    cases added
    cases hkey
    cases hadded
    rfl
  · intro e he
    rw [remove_eq hargs, (h.erase _).list_eq] at he
    rw [hadded]
    exact of_decide_eq_true (List.mem_filter.mp he).2

theorem rows_insert (h : rows.find? row.key = none) :
    (rows.insert row).rows = rows.rows ++ [row] := by
  simp [Table.insert, h]

/-- A plain pair is stored as it is. -/
theorem Plain.stored (h : Plain root rel)
    (hargs : normalizeArgs rootPath relativePath = (root, rel)) : Stored ⟨root, rel, none⟩ := by
  have hclean := cleanText_normalizeArgs rootPath relativePath
  rw [hargs] at hclean
  exact ⟨(normalizeArgs_normalizeArgs_iff hargs).mpr h.space, h.backslash,
    (getLast?_fullPathOf_iff hclean.1 hclean.2 none).mpr h.slash, rfl⟩

/-- An addition that fits keeps the rows, and its arguments reach what it returned. -/
theorem Kept.add_of_fits (h : Kept rows) (hfits : Fits rows (.add rootPath relativePath)) :
    Kept (add rows rootPath relativePath).1 ∧
      Reached (add rows rootPath relativePath).1 rootPath relativePath
        (add rows rootPath relativePath).2 := by
  obtain ⟨⟨root, rel⟩, hargs⟩ : ∃ args, normalizeArgs rootPath relativePath = args := ⟨_, rfl⟩
  simp only [Fits, hargs] at hfits
  obtain ⟨hplain, hothers⟩ := hfits
  rcases add_cases hargs rows with ⟨existing, hfind, hadd⟩ | ⟨hnone, hadd⟩
  · rw [hadd]
    exact ⟨h, h.reached hargs hfind (Table.find?_eq_some.mp hfind).2⟩
  · rw [toSlash_eq_self_iff.mpr hplain.backslash.1,
      toSlash_eq_self_iff.mpr hplain.backslash.2] at hadd
    rw [hadd]
    have hnew : (rows.insert ⟨root, rel, none⟩).rows = rows.rows ++ [⟨root, rel, none⟩] :=
      rows_insert hnone
    have hkept : Kept (rows.insert ⟨root, rel, none⟩) := by
      constructor
      · intro row hrow
        rw [hnew] at hrow
        rcases List.mem_append.mp hrow with hrow | hrow
        · exact h.stored row hrow
        · rw [List.mem_singleton.mp hrow]
          exact hplain.stored hargs
      · rw [hnew, List.map_append, List.nodup_append]
        refine ⟨h.paths, List.nodup_singleton _, ?_⟩
        intro path hpath path' hpath' heq
        obtain ⟨row, hrow, rfl⟩ := List.mem_map.mp hpath
        rw [List.map_singleton, List.mem_singleton] at hpath'
        have hkey : row.key ≠ (root, rel) := by
          intro hkey
          exact Table.find?_eq_none.mp hnone (List.mem_map.mpr ⟨row, hrow, hkey⟩)
        exact hothers row hrow hkey (heq.trans hpath')
    have hfind : folderByPaths (rows.insert ⟨root, rel, none⟩) root rel =
        some ⟨root, rel, none⟩ := by
      have hfree : rows.find? (FavoriteFolder.mk root rel none).key = none := hnone
      rw [folderByPaths, Table.find?_insert_of_none hfree]
      exact if_pos rfl
    exact ⟨hkept, hkept.reached hargs hfind rfl⟩

theorem mem_list (hrow : row ∈ rows.rows) (hback : '\\' ∉ row.rootPath ∧ '\\' ∉ row.relativePath)
    (halias : row.aliasName.bind nonblank = row.aliasName) : row ∈ list rows := by
  refine List.mem_map.mpr ⟨row, hrow, ?_⟩
  rw [toSlash_eq_self_iff.mpr hback.1, toSlash_eq_self_iff.mpr hback.2, halias]

/-- Two listed entries of one full path are one entry. -/
theorem Identified.eq_of_fullPathOf (h : Identified rows) (hrow : row ∈ list rows)
    (hadded : added ∈ list rows) (hpath : fullPathOf row = fullPathOf added) : row = added := by
  have hfound := (h row hrow).2.2
  rw [hpath, (h added hadded).2.2] at hfound
  exact (Option.some.inj hfound).symm

/-- A listed row's own pair is not changed by cleaning, and its full path ends in no slash. -/
theorem Identified.fixed (h : Identified rows) (hmem : row ∈ rows.rows) (hrow : row ∈ list rows)
    (hback : '\\' ∉ row.rootPath ∧ '\\' ∉ row.relativePath)
    (halias : row.aliasName.bind nonblank = row.aliasName) :
    normalizeArgs row.rootPath row.relativePath = row.key ∧
      (fullPathOf row).getLast? ≠ some '/' := by
  obtain ⟨-, hgone, hfound⟩ := h row hrow
  constructor
  · by_contra hne
    rw [remove_eq rfl] at hgone
    refine hgone row (mem_list (List.mem_filter.mpr ⟨hmem, ?_⟩) hback halias) rfl
    exact decide_eq_true (Ne.symm hne)
  · have hpath := List.find?_some hfound
    rw [of_decide_eq_true hpath]
    exact getLast?_trimEndSlashes _

/-- After an addition the old rows are still there, and the row of its pair has no backslash. -/
theorem Kept.mem_add (h : Kept rows) (hargs : normalizeArgs rootPath relativePath = (root, rel))
    (hmem : row ∈ (add rows rootPath relativePath).1.rows) (hkey : row.key = (root, rel)) :
    (∀ old ∈ rows.rows, old ∈ (add rows rootPath relativePath).1.rows) ∧
      ('\\' ∉ row.rootPath ∧ '\\' ∉ row.relativePath) ∧
      row.aliasName.bind nonblank = row.aliasName := by
  rcases add_cases hargs rows with ⟨existing, -, hadd⟩ | ⟨hnone, hadd⟩
  · rw [hadd] at hmem ⊢
    exact ⟨fun _ => id, (h.stored row hmem).backslash, (h.stored row hmem).aliasName⟩
  rw [hadd] at hmem ⊢
  by_cases hnew : rows.find? (toSlash root, toSlash rel) = none
  · have hrows : (rows.insert ⟨toSlash root, toSlash rel, none⟩).rows =
        rows.rows ++ [⟨toSlash root, toSlash rel, none⟩] := rows_insert hnew
    rw [hrows] at hmem ⊢
    refine ⟨fun old hold => List.mem_append_left _ hold, ?_⟩
    rcases List.mem_append.mp hmem with hmem | hmem
    · exact ⟨(h.stored row hmem).backslash, (h.stored row hmem).aliasName⟩
    · rw [List.mem_singleton] at hmem
      subst hmem
      obtain ⟨hroot, hrel⟩ : toSlash root = root ∧ toSlash rel = rel := Prod.mk.inj hkey
      have hback := And.intro (toSlash_eq_self_iff.mp hroot) (toSlash_eq_self_iff.mp hrel)
      dsimp only
      rw [hroot, hrel]
      exact ⟨hback, rfl⟩
  · obtain ⟨old, hold⟩ := Option.ne_none_iff_exists'.mp hnew
    have htaken : rows.find? (FavoriteFolder.mk (toSlash root) (toSlash rel) none).key = some old :=
      hold
    dsimp only at hmem ⊢
    rw [Table.insert_of_some htaken] at hmem ⊢
    exact ⟨fun _ => id, (h.stored row hmem).backslash, (h.stored row hmem).aliasName⟩

/-- An addition after which the entries have one identity fits. -/
theorem Kept.fits_of_oneIdentity (h : Kept rows)
    (hone : OneIdentity rows (.add rootPath relativePath)) :
    Fits rows (.add rootPath relativePath) := by
  obtain ⟨hid, hreach⟩ := hone
  obtain ⟨⟨root, rel⟩, hargs⟩ : ∃ args, normalizeArgs rootPath relativePath = args := ⟨_, rfl⟩
  have hset := (hreach.aliased []).1
  rw [setAlias_eq hargs] at hset
  obtain ⟨row, hfind⟩ := Option.isSome_iff_exists.mp hset
  obtain ⟨hmem, hkey⟩ := Table.find?_eq_some.mp hfind
  obtain ⟨hold, hback, halias⟩ := h.mem_add hargs hmem hkey
  have hlisted := mem_list hmem hback halias
  obtain ⟨hnormal, hslash⟩ := hid.fixed hmem hlisted hback halias
  obtain ⟨rootPath', relativePath', aliasName⟩ := row
  cases hkey
  have hclean := cleanText_normalizeArgs rootPath relativePath
  rw [hargs] at hclean
  simp only [Fits, hargs]
  refine ⟨⟨hback, (normalizeArgs_normalizeArgs_iff hargs).mp hnormal,
    (getLast?_fullPathOf_iff hclean.1 hclean.2 aliasName).mp hslash⟩, ?_⟩
  intro other hother hne hpath
  have hs := h.stored other hother
  refine hne (congrArg FavoriteFolder.key (hid.eq_of_fullPathOf
    (mem_list (hold other hother) hs.backslash hs.aliasName) hlisted (hpath.trans ?_)))
  rw [fullPathOf, fullPathOf]

/-- A call leaves the entries with one identity exactly if it fits, and then keeps the rows. -/
theorem Kept.oneIdentity_iff (h : Kept rows) (call : Call) :
    (OneIdentity rows call ↔ Fits rows call) ∧
      (OneIdentity rows call → Kept (apply rows call)) := by
  cases call with
  | add rootPath relativePath =>
    refine ⟨⟨h.fits_of_oneIdentity, fun hfits => ?_⟩, fun hone => ?_⟩
    · obtain ⟨hkept, hreach⟩ := h.add_of_fits hfits
      exact ⟨hkept.identified, hreach⟩
    · exact (h.add_of_fits (h.fits_of_oneIdentity hone)).1
  | remove rootPath relativePath =>
    have hkept : Kept (remove rows rootPath relativePath).1 := by
      rw [remove_eq rfl]
      exact h.erase _
    exact ⟨iff_of_true ⟨hkept.identified, trivial⟩ trivial, fun _ => hkept⟩
  | setAlias rootPath relativePath aliasName =>
    have hkept : Kept (setAlias rows rootPath relativePath aliasName).1 := by
      rw [setAlias_eq rfl]
      exact h.withAlias _ _ aliasName
    exact ⟨iff_of_true ⟨hkept.identified, trivial⟩ trivial, fun _ => hkept⟩

end Step

/-- Over a run of calls the entries have one identity just when each addition fits. -/
theorem one_identity_iff (calls : List Call) :
    favorites.StepsAlong OneIdentity .empty calls ↔ favorites.StepsAlong Fits .empty calls := by
  have hempty : Kept .empty := ⟨by simp [Table.empty], List.nodup_nil⟩
  refine System.stepsAlong_iff (I := Kept) hempty ?_
  rintro rows call _ hkept ⟨⟩
  exact hkept.oneIdentity_iff call

/-- A pair with a backslash is stored under slashes, where its own arguments do not find it. -/
theorem backslash_lost : ¬ ∀ calls, favorites.StepsAlong OneIdentity .empty calls := by
  intro h
  obtain ⟨⟨-, hreach⟩, -⟩ := h [.add "a\\b".toList "".toList] _ rfl
  have hset := (hreach.aliased []).1
  have hmissed : (setAlias (apply .empty (.add "a\\b".toList "".toList)) "a\\b".toList "".toList
      []).2 = false := by
    decide +kernel
  rw [hmissed] at hset
  cases hset

end PlainRs.FavoriteFolders
