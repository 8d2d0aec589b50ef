import PlainRs.Base.Slices
import PlainRs.Chat.Chats
import PlainRs.LocalApi.FileUpload.Staging

/-! Where the URIs of app files lead. -/
namespace PlainRs.Chat

open Checked Components FileUpload Utils

/-- `relative_dest_path`; it slices bytes. -/
def relativeDest (hash ext : String) : Checked String :=
  if hash.utf8ByteSize < 4 then pure s!"files/{canonicalName hash ext}"
  else do
    let aa ← Text.cut hash.toList 0 2
    let bb ← Text.cut hash.toList 2 4
    pure s!"files/{String.ofList aa}/{String.ofList bb}/{canonicalName hash ext}"

def destPath (data : DataDir) (hash ext : String) : Checked (List Component) := do
  let rel ← relativeDest hash ext
  pure (join data.dirs rel)

/-- The hash and the extension of a `fid:`. -/
def splitFid (suffix : String) : String × String :=
  match splitOnce '.' suffix.toList with
  | some (hash, ext) => (String.ofList hash, String.ofList ext)
  | none => (suffix, "")

def resolveUri (data : DataDir) (uri : String) : Checked (List Component) :=
  match stripPrefix "fid:" uri with
  | some suffix => destPath data (splitFid suffix).1 (splitFid suffix).2
  | none => pure (join data.dirs ((stripPrefix "app://" uri).getD uri))

/-- `Path::file_name`. -/
def fileNameOf (path : List Component) : Option String :=
  match path.getLast? with
  | some (.normal name) => some name
  | _ => none

/-- A path that is made of a hash, which has no dot in it, and an extension. -/
def Canonical (data : DataDir) (path : List Component) : Prop :=
  ∃ hash ext, '.' ∉ hash.toList ∧ Plain (canonicalName hash ext) ∧ destPath data hash ext = .ok path

variable {data : DataDir} {hash ext name suffix : String} {path : List Component}

theorem resolveUri_fid : resolveUri data ("fid:" ++ suffix) =
    destPath data (splitFid suffix).1 (splitFid suffix).2 := by
  have hstrip : stripPrefix "fid:" ("fid:" ++ suffix) = some suffix := by
    have hlen : "fid:".length = "fid:".toList.length := rfl
    rw [stripPrefix, String.toList_append, if_pos (List.prefix_append _ _), hlen,
      List.drop_left, String.ofList_toList]
  rw [resolveUri, hstrip]

theorem toList_canonicalName (he : ext ≠ "") :
    (canonicalName hash ext).toList = hash.toList ++ '.' :: ext.toList := by
  have hstr : ∀ s : String, toString s = s := fun _ => rfl
  rw [canonicalName, if_neg he]
  simp [String.toList_append, hstr]

theorem splitFid_canonicalName (h : '.' ∉ hash.toList) :
    splitFid (canonicalName hash ext) = (hash, ext) := by
  have hall : ∀ c ∈ hash.toList, decide (c ≠ '.') = true := by
    intro c hc
    rw [decide_eq_true_eq]
    rintro rfl
    exact h hc
  by_cases he : ext = ""
  · subst he
    have hdrop : hash.toList.dropWhile (fun c => decide (c ≠ '.')) = [] :=
      List.dropWhile_eq_nil_iff.mpr hall
    rw [canonicalName, if_pos rfl, splitFid, splitOnce, hdrop]
  · have htake : (hash.toList ++ '.' :: ext.toList).takeWhile (fun c => decide (c ≠ '.')) =
        hash.toList ++ ('.' :: ext.toList).takeWhile (fun c => decide (c ≠ '.')) :=
      List.takeWhile_append_of_pos hall
    have hdrop : (hash.toList ++ '.' :: ext.toList).dropWhile (fun c => decide (c ≠ '.')) =
        ('.' :: ext.toList).dropWhile (fun c => decide (c ≠ '.')) :=
      List.dropWhile_append_of_pos hall
    rw [splitFid, splitOnce, toList_canonicalName he, hdrop, htake]
    simp

/-- What a suffix is split into has no dot in the hash, and is put together again. -/
theorem splitFid_spec (hp : Plain suffix) : '.' ∉ (splitFid suffix).1.toList ∧
    Plain (canonicalName (splitFid suffix).1 (splitFid suffix).2) := by
  have happend := List.takeWhile_append_dropWhile (p := fun c => decide (c ≠ '.'))
    (l := suffix.toList)
  have hdot : '.' ∉ suffix.toList.takeWhile fun c => decide (c ≠ '.') := by
    intro hc
    simpa using List.mem_takeWhile_imp hc
  unfold splitFid splitOnce
  cases hd : suffix.toList.dropWhile fun c => decide (c ≠ '.') with
  | nil =>
    rw [hd, List.append_nil] at happend
    rw [happend] at hdot
    exact ⟨hdot, by simpa [canonicalName] using hp⟩
  | cons c ext =>
    have hc : c = '.' := by
      have hhead := List.head?_dropWhile_not (fun c => decide (c ≠ '.')) suffix.toList
      rw [hd] at hhead
      simpa using hhead
    rw [hd, hc] at happend
    dsimp only
    rw [String.toList_ofList]
    refine ⟨hdot, ?_⟩
    by_cases he : ext = []
    · -- a name that ends in its only dot
      subst he
      have hname : canonicalName (String.ofList (suffix.toList.takeWhile fun c => decide (c ≠ '.')))
          (String.ofList []) = String.ofList (suffix.toList.takeWhile fun c => decide (c ≠ '.')) :=
        if_pos rfl
      have heq : ∀ cs : List Char, String.ofList (suffix.toList.takeWhile fun c => decide (c ≠ '.')) =
          String.ofList cs → (suffix.toList.takeWhile fun c => decide (c ≠ '.')) = cs :=
        fun cs h => String.ofList_injective h
      rw [hname]
      refine ⟨fun h => ?_, fun h => ?_, fun h => ?_, fun h => ?_⟩
      · rw [heq [] h] at happend
        exact hp.2.1 (String.toList_inj.mp happend.symm)
      · exact hdot (heq ['.'] h ▸ List.mem_singleton_self _)
      · exact hdot (heq ['.', '.'] h ▸ List.mem_cons_self)
      · rw [String.toList_ofList] at h
        exact hp.2.2.2 (happend ▸ List.mem_append_left _ h)
    · have hname : canonicalName (String.ofList (suffix.toList.takeWhile fun c => decide (c ≠ '.')))
          (String.ofList ext) = suffix := by
        have hne : String.ofList ext ≠ "" := fun h => he (String.ofList_injective h)
        rw [← String.toList_inj, toList_canonicalName hne, String.toList_ofList,
          String.toList_ofList, happend]
      rw [hname]
      exact hp

theorem components_slash (a b : String) :
    components (a ++ "/" ++ b) = components a ++ components b := by
  have htext : (a ++ "/" ++ b).toList = a.toList ++ '/' :: b.toList := by
    simp [String.toList_append]
  have hsplit : (a.toList ++ '/' :: b.toList).splitOn '/' =
      a.toList.splitOn '/' ++ b.toList.splitOn '/' := by
    simp only [List.splitOn_eq_splitOnP]
    exact List.splitOnP_append_cons _ _ BEq.rfl
  rw [components, htext, hsplit, List.filterMap_append]
  rfl

/-- The last part of a canonical path is its name. -/
theorem destPath_end (h : destPath data hash ext = .ok path) :
    ∃ front, path = front ++ components (canonicalName hash ext) := by
  obtain ⟨rel, hrel, hpath⟩ := bind_eq_ok.mp h
  obtain rfl : join data.dirs rel = path := Except.ok.inj hpath
  obtain ⟨dir, hdir, rfl⟩ : ∃ dir, dir.toList.head? = some 'f' ∧
      rel = dir ++ "/" ++ canonicalName hash ext := by
    have hstr : ∀ s : String, toString s = s := fun _ => rfl
    unfold relativeDest at hrel
    split at hrel
    · obtain rfl := Except.ok.inj hrel
      refine ⟨"files", rfl, ?_⟩
      rw [← String.toList_inj]
      simp [String.toList_append, hstr]
    · obtain ⟨aa, -, hrel⟩ := bind_eq_ok.mp hrel
      obtain ⟨bb, -, hrel⟩ := bind_eq_ok.mp hrel
      obtain rfl := Except.ok.inj hrel
      refine ⟨"files/" ++ String.ofList aa ++ "/" ++ String.ofList bb, ?_, ?_⟩
      · simp [String.toList_append]
      · rw [← String.toList_inj]
        simp [String.toList_append, hstr]
  have hhead : (dir ++ "/" ++ canonicalName hash ext).toList.head? ≠ some '/' := by
    rw [String.append_assoc, String.toList_append, List.head?_append, hdir, Option.some_or]
    decide
  rw [join, if_neg hhead, components_slash, ← List.append_assoc]
  exact ⟨_, rfl⟩

theorem fileNameOf_dest (h : destPath data hash ext = .ok path)
    (hp : Plain (canonicalName hash ext)) : fileNameOf path = some (canonicalName hash ext) := by
  obtain ⟨front, rfl⟩ := destPath_end h
  rw [components_plain hp, fileNameOf, List.getLast?_append]
  rfl

/-- The URI of a path's own name leads back to the path just when the path is canonical. -/
theorem leadsBack_iff (hhash : Plain hash) (hpath : ∀ name, .normal name ∈ path → Plain name) :
    resolveUri data ("fid:" ++ (fileNameOf path).getD hash) = .ok path ↔ Canonical data path := by
  rw [resolveUri_fid]
  constructor
  · intro h
    have hp : Plain ((fileNameOf path).getD hash) := by
      unfold fileNameOf
      split
      · next name hlast => exact hpath name (List.mem_of_getLast? hlast)
      · exact hhash
    obtain ⟨hdot, hname⟩ := splitFid_spec hp
    exact ⟨_, _, hdot, hname, h⟩
  · rintro ⟨h, e, hdot, hname, hd⟩
    rw [fileNameOf_dest hd hname, Option.getD_some, splitFid_canonicalName hdot]
    exact hd

end PlainRs.Chat
