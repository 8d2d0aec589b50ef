import PlainRs.LocalApi.FileUpload.MergeFrame

/-! What a merge that succeeds leaves, and what no merge writes to. -/
namespace PlainRs.FileUpload

open Chat Keyed Utils

/-- A regular file is one that was there before, or it is at one of the paths. -/
def WritesOnly (written : FilePath → Prop) (fs fs' : FileTree) : Prop :=
  ∀ path content, fs' path = some (.file content) → fs path = some (.file content) ∨ written path

section

variable {written : FilePath → Prop} {fs fs' fs'' : FileTree} {faults : Faults}
  {src dst path : FilePath} {content : Content}

theorem WritesOnly.refl : WritesOnly written fs fs := fun _ _ h => .inl h

theorem WritesOnly.trans (h : WritesOnly written fs fs') (h' : WritesOnly written fs' fs'') :
    WritesOnly written fs fs'' := by
  intro path content hp
  rcases h' path content hp with hp | hp
  · exact h path content hp
  · exact .inr hp

theorem writesOnly_put (h : written path) : WritesOnly written fs (fs.put path content) := by
  intro q c hq
  by_cases hqp : q = path
  · exact .inr (hqp ▸ h)
  · rw [FileTree.put, Function.update_of_ne hqp] at hq
    exact .inl hq

theorem writesOnly_removeFile : WritesOnly written fs (fs.removeFile path) := by
  intro q c hq
  by_cases hqp : q = path
  · simp [FileTree.removeFile, hqp] at hq
  · rw [FileTree.removeFile, Function.update_of_ne hqp] at hq
    exact .inl hq

theorem writesOnly_createDirAll (dir : List String) :
    WritesOnly written fs (fs.createDirAll dir) := by
  intro q c hq
  unfold FileTree.createDirAll at hq
  split at hq
  · cases hq
  · exact .inl hq

theorem writesOnly_removeDir (dir : List String) :
    WritesOnly written fs (faults.removeDir fs dir) := by
  intro q c hq
  unfold Faults.removeDir FileTree.removeDirAll at hq
  split at hq
  · exact .inl hq
  · split at hq
    · cases hq
    · exact .inl hq

end

section

variable {staging : String → List String} {processId : Nat} {inDataDir : String → FilePath}
  {sha : Sha} {fs : FileTree} {T : AppFileTable} {faults : Faults} {call : MergeRequest}
  {path : FilePath} {content : Content} {value : String} {size : Nat}

/-- A merge writes only to its temp file and to where it may be saved. -/
theorem performMerge_writesOnly :
    WritesOnly (fun path => path = tempMerge staging processId call.fileId ∨
        SavePath staging inDataDir sha fs T call path)
      fs (performMerge staging processId inDataDir sha fs T faults call).1 := by
  have hframe : MergeFrame (WritesOnly fun path => path = tempMerge staging processId call.fileId ∨
      SavePath staging inDataDir sha fs T call path) faults (tempMerge staging processId call.fileId)
      (staging call.fileId) (SavePath staging inDataDir sha fs T call) := {
    refl := fun _ => .refl
    trans := .trans
    put := fun _ h => writesOnly_put h
    removeFile := fun _ => writesOnly_removeFile
    createDirAll := fun _ => writesOnly_createDirAll _
    removeDir := fun _ => writesOnly_removeDir _ }
  exact frame_performMerge hframe

theorem copy_ok {src dst : FilePath} {fault : Option IoError} {left : Option Nat}
    {merged : Content} (he : (fs.copy src dst fault left).2 = none)
    (hs : fs src = some (.file merged)) (hne : dst ≠ src) :
    (fs.copy src dst fault left).1 = fs.put dst merged := by
  have hc := content?_eq.mpr hs
  unfold FileTree.copy at he ⊢
  rcases hd : fs dst with _ | c | _
  · cases fault <;> simp [hc, hd, Ne.symm hne] at he ⊢
  · cases fault <;> simp [hc, hd, Ne.symm hne] at he ⊢
  · simp [hc, hd] at he

theorem rename_ok {src dst : FilePath} {fault : Option IoError} {fs' : FileTree}
    {merged : Content} (he : fs.rename src dst fault = .ok fs')
    (hs : fs src = some (.file merged)) : fs' = (fs.removeFile src).put dst merged := by
  have hc := content?_eq.mpr hs
  unfold FileTree.rename at he
  cases fault with
  | some e => simp at he
  | none =>
    rcases hd : fs dst with _ | c | _
    · simpa [hc, hd, eq_comm] using he
    · simpa [hc, hd, eq_comm] using he
    · simp [hc, hd] at he

theorem put_self : fs.put path content path = some (.file content) := Function.update_self _ _ _

/-- What is saved is at the final path, and its name is answered. -/
theorem renameOrCopy_ok {temp final : FilePath} {name : String} {merged : Content}
    (he : (renameOrCopy fs faults temp final).2 = .ok name) (ht : fs temp = some (.file merged))
    (hne : final ≠ temp) : name = final.2 ∧
      (renameOrCopy fs faults temp final).1 final = some (.file merged) := by
  unfold renameOrCopy at he ⊢
  cases hr : fs.rename temp final (faults.error .rename) with
  | ok fs' =>
    simp only [hr, Except.ok.injEq] at he ⊢
    rw [rename_ok hr ht]
    exact ⟨he.symm, put_self⟩
  | error e =>
    rcases hc : fs.copy temp final (faults.error .copy) faults.copyLeft with ⟨fs', _ | e'⟩
    · simp only [hr, hc, Except.ok.injEq] at he ⊢
      have hput := copy_ok (by rw [hc]) ht hne
      rw [hc] at hput
      refine ⟨he.symm, ?_⟩
      rw [remove_other hne, show fs' = fs.put final merged from hput]
      exact put_self
    · simp [hr, hc] at he

theorem saveFile_ok {temp target : FilePath} {replace : Bool} {name : String} {merged : Content}
    (he : (saveFile fs faults temp target replace).2 = .ok name)
    (ht : fs temp = some (.file merged)) (htarget : target ≠ temp)
    (hsibling : ∀ n, sibling target n ≠ temp) :
    ∃ final, (final = target ∨ ∃ n, final = sibling target n) ∧ name = final.2 ∧
      (saveFile fs faults temp target replace).1 final = some (.file merged) := by
  obtain ⟨fs', hfs'⟩ : ∃ fs', fs' = (faults.createParent fs target).toOption.getD fs := ⟨_, rfl⟩
  have hcases := finalPath_cases fs' faults target replace
  have hne : finalPath fs' faults target replace ≠ temp := by
    rcases hcases with h | ⟨n, h⟩
    · rw [h]
      exact htarget
    · rw [h]
      exact hsibling n
  have ht' : removeTarget fs' faults target replace temp = some (.file merged) := by
    rw [removeTarget_other (Ne.symm htarget)]
    exact createParent_at hfs' ht
  have hsave : saveFile fs faults temp target replace = renameOrCopy
      (removeTarget fs' faults target replace) faults temp (finalPath fs' faults target replace) := by
    rw [hfs']
    rfl
  rw [hsave] at he ⊢
  exact ⟨_, hcases, renameOrCopy_ok he ht' hne⟩

theorem copyToStore_ok {temp dst : FilePath} {merged : Content}
    (he : (copyToStore fs faults temp dst).2 = none) (ht : fs temp = some (.file merged))
    (hne : dst ≠ temp) : (copyToStore fs faults temp dst).1 dst = some (.file merged) := by
  unfold copyToStore at he ⊢
  cases hc : faults.createParent fs dst with
  | error e => simp [hc] at he
  | ok made =>
    simp only [hc] at he ⊢
    rw [copy_ok he ((createParent_ok hc).1 ▸ createDirAll_at dst.1 ht) hne]
    exact put_self

/-- The row of a content is under its hash. -/
theorem foundRow_some {src : ImportSource} {row : DAppFile} (h : foundRow sha T src = some row) :
    T.find? (src.strongHash sha) = some row := by
  rcases Option.or_eq_some_iff.mp h with hp | ⟨-, hp⟩
  · have hmem := List.mem_filter.mp (List.mem_of_find?_eq_some hp)
    exact Table.find?_eq_some.mpr ⟨hmem.1, by simpa using List.find?_some hp⟩
  · exact hp

theorem foundRow_none {src : ImportSource} (h : foundRow sha T src = none) :
    T.find? (src.strongHash sha) = none := (Option.or_eq_none_iff.mp h).2

theorem foundRow_of_find {src : ImportSource} {row : DAppFile}
    (h : T.find? (src.strongHash sha) = some row) : foundRow sha T src = some row := by
  cases hf : foundRow sha T src with
  | none => simp [foundRow_none hf] at h
  | some row' => rw [← h, foundRow_some hf]

/-- The app file of a content, if there is one, holds it. -/
def Undamaged (inDataDir : String → FilePath) (sha : Sha) (fs : FileTree) (T : AppFileTable)
    (content : Content) : Prop :=
  ∀ row, T.find? (sha content) = some row → ∀ entry, fs (inDataDir row.realPath) = some entry →
    entry = .file content

/-- The app file of a content is there, with its row. -/
def InStore (inDataDir : String → FilePath) (sha : Sha) (fs : FileTree) (T : AppFileTable)
    (content : Content) : Prop :=
  ∃ row, T.find? (sha content) = some row ∧ fs (inDataDir row.realPath) = some (.file content)

theorem importMerged_ok {temp : FilePath} {name : String} {merged : Content} {result : ImportResult}
    (he : (importMerged inDataDir sha fs T faults temp name).2.2 = .ok result)
    (ht : fs temp = some (.file merged))
    (hne : storePath inDataDir sha T (mergedSource merged name) ≠ temp)
    (hu : Undamaged inDataDir sha fs T merged) :
    ∃ row, (importMerged inDataDir sha fs T faults temp name).2.1.find? (sha merged) = some row ∧
      inDataDir row.realPath = storePath inDataDir sha T (mergedSource merged name) ∧
      (importMerged inDataDir sha fs T faults temp name).1 (inDataDir row.realPath) =
        some (.file merged) := by
  have hcontent := content?_eq.mpr ht
  unfold importMerged at he ⊢
  cases hw : faults.error .weakHash with
  | some e => simp [hw] at he
  | none =>
    cases hs : faults.error .strongHash with
    | some e => simp [hw, hs] at he
    | none =>
      simp only [hw, hs, hcontent] at he ⊢
      cases hrow : foundRow sha T (mergedSource merged name) with
      | none =>
        rw [storePath_new inDataDir hrow] at hne ⊢
        simp only [hrow] at he ⊢
        rcases hc : copyToStore fs faults temp (inDataDir (relativeDestPath
          ((mergedSource merged name).strongHash sha) (mergedSource merged name).ext))
          with ⟨fs', _ | e⟩
        · have hcopied := copyToStore_ok (by rw [hc]) ht hne
          rw [hc] at hcopied
          refine ⟨(mergedSource merged name).record sha, ?_, rfl, hcopied⟩
          exact (Table.find?_insert_of_none (foundRow_none hrow)).trans (if_pos rfl)
        · simp [hc] at he
      | some row =>
        have hfind := foundRow_some hrow
        have hincr : (AppFileTable.increment T ((mergedSource merged name).strongHash sha)).find?
            (sha merged) = some { row with refCount := row.refCount + 1 } := by
          refine Table.find?_modify.trans ((if_pos rfl).trans ?_)
          exact congrArg (Option.map _) hfind
        rw [storePath_found inDataDir hrow] at hne ⊢
        simp only [hrow] at he ⊢
        split at he
        · next hf =>
          rw [if_pos hf]
          refine ⟨_, hincr, rfl, ?_⟩
          obtain ⟨entry, hentry⟩ := Option.isSome_iff_exists.mp (Bool.and_eq_true_iff.mp hf).2
          exact hentry.trans (congrArg some (hu row hfind entry hentry))
        · next hf =>
          rw [if_neg hf]
          rcases hc : copyToStore fs faults temp (inDataDir row.realPath) with ⟨fs', _ | e⟩
          · have hcopied := copyToStore_ok (by rw [hc]) ht hne
            rw [hc] at hcopied
            exact ⟨_, hincr, rfl, hcopied⟩
          · simp [hc] at he

/-- No path at which the merge may be saved is in the staging directory of the file id. -/
def SavedOutside (staging : String → List String) (inDataDir : String → FilePath) (sha : Sha)
    (fs : FileTree) (T : AppFileTable) (call : MergeRequest) (fileId : String) : Prop :=
  ∀ path, SavePath staging inDataDir sha fs T call path → ¬ Within path (staging fileId)

theorem ne_tempMerge_of_not_within (h : ¬ Within path (staging call.fileId)) :
    path ≠ tempMerge staging processId call.fileId := by
  rintro rfl
  exact h (within_mk _ _)

theorem removeDir_other {dir : List String} (h : ¬ Within path dir) :
    faults.removeDir fs dir path = fs path := by
  unfold Faults.removeDir FileTree.removeDirAll
  rw [if_neg h, ite_self]

/-- What a merge that succeeds has made of the content: the file at the answered name beside the
target, or the app file. -/
def Produced (inDataDir : String → FilePath) (sha : Sha) (fs : FileTree) (T : AppFileTable)
    (kind : MergeKind) (value : String) (content : Content) : Prop :=
  match kind with
  | .file target _ => fs (target.1, value) = some (.file content)
  | .appFile _ => InStore inDataDir sha fs T content

/-- A merge that succeeds has read every chunk, and produced its target from them. -/
theorem performMerge_ok
    (he : (performMerge staging processId inDataDir sha fs T faults call).2.2 = .ok (value, size))
    (ho : SavedOutside staging inDataDir sha fs T call call.fileId)
    (hu : ∀ name, call.kind = .appFile name →
      Undamaged inDataDir sha fs T (mergedContent staging fs call)) :
    Mergeable staging processId fs faults call ∧
      size = (mergedContent staging fs call).length ∧
      Produced inDataDir sha (performMerge staging processId inDataDir sha fs T faults call).1
        (performMerge staging processId inDataDir sha fs T faults call).2.1 call.kind value
          (mergedContent staging fs call) := by
  rcases mergeStaged_cases staging processId fs faults call with ⟨fs', e, hs⟩ | ⟨hm, hstaged⟩
  · simp [performMerge, hs] at he
  · refine ⟨hm, ?_⟩
    have ht := withMerged_temp staging processId fs call
    unfold performMerge at he ⊢
    rw [hstaged] at he ⊢
    cases hk : call.kind with
    | file target replace =>
      have houtside : ∀ path, (path = target ∨ ∃ n, path = sibling target n) →
          ¬ Within path (staging call.fileId) := fun path hp => ho path (by simpa [SavePath, hk])
      simp only [hk] at he ⊢
      rcases hs : saveFile (withMerged staging processId fs call) faults
        (tempMerge staging processId call.fileId) target replace with ⟨fs', e' | name⟩
      · simp [hs] at he
      · obtain ⟨final, hfinal, hname, hsaved⟩ := saveFile_ok (by rw [hs]) ht
          (ne_tempMerge_of_not_within (houtside target (.inl rfl)))
          fun n => ne_tempMerge_of_not_within (houtside _ (.inr ⟨n, rfl⟩))
        simp only [hs, Except.ok.injEq, Prod.mk.injEq] at he hsaved ⊢
        obtain ⟨rfl, rfl⟩ := he
        refine ⟨rfl, ?_⟩
        have hplace : (target.1, name) = final := by
          rcases hfinal with rfl | ⟨n, rfl⟩
          · exact hname ▸ rfl
          · exact hname ▸ rfl
        change faults.removeDir fs' (staging call.fileId) (target.1, name) = _
        rw [hplace, removeDir_other (houtside final hfinal)]
        exact hsaved
    | appFile fileName =>
      have houtside : ¬ Within (storePath inDataDir sha T
          (mergedSource (mergedContent staging fs call) fileName)) (staging call.fileId) :=
        ho _ (by simp only [SavePath, hk])
      have hundamaged : Undamaged inDataDir sha (withMerged staging processId fs call) T
          (mergedContent staging fs call) := by
        intro row hrow entry hentry
        have hfound : foundRow sha T (mergedSource (mergedContent staging fs call) fileName) =
            some row := foundRow_of_find hrow
        rw [← storePath_found inDataDir hfound,
          withMerged_other (ne_tempMerge_of_not_within houtside)] at hentry
        exact hu fileName hk row hrow entry (storePath_found inDataDir hfound ▸ hentry)
      simp only [hk] at he ⊢
      rcases hs : importMerged inDataDir sha (withMerged staging processId fs call) T faults
        (tempMerge staging processId call.fileId) fileName with ⟨fs', T', e' | result⟩
      · simp [hs] at he
      · obtain ⟨row, hrow, hpath, hsaved⟩ := importMerged_ok (by rw [hs]) ht
          (ne_tempMerge_of_not_within houtside) hundamaged
        simp only [hs, Except.ok.injEq, Prod.mk.injEq] at he hrow hsaved ⊢
        obtain ⟨rfl, rfl⟩ := he
        refine ⟨rfl, row, hrow, ?_⟩
        rw [remove_other (hpath ▸ ne_tempMerge_of_not_within houtside),
          removeDir_other (hpath ▸ houtside)]
        exact hsaved

end

end PlainRs.FileUpload
