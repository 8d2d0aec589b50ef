import PlainRs.LocalApi.FileUpload.PerformMerge

/-! What the file operations of a merge keep, the merge keeps. -/
namespace PlainRs.FileUpload

open Chat Utils

/-- A relation between file trees that is kept by what a merge does: it writes and removes its temp
file and what it saves, makes the directories on the way to that, and removes its own directory. -/
structure MergeFrame (R : FileTree → FileTree → Prop) (faults : Faults) (temp : FilePath)
    (dir : List String) (saves : FilePath → Prop) : Prop where
  refl : ∀ fs, R fs fs
  trans : ∀ {fs fs' fs''}, R fs fs' → R fs' fs'' → R fs fs''
  put : ∀ {fs path} content, path = temp ∨ saves path → R fs (fs.put path content)
  removeFile : ∀ {fs path}, path = temp ∨ saves path → R fs (fs.removeFile path)
  createDirAll : ∀ {fs path}, saves path → R fs (fs.createDirAll path.1)
  removeDir : ∀ fs, R fs (faults.removeDir fs dir)

section

variable {R : FileTree → FileTree → Prop} {faults : Faults} {temp : FilePath} {dir : List String}
  {saves : FilePath → Prop} {fs fs' : FileTree} {dst path target : FilePath}

theorem frame_remove {op : FileOp} (F : MergeFrame R faults temp dir saves)
    (h : path = temp ∨ saves path) : R fs (faults.remove fs op path) := by
  unfold Faults.remove
  split
  · exact F.removeFile h
  · exact F.refl fs

theorem frame_createParent (F : MergeFrame R faults temp dir saves) (h : saves path) :
    R fs ((faults.createParent fs path).toOption.getD fs) := by
  cases hc : faults.createParent fs path with
  | error e => exact F.refl fs
  | ok made => exact (createParent_ok hc).1 ▸ F.createDirAll h

theorem frame_removeTarget {replace : Bool} (F : MergeFrame R faults temp dir saves)
    (h : saves path) : R fs (removeTarget fs faults path replace) := by
  unfold removeTarget
  split
  · exact frame_remove F (.inr h)
  · exact F.refl fs

theorem frame_copy {fault : Option IoError} {left : Option Nat}
    (F : MergeFrame R faults temp dir saves) (h : saves dst) :
    R fs (fs.copy temp dst fault left).1 := by
  unfold FileTree.copy
  split
  · exact F.refl fs
  · exact F.refl fs
  · cases fault with
    | none => exact F.put _ (.inr h)
    | some e =>
      cases left with
      | none => exact F.refl fs
      | some n => exact F.put _ (.inr h)

theorem frame_rename {fault : Option IoError} (F : MergeFrame R faults temp dir saves)
    (h : saves dst) (hr : fs.rename temp dst fault = .ok fs') : R fs fs' := by
  unfold FileTree.rename at hr
  split at hr
  · cases hr
  · split at hr
    · cases hr
    · cases hr
    · cases hr
      exact F.trans (F.removeFile (.inl rfl)) (F.put _ (.inr h))

theorem frame_renameOrCopy (F : MergeFrame R faults temp dir saves) (h : saves dst) :
    R fs (renameOrCopy fs faults temp dst).1 := by
  unfold renameOrCopy
  split
  · next hr => exact frame_rename F h hr
  · have hcopy : R fs (fs.copy temp dst (faults.error .copy) faults.copyLeft).1 := frame_copy F h
    split
    · next hc =>
      rw [hc] at hcopy
      exact hcopy
    · next hc =>
      rw [hc] at hcopy
      exact F.trans hcopy (frame_remove F (.inl rfl))

theorem frame_copyToStore (F : MergeFrame R faults temp dir saves) (h : saves dst) :
    R fs (copyToStore fs faults temp dst).1 := by
  unfold copyToStore
  split
  · exact F.refl fs
  · next hc =>
    rw [(createParent_ok hc).1]
    exact F.trans (F.createDirAll h) (frame_copy F h)

/-- The path at which a merge is saved is its target or a sibling of it. -/
theorem finalPath_cases (fs : FileTree) (faults : Faults) (target : FilePath) (replace : Bool) :
    finalPath fs faults target replace = target ∨
      ∃ n, finalPath fs faults target replace = sibling target n := by
  unfold finalPath
  split
  · exact .inl rfl
  · split
    · unfold uniqueSibling
      split
      · exact .inl rfl
      · cases (List.range' 1 lastSibling).find? fun n =>
          !faults.finds fs (.findName (siblingName target.2 n)) (target.1, siblingName target.2 n)
        with
        | none => exact .inl rfl
        | some n => exact .inr ⟨n, rfl⟩
    · exact .inl rfl

theorem frame_saveFile {replace : Bool} (F : MergeFrame R faults temp dir saves)
    (ht : saves target) (hs : ∀ n, saves (sibling target n)) :
    R fs (saveFile fs faults temp target replace).1 := by
  have hfinal : saves (finalPath ((faults.createParent fs target).toOption.getD fs) faults target
      replace) := by
    rcases finalPath_cases ((faults.createParent fs target).toOption.getD fs) faults target replace
      with h | ⟨n, h⟩
    · rw [h]
      exact ht
    · rw [h]
      exact hs n
  exact F.trans (F.trans (frame_createParent F ht) (frame_removeTarget F ht))
    (frame_renameOrCopy F hfinal)

theorem frame_importMerged {inDataDir : String → FilePath} {sha : Sha} {T : AppFileTable}
    {name : String} {merged : Content} (F : MergeFrame R faults temp dir saves)
    (ht : fs temp = some (.file merged))
    (h : saves (storePath inDataDir sha T (mergedSource merged name))) :
    R fs (importMerged inDataDir sha fs T faults temp name).1 := by
  have hcopy : R fs (copyToStore fs faults temp
      (storePath inDataDir sha T (mergedSource merged name))).1 := frame_copyToStore F h
  unfold importMerged
  cases hw : faults.error .weakHash with
  | some e => exact F.refl fs
  | none =>
    cases hs : faults.error .strongHash with
    | some e => exact F.refl fs
    | none =>
      simp only [content?_eq.mpr ht]
      cases hrow : foundRow sha T (mergedSource merged name) with
      | none =>
        rw [storePath_new inDataDir hrow] at hcopy
        dsimp only
        split
        · next hc => rw [hc] at hcopy; exact hcopy
        · next hc => rw [hc] at hcopy; exact hcopy
      | some row =>
        rw [storePath_found inDataDir hrow] at hcopy
        dsimp only
        split
        · exact F.refl fs
        · split
          · next hc => rw [hc] at hcopy; exact hcopy
          · next hc => rw [hc] at hcopy; exact hcopy

theorem frame_mergeChunksTo {chunks : List String} {total : Int}
    (F : MergeFrame R faults temp dir saves) :
    R fs (mergeChunksTo fs chunks faults total temp).1 := by
  unfold mergeChunksTo
  split
  · exact F.refl fs
  · exact F.refl fs
  · exact F.put _ (.inl rfl)

end

section

variable {staging : String → List String} {processId : Nat} {inDataDir : String → FilePath}
  {sha : Sha} {fs : FileTree} {T : AppFileTable} {faults : Faults} {call : MergeRequest}
  {R : FileTree → FileTree → Prop} {dir : List String} {saves : FilePath → Prop}

/-- A path at which the merge may be saved. -/
def SavePath (staging : String → List String) (inDataDir : String → FilePath) (sha : Sha)
    (fs : FileTree) (T : AppFileTable) (call : MergeRequest) (path : FilePath) : Prop :=
  match call.kind with
  | .file target _ => path = target ∨ ∃ n, path = sibling target n
  | .appFile fileName =>
    path = storePath inDataDir sha T (mergedSource (mergedContent staging fs call) fileName)

variable (staging processId fs faults call) in
/-- A merge only gets to save the chunks once they are in its temp file. -/
theorem mergeStaged_cases :
    (∃ fs' e, mergeStaged staging processId fs faults call = (fs', .error e)) ∨
    (Mergeable staging processId fs faults call ∧ mergeStaged staging processId fs faults call =
      (withMerged staging processId fs call, .ok (mergedContent staging fs call).length)) := by
  by_cases hc : AllCounted staging fs faults call
  · by_cases hm : Mergeable staging processId fs faults call
    · exact .inr ⟨hm, mergeStaged_mergeable hm⟩
    · obtain ⟨e, hstaged⟩ := mergeStaged_unmergeable processId hc hm
      exact .inl ⟨_, e, hstaged⟩
  · obtain ⟨e, hstaged⟩ := mergeStaged_uncounted processId hc
    exact .inl ⟨fs, e, hstaged⟩

theorem frame_mergeStaged (fs : FileTree)
    (F : MergeFrame R faults (tempMerge staging processId call.fileId) dir saves) :
    R fs (mergeStaged staging processId fs faults call).1 := by
  by_cases hc : AllCounted staging fs faults call
  · by_cases hm : Mergeable staging processId fs faults call
    · rw [mergeStaged_mergeable hm]
      exact F.put _ (.inl rfl)
    · obtain ⟨e, hstaged⟩ := mergeStaged_unmergeable processId hc hm
      rw [hstaged]
      exact F.trans (frame_mergeChunksTo F) (frame_remove F (.inl rfl))
  · obtain ⟨e, hstaged⟩ := mergeStaged_uncounted processId hc
    rw [hstaged]
    exact F.refl fs

theorem frame_performMerge (F : MergeFrame R faults (tempMerge staging processId call.fileId)
    (staging call.fileId) (SavePath staging inDataDir sha fs T call)) :
    R fs (performMerge staging processId inDataDir sha fs T faults call).1 := by
  have hr := frame_mergeStaged fs F
  unfold performMerge
  rcases mergeStaged_cases staging processId fs faults call with ⟨fs', e, hs⟩ | ⟨-, hs⟩
  · rw [hs] at hr ⊢
    exact hr
  · rw [hs] at hr ⊢
    have ht := withMerged_temp staging processId fs call
    refine F.trans hr ?_
    cases hk : call.kind with
    | file target replace =>
      have hsave : R (withMerged staging processId fs call)
          (saveFile (withMerged staging processId fs call) faults
            (tempMerge staging processId call.fileId) target replace).1 := by
        apply frame_saveFile F
        · simp only [SavePath, hk, true_or]
        · intro n
          simp only [SavePath, hk]
          exact .inr ⟨n, rfl⟩
      dsimp only
      split
      · next hs => rw [hs] at hsave; exact hsave
      · next hs => rw [hs] at hsave; exact F.trans hsave (F.removeDir _)
    | appFile fileName =>
      have himport : R (withMerged staging processId fs call)
          (importMerged inDataDir sha (withMerged staging processId fs call) T faults
            (tempMerge staging processId call.fileId) fileName).1 := by
        apply frame_importMerged F ht
        simp only [SavePath, hk]
      dsimp only
      split
      · next hs => rw [hs] at himport; exact himport
      · next hs =>
        rw [hs] at himport
        exact F.trans (F.trans himport (F.removeDir _)) (frame_remove F (.inl rfl))

end

end PlainRs.FileUpload
