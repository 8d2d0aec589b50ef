import PlainRs.LocalApi.FileUpload.PerformMerge

/-! What a merge that returns an error leaves of the target and of the staged chunks. -/
namespace PlainRs.FileUpload

open Chat Utils

/-- A regular file that was at a path is there, with its content. -/
def KeptAt (fs fs' : FileTree) (path : FilePath) : Prop :=
  ∀ content, fs path = some (.file content) → fs' path = some (.file content)

section

variable (staging : String → List String) (processId : Nat) (inDataDir : String → FilePath)
  (sha : Sha) (fs : FileTree) (T : AppFileTable) (faults : Faults) (call : MergeRequest)

/-- The target of a merge: the path of the call, or that of the app file with the content. -/
def mergeTarget : FilePath :=
  match call.kind with
  | .file target _ => target
  | .appFile fileName => storePath inDataDir sha T (mergedSource (mergedContent staging fs call) fileName)

/-- A merge that gets to save its content saves it at the path. -/
def SavesAt (path : FilePath) : Prop :=
  match call.kind with
  | .file target replace =>
    finalPath (withMerged staging processId fs call) faults target replace = path
  | .appFile fileName =>
    faults.error .weakHash = none ∧ faults.error .strongHash = none ∧
      faults.error .createParent = none ∧
        storePath inDataDir sha T (mergedSource (mergedContent staging fs call) fileName) = path

/-- The target is removed before the merge is saved. -/
def RemovesTarget : Prop :=
  match call.kind with
  | .file target replace => replace ∧ faults.error .removeTarget = none ∧
      faults.finds (withMerged staging processId fs call) .findTarget target
  | .appFile _ => False

/-- What a failed copy to a path leaves is the content that was there. -/
def CopySpares (path : FilePath) (content : Content) : Prop :=
  match faults.copyLeft with
  | none => ¬ RemovesTarget staging processId fs faults call ∧
      (path = tempMerge staging processId call.fileId → mergedContent staging fs call = content)
  | some n =>
    if path = tempMerge staging processId call.fileId then
      ¬ RemovesTarget staging processId fs faults call ∧ content = []
    else (mergedContent staging fs call).take n = content

/-- No step of a merge that fails does away with a file at the path: it is no temp file that is
merged into or removed, and if it is where the merge is saved then the copy spares it. -/
def Spared (path : FilePath) : Prop :=
  ∀ content, fs path = some (.file content) → AllCounted staging fs faults call →
    (Mergeable staging processId fs faults call →
      (SavesAt staging processId inDataDir sha fs T faults call path →
        CopySpares staging processId fs faults call path content) ∧
      (¬ SavesAt staging processId inDataDir sha fs T faults call path →
        path = tempMerge staging processId call.fileId →
          mergedContent staging fs call = content)) ∧
    (¬ Mergeable staging processId fs faults call →
      path = tempMerge staging processId call.fileId →
        (faults.error .removeMerged).isSome ∧
          (mergeChunksTo fs (staging call.fileId) faults call.totalChunks path).1 path =
            some (.file content))

end

section

variable {fs : FileTree} {faults : Faults} {src dst path : FilePath} {content merged : Content}
  {error : IoError}

/-- What the failed copy leaves at a path where there was a file. -/
def copyRemainder (faults : Faults) (temp path : FilePath) (merged : Content)
    (there : Option Entry) : Option Entry :=
  match faults.copyLeft with
  | none => there
  | some n =>
    if path = temp then there.map fun _ => .file [] else some (.file (merged.take n))

theorem renameOrCopy_error {temp final : FilePath} {e : String}
    (he : (renameOrCopy fs faults temp final).2 = .error e) :
    ∃ e', (fs.copy temp final (faults.error .copy) faults.copyLeft).2 = some e' ∧
      (renameOrCopy fs faults temp final).1 =
        (fs.copy temp final (faults.error .copy) faults.copyLeft).1 := by
  unfold renameOrCopy at he ⊢
  cases hr : fs.rename temp final (faults.error .rename) with
  | ok fs' => simp [hr] at he
  | error e' =>
    rcases hc : fs.copy temp final (faults.error .copy) faults.copyLeft with ⟨fs', _ | e'⟩
    · simp [hr, hc] at he
    · exact ⟨e', by simp⟩

/-- What the failed copy leaves at a path where there was a file before. -/
theorem copy_remainder {temp : FilePath} {there : Option Entry}
    (he : (fs.copy temp path (faults.error .copy) faults.copyLeft).2 = some error)
    (ht : fs temp = some (.file merged)) (hp : fs path = there) (hd : there ≠ some .directory)
    (hsame : path = temp → there = some (.file merged)) :
    (fs.copy temp path (faults.error .copy) faults.copyLeft).1 path =
      copyRemainder faults temp path merged there := by
  rw [copy_error he (content?_eq.mpr ht) (hp ▸ hd)]
  unfold copyRemainder
  cases faults.copyLeft with
  | none => exact hp
  | some n =>
    by_cases hpt : path = temp
    · simp [hpt, FileTree.put, hsame hpt]
    · simp [hpt, Ne.symm hpt, FileTree.put]

open Classical in
theorem saveFile_error {temp target : FilePath} {replace : Bool} {e : String}
    (he : (saveFile fs faults temp target replace).2 = .error e)
    (ht : fs temp = some (.file merged)) (hp : fs path = some (.file content)) :
    (saveFile fs faults temp target replace).1 path =
      if finalPath fs faults target replace = path then
        copyRemainder faults temp path merged
          (if replace = true ∧ faults.error .removeTarget = none ∧
              faults.finds fs .findTarget target = true
            then none else some (.file content))
      else some (.file content) := by
  obtain ⟨fs', hfs'⟩ : ∃ fs', fs' = (faults.createParent fs target).toOption.getD fs := ⟨_, rfl⟩
  have ht' := createParent_at hfs' ht
  have hp' := createParent_at hfs' hp
  have hfind : faults.finds fs' .findTarget target = faults.finds fs .findTarget target :=
    finds_createParent .findTarget target.2 hfs'
  have hsave : saveFile fs faults temp target replace =
      renameOrCopy (removeTarget fs' faults target replace) faults temp
        (finalPath fs faults target replace) := by
    rw [← finalPath_createParent hfs', hfs']
    rfl
  rw [hsave] at he ⊢
  obtain ⟨e', hcopy, hleft⟩ := renameOrCopy_error he
  rw [hleft]
  by_cases hfinal : finalPath fs faults target replace = path
  · rw [if_pos hfinal]
    rw [hfinal] at hcopy ⊢
    split
    · next hrem =>
      -- what replaces the target is saved at the target
      have htarget : target = path := by simpa [finalPath, hrem.1] using hfinal
      rw [← hfind] at hrem
      subst htarget
      rw [removeTarget_at hrem hp'] at hcopy ⊢
      have hgone : fs'.removeFile target target = none := Function.update_self _ _ _
      by_cases hpt : target = temp
      · subst hpt
        have hcontent : (fs'.removeFile target).content? target = none := by
          simp [FileTree.content?, hgone]
        simp [FileTree.copy, hcontent, hgone, copyRemainder]
        cases faults.copyLeft <;> rfl
      · have hthere : fs'.removeFile target temp = some (.file merged) :=
          (Function.update_of_ne (Ne.symm hpt) _ _).trans ht'
        exact copy_remainder hcopy hthere hgone (by simp) fun h => (hpt h).elim
    · next hrem =>
      rw [← hfind] at hrem
      rw [removeTarget_of_not hrem] at hcopy ⊢
      exact copy_remainder hcopy ht' hp' (by simp) fun h => by rw [← hp', h, ht']
  · rw [if_neg hfinal, copy_other (Ne.symm hfinal)]
    by_cases hrem : replace = true ∧ faults.error .removeTarget = none ∧
        faults.finds fs' .findTarget target = true
    · have htarget : path ≠ target := fun h => hfinal (by simp [finalPath, hrem.1, h])
      rw [removeTarget_other htarget, hp']
    · rw [removeTarget_of_not hrem, hp']

/-- The import of a merged file that is there fails in hashing it, in making the directory, or in
copying it to its place. -/
theorem importMerged_error {inDataDir : String → FilePath} {sha : Sha} {T : AppFileTable}
    {temp : FilePath} {name : String} {e : IoError}
    (he : (importMerged inDataDir sha fs T faults temp name).2.2 = .error e)
    (ht : fs temp = some (.file merged)) (hp : fs path = some (.file content)) :
    (importMerged inDataDir sha fs T faults temp name).1 path =
      if faults.error .weakHash = none ∧ faults.error .strongHash = none ∧
          faults.error .createParent = none ∧ storePath inDataDir sha T (mergedSource merged name) = path
      then copyRemainder faults temp path merged (some (.file content))
      else some (.file content) := by
  have hcontent := content?_eq.mpr ht
  have hcopy : ∀ fs' e', copyToStore fs faults temp
      (storePath inDataDir sha T (mergedSource merged name)) = (fs', some e') → fs' path =
        if faults.error .createParent = none ∧
          storePath inDataDir sha T (mergedSource merged name) = path
        then copyRemainder faults temp path merged (some (.file content))
        else some (.file content) := by
    intro fs' e' h
    unfold copyToStore at h
    cases hparent : faults.createParent fs
      (storePath inDataDir sha T (mergedSource merged name)) with
    | error e'' =>
      simp only [hparent, Prod.mk.injEq] at h
      rw [← h.1, hp, createParent_error hparent]
      simp
    | ok made =>
      obtain ⟨rfl, hnone⟩ := createParent_ok hparent
      simp only [hparent] at h
      rw [show fs' = _ from congrArg Prod.fst h.symm]
      by_cases hpath : storePath inDataDir sha T (mergedSource merged name) = path
      · rw [if_pos ⟨hnone, hpath⟩]
        rw [hpath] at h ⊢
        exact copy_remainder (congrArg Prod.snd h) (createDirAll_at _ ht) (createDirAll_at _ hp)
          (by simp) fun hpt => by rw [← hp, hpt, ht]
      · rw [if_neg fun hc => hpath hc.2, copy_other (Ne.symm hpath)]
        exact createDirAll_at _ hp
  unfold importMerged at he ⊢
  cases hw : faults.error .weakHash with
  | some e' => simpa [hw] using hp
  | none =>
    cases hs : faults.error .strongHash with
    | some e' => simpa [hw, hs] using hp
    | none =>
      simp only [hw, hs, hcontent, true_and] at he ⊢
      cases hrow : foundRow sha T (mergedSource merged name) with
      | none =>
        simp only [hrow, ← storePath_new inDataDir hrow] at he ⊢
        rcases hc : copyToStore fs faults temp (storePath inDataDir sha T (mergedSource merged name))
          with ⟨fs', _ | e'⟩
        · simp [hc] at he
        · exact hcopy fs' e' hc
      | some row =>
        simp only [hrow, ← storePath_found inDataDir hrow] at he ⊢
        split at he
        · simp at he
        · next hf =>
          rw [if_neg hf]
          rcases hc : copyToStore fs faults temp
            (storePath inDataDir sha T (mergedSource merged name)) with ⟨fs', _ | e'⟩
          · simp [hc] at he
          · exact hcopy fs' e' hc

end

section

variable {staging : String → List String} {processId : Nat} {inDataDir : String → FilePath}
  {sha : Sha} {fs : FileTree} {T : AppFileTable} {faults : Faults} {call : MergeRequest}
  {path : FilePath} {content : Content}

open Classical in
/-- What the failed save of merged chunks leaves at a path. -/
theorem performMerge_saving {e : String} (hm : Mergeable staging processId fs faults call)
    (he : (performMerge staging processId inDataDir sha fs T faults call).2.2 = .error e)
    (hp : withMerged staging processId fs call path = some (.file content)) :
    (performMerge staging processId inDataDir sha fs T faults call).1 path =
      if SavesAt staging processId inDataDir sha fs T faults call path then
        copyRemainder faults (tempMerge staging processId call.fileId) path
          (mergedContent staging fs call)
          (if RemovesTarget staging processId fs faults call then none else some (.file content))
      else some (.file content) := by
  have hstaged : mergeStaged staging processId fs faults call =
      (withMerged staging processId fs call, .ok (mergedContent staging fs call).length) :=
    mergeStaged_mergeable hm
  have ht := withMerged_temp staging processId fs call
  unfold performMerge at he ⊢
  rw [hstaged] at he ⊢
  unfold SavesAt RemovesTarget
  cases hk : call.kind with
  | file target replace =>
    simp only [hk] at he ⊢
    rcases hs : saveFile (withMerged staging processId fs call) faults
      (tempMerge staging processId call.fileId) target replace with ⟨fs', e' | name⟩
    · have hleft := saveFile_error (by rw [hs]) ht hp
      rw [hs] at hleft
      convert hleft
    · simp [hs] at he
  | appFile fileName =>
    simp only [hk] at he ⊢
    rcases hs : importMerged inDataDir sha (withMerged staging processId fs call) T faults
      (tempMerge staging processId call.fileId) fileName with ⟨fs', T', e' | result⟩
    · have hleft := importMerged_error (by rw [hs]) ht hp
      rw [hs] at hleft
      simpa using hleft
    · simp [hs] at he

variable (staging processId call) in
/-- The file that is at a path once the chunks are merged. -/
theorem withMerged_at (hp : fs path = some (.file content)) :
    ∃ now, withMerged staging processId fs call path = some (.file now) ∧
      (path = tempMerge staging processId call.fileId → now = mergedContent staging fs call) ∧
        (path ≠ tempMerge staging processId call.fileId → now = content) := by
  by_cases hpt : path = tempMerge staging processId call.fileId
  · exact ⟨_, hpt ▸ withMerged_temp staging processId fs call, fun _ => rfl, fun h => (h hpt).elim⟩
  · exact ⟨content, (withMerged_other hpt).trans hp, fun h => (hpt h).elim, fun _ => rfl⟩

open Classical in
theorem copySpares_iff {now : Content}
    (ht : path = tempMerge staging processId call.fileId → now = mergedContent staging fs call)
    (ho : path ≠ tempMerge staging processId call.fileId → now = content) :
    copyRemainder faults (tempMerge staging processId call.fileId) path
        (mergedContent staging fs call) (if RemovesTarget staging processId fs faults call then none
          else some (.file now)) = some (.file content) ↔
      CopySpares staging processId fs faults call path content := by
  unfold copyRemainder CopySpares
  by_cases hpt : path = tempMerge staging processId call.fileId
  · by_cases hr : RemovesTarget staging processId fs faults call
    · cases faults.copyLeft <;> simp [hpt, hr]
    · cases faults.copyLeft <;> simp [hpt, hr, ht hpt, eq_comm]
  · by_cases hr : RemovesTarget staging processId fs faults call
    · cases faults.copyLeft <;> simp [hpt, hr]
    · cases faults.copyLeft <;> simp [hpt, hr, ho hpt]

/-- Exactly the files that are spared are kept. -/
theorem kept_iff_spared {e : String} (path : FilePath)
    (he : (performMerge staging processId inDataDir sha fs T faults call).2.2 = .error e) :
    KeptAt fs (performMerge staging processId inDataDir sha fs T faults call).1 path ↔
      Spared staging processId inDataDir sha fs T faults call path := by
  refine forall_congr' fun content => forall_congr' fun hp => ?_
  by_cases hc : AllCounted staging fs faults call
  · by_cases hm : Mergeable staging processId fs faults call
    · obtain ⟨now, hnow, ht, ho⟩ := withMerged_at staging processId call hp
      rw [performMerge_saving hm he hnow]
      by_cases hs : SavesAt staging processId inDataDir sha fs T faults call path
      · simp [hc, hm, hs, copySpares_iff ht ho]
      · by_cases hpt : path = tempMerge staging processId call.fileId
        · subst hpt
          simp [hc, hm, hs, ht]
        · simp [hc, hm, hs, hpt, ho hpt]
    · obtain ⟨e', hstaged⟩ := mergeStaged_unmergeable processId hc hm
      have hleft : (performMerge staging processId inDataDir sha fs T faults call).1 =
          faults.remove (mergeChunksTo fs (staging call.fileId) faults call.totalChunks
            (tempMerge staging processId call.fileId)).1 .removeMerged
              (tempMerge staging processId call.fileId) := by
        simp [performMerge, hstaged]
      rw [hleft]
      by_cases hpt : path = tempMerge staging processId call.fileId
      · simp [hc, hm, hpt, remove_file]
      · simp [hc, hm, hpt, remove_other hpt, mergeChunksTo_other hpt, hp]
  · obtain ⟨e', hstaged⟩ := mergeStaged_uncounted processId hc
    simp [performMerge, hstaged, hc, hp]

/-- A merge that returns an error leaves the file at the target and every staged chunk exactly if no
step of it does away with one of them. -/
theorem failed_merge_loses_nothing {e : String}
    (he : (performMerge staging processId inDataDir sha fs T faults call).2.2 = .error e) :
    (KeptAt fs (performMerge staging processId inDataDir sha fs T faults call).1
        (mergeTarget staging inDataDir sha fs T call) ∧
      ∀ i, KeptAt fs (performMerge staging processId inDataDir sha fs T faults call).1
        (chunkPath (staging call.fileId) i)) ↔
    (Spared staging processId inDataDir sha fs T faults call
        (mergeTarget staging inDataDir sha fs T call) ∧
      ∀ i, Spared staging processId inDataDir sha fs T faults call
        (chunkPath (staging call.fileId) i)) :=
  and_congr (kept_iff_spared _ he) (forall_congr' fun _ => kept_iff_spared _ he)

end

/-- A file at the target, and the first of the chunks. -/
def stagedFs : FileTree := fun path =>
  if path = (["home"], "x.txt") then some (.file [9])
  else if path = directoryPath (chunkDir ["data"] "a") then some .directory
  else if path = chunkPath (chunkDir ["data"] "a") 0 then some (.file [1])
  else none

def replacing (totalChunks : Int) : MergeRequest := ⟨"a", totalChunks, .file (["home"], "x.txt") true⟩

/-- A chunk is missing. -/
theorem failed_merge_loses_nothing_missing :
    KeptAt stagedFs (performMerge (chunkDir ["data"]) 7 (fun name => (["data"], name)) (fun _ => "0a1b")
      stagedFs .empty noFaults (replacing 2)).1 (["home"], "x.txt") ∧
    ∀ i, KeptAt stagedFs (performMerge (chunkDir ["data"]) 7 (fun name => (["data"], name)) (fun _ => "0a1b")
      stagedFs .empty noFaults (replacing 2)).1 (chunkPath (chunkDir ["data"] "a") i) := by
  have hmissing : ¬ AllCounted (chunkDir ["data"]) stagedFs noFaults (replacing 2) :=
    fun h => absurd (h.2 1 (by decide)).1 (by decide +kernel)
  have hspared : ∀ path, Spared (chunkDir ["data"]) 7 (fun name => (["data"], name)) (fun _ => "0a1b")
      stagedFs .empty noFaults (replacing 2) path := fun _ _ _ hc => (hmissing hc).elim
  have he : (performMerge (chunkDir ["data"]) 7 (fun name => (["data"], name)) (fun _ => "0a1b")
      stagedFs .empty noFaults (replacing 2)).2.2 = .error "Missing chunk 1" := by
    decide +kernel
  exact (failed_merge_loses_nothing he).mpr ⟨hspared _, fun i => hspared _⟩

/-- Neither the rename nor the copy works. -/
def cannotSave : Faults :=
  { noFaults with error := fun op =>
      if op = .rename then some "Invalid cross-device link (os error 18)"
      else if op = .copy then some "No space left on device (os error 28)" else none }

/-- The target is removed before what replaces it is in place. -/
theorem failedReplace_loses_target :
    (performMerge (chunkDir ["data"]) 7 (fun name => (["data"], name)) (fun _ => "0a1b") stagedFs .empty
      cannotSave (replacing 1)).2.2 =
        .error "save merged file: No space left on device (os error 28)" ∧
    ¬ (KeptAt stagedFs (performMerge (chunkDir ["data"]) 7 (fun name => (["data"], name)) (fun _ => "0a1b")
        stagedFs .empty cannotSave (replacing 1)).1 (["home"], "x.txt") ∧
      ∀ i, KeptAt stagedFs (performMerge (chunkDir ["data"]) 7 (fun name => (["data"], name))
        (fun _ => "0a1b") stagedFs .empty cannotSave (replacing 1)).1
          (chunkPath (chunkDir ["data"] "a") i)) := by
  have hgone : (performMerge (chunkDir ["data"]) 7 (fun name => (["data"], name)) (fun _ => "0a1b")
      stagedFs .empty cannotSave (replacing 1)).1 (["home"], "x.txt") = none := by
    decide +kernel
  refine ⟨by decide +kernel, fun h => ?_⟩
  have hkept := h.1 [9] (by decide +kernel)
  rw [hgone] at hkept
  cases hkept

end PlainRs.FileUpload
