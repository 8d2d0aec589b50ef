import PlainRs.LocalApi.FileUpload.SavedMerges
import PlainRs.LocalApi.FileUpload.Staging

/-! Which file ids keep what is done with them to their own staging directory. -/
namespace PlainRs.FileUpload

open Chat Components

section

variable {dir here names : List String} {Target : FilePath → Prop} {fs fs' fs'' : FileTree}
  {path : FilePath} {faults : Faults}

theorem Confined.refl (fs : FileTree) : Confined dir Target fs fs := fun _ _ _ => .inl rfl

theorem Confined.trans (h : Confined dir Target fs fs') (h' : Confined dir Target fs' fs'') :
    Confined dir Target fs fs'' := by
  intro path hd ht
  rcases h' path hd ht with heq | ⟨hnone, hmade, hway⟩
  · rw [heq]
    exact h path hd ht
  · rcases h path hd ht with heq | ⟨-, hmade', -⟩
    · rw [heq] at hnone
      exact .inr ⟨hnone, hmade, hway⟩
    · rw [hmade'] at hnone
      cases hnone

theorem confined_update (entry : Option Entry) (h : Within path dir ∨ Target path) :
    Confined dir Target fs (Function.update fs path entry) := by
  intro q hd ht
  left
  apply Function.update_of_ne
  rintro rfl
  exact h.elim hd ht

/-- A merge whose temp file is in the directory is confined to it and to what it saves. -/
theorem confined_frame {temp : FilePath} (h : Within temp dir) :
    MergeFrame (Confined dir Target) faults temp dir Target where
  refl := .refl
  trans := .trans
  put := by
    intro fs path content hp
    apply confined_update
    rcases hp with rfl | hp
    · exact .inl h
    · exact .inr hp
  removeFile := by
    intro fs path hp
    apply confined_update
    rcases hp with rfl | hp
    · exact .inl h
    · exact .inr hp
  createDirAll := by
    intro fs path hp q hd ht
    unfold FileTree.createDirAll
    split
    · next hq => exact .inr ⟨hq.1, rfl, .inr ⟨path, hp, hq.2⟩⟩
    · exact .inl rfl
  removeDir fs := fun q hd _ => .inl (removeDir_other hd)

theorem confined_mkdir {name : String} (hn : fs (here, name) = none) (h : here ++ [name] <+: dir) :
    Confined dir Target fs (Function.update fs (here, name) (some .directory)) := by
  intro q hd ht
  by_cases hq : q = (here, name)
  · subst hq
    exact .inr ⟨hn, Function.update_self _ _ _, .inl h⟩
  · exact .inl (Function.update_of_ne hq _ _)

/-- The directories that are made by their names are those on the way. -/
theorem confined_createDirs (fs : FileTree) (h : here ++ names <+: dir) :
    Confined dir Target fs (fs.createDirs here (names.map .normal)).1 ∧
      ∀ d, (fs.createDirs here (names.map .normal)).2 = .ok d → d = here ++ names := by
  induction names generalizing fs here with
  | nil => exact ⟨.refl fs, fun d hd => by simpa [FileTree.createDirs, eq_comm] using hd⟩
  | cons name names ih =>
    have hnext : here ++ [name] ++ names <+: dir := by simpa using h
    have hend : here ++ name :: names = here ++ [name] ++ names := by simp
    rw [List.map_cons, FileTree.createDirs, hend]
    split
    · next hn =>
      obtain ⟨hc, hd⟩ := ih (Function.update fs (here, name) (some .directory)) hnext
      exact ⟨(confined_mkdir hn ((List.prefix_append _ _).trans hnext)).trans hc, hd⟩
    · exact ih fs hnext
    · exact ⟨.refl fs, fun d hd => by cases hd⟩

end

section

variable {data : DataDir} {processId : Nat} {inDataDir : String → FilePath} {sha : Sha}
  {fileId : String} {fs : FileTree} {T : AppFileTable} {dir : List String} {temp : FilePath}
  {Target : FilePath → Prop}

theorem chunkDirOf_plain {cs : List Component} (h : Plain fileId)
    (hc : chunkDirOf data fileId = some cs) : cs = (chunkDir data.dirs fileId).map .normal := by
  unfold chunkDirOf at hc
  split at hc
  · cases hc
  · obtain rfl := Option.some.inj hc
    rw [join_plain _ h, chunkDir, List.append_assoc]
    rfl

theorem foundDir_plain (h : Plain fileId) (hd : foundDir data fs fileId = some dir) :
    dir = chunkDir data.dirs fileId := by
  obtain ⟨cs, hc, hr⟩ := Option.bind_eq_some_iff.mp hd
  rw [chunkDirOf_plain h hc] at hr
  simpa using resolve_normal hr

theorem plain_tempMerge (h : Plain fileId) (processId : Nat) :
    Plain s!".merge_tmp_{fileId}_{processId}" := by
  have hname : (s!".merge_tmp_{fileId}_{processId}").toList =
      ".merge_tmp_".toList ++ fileId.toList ++ ['_'] ++ Nat.toDigits 10 processId := by
    have hfirst : (toString ".merge_tmp_") = ".merge_tmp_" := rfl
    have hid : toString fileId = fileId := rfl
    have hsep : (toString "_").toList = ['_'] := by decide
    simp [String.toList_append, Nat.toList_repr, hfirst, hid, hsep]
  have hne : ∀ s : String, s.toList.length < 3 → s!".merge_tmp_{fileId}_{processId}" ≠ s := by
    intro s hs heq
    rw [← heq, hname] at hs
    simp at hs
    omega
  refine ⟨hne "" (by decide), hne "." (by decide), hne ".." (by decide), ?_⟩
  rw [hname]
  simp only [List.mem_append, not_or]
  refine ⟨⟨⟨by decide, h.2.2.2⟩, by decide⟩, fun hd => ?_⟩
  exact absurd (Nat.isDigit_of_mem_toDigits (by omega) (by omega) hd) (by decide)

theorem tempMergeIn_plain (h : Plain fileId) (ht : tempMergeIn fs dir processId fileId = some temp) :
    temp = (dir, s!".merge_tmp_{fileId}_{processId}") := by
  unfold tempMergeIn at ht
  rw [components_plain (plain_tempMerge h processId)] at ht
  obtain ⟨d, hd, rfl⟩ := Option.map_eq_some_iff.mp ht
  obtain ⟨hr, -⟩ := Option.filter_eq_some_iff.mp hd
  obtain rfl : dir = d := by simpa [resolve] using hr
  rfl

theorem confined_createStaging (fs : FileTree) (fault : Option (IoError × Nat))
    (h : Plain fileId) :
    Confined (chunkDir data.dirs fileId) Target fs (createStaging data fs fileId fault).1 ∧
      ∀ d, (createStaging data fs fileId fault).2 = .ok d → d = chunkDir data.dirs fileId := by
  cases hc : chunkDirOf data fileId with
  | none => simpa [createStaging, hc] using Confined.refl fs
  | some cs =>
    obtain rfl := chunkDirOf_plain h hc
    cases fault with
    | none =>
      simp only [createStaging, hc]
      exact confined_createDirs fs (List.prefix_refl (chunkDir data.dirs fileId))
    | some fault =>
      obtain ⟨e, n⟩ := fault
      simp only [createStaging, hc, ← List.map_take]
      exact ⟨(confined_createDirs fs (List.take_prefix n _)).1, nofun⟩

theorem confined_write {path : FilePath} {content : Content}
    {fault : Option (IoError × Option Nat)} (h : Within path dir) :
    Confined dir Target fs (fs.write path content fault).1 := by
  unfold FileTree.write
  split
  · exact .refl fs
  · exact confined_update _ (.inl h)
  · next e left _ =>
    cases left with
    | none => exact .refl fs
    | some n => exact confined_update _ (.inl h)

theorem confined_uploadChunk {chunk : ChunkUpload} {faults : ChunkFaults} (h : Plain fileId) :
    Confined (chunkDir data.dirs fileId) Target fs (uploadChunk data fs fileId chunk faults).1 := by
  obtain ⟨hstaged, hdir⟩ : Confined (chunkDir data.dirs fileId) Target fs
      (createStaging data fs fileId faults.createDir).1 ∧ _ :=
    confined_createStaging fs faults.createDir h
  unfold uploadChunk
  dsimp only
  split
  · exact .refl fs
  split
  · exact .refl fs
  split
  · next hs =>
    rw [hs] at hstaged
    exact hstaged
  · next fs' d hs =>
    rw [hs] at hstaged hdir
    obtain rfl := hdir d rfl
    have hin : Within (chunkPath (chunkDir data.dirs fileId) (asI32 chunk.index).toNat)
        (chunkDir data.dirs fileId) := within_mk _ _
    have hwrite : Confined (chunkDir data.dirs fileId) Target fs' (fs'.write _ chunk.body
        faults.write).1 := confined_write hin
    split
    · next hw =>
      rw [hw] at hwrite
      exact hstaged.trans hwrite
    · next hw =>
      rw [hw] at hwrite
      have hboth := hstaged.trans hwrite
      split
      · split
        · split
          · exact hboth
          · exact hboth.trans (confined_update _ (.inl hin))
        · exact hboth
      · exact hboth

theorem confined_deleteChunks {faults : Faults} (h : Plain fileId) :
    Confined (chunkDir data.dirs fileId) Target fs (deleteChunks data fs fileId faults) := by
  unfold deleteChunks
  split
  · exact .refl fs
  · next dir hd =>
    obtain rfl := foundDir_plain h hd
    split
    · exact fun q hq _ => .inl (removeDir_other hq)
    · exact .refl fs

theorem confined_mergeUpload (faults : Faults) (call : MergeRequest) (h : Plain call.fileId) :
    Confined (chunkDir data.dirs call.fileId)
      (SavePath (chunkDir data.dirs) inDataDir sha fs T call) fs
      (mergeUpload inDataDir sha fs T faults call data processId).1 := by
  unfold mergeUpload
  split
  · exact .refl fs
  · next dir hd =>
    obtain rfl := foundDir_plain h hd
    split
    · next temp ht =>
      obtain rfl := tempMergeIn_plain h ht
      have hframe : MergeFrame (Confined (chunkDir data.dirs call.fileId)
          (SavePath (chunkDir data.dirs) inDataDir sha fs T call)) faults
          (tempMerge (chunkDir data.dirs) processId call.fileId) (chunkDir data.dirs call.fileId)
          (SavePath (chunkDir data.dirs) inDataDir sha fs T call) :=
        confined_frame (within_mk _ _)
      have hne : chunkDir data.dirs call.fileId ≠ [] := by simp [chunkDir]
      have heq := performMerge_eq inDataDir sha fs T faults call (chunkDir data.dirs) processId hne
      exact heq ▸ frame_performMerge hframe
    · split
      · exact .refl fs
      · split
        · exact .refl fs
        · exact .refl fs

/-- With a NUL in the file id nothing is done. -/
theorem run_nul {op : StagingOp} (h : '\x00' ∈ fileId.toList) :
    op.run data processId inDataDir sha fileId fs T = fs := by
  have hnone : chunkDirOf data fileId = none := if_pos h
  have hfound : foundDir data fs fileId = none := by rw [foundDir, hnone]; rfl
  cases op with
  | deleteChunks faults => simp only [StagingOp.run, deleteChunks, hfound]
  | merge totalChunks kind faults => simp only [StagingOp.run, mergeUpload, hfound]
  | uploadChunk chunk faults =>
    have hstaged : createStaging data fs fileId faults.createDir = (fs, .error nulInPath) := by
      simp [createStaging, hnone]
    simp only [StagingOp.run, uploadChunk, hstaged]
    split
    · rfl
    · split
      · rfl
      · rfl

theorem directoryPath_append (h : dir ≠ []) :
    (directoryPath dir).1 ++ [(directoryPath dir).2] = dir := by
  rw [directoryPath, List.getLastD_eq_getLast?, List.getLast?_eq_some_getLast h]
  exact List.dropLast_concat_getLast h

/-- The directories of a walk, with a file in the last of them. -/
def walkTree (dirs : List (List String)) (dir : List String) : FileTree := fun path =>
  if path.1 ++ [path.2] ∈ dirs then some .directory
  else if path = (dir, "f") then some (.file [])
  else none

theorem walkTree_isDir {dirs : List (List String)} {d : List String} (h : d ∈ dirs) :
    (walkTree dirs dir).isDir d = true := by
  by_cases hd : d = []
  · simp [FileTree.isDir, hd]
  · have hpath : walkTree dirs dir (directoryPath d) = some .directory := by
      rw [walkTree, directoryPath_append hd, if_pos h]
    simp [FileTree.isDir, hpath]

theorem walkTree_file (dirs : List (List String)) (dir : List String) :
    ∃ entry, walkTree dirs dir (dir, "f") = some entry := by
  unfold walkTree
  split
  · exact ⟨_, rfl⟩
  · exact ⟨_, if_pos rfl⟩

/-- A directory that is emptied, but stays. -/
def staysEmpty (dir : List String) : Faults where
  error op := if op = .removeDir then some "Directory not empty (os error 39)" else none
  chunkPart _ := 0
  copyLeft := none
  dirLeft path := path = directoryPath dir

/-- A file id that is no plain name leads to a directory that is not its own, where something is. -/
theorem exists_unconfined (data : DataDir) (h : ¬ Plain fileId) (hn : '\x00' ∉ fileId.toList) :
    ∃ fs faults, ¬ Confined (chunkDir data.dirs fileId) (fun _ => False) fs
      (deleteChunks data fs fileId faults) := by
  let cs := join (data.dirs ++ ["upload_tmp"]) fileId
  let dir := cs.foldl Component.enter []
  let fs := walkTree (visited [] cs) dir
  have hbase : ∀ name ∈ data.dirs ++ ["upload_tmp"], Plain name := by
    intro name hname
    rcases List.mem_append.mp hname with hname | hname
    · exact data.plain name hname
    · obtain rfl := List.mem_singleton.mp hname
      decide
  have hplain : ∀ name ∈ dir, Plain name :=
    plain_end (by simp) fun name hname => plain_of_mem_join hbase hname
  have hfound : foundDir data fs fileId = some dir := by
    rw [foundDir, chunkDirOf, if_neg hn, Option.bind_some]
    exact resolve_of_visited fun d hd => walkTree_isDir hd
  have hin : fs.isDir dir = true := walkTree_isDir mem_visited_end
  have hout : ¬ Within (dir, "f") (chunkDir data.dirs fileId) := by
    intro hw
    have hmem : fileId ∈ dir ++ ["f"] := hw.subset (by simp [chunkDir])
    rcases List.mem_append.mp hmem with hmem | hmem
    · exact h (hplain fileId hmem)
    · rw [List.mem_singleton] at hmem
      exact h (hmem ▸ by decide)
  obtain ⟨entry, hentry⟩ := walkTree_file (visited [] cs) dir
  have hleft : (dir, "f") ≠ directoryPath dir := by
    intro heq
    by_cases hd : dir = []
    · have hname := congrArg Prod.snd heq
      rw [hd] at hname
      exact absurd hname (by decide)
    · have hdirs : dir = dir.dropLast := congrArg Prod.fst heq
      have hlen := congrArg List.length hdirs
      have hpos := List.length_pos_iff.mpr hd
      rw [List.length_dropLast] at hlen
      omega
  refine ⟨fs, staysEmpty dir, fun hc => ?_⟩
  have hgone : deleteChunks data fs fileId (staysEmpty dir) (dir, "f") = none := by
    simp [deleteChunks, hfound, hin, staysEmpty, Faults.removeDir, FileTree.removeDirAll, within_mk, hleft]
  rcases hc (dir, "f") hout id with heq | ⟨hnone, -⟩
  · rw [hgone] at heq
    exact absurd (heq.trans hentry) (by simp)
  · exact absurd (hnone.symm.trans hentry) (by simp)

/-- Whatever a client requests with a file id stays in the staging directory of that id, but for the
target of a merge, just when the id is a plain name or holds a NUL. -/
theorem uploads_isolated_iff (data : DataDir) (processId : Nat) (inDataDir : String → FilePath)
    (sha : Sha) (fileId : String) :
    (∀ (op : StagingOp) (fs : FileTree) (T : AppFileTable),
      Confined (chunkDir data.dirs fileId) (op.Target data inDataDir sha fileId fs T) fs
        (op.run data processId inDataDir sha fileId fs T)) ↔
      Plain fileId ∨ '\x00' ∈ fileId.toList := by
  constructor
  · intro h
    by_contra hnot
    obtain ⟨hplain, hnul⟩ := not_or.mp hnot
    obtain ⟨fs, faults, hout⟩ := exists_unconfined data hplain hnul
    exact hout (h (.deleteChunks faults) fs .empty)
  · rintro (hplain | hnul) op fs T
    · cases op with
      | deleteChunks faults => exact confined_deleteChunks hplain
      | uploadChunk chunk faults => exact confined_uploadChunk hplain
      | merge totalChunks kind faults =>
        exact confined_mergeUpload faults ⟨fileId, totalChunks, kind⟩ hplain
    · rw [run_nul hnul]
      exact .refl fs

/-- A data directory with a file in it. -/
def dataTree : FileTree := fun path =>
  if path = ([], "data") ∨ path = (["data"], "upload_tmp") then some .directory
  else if path = (["data"], "chat.db") then some (.file [1]) else none

/-- To delete the chunks of `..` is to delete the data. -/
theorem deleteChunks_parent : ¬ ∀ (data : DataDir) (fileId : String) (op : StagingOp)
    (fs : FileTree) (T : AppFileTable),
    Confined (chunkDir data.dirs fileId) (op.Target data (([], ·)) (fun _ => "") fileId fs T) fs
      (op.run data 1 (([], ·)) (fun _ => "") fileId fs T) := by
  intro h
  have hdata := h ⟨["data"], by decide⟩ ".." (.deleteChunks noFaults) dataTree .empty
    (["data"], "chat.db") (by decide) id
  have hgone : deleteChunks ⟨["data"], by decide⟩ dataTree ".." noFaults (["data"], "chat.db") =
      none := by decide +kernel
  rcases hdata with heq | ⟨hnone, -⟩
  · exact absurd (hgone.symm.trans heq) (by decide)
  · exact absurd hnone (by decide)

end

end PlainRs.FileUpload
