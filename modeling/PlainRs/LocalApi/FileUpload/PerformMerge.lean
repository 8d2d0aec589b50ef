import PlainRs.LocalApi.FileUpload.Files

/-! `perform_merge`, with file operations that may fail. -/
namespace PlainRs.FileUpload

open Chat Utils

inductive MergeKind
  | file (path : FilePath) (replace : Bool)
  | appFile (fileName : String)
  deriving DecidableEq

structure MergeRequest where
  fileId : String
  totalChunks : Int
  kind : MergeKind
  deriving DecidableEq

/-- The file operations of a merge; a name that is looked for is the target's or a sibling's. -/
inductive FileOp
  | findDir
  | findChunk (i : Nat)
  | statChunk (i : Nat)
  | createMerged
  | openChunk (i : Nat)
  | readChunk (i : Nat)
  | writeChunk (i : Nat)
  | flushMerged
  | statMerged
  | removeMerged
  | createParent
  | findTarget
  | findName (name : String)
  | removeTarget
  | rename
  | copy
  | weakHash
  | strongHash
  | findCanonical
  | removeDir
  deriving DecidableEq

/-- Which operations of a merge fail, and what those that fail have done: how much of a chunk is
merged when reading or writing fails, how much is copied if the copy got to open its destination,
and what is left of the directory. -/
structure Faults where
  error : FileOp → Option IoError
  chunkPart : Nat → Nat
  copyLeft : Option Nat
  dirLeft : FilePath → Bool

def noFaults : Faults := ⟨fun _ => none, fun _ => 0, none, fun _ => false⟩

def chunkPath (dir : List String) (i : Nat) : FilePath := (dir, s!"chunk_{i}")

def chunkContent (fs : FileTree) (dir : List String) (i : Nat) : Content :=
  (fs.content? (chunkPath dir i)).getD []

/-- What the chunks hold together. -/
def stagedContent (fs : FileTree) (dir : List String) (totalChunks : Int) : Content :=
  (List.range totalChunks.toNat).flatMap (chunkContent fs dir)

namespace Faults

variable (faults : Faults) (fs : FileTree)

/-- `exists` is false where it cannot tell. -/
def finds (op : FileOp) (path : FilePath) : Bool := (faults.error op).isNone && (fs path).isSome

/-- A removal that nobody asks whether it has worked. -/
def remove (op : FileOp) (path : FilePath) : FileTree :=
  if (faults.error op).isNone ∧ (fs.content? path).isSome then fs.removeFile path else fs

def createParent (path : FilePath) : Except IoError FileTree :=
  match faults.error .createParent with
  | some e => .error e
  | none => .ok (fs.createDirAll path.1)

def removeDir (dir : List String) : FileTree := fun path =>
  if (faults.error .removeDir).isSome ∧ faults.dirLeft path then fs path
  else fs.removeDirAll dir path

end Faults

section

variable (fs : FileTree) (dir : List String) (faults : Faults)

/-- The sizes of the chunks, if all of them are there. -/
def expectedSize : List Nat → Except String Nat
  | [] => .ok 0
  | i :: rest =>
    if !faults.finds fs (.findChunk i) (chunkPath dir i) then .error s!"Missing chunk {i}"
    else match faults.error (.statChunk i), expectedSize rest with
      | some e, _ => .error s!"chunk {i} stat: {e}"
      | none, .error e => .error e
      | none, .ok size => .ok ((chunkContent fs dir i).length + size)

/-- What is merged of the chunks, and the error that ends it. -/
def appendChunks (merged : Content) : List Nat → Content × Option String
  | [] => (merged, (faults.error .flushMerged).map fun e => s!"merge flush: {e}")
  | i :: rest =>
    match faults.error (.openChunk i), fs (chunkPath dir i) with
    | some e, _ => (merged, some s!"chunk {i} open: {e}")
    | none, none => (merged, some s!"chunk {i} open: {noSuchFile}")
    | none, some .directory => (merged, some s!"chunk {i} read: {isADirectory}")
    | none, some (.file content) =>
      match faults.error (.readChunk i), faults.error (.writeChunk i) with
      | some e, _ => (merged ++ content.take (faults.chunkPart i), some s!"chunk {i} read: {e}")
      | none, some e => (merged ++ content.take (faults.chunkPart i), some s!"merge write: {e}")
      | none, none => appendChunks (merged ++ content) rest

def mergeChunksTo (totalChunks : Int) (out : FilePath) : FileTree × Option String :=
  match faults.error .createMerged, fs out with
  | some e, _ => (fs, some s!"merge create: {e}")
  | none, some .directory => (fs, some s!"merge create: {isADirectory}")
  | none, _ =>
    let (merged, error) := appendChunks fs dir faults [] (List.range totalChunks.toNat)
    (fs.put out merged, error)

end

section

variable (staging : String → List String) (processId : Nat) (inDataDir : String → FilePath)
  (sha : Sha) (fs : FileTree) (T : AppFileTable) (faults : Faults) (call : MergeRequest)

/-- `perform_merge` up to the merged temp file, with its size. -/
def mergeStaged : FileTree × Except String Nat :=
  let dir := staging call.fileId
  let temp := tempMerge staging processId call.fileId
  if !faults.finds fs .findDir (directoryPath dir) then
    (fs, .error s!"No chunks found for {call.fileId}")
  else match expectedSize fs dir faults (List.range call.totalChunks.toNat) with
    | .error e => (fs, .error e)
    | .ok expected =>
      match mergeChunksTo fs dir faults call.totalChunks temp with
      | (fs, some e) => (faults.remove fs .removeMerged temp, .error e)
      | (fs, none) =>
        let size := if (faults.error .statMerged).isSome then 0
          else (fs.content? temp).elim 0 List.length
        if size ≠ expected then
          (faults.remove fs .removeMerged temp,
            .error s!"Merge integrity failed: expected {expected}, got {size}")
        else (fs, .ok size)

/-- The path that a merge is saved at. -/
def finalPath (target : FilePath) (replace : Bool) : FilePath :=
  if replace then target
  else if faults.finds fs .findTarget target then
    (target.1, uniqueSibling (fun name => faults.finds fs (.findName name) (target.1, name))
      target.2)
  else target

/-- A target that is to be replaced is removed. -/
def removeTarget (target : FilePath) (replace : Bool) : FileTree :=
  if replace && faults.finds fs .findTarget target then faults.remove fs .removeTarget target
  else fs

/-- The merged file is renamed to its final path, or else copied. -/
def renameOrCopy (temp final : FilePath) : FileTree × Except String String :=
  match fs.rename temp final (faults.error .rename) with
  | .ok fs => (fs, .ok final.2)
  | .error _ =>
    match fs.copy temp final (faults.error .copy) faults.copyLeft with
    | (fs, some e) => (fs, .error s!"save merged file: {e}")
    | (fs, none) => (faults.remove fs .removeMerged temp, .ok final.2)

def saveFile (temp target : FilePath) (replace : Bool) : FileTree × Except String String :=
  let fs := (faults.createParent fs target).toOption.getD fs
  renameOrCopy (removeTarget fs faults target replace) faults temp
    (finalPath fs faults target replace)

/-- The row that an import of the content finds. -/
def foundRow (src : ImportSource) : Option DAppFile :=
  (src.probe sha T).or (T.find? (src.strongHash sha))

/-- Where the app file of a content is, or is put. -/
def storePath (src : ImportSource) : FilePath :=
  inDataDir ((foundRow sha T src).elim (relativeDestPath (src.strongHash sha) src.ext) (·.realPath))

variable {sha T} in
theorem storePath_found {src : ImportSource} {row : DAppFile} (h : foundRow sha T src = some row) :
    storePath inDataDir sha T src = inDataDir row.realPath := by
  rw [storePath, h]
  rfl

variable {sha T} in
theorem storePath_new {src : ImportSource} (h : foundRow sha T src = none) :
    storePath inDataDir sha T src =
      inDataDir (relativeDestPath (src.strongHash sha) src.ext) := by
  rw [storePath, h]
  rfl

/-- What is copied to its place among the app files. -/
def copyToStore (temp realPath : FilePath) : FileTree × Option IoError :=
  match faults.createParent fs realPath with
  | .error e => (fs, some e)
  | .ok fs => fs.copy temp realPath (faults.error .copy) faults.copyLeft

/-- A merged file comes without a MIME type. -/
def mergedSource (content : Content) (fileName : String) : ImportSource where
  content := content
  fileName := some fileName
  mimeType := ""

/-- `import_file` of a merged file. -/
def importMerged (temp : FilePath) (fileName : String) :
    FileTree × AppFileTable × Except IoError ImportResult :=
  match faults.error .weakHash, faults.error .strongHash, fs.content? temp with
  | some e, _, _ | none, some e, _ => (fs, T, .error e)
  | none, none, none => (fs, T, .error noSuchFile)
  | none, none, some content =>
    let src := mergedSource content fileName
    match foundRow sha T src with
    | some row =>
      let T := AppFileTable.increment T (src.strongHash sha)
      if faults.finds fs .findCanonical (inDataDir row.realPath) then
        (fs, T, .ok (src.reuse sha row))
      else match copyToStore fs faults temp (inDataDir row.realPath) with
        | (fs, some e) => (fs, T, .error e)
        | (fs, none) => (fs, T, .ok (src.reuse sha row))
    | none =>
      match copyToStore fs faults temp
          (inDataDir (relativeDestPath (src.strongHash sha) src.ext)) with
      | (fs, some e) => (fs, T, .error e)
      | (fs, none) => (fs, T.insert (src.record sha), .ok (src.inserted sha))

/-- `perform_merge`: the value token and the merged size. -/
def performMerge : FileTree × AppFileTable × Except String (String × Nat) :=
  let dir := staging call.fileId
  let temp := tempMerge staging processId call.fileId
  match mergeStaged staging processId fs faults call with
  | (fs, .error e) => (fs, T, .error e)
  | (fs, .ok size) =>
    match call.kind with
    | .appFile fileName =>
      match importMerged inDataDir sha fs T faults temp fileName with
      | (fs, T, .error e) => (fs, T, .error s!"import failed: {e}")
      | (fs, T, .ok result) =>
        (faults.remove (faults.removeDir fs dir) .removeMerged temp, T,
          .ok (result.fidSuffix, size))
    | .file path replace =>
      match saveFile fs faults temp path replace with
      | (fs, .error e) => (fs, T, .error e)
      | (fs, .ok name) => (faults.removeDir fs dir, T, .ok (name, size))

def mergedContent : Content := stagedContent fs (staging call.fileId) call.totalChunks

/-- The files once the chunks are merged into the temp file. -/
def withMerged : FileTree :=
  fs.put (tempMerge staging processId call.fileId) (mergedContent staging fs call)

end

/-! What a merge does once it is past each stage. -/

section

variable {fs : FileTree} {dir : List String} {faults : Faults} {merged : Content} {is : List Nat}

/-- The chunk is there when the sizes are added up. -/
def Counted (fs : FileTree) (dir : List String) (faults : Faults) (i : Nat) : Prop :=
  faults.finds fs (.findChunk i) (chunkPath dir i) ∧ faults.error (.statChunk i) = none

/-- The chunk is a regular file, and nothing fails while it is merged. -/
def Readable (fs : FileTree) (dir : List String) (faults : Faults) (i : Nat) : Prop :=
  (fs.content? (chunkPath dir i)).isSome ∧ faults.error (.openChunk i) = none ∧
    faults.error (.readChunk i) = none ∧ faults.error (.writeChunk i) = none

theorem expectedSize_ok {n : Nat} : expectedSize fs dir faults is = .ok n ↔
    (∀ i ∈ is, Counted fs dir faults i) ∧ n = (is.flatMap (chunkContent fs dir)).length := by
  induction is generalizing n with
  | nil => simp [expectedSize, eq_comm]
  | cons i is ih =>
    by_cases hf : faults.finds fs (.findChunk i) (chunkPath dir i) = true
    · cases hs : faults.error (.statChunk i) with
      | some e => simp [expectedSize, Counted, hf, hs]
      | none =>
        cases hr : expectedSize fs dir faults is with
        | error e =>
          have hnone : ¬ ∀ j ∈ is, Counted fs dir faults j := fun h => by
            simpa [hr] using ih.mpr ⟨h, rfl⟩
          simp [expectedSize, hf, hs, hr]
          exact fun _ h => (hnone h).elim
        | ok size =>
          obtain ⟨hall, rfl⟩ := ih.mp hr
          have hcounted : Counted fs dir faults i := ⟨hf, hs⟩
          have hcons : ∀ j ∈ i :: is, Counted fs dir faults j := by
            simpa using ⟨hcounted, hall⟩
          simp only [expectedSize, hf, hs, hr, Bool.not_true, Bool.false_eq_true, if_false,
            List.flatMap_cons, List.length_append, Except.ok.injEq]
          exact ⟨fun h => ⟨hcons, h.symm⟩, fun h => h.2.symm⟩
    · simp [expectedSize, Counted, hf]

theorem appendChunks_none : (appendChunks fs dir faults merged is).2 = none ↔
    (∀ i ∈ is, Readable fs dir faults i) ∧ faults.error .flushMerged = none := by
  induction is generalizing merged with
  | nil => simp [appendChunks]
  | cons i is ih =>
    cases ho : faults.error (.openChunk i) with
    | some e => simp [appendChunks, Readable, ho]
    | none =>
      rcases hc : fs (chunkPath dir i) with _ | content | _
      · simp [appendChunks, Readable, FileTree.content?, ho, hc]
      · cases hr : faults.error (.readChunk i) with
        | some e => simp [appendChunks, Readable, ho, hc, hr]
        | none =>
          cases hw : faults.error (.writeChunk i) with
          | some e => simp [appendChunks, Readable, ho, hc, hr, hw]
          | none => simp [appendChunks, Readable, FileTree.content?, ho, hc, hr, hw, ih]
      · simp [appendChunks, Readable, FileTree.content?, ho, hc]

theorem appendChunks_merged (merged : Content) (h : ∀ i ∈ is, Readable fs dir faults i) :
    (appendChunks fs dir faults merged is).1 = merged ++ is.flatMap (chunkContent fs dir) := by
  induction is generalizing merged with
  | nil => simp [appendChunks]
  | cons i is ih =>
    obtain ⟨hc, ho, hr, hw⟩ := h i (by simp)
    have hrest := fun m => ih m fun j hj => h j (by simp [hj])
    rcases he : fs (chunkPath dir i) with _ | content | _
    · simp [FileTree.content?, he] at hc
    · simp [appendChunks, chunkContent, FileTree.content?, he, ho, hr, hw, hrest]
    · simp [FileTree.content?, he] at hc

end

section

variable {fs : FileTree} {faults : Faults} {path : FilePath} {content : Content} {error : IoError}

theorem createParent_ok {fs' : FileTree} (h : faults.createParent fs path = .ok fs') :
    fs' = fs.createDirAll path.1 ∧ faults.error .createParent = none := by
  unfold Faults.createParent at h
  cases he : faults.error .createParent with
  | some e => simp [he] at h
  | none =>
    simp only [he, Except.ok.injEq] at h
    exact ⟨h.symm, rfl⟩

theorem createParent_error (h : faults.createParent fs path = .error error) :
    faults.error .createParent = some error := by
  unfold Faults.createParent at h
  cases he : faults.error .createParent with
  | some e => simpa [he] using h
  | none => simp [he] at h

theorem finds_createParent {fs' : FileTree} (op : FileOp) (name : String)
    (h : fs' = (faults.createParent fs path).toOption.getD fs) :
    faults.finds fs' op (path.1, name) = faults.finds fs op (path.1, name) := by
  cases hp : faults.createParent fs path with
  | error e =>
    have hfs : fs' = fs := by simpa [hp, Except.toOption] using h
    rw [hfs]
  | ok made =>
    have hfs : fs' = made := by simpa [hp, Except.toOption] using h
    rw [hfs, (createParent_ok hp).1]
    simp [Faults.finds, createDirAll_beside]

theorem finalPath_createParent {fs' : FileTree} {replace : Bool}
    (h : fs' = (faults.createParent fs path).toOption.getD fs) :
    finalPath fs' faults path replace = finalPath fs faults path replace := by
  have hfind : faults.finds fs' .findTarget path = faults.finds fs .findTarget path :=
    finds_createParent .findTarget path.2 h
  have hnames : (fun name => faults.finds fs' (.findName name) (path.1, name)) =
      fun name => faults.finds fs (.findName name) (path.1, name) :=
    funext fun name => finds_createParent _ name h
  unfold finalPath
  rw [hfind, hnames]

theorem createParent_at {fs' : FileTree} {entry : Entry} {target : FilePath}
    (h : fs' = (faults.createParent fs target).toOption.getD fs) (hp : fs path = some entry) :
    fs' path = some entry := by
  cases hc : faults.createParent fs target with
  | error e =>
    have hfs : fs' = fs := by simpa [hc, Except.toOption] using h
    rw [hfs, hp]
  | ok made =>
    have hfs : fs' = made := by simpa [hc, Except.toOption] using h
    rw [hfs, (createParent_ok hc).1]
    exact createDirAll_at _ hp

theorem removeTarget_of_not {target : FilePath} {replace : Bool}
    (h : ¬ (replace = true ∧ faults.error .removeTarget = none ∧
      faults.finds fs .findTarget target = true)) :
    removeTarget fs faults target replace = fs := by
  unfold removeTarget
  split
  · next hf =>
    obtain ⟨hr, hfind⟩ := Bool.and_eq_true_iff.mp hf
    have herr : faults.error .removeTarget ≠ none := fun hn => h ⟨hr, hn, hfind⟩
    unfold Faults.remove
    rw [if_neg]
    exact fun hn => herr (Option.isNone_iff_eq_none.mp hn.1)
  · rfl

theorem removeTarget_at {target : FilePath} {replace : Bool}
    (h : replace = true ∧ faults.error .removeTarget = none ∧
      faults.finds fs .findTarget target = true) (hp : fs target = some (.file content)) :
    removeTarget fs faults target replace = fs.removeFile target := by
  obtain ⟨hr, he, hf⟩ := h
  have hc : (fs.content? target).isSome := by rw [content?_eq.mpr hp]; rfl
  simp [removeTarget, Faults.remove, hr, he, hf, hc]

theorem removeTarget_other {target : FilePath} {replace : Bool} (h : path ≠ target) :
    removeTarget fs faults target replace path = fs path := by
  have hfile : fs.removeFile target path = fs path := Function.update_of_ne h _ _
  unfold removeTarget Faults.remove
  split
  · split
    · exact hfile
    · rfl
  · rfl

theorem mergeChunksTo_other {dir : List String} {total : Int} {out : FilePath} (h : path ≠ out) :
    (mergeChunksTo fs dir faults total out).1 path = fs path := by
  unfold mergeChunksTo
  split
  · rfl
  · rfl
  · exact Function.update_of_ne h _ _

theorem remove_other {op : FileOp} {out : FilePath} (h : path ≠ out) :
    faults.remove fs op out path = fs path := by
  unfold Faults.remove
  split
  · exact Function.update_of_ne h _ _
  · rfl

theorem remove_file {op : FileOp} : faults.remove fs op path path = some (.file content) ↔
    (faults.error op).isSome ∧ fs path = some (.file content) := by
  unfold Faults.remove
  cases he : faults.error op with
  | some e => simp
  | none =>
    rcases hp : fs path with _ | c | _ <;> simp [FileTree.content?, FileTree.removeFile, hp]

end

theorem ne_chunkPath (staging : String → List String) (processId : Nat) (fileId : String)
    (dir : List String) (i : Nat) : chunkPath dir i ≠ tempMerge staging processId fileId := by
  intro h
  have hname := congrArg (fun path => path.2.toList.head?) h
  have hchunk : (toString "chunk_").toList.head? = some 'c' := by decide
  have htemp : (toString ".merge_tmp_").toList.head? = some '.' := by decide
  simp [chunkPath, tempMerge, hchunk, htemp] at hname

section

variable {staging : String → List String} {processId : Nat} {fs : FileTree} {faults : Faults}
  {call : MergeRequest} {path : FilePath} {content : Content}

/-- The directory and the chunks are there when the sizes are added up. -/
def AllCounted (staging : String → List String) (fs : FileTree) (faults : Faults)
    (call : MergeRequest) : Prop :=
  faults.finds fs .findDir (directoryPath (staging call.fileId)) ∧
    ∀ i ∈ List.range call.totalChunks.toNat, Counted fs (staging call.fileId) faults i

/-- The chunks get merged into the temp file, and its size is found to be right. -/
structure Mergeable (staging : String → List String) (processId : Nat) (fs : FileTree)
    (faults : Faults) (call : MergeRequest) : Prop where
  counted : AllCounted staging fs faults call
  created : faults.error .createMerged = none ∧
    fs (tempMerge staging processId call.fileId) ≠ some .directory
  readable : ∀ i ∈ List.range call.totalChunks.toNat, Readable fs (staging call.fileId) faults i
  flushed : faults.error .flushMerged = none
  sized : faults.error .statMerged = none ∨
    stagedContent fs (staging call.fileId) call.totalChunks = []

theorem mergeChunksTo_none {dir : List String} {out : FilePath} :
    (mergeChunksTo fs dir faults call.totalChunks out).2 = none ↔
      (faults.error .createMerged = none ∧ fs out ≠ some .directory) ∧
        (∀ i ∈ List.range call.totalChunks.toNat, Readable fs dir faults i) ∧
          faults.error .flushMerged = none := by
  cases hc : faults.error .createMerged with
  | some e => simp [mergeChunksTo, hc]
  | none =>
    rcases ho : fs out with _ | old | _ <;>
      simp [mergeChunksTo, hc, ho, appendChunks_none]

theorem mergeChunksTo_eq {dir : List String} {out : FilePath}
    (hc : faults.error .createMerged = none ∧ fs out ≠ some .directory)
    (hr : ∀ i ∈ List.range call.totalChunks.toNat, Readable fs dir faults i) :
    (mergeChunksTo fs dir faults call.totalChunks out).1 =
      fs.put out (stagedContent fs dir call.totalChunks) := by
  have hmerged := appendChunks_merged [] hr
  rcases ho : fs out with _ | old | _
  · simp [mergeChunksTo, hc.1, ho, hmerged, stagedContent]
  · simp [mergeChunksTo, hc.1, ho, hmerged, stagedContent]
  · exact (hc.2 ho).elim

variable (processId) in
theorem mergeStaged_uncounted (h : ¬ AllCounted staging fs faults call) :
    ∃ e, mergeStaged staging processId fs faults call = (fs, .error e) := by
  unfold mergeStaged
  by_cases hd : faults.finds fs .findDir (directoryPath (staging call.fileId)) = true
  · cases he : expectedSize fs (staging call.fileId) faults
      (List.range call.totalChunks.toNat) with
    | error e => exact ⟨e, by simp [hd, he]⟩
    | ok n => exact (h ⟨hd, (expectedSize_ok.mp he).1⟩).elim
  · exact ⟨_, by simp only [hd]; rfl⟩

theorem mergeStaged_counted (h : AllCounted staging fs faults call) :
    mergeStaged staging processId fs faults call =
      match mergeChunksTo fs (staging call.fileId) faults call.totalChunks
        (tempMerge staging processId call.fileId) with
      | (fs', some e) =>
        (faults.remove fs' .removeMerged (tempMerge staging processId call.fileId), .error e)
      | (fs', none) =>
        let expected := (stagedContent fs (staging call.fileId) call.totalChunks).length
        let size := if (faults.error .statMerged).isSome then 0
          else (fs'.content? (tempMerge staging processId call.fileId)).elim 0 List.length
        if size ≠ expected then
          (faults.remove fs' .removeMerged (tempMerge staging processId call.fileId),
            .error s!"Merge integrity failed: expected {expected}, got {size}")
        else (fs', .ok size) := by
  have hsize : expectedSize fs (staging call.fileId) faults
      (List.range call.totalChunks.toNat) =
        .ok (stagedContent fs (staging call.fileId) call.totalChunks).length :=
    expectedSize_ok.mpr ⟨h.2, rfl⟩
  unfold mergeStaged
  simp only [h.1, hsize]
  rfl

@[simp] theorem content?_put (merged : Content) :
    (fs.put path merged).content? path = some merged := by
  simp [FileTree.content?, FileTree.put]

theorem mergeStaged_mergeable (h : Mergeable staging processId fs faults call) :
    mergeStaged staging processId fs faults call =
      (fs.put (tempMerge staging processId call.fileId)
        (stagedContent fs (staging call.fileId) call.totalChunks),
        .ok (stagedContent fs (staging call.fileId) call.totalChunks).length) := by
  have hnone := mergeChunksTo_none.mpr ⟨h.created, h.readable, h.flushed⟩
  have hmerged : mergeChunksTo fs (staging call.fileId) faults call.totalChunks
      (tempMerge staging processId call.fileId) = (fs.put (tempMerge staging processId call.fileId)
        (stagedContent fs (staging call.fileId) call.totalChunks), none) :=
    Prod.ext (mergeChunksTo_eq h.created h.readable) hnone
  rw [mergeStaged_counted h.counted, hmerged]
  rcases h.sized with hs | hs
  · simp [hs]
  · cases he : faults.error .statMerged <;> simp [hs]

variable (processId) in
theorem mergeStaged_unmergeable (hc : AllCounted staging fs faults call)
    (h : ¬ Mergeable staging processId fs faults call) :
    ∃ e, mergeStaged staging processId fs faults call =
      (faults.remove (mergeChunksTo fs (staging call.fileId) faults call.totalChunks
        (tempMerge staging processId call.fileId)).1 .removeMerged
          (tempMerge staging processId call.fileId), .error e) := by
  rw [mergeStaged_counted hc]
  rcases hm : mergeChunksTo fs (staging call.fileId) faults call.totalChunks
    (tempMerge staging processId call.fileId) with ⟨fs', error⟩
  cases error with
  | some e => exact ⟨e, rfl⟩
  | none =>
    obtain ⟨hcreate, hread, hflush⟩ := mergeChunksTo_none.mp (by rw [hm])
    have hfs : fs' = fs.put (tempMerge staging processId call.fileId)
        (stagedContent fs (staging call.fileId) call.totalChunks) := by
      rw [← mergeChunksTo_eq hcreate hread, hm]
    have hsized : ¬ (faults.error .statMerged = none ∨
        stagedContent fs (staging call.fileId) call.totalChunks = []) :=
      fun hs => h ⟨hc, hcreate, hread, hflush, hs⟩
    obtain ⟨hstat, hsome⟩ := not_or.mp hsized
    have hsize : (0 : Nat) ≠ (stagedContent fs (staging call.fileId) call.totalChunks).length :=
      fun h0 => hsome (List.length_eq_zero_iff.mp h0.symm)
    simp only [Option.isSome_iff_ne_none.mpr hstat, if_true, if_pos hsize]
    exact ⟨_, rfl⟩

variable (staging processId fs call) in
theorem withMerged_temp : withMerged staging processId fs call
    (tempMerge staging processId call.fileId) = some (.file (mergedContent staging fs call)) :=
  Function.update_self _ _ _

theorem withMerged_other (h : path ≠ tempMerge staging processId call.fileId) :
    withMerged staging processId fs call path = fs path :=
  Function.update_of_ne h _ _

end

end PlainRs.FileUpload
