import PlainRs.Base.Components
import PlainRs.LocalApi.FileUpload.PerformMerge

/-! The staging directories by the file ids that clients send, and the operations on them. -/
namespace PlainRs.FileUpload

open Chat Components

/-- The data directory, by its names from the root. -/
structure DataDir where
  dirs : List String
  plain : ∀ name ∈ dirs, Plain name

def notADirectory : IoError := "Not a directory (os error 20)"

def fileExists : IoError := "File exists (os error 17)"

def nulInPath : IoError := "file name contained an unexpected NUL byte"

namespace FileTree

variable (fs : FileTree)

def isDir (dir : List String) : Bool := dir = [] ∨ fs (directoryPath dir) = some .directory

/-- `create_dir_all`: what is not there on the way is made. -/
def createDirs (fs : FileTree) :
    List String → List Component → FileTree × Except IoError (List String)
  | dir, [] => (fs, .ok dir)
  | dir, .parentDir :: cs => createDirs fs dir.dropLast cs
  | dir, .normal name :: cs =>
    match fs (dir, name) with
    | none => createDirs (Function.update fs (dir, name) (some .directory)) (dir ++ [name]) cs
    | some .directory => createDirs fs (dir ++ [name]) cs
    | some (.file _) => (fs, .error (if cs = [] then fileExists else notADirectory))

/-- `write`; with a fault, how much it has written if it got to open the file. -/
def write (path : FilePath) (content : Content) (fault : Option (IoError × Option Nat)) :
    FileTree × Option IoError :=
  match fs path, fault with
  | some .directory, _ => (fs, some isADirectory)
  | _, none => (fs.put path content, none)
  | _, some (e, left) => (left.elim fs fun n => fs.put path (content.take n), some e)

end FileTree

section

variable (data : DataDir) (fs : FileTree) (fileId : String)

/-- `chunk_dir`; no operation takes a path with a NUL in it. -/
def chunkDirOf : Option (List Component) :=
  if '\x00' ∈ fileId.toList then none else some (join (data.dirs ++ ["upload_tmp"]) fileId)

/-- Where the directory is, if the way to it is there. -/
def foundDir : Option (List String) := (chunkDirOf data fileId).bind (resolve fs.isDir [])

/-- `delete_chunks`; what is no directory is not removed. -/
def deleteChunks (faults : Faults) : FileTree :=
  match foundDir data fs fileId with
  | none => fs
  | some dir =>
    if (faults.error .findDir).isNone && fs.isDir dir then faults.removeDir fs dir else fs

end

/-- A chunk, with the index and the size that its `info` gives. -/
structure ChunkUpload where
  index : Int
  size : Int
  body : Content

/-- What fails of a chunk upload: making the directory, after so many components; writing the chunk;
asking its size; removing it. -/
structure ChunkFaults where
  createDir : Option (IoError × Nat)
  write : Option (IoError × Option Nat)
  stat : Bool
  remove : Bool

def asI32 (n : Int) : Int := n.bmod (2 ^ 32)

/-- `create_dir_all` of the staging directory. -/
def createStaging (data : DataDir) (fs : FileTree) (fileId : String)
    (fault : Option (IoError × Nat)) : FileTree × Except IoError (List String) :=
  match chunkDirOf data fileId, fault with
  | none, _ => (fs, .error nulInPath)
  | some cs, none => fs.createDirs [] cs
  | some cs, some (e, n) => ((fs.createDirs [] (cs.take n)).1, .error e)

/-- `handle_upload_chunk` of a decoded `info`: the status and the body of the response. -/
def uploadChunk (data : DataDir) (fs : FileTree) (fileId : String) (chunk : ChunkUpload)
    (faults : ChunkFaults) : FileTree × Nat × String :=
  let index := asI32 chunk.index
  let savedSize : Nat := chunk.body.length
  if fileId = "" ∨ index < 0 then (fs, 400, "fileId or index is missing or invalid")
  else if 0 < chunk.size ∧ (savedSize : Int) ≠ chunk.size then
    (fs, 400, s!"Chunk {index} size mismatch: expected {chunk.size}, received {savedSize}")
  else match createStaging data fs fileId faults.createDir with
    | (fs, .error e) => (fs, 500, s!"create_dir_all failed: {e}")
    | (fs, .ok dir) =>
      let path := chunkPath dir index.toNat
      match fs.write path chunk.body faults.write with
      | (fs, some e) => (fs, 500, s!"chunk write failed: {e}")
      | (fs, none) =>
        let finalSize := if faults.stat then 0 else savedSize
        if 0 < chunk.size ∧ (finalSize : Int) ≠ chunk.size then
          (if faults.remove then fs else fs.removeFile path, 400,
            s!"Chunk {index} final size mismatch: expected {chunk.size}, saved {finalSize}")
        else (fs, 201, s!"{index}:{finalSize}")

/-- The temp file of a merge in the directory, if the way to it is there: the file id is a part of
its path. -/
def tempMergeIn (fs : FileTree) (dir : List String) (processId : Nat) (fileId : String) :
    Option FilePath :=
  let cs := components s!".merge_tmp_{fileId}_{processId}"
  match cs.getLast? with
  | some (.normal name) => ((resolve fs.isDir dir cs.dropLast).filter fs.isDir).map (·, name)
  | _ => none

section

variable (inDataDir : String → FilePath) (sha : Sha) (fs : FileTree) (T : AppFileTable)
  (faults : Faults) (call : MergeRequest) (dir : List String)

/-- The directory exists; the root always does. -/
def findsDir : Bool :=
  faults.finds fs .findDir (directoryPath dir) || dir = [] && (faults.error .findDir).isNone

/-- `perform_merge` in a directory up to the merged temp file, with its size. -/
def mergeStagedIn (temp : FilePath) : FileTree × Except String Nat :=
  if !findsDir fs faults dir then
    (fs, .error s!"No chunks found for {call.fileId}")
  else match expectedSize fs dir faults (List.range call.totalChunks.toNat) with
    | .error e => (fs, .error e)
    | .ok expected =>
      match mergeChunksTo fs dir faults call.totalChunks temp with
      | (fs, some e) => (faults.remove fs .removeMerged temp, .error e)
      | (fs, none) =>
        let size := if (faults.error .statMerged).isSome then 0
          else (fs.content? temp).elim 0 List.length
        if size ≠ expected then
          (faults.remove fs .removeMerged temp,
            .error s!"Merge integrity failed: expected {expected}, got {size}")
        else (fs, .ok size)

/-- `perform_merge` in a directory, with a temp file. -/
def mergeIn (temp : FilePath) : FileTree × AppFileTable × Except String (String × Nat) :=
  match mergeStagedIn fs faults call dir temp with
  | (fs, .error e) => (fs, T, .error e)
  | (fs, .ok size) =>
    match call.kind with
    | .appFile fileName =>
      match importMerged inDataDir sha fs T faults temp fileName with
      | (fs, T, .error e) => (fs, T, .error s!"import failed: {e}")
      | (fs, T, .ok result) =>
        (faults.remove (faults.removeDir fs dir) .removeMerged temp, T,
          .ok (result.fidSuffix, size))
    | .file path replace =>
      match saveFile fs faults temp path replace with
      | (fs, .error e) => (fs, T, .error e)
      | (fs, .ok name) => (faults.removeDir fs dir, T, .ok (name, size))

/-- The merge of a plain file id is that of `performMerge`. -/
theorem performMerge_eq (staging : String → List String) (processId : Nat)
    (h : staging call.fileId ≠ []) :
    performMerge staging processId inDataDir sha fs T faults call =
      mergeIn inDataDir sha fs T faults call (staging call.fileId)
        (tempMerge staging processId call.fileId) := by
  have hdir : findsDir fs faults (staging call.fileId) =
      faults.finds fs .findDir (directoryPath (staging call.fileId)) := by simp [findsDir, h]
  unfold performMerge mergeStaged mergeIn mergeStagedIn
  generalize findsDir fs faults (staging call.fileId) = found at hdir ⊢
  subst hdir
  rfl

/-- The merge of any file id. -/
def mergeUpload (data : DataDir) (processId : Nat) :
    FileTree × AppFileTable × Except String (String × Nat) :=
  match foundDir data fs call.fileId with
  | none => (fs, T, .error s!"No chunks found for {call.fileId}")
  | some dir =>
    match tempMergeIn fs dir processId call.fileId with
    | some temp => mergeIn inDataDir sha fs T faults call dir temp
    | none =>
      if !findsDir fs faults dir then
        (fs, T, .error s!"No chunks found for {call.fileId}")
      else match expectedSize fs dir faults (List.range call.totalChunks.toNat) with
        | .error e => (fs, T, .error e)
        | .ok _ => (fs, T, .error s!"merge create: {noSuchFile}")

end

/-- A request of a client with a file id, and what fails of it. -/
inductive StagingOp
  | deleteChunks (faults : Faults)
  | uploadChunk (chunk : ChunkUpload) (faults : ChunkFaults)
  | merge (totalChunks : Int) (kind : MergeKind) (faults : Faults)

section

variable (data : DataDir) (processId : Nat) (inDataDir : String → FilePath) (sha : Sha)
  (fileId : String) (fs : FileTree) (T : AppFileTable)

/-- The files that a request leaves. -/
def StagingOp.run : StagingOp → FileTree
  | .deleteChunks faults => FileUpload.deleteChunks data fs fileId faults
  | .uploadChunk chunk faults => (FileUpload.uploadChunk data fs fileId chunk faults).1
  | .merge totalChunks kind faults =>
    (mergeUpload inDataDir sha fs T faults ⟨fileId, totalChunks, kind⟩ data processId).1

/-- What a merge is saved at: the path that is named or a sibling of it, or the app file. -/
def StagingOp.Target : StagingOp → FilePath → Prop
  | .merge totalChunks kind _, path =>
    match kind with
    | .file target _ => path = target ∨ ∃ n, path = sibling target n
    | .appFile fileName => path = storePath inDataDir sha T
        (mergedSource (stagedContent fs (chunkDir data.dirs fileId) totalChunks) fileName)
  | _, _ => False

end

/-- Everything outside of the directory and of the targets is as before, but for directories that
are made on the way to them. -/
def Confined (dir : List String) (Target : FilePath → Prop) (fs fs' : FileTree) : Prop :=
  ∀ path, ¬ Within path dir → ¬ Target path → fs' path = fs path ∨
    fs path = none ∧ fs' path = some .directory ∧
      (path.1 ++ [path.2] <+: dir ∨ ∃ target, Target target ∧ path.1 ++ [path.2] <+: target.1)

end PlainRs.FileUpload
