import PlainRs.Chat.AppFileStore
import PlainRs.Utils.UniquePath

/-! The files and directories that merges read and write. -/
namespace PlainRs.FileUpload

open Chat Utils

/-- A directory by its components from the root, and a name in it. -/
abbrev FilePath := List String × String

inductive Entry
  | file (content : Content)
  | directory
  deriving DecidableEq

abbrev FileTree := FilePath → Option Entry

/-- Whether a path is a directory, or below it. -/
def Within (path : FilePath) (dir : List String) : Prop := dir <+: path.1 ++ [path.2]

instance (path : FilePath) (dir : List String) : Decidable (Within path dir) :=
  inferInstanceAs (Decidable (dir <+: path.1 ++ [path.2]))

theorem within_mk (dir : List String) (name : String) : Within (dir, name) dir :=
  List.prefix_append _ _

/-- The path of a directory, in the one that it is in. -/
def directoryPath (dir : List String) : FilePath := (dir.dropLast, dir.getLastD "")

/-- The text of an `io::Error`. -/
abbrev IoError := String

def noSuchFile : IoError := "No such file or directory (os error 2)"

def isADirectory : IoError := "Is a directory (os error 21)"

namespace FileTree

variable (fs : FileTree) (path : FilePath)

/-- The content of a regular file. -/
def content? : Option Content :=
  match fs path with
  | some (.file content) => some content
  | _ => none

def put (content : Content) : FileTree := Function.update fs path (some (.file content))

def removeFile : FileTree := Function.update fs path none

omit path in
def removeDirAll (dir : List String) : FileTree := fun path =>
  if Within path dir then none else fs path

omit path in
/-- The directories on the way that are not there are made. -/
def createDirAll (dir : List String) : FileTree := fun path =>
  if fs path = none ∧ path.1 ++ [path.2] <+: dir then some .directory else fs path

omit path in
/-- `rename`; a fault that is given is its error. -/
def rename (src dst : FilePath) : Option IoError → Except IoError FileTree
  | some e => .error e
  | none =>
    match fs.content? src, fs dst with
    | none, _ => .error noSuchFile
    | some _, some .directory => .error isADirectory
    | some content, _ => .ok ((fs.removeFile src).put dst content)

omit path in
/-- `copy`; with a fault, `left` is how much it has written if it got to open its destination. A
file that is copied onto itself is empty before it is read. -/
def copy (src dst : FilePath) (fault : Option IoError) (left : Option Nat) :
    FileTree × Option IoError :=
  match fs.content? src, fs dst with
  | none, _ => (fs, some noSuchFile)
  | some _, some .directory => (fs, some isADirectory)
  | some content, _ =>
    let data := if src = dst then [] else content
    match fault with
    | none => (fs.put dst data, none)
    | some e => (left.elim fs fun n => fs.put dst (data.take n), some e)

end FileTree

section

variable {fs : FileTree} {src dst path : FilePath} {content merged : Content} {error : IoError}

theorem createDirAll_at {entry : Entry} (dir : List String) (h : fs path = some entry) :
    fs.createDirAll dir path = some entry := by
  simp [FileTree.createDirAll, h]

/-- No directory is made where a name beside the path is. -/
theorem createDirAll_beside (name : String) :
    fs.createDirAll path.1 (path.1, name) = fs (path.1, name) := by
  have hprefix : ¬ path.1 ++ [name] <+: path.1 := fun h => by
    have := h.length_le
    simp at this
  simp [FileTree.createDirAll, hprefix]

theorem content?_eq : fs.content? path = some content ↔ fs path = some (.file content) := by
  rcases h : fs path with _ | c | _ <;> simp [FileTree.content?, h]

/-- What a copy that fails leaves, where there is a file to copy and no directory to copy it to. -/
theorem copy_error {fault : Option IoError} {left : Option Nat}
    (he : (fs.copy src dst fault left).2 = some error) (hs : fs.content? src = some merged)
    (hd : fs dst ≠ some .directory) : (fs.copy src dst fault left).1 =
      left.elim fs fun n => fs.put dst ((if src = dst then [] else merged).take n) := by
  unfold FileTree.copy at he ⊢
  cases fault with
  | some e =>
    rcases hdst : fs dst with _ | c | _
    · simp [hs]
    · simp [hs]
    · exact (hd hdst).elim
  | none =>
    rcases hdst : fs dst with _ | c | _
    · simp [hs, hdst] at he
    · simp [hs, hdst] at he
    · exact (hd hdst).elim

/-- A copy changes nothing but its destination. -/
theorem copy_other {fault : Option IoError} {left : Option Nat} (h : path ≠ dst) :
    (fs.copy src dst fault left).1 path = fs path := by
  have hput : ∀ data, fs.put dst data path = fs path := fun data => Function.update_of_ne h _ _
  unfold FileTree.copy
  split
  · rfl
  · rfl
  · cases fault
    · exact hput _
    · cases left
      · rfl
      · exact hput _

end

/-- `chunk_dir` of a plain file id. -/
def chunkDir (dataDir : List String) (fileId : String) : List String :=
  dataDir ++ ["upload_tmp", fileId]

/-- The temp file of a merge, in the staging directory of its file id. -/
def tempMerge (staging : String → List String) (processId : Nat) (fileId : String) : FilePath :=
  (staging fileId, s!".merge_tmp_{fileId}_{processId}")

/-- The path beside a target that `unique_sibling` tries. -/
def sibling (target : FilePath) (n : Nat) : FilePath := (target.1, siblingName target.2 n)

end PlainRs.FileUpload
