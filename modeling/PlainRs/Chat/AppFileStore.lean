import PlainRs.Base.Keyed
import PlainRs.Utils.Paths

/-! The content-addressed app files: their rows, the statements on them, and what an import makes of
a content. -/
namespace PlainRs.Chat

open Keyed Utils

abbrev Content := List UInt8

structure DAppFile where
  id : String
  size : Nat
  mimeType : String
  realPath : String
  refCount : Int
  weakHash : String

abbrev AppFileTable := Table DAppFile DAppFile.id

/-- SHA-256 as hex digits. -/
abbrev Sha := Content → String

structure ImportResult where
  id : String
  fidSuffix : String
  mimeType : String
  reused : Bool

/-- What is imported; bytes in memory have no file name. -/
structure ImportSource where
  content : Content
  fileName : Option String
  mimeType : String

namespace AppFileTable

/-- `find_app_files_by_weak`. -/
def findByWeak (T : AppFileTable) (size : Nat) (weakHash : String) : List DAppFile :=
  T.rows.filter fun f => f.size = size ∧ f.weakHash = weakHash

/-- `increment_app_file_ref`. -/
def increment (T : AppFileTable) (id : String) : AppFileTable :=
  T.modify id (fun f => { f with refCount := f.refCount + 1 }) fun _ => rfl

/-- The `UPDATE` of `decrement_app_file_ref`. -/
def decrement (T : AppFileTable) (id : String) : AppFileTable :=
  T.modify id (fun f => { f with refCount := f.refCount - 1 }) fun _ => rfl

end AppFileTable

def defaultMime : String := "application/octet-stream"

def weakHead : Nat := 4 * 1024
def weakTail : Nat := 4 * 1024

/-- The bytes that the weak hash is taken of. -/
def weakPart (content : Content) : Content :=
  if content.length ≤ weakHead + weakTail then content
  else content.take weakHead ++ content.drop (content.length - weakTail)

def fidExt (mimeType : String) : String :=
  if mimeExtension mimeType = "bin" then "" else mimeExtension mimeType

def extFromName (fileName mimeType : String) : String :=
  ((extension fileName).filter (· ≠ "")).elim (fidExt mimeType) toAsciiLowercase

/-- `{hash}.{ext}`, without the dot where there is no extension. -/
def canonicalName (hash ext : String) : String := if ext = "" then hash else s!"{hash}.{ext}"

def relativeDestPath (hash ext : String) : String :=
  if hash.utf8ByteSize < 4 then s!"files/{canonicalName hash ext}"
  else
    let aa := String.ofList (hash.toList.take 2)
    let bb := String.ofList ((hash.toList.drop 2).take 2)
    s!"files/{aa}/{bb}/{canonicalName hash ext}"

def fidSuffixOf (realPath strongHash : String) : String := (fileName realPath).getD strongHash

namespace ImportSource

variable (sha : Sha) (src : ImportSource)

def strongHash : String := sha src.content

def weakHash : String := sha (weakPart src.content)

def effectiveMime : String := if src.mimeType = "" then defaultMime else src.mimeType

def ext : String := src.fileName.elim (fidExt src.effectiveMime) (extFromName · src.effectiveMime)

/-- The row of a content that has none yet. -/
def record : DAppFile where
  id := src.strongHash sha
  size := src.content.length
  mimeType := src.effectiveMime
  realPath := relativeDestPath (src.strongHash sha) src.ext
  refCount := 1
  weakHash := src.weakHash sha

/-- What an import answers that found the row. -/
def reuse (row : DAppFile) : ImportResult where
  id := src.strongHash sha
  fidSuffix := fidSuffixOf row.realPath (src.strongHash sha)
  mimeType := row.mimeType
  reused := true

def inserted : ImportResult where
  id := src.strongHash sha
  fidSuffix := canonicalName (src.strongHash sha) src.ext
  mimeType := src.effectiveMime
  reused := false

/-- The weak probe: a candidate whose strong hash matches too. -/
def probe (T : AppFileTable) : Option DAppFile :=
  (T.findByWeak src.content.length (src.weakHash sha)).find? fun cand =>
    cand.id = src.strongHash sha

/-- `import_file` without another one in between. -/
def importFile (T : AppFileTable) : AppFileTable × ImportResult :=
  ((src.probe sha T).or (T.find? (src.strongHash sha))).elim
    (T.insert (src.record sha), src.inserted sha) fun row =>
      (AppFileTable.increment T (src.strongHash sha), src.reuse sha row)

end ImportSource

end PlainRs.Chat
