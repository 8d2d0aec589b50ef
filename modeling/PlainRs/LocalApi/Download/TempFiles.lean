import PlainRs.Chat.StagedImports

/-! What concurrent downloads import from their temp files. -/
namespace PlainRs.Download

open Chat Files Runs

/-- A file to download, and the chunks that its url is served in. -/
structure ServedFile where
  fileName : String
  chunks : List Content

def tempName (processId : Nat) (fileName : String) : String := s!"plain_dl_{processId}_{fileName}"

/-- `download_one`; `resolve` tells which file of the temp directory a name stands for. -/
def downloadOne {κ : Type} (processId : Nat) (resolve : String → κ) (file : ServedFile) :
    StagedJob κ where
  path := resolve (tempName processId file.fileName)
  chunks := file.chunks
  fileName := file.fileName
  mimeType := ""

section

variable {ι κ : Type} [DecidableEq ι] [DecidableEq κ] (sha : Sha) (processId : Nat)
  (resolve : String → κ) (file : ι → ServedFile) (rows : AppFileTable)

def downloadOneRuns : System (StagedState ι κ) (StagedAction ι) :=
  stagedRuns .downloadOne sha (fun i => downloadOne processId resolve (file i)) rows

end

variable {ι κ : Type} [DecidableEq ι] [DecidableEq κ] {sha : Sha} {processId : Nat}
  {resolve : String → κ} {file : ι → ServedFile} {rows : AppFileTable} {s : StagedState ι κ}

def demoSha : Sha := fun content => s!"{content.length}"

/-- Two files without a name. -/
def unnamedFile (second : Bool) : ServedFile where
  fileName := "file"
  chunks := if second then [[2], [3]] else [[1]]

abbrev unnamedJob (second : Bool) : StagedJob String := downloadOne 7 id (unnamedFile second)

end PlainRs.Download
