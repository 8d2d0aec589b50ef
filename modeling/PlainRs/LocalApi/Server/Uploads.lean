import PlainRs.Chat.StagedImports

/-! What concurrent uploads of app files import from their temp files. -/
namespace PlainRs.Server

open Chat Files Runs

/-- The file part of an upload with `isAppFile`, and the clock when it is staged. -/
structure AppFileUpload where
  filename : Option String
  contentType : Option String
  body : Content
  nowMs : Nat

def uploadName (processId nowMs : Nat) : String := s!"upload_{processId}_{nowMs}.bin"

/-- The app file branch of `handle_upload`; the temp files are all in `upload_tmp`. -/
def handleUpload (processId : Nat) (upload : AppFileUpload) : StagedJob String where
  path := uploadName processId upload.nowMs
  chunks := [upload.body]
  fileName := upload.filename.getD ""
  mimeType := upload.contentType.getD ""

/-- The status that an upload is answered with, and the suffix in the body of a 201. -/
def respond : StagedResult → Nat × Option String
  | .ok (_, result) => (201, some result.fidSuffix)
  | .error _ => (500, none)

section

variable {ι : Type} (sha : Sha) (processId : Nat) (upload : ι → AppFileUpload)

/-- An upload answered 201 has imported its body under the suffix, and none has failed for want of
its temp file. -/
def UploadsOwn (s : StagedState ι String) : Prop :=
  (∀ i result suffix, s.phase i = .returned result → respond result = (201, some suffix) →
    ∃ imported rows, result = .ok ((upload i).body, imported) ∧ suffix = imported.fidSuffix ∧
      imported = (((handleUpload processId (upload i)).source (upload i).body).importFile sha rows).2) ∧
  NoneMissing s

/-- No temp file is created or removed while another upload of the same millisecond is between the
creation of its own and the import. -/
def MillisecondsApart (s : StagedState ι String) : StagedAction ι → Prop
  | .create i | .remove i => ∀ j, s.Writing j → (upload j).nowMs ≠ (upload i).nowMs
  | _ => True

def handleUploadRuns [DecidableEq ι] (rows : AppFileTable) :
    System (StagedState ι String) (StagedAction ι) :=
  stagedRuns .handleUpload sha (fun i => handleUpload processId (upload i)) rows

end

theorem toString_injective : Function.Injective (toString : Nat → String) := by
  intro a b h
  have hlists : (toString a).toList = (toString b).toList := congrArg String.toList h
  have hdigits : Nat.toDigits 10 a = Nat.toDigits 10 b := by
    simpa [Nat.toString_eq_ofList_toDigits] using hlists
  calc
    a = Nat.ofDigitChars 10 (Nat.toDigits 10 a) 0 := Nat.ofDigitChars_ten_toDigits.symm
    _ = Nat.ofDigitChars 10 (Nat.toDigits 10 b) 0 := by rw [hdigits]
    _ = b := Nat.ofDigitChars_ten_toDigits

theorem uploadName_inj {processId a b : Nat} : uploadName processId a = uploadName processId b ↔
    a = b := by
  constructor
  · intro h
    refine toString_injective ?_
    simpa [uploadName, String.append_assoc] using h
  · rintro rfl
    rfl

variable {ι : Type} [DecidableEq ι] {sha : Sha} {processId : Nat} {upload : ι → AppFileUpload}
  {rows : AppFileTable} {s : StagedState ι String}

/-- In a run that keeps uploads of one millisecond apart, every upload answered 201 has imported its
own body under its suffix, and none fails because another removed its temp file. -/
theorem uploads_own (h : ReachableUnder (handleUploadRuns sha processId upload rows)
    (MillisecondsApart upload) s) : UploadsOwn sha processId upload s := by
  have happart : ReachableUnder (handleUploadRuns sha processId upload rows)
      (fun s a => CreatesApart (fun i => handleUpload processId (upload i)) s a ∧
        RemovesApart (fun i => handleUpload processId (upload i)) s a) s := by
    refine h.mono fun s a hg => ?_
    cases a with
    | create i => exact ⟨fun j hj hpath => hg j hj (uploadName_inj.mp hpath), trivial⟩
    | remove i => exact ⟨trivial, fun j hj hpath => hg j hj (uploadName_inj.mp hpath)⟩
    | _ => exact ⟨trivial, trivial⟩
  refine ⟨fun i result suffix hi hr => ?_, none_missing happart⟩
  cases result with
  | error e => simp [respond] at hr
  | ok out =>
    obtain ⟨content, imported⟩ := out
    obtain ⟨hbody, rows, himported⟩ :=
      imports_own (happart.mono fun _ _ hg => hg.1) i content imported (.inr hi)
    have hbytes : (handleUpload processId (upload i)).bytes = (upload i).body := by
      simp [StagedJob.bytes, handleUpload]
    rw [hbytes] at hbody himported
    subst hbody
    simp only [respond, Prod.mk.injEq, Option.some.injEq, true_and] at hr
    exact ⟨imported, rows, rfl, hr.symm, himported⟩

def lengthSha : Sha := fun content => s!"{content.length}"

/-- Two uploads, at one clock reading or at two. -/
def twoUploads (apart : Bool) (second : Bool) : AppFileUpload where
  filename := some "a.txt"
  contentType := none
  body := if second then [2] else [1]
  nowMs := if second && apart then 1001 else 1000

/-- At two milliseconds they overlap. -/
theorem uploads_own_overlap : ∃ s, UploadsOwn lengthSha 7 (twoUploads true) s ∧
    (∃ out, s.phase false = .returned (.ok ([1], out))) ∧
      ∃ out, s.phase true = .removing (.ok ([2], out)) := by
  have hcreated : ReachableUnder
      (handleUploadRuns lengthSha 7 (twoUploads true) Keyed.Table.empty)
      (MillisecondsApart (twoUploads true)) _ :=
    (ReachableUnder.init rfl).step (a := .create false) (fun j hj => by
      obtain ⟨_, _, _, hj⟩ := hj
      cases hj) rfl
  have hboth := hcreated.step (a := StagedAction.create true) (fun j hj => by
    obtain ⟨_, _, _, hj⟩ := hj
    cases j with
    | false => decide
    | true => cases hj) rfl
  have hfirst := hboth.step (a := StagedAction.write false) trivial rfl
  have hsecond := hfirst.step (a := StagedAction.write true) trivial rfl
  have himported := hsecond.step (a := StagedAction.importFile false) trivial rfl
  have hremoved := himported.step (a := StagedAction.remove false) (fun j hj => by
    obtain ⟨_, _, _, hj⟩ := hj
    cases j with
    | false => cases hj
    | true => decide) rfl
  have hdone := hremoved.step (a := StagedAction.importFile true) trivial rfl
  exact ⟨_, uploads_own hdone, ⟨_, rfl⟩, _, rfl⟩

/-- In one millisecond the second one's body is imported for the first. -/
theorem sameMillisecond_mixes : ∃ s,
    Reachable (handleUploadRuns lengthSha 7 (twoUploads false) Keyed.Table.empty) s ∧
      ¬ UploadsOwn lengthSha 7 (twoUploads false) s := by
  have hcreated : Reachable
      (handleUploadRuns lengthSha 7 (twoUploads false) Keyed.Table.empty) _ :=
    (Reachable.init rfl).step (a := .create false) rfl
  have hboth := hcreated.step (a := StagedAction.create true) rfl
  have hfirst := hboth.step (a := StagedAction.write false) rfl
  have hsecond := hfirst.step (a := StagedAction.write true) rfl
  have himported := hsecond.step (a := StagedAction.importFile false) rfl
  have hremoved := himported.step (a := StagedAction.remove false) rfl
  refine ⟨_, hremoved, fun hown => ?_⟩
  obtain ⟨imported, rows, hresult, -⟩ := hown.1 false _ _ rfl rfl
  cases hresult

end PlainRs.Server
