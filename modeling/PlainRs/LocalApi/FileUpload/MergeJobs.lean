import PlainRs.Base.Runs
import PlainRs.LocalApi.FileUpload.SavedMerges

/-! The merge jobs that are remembered by file id, and the calls that they answer. -/
namespace PlainRs.FileUpload

open Chat Keyed Runs Utils

inductive MergeJobState
  | merging
  | done (value : String) (size : Nat)
  | failed (error : String)
  deriving DecidableEq

def MergeJobState.ofResult : Except String (String × Nat) → MergeJobState
  | .ok (value, size) => .done value size
  | .error e => .failed e

structure MergeJob where
  fileId : String
  state : MergeJobState

abbrev MergeJobs := Table MergeJob MergeJob.fileId

def mergeJobsCap : Nat := 1024

namespace MergeJobs

def state? (jobs : MergeJobs) (fileId : String) : Option MergeJobState :=
  (jobs.find? fileId).map MergeJob.state

def put (jobs : MergeJobs) (fileId : String) (state : MergeJobState) : MergeJobs :=
  jobs.upsert ⟨fileId, state⟩ (fun job => { job with state := state }) fun _ => rfl

/-- Beyond the cap only the merges under way are remembered. -/
def prune (jobs : MergeJobs) : MergeJobs :=
  if mergeJobsCap < jobs.rows.length then jobs.filter fun job => job.state = .merging else jobs

variable {jobs : MergeJobs} {fileId other : String} {state : MergeJobState}

@[simp] theorem state?_put_self : (jobs.put fileId state).state? fileId = some state := by
  cases h : jobs.find? fileId <;> simp [state?, put, Table.find?_upsert, h]

theorem state?_put_ne (h : other ≠ fileId) :
    (jobs.put fileId state).state? other = jobs.state? other := by
  simp [state?, put, Table.find?_upsert, h]

/-- A merge under way is not forgotten. -/
theorem state?_prune (h : jobs.state? fileId = some .merging) :
    jobs.prune.state? fileId = some .merging := by
  unfold prune
  split
  · obtain ⟨job, hjob, hs⟩ := Option.map_eq_some_iff.mp h
    obtain ⟨hmem, hkey⟩ := Table.find?_eq_some.mp hjob
    refine Option.map_eq_some_iff.mpr ⟨job, Table.find?_eq_some.mpr ⟨?_, hkey⟩, hs⟩
    exact List.mem_filter.mpr ⟨hmem, by simpa using hs⟩
  · exact h

end MergeJobs

/-- A call of a merge mutation: its merge is under way, or it has joined one that is; it was
refused; or it is answered. It is kept what the files were when it was called, and what there was
when it was answered with the result of a merge that is done. -/
inductive CallPhase
  | idle
  | running (calledAt : FileTree)
  | joined (calledAt : FileTree)
  | refused (error : String)
  | done (calledAt : FileTree) (value : String) (size : Nat) (fs : FileTree) (T : AppFileTable)
  | failed (error : String)

structure UploadState (ι : Type) where
  fs : FileTree
  appFiles : AppFileTable
  jobs : MergeJobs
  phase : ι → CallPhase

/-- `complete` is the background merge of a call, from its first file operation to its event. -/
inductive UploadAction (ι : Type)
  | stage (fileId : String) (index : Nat) (content : Content)
  | deleteChunks (fileId : String) (left : FilePath → Bool)
  | call (i : ι)
  | complete (i : ι) (faults : Faults)

namespace CallPhase

def calledAt? : CallPhase → Option FileTree
  | .running calledAt | .joined calledAt => some calledAt
  | _ => none

def answer (phase : CallPhase) (fs : FileTree) (T : AppFileTable) :
    Except String (String × Nat) → CallPhase
  | .error e => .failed e
  | .ok (value, size) => phase.calledAt?.elim phase fun calledAt => .done calledAt value size fs T

end CallPhase

section

variable {ι : Type} [DecidableEq ι] (staging : String → List String) (processId : Nat)
  (inDataDir : String → FilePath) (sha : Sha) (request : ι → MergeRequest)

/-- `start_merge`. -/
def startMerge (s : UploadState ι) (i : ι) : UploadState ι :=
  match s.jobs.state? (request i).fileId with
  | some (.done value size) =>
    { s with phase := Function.update s.phase i (.done s.fs value size s.fs s.appFiles) }
  | some .merging => { s with phase := Function.update s.phase i (.joined s.fs) }
  | _ =>
    if (s.fs (directoryPath (staging (request i).fileId))).isNone then
      { s with
        phase := Function.update s.phase i (.refused s!"No chunks found for {(request i).fileId}") }
    else { s with
      jobs := s.jobs.put (request i).fileId .merging
      phase := Function.update s.phase i (.running s.fs) }

/-- The merge of a call is performed and remembered, and its result goes to the calls for the file
id that wait for it. -/
def completeMerge (s : UploadState ι) (i : ι) (faults : Faults) : UploadState ι :=
  let merged := performMerge staging processId inDataDir sha s.fs s.appFiles faults (request i)
  { fs := merged.1
    appFiles := merged.2.1
    jobs := s.jobs.prune.put (request i).fileId (.ofResult merged.2.2)
    phase := fun j => match s.phase j with
      | .running _ => if j = i then (s.phase j).answer merged.1 merged.2.1 merged.2.2 else s.phase j
      | .joined _ =>
        if (request j).fileId = (request i).fileId then
          (s.phase j).answer merged.1 merged.2.1 merged.2.2
        else s.phase j
      | phase => phase }

def uploadNext (s : UploadState ι) : UploadAction ι → Option (UploadState ι)
  | .stage fileId index content =>
    if fileId = "" then none
    else some { s with
      fs := (s.fs.createDirAll (staging fileId)).put (chunkPath (staging fileId) index) content }
  | .deleteChunks fileId left => some { s with
      fs := fun path =>
        if Within path (staging fileId) ∧ left path = false then none else s.fs path }
  | .call i =>
    match s.phase i with
    | .idle => some (startMerge staging request s i)
    | _ => none
  | .complete i faults =>
    match s.phase i with
    | .running _ => some (completeMerge staging processId inDataDir sha request s i faults)
    | _ => none

def uploads : System (UploadState ι) (UploadAction ι) where
  init s := s.jobs = Table.empty ∧ ∀ i, s.phase i = .idle
  next := uploadNext staging processId inDataDir sha request

end

section

variable {ι : Type} {staging : String → List String} {processId : Nat}
  {inDataDir : String → FilePath} {sha : Sha} {request : ι → MergeRequest} {s t : UploadState ι}
  {a : UploadAction ι} {i j : ι} {calledAt fs : FileTree} {T : AppFileTable} {value : String}
  {size : Nat}

/-- A chunk of the call. -/
def ChunkOf (staging : String → List String) (call : MergeRequest) (path : FilePath) : Prop :=
  ∃ k ∈ List.range call.totalChunks.toNat, path = chunkPath (staging call.fileId) k

/-- A call is answered from what it has asked for: no merge is called for a file id whose merge is
remembered as done, or under way for another request; no chunk of a merge under way is staged again,
nor saved over by another merge; and a merge is not saved in its staging directory, and an app file
that it finds in place holds the content. -/
def Undisturbed (staging : String → List String) (inDataDir : String → FilePath) (sha : Sha)
    (request : ι → MergeRequest) (s : UploadState ι) : UploadAction ι → Prop
  | .stage fileId index _ => ∀ j, (s.phase j).calledAt?.isSome →
      ¬ ChunkOf staging (request j) (chunkPath (staging fileId) index)
  | .deleteChunks _ _ => True
  | .call i => (∀ value size, s.jobs.state? (request i).fileId ≠ some (.done value size)) ∧
      ∀ j, (s.phase j).calledAt?.isSome → (request j).fileId = (request i).fileId →
        request j = request i
  | .complete i _ =>
      SavedOutside staging inDataDir sha s.fs s.appFiles (request i) (request i).fileId ∧
      (∀ j, (s.phase j).calledAt?.isSome → ∀ path, ChunkOf staging (request j) path →
        ¬ SavePath staging inDataDir sha s.fs s.appFiles (request i) path) ∧
      ∀ name, (request i).kind = .appFile name →
        Undamaged inDataDir sha s.fs s.appFiles (mergedContent staging s.fs (request i))

/-- The chunks that were staged at the time of the call have made the target, and their length is
the merged size. -/
def MadeFromStaged (staging : String → List String) (inDataDir : String → FilePath) (sha : Sha)
    (call : MergeRequest) (calledAt : FileTree) (value : String) (size : Nat) (fs : FileTree)
    (T : AppFileTable) : Prop :=
  (∀ path, ChunkOf staging call path → (calledAt.content? path).isSome) ∧
    size = (mergedContent staging calledAt call).length ∧
    Produced inDataDir sha fs T call.kind value (mergedContent staging calledAt call)

/-- What holds of the calls when no step disturbs one. -/
structure CallsKept (staging : String → List String) (inDataDir : String → FilePath) (sha : Sha)
    (request : ι → MergeRequest) (s : UploadState ι) : Prop where
  merging : ∀ i calledAt, s.phase i = .running calledAt →
    s.jobs.state? (request i).fileId = some .merging
  single : ∀ i j calledAt calledAt', s.phase i = .running calledAt →
    s.phase j = .running calledAt' → (request i).fileId = (request j).fileId → i = j
  joined : ∀ j calledAt, s.phase j = .joined calledAt →
    ∀ i, (s.phase i).calledAt?.isSome → (request i).fileId = (request j).fileId →
      request i = request j
  staged : ∀ j calledAt, (s.phase j).calledAt? = some calledAt → ∀ path,
    ChunkOf staging (request j) path → ∀ content, s.fs path = some (.file content) →
      calledAt path = some (.file content)
  made : ∀ j calledAt value size fs T, s.phase j = .done calledAt value size fs T →
    MadeFromStaged staging inDataDir sha (request j) calledAt value size fs T

theorem callsKept_init (h : ∀ i, s.phase i = .idle) :
    CallsKept staging inDataDir sha request s where
  merging i calledAt hp := by simp [h] at hp
  single i j calledAt calledAt' hp := by simp [h] at hp
  joined j calledAt hp := by simp [h] at hp
  staged j calledAt hp := by simp [h, CallPhase.calledAt?] at hp
  made j calledAt value size fs T hp := by simp [h] at hp

/-- The chunks that are there are those that were there at the call, as long as nothing writes to
them. -/
theorem staged_of_writesOnly {written : FilePath → Prop}
    (h : ∀ path, ChunkOf staging (request j) path → ∀ content,
      s.fs path = some (.file content) → calledAt path = some (.file content))
    (hw : WritesOnly written s.fs fs)
    (hnot : ∀ path, ChunkOf staging (request j) path → ¬ written path) :
    ∀ path, ChunkOf staging (request j) path → ∀ content,
      fs path = some (.file content) → calledAt path = some (.file content) := by
  intro path hchunk content hp
  rcases hw path content hp with hp | hp
  · exact h path hchunk content hp
  · exact (hnot path hchunk hp).elim

/-- A step after which no more calls wait than before. -/
theorem CallsKept.of_waiting (h : CallsKept staging inDataDir sha request s)
    (hwait : ∀ j c, (t.phase j).calledAt? = some c → t.phase j = s.phase j)
    (hjobs : ∀ j c, t.phase j = .running c → t.jobs.state? (request j).fileId = some .merging)
    (hstaged : ∀ j c, (s.phase j).calledAt? = some c → ∀ path, ChunkOf staging (request j) path →
      ∀ content, t.fs path = some (.file content) → c path = some (.file content))
    (hmade : ∀ j c value size fs T, t.phase j = .done c value size fs T →
      MadeFromStaged staging inDataDir sha (request j) c value size fs T) :
    CallsKept staging inDataDir sha request t where
  merging := hjobs
  single j k c c' hj hk := by
    rw [hwait j c (by rw [hj]; rfl)] at hj
    rw [hwait k c' (by rw [hk]; rfl)] at hk
    exact h.single j k c c' hj hk
  joined j c hj k hk := by
    obtain ⟨c', hc'⟩ := Option.isSome_iff_exists.mp hk
    rw [hwait j c (by rw [hj]; rfl)] at hj
    rw [hwait k c' hc'] at hk
    exact h.joined j c hj k hk
  staged j c hj := hstaged j c (by rw [← hwait j c hj, hj])
  made := hmade

/-- A change of the files that writes to no chunk of a waiting call. -/
theorem callsKept_files {written : FilePath → Prop}
    (h : CallsKept staging inDataDir sha request s) (hw : WritesOnly written s.fs fs)
    (hnot : ∀ j, (s.phase j).calledAt?.isSome → ∀ path, ChunkOf staging (request j) path →
      ¬ written path) : CallsKept staging inDataDir sha request { s with fs := fs } :=
  h.of_waiting (fun _ _ _ => rfl) h.merging (fun j c hj => staged_of_writesOnly (h.staged j c hj) hw
    (hnot j (by rw [hj]; rfl))) h.made

theorem callsKept_stage {fileId : String} {index : Nat} {content : Content}
    (h : CallsKept staging inDataDir sha request s)
    (hg : Undisturbed staging inDataDir sha request s (.stage fileId index content)) :
    CallsKept staging inDataDir sha request { s with
      fs := (s.fs.createDirAll (staging fileId)).put (chunkPath (staging fileId) index) content } := by
  have hw : WritesOnly (· = chunkPath (staging fileId) index) s.fs
      ((s.fs.createDirAll (staging fileId)).put (chunkPath (staging fileId) index) content) :=
    (writesOnly_createDirAll _).trans (writesOnly_put rfl)
  exact callsKept_files h hw fun j hj path hchunk hp => hg j hj (hp ▸ hchunk)

theorem callsKept_deleteChunks {fileId : String} {left : FilePath → Bool}
    (h : CallsKept staging inDataDir sha request s) :
    CallsKept staging inDataDir sha request { s with
      fs := fun path =>
        if Within path (staging fileId) ∧ left path = false then none else s.fs path } := by
  have hw : WritesOnly (fun _ => False) s.fs fun path =>
      if Within path (staging fileId) ∧ left path = false then none else s.fs path := by
    intro path content hp
    dsimp only at hp
    split at hp
    · cases hp
    · exact .inl hp
  exact callsKept_files h hw fun _ _ _ _ hp => hp

/-- A chunk that a merge has read was staged at the time of the call. -/
theorem mergedContent_calledAt {call : MergeRequest} {faults : Faults}
    (hm : Mergeable staging processId s.fs faults call)
    (h : ∀ path, ChunkOf staging call path → ∀ content, s.fs path = some (.file content) →
      calledAt path = some (.file content)) :
    (∀ path, ChunkOf staging call path → (calledAt.content? path).isSome) ∧
      mergedContent staging calledAt call = mergedContent staging s.fs call := by
  have hread : ∀ k ∈ List.range call.totalChunks.toNat, ∃ content,
      s.fs.content? (chunkPath (staging call.fileId) k) = some content ∧
        calledAt.content? (chunkPath (staging call.fileId) k) = some content := by
    intro k hk
    obtain ⟨content, hc⟩ := Option.isSome_iff_exists.mp (hm.readable k hk).1
    exact ⟨content, hc, content?_eq.mpr (h _ ⟨k, hk, rfl⟩ content (content?_eq.mp hc))⟩
  constructor
  · rintro path ⟨k, hk, rfl⟩
    obtain ⟨content, -, hc⟩ := hread k hk
    rw [hc]
    rfl
  · refine List.flatMap_congr fun k hk => ?_
    obtain ⟨content, hc, hc'⟩ := hread k hk
    rw [chunkContent, chunkContent, hc, hc']

variable [DecidableEq ι]

/-- A call that begins to wait, for a merge of its own or for one under way. -/
theorem callsKept_wait {jobs : MergeJobs} {phase : CallPhase}
    (h : CallsKept staging inDataDir sha request s) (hphase : phase = .joined s.fs ∨
      phase = .running s.fs ∧ ∀ j calledAt, s.phase j = .running calledAt →
        (request j).fileId ≠ (request i).fileId)
    (hjobs : ∀ j calledAt, Function.update s.phase i phase j = .running calledAt →
      jobs.state? (request j).fileId = some .merging)
    (hsame : ∀ j, (s.phase j).calledAt?.isSome → (request j).fileId = (request i).fileId →
      request j = request i) :
    CallsKept staging inDataDir sha request
      { s with jobs := jobs, phase := Function.update s.phase i phase } := by
  have hcalled : phase.calledAt? = some s.fs := by
    rcases hphase with rfl | ⟨rfl, -⟩ <;> rfl
  have hother : ∀ j, j ≠ i → Function.update s.phase i phase j = s.phase j :=
    fun j hj => Function.update_of_ne hj _ _
  refine ⟨hjobs, ?_, ?_, ?_, ?_⟩
  · intro j k c c' hj hk hfile
    dsimp only at hj hk
    by_cases hji : j = i
    · by_cases hki : k = i
      · rw [hji, hki]
      · subst hji
        rw [hother k hki] at hk
        rw [Function.update_self] at hj
        rcases hphase with rfl | ⟨-, hnone⟩
        · cases hj
        · exact (hnone k c' hk hfile.symm).elim
    · rw [hother j hji] at hj
      by_cases hki : k = i
      · subst hki
        rw [Function.update_self] at hk
        rcases hphase with rfl | ⟨-, hnone⟩
        · cases hk
        · exact (hnone j c hj hfile).elim
      · rw [hother k hki] at hk
        exact h.single j k c c' hj hk hfile
  · intro j c hj k hk hfile
    dsimp only at hj hk
    by_cases hji : j = i
    · by_cases hki : k = i
      · rw [hji, hki]
      · rw [hother k hki] at hk
        exact hji ▸ hsame k hk (hji ▸ hfile)
    · rw [hother j hji] at hj
      by_cases hki : k = i
      · exact hki ▸ (hsame j (by rw [hj]; rfl) (hki ▸ hfile.symm)).symm
      · rw [hother k hki] at hk
        exact h.joined j c hj k hk hfile
  · intro j c hj path hchunk content hp
    dsimp only at hj
    by_cases hji : j = i
    · rw [hji, Function.update_self, hcalled] at hj
      cases hj
      exact hp
    · rw [hother j hji] at hj
      exact h.staged j c hj path hchunk content hp
  · intro j c value size fs T hj
    dsimp only at hj
    by_cases hji : j = i
    · rw [hji, Function.update_self] at hj
      rw [hj] at hcalled
      cases hcalled
    · rw [hother j hji] at hj
      exact h.made j c value size fs T hj

/-- A call that is refused waits for nothing. -/
theorem callsKept_refused {error : String} (h : CallsKept staging inDataDir sha request s) :
    CallsKept staging inDataDir sha request
      { s with phase := Function.update s.phase i (.refused error) } := by
  have hold : ∀ j phase, Function.update s.phase i (.refused error) j = phase →
      s.phase j = phase ∨ phase = .refused error := by
    intro j phase hj
    by_cases hji : j = i
    · rw [hji, Function.update_self] at hj
      exact .inr hj.symm
    · rw [Function.update_of_ne hji] at hj
      exact .inl hj
  refine h.of_waiting (fun j c hj => ?_) (fun j c hj => ?_) h.staged fun j c value size fs T hj => ?_
  · rcases hold j _ rfl with he | he
    · exact he.symm
    · simp only [he] at hj
      cases hj
  · rcases hold j _ hj with he | he
    · exact h.merging j c he
    · cases he
  · rcases hold j _ hj with he | he
    · exact h.made j c value size fs T he
    · cases he

theorem callsKept_call (h : CallsKept staging inDataDir sha request s) (hi : s.phase i = .idle)
    (hg : Undisturbed staging inDataDir sha request s (.call i)) :
    CallsKept staging inDataDir sha request (startMerge staging request s i) := by
  obtain ⟨hdone, hsame⟩ := hg
  have hstart : s.jobs.state? (request i).fileId ≠ some .merging → CallsKept staging inDataDir sha
      request (if (s.fs (directoryPath (staging (request i).fileId))).isNone then
        { s with
          phase := Function.update s.phase i (.refused s!"No chunks found for {(request i).fileId}") }
      else { s with
        jobs := s.jobs.put (request i).fileId .merging
        phase := Function.update s.phase i (.running s.fs) }) := by
    intro hnot
    split
    · exact callsKept_refused h
    · refine callsKept_wait h (.inr ⟨rfl, fun j c hj hfile => ?_⟩) (fun j c hj => ?_) hsame
      · exact hnot (hfile ▸ h.merging j c hj)
      · by_cases hfile : (request j).fileId = (request i).fileId
        · rw [hfile, MergeJobs.state?_put_self]
        · have hji : j ≠ i := fun hji => hfile (hji ▸ rfl)
          rw [Function.update_of_ne hji] at hj
          rw [MergeJobs.state?_put_ne hfile]
          exact h.merging j c hj
  unfold startMerge
  rcases hs : s.jobs.state? (request i).fileId with _ | _ | ⟨value, size⟩ | e
  · exact hstart (by simp [hs])
  · refine callsKept_wait h (.inl rfl) (fun j c hj => ?_) hsame
    have hji : j ≠ i := by
      rintro rfl
      simp at hj
    rw [Function.update_of_ne hji] at hj
    exact h.merging j c hj
  · exact (hdone value size hs).elim
  · exact hstart (by simp [hs])

/-- The phase of a call after a merge: as it was, or answered with the result of the merge that it
waited for. -/
theorem completeMerge_phase (processId : Nat) (faults : Faults) (h : CallsKept staging inDataDir sha request s)
    (hi : s.phase i = .running calledAt) (j : ι) :
    let merged := performMerge staging processId inDataDir sha s.fs s.appFiles faults (request i)
    let phase := (completeMerge staging processId inDataDir sha request s i faults).phase j
    (phase = s.phase j ∧ ∀ c, s.phase j = .running c → (request j).fileId ≠ (request i).fileId) ∨
    request j = request i ∧ ∃ c, (s.phase j).calledAt? = some c ∧
      ((∃ e, phase = .failed e) ∨ ∃ value size, merged.2.2 = .ok (value, size) ∧
        phase = .done c value size merged.1 merged.2.1) := by
  intro merged phase
  have hanswer : ∀ c, (s.phase j).calledAt? = some c →
      (∃ e, (s.phase j).answer merged.1 merged.2.1 merged.2.2 = .failed e) ∨
        ∃ value size, merged.2.2 = .ok (value, size) ∧
          (s.phase j).answer merged.1 merged.2.1 merged.2.2 =
            .done c value size merged.1 merged.2.1 := by
    intro c hc
    rcases hr : merged.2.2 with e | ⟨value, size⟩
    · exact .inl ⟨e, rfl⟩
    · exact .inr ⟨value, size, rfl, by simp [CallPhase.answer, hc]⟩
  have hphase : phase = match s.phase j with
      | .running _ => if j = i then (s.phase j).answer merged.1 merged.2.1 merged.2.2 else s.phase j
      | .joined _ =>
        if (request j).fileId = (request i).fileId then
          (s.phase j).answer merged.1 merged.2.1 merged.2.2
        else s.phase j
      | phase => phase := rfl
  cases hj : s.phase j with
  | running c =>
    by_cases hji : j = i
    · refine .inr ⟨hji ▸ rfl, c, rfl, ?_⟩
      simp only [hphase, hj, if_pos hji]
      rw [hj] at hanswer
      exact hanswer c rfl
    · refine .inl ⟨?_, fun _ _ hfile => hji (h.single j i c calledAt hj hi hfile)⟩
      simp only [hphase, hj, if_neg hji]
  | joined c =>
    by_cases hfile : (request j).fileId = (request i).fileId
    · refine .inr ⟨(h.joined j c hj i (by rw [hi]; rfl) hfile.symm).symm, c, rfl, ?_⟩
      simp only [hphase, hj, if_pos hfile]
      rw [hj] at hanswer
      exact hanswer c rfl
    · exact .inl ⟨by simp only [hphase, hj, if_neg hfile], fun _ hc => nomatch hc⟩
  | idle => exact .inl ⟨by simp only [hphase, hj], fun _ hc => nomatch hc⟩
  | refused e => exact .inl ⟨by simp only [hphase, hj], fun _ hc => nomatch hc⟩
  | done c value size fs T => exact .inl ⟨by simp only [hphase, hj], fun _ hc => nomatch hc⟩
  | failed e => exact .inl ⟨by simp only [hphase, hj], fun _ hc => nomatch hc⟩

theorem callsKept_complete {faults : Faults} (h : CallsKept staging inDataDir sha request s)
    (hi : s.phase i = .running calledAt)
    (hg : Undisturbed staging inDataDir sha request s (.complete i faults)) :
    CallsKept staging inDataDir sha request
      (completeMerge staging processId inDataDir sha request s i faults) := by
  have hphase := completeMerge_phase processId faults h hi
  obtain ⟨hout, hchunks, hundamaged⟩ := hg
  refine h.of_waiting (fun j c hj => ?_) (fun j c hj => ?_) (fun j c hj => ?_)
    fun j c value size fs T hj => ?_
  · rcases hphase j with ⟨he, -⟩ | ⟨-, c', -, ⟨e, he⟩ | ⟨value, size, -, he⟩⟩
    · exact he
    · rw [he] at hj
      cases hj
    · rw [he] at hj
      cases hj
  · rcases hphase j with ⟨he, hne⟩ | ⟨-, c', -, ⟨e, he⟩ | ⟨value, size, -, he⟩⟩
    · rw [he] at hj
      refine (MergeJobs.state?_put_ne (hne c hj)).trans (MergeJobs.state?_prune ?_)
      exact h.merging j c hj
    · rw [he] at hj
      cases hj
    · rw [he] at hj
      cases hj
  · refine staged_of_writesOnly (h.staged j c hj) performMerge_writesOnly ?_
    rintro path hchunk (htemp | hsave)
    · obtain ⟨k, -, rfl⟩ := hchunk
      exact ne_chunkPath _ _ _ _ _ htemp
    · exact hchunks j (by rw [hj]; rfl) path hchunk hsave
  · rcases hphase j with ⟨he, -⟩ | ⟨hreq, c', hc', ⟨e, he⟩ | ⟨value', size', hok, he⟩⟩
    · rw [he] at hj
      exact h.made j c value size fs T hj
    · rw [he] at hj
      cases hj
    · rw [he] at hj
      cases hj
      obtain ⟨hm, hsize, hproduced⟩ := performMerge_ok hok hout hundamaged
      obtain ⟨hall, hsame⟩ := mergedContent_calledAt hm (hreq ▸ h.staged j c hc')
      rw [hreq]
      exact ⟨hall, hsame ▸ hsize, hsame ▸ hproduced⟩

theorem callsKept_next (h : CallsKept staging inDataDir sha request s)
    (hg : Undisturbed staging inDataDir sha request s a)
    (ht : uploadNext staging processId inDataDir sha request s a = some t) :
    CallsKept staging inDataDir sha request t := by
  cases a with
  | stage fileId index content =>
    simp only [uploadNext] at ht
    split at ht
    · cases ht
    · cases ht
      exact callsKept_stage h hg
  | deleteChunks fileId left =>
    cases ht
    exact callsKept_deleteChunks h
  | call i =>
    cases hi : s.phase i with
    | idle =>
      simp only [uploadNext, hi, Option.some.injEq] at ht
      exact ht ▸ callsKept_call h hi hg
    | _ => simp [uploadNext, hi] at ht
  | complete i faults =>
    cases hi : s.phase i with
    | running calledAt =>
      simp only [uploadNext, hi, Option.some.injEq] at ht
      exact ht ▸ callsKept_complete h hi hg
    | _ => simp [uploadNext, hi] at ht

/-- A call that is answered as done has its target made from the chunks that were staged when it was
called. -/
theorem done_made (h : ReachableUnder (uploads staging processId inDataDir sha request)
    (Undisturbed staging inDataDir sha request) s)
    (hj : s.phase j = .done calledAt value size fs T) :
    MadeFromStaged staging inDataDir sha (request j) calledAt value size fs T := by
  have hkept : CallsKept staging inDataDir sha request s :=
    h.invariant (fun s (hs : s.jobs = Table.empty ∧ ∀ i, s.phase i = .idle) =>
      callsKept_init hs.2) fun s a t hs hg hn => callsKept_next hs hg hn
  exact hkept.made j calledAt value size fs T hj

end

/-- Two calls for one file id, into different directories. -/
def intoTwoDirs (second : Bool) : MergeRequest where
  fileId := "a"
  totalChunks := 1
  kind := .file ([if second then "backup" else "home"], "x.txt") false

def demoUploads : System (UploadState Bool) (UploadAction Bool) :=
  uploads (chunkDir ["data"]) 7 (fun name => (["data"], name)) (fun _ => "0a1b") intoTwoDirs

/-- The chunk of both is staged. -/
def chunkStaged : FileTree :=
  (FileTree.createDirAll (fun _ => none) (chunkDir ["data"] "a")).put
    (chunkPath (chunkDir ["data"] "a") 0) [1]

def chunkMerged : FileTree × AppFileTable × Except String (String × Nat) :=
  performMerge (chunkDir ["data"]) 7 (fun name => (["data"], name)) (fun _ => "0a1b") chunkStaged
    .empty noFaults (intoTwoDirs false)

theorem chunkMerged_ok : chunkMerged.2.2 = .ok ("x.txt", 1) := by decide +kernel

/-- The first call, from the start to its result. -/
theorem firstDone (G : UploadState Bool → UploadAction Bool → Prop)
    (hstage : G ⟨fun _ => none, .empty, .empty, fun _ => .idle⟩ (.stage "a" 0 [1]))
    (hcall : G ⟨chunkStaged, .empty, .empty, fun _ => .idle⟩ (.call false))
    (hcomplete : ∀ s, s.fs = chunkStaged → G s (.complete false noFaults)) :
    ∃ s, ReachableUnder demoUploads G s ∧ s.fs = chunkMerged.1 ∧
      s.jobs.state? "a" = some (.done "x.txt" 1) ∧ s.phase true = .idle ∧
      s.phase false = .done chunkStaged "x.txt" 1 chunkMerged.1 chunkMerged.2.1 := by
  have hstart : ReachableUnder demoUploads G ⟨fun _ => none, .empty, .empty, fun _ => .idle⟩ :=
    .init ⟨rfl, fun _ => rfl⟩
  have hstaged : ReachableUnder demoUploads G ⟨chunkStaged, .empty, .empty, fun _ => .idle⟩ :=
    hstart.step hstage rfl
  have hcalled := hstaged.step hcall rfl
  have hdone := hcalled.step (hcomplete _ rfl) rfl
  refine ⟨_, hdone, rfl, ?_, rfl, ?_⟩
  · refine MergeJobs.state?_put_self.trans (congrArg some ?_)
    change MergeJobState.ofResult chunkMerged.2.2 = _
    rw [chunkMerged_ok]
    rfl
  · change (CallPhase.running chunkStaged).answer chunkMerged.1 chunkMerged.2.1 chunkMerged.2.2 = _
    rw [chunkMerged_ok]
    rfl

/-- A chunk is staged and merged. -/
theorem done_made_one : ∃ s calledAt fs T, ReachableUnder demoUploads
    (Undisturbed (chunkDir ["data"]) (fun name => (["data"], name)) (fun _ => "0a1b") intoTwoDirs)
      s ∧ s.phase false = .done calledAt "x.txt" 1 fs T ∧
    MadeFromStaged (chunkDir ["data"]) (fun name => (["data"], name)) (fun _ => "0a1b")
      (intoTwoDirs false) calledAt "x.txt" 1 fs T := by
  have houtside : ∀ fs T fileId, SavedOutside (chunkDir ["data"]) (fun name => (["data"], name))
      (fun _ => "0a1b") fs T (intoTwoDirs false) fileId := by
    rintro fs T fileId path (rfl | ⟨n, rfl⟩) <;>
      simp [Within, chunkDir, sibling, List.cons_prefix_cons]
  obtain ⟨s, hs, -, -, -, hdone⟩ := firstDone
    (Undisturbed (chunkDir ["data"]) (fun name => (["data"], name)) (fun _ => "0a1b") intoTwoDirs)
    (fun j hj => (nomatch hj)) ⟨fun _ _ h => (nomatch h), fun j hj => (nomatch hj)⟩
    fun s _ => ⟨houtside _ _ _, fun j _ path ⟨k, _, hpath⟩ hsave =>
      houtside _ _ (intoTwoDirs j).fileId path hsave (by rw [hpath]; exact within_mk _ _),
      fun _ h => (nomatch h)⟩
  exact ⟨s, _, _, _, hs, hdone, done_made hs hdone⟩

/-- The chunk is staged again, and the second call is answered with what the first one has made. -/
theorem otherTarget_done : ∃ s calledAt fs T, Reachable demoUploads s ∧
    s.phase true = .done calledAt "x.txt" 1 fs T ∧
    ¬ MadeFromStaged (chunkDir ["data"]) (fun name => (["data"], name)) (fun _ => "0a1b")
      (intoTwoDirs true) calledAt "x.txt" 1 fs T := by
  obtain ⟨s, hs, hfs, hjobs, hidle, -⟩ :=
    firstDone (fun _ _ => True) trivial trivial fun _ _ => trivial
  obtain ⟨fs, hnow⟩ : ∃ fs, fs = (s.fs.createDirAll (chunkDir ["data"] "a")).put
    (chunkPath (chunkDir ["data"] "a") 0) [1] := ⟨_, rfl⟩
  have hstage : demoUploads.next s (.stage "a" 0 [1]) = some { s with fs := fs } := by
    rw [hnow]
    rfl
  have hcall : demoUploads.next { s with fs := fs } (.call true) = some { s with
      fs := fs
      phase := Function.update s.phase true (.done fs "x.txt" 1 fs s.appFiles) } := by
    simp [demoUploads, uploads, uploadNext, startMerge, hidle, intoTwoDirs, hjobs]
  refine ⟨_, fs, fs, s.appFiles, (Reachable.step hs hstage).step hcall, by simp, fun h => ?_⟩
  have hmade : fs (["backup"], "x.txt") = some (.file (mergedContent (chunkDir ["data"]) fs
    (intoTwoDirs true))) := h.2.2
  have hnone : fs (["backup"], "x.txt") = none := by
    rw [hnow, hfs]
    decide +kernel
  rw [hnone] at hmade
  cases hmade

end PlainRs.FileUpload
