import PlainRs.Base.Runs

/-! The download manager: the calls that start downloads, the tasks that run them, and the map of
tasks by message that they share under one lock. -/
namespace PlainRs.Download

open Runs

inductive DownloadStatus
  | pending
  | downloading
  | paused
  | completed
  | failed
  deriving DecidableEq

structure DownloadState where
  status : DownloadStatus
  downloaded : Nat
  total : Nat
  deriving DecidableEq

/-- An item of the message with an `fsid:` uri. -/
structure DownloadFile where
  fileId : String
  fileName : String
  fileSize : Nat
  deriving DecidableEq

/-- What goes wrong around a file by itself. -/
inductive Fault
  | requestFailed
  | httpStatus
  | createFailed
  | writeFailed
  | streamError
  | importFailed
  deriving DecidableEq

inductive DownloadError
  | messageNotFound
  | peerNotFound
  | invalidContent
  | peerHasNoIp
  | file (fault : Fault)
  | aborted
  deriving DecidableEq

inductive Outcome
  | completed
  | paused
  | failed (error : DownloadError)
  deriving DecidableEq

def Outcome.status : Outcome → DownloadStatus
  | .completed => .completed
  | .paused => .paused
  | .failed _ => .failed

/-- Where `execute_download` is, and in it `download_one`. -/
inductive TaskPhase
  | looking
  | collected (files : List DownloadFile) (peerIp : Bool)
  | files (rest : List DownloadFile)
  | requesting (file : DownloadFile) (rest : List DownloadFile)
  | streaming (file : DownloadFile) (rest : List DownloadFile)
  | reading (file : DownloadFile) (rest : List DownloadFile)
  | importing (file : DownloadFile) (rest : List DownloadFile)
  | ending (outcome : Outcome)
  | cleaning
  | finished
  deriving DecidableEq

/-- From the request for a file to the end of its stream, where the signal is taken for an error, and
after that. -/
def TaskPhase.Transferring : TaskPhase → Prop
  | .requesting _ _ | .streaming _ _ | .reading _ _ | .ending (.failed .aborted) => True
  | _ => False

/-- Before the final status is decided. -/
def TaskPhase.Underway : TaskPhase → Prop
  | .ending _ | .cleaning | .finished => False
  | _ => True

/-- A task, with what its map entry holds for it: whether the abort signal was sent and is not
received, and whether its handle was aborted. -/
structure DownloadTask where
  phase : TaskPhase
  state : DownloadState
  downloadedSoFar : Nat
  abort : Bool
  signal : Bool
  aborted : Bool
  deriving DecidableEq

/-- What the lookups of the message, its items and the peer give. -/
inductive Lookup
  | noMessage
  | noPeer
  | badContent
  | noItems
  | items (files : List DownloadFile) (peerIp : Bool)

inductive TaskEvent
  | look (found : Lookup)
  | begin
  | nextFile
  | respond
  | poll
  | chunk (bytes : Nat) (report : Bool)
  | endOfStream
  | imported
  | fault (fault : Fault)
  | settle
  | remove

namespace DownloadTask

def new : DownloadTask where
  phase := .looking
  state := ⟨.pending, 0, 0⟩
  downloadedSoFar := 0
  abort := true
  signal := false
  aborted := false

def ends (t : DownloadTask) (outcome : Outcome) : DownloadTask :=
  { t with phase := .ending outcome }

/-- `abort.take()` and `send`. -/
def sendAbort (t : DownloadTask) : DownloadTask :=
  { t with
    abort := false
    signal := t.signal || t.abort }

/-- `sendAbort`, and the handle's `abort`. -/
def cancel (t : DownloadTask) : DownloadTask := { t.sendAbort with aborted := true }

def pause (t : DownloadTask) : DownloadTask :=
  { t.sendAbort with state := { t.state with status := .paused } }

/-- The status section of `set_failed`, `set_completed` and the pause between two files. -/
def settle (t : DownloadTask) (outcome : Outcome) : DownloadTask :=
  { t with
    phase := .cleaning
    state := { t.state with
      status := outcome.status
      downloaded := if outcome = .completed then t.state.total else t.state.downloaded } }

def faultAt : TaskPhase → Fault → Bool
  | .requesting _ _, .requestFailed | .requesting _ _, .httpStatus | .requesting _ _, .createFailed
  | .reading _ _, .writeFailed | .reading _ _, .streamError
  | .importing _ _, .importFailed => true
  | _, _ => false

/-- A step of the task; the removal of its entry is the manager's. -/
def next (t : DownloadTask) : TaskEvent → Option DownloadTask
  | .look found =>
    match t.phase, found with
    | .looking, .noMessage => some (t.ends (.failed .messageNotFound))
    | .looking, .noPeer => some (t.ends (.failed .peerNotFound))
    | .looking, .badContent => some (t.ends (.failed .invalidContent))
    | .looking, .noItems | .looking, .items [] _ => some (t.ends .completed)
    | .looking, .items files peerIp => some { t with phase := .collected files peerIp }
    | _, _ => none
  | .begin =>
    match t.phase with
    | .collected files peerIp => some { t with
        phase := if peerIp then .files files else .ending (.failed .peerHasNoIp)
        state := ⟨.downloading, 0, (files.map (·.fileSize)).sum⟩ }
    | _ => none
  | .nextFile =>
    match t.phase with
    | .files [] => some (t.ends .completed)
    | .files (file :: rest) =>
      if t.signal then some { t.ends .paused with signal := false }
      else some { t with phase := .requesting file rest }
    | _ => none
  | .respond =>
    match t.phase with
    | .requesting file rest => some { t with phase := .streaming file rest }
    | _ => none
  | .poll =>
    match t.phase with
    | .streaming file rest =>
      if t.signal then some { t.ends (.failed .aborted) with signal := false }
      else some { t with phase := .reading file rest }
    | _ => none
  | .chunk bytes report =>
    match t.phase with
    | .reading file rest => some { t with
        phase := .streaming file rest
        downloadedSoFar := t.downloadedSoFar + bytes
        state := if report then { t.state with downloaded := t.downloadedSoFar + bytes }
          else t.state }
    | _ => none
  | .endOfStream =>
    match t.phase with
    | .reading file rest => some { t with phase := .importing file rest }
    | _ => none
  | .imported =>
    match t.phase with
    | .importing file rest => some { t with
        phase := .files rest
        state := { t.state with
          downloaded := t.downloadedSoFar
          total := if 0 < file.fileSize then max t.state.total t.downloadedSoFar
            else t.state.total } }
    | _ => none
  | .fault fault =>
    if faultAt t.phase fault then some (t.ends (.failed (.file fault))) else none
  | .settle =>
    match t.phase with
    | .ending outcome => some (t.settle outcome)
    | _ => none
  | .remove =>
    match t.phase with
    | .cleaning => some { t with phase := .finished }
    | _ => none

/-- The final event that a step emits. -/
def emits (t : DownloadTask) : TaskEvent → Option Outcome
  | .settle =>
    match t.phase with
    | .ending outcome => some outcome
    | _ => none
  | _ => none

theorem phase_of_emits {t : DownloadTask} {event : TaskEvent} {outcome : Outcome}
    (h : t.emits event = some outcome) : t.phase = .ending outcome := by
  unfold emits at h
  split at h
  · split at h
    · next hp =>
      cases h
      exact hp
    · cases h
  · cases h

/-- A step before the final status that leaves the signal where it is; a transfer begins without
one. -/
structure Proceeds (t t' : DownloadTask) : Prop where
  underway : t.phase.Underway
  abort : t'.abort = t.abort
  signal : t'.signal = t.signal
  unfinished : t'.phase ≠ .finished
  transferring : t'.phase.Transferring → t.phase.Transferring ∨ t.signal = false

/-- A step goes on, or takes the signal, between two files or in a transfer, or comes after the final
status is decided. -/
theorem next_cases {t t' : DownloadTask} {event : TaskEvent} (h : t.next event = some t') :
    t'.aborted = t.aborted ∧
      (t.Proceeds t' ∨
      (t.signal = true ∧ t.phase.Underway ∧ t'.phase = .ending .paused) ∨
      (t.signal = true ∧ t.phase.Transferring ∧ t'.phase = .ending (.failed .aborted)) ∨
      (∃ outcome, t.phase = .ending outcome ∧ event = .settle ∧ t'.phase = .cleaning) ∨
      (t.phase = .cleaning ∧ event = .remove ∧ t'.phase = .finished)) := by
  obtain ⟨phase, state, downloadedSoFar, abort, signal, aborted⟩ := t
  cases phase <;> cases event <;> simp only [next, reduceCtorEq] at h
  case looking.look found =>
    split at h
    all_goals first
      | cases h; done
      | cases h; exact ⟨rfl, .inl ⟨trivial, rfl, rfl, by simp [ends], fun ht => ht.elim⟩⟩
  case collected.begin files peerIp =>
    cases h
    refine ⟨rfl, .inl ⟨trivial, rfl, rfl, ?_, ?_⟩⟩
    · cases peerIp <;> simp
    · cases peerIp <;> exact fun ht => ht.elim
  case files.nextFile rest =>
    split at h
    · cases h
      exact ⟨rfl, .inl ⟨trivial, rfl, rfl, by simp [ends], fun ht => ht.elim⟩⟩
    · split at h
      · next hs =>
        cases h
        exact ⟨rfl, .inr (.inl ⟨hs, trivial, rfl⟩)⟩
      · next hs =>
        cases h
        exact ⟨rfl, .inl ⟨trivial, rfl, rfl, by simp, fun _ => .inr (by simpa using hs)⟩⟩
    · cases h
  case streaming.poll file rest =>
    split at h
    · next hs =>
      cases h
      exact ⟨rfl, .inr (.inr (.inl ⟨hs, trivial, rfl⟩))⟩
    · cases h
      exact ⟨rfl, .inl ⟨trivial, rfl, rfl, by simp, fun _ => .inl trivial⟩⟩
  case requesting.respond | reading.chunk =>
    cases h
    exact ⟨rfl, .inl ⟨trivial, rfl, rfl, by simp, fun _ => .inl trivial⟩⟩
  case reading.endOfStream | importing.imported =>
    cases h
    exact ⟨rfl, .inl ⟨trivial, rfl, rfl, by simp, fun ht => ht.elim⟩⟩
  case ending.settle outcome =>
    cases h
    exact ⟨rfl, .inr (.inr (.inr (.inl ⟨outcome, rfl, rfl, rfl⟩)))⟩
  case cleaning.remove =>
    cases h
    exact ⟨rfl, .inr (.inr (.inr (.inr ⟨rfl, rfl, rfl⟩)))⟩
  case requesting.fault | reading.fault | importing.fault =>
    split at h
    · cases h
      exact ⟨rfl, .inl ⟨trivial, rfl, rfl, by simp [ends], fun ht => ht.elim⟩⟩
    · cases h
  all_goals
    split at h
    · next hf => cases hf
    · cases h

end DownloadTask

/-- `start_download`; `resume_download` and `retry_download` remove the entry before. -/
structure StartCall where
  messageId : String
  again : Bool

inductive CallPhase
  | idle
  | removed
  | checked
  | spawned
  | returned (started : Bool)
  deriving DecidableEq

/-- The map of tasks, the calls, the task of each call that has spawned one, and the final events
that were emitted, latest first. -/
structure Downloads (ι : Type) where
  tasks : String → Option ι
  call : ι → CallPhase
  task : ι → Option DownloadTask
  events : List (ι × Outcome)

/-- A section of a call, a pause, or a step of a task. -/
inductive DownloadAction (ι : Type)
  | remove (c : ι)
  | check (c : ι)
  | spawn (c : ι)
  | insert (c : ι)
  | pause (messageId : String)
  | task (i : ι) (event : TaskEvent)

variable {ι : Type} [DecidableEq ι] (call : ι → StartCall)

namespace Downloads

def setCall (s : Downloads ι) (c : ι) (phase : CallPhase) : Downloads ι :=
  { s with call := Function.update s.call c phase }

def modifyTask (s : Downloads ι) (i : ι) (f : DownloadTask → DownloadTask) : Downloads ι :=
  { s with task := Function.update s.task i ((s.task i).map f) }

/-- The entry of a message is taken out, and its task aborted. -/
def removeEntry (s : Downloads ι) (messageId : String) : Downloads ι :=
  match s.tasks messageId with
  | none => s
  | some i => { s.modifyTask i .cancel with tasks := Function.update s.tasks messageId none }

/-- `pause_download`. -/
def pause (s : Downloads ι) (messageId : String) : Downloads ι :=
  match s.tasks messageId with
  | none => s
  | some i => s.modifyTask i .pause

/-- The section of `start_download` that looks for an entry. -/
def check (s : Downloads ι) (c : ι) (messageId : String) : Downloads ι :=
  s.setCall c (if (s.tasks messageId).isSome then .returned false else .checked)

end Downloads

def downloadNext (s : Downloads ι) : DownloadAction ι → Option (Downloads ι)
  | .remove c =>
    match s.call c, (call c).again with
    | .idle, true => some ((s.removeEntry (call c).messageId).setCall c .removed)
    | _, _ => none
  | .check c =>
    match s.call c, (call c).again with
    | .idle, false | .removed, true => some (s.check c (call c).messageId)
    | _, _ => none
  | .spawn c =>
    match s.call c with
    | .checked => some { s.setCall c .spawned with
        task := Function.update s.task c (some .new) }
    | _ => none
  | .insert c =>
    match s.call c with
    | .spawned => some { s.setCall c (.returned true) with
        tasks := Function.update s.tasks (call c).messageId (some c) }
    | _ => none
  | .pause messageId => some (s.pause messageId)
  | .task i event =>
    match s.task i with
    | none => none
    | some t => (t.next event).map fun t' =>
        { s with
          task := Function.update s.task i (some t')
          tasks := match event with
            | .remove => Function.update s.tasks (call i).messageId none
            | _ => s.tasks
          events := ((t.emits event).map (i, ·)).toList ++ s.events }

/-- The manager starts without tasks. -/
def downloadRuns : System (Downloads ι) (DownloadAction ι) where
  init s := s = ⟨fun _ => none, fun _ => .idle, fun _ => none, []⟩
  next := downloadNext call

end PlainRs.Download
