import PlainRs.Base.Files
import PlainRs.Base.Runs
import PlainRs.Chat.AppFileStore

/-! Contents that are staged in a named temp file, imported from it by its path, and the file removed,
by several jobs at a time. -/
namespace PlainRs.Chat

open Files Runs

/-- What comes in pieces for a job, and the path of its temp file. -/
structure StagedJob (κ : Type) where
  path : κ
  chunks : List Content
  fileName : String
  mimeType : String

/-- The bytes that the job is for. -/
def StagedJob.bytes {κ : Type} (job : StagedJob κ) : Content := job.chunks.flatten

def StagedJob.source {κ : Type} (job : StagedJob κ) (content : Content) : ImportSource :=
  ⟨content, some job.fileName, job.mimeType⟩

/-- The two that stage: `download_one` also removes the file when the stream fails or is aborted, and
leaves it when the import fails; `handle_upload` removes it then. -/
inductive Stager
  | downloadOne
  | handleUpload
  deriving DecidableEq

/-- The temp file is gone, or something else went wrong. -/
inductive StagedError
  | missing
  | other
  deriving DecidableEq

abbrev StagedResult := Except StagedError (Content × ImportResult)

/-- Where a job is: `node` is the file it has open, at an offset, with the chunks still to come. -/
inductive StagedPhase (ι : Type)
  | idle
  | writing (node : ι) (offset : Nat) (rest : List Content)
  | removing (result : StagedResult)
  | returned (result : StagedResult)

structure StagedState (ι κ : Type) where
  files : Store ι κ UInt8
  rows : AppFileTable
  phase : ι → StagedPhase ι

inductive StagedAction (ι : Type)
  | create (i : ι)
  | createFails (i : ι)
  | write (i : ι)
  | writeFails (i : ι)
  | streamFails (i : ι)
  | importFile (i : ι)
  | importFails (i : ι)
  | remove (i : ι)

section

variable {ι κ : Type} [DecidableEq ι] [DecidableEq κ] (stager : Stager) (sha : Sha)
  (job : ι → StagedJob κ)

omit [DecidableEq κ] in
/-- After an import that failed. -/
def Stager.afterFailure (error : StagedError) : StagedPhase ι :=
  match stager with
  | .downloadOne => .returned (.error error)
  | .handleUpload => .removing (.error error)

def stagedNext (s : StagedState ι κ) : StagedAction ι → Option (StagedState ι κ)
  | .create i =>
    match s.phase i with
    | .idle => some { s with
        files := s.files.create (job i).path i
        phase := Function.update s.phase i
          (.writing (s.files.opened (job i).path i) 0 (job i).chunks) }
    | _ => none
  | .createFails i =>
    match s.phase i with
    | .idle => some { s with
        phase := Function.update s.phase i (.returned (.error .other)) }
    | _ => none
  | .write i =>
    match s.phase i with
    | .writing node offset (chunk :: rest) => some { s with
        files := s.files.write 0 node offset chunk
        phase := Function.update s.phase i (.writing node (offset + chunk.length) rest) }
    | _ => none
  | .writeFails i =>
    match s.phase i with
    | .writing _ _ (_ :: _) => some { s with
        phase := Function.update s.phase i (.returned (.error .other)) }
    | _ => none
  | .streamFails i =>
    match stager, s.phase i with
    | .downloadOne, .writing _ _ _ => some { s with
        phase := Function.update s.phase i (.removing (.error .other)) }
    | _, _ => none
  | .importFile i =>
    match s.phase i with
    | .writing _ _ [] => some ((s.files.read? (job i).path).elim
        { s with phase := Function.update s.phase i (stager.afterFailure .missing) } fun content =>
          let out := ((job i).source content).importFile sha s.rows
          { s with
            rows := out.1
            phase := Function.update s.phase i (.removing (.ok (content, out.2))) })
    | _ => none
  | .importFails i =>
    match s.phase i with
    | .writing _ _ [] => some { s with
        phase := Function.update s.phase i (stager.afterFailure .other) }
    | _ => none
  | .remove i =>
    match s.phase i with
    | .removing result => some { s with
        files := s.files.unlink (job i).path
        phase := Function.update s.phase i (.returned result) }
    | _ => none

def stagedRuns (rows : AppFileTable) : System (StagedState ι κ) (StagedAction ι) where
  init s := s = ⟨.empty, rows, fun _ => .idle⟩
  next := stagedNext stager sha job

omit [DecidableEq ι] [DecidableEq κ] in
/-- Between the creation of its temp file and its import. -/
def StagedState.Writing (s : StagedState ι κ) (i : ι) : Prop :=
  ∃ node offset rest, s.phase i = .writing node offset rest

omit [DecidableEq ι] [DecidableEq κ] in
/-- A job creates its temp file while no other has that path between its creation and its import. -/
def CreatesApart (s : StagedState ι κ) : StagedAction ι → Prop
  | .create i => ∀ j, s.Writing j → (job j).path ≠ (job i).path
  | _ => True

omit [DecidableEq ι] [DecidableEq κ] in
/-- A job removes its temp file while no other has that path between its creation and its import. -/
def RemovesApart (s : StagedState ι κ) : StagedAction ι → Prop
  | .remove i => ∀ j, s.Writing j → (job j).path ≠ (job i).path
  | _ => True

omit [DecidableEq ι] [DecidableEq κ] in
/-- A job that has imported imported its own bytes, with the result that an import of them has. -/
def ImportsOwn (s : StagedState ι κ) : Prop :=
  ∀ i content result, (s.phase i = .removing (.ok (content, result)) ∨
    s.phase i = .returned (.ok (content, result))) → content = (job i).bytes ∧
      ∃ rows, result = (((job i).source (job i).bytes).importFile sha rows).2

omit [DecidableEq ι] [DecidableEq κ] in
/-- No job has missed its temp file. -/
def NoneMissing (s : StagedState ι κ) : Prop :=
  ∀ i, s.phase i ≠ .removing (.error .missing) ∧ s.phase i ≠ .returned (.error .missing)

end

/-- Each job that writes is a writer with the chunks up to its offset. -/
structure Staged {ι κ : Type} (job : ι → StagedJob κ) (writer : ι → Option (ι × Content))
    (s : StagedState ι κ) : Prop where
  tidy : Tidy (fun i => (job i).path) writer s.files
  writing : ∀ i node offset rest, s.phase i = .writing node offset rest →
    ∃ written, writer i = some (node, written) ∧ written.length = offset ∧
      written ++ rest.flatten = (job i).bytes
  writer : ∀ i, (writer i).isSome → s.Writing i

variable {ι κ : Type} [DecidableEq ι] [DecidableEq κ] {stager : Stager} {sha : Sha}
  {job : ι → StagedJob κ} {start : AppFileTable} {s t : StagedState ι κ} {a : StagedAction ι} {i : ι}
  {writer : ι → Option (ι × Content)}

/-- What a step does: it creates, writes on, leaves the file, imports or removes. -/
inductive StagedStep (stager : Stager) (sha : Sha) (job : ι → StagedJob κ) (s : StagedState ι κ) :
    StagedAction ι → StagedState ι κ → Prop
  | create {i : ι} (hi : s.phase i = .idle) : StagedStep stager sha job s (.create i) ⟨
      s.files.create (job i).path i, s.rows, Function.update s.phase i
        (.writing (s.files.opened (job i).path i) 0 (job i).chunks)⟩
  | write {i node : ι} {offset : Nat} {chunk : Content} {rest : List Content}
      (hi : s.phase i = .writing node offset (chunk :: rest)) :
      StagedStep stager sha job s (.write i) ⟨s.files.write 0 node offset chunk, s.rows,
        Function.update s.phase i (.writing node (offset + chunk.length) rest)⟩
  | leave {a : StagedAction ι} {i : ι} {e : StagedError} {phase : StagedPhase ι}
      (hp : phase = .removing (.error e) ∨ phase = .returned (.error e))
      (hm : e = .missing → s.Writing i ∧ s.files.read? (job i).path = none) :
      StagedStep stager sha job s a ⟨s.files, s.rows, Function.update s.phase i phase⟩
  | imported {i node : ι} {offset : Nat} {content : Content}
      (hi : s.phase i = .writing node offset [])
      (hc : s.files.read? (job i).path = some content) :
      StagedStep stager sha job s (.importFile i) ⟨s.files,
        (((job i).source content).importFile sha s.rows).1, Function.update s.phase i (.removing
          (.ok (content, (((job i).source content).importFile sha s.rows).2)))⟩
  | remove {i : ι} {result : StagedResult} (hi : s.phase i = .removing result) :
      StagedStep stager sha job s (.remove i) ⟨s.files.unlink (job i).path, s.rows,
        Function.update s.phase i (.returned result)⟩

omit [DecidableEq ι] in
theorem afterFailure_eq {error : StagedError} :
    (stager.afterFailure error : StagedPhase ι) = .removing (.error error) ∨
      (stager.afterFailure error : StagedPhase ι) = .returned (.error error) := by
  cases stager with
  | downloadOne => exact .inr rfl
  | handleUpload => exact .inl rfl

theorem stagedStep_of_next (h : stagedNext stager sha job s a = some t) :
    StagedStep stager sha job s a t := by
  cases a with
  | create i =>
    simp only [stagedNext] at h
    split at h
    · next hi =>
      cases h
      exact .create hi
    · cases h
  | createFails i =>
    simp only [stagedNext] at h
    split at h
    · cases h
      exact .leave (e := .other) (.inr rfl) (by simp)
    · cases h
  | write i =>
    simp only [stagedNext] at h
    split at h
    · next hi =>
      cases h
      exact .write hi
    · cases h
  | writeFails i =>
    simp only [stagedNext] at h
    split at h
    · cases h
      exact .leave (e := .other) (.inr rfl) (by simp)
    · cases h
  | streamFails i =>
    simp only [stagedNext] at h
    split at h
    · cases h
      exact .leave (e := .other) (.inl rfl) (by simp)
    · cases h
  | importFile i =>
    simp only [stagedNext] at h
    split at h
    · next hi =>
      cases hc : s.files.read? (job i).path with
      | none =>
        rw [hc] at h
        cases h
        exact .leave (e := .missing) afterFailure_eq fun _ => ⟨⟨_, _, _, hi⟩, hc⟩
      | some content =>
        rw [hc] at h
        cases h
        exact .imported hi hc
    · cases h
  | importFails i =>
    simp only [stagedNext] at h
    split at h
    · cases h
      exact .leave (e := .other) afterFailure_eq (by simp)
    · cases h
  | remove i =>
    simp only [stagedNext] at h
    split at h
    · next hi =>
      cases h
      exact .remove hi
    · cases h

omit [DecidableEq κ] in
/-- A job whose phase is not one of writing has no file open. -/
theorem Staged.close {files : Store ι κ UInt8} {rows : AppFileTable} {phase : StagedPhase ι}
    (h : Staged job writer s) (hfiles : Tidy (fun i => (job i).path) writer files)
    (hp : ∀ node offset rest, phase ≠ .writing node offset rest) :
    Staged job (Function.update writer i none) ⟨files, rows, Function.update s.phase i phase⟩ := by
  refine ⟨hfiles.close, ?_, ?_⟩
  · intro j node offset rest hj
    by_cases hji : j = i
    · subst hji
      simp only [Function.update_self] at hj
      exact (hp _ _ _ hj).elim
    · simp only [Function.update_of_ne hji] at hj ⊢
      exact h.writing j node offset rest hj
  · intro j hj
    by_cases hji : j = i
    · subst hji
      simp at hj
    · obtain ⟨node, offset, rest, hw⟩ := h.writer j (by simpa [hji] using hj)
      exact ⟨node, offset, rest, by simpa [hji] using hw⟩

omit [DecidableEq κ] in
/-- A job goes on with the file that it has open. -/
theorem Staged.proceed {files : Store ι κ UInt8} {node : ι} {written : Content}
    (h : Staged job writer s) (rest : List Content)
    (hfiles : Tidy (fun i => (job i).path) (Function.update writer i (some (node, written))) files)
    (hbytes : written ++ rest.flatten = (job i).bytes) :
    Staged job (Function.update writer i (some (node, written)))
      ⟨files, s.rows, Function.update s.phase i (.writing node written.length rest)⟩ := by
  refine ⟨hfiles, ?_, ?_⟩
  · intro j n offset rest' hj
    by_cases hji : j = i
    · subst hji
      simp only [Function.update_self, StagedPhase.writing.injEq] at hj
      obtain ⟨rfl, rfl, rfl⟩ := hj
      exact ⟨written, by simp, rfl, hbytes⟩
    · simp only [Function.update_of_ne hji] at hj ⊢
      exact h.writing j n offset rest' hj
  · intro j hj
    by_cases hji : j = i
    · subst hji
      exact ⟨node, _, rest, Function.update_self _ _ _⟩
    · obtain ⟨n, offset, rest', hw⟩ := h.writer j (by simpa [hji] using hj)
      exact ⟨n, offset, rest', by simpa [hji] using hw⟩

theorem staged_step (h : Staged job writer s) (hg : CreatesApart job s a)
    (ht : StagedStep stager sha job s a t) : ∃ writer', Staged job writer' t ∧
      (RemovesApart job s a → Present (fun i => (job i).path) writer s.files →
        Present (fun i => (job i).path) writer' t.files) := by
  cases ht with
  | create hi =>
    refine ⟨_, h.proceed (job _).chunks (h.tidy.create ?_) rfl, fun _ hp => hp.create⟩
    intro j hj
    exact hg j (h.writer j hj)
  | @write i node offset chunk rest hi =>
    obtain ⟨written, hw, rfl, hbytes⟩ := h.writing i node offset _ hi
    have hgo := h.proceed rest (h.tidy.write hw 0 chunk) (by simpa using hbytes)
    rw [List.length_append] at hgo
    exact ⟨_, hgo, fun _ hp => hp.write (by simp [hw])⟩
  | leave hp hm =>
    refine ⟨_, h.close h.tidy ?_, fun _ hp => hp.close⟩
    rintro node offset rest rfl
    rcases hp with hp | hp <;> cases hp
  | imported hi hc => exact ⟨_, h.close h.tidy (by simp), fun _ hp => hp.close⟩
  | @remove i result hi =>
    refine ⟨_, h.close h.tidy.unlink (by simp), fun hr hp => (hp.unlink ?_).close⟩
    intro j hj
    exact hr j (h.writer j hj)

/-- What an import reads is what its job wrote. -/
theorem importsOwn_step (h : Staged job writer s) (ho : ImportsOwn sha job s)
    (ht : StagedStep stager sha job s a t) : ImportsOwn sha job t := by
  intro j content result hj
  cases ht with
  | @imported i node offset content' hi hc =>
    by_cases hji : j = i
    · subst hji
      obtain ⟨written, hw, -, hbytes⟩ := h.writing j node offset [] hi
      have hread : content' = (job j).bytes := by
        rw [h.tidy.read hw hc]
        simpa using hbytes
      subst hread
      simp only [Function.update_self, StagedPhase.removing.injEq, Except.ok.injEq,
        Prod.mk.injEq, reduceCtorEq, or_false] at hj
      obtain ⟨rfl, rfl⟩ := hj
      exact ⟨rfl, s.rows, rfl⟩
    · exact ho j content result (by simpa [hji] using hj)
  | @create i hi =>
    by_cases hji : j = i
    · subst hji
      simp at hj
    · exact ho j content result (by simpa [hji] using hj)
  | @write i node offset chunk rest hi =>
    by_cases hji : j = i
    · subst hji
      simp at hj
    · exact ho j content result (by simpa [hji] using hj)
  | @leave a i e phase hp hm =>
    by_cases hji : j = i
    · subst hji
      rcases hp with rfl | rfl <;> simp at hj
    · exact ho j content result (by simpa [hji] using hj)
  | @remove i result' hi =>
    by_cases hji : j = i
    · subst hji
      simp only [Function.update_self, reduceCtorEq, StagedPhase.returned.injEq, false_or] at hj
      subst hj
      exact ho j content result (.inl hi)
    · exact ho j content result (by simpa [hji] using hj)

/-- A job whose temp file is there does not miss it. -/
theorem noneMissing_step (h : Staged job writer s)
    (hp : Present (fun i => (job i).path) writer s.files) (hn : NoneMissing s)
    (ht : StagedStep stager sha job s a t) : NoneMissing t := by
  have hkept : ∀ {i phase rows files}, phase ≠ .removing (.error .missing) →
      phase ≠ .returned (.error .missing) →
      NoneMissing (⟨files, rows, Function.update s.phase i phase⟩ : StagedState ι κ) := by
    intro i phase rows files hremoving hreturned j
    by_cases hji : j = i
    · subst hji
      simpa using ⟨hremoving, hreturned⟩
    · simpa [hji] using hn j
  cases ht with
  | create hi => exact hkept (by simp) (by simp)
  | write hi => exact hkept (by simp) (by simp)
  | @leave a i e phase hphase hm =>
    have he : e ≠ .missing := by
      intro he
      obtain ⟨⟨node, offset, rest, hw⟩, hnone⟩ := hm he
      obtain ⟨written, hwriter, -⟩ := h.writing i node offset rest hw
      have hthere := hp i (by simp [hwriter])
      rw [Store.read?, Option.map_eq_none_iff] at hnone
      simp [hnone] at hthere
    rcases hphase with rfl | rfl
    · exact hkept (by simpa using he) (by simp)
    · exact hkept (by simp) (by simpa using he)
  | imported hi hc => exact hkept (by simp) (by simp)
  | @remove i result hi =>
    refine hkept (by simp) ?_
    rintro heq
    cases heq
    exact (hn i).1 hi

theorem staged_init (h : (stagedRuns stager sha job start).init s) :
    Staged job (fun _ => none) s := by
  cases h
  refine ⟨tidy_empty, ?_, ?_⟩
  · intro i node offset rest hi
    cases hi
  · intro i hi
    cases hi

/-- While each job creates its temp file apart, every import is of the job's own bytes. -/
theorem imports_own (h : ReachableUnder (stagedRuns stager sha job start) (CreatesApart job) s) :
    ImportsOwn sha job s := by
  have hboth : (∃ writer, Staged job writer s) ∧ ImportsOwn sha job s := by
    refine h.invariant (I := fun s => (∃ writer, Staged job writer s) ∧ ImportsOwn sha job s) ?_ ?_
    · intro s hs
      refine ⟨⟨_, staged_init hs⟩, ?_⟩
      cases hs
      rintro i content result (hi | hi) <;> cases hi
    · rintro s a t ⟨⟨writer, hs⟩, ho⟩ hg ht
      have hstep := stagedStep_of_next ht
      obtain ⟨writer', hw, -⟩ := staged_step hs hg hstep
      exact ⟨⟨writer', hw⟩, importsOwn_step hs ho hstep⟩
  exact hboth.2

/-- While each job also removes its temp file apart, none misses its own. -/
theorem none_missing (h : ReachableUnder (stagedRuns stager sha job start)
    (fun s a => CreatesApart job s a ∧ RemovesApart job s a) s) : NoneMissing s := by
  have hboth : (∃ writer, Staged job writer s ∧
      Present (fun i => (job i).path) writer s.files) ∧ NoneMissing s := by
    refine h.invariant (I := fun s => (∃ writer, Staged job writer s ∧
      Present (fun i => (job i).path) writer s.files) ∧ NoneMissing s) ?_ ?_
    · intro s hs
      refine ⟨⟨_, staged_init hs, fun i hi => by cases hi⟩, ?_⟩
      cases hs
      exact fun i => ⟨by simp, by simp⟩
    · rintro s a t ⟨⟨writer, hs, hp⟩, hn⟩ ⟨hg, hr⟩ ht
      have hstep := stagedStep_of_next ht
      obtain ⟨writer', hw, hpresent⟩ := staged_step hs hg hstep
      exact ⟨⟨writer', hw, hpresent hr hp⟩, noneMissing_step hs hp hn hstep⟩
  exact hboth.2

end PlainRs.Chat
