import PlainRs.Base.Runs
import PlainRs.LocalApi.FileUpload.Files

/-! Merges without replace that run concurrently, and what they leave of the files that exist. -/
namespace PlainRs.FileUpload

open Chat Runs Utils

/-- A merge that is called without replace, with what its chunks hold. -/
structure MergeCall where
  fileId : String
  target : FilePath
  content : Content

/-- Where a merge is in `perform_merge`, and the path it has chosen. -/
inductive MergePhase
  | idle
  | staged
  | rechecking
  | probing (n : Nat)
  | renaming (path : FilePath)
  | copying (path : FilePath)
  | cleaning (path : FilePath)
  | returned (path : Option FilePath)
  deriving DecidableEq

structure MergeState (ι : Type) where
  fs : FileTree
  merging : String → Bool
  phase : ι → MergePhase

/-- What a copy does: it is complete, or fails, with what it has left at its destination if it got to
open it. -/
inductive CopyOutcome
  | complete
  | fails (left : Option Content)

inductive MergeAction (ι : Type)
  | start (i : ι)
  | check (i : ι)
  | rename (i : ι) (works : Bool)
  | copy (i : ι) (outcome : CopyOutcome)
  | cleanup (i : ι)

section

variable {ι : Type} [DecidableEq ι] (staging : String → List String) (processId : Nat)
  (call : ι → MergeCall)

namespace MergeState

def goto (s : MergeState ι) (i : ι) (phase : MergePhase) : MergeState ι :=
  { s with phase := Function.update s.phase i phase }

/-- The merge reports its result and gives up its claim. -/
def finish (s : MergeState ι) (i : ι) (fileId : String) (fs : FileTree) (path : Option FilePath) :
    MergeState ι where
  fs := fs
  merging := Function.update s.merging fileId false
  phase := Function.update s.phase i (.returned path)

end MergeState

/-- `start` claims the file id and merges the chunks into the temp file, `check` is one check of
existence; a rename or copy onto a directory fails. -/
def mergeNext (s : MergeState ι) : MergeAction ι → Option (MergeState ι)
  | .start i =>
    match s.phase i, s.merging (call i).fileId with
    | .idle, false => some {
        fs := s.fs.put (tempMerge staging processId (call i).fileId) (call i).content
        merging := Function.update s.merging (call i).fileId true
        phase := Function.update s.phase i .staged }
    | _, _ => none
  | .check i =>
    match s.phase i with
    | .staged => some (s.goto i
        (if (s.fs (call i).target).isSome then .rechecking else .renaming (call i).target))
    | .rechecking => some (s.goto i
        (if (s.fs (call i).target).isSome then .probing 1 else .renaming (call i).target))
    | .probing n => some (s.goto i
        (if (s.fs (sibling (call i).target n)).isNone then .renaming (sibling (call i).target n)
        else if n = lastSibling then .renaming (call i).target else .probing (n + 1)))
    | _ => none
  | .rename i works =>
    match s.phase i with
    | .renaming path =>
      match works && s.fs path ≠ some .directory,
        s.fs.content? (tempMerge staging processId (call i).fileId) with
      | true, some content => some { s.goto i (.cleaning path) with
          fs := (s.fs.removeFile (tempMerge staging processId (call i).fileId)).put path content }
      | _, _ => some (s.goto i (.copying path))
    | _ => none
  | .copy i outcome =>
    match s.phase i with
    | .copying path =>
      match outcome, decide (s.fs path ≠ some .directory),
        s.fs.content? (tempMerge staging processId (call i).fileId) with
      | .complete, true, some content => some { s.goto i (.cleaning path) with
          fs := s.fs.put path content }
      | .fails (some left), true, some _ =>
          some (s.finish i (call i).fileId (s.fs.put path left) none)
      | _, _, _ => some (s.finish i (call i).fileId s.fs none)
    | _ => none
  | .cleanup i =>
    match s.phase i with
    | .cleaning path => some (s.finish i (call i).fileId
        (s.fs.removeDirAll (staging (call i).fileId)) (some path))
    | _ => none

def mergeRuns (fs : FileTree) : System (MergeState ι) (MergeAction ι) where
  init s := s = ⟨fs, fun _ => false, fun _ => .idle⟩
  next := mergeNext staging processId call

omit [DecidableEq ι] in
/-- The path that a merge has chosen and not yet written to. -/
def MergePhase.chosen? : MergePhase → Option FilePath
  | .renaming path | .copying path => some path
  | _ => none

omit [DecidableEq ι] in
def MergePhase.Chosen (phase : MergePhase) (path : FilePath) : Prop :=
  phase = .renaming path ∨ phase = .copying path

omit [DecidableEq ι] in
/-- The path that a merge has put its content at. -/
def MergePhase.Made (phase : MergePhase) (path : FilePath) : Prop :=
  phase = .cleaning path ∨ phase = .returned (some path)

omit [DecidableEq ι] in
/-- No merge writes to a path that another one has chosen too, and the last sibling that a merge
checks is free. -/
def ChosenOnce (s : MergeState ι) : MergeAction ι → Prop
  | .rename i true | .copy i _ => ∀ j, j ≠ i → (s.phase j).chosen? ≠ (s.phase i).chosen?
  | .check i => s.phase i = .probing lastSibling →
      s.fs (sibling (call i).target lastSibling) = none
  | _ => True

omit [DecidableEq ι] in
/-- A path that a merge may choose. -/
def Candidate (i : ι) (path : FilePath) : Prop :=
  path = (call i).target ∨ ∃ n, path = sibling (call i).target n

omit [DecidableEq ι] in
/-- No target, and no sibling of it, is in the staging directory of a merge. -/
def TargetsOutside : Prop :=
  ∀ i path, Candidate call i path → ∀ j, ¬ Within path (staging (call j).fileId)

omit [DecidableEq ι] in
/-- What is outside the staging directories and was there is as it was. -/
def Kept (s t : MergeState ι) : Prop :=
  ∀ path, (∀ j, ¬ Within path (staging (call j).fileId)) → (s.fs path).isSome →
    t.fs path = s.fs path

omit [DecidableEq ι] in
/-- Each merge that has succeeded has left its content at a path of its own. -/
def OwnPaths (s : MergeState ι) : Prop :=
  ∀ i path, s.phase i = .returned (some path) → s.fs path = some (.file (call i).content) ∧
    ∀ j, j ≠ i → s.phase j ≠ .returned (some path)

end

def MergePhase.InProgress (phase : MergePhase) : Prop :=
  phase ≠ .idle ∧ ∀ result, phase ≠ .returned result

/-- What holds while no path is chosen twice: chosen paths are free, those that a merge has put its
content at are its own, and a temp file holds its merge's content as long as it is there. -/
structure Separate {ι : Type} (staging : String → List String) (processId : Nat)
    (call : ι → MergeCall) (s : MergeState ι) : Prop where
  chosen : ∀ i path, (s.phase i).Chosen path → s.fs path = none ∧ Candidate call i path
  made : ∀ i path, (s.phase i).Made path →
    s.fs path = some (.file (call i).content) ∧ Candidate call i path
  apart : ∀ i j path, (s.phase i).Made path → (s.phase j).Made path → i = j
  claimed : ∀ i, (s.phase i).InProgress → s.merging (call i).fileId = true
  alone : ∀ i j, (s.phase i).InProgress → (s.phase j).InProgress →
    (call i).fileId = (call j).fileId → i = j
  temp : ∀ i, (s.phase i).InProgress → ∀ content,
    s.fs.content? (tempMerge staging processId (call i).fileId) = some content →
      content = (call i).content

variable {ι : Type} [DecidableEq ι] {staging : String → List String} {processId : Nat}
  {call : ι → MergeCall} {s t : MergeState ι} {a : MergeAction ι} {i j : ι} {path : FilePath}

theorem tempMerge_injective : Function.Injective (tempMerge staging processId) := by
  intro a b h
  have hname : s!".merge_tmp_{a}_{processId}" = s!".merge_tmp_{b}_{processId}" :=
    congrArg Prod.snd h
  have htoString : toString a = toString b := by simpa [String.append_assoc] using hname
  exact htoString

omit [DecidableEq ι] in
theorem ne_temp_of_outside (h : ¬ Within path (staging (call j).fileId)) :
    path ≠ tempMerge staging processId (call j).fileId := by
  rintro rfl
  exact h (within_mk _ _)

omit [DecidableEq ι] in
/-- A path that a merge may choose is no temp file. -/
theorem ne_tempMerge (hout : TargetsOutside staging call) (hp : Candidate call i path) :
    path ≠ tempMerge staging processId (call j).fileId :=
  ne_temp_of_outside (hout i path hp j)

theorem phase_goto {phase : MergePhase} : (s.goto i phase).phase j =
    if j = i then phase else s.phase j := by
  by_cases hj : j = i
  · simp [MergeState.goto, hj]
  · simp [MergeState.goto, hj]

/-- A merge that goes on without touching a file. -/
theorem Separate.goto {phase : MergePhase} (h : Separate staging processId call s)
    (hold : (s.phase i).InProgress)
    (hchosen : ∀ path, phase.Chosen path → s.fs path = none ∧ Candidate call i path)
    (hmade : ∀ path, ¬ phase.Made path) : Separate staging processId call (s.goto i phase) := by
  have hprogress : ∀ j, ((s.goto i phase).phase j).InProgress → (s.phase j).InProgress := by
    intro j hj
    rw [phase_goto] at hj
    split at hj
    · next he => exact he ▸ hold
    · exact hj
  have hmades : ∀ j path, ((s.goto i phase).phase j).Made path → (s.phase j).Made path := by
    intro j path hj
    rw [phase_goto] at hj
    split at hj
    · exact (hmade path hj).elim
    · exact hj
  constructor
  · intro j path hj
    rw [phase_goto] at hj
    split at hj
    · next he => exact he ▸ hchosen path hj
    · exact h.chosen j path hj
  · exact fun j path hj => h.made j path (hmades j path hj)
  · exact fun j k path hj hk => h.apart j k path (hmades j path hj) (hmades k path hk)
  · exact fun j hj => h.claimed j (hprogress j hj)
  · exact fun j k hj hk => h.alone j k (hprogress j hj) (hprogress k hk)
  · exact fun j hj => h.temp j (hprogress j hj)

omit [DecidableEq ι] in
theorem content?_congr {fs gs : FileTree} (h : fs path = gs path) :
    fs.content? path = gs.content? path := by
  unfold FileTree.content?
  rw [h]

omit [DecidableEq ι] in
theorem MergePhase.Chosen.inProgress {phase : MergePhase} (h : phase.Chosen path) :
    phase.InProgress := by
  rcases h with rfl | rfl
  · exact ⟨by simp, by simp⟩
  · exact ⟨by simp, by simp⟩

/-- A merge that has put its content at the path it chose. -/
theorem Separate.put {fs : FileTree} (h : Separate staging processId call s)
    (hout : TargetsOutside staging call) (hi : (s.phase i).Chosen path)
    (hg : ∀ j, j ≠ i → ¬ (s.phase j).Chosen path)
    (hpath : fs path = some (.file (call i).content))
    (htemp : fs (tempMerge staging processId (call i).fileId) = none ∨
      fs (tempMerge staging processId (call i).fileId) =
        s.fs (tempMerge staging processId (call i).fileId))
    (hother : ∀ q, q ≠ path → q ≠ tempMerge staging processId (call i).fileId → fs q = s.fs q) :
    Separate staging processId call ⟨fs, s.merging, Function.update s.phase i (.cleaning path)⟩ := by
  obtain ⟨hfree, hdir⟩ := h.chosen i path hi
  have hprogress : ∀ j, (Function.update s.phase i (.cleaning path) j).InProgress →
      (s.phase j).InProgress := by
    intro j hj
    by_cases hji : j = i
    · exact hji ▸ hi.inProgress
    · rwa [Function.update_of_ne hji] at hj
  have hmades : ∀ j q, (Function.update s.phase i (.cleaning path) j).Made q →
      (j = i ∧ q = path) ∨ (s.phase j).Made q ∧ q ≠ path := by
    intro j q hj
    by_cases hji : j = i
    · subst hji
      rw [Function.update_self] at hj
      rcases hj with hj | hj
      · cases hj
        exact .inl ⟨rfl, rfl⟩
      · cases hj
    · rw [Function.update_of_ne hji] at hj
      refine .inr ⟨hj, ?_⟩
      rintro rfl
      rw [(h.made j q hj).1] at hfree
      cases hfree
  constructor
  · intro j q hj
    by_cases hji : j = i
    · subst hji
      simp only [Function.update_self] at hj
      rcases hj with hj | hj <;> cases hj
    · simp only [Function.update_of_ne hji] at hj
      obtain ⟨hnone, hqdir⟩ := h.chosen j q hj
      have hq : q ≠ path := by
        rintro rfl
        exact hg j hji hj
      exact ⟨(hother q hq (ne_tempMerge hout hqdir)).trans hnone, hqdir⟩
  · intro j q hj
    rcases hmades j q hj with ⟨rfl, rfl⟩ | ⟨hmade, hq⟩
    · exact ⟨hpath, hdir⟩
    · obtain ⟨hfile, hqdir⟩ := h.made j q hmade
      exact ⟨(hother q hq (ne_tempMerge hout hqdir)).trans hfile, hqdir⟩
  · intro j k q hj hk
    rcases hmades j q hj with ⟨rfl, rfl⟩ | ⟨hj, hq⟩
    · rcases hmades k q hk with ⟨rfl, -⟩ | ⟨-, hq⟩
      · rfl
      · exact (hq rfl).elim
    · rcases hmades k q hk with ⟨rfl, rfl⟩ | ⟨hk, -⟩
      · exact (hq rfl).elim
      · exact h.apart j k q hj hk
  · exact fun j hj => h.claimed j (hprogress j hj)
  · exact fun j k hj hk => h.alone j k (hprogress j hj) (hprogress k hk)
  · intro j hj content hc
    by_cases hji : j = i
    · subst hji
      rcases htemp with hnone | hsame
      · simp [FileTree.content?, hnone] at hc
      · exact h.temp j hi.inProgress content ((content?_congr hsame).symm.trans hc)
    · have hne : tempMerge staging processId (call j).fileId ≠
          tempMerge staging processId (call i).fileId := fun he =>
        hji (h.alone j i (hprogress j hj) hi.inProgress (tempMerge_injective he))
      have hsame := hother _ (ne_tempMerge hout hdir).symm hne
      exact h.temp j (hprogress j hj) content ((content?_congr hsame).symm.trans hc)

/-- A merge that reports its result. -/
theorem Separate.finish {fs : FileTree} {result : Option FilePath}
    (h : Separate staging processId call s) (hi : (s.phase i).InProgress)
    (hresult : ∀ path, result = some path → s.phase i = .cleaning path)
    (hchosen : ∀ j q, j ≠ i → (s.phase j).Chosen q → fs q = s.fs q)
    (hmade : ∀ j q, (s.phase j).Made q → fs q = s.fs q)
    (htemp : ∀ j, j ≠ i → (s.phase j).InProgress →
      fs (tempMerge staging processId (call j).fileId) = none ∨
        fs (tempMerge staging processId (call j).fileId) =
          s.fs (tempMerge staging processId (call j).fileId)) :
    Separate staging processId call (s.finish i (call i).fileId fs result) := by
  have hprogress : ∀ j, ((s.finish i (call i).fileId fs result).phase j).InProgress →
      j ≠ i ∧ (s.phase j).InProgress := by
    intro j hj
    by_cases hji : j = i
    · subst hji
      simp [MergeState.finish, MergePhase.InProgress] at hj
    · exact ⟨hji, by simpa [MergeState.finish, hji] using hj⟩
  have hmades : ∀ j q, ((s.finish i (call i).fileId fs result).phase j).Made q →
      (s.phase j).Made q := by
    intro j q hj
    by_cases hji : j = i
    · subst hji
      simp only [MergeState.finish, Function.update_self] at hj
      rcases hj with hj | hj
      · cases hj
      · exact .inl (hresult q (MergePhase.returned.inj hj))
    · simpa [MergeState.finish, hji] using hj
  constructor
  · intro j q hj
    by_cases hji : j = i
    · subst hji
      simp only [MergeState.finish, Function.update_self] at hj
      rcases hj with hj | hj <;> cases hj
    · have hold : (s.phase j).Chosen q := by simpa [MergeState.finish, hji] using hj
      obtain ⟨hnone, hqdir⟩ := h.chosen j q hold
      exact ⟨(hchosen j q hji hold).trans hnone, hqdir⟩
  · intro j q hj
    obtain ⟨hfile, hqdir⟩ := h.made j q (hmades j q hj)
    exact ⟨(hmade j q (hmades j q hj)).trans hfile, hqdir⟩
  · exact fun j k q hj hk => h.apart j k q (hmades j q hj) (hmades k q hk)
  · intro j hj
    obtain ⟨hji, hold⟩ := hprogress j hj
    have hne : (call j).fileId ≠ (call i).fileId := fun he => hji (h.alone j i hold hi he)
    simpa [MergeState.finish, hne] using h.claimed j hold
  · exact fun j k hj hk => h.alone j k (hprogress j hj).2 (hprogress k hk).2
  · intro j hj content hc
    obtain ⟨hji, hold⟩ := hprogress j hj
    rcases htemp j hji hold with hnone | hsame
    · simp [MergeState.finish, FileTree.content?, hnone] at hc
    · exact h.temp j hold content ((content?_congr hsame).symm.trans hc)

/-- A merge that claims a file id that no other has claimed. -/
theorem Separate.start (h : Separate staging processId call s)
    (hout : TargetsOutside staging call) (hi : s.phase i = .idle)
    (hm : s.merging (call i).fileId = false) : Separate staging processId call
    ⟨s.fs.put (tempMerge staging processId (call i).fileId) (call i).content,
      Function.update s.merging (call i).fileId true, Function.update s.phase i .staged⟩ := by
  have hprogress : ∀ j, j ≠ i → (Function.update s.phase i .staged j).InProgress →
      (s.phase j).InProgress ∧ (call j).fileId ≠ (call i).fileId := by
    intro j hji hj
    rw [Function.update_of_ne hji] at hj
    refine ⟨hj, fun he => ?_⟩
    have hclaimed := h.claimed j hj
    rw [he, hm] at hclaimed
    cases hclaimed
  have hbeside : ∀ j q, Candidate call j q →
      s.fs.put (tempMerge staging processId (call i).fileId) (call i).content q = s.fs q :=
    fun j q hq => Function.update_of_ne (ne_tempMerge hout hq) _ _
  have hold : ∀ j, Function.update s.phase i .staged j = .staged ∨
      Function.update s.phase i .staged j = s.phase j := by
    intro j
    by_cases hji : j = i
    · left
      rw [hji, Function.update_self]
    · right
      exact Function.update_of_ne hji _ _
  have hmades : ∀ j q, (Function.update s.phase i .staged j).Made q → (s.phase j).Made q := by
    intro j q hj
    rcases hold j with he | he
    · rw [he] at hj
      rcases hj with hj | hj <;> cases hj
    · exact he ▸ hj
  constructor
  · intro j q hj
    rcases hold j with he | he
    · simp only [he] at hj
      rcases hj with hj | hj <;> cases hj
    · obtain ⟨hnone, hq⟩ := h.chosen j q (he ▸ hj)
      exact ⟨(hbeside j q hq).trans hnone, hq⟩
  · intro j q hj
    obtain ⟨hfile, hq⟩ := h.made j q (hmades j q hj)
    exact ⟨(hbeside j q hq).trans hfile, hq⟩
  · exact fun j k q hj hk => h.apart j k q (hmades j q hj) (hmades k q hk)
  · intro j hj
    by_cases hji : j = i
    · rw [hji]
      exact Function.update_self _ _ _
    · obtain ⟨hp, hne⟩ := hprogress j hji hj
      exact (Function.update_of_ne hne _ _).trans (h.claimed j hp)
  · intro j k hj hk he
    by_cases hji : j = i
    · by_cases hki : k = i
      · exact hji.trans hki.symm
      · exact ((hprogress k hki hk).2 (he.symm.trans (by rw [hji]))).elim
    · by_cases hki : k = i
      · exact ((hprogress j hji hj).2 (he.trans (by rw [hki]))).elim
      · exact h.alone j k (hprogress j hji hj).1 (hprogress k hki hk).1 he
  · intro j hj content hc
    by_cases hji : j = i
    · subst hji
      simpa [FileTree.put, FileTree.content?] using hc.symm
    · obtain ⟨hp, hne⟩ := hprogress j hji hj
      have hsame : s.fs.put (tempMerge staging processId (call i).fileId) (call i).content
          (tempMerge staging processId (call j).fileId) =
            s.fs (tempMerge staging processId (call j).fileId) :=
        Function.update_of_ne (fun he => hne (tempMerge_injective he)) _ _
      exact h.temp j hp content ((content?_congr hsame).symm.trans hc)

omit [DecidableEq ι] in
theorem not_chosen (hg : ∀ j, j ≠ i → (s.phase j).chosen? ≠ (s.phase i).chosen?)
    (hi : (s.phase i).Chosen path) (hj : j ≠ i) : ¬ (s.phase j).Chosen path := by
  have heq : ∀ {phase : MergePhase}, phase.Chosen path → phase.chosen? = some path := by
    rintro phase (rfl | rfl)
    · rfl
    · rfl
  exact fun hp => hg j hj ((heq hp).trans (heq hi).symm)

theorem separate_rename {works : Bool} (hout : TargetsOutside staging call)
    (h : Separate staging processId call s) (hg : ChosenOnce call s (.rename i works))
    (ht : mergeNext staging processId call s (.rename i works) = some t) :
    Separate staging processId call t ∧ Kept staging call s t := by
  simp only [mergeNext] at ht
  split at ht
  · next path hp =>
    have hchosen : (s.phase i).Chosen path := .inl hp
    obtain ⟨hfree, hdir⟩ := h.chosen i path hchosen
    split at ht
    · next content hw hc =>
      cases ht
      obtain rfl : works = true := by
        rw [Bool.and_eq_true] at hw
        exact hw.1
      have hown : content = (call i).content := h.temp i hchosen.inProgress content hc
      subst hown
      have hother : ∀ q, q ≠ path → q ≠ tempMerge staging processId (call i).fileId →
          (s.fs.removeFile (tempMerge staging processId (call i).fileId)).put path
            (call i).content q = s.fs q := by
        intro q hq hqt
        exact (Function.update_of_ne hq _ _).trans (Function.update_of_ne hqt _ _)
      refine ⟨h.put hout hchosen (fun j hj => not_chosen hg hchosen hj) (Function.update_self _ _ _)
        (.inl ?_) hother, ?_⟩
      · exact (Function.update_of_ne (ne_tempMerge hout hdir).symm _ _).trans
          (Function.update_self _ _ _)
      · intro q hq hthere
        refine hother q ?_ (ne_temp_of_outside (hq i))
        rintro rfl
        rw [hfree] at hthere
        cases hthere
    · cases ht
      refine ⟨h.goto hchosen.inProgress ?_ ?_, fun q _ _ => rfl⟩
      · rintro q (hq | hq)
        · cases hq
        · cases hq
          exact ⟨hfree, hdir⟩
      · rintro q (hq | hq) <;> cases hq
  · cases ht

theorem separate_copy {outcome : CopyOutcome} (hout : TargetsOutside staging call)
    (h : Separate staging processId call s) (hg : ChosenOnce call s (.copy i outcome))
    (ht : mergeNext staging processId call s (.copy i outcome) = some t) :
    Separate staging processId call t ∧ Kept staging call s t := by
  simp only [mergeNext] at ht
  split at ht
  · next path hp =>
    have hchosen : (s.phase i).Chosen path := .inr hp
    obtain ⟨hfree, hdir⟩ := h.chosen i path hchosen
    have hput : ∀ content q, q ≠ path → s.fs.put path content q = s.fs q :=
      fun content q hq => Function.update_of_ne hq _ _
    have hkept : ∀ content q, (s.fs q).isSome → s.fs.put path content q = s.fs q := by
      intro content q hthere
      refine hput content q ?_
      rintro rfl
      rw [hfree] at hthere
      cases hthere
    split at ht
    · next content _ hc =>
      cases ht
      have hown : content = (call i).content := h.temp i hchosen.inProgress content hc
      subst hown
      refine ⟨h.put hout hchosen (fun j hj => not_chosen hg hchosen hj) (Function.update_self _ _ _)
        (.inr ?_) fun q hq _ => hput _ q hq, fun q _ hthere => hkept _ q hthere⟩
      exact hput _ _ (ne_tempMerge hout hdir).symm
    · next left _ _ _ _ _ =>
      cases ht
      refine ⟨h.finish hchosen.inProgress (by simp) ?_ ?_ ?_, fun q _ hthere => hkept _ q hthere⟩
      · intro j q hji hq
        refine hput _ q ?_
        rintro rfl
        exact not_chosen hg hchosen hji hq
      · intro j q hq
        refine hput _ q ?_
        rintro rfl
        rw [(h.made j q hq).1] at hfree
        cases hfree
      · intro j hji _
        exact .inr (hput _ _ (ne_tempMerge hout hdir).symm)
    · cases ht
      exact ⟨h.finish hchosen.inProgress (by simp) (fun _ _ _ _ => rfl) (fun _ _ _ => rfl)
        fun _ _ _ => .inr rfl, fun _ _ _ => rfl⟩
  · cases ht

/-- A phase that a check leads to: the path it has chosen, if it has, is free. -/
def FreeChoice (call : ι → MergeCall) (s : MergeState ι) (i : ι) (phase : MergePhase) : Prop :=
  (∀ path, phase.Chosen path → s.fs path = none ∧ Candidate call i path) ∧
    ∀ path, ¬ phase.Made path

omit [DecidableEq ι] in
theorem freeChoice_none {phase : MergePhase} (h : phase = .rechecking ∨ ∃ n, phase = .probing n) :
    FreeChoice call s i phase := by
  constructor
  · intro path hp
    rcases h with rfl | ⟨n, rfl⟩
    · rcases hp with hp | hp <;> cases hp
    · rcases hp with hp | hp <;> cases hp
  · intro path hp
    rcases h with rfl | ⟨n, rfl⟩
    · rcases hp with hp | hp <;> cases hp
    · rcases hp with hp | hp <;> cases hp

omit [DecidableEq ι] in
theorem freeChoice_renaming (hfree : s.fs path = none) (hdir : Candidate call i path) :
    FreeChoice call s i (.renaming path) := by
  constructor
  · intro q hq
    rcases hq with hq | hq
    · cases hq
      exact ⟨hfree, hdir⟩
    · cases hq
  · intro q hq
    rcases hq with hq | hq <;> cases hq

theorem separate_check (h : Separate staging processId call s)
    (hg : ChosenOnce call s (.check i))
    (ht : mergeNext staging processId call s (.check i) = some t) :
    Separate staging processId call t ∧ Kept staging call s t := by
  have hgoto : ∀ phase, (s.phase i).InProgress → FreeChoice call s i phase →
      Separate staging processId call (s.goto i phase) ∧ Kept staging call s (s.goto i phase) :=
    fun phase hp hchoice => ⟨h.goto hp hchoice.1 hchoice.2, fun _ _ _ => rfl⟩
  simp only [mergeNext] at ht
  split at ht
  · next hp =>
    cases ht
    refine hgoto _ (by rw [hp]; exact ⟨by simp, by simp⟩) ?_
    split
    · exact freeChoice_none (.inl rfl)
    · next he => exact freeChoice_renaming (by simpa using he) (.inl rfl)
  · next hp =>
    cases ht
    refine hgoto _ (by rw [hp]; exact ⟨by simp, by simp⟩) ?_
    split
    · exact freeChoice_none (.inr ⟨1, rfl⟩)
    · next he => exact freeChoice_renaming (by simpa using he) (.inl rfl)
  · next n hp =>
    cases ht
    refine hgoto _ (by rw [hp]; exact ⟨by simp, by simp⟩) ?_
    split
    · next he => exact freeChoice_renaming (by simpa using he) (.inr ⟨n, rfl⟩)
    · next he =>
      split
      · next hn =>
        -- the last sibling is free, so it is chosen
        subst hn
        exact (he (by rw [hg hp]; rfl)).elim
      · exact freeChoice_none (.inr ⟨n + 1, rfl⟩)
  · cases ht

theorem separate_cleanup (hout : TargetsOutside staging call)
    (h : Separate staging processId call s)
    (ht : mergeNext staging processId call s (.cleanup i) = some t) :
    Separate staging processId call t ∧ Kept staging call s t := by
  simp only [mergeNext] at ht
  split at ht
  · next path hp =>
    cases ht
    have hi : (s.phase i).InProgress := by
      rw [hp]
      exact ⟨by simp, by simp⟩
    have hbeside : ∀ j (q : FilePath), Candidate call j q →
        s.fs.removeDirAll (staging (call i).fileId) q = s.fs q :=
      fun j q hq => if_neg (hout j q hq i)
    refine ⟨h.finish hi ?_ ?_ ?_ ?_, fun q hq _ => if_neg (hq i)⟩
    · rintro q hq
      cases hq
      exact hp
    · exact fun j q _ hq => hbeside j q (h.chosen j q hq).2
    · exact fun j q hq => hbeside j q (h.made j q hq).2
    · intro j _ _
      unfold FileTree.removeDirAll
      split
      · exact .inl rfl
      · exact .inr rfl
  · cases ht

theorem separate_next (hout : TargetsOutside staging call) (h : Separate staging processId call s)
    (hg : ChosenOnce call s a) (ht : mergeNext staging processId call s a = some t) :
    Separate staging processId call t ∧ Kept staging call s t := by
  cases a with
  | start i =>
    simp only [mergeNext] at ht
    split at ht
    · next hi hm =>
      cases ht
      exact ⟨h.start hout hi hm, fun q hq _ =>
        Function.update_of_ne (ne_temp_of_outside (hq i)) _ _⟩
    · cases ht
  | check i => exact separate_check h hg ht
  | rename i works => exact separate_rename hout h hg ht
  | copy i outcome => exact separate_copy hout h hg ht
  | cleanup i => exact separate_cleanup hout h ht

section

variable (staging processId call)

/-- What can follow a state. -/
def mergesFrom (s : MergeState ι) : System (MergeState ι) (MergeAction ι) where
  init := (· = s)
  next := mergeNext staging processId call

end

theorem separate_init {fs : FileTree} (h : (mergeRuns staging processId call fs).init s) :
    Separate staging processId call s := by
  cases h
  constructor
  · rintro i path (hi | hi) <;> cases hi
  · rintro i path (hi | hi) <;> cases hi
  · rintro i j path (hi | hi) <;> cases hi
  · exact fun i hi => (hi.1 rfl).elim
  · exact fun i j hi => (hi.1 rfl).elim
  · exact fun i hi => (hi.1 rfl).elim

/-- Without targets in a staging directory, and with no path chosen twice at a time: from any state
reached on, every file outside the staging directories stays as it is, and every merge that succeeds
leaves its own content at a path of its own. -/
theorem merges_keep_files {fs : FileTree} (hout : TargetsOutside staging call)
    (h : ReachableUnder (mergeRuns staging processId call fs) (ChosenOnce call) s)
    (ht : ReachableUnder (mergesFrom staging processId call s) (ChosenOnce call) t) :
    Kept staging call s t ∧ OwnPaths call t := by
  have hs : Separate staging processId call s :=
    h.invariant (fun s hs => separate_init hs) fun s a t hs hg hn => (separate_next hout hs hg hn).1
  have hboth : Separate staging processId call t ∧ Kept staging call s t := by
    refine ht.invariant (I := fun t => Separate staging processId call t ∧ Kept staging call s t)
      ?_ ?_
    · rintro t rfl
      exact ⟨hs, fun _ _ _ => rfl⟩
    · rintro t a u ⟨hsep, hkept⟩ hg hn
      obtain ⟨hsep', hkept'⟩ := separate_next hout hsep hg hn
      refine ⟨hsep', fun path hp hthere => ?_⟩
      have hsame := hkept path hp hthere
      exact (hkept' path hp (hsame ▸ hthere)).trans hsame
  refine ⟨hboth.2, fun i path hi => ⟨(hboth.1.made i path (.inr hi)).1, fun j hj hp => ?_⟩⟩
  exact hj (hboth.1.apart j i path (.inr hp) (.inr hi))

/-- Two merges into one file. -/
def twoMerges (second : Bool) : MergeCall where
  fileId := if second then "b" else "a"
  target := (["home"], "x.txt")
  content := if second then [2] else [1]

instance (s : MergeState Bool) (a : MergeAction Bool) : Decidable (ChosenOnce twoMerges s a) :=
  match a with
  | .rename i true | .copy i _ =>
    inferInstanceAs (Decidable (∀ j, j ≠ i → (s.phase j).chosen? ≠ (s.phase i).chosen?))
  | .check i => inferInstanceAs (Decidable (s.phase i = .probing lastSibling →
      s.fs (sibling (twoMerges i).target lastSibling) = none))
  | .rename _ false | .start _ | .cleanup _ => inferInstanceAs (Decidable True)

theorem demo_outside : TargetsOutside (chunkDir ["data"]) twoMerges := by
  intro i path hp j
  rcases hp with rfl | ⟨n, rfl⟩ <;>
    simp [Within, chunkDir, sibling, twoMerges, List.cons_prefix_cons]

/-- The target of both is there. -/
def demoFs : FileTree := fun path => if path = (["home"], "x.txt") then some (.file [9]) else none

/-- The second looks for a sibling after the first has renamed. -/
theorem merges_keep_files_siblings : ∃ t, Kept (chunkDir ["data"]) twoMerges
    ⟨demoFs, fun _ => false, fun _ => .idle⟩ t ∧ OwnPaths twoMerges t ∧
      t.phase false = .returned (some (["home"], "x_1.txt")) ∧
      t.phase true = .returned (some (["home"], "x_2.txt")) := by
  have hrun : ((mergesFrom (chunkDir ["data"]) 7 twoMerges ⟨demoFs, fun _ => false, fun _ => .idle⟩).run
      (ChosenOnce twoMerges) ⟨demoFs, fun _ => false, fun _ => .idle⟩ [.start false, .start true,
        .check false, .check false, .check false, .rename false true, .check true, .check true,
        .check true, .check true, .rename true false, .copy true .complete, .cleanup false,
        .cleanup true]).any (fun t => t.phase false = .returned (some (["home"], "x_1.txt")) &&
          t.phase true = .returned (some (["home"], "x_2.txt"))) = true := by
    decide +kernel
  obtain ⟨t, ht, hends⟩ := ReachableUnder.of_run rfl hrun
  simp only [Bool.and_eq_true, decide_eq_true_eq] at hends
  obtain ⟨hkept, hown⟩ := merges_keep_files demo_outside (.init rfl) ht
  exact ⟨t, hkept, hown, hends⟩

/-- Both find the target free, and the second replaces what the first has put there. -/
theorem merges_overwrite : ∃ s t,
    Reachable (mergeRuns (chunkDir ["data"]) 7 twoMerges fun _ => none) s ∧
    Reachable (mergesFrom (chunkDir ["data"]) 7 twoMerges s) t ∧
    ¬ (Kept (chunkDir ["data"]) twoMerges s t ∧ OwnPaths twoMerges t) := by
  have hrun : ((mergesFrom (chunkDir ["data"]) 7 twoMerges ⟨fun _ => none, fun _ => false,
      fun _ => .idle⟩).run (fun _ _ => True) ⟨fun _ => none, fun _ => false, fun _ => .idle⟩
        [.start false, .start true, .check false, .check true, .rename false true,
          .rename true true, .cleanup false, .cleanup true]).any (fun t =>
            t.phase false = .returned (some (["home"], "x.txt")) &&
              t.fs (["home"], "x.txt") = some (.file [2])) = true := by
    decide +kernel
  obtain ⟨t, ht, hends⟩ := ReachableUnder.of_run rfl hrun
  simp only [Bool.and_eq_true, decide_eq_true_eq] at hends
  refine ⟨_, t, .init rfl, ht, fun ⟨_, hown⟩ => ?_⟩
  have hfile := (hown false _ hends.1).1
  rw [hends.2] at hfile
  cases hfile

end PlainRs.FileUpload
