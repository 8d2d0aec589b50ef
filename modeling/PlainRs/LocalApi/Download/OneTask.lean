import PlainRs.LocalApi.Download.Manager

/-! Whether each message has at most one running download, the one in the map of tasks. -/
namespace PlainRs.Download

open Runs

section

variable {ι : Type} (call : ι → StartCall)

omit call in
/-- Spawned, not finished, and its handle not aborted. -/
def Downloads.Live (s : Downloads ι) (i : ι) : Prop :=
  ∃ t, s.task i = some t ∧ t.phase ≠ .finished ∧ t.aborted = false

omit call in
/-- A call between its check and its insert. -/
def Downloads.InProgress (s : Downloads ι) (c : ι) : Prop :=
  s.call c = .checked ∨ s.call c = .spawned

/-- No two live tasks have one message, and a live task is the one in the map unless a start of its
message is in progress. -/
def OneDownload (s : Downloads ι) : Prop :=
  (∀ i j, s.Live i → s.Live j → (call i).messageId = (call j).messageId → i = j) ∧
  ∀ i, s.Live i → (∀ c, (call c).messageId = (call i).messageId → ¬ s.InProgress c) →
    s.tasks (call i).messageId = some i

/-- A check that finds no entry finds no other start of its message in progress, and a task that
removes the entry of its message finds none of another live task. -/
def StartsApart (s : Downloads ι) : DownloadAction ι → Prop
  | .check c => s.tasks (call c).messageId = none →
      ∀ d, d ≠ c → (call d).messageId = (call c).messageId → ¬ s.InProgress d
  | .task i .remove => ∀ j, s.tasks (call i).messageId = some j → j ≠ i → ¬ s.Live j
  | _ => True

end

/-- A live task is in the map or its start still in progress, a start in progress has its message
for itself, and a task is spawned by a start that got that far. -/
structure Tracked {ι : Type} (call : ι → StartCall) (s : Downloads ι) : Prop where
  live : ∀ i, s.Live i → s.tasks (call i).messageId = some i ∨ s.call i = .spawned
  alone : ∀ c, s.InProgress c → s.tasks (call c).messageId = none ∧
    ∀ d, d ≠ c → (call d).messageId = (call c).messageId → ¬ s.InProgress d

variable {ι : Type} [DecidableEq ι] {call : ι → StartCall} {s t : Downloads ι}
  {a : DownloadAction ι} {i c : ι} {task task' : DownloadTask} {event : TaskEvent}

omit [DecidableEq ι] in
theorem Tracked.oneDownload (h : Tracked call s) : OneDownload call s := by
  constructor
  · intro i j hi hj hm
    rcases h.live i hi with hmi | hsi
    · rcases h.live j hj with hmj | hsj
      · rw [← hm, hmi] at hmj
        exact Option.some.inj hmj
      · have hnone := (h.alone j (.inr hsj)).1
        rw [← hm, hmi] at hnone
        cases hnone
    · by_contra hij
      obtain ⟨hnone, hother⟩ := h.alone i (.inr hsi)
      rcases h.live j hj with hmj | hsj
      · rw [← hm, hnone] at hmj
        cases hmj
      · exact hother j (Ne.symm hij) hm.symm (.inr hsj)
  · intro i hi hidle
    exact (h.live i hi).resolve_right fun hs => hidle i rfl (.inr hs)

theorem not_finished_of_next (h : task.next event = some task') : task.phase ≠ .finished := by
  intro hp
  rcases (DownloadTask.next_cases h).2 with hgo | ⟨-, hu, -⟩ | ⟨-, ht, -⟩ | ⟨outcome, he, -⟩ | ⟨hc, -⟩
  · have hu := hgo.underway
    rw [hp] at hu
    exact hu
  · rw [hp] at hu
    exact hu
  · rw [hp] at ht
    exact ht
  · rw [hp] at he
    cases he
  · rw [hp] at hc
    cases hc

theorem phase_of_remove (h : task.next .remove = some task') : task'.phase = .finished := by
  simp only [DownloadTask.next] at h
  split at h
  · cases h
    rfl
  · cases h

omit [DecidableEq ι] in
/-- What only stops tasks keeps the tracking. -/
theorem Tracked.of_live (h : Tracked call s) (htasks : t.tasks = s.tasks) (hcall : t.call = s.call)
    (hlive : ∀ i, t.Live i → s.Live i) : Tracked call t := by
  constructor
  · intro i hi
    rw [htasks, hcall]
    exact h.live i (hlive i hi)
  · intro c hc
    unfold Downloads.InProgress at hc ⊢
    rw [hcall] at hc ⊢
    rw [htasks]
    exact h.alone c hc

theorem live_modifyTask {f : DownloadTask → DownloadTask} (hphase : ∀ t, (f t).phase = t.phase)
    (haborted : ∀ t, (f t).aborted = false → t.aborted = false)
    (h : (s.modifyTask c f).Live i) : s.Live i := by
  obtain ⟨task', hs, hp, ha⟩ := h
  by_cases hi : i = c
  · subst hi
    simp only [Downloads.modifyTask, Function.update_self, Option.map_eq_some_iff] at hs
    obtain ⟨task, hs, rfl⟩ := hs
    exact ⟨task, hs, hphase task ▸ hp, haborted task ha⟩
  · simp only [Downloads.modifyTask, Function.update_of_ne hi] at hs
    exact ⟨task', hs, hp, ha⟩

theorem call_removeEntry {m : String} : (s.removeEntry m).call = s.call := by
  unfold Downloads.removeEntry
  split
  · rfl
  · rfl

/-- A message whose entry was taken out has no live task but one that is not yet inserted. -/
theorem tracked_removeEntry {m : String} (h : Tracked call s) : Tracked call (s.removeEntry m) := by
  cases hm : s.tasks m with
  | none =>
    simp only [Downloads.removeEntry, hm]
    exact h
  | some j =>
    simp only [Downloads.removeEntry, hm]
    constructor
    · intro i hi
      have hlive : s.Live i :=
        live_modifyTask (f := .cancel) (fun _ => rfl) (fun _ hf => by cases hf) hi
      rcases h.live i hlive with hmi | hsi
      · left
        by_cases hji : (call i).messageId = m
        · exfalso
          rw [hji, hm] at hmi
          cases hmi
          obtain ⟨task, hs, -, ha⟩ := hi
          simp only [Downloads.modifyTask, Function.update_self, Option.map_eq_some_iff] at hs
          obtain ⟨before, -, rfl⟩ := hs
          cases ha
        · simpa [hji] using hmi
      · exact .inr hsi
    · intro c hc
      obtain ⟨hnone, hother⟩ := h.alone c hc
      refine ⟨?_, hother⟩
      by_cases hcm : (call c).messageId = m
      · simp [hcm]
      · simpa [hcm] using hnone

theorem inProgress_setCall {phase : CallPhase} {d : ι} (hd : d ≠ c) :
    (s.setCall c phase).InProgress d ↔ s.InProgress d := by
  simp [Downloads.InProgress, Downloads.setCall, hd]

/-- A call that is not between its check and its insert, before and after. -/
theorem tracked_setCall {phase : CallPhase} (h : Tracked call s) (hold : ¬ s.InProgress c)
    (hnew : phase ≠ .checked ∧ phase ≠ .spawned) : Tracked call (s.setCall c phase) := by
  have hprogress : ∀ d, (s.setCall c phase).InProgress d → s.InProgress d := by
    intro d hd
    by_cases hdc : d = c
    · subst hdc
      simp [Downloads.InProgress, Downloads.setCall, hnew] at hd
    · exact (inProgress_setCall hdc).mp hd
  constructor
  · intro i hi
    have hic : s.call i = .spawned → (s.setCall c phase).call i = .spawned := by
      intro hs
      have hne : i ≠ c := by
        rintro rfl
        exact hold (.inr hs)
      simpa [Downloads.setCall, hne] using hs
    exact (h.live i hi).imp_right hic
  · intro d hd
    obtain ⟨hnone, hother⟩ := h.alone d (hprogress d hd)
    exact ⟨hnone, fun e he hm hp => hother e he hm (hprogress e hp)⟩

theorem tracked_check (h : Tracked call s) (hold : ¬ s.InProgress c)
    (hg : StartsApart call s (.check c)) : Tracked call (s.check c (call c).messageId) := by
  unfold Downloads.check
  cases hm : s.tasks (call c).messageId with
  | some j => exact tracked_setCall h hold ⟨by simp, by simp⟩
  | none =>
    have hapart := hg hm
    constructor
    · intro i hi
      refine (h.live i hi).imp_right fun hs => ?_
      have hne : i ≠ c := by
        rintro rfl
        exact hold (.inr hs)
      simpa [Downloads.setCall, hne] using hs
    · intro d hd
      by_cases hdc : d = c
      · subst hdc
        exact ⟨hm, fun e he hme hp => hapart e he hme ((inProgress_setCall he).mp hp)⟩
      · have hds : s.InProgress d := (inProgress_setCall hdc).mp hd
        obtain ⟨hnone, hother⟩ := h.alone d hds
        refine ⟨hnone, fun e he hme hp => ?_⟩
        by_cases hec : e = c
        · subst hec
          exact hapart d hdc hme.symm hds
        · exact hother e he hme ((inProgress_setCall hec).mp hp)

theorem tracked_spawn (h : Tracked call s) (hc : s.call c = .checked) : Tracked call
    { s.setCall c .spawned with task := Function.update s.task c (some .new) } := by
  constructor
  · intro i hi
    by_cases hic : i = c
    · subst hic
      right
      simp [Downloads.setCall]
    · have hlive : s.Live i := by simpa [Downloads.Live, Downloads.setCall, hic] using hi
      simpa [Downloads.setCall, hic] using h.live i hlive
  · intro d hd
    have hds : s.InProgress d := by
      by_cases hdc : d = c
      · subst hdc
        exact .inl hc
      · exact (inProgress_setCall hdc).mp hd
    obtain ⟨hnone, hother⟩ := h.alone d hds
    refine ⟨hnone, fun e he hme hp => hother e he hme ?_⟩
    by_cases hec : e = c
    · subst hec
      exact .inl hc
    · exact (inProgress_setCall hec).mp hp

theorem tracked_insert (h : Tracked call s) (hc : s.call c = .spawned) : Tracked call
    { s.setCall c (.returned true) with
      tasks := Function.update s.tasks (call c).messageId (some c) } := by
  obtain ⟨hfree, hmine⟩ := h.alone c (.inr hc)
  constructor
  · intro i hi
    by_cases hic : i = c
    · subst hic
      left
      simp
    · have hlive : s.Live i := hi
      by_cases him : (call i).messageId = (call c).messageId
      · exfalso
        rcases h.live i hlive with hmi | hsi
        · rw [him, hfree] at hmi
          cases hmi
        · exact hmine i hic him (.inr hsi)
      · simpa [Downloads.setCall, hic, him] using h.live i hlive
  · intro d hd
    have hdc : d ≠ c := by
      rintro rfl
      simp [Downloads.InProgress, Downloads.setCall] at hd
    have hds : s.InProgress d := (inProgress_setCall hdc).mp hd
    obtain ⟨hnone, hother⟩ := h.alone d hds
    have hdm : (call d).messageId ≠ (call c).messageId := fun hm => hmine d hdc hm hds
    refine ⟨?_, fun e he hme hp => ?_⟩
    · simpa [hdm] using hnone
    · by_cases hec : e = c
      · exact hdm (hme.symm.trans (by rw [hec]))
      · exact hother e he hme ((inProgress_setCall hec).mp hp)

theorem live_step {tasks : String → Option ι} {events : List (ι × Outcome)} {j : ι}
    (hi : s.task i = some task) (ht : task.next event = some task')
    (hj : Downloads.Live ⟨tasks, s.call, Function.update s.task i (some task'), events⟩ j) :
    s.Live j ∧ (j = i → task'.phase ≠ .finished) := by
  obtain ⟨t, htask, hphase, haborted⟩ := hj
  by_cases hji : j = i
  · subst hji
    simp only [Function.update_self, Option.some.injEq] at htask
    subst htask
    refine ⟨⟨task, hi, not_finished_of_next ht, ?_⟩, fun _ => hphase⟩
    rw [← (DownloadTask.next_cases ht).1]
    exact haborted
  · simp only [Function.update_of_ne hji] at htask
    exact ⟨⟨t, htask, hphase, haborted⟩, fun he => (hji he).elim⟩

/-- A task that ends takes the entry of its message out. -/
theorem tracked_remove {events : List (ι × Outcome)} (h : Tracked call s)
    (hi : s.task i = some task) (ht : task.next .remove = some task')
    (hg : StartsApart call s (.task i .remove)) :
    Tracked call ⟨Function.update s.tasks (call i).messageId none, s.call,
      Function.update s.task i (some task'), events⟩ := by
  constructor
  · intro j hj
    obtain ⟨hlive, hne⟩ := live_step hi ht hj
    have hji : j ≠ i := fun he => hne he (phase_of_remove ht)
    rcases h.live j hlive with hmj | hsj
    · left
      by_cases hjm : (call j).messageId = (call i).messageId
      · rw [hjm] at hmj
        exact (hg j hmj hji hlive).elim
      · simpa [hjm] using hmj
    · exact .inr hsj
  · intro c hc
    obtain ⟨hnone, hother⟩ := h.alone c hc
    refine ⟨?_, hother⟩
    by_cases hcm : (call c).messageId = (call i).messageId
    · simp [hcm]
    · simpa [hcm] using hnone

theorem tracked_next (h : Tracked call s) (hg : StartsApart call s a)
    (ht : downloadNext call s a = some t) : Tracked call t := by
  cases a with
  | remove c =>
    simp only [downloadNext] at ht
    split at ht
    · next hc _ =>
      cases ht
      refine tracked_setCall (tracked_removeEntry h) ?_ ⟨by simp, by simp⟩
      simp [Downloads.InProgress, call_removeEntry, hc]
    · cases ht
  | check c =>
    simp only [downloadNext] at ht
    split at ht
    · next hc _ =>
      cases ht
      exact tracked_check h (by simp [Downloads.InProgress, hc]) hg
    · next hc _ =>
      cases ht
      exact tracked_check h (by simp [Downloads.InProgress, hc]) hg
    · cases ht
  | spawn c =>
    simp only [downloadNext] at ht
    split at ht
    · next hc =>
      cases ht
      exact tracked_spawn h hc
    · cases ht
  | insert c =>
    simp only [downloadNext] at ht
    split at ht
    · next hc =>
      cases ht
      exact tracked_insert h hc
    · cases ht
  | pause m =>
    cases ht
    unfold Downloads.pause
    split
    · exact h
    · exact h.of_live rfl rfl fun i hi =>
        live_modifyTask (f := .pause) (fun _ => rfl) (fun _ hf => hf) hi
  | task i event =>
    simp only [downloadNext] at ht
    split at ht
    · cases ht
    · next task hi =>
      obtain ⟨task', hnext, rfl⟩ := Option.map_eq_some_iff.mp ht
      cases event with
      | remove => exact tracked_remove h hi hnext hg
      | _ => exact h.of_live rfl rfl fun j hj => (live_step hi hnext hj).1

/-- Under the condition, in every state reached, no two live tasks have one message, and pause and
resume reach each of them. -/
theorem one_download (h : ReachableUnder (downloadRuns call) (StartsApart call) s) :
    OneDownload call s := by
  have htracked : Tracked call s := by
    refine h.invariant ?_ fun s a t hs hg ht => tracked_next hs hg ht
    rintro s rfl
    constructor
    · rintro i ⟨t, ht, -⟩
      cases ht
    · rintro c (hc | hc)
      · cases hc
      · cases hc
  exact htracked.oneDownload

/-- Two calls for one message, the second a resume or a start of its own. -/
def twoCalls (resume : Bool) (second : Bool) : StartCall where
  messageId := "m"
  again := second && resume

/-- A resume after a start. -/
theorem one_download_resumed : ∃ s, OneDownload (twoCalls true) s ∧ s.tasks "m" = some true ∧
    s.Live true ∧ ¬ s.Live false := by
  have hchecked : ReachableUnder (downloadRuns (twoCalls true)) (StartsApart (twoCalls true)) _ :=
    (ReachableUnder.init rfl).step (a := .check false) (fun _ d _ _ hd => by
      rcases hd with hd | hd <;> cases hd) rfl
  have hspawned := hchecked.step (a := DownloadAction.spawn false) trivial rfl
  have hstarted := hspawned.step (a := DownloadAction.insert false) trivial rfl
  have hremoved := hstarted.step (a := DownloadAction.remove true) trivial rfl
  have hagain := hremoved.step (a := DownloadAction.check true) (fun _ d hne _ hd => by
    obtain rfl : d = false := by simpa using hne
    rcases hd with hd | hd <;> cases hd) rfl
  have hrespawned := hagain.step (a := DownloadAction.spawn true) trivial rfl
  have hresumed := hrespawned.step (a := DownloadAction.insert true) trivial rfl
  refine ⟨_, one_download hresumed, rfl, ⟨_, rfl, by decide, rfl⟩, ?_⟩
  rintro ⟨t, ht, -, haborted⟩
  cases ht
  cases haborted

/-- Two starts whose checks both come first run two tasks. -/
theorem twoStarts_run_both : ∃ s, Reachable (downloadRuns (twoCalls false)) s ∧
    ¬ OneDownload (twoCalls false) s := by
  have hchecked : Reachable (downloadRuns (twoCalls false)) _ :=
    (Reachable.init rfl).step (a := .check false) rfl
  have hboth := hchecked.step (a := DownloadAction.check true) rfl
  have hspawned := hboth.step (a := DownloadAction.spawn false) rfl
  have hrunning := hspawned.step (a := DownloadAction.spawn true) rfl
  refine ⟨_, hrunning, fun h => ?_⟩
  have hsame := h.1 true false ⟨_, rfl, by decide, rfl⟩ ⟨_, rfl, by decide, rfl⟩ rfl
  cases hsame

end PlainRs.Download
