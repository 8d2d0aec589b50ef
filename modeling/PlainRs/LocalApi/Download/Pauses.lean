import PlainRs.LocalApi.Download.OneTask

/-! Whether a pause makes a download fail. -/
namespace PlainRs.Download

open Runs

section

variable {ι : Type} [DecidableEq ι] (call : ι → StartCall)

omit [DecidableEq ι] in
/-- Not a section of a start, resume or retry of the message. -/
def NotCalled (messageId : String) (_ : Downloads ι) : DownloadAction ι → Prop
  | .remove c | .check c | .spawn c | .insert c => (call c).messageId ≠ messageId
  | .pause _ | .task _ _ => True

/-- What can follow a state. -/
def downloadsFrom (s : Downloads ι) : System (Downloads ι) (DownloadAction ι) where
  init := (· = s)
  next := downloadNext call

/-- A pause that finds the task leaves it PAUSED, and in all that follows without a start, resume or
retry of the message the task does not fail with the abort. -/
def PausesWell (s : Downloads ι) (messageId : String) (i : ι) : Prop :=
  ((s.pause messageId).task i).any (·.state.status = .paused) ∧
    ∀ t, ReachableUnder (downloadsFrom call (s.pause messageId)) (NotCalled call messageId) t →
      t.events.count (i, .failed .aborted) = s.events.count (i, .failed .aborted)

end

/-- The entry of a message is a task of the message that was spawned for it, and the abort signal of
a task under way is still to be sent or to be received. -/
structure Entered {ι : Type} (call : ι → StartCall) (s : Downloads ι) : Prop where
  entry : ∀ m i, s.tasks m = some i → (call i).messageId = m ∧ s.call i = .returned true
  spawned : ∀ i, s.call i = .spawned ∨ s.call i = .returned true → (s.task i).isSome
  signal : ∀ i t, s.task i = some t → t.phase.Underway → t.abort ∨ t.signal

variable {ι : Type} [DecidableEq ι] {call : ι → StartCall} {s t : Downloads ι}
  {a : DownloadAction ι} {i c : ι} {m : String} {task task' : DownloadTask} {event : TaskEvent}

omit [DecidableEq ι] in
theorem signal_step (ht : task.next event = some task') (h : task.phase.Underway → task.abort ∨ task.signal)
    (hu : task'.phase.Underway) : task'.abort ∨ task'.signal := by
  rcases (DownloadTask.next_cases ht).2 with hgo | ⟨-, -, hp⟩ | ⟨-, -, hp⟩ | ⟨outcome, -, -, hp⟩ |
    ⟨-, -, hp⟩
  · rw [hgo.abort, hgo.signal]
    exact h hgo.underway
  all_goals
    rw [hp] at hu
    exact hu.elim

/-- A task that is not in a transfer, and has the signal if it is under way. -/
def DownloadTask.Warned (t : DownloadTask) : Prop :=
  ¬ t.phase.Transferring ∧ (t.phase.Underway → t.signal = true)

theorem warned_step (ht : task.next event = some task') (h : task.Warned) : task'.Warned := by
  obtain ⟨htransfer, hsignal⟩ := h
  rcases (DownloadTask.next_cases ht).2 with hgo | ⟨-, -, hp⟩ | ⟨-, htr, -⟩ | ⟨outcome, -, -, hp⟩ |
    ⟨-, -, hp⟩
  · have hs := hsignal hgo.underway
    refine ⟨fun htr => ?_, fun _ => hgo.signal.trans hs⟩
    rcases hgo.transferring htr with htr | hno
    · exact htransfer htr
    · rw [hs] at hno
      cases hno
  · exact ⟨by rw [hp]; exact id, fun hu => by rw [hp] at hu; exact hu.elim⟩
  · exact (htransfer htr).elim
  · exact ⟨by rw [hp]; exact id, fun hu => by rw [hp] at hu; exact hu.elim⟩
  · exact ⟨by rw [hp]; exact id, fun hu => by rw [hp] at hu; exact hu.elim⟩

theorem task_modifyTask {f : DownloadTask → DownloadTask} {j : ι}
    (h : (s.modifyTask c f).task j = some task) :
    (j = c ∧ ∃ before, s.task j = some before ∧ task = f before) ∨ j ≠ c ∧ s.task j = some task := by
  by_cases hj : j = c
  · subst hj
    simp only [Downloads.modifyTask, Function.update_self, Option.map_eq_some_iff] at h
    obtain ⟨before, hb, rfl⟩ := h
    exact .inl ⟨rfl, before, hb, rfl⟩
  · simp only [Downloads.modifyTask, Function.update_of_ne hj] at h
    exact .inr ⟨hj, h⟩

theorem isSome_modifyTask {f : DownloadTask → DownloadTask} {j : ι} :
    ((s.modifyTask c f).task j).isSome = (s.task j).isSome := by
  by_cases hj : j = c
  · subst hj
    simp [Downloads.modifyTask]
  · simp [Downloads.modifyTask, hj]

/-- Tasks that are sent the signal, or left alone, keep what is entered. -/
theorem Entered.modifyTask {f : DownloadTask → DownloadTask} (h : Entered call s)
    (hphase : ∀ t, (f t).phase = t.phase) (hsignal : ∀ t, (f t).signal = (t.signal || t.abort)) :
    Entered call (s.modifyTask c f) := by
  refine ⟨h.entry, fun i hi => ?_, fun i t ht hu => ?_⟩
  · rw [isSome_modifyTask]
    exact h.spawned i hi
  · rcases task_modifyTask ht with ⟨-, before, hb, rfl⟩ | ⟨-, hb⟩
    · rw [hphase] at hu
      right
      rw [hsignal, Bool.or_eq_true]
      exact (h.signal i before hb hu).symm
    · exact h.signal i t hb hu

/-- A call that has not started a task moves on without doing so. -/
theorem Entered.setCall {phase : CallPhase} (h : Entered call s) (hold : s.call c ≠ .returned true)
    (hnew : phase ≠ .spawned ∧ phase ≠ .returned true) : Entered call (s.setCall c phase) := by
  refine ⟨fun m i hi => ?_, fun i hi => ?_, h.signal⟩
  · obtain ⟨hm, hcall⟩ := h.entry m i hi
    have hic : i ≠ c := by
      rintro rfl
      exact hold hcall
    exact ⟨hm, by simpa [Downloads.setCall, hic] using hcall⟩
  · by_cases hic : i = c
    · subst hic
      simp [Downloads.setCall, hnew] at hi
    · exact h.spawned i (by simpa [Downloads.setCall, hic] using hi)

theorem Entered.removeEntry (h : Entered call s) : Entered call (s.removeEntry m) := by
  unfold Downloads.removeEntry
  split
  · exact h
  · obtain ⟨hentry, hspawned, hsignal⟩ :=
      h.modifyTask (c := ‹ι›) (f := .cancel) (fun _ => rfl) fun _ => rfl
    refine ⟨fun n i hi => ?_, hspawned, hsignal⟩
    by_cases hn : n = m
    · simp [hn] at hi
    · exact hentry n i ((Function.update_of_ne hn _ _).symm.trans hi)

theorem entered_next (h : Entered call s) (ht : downloadNext call s a = some t) :
    Entered call t := by
  cases a with
  | remove c =>
    simp only [downloadNext] at ht
    split at ht
    · next hc _ =>
      cases ht
      refine h.removeEntry.setCall ?_ ⟨by simp, by simp⟩
      rw [call_removeEntry, hc]
      simp
    · cases ht
  | check c =>
    have hcheck : s.call c ≠ .returned true → Entered call (s.check c (call c).messageId) := by
      intro hc
      unfold Downloads.check
      split
      · exact h.setCall hc ⟨by simp, by simp⟩
      · exact h.setCall hc ⟨by simp, by simp⟩
    simp only [downloadNext] at ht
    split at ht
    · next hc _ =>
      cases ht
      exact hcheck (by simp [hc])
    · next hc _ =>
      cases ht
      exact hcheck (by simp [hc])
    · cases ht
  | spawn c =>
    simp only [downloadNext] at ht
    split at ht
    · next hc =>
      cases ht
      refine ⟨fun m i hi => ?_, fun i hi => ?_, fun i t hi hu => ?_⟩
      · obtain ⟨hm, hcall⟩ := h.entry m i hi
        have hic : i ≠ c := by
          rintro rfl
          rw [hc] at hcall
          cases hcall
        exact ⟨hm, by simpa [Downloads.setCall, hic] using hcall⟩
      · by_cases hic : i = c
        · simp [hic]
        · simpa [hic] using h.spawned i (by simpa [Downloads.setCall, hic] using hi)
      · by_cases hic : i = c
        · subst hic
          simp only [Function.update_self, Option.some.injEq] at hi
          subst hi
          exact .inl rfl
        · exact h.signal i t (by simpa [Downloads.setCall, hic] using hi) hu
    · cases ht
  | insert c =>
    simp only [downloadNext] at ht
    split at ht
    · next hc =>
      cases ht
      refine ⟨fun m i hi => ?_, fun i hi => ?_, h.signal⟩
      · by_cases hm : m = (call c).messageId
        · subst hm
          simp only [Function.update_self, Option.some.injEq] at hi
          subst hi
          exact ⟨rfl, by simp [Downloads.setCall]⟩
        · obtain ⟨hmi, hcall⟩ := h.entry m i (by simpa [Downloads.setCall, hm] using hi)
          refine ⟨hmi, ?_⟩
          by_cases hic : i = c
          · simp [Downloads.setCall, hic]
          · simpa [Downloads.setCall, hic] using hcall
      · by_cases hic : i = c
        · subst hic
          exact h.spawned i (.inl hc)
        · exact h.spawned i (by simpa [Downloads.setCall, hic] using hi)
    · cases ht
  | pause m =>
    cases ht
    unfold Downloads.pause
    split
    · exact h
    · exact h.modifyTask (f := .pause) (fun _ => rfl) fun _ => rfl
  | task i event =>
    simp only [downloadNext] at ht
    split at ht
    · cases ht
    · next task hi =>
      obtain ⟨task', hnext, rfl⟩ := Option.map_eq_some_iff.mp ht
      refine ⟨fun m j hj => ?_, fun j hj => ?_, fun j t hj hu => ?_⟩
      · refine h.entry m j ?_
        cases event with
        | remove =>
          by_cases hm : m = (call i).messageId
          · simp [hm] at hj
          · simpa [hm] using hj
        | _ => exact hj
      · by_cases hji : j = i
        · simp [hji]
        · simpa [hji] using h.spawned j hj
      · by_cases hji : j = i
        · subst hji
          simp only [Function.update_self, Option.some.injEq] at hj
          subst hj
          exact signal_step hnext (h.signal j task hi) hu
        · exact h.signal j t (by simpa [hji] using hj) hu

theorem entered_reachable (h : Reachable (downloadRuns call) s) : Entered call s := by
  refine h.invariant ?_ fun s a t hs ht => entered_next hs ht
  rintro s rfl
  refine ⟨?_, ?_, ?_⟩
  · intro m i hi
    cases hi
  · rintro i (hi | hi)
    · cases hi
    · cases hi
  · intro i t hi
    cases hi

/-- What a task that was entered is, and stays, once it is warned: `n` aborts of it are told. -/
structure Holds {ι : Type} [DecidableEq ι] (i : ι) (n : Nat) (s : Downloads ι) : Prop where
  call : s.call i = .returned true
  warned : ∃ t, s.task i = some t ∧ t.Warned
  count : s.events.count (i, .failed .aborted) = n

variable {n : Nat}

theorem Holds.modifyTask {f : DownloadTask → DownloadTask} (h : Holds i n s)
    (hphase : ∀ t, (f t).phase = t.phase) (hsignal : ∀ t, (f t).signal = (t.signal || t.abort)) :
    Holds i n (s.modifyTask c f) := by
  refine ⟨h.call, ?_, h.count⟩
  obtain ⟨t, ht, htransfer, hs⟩ := h.warned
  by_cases hic : i = c
  · subst hic
    refine ⟨f t, by simp [Downloads.modifyTask, ht], ?_, fun hu => ?_⟩
    · rw [hphase]
      exact htransfer
    · rw [hphase] at hu
      rw [hsignal, hs hu]
      rfl
  · exact ⟨t, by simpa [Downloads.modifyTask, hic] using ht, htransfer, hs⟩

theorem Holds.setCall {phase : CallPhase} (h : Holds i n s) (hold : s.call c ≠ .returned true) :
    Holds i n (s.setCall c phase) := by
  have hic : i ≠ c := by
    rintro rfl
    exact hold h.call
  exact ⟨by simpa [Downloads.setCall, hic] using h.call, h.warned, h.count⟩

/-- A step of a task tells of an abort only if it ends a task that was aborted. -/
theorem holds_task {j : ι} {tasks : String → Option ι} (h : Holds i n s) (hj : s.task j = some task)
    (ht : task.next event = some task') :
    Holds i n ⟨tasks, s.call, Function.update s.task j (some task'),
      ((task.emits event).map (j, ·)).toList ++ s.events⟩ := by
  obtain ⟨t, hi, hwarned⟩ := h.warned
  have hother : ∀ outcome, task.emits event = some outcome → (j, outcome) ≠ (i, .failed .aborted) := by
    rintro outcome he hji
    cases hji
    rw [hi, Option.some.injEq] at hj
    subst hj
    exact hwarned.1 (by rw [DownloadTask.phase_of_emits he]; trivial)
  refine ⟨h.call, ?_, ?_⟩
  · by_cases hij : i = j
    · subst hij
      rw [hi, Option.some.injEq] at hj
      subst hj
      exact ⟨task', by simp, warned_step ht hwarned⟩
    · exact ⟨t, by simpa [hij] using hi, hwarned⟩
  · cases he : task.emits event with
    | none => exact h.count
    | some outcome =>
      have hcons := List.count_cons_of_ne (l := s.events) (hother outcome he)
      exact hcons.trans h.count

theorem holds_next (h : Holds i n s) (ht : downloadNext call s a = some t) : Holds i n t := by
  cases a with
  | remove c =>
    simp only [downloadNext] at ht
    split at ht
    · next hc _ =>
      cases ht
      refine Holds.setCall ?_ (by rw [call_removeEntry, hc]; simp)
      unfold Downloads.removeEntry
      split
      · exact h
      · obtain ⟨hcall, hwarned, hcount⟩ :=
          h.modifyTask (c := ‹ι›) (f := .cancel) (fun _ => rfl) fun _ => rfl
        exact ⟨hcall, hwarned, hcount⟩
    · cases ht
  | check c =>
    simp only [downloadNext] at ht
    split at ht
    · next hc _ =>
      cases ht
      exact h.setCall (by simp [hc])
    · next hc _ =>
      cases ht
      exact h.setCall (by simp [hc])
    · cases ht
  | spawn c =>
    simp only [downloadNext] at ht
    split at ht
    · next hc =>
      cases ht
      have hset : Holds i n (s.setCall c .spawned) := h.setCall (by simp [hc])
      obtain ⟨hcall, ⟨task, htask, hwarned⟩, hcount⟩ := hset
      have hic : i ≠ c := by
        rintro rfl
        rw [h.call] at hc
        cases hc
      exact ⟨hcall, ⟨task, (Function.update_of_ne hic _ _).trans htask, hwarned⟩, hcount⟩
    · cases ht
  | insert c =>
    simp only [downloadNext] at ht
    split at ht
    · next hc =>
      cases ht
      have hset : Holds i n (s.setCall c (.returned true)) := h.setCall (by simp [hc])
      obtain ⟨hcall, hwarned, hcount⟩ := hset
      exact ⟨hcall, hwarned, hcount⟩
    · cases ht
  | pause m =>
    cases ht
    unfold Downloads.pause
    split
    · exact h
    · exact h.modifyTask (f := .pause) (fun _ => rfl) fun _ => rfl
  | task j event =>
    simp only [downloadNext] at ht
    split at ht
    · cases ht
    · next task hj =>
      obtain ⟨task', hnext, rfl⟩ := Option.map_eq_some_iff.mp ht
      exact holds_task h hj hnext

/-- A task whose outcome is the abort tells of it in its next step. -/
theorem aborted_told (call : ι → StartCall) (hi : s.task i = some task) (hp : task.phase = .ending (.failed .aborted)) :
    ∃ t, downloadNext call s (.task i .settle) = some t ∧
      t.events.count (i, .failed .aborted) = s.events.count (i, .failed .aborted) + 1 := by
  refine ⟨⟨s.tasks, s.call, Function.update s.task i (some (task.settle (.failed .aborted))),
    (i, .failed .aborted) :: s.events⟩, ?_, ?_⟩
  · simp [downloadNext, hi, DownloadTask.next, DownloadTask.emits, hp]
  · exact List.count_cons_self

variable {s₀ : Downloads ι}

/-- From a state, without a call for the message, to one more abort that is told. -/
def Tells (call : ι → StartCall) (m : String) (i : ι) (s₀ s : Downloads ι) : Prop :=
  ReachableUnder (downloadsFrom call s₀) (NotCalled call m) s →
    ∃ t, ReachableUnder (downloadsFrom call s₀) (NotCalled call m) t ∧
      t.events.count (i, .failed .aborted) = s.events.count (i, .failed .aborted) + 1

/-- A step of the task that emits nothing, and the rest after it. -/
theorem tells_of_next (hi : s.task i = some task) (ht : task.next event = some task')
    (hemits : task.emits event = none) (hremove : event ≠ .remove)
    (htells : ∀ t, t.task i = some task' → t.events = s.events → Tells call m i s₀ t) :
    Tells call m i s₀ s := by
  intro h
  have hnext : downloadNext call s (.task i event) =
      some ⟨s.tasks, s.call, Function.update s.task i (some task'), s.events⟩ := by
    cases event <;> simp_all [downloadNext]
  exact htells ⟨s.tasks, s.call, Function.update s.task i (some task'), s.events⟩
    (Function.update_self _ _ _) rfl (h.step (a := .task i event) trivial hnext)

theorem tells_of_aborted (hi : s.task i = some task)
    (hp : task.phase = .ending (.failed .aborted)) : Tells call m i s₀ s := by
  intro h
  obtain ⟨t, ht, hcount⟩ := aborted_told call hi hp
  exact ⟨t, h.step (a := .task i .settle) trivial ht, hcount⟩

theorem tells_of_streaming {file : DownloadFile} {rest : List DownloadFile}
    (hi : s.task i = some task) (hp : task.phase = .streaming file rest)
    (hs : task.signal = true) : Tells call m i s₀ s := by
  have hpoll : task.next .poll = some { task.ends (.failed .aborted) with signal := false } := by
    simp [DownloadTask.next, hp, hs]
  exact tells_of_next hi hpoll rfl (by simp) fun t ht _ => tells_of_aborted ht rfl

/-- A transfer with the signal ends in an abort, whatever it is at. -/
theorem tells_of_transferring (hi : s.task i = some task) (hp : task.phase.Transferring)
    (hs : task.phase.Underway → task.signal = true) : Tells call m i s₀ s := by
  cases hphase : task.phase with
  | requesting file rest =>
    have hsignal := hs (by rw [hphase]; trivial)
    have hrespond : task.next .respond = some { task with phase := .streaming file rest } := by
      simp [DownloadTask.next, hphase]
    exact tells_of_next hi hrespond rfl (by simp) fun t ht _ => tells_of_streaming ht rfl hsignal
  | streaming file rest => exact tells_of_streaming hi hphase (hs (by rw [hphase]; trivial))
  | reading file rest =>
    have hsignal := hs (by rw [hphase]; trivial)
    have hchunk : task.next (.chunk 0 false) = some { task with phase := .streaming file rest } := by
      simp [DownloadTask.next, hphase]
    exact tells_of_next hi hchunk rfl (by simp) fun t ht _ => tells_of_streaming ht rfl hsignal
  | ending outcome =>
    rw [hphase] at hp
    obtain rfl : outcome = .failed .aborted := by
      unfold TaskPhase.Transferring at hp
      split at hp
      · next heq => cases heq
      · next heq => cases heq
      · next heq => cases heq
      · next heq => cases heq; rfl
      · exact hp.elim
    exact tells_of_aborted hi hphase
  | looking | collected | files | importing | cleaning | finished =>
    rw [hphase] at hp
    exact hp.elim

/-- In every state reached, a pause that finds a task leaves it PAUSED without ever failing it,
exactly if the task is not in a transfer, nor aborted in one before. -/
theorem pause_well_iff (h : Reachable (downloadRuns call) s) (hm : s.tasks m = some i) :
    PausesWell call s m i ↔ ∀ t, s.task i = some t → ¬ t.phase.Transferring := by
  have hentered := entered_reachable h
  obtain ⟨hmessage, hcall⟩ := hentered.entry m i hm
  obtain ⟨task, hi⟩ := Option.isSome_iff_exists.mp (hentered.spawned i (.inr hcall))
  have hpause : s.pause m = s.modifyTask i .pause := by
    unfold Downloads.pause
    rw [hm]
  have hpaused : (s.pause m).task i = some task.pause := by
    simp [hpause, Downloads.modifyTask, hi]
  have hsignal : task.phase.Underway → task.pause.signal = true := fun hu =>
    (Bool.or_eq_true _ _).mpr (hentered.signal i task hi hu).symm
  have hevents : (s.pause m).events = s.events := by
    rw [hpause]
    rfl
  constructor
  · intro hwell t ht htransfer
    rw [hi, Option.some.injEq] at ht
    subst ht
    have htells : Tells call m i (s.pause m) (s.pause m) :=
      tells_of_transferring hpaused htransfer hsignal
    obtain ⟨t, hr, hcount⟩ := htells (.init rfl)
    have hsame := hwell.2 t hr
    rw [hcount, hevents] at hsame
    omega
  · intro hquiet
    refine ⟨by rw [hpaused]; rfl, fun t ht => ?_⟩
    have hholds : Holds i (s.events.count (i, .failed .aborted)) t := by
      refine ht.invariant ?_ fun s a t hs _ hn => holds_next hs hn
      rintro t rfl
      refine ⟨?_, ⟨task.pause, hpaused, hquiet task hi, hsignal⟩, by rw [hevents]⟩
      rw [hpause]
      exact hcall
    exact hholds.count

/-- A start, of a message with two files. -/
def oneCall (_ : Unit) : StartCall where
  messageId := "m"
  again := false

def demoFiles : List DownloadFile := [⟨"1", "a.jpg", 2⟩, ⟨"2", "b.jpg", 3⟩]

/-- Up to the first file. -/
def demoStart : List (DownloadAction Unit) := [.check (), .spawn (), .insert (),
  .task () (.look (.items demoFiles true)), .task () .begin]

/-- Whether the task of the message is at the phase. -/
def taskAt (phase : TaskPhase) (s : Downloads Unit) : Bool :=
  s.tasks "m" = some () && (s.task ()).any (·.phase = phase)

/-- A pause between two files. -/
theorem pause_well_betweenFiles : ∃ s, PausesWell oneCall s "m" () := by
  have hrun : ((downloadRuns oneCall).run (fun _ _ => True) ⟨fun _ => none, fun _ => .idle,
      fun _ => none, []⟩ (demoStart ++ [.task () .nextFile, .task () .respond, .task () .poll,
        .task () .endOfStream, .task () .imported])).any (taskAt (.files demoFiles.tail)) = true := by
    decide +kernel
  obtain ⟨s, hs, hat⟩ := ReachableUnder.of_run rfl hrun
  simp only [taskAt, Bool.and_eq_true, decide_eq_true_eq, Option.any_eq_true] at hat
  obtain ⟨hentry, task, htask, hphase⟩ := hat
  refine ⟨s, (pause_well_iff hs hentry).mpr fun t ht => ?_⟩
  rw [htask, Option.some.injEq] at ht
  subst ht
  rw [hphase]
  exact id

/-- A pause in a transfer fails the download. -/
theorem pausedTransfer_fails : ∃ s, Reachable (downloadRuns oneCall) s ∧ s.tasks "m" = some () ∧
    ¬ PausesWell oneCall s "m" () := by
  have hrun : ((downloadRuns oneCall).run (fun _ _ => True) ⟨fun _ => none, fun _ => .idle,
      fun _ => none, []⟩ (demoStart ++ [.task () .nextFile, .task () .respond])).any (fun s =>
        taskAt (.streaming ⟨"1", "a.jpg", 2⟩ demoFiles.tail) s && (s.pause "m").task () =
          (s.task ()).map .pause && (s.task ()).all (·.abort) && s.events = []) = true := by
    decide +kernel
  obtain ⟨s, hs, hat⟩ := ReachableUnder.of_run rfl hrun
  simp only [taskAt, Bool.and_eq_true, decide_eq_true_eq, Option.any_eq_true] at hat
  obtain ⟨⟨⟨⟨hentry, task, htask, hphase⟩, hpause⟩, habort⟩, hevents⟩ := hat
  refine ⟨s, hs, hentry, fun hwell => ?_⟩
  rw [htask] at hpause habort
  have hsignal : task.pause.signal = true := (Bool.or_eq_true _ _).mpr (.inr habort)
  have htells : Tells oneCall "m" () (s.pause "m") (s.pause "m") :=
    tells_of_streaming hpause hphase hsignal
  obtain ⟨t, hr, hcount⟩ := htells (.init rfl)
  have hsame := hwell.2 t hr
  rw [hcount, hevents] at hsame
  cases hsame

end PlainRs.Download
