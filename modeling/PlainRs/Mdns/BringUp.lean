import PlainRs.Base.Runs

/-! How the responder comes up: the calls of `restart_socket`, the workers that receive on the sockets
they make, and the retries, each as one access to what they share after the other. -/
namespace PlainRs.Mdns

open Runs

def initialRetryMs : Nat := 2000

def maxRetryMs : Nat := 32000

/-- Next backoff delay after an unsuccessful attempt. -/
def nextRetryDelay (current : Nat) : Nat := min (current * 2) maxRetryMs

/-- Interface names that are desired but not yet joined. -/
def interfacesToJoin (desired joined : Finset String) : Finset String := desired \ joined

/-- Where a call of `restart_socket` is, with what it has read: the names of the candidate interfaces,
its socket and whether it made that. -/
inductive RestartPhase
  | idle
  | started (desired : Finset String)
  | readSocket (desired : Finset String) (existing : Option Nat)
  | creating (desired : Finset String)
  | created (desired : Finset String) (socket : Nat)
  | replaced (desired : Finset String) (socket : Nat)
  | marked (desired : Finset String) (socket : Nat)
  | spawned (desired : Finset String) (socket : Nat)
  | syncing (desired : Finset String) (socket : Nat) (isNew : Bool)
  | joining (desired : Finset String) (socket : Nat) (isNew : Bool) (joined : Finset String)
  | recording (socket : Nat) (isNew : Bool) (success : Finset String)
  | retrying
  | delaying
  deriving DecidableEq

/-- The worker of a socket; `failing` has found its socket current and is about to clear `running`. -/
inductive WorkerPhase
  | unspawned | receiving | failing | stopped
  deriving DecidableEq

/-- What the threads share, and where each of them is. -/
structure BringUp where
  hostname : String
  socket : Option Nat
  running : Bool
  joinedIfaces : Option (Finset String)
  retryDelayMs : Nat
  retryPending : Bool
  /-- The sockets made so far are numbered below this. -/
  sockets : Nat
  /-- The interfaces on which the system has each socket in the group. -/
  groups : Nat → Finset String
  restart : Nat → RestartPhase
  worker : Nat → WorkerPhase
  /-- The delays of the retry threads that sleep, and of those awake but not yet done with theirs. -/
  sleeping : List Nat
  woken : List Nat

inductive BringUpAction
  /-- `start`, up to its call of `restart_socket`. -/
  | configure (hostname : String)
  | resetDelay
  | begin (thread : Nat) (candidates : Finset String)
  | step (thread : Nat)
  | create (thread : Nat) (ok : Bool)
  | join (thread : Nat) (fresh : Finset String)
  | spawnRetry (thread : Nat) (ok : Bool)
  | wake (index : Nat)
  | advance (index : Nat)
  /-- A receive error, and the look at whether the socket is still the current one. -/
  | fail (socket : Nat)
  | clear (socket : Nat)
  /-- The end of a turn that finds `running` off. -/
  | leave (socket : Nat)

namespace BringUp

variable (s : BringUp)

def enter (thread : Nat) (p : RestartPhase) : BringUp :=
  { s with restart := Function.update s.restart thread p }

def setWorker (socket : Nat) (w : WorkerPhase) : BringUp :=
  { s with worker := Function.update s.worker socket w }

/-- The next access of a restart that does not depend on the system. -/
def stepRestart (thread : Nat) : Option BringUp :=
  match s.restart thread with
  | .started desired => some (s.enter thread (.readSocket desired s.socket))
  | .readSocket desired existing =>
    match existing with
    | some socket =>
      if s.running then some (s.enter thread (.syncing desired socket false))
      else some (s.enter thread (.creating desired))
    | none => some (s.enter thread (.creating desired))
  | .created desired socket =>
    some ({ s with socket := some socket }.enter thread (.replaced desired socket))
  | .replaced desired socket =>
    some ({ s with running := true }.enter thread (.marked desired socket))
  | .marked desired socket =>
    some ((s.setWorker socket .receiving).enter thread (.spawned desired socket))
  | .spawned desired socket =>
    some ({ s with joinedIfaces := none }.enter thread (.syncing desired socket true))
  | .syncing desired socket isNew =>
    some (s.enter thread (.joining desired socket isNew (s.joinedIfaces.getD ∅)))
  | .recording _ isNew success =>
    some ({ s with joinedIfaces := some success }.enter thread
      (if success = ∅ ∧ isNew then .retrying else .idle))
  | .retrying =>
    if s.retryPending then some (s.enter thread .idle)
    else some ({ s with retryPending := true }.enter thread .delaying)
  | _ => none

def next : BringUpAction → Option BringUp
  | .configure hostname => if hostname = "" then none else some { s with hostname := hostname }
  | .resetDelay => some { s with retryDelayMs := initialRetryMs }
  | .begin thread candidates =>
    if s.restart thread = .idle then
      if s.hostname = "" ∨ candidates = ∅ then some s else some (s.enter thread (.started candidates))
    else none
  | .step thread => s.stepRestart thread
  | .create thread ok =>
    match s.restart thread with
    | .creating desired =>
      if ok then
        some ({ s with sockets := s.sockets + 1 }.enter thread (.created desired s.sockets))
      else some (s.enter thread .retrying)
    | _ => none
  | .join thread fresh =>
    match s.restart thread with
    | .joining desired socket isNew joined =>
      if fresh ⊆ interfacesToJoin desired joined then
        some ({ s with
          groups := Function.update s.groups socket (s.groups socket ∪ fresh) }.enter thread
            (.recording socket isNew (desired ∩ joined ∪ fresh)))
      else none
    | _ => none
  | .spawnRetry thread ok =>
    if s.restart thread = .delaying then
      some ({ s with
        sleeping := s.sleeping ++ if ok then [s.retryDelayMs] else [] }.enter thread .idle)
    else none
  | .wake index =>
    (s.sleeping[index]?).map fun delay =>
      { s with
        sleeping := s.sleeping.eraseIdx index
        retryPending := false
        woken := s.woken ++ [delay] }
  | .advance index =>
    (s.woken[index]?).map fun delay =>
      { s with woken := s.woken.eraseIdx index, retryDelayMs := nextRetryDelay delay }
  | .fail socket =>
    if s.worker socket = .receiving then
      some (s.setWorker socket (if s.socket = some socket then .failing else .stopped))
    else none
  | .clear socket =>
    if s.worker socket = .failing then some ({ s with running := false }.setWorker socket .stopped)
    else none
  | .leave socket =>
    if s.worker socket = .receiving ∧ s.running = false then some (s.setWorker socket .stopped)
    else none

/-- Its worker still receives, or is about to clear `running`. -/
def Live (socket : Nat) : Prop := s.worker socket = .receiving ∨ s.worker socket = .failing

/-- No call of `restart_socket` is on its way. -/
def Quiet : Prop := ∀ thread, s.restart thread = .idle

end BringUp

def bringUp : System BringUp BringUpAction where
  init s := s = ⟨"", none, false, none, initialRetryMs, false, 0, fun _ => ∅, fun _ => .idle,
    fun _ => .unspawned, [], []⟩
  next := BringUp.next

/-- A call of `restart_socket` begins when no other is on its way. -/
def OneAtATime (s : BringUp) : BringUpAction → Prop
  | .begin _ _ => s.Quiet
  | _ => True

section Retries

/-- A delay that the backoff comes to from the first. -/
def Backoff (delay : Nat) : Prop := ∃ k ≤ 4, delay = initialRetryMs * 2 ^ k

theorem backoff_initial : Backoff initialRetryMs := ⟨0, by omega, by simp⟩

theorem backoff_next {delay : Nat} (h : Backoff delay) : Backoff (nextRetryDelay delay) := by
  obtain ⟨k, hk, rfl⟩ := h
  by_cases h4 : k = 4
  · subst h4
    exact ⟨4, le_rfl, by decide⟩
  · refine ⟨k + 1, by omega, ?_⟩
    have hle : initialRetryMs * 2 ^ k * 2 ≤ maxRetryMs := by
      have hpow : 2 ^ k ≤ 2 ^ 3 := Nat.pow_le_pow_right (by omega) (by omega)
      unfold initialRetryMs maxRetryMs
      omega
    rw [nextRetryDelay, min_eq_left hle, pow_succ, mul_assoc]

/-- One retry at most is on its way to sleep or asleep, and then it is marked as pending; every delay
is one that the backoff comes to. -/
structure RetriesBounded (s : BringUp) : Prop where
  sleeping : s.sleeping.length ≤ 1
  pending : s.sleeping ≠ [] → s.retryPending = true
  delaying : ∀ thread, s.restart thread = .delaying → s.retryPending = true ∧ s.sleeping = [] ∧
    ∀ other, s.restart other = .delaying → other = thread
  delays : ∀ delay ∈ s.retryDelayMs :: s.sleeping ++ s.woken, Backoff delay

variable {s t : BringUp} {thread : Nat} {p : RestartPhase} {a : BringUpAction}

/-- A thread that goes on, but not to a retry of its own, changes nothing about the retries. -/
theorem RetriesBounded.enter (h : RetriesBounded s) (hp : p ≠ .delaying) :
    RetriesBounded (s.enter thread p) where
  sleeping := h.sleeping
  pending := h.pending
  delaying other hother := by
    have hof : ∀ other, (s.enter thread p).restart other = .delaying →
        s.restart other = .delaying := by
      intro other hother
      by_cases ho : other = thread
      · subst ho
        exact absurd ((Function.update_self ..).symm.trans hother) hp
      · exact (Function.update_of_ne ho ..).symm.trans hother
    obtain ⟨hpending, hnil, hone⟩ := h.delaying other (hof other hother)
    exact ⟨hpending, hnil, fun x hx => hone x (hof x hx)⟩
  delays := h.delays

/-- Fields that no retry looks at may be anything. -/
theorem RetriesBounded.of_same (h : RetriesBounded s) (hsleeping : t.sleeping = s.sleeping)
    (hpending : t.retryPending = s.retryPending) (hrestart : t.restart = s.restart)
    (hdelay : t.retryDelayMs = s.retryDelayMs) (hwoken : t.woken = s.woken) :
    RetriesBounded t := by
  obtain ⟨h₁, h₂, h₃, h₄⟩ := h
  exact ⟨hsleeping ▸ h₁, by rwa [hsleeping, hpending], by rwa [hsleeping, hpending, hrestart],
    by rwa [hsleeping, hdelay, hwoken]⟩

theorem retriesBounded_stepRestart (h : RetriesBounded s) (hs : s.stepRestart thread = some t) :
    RetriesBounded t := by
  unfold BringUp.stepRestart at hs
  cases hp : s.restart thread with
  | idle | creating desired | joining desired socket isNew joined | delaying =>
    rw [hp] at hs
    cases hs
  | started desired | syncing desired socket isNew =>
    rw [hp] at hs
    cases hs
    exact h.enter (by simp)
  | readSocket desired existing =>
    simp only [hp] at hs
    cases existing with
    | none =>
      cases hs
      exact h.enter (by simp)
    | some socket =>
      dsimp only at hs
      split at hs
      · cases hs
        exact h.enter (by simp)
      · cases hs
        exact h.enter (by simp)
  | created desired socket | replaced desired socket | marked desired socket
  | spawned desired socket =>
    rw [hp] at hs
    cases hs
    exact RetriesBounded.enter (h.of_same rfl rfl rfl rfl rfl) (by simp)
  | recording socket isNew success =>
    rw [hp] at hs
    cases hs
    refine RetriesBounded.enter (h.of_same rfl rfl rfl rfl rfl) ?_
    split <;> simp
  | retrying =>
    simp only [hp] at hs
    split at hs
    · cases hs
      exact h.enter (by simp)
    · next hpending =>
      cases hs
      rw [Bool.not_eq_true] at hpending
      have hnil : s.sleeping = [] := by
        by_contra hne
        rw [h.pending hne] at hpending
        cases hpending
      have honly : ∀ other, Function.update s.restart thread .delaying other = .delaying →
          other = thread := by
        intro other ho
        by_contra hne
        rw [Function.update_of_ne hne] at ho
        rw [(h.delaying other ho).1] at hpending
        cases hpending
      refine ⟨h.sleeping, fun _ => rfl, fun x hx => ⟨rfl, hnil, fun y hy => ?_⟩, h.delays⟩
      rw [honly x hx, honly y hy]

theorem retriesBounded_next (h : RetriesBounded s) (hs : s.next a = some t) :
    RetriesBounded t := by
  cases a with
  | configure hostname =>
    simp only [BringUp.next] at hs
    split at hs
    · cases hs
    · cases hs
      exact h.of_same rfl rfl rfl rfl rfl
  | resetDelay =>
    cases hs
    refine ⟨h.sleeping, h.pending, h.delaying, fun delay hd => ?_⟩
    rcases List.mem_cons.mp hd with rfl | hd
    · exact backoff_initial
    · exact h.delays delay (List.mem_cons_of_mem _ hd)
  | begin thread candidates =>
    simp only [BringUp.next] at hs
    split at hs
    · split at hs
      · cases hs
        exact h
      · cases hs
        exact h.enter (by simp)
    · cases hs
  | step thread => exact retriesBounded_stepRestart h hs
  | create thread ok =>
    simp only [BringUp.next] at hs
    split at hs
    · split at hs
      · cases hs
        exact RetriesBounded.enter (h.of_same rfl rfl rfl rfl rfl) (by simp)
      · cases hs
        exact h.enter (by simp)
    · cases hs
  | join thread fresh =>
    simp only [BringUp.next] at hs
    split at hs
    · split at hs
      · cases hs
        exact RetriesBounded.enter (h.of_same rfl rfl rfl rfl rfl) (by simp)
      · cases hs
    · cases hs
  | spawnRetry thread ok =>
    simp only [BringUp.next] at hs
    split at hs
    · next hp =>
      cases hs
      obtain ⟨hpending, hnil, hone⟩ := h.delaying thread hp
      have hnone : ∀ other, Function.update s.restart thread .idle other ≠ .delaying := by
        intro other ho
        by_cases hne : other = thread
        · rw [hne, Function.update_self] at ho
          cases ho
        · rw [Function.update_of_ne hne] at ho
          exact hne (hone other ho)
      refine ⟨?_, fun _ => hpending, fun other ho => absurd ho (hnone other), fun delay hd => ?_⟩
      · rw [BringUp.enter, hnil]
        cases ok <;> simp
      · have hold := h.delays s.retryDelayMs List.mem_cons_self
        rw [BringUp.enter, hnil] at hd
        cases ok with
        | true =>
          rcases List.mem_cons.mp hd with rfl | hd
          · exact hold
          rcases List.mem_cons.mp hd with rfl | hd
          · exact hold
          exact h.delays delay (List.mem_cons_of_mem _ (List.mem_append_right _ hd))
        | false =>
          rcases List.mem_cons.mp hd with rfl | hd
          · exact hold
          exact h.delays delay (List.mem_cons_of_mem _ (List.mem_append_right _ hd))
    · cases hs
  | wake index =>
    obtain ⟨delay, hd, rfl⟩ := Option.map_eq_some_iff.mp hs
    have hmem := List.mem_of_getElem? hd
    have hpending := h.pending (List.ne_nil_of_mem hmem)
    have hone : s.sleeping = [delay] := by
      obtain ⟨x, hx⟩ := List.length_eq_one_iff.mp
        (le_antisymm h.sleeping (List.length_pos_of_mem hmem))
      rw [hx] at hmem ⊢
      rw [List.mem_singleton.mp hmem]
    have hnil : s.sleeping.eraseIdx index = [] := by
      rw [hone] at hd ⊢
      obtain ⟨hlt, -⟩ := List.getElem?_eq_some_iff.mp hd
      obtain rfl : index = 0 := by simpa using hlt
      rfl
    refine ⟨by simp [hnil], fun hne => absurd hnil hne, fun other ho => ?_, fun x hx => ?_⟩
    · have hdelaying := (h.delaying other ho).2.1
      rw [hdelaying] at hone
      cases hone
    · rw [hnil] at hx
      refine h.delays x ?_
      rw [hone]
      simpa [or_comm, or_left_comm] using hx
  | advance index =>
    obtain ⟨delay, hd, rfl⟩ := Option.map_eq_some_iff.mp hs
    refine ⟨h.sleeping, h.pending, h.delaying, fun x hx => ?_⟩
    rcases List.mem_cons.mp hx with rfl | hx
    · exact backoff_next (h.delays delay (List.mem_cons_of_mem _
        (List.mem_append_right _ (List.mem_of_getElem? hd))))
    · refine h.delays x (List.mem_cons_of_mem _ ?_)
      exact (List.mem_append.mp hx).elim (List.mem_append_left _)
        fun hx => List.mem_append_right _ (List.mem_of_mem_eraseIdx hx)
  | fail socket | clear socket | leave socket =>
    simp only [BringUp.next] at hs
    split at hs
    · cases hs
      exact h.of_same rfl rfl rfl rfl rfl
    · cases hs

theorem retriesBounded (h : Reachable bringUp s) : RetriesBounded s := by
  refine h.invariant ?_ fun s a t hb hs => retriesBounded_next hb hs
  rintro s rfl
  refine ⟨Nat.zero_le 1, fun hne => absurd rfl hne, (fun _ hp => by cases hp), ?_⟩
  intro delay hd
  obtain rfl : delay = initialRetryMs := by simpa using hd
  exact backoff_initial

end Retries

section Workers

/-- The one live worker is that of the current socket, and there is one just when `running` is on. -/
def WorkersOk (s : BringUp) : Prop :=
  (∀ n, s.Live n → s.socket = some n ∧ s.running = true) ∧ (s.running = true → ∃ n, s.Live n)

/-- The current socket is in the group on every interface that is noted as joined. -/
def JoinedOk (s : BringUp) : Prop :=
  ∀ names, s.joinedIfaces = some names → ∃ n, s.socket = some n ∧ names ⊆ s.groups n

/-- What holds while the only restart is in a phase. -/
def PhaseOk (s : BringUp) : RestartPhase → Prop
  | .idle | .started _ | .retrying | .delaying => WorkersOk s ∧ JoinedOk s
  | .readSocket _ existing => WorkersOk s ∧ JoinedOk s ∧ existing = s.socket
  | .creating _ => (s.running = false ∧ ∀ m, ¬ s.Live m) ∧ JoinedOk s
  | .created _ _ => s.running = false ∧ ∀ m, ¬ s.Live m
  | .replaced _ n => (s.running = false ∧ ∀ m, ¬ s.Live m) ∧ s.socket = some n
  | .marked _ n => (s.running = true ∧ ∀ m, ¬ s.Live m) ∧ s.socket = some n
  | .spawned _ n => WorkersOk s ∧ s.socket = some n
  | .syncing _ n _ => WorkersOk s ∧ JoinedOk s ∧ s.socket = some n
  | .joining _ n _ names | .recording n _ names =>
    WorkersOk s ∧ JoinedOk s ∧ s.socket = some n ∧ names ⊆ s.groups n

/-- All threads but one are idle, and what the phase of that one says holds. -/
def RestartsApart (s : BringUp) : Prop :=
  ∃ thread, (∀ other, other ≠ thread → s.restart other = .idle) ∧ PhaseOk s (s.restart thread)

variable {s t : BringUp} {thread n : Nat} {p : RestartPhase} {a : BringUpAction}
  {desired : Finset String}

theorem WorkersOk.down (h : WorkersOk s) (hoff : s.socket = none ∨ s.running = false) :
    s.running = false ∧ ∀ m, ¬ s.Live m := by
  have hnone : ∀ m, ¬ s.Live m := by
    intro m hm
    obtain ⟨hsocket, hrunning⟩ := h.1 m hm
    rcases hoff with hoff | hoff
    · rw [hoff] at hsocket
      cases hsocket
    · rw [hoff] at hrunning
      cases hrunning
  refine ⟨?_, hnone⟩
  by_contra hr
  obtain ⟨m, hm⟩ := h.2 (by simpa using hr)
  exact hnone m hm

/-- A step of the restart, from its phase to the next. -/
theorem phaseOk_stepRestart (h : PhaseOk s (s.restart thread))
    (hs : s.stepRestart thread = some t) :
    PhaseOk t (t.restart thread) ∧ ∀ other, other ≠ thread → t.restart other = s.restart other := by
  have hself : ∀ (u : BringUp) q, (u.enter thread q).restart thread = q := fun u q =>
    Function.update_self ..
  have hother : ∀ (u : BringUp) q other, other ≠ thread → u.restart = s.restart →
      (u.enter thread q).restart other = s.restart other := by
    rintro u q other hne hu
    exact (Function.update_of_ne hne ..).trans (congrFun hu other)
  unfold BringUp.stepRestart at hs
  cases hp : s.restart thread with
  | idle | creating desired | joining desired socket isNew joined | delaying =>
    rw [hp] at hs
    cases hs
  | started desired =>
    rw [hp] at hs h
    cases hs
    rw [hself]
    exact ⟨⟨h.1, h.2, rfl⟩, fun other hne => hother _ _ _ hne rfl⟩
  | readSocket desired existing =>
    rw [hp] at h
    obtain ⟨hworkers, hjoined, rfl⟩ := h
    simp only [hp] at hs
    cases hsocket : s.socket with
    | none =>
      rw [hsocket] at hs
      cases hs
      rw [hself]
      exact ⟨⟨hworkers.down (.inl hsocket), hjoined⟩, fun other hne => hother _ _ _ hne rfl⟩
    | some socket =>
      simp only [hsocket] at hs
      split at hs
      · cases hs
        rw [hself]
        exact ⟨⟨hworkers, hjoined, hsocket⟩, fun other hne => hother _ _ _ hne rfl⟩
      · next hoff =>
        cases hs
        rw [hself]
        exact ⟨⟨hworkers.down (.inr (by simpa using hoff)), hjoined⟩,
          fun other hne => hother _ _ _ hne rfl⟩
  | created desired socket =>
    rw [hp] at hs h
    cases hs
    rw [hself]
    exact ⟨⟨h, rfl⟩, fun other hne => hother _ _ _ hne rfl⟩
  | replaced desired socket =>
    rw [hp] at hs h
    cases hs
    rw [hself]
    exact ⟨⟨⟨rfl, h.1.2⟩, h.2⟩, fun other hne => hother _ _ _ hne rfl⟩
  | marked desired socket =>
    rw [hp] at hs h
    obtain ⟨⟨hon, hnone⟩, hsocket⟩ := h
    cases hs
    rw [hself]
    refine ⟨⟨⟨fun m hm => ?_, fun _ => ⟨socket, .inl (Function.update_self ..)⟩⟩, hsocket⟩,
      fun other hne => hother _ _ _ hne rfl⟩
    by_cases hm' : m = socket
    · exact ⟨hm' ▸ hsocket, hon⟩
    · refine absurd ?_ (hnone m)
      have hsame : ((s.setWorker socket .receiving).enter thread (.spawned desired socket)).worker m =
          s.worker m := Function.update_of_ne hm' ..
      rwa [BringUp.Live, hsame] at hm
  | spawned desired socket =>
    rw [hp] at hs h
    cases hs
    rw [hself]
    exact ⟨⟨h.1, (fun _ hnames => by cases hnames), h.2⟩, fun other hne => hother _ _ _ hne rfl⟩
  | syncing desired socket isNew =>
    rw [hp] at hs h
    obtain ⟨hworkers, hjoined, hsocket⟩ := h
    cases hs
    rw [hself]
    refine ⟨⟨hworkers, hjoined, hsocket, ?_⟩, fun other hne => hother _ _ _ hne rfl⟩
    cases hnames : s.joinedIfaces with
    | none => simp
    | some names =>
      obtain ⟨m, hm, hsub⟩ := hjoined names hnames
      obtain rfl := Option.some.inj (hsocket.symm.trans hm)
      exact hsub
  | recording socket isNew success =>
    rw [hp] at hs h
    obtain ⟨hworkers, -, hsocket, hsub⟩ := h
    cases hs
    rw [hself]
    have hsettled : WorkersOk { s with joinedIfaces := some success } ∧
        JoinedOk { s with joinedIfaces := some success } := by
      refine ⟨hworkers, fun names hnames => ?_⟩
      obtain rfl := Option.some.inj hnames
      exact ⟨socket, hsocket, hsub⟩
    refine ⟨?_, fun other hne => hother _ _ _ hne rfl⟩
    split
    · exact hsettled
    · exact hsettled
  | retrying =>
    rw [hp] at h
    simp only [hp] at hs
    split at hs
    · cases hs
      rw [hself]
      exact ⟨h, fun other hne => hother _ _ _ hne rfl⟩
    · cases hs
      rw [hself]
      exact ⟨h, fun other hne => hother _ _ _ hne rfl⟩

/-- A step of a live worker, which changes neither the current socket nor what is joined. -/
theorem phaseOk_worker (h : PhaseOk s p) (hlive : s.Live n) (hw : WorkersOk s → WorkersOk t)
    (hsocket : t.socket = s.socket) (hjoined : t.joinedIfaces = s.joinedIfaces)
    (hgroups : t.groups = s.groups) : PhaseOk t p := by
  have hj : JoinedOk s → JoinedOk t := fun hj names hnames => by
    rw [hjoined] at hnames
    rw [hsocket, hgroups]
    exact hj names hnames
  cases p with
  | idle | started desired | retrying | delaying => exact ⟨hw h.1, hj h.2⟩
  | readSocket desired existing => exact ⟨hw h.1, hj h.2.1, h.2.2.trans hsocket.symm⟩
  | creating desired => exact absurd hlive (h.1.2 n)
  | created desired socket => exact absurd hlive (h.2 n)
  | replaced desired socket | marked desired socket => exact absurd hlive (h.1.2 n)
  | spawned desired socket => exact ⟨hw h.1, hsocket.trans h.2⟩
  | syncing desired socket isNew => exact ⟨hw h.1, hj h.2.1, hsocket.trans h.2.2⟩
  | joining desired socket isNew names | recording socket isNew names =>
    exact ⟨hw h.1, hj h.2.1, hsocket.trans h.2.2.1, by rw [hgroups]; exact h.2.2.2⟩

/-- The thread that is not idle is the one restart. -/
theorem eq_of_not_idle {thread' : Nat} (h : ∀ other, other ≠ thread → s.restart other = .idle)
    (hp : s.restart thread' ≠ .idle) : thread' = thread := by
  by_contra hne
  exact hp (h thread' hne)

theorem restart_enter (u : BringUp) (q : RestartPhase) : (u.enter thread q).restart thread = q :=
  Function.update_self ..

/-- The one restart goes on to a phase that fits. -/
theorem restartsApart_enter (h : ∀ other, other ≠ thread → s.restart other = .idle)
    (hp : PhaseOk s p) : RestartsApart (s.enter thread p) := by
  refine ⟨thread, fun other hne => ?_, ?_⟩
  · exact (Function.update_of_ne hne ..).trans (h other hne)
  · rw [restart_enter]
    cases p <;> exact hp

theorem restartsApart_next (h : RestartsApart s) (hg : OneAtATime s a) (hs : s.next a = some t) :
    RestartsApart t := by
  obtain ⟨thread, hidle, hphase⟩ := h
  cases a with
  | configure hostname =>
    simp only [BringUp.next] at hs
    split at hs
    · cases hs
    · cases hs
      exact ⟨thread, hidle, hphase⟩
  | resetDelay =>
    cases hs
    exact ⟨thread, hidle, hphase⟩
  | begin thread' candidates =>
    have hsettled : WorkersOk s ∧ JoinedOk s := by
      rw [hg thread] at hphase
      exact hphase
    simp only [BringUp.next] at hs
    split at hs
    · split at hs
      · cases hs
        exact ⟨thread, hidle, hphase⟩
      · cases hs
        exact restartsApart_enter (fun other _ => hg other) hsettled
    · cases hs
  | step thread' =>
    have hp : s.restart thread' ≠ .idle := by
      intro hp
      simp [BringUp.next, BringUp.stepRestart, hp] at hs
    obtain rfl := eq_of_not_idle hidle hp
    obtain ⟨hphase', hother⟩ := phaseOk_stepRestart hphase hs
    exact ⟨thread', fun other hne => (hother other hne).trans (hidle other hne), hphase'⟩
  | create thread' ok =>
    simp only [BringUp.next] at hs
    split at hs
    · next desired hp =>
      have hne : s.restart thread' ≠ .idle := by simp [hp]
      obtain rfl := eq_of_not_idle hidle hne
      rw [hp] at hphase
      split at hs
      · cases hs
        exact restartsApart_enter hidle hphase.1
      · cases hs
        refine restartsApart_enter hidle ⟨⟨fun m hm => absurd hm (hphase.1.2 m), fun hr => ?_⟩,
          hphase.2⟩
        rw [hphase.1.1] at hr
        cases hr
    · cases hs
  | join thread' fresh =>
    simp only [BringUp.next] at hs
    split at hs
    · next desired socket isNew joined hp =>
      have hne : s.restart thread' ≠ .idle := by simp [hp]
      obtain rfl := eq_of_not_idle hidle hne
      rw [hp] at hphase
      obtain ⟨hworkers, hjoined, hsocket, hsub⟩ := hphase
      split at hs
      · cases hs
        have hmore : ∀ m, s.groups m ⊆
            Function.update s.groups socket (s.groups socket ∪ fresh) m := by
          intro m
          by_cases hm : m = socket
          · rw [hm, Function.update_self]
            exact Finset.subset_union_left
          · rw [Function.update_of_ne hm]
        refine restartsApart_enter hidle ⟨hworkers, fun names hnames => ?_, hsocket, ?_⟩
        · obtain ⟨m, hm, hnames⟩ := hjoined names hnames
          exact ⟨m, hm, hnames.trans (hmore m)⟩
        · refine Finset.union_subset ?_ ?_
          · exact (Finset.inter_subset_right.trans hsub).trans (hmore socket)
          · dsimp only
            rw [Function.update_self]
            exact Finset.subset_union_right
      · cases hs
    · cases hs
  | spawnRetry thread' ok =>
    simp only [BringUp.next] at hs
    split at hs
    · next hp =>
      have hne : s.restart thread' ≠ .idle := by simp [hp]
      obtain rfl := eq_of_not_idle hidle hne
      rw [hp] at hphase
      cases hs
      exact restartsApart_enter hidle hphase
    · cases hs
  | wake index =>
    obtain ⟨delay, -, rfl⟩ := Option.map_eq_some_iff.mp hs
    exact ⟨thread, hidle, hphase⟩
  | advance index =>
    obtain ⟨delay, -, rfl⟩ := Option.map_eq_some_iff.mp hs
    exact ⟨thread, hidle, hphase⟩
  | fail socket =>
    simp only [BringUp.next] at hs
    split at hs
    · next hreceiving =>
      cases hs
      refine ⟨thread, hidle, phaseOk_worker hphase (.inl hreceiving) (fun hw => ?_) rfl rfl rfl⟩
      obtain ⟨hsocket, hon⟩ := hw.1 socket (.inl hreceiving)
      rw [if_pos hsocket]
      refine ⟨fun m hm => ?_, fun _ => ⟨socket, .inr (Function.update_self ..)⟩⟩
      by_cases hm' : m = socket
      · rw [hm']
        exact ⟨hsocket, hon⟩
      · have hsame : (s.setWorker socket .failing).worker m = s.worker m :=
          Function.update_of_ne hm' ..
        rw [BringUp.Live, hsame] at hm
        exact hw.1 m hm
    · cases hs
  | clear socket =>
    simp only [BringUp.next] at hs
    split at hs
    · next hfailing =>
      cases hs
      refine ⟨thread, hidle, phaseOk_worker hphase (.inr hfailing) (fun hw => ?_) rfl rfl rfl⟩
      obtain ⟨hsocket, -⟩ := hw.1 socket (.inr hfailing)
      refine ⟨fun m hm => absurd hm ?_, fun hr => by cases hr⟩
      by_cases hm' : m = socket
      · subst hm'
        simp [BringUp.Live, BringUp.setWorker]
      · have hsame : ({ s with running := false }.setWorker socket .stopped).worker m =
            s.worker m := Function.update_of_ne hm' ..
        rw [BringUp.Live, hsame]
        intro hm
        obtain ⟨hsocket', -⟩ := hw.1 m hm
        exact hm' (Option.some.inj (hsocket'.symm.trans hsocket))
    · cases hs
  | leave socket =>
    simp only [BringUp.next] at hs
    split at hs
    · next hleave =>
      cases hs
      refine ⟨thread, hidle, phaseOk_worker hphase (.inl hleave.1) (fun hw => ?_) rfl rfl rfl⟩
      have hon := (hw.1 socket (.inl hleave.1)).2
      rw [hleave.2] at hon
      cases hon
    · cases hs

theorem restartsApart (h : ReachableUnder bringUp OneAtATime s) : RestartsApart s := by
  refine h.invariant ?_ fun s a t hr hg hs => restartsApart_next hr hg hs
  rintro s rfl
  refine ⟨0, fun _ _ => rfl, ⟨fun n hn => ?_, fun hr => by cases hr⟩, fun _ hnames => by cases hnames⟩
  rcases hn with hn | hn <;> cases hn

/-- While a restart is on its way, all but the moment between `running` and the spawn has the worker
where it belongs. -/
theorem PhaseOk.live (h : PhaseOk s p) (hn : s.Live n) : s.socket = some n ∧ s.running = true := by
  cases p with
  | idle | started desired | retrying | delaying => exact h.1.1 n hn
  | readSocket desired existing => exact h.1.1 n hn
  | creating desired => exact absurd hn (h.1.2 n)
  | created desired socket => exact absurd hn (h.2 n)
  | replaced desired socket | marked desired socket => exact absurd hn (h.1.2 n)
  | spawned desired socket | syncing desired socket isNew => exact h.1.1 n hn
  | joining desired socket isNew names | recording socket isNew names => exact h.1.1 n hn

end Workers

/-- Two calls that both find no socket. -/
def overlappingRestarts : List BringUpAction :=
  [.configure "pixel.local", .begin 0 {"wlan0"}, .begin 1 {"wlan0"}, .step 0, .step 1, .step 0,
    .step 1, .create 0 true, .create 1 true, .step 0, .step 0, .step 0, .step 1, .step 1, .step 1]

theorem two_live : ∃ s, Reachable bringUp s ∧ s.Live 0 ∧ s.Live 1 := by
  obtain ⟨s, hs, htest⟩ := @ReachableUnder.of_run _ _ bringUp (fun _ _ => True) _
    overlappingRestarts _ (fun s => s.worker 0 = .receiving ∧ s.worker 1 = .receiving) rfl rfl
  obtain ⟨h₀, h₁⟩ := of_decide_eq_true htest
  exact ⟨s, hs, .inl h₀, .inl h₁⟩

end PlainRs.Mdns
