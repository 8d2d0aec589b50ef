import PlainRs.Chat.Pairing.Manager

/-! The attempts of one device in time: each leaves a task behind that posts its request and then
sleeps for the response timeout, and all attempts for a device share its slot in the sessions. -/
namespace PlainRs.Chat

open PlainRs.Crypto

def pairResponseTimeoutMs : Nat := 90000

/-- A task of `start_pairing`; it has a deadline once its post is answered. -/
structure PairingTask where
  deviceId : String
  deviceName : String
  deadline : Option Nat

/-- `owner` names the attempt whose session is in the slot of a device; the code has no such
record. -/
structure Attempts where
  manager : PairingManager
  now : Nat
  started : Nat
  tasks : Nat → Option PairingTask
  owner : String → Option Nat

inductive AttemptAction
  | start (env : Surroundings) (secret : Bytes) (deviceId deviceName deviceIp : String)
      (devicePort localPort : UInt16)
  | posted (attempt : Nat)
  | postFailed (attempt : Nat)
  | timeout (attempt : Nat)
  | cancel (deviceId : String)
  | nearby (env : Surroundings) (senderIp : String) (message : NearbyMessage)
  | tick (ms : Nat)

namespace Attempts

/-- A device with no attempt under way. -/
def fresh (mgr : PairingManager) (now : Nat) : Attempts where
  manager := { mgr with sessions := fun _ => none }
  now := now
  started := 0
  tasks := fun _ => none
  owner := fun _ => none

section

variable (s : Attempts)

/-- An empty slot has no owner. -/
def ownedIn (owner : String → Option Nat) (mgr : PairingManager) : String → Option Nat :=
  fun deviceId => if (mgr.sessions deviceId).isSome then owner deviceId else none

def withOutcome (out : PairingOutcome) : Attempts × List PairingEvent :=
  ({ s with manager := out.manager, owner := ownedIn s.owner out.manager }, out.events)

def endTask (attempt : Nat) : Attempts :=
  { s with tasks := Function.update s.tasks attempt none }

/-- An action, when it is enabled: the state after it and the events it sends. -/
def step (d : Dalek) (e : Ecdh) : AttemptAction → Option (Attempts × List PairingEvent)
  | .start env secret deviceId deviceName deviceIp devicePort localPort =>
    let out := s.manager.startPairing d e env secret deviceId deviceName deviceIp devicePort localPort
    some ({ s with
      manager := out.manager
      started := s.started + 1
      tasks := Function.update s.tasks s.started (some ⟨deviceId, deviceName, none⟩)
      owner := ownedIn (Function.update s.owner deviceId (some s.started)) out.manager }, out.events)
  | .posted attempt =>
    (s.tasks attempt).bind fun task =>
      if task.deadline = none then
        let tasks := Function.update s.tasks attempt
          (some { task with deadline := some (s.now + pairResponseTimeoutMs) })
        some (({ s with tasks := tasks } : Attempts).withOutcome
          (s.manager.requestPosted task.deviceId task.deviceName))
      else none
  | .postFailed attempt =>
    (s.tasks attempt).bind fun task =>
      if task.deadline = none then
        some ((s.endTask attempt).withOutcome
          (s.manager.requestFailed task.deviceId task.deviceName))
      else none
  | .timeout attempt =>
    (s.tasks attempt).bind fun task =>
      task.deadline.bind fun deadline =>
        if deadline ≤ s.now then
          some ((s.endTask attempt).withOutcome
            (s.manager.responseTimeout task.deviceId task.deviceName))
        else none
  | .cancel deviceId => some (s.withOutcome (s.manager.cancelPairing deviceId))
  | .nearby env senderIp message =>
    some (s.withOutcome (s.manager.handleNearbyPost d e env senderIp message))
  | .tick ms => some ({ s with now := s.now + ms }, [])

/-- The attempt's post is unanswered or its timeout is not over. -/
def Within (attempt : Nat) : Prop :=
  ∃ task, s.tasks attempt = some task ∧ ∀ deadline, task.deadline = some deadline → s.now < deadline

/-- The attempt whose task an action ends. -/
def endedBy : AttemptAction → Option Nat
  | .postFailed attempt | .timeout attempt => some attempt
  | _ => none

/-- The end of a task leaves the session of a later attempt where it is, and reports no failure
while that attempt waits. -/
def EndsOnlyItsOwn (t : Attempts) (events : List PairingEvent) (a : AttemptAction) : Prop :=
  ∀ attempt task later, endedBy a = some attempt → s.tasks attempt = some task →
    s.owner task.deviceId = some later → attempt < later →
      t.manager.sessions task.deviceId = s.manager.sessions task.deviceId ∧
        (s.Within later → ∀ reason deviceName,
          ⟨.failed reason, task.deviceId, deviceName⟩ ∉ events)

/-- A task does not end while the slot of its device holds the session of a later attempt. -/
def NoLaterSession (a : AttemptAction) : Prop :=
  ∀ attempt task later, endedBy a = some attempt → s.tasks attempt = some task →
    s.owner task.deviceId = some later → ¬ attempt < later

/-- An attempt starts only when no task of an earlier one for the device is left. -/
def StartsAlone : AttemptAction → Prop
  | .start _ _ deviceId _ _ _ _ => ∀ attempt task, s.tasks attempt = some task →
      task.deviceId ≠ deviceId
  | _ => True

end

/-- `P` of every step of a run, with the state it starts from, the one it ends in and its events. -/
def Along (d : Dalek) (e : Ecdh)
    (P : Attempts → Attempts → List PairingEvent → AttemptAction → Prop) :
    Attempts → List AttemptAction → Prop
  | _, [] => True
  | s, a :: as => ∀ t events, s.step d e a = some (t, events) → P s t events a ∧ Along d e P t as

variable {d : Dalek} {e : Ecdh} {s t : Attempts} {a : AttemptAction} {as : List AttemptAction}
  {events : List PairingEvent} {P Q : Attempts → Attempts → List PairingEvent → AttemptAction → Prop}

/-- What each step that has `P` keeps, and what it then has as well, along a run. -/
theorem along_mono {I : Attempts → Prop}
    (hI : ∀ {s t a events}, I s → P s t events a → s.step d e a = some (t, events) → I t)
    (hPQ : ∀ {s t a events}, I s → P s t events a → s.step d e a = some (t, events) →
      Q s t events a) (h : I s) (hrun : Along d e P s as) : Along d e Q s as := by
  induction as generalizing s with
  | nil => trivial
  | cons a as ih =>
    intro t events ht
    obtain ⟨hp, hrest⟩ := hrun t events ht
    exact ⟨hPQ h hp ht, ih (hI h hp ht) hrest⟩

/-- A slot with an owner holds a session. -/
def Owned (s : Attempts) : Prop :=
  ∀ deviceId later, s.owner deviceId = some later → (s.manager.sessions deviceId).isSome

theorem owned_ownedIn {owner : String → Option Nat} {mgr : PairingManager} {deviceId : String}
    {later : Nat} (h : ownedIn owner mgr deviceId = some later) :
    owner deviceId = some later ∧ (mgr.sessions deviceId).isSome := by
  unfold ownedIn at h
  split at h
  · next hs => exact ⟨h, hs⟩
  · cases h

theorem owned_withOutcome {out : PairingOutcome} : Owned (s.withOutcome out).1 := by
  intro deviceId later h
  exact (owned_ownedIn h).2

/-- An end of a task is the action that took the task out of its list. -/
theorem step_ended {attempt : Nat} (ha : endedBy a = some attempt)
    (ht : s.step d e a = some (t, events)) : ∃ task out, s.tasks attempt = some task ∧
      (out = s.manager.requestFailed task.deviceId task.deviceName ∨
        out = s.manager.responseTimeout task.deviceId task.deviceName) ∧
      (t, events) = (s.endTask attempt).withOutcome out := by
  cases a with
  | postFailed n =>
    cases ha
    obtain ⟨task, htask, ht⟩ := Option.bind_eq_some_iff.mp ht
    split at ht
    · exact ⟨task, _, htask, .inl rfl, (Option.some.inj ht).symm⟩
    · cases ht
  | timeout n =>
    cases ha
    obtain ⟨task, htask, ht⟩ := Option.bind_eq_some_iff.mp ht
    obtain ⟨deadline, -, ht⟩ := Option.bind_eq_some_iff.mp ht
    split at ht
    · exact ⟨task, _, htask, .inr rfl, (Option.some.inj ht).symm⟩
    · cases ht
  | _ => cases ha

theorem step_timeout {attempt deadline : Nat} {task : PairingTask} (ht : s.tasks attempt = some task)
    (hd : task.deadline = some deadline) (hle : deadline ≤ s.now) :
    s.step d e (.timeout attempt) = some ((s.endTask attempt).withOutcome
      (s.manager.responseTimeout task.deviceId task.deviceName)) := by
  simp [step, ht, hd, hle]

theorem owned_step (h : Owned s) (ht : s.step d e a = some (t, events)) : Owned t := by
  cases a with
  | start env secret deviceId deviceName deviceIp devicePort localPort =>
    cases ht
    intro deviceId later h
    exact (owned_ownedIn h).2
  | posted attempt =>
    obtain ⟨task, -, ht⟩ := Option.bind_eq_some_iff.mp ht
    split at ht
    · cases ht
      exact owned_withOutcome
    · cases ht
  | postFailed attempt | timeout attempt =>
    obtain ⟨task, out, -, -, ht⟩ := step_ended rfl ht
    cases ht
    exact owned_withOutcome
  | cancel deviceId =>
    cases ht
    exact owned_withOutcome
  | nearby env senderIp message =>
    cases ht
    exact owned_withOutcome
  | tick ms =>
    cases ht
    exact h

/-- Whichever way a task ends, it leaves the slot of its device empty. -/
theorem sessions_ended {attempt : Nat} {task : PairingTask} (ha : endedBy a = some attempt)
    (htask : s.tasks attempt = some task) (ht : s.step d e a = some (t, events)) :
    t.manager.sessions task.deviceId = none := by
  obtain ⟨task', out, htask', hout, ht⟩ := step_ended ha ht
  cases htask.symm.trans htask'
  cases ht
  rcases hout with rfl | rfl
  · exact Function.update_self ..
  · show (s.manager.responseTimeout task.deviceId task.deviceName).manager.sessions _ = none
    unfold PairingManager.responseTimeout
    split
    · next hnone => exact hnone
    · exact Function.update_self ..

theorem endsOnlyItsOwn_iff (h : Owned s) (ht : s.step d e a = some (t, events)) :
    s.EndsOnlyItsOwn t events a ↔ s.NoLaterSession a := by
  constructor
  · intro hown attempt task later ha htask hlater hlt
    have hkept := (hown attempt task later ha htask hlater hlt).1
    rw [sessions_ended ha htask ht] at hkept
    have hsome := h task.deviceId later hlater
    rw [← hkept] at hsome
    cases hsome
  · intro hno attempt task later ha htask hlater hlt
    exact absurd hlt (hno attempt task later ha htask hlater)

theorem owned_fresh {mgr : PairingManager} {now : Nat} : Owned (fresh mgr now) := by
  intro deviceId later h
  cases h

/-- The attempts of any run end only by their own events exactly when no task ends while a later
attempt waits in the slot of its device. -/
theorem attempts_endOnlyTheirOwn_iff (d : Dalek) (e : Ecdh) (mgr : PairingManager) (now : Nat)
    (as : List AttemptAction) :
    Along d e (fun s t events a => s.EndsOnlyItsOwn t events a) (fresh mgr now) as ↔
      Along d e (fun s _ _ a => s.NoLaterSession a) (fresh mgr now) as := by
  constructor
  · exact along_mono (fun h _ ht => owned_step h ht)
      (fun h hown ht => (endsOnlyItsOwn_iff h ht).mp hown) owned_fresh
  · exact along_mono (fun h _ ht => owned_step h ht)
      (fun h hno ht => (endsOnlyItsOwn_iff h ht).mpr hno) owned_fresh

def demoManager : PairingManager where
  db := ⟨Keyed.Table.empty, Keyed.Table.empty⟩
  identity := ⟨"alice", "Alice", ""⟩
  localDeviceType := "COMPUTER"
  sessions := fun _ => none

def demoStart : AttemptAction := .start ⟨0, "t", []⟩ [2] "bob" "Bob" "10.0.0.2" 8443 8443

/-- Alice cancels her first attempt after a minute and tries again: half a minute later the timer
of the first attempt removes the session of the second. -/
theorem firstTimer_endsSecondAttempt :
    ¬ ∀ (d : Dalek) (e : Ecdh) (mgr : PairingManager) (now : Nat) (as : List AttemptAction),
      Along d e (fun s t events a => s.EndsOnlyItsOwn t events a) (fresh mgr now) as := by
  intro hall
  have hrun := hall checksumDalek productEcdh demoManager 0
    [demoStart, .posted 0, .tick 60000, .cancel "bob", demoStart, .posted 1, .tick 30000, .timeout 0]
  have h1 := (hrun _ _ rfl).2 _ _ rfl
  have h2 := (h1.2 _ _ rfl).2 _ _ rfl
  have h3 := (h2.2 _ _ rfl).2 _ _ rfl
  have h4 := h3.2 _ _ rfl
  have h5 := h4.2 _ _ (step_timeout rfl rfl (by decide))
  have hkept := (h5.1 0 _ 1 rfl rfl rfl (by omega)).1
  have hsome := congrArg Option.isSome hkept
  revert hsome
  decide +kernel

/-- Only a start adds a task, and only a start gives a slot another owner. -/
theorem step_shrinks (hs : ∀ env secret deviceId deviceName deviceIp devicePort localPort,
      a ≠ .start env secret deviceId deviceName deviceIp devicePort localPort)
    (ht : s.step d e a = some (t, events)) :
    (∀ attempt task, t.tasks attempt = some task →
      ∃ old, s.tasks attempt = some old ∧ old.deviceId = task.deviceId) ∧
    t.started = s.started ∧
    ∀ deviceId later, t.owner deviceId = some later → s.owner deviceId = some later := by
  have hended : ∀ {attempt task n}, (s.endTask n).tasks attempt = some task →
      ∃ old, s.tasks attempt = some old ∧ old.deviceId = task.deviceId := by
    intro attempt task n htask
    simp only [endTask, Function.update_apply] at htask
    split at htask
    · cases htask
    · exact ⟨task, htask, rfl⟩
  cases a with
  | start => exact absurd rfl (hs _ _ _ _ _ _ _)
  | posted n =>
    obtain ⟨task, hn, ht⟩ := Option.bind_eq_some_iff.mp ht
    split at ht
    · cases ht
      refine ⟨fun attempt later htask => ?_, rfl, fun deviceId later h => (owned_ownedIn h).1⟩
      simp only [Function.update_apply] at htask
      split at htask
      · next hattempt =>
        cases htask
        exact ⟨task, hattempt ▸ hn, rfl⟩
      · exact ⟨later, htask, rfl⟩
    · cases ht
  | postFailed n | timeout n =>
    obtain ⟨task, out, -, -, ht⟩ := step_ended rfl ht
    cases ht
    exact ⟨fun _ _ => hended, rfl, fun _ _ h => (owned_ownedIn h).1⟩
  | cancel deviceId =>
    cases ht
    exact ⟨fun _ task h => ⟨task, h, rfl⟩, rfl, fun _ _ h => (owned_ownedIn h).1⟩
  | nearby env senderIp message =>
    cases ht
    exact ⟨fun _ task h => ⟨task, h, rfl⟩, rfl, fun _ _ h => (owned_ownedIn h).1⟩
  | tick ms =>
    cases ht
    exact ⟨fun _ task h => ⟨task, h, rfl⟩, rfl, fun _ _ h => h⟩

/-- Each task that is left belongs to the attempt in the slot of its device, if there is one. -/
structure Alone (s : Attempts) : Prop where
  started : ∀ attempt task, s.tasks attempt = some task → attempt < s.started
  own : ∀ attempt task later, s.tasks attempt = some task →
    s.owner task.deviceId = some later → attempt = later

theorem alone_fresh {mgr : PairingManager} {now : Nat} : Alone (fresh mgr now) where
  started _ _ h := by cases h
  own _ _ _ h := by cases h

theorem alone_step (h : Alone s) (hg : s.StartsAlone a) (ht : s.step d e a = some (t, events)) :
    Alone t := by
  by_cases hs : ∃ env secret deviceId deviceName deviceIp devicePort localPort,
      a = .start env secret deviceId deviceName deviceIp devicePort localPort
  · obtain ⟨env, secret, deviceId, deviceName, deviceIp, devicePort, localPort, rfl⟩ := hs
    cases ht
    constructor
    · intro attempt task htask
      simp only [Function.update_apply] at htask
      split at htask
      · next hattempt =>
        show attempt < s.started + 1
        omega
      · have := h.started attempt task htask
        show attempt < s.started + 1
        omega
    · intro attempt task later htask hlater
      have hlater := (owned_ownedIn hlater).1
      simp only [Function.update_apply] at htask hlater
      split at htask
      · next hattempt =>
        cases htask
        rw [if_pos rfl] at hlater
        exact hattempt.trans (Option.some.inj hlater)
      · rw [if_neg (hg attempt task htask)] at hlater
        exact h.own attempt task later htask hlater
  · push Not at hs
    obtain ⟨htasks, hstarted, howner⟩ := step_shrinks hs ht
    constructor
    · intro attempt task htask
      obtain ⟨old, hold, -⟩ := htasks attempt task htask
      exact hstarted ▸ h.started attempt old hold
    · intro attempt task later htask hlater
      obtain ⟨old, hold, hdev⟩ := htasks attempt task htask
      exact h.own attempt old later hold (hdev ▸ howner _ _ hlater)

/-- Attempts that wait for the tasks of earlier ones to be over end only by their own events. -/
theorem endOnlyTheirOwn_of_startsAlone {mgr : PairingManager} {now : Nat}
    (h : Along d e (fun s _ _ a => s.StartsAlone a) (fresh mgr now) as) :
    Along d e (fun s t events a => s.EndsOnlyItsOwn t events a) (fresh mgr now) as := by
  refine along_mono (fun h hg ht => ?_) (fun h _ ht => ?_) (I := fun s => Alone s ∧ Owned s)
    ⟨alone_fresh, owned_fresh⟩ h
  · exact ⟨alone_step h.1 hg ht, owned_step h.2 ht⟩
  · refine (endsOnlyItsOwn_iff h.2 ht).mpr fun attempt task later _ htask hlater hlt => ?_
    have := h.1.own attempt task later htask hlater
    omega

end Attempts

end PlainRs.Chat
