import PlainRs.Base.Runs
import PlainRs.Chat.Service
import PlainRs.LocalApi.Discover.KnownPeers

/-! `local_api/discover/peer_status_manager.rs`: the threads that keep a status socket to every
peer, and the online flags they and the rest of the app set. -/
namespace PlainRs.LocalApi.PeerStatus

open PlainRs.Chat PlainRs.Mdns PlainRs.Utils

/-- A task is named by the number of its spawn; `task_id` is the number of the attempt. -/
structure PeerState where
  task : Option Nat
  taskId : UInt64
  reconnectAttempts : Nat
  pendingReconnect : Bool
  online : Bool

def PeerState.default : PeerState := ⟨none, 0, 0, false, false⟩

/-- A socket task: connecting or connected, in `connection_closed`, or past its section there. -/
inductive TaskStatus
  | running
  | closing
  | closed
  deriving DecidableEq

structure Task where
  peerId : String
  taskId : UInt64
  status : TaskStatus

/-- Whether a thread has entered the Tokio runtime; one from `std::thread::spawn` has not, and
`tokio::spawn` panics there. -/
inductive Thread
  | runtime
  | plain
  deriving DecidableEq

/-- Where a call stands, named by what it does next. -/
inductive Pc
  /-- `force_reconnect_peer` and `reconnect_peer` before their sections. -/
  | forcing (peer : DPeer)
  | reconnecting
  /-- `reconnect_peer` before it reads the row, and after the browse, before it reads it again. -/
  | looking
  | browsing (peer : DPeer)
  /-- `open_socket`: before the request is built, before the section that numbers the attempt,
  before the spawn, and before the section that stores the handle. -/
  | opening (peer : DPeer)
  | numbering
  | spawning (taskId : UInt64)
  | storing (taskId : UInt64) (task : Nat)
  /-- `schedule_reconnect`: before its section, and before the timer thread is spawned. -/
  | scheduling
  | timing (delayMs : Nat)
  /-- `connection_authenticated` and `connection_closed` before their sections; the latter also
  before its event. -/
  | authenticating (taskId : UInt64)
  | closing (taskId : UInt64) (task : Nat)
  | closed (shouldReconnect : Bool)
  /-- `set_online` before its section. -/
  | setting (online : Bool)
  /-- `emit_peer_status`. -/
  | emitting (online : Bool)

structure Call where
  peerId : String
  thread : Thread
  pc : Pc

structure State where
  service : ChatService
  states : String → PeerState
  started : Bool
  /-- The peers that `reconnect_all` has loaded. -/
  loaded : List DPeer
  tasks : Nat → Option Task
  nextTask : Nat
  /-- The delays of the timer threads that sleep for a peer. -/
  timers : String → List Nat
  calls : Nat → Option Call
  /-- `WS_PEER_STATUS_UPDATED`, the latest first. -/
  events : List (String × Bool)
  /-- `open_socket` was called for the peer by `force_reconnect_peer`. -/
  opened : String → Bool

inductive Action
  | start
  | reconnectNow
  | force (call : Nat) (peer : DPeer) (thread : Thread)
  | fire (call : Nat) (peerId : String) (delayMs : Nat)
  | authenticate (call : Nat) (task : Nat)
  | close (call : Nat) (task : Nat)
  | setOnline (call : Nat) (peerId : String) (online : Bool)
  | unpair (call : Nat) (peerId : String) (now : String)
  | delete (call : Nat) (peerId : String) (now : String)
  | discovered (device : FoundDevice) (now : Int)
  | stopFlag
  | stopStates
  | step (call : Nat) (requestBuilt : Bool)

def shouldConnect (clientId : String) (peer : DPeer) : Bool :=
  peer.isPaired && peer.key ≠ "" && clientId < peer.id

def loadConnectablePeers (clientId : String) (db : ChatDb) : List DPeer :=
  db.getPeers.filter (shouldConnect clientId)

/-- `base64_decode(&peer.key).len() == 32`. -/
def hasKey (peer : DPeer) : Bool := (base64Decode peer.key).length = 32

/-- `schedule_reconnect`'s delay after the attempts counted so far. -/
def reconnectDelayMs (attempts : Nat) : Nat := min 60000 (1000 * 2 ^ min (attempts - 1) 6)

/-- How `reconnect_peer` goes on after its wait. -/
def afterBrowse (peer refreshed : DPeer) : Pc :=
  if refreshed.updatedAt = peer.updatedAt then .scheduling
  else if refreshed.ip = "" ∨ refreshed.port = 0 then .scheduling
  else .opening refreshed

namespace State

@[simps] def setPeer (s : State) (peerId : String) (st : PeerState) : State :=
  { s with states := Function.update s.states peerId st }

@[simps] def goto (s : State) (call : Nat) (c : Call) : State :=
  { s with calls := Function.update s.calls call (some c) }

@[simps] def finish (s : State) (call : Nat) : State := { s with calls := Function.update s.calls call none }

@[simps] def setTask (s : State) (task : Nat) (t : Task) : State :=
  { s with tasks := Function.update s.tasks task (some t) }

@[simps] def emit (s : State) (peerId : String) (online : Bool) : State :=
  { s with events := (peerId, online) :: s.events }

/-- The next step of a call; `requestBuilt` tells whether `open_socket` could sign and encrypt. -/
def step (clientId : String) (s : State) (call : Nat) (c : Call) (requestBuilt : Bool) : State :=
  let st := s.states c.peerId
  match c.pc with
  | .forcing peer =>
    if !s.started then s.finish call
    else
      let s := s.setPeer c.peerId { st with pendingReconnect := false }
      if st.task.isSome then s.finish call
      else if hasKey peer then
        { s.goto call { c with pc := .opening peer } with
          opened := Function.update s.opened c.peerId true }
      else s.finish call
  | .reconnecting =>
    if !s.started then s.finish call
    else
      let s := s.setPeer c.peerId { st with pendingReconnect := false }
      if st.task.isSome then s.finish call else s.goto call { c with pc := .looking }
  | .looking =>
    match s.service.db.getPeerById c.peerId with
    | none => s.finish call
    | some peer =>
      if shouldConnect clientId peer && hasKey peer then s.goto call { c with pc := .browsing peer }
      else s.finish call
  | .browsing peer =>
    s.goto call { c with pc := afterBrowse peer ((s.service.db.getPeerById peer.id).getD peer) }
  | .opening _ =>
    s.goto call { c with pc := if requestBuilt then .numbering else .scheduling }
  | .numbering =>
    if st.task.isSome then s.finish call
    else
      (s.setPeer c.peerId { st with taskId := st.taskId + 1 }).goto call
        { c with pc := .spawning (st.taskId + 1) }
  | .spawning taskId =>
    match c.thread with
    | .runtime =>
      { (s.setTask s.nextTask ⟨c.peerId, taskId, .running⟩).goto call
          { c with pc := .storing taskId s.nextTask } with
        nextTask := s.nextTask + 1 }
    | .plain => s.finish call
  | .storing taskId task =>
    (if st.taskId = taskId then s.setPeer c.peerId { st with task := some task } else s).finish call
  | .scheduling =>
    if !s.started then s.finish call
    else if st.task.isSome || st.pendingReconnect then s.finish call
    else
      let attempts := min (st.reconnectAttempts + 1) (2 ^ 32 - 1)
      (s.setPeer c.peerId { st with pendingReconnect := true, reconnectAttempts := attempts }).goto
        call { c with pc := .timing (reconnectDelayMs attempts) }
  | .timing delayMs =>
    { s.finish call with
      timers := Function.update s.timers c.peerId (delayMs :: s.timers c.peerId) }
  | .authenticating taskId =>
    if st.taskId = taskId then
      (s.setPeer c.peerId { st with pendingReconnect := false, reconnectAttempts := 0 }).goto call
        { c with pc := .setting true }
    else s.finish call
  | .closing taskId task =>
    let s := s.setTask task ⟨c.peerId, taskId, .closed⟩
    if st.taskId = taskId then
      (s.setPeer c.peerId { st with task := none, online := false }).goto call
        { c with pc := .closed s.started }
    else s.finish call
  | .closed shouldReconnect =>
    let s := s.emit c.peerId false
    if shouldReconnect then s.goto call { c with pc := .scheduling } else s.finish call
  | .setting online =>
    if st.online = online then s.finish call
    else (s.setPeer c.peerId { st with online := online }).goto call { c with pc := .emitting online }
  | .emitting online => (s.emit c.peerId online).finish call

/-- The section of `stop`. -/
def stopStates (s : State) : State :=
  { s with
    states := fun p =>
      { s.states p with
        task := none, taskId := (s.states p).taskId + 1, reconnectAttempts := 0,
        pendingReconnect := false } }

/-- `unpair_peer` or `delete_peer`, up to its event. -/
def withdraw (s : State) (call : Nat) (peerId : String) (o : Outcome Bool) : State :=
  let s := { s with service := o.service }
  if o.result then s.goto call ⟨peerId, .runtime, .emitting false⟩ else s

end State

/-- One step of one thread; a call begins under a number that no other call has. The `set_online`
calls of `stop` begin like any other. -/
def next (clientId : String) (s : State) : Action → Option State
  | .start =>
    some { s with
      started := true
      loaded := if s.started then s.loaded else
        s.loaded ++ loadConnectablePeers clientId s.service.db }
  | .reconnectNow =>
    if s.started then
      some { s with loaded := s.loaded ++ loadConnectablePeers clientId s.service.db }
    else none
  | .force call peer thread =>
    if (s.calls call).isNone ∧ peer ∈ s.loaded then
      some (s.goto call ⟨peer.id, thread, .forcing peer⟩)
    else none
  | .fire call peerId delayMs =>
    if (s.calls call).isNone ∧ delayMs ∈ s.timers peerId then
      some { s.goto call ⟨peerId, .plain, .reconnecting⟩ with
        timers := Function.update s.timers peerId ((s.timers peerId).erase delayMs) }
    else none
  | .authenticate call task =>
    match s.tasks task with
    | some ⟨peerId, taskId, .running⟩ =>
      if (s.calls call).isNone then some (s.goto call ⟨peerId, .runtime, .authenticating taskId⟩)
      else none
    | _ => none
  | .close call task =>
    match s.tasks task with
    | some ⟨peerId, taskId, .running⟩ =>
      if (s.calls call).isNone then
        some ((s.setTask task ⟨peerId, taskId, .closing⟩).goto call
          ⟨peerId, .runtime, .closing taskId task⟩)
      else none
    | _ => none
  | .setOnline call peerId online =>
    if (s.calls call).isNone then some (s.goto call ⟨peerId, .runtime, .setting online⟩) else none
  | .unpair call peerId now =>
    if (s.calls call).isNone then some (s.withdraw call peerId (s.service.unpairPeer peerId now))
    else none
  | .delete call peerId now =>
    if (s.calls call).isNone then some (s.withdraw call peerId (s.service.deletePeer peerId now))
    else none
  | .discovered device now =>
    if device.id = clientId then some s
    else some { s with service := { s.service with db := updateKnownPeer s.service.db device now } }
  | .stopFlag => some { s with started := false }
  | .stopStates => some s.stopStates
  | .step call requestBuilt => (s.calls call).map (s.step clientId call · requestBuilt)

/-- A fresh manager over whatever peers are stored. -/
structure Initial (s : State) : Prop where
  states : s.states = fun _ => PeerState.default
  started : s.started = false
  loaded : s.loaded = []
  tasks : s.tasks = fun _ => none
  timers : s.timers = fun _ => []
  calls : s.calls = fun _ => none
  events : s.events = []
  opened : s.opened = fun _ => false

def system (clientId : String) : Runs.System State Action where
  init := Initial
  next := next clientId

/-- The number of the call that an action begins or moves. -/
def Action.call : Action → Option Nat
  | .force n _ _ | .fire n _ _ | .authenticate n _ | .close n _ | .setOnline n _ _ | .unpair n _ _
  | .delete n _ _ | .step n _ => some n
  | .start | .reconnectNow | .discovered _ _ | .stopFlag | .stopStates => none

variable {clientId : String} {s t : State} {a : Action} {n m : Nat} {c : Call} {built : Bool}

/-- A call's step moves no other call. -/
theorem calls_step_of_ne (hm : m ≠ n) : (s.step clientId n c built).calls m = s.calls m := by
  have hgoto : ∀ v : Option Call, Function.update s.calls n v m = s.calls m := by
    intro v
    exact Function.update_of_ne hm v s.calls
  obtain ⟨peerId, thread, pc⟩ := c
  cases pc <;> simp only [State.step] <;> (try split) <;> (try split) <;> (try split) <;>
    exact hgoto _

/-- An action touches the call it names and no other. -/
theorem calls_next_of_ne (h : next clientId s a = some t) (hn : a.call ≠ some n) :
    t.calls n = s.calls n := by
  have hgoto : ∀ {m : Nat} {v : Option Call}, some m ≠ some n →
      Function.update s.calls m v n = s.calls n := by
    intro m v hne
    have hnm : n ≠ m := fun he => hne (by rw [he])
    exact Function.update_of_ne hnm v s.calls
  cases a with
  | start | stopFlag | stopStates =>
    cases h
    rfl
  | reconnectNow | discovered =>
    simp only [next] at h
    split at h <;> cases h <;> rfl
  | force | fire | setOnline =>
    simp only [next] at h
    split at h <;> cases h
    exact hgoto hn
  | authenticate | close =>
    simp only [next] at h
    split at h
    · split at h <;> cases h
      exact hgoto hn
    · cases h
  | unpair | delete =>
    simp only [next, State.withdraw] at h
    split at h
    · cases h
      split
      · exact hgoto hn
      · rfl
    · cases h
  | step m built =>
    obtain ⟨c, -, rfl⟩ := Option.map_eq_some_iff.mp h
    exact calls_step_of_ne fun he => hn (by rw [Action.call, he])

end PlainRs.LocalApi.PeerStatus
