import PlainRs.Base.Along
import PlainRs.Base.Broadcast
import PlainRs.Chat.Pairing.Manager

/-! `local_api/chat.rs`: the tasks of `spawn_event_bridges`, which carry the events of the chat
service and of the pairing manager to the web-socket bus. -/
namespace PlainRs.LocalApi.Bridges

open Broadcast
open PlainRs.Chat (PairingEvent PairingRequest)

structure ChatEvent where
  eventType : Int
  payload : String

structure WsEvent where
  eventType : Int
  payload : String

structure DPairingResult where
  deviceId : String
  deviceName : String
  error : String

/-- `serde_json::to_string`. -/
structure ToJson where
  request : PairingRequest → Option String
  result : DPairingResult → Option String

/-- What a bridge does: it calls `notify_shell`, or it sends on the bus. -/
inductive Sent
  | shell (ev : PairingEvent)
  | ws (ev : WsEvent)

/-- Chat events are forwarded as they are. -/
def forwardChatEvent (ev : ChatEvent) : List Sent := [.ws ⟨ev.eventType, ev.payload⟩]

def wsPairingRequestReceived : Int := 22

def wsPairingSuccess : Int := 23

def wsPairingFailed : Int := 24

def wsPairingCancelled : Int := 25

def wsPairingStarted : Int := 26

def forwardPairingEventToWs (json : ToJson) (ev : PairingEvent) : Option WsEvent :=
  let result (eventType : Int) (error : String) : Option WsEvent :=
    (json.result ⟨ev.deviceId, ev.deviceName, error⟩).map (⟨eventType, ·⟩)
  match ev.kind with
  | .incomingRequest request _ => (json.request request).map (⟨wsPairingRequestReceived, ·⟩)
  | .started => result wsPairingStarted ""
  | .success => result wsPairingSuccess ""
  | .failed reason => result wsPairingFailed reason
  | .cancelled => result wsPairingCancelled ""

def forwardPairingEvent (json : ToJson) (ev : PairingEvent) : List Sent :=
  .shell ev :: ((forwardPairingEventToWs json ev).map Sent.ws).toList

/-- A bridge since it subscribed, with the events that were emitted since. -/
structure State (α : Type) where
  channel : Channel α
  next : Nat
  running : Bool
  sent : List Sent
  emitted : List α

/-- The service emits an event, or the bridge's loop comes to its `recv`. -/
inductive Action (α : Type)
  | emit (ev : α)
  | poll

variable {α : Type} (forward : α → List Sent)

/-- One turn of `while let Ok(ev) = rx.recv().await`: a lag ends the loop like any other error. -/
def State.poll (s : State α) : State α :=
  match s.channel.recv s.next with
  | (.value ev, next) => { s with next := next, sent := s.sent ++ forward ev }
  | (.lagged _, next) => { s with next := next, running := false }
  | (.empty, _) => s

def next (s : State α) : Action α → Option (State α)
  | .emit ev => some { s with channel := s.channel.send ev, emitted := s.emitted ++ [ev] }
  | .poll => if s.running then some (s.poll forward) else none

def fresh (capacity : Nat) : State α := ⟨.new capacity, 0, true, [], []⟩

def bridge (capacity : Nat) : Runs.System (State α) (Action α) where
  init s := s = fresh capacity
  next := next forward

def chatBridge (capacity : Nat) : Runs.System (State ChatEvent) (Action ChatEvent) :=
  bridge forwardChatEvent capacity

def pairingBridge (json : ToJson) (capacity : Nat) :
    Runs.System (State PairingEvent) (Action PairingEvent) :=
  bridge (forwardPairingEvent json) capacity

/-- The bridge runs; it has forwarded some of the events, in their order, and each of the others was
overwritten or is still to be received. -/
structure Survives (s : State α) : Prop where
  running : s.running = true
  forwarded : ∃ taken : List Nat, taken.Pairwise (· < ·) ∧ (∀ i ∈ taken, i < s.next) ∧
    s.sent = (taken.filterMap (s.emitted[·]?)).flatMap forward ∧
    ∀ i, i < s.emitted.length → i ∈ taken ∨ i < s.channel.first ∨ s.next ≤ i

/-- The loop comes to its `recv` with no more events to receive than the channel holds. -/
def KeepsUp (s : State α) : Action α → Prop
  | .emit _ => True
  | .poll => s.emitted.length ≤ s.next + s.channel.capacity

/-- The channel holds the end of what was emitted, and the bridge received no more than that. -/
structure Follows (s : State α) : Prop where
  holds : s.channel.Holds s.emitted
  next_le : s.next ≤ s.emitted.length

variable {forward} {s t : State α} {a : Action α} {as : List (Action α)} {ev : α} {capacity : Nat}

theorem follows_fresh : Follows (fresh capacity : State α) := ⟨Channel.holds_new, Nat.le_refl 0⟩

theorem survives_fresh : Survives forward (fresh capacity : State α) := by
  refine ⟨rfl, [], .nil, by simp, rfl, ?_⟩
  intro i hi
  exact absurd hi (Nat.not_lt_zero i)

theorem poll_value (h : Follows s) (hn : s.channel.first ≤ s.next)
    (hv : s.emitted[s.next]? = some ev) :
    s.poll forward = { s with next := s.next + 1, sent := s.sent ++ forward ev } := by
  rw [State.poll, h.holds.recv_value hn hv]

theorem poll_empty (h : Follows s) (hn : s.channel.first ≤ s.next)
    (hv : s.emitted[s.next]? = none) : s.poll forward = s := by
  rw [State.poll, h.holds.recv_empty hn hv]

theorem poll_lagged (hn : s.next < s.channel.first) :
    s.poll forward = { s with next := s.channel.first, running := false } := by
  rw [State.poll, Channel.recv_lagged hn]

theorem follows_step (h : Follows s) (ht : next forward s a = some t) : Follows t := by
  cases a with
  | emit ev =>
    cases ht
    refine ⟨h.holds.send, ?_⟩
    have hle := h.next_le
    simp only [List.length_append, List.length_singleton]
    omega
  | poll =>
    simp only [next] at ht
    split at ht
    · cases ht
      by_cases hn : s.channel.first ≤ s.next
      · cases hv : s.emitted[s.next]? with
        | none => rwa [poll_empty h hn hv]
        | some ev =>
          rw [poll_value h hn hv]
          exact ⟨h.holds, (List.getElem?_eq_some_iff.mp hv).1⟩
      · rw [poll_lagged (Nat.lt_of_not_le hn)]
        refine ⟨h.holds, ?_⟩
        have hfirst := h.holds.first
        dsimp only
        omega
    · cases ht

/-- Events emitted since do not change what was forwarded, and are ahead of the bridge. -/
theorem survives_emit (hf : Follows s) (h : Survives forward s) :
    Survives forward { s with channel := s.channel.send ev, emitted := s.emitted ++ [ev] } := by
  obtain ⟨hr, taken, hsorted, hbound, hsent, hall⟩ := h
  have hle := hf.next_le
  refine ⟨hr, taken, hsorted, hbound, ?_, ?_⟩
  · have hsame : taken.filterMap ((s.emitted ++ [ev])[·]?) = taken.filterMap (s.emitted[·]?) := by
      refine List.filterMap_congr fun i hi => ?_
      exact List.getElem?_append_left (Nat.lt_of_lt_of_le (hbound i hi) hle)
    exact hsent.trans (by rw [hsame])
  · intro i hi
    rw [List.length_append, List.length_singleton] at hi
    have hfirst := hf.holds.first
    have hfirst' := (hf.holds.send (v := ev)).first
    rw [List.length_append, List.length_singleton, Channel.capacity_send] at hfirst'
    dsimp only
    rcases Nat.lt_or_ge i s.emitted.length with hlt | hge
    · rcases hall i hlt with hin | hover | hahead
      · exact .inl hin
      · exact .inr (.inl (by omega))
      · exact .inr (.inr hahead)
    · exact .inr (.inr (by omega))

theorem survives_value (h : Survives forward s) (hv : s.emitted[s.next]? = some ev) :
    Survives forward { s with next := s.next + 1, sent := s.sent ++ forward ev } := by
  obtain ⟨hr, taken, hsorted, hbound, hsent, hall⟩ := h
  refine ⟨hr, taken ++ [s.next], ?_, ?_, ?_, ?_⟩
  · rw [List.pairwise_append]
    refine ⟨hsorted, List.pairwise_singleton .., ?_⟩
    intro i hi j hj
    rw [List.mem_singleton.mp hj]
    exact hbound i hi
  · intro i hi
    rcases List.mem_append.mp hi with hi | hi
    · exact Nat.lt_succ_of_lt (hbound i hi)
    · rw [List.mem_singleton.mp hi]
      exact Nat.lt_succ_self _
  · dsimp only
    rw [hsent, List.filterMap_append, List.flatMap_append, List.filterMap_cons_some hv]
    simp
  · intro i hi
    rcases hall i hi with hin | hover | hahead
    · exact .inl (List.mem_append_left _ hin)
    · exact .inr (.inl hover)
    · rcases Nat.eq_or_lt_of_le hahead with he | hlt
      · exact .inl (List.mem_append_right _ (List.mem_singleton.mpr he.symm))
      · exact .inr (.inr hlt)

theorem survives_step (hf : Follows s) (h : Survives forward s) (ht : next forward s a = some t) :
    Survives forward t ↔ KeepsUp s a := by
  cases a with
  | emit ev =>
    cases ht
    exact iff_of_true (survives_emit hf h) trivial
  | poll =>
    simp only [next, h.running, if_true, Option.some.injEq] at ht
    subst ht
    have hlag : s.next < s.channel.first ↔ s.next + s.channel.capacity < s.emitted.length :=
      hf.holds.lagging_iff
    by_cases hn : s.channel.first ≤ s.next
    · have hkeeps : KeepsUp s .poll := by
        rw [KeepsUp]
        omega
      refine iff_of_true ?_ hkeeps
      cases hv : s.emitted[s.next]? with
      | none => rwa [poll_empty hf hn hv]
      | some ev =>
        rw [poll_value hf hn hv]
        exact survives_value h hv
    · have hbehind : ¬ KeepsUp s .poll := by
        rw [KeepsUp]
        omega
      refine iff_of_false (fun ht => ?_) hbehind
      rw [poll_lagged (Nat.lt_of_not_le hn)] at ht
      exact absurd ht.running (by simp)

theorem bridge_survives :
    (bridge forward capacity).StatesAlong (Survives forward) (fresh capacity) as ↔
      (bridge forward capacity).StepsAlong KeepsUp (fresh capacity) as :=
  Runs.System.statesAlong_iff (fun _ _ _ hf ht => follows_step hf ht)
    (fun _ _ _ hf hs ht => survives_step hf hs ht) follows_fresh survives_fresh

/-- Whatever the capacity and the schedule, both bridges survive exactly the runs in which they keep
up: none comes to its `recv` further behind than its channel holds. -/
theorem bridges_survive (json : ToJson) (capacity : Nat) :
    (∀ as, (chatBridge capacity).StatesAlong (Survives forwardChatEvent) (fresh capacity) as ↔
      (chatBridge capacity).StepsAlong KeepsUp (fresh capacity) as) ∧
    ∀ as, (pairingBridge json capacity).StatesAlong (Survives (forwardPairingEvent json))
        (fresh capacity) as ↔
      (pairingBridge json capacity).StepsAlong KeepsUp (fresh capacity) as :=
  ⟨fun _ => bridge_survives, fun _ => bridge_survives⟩

/-- The service's channel has 256 slots; after 257 events the bridge is ended for good. -/
theorem burst_endsBridge : ¬ ∀ capacity as,
    (chatBridge capacity).StatesAlong (Survives forwardChatEvent) (fresh capacity) as := by
  intro h
  have hrun : ((chatBridge 256).run (fun _ _ => True) (fresh 256)
      (List.replicate 257 (.emit ⟨1, ""⟩) ++ [.poll])).any (fun s => !s.running) = true := by
    decide +kernel
  obtain ⟨s, hs, hp⟩ := (Option.any_eq_true _ _).mp hrun
  have hrunning := ((h 256 _).last hs).running
  simp [hrunning] at hp

/-- A bridge that keeps up and comes to its `recv` often enough forwards all there is. -/
theorem polls_catch_up (hf : Follows s) (hr : s.running = true) (hk : KeepsUp s .poll) :
    (bridge forward capacity).run (fun _ _ => True) s
        (List.replicate (s.emitted.length - s.next) .poll) =
      some { s with
        next := s.emitted.length
        sent := s.sent ++ (s.emitted.drop s.next).flatMap forward } := by
  have hle := hf.next_le
  generalize hm : s.emitted.length - s.next = m
  induction m generalizing s with
  | zero =>
    have he : s.emitted.length = s.next := by omega
    rw [he, List.drop_of_length_le (Nat.le_of_eq he)]
    simp [Runs.System.run]
  | succ m ih =>
    have hlt : s.next < s.emitted.length := by omega
    have hfirst : s.channel.first ≤ s.next := by
      rw [KeepsUp] at hk
      have hlag : s.next < s.channel.first ↔ s.next + s.channel.capacity < s.emitted.length :=
      hf.holds.lagging_iff
      omega
    have hv : s.emitted[s.next]? = some s.emitted[s.next] := List.getElem?_eq_getElem hlt
    have ht : next forward s .poll =
        some { s with next := s.next + 1, sent := s.sent ++ forward s.emitted[s.next] } := by
      rw [next, if_pos hr, poll_value hf hfirst hv]
    have hkt : KeepsUp { s with next := s.next + 1, sent := s.sent ++ forward s.emitted[s.next] }
        .poll := by
      rw [KeepsUp] at hk ⊢
      dsimp only
      omega
    have hrest := ih (follows_step hf ht) hr hkt hlt (by dsimp only; omega)
    rw [List.replicate_succ, Runs.System.run, if_pos trivial]
    refine (congrArg (Option.bind · _) ht).trans ?_
    rw [Option.bind_some, hrest, List.drop_eq_getElem_cons hlt, List.flatMap_cons,
      List.append_assoc]

end PlainRs.LocalApi.Bridges
