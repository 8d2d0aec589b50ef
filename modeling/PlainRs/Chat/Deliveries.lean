import PlainRs.Base.Runs
import PlainRs.Chat.Chats

/-! The deliveries of a chat service: spawned when a message is sent or retried, and done when they
write the final status of its row. -/
namespace PlainRs.Chat

open Keyed PlainRs.Crypto PlainRs.Utils

/-- A service with the delivery tasks that are running. -/
structure Deliveries where
  messenger : Messenger
  running : List DeliveryTask

/-- The results that a task for this target can come back with. -/
def DeliveryTarget.gives : DeliveryTarget → DeliveryResult → Bool
  | .peer _ _, .peer _ => true
  | .channel _, .channel _ | .channel _, .noLeader => true
  | _, _ => false

inductive ChatAction
  | sendChatItem (now id toId content : String)
  | retryChatItem (now id : String)
  /-- The channel task at `index` fills the caches where they miss its channel. -/
  | loadKeys (index : Nat)
  /-- The task at `index` writes what came of it, and is over. -/
  | complete (index : Nat) (result : DeliveryResult) (statusData now : String)
  | device (action : DeviceAction)
  | receivePeerChat (now id fromId channelId content : String)
  | deleteChatItems (query : String)
  | updateChatContent (id content now : String)

namespace Deliveries

section

variable (d : Dalek) (s : Deliveries)

/-- The state with a service as it is now, and what that spawned. -/
def spawned (m : Messenger × Option DeliveryTask) : Deliveries := ⟨m.1, m.2.toList ++ s.running⟩

def loadKeys (task : DeliveryTask) : Deliveries :=
  match task.target with
  | .peer _ _ => s
  | .channel channel =>
    if (s.messenger.service.channelKeyCache channel.id).isSome then s
    else { s with messenger := { s.messenger with service := s.messenger.service.loadKeyCache } }

def next : ChatAction → Option Deliveries
  | .sendChatItem now id toId content => some (s.spawned (s.messenger.sendChatItem now id toId content))
  | .retryChatItem now id => some (s.spawned (s.messenger.retryChatItem now id))
  | .loadKeys index => (s.running[index]?).map s.loadKeys
  | .complete index result statusData now =>
    (s.running[index]?).bind fun task =>
      if task.target.gives result then
        some ⟨s.messenger.updateChatStatusAndData task.chatId result.status statusData now,
          s.running.eraseIdx index⟩
      else none
  | .device action => some { s with messenger := s.messenger.act d action }
  | .receivePeerChat now id fromId channelId content =>
    some { s with messenger := (s.messenger.receivePeerChat now id fromId channelId content).1 }
  | .deleteChatItems query => some { s with messenger := (s.messenger.deleteChatItems query).1 }
  | .updateChatContent id content now =>
    some { s with messenger := s.messenger.updateChatContent id content now }

/-- Every pending row has a task running that will write its final status. -/
def Attended : Prop :=
  ∀ row ∈ s.messenger.chats.rows, row.status = .pending → ∃ task ∈ s.running, task.chatId = row.id

/-- A delivery is spawned for a chat: it goes to a peer that is stored with a key at hand, or into a
channel that is stored. -/
def Deliverable (svc : ChatService) (chat : DChat) : Prop :=
  chat.toId ≠ "local" ∧
    if chat.channelId = "" then
      chat.toId ≠ "" ∧ ∃ peer, svc.db.getPeerById chat.toId = some peer ∧
        ((svc.peerKeyCache chat.toId).isSome ∨ (rawKey peer.key).isSome)
    else (svc.db.getChannelById chat.channelId).isSome

/-- What keeps every pending row attended: the row that a step makes pending can be delivered, or
has a task already. -/
def KeepsAttended : ChatAction → Prop
  | .sendChatItem now id toId content =>
    Messenger.isRemote toId = true → s.messenger.getChatById id = none →
      Deliverable s.messenger.service (Messenger.sentChat now id toId content) ∨
        ∃ task ∈ s.running, task.chatId = id
  | .retryChatItem _ id =>
    ∀ chat, s.messenger.getChatById id = some chat →
      Deliverable s.messenger.service chat ∨ ∃ task ∈ s.running, task.chatId = id
  | _ => True

/-- The property, over the states of a run: after each action that is taken. -/
def AttendedAlong : Deliveries → List ChatAction → Prop
  | _, [] => True
  | s, a :: as => ∀ t, s.next d a = some t → t.Attended ∧ AttendedAlong t as

/-- The condition, over the steps of a run. -/
def KeptAlong : Deliveries → List ChatAction → Prop
  | _, [] => True
  | s, a :: as => ∀ t, s.next d a = some t → s.KeepsAttended a ∧ KeptAlong t as

end

variable {d : Dalek} {s t : Deliveries} {m : Messenger} {chat row : DChat}
  {now id toId content : String}

/-- No delivery comes back with the status `PENDING`. -/
theorem status_ne_pending (result : DeliveryResult) : result.status ≠ .pending := by
  cases result with
  | peer result => cases result <;> simp [DeliveryResult.status]
  | channel results =>
    simp only [DeliveryResult.status, computeStatus]
    repeat' split
    all_goals simp
  | noLeader => simp [DeliveryResult.status]

theorem spawnPeerDelivery_isSome : (m.spawnPeerDelivery chat).isSome = true ↔
    ∃ peer, m.service.db.getPeerById chat.toId = some peer ∧
      ((m.service.peerKeyCache chat.toId).isSome ∨ (rawKey peer.key).isSome) := by
  unfold Messenger.spawnPeerDelivery
  cases hp : m.service.db.getPeerById chat.toId with
  | none => simp
  | some peer =>
    cases hc : m.service.peerKeyCache chat.toId <;> cases hk : rawKey peer.key <;> simp [hk]

theorem spawnDelivery_isSome :
    (m.spawnDelivery chat).isSome = true ↔ Deliverable m.service chat := by
  unfold Messenger.spawnDelivery Deliverable
  by_cases hl : chat.toId = "local"
  · simp [hl]
  · by_cases hc : chat.channelId = ""
    · by_cases ht : chat.toId = ""
      · simp [hc, ht]
      · simp [hl, hc, ht, spawnPeerDelivery_isSome]
    · have hch : (m.spawnChannelDelivery chat).isSome =
          (m.service.db.getChannelById chat.channelId).isSome := by
        unfold Messenger.spawnChannelDelivery
        cases m.service.db.getChannelById chat.channelId <;> rfl
      simp [hl, hc, hch]

/-- What is spawned is for the chat it was spawned for. -/
theorem chatId_spawnDelivery {task : DeliveryTask} (h : m.spawnDelivery chat = some task) :
    task.chatId = chat.id := by
  unfold Messenger.spawnDelivery Messenger.spawnPeerDelivery Messenger.spawnChannelDelivery at h
  repeat' split at h
  all_goals cases h
  all_goals rfl

theorem sentChat_id : (Messenger.sentChat now id toId content).id = id := by
  unfold Messenger.sentChat
  dsimp only
  split <;> rfl

theorem sentChat_status : (Messenger.sentChat now id toId content).status = .pending ↔
    Messenger.isRemote toId = true := by
  unfold Messenger.sentChat
  dsimp only
  split
  · next hr => simp [hr]
  · next hr => simp [hr, DChat.new]

/-- Where tasks only come and pending rows only go, the pending rows stay attended. -/
theorem attended_of_rows (h : s.Attended) (hrun : ∀ task ∈ s.running, task ∈ t.running)
    (hrows : ∀ row ∈ t.messenger.chats.rows, row.status = .pending →
      ∃ old ∈ s.messenger.chats.rows, old.id = row.id ∧ old.status = .pending) : t.Attended := by
  intro row hrow hp
  obtain ⟨old, hold, hid, hpold⟩ := hrows row hrow hp
  obtain ⟨task, htask, ht⟩ := h old hold hpold
  exact ⟨task, hrun task htask, ht.trans hid⟩

theorem attended_send (h : s.Attended) :
    (s.spawned (s.messenger.sendChatItem now id toId content)).Attended ↔
      s.KeepsAttended (.sendChatItem now id toId content) := by
  have hrows : (s.messenger.sendChatItem now id toId content).1.chats.rows =
      s.messenger.chats.rows ++ if (s.messenger.getChatById id).isNone then
        [Messenger.sentChat now id toId content] else [] := by
    have hi := Messenger.rows_insertChat s.messenger (Messenger.sentChat now id toId content)
    rwa [sentChat_id] at hi
  have hspawn : Messenger.isRemote toId = true →
      (s.messenger.sendChatItem now id toId content).2 =
        (s.messenger.insertChat (Messenger.sentChat now id toId content)).spawnDelivery
          (Messenger.sentChat now id toId content) := by
    intro hr
    simp [Messenger.sendChatItem, hr]
  constructor
  · intro ha hremote hfree
    have hnew : Messenger.sentChat now id toId content ∈
        (s.messenger.sendChatItem now id toId content).1.chats.rows := by
      rw [hrows, hfree]
      simp
    obtain ⟨task, htask, hid⟩ := ha _ hnew (sentChat_status.mpr hremote)
    rw [sentChat_id] at hid
    rcases List.mem_append.mp htask with hs | hs
    · left
      rw [Option.mem_toList, hspawn hremote] at hs
      exact spawnDelivery_isSome.mp (Option.isSome_of_mem hs)
    · exact .inr ⟨task, hs, hid⟩
  · intro hkeeps row hrow hp
    have hrow : row ∈ (s.messenger.sendChatItem now id toId content).1.chats.rows := hrow
    rw [hrows] at hrow
    rcases List.mem_append.mp hrow with hold | hnew
    · obtain ⟨task, htask, hid⟩ := h row hold hp
      exact ⟨task, List.mem_append_right _ htask, hid⟩
    · split at hnew
      · next hfree =>
        obtain rfl := List.mem_singleton.mp hnew
        have hremote := sentChat_status.mp hp
        rw [sentChat_id]
        rcases hkeeps hremote (Option.isNone_iff_eq_none.mp hfree) with hd | ⟨task, htask, hid⟩
        · have hsome := spawnDelivery_isSome
            (m := s.messenger.insertChat (Messenger.sentChat now id toId content)).mpr hd
          obtain ⟨task, htask⟩ := Option.isSome_iff_exists.mp hsome
          refine ⟨task, List.mem_append_left _ ?_, (chatId_spawnDelivery htask).trans sentChat_id⟩
          rw [Option.mem_toList, hspawn hremote]
          exact htask
        · exact ⟨task, List.mem_append_right _ htask, hid⟩
      · cases hnew

theorem attended_retry (h : s.Attended) :
    (s.spawned (s.messenger.retryChatItem now id)).Attended ↔
      s.KeepsAttended (.retryChatItem now id) := by
  cases hc : s.messenger.getChatById id with
  | none =>
    have hsame : s.spawned (s.messenger.retryChatItem now id) = s := by
      simp [spawned, Messenger.retryChatItem, hc]
    rw [hsame]
    refine iff_of_true h ?_
    intro chat hchat
    rw [hc] at hchat
    cases hchat
  | some chat =>
    have hchat := Table.find?_eq_some.mp hc
    have hretry : s.messenger.retryChatItem now id =
        (s.messenger.updateChatStatus id .pending now, s.messenger.spawnDelivery chat) := by
      simp only [Messenger.retryChatItem, hc]
    rw [hretry]
    constructor
    · intro ha chat' hchat'
      obtain rfl : chat = chat' := Option.some.inj (hc.symm.trans hchat')
      have hnew : { chat with status := .pending, updatedAt := now } ∈
          (s.messenger.updateChatStatus id .pending now).chats.rows :=
        List.mem_map.mpr ⟨chat, hchat.1, if_pos hchat.2⟩
      obtain ⟨task, htask, hid⟩ := ha _ hnew rfl
      rcases List.mem_append.mp htask with hs | hs
      · left
        exact spawnDelivery_isSome.mp (Option.isSome_of_mem (Option.mem_toList.mp hs))
      · exact .inr ⟨task, hs, hid.trans hchat.2⟩
    · intro hkeeps row hrow hp
      obtain ⟨old, hold, rfl⟩ := List.mem_map.mp hrow
      by_cases hid : old.id = id
      · rw [if_pos hid]
        rcases hkeeps chat hc with hd | ⟨task, htask, ht⟩
        · obtain ⟨task, htask⟩ := Option.isSome_iff_exists.mp (spawnDelivery_isSome.mpr hd)
          exact ⟨task, List.mem_append_left _ (Option.mem_toList.mpr htask),
            (chatId_spawnDelivery htask).trans (hchat.2.trans hid.symm)⟩
        · exact ⟨task, List.mem_append_right _ htask, ht.trans hid.symm⟩
      · rw [if_neg hid] at hp ⊢
        obtain ⟨task, htask, ht⟩ := h old hold hp
        exact ⟨task, List.mem_append_right _ htask, ht⟩

/-- The row of a task that is over is no longer pending; every other pending row keeps its task. -/
theorem attended_complete {index : Nat} {task : DeliveryTask} {result : DeliveryResult}
    {statusData : String} (h : s.Attended) (ht : s.running[index]? = some task) :
    Attended ⟨s.messenger.updateChatStatusAndData task.chatId result.status statusData now,
      s.running.eraseIdx index⟩ := by
  intro row hrow hp
  obtain ⟨old, hold, rfl⟩ := List.mem_map.mp hrow
  by_cases hid : old.id = task.chatId
  · rw [if_pos hid] at hp
    exact absurd hp (status_ne_pending result)
  · rw [if_neg hid] at hp ⊢
    obtain ⟨other, hother, hot⟩ := h old hold hp
    obtain ⟨i, hi⟩ := List.mem_iff_getElem?.mp hother
    refine ⟨other, List.mem_eraseIdx_iff_getElem?.mpr ⟨i, ?_, hi⟩, hot⟩
    rintro rfl
    rw [ht, Option.some.injEq] at hi
    exact hid (hot.symm.trans (hi ▸ rfl))

/-- An operation on peers or channels deletes chats, and writes none. -/
theorem rows_deleteChatsOf {a : DeviceAction} (h : row ∈ (m.deleteChatsOf a).chats.rows) :
    row ∈ m.chats.rows := by
  unfold Messenger.deleteChatsOf at h
  split at h
  · split at h
    · exact List.mem_of_mem_filter h
    · exact h
  · exact List.mem_of_mem_filter h
  · split at h
    · exact List.mem_of_mem_filter h
    · exact h
  · exact h

/-- In a state where every pending row is attended, a step keeps that exactly under its
condition. -/
theorem attended_next {a : ChatAction} (h : s.Attended) (hn : s.next d a = some t) :
    t.Attended ↔ s.KeepsAttended a := by
  cases a with
  | sendChatItem now id toId content =>
    cases hn
    exact attended_send h
  | retryChatItem now id =>
    cases hn
    exact attended_retry h
  | loadKeys index =>
    refine iff_of_true ?_ trivial
    obtain ⟨task, -, rfl⟩ := Option.map_eq_some_iff.mp hn
    unfold loadKeys
    split
    · exact h
    · split <;> exact h
  | complete index result statusData now =>
    refine iff_of_true ?_ trivial
    obtain ⟨task, htask, hn⟩ := Option.bind_eq_some_iff.mp hn
    split at hn
    · cases hn
      exact attended_complete h htask
    · cases hn
  | device action =>
    cases hn
    refine iff_of_true (attended_of_rows h (fun _ hs => hs) ?_) trivial
    intro row hrow hp
    exact ⟨row, rows_deleteChatsOf hrow, rfl, hp⟩
  | receivePeerChat now id fromId channelId content =>
    cases hn
    refine iff_of_true (attended_of_rows h (fun _ hs => hs) ?_) trivial
    intro row hrow hp
    have hrow : row ∈ (s.messenger.receivePeerChat now id fromId channelId content).1.chats.rows :=
      hrow
    rw [Messenger.rows_receivePeerChat] at hrow
    rcases List.mem_append.mp hrow with hold | hnew
    · exact ⟨row, hold, rfl, hp⟩
    · split at hnew
      · obtain rfl := List.mem_singleton.mp hnew
        cases hp
      · cases hnew
  | deleteChatItems query =>
    have hrows : ∀ row ∈ (s.messenger.deleteChatItems query).1.chats.rows,
        row ∈ s.messenger.chats.rows := fun row => Messenger.rows_deleteChatItems
    simp only [next, Option.some.injEq] at hn
    generalize (s.messenger.deleteChatItems query).1 = m at hn hrows
    subst hn
    refine iff_of_true (attended_of_rows h (fun _ hs => hs) ?_) trivial
    intro row hrow hp
    exact ⟨row, hrows row hrow, rfl, hp⟩
  | updateChatContent id content now =>
    cases hn
    refine iff_of_true (attended_of_rows h (fun _ hs => hs) ?_) trivial
    intro row hrow hp
    obtain ⟨old, hold, rfl⟩ := List.mem_map.mp hrow
    by_cases hid : old.id = id
    · rw [if_pos hid] at hp ⊢
      exact ⟨old, hold, rfl, hp⟩
    · rw [if_neg hid] at hp ⊢
      exact ⟨old, hold, rfl, hp⟩

theorem attendedAlong_iff {actions : List ChatAction} (h : s.Attended) :
    AttendedAlong d s actions ↔ KeptAlong d s actions := by
  induction actions generalizing s with
  | nil => exact Iff.rfl
  | cons a actions ih =>
    constructor
    · intro ha t hn
      obtain ⟨ht, hrest⟩ := ha t hn
      exact ⟨(attended_next h hn).mp ht, (ih ht).mp hrest⟩
    · intro hk t hn
      obtain ⟨ht, hrest⟩ := hk t hn
      have hat := (attended_next h hn).mpr ht
      exact ⟨hat, (ih hat).mpr hrest⟩

/-- A process that starts on a database in which no row is pending. -/
structure Started (s : Deliveries) : Prop where
  running : s.running = []
  settled : ∀ row ∈ s.messenger.chats.rows, row.status ≠ .pending

/-- From the start of a process on, over any run, every pending row is attended after each action
exactly when each action met its condition. -/
theorem pendingAttended_iff (d : Dalek) (s : Deliveries) (h : s.Started)
    (actions : List ChatAction) : AttendedAlong d s actions ↔ KeptAlong d s actions :=
  attendedAlong_iff fun row hrow hp => absurd hp (h.settled row hrow)

def demoDeliveries : Deliveries := ⟨⟨demoAlice, Table.empty⟩, []⟩

theorem demoDeliveries_started : demoDeliveries.Started := ⟨rfl, by simp [demoDeliveries, Table.empty]⟩

theorem sendToBob_attended_iff :
    AttendedAlong checksumDalek demoDeliveries [.sendChatItem "t1" "m1" "peer:bob" "hi"] ↔
      KeptAlong checksumDalek demoDeliveries [.sendChatItem "t1" "m1" "peer:bob" "hi"] :=
  pendingAttended_iff checksumDalek demoDeliveries demoDeliveries_started
    [.sendChatItem "t1" "m1" "peer:bob" "hi"]

/-- A message to a peer that is not stored stays pending with no delivery running. -/
theorem unknownPeer_staysPending : ¬ ∀ (d : Dalek) (s : Deliveries), s.Started →
    ∀ actions, AttendedAlong d s actions := by
  intro hall
  have ha := (hall checksumDalek demoDeliveries demoDeliveries_started
    [.sendChatItem "t1" "m1" "peer:carol" "hi"] _ rfl).1
  have hrow : Messenger.sentChat "t1" "m1" "peer:carol" "hi" ∈
      (demoDeliveries.messenger.sendChatItem "t1" "m1" "peer:carol" "hi").1.chats.rows := by
    decide +kernel
  obtain ⟨task, htask, -⟩ := ha _ hrow (by decide +kernel)
  have hnone : (demoDeliveries.spawned
      (demoDeliveries.messenger.sendChatItem "t1" "m1" "peer:carol" "hi")).running.isEmpty = true := by
    decide +kernel
  rw [List.isEmpty_iff.mp hnone] at htask
  cases htask

end Deliveries

end PlainRs.Chat
