import PlainRs.Base.Commas
import PlainRs.Base.Statements
import PlainRs.Chat.Channel.Device
import PlainRs.Utils.Url

/-! The chat rows of a device: sending, retrying, receiving and deleting them. -/
namespace PlainRs.Chat

open Keyed PlainRs.Crypto PlainRs.Utils

/-- `partly` is the source's `Partial`. -/
inductive ChatStatus
  | sent | failed | partly | pending
  deriving DecidableEq, Repr

structure DChat where
  id : String
  fromId : String
  toId : String
  channelId : String
  content : String
  status : ChatStatus
  statusData : String
  createdAt : String
  updatedAt : String
  deriving DecidableEq

/-- `DChat::new` with the random id and the clock reading given. -/
def DChat.new (now id fromId toId channelId content : String) : DChat where
  id := id
  fromId := fromId
  toId := toId
  channelId := channelId
  content := content
  status := .sent
  statusData := ""
  createdAt := now
  updatedAt := now

/-- A chat service with the `chats` table of its database. -/
structure Messenger where
  service : ChatService
  chats : Table DChat DChat.id

/-- Where a spawned delivery goes, with what it has read of the database. -/
inductive DeliveryTarget
  | peer (peer : DPeer) (key : Bytes)
  | channel (channel : DChannel)

/-- A spawned delivery; it writes the status of its chat when it is done. -/
structure DeliveryTask where
  chatId : String
  target : DeliveryTarget

/-- What a delivery comes back with: the result of `deliver_to_peer`, or the `SendResult` of a
channel, which is one result for each recipient, or no leader at all. -/
inductive DeliveryResult
  | peer (result : Except String Unit)
  | channel (results : List (Option String))
  | noLeader

/-- `compute_status` of the errors of the recipients. -/
def computeStatus (errors : List (Option String)) : ChatStatus :=
  if errors = [] then .sent
  else
    let failed := (errors.filter Option.isSome).length
    if failed = 0 then .sent
    else if failed = errors.length then .failed
    else .partly

def DeliveryResult.status : DeliveryResult → ChatStatus
  | .peer (.ok ()) => .sent
  | .peer (.error _) => .failed
  | .channel results => computeStatus results
  | .noLeader => .failed

/-- `str::strip_prefix`. -/
def stripPrefix (pre s : String) : Option String :=
  if pre.toList <+: s.toList then some (String.ofList (s.toList.drop pre.length)) else none

namespace Messenger

section

variable (m : Messenger)

/-- An insert of an id that is taken fails, and the error is dropped. -/
def insertChat (chat : DChat) : Messenger := { m with chats := m.chats.insert chat }

def getChatById (id : String) : Option DChat := m.chats.find? id

def updateChatStatus (id : String) (status : ChatStatus) (now : String) : Messenger :=
  { m with
    chats := m.chats.modify id (fun row => { row with status := status, updatedAt := now })
      fun _ => rfl }

def updateChatStatusAndData (id : String) (status : ChatStatus) (statusData now : String) :
    Messenger :=
  { m with
    chats := m.chats.modify id
      (fun row => { row with status := status, statusData := statusData, updatedAt := now })
      fun _ => rfl }

def updateChatContent (id content now : String) : Messenger :=
  { m with
    chats := m.chats.modify id (fun row => { row with content := content, updatedAt := now })
      fun _ => rfl }

def deleteChatsByChannel (channelId : String) : Messenger :=
  { m with chats := m.chats.filter fun c => c.channelId ≠ channelId }

def deleteChatsByPeer (peerId : String) : Messenger :=
  { m with
    chats := m.chats.filter fun c =>
      ¬ (c.channelId = "" ∧ (c.toId = peerId ∨ c.fromId = peerId)) }

/-- Nothing is spawned without a readable peer and a 32-byte key, cached or stored. -/
def spawnPeerDelivery (chat : DChat) : Option DeliveryTask :=
  match m.service.db.getPeerById chat.toId with
  | none => none
  | some peer =>
    match (m.service.peerKeyCache chat.toId).or (rawKey peer.key) with
    | none => none
    | some key => some ⟨chat.id, .peer peer key⟩

def spawnChannelDelivery (chat : DChat) : Option DeliveryTask :=
  match m.service.db.getChannelById chat.channelId with
  | none => none
  | some channel => some ⟨chat.id, .channel channel⟩

def spawnDelivery (chat : DChat) : Option DeliveryTask :=
  if chat.toId = "local" then none
  else if chat.toId ≠ "" ∧ chat.channelId = "" then m.spawnPeerDelivery chat
  else if chat.channelId ≠ "" then m.spawnChannelDelivery chat
  else none

/-- A target that a delivery is attempted for. -/
def isRemote (toId : String) : Bool :=
  (match stripPrefix "peer:" toId with
    | some peerId => peerId ≠ "" && peerId ≠ "local"
    | none => false) || (stripPrefix "channel:" toId).isSome

/-- The row that `send_chat_item` inserts. -/
def sentChat (now id toId content : String) : DChat :=
  let receiver := match stripPrefix "peer:" toId with
    | some peerId => peerId
    | none => if (stripPrefix "channel:" toId).isSome then "" else toId
  let chat := DChat.new now id "me" receiver ((stripPrefix "channel:" toId).getD "") content
  if isRemote toId then { chat with status := .pending } else chat

def sendChatItem (now id toId content : String) : Messenger × Option DeliveryTask :=
  let chat := sentChat now id toId content
  let m := m.insertChat chat
  (m, if isRemote toId then m.spawnDelivery chat else none)

/-- The row goes back to `PENDING` whatever its target is. -/
def retryChatItem (now id : String) : Messenger × Option DeliveryTask :=
  match m.getChatById id with
  | none => (m, none)
  | some chat => ((m.updateChatStatus id .pending now), m.spawnDelivery chat)

def getChatsByChannel (channelId : String) : List DChat :=
  (m.chats.rows.filter fun c => c.channelId = channelId).insertionSort
    fun c d => c.createdAt ≤ d.createdAt

def getChatsByPeer (peerId : String) : List DChat :=
  (m.chats.rows.filter fun c => c.channelId = "" ∧ (c.toId = peerId ∨ c.fromId = peerId)).insertionSort
    fun c d => c.createdAt ≤ d.createdAt

def deleteChatsByIds (ids : List String) : Messenger :=
  { m with chats := m.chats.deleteIn DChat.id ids }

/-- The ids that a query `ids:..`, `channel:..` or `peer:..` stands for. -/
def resolveChatIds (query : String) : List String :=
  match splitOnce ':' (Text.trim query).toList with
  | none => []
  | some (name, value) =>
    let value := String.ofList value
    if name = "ids".toList then Text.commaPieces value
    else if name = "channel".toList then (m.getChatsByChannel value).map DChat.id
    else if name = "peer".toList then (m.getChatsByPeer value).map DChat.id
    else []

/-- The number of chats it reports and the payload of its event go with what it leaves. -/
def deleteChatItems (query : String) : Messenger × Int × Option String :=
  let ids := m.resolveChatIds query
  if ids = [] then (m, 0, none)
  else (m.deleteChatsByIds ids, (ids.length : Int).bmod (2 ^ 32), some ("ids=" ++ ",".intercalate ids))

/-- The channel's own status is all that the gate looks at. -/
def channelOpen (channelId : String) : Bool :=
  match m.service.db.getChannelById channelId with
  | some ch => ch.status = .joined ∨ ch.status = .kicked
  | none => false

/-- A message the gate drops is answered with a row that is not stored. -/
def receivePeerChat (now id fromId channelId content : String) : Messenger × DChat :=
  if channelId ≠ "" ∧ m.channelOpen channelId = false then
    (m, DChat.new now id fromId "" channelId content)
  else
    let chat := DChat.new now id fromId (if channelId = "" then "me" else "") channelId content
    (m.insertChat chat, chat)

/-- The chats that an operation on a peer or a channel deletes, before it does the rest. -/
def deleteChatsOf : DeviceAction → Messenger
  | .deletePeer id _ => if (m.service.db.getPeerById id).isSome then m.deleteChatsByPeer id else m
  | .deleteChannel id _ => m.deleteChatsByChannel id
  | .declineChannelInvite id =>
    if (m.service.db.getChannelById id).isSome then m.deleteChatsByChannel id else m
  | _ => m

/-- An operation or a received message, on the chats as well. -/
def act (d : Dalek) (a : DeviceAction) : Messenger :=
  { m.deleteChatsOf a with service := (m.service.act d a).1 }

end

variable {m : Messenger} {now id fromId channelId content : String}

@[simp] theorem service_receivePeerChat :
    (m.receivePeerChat now id fromId channelId content).1.service = m.service := by
  unfold receivePeerChat
  split <;> rfl

/-- The row a received message is stored as. -/
def receivedChat (now id fromId channelId content : String) : DChat :=
  DChat.new now id fromId (if channelId = "" then "me" else "") channelId content

theorem rows_insertChat (m : Messenger) (chat : DChat) : (m.insertChat chat).chats.rows =
    m.chats.rows ++ if (m.getChatById chat.id).isNone then [chat] else [] := by
  unfold insertChat getChatById
  cases hid : m.chats.find? chat.id with
  | none => simp [Table.insert, hid]
  | some row => simp [Table.insert_of_some hid]

/-- A received message is one row more, where it passes the gate and its id is not taken. -/
theorem rows_receivePeerChat (m : Messenger) (now id fromId channelId content : String) :
    (m.receivePeerChat now id fromId channelId content).1.chats.rows = m.chats.rows ++
      if (channelId = "" || m.channelOpen channelId) && (m.getChatById id).isNone then
        [receivedChat now id fromId channelId content]
      else [] := by
  unfold receivePeerChat
  split
  · next hgate => simp [hgate.1, hgate.2]
  · next hgate =>
    have hopen : (channelId = "" || m.channelOpen channelId) = true := by
      by_cases hc : channelId = ""
      · simp [hc]
      · simpa [hc] using hgate
    rw [hopen, Bool.true_and]
    exact rows_insertChat m _

theorem rows_deleteChatItems {query : String} {row : DChat}
    (h : row ∈ (m.deleteChatItems query).1.chats.rows) : row ∈ m.chats.rows := by
  by_cases hids : m.resolveChatIds query = []
  · rwa [deleteChatItems, if_pos hids] at h
  · rw [deleteChatItems, if_neg hids, deleteChatsByIds, Table.mem_deleteIn] at h
    exact h.1

@[simp] theorem service_sendChatItem {toId : String} :
    (m.sendChatItem now id toId content).1.service = m.service := rfl

end Messenger

end PlainRs.Chat
