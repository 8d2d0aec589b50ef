import PlainRs.Base.Keyed
import PlainRs.Chat.Enums
import PlainRs.Crypto.Ed25519

/-! The chat database: the `peers` and `chat_channels` tables and their queries. -/
namespace PlainRs.Chat

open Keyed PlainRs.Crypto PlainRs.Utils

structure DPeer where
  id : String
  name : String
  ip : String
  key : String
  publicKey : String
  status : PeerStatus
  port : UInt16
  deviceType : DeviceType
  token : String
  createdAt : String
  updatedAt : String
  deriving DecidableEq

def DPeer.new (id name ip : String) (port : UInt16) (deviceType : DeviceType) (now : String) :
    DPeer where
  id := id
  name := name
  ip := ip
  key := ""
  publicKey := ""
  status := .unpaired
  port := port
  deviceType := deviceType
  token := ""
  createdAt := now
  updatedAt := now

def DPeer.isPaired (p : DPeer) : Bool := p.status = .paired

/-- The first of the addresses, which are kept with the most recent one in front. -/
def DPeer.bestIp (p : DPeer) : String :=
  Text.trim (String.ofList (p.ip.toList.takeWhile (· ≠ ',')))

/-- A row of `peers`, the enums as their stored texts and the port as an SQL integer. -/
structure PeerRow where
  id : String
  name : String
  ip : String
  key : String
  publicKey : String
  status : String
  port : Int
  deviceType : String
  token : String
  createdAt : String
  updatedAt : String

/-- `row_to_peer`, which fails on a status or a device type it cannot read. -/
def rowToPeer (row : PeerRow) : Option DPeer :=
  (PeerStatus.fromStr row.status).bind fun s =>
    (DeviceType.fromStr row.deviceType).map fun t =>
      { row with status := s, port := UInt16.ofInt row.port, deviceType := t }

def peerToRow (peer : DPeer) : PeerRow :=
  { peer with
    status := peer.status.asStr
    port := peer.port.toNat
    deviceType := peer.deviceType.asStr }

/-- A row reads when both of its enums do. -/
theorem rowToPeer_eq_some {row : PeerRow} {peer : DPeer} : rowToPeer row = some peer ↔
    ∃ s t, PeerStatus.fromStr row.status = some s ∧ DeviceType.fromStr row.deviceType = some t ∧
      { row with status := s, port := UInt16.ofInt row.port, deviceType := t } = peer := by
  simp [rowToPeer, Option.bind_eq_some_iff, Option.map_eq_some_iff]

/-- A member of a roster, kept in the channel's row as JSON. -/
structure ChannelMember where
  peerId : String
  status : MemberStatus
  deriving DecidableEq

structure DChannel where
  id : String
  name : String
  ownerId : String
  members : List ChannelMember
  key : String
  version : Int
  status : ChannelStatus
  createdAt : String
  updatedAt : String
  deriving DecidableEq

/-- `DChannel::new` with the random id and the clock reading given. -/
def DChannel.new (id name owner now : String) : DChannel where
  id := id
  name := name
  ownerId := owner
  members := []
  key := ""
  version := 1
  status := .joined
  createdAt := now
  updatedAt := now

structure ChatDb where
  peers : Table PeerRow PeerRow.id
  channels : Table DChannel DChannel.id

namespace ChatDb

def getPeerById (db : ChatDb) (id : String) : Option DPeer := (db.peers.find? id).bind rowToPeer

/-- An insert that overwrites the row of the same id, `created_at` apart. -/
def upsertPeer (db : ChatDb) (peer : DPeer) : ChatDb :=
  { db with
    peers := db.peers.upsert (peerToRow peer)
      (fun row => { peerToRow peer with id := row.id, createdAt := row.createdAt })
      fun _ => rfl }

def updatePeerStatusAndKey (db : ChatDb) (id : String) (status : PeerStatus) (key now : String) :
    ChatDb :=
  { db with
    peers := db.peers.modify id
      (fun row => { row with status := status.asStr, key := key, updatedAt := now }) fun _ => rfl }

def updatePeerStatus (db : ChatDb) (id : String) (status : PeerStatus) (now : String) : ChatDb :=
  { db with
    peers := db.peers.modify id
      (fun row => { row with status := status.asStr, updatedAt := now }) fun _ => rfl }

def deletePeer (db : ChatDb) (id : String) : ChatDb := { db with peers := db.peers.erase id }

/-- The rows in the order of their names, those that cannot be read left out. -/
def getPeers (db : ChatDb) : List DPeer :=
  (db.peers.rows.insertionSort fun a b => a.name ≤ b.name).filterMap rowToPeer

/-- The row a login inserts; a chat key makes the peer a paired one. -/
def loginRow (id name ip : String) (port : UInt16) (deviceType : DeviceType)
    (token signaturePublicKey chatKey now : String) : PeerRow where
  id := id
  name := name
  ip := ip
  key := chatKey
  publicKey := signaturePublicKey
  status := if chatKey ≠ "" then "PAIRED" else "UNPAIRED"
  port := port.toNat
  deviceType := deviceType.asStr
  token := token
  createdAt := now
  updatedAt := now

/-- What a login makes of a row that is there: what it leaves empty stays. -/
def loginMerge (excluded row : PeerRow) : PeerRow :=
  { row with
    token := excluded.token
    ip := excluded.ip
    port := excluded.port
    name := if excluded.name ≠ "" then excluded.name else row.name
    deviceType := if excluded.deviceType ≠ "" then excluded.deviceType else row.deviceType
    publicKey := if excluded.publicKey ≠ "" then excluded.publicKey else row.publicKey
    key := if excluded.key ≠ "" then excluded.key else row.key
    status := if excluded.key ≠ "" then "PAIRED" else row.status
    updatedAt := excluded.updatedAt }

def loginPeer (db : ChatDb) (id name ip : String) (port : UInt16) (deviceType : DeviceType)
    (token signaturePublicKey chatKey now : String) : ChatDb :=
  let excluded := loginRow id name ip port deviceType token signaturePublicKey chatKey now
  { db with peers := db.peers.upsert excluded (loginMerge excluded) fun _ => rfl }

def getChannelById (db : ChatDb) (id : String) : Option DChannel := db.channels.find? id

/-- A channel whose id is taken is not inserted; the error is dropped. -/
def insertChannel (db : ChatDb) (channel : DChannel) : ChatDb :=
  { db with channels := db.channels.insert channel }

def updateChannel (db : ChatDb) (channel : DChannel) : ChatDb :=
  { db with
    channels := db.channels.modify channel.id
      (fun row => { channel with id := row.id, createdAt := row.createdAt }) fun _ => rfl }

def deleteChannel (db : ChatDb) (id : String) : ChatDb :=
  { db with channels := db.channels.erase id }

def anyChannelHasMember (db : ChatDb) (peerId : String) : Bool :=
  db.channels.rows.any fun ch =>
    ch.status = .joined && ch.members.any fun m => m.peerId = peerId

variable {db : ChatDb} {peer p : DPeer} {ch : DChannel} {id k : String}

@[simp] theorem getPeerById_insertChannel :
    (db.insertChannel ch).getPeerById k = db.getPeerById k := rfl

@[simp] theorem getPeerById_updateChannel :
    (db.updateChannel ch).getPeerById k = db.getPeerById k := rfl

@[simp] theorem getPeerById_deleteChannel :
    (db.deleteChannel id).getPeerById k = db.getPeerById k := rfl

@[simp] theorem getChannelById_upsertPeer :
    (db.upsertPeer peer).getChannelById k = db.getChannelById k := rfl

@[simp] theorem getChannelById_updatePeerStatusAndKey {s : PeerStatus} {key now : String} :
    (db.updatePeerStatusAndKey id s key now).getChannelById k = db.getChannelById k := rfl

@[simp] theorem getChannelById_deletePeer :
    (db.deletePeer id).getChannelById k = db.getChannelById k := rfl

theorem id_of_getChannelById (h : db.getChannelById k = some ch) : ch.id = k :=
  Table.key_of_find? h

theorem id_of_getPeerById (h : db.getPeerById k = some p) : p.id = k := by
  obtain ⟨row, hr, hp⟩ := Option.bind_eq_some_iff.mp h
  obtain ⟨s, t, -, -, rfl⟩ := rowToPeer_eq_some.mp hp
  have hid : row.id = k := Table.key_of_find? hr
  exact hid

/-- Writing back a channel read under its id replaces the row, `created_at` apart. -/
theorem getChannelById_updateChannel (h : db.getChannelById ch.id = some c) :
    (db.updateChannel ch).getChannelById k =
      if k = ch.id then some { ch with createdAt := c.createdAt } else db.getChannelById k := by
  have hc := id_of_getChannelById h
  unfold getChannelById at h ⊢
  simp only [updateChannel, Table.find?_modify]
  split
  · next hk =>
    subst hk
    simp [h, hc]
  · rfl

/-- A row read, changed and written back is the stored row. -/
theorem getChannelById_writeBack (h : db.getChannelById ch.id = some c)
    (hc : ch.createdAt = c.createdAt) :
    (db.updateChannel ch).getChannelById k =
      if k = ch.id then some ch else db.getChannelById k := by
  rw [getChannelById_updateChannel h, ← hc]

theorem getChannelById_insertChannel (h : db.getChannelById ch.id = none) :
    (db.insertChannel ch).getChannelById k =
      if k = ch.id then some ch else db.getChannelById k :=
  Table.find?_insert_of_none h

theorem insertChannel_of_some (h : db.getChannelById ch.id = some c) : db.insertChannel ch = db := by
  simp [insertChannel, Table.insert_of_some h]

theorem getChannelById_deleteChannel :
    (db.deleteChannel id).getChannelById k = if k = id then none else db.getChannelById k :=
  Table.find?_erase

/-- A port survives the way through an `i64`. -/
theorem ofInt_toNat (port : UInt16) : UInt16.ofInt port.toNat = port := by
  have hlt := port.toNat_lt
  rw [UInt16.ofInt, Int.emod_eq_of_lt (by omega) (by omega), Int.toNat_natCast, UInt16.ofNat_toNat]

theorem rowToPeer_peerToRow (h : peer.deviceType ≠ .nas) : rowToPeer (peerToRow peer) = some peer := by
  simp [rowToPeer, peerToRow, DeviceType.fromStr_asStr, h, ofInt_toNat]

/-- A peer stored under another id is not touched. -/
theorem getPeerById_upsertPeer_ne (h : k ≠ peer.id) :
    (db.upsertPeer peer).getPeerById k = db.getPeerById k := by
  have hk : k ≠ (peerToRow peer).id := h
  simp only [getPeerById, upsertPeer, Table.find?_upsert, if_neg hk]

/-- A stored peer reads back, with the first `created_at`, unless its device type is `nas`. -/
theorem getPeerById_upsertPeer_self (h : peer.deviceType ≠ .nas) :
    (db.upsertPeer peer).getPeerById peer.id =
      some { peer with createdAt := (db.peers.find? peer.id).elim peer.createdAt (·.createdAt) } := by
  have hk : peer.id = (peerToRow peer).id := rfl
  simp only [getPeerById, upsertPeer, Table.find?_upsert, if_pos hk, Option.bind_some]
  cases hr : db.peers.find? peer.id with
  | none => exact rowToPeer_peerToRow h
  | some row =>
    have hid : row.id = peer.id := Table.key_of_find? hr
    have he : peerToRow { peer with createdAt := row.createdAt } =
        { peerToRow peer with id := row.id, createdAt := row.createdAt } := by
      rw [hid]
      rfl
    rw [Option.elim_some, ← he]
    exact rowToPeer_peerToRow h

theorem getPeerById_upsertPeer_nas (h : peer.deviceType = .nas) :
    (db.upsertPeer peer).getPeerById peer.id = none := by
  have hk : peer.id = (peerToRow peer).id := rfl
  simp only [getPeerById, upsertPeer, Table.find?_upsert, if_pos hk, Option.bind_some]
  have hnas : DeviceType.fromStr peer.deviceType.asStr = none := by
    rw [DeviceType.fromStr_asStr, if_pos h]
  cases db.peers.find? peer.id <;> simp [rowToPeer, peerToRow, hnas]

end ChatDb

end PlainRs.Chat
