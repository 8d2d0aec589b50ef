import PlainRs.Chat.Channel.Messages

/-! The state of a chat service: its database, its identity and the key caches. -/
namespace PlainRs.Chat

open Keyed PlainRs.Crypto PlainRs.Utils

structure ChatIdentity where
  clientId : String
  deviceName : String
  ed25519Keypair : String

abbrev KeyCache := String → Option Bytes

structure ChatService where
  db : ChatDb
  identity : ChatIdentity
  wireDeviceType : DeviceType
  peerKeyCache : KeyCache
  channelKeyCache : KeyCache

/-- A push to the local web clients. -/
inductive ChatEvent
  | channelsUpdated (channels : List DChannel)
  | channelInviteReceived (channelId channelName fromId fromName : String)
  | peerStatusUpdated (id : String) (online : Bool)

/-- A request handed to the transport: the receiver, the `c-id` and `c-cid` headers, the key
the body is encrypted with, and the message in it. -/
structure Post where
  peer : DPeer
  clientId : String
  channelId : Option String
  key : Bytes
  message : ChannelSystemMessage
  deriving DecidableEq

/-- What a handler or an operation leaves behind. -/
structure Outcome (α : Type) where
  service : ChatService
  result : α
  posts : List Post
  events : List ChatEvent

/-- The 32 bytes a stored key decodes to, if it does. -/
def rawKey (key : String) : Option Bytes :=
  if (base64Decode key).length = 32 then some (base64Decode key) else none

def peerCacheEntry (p : DPeer) : Option Bytes :=
  if p.key ≠ "" ∧ p.isPaired then rawKey p.key else none

def channelCacheEntry (ch : DChannel) : Option Bytes := if ch.key ≠ "" then rawKey ch.key else none

/-- Joined channels in the order of their names, as the web client is told. -/
def channelsUpdatedPayload (db : ChatDb) : List DChannel :=
  (db.channels.rows.filter fun ch => ch.status = .joined).insertionSort fun a b => a.name ≤ b.name

namespace ChatService

variable (svc : ChatService)

def kpBytes : Bytes := base64Decode svc.identity.ed25519Keypair

def refreshPeerKeyCache : ChatService :=
  { svc with peerKeyCache := svc.db.peers.toMap fun row => (rowToPeer row).bind peerCacheEntry }

def loadKeyCache : ChatService :=
  { svc.refreshPeerKeyCache with channelKeyCache := svc.db.channels.toMap channelCacheEntry }

def channelsUpdated : ChatEvent := .channelsUpdated (channelsUpdatedPayload svc.db)

/-- The outcome of a check that fails before anything is written. -/
def unchanged {α : Type} (result : α) : Outcome α := ⟨svc, result, [], []⟩

def deletePeer (id now : String) : Outcome Bool :=
  match svc.db.getPeerById id with
  | none => svc.unchanged false
  | some _ =>
    let db :=
      if svc.db.anyChannelHasMember id then svc.db.updatePeerStatusAndKey id .channel "" now
      else svc.db.deletePeer id
    ⟨({ svc with db := db } : ChatService).refreshPeerKeyCache, true, [],
      [.peerStatusUpdated id false]⟩

/-- The shared key stays in the row, for a pairing to come. -/
def unpairPeer (id now : String) : Outcome Bool :=
  match svc.db.getPeerById id with
  | none => svc.unchanged false
  | some _ =>
    ⟨({ svc with db := svc.db.updatePeerStatus id .unpaired now } : ChatService).refreshPeerKeyCache,
      true, [], [.peerStatusUpdated id false]⟩

variable {svc}

@[simp] theorem db_refreshPeerKeyCache : svc.refreshPeerKeyCache.db = svc.db := rfl

@[simp] theorem identity_refreshPeerKeyCache :
    svc.refreshPeerKeyCache.identity = svc.identity := rfl

@[simp] theorem db_loadKeyCache : svc.loadKeyCache.db = svc.db := rfl

@[simp] theorem identity_loadKeyCache : svc.loadKeyCache.identity = svc.identity := rfl

@[simp] theorem service_unchanged {α : Type} {r : α} : (svc.unchanged r).service = svc := rfl

@[simp] theorem result_unchanged {α : Type} {r : α} : (svc.unchanged r).result = r := rfl

@[simp] theorem posts_unchanged {α : Type} {r : α} : (svc.unchanged r).posts = [] := rfl

@[simp] theorem kpBytes_loadKeyCache : svc.loadKeyCache.kpBytes = svc.kpBytes := rfl

@[simp] theorem kpBytes_refreshPeerKeyCache : svc.refreshPeerKeyCache.kpBytes = svc.kpBytes := rfl

theorem peerKeyCache_refresh {id : String} : svc.refreshPeerKeyCache.peerKeyCache id =
    (svc.db.getPeerById id).bind peerCacheEntry := by
  simp only [refreshPeerKeyCache, Table.toMap, ChatDb.getPeerById, Option.bind_assoc]

theorem peerKeyCache_load {id : String} : svc.loadKeyCache.peerKeyCache id =
    (svc.db.getPeerById id).bind peerCacheEntry := peerKeyCache_refresh

theorem channelKeyCache_load {id : String} : svc.loadKeyCache.channelKeyCache id =
    (svc.db.getChannelById id).bind channelCacheEntry := rfl

theorem getChannelById_deletePeer {id now k : String} :
    (svc.deletePeer id now).service.db.getChannelById k = svc.db.getChannelById k := by
  unfold deletePeer
  split
  · rfl
  · simp only [db_refreshPeerKeyCache]
    split <;> simp

theorem identity_deletePeer {id now : String} :
    (svc.deletePeer id now).service.identity = svc.identity := by
  unfold deletePeer
  split <;> rfl

end ChatService

/-- The keypair of an example device. -/
def demoKeypair (n : UInt8) : Bytes := List.replicate 64 n

/-- A peer paired under a key of 32 equal bytes. -/
def demoPeer (id : String) (n key : UInt8) : DPeer :=
  { DPeer.new id id "10.0.0.2" 8443 .phone "" with
    key := base64Encode (List.replicate 32 key)
    publicKey := base64Encode ((demoKeypair n).drop 32)
    status := .paired }

/-- An example device without channels. -/
def demoService (clientId : String) (n : UInt8) (peers : List DPeer) : ChatService :=
  let db := peers.foldl ChatDb.upsertPeer ⟨Table.empty, Table.empty⟩
  ({ db := db
     identity := ⟨clientId, clientId, base64Encode (demoKeypair n)⟩
     wireDeviceType := .computer
     peerKeyCache := fun _ => none
     channelKeyCache := fun _ => none } : ChatService).loadKeyCache

def demoAlice : ChatService := demoService "alice" 1 [demoPeer "bob" 2 9]

def demoBob : ChatService := demoService "bob" 2 [demoPeer "alice" 1 9]

/-- A channel of Alice's with Bob in it. -/
def demoTeam (version : Int) : DChannel :=
  { DChannel.new "c" "Team" "alice" "t1" with
    members := [.new "alice", .new "bob"]
    key := base64Encode (List.replicate 32 7)
    version := version }

theorem keypair_demoService {clientId : String} {n : UInt8} {peers : List DPeer} :
    checksumDalek.Keypair (demoService clientId n peers).kpBytes := by
  have h : (demoService clientId n peers).kpBytes = demoKeypair n := base64Decode_encode _
  rw [h]
  exact ⟨by simp [demoKeypair], rfl⟩

theorem channels_demoService {clientId : String} {n : UInt8} {peers : List DPeer} :
    (demoService clientId n peers).db.channels = Table.empty := by
  have h : ∀ db : ChatDb, (peers.foldl ChatDb.upsertPeer db).channels = db.channels := by
    induction peers with
    | nil => exact fun _ => rfl
    | cons p ps ih => exact fun db => ih _
  exact h _

theorem peerCacheEntry_demoPeer {id : String} {n key : UInt8} :
    peerCacheEntry (demoPeer id n key) = some (List.replicate 32 key) := by
  have hkey : (demoPeer id n key).key = base64Encode (List.replicate 32 key) := rfl
  have hne : (demoPeer id n key).key ≠ "" := by
    rw [hkey, Ne, base64Encode_eq_empty]
    simp
  rw [peerCacheEntry, if_pos ⟨hne, rfl⟩, rawKey, hkey, base64Decode_encode,
    if_pos List.length_replicate]

theorem peerKeyCache_demoService {clientId id : String} {m n key : UInt8} {peers : List DPeer}
    (h : (demoService clientId m peers).db.getPeerById id = some (demoPeer id n key)) :
    (demoService clientId m peers).peerKeyCache id = some (List.replicate 32 key) := by
  refine ChatService.peerKeyCache_load.trans ?_
  exact (congrArg (·.bind peerCacheEntry) h).trans peerCacheEntry_demoPeer

theorem getPeerById_demoService {clientId id : String} {m n key : UInt8} :
    (demoService clientId m [demoPeer id n key]).db.getPeerById id = some (demoPeer id n key) :=
  (ChatDb.getPeerById_upsertPeer_self (show DeviceType.phone ≠ .nas by decide)).trans rfl

end PlainRs.Chat
