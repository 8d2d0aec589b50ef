import PlainRs.Chat.Service

/-! Building and posting the channel system messages. -/
namespace PlainRs.Chat

open PlainRs.Crypto PlainRs.Utils

/-- The raw public half of a 64-byte keypair as Base64, else empty. -/
def selfPublicKey (kpBytes : Bytes) : String :=
  if kpBytes.length = 64 then base64Encode (kpBytes.drop 32) else ""

/-- `deliver_type`: the peer's cached shared key when it has one of its own, else the channel key
under a `c-cid` header. Nothing is posted without a key the cipher takes. -/
def deliverType (peer : DPeer) (clientId : String) (message : ChannelSystemMessage)
    (channelId : String) (channelKey : Bytes) (keyCache : KeyCache) : List Post :=
  if peer.key ≠ "" then
    match keyCache peer.id with
    | some k => if k.length = 32 then [⟨peer, clientId, none, k, message⟩] else []
    | none => []
  else if channelKey.length = 32 then [⟨peer, clientId, some channelId, channelKey, message⟩]
  else []

/-- The sender first, then every other member of the roster that has a peer row. -/
def buildMemberPeers (channel : DChannel) (db : ChatDb) (clientId deviceName : String)
    (selfDeviceType : DeviceType) (kpBytes : Bytes) : List MemberPeerInfo :=
  ⟨clientId, deviceName, selfPublicKey kpBytes, selfDeviceType, "", 0⟩ ::
    channel.members.filterMap fun m =>
      if m.peerId = clientId then none
      else (db.getPeerById m.peerId).map fun p =>
        ⟨p.id, p.name, p.publicKey, p.deviceType, p.ip, p.port⟩

def memberIdsExcluding (channel : DChannel) (excludeId : String) : List String :=
  channel.members.filterMap fun m => if m.peerId = excludeId then none else some m.peerId

section

variable (d : Dalek) (svc : ChatService)

def signedAction (channelId : String) (version : Int) (action : ChannelSystemMessageAction)
    (target : String) : String :=
  ed25519Sign d svc.kpBytes (Text.bytes (channelMessagePayload channelId version action target))

def inviteMessage (channel : DChannel) (peer : DPeer) : ChannelInvite where
  channelId := channel.id
  channelName := channel.name
  key := channel.key
  owner := svc.identity.clientId
  members := channel.members
  memberPeers := buildMemberPeers channel svc.db svc.identity.clientId svc.identity.deviceName
    svc.wireDeviceType svc.kpBytes
  version := channel.version
  signature := signedAction d svc channel.id channel.version .invite peer.id

def sendInvite (channel : DChannel) (peer : DPeer) : List Post :=
  deliverType peer svc.identity.clientId (.invite (inviteMessage d svc channel peer)) channel.id
    (base64Decode channel.key) svc.peerKeyCache

def sendInviteAccept (channel : DChannel) (ownerPeer : DPeer) : List Post :=
  deliverType ownerPeer svc.identity.clientId
    (.inviteAccept ⟨channel.id, selfPublicKey svc.kpBytes, svc.identity.deviceName,
      svc.wireDeviceType⟩)
    channel.id (base64Decode channel.key) svc.peerKeyCache

def sendInviteDecline (channel : DChannel) (ownerPeer : DPeer) : List Post :=
  deliverType ownerPeer svc.identity.clientId (.inviteDecline ⟨channel.id⟩) channel.id
    (base64Decode channel.key) svc.peerKeyCache

/-- One message to every roster entry but the sender that has a readable peer row. -/
def broadcast (channel : DChannel) (message : ChannelSystemMessage) : List Post :=
  (memberIdsExcluding channel svc.identity.clientId).flatMap fun memberId =>
    match svc.db.getPeerById memberId with
    | some peer => deliverType peer svc.identity.clientId message channel.id
        (base64Decode channel.key) svc.peerKeyCache
    | none => []

def updateMessage (channel : DChannel) : ChannelUpdate where
  channelId := channel.id
  channelName := channel.name
  members := channel.members
  memberPeers := buildMemberPeers channel svc.db svc.identity.clientId svc.identity.deviceName
    svc.wireDeviceType svc.kpBytes
  version := channel.version
  signature := signedAction d svc channel.id channel.version .update ""

def broadcastUpdate (channel : DChannel) : List Post :=
  broadcast svc channel (.update (updateMessage d svc channel))

def kickMessage (channelId : String) (version : Int) (target : String) : ChannelKick where
  channelId := channelId
  version := version
  signature := signedAction d svc channelId version .kick target

def sendKick (channel : DChannel) (peer : DPeer) : List Post :=
  deliverType peer svc.identity.clientId (.kick (kickMessage d svc channel.id channel.version peer.id))
    channel.id (base64Decode channel.key) svc.peerKeyCache

/-- The kick of a deleted channel, signed with an empty target. -/
def broadcastKick (channel : DChannel) : List Post :=
  broadcast svc channel (.kick (kickMessage d svc channel.id channel.version ""))

def sendLeave (channel : DChannel) (ownerPeer : DPeer) : List Post :=
  deliverType ownerPeer svc.identity.clientId (.leave ⟨channel.id⟩) channel.id
    (base64Decode channel.key) svc.peerKeyCache

end

variable {d : Dalek} {svc : ChatService} {channel : DChannel} {peer : DPeer} {post : Post}
  {message : ChannelSystemMessage} {clientId channelId : String} {channelKey : Bytes}
  {keyCache : KeyCache}

theorem mem_deliverType (h : post ∈ deliverType peer clientId message channelId channelKey keyCache) :
    post.peer = peer ∧ post.clientId = clientId ∧ post.message = message ∧
      ((peer.key ≠ "" ∧ post.channelId = none ∧ keyCache peer.id = some post.key) ∨
        (peer.key = "" ∧ post.channelId = some channelId ∧ post.key = channelKey)) := by
  unfold deliverType at h
  split at h
  · next hk =>
    split at h
    · next k hc =>
      split at h
      · obtain rfl := List.mem_singleton.mp h
        exact ⟨rfl, rfl, rfl, .inl ⟨hk, rfl, hc⟩⟩
      · cases h
    · cases h
  · next hk =>
    split at h
    · obtain rfl := List.mem_singleton.mp h
      exact ⟨rfl, rfl, rfl, .inr ⟨by simpa using hk, rfl, rfl⟩⟩
    · cases h

/-- A broadcast reaches only ids of the roster. -/
theorem mem_broadcast (h : post ∈ broadcast svc channel message) :
    hasMember channel.members post.peer.id = true ∧ post.peer.id ≠ svc.identity.clientId ∧
      svc.db.getPeerById post.peer.id = some post.peer ∧ post.clientId = svc.identity.clientId ∧
      post.message = message := by
  obtain ⟨id, hid, hp⟩ := List.mem_flatMap.mp h
  obtain ⟨m, hm, hne⟩ := List.mem_filterMap.mp hid
  split at hne
  · cases hne
  · next hown =>
    obtain rfl : m.peerId = id := by simpa using hne
    split at hp
    · next peer hpeer =>
      obtain ⟨rfl, hc, hmsg, -⟩ := mem_deliverType hp
      have hpid := ChatDb.id_of_getPeerById hpeer
      exact ⟨hasMember_iff.mpr ⟨m, hm, hpid.symm⟩, hpid ▸ hown, hpid ▸ hpeer, hc, hmsg⟩
    · cases hp

end PlainRs.Chat
