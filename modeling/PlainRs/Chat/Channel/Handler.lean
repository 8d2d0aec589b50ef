import PlainRs.Chat.Channel.Sender

/-! What a device does with each channel system message it receives. -/
namespace PlainRs.Chat

open PlainRs.Crypto PlainRs.Utils

/-- An empty key or signature passes, for peers that did not sign. -/
def verifyChannelSignature (d : Dalek) (publicKeyB64 payload signatureB64 : String) : Bool :=
  publicKeyB64 = "" || signatureB64 = "" || ed25519Verify d publicKeyB64 (Text.bytes payload) signatureB64

/-- The loop that stores a channel-only peer for each listed member without a readable row. -/
def createMissingPeers (db : ChatDb) (fromId now : String) (memberPeers : List MemberPeerInfo) :
    ChatDb :=
  memberPeers.foldl (fun db member =>
    if member.id = "" ∨ member.id = fromId ∨ (db.getPeerById member.id).isSome then db
    else db.upsertPeer { DPeer.new member.id member.name member.ip member.port member.deviceType now with
      publicKey := member.publicKey
      status := .channel }) db

namespace ChatService

section

variable (d : Dalek) (svc : ChatService) (fromId now : String)

/-- The key an invite is checked with is the one it carries for its own owner. -/
def inviteOwnerKey (msg : ChannelInvite) : String :=
  ((msg.memberPeers.find? fun m => m.id = msg.owner).map (·.publicKey)).getD ""

def inviteSigned (msg : ChannelInvite) : Bool :=
  verifyChannelSignature d (inviteOwnerKey msg)
    (channelMessagePayload msg.channelId msg.version .invite svc.identity.clientId) msg.signature

def updateSigned (ownerPubKey : String) (msg : ChannelUpdate) : Bool :=
  verifyChannelSignature d ownerPubKey (channelMessagePayload msg.channelId msg.version .update "")
    msg.signature

def kickSigned (ownerPubKey : String) (msg : ChannelKick) : Bool :=
  verifyChannelSignature d ownerPubKey
    (channelMessagePayload msg.channelId msg.version .kick svc.identity.clientId) msg.signature

/-- The row a re-invite leaves: everything but the id and the creation time is the invite's. -/
def reinvited (ch : DChannel) (msg : ChannelInvite) : DChannel :=
  { ch with
    name := msg.channelName
    ownerId := fromId
    members := msg.members
    key := if msg.key ≠ "" then msg.key else ch.key
    version := msg.version
    status := .joined
    updatedAt := now }

def invitedChannel (msg : ChannelInvite) : DChannel where
  id := msg.channelId
  name := msg.channelName
  ownerId := fromId
  members := msg.members
  key := msg.key
  version := msg.version
  status := .joined
  createdAt := now
  updatedAt := now

/-- The database after an invite that is taken. -/
def inviteDb (msg : ChannelInvite) : ChatDb :=
  let db := createMissingPeers svc.db fromId now msg.memberPeers
  match svc.db.getChannelById msg.channelId with
  | some ch => db.updateChannel (reinvited fromId now ch msg)
  | none => db.insertChannel (invitedChannel fromId now msg)

def handleInvite (msg : ChannelInvite) : Outcome Bool :=
  if msg.channelId = "" ∨ msg.owner ≠ fromId ∨ inviteOwnerKey msg = "" then svc.unchanged false
  else if inviteSigned d svc msg = false then svc.unchanged false
  else match svc.db.getPeerById fromId with
  | none => svc.unchanged false
  | some owner =>
    if (svc.db.getChannelById msg.channelId).any fun ch => ch.status = .joined then
      svc.unchanged true
    else
      let svc := ({ svc with db := svc.inviteDb fromId now msg } : ChatService).loadKeyCache
      ⟨svc, true, [],
        [.channelInviteReceived msg.channelId msg.channelName fromId owner.name]⟩

/-- The accepter's peer row is created, or completed where its key or name is empty. -/
def recordAccepter (msg : ChannelInviteAccept) : ChatDb :=
  match svc.db.getPeerById fromId with
  | none => svc.db.upsertPeer { DPeer.new fromId msg.name "" 0 msg.deviceType now with
      publicKey := msg.publicKey
      status := .channel }
  | some p =>
    let newKey := decide (p.publicKey = "" ∧ msg.publicKey ≠ "")
    let newName := decide (p.name = "" ∧ msg.name ≠ "")
    if newKey || newName then
      svc.db.upsertPeer { p with
        publicKey := if newKey then msg.publicKey else p.publicKey
        name := if newName then msg.name else p.name
        updatedAt := now }
    else svc.db

/-- The row after an operation of the owner on the roster. -/
def withRoster (ch : DChannel) (members : List ChannelMember) : DChannel :=
  { ch with
    members := members
    version := ch.version + 1
    updatedAt := now }

/-- The broadcast task of a handler: nothing without a channel key, an event at its end. -/
def spawnBroadcast (ch : DChannel) : List Post × List ChatEvent :=
  if base64Decode ch.key = [] then ([], []) else (broadcastUpdate d svc ch, [svc.channelsUpdated])

def handleInviteAccept (msg : ChannelInviteAccept) : Outcome Bool :=
  if msg.channelId = "" then svc.unchanged false
  else match svc.db.getChannelById msg.channelId with
  | none => svc.unchanged false
  | some ch =>
    if ch.ownerId ≠ svc.identity.clientId then svc.unchanged false
    else
      let ch := withRoster now ch (joinMember ch.members fromId)
      let db := (svc.recordAccepter fromId now msg).updateChannel ch
      let svc := ({ svc with db := db } : ChatService).loadKeyCache
      ⟨svc, true, (spawnBroadcast d svc ch).1, (spawnBroadcast d svc ch).2⟩

/-- Unlike an accept or a leave, a decline is not broadcast. -/
def handleInviteDecline (msg : ChannelInviteDecline) : Outcome Bool :=
  match svc.db.getChannelById msg.channelId with
  | none => svc.unchanged false
  | some ch =>
    if ch.ownerId ≠ svc.identity.clientId then svc.unchanged false
    else if hasMember ch.members fromId = false then svc.unchanged false
    else
      let ch := withRoster now ch (withoutMember ch.members fromId)
      ⟨{ svc with db := svc.db.updateChannel ch }, true, [], []⟩

/-- The row an update leaves; its status stays as it was. -/
def updatedBy (ch : DChannel) (msg : ChannelUpdate) : DChannel :=
  { ch with
    name := msg.channelName
    members := msg.members
    version := msg.version
    updatedAt := now }

def handleUpdate (msg : ChannelUpdate) : Outcome Bool :=
  match svc.db.getChannelById msg.channelId with
  | none => svc.unchanged false
  | some ch =>
    if ch.ownerId ≠ fromId then svc.unchanged false
    else match svc.db.getPeerById ch.ownerId with
    | none => svc.unchanged false
    | some owner =>
      if updateSigned d owner.publicKey msg = false then svc.unchanged false
      else if msg.version ≤ ch.version then svc.unchanged false
      else
        let db := createMissingPeers svc.db fromId now msg.memberPeers
        ⟨{ svc with db := db.updateChannel (updatedBy now ch msg) }, true, [], []⟩

/-- The row a kick leaves; its version stays as it was. -/
def kicked (clientId : String) (ch : DChannel) : DChannel :=
  { ch with
    status := .kicked
    members := withoutMember ch.members clientId
    updatedAt := now }

def handleKick (msg : ChannelKick) : Outcome Bool :=
  match svc.db.getChannelById msg.channelId with
  | none => svc.unchanged false
  | some ch =>
    if ch.ownerId ≠ fromId then svc.unchanged false
    else match svc.db.getPeerById ch.ownerId with
    | none => svc.unchanged false
    | some owner =>
      if kickSigned d svc owner.publicKey msg = false then svc.unchanged false
      else
        ⟨{ svc with db := svc.db.updateChannel (kicked now svc.identity.clientId ch) }, true, [], []⟩

/-- A leave bumps the version even when the sender is not in the roster. -/
def handleLeave (msg : ChannelLeave) : Outcome Bool :=
  match svc.db.getChannelById msg.channelId with
  | none => svc.unchanged false
  | some ch =>
    if ch.ownerId ≠ svc.identity.clientId then svc.unchanged false
    else
      let ch := withRoster now ch (withoutMember ch.members fromId)
      let svc := { svc with db := svc.db.updateChannel ch }
      ⟨svc, true, (spawnBroadcast d svc ch).1, (spawnBroadcast d svc ch).2⟩

def dispatch : ChannelSystemMessage → Outcome Bool
  | .invite msg => svc.handleInvite d fromId now msg
  | .inviteAccept msg => svc.handleInviteAccept d fromId now msg
  | .inviteDecline msg => svc.handleInviteDecline fromId now msg
  | .update msg => svc.handleUpdate d fromId now msg
  | .kick msg => svc.handleKick d fromId now msg
  | .leave msg => svc.handleLeave d fromId now msg
  | .unreadable => svc.unchanged false

def handle (message : ChannelSystemMessage) : Outcome Bool :=
  let out := svc.dispatch d fromId now message
  if out.result then { out with events := out.events ++ [out.service.channelsUpdated] } else out

def receivePeerChannelSystemMessage (message : ChannelSystemMessage) : Outcome Bool :=
  let out := svc.handle d fromId now message
  { out with events := out.events ++ [out.service.channelsUpdated] }

end

end ChatService

end PlainRs.Chat
