import PlainRs.Chat.Channel.Handler

/-! The channel operations of the local user. -/
namespace PlainRs.Chat.ChatService

open PlainRs.Crypto PlainRs.Utils

section

variable (d : Dalek) (svc : ChatService) (now : String)

/-- The owner is a joined member from the start; `id` and `key` are the random draws. -/
def newChannel (id : String) (key : Bytes) (name : String) : DChannel :=
  { DChannel.new id (Text.trim name) svc.identity.clientId now with
    members := [.new svc.identity.clientId]
    key := base64Encode key }

def createChannel (id : String) (key : Bytes) (name : String) : Outcome DChannel :=
  let ch := svc.newChannel now id key name
  let svc := { svc with db := svc.db.insertChannel ch }
  ⟨svc, ch, [], [svc.channelsUpdated]⟩

def renamed (ch : DChannel) (name : String) : DChannel :=
  { ch with
    name := Text.trim name
    version := ch.version + 1
    updatedAt := now }

/-- Bumps the version on any device that has the row; only the owner's is broadcast. -/
def updateChannelName (id name : String) : Outcome (Except String DChannel) :=
  match svc.db.getChannelById id with
  | none => svc.unchanged (.error "Channel not found")
  | some ch =>
    let ch := renamed now ch name
    let svc := { svc with db := svc.db.updateChannel ch }
    ⟨svc, .ok ch, if ch.ownerId = svc.identity.clientId then broadcastUpdate d svc ch else [],
      [svc.channelsUpdated]⟩

def deleteChannel (id : String) : Outcome Bool :=
  let posts := match svc.db.getChannelById id with
    | none => []
    | some ch => if ch.ownerId = svc.identity.clientId then broadcastKick d svc ch else []
  let db := match svc.db.getChannelById id with
    | none => svc.db
    | some ch => svc.db.updateChannel { ch with status := .left, updatedAt := now }
  let svc := ({ svc with db := db.deleteChannel id } : ChatService).refreshPeerKeyCache
  ⟨svc, true, posts, [svc.channelsUpdated]⟩

/-- The row a member that leaves keeps. -/
def leftBy (clientId : String) (ch : DChannel) : DChannel :=
  { ch with
    members := withoutMember ch.members clientId
    status := .left
    updatedAt := now }

def leaveChannel (id : String) : Outcome Bool :=
  match svc.db.getChannelById id with
  | none => svc.unchanged true
  | some ch =>
    if ch.ownerId ≠ svc.identity.clientId then
      let posts := match svc.db.getPeerById ch.ownerId with
        | some ownerPeer => sendLeave svc ch ownerPeer
        | none => []
      let db := svc.db.updateChannel (leftBy now svc.identity.clientId ch)
      let svc := ({ svc with db := db } : ChatService).refreshPeerKeyCache
      ⟨svc, true, posts, [svc.channelsUpdated]⟩
    else ⟨svc, true, [], [svc.channelsUpdated]⟩

/-- Invites the new member alone: the other members are not told of the new version. -/
def addChannelMember (id peerId : String) : Outcome (Except String DChannel) :=
  match svc.db.getChannelById id with
  | none => svc.unchanged (.error "Channel not found")
  | some ch =>
    if ch.ownerId ≠ svc.identity.clientId then svc.unchanged (.error "Only owner can add members")
    else if hasMember ch.members peerId then svc.unchanged (.error "Already a member")
    else
      let ch := withRoster now ch (ch.members ++ [.pending peerId])
      let svc := { svc with db := svc.db.updateChannel ch }
      let posts := match svc.db.getPeerById peerId with
        | some peer => sendInvite d svc ch peer
        | none => []
      ⟨svc, .ok ch, posts, [svc.channelsUpdated]⟩

def removeChannelMember (id peerId : String) : Outcome (Except String DChannel) :=
  match svc.db.getChannelById id with
  | none => svc.unchanged (.error "Channel not found")
  | some ch =>
    if ch.ownerId ≠ svc.identity.clientId then svc.unchanged (.error "Only owner can remove members")
    else if hasMember ch.members peerId = false then svc.unchanged (.error "Not a member")
    else
      let ch := withRoster now ch (withoutMember ch.members peerId)
      let svc := { svc with db := svc.db.updateChannel ch }
      let posts := match svc.db.getPeerById peerId with
        | some peer => sendKick d svc ch peer
        | none => []
      ⟨svc, .ok ch, posts ++ broadcastUpdate d svc ch, [svc.channelsUpdated]⟩

def acceptChannelInvite (id : String) : Outcome (Except String Bool) :=
  match svc.db.getChannelById id with
  | none => svc.unchanged (.error "Channel not found")
  | some ch =>
    match svc.db.getPeerById ch.ownerId with
    | none => svc.unchanged (.error "Owner peer not found")
    | some ownerPeer =>
      let svc := svc.loadKeyCache
      ⟨svc, .ok true, sendInviteAccept svc ch ownerPeer, []⟩

/-- The decline is sent before the row is dropped. -/
def declineChannelInvite (id : String) : Outcome Bool :=
  match svc.db.getChannelById id with
  | none => svc.unchanged true
  | some ch =>
    let posts := match svc.db.getPeerById ch.ownerId with
      | some ownerPeer => sendInviteDecline svc ch ownerPeer
      | none => []
    let svc := ({ svc with db := svc.db.deleteChannel ch.id } : ChatService).refreshPeerKeyCache
    ⟨svc, true, posts, [svc.channelsUpdated]⟩

end

end PlainRs.Chat.ChatService
