import PlainRs.Chat.Channel.Ops

/-! One device under any local operations and any received messages, and what each of them can
do to the row of a channel. -/
namespace PlainRs.Chat

open PlainRs.Crypto

inductive DeviceAction
  | createChannel (id : String) (key : Bytes) (name now : String)
  | updateChannelName (id name now : String)
  | deleteChannel (id now : String)
  | leaveChannel (id now : String)
  | addChannelMember (id peerId now : String)
  | removeChannelMember (id peerId now : String)
  | acceptChannelInvite (id : String)
  | declineChannelInvite (id : String)
  | deletePeer (id now : String)
  | receive (fromId : String) (message : ChannelSystemMessage) (now : String)

namespace DeviceAction

/-- A message comes from another device. -/
def fromPeer (clientId : String) : DeviceAction → Bool
  | .receive fromId _ _ => fromId ≠ clientId
  | _ => true

/-- The operations that answer the owner of a channel. -/
def isMemberOp : DeviceAction → Bool
  | .acceptChannelInvite _ | .declineChannelInvite _ | .leaveChannel _ _ => true
  | _ => false

end DeviceAction

namespace ChatService

/-- The service after an action, and what it posted. -/
def act (d : Dalek) (svc : ChatService) : DeviceAction → ChatService × List Post
  | .createChannel id key name now =>
    ((svc.createChannel now id key name).service, (svc.createChannel now id key name).posts)
  | .updateChannelName id name now =>
    ((svc.updateChannelName d now id name).service, (svc.updateChannelName d now id name).posts)
  | .deleteChannel id now => ((svc.deleteChannel d now id).service, (svc.deleteChannel d now id).posts)
  | .leaveChannel id now => ((svc.leaveChannel now id).service, (svc.leaveChannel now id).posts)
  | .addChannelMember id peerId now =>
    ((svc.addChannelMember d now id peerId).service, (svc.addChannelMember d now id peerId).posts)
  | .removeChannelMember id peerId now =>
    ((svc.removeChannelMember d now id peerId).service,
      (svc.removeChannelMember d now id peerId).posts)
  | .acceptChannelInvite id =>
    ((svc.acceptChannelInvite id).service, (svc.acceptChannelInvite id).posts)
  | .declineChannelInvite id =>
    ((svc.declineChannelInvite id).service, (svc.declineChannelInvite id).posts)
  | .deletePeer id now => ((svc.deletePeer id now).service, (svc.deletePeer id now).posts)
  | .receive fromId message now =>
    ((svc.receivePeerChannelSystemMessage d fromId now message).service,
      (svc.receivePeerChannelSystemMessage d fromId now message).posts)

/-- Every way an action can change the row of channel `c`. -/
inductive RowStep (d : Dalek) (svc : ChatService) :
    DeviceAction → String → Option DChannel → Option DChannel → Prop
  | same {a c r} : RowStep d svc a c r r
  | created {c key name now} :
    RowStep d svc (.createChannel c key name now) c none (some (svc.newChannel now c key name))
  | renamed {c name now ch} :
    RowStep d svc (.updateChannelName c name now) c (some ch) (some (renamed now ch name))
  | deleted {c now r} : RowStep d svc (.deleteChannel c now) c r none
  | declinedInvite {c r} : RowStep d svc (.declineChannelInvite c) c r none
  | left {c now ch} (ho : ch.ownerId ≠ svc.identity.clientId) :
    RowStep d svc (.leaveChannel c now) c (some ch) (some (leftBy now svc.identity.clientId ch))
  | added {c p now ch} (ho : ch.ownerId = svc.identity.clientId)
      (hm : hasMember ch.members p = false) :
    RowStep d svc (.addChannelMember c p now) c (some ch)
      (some (withRoster now ch (ch.members ++ [.pending p])))
  | removed {c p now ch} (ho : ch.ownerId = svc.identity.clientId)
      (hm : hasMember ch.members p = true) :
    RowStep d svc (.removeChannelMember c p now) c (some ch)
      (some (withRoster now ch (withoutMember ch.members p)))
  | invited {c fromId now msg} (hc : msg.channelId = c) (ho : msg.owner = fromId)
      (hs : inviteSigned d svc msg = true) :
    RowStep d svc (.receive fromId (.invite msg) now) c none (some (invitedChannel fromId now msg))
  | reinvited {c fromId now msg ch} (hc : msg.channelId = c) (ho : msg.owner = fromId)
      (hs : inviteSigned d svc msg = true) (hj : ch.status ≠ .joined) :
    RowStep d svc (.receive fromId (.invite msg) now) c (some ch)
      (some (reinvited fromId now ch msg))
  | accepted {c fromId now msg ch} (hc : msg.channelId = c)
      (ho : ch.ownerId = svc.identity.clientId) :
    RowStep d svc (.receive fromId (.inviteAccept msg) now) c (some ch)
      (some (withRoster now ch (joinMember ch.members fromId)))
  | declined {c fromId now msg ch} (hc : msg.channelId = c)
      (ho : ch.ownerId = svc.identity.clientId) (hm : hasMember ch.members fromId = true) :
    RowStep d svc (.receive fromId (.inviteDecline msg) now) c (some ch)
      (some (withRoster now ch (withoutMember ch.members fromId)))
  | updated {c fromId now msg ch owner} (hc : msg.channelId = c) (ho : ch.ownerId = fromId)
      (hp : svc.db.getPeerById fromId = some owner)
      (hs : updateSigned d owner.publicKey msg = true) (hv : ch.version < msg.version) :
    RowStep d svc (.receive fromId (.update msg) now) c (some ch) (some (updatedBy now ch msg))
  | kicked {c fromId now msg ch owner} (hc : msg.channelId = c) (ho : ch.ownerId = fromId)
      (hp : svc.db.getPeerById fromId = some owner)
      (hs : kickSigned d svc owner.publicKey msg = true) :
    RowStep d svc (.receive fromId (.kick msg) now) c (some ch)
      (some (kicked now svc.identity.clientId ch))
  | memberLeft {c fromId now msg ch} (hc : msg.channelId = c)
      (ho : ch.ownerId = svc.identity.clientId) :
    RowStep d svc (.receive fromId (.leave msg) now) c (some ch)
      (some (withRoster now ch (withoutMember ch.members fromId)))

variable {d : Dalek} {svc : ChatService} {a : DeviceAction} {c : String}

theorem renamed_ne {ch : DChannel} {now name : String} : renamed now ch name ≠ ch := by
  intro he
  have := congrArg DChannel.version he
  simp [renamed] at this

theorem reinvited_ne {ch : DChannel} {fromId now : String} {inv : ChannelInvite} (hj : ch.status ≠ .joined) :
    reinvited fromId now ch inv ≠ ch := by
  intro he
  exact hj (congrArg DChannel.status he).symm

theorem updatedBy_ne {ch : DChannel} {now : String} {msg : ChannelUpdate} (hv : ch.version < msg.version) : updatedBy now ch msg ≠ ch := by
  intro he
  have := congrArg DChannel.version he
  simp only [updatedBy] at this
  omega

/-- A write to one row is a step of every row, once it is a step of its own. -/
theorem RowStep.of_write {db db' : ChatDb} {id : String} {r r' : Option DChannel}
    (hr : db.getChannelById id = r) (hs : RowStep d svc a id r r')
    (h : ∀ k, db'.getChannelById k = if k = id then r' else db.getChannelById k) :
    RowStep d svc a c (db.getChannelById c) (db'.getChannelById c) := by
  rw [h c]
  split
  · next hc => exact hc ▸ hr ▸ hs
  · exact .same

@[simp] theorem getChannelById_createMissingPeers {db : ChatDb} {fromId now k : String}
    {ps : List MemberPeerInfo} :
    (createMissingPeers db fromId now ps).getChannelById k = db.getChannelById k := by
  unfold createMissingPeers
  induction ps generalizing db with
  | nil => rfl
  | cons p ps ih =>
    rw [List.foldl_cons, ih]
    split <;> rfl

@[simp] theorem getChannelById_recordAccepter {fromId now k : String} {msg : ChannelInviteAccept} :
    (svc.recordAccepter fromId now msg).getChannelById k = svc.db.getChannelById k := by
  unfold recordAccepter
  split
  · rfl
  · dsimp only
    split <;> rfl

@[simp] theorem service_receive {fromId now : String} {m : ChannelSystemMessage} :
    (svc.receivePeerChannelSystemMessage d fromId now m).service =
      (svc.dispatch d fromId now m).service := by
  simp only [receivePeerChannelSystemMessage, handle]
  split <;> rfl

@[simp] theorem result_receive {fromId now : String} {m : ChannelSystemMessage} :
    (svc.receivePeerChannelSystemMessage d fromId now m).result =
      (svc.dispatch d fromId now m).result := by
  simp only [receivePeerChannelSystemMessage, handle]
  by_cases hr : (svc.dispatch d fromId now m).result = true <;> simp [hr]

@[simp] theorem posts_receive {fromId now : String} {m : ChannelSystemMessage} :
    (svc.receivePeerChannelSystemMessage d fromId now m).posts =
      (svc.dispatch d fromId now m).posts := by
  simp only [receivePeerChannelSystemMessage, handle]
  split <;> rfl

/-- Writing back, into a database with the same channels, a row read under its id. -/
theorem writeBack {db db' : ChatDb} {id k : String} {ch ch' : DChannel}
    (hdb : ∀ k, db'.getChannelById k = db.getChannelById k) (h : db.getChannelById id = some ch)
    (hid : ch'.id = ch.id) (hc : ch'.createdAt = ch.createdAt) :
    (db'.updateChannel ch').getChannelById k =
      if k = id then some ch' else db.getChannelById k := by
  have hch := ChatDb.id_of_getChannelById h
  have hg : db'.getChannelById ch'.id = some ch := by rw [hdb, hid, hch, h]
  rw [ChatDb.getChannelById_writeBack hg hc, hid, hch, hdb]

theorem writeBack_self {db db' : ChatDb} {id : String} {ch ch' : DChannel}
    (hdb : ∀ k, db'.getChannelById k = db.getChannelById k) (h : db.getChannelById id = some ch)
    (hid : ch'.id = ch.id) (hc : ch'.createdAt = ch.createdAt) :
    (db'.updateChannel ch').getChannelById id = some ch' := by
  rw [writeBack hdb h hid hc, if_pos rfl]

theorem rowStep_invite {fromId now : String} {msg : ChannelInvite} :
    RowStep d svc (.receive fromId (.invite msg) now) c (svc.db.getChannelById c)
      ((svc.handleInvite d fromId now msg).service.db.getChannelById c) := by
  unfold handleInvite
  split
  · exact .same
  · next hg =>
    have ho : msg.owner = fromId := by
      by_contra ho
      exact hg (.inr (.inl ho))
    split
    · exact .same
    · next hs =>
      have hs : inviteSigned d svc msg = true := by simpa using hs
      split
      · exact .same
      · split
        · exact .same
        · next hj =>
          simp only [db_loadKeyCache, inviteDb]
          cases hch : svc.db.getChannelById msg.channelId with
          | none =>
            refine .of_write hch (.invited rfl ho hs) fun k => ?_
            rw [ChatDb.getChannelById_insertChannel (by simpa [invitedChannel] using hch)]
            simp [invitedChannel]
          | some ch =>
            exact .of_write hch (.reinvited rfl ho hs (by simpa [hch] using hj)) fun k =>
              writeBack (fun _ => getChannelById_createMissingPeers) hch rfl rfl

theorem rowStep_inviteAccept {fromId now : String} {msg : ChannelInviteAccept} :
    RowStep d svc (.receive fromId (.inviteAccept msg) now) c (svc.db.getChannelById c)
      ((svc.handleInviteAccept d fromId now msg).service.db.getChannelById c) := by
  unfold handleInviteAccept
  split
  · exact .same
  · split
    · exact .same
    · next ch hch =>
      split
      · exact .same
      · next ho =>
        exact .of_write hch (.accepted rfl (by simpa using ho)) fun k =>
          writeBack (fun _ => getChannelById_recordAccepter) hch rfl rfl

theorem rowStep_inviteDecline {fromId now : String} {msg : ChannelInviteDecline} :
    RowStep d svc (.receive fromId (.inviteDecline msg) now) c (svc.db.getChannelById c)
      ((svc.handleInviteDecline fromId now msg).service.db.getChannelById c) := by
  unfold handleInviteDecline
  split
  · exact .same
  · next ch hch =>
    split
    · exact .same
    · next ho =>
      split
      · exact .same
      · next hm =>
        exact .of_write hch (.declined rfl (by simpa using ho) (by simpa using hm))
          fun k => writeBack (fun _ => rfl) hch rfl rfl

theorem rowStep_update {fromId now : String} {msg : ChannelUpdate} :
    RowStep d svc (.receive fromId (.update msg) now) c (svc.db.getChannelById c)
      ((svc.handleUpdate d fromId now msg).service.db.getChannelById c) := by
  unfold handleUpdate
  split
  · exact .same
  · next ch hch =>
    split
    · exact .same
    · next ho =>
      have ho : ch.ownerId = fromId := by simpa using ho
      split
      · exact .same
      · next owner hp =>
        split
        · exact .same
        · next hs =>
          split
          · exact .same
          · next hv =>
            exact .of_write hch (.updated rfl ho (ho ▸ hp) (by simpa using hs) (not_le.mp hv))
              fun k => writeBack (fun _ => getChannelById_createMissingPeers) hch rfl rfl

theorem rowStep_kick {fromId now : String} {msg : ChannelKick} :
    RowStep d svc (.receive fromId (.kick msg) now) c (svc.db.getChannelById c)
      ((svc.handleKick d fromId now msg).service.db.getChannelById c) := by
  unfold handleKick
  split
  · exact .same
  · next ch hch =>
    split
    · exact .same
    · next ho =>
      have ho : ch.ownerId = fromId := by simpa using ho
      split
      · exact .same
      · next owner hp =>
        split
        · exact .same
        · next hs =>
          exact .of_write hch (.kicked rfl ho (ho ▸ hp) (by simpa using hs))
            fun k => writeBack (fun _ => rfl) hch rfl rfl

theorem rowStep_leave {fromId now : String} {msg : ChannelLeave} :
    RowStep d svc (.receive fromId (.leave msg) now) c (svc.db.getChannelById c)
      ((svc.handleLeave d fromId now msg).service.db.getChannelById c) := by
  unfold handleLeave
  split
  · exact .same
  · next ch hch =>
    split
    · exact .same
    · next ho =>
      exact .of_write hch (.memberLeft rfl (by simpa using ho)) fun k => writeBack (fun _ => rfl) hch rfl rfl

theorem rowStep_receive {fromId now : String} {m : ChannelSystemMessage} :
    RowStep d svc (.receive fromId m now) c (svc.db.getChannelById c)
      ((svc.dispatch d fromId now m).service.db.getChannelById c) := by
  cases m with
  | invite msg => exact rowStep_invite
  | inviteAccept msg => exact rowStep_inviteAccept
  | inviteDecline msg => exact rowStep_inviteDecline
  | update msg => exact rowStep_update
  | kick msg => exact rowStep_kick
  | leave msg => exact rowStep_leave
  | unreadable => exact .same

theorem rowStep_create {id name now : String} {key : Bytes} :
    RowStep d svc (.createChannel id key name now) c (svc.db.getChannelById c)
      ((svc.createChannel now id key name).service.db.getChannelById c) := by
  unfold createChannel
  dsimp only
  cases h : svc.db.getChannelById id with
  | none => exact .of_write h .created fun k => ChatDb.getChannelById_insertChannel h
  | some ch =>
    rw [ChatDb.insertChannel_of_some h]
    exact .same

theorem rowStep_rename {id name now : String} :
    RowStep d svc (.updateChannelName id name now) c (svc.db.getChannelById c)
      ((svc.updateChannelName d now id name).service.db.getChannelById c) := by
  unfold updateChannelName
  split
  · exact .same
  · next ch hch => exact .of_write hch .renamed fun k => writeBack (fun _ => rfl) hch rfl rfl

theorem rowStep_delete {id now : String} :
    RowStep d svc (.deleteChannel id now) c (svc.db.getChannelById c)
      ((svc.deleteChannel d now id).service.db.getChannelById c) := by
  refine .of_write (rfl : svc.db.getChannelById id = _) .deleted fun k => ?_
  simp only [deleteChannel, db_refreshPeerKeyCache, ChatDb.getChannelById_deleteChannel]
  split
  · rfl
  · next hk =>
    cases hch : svc.db.getChannelById id with
    | none => rfl
    | some ch =>
      have hw : (svc.db.updateChannel { ch with status := .left, updatedAt := now }).getChannelById k
          = _ := writeBack (fun _ => rfl) hch rfl rfl
      exact hw.trans (if_neg hk)

theorem rowStep_leaveChannel {id now : String} :
    RowStep d svc (.leaveChannel id now) c (svc.db.getChannelById c)
      ((svc.leaveChannel now id).service.db.getChannelById c) := by
  unfold leaveChannel
  split
  · exact .same
  · next ch hch =>
    split
    · next ho => exact .of_write hch (.left ho) fun k => writeBack (fun _ => rfl) hch rfl rfl
    · exact .same

theorem rowStep_add {id peerId now : String} :
    RowStep d svc (.addChannelMember id peerId now) c (svc.db.getChannelById c)
      ((svc.addChannelMember d now id peerId).service.db.getChannelById c) := by
  unfold addChannelMember
  split
  · exact .same
  · next ch hch =>
    split
    · exact .same
    · next ho =>
      split
      · exact .same
      · next hm =>
        exact .of_write hch (.added (by simpa using ho) (Bool.eq_false_iff.mpr hm))
          fun k => writeBack (fun _ => rfl) hch rfl rfl

theorem rowStep_remove {id peerId now : String} :
    RowStep d svc (.removeChannelMember id peerId now) c (svc.db.getChannelById c)
      ((svc.removeChannelMember d now id peerId).service.db.getChannelById c) := by
  unfold removeChannelMember
  split
  · exact .same
  · next ch hch =>
    split
    · exact .same
    · next ho =>
      split
      · exact .same
      · next hm =>
        exact .of_write hch (.removed (by simpa using ho) (by simpa using hm))
          fun k => writeBack (fun _ => rfl) hch rfl rfl

theorem rowStep_accept {id : String} :
    RowStep d svc (.acceptChannelInvite id) c (svc.db.getChannelById c)
      ((svc.acceptChannelInvite id).service.db.getChannelById c) := by
  unfold acceptChannelInvite
  split
  · exact .same
  · split <;> exact .same

theorem rowStep_decline {id : String} :
    RowStep d svc (.declineChannelInvite id) c (svc.db.getChannelById c)
      ((svc.declineChannelInvite id).service.db.getChannelById c) := by
  unfold declineChannelInvite
  split
  · exact .same
  · next ch hch =>
    refine .of_write hch .declinedInvite fun k => ?_
    simp only [db_refreshPeerKeyCache, ChatDb.getChannelById_deleteChannel,
      ChatDb.id_of_getChannelById hch]

/-- An action changes the row of a channel in one of the listed ways, or not at all. -/
theorem rowStep_act : RowStep d svc a c (svc.db.getChannelById c)
    ((svc.act d a).1.db.getChannelById c) := by
  cases a with
  | createChannel id key name now => exact rowStep_create
  | updateChannelName id name now => exact rowStep_rename
  | deleteChannel id now => exact rowStep_delete
  | leaveChannel id now => exact rowStep_leaveChannel
  | addChannelMember id peerId now => exact rowStep_add
  | removeChannelMember id peerId now => exact rowStep_remove
  | acceptChannelInvite id => exact rowStep_accept
  | declineChannelInvite id => exact rowStep_decline
  | deletePeer id now =>
    rw [act, getChannelById_deletePeer]
    exact .same
  | receive fromId m now =>
    rw [act, service_receive]
    exact rowStep_receive

theorem identity_dispatch {fromId now : String} {m : ChannelSystemMessage} :
    (svc.dispatch d fromId now m).service.identity = svc.identity := by
  cases m <;> simp only [dispatch, handleInvite, handleInviteAccept, handleInviteDecline,
    handleUpdate, handleKick, handleLeave] <;> repeat' split
  all_goals rfl

/-- No action changes who the device is. -/
@[simp] theorem identity_act : (svc.act d a).1.identity = svc.identity := by
  cases a with
  | createChannel id key name now => rfl
  | updateChannelName id name now =>
    simp only [act, updateChannelName]
    split <;> rfl
  | deleteChannel id now => rfl
  | leaveChannel id now =>
    simp only [act, leaveChannel]
    split <;> [rfl; split <;> rfl]
  | addChannelMember id peerId now =>
    simp only [act, addChannelMember]
    split <;> [rfl; split <;> [rfl; split <;> rfl]]
  | removeChannelMember id peerId now =>
    simp only [act, removeChannelMember]
    split <;> [rfl; split <;> [rfl; split <;> rfl]]
  | acceptChannelInvite id =>
    simp only [act, acceptChannelInvite]
    split <;> [rfl; split <;> rfl]
  | declineChannelInvite id =>
    simp only [act, declineChannelInvite]
    split <;> rfl
  | deletePeer id now => exact identity_deletePeer
  | receive fromId m now =>
    rw [act, service_receive]
    exact identity_dispatch

end ChatService

end PlainRs.Chat
