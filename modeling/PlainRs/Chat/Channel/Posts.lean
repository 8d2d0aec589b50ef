import PlainRs.Chat.Channel.Device

/-! What an action of a device can post, and that a broadcast leaves nobody out. -/
namespace PlainRs.Chat.ChatService

open PlainRs.Crypto PlainRs.Utils

/-- A message of a member to the owner of its channel. -/
def isReply : ChannelSystemMessage → Bool
  | .inviteAccept _ | .inviteDecline _ | .leave _ => true
  | _ => false

/-- Every way an action can post a message. -/
inductive PostStep (d : Dalek) (svc : ChatService) : DeviceAction → Post → Prop
  | invite {c p now ch} {post : Post} (hr : svc.db.getChannelById c = some ch)
      (ho : ch.ownerId = svc.identity.clientId)
      (hr' : (svc.act d (.addChannelMember c p now)).1.db.getChannelById c =
        some (withRoster now ch (ch.members ++ [.pending p])))
      (hp : post.peer.id = p)
      (hmsg : post.message = .invite (inviteMessage d svc
        (withRoster now ch (ch.members ++ [.pending p])) post.peer))
      (hfrom : post.clientId = svc.identity.clientId) :
    PostStep d svc (.addChannelMember c p now) post
  | update {a c ch ch' svc'} {post : Post} (hr : svc.db.getChannelById c = some ch)
      (ho : ch.ownerId = svc.identity.clientId)
      (hr' : (svc.act d a).1.db.getChannelById c = some ch') (hv : ch'.version = ch.version + 1)
      (hm : hasMember ch'.members post.peer.id = true) (hn : post.peer.id ≠ svc.identity.clientId)
      (hid : svc'.identity = svc.identity)
      (hmsg : post.message = .update (updateMessage d svc' ch'))
      (hfrom : post.clientId = svc.identity.clientId) : PostStep d svc a post
  | kick {c p now ch} {post : Post} (hr : svc.db.getChannelById c = some ch)
      (ho : ch.ownerId = svc.identity.clientId)
      (hr' : (svc.act d (.removeChannelMember c p now)).1.db.getChannelById c =
        some (withRoster now ch (withoutMember ch.members p)))
      (hp : post.peer.id = p)
      (hmsg : post.message = .kick (kickMessage d svc c (ch.version + 1) p))
      (hfrom : post.clientId = svc.identity.clientId)
      (hm : hasMember ch.members p = true) (hpeer : svc.db.getPeerById p = some post.peer) :
    PostStep d svc (.removeChannelMember c p now) post
  | deleteKick {c now ch} {post : Post} (hr : svc.db.getChannelById c = some ch)
      (ho : ch.ownerId = svc.identity.clientId)
      (hr' : (svc.act d (.deleteChannel c now)).1.db.getChannelById c = none)
      (hmsg : post.message = .kick (kickMessage d svc c ch.version ""))
      (hfrom : post.clientId = svc.identity.clientId) :
    PostStep d svc (.deleteChannel c now) post
  | reply {a c ch} {post : Post} (hop : a.isMemberOp = true) (hr : svc.db.getChannelById c = some ch)
      (hp : post.peer.id = ch.ownerId) (h : isReply post.message = true)
      (hfrom : post.clientId = svc.identity.clientId) : PostStep d svc a post

variable {d : Dalek} {svc : ChatService} {a : DeviceAction} {post : Post} {c : String}
  {ch : DChannel}

/-- A broadcast of the row an owner's action left is a step of that action. -/
theorem PostStep.of_broadcast {svc' : ChatService} {ch' : DChannel}
    (h : post ∈ broadcastUpdate d svc' ch') (hid : svc'.identity = svc.identity)
    (hr : svc.db.getChannelById c = some ch) (ho : ch.ownerId = svc.identity.clientId)
    (hv : ch'.version = ch.version + 1) (hr' : (svc.act d a).1.db.getChannelById c = some ch') :
    PostStep d svc a post := by
  obtain ⟨hm, hn, -, hfrom, hmsg⟩ := mem_broadcast h
  exact .update hr ho hr' hv hm (hid ▸ hn) hid hmsg (hid ▸ hfrom)

theorem mem_spawnBroadcast (h : post ∈ (spawnBroadcast d svc ch).1) :
    post ∈ broadcastUpdate d svc ch := by
  unfold spawnBroadcast at h
  split at h
  · cases h
  · exact h

theorem postStep_receive {fromId now : String} {m : ChannelSystemMessage}
    (h : post ∈ (svc.dispatch d fromId now m).posts) :
    PostStep d svc (.receive fromId m now) post := by
  cases m with
  | inviteAccept msg =>
    simp only [dispatch, handleInviteAccept] at h
    split at h
    · cases h
    · next he =>
      split at h
      · cases h
      · next ch hch =>
        split at h
        · cases h
        · next ho =>
          refine .of_broadcast (mem_spawnBroadcast h) rfl hch (by simpa using ho) rfl ?_
          rw [act, service_receive]
          simp only [dispatch, handleInviteAccept, if_neg he, hch, if_neg ho]
          exact writeBack_self (fun _ => getChannelById_recordAccepter) hch rfl rfl
  | leave msg =>
    simp only [dispatch, handleLeave] at h
    split at h
    · cases h
    · next ch hch =>
      split at h
      · cases h
      · next ho =>
        refine .of_broadcast (mem_spawnBroadcast h) rfl hch (by simpa using ho) rfl ?_
        rw [act, service_receive]
        simp only [dispatch, handleLeave, hch, if_neg ho]
        exact writeBack_self (fun _ => rfl) hch rfl rfl
  | invite msg =>
    simp only [dispatch, handleInvite] at h
    repeat' split at h
    all_goals cases h
  | inviteDecline msg =>
    simp only [dispatch, handleInviteDecline] at h
    repeat' split at h
    all_goals cases h
  | update msg =>
    simp only [dispatch, handleUpdate] at h
    repeat' split at h
    all_goals cases h
  | kick msg =>
    simp only [dispatch, handleKick] at h
    repeat' split at h
    all_goals cases h
  | unreadable => cases h

theorem postStep_rename {id name now : String}
    (h : post ∈ (svc.updateChannelName d now id name).posts) :
    PostStep d svc (.updateChannelName id name now) post := by
  simp only [updateChannelName] at h
  split at h
  · cases h
  · next ch hch =>
    split at h
    · next ho =>
      refine .of_broadcast h rfl hch ho rfl ?_
      simp only [act, updateChannelName, hch]
      exact writeBack_self (fun _ => rfl) hch rfl rfl
    · cases h

theorem postStep_delete {id now : String} (h : post ∈ (svc.deleteChannel d now id).posts) :
    PostStep d svc (.deleteChannel id now) post := by
  simp only [deleteChannel] at h
  split at h
  · cases h
  · next ch hch =>
    split at h
    · next ho =>
      obtain ⟨-, -, -, hfrom, hmsg⟩ := mem_broadcast h
      refine .deleteKick hch ho ?_ (ChatDb.id_of_getChannelById hch ▸ hmsg) hfrom
      simp [act, deleteChannel, ChatDb.getChannelById_deleteChannel]
    · cases h

theorem postStep_add {id peerId now : String}
    (h : post ∈ (svc.addChannelMember d now id peerId).posts) :
    PostStep d svc (.addChannelMember id peerId now) post := by
  simp only [addChannelMember] at h
  split at h
  · cases h
  · next ch hch =>
    split at h
    · cases h
    · next ho =>
      split at h
      · cases h
      · next hm =>
        dsimp only at h
        split at h
        · next peer hp =>
          obtain ⟨rfl, hfrom, hmsg, -⟩ := mem_deliverType h
          refine .invite hch (by simpa using ho) ?_ (ChatDb.id_of_getPeerById hp) hmsg hfrom
          simp only [act, addChannelMember, hch, if_neg ho, if_neg hm]
          exact writeBack_self (fun _ => rfl) hch rfl rfl
        · cases h

theorem postStep_remove {id peerId now : String}
    (h : post ∈ (svc.removeChannelMember d now id peerId).posts) :
    PostStep d svc (.removeChannelMember id peerId now) post := by
  simp only [removeChannelMember] at h
  split at h
  · cases h
  · next ch hch =>
    split at h
    · cases h
    · next ho =>
      have ho : ch.ownerId = svc.identity.clientId := by simpa using ho
      split at h
      · cases h
      · next hm =>
        have hr' : (svc.act d (.removeChannelMember id peerId now)).1.db.getChannelById id =
            some (withRoster now ch (withoutMember ch.members peerId)) := by
          simp only [act, removeChannelMember, hch, ho, ne_eq, not_true_eq_false, if_false, if_neg hm]
          exact writeBack_self (fun _ => rfl) hch rfl rfl
        rcases List.mem_append.mp h with h | h
        · split at h
          · next peer hp =>
            have hid := ChatDb.id_of_getPeerById hp
            obtain ⟨rfl, hfrom, hmsg, -⟩ := mem_deliverType h
            refine .kick hch ho hr' hid ?_ hfrom (by simpa using hm) hp
            rw [hmsg, hid, ← ChatDb.id_of_getChannelById hch]
            rfl
          · cases h
        · exact .of_broadcast h rfl hch ho rfl hr'

theorem PostStep.of_deliver {peer : DPeer} {id : String} {m : ChannelSystemMessage} {key : Bytes}
    {cache : KeyCache} (hop : a.isMemberOp = true) (hm : isReply m = true)
    (hr : svc.db.getChannelById c = some ch) (hp : svc.db.getPeerById ch.ownerId = some peer)
    (h : post ∈ deliverType peer svc.identity.clientId m id key cache) : PostStep d svc a post := by
  obtain ⟨rfl, hfrom, hmsg, -⟩ := mem_deliverType h
  exact .reply hop hr (ChatDb.id_of_getPeerById hp) (hmsg ▸ hm) hfrom

/-- A post of an action is one of the listed ones. -/
theorem postStep_act (h : post ∈ (svc.act d a).2) : PostStep d svc a post := by
  cases a with
  | createChannel id key name now => cases h
  | updateChannelName id name now => exact postStep_rename h
  | deleteChannel id now => exact postStep_delete h
  | leaveChannel id now =>
    simp only [act, leaveChannel] at h
    split at h
    · cases h
    · next ch hch =>
      split at h
      · split at h
        · next peer hp => exact .of_deliver rfl rfl hch hp h
        · cases h
      · cases h
  | addChannelMember id peerId now => exact postStep_add h
  | removeChannelMember id peerId now => exact postStep_remove h
  | acceptChannelInvite id =>
    simp only [act, acceptChannelInvite] at h
    split at h
    · cases h
    · next ch hch =>
      split at h
      · cases h
      · next peer hp => exact .of_deliver rfl rfl hch hp h
  | declineChannelInvite id =>
    simp only [act, declineChannelInvite] at h
    split at h
    · cases h
    · next ch hch =>
      split at h
      · next peer hp => exact .of_deliver rfl rfl hch hp h
      · cases h
  | deletePeer id now =>
    simp only [act, deletePeer] at h
    split at h <;> cases h
  | receive fromId m now =>
    rw [act, posts_receive] at h
    exact postStep_receive h

end PlainRs.Chat.ChatService
