import PlainRs.Chat.Channel.Posts

/-! What an action leaves of a paired peer's row, and that a broadcast reaches every paired member
of the roster. -/
namespace PlainRs.Chat

open PlainRs.Crypto PlainRs.Utils

/-- The peer's row is paired under a key that the cache holds too, and has this public key. -/
structure Paired (svc : ChatService) (id publicKey : String) (key : Bytes) : Prop where
  cached : svc.peerKeyCache id = some key
  stored : ∃ p, svc.db.getPeerById id = some p ∧ peerCacheEntry p = some key ∧
    p.publicKey = publicKey

/-- The later row of a peer has the key, the status and any public key of the earlier one. -/
structure PeerKept (p q : DPeer) : Prop where
  key : q.key = p.key
  status : q.status = p.status
  publicKey : p.publicKey ≠ "" → q.publicKey = p.publicKey

namespace DeviceAction

def deletesPeer : DeviceAction → Bool
  | .deletePeer _ _ => true
  | _ => false

end DeviceAction

variable {d : Dalek} {svc : ChatService} {a : DeviceAction} {db : ChatDb} {p q : DPeer}
  {id k fromId now pk : String} {key : Bytes} {ch : DChannel} {message : ChannelSystemMessage}

theorem PeerKept.refl : PeerKept p p := ⟨rfl, rfl, fun _ => rfl⟩

theorem PeerKept.peerCacheEntry (h : PeerKept p q) : peerCacheEntry q = peerCacheEntry p := by
  unfold Chat.peerCacheEntry DPeer.isPaired
  rw [h.key, h.status]

/-- The device type of a row that was read is not `nas`, which no row reads back as. -/
theorem deviceType_ne_nas (h : db.getPeerById id = some p) : p.deviceType ≠ .nas := by
  obtain ⟨row, -, hp⟩ := Option.bind_eq_some_iff.mp h
  obtain ⟨s, t, -, ht, rfl⟩ := rowToPeer_eq_some.mp hp
  rintro rfl
  exact DeviceType.fromStr_ne_nas ht

theorem getPeerById_createMissingPeers {ps : List MemberPeerInfo} (h : db.getPeerById k = some p) :
    (createMissingPeers db fromId now ps).getPeerById k = some p := by
  unfold createMissingPeers
  induction ps generalizing db with
  | nil => exact h
  | cons m ms ih =>
    rw [List.foldl_cons]
    refine ih ?_
    by_cases hk : m.id = k
    · rw [if_pos (.inr (.inr (by rw [hk, h]; rfl)))]
      exact h
    · split
      · exact h
      · rw [ChatDb.getPeerById_upsertPeer_ne (fun he => hk he.symm), h]

theorem getPeerById_recordAccepter_ne {msg : ChannelInviteAccept} (hk : k ≠ fromId) :
    (svc.recordAccepter fromId now msg).getPeerById k = svc.db.getPeerById k := by
  unfold ChatService.recordAccepter
  split
  · exact ChatDb.getPeerById_upsertPeer_ne hk
  · next p hp =>
    have hid := ChatDb.id_of_getPeerById hp
    dsimp only
    split
    · exact ChatDb.getPeerById_upsertPeer_ne (hid ▸ hk)
    · rfl

/-- An acceptance completes the accepter's row and keeps every other one. -/
theorem kept_recordAccepter {msg : ChannelInviteAccept} (h : svc.db.getPeerById k = some p) :
    ∃ q, (svc.recordAccepter fromId now msg).getPeerById k = some q ∧ PeerKept p q := by
  by_cases hk : k = fromId
  · subst hk
    have hid := ChatDb.id_of_getPeerById h
    have hne := deviceType_ne_nas h
    simp only [ChatService.recordAccepter, h]
    split
    · have hself : ∀ row : DPeer, row.id = p.id → row.deviceType = p.deviceType →
          ∃ t, (svc.db.upsertPeer row).getPeerById k = some { row with createdAt := t } := by
        intro row hrow ht
        rw [← hid, ← hrow, ChatDb.getPeerById_upsertPeer_self (ht ▸ hne)]
        exact ⟨_, rfl⟩
      obtain ⟨t, ht⟩ := hself { p with
        publicKey := if decide (p.publicKey = "" ∧ msg.publicKey ≠ "") then msg.publicKey
          else p.publicKey
        name := if decide (p.name = "" ∧ msg.name ≠ "") then msg.name else p.name
        updatedAt := now } rfl rfl
      exact ⟨_, ht, rfl, rfl, fun hpk => by simp [hpk]⟩
    · exact ⟨p, h, .refl⟩
  · exact ⟨p, (getPeerById_recordAccepter_ne hk).trans h, .refl⟩

/-- What a received message leaves of a peer's row. -/
theorem kept_dispatch (h : svc.db.getPeerById k = some p) :
    ∃ q, (svc.dispatch d fromId now message).service.db.getPeerById k = some q ∧ PeerKept p q := by
  cases message with
  | invite msg =>
    refine ⟨p, ?_, .refl⟩
    simp only [ChatService.dispatch, ChatService.handleInvite]
    repeat' split
    all_goals try exact h
    simp only [ChatService.db_loadKeyCache, ChatService.inviteDb]
    split <;> simp only [ChatDb.getPeerById_updateChannel, ChatDb.getPeerById_insertChannel] <;>
      exact getPeerById_createMissingPeers h
  | inviteAccept msg =>
    simp only [ChatService.dispatch, ChatService.handleInviteAccept]
    repeat' split
    all_goals try exact ⟨p, h, .refl⟩
    exact kept_recordAccepter h
  | inviteDecline msg =>
    refine ⟨p, ?_, .refl⟩
    simp only [ChatService.dispatch, ChatService.handleInviteDecline]
    repeat' split
    all_goals exact h
  | update msg =>
    refine ⟨p, ?_, .refl⟩
    simp only [ChatService.dispatch, ChatService.handleUpdate]
    repeat' split
    all_goals try exact h
    exact getPeerById_createMissingPeers h
  | kick msg =>
    refine ⟨p, ?_, .refl⟩
    simp only [ChatService.dispatch, ChatService.handleKick]
    repeat' split
    all_goals exact h
  | leave msg =>
    refine ⟨p, ?_, .refl⟩
    simp only [ChatService.dispatch, ChatService.handleLeave]
    repeat' split
    all_goals exact h
  | unreadable => exact ⟨p, h, .refl⟩

/-- No operation of the user but `delete_peer` writes a peer's row. -/
theorem getPeerById_act_local (hl : ∀ fromId message now, a ≠ .receive fromId message now)
    (hd : a.deletesPeer = false) :
    (svc.act d a).1.db.getPeerById k = svc.db.getPeerById k := by
  cases a with
  | createChannel id key name now => rfl
  | updateChannelName id name now =>
    simp only [ChatService.act, ChatService.updateChannelName]
    split <;> rfl
  | deleteChannel id now =>
    simp only [ChatService.act, ChatService.deleteChannel, ChatService.db_refreshPeerKeyCache,
      ChatDb.getPeerById_deleteChannel]
    split <;> rfl
  | leaveChannel id now =>
    simp only [ChatService.act, ChatService.leaveChannel]
    split <;> [rfl; split <;> rfl]
  | addChannelMember id peerId now =>
    simp only [ChatService.act, ChatService.addChannelMember]
    split <;> [rfl; split <;> [rfl; split <;> rfl]]
  | removeChannelMember id peerId now =>
    simp only [ChatService.act, ChatService.removeChannelMember]
    split <;> [rfl; split <;> [rfl; split <;> rfl]]
  | acceptChannelInvite id =>
    simp only [ChatService.act, ChatService.acceptChannelInvite]
    split <;> [rfl; split <;> rfl]
  | declineChannelInvite id =>
    simp only [ChatService.act, ChatService.declineChannelInvite]
    split <;> rfl
  | deletePeer id now => simp [DeviceAction.deletesPeer] at hd
  | receive fromId m now => exact absurd rfl (hl fromId m now)

theorem kept_act (h : svc.db.getPeerById k = some p) (hd : a.deletesPeer = false) :
    ∃ q, (svc.act d a).1.db.getPeerById k = some q ∧ PeerKept p q := by
  by_cases hl : ∃ fromId message now, a = .receive fromId message now
  · obtain ⟨fromId, message, now, rfl⟩ := hl
    rw [ChatService.act, ChatService.service_receive]
    exact kept_dispatch h
  · push Not at hl
    exact ⟨p, (getPeerById_act_local hl hd).trans h, .refl⟩

/-- The key cache is the one before, or is loaded from the rows the action left. -/
def CacheStep (svc svc' : ChatService) : Prop :=
  svc'.peerKeyCache = svc.peerKeyCache ∨
    ∀ id, svc'.peerKeyCache id = (svc'.db.getPeerById id).bind peerCacheEntry

theorem cacheStep_dispatch : CacheStep svc (svc.dispatch d fromId now message).service := by
  cases message <;> simp only [ChatService.dispatch, ChatService.handleInvite,
    ChatService.handleInviteAccept, ChatService.handleInviteDecline, ChatService.handleUpdate,
    ChatService.handleKick, ChatService.handleLeave] <;> repeat' split
  all_goals first
    | exact .inl rfl
    | exact .inr fun _ => ChatService.peerKeyCache_load

theorem cacheStep_act : CacheStep svc (svc.act d a).1 := by
  cases a with
  | createChannel id key name now => exact .inl rfl
  | updateChannelName id name now =>
    simp only [ChatService.act, ChatService.updateChannelName]
    split <;> exact .inl rfl
  | deleteChannel id now => exact .inr fun _ => ChatService.peerKeyCache_refresh
  | leaveChannel id now =>
    simp only [ChatService.act, ChatService.leaveChannel]
    split
    · exact .inl rfl
    · split
      · exact .inr fun _ => ChatService.peerKeyCache_refresh
      · exact .inl rfl
  | addChannelMember id peerId now =>
    simp only [ChatService.act, ChatService.addChannelMember]
    split <;> [exact .inl rfl; split <;> [exact .inl rfl; split <;> exact .inl rfl]]
  | removeChannelMember id peerId now =>
    simp only [ChatService.act, ChatService.removeChannelMember]
    split <;> [exact .inl rfl; split <;> [exact .inl rfl; split <;> exact .inl rfl]]
  | acceptChannelInvite id =>
    simp only [ChatService.act, ChatService.acceptChannelInvite]
    split
    · exact .inl rfl
    · split
      · exact .inl rfl
      · exact .inr fun _ => ChatService.peerKeyCache_load
  | declineChannelInvite id =>
    simp only [ChatService.act, ChatService.declineChannelInvite]
    split
    · exact .inl rfl
    · exact .inr fun _ => ChatService.peerKeyCache_refresh
  | deletePeer id now =>
    simp only [ChatService.act, ChatService.deletePeer]
    split
    · exact .inl rfl
    · exact .inr fun _ => ChatService.peerKeyCache_refresh
  | receive fromId m now =>
    rw [ChatService.act, ChatService.service_receive]
    exact cacheStep_dispatch

/-- A peer stays paired under its keys as long as it is not deleted. -/
theorem paired_act (h : Paired svc id pk key) (hpk : pk ≠ "") (hd : a.deletesPeer = false) :
    Paired (svc.act d a).1 id pk key := by
  obtain ⟨hc, p, hp, he, rfl⟩ := h
  obtain ⟨q, hq, hkept⟩ := kept_act (d := d) hp hd
  have he := hkept.peerCacheEntry.trans he
  refine ⟨?_, q, hq, he, hkept.publicKey hpk⟩
  rcases cacheStep_act (d := d) (a := a) with hsame | hload
  · rw [hsame, hc]
  · rw [hload, hq, Option.bind_some, he]

theorem Paired.key_eq (h : Paired svc id pk key) :
    ∃ p, svc.db.getPeerById id = some p ∧ p.key ≠ "" ∧ key.length = 32 := by
  obtain ⟨-, p, hp, he, -⟩ := h
  unfold peerCacheEntry rawKey at he
  split at he
  · next hk =>
    split at he
    · next hl => exact ⟨p, hp, hk.1, Option.some.inj he ▸ hl⟩
    · cases he
  · cases he

/-- A broadcast leaves no paired member of the roster out. -/
theorem broadcast_reaches (h : Paired svc id pk key) (hm : hasMember ch.members id = true)
    (hne : id ≠ svc.identity.clientId) :
    ∃ post ∈ broadcast svc ch message, post.peer.id = id ∧ post.message = message := by
  obtain ⟨p, hp, hk, hlen⟩ := h.key_eq
  have hid := ChatDb.id_of_getPeerById hp
  obtain ⟨m, hmem, rfl⟩ := hasMember_iff.mp hm
  refine ⟨⟨p, svc.identity.clientId, none, key, message⟩, ?_, hid, rfl⟩
  refine List.mem_flatMap.mpr ⟨m.peerId, List.mem_filterMap.mpr ⟨m, hmem, if_neg hne⟩, ?_⟩
  simp [hp, deliverType, hk, hid, h.cached, hlen]

end PlainRs.Chat
