import PlainRs.Chat.Channel.Paired
import PlainRs.Chat.Pairing.Manager

/-! The key caches against the database, over every operation that changes peers or channels. -/
namespace PlainRs.Chat

open Keyed PlainRs.Crypto PlainRs.Utils

/-- A chat service and the pairing manager that shares its database and identity. -/
structure Node where
  service : ChatService
  localDeviceType : String
  sessions : String → Option PairingSession

namespace Node

variable (n : Node)

def manager : PairingManager :=
  ⟨n.service.db, n.service.identity, n.localDeviceType, n.sessions⟩

/-- The manager writes to the database and to its sessions, not to the caches. -/
def withManager (mgr : PairingManager) : Node :=
  { n with
    service := { n.service with db := mgr.db }
    sessions := mgr.sessions }

/-- The node as `ChatService::new` leaves it: both caches loaded, no pairing under way. -/
def started : Node :=
  { n with
    service := n.service.loadKeyCache
    sessions := fun _ => none }

end Node

inductive NodeOp
  | device (a : DeviceAction)
  | unpairPeer (id now : String)
  | startPairing (env : Surroundings) (secret : Bytes) (deviceId deviceName deviceIp : String)
      (devicePort localPort : UInt16)
  | requestFailed (deviceId deviceName : String)
  | responseTimeout (deviceId deviceName : String)
  | cancelPairing (deviceId : String)
  | respondToPairing (env : Surroundings) (secret : Bytes) (request : PairingRequest)
      (senderIp : String) (accepted : Bool) (localPort : UInt16)
  | nearbyPost (env : Surroundings) (senderIp : String) (message : NearbyMessage)

def Node.step (d : Dalek) (e : Ecdh) (n : Node) : NodeOp → Node
  | .device a => { n with service := (n.service.act d a).1 }
  | .unpairPeer id now => { n with service := (n.service.unpairPeer id now).service }
  | .startPairing env secret deviceId deviceName deviceIp devicePort localPort =>
    n.withManager (n.manager.startPairing d e env secret deviceId deviceName deviceIp devicePort
      localPort).manager
  | .requestFailed deviceId deviceName =>
    n.withManager (n.manager.requestFailed deviceId deviceName).manager
  | .responseTimeout deviceId deviceName =>
    n.withManager (n.manager.responseTimeout deviceId deviceName).manager
  | .cancelPairing deviceId => n.withManager (n.manager.cancelPairing deviceId).manager
  | .respondToPairing env secret request senderIp accepted localPort =>
    n.withManager
      (n.manager.respondToPairing d e env secret request senderIp accepted localPort).manager
  | .nearbyPost env senderIp message =>
    n.withManager (n.manager.handleNearbyPost d e env senderIp message).manager

/-- The peer key cache holds exactly the paired peers whose key decodes to 32 bytes. -/
def PeersMirrored (svc : ChatService) : Prop :=
  ∀ id, svc.peerKeyCache id = (svc.db.getPeerById id).bind peerCacheEntry

/-- The channel key cache holds exactly the channels whose key decodes to 32 bytes. -/
def ChannelsMirrored (svc : ChatService) : Prop :=
  ∀ id, svc.channelKeyCache id = (svc.db.getChannelById id).bind channelCacheEntry

def Mirrored (svc : ChatService) : Prop := PeersMirrored svc ∧ ChannelsMirrored svc

/-- What an operation must not do, since it does not reload the cache concerned: create a channel
with a key, drop a channel with one, or pair under a key that is not the cached one. -/
def KeepsCaches (d : Dalek) (e : Ecdh) (n : Node) : NodeOp → Prop
  | .device (.createChannel id key _ _) =>
    (n.service.db.getChannelById id).isSome ∨ key.length ≠ 32
  | .device (.deleteChannel id _) | .device (.declineChannelInvite id) =>
    (n.service.db.getChannelById id).bind channelCacheEntry = none
  | .respondToPairing _ secret request _ accepted _ =>
    accepted = true →
      ∀ shared ∈ e.computeSharedKey secret (base64Decode request.ecdhPublicKey),
        (n.service.db.getPeerById request.fromId).bind peerCacheEntry = some shared.1
  | .nearbyPost env _ (.response resp) => ∀ shared ∈ n.manager.completedKey d e env resp,
    (n.service.db.getPeerById resp.fromId).bind peerCacheEntry = some shared.1
  | _ => True

/-- After each operation of a run the caches mirror the database. -/
def MirroredAlong (d : Dalek) (e : Ecdh) : Node → List NodeOp → Prop
  | _, [] => True
  | n, op :: ops => Mirrored (n.step d e op).service ∧ MirroredAlong d e (n.step d e op) ops

/-- Each operation of a run meets the condition in the state it finds. -/
def KeptAlong (d : Dalek) (e : Ecdh) : Node → List NodeOp → Prop
  | _, [] => True
  | n, op :: ops => KeepsCaches d e n op ∧ KeptAlong d e (n.step d e op) ops

variable {d : Dalek} {e : Ecdh} {n : Node} {svc : ChatService} {a : DeviceAction} {db : ChatDb}
  {peer : DPeer} {key : Bytes} {fromId now k : String} {message : ChannelSystemMessage}

theorem mirrored_loadKeyCache : Mirrored svc.loadKeyCache :=
  ⟨fun _ => ChatService.peerKeyCache_load, fun _ => ChatService.channelKeyCache_load⟩

/-- The cache entry a stored peer stands for. -/
def peerEntry (db : ChatDb) (id : String) : Option Bytes := (db.getPeerById id).bind peerCacheEntry

/-- A write that leaves the caches alone keeps them right as far as it keeps the entries. -/
theorem peersMirrored_of_entries (h : PeersMirrored svc) {svc' : ChatService}
    (hc : svc'.peerKeyCache = svc.peerKeyCache)
    (he : ∀ id, peerEntry svc'.db id = peerEntry svc.db id) : PeersMirrored svc' := by
  intro id
  rw [hc, h id]
  exact (he id).symm

theorem peerEntry_upsertPeer_ne (h : k ≠ peer.id) :
    peerEntry (db.upsertPeer peer) k = peerEntry db k := by
  rw [peerEntry, ChatDb.getPeerById_upsertPeer_ne h, peerEntry]

theorem peerEntry_upsertPeer_self (h : peer.deviceType ≠ .nas) :
    peerEntry (db.upsertPeer peer) peer.id = peerCacheEntry peer := by
  rw [peerEntry, ChatDb.getPeerById_upsertPeer_self h]
  rfl

/-- A new row without a key, or one that does not read back, adds no entry. -/
theorem peerEntry_upsertPeer_keyless (h : k = peer.id → db.getPeerById k = none)
    (hkey : peer.key = "") : peerEntry (db.upsertPeer peer) k = peerEntry db k := by
  by_cases hk : k = peer.id
  · have hnone : peerEntry db k = none := by rw [peerEntry, h hk, Option.bind_none]
    rw [hnone, hk]
    by_cases hnas : peer.deviceType = .nas
    · rw [peerEntry, ChatDb.getPeerById_upsertPeer_nas hnas, Option.bind_none]
    · rw [peerEntry_upsertPeer_self hnas, peerCacheEntry, if_neg (fun hc => hc.1 hkey)]
  · exact peerEntry_upsertPeer_ne hk

/-- The peers that an update or an invite adds have no key. -/
theorem peerEntry_createMissingPeers {ps : List MemberPeerInfo} :
    peerEntry (createMissingPeers db fromId now ps) k = peerEntry db k := by
  unfold createMissingPeers
  induction ps generalizing db with
  | nil => rfl
  | cons m ms ih =>
    rw [List.foldl_cons, ih]
    split
    · rfl
    · next hm =>
      refine peerEntry_upsertPeer_keyless (fun hk => ?_) rfl
      subst hk
      by_contra hsome
      exact hm (.inr (.inr (Option.isSome_iff_ne_none.mpr hsome)))

theorem peersMirrored_dispatch (h : PeersMirrored svc) :
    PeersMirrored (svc.dispatch d fromId now message).service := by
  cases message with
  | invite msg =>
    simp only [ChatService.dispatch, ChatService.handleInvite]
    repeat' split
    all_goals first
      | exact h
      | exact mirrored_loadKeyCache.1
  | inviteAccept msg =>
    simp only [ChatService.dispatch, ChatService.handleInviteAccept]
    repeat' split
    all_goals first
      | exact h
      | exact mirrored_loadKeyCache.1
  | update msg =>
    simp only [ChatService.dispatch, ChatService.handleUpdate]
    repeat' split
    all_goals try exact h
    exact peersMirrored_of_entries h rfl fun id => peerEntry_createMissingPeers
  | inviteDecline msg =>
    simp only [ChatService.dispatch, ChatService.handleInviteDecline]
    repeat' split
    all_goals exact h
  | kick msg =>
    simp only [ChatService.dispatch, ChatService.handleKick]
    repeat' split
    all_goals exact h
  | leave msg =>
    simp only [ChatService.dispatch, ChatService.handleLeave]
    repeat' split
    all_goals exact h
  | unreadable => exact h

theorem DeviceAction.deletesPeer_iff : a.deletesPeer = true ↔ ∃ id now, a = .deletePeer id now := by
  cases a <;> simp [DeviceAction.deletesPeer]

theorem peersMirrored_act (h : PeersMirrored svc) : PeersMirrored (svc.act d a).1 := by
  by_cases hl : ∃ fromId message now, a = .receive fromId message now
  · obtain ⟨fromId, message, now, rfl⟩ := hl
    rw [ChatService.act, ChatService.service_receive]
    exact peersMirrored_dispatch h
  · push Not at hl
    by_cases hd : a.deletesPeer = true
    · obtain ⟨id, now, rfl⟩ := DeviceAction.deletesPeer_iff.mp hd
      simp only [ChatService.act, ChatService.deletePeer]
      split
      · exact h
      · exact fun _ => ChatService.peerKeyCache_refresh
    · have hstep : CacheStep svc (svc.act d a).1 := cacheStep_act
      rcases hstep with hsame | hload
      · refine peersMirrored_of_entries h hsame fun id => ?_
        rw [peerEntry, getPeerById_act_local hl (by simpa using hd), peerEntry]
      · exact hload

/-- The cache entry a stored channel stands for. -/
def channelEntry (db : ChatDb) (id : String) : Option Bytes :=
  (db.getChannelById id).bind channelCacheEntry

theorem channelsMirrored_of_entries (h : ChannelsMirrored svc) {svc' : ChatService}
    (hc : svc'.channelKeyCache = svc.channelKeyCache)
    (he : ∀ id, channelEntry svc'.db id = channelEntry svc.db id) : ChannelsMirrored svc' := by
  intro id
  rw [hc, h id]
  exact (he id).symm

/-- Apart from a channel's birth, its end and an invite to it, no step changes its key. -/
theorem channelEntry_of_rowStep {c : String} {r r' : Option DChannel}
    (h : ChatService.RowStep d svc a c r r') (hc : ∀ key name now, a ≠ .createChannel c key name now)
    (hd : ∀ now, a ≠ .deleteChannel c now) (hn : a ≠ .declineChannelInvite c)
    (hi : ∀ fromId msg now, a ≠ .receive fromId (.invite msg) now) :
    r'.bind channelCacheEntry = r.bind channelCacheEntry := by
  cases h with
  | created => exact absurd rfl (hc _ _ _)
  | deleted => exact absurd rfl (hd _)
  | declinedInvite => exact absurd rfl hn
  | invited | reinvited => exact absurd rfl (hi _ _ _)
  | _ => rfl

/-- The channel key cache is the one before, or is loaded from the rows the action left. -/
def ChannelCacheStep (svc svc' : ChatService) : Prop :=
  svc'.channelKeyCache = svc.channelKeyCache ∨ ChannelsMirrored svc'

theorem channelCacheStep_dispatch :
    ChannelCacheStep svc (svc.dispatch d fromId now message).service := by
  cases message <;> simp only [ChatService.dispatch, ChatService.handleInvite,
    ChatService.handleInviteAccept, ChatService.handleInviteDecline, ChatService.handleUpdate,
    ChatService.handleKick, ChatService.handleLeave] <;> repeat' split
  all_goals first
    | exact .inl rfl
    | exact .inr mirrored_loadKeyCache.2

theorem channelCacheStep_act : ChannelCacheStep svc (svc.act d a).1 := by
  cases a with
  | createChannel id key name now => exact .inl rfl
  | updateChannelName id name now =>
    simp only [ChatService.act, ChatService.updateChannelName]
    split <;> exact .inl rfl
  | deleteChannel id now => exact .inl rfl
  | leaveChannel id now =>
    simp only [ChatService.act, ChatService.leaveChannel]
    split <;> [exact .inl rfl; split <;> exact .inl rfl]
  | addChannelMember id peerId now =>
    simp only [ChatService.act, ChatService.addChannelMember]
    split <;> [exact .inl rfl; split <;> [exact .inl rfl; split <;> exact .inl rfl]]
  | removeChannelMember id peerId now =>
    simp only [ChatService.act, ChatService.removeChannelMember]
    split <;> [exact .inl rfl; split <;> [exact .inl rfl; split <;> exact .inl rfl]]
  | acceptChannelInvite id =>
    simp only [ChatService.act, ChatService.acceptChannelInvite]
    split <;> [exact .inl rfl; split <;> [exact .inl rfl; exact .inr mirrored_loadKeyCache.2]]
  | declineChannelInvite id =>
    simp only [ChatService.act, ChatService.declineChannelInvite]
    split <;> exact .inl rfl
  | deletePeer id now =>
    simp only [ChatService.act, ChatService.deletePeer]
    split <;> exact .inl rfl
  | receive fromId m now =>
    rw [ChatService.act, ChatService.service_receive]
    exact channelCacheStep_dispatch

/-- A taken invite reloads the channel key cache, and any other leaves the rows alone. -/
theorem channelsMirrored_invite {msg : ChannelInvite} (h : ChannelsMirrored svc) :
    ChannelsMirrored (svc.dispatch d fromId now (.invite msg)).service := by
  simp only [ChatService.dispatch, ChatService.handleInvite]
  repeat' split
  all_goals first
    | exact h
    | exact mirrored_loadKeyCache.2

/-- The actions that neither add nor drop a channel of the user's own accord. -/
theorem channelsMirrored_act (h : ChannelsMirrored svc)
    (hc : ∀ id key name now, a ≠ .createChannel id key name now)
    (hd : ∀ id now, a ≠ .deleteChannel id now) (hn : ∀ id, a ≠ .declineChannelInvite id) :
    ChannelsMirrored (svc.act d a).1 := by
  by_cases hi : ∃ fromId msg now, a = .receive fromId (.invite msg) now
  · obtain ⟨fromId, msg, now, rfl⟩ := hi
    rw [ChatService.act, ChatService.service_receive]
    exact channelsMirrored_invite h
  · push Not at hi
    have hstep : ChannelCacheStep svc (svc.act d a).1 := channelCacheStep_act
    rcases hstep with hsame | hload
    · refine channelsMirrored_of_entries h hsame fun id => ?_
      exact channelEntry_of_rowStep ChatService.rowStep_act (hc id) (hd id) (hn id) hi
    · exact hload

theorem rawKey_encode : rawKey (base64Encode key) = if key.length = 32 then some key else none := by
  rw [rawKey, base64Decode_encode]

theorem channelCacheEntry_newChannel {id name : String} :
    channelCacheEntry (svc.newChannel now id key name) = if key.length = 32 then some key else none := by
  have hkey : (svc.newChannel now id key name).key = base64Encode key := rfl
  rw [channelCacheEntry, hkey, rawKey_encode]
  split
  · rfl
  · next hk =>
    have hempty : key = [] := base64Encode_eq_empty.mp (not_not.mp hk)
    subst hempty
    rfl

/-- Created channels come without their cache entry. -/
theorem channelsMirrored_create {id name : String} (h : ChannelsMirrored svc) :
    ChannelsMirrored (svc.createChannel now id key name).service ↔
      (svc.db.getChannelById id).isSome ∨ key.length ≠ 32 := by
  cases hr : svc.db.getChannelById id with
  | some ch =>
    have hsame : (svc.createChannel now id key name).service = svc := by
      have hins : svc.db.insertChannel (svc.newChannel now id key name) = svc.db :=
        ChatDb.insertChannel_of_some hr
      rw [ChatService.createChannel, hins]
    simp [hsame, h]
  | none =>
    have hrows : ∀ k, (svc.createChannel now id key name).service.db.getChannelById k =
        if k = id then some (svc.newChannel now id key name) else svc.db.getChannelById k :=
      fun k => ChatDb.getChannelById_insertChannel hr
    have hcache : svc.channelKeyCache id = none := by rw [h id, hr, Option.bind_none]
    simp only [Option.isSome_none, Bool.false_eq_true, false_or]
    constructor
    · intro hm hlen
      have hid := hm id
      rw [hrows, if_pos rfl, Option.bind_some, channelCacheEntry_newChannel, if_pos hlen] at hid
      exact absurd (hid.symm.trans hcache) (Option.some_ne_none _)
    · intro hlen k
      rw [hrows]
      split
      · next hk =>
        rw [Option.bind_some, channelCacheEntry_newChannel, if_neg hlen, hk]
        exact hcache
      · exact h k

/-- Where a row is dropped and the cache is not reloaded, the key has to be out of it before. -/
theorem channelsMirrored_dropped {svc' : ChatService} {id : String} (h : ChannelsMirrored svc)
    (hc : svc'.channelKeyCache = svc.channelKeyCache)
    (hrows : ∀ k, svc'.db.getChannelById k = if k = id then none else svc.db.getChannelById k) :
    ChannelsMirrored svc' ↔ channelEntry svc.db id = none := by
  constructor
  · intro hm
    have hid := hm id
    rw [hc, h id, hrows, if_pos rfl] at hid
    exact hid
  · intro hnone k
    rw [hc, h k, hrows]
    split
    · next hk => exact hk ▸ hnone
    · rfl

theorem rows_deleteChannel {id : String} :
    (svc.deleteChannel d now id).service.db.getChannelById k =
      if k = id then none else svc.db.getChannelById k := by
  simp only [ChatService.deleteChannel, ChatService.db_refreshPeerKeyCache,
    ChatDb.getChannelById_deleteChannel]
  split
  · rfl
  · next hk =>
    cases hch : svc.db.getChannelById id with
    | none => rfl
    | some ch =>
      have hw : (svc.db.updateChannel { ch with status := .left, updatedAt := now }).getChannelById k
          = _ := ChatService.writeBack (fun _ => rfl) hch rfl rfl
      exact hw.trans (if_neg hk)

theorem rows_declineChannelInvite {id : String} :
    (svc.declineChannelInvite id).service.db.getChannelById k =
      if k = id then none else svc.db.getChannelById k := by
  unfold ChatService.declineChannelInvite
  split
  · next hnone =>
    rw [ChatService.service_unchanged]
    split
    · next hk => exact hk ▸ hnone
    · rfl
  · next ch hch =>
    simp only [ChatService.db_refreshPeerKeyCache, ChatDb.getChannelById_deleteChannel,
      ChatDb.id_of_getChannelById hch]

theorem channelKeyCache_declineChannelInvite {id : String} :
    (svc.declineChannelInvite id).service.channelKeyCache = svc.channelKeyCache := by
  unfold ChatService.declineChannelInvite
  split <;> rfl

/-- An operation of the chat service keeps the caches right exactly under its condition. -/
theorem mirrored_act (h : Mirrored n.service) :
    Mirrored (n.service.act d a).1 ↔ KeepsCaches d e n (.device a) := by
  refine (and_iff_right (peersMirrored_act h.1)).trans ?_
  cases a with
  | createChannel id key name now => exact channelsMirrored_create h.2
  | deleteChannel id now =>
    exact channelsMirrored_dropped h.2 rfl fun k => rows_deleteChannel (d := d)
  | declineChannelInvite id =>
    exact channelsMirrored_dropped h.2 channelKeyCache_declineChannelInvite fun k =>
      rows_declineChannelInvite
  | _ => exact iff_of_true (channelsMirrored_act h.2 (by simp) (by simp) (by simp)) trivial

theorem mirrored_unpairPeer {id : String} (h : Mirrored svc) :
    Mirrored (svc.unpairPeer id now).service := by
  unfold ChatService.unpairPeer
  split
  · exact h
  · exact ⟨fun _ => ChatService.peerKeyCache_refresh, h.2⟩

/-- A pairing is written past the caches, which are right after it only if they held its key. -/
theorem mirrored_upsertPeer (h : Mirrored svc) (hn : peer.deviceType ≠ .nas) :
    Mirrored { svc with db := svc.db.upsertPeer peer } ↔
      peerEntry svc.db peer.id = peerCacheEntry peer := by
  refine (and_iff_left (a := _) (h.2 : ChannelsMirrored { svc with db := svc.db.upsertPeer peer })).trans ?_
  constructor
  · intro hm
    have hid : svc.peerKeyCache peer.id = peerEntry (svc.db.upsertPeer peer) peer.id := hm peer.id
    rw [h.1 peer.id, peerEntry_upsertPeer_self hn] at hid
    exact hid
  · intro he
    refine peersMirrored_of_entries h.1 rfl fun id => ?_
    by_cases hid : id = peer.id
    · rw [hid, he]
      exact peerEntry_upsertPeer_self hn
    · exact peerEntry_upsertPeer_ne hid

theorem entry_of_paired {shared : SharedKey} (hkey : peer.key = base64Encode shared)
    (hs : peer.status = .paired) : peerCacheEntry peer = some shared.1 := by
  have hne : peer.key ≠ "" := by
    rw [hkey, ne_eq, base64Encode_eq_empty]
    intro hempty
    have hlen := shared.2
    simp [hempty] at hlen
  rw [peerCacheEntry, if_pos ⟨hne, by simp [DPeer.isPaired, hs]⟩, hkey, rawKey_encode,
    if_pos shared.2]

theorem mirrored_pairs {shared : SharedKey} (h : Mirrored svc)
    (hkey : peer.key = base64Encode shared) (hs : peer.status = .paired)
    (hn : peer.deviceType ≠ .nas) :
    Mirrored { svc with db := svc.db.upsertPeer peer } ↔
      peerEntry svc.db peer.id = some shared.1 := by
  rw [mirrored_upsertPeer h hn, entry_of_paired hkey hs]

theorem mirrored_respondToPairing {env : Surroundings} {secret : Bytes} {request : PairingRequest}
    {senderIp : String} {accepted : Bool} {localPort : UInt16} (h : Mirrored n.service) :
    Mirrored (n.step d e (.respondToPairing env secret request senderIp accepted localPort)).service ↔
      KeepsCaches d e n (.respondToPairing env secret request senderIp accepted localPort) := by
  simp only [Node.step, KeepsCaches, PairingManager.respondToPairing]
  cases accepted with
  | false => exact iff_of_true h (by simp)
  | true =>
    cases hs : e.computeSharedKey secret (base64Decode request.ecdhPublicKey) with
    | none => exact iff_of_true h (by simp)
    | some shared =>
      refine Iff.trans (mirrored_pairs h rfl rfl PairingManager.fromStr_getD_ne_nas)
        ⟨fun he _ k hk => ?_, fun he => he rfl shared rfl⟩
      cases hk
      exact he

theorem mirrored_onPairResponse {env : Surroundings} {resp : PairingResponse} {senderIp : String}
    (h : Mirrored n.service) :
    Mirrored (n.step d e (.nearbyPost env senderIp (.response resp))).service ↔
      KeepsCaches d e n (.nearbyPost env senderIp (.response resp)) := by
  have hdb : (n.step d e (.nearbyPost env senderIp (.response resp))).service =
      { n.service with db := (n.manager.onPairResponse d e env resp senderIp).manager.db } := rfl
  rw [hdb]
  have hkeeps : KeepsCaches d e n (.nearbyPost env senderIp (.response resp)) ↔
      ∀ shared ∈ n.manager.completedKey d e env resp,
        peerEntry n.service.db resp.fromId = some shared.1 := Iff.rfl
  rw [hkeeps]
  rcases n.manager.onPairResponse_db with ⟨hno, hsame⟩ | ⟨session, shared, hc, hup⟩
  · rw [hsame, hno]
    exact iff_of_true h (by simp)
  · rw [hup, hc]
    refine Iff.trans (mirrored_pairs h rfl rfl PairingManager.fromStr_getD_ne_nas)
      ⟨fun he k hk => ?_, fun he => he shared rfl⟩
    cases hk
    exact he

/-- In a state where the caches mirror the database, an operation keeps that exactly under its
condition. -/
theorem mirrored_step {op : NodeOp} (h : Mirrored n.service) :
    Mirrored (n.step d e op).service ↔ KeepsCaches d e n op := by
  cases op with
  | device a => exact mirrored_act h
  | unpairPeer id now => exact iff_of_true (mirrored_unpairPeer h) trivial
  | respondToPairing env secret request senderIp accepted localPort =>
    exact mirrored_respondToPairing h
  | nearbyPost env senderIp message =>
    cases message with
    | response resp => exact mirrored_onPairResponse h
    | request req =>
      refine iff_of_true ?_ trivial
      simp only [Node.step, PairingManager.handleNearbyPost, PairingManager.onPairRequest]
      split <;> [exact h; split <;> exact h]
    | cancel c => exact iff_of_true h trivial
  | responseTimeout deviceId deviceName =>
    refine iff_of_true ?_ trivial
    simp only [Node.step, PairingManager.responseTimeout]
    split <;> exact h
  | cancelPairing deviceId =>
    refine iff_of_true ?_ trivial
    simp only [Node.step, PairingManager.cancelPairing]
    split <;> exact h
  | _ => exact iff_of_true h trivial

theorem mirroredAlong_iff {ops : List NodeOp} (h : Mirrored n.service) :
    MirroredAlong d e n ops ↔ KeptAlong d e n ops := by
  induction ops generalizing n with
  | nil => exact Iff.rfl
  | cons op ops ih =>
    constructor
    · rintro ⟨hm, hrest⟩
      exact ⟨(mirrored_step h).mp hm, (ih hm).mp hrest⟩
    · rintro ⟨hk, hrest⟩
      have hm := (mirrored_step h).mpr hk
      exact ⟨hm, (ih hm).mpr hrest⟩

/-- From the start of a service on, over any run, the caches mirror the database after each
operation exactly when each operation met its condition. -/
theorem cachesMirror_iff (d : Dalek) (e : Ecdh) (n : Node) (ops : List NodeOp) :
    MirroredAlong d e n.started ops ↔ KeptAlong d e n.started ops :=
  mirroredAlong_iff mirrored_loadKeyCache

/-- A node with no peers and no channels. -/
def demoNode : Node where
  service := demoService "alice" 1 []
  localDeviceType := "COMPUTER"
  sessions := fun _ => none

/-- A channel just created has no entry in the cache of channel keys. -/
theorem createdChannel_not_mirrored :
    ¬ ∀ (d : Dalek) (e : Ecdh) (n : Node) (ops : List NodeOp), MirroredAlong d e n.started ops := by
  intro hall
  have hm := (hall checksumDalek productEcdh demoNode
    [.device (.createChannel "c" (List.replicate 32 7) "Team" "t1")]).1.2 "c"
  revert hm
  decide +kernel

end PlainRs.Chat
