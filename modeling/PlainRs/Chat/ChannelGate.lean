import PlainRs.Base.Runs
import PlainRs.Chat.Channel.Paired
import PlainRs.Chat.Delivery

/-! Who can post into a channel: whoever is known and holds its key, member or not. -/
namespace PlainRs.Chat

open Runs Keyed PlainRs.Crypto PlainRs.Utils PlainRs.LocalApi

/-- The changes of a roster: by the owner here, or by the word of the others. -/
def DeviceAction.onRoster : DeviceAction → Bool
  | .addChannelMember _ _ _ | .removeChannelMember _ _ _ => true
  | .receive _ message _ =>
    match message with
    | .update _ | .inviteDecline _ | .leave _ => true
    | _ => false
  | _ => false

/-- What the checks of a channel message look at, before and after. -/
structure GateKept (svc svc' : ChatService) : Prop where
  channelKeyCache : svc'.channelKeyCache = svc.channelKeyCache
  peers : ∀ {k p}, svc.db.getPeerById k = some p → svc'.db.getPeerById k = some p
  status : ∀ k, (svc'.db.getChannelById k).map DChannel.status =
    (svc.db.getChannelById k).map DChannel.status

variable {c : Aead} {d : Dalek} {svc svc' svc'' : ChatService} {a : DeviceAction}
  {clientId channelId fromId now id content : String} {body : Bytes} {nowMs : Int64}
  {authed : AuthenticatedPeer} {m : Messenger} {msg : ChannelSystemMessage}

theorem GateKept.refl : GateKept svc svc := ⟨rfl, fun h => h, fun _ => rfl⟩

theorem GateKept.trans (h : GateKept svc svc') (h' : GateKept svc' svc'') : GateKept svc svc'' where
  channelKeyCache := h'.channelKeyCache.trans h.channelKeyCache
  peers hp := h'.peers (h.peers hp)
  status k := (h'.status k).trans (h.status k)

/-- A change of a roster leaves the status of every channel as it is. -/
theorem status_onRoster (ha : a.onRoster = true) (k : String) :
    ((svc.act d a).1.db.getChannelById k).map DChannel.status =
      (svc.db.getChannelById k).map DChannel.status := by
  have hrow : ChatService.RowStep d svc a k (svc.db.getChannelById k)
      ((svc.act d a).1.db.getChannelById k) := ChatService.rowStep_act
  generalize (svc.act d a).1.db.getChannelById k = r' at hrow ⊢
  generalize svc.db.getChannelById k = r at hrow ⊢
  cases hrow <;> first | rfl | cases ha

theorem gateKept_dispatch (ha : DeviceAction.onRoster (.receive fromId msg now) = true) :
    (svc.dispatch d fromId now msg).service.channelKeyCache = svc.channelKeyCache ∧
    ∀ {k p}, svc.db.getPeerById k = some p →
      (svc.dispatch d fromId now msg).service.db.getPeerById k = some p := by
  cases msg with
  | update msg =>
    simp only [ChatService.dispatch, ChatService.handleUpdate]
    repeat' split
    all_goals try exact ⟨rfl, fun h => h⟩
    exact ⟨rfl, fun h => getPeerById_createMissingPeers h⟩
  | inviteDecline msg =>
    simp only [ChatService.dispatch, ChatService.handleInviteDecline]
    repeat' split
    all_goals exact ⟨rfl, fun h => h⟩
  | leave msg =>
    simp only [ChatService.dispatch, ChatService.handleLeave]
    repeat' split
    all_goals exact ⟨rfl, fun h => h⟩
  | invite msg => cases ha
  | inviteAccept msg => cases ha
  | kick msg => cases ha
  | unreadable => cases ha

theorem gateKept_act (ha : a.onRoster = true) : GateKept svc (svc.act d a).1 := by
  have hrest : (svc.act d a).1.channelKeyCache = svc.channelKeyCache ∧
      ∀ {k p}, svc.db.getPeerById k = some p → (svc.act d a).1.db.getPeerById k = some p := by
    cases a with
    | addChannelMember id peerId now =>
      simp only [ChatService.act, ChatService.addChannelMember]
      repeat' split
      all_goals exact ⟨rfl, fun h => h⟩
    | removeChannelMember id peerId now =>
      simp only [ChatService.act, ChatService.removeChannelMember]
      repeat' split
      all_goals exact ⟨rfl, fun h => h⟩
    | receive fromId msg now =>
      have hservice : (svc.act d (.receive fromId msg now)).1 =
          (svc.dispatch d fromId now msg).service := by
        simp only [ChatService.act, ChatService.receivePeerChannelSystemMessage, ChatService.handle]
        split <;> rfl
      rw [hservice]
      exact gateKept_dispatch ha
    | _ => cases ha
  exact ⟨hrest.1, hrest.2, status_onRoster ha⟩

/-- Along any changes of rosters, by induction on them. -/
theorem gateKept_foldl {roster : List DeviceAction} (hr : ∀ a ∈ roster, a.onRoster = true) :
    GateKept m.service (roster.foldl (fun m a => m.act d a) m).service := by
  induction roster generalizing m with
  | nil => exact .refl
  | cons a rest ih =>
    have hstep : GateKept m.service (m.act d a).service := gateKept_act (hr a (by simp))
    exact hstep.trans (ih fun b hb => hr b (by simp [hb]))

/-- What passes for a channel still passes. -/
theorem authenticate_gateKept (h : GateKept svc svc') (hc : channelId ≠ "")
    (ha : authenticate c d svc clientId channelId body nowMs = .ok authed) :
    authenticate c d svc' clientId channelId body nowMs = .ok authed := by
  obtain ⟨peer, key, plaintext, hpeer, hkey, hopen, hcheck⟩ := authenticate_ok ha
  have hkey' : requestKey svc' peer channelId = .ok key := by
    rw [requestKey_channel hc, h.channelKeyCache]
    exact (requestKey_channel hc).mp hkey
  simp only [authenticate, h.peers hpeer, hkey', hopen, Text.ofBytes?_bytes]
  exact hcheck

theorem channelOpen_gateKept {m' : Messenger} (h : GateKept m.service m'.service) :
    m'.channelOpen channelId = m.channelOpen channelId := by
  have hs := h.status channelId
  unfold Messenger.channelOpen
  cases h1 : m.service.db.getChannelById channelId <;>
    cases h2 : m'.service.db.getChannelById channelId <;> simp [h1, h2] at hs ⊢
  simp [hs]

theorem channelOpen_iff : m.channelOpen channelId = true ↔ ∃ ch,
    m.service.db.getChannelById channelId = some ch ∧ (ch.status = .joined ∨ ch.status = .kicked) := by
  unfold Messenger.channelOpen
  cases m.service.db.getChannelById channelId <;> simp

/-- Whatever became of the rosters in between, a sender that passes keeps passing, and its message
is stored where the receiver's own row of the channel is joined or kicked. -/
theorem channelPost_stored (c : Aead) (d : Dalek) (m : Messenger) (roster : List DeviceAction)
    (hr : ∀ a ∈ roster, a.onRoster = true) (clientId channelId : String) (hc : channelId ≠ "")
    (body : Bytes) (nowMs : Int64) (authed : AuthenticatedPeer)
    (ha : authenticate c d m.service clientId channelId body nowMs = .ok authed)
    (now id content : String) :
    let later := roster.foldl (fun m a => m.act d a) m
    authenticate c d later.service clientId channelId body nowMs = .ok authed ∧
    ((∃ row ∈ (later.receivePeerChat now id authed.peer.id channelId content).1.chats.rows,
        row ∉ later.chats.rows) ↔
      later.getChatById id = none ∧ ∃ ch, m.service.db.getChannelById channelId = some ch ∧
        (ch.status = .joined ∨ ch.status = .kicked)) := by
  intro later
  have hkept : GateKept m.service later.service := gateKept_foldl hr
  refine ⟨authenticate_gateKept hkept hc ha, ?_⟩
  have hrows := Messenger.rows_receivePeerChat later now id authed.peer.id channelId content
  have hnew : later.getChatById id = none →
      Messenger.receivedChat now id authed.peer.id channelId content ∉ later.chats.rows := by
    intro hid hmem
    rw [Messenger.getChatById, Table.find?_eq_none] at hid
    exact hid (List.mem_map_of_mem hmem)
  rw [hrows, ← channelOpen_iff, ← channelOpen_gateKept hkept]
  constructor
  · rintro ⟨row, hrow, hnot⟩
    rcases List.mem_append.mp hrow with h | h
    · exact absurd h hnot
    · split at h
      · next hstored =>
        simp only [hc, decide_false, Bool.false_or, Bool.and_eq_true, Option.isNone_iff_eq_none]
          at hstored
        exact ⟨hstored.2, hstored.1⟩
      · cases h
  · rintro ⟨hid, hopen⟩
    refine ⟨_, List.mem_append_right _ ?_, hnew hid⟩
    simp [hid, hopen]

/-- A device from its first start on, with no channels and no messages yet. -/
def receiver (d : Dalek) : System Messenger DeviceAction where
  init m := m.service.db.channels = Table.empty ∧ m.chats = Table.empty
  next m a := some (m.act d a)

/-- Alice makes a channel, adds Bob and hears that he joined. -/
def bobInTeam : List DeviceAction :=
  [.createChannel "c" (List.replicate 32 7) "Team" "t1", .addChannelMember "c" "bob" "t2",
    .receive "bob" (.inviteAccept ⟨"c", "", "", .phone⟩) "t3"]

def removeBob : DeviceAction := .removeChannelMember "c" "bob" "t4"

/-- Bob is known, and the channel is still under its first key. -/
def bobHasKey (m : Messenger) : Bool :=
  (m.service.db.getPeerById "bob").any (fun p =>
      p.publicKey = base64Encode ((demoKeypair 2).drop 32)) &&
    m.service.channelKeyCache "c" = some (List.replicate 32 7)

/-- The channel is open, and Bob is off its roster. -/
def bobOffRoster (m : Messenger) : Bool :=
  m.channelOpen "c" && (m.getChatById "m1").isNone &&
    (m.service.db.getChannelById "c").all fun ch => ch.members.all fun member =>
      member.peerId ≠ "bob"

/-- Bob's request under the key of the channel passes, whatever the roster says. -/
theorem authenticate_bob (h : bobHasKey m = true) : ∃ body authed,
    authenticate checksumAead checksumDalek m.service "bob" "c" body 0 = .ok authed ∧
      authed.peer.id = "bob" := by
  simp only [bobHasKey, Bool.and_eq_true, Option.any_eq_true, decide_eq_true_eq] at h
  obtain ⟨⟨p, hp, hpub⟩, hcache⟩ := h
  obtain ⟨body, hb⟩ := exists_requestBody checksumAead checksumDalek (demoKeypair 2) 0 demoNonce
    (demoGraphql.createChatItem "hi") (List.length_replicate (n := 32) (a := (7 : UInt8)))
  exact ⟨body, _, authenticate_requestBody checksumAead_sound checksumDalek_sound ⟨rfl, rfl⟩ hb
    (by decide +kernel) hp hpub ((requestKey_channel (by decide)).mpr hcache) (by decide),
    ChatDb.id_of_getPeerById hp⟩

theorem removedBob_stored : ∃ (m : Messenger) (body : Bytes) (authed : AuthenticatedPeer),
    authenticate checksumAead checksumDalek (m.act checksumDalek removeBob).service "bob" "c" body
      0 = .ok authed ∧
    ((∃ row ∈ ((m.act checksumDalek removeBob).receivePeerChat "t5" "m1" authed.peer.id "c"
        "hi").1.chats.rows, row ∉ (m.act checksumDalek removeBob).chats.rows) ↔
      (m.act checksumDalek removeBob).getChatById "m1" = none ∧
        ∃ ch, m.service.db.getChannelById "c" = some ch ∧
          (ch.status = .joined ∨ ch.status = .kicked)) := by
  have hm : bobHasKey (bobInTeam.foldl (fun m a => m.act checksumDalek a)
      (demoMessenger demoAlice)) = true := by decide +kernel
  obtain ⟨body, authed, ha, -⟩ := authenticate_bob hm
  exact ⟨_, body, authed, channelPost_stored checksumAead checksumDalek _ [removeBob]
    (by simp [removeBob, DeviceAction.onRoster]) "bob" "c" (by decide) body 0 authed ha "t5" "m1"
    "hi"⟩

/-- Alice stores a message of Bob's after she removed him. -/
theorem bobRemoved_stillPosts : ¬ ∀ (c : Aead) (d : Dalek), c.Sound → d.Sound →
    ∀ m, Reachable (receiver d) m → ∀ (clientId channelId : String) (body : Bytes) (nowMs : Int64)
      (authed : AuthenticatedPeer) (now id content : String), channelId ≠ "" →
      authenticate c d m.service clientId channelId body nowMs = .ok authed →
      (m.receivePeerChat now id authed.peer.id channelId content).1.chats.rows ≠ m.chats.rows →
      ∃ ch, m.service.db.getChannelById channelId = some ch ∧
        ∃ member ∈ ch.members, member.peerId = authed.peer.id ∧ member.status = .joined := by
  intro hall
  have hr : ((receiver checksumDalek).run (fun _ _ => True) (demoMessenger demoAlice)
      (bobInTeam ++ [removeBob])).any (fun m => bobHasKey m && bobOffRoster m) = true := by
    decide +kernel
  obtain ⟨m, hreach, hm⟩ := ReachableUnder.of_run
    (S := receiver checksumDalek) ⟨channels_demoService, rfl⟩ hr
  rw [Bool.and_eq_true] at hm
  obtain ⟨body, authed, ha, hid⟩ := authenticate_bob hm.1
  have hoff := hm.2
  simp only [bobOffRoster, Bool.and_eq_true, Option.all_eq_true, List.all_eq_true,
    decide_eq_true_eq] at hoff
  obtain ⟨⟨hopen, hfree⟩, hroster⟩ := hoff
  have hrows := Messenger.rows_receivePeerChat m "t5" "m1" authed.peer.id "c" "hi"
  obtain ⟨ch, hch, member, hmem, hbob, -⟩ := hall checksumAead checksumDalek checksumAead_sound
    checksumDalek_sound m hreach "bob" "c" body 0 authed "t5" "m1" "hi" (by decide) ha (by
      rw [hrows, hopen, hfree]
      simp)
  exact hroster ch hch member hmem (hbob.trans hid)

end PlainRs.Chat
