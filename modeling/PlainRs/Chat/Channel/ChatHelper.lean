import PlainRs.Chat.Delivery

/-! `ChannelChatSender`: how a chat item gets to the members of its channel, and what the status that
the sender gives it says about them. -/
namespace PlainRs.Chat

open Keyed PlainRs.Crypto PlainRs.Utils PlainRs.LocalApi

def DChannel.joinedMemberIds (ch : DChannel) : List String :=
  (ch.members.filter ChannelMember.isJoined).map ChannelMember.peerId

/-- The owner where it is online, else the least of the ids. -/
def DChannel.electLeader (ch : DChannel) (onlineIds : Finset String) : Option String :=
  if h : onlineIds.Nonempty then
    if ch.ownerId ∈ onlineIds then some ch.ownerId else some (onlineIds.min' h)
  else none

structure ChannelDeliveryResult where
  peerId : String
  peerName : String
  error : Option String

inductive SendResult
  | status (results : List ChannelDeliveryResult)
  | noLeader
  | leaderPeerMissing

/-- The status that the spawned delivery writes. -/
def SendResult.chatStatus : SendResult → ChatStatus
  | .status results => computeStatus (results.map ChannelDeliveryResult.error)
  | .noLeader | .leaderPeerMissing => .failed

/-- Whoever answers at the addresses of each peer. -/
abbrev Devices := String → Messenger

/-- What the sender finds when it comes to a recipient: its own database and key caches, the clock, a
nonce, and what becomes of the post to each address. -/
structure Turn where
  svc : ChatService
  ts : Int64
  nonce : Nonce 24
  exchanges : Nat → Exchange

section

variable (c : Aead) (d : Dalek) (g : Graphql) (ch : DChannel) (clientId : String) (kpBytes : Bytes)
  (content : String)

def sendToMember (devices : Devices) (turn : Turn) (peer : DPeer) :
    Devices × ChannelDeliveryResult :=
  match turn.svc.channelKeyCache ch.id with
  | none =>
    (devices, ⟨peer.id, peer.name, some s!"ChannelCacher has no key bytes for channel {ch.id}"⟩)
  | some key =>
    let out := deliverToPeer c d g (devices peer.id) turn.exchanges (peerGraphqlUrls peer) key
      clientId kpBytes turn.ts turn.nonce content (some ch.id)
    (Function.update devices peer.id out.1, ⟨peer.id, peer.name, match out.2 with
      | .ok () => none
      | .error e => some e⟩)

/-- One recipient of the list. -/
def sendToRecipient (devices : Devices) (turn : Turn) (memberId : String) :
    Devices × ChannelDeliveryResult :=
  match turn.svc.db.getPeerById memberId with
  | none => (devices, ⟨memberId, memberId, some "Peer not found in database"⟩)
  | some memberPeer => sendToMember c d g ch clientId kpBytes content devices turn memberPeer

/-- One recipient after the other; each has the next of the turns. -/
def sendToRecipients : List String → (Nat → Turn) → Devices → Devices × List ChannelDeliveryResult
  | [], _, devices => (devices, [])
  | memberId :: rest, turns, devices =>
    let out := sendToRecipient c d g ch clientId kpBytes content devices (turns 0) memberId
    let more := sendToRecipients rest (fun i => turns (i + 1)) out.1
    (more.1, out.2 :: more.2)

/-- Every joined member but the sender itself. -/
def recipientIds : List String := ch.joinedMemberIds.filter (· ≠ clientId)

def broadcastAsLeader (turns : Nat → Turn) (devices : Devices) :
    Devices × List ChannelDeliveryResult :=
  sendToRecipients c d g ch clientId kpBytes content (recipientIds ch clientId) turns devices

def sendToLeader (turns : Nat → Turn) (devices : Devices) (leaderId : String) :
    Devices × SendResult :=
  match (turns 0).svc.db.getPeerById leaderId with
  | none => (devices, .leaderPeerMissing)
  | some leaderPeer =>
    let out := sendToMember c d g ch clientId kpBytes content devices (turns 0) leaderPeer
    (out.1, .status [out.2])

/-- Nobody but the sender itself counts as online. -/
def send (turns : Nat → Turn) (devices : Devices) : Devices × SendResult :=
  match ch.electLeader (ch.joinedMemberIds.filter (· = clientId)).toFinset with
  | none => (devices, .noLeader)
  | some leaderId =>
    if leaderId = clientId then
      let out := broadcastAsLeader c d g ch clientId kpBytes content turns devices
      (out.1, .status out.2)
    else sendToLeader c d g ch clientId kpBytes content turns devices leaderId

end

/-- The row a receiver keeps of the item. -/
def IsItem (clientId : String) (channelId : Option String) (content : String) (row : DChat) : Prop :=
  row.fromId = clientId ∧ row.channelId = channelId.getD "" ∧ row.content = content

/-- Neither end of a post is told anything but what the other one said. -/
def Exchange.Uncorrupted : Exchange → Prop
  | .handled _ (.corrupted _) => False
  | _ => True

/-- A row under the id that a handled post draws is one of the item. -/
def Exchange.DrawsFor (clientId : String) (channelId : Option String) (content : String)
    (m : Messenger) : Exchange → Prop
  | .requestLost _ => True
  | .handled draw _ =>
    ∀ row ∈ m.chats.rows, row.id = draw.id → IsItem clientId channelId content row

variable {c : Aead} {d : Dalek} {g : Graphql} {key kpBytes encrypted : Bytes} {clientId : String}
  {channelId : Option String} {ts now : Int64} {nonce : Nonce 24} {content : String}
  {m : Messenger} {x : Exchange}

/-- The reason for a refusal is too short to be read as a reply. -/
theorem responseError_reason (hc : c.Sound) (e : AuthError) :
    responseError c g key (.ok (Text.bytes e.reason)) ≠ none := by
  have hlen : (Text.bytes e.reason).length < 40 := by cases e <;> decide
  cases hdec : xchachaDecryptRaw c key (Text.bytes e.reason) with
  | none => simp [responseError, hdec]
  | some pt =>
    have := length_of_decryptFramed hc hdec
    omega

/-- A post that is acknowledged has left the item with a receiver that takes it. -/
theorem item_of_post (hc : c.Sound) (hg : g.Sound)
    (hb : requestBody c d key kpBytes ts nonce (g.createChatItem content) = some encrypted)
    (ho : OpensUnder c key clientId channelId encrypted m.service)
    (hopen : (channelId.getD "" = "" || m.channelOpen (channelId.getD "")) = true)
    (hx : x.Uncorrupted) (hdraw : x.DrawsFor clientId channelId content m)
    (hack : (post c d g m key clientId channelId encrypted x).2 = none) :
    ∃ row ∈ (post c d g m key clientId channelId encrypted x).1.chats.rows,
      IsItem clientId channelId content row := by
  cases x with
  | requestLost error => simp [post] at hack
  | handled draw arrival =>
    cases arrival with
    | corrupted bytes => exact hx.elim
    | lost error => simp [post, Arrival.bytes, responseError] at hack
    | intact =>
      cases ha : authenticate c d m.service clientId (channelId.getD "") encrypted draw.nowMs with
      | error e =>
        simp only [post, handlePeerGraphql_error ha, Arrival.bytes] at hack
        exact absurd hack (responseError_reason hc e)
      | ok authed =>
        obtain ⟨rfl, hjson, hid⟩ := authenticate_request hc hb ho ha
        have hexecute : g.execute authed.graphqlJson = .createChatItem content := by
          rw [hjson, hg.execute_createChatItem]
        simp only [post, handlePeerGraphql_chat ha hexecute, Messenger.rows_receivePeerChat, hopen,
          Bool.true_and]
        cases hfree : m.getChatById draw.id with
        | none =>
          exact ⟨_, List.mem_append_right _ (List.mem_singleton_self _), hid, rfl, rfl⟩
        | some row =>
          obtain ⟨hrow, hrowId⟩ := Table.find?_eq_some.mp hfree
          exact ⟨row, List.mem_append_left _ hrow, hdraw row hrow hrowId⟩

/-- The receiver has gained rows of the item and nothing else. -/
structure Grown (clientId : String) (channelId : Option String) (content : String)
    (before after : Messenger) : Prop where
  service : after.service = before.service
  rows : ∃ new, after.chats.rows = before.chats.rows ++ new ∧
    ∀ row ∈ new, IsItem clientId channelId content row

section Grown

variable {m' m'' : Messenger}

theorem Grown.refl (m : Messenger) : Grown clientId channelId content m m :=
  ⟨rfl, [], (List.append_nil _).symm, by simp⟩

theorem Grown.trans (h : Grown clientId channelId content m m')
    (h' : Grown clientId channelId content m' m'') : Grown clientId channelId content m m'' := by
  obtain ⟨new, hnew, hitem⟩ := h.rows
  obtain ⟨more, hmore, hitem'⟩ := h'.rows
  refine ⟨h'.service.trans h.service, new ++ more, ?_, ?_⟩
  · rw [hmore, hnew, List.append_assoc]
  · intro row hrow
    rcases List.mem_append.mp hrow with hrow | hrow
    · exact hitem row hrow
    · exact hitem' row hrow

theorem Grown.mem (h : Grown clientId channelId content m m') {row : DChat}
    (hrow : row ∈ m.chats.rows) : row ∈ m'.chats.rows := by
  obtain ⟨new, hnew, -⟩ := h.rows
  rw [hnew]
  exact List.mem_append_left _ hrow

theorem Grown.drawsFor (h : Grown clientId channelId content m m')
    (hx : x.DrawsFor clientId channelId content m) : x.DrawsFor clientId channelId content m' := by
  obtain ⟨new, hnew, hitem⟩ := h.rows
  cases x with
  | requestLost error => trivial
  | handled draw arrival =>
    intro row hrow hid
    rw [hnew] at hrow
    rcases List.mem_append.mp hrow with hrow | hrow
    · exact hx row hrow hid
    · exact hitem row hrow

theorem Grown.channelOpen (h : Grown clientId channelId content m m') (id : String) :
    m'.channelOpen id = m.channelOpen id := by
  unfold Messenger.channelOpen
  rw [h.service]

theorem grown_post (hc : c.Sound) (hg : g.Sound)
    (hb : requestBody c d key kpBytes ts nonce (g.createChatItem content) = some encrypted)
    (ho : OpensUnder c key clientId channelId encrypted m.service) (x : Exchange) :
    Grown clientId channelId content m (post c d g m key clientId channelId encrypted x).1 := by
  have hout := postOutcome (m := m) (x := x) hc hg hb ho
  obtain ⟨new, hnew, -, hitem⟩ := hout.rows
  exact ⟨hout.service, new, hnew, hitem⟩

end Grown

/-- The loop over the addresses: where it comes back with success, the receiver has the item. -/
theorem grown_tryUrls (hc : c.Sound) (hg : g.Sound)
    (hb : requestBody c d key kpBytes ts nonce (g.createChatItem content) = some encrypted)
    (ho : OpensUnder c key clientId channelId encrypted m.service)
    (exchanges : List (String × Exchange)) (errors : List String) :
    let out := tryUrls c d g key clientId channelId encrypted exchanges m errors
    Grown clientId channelId content m out.1 ∧
      ((∀ entry ∈ exchanges, entry.2.Uncorrupted ∧ entry.2.DrawsFor clientId channelId content m) →
        (channelId.getD "" = "" || m.channelOpen (channelId.getD "")) = true → out.2 = .ok () →
        ∃ row ∈ out.1.chats.rows, IsItem clientId channelId content row) := by
  induction exchanges generalizing m errors with
  | nil => exact ⟨.refl m, fun _ _ h => by simp [tryUrls] at h⟩
  | cons entry rest ih =>
    obtain ⟨url, x⟩ := entry
    have hgrown := grown_post (m := m) hc hg hb ho x
    have hitem := item_of_post (m := m) (x := x) hc hg hb ho
    simp only [tryUrls]
    generalize post c d g m key clientId channelId encrypted x = after at hgrown hitem
    obtain ⟨m', answer⟩ := after
    have hsvc : m'.service = m.service := hgrown.service
    cases answer with
    | none =>
      refine ⟨hgrown, fun hall hopen _ => ?_⟩
      obtain ⟨hx, hdraw⟩ := hall _ List.mem_cons_self
      exact hitem hopen hx hdraw rfl
    | some error =>
      obtain ⟨hmore, hrest⟩ := ih (m := m') (hsvc ▸ ho) (errors ++ [s!"{url}: {error}"])
      refine ⟨hgrown.trans hmore, fun hall hopen hok => hrest ?_ ?_ hok⟩
      · intro entry hentry
        obtain ⟨hx, hdraw⟩ := hall entry (List.mem_cons_of_mem _ hentry)
        exact ⟨hx, hgrown.drawsFor hdraw⟩
      · rwa [hgrown.channelOpen]

/-- What the posts of a turn can be relied on for: the receiver opens them under the sender's key
only, no reply is corrupted, and the ids drawn for the rows are not taken. -/
structure Turn.Reliable (c : Aead) (d : Dalek) (g : Graphql) (ch : DChannel) (clientId : String)
    (kpBytes : Bytes) (content : String) (turn : Turn) (m : Messenger) : Prop where
  opens : ∀ key encrypted, turn.svc.channelKeyCache ch.id = some key →
    requestBody c d key kpBytes turn.ts turn.nonce (g.createChatItem content) = some encrypted →
    OpensUnder c key clientId (some ch.id) encrypted m.service
  uncorrupted : ∀ i, (turn.exchanges i).Uncorrupted
  draws : ∀ i, (turn.exchanges i).DrawsFor clientId (some ch.id) content m

/-- What one recipient's turn does. -/
structure Reached (ch : DChannel) (clientId content : String) (devices devices' : Devices)
    (memberId : String) (result : ChannelDeliveryResult) : Prop where
  peerId : result.peerId = memberId
  frame : ∀ p, p ≠ memberId → devices' p = devices p
  grown : Grown clientId (some ch.id) content (devices memberId) (devices' memberId)
  item : result.error = none → (devices memberId).channelOpen ch.id = true →
    ∃ row ∈ (devices' memberId).chats.rows, IsItem clientId (some ch.id) content row

variable {ch : DChannel} {devices : Devices} {turn : Turn} {memberId : String} {turns : Nat → Turn}

theorem reached_of_unsent {name error : String} :
    Reached ch clientId content devices devices memberId ⟨memberId, name, some error⟩ :=
  ⟨rfl, fun _ _ => rfl, .refl _, fun h => by cases h⟩

theorem reached_sendToRecipient (hc : c.Sound) (hg : g.Sound)
    (h : turn.Reliable c d g ch clientId kpBytes content (devices memberId)) :
    let out := sendToRecipient c d g ch clientId kpBytes content devices turn memberId
    Reached ch clientId content devices out.1 memberId out.2 := by
  unfold sendToRecipient
  cases hp : turn.svc.db.getPeerById memberId with
  | none => exact reached_of_unsent
  | some peer =>
    obtain rfl := ChatDb.id_of_getPeerById hp
    unfold sendToMember
    cases hk : turn.svc.channelKeyCache ch.id with
    | none => exact reached_of_unsent
    | some key =>
      dsimp only
      unfold deliverToPeer
      cases hb : requestBody c d key kpBytes turn.ts turn.nonce (g.createChatItem content) with
      | none =>
        refine ⟨rfl, fun p hp => Function.update_of_ne hp _ _, ?_, fun h => by cases h⟩
        rw [Function.update_self]
        exact .refl _
      | some encrypted =>
        obtain ⟨hgrown, hitem⟩ := grown_tryUrls hc hg hb (h.opens key encrypted hk hb)
          ((peerGraphqlUrls peer).mapIdx fun i url => (url, turn.exchanges i)) []
        refine ⟨rfl, fun p hp => Function.update_of_ne hp _ _, ?_, fun hnone hopen => ?_⟩
        · rw [Function.update_self]
          exact hgrown
        · rw [Function.update_self]
          refine hitem ?_ (by simp [hopen]) ?_
          · intro entry hentry
            obtain ⟨i, hi, rfl⟩ := List.mem_mapIdx.mp hentry
            exact ⟨h.uncorrupted i, h.draws i⟩
          · dsimp only at hnone
            split at hnone
            · assumption
            · cases hnone

theorem Turn.Reliable.grown {m m' : Messenger} (h : Grown clientId (some ch.id) content m m')
    (hr : turn.Reliable c d g ch clientId kpBytes content m) :
    turn.Reliable c d g ch clientId kpBytes content m' where
  opens := by
    rw [h.service]
    exact hr.opens
  uncorrupted := hr.uncorrupted
  draws i := h.drawsFor (hr.draws i)

/-- The whole list: nobody else is written to, and each recipient without an error that takes the
item has it in the end. -/
theorem reached_sendToRecipients (hc : c.Sound) (hg : g.Sound) (ids : List String)
    (hall : ∀ i, ∀ p ∈ ids, (turns i).Reliable c d g ch clientId kpBytes content (devices p)) :
    let out := sendToRecipients c d g ch clientId kpBytes content ids turns devices
    (∀ p, Grown clientId (some ch.id) content (devices p) (out.1 p)) ∧
      (∀ p, p ∉ ids → out.1 p = devices p) ∧
      out.2.map ChannelDeliveryResult.peerId = ids ∧
      ∀ r ∈ out.2, r.error = none → (devices r.peerId).channelOpen ch.id = true →
        ∃ row ∈ (out.1 r.peerId).chats.rows, IsItem clientId (some ch.id) content row := by
  induction ids generalizing turns devices with
  | nil => exact ⟨fun p => .refl _, fun _ _ => rfl, rfl, fun r hr => by cases hr⟩
  | cons memberId rest ih =>
    simp only [sendToRecipients]
    have hone := reached_sendToRecipient hc hg
      (hall 0 memberId List.mem_cons_self)
    generalize sendToRecipient c d g ch clientId kpBytes content devices (turns 0) memberId = first
      at hone
    obtain ⟨devices', result⟩ := first
    have hone : Reached ch clientId content devices devices' memberId result := hone
    have hgrown : ∀ p, Grown clientId (some ch.id) content (devices p) (devices' p) := by
      intro p
      by_cases hp : p = memberId
      · exact hp ▸ hone.grown
      · rw [hone.frame p hp]
        exact .refl _
    have hnext : ∀ i, ∀ p ∈ rest,
        (turns (i + 1)).Reliable c d g ch clientId kpBytes content (devices' p) :=
      fun i p hp => (hall (i + 1) p (List.mem_cons_of_mem _ hp)).grown (hgrown p)
    obtain ⟨hrest, hframe, hids, hitems⟩ := ih hnext
    refine ⟨fun p => (hgrown p).trans (hrest p), ?_, ?_, ?_⟩
    · intro p hp
      rw [List.mem_cons, not_or] at hp
      rw [hframe p hp.2, hone.frame p hp.1]
    · rw [List.map_cons, hids, hone.peerId]
    · intro r hr hnone hopen
      rcases List.mem_cons.mp hr with rfl | hr
      · rw [hone.peerId] at hopen ⊢
        obtain ⟨row, hrow, hitem⟩ := hone.item hnone hopen
        exact ⟨row, (hrest memberId).mem hrow, hitem⟩
      · exact hitems r hr hnone (by rwa [(hgrown _).channelOpen])

theorem errors_of_sent {errors : List (Option String)} (h : computeStatus errors = .sent) :
    ∀ error ∈ errors, error = none := by
  unfold computeStatus at h
  split at h
  · next hnil => simp [hnil]
  · dsimp only at h
    split at h
    · next hnone =>
      intro error herror
      by_contra hsome
      rw [List.length_eq_zero_iff, List.filter_eq_nil_iff] at hnone
      exact hnone error herror (Option.isSome_iff_ne_none.mpr hsome)
    · split at h <;> cases h

/-- With nobody else online, the sender is its own leader where it has joined, and there is none
where it has not. -/
theorem electLeader_self (ch : DChannel) (clientId : String) :
    ch.electLeader (ch.joinedMemberIds.filter (· = clientId)).toFinset =
      if clientId ∈ ch.joinedMemberIds then some clientId else none := by
  have hmem : ∀ p, p ∈ (ch.joinedMemberIds.filter (· = clientId)).toFinset ↔
      p = clientId ∧ clientId ∈ ch.joinedMemberIds := by
    intro p
    rw [List.mem_toFinset, List.mem_filter, decide_eq_true_eq]
    constructor
    · rintro ⟨h, rfl⟩
      exact ⟨rfl, h⟩
    · rintro ⟨rfl, h⟩
      exact ⟨h, rfl⟩
  unfold DChannel.electLeader
  by_cases hjoined : clientId ∈ ch.joinedMemberIds
  · have hself : (ch.joinedMemberIds.filter (· = clientId)).toFinset.Nonempty :=
      ⟨clientId, (hmem clientId).mpr ⟨rfl, hjoined⟩⟩
    rw [dif_pos hself, if_pos hjoined]
    split
    · next howner => rw [((hmem _).mp howner).1]
    · rw [((hmem _).mp (Finset.min'_mem _ hself)).1]
  · rw [if_neg hjoined, dif_neg]
    rintro ⟨p, hp⟩
    exact hjoined ((hmem p).mp hp).2

/-- An example device in Alice's channel. -/
def inTeam (svc : ChatService) : ChatService :=
  ({ svc with db := svc.db.insertChannel (demoTeam 1) } : ChatService).loadKeyCache

def demoTurn : Turn :=
  ⟨inTeam demoAlice, 0, demoNonce, fun i => .handled ⟨0, "t", s!"m{i}", demoNonce⟩ .intact⟩

theorem getChannelById_inTeam {svc : ChatService} (h : svc.db.channels = Table.empty) :
    (inTeam svc).db.getChannelById "c" = some (demoTeam 1) := by
  have hnone : svc.db.getChannelById (demoTeam 1).id = none := by
    rw [ChatDb.getChannelById, h, Table.find?_empty]
  rw [inTeam, ChatService.db_loadKeyCache]
  exact (ChatDb.getChannelById_insertChannel hnone).trans (if_pos rfl)

theorem channelKeyCache_inTeam {svc : ChatService} (h : svc.db.channels = Table.empty) :
    (inTeam svc).channelKeyCache "c" = some (List.replicate 32 7) := by
  have hkey : base64Decode (demoTeam 1).key = List.replicate 32 7 := base64Decode_encode _
  have hset : (demoTeam 1).key ≠ "" := by
    intro he
    have hnil : base64Decode "" = [] := rfl
    rw [he, hnil] at hkey
    cases hkey
  have hrow := getChannelById_inTeam h
  rw [inTeam, ChatService.db_loadKeyCache] at hrow
  rw [inTeam, ChatService.channelKeyCache_load, hrow, Option.bind_some, channelCacheEntry,
    if_pos hset, rawKey, hkey, if_pos (by simp)]

theorem reliable_demoTurn : demoTurn.Reliable checksumAead checksumDalek demoGraphql (demoTeam 1)
    "alice" (demoKeypair 1) "hi" (demoMessenger (inTeam demoBob)) where
  opens := by
    intro key encrypted hkey _ peer key' pt _ hkey' _
    have hc : (demoTeam 1).id ≠ "" := by decide
    have hbob : (inTeam demoBob).channelKeyCache "c" = some key' := (requestKey_channel hc).mp hkey'
    have hbobs : (inTeam demoBob).channelKeyCache "c" = _ :=
      channelKeyCache_inTeam channels_demoService
    have halices : (inTeam demoAlice).channelKeyCache "c" = _ :=
      channelKeyCache_inTeam channels_demoService
    have halice : (inTeam demoAlice).channelKeyCache "c" = some key := hkey
    exact Option.some.inj (hbob.symm.trans (hbobs.trans (halices.symm.trans halice)))
  uncorrupted _ := trivial
  draws i row hrow := by cases hrow

theorem team_sent : (send checksumAead checksumDalek demoGraphql (demoTeam 1) "alice" (demoKeypair 1)
    "hi" (fun _ => demoTurn) fun _ => demoMessenger (inTeam demoBob)).2.chatStatus = .sent := by
  decide +kernel

end PlainRs.Chat
