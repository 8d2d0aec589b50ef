import PlainRs.Chat.Transport

/-! How many rows one delivery leaves with its receiver. -/
namespace PlainRs.Chat

open Keyed PlainRs.Crypto PlainRs.Utils PlainRs.LocalApi

/-- What became of a post: whether the receiver stored a row for it, and whether its response was
lost or corrupted on the way back. -/
structure PostRecord where
  stored : Bool
  responseFails : Bool

section

variable (c : Aead) (d : Dalek) (g : Graphql) (key : Bytes) (clientId : String)
  (channelId : Option String) (encrypted : Bytes)

/-- A row is stored for a post that arrives and passes the checks of the receiver, under an id that
is not taken. -/
def postRecord (m : Messenger) : Exchange → PostRecord
  | .requestLost _ => ⟨false, false⟩
  | .handled draw arrival =>
    ⟨(authenticate c d m.service clientId (channelId.getD "") encrypted draw.nowMs).isOk &&
        (channelId.getD "" = "" || m.channelOpen (channelId.getD "")) &&
        (m.getChatById draw.id).isNone,
      match arrival with
      | .intact => false
      | _ => true⟩

/-- The posts that the loop makes: those up to the first that is acknowledged. -/
def postRecords : List Exchange → Messenger → List PostRecord
  | [], _ => []
  | exchange :: rest, m =>
    postRecord c d clientId channelId encrypted m exchange ::
      match post c d g m key clientId channelId encrypted exchange with
      | (_, none) => []
      | (m, some _) => postRecords rest m

/-- The receiver opens the request under no other key than the sender's. -/
def OpensUnder (svc : ChatService) : Prop :=
  ∀ peer key' pt, svc.db.getPeerById clientId = some peer →
    requestKey svc peer (channelId.getD "") = .ok key' →
    xchachaDecryptRaw c key' encrypted = some pt → key' = key

end

/-- The receiver after a delivery: a row of the item for each post that stored one, and all but one
of those are posts whose response failed. -/
def Delivered (clientId : String) (channelId : Option String) (content : String)
    (before after : Messenger) (records : List PostRecord) : Prop :=
  ∃ new : List DChat, after.chats.rows = before.chats.rows ++ new ∧
    (∀ row ∈ new, row.fromId = clientId ∧ row.channelId = channelId.getD "" ∧
      row.content = content) ∧
    new.length = (records.filter (·.stored)).length ∧
    new.length ≤ 1 + (records.filter fun record => record.stored && record.responseFails).length

variable {c : Aead} {d : Dalek} {g : Graphql} {key kpBytes encrypted : Bytes} {clientId : String}
  {channelId : Option String} {ts now : Int64} {nonce : Nonce 24} {content : String} {svc : ChatService}
  {authed : AuthenticatedPeer} {m : Messenger} {x : Exchange}

/-- What the receiver makes of a request that it lets through is what the sender put in. -/
theorem authenticate_request (hc : c.Sound) {json : String}
    (hb : requestBody c d key kpBytes ts nonce json = some encrypted)
    (ho : OpensUnder c key clientId channelId encrypted svc)
    (ha : authenticate c d svc clientId (channelId.getD "") encrypted now = .ok authed) :
    authed.key = key ∧ authed.graphqlJson = json ∧ authed.peer.id = clientId := by
  obtain ⟨peer, key', plaintext, hpeer, hkey, hopen, hcheck⟩ := authenticate_ok ha
  obtain rfl : key' = key := ho peer key' _ hpeer hkey hopen
  have hplain : plaintext = requestPayload
      (ed25519Sign d kpBytes (Text.bytes (sigData ts json))) ts json := by
    rw [decrypt_requestBody hc hb, Option.some.injEq] at hopen
    exact Text.bytes_injective hopen.symm
  obtain ⟨-, -, -, rfl⟩ := checkPayload_ok hcheck
  refine ⟨rfl, ?_, ChatDb.id_of_getPeerById hpeer⟩
  rw [hplain, payloadParts_requestPayload (pipe_notMem_ed25519Sign _ _)]

/-- A reply to a request for a chat item that comes back intact is read. -/
theorem responseError_reply (hc : c.Sound) (hg : g.Sound) (hk : key.length = 32) {chat : DChat}
    {n : Nonce 24} : responseError c g key (.ok ((xchachaEncryptRaw c n key
      (Text.bytes (g.chatItemReply chat))).getD [])) = none := by
  have hround : (xchachaEncryptRaw c n key (Text.bytes (g.chatItemReply chat))).bind
      (xchachaDecryptRaw c key) = some _ := xchacha_roundtrip hc hk
  cases hs : xchachaEncryptRaw c n key (Text.bytes (g.chatItemReply chat)) with
  | none => simp [hs] at hround
  | some sent =>
    rw [hs, Option.bind_some] at hround
    simp only [Option.getD_some, responseError, hround, hg.readReply_chatItem]

/-- What one post does to the receiver: at most one row more, and the sender learns of it when the
response comes back as it was sent. -/
structure PostOutcome (clientId : String) (channelId : Option String) (content : String)
    (m : Messenger) (record : PostRecord) (after : Messenger × Option String) : Prop where
  service : after.1.service = m.service
  rows : ∃ new : List DChat, after.1.chats.rows = m.chats.rows ++ new ∧
    new.length = (if record.stored then 1 else 0) ∧
    ∀ row ∈ new, row.fromId = clientId ∧ row.channelId = channelId.getD "" ∧ row.content = content
  acknowledged : record.stored = true → record.responseFails = false → after.2 = none

theorem postOutcome (hc : c.Sound) (hg : g.Sound)
    (hb : requestBody c d key kpBytes ts nonce (g.createChatItem content) = some encrypted)
    (ho : OpensUnder c key clientId channelId encrypted m.service) :
    PostOutcome clientId channelId content m (postRecord c d clientId channelId encrypted m x)
      (post c d g m key clientId channelId encrypted x) := by
  cases x with
  | requestLost error =>
    refine ⟨rfl, ⟨[], by simp [post], by simp [postRecord], by simp⟩, ?_⟩
    intro hs
    simp [postRecord] at hs
  | handled draw arrival =>
    cases ha : authenticate c d m.service clientId (channelId.getD "") encrypted draw.nowMs with
    | error e =>
      have hs : (postRecord c d clientId channelId encrypted m
          (.handled draw arrival)).stored = false := by
        simp [postRecord, ha, Except.isOk, Except.toBool]
      simp only [post, handlePeerGraphql_error ha]
      refine ⟨rfl, ⟨[], by simp, by simp [hs], by simp⟩, ?_⟩
      intro hst
      rw [hs] at hst
      cases hst
    | ok authed =>
      obtain ⟨rfl, hjson, hid⟩ := authenticate_request hc hb ho ha
      have hx : g.execute authed.graphqlJson = .createChatItem content := by
        rw [hjson, hg.execute_createChatItem]
      have hs : (postRecord c d clientId channelId encrypted m (.handled draw arrival)).stored =
          ((channelId.getD "" = "" || m.channelOpen (channelId.getD "")) &&
            (m.getChatById draw.id).isNone) := by
        simp [postRecord, ha, Except.isOk, Except.toBool]
      simp only [post, handlePeerGraphql_chat ha hx]
      refine ⟨Messenger.service_receivePeerChat, ⟨_, Messenger.rows_receivePeerChat _ _ _ _ _ _, ?_, ?_⟩, ?_⟩
      · rw [hs]
        split <;> rfl
      · intro row hrow
        split at hrow
        · obtain rfl := List.mem_singleton.mp hrow
          exact ⟨hid, rfl, rfl⟩
        · cases hrow
      · intro _ hf
        cases arrival with
        | intact => exact responseError_reply hc hg (key_length_of_requestBody hb)
        | lost error => simp [postRecord] at hf
        | corrupted bytes => simp [postRecord] at hf

/-- Over the whole loop: a row for each post that stores one, and no post after one that stored its
row and got its response back. -/
theorem rows_tryUrls (hc : c.Sound) (hg : g.Sound)
    (hb : requestBody c d key kpBytes ts nonce (g.createChatItem content) = some encrypted)
    (ho : OpensUnder c key clientId channelId encrypted m.service)
    (exchanges : List (String × Exchange)) (errors : List String) :
    Delivered clientId channelId content m
      (tryUrls c d g key clientId channelId encrypted exchanges m errors).1
      (postRecords c d g key clientId channelId encrypted (exchanges.map Prod.snd) m) := by
  induction exchanges generalizing m errors with
  | nil => exact ⟨[], by simp [tryUrls], by simp, by simp [postRecords], by simp⟩
  | cons entry rest ih =>
    obtain ⟨url, x⟩ := entry
    have hout := postOutcome (m := m) (x := x) hc hg hb ho
    simp only [tryUrls, List.map_cons, postRecords]
    generalize post c d g m key clientId channelId encrypted x = after at hout
    generalize postRecord c d clientId channelId encrypted m x = record at hout
    obtain ⟨m', answer⟩ := after
    obtain ⟨first, hfirst, hlen, hrow⟩ := hout.rows
    cases answer with
    | none =>
      refine ⟨first, hfirst, hrow, ?_, ?_⟩
      · rw [hlen]
        cases hs : record.stored <;> simp [hs]
      · rw [hlen]
        split <;> omega
    | some error =>
      have hsvc : m'.service = m.service := hout.service
      obtain ⟨more, hmore, hmoreRow, hcount, hbound⟩ :=
        ih (m := m') (hsvc ▸ ho) (errors ++ [s!"{url}: {error}"])
      have hack : record.stored = true → record.responseFails = true := by
        intro hs
        by_contra hf
        have := hout.acknowledged hs (by simpa using hf)
        cases this
      refine ⟨first ++ more, ?_, ?_, ?_, ?_⟩
      · rw [hmore, hfirst, List.append_assoc]
      · intro row h
        rcases List.mem_append.mp h with h | h
        · exact hrow row h
        · exact hmoreRow row h
      · rw [List.length_append, hlen, hcount, List.filter_cons]
        split
        · simp
          omega
        · simp
      · rw [List.length_append, hlen, List.filter_cons]
        cases hs : record.stored with
        | false => simpa using hbound
        | true =>
          simp only [hack hs, Bool.and_self, if_true, List.length_cons]
          omega

/-- A receiver that lets the request through stores it again each time a response is lost. -/
theorem rows_tryUrls_lost (m : Messenger) (draw : Draw) (key : Bytes) (error : String)
    (lost : List (String × String)) (errors : List String)
    (ha : authenticate c d svc clientId (channelId.getD "") encrypted draw.nowMs = .ok authed)
    (hx : g.execute authed.graphqlJson = .createChatItem content) (hm : m.service = svc)
    (hopen : (channelId.getD "" = "" || m.channelOpen (channelId.getD "")) = true)
    (hids : (m.chats.rows.map DChat.id ++ lost.map Prod.snd).Nodup) :
    (tryUrls c d g key clientId channelId encrypted (lost.map fun p =>
      (p.1, .handled { draw with id := p.2 } (.lost error))) m errors).1.chats.rows =
      m.chats.rows ++ lost.map fun p =>
        Messenger.receivedChat draw.now p.2 authed.peer.id (channelId.getD "") content := by
  induction lost generalizing m errors with
  | nil => simp [tryUrls]
  | cons p rest ih =>
    have hfree : m.getChatById p.2 = none := by
      rw [Messenger.getChatById, Table.find?_eq_none]
      intro hmem
      rw [List.nodup_append] at hids
      exact hids.2.2 _ hmem _ (by simp) rfl
    have hrows := Messenger.rows_receivePeerChat m draw.now p.2 authed.peer.id (channelId.getD "")
      content
    rw [hopen, hfree] at hrows
    have ha' : authenticate c d m.service clientId (channelId.getD "") encrypted
        { draw with id := p.2 }.nowMs = .ok authed := hm ▸ ha
    simp only [List.map_cons, tryUrls, post, Arrival.bytes, responseError,
      handlePeerGraphql_chat ha' hx]
    rw [ih _ _ ?_ ?_ ?_, hrows]
    · simp
    · rw [Messenger.service_receivePeerChat, hm]
    · simpa [Messenger.channelOpen] using hopen
    · rw [hrows]
      simpa [Messenger.receivedChat, DChat.new] using hids

/-- What became of the posts of a delivery; there are none when nothing is encrypted. -/
def deliveryRecords (c : Aead) (d : Dalek) (g : Graphql) (m : Messenger) (exchanges : Nat → Exchange)
    (urls : List String) (key : Bytes) (clientId : String) (kpBytes : Bytes) (ts : Int64)
    (nonce : Nonce 24) (content : String) (channelId : Option String) : List PostRecord :=
  match requestBody c d key kpBytes ts nonce (g.createChatItem content) with
  | none => []
  | some encrypted =>
    postRecords c d g key clientId channelId encrypted (urls.mapIdx fun i _ => exchanges i) m

/-- A delivery stores at most one row more than there are stored posts whose response failed. -/
theorem deliverToPeer_delivered (c : Aead) (d : Dalek) (g : Graphql) (hc : c.Sound) (hg : g.Sound)
    (m : Messenger) (exchanges : Nat → Exchange) (urls : List String) (key : Bytes)
    (clientId : String) (kpBytes : Bytes) (ts : Int64) (nonce : Nonce 24) (content : String)
    (channelId : Option String)
    (ho : ∀ encrypted, requestBody c d key kpBytes ts nonce (g.createChatItem content) =
      some encrypted → OpensUnder c key clientId channelId encrypted m.service) :
    Delivered clientId channelId content m
      (deliverToPeer c d g m exchanges urls key clientId kpBytes ts nonce content channelId).1
      (deliveryRecords c d g m exchanges urls key clientId kpBytes ts nonce content channelId) := by
  cases hb : requestBody c d key kpBytes ts nonce (g.createChatItem content) with
  | none =>
    simp only [deliverToPeer, deliveryRecords, hb]
    exact ⟨[], by simp, by simp, by simp, by simp⟩
  | some encrypted =>
    simp only [deliverToPeer, deliveryRecords, hb]
    have h := rows_tryUrls hc hg hb (ho encrypted hb)
      (urls.mapIdx fun i url => (url, exchanges i)) []
    have hmap : (urls.mapIdx fun i url => (url, exchanges i)).map Prod.snd =
        urls.mapIdx fun i _ => exchanges i := by
      rw [List.mapIdx_eq_zipIdx_map, List.mapIdx_eq_zipIdx_map, List.map_map]
      rfl
    rwa [hmap] at h

/-- The text of a request on both sides of the content. -/
def demoRequestHead : String :=
  "\x7b\"query\":\"mutation CreateChatItem($content: String!) \x7b createChatItem(content: $content) \x7b id fromId toId createdAt \x7d \x7d\",\"variables\":\x7b\"content\":\""

def demoRequestTail : String := "\"\x7d\x7d"

def demoReplyHead : String := "\x7b\"data\":"

/-- JSON texts for contents and ids that need no escapes. -/
def demoGraphql : Graphql where
  createChatItem content := demoRequestHead ++ content ++ demoRequestTail
  execute json :=
    let cs := json.toList.drop demoRequestHead.length
    if demoRequestHead.toList <+: json.toList ∧ demoRequestTail.toList <:+ cs then
      .createChatItem (String.ofList (cs.take (cs.length - demoRequestTail.length)))
    else .other
  chatItemReply chat :=
    demoReplyHead ++ "\x7b" ++ "\"createChatItem\":\x7b\"id\":\"" ++ chat.id ++ "\",\"fromId\":\"" ++
      chat.fromId ++ "\",\"toId\":\"" ++ chat.toId ++ "\",\"createdAt\":\"" ++ chat.createdAt ++
      "\"\x7d\x7d\x7d"
  systemMessageReply ok :=
    demoReplyHead ++ "\x7b\"channelSystemMessage\":" ++ toString ok ++ "\x7d\x7d"
  otherReply _ := demoReplyHead ++ "null,\"errors\":[]\x7d"
  readReply b :=
    if Text.bytes demoReplyHead <+: b then
      some (if Text.bytes (demoReplyHead ++ "\x7b") <+: b then none else some "[]")
    else none

theorem demoGraphql_sound : demoGraphql.Sound where
  execute_createChatItem content := by
    have hdrop : (demoRequestHead ++ content ++ demoRequestTail).toList.drop
        demoRequestHead.length = content.toList ++ demoRequestTail.toList := by
      rw [String.toList_append, String.toList_append, List.append_assoc]
      exact List.drop_left' String.length_toList
    have htake : (content.toList ++ demoRequestTail.toList).take
        ((content.toList ++ demoRequestTail.toList).length - demoRequestTail.length) =
          content.toList := by
      apply List.take_left'
      rw [List.length_append, ← String.length_toList (s := demoRequestTail)]
      omega
    have hhead : demoRequestHead.toList <+:
        (demoRequestHead ++ content ++ demoRequestTail).toList := by
      simp
    simp only [demoGraphql, hdrop, hhead, List.suffix_append, and_self, if_true, htake,
      String.ofList_toList]
  readReply_chatItem chat := by
    have hbody : ∀ s t : String, Text.bytes s <+: Text.bytes (s ++ t) := by
      intro s t
      rw [Text.bytes_append]
      exact List.prefix_append _ _
    have hbrace : ∀ s t u : String, Text.bytes (s ++ t) <+: Text.bytes (s ++ (t ++ u)) := by
      intro s t u
      have hassoc : s ++ (t ++ u) = s ++ t ++ u := String.append_assoc.symm
      rw [hassoc]
      exact hbody (s ++ t) u
    simp only [demoGraphql, String.append_assoc]
    rw [if_pos (hbody _ _), if_pos (hbrace _ _ _)]

def demoNonce : Nonce 24 := ⟨List.replicate 24 0, rfl⟩

def demoMessenger (svc : ChatService) : Messenger := ⟨svc, Table.empty⟩

/-- Every post arrives and every response is lost. -/
def repliesLost (i : Nat) : Exchange := .handled ⟨0, "t", s!"m{i}", demoNonce⟩ (.lost "timeout")

def demoUrls : List String :=
  ["https://10.0.0.2:8443/peer_graphql", "https://192.168.1.2:8443/peer_graphql"]

theorem getPeerById_demoBob : demoBob.db.getPeerById "alice" = some (demoPeer "alice" 1 9) :=
  getPeerById_demoService

theorem requestKey_demoBob :
    requestKey demoBob (demoPeer "alice" 1 9) "" = .ok (List.replicate 32 9) :=
  requestKey_direct.mpr ⟨rfl, base64Decode_encode _⟩

theorem opensUnder_demoBob : OpensUnder checksumAead (List.replicate 32 9) "alice" none encrypted
    demoBob := by
  intro peer key' pt hpeer hkey _
  rw [getPeerById_demoBob, Option.some.injEq] at hpeer
  subst hpeer
  have hkey : requestKey demoBob (demoPeer "alice" 1 9) "" = .ok key' := hkey
  rw [requestKey_demoBob, Except.ok.injEq] at hkey
  exact hkey.symm

theorem repliesLost_delivered : Delivered "alice" none "hi" (demoMessenger demoBob)
    (deliverToPeer checksumAead checksumDalek demoGraphql (demoMessenger demoBob) repliesLost
      demoUrls (List.replicate 32 9) "alice" (demoKeypair 1) 0 demoNonce "hi" none).1
    (deliveryRecords checksumAead checksumDalek demoGraphql (demoMessenger demoBob) repliesLost
      demoUrls (List.replicate 32 9) "alice" (demoKeypair 1) 0 demoNonce "hi" none) :=
  deliverToPeer_delivered checksumAead checksumDalek demoGraphql checksumAead_sound
    demoGraphql_sound (demoMessenger demoBob) repliesLost demoUrls (List.replicate 32 9) "alice"
    (demoKeypair 1) 0 demoNonce "hi" none fun _ _ => opensUnder_demoBob

/-- Alice's request passes at Bob each time it arrives. -/
theorem authenticate_demoBob {json : String} (hjson : json ≠ "")
    (hb : requestBody checksumAead checksumDalek (List.replicate 32 9) (demoKeypair 1) 0 demoNonce
      json = some encrypted) :
    ∃ authed, authenticate checksumAead checksumDalek demoBob "alice" "" encrypted 0 = .ok authed ∧
      authed.graphqlJson = json :=
  ⟨_, authenticate_requestBody checksumAead_sound checksumDalek_sound ⟨rfl, rfl⟩ hb hjson
    getPeerById_demoBob rfl requestKey_demoBob (by decide), rfl⟩

/-- With both responses lost, Alice's one message is stored twice. -/
theorem repliesLost_storedTwice : ¬ ∀ (c : Aead) (d : Dalek) (g : Graphql), c.Sound → d.Sound →
    g.Sound → ∀ (m : Messenger) (exchanges : Nat → Exchange) (urls : List String) (key : Bytes)
      (clientId : String) (kpBytes : Bytes) (ts : Int64) (nonce : Nonce 24) (content : String)
      (channelId : Option String),
      (∀ encrypted, requestBody c d key kpBytes ts nonce (g.createChatItem content) =
        some encrypted → OpensUnder c key clientId channelId encrypted m.service) →
      (deliverToPeer c d g m exchanges urls key clientId kpBytes ts nonce content
        channelId).1.chats.rows.length ≤ m.chats.rows.length + 1 := by
  intro hall
  have hle := hall checksumAead checksumDalek demoGraphql checksumAead_sound checksumDalek_sound
    demoGraphql_sound (demoMessenger demoBob) repliesLost demoUrls (List.replicate 32 9) "alice"
    (demoKeypair 1) 0 demoNonce "hi" none fun _ _ => opensUnder_demoBob
  obtain ⟨encrypted, hb⟩ := exists_requestBody checksumAead checksumDalek (demoKeypair 1) 0
    demoNonce (demoGraphql.createChatItem "hi") (List.length_replicate (n := 32) (a := (9 : UInt8)))
  have hjson : demoGraphql.createChatItem "hi" ≠ "" := by decide +kernel
  obtain ⟨authed, ha, hauthed⟩ := authenticate_demoBob hjson hb
  have ha : authenticate checksumAead checksumDalek demoBob "alice" ((none : Option String).getD "")
      encrypted 0 = .ok authed := ha
  have hx : demoGraphql.execute authed.graphqlJson = .createChatItem "hi" := by
    rw [hauthed, demoGraphql_sound.execute_createChatItem]
  have hrows := rows_tryUrls_lost (demoMessenger demoBob) ⟨0, "t", "", demoNonce⟩
    (List.replicate 32 9) "timeout" (demoUrls.mapIdx fun i url => (url, s!"m{i}")) [] ha hx rfl rfl
    (by decide +kernel)
  have hposts : (demoUrls.mapIdx fun i url => (url, repliesLost i)) =
      (demoUrls.mapIdx fun i url => (url, s!"m{i}")).map fun p =>
        (p.1, .handled ⟨0, "t", p.2, demoNonce⟩ (.lost "timeout")) := rfl
  simp only [deliverToPeer, hb, hposts, hrows] at hle
  exact absurd hle (by simp [demoUrls, demoMessenger, Table.empty])

end PlainRs.Chat
