import PlainRs.Base.Runs
import PlainRs.Chat.Delivery

/-! What an authenticated request says about its sender, with a dishonest peer in the room: the
signature covers the timestamp and the payload, and neither the receiver nor the channel. -/
namespace PlainRs.Chat

open Runs Clock PlainRs.Crypto PlainRs.Utils PlainRs.LocalApi

/-- A JSON text of an object. -/
def isObject (json : String) : Bool := json.toList.head? = some '{'

/-- An integer with an object right behind it, which is what a request's signature covers. -/
def isRequestText (text : String) : Bool :=
  (Text.parseI64 (text.toList.takeWhile (· ≠ '{'))).isSome &&
    (text.toList.dropWhile (· ≠ '{')).head? = some '{'

/-- A request that a device has sent. -/
structure SentRequest where
  sender : String
  receiver : String
  channelId : String
  key : Bytes
  kpBytes : Bytes
  timestamp : Int64
  nonce : Nonce 24
  json : String

/-- What the dishonest peer holds: keys of its own, and the keys of some channels. -/
structure Insider where
  id : String
  holds : Bytes → Prop
  channels : String → Prop

/-- All devices, the requests they have sent, and the texts that each has signed. -/
structure Realm where
  device : String → ChatService
  requests : List SentRequest
  signed : List (String × String)

inductive RealmAction
  | send (sender receiver channelId : String) (key : Bytes) (timestamp : Int64) (nonce : Nonce 24)
      (json : String)
  /-- The signatures of pairing, of channel messages and of the status handshake. -/
  | sign (signer text : String)
  /-- Whatever else changes a device. -/
  | become (id : String) (svc : ChatService)

section

variable (c : Aead) (d : Dalek) (insider : Insider) (publicKey : String → String)

def SentRequest.body (r : SentRequest) : Option Bytes :=
  requestBody c d r.key r.kpBytes r.timestamp r.nonce r.json

/-- A key that a device takes for a request to this receiver, in this channel if there is one. -/
def ChatService.usesKey (svc : ChatService) (receiver channelId : String) (key : Bytes) : Bool :=
  if channelId = "" then
    svc.peerKeyCache receiver = some key ||
      (svc.db.getPeerById receiver).any fun peer => rawKey peer.key = some key
  else
    svc.channelKeyCache channelId = some key ||
      (svc.db.getChannelById channelId).any fun channel => base64Decode channel.key = key

def Realm.next (w : Realm) : RealmAction → Option Realm
  | .send sender receiver channelId key timestamp nonce json =>
    if (w.device sender).usesKey receiver channelId key = true ∧ isObject json = true then
      some { w with
        requests := ⟨sender, receiver, channelId, key, (w.device sender).kpBytes, timestamp, nonce,
          json⟩ :: w.requests
        signed := (sender, sigData timestamp json) :: w.signed }
    else none
  | .sign signer text =>
    if isRequestText text = true then none else some { w with signed := (signer, text) :: w.signed }
  | .become id svc => some { w with device := Function.update w.device id svc }

def realm : System Realm RealmAction where
  init w := w.requests = [] ∧ w.signed = []
  next := Realm.next

/-- The keys of a device that only their holders know, the dishonest peer not among them. -/
structure KeysPrivate (svc : ChatService) : Prop where
  pairwise : ∀ id p, id ≠ insider.id → svc.db.getPeerById id = some p → p.isPaired = true →
    ¬ insider.holds (base64Decode p.key)
  channel : ∀ id key, ¬ insider.channels id → svc.channelKeyCache id = some key →
    ¬ insider.holds key

/-- A body of the dishonest peer's making, with any headers: it opens for the receiver only under a
key the peer holds, and a signature in it that verifies under the public key of the device it
names was made by that device. -/
structure InsiderPost (w : Realm) (receiver clientId channelId : String) (body : Bytes) : Prop where
  opens : ∀ peer key pt, (w.device receiver).db.getPeerById clientId = some peer →
    requestKey (w.device receiver) peer channelId = .ok key →
    xchachaDecryptRaw c key body = some pt → insider.holds key
  unforged : ∀ peer key text, (w.device receiver).db.getPeerById clientId = some peer →
    requestKey (w.device receiver) peer channelId = .ok key →
    xchachaDecryptRaw c key body = some (Text.bytes text) → clientId ≠ insider.id →
    ed25519Verify d (publicKey clientId) (Text.bytes (sigData (payloadParts text).timestamp
      (payloadParts text).graphqlJson)) (payloadParts text).signatureB64 = true →
    (clientId, sigData (payloadParts text).timestamp (payloadParts text).graphqlJson) ∈ w.signed

/-- What comes in at a receiver, under these headers: a request that was sent to it, which opens
under no key but its own, or a post of the dishonest peer. -/
inductive Arrives (w : Realm) (receiver : String) : String → String → Bytes → Prop
  | sent {r : SentRequest} {body : Bytes} (hr : r ∈ w.requests) (hto : r.receiver = receiver)
      (hb : r.body c d = some body)
      (ho : OpensUnder c r.key r.sender (some r.channelId) body (w.device receiver)) :
      Arrives w receiver r.sender r.channelId body
  | insider {clientId channelId : String} {body : Bytes}
      (hp : InsiderPost c d insider publicKey w receiver clientId channelId body) :
      Arrives w receiver clientId channelId body

end

variable {c : Aead} {d : Dalek} {w w' : Realm} {timestamp timestamp' : Int64} {json json' : String}

/-- The log of signatures is that of the requests, up to texts that no request signs. -/
structure Logged (w : Realm) : Prop where
  requests : ∀ r ∈ w.requests, isObject r.json = true ∧
    (r.sender, sigData r.timestamp r.json) ∈ w.signed
  signed : ∀ e ∈ w.signed, isRequestText e.2 = true →
    ∃ r ∈ w.requests, r.sender = e.1 ∧ sigData r.timestamp r.json = e.2

theorem brace_notMem_timestamp : '{' ∉ (toString timestamp).toList := by
  intro h
  rcases mem_timestamp h with h | h <;> exact absurd h (by decide)

/-- The text of a request falls apart where its object begins. -/
theorem cut_sigData (timestamp : Int64) (h : isObject json = true) :
    (sigData timestamp json).toList.takeWhile (· ≠ '{') = (toString timestamp).toList ∧
    (sigData timestamp json).toList.dropWhile (· ≠ '{') = json.toList := by
  have hpre : ∀ ch ∈ (toString timestamp).toList, decide (ch ≠ '{') = true := by
    intro ch hch
    rw [decide_eq_true_eq]
    rintro rfl
    exact brace_notMem_timestamp hch
  obtain ⟨rest, hrest⟩ : ∃ rest, json.toList = '{' :: rest :=
    List.head?_eq_some_iff.mp (by simpa [isObject] using h)
  rw [sigData, String.toList_append, List.takeWhile_append_of_pos hpre,
    List.dropWhile_append_of_pos hpre, hrest]
  simp

theorem isRequestText_sigData (h : isObject json = true) :
    isRequestText (sigData timestamp json) = true := by
  obtain ⟨htake, hdrop⟩ := cut_sigData timestamp h
  rw [isRequestText, htake, hdrop, Text.parseI64_toString]
  simpa [isObject] using h

theorem sigData_injective (h : isObject json = true) (h' : isObject json' = true)
    (he : sigData timestamp json = sigData timestamp' json') :
    timestamp = timestamp' ∧ json = json' := by
  obtain ⟨htake, hdrop⟩ := cut_sigData timestamp h
  obtain ⟨htake', hdrop'⟩ := cut_sigData timestamp' h'
  rw [he] at htake hdrop
  have hts : (toString timestamp).toList = (toString timestamp').toList := htake.symm.trans htake'
  have hint := congrArg Text.parseI64 hts
  rw [Text.parseI64_toString, Text.parseI64_toString, Option.some.injEq] at hint
  exact ⟨Int64.toInt_inj.mp hint, String.toList_inj.mp (hdrop.symm.trans hdrop')⟩

theorem logged_next {a : RealmAction} (h : Logged w) (hn : w.next a = some w') : Logged w' := by
  cases a with
  | send sender receiver channelId key timestamp nonce json =>
    simp only [Realm.next] at hn
    split at hn
    · next hguard =>
      cases hn
      constructor
      · intro r hr
        rcases List.mem_cons.mp hr with rfl | hr
        · exact ⟨hguard.2, List.mem_cons_self⟩
        · exact ⟨(h.requests r hr).1, List.mem_cons_of_mem _ (h.requests r hr).2⟩
      · intro e he ht
        rcases List.mem_cons.mp he with rfl | he
        · exact ⟨_, List.mem_cons_self, rfl, rfl⟩
        · obtain ⟨r, hr, hs⟩ := h.signed e he ht
          exact ⟨r, List.mem_cons_of_mem _ hr, hs⟩
    · cases hn
  | sign signer text =>
    simp only [Realm.next] at hn
    split at hn
    · cases hn
    · next hother =>
      cases hn
      constructor
      · intro r hr
        exact ⟨(h.requests r hr).1, List.mem_cons_of_mem _ (h.requests r hr).2⟩
      · intro e he ht
        rcases List.mem_cons.mp he with rfl | he
        · exact absurd ht hother
        · exact h.signed e he ht
  | become id svc =>
    cases hn
    exact ⟨h.requests, h.signed⟩

theorem logged_reachable (h : Reachable realm w) : Logged w := by
  refine h.invariant ?_ fun _ _ _ hi hn => logged_next hi hn
  rintro s ⟨hr, hs⟩
  exact ⟨by simp [hr], by simp [hs]⟩

variable {insider : Insider} {publicKey : String → String} {receiver clientId channelId : String}
  {body : Bytes} {now : Int64} {authed : AuthenticatedPeer}

/-- The key that the headers select is not the dishonest peer's where the message is direct, or
into a channel whose key it does not hold. -/
theorem not_holds_requestKey {svc : ChatService} {peer : DPeer} {key : Bytes}
    (hp : KeysPrivate insider svc) (hid : clientId ≠ insider.id)
    (hpeer : svc.db.getPeerById clientId = some peer)
    (hkey : requestKey svc peer channelId = .ok key)
    (hc : channelId = "" ∨ ¬ insider.channels channelId) : ¬ insider.holds key := by
  by_cases he : channelId = ""
  · subst he
    obtain ⟨hpaired, rfl⟩ := requestKey_direct.mp hkey
    exact hp.pairwise clientId peer hid hpeer hpaired
  · exact hp.channel channelId key (hc.resolve_left he) ((requestKey_channel he).mp hkey)

/-- A request that arrives as it was sent is read as it was sent. -/
theorem authenticate_sent (hc : c.Sound) {r : SentRequest} (hb : r.body c d = some body)
    {svc : ChatService} (ho : OpensUnder c r.key r.sender (some r.channelId) body svc)
    (ha : authenticate c d svc r.sender r.channelId body now = .ok authed) :
    authed.timestamp = r.timestamp ∧ authed.graphqlJson = r.json := by
  obtain ⟨peer, key, plaintext, hpeer, hkey, hopen, hcheck⟩ := authenticate_ok ha
  obtain rfl : key = r.key := ho peer key _ hpeer hkey hopen
  have hplain : plaintext = requestPayload (ed25519Sign d r.kpBytes
      (Text.bytes (sigData r.timestamp r.json))) r.timestamp r.json := by
    rw [decrypt_requestBody hc hb, Option.some.injEq] at hopen
    exact Text.bytes_injective hopen.symm
  obtain ⟨-, -, -, rfl⟩ := checkPayload_ok hcheck
  rw [hplain, payloadParts_requestPayload (pipe_notMem_ed25519Sign _ _)]
  exact ⟨rfl, rfl⟩

/-- Whoever a request is let through for has signed its timestamp and payload, and has sent that
payload in a request of its own; it has sent it to this receiver in this context where the message
is direct, or into a channel whose key the dishonest peer does not hold. -/
theorem authenticate_context (c : Aead) (d : Dalek) (hc : c.Sound) (insider : Insider)
    (publicKey : String → String) (w : Realm) (hw : Reachable realm w)
    (receiver clientId channelId : String) (body : Bytes) (now : Int64)
    (authed : AuthenticatedPeer) (hid : clientId ≠ insider.id)
    (hp : KeysPrivate insider (w.device receiver))
    (hpub : ∀ peer, (w.device receiver).db.getPeerById clientId = some peer →
      peer.publicKey = publicKey clientId)
    (harr : Arrives c d insider publicKey w receiver clientId channelId body)
    (ha : authenticate c d (w.device receiver) clientId channelId body now = .ok authed) :
    (clientId, sigData authed.timestamp authed.graphqlJson) ∈ w.signed ∧
    (isObject authed.graphqlJson = true → ∃ r ∈ w.requests, r.sender = clientId ∧
      r.timestamp = authed.timestamp ∧ r.json = authed.graphqlJson) ∧
    (channelId = "" ∨ ¬ insider.channels channelId → ∃ r ∈ w.requests, r.sender = clientId ∧
      r.receiver = receiver ∧ r.channelId = channelId ∧ r.timestamp = authed.timestamp ∧
      r.json = authed.graphqlJson) := by
  have hlog := logged_reachable hw
  cases harr with
  | sent hr hto hb ho =>
    obtain ⟨hts, hjson⟩ := authenticate_sent hc hb ho ha
    refine ⟨?_, fun _ => ⟨_, hr, rfl, hts.symm, hjson.symm⟩,
      fun _ => ⟨_, hr, rfl, hto, rfl, hts.symm, hjson.symm⟩⟩
    rw [hts, hjson]
    exact (hlog.requests _ hr).2
  | insider hpost =>
    obtain ⟨peer, key, plaintext, hpeer, hkey, hopen, hcheck⟩ := authenticate_ok ha
    obtain ⟨-, -, hverify, rfl⟩ := checkPayload_ok hcheck
    rw [hpub peer hpeer] at hverify
    have hsigned := hpost.unforged peer key plaintext hpeer hkey hopen hid hverify
    refine ⟨hsigned, ?_, ?_⟩
    · intro hobj
      obtain ⟨r, hr, hsender, htext⟩ := hlog.signed _ hsigned (isRequestText_sigData hobj)
      obtain ⟨hts, hjson⟩ := sigData_injective (hlog.requests r hr).1 hobj htext
      exact ⟨r, hr, hsender, hts, hjson⟩
    · intro hctx
      exact absurd (hpost.opens peer key _ hpeer hkey hopen)
        (not_holds_requestKey hp hid hpeer hkey hctx)

/-- Bob is paired with Alice, and holds the key of channel `c` as Mallory does. -/
def demoReceiver : ChatService :=
  { demoService "bob" 2 [demoPeer "alice" 1 8] with
    channelKeyCache := fun id => if id = "c" then some (List.replicate 32 7) else none }

def demoRealm : Realm where
  device id := if id = "bob" then demoReceiver else demoService id 1 [demoPeer "mallory" 3 9]
  requests := []
  signed := []

def mallory : Insider where
  id := "mallory"
  holds key := key = List.replicate 32 9 ∨ key = List.replicate 32 7
  channels id := id = "c"

def demoPublicKey (id : String) : String :=
  base64Encode ((demoKeypair (if id = "alice" then 1 else if id = "bob" then 2 else 3)).drop 32)

/-- Alice's message to Mallory. -/
def demoSent : SentRequest :=
  ⟨"alice", "mallory", "", List.replicate 32 9, (demoRealm.device "alice").kpBytes, 0, demoNonce,
    demoGraphql.createChatItem "hi"⟩

def demoSentRealm : Realm :=
  { demoRealm with
    requests := [demoSent]
    signed := [("alice", sigData 0 (demoGraphql.createChatItem "hi"))] }

theorem isObject_demoGraphql (content : String) :
    isObject (demoGraphql.createChatItem content) = true := by
  have hjson : demoGraphql.createChatItem content =
      demoRequestHead ++ content ++ demoRequestTail := rfl
  have hhead : demoRequestHead.toList.head? = some '{' := by decide +kernel
  rw [isObject, hjson, String.toList_append, String.toList_append, List.head?_append,
    List.head?_append, hhead]
  rfl

theorem demoSentRealm_reachable : Reachable realm demoSentRealm := by
  refine Reachable.step (s := demoRealm) (a := .send "alice" "mallory" "" (List.replicate 32 9) 0
    demoNonce (demoGraphql.createChatItem "hi")) (Reachable.init ⟨rfl, rfl⟩) ?_
  have hguard : (demoRealm.device "alice").usesKey "mallory" "" (List.replicate 32 9) = true ∧
      isObject (demoGraphql.createChatItem "hi") = true := by
    refine ⟨?_, isObject_demoGraphql "hi"⟩
    have hcache : (demoRealm.device "alice").peerKeyCache "mallory" =
        some (List.replicate 32 9) := peerKeyCache_demoService getPeerById_demoService
    rw [ChatService.usesKey, if_pos rfl, hcache, decide_eq_true rfl, Bool.true_or]
  simp only [realm, Realm.next, hguard, and_self, if_true]
  rfl

theorem getPeerById_demoReceiver_alice :
    demoReceiver.db.getPeerById "alice" = some (demoPeer "alice" 1 8) :=
  getPeerById_demoService

theorem getPeerById_demoReceiver {id : String} {p : DPeer}
    (h : demoReceiver.db.getPeerById id = some p) :
    id = "alice" ∧ p = demoPeer "alice" 1 8 := by
  by_cases hid : id = "alice"
  · subst hid
    exact ⟨rfl, Option.some.inj (h.symm.trans getPeerById_demoReceiver_alice)⟩
  · have hnone : demoReceiver.db.getPeerById id = none :=
      (ChatDb.getPeerById_upsertPeer_ne hid).trans rfl
    rw [hnone] at h
    cases h

theorem keysPrivate_demoReceiver : KeysPrivate mallory demoReceiver where
  pairwise id p _ hpeer _ hholds := by
    obtain ⟨-, rfl⟩ := getPeerById_demoReceiver hpeer
    revert hholds
    simp only [mallory, demoPeer, base64Decode_encode]
    decide
  channel id key hc hkey _ := by
    have hkey : (if id = "c" then some (List.replicate 32 7) else none) = some key := hkey
    have hc : id ≠ "c" := hc
    rw [if_neg hc] at hkey
    cases hkey

/-- Mallory puts the payload of Alice's message under the key of the channel. -/
theorem repost_arrives (hb : requestBody checksumAead checksumDalek (List.replicate 32 7)
    demoSent.kpBytes 0 demoNonce demoSent.json = some body) :
    Arrives checksumAead checksumDalek mallory demoPublicKey demoSentRealm "bob" "alice" "c" body := by
  have hkey : ∀ peer key, requestKey (demoSentRealm.device "bob") peer "c" = .ok key →
      key = List.replicate 32 7 := by
    intro peer key hk
    exact (Option.some.inj ((requestKey_channel (by decide)).mp hk)).symm
  refine .insider ⟨fun peer key pt _ hk _ => .inr (hkey peer key hk), ?_⟩
  intro peer key text _ hk hopen _ _
  rw [hkey peer key hk, decrypt_requestBody checksumAead_sound hb, Option.some.injEq] at hopen
  rw [← Text.bytes_injective hopen, payloadParts_requestPayload (pipe_notMem_ed25519Sign _ _)]
  exact List.mem_cons_self

theorem authenticate_repost (hb : requestBody checksumAead checksumDalek (List.replicate 32 7)
    demoSent.kpBytes 0 demoNonce demoSent.json = some body) :
    ∃ authed, authenticate checksumAead checksumDalek demoReceiver "alice" "c" body 0 =
      .ok authed := by
  have hbob : ¬ "alice" = "bob" := by decide
  have hdevice : demoRealm.device "alice" = demoService "alice" 1 [demoPeer "mallory" 3 9] := by
    unfold demoRealm
    dsimp only
    rw [if_neg hbob]
  have halice : demoSent.kpBytes = (demoService "alice" 1 [demoPeer "mallory" 3 9]).kpBytes := by
    rw [demoSent, hdevice]
  have hbytes : demoSent.kpBytes = demoKeypair 1 := by
    rw [halice]
    exact base64Decode_encode _
  have hpair : checksumDalek.Keypair demoSent.kpBytes := by
    rw [halice]
    exact keypair_demoService
  have hpub : (demoPeer "alice" 1 8).publicKey = base64Encode (demoSent.kpBytes.drop 32) := by
    rw [hbytes]
    rfl
  have hkey : requestKey demoReceiver (demoPeer "alice" 1 8) "c" = .ok (List.replicate 32 7) :=
    (requestKey_channel (by decide)).mpr rfl
  have hjson : demoSent.json ≠ "" := by
    intro hempty
    have hobject : isObject demoSent.json = true := isObject_demoGraphql "hi"
    rw [hempty] at hobject
    exact absurd hobject (by decide)
  exact ⟨_, authenticate_requestBody checksumAead_sound checksumDalek_sound hpair hb
    hjson getPeerById_demoReceiver_alice hpub hkey (by decide)⟩

theorem exists_repost : ∃ body authed, Arrives checksumAead checksumDalek mallory demoPublicKey
      demoSentRealm "bob" "alice" "c" body ∧
    authenticate checksumAead checksumDalek (demoSentRealm.device "bob") "alice" "c" body 0 =
      .ok authed := by
  obtain ⟨body, hb⟩ := exists_requestBody checksumAead checksumDalek demoSent.kpBytes 0 demoNonce
    demoSent.json (List.length_replicate (n := 32) (a := (7 : UInt8)))
  obtain ⟨authed, ha⟩ := authenticate_repost hb
  exact ⟨body, authed, repost_arrives hb, ha⟩

theorem publicKey_demoReceiver {peer : DPeer}
    (h : (demoSentRealm.device "bob").db.getPeerById "alice" = some peer) :
    peer.publicKey = demoPublicKey "alice" := by
  obtain ⟨-, rfl⟩ := getPeerById_demoReceiver h
  have hpub : (demoPeer "alice" 1 8).publicKey = base64Encode ((demoKeypair 1).drop 32) := rfl
  rw [hpub, demoPublicKey, if_pos rfl]

theorem repost_signedByAlice : ∃ authed : AuthenticatedPeer,
    ("alice", sigData authed.timestamp authed.graphqlJson) ∈ demoSentRealm.signed ∧
    (isObject authed.graphqlJson = true → ∃ r ∈ demoSentRealm.requests, r.sender = "alice" ∧
      r.timestamp = authed.timestamp ∧ r.json = authed.graphqlJson) ∧
    ("c" = "" ∨ ¬ mallory.channels "c" → ∃ r ∈ demoSentRealm.requests, r.sender = "alice" ∧
      r.receiver = "bob" ∧ r.channelId = "c" ∧ r.timestamp = authed.timestamp ∧
      r.json = authed.graphqlJson) := by
  obtain ⟨body, authed, harr, ha⟩ := exists_repost
  exact ⟨authed, authenticate_context checksumAead checksumDalek checksumAead_sound mallory
    demoPublicKey demoSentRealm demoSentRealm_reachable "bob" "alice" "c" body 0 authed (by decide)
    keysPrivate_demoReceiver (fun _ h => publicKey_demoReceiver h) harr ha⟩

/-- Alice wrote to Mallory alone, and Bob reads it as her message in the channel. -/
theorem repost_changesContext : ¬ ∀ (c : Aead) (d : Dalek), c.Sound → d.Sound →
    ∀ (insider : Insider) (publicKey : String → String) (w : Realm), Reachable realm w →
    ∀ (receiver clientId channelId : String) (body : Bytes) (now : Int64)
      (authed : AuthenticatedPeer), clientId ≠ insider.id →
      KeysPrivate insider (w.device receiver) →
      (∀ peer, (w.device receiver).db.getPeerById clientId = some peer →
        peer.publicKey = publicKey clientId) →
      Arrives c d insider publicKey w receiver clientId channelId body →
      authenticate c d (w.device receiver) clientId channelId body now = .ok authed →
      ∃ r ∈ w.requests, r.sender = clientId ∧ r.receiver = receiver ∧ r.channelId = channelId ∧
        r.json = authed.graphqlJson := by
  intro hall
  obtain ⟨body, authed, harr, ha⟩ := exists_repost
  obtain ⟨r, hr, -, hto, -⟩ := hall checksumAead checksumDalek checksumAead_sound
    checksumDalek_sound mallory demoPublicKey demoSentRealm demoSentRealm_reachable "bob" "alice"
    "c" body 0 authed (by decide) keysPrivate_demoReceiver (fun _ h => publicKey_demoReceiver h)
    harr ha
  obtain rfl : r = demoSent := List.mem_singleton.mp hr
  exact absurd hto (by decide)

end PlainRs.Chat
