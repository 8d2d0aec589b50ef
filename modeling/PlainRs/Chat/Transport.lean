import PlainRs.LocalApi.PeerGraphql
import PlainRs.Utils.Url

/-! `deliver_to_peer`: one request to the addresses of a peer in turn, until one is acknowledged. -/
namespace PlainRs.Chat

open Clock PlainRs.Crypto PlainRs.Utils PlainRs.LocalApi

/-- The most recent address comes first. -/
def peerGraphqlUrls (peer : DPeer) : List String :=
  (((peer.ip.toList.splitOn ',').map fun ip => Text.trim (String.ofList ip)).filter (· ≠ "")).map
    fun ip => buildUrl "https" ip peer.port "/peer_graphql"

/-- What becomes of a response on its way back. -/
inductive Arrival
  | intact
  | lost (error : String)
  | corrupted (bytes : Bytes)

def Arrival.bytes : Arrival → Bytes → Except String Bytes
  | .intact, response => .ok response
  | .lost error, _ => .error error
  | .corrupted bytes, _ => .ok bytes

/-- What becomes of one post of a request. -/
inductive Exchange
  | requestLost (error : String)
  | handled (draw : Draw) (arrival : Arrival)

section

variable (c : Aead) (d : Dalek) (g : Graphql)

/-- Why a response counts as a failure, if it does. -/
def responseError (key : Bytes) : Except String Bytes → Option String
  | .error e => some e
  | .ok response =>
    match xchachaDecryptRaw c key response with
    | none => some "failed decrypting response"
    | some decrypted =>
      match g.readReply decrypted with
      | none => some "invalid JSON response"
      | some (some value) => some s!"GraphQL errors {value}"
      | some none => none

/-- The receiver after one post, and why the post counts as a failure. -/
def post (m : Messenger) (key : Bytes) (clientId : String) (channelId : Option String)
    (encrypted : Bytes) : Exchange → Messenger × Option String
  | .requestLost error => (m, some error)
  | .handled draw arrival =>
    let (m, response) := handlePeerGraphql c d g m draw clientId (channelId.getD "") encrypted
    (m, responseError c g key (arrival.bytes response))

/-- The loop over the addresses. -/
def tryUrls (key : Bytes) (clientId : String) (channelId : Option String) (encrypted : Bytes) :
    List (String × Exchange) → Messenger → List String → Messenger × Except String Unit
  | [], m, errors =>
    (m, .error (if errors = [] then "delivery failed" else "; ".intercalate errors))
  | (url, exchange) :: rest, m, errors =>
    match post c d g m key clientId channelId encrypted exchange with
    | (m, none) => (m, .ok ())
    | (m, some e) => tryUrls key clientId channelId encrypted rest m (errors ++ [s!"{url}: {e}"])

/-- The body that is posted: signed, dated and encrypted once for all addresses. -/
def requestBody (key : Bytes) (kpBytes : Bytes) (ts : Int64) (nonce : Nonce 24) (json : String) :
    Option Bytes :=
  xchachaEncryptRaw c nonce key (Text.bytes
    (requestPayload (ed25519Sign d kpBytes (Text.bytes (sigData ts json))) ts json))

/-- `deliver_to_peer` to the receiver `m`; `exchanges` says what becomes of the post to each of the
addresses. -/
def deliverToPeer (m : Messenger) (exchanges : Nat → Exchange) (urls : List String)
    (key : Bytes) (clientId : String) (kpBytes : Bytes) (ts : Int64) (nonce : Nonce 24)
    (content : String) (channelId : Option String) : Messenger × Except String Unit :=
  match requestBody c d key kpBytes ts nonce (g.createChatItem content) with
  | none => (m, .error "encrypt failed")
  | some encrypted =>
    tryUrls c d g key clientId channelId encrypted (urls.mapIdx fun i url => (url, exchanges i)) m []

end

variable {c : Aead} {d : Dalek} {svc : ChatService} {peer : DPeer} {now ts : Int64}
  {nonce : Nonce 24} {key kpBytes encrypted : Bytes} {clientId channelId json : String}

/-- Only a 32-byte key encrypts. -/
theorem key_length_of_requestBody
    (hb : requestBody c d key kpBytes ts nonce json = some encrypted) : key.length = 32 := by
  by_contra hlen
  simp [requestBody, xchachaEncryptRaw, encryptFramed, hlen] at hb

theorem exists_requestBody (c : Aead) (d : Dalek) (kpBytes : Bytes) (ts : Int64) (nonce : Nonce 24)
    (json : String) (h : key.length = 32) :
    ∃ encrypted, requestBody c d key kpBytes ts nonce json = some encrypted := by
  unfold requestBody xchachaEncryptRaw
  exact ⟨_, encryptFramed_eq h⟩

theorem decrypt_requestBody (hc : c.Sound)
    (hb : requestBody c d key kpBytes ts nonce json = some encrypted) :
    xchachaDecryptRaw c key encrypted = some (Text.bytes (requestPayload
      (ed25519Sign d kpBytes (Text.bytes (sigData ts json))) ts json)) := by
  have hround : (requestBody c d key kpBytes ts nonce json).bind (xchachaDecryptRaw c key) = some _ :=
    xchacha_roundtrip hc (key_length_of_requestBody hb)
  rwa [hb, Option.bind_some] at hround

/-- A request passes at a receiver that knows the sender's public key and reads it with the key it
was encrypted under, while its timestamp is fresh. -/
theorem authenticate_requestBody (hc : c.Sound) (hd : d.Sound) (hkp : d.Keypair kpBytes)
    (hb : requestBody c d key kpBytes ts nonce json = some encrypted) (hjson : json ≠ "")
    (hpeer : svc.db.getPeerById clientId = some peer)
    (hpub : peer.publicKey = base64Encode (kpBytes.drop 32))
    (hkey : requestKey svc peer channelId = .ok key)
    (hts : within (5 * 60 * 1000) now ts = true) :
    authenticate c d svc clientId channelId encrypted now =
      .ok ⟨peer, key, ed25519Sign d kpBytes (Text.bytes (sigData ts json)), ts, json⟩ := by
  simp only [authenticate, hpeer, hkey, decrypt_requestBody hc hb, Text.ofBytes?_bytes]
  exact checkPayload_requestPayload hd hkp hpub hjson hts

end PlainRs.Chat
