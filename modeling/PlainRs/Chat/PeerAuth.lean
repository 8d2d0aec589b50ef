import PlainRs.Base.Clock
import PlainRs.Chat.Service
import PlainRs.Crypto.Symmetric

/-! `chat/peer_auth.rs`: the checks of a `/peer_graphql` request. -/
namespace PlainRs.Chat

open Clock PlainRs.Crypto PlainRs.Utils

structure AuthenticatedPeer where
  peer : DPeer
  key : Bytes
  signatureB64 : String
  timestamp : Int64
  graphqlJson : String

inductive AuthError
  | unknownPeer | notPaired | decryptFailed | notUtf8 | timestampExpired | badSignature
  | missingFields | noChannelKey
  deriving DecidableEq, Repr

def AuthError.reason : AuthError → String
  | unknownPeer => "unknown peer"
  | notPaired => "not paired"
  | decryptFailed => "decrypt failed"
  | notUtf8 => "not utf-8"
  | timestampExpired => "timestamp expired"
  | badSignature => "bad signature"
  | missingFields => "missing fields"
  | noChannelKey => "no channel key"

/-- The text a request's signature covers: the timestamp and the GraphQL JSON, nothing between. -/
def sigData (timestamp : Int64) (graphqlJson : String) : String := toString timestamp ++ graphqlJson

/-- `signature|timestamp|{graphql_json}`. -/
def requestPayload (signature : String) (timestamp : Int64) (graphqlJson : String) : String :=
  signature ++ "|" ++ toString timestamp ++ "|" ++ graphqlJson

/-- The three parts of a payload; what is not there is empty, and a timestamp that is none is 0. -/
structure PayloadParts where
  signatureB64 : String
  timestamp : Int64
  graphqlJson : String

def payloadParts (plaintext : String) : PayloadParts :=
  let parts := Text.splitn 3 '|' plaintext.toList
  { signatureB64 := String.ofList (Text.piece parts 0)
    timestamp := Int64.ofInt ((Text.parseI64 (Text.piece parts 1)).getD 0)
    graphqlJson := String.ofList (Text.piece parts 2) }

/-- A channel message is read with the channel key, from whoever is known; a direct one needs a
paired peer. -/
def requestKey (svc : ChatService) (peer : DPeer) (headerChannelId : String) :
    Except AuthError Bytes :=
  if headerChannelId ≠ "" then
    match svc.channelKeyCache headerChannelId with
    | some key => .ok key
    | none => .error .noChannelKey
  else if peer.isPaired = false then .error .notPaired
  else .ok (base64Decode peer.key)

/-- The checks of a payload that was decrypted. -/
def checkPayload (d : Dalek) (now : Int64) (peer : DPeer) (key : Bytes) (plaintext : String) :
    Except AuthError AuthenticatedPeer :=
  let parts := payloadParts plaintext
  if parts.signatureB64 = "" ∨ parts.graphqlJson = "" then .error .missingFields
  else if within (5 * 60 * 1000) now parts.timestamp = false then .error .timestampExpired
  else if ed25519Verify d peer.publicKey (Text.bytes (sigData parts.timestamp parts.graphqlJson))
      parts.signatureB64 = false then .error .badSignature
  else .ok ⟨peer, key, parts.signatureB64, parts.timestamp, parts.graphqlJson⟩

def authenticate (c : Aead) (d : Dalek) (svc : ChatService) (headerClientId headerChannelId : String)
    (body : Bytes) (now : Int64) : Except AuthError AuthenticatedPeer :=
  match svc.db.getPeerById headerClientId with
  | none => .error .unknownPeer
  | some peer =>
    match requestKey svc peer headerChannelId with
    | .error e => .error e
    | .ok key =>
      match xchachaDecryptRaw c key body with
      | none => .error .decryptFailed
      | some plaintextBytes =>
        match Text.ofBytes? plaintextBytes with
        | none => .error .notUtf8
        | some plaintext => checkPayload d now peer key plaintext

variable {c : Aead} {d : Dalek} {svc : ChatService} {now : Int64} {peer : DPeer}
  {clientId channelId : String} {body key : Bytes} {authed : AuthenticatedPeer} {plaintext : String}

/-- What a payload that passes has shown. -/
theorem checkPayload_ok (h : checkPayload d now peer key plaintext = .ok authed) :
    (payloadParts plaintext).graphqlJson ≠ "" ∧
    within (5 * 60 * 1000) now (payloadParts plaintext).timestamp = true ∧
    ed25519Verify d peer.publicKey (Text.bytes (sigData (payloadParts plaintext).timestamp
      (payloadParts plaintext).graphqlJson)) (payloadParts plaintext).signatureB64 = true ∧
    authed = ⟨peer, key, (payloadParts plaintext).signatureB64, (payloadParts plaintext).timestamp,
      (payloadParts plaintext).graphqlJson⟩ := by
  unfold checkPayload at h
  dsimp only at h
  split at h
  · cases h
  · next hfields =>
    split at h
    · cases h
    · next hts =>
      split at h
      · cases h
      · next hsig =>
        cases h
        push Not at hfields
        exact ⟨hfields.2, by simpa using hts, by simpa using hsig, rfl⟩

/-- A request that is let through comes from a known peer, opens under the key its headers choose
and passes the checks of its payload. -/
theorem authenticate_ok (h : authenticate c d svc clientId channelId body now = .ok authed) :
    ∃ peer key plaintext, svc.db.getPeerById clientId = some peer ∧
      requestKey svc peer channelId = .ok key ∧
      xchachaDecryptRaw c key body = some (Text.bytes plaintext) ∧
      checkPayload d now peer key plaintext = .ok authed := by
  unfold authenticate at h
  split at h
  · cases h
  · next peer hpeer =>
    split at h
    · cases h
    · next key hkey =>
      split at h
      · cases h
      · next bytes hopen =>
        split at h
        · cases h
        · next plaintext htext =>
          rw [← Text.bytes_of_ofBytes? htext] at hopen
          exact ⟨peer, key, plaintext, hpeer, hkey, hopen, h⟩

theorem requestKey_channel (h : channelId ≠ "") :
    requestKey svc peer channelId = .ok key ↔ svc.channelKeyCache channelId = some key := by
  rw [requestKey, if_pos h]
  cases svc.channelKeyCache channelId <;> simp

theorem requestKey_direct :
    requestKey svc peer "" = .ok key ↔ peer.isPaired = true ∧ base64Decode peer.key = key := by
  rw [requestKey, if_neg (by simp)]
  cases hp : peer.isPaired <;> simp

theorem base64Char_ne_pipe (i : Nat) : base64Char i ≠ '|' := by
  have hall : ∀ c ∈ base64Alphabet, c ≠ '|' := by
    unfold base64Alphabet
    simp
  rw [base64Char, List.getD_eq_getElem?_getD]
  cases hi : base64Alphabet[i]? with
  | none => decide
  | some c => exact hall c (List.mem_of_getElem? hi)

/-- Base64 text never runs into the separator of a payload. -/
theorem pipe_notMem_base64Encode (bs : Bytes) : '|' ∉ (base64Encode bs).toList := by
  intro h
  rw [base64Encode, String.toList_ofList, List.mem_flatMap] at h
  obtain ⟨chunk, -, h⟩ := h
  simp only [base64EncodeChunk, List.mem_cons, List.not_mem_nil, or_false] at h
  rcases h with h | h | h | h
  · exact base64Char_ne_pipe _ h.symm
  · exact base64Char_ne_pipe _ h.symm
  · split at h
    · exact base64Char_ne_pipe _ h.symm
    · exact absurd h (by decide)
  · split at h
    · exact base64Char_ne_pipe _ h.symm
    · exact absurd h (by decide)

theorem pipe_notMem_ed25519Sign (kp m : Bytes) : '|' ∉ (ed25519Sign d kp m).toList := by
  unfold ed25519Sign
  split
  · decide
  · split
    · exact pipe_notMem_base64Encode _
    · decide

theorem mem_timestamp {ch : Char} {timestamp : Int64} (h : ch ∈ (toString timestamp).toList) :
    ch = '-' ∨ ch.isDigit = true := by
  have hdigits : ∀ n : Nat, ch ∈ n.repr.toList → ch.isDigit = true := by
    intro n h
    rw [Nat.toList_repr] at h
    exact Nat.isDigit_of_mem_toDigits (by omega) (by omega) h
  have hstr : toString timestamp = toString timestamp.toInt := rfl
  rw [hstr, Int.toString_eq_repr] at h
  cases hn : timestamp.toInt with
  | ofNat n =>
    rw [hn] at h
    exact .inr (hdigits n h)
  | negSucc n =>
    rw [hn, Int.repr, String.toList_append, List.mem_append] at h
    rcases h with h | h
    · exact .inl (by simpa using h)
    · exact .inr (hdigits _ h)

theorem pipe_notMem_timestamp (timestamp : Int64) : '|' ∉ (toString timestamp).toList := by
  intro h
  rcases mem_timestamp h with h | h <;> exact absurd h (by decide)

/-- A payload is read back as it was written. -/
theorem payloadParts_requestPayload {signature json : String} {timestamp : Int64}
    (hs : '|' ∉ signature.toList) :
    payloadParts (requestPayload signature timestamp json) = ⟨signature, timestamp, json⟩ := by
  have hsplit : Text.splitn 3 '|' (requestPayload signature timestamp json).toList =
      [signature.toList, (toString timestamp).toList, json.toList] := by
    have hlist : (requestPayload signature timestamp json).toList =
        signature.toList ++ '|' :: ((toString timestamp).toList ++ '|' :: json.toList) := by
      simp [requestPayload]
    rw [hlist, Text.splitn_append hs, Text.splitn_append (pipe_notMem_timestamp timestamp),
      Text.splitn]
  simp only [payloadParts, hsplit, Text.piece, List.getD_cons_zero, List.getD_cons_succ,
    Text.parseI64_toString, Option.getD_some, Int64.ofInt_toInt, String.ofList_toList]

/-- A payload passes that carries the signature of a known peer over a fresh timestamp. -/
theorem checkPayload_requestPayload (hd : d.Sound) {kp : Bytes} (hkp : d.Keypair kp)
    {json : String} {timestamp : Int64} (hpub : peer.publicKey = base64Encode (kp.drop 32))
    (hjson : json ≠ "") (hts : within (5 * 60 * 1000) now timestamp = true) :
    checkPayload d now peer key (requestPayload
        (ed25519Sign d kp (Text.bytes (sigData timestamp json))) timestamp json) =
      .ok ⟨peer, key, ed25519Sign d kp (Text.bytes (sigData timestamp json)), timestamp, json⟩ := by
  have hverify := ed25519Verify_self (m := Text.bytes (sigData timestamp json)) hd hkp
  rw [← hpub] at hverify
  have hne : ¬ (ed25519Sign d kp (Text.bytes (sigData timestamp json)) = "" ∨ json = "") := by
    push Not
    exact ⟨ed25519Sign_ne_empty hd hkp, hjson⟩
  simp only [checkPayload, payloadParts_requestPayload (pipe_notMem_ed25519Sign _ _), if_neg hne,
    hts, hverify, Bool.true_eq_false, if_false]

end PlainRs.Chat
