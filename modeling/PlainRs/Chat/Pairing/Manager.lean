import PlainRs.Chat.Pairing.Protocol
import PlainRs.Crypto.Ecdh

/-! `pairing/manager.rs`: the sessions of a device and what each call and each message does to
them and to the peers table. -/
namespace PlainRs.Chat

open PlainRs.Crypto PlainRs.Utils

/-- An attempt that waits for its answer; the ephemeral secret stands for the ECDH session. -/
structure PairingSession where
  deviceName : String
  deviceIp : String
  devicePort : UInt16
  ecdh : Option Bytes
  deriving DecidableEq

inductive PairingEventKind
  | incomingRequest (request : PairingRequest) (senderIp : String)
  | started
  | success
  | failed (reason : String)
  | cancelled
  deriving DecidableEq

structure PairingEvent where
  kind : PairingEventKind
  deviceId : String
  deviceName : String
  deriving DecidableEq

structure PairingManager where
  db : ChatDb
  identity : ChatIdentity
  localDeviceType : String
  sessions : String → Option PairingSession

/-- A message on its way to an address. -/
structure NearbyPost where
  ip : String
  port : UInt16
  message : NearbyMessage

/-- What a call finds around it: the two clocks and the local addresses. -/
structure Surroundings where
  nowMs : Int64
  nowIso : String
  localIps : List String

/-- What a call of the manager leaves behind. -/
structure PairingOutcome where
  manager : PairingManager
  posts : List NearbyPost
  events : List PairingEvent

namespace PairingManager

section

variable (d : Dalek) (e : Ecdh) (mgr : PairingManager) (env : Surroundings)

def kpBytes : Bytes := base64Decode mgr.identity.ed25519Keypair

def sigPub : String :=
  base64Encode (if mgr.kpBytes.length = 64 then mgr.kpBytes.drop 32 else [])

def setSession (deviceId : String) (s : Option PairingSession) : PairingManager :=
  { mgr with sessions := Function.update mgr.sessions deviceId s }

def unchanged : PairingOutcome := ⟨mgr, [], []⟩

/-- The request of a new attempt, signed. -/
def request (secret : Bytes) (localPort : UInt16) : PairingRequest :=
  let req : PairingRequest :=
    { fromId := mgr.identity.clientId
      fromName := mgr.identity.deviceName
      port := localPort
      deviceType := mgr.localDeviceType
      ecdhPublicKey := base64Encode (e.publicKey secret)
      signaturePublicKey := mgr.sigPub
      timestamp := env.nowMs
      ips := env.localIps
      signature := ""
      awareSupported := false
      fromIp := "" }
  { req with signature := ed25519Sign d mgr.kpBytes (Text.bytes req.signatureData) }

/-- `start_pairing` up to the task it spawns; `secret` is the random draw. A session that is there
for the device is overwritten. -/
def startPairing (secret : Bytes) (deviceId deviceName deviceIp : String)
    (devicePort localPort : UInt16) : PairingOutcome :=
  ⟨mgr.setSession deviceId (some ⟨deviceName, deviceIp, devicePort, some secret⟩),
    [⟨deviceIp, devicePort, .request (mgr.request d e env secret localPort)⟩], []⟩

/-- The spawned task once its post is answered: it goes on to wait for the response. -/
def requestPosted (deviceId deviceName : String) : PairingOutcome :=
  ⟨mgr, [], [⟨.started, deviceId, deviceName⟩]⟩

/-- The spawned task once its post has failed. -/
def requestFailed (deviceId deviceName : String) : PairingOutcome :=
  ⟨mgr.setSession deviceId none, [],
    [⟨.failed "Failed to send pairing request", deviceId, deviceName⟩]⟩

/-- `arm_response_timeout` when its sleep is over. -/
def responseTimeout (deviceId deviceName : String) : PairingOutcome :=
  match mgr.sessions deviceId with
  | none => mgr.unchanged
  | some _ =>
    ⟨mgr.setSession deviceId none, [], [⟨.failed "Pairing timed out", deviceId, deviceName⟩]⟩

def onPairRequest (req : PairingRequest) (senderIp : String) : PairingOutcome :=
  if timestampOk env.nowMs req.timestamp = false then mgr.unchanged
  else if ed25519Verify d req.signaturePublicKey (Text.bytes req.signatureData) req.signature = false
  then mgr.unchanged
  else
    let req := { req with fromIp := senderIp }
    ⟨mgr, [], [⟨.incomingRequest req senderIp, req.fromId, req.fromName⟩]⟩

/-- The token a peer is stored with again. -/
def storedToken (id : String) : String := ((mgr.db.getPeerById id).map (·.token)).getD ""

/-- The peer row of an accepted request. -/
def requester (request : PairingRequest) (targetIp : String) (shared : SharedKey) : DPeer where
  id := request.fromId
  name := request.fromName
  ip := preferSenderIp request.ips targetIp
  key := base64Encode shared
  publicKey := request.signaturePublicKey
  status := .paired
  port := request.port
  deviceType := (DeviceType.fromStr request.deviceType).getD .unknown
  token := mgr.storedToken request.fromId
  createdAt := env.nowIso
  updatedAt := env.nowIso

def response (request : PairingRequest) (accepted : Bool) (ecdhPublicKey : String)
    (ips : List String) (localPort : UInt16) : PairingResponse :=
  let resp : PairingResponse :=
    { fromId := mgr.identity.clientId
      toId := request.fromId
      port := localPort
      deviceType := mgr.localDeviceType
      ecdhPublicKey := ecdhPublicKey
      signaturePublicKey := mgr.sigPub
      accepted := accepted
      timestamp := env.nowMs
      ips := ips
      signature := ""
      awareSupported := false }
  { resp with signature := ed25519Sign d mgr.kpBytes (Text.bytes resp.signatureData) }

def respondToPairing (secret : Bytes) (request : PairingRequest) (senderIp : String)
    (accepted : Bool) (localPort : UInt16) : PairingOutcome :=
  let targetIp := if senderIp = "" then request.fromIp else senderIp
  if accepted then
    match e.computeSharedKey secret (base64Decode request.ecdhPublicKey) with
    | none => mgr.unchanged
    | some shared =>
      ⟨{ mgr with db := mgr.db.upsertPeer (mgr.requester env request targetIp shared) },
        [⟨targetIp, request.port, .response (mgr.response d env request true
          (base64Encode (e.publicKey secret)) env.localIps localPort)⟩],
        [⟨.success, request.fromId, request.fromName⟩]⟩
  else
    ⟨mgr, [⟨targetIp, request.port, .response (mgr.response d env request false "" [] localPort)⟩], []⟩

/-- The peer row of an accepted response. -/
def responder (resp : PairingResponse) (deviceName senderIp : String) (shared : SharedKey) :
    DPeer where
  id := resp.fromId
  name := deviceName
  ip := preferSenderIp resp.ips senderIp
  key := base64Encode shared
  publicKey := resp.signaturePublicKey
  status := .paired
  port := resp.port
  deviceType := (DeviceType.fromStr resp.deviceType).getD .unknown
  token := mgr.storedToken resp.fromId
  createdAt := env.nowIso
  updatedAt := env.nowIso

/-- The session is looked up by the responder's id alone, and `to_id` is not compared. -/
def onPairResponse (resp : PairingResponse) (senderIp : String) : PairingOutcome :=
  if timestampOk env.nowMs resp.timestamp = false then mgr.unchanged
  else if ed25519Verify d resp.signaturePublicKey (Text.bytes resp.signatureData) resp.signature =
    false
  then mgr.unchanged
  else match mgr.sessions resp.fromId with
  | none => mgr.unchanged
  | some session =>
    let mgr := mgr.setSession resp.fromId none
    if resp.accepted = false then
      ⟨mgr, [], [⟨.failed "Pairing request was rejected", resp.fromId, session.deviceName⟩]⟩
    else match session.ecdh with
    | none => mgr.unchanged
    | some secret =>
      match e.computeSharedKey secret (base64Decode resp.ecdhPublicKey) with
      | none => ⟨mgr, [], [⟨.failed "ECDH key computation failed", resp.fromId, session.deviceName⟩]⟩
      | some shared =>
        ⟨{ mgr with db := mgr.db.upsertPeer (mgr.responder env resp session.deviceName senderIp shared) },
          [], [⟨.success, resp.fromId, session.deviceName⟩]⟩

def onPairCancel (cancel : PairingCancel) : PairingOutcome :=
  ⟨mgr.setSession cancel.fromId none, [], [⟨.cancelled, cancel.fromId, ""⟩]⟩

def cancelPairing (deviceId : String) : PairingOutcome :=
  match mgr.sessions deviceId with
  | none => mgr.unchanged
  | some s =>
    ⟨mgr.setSession deviceId none,
      [⟨s.deviceIp, s.devicePort, .cancel ⟨mgr.identity.clientId, deviceId⟩⟩],
      [⟨.cancelled, deviceId, s.deviceName⟩]⟩

/-- `handle_nearby_post` on a message that parses. -/
def handleNearbyPost (senderIp : String) : NearbyMessage → PairingOutcome
  | .request r => mgr.onPairRequest d env r senderIp
  | .response r => mgr.onPairResponse d e env r senderIp
  | .cancel c => mgr.onPairCancel c

/-- A response that gets past the clock and the signature. -/
def Passes (resp : PairingResponse) : Prop :=
  timestampOk env.nowMs resp.timestamp = true ∧
    ed25519Verify d resp.signaturePublicKey (Text.bytes resp.signatureData) resp.signature = true

/-- The secret of the session for a device. -/
def secretFor (id : String) : Option Bytes := (mgr.sessions id).bind (·.ecdh)

/-- The key the session for a device agrees on with a public key. -/
def agreedKey (id ecdhPublicKey : String) : Option SharedKey :=
  (mgr.secretFor id).bind fun secret => e.computeSharedKey secret (base64Decode ecdhPublicKey)

instance {resp : PairingResponse} : Decidable (Passes d env resp) := inferInstanceAs (Decidable (_ ∧ _))

/-- The key of the pairing that a response completes, if it does. -/
def completedKey (resp : PairingResponse) : Option SharedKey :=
  if Passes d env resp ∧ resp.accepted = true then mgr.agreedKey e resp.fromId resp.ecdhPublicKey
  else none

end

variable {d : Dalek} {e : Ecdh} {mgr : PairingManager} {env : Surroundings}
  {resp : PairingResponse} {senderIp id : String}

theorem fromStr_getD_ne_nas {s : String} : (DeviceType.fromStr s).getD .unknown ≠ .nas := by
  cases hs : DeviceType.fromStr s with
  | none => simp
  | some t =>
    rintro rfl
    exact DeviceType.fromStr_ne_nas hs

theorem completedKey_of_pos (h : Passes d env resp ∧ resp.accepted = true) :
    mgr.completedKey d e env resp = mgr.agreedKey e resp.fromId resp.ecdhPublicKey := if_pos h

theorem completedKey_of_neg (h : ¬ (Passes d env resp ∧ resp.accepted = true)) :
    mgr.completedKey d e env resp = none := if_neg h

/-- A response writes to the database exactly when it completes a pairing. -/
theorem onPairResponse_db :
    (mgr.completedKey d e env resp = none ∧
        (mgr.onPairResponse d e env resp senderIp).manager.db = mgr.db) ∨
      ∃ (session : PairingSession) (shared : SharedKey),
        mgr.completedKey d e env resp = some shared ∧
        (mgr.onPairResponse d e env resp senderIp).manager.db =
          mgr.db.upsertPeer (mgr.responder env resp session.deviceName senderIp shared) := by
  unfold onPairResponse
  split
  · next ht => exact .inl ⟨completedKey_of_neg fun h => by simp [h.1.1] at ht, rfl⟩
  · next ht =>
    split
    · next hv => exact .inl ⟨completedKey_of_neg fun h => by simp [h.1.2] at hv, rfl⟩
    · next hv =>
      cases hs : mgr.sessions resp.fromId with
      | none => exact .inl ⟨by simp [completedKey, agreedKey, secretFor, hs], rfl⟩
      | some session =>
        dsimp only
        split
        · next ha => exact .inl ⟨completedKey_of_neg fun h => by simp [h.2] at ha, rfl⟩
        · next ha =>
          have hpass : Passes d env resp ∧ resp.accepted = true :=
            ⟨⟨by simpa using ht, by simpa using hv⟩, by simpa using ha⟩
          rw [completedKey_of_pos hpass]
          cases hk : session.ecdh with
          | none => exact .inl ⟨by simp [agreedKey, secretFor, hs, hk], rfl⟩
          | some secret =>
            dsimp only
            cases hc : e.computeSharedKey secret (base64Decode resp.ecdhPublicKey) with
            | none => exact .inl ⟨by simp [agreedKey, secretFor, hs, hk, hc], rfl⟩
            | some shared =>
              exact .inr ⟨session, shared, by simp [agreedKey, secretFor, hs, hk, hc], rfl⟩

/-- A response touches the session of its sender only. -/
theorem sessions_onPairResponse_ne (h : id ≠ resp.fromId) :
    (mgr.onPairResponse d e env resp senderIp).manager.sessions id = mgr.sessions id := by
  have hset : (mgr.setSession resp.fromId none).sessions id = mgr.sessions id :=
    Function.update_of_ne h ..
  unfold onPairResponse
  repeat' split
  all_goals first
    | rfl
    | exact hset

/-- A response that does not pass leaves the sessions alone. -/
theorem sessions_onPairResponse_of_not_passes (h : ¬ Passes d env resp) :
    (mgr.onPairResponse d e env resp senderIp).manager.sessions = mgr.sessions := by
  unfold onPairResponse
  split
  · rfl
  · next ht =>
    split
    · rfl
    · next hv => exact absurd ⟨by simpa using ht, by simpa using hv⟩ h

end PairingManager

end PlainRs.Chat
