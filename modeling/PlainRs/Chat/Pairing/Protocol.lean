import PlainRs.Base.Clock
import PlainRs.Chat.Service

/-! Wire types of the pairing handshake, the texts their signatures cover and the helpers of
`pairing/utils.rs`. -/
namespace PlainRs.Chat

open PlainRs.Crypto

/-- The signed form of a device type is the device type. -/
def deviceTypeSignatureValue (wire : String) : String := wire

structure PairingRequest where
  fromId : String
  fromName : String
  port : UInt16
  deviceType : String
  ecdhPublicKey : String
  signaturePublicKey : String
  timestamp : Int64
  ips : List String
  signature : String
  awareSupported : Bool
  fromIp : String
  deriving DecidableEq

def PairingRequest.signatureData (r : PairingRequest) : String :=
  "|".intercalate [r.fromId, r.fromName, toString r.port, deviceTypeSignatureValue r.deviceType,
    r.ecdhPublicKey, r.signaturePublicKey, toString r.timestamp, ",".intercalate r.ips]

structure PairingResponse where
  fromId : String
  toId : String
  port : UInt16
  deviceType : String
  ecdhPublicKey : String
  signaturePublicKey : String
  accepted : Bool
  timestamp : Int64
  ips : List String
  signature : String
  awareSupported : Bool
  deriving DecidableEq

def PairingResponse.signatureData (r : PairingResponse) : String :=
  "|".intercalate [r.fromId, r.toId, toString r.port, deviceTypeSignatureValue r.deviceType,
    r.ecdhPublicKey, r.signaturePublicKey, toString r.accepted, toString r.timestamp,
    ",".intercalate r.ips]

structure PairingCancel where
  fromId : String
  toId : String
  deriving DecidableEq

/-- What is posted to `/nearby`. -/
inductive NearbyMessage
  | request (r : PairingRequest)
  | response (r : PairingResponse)
  | cancel (c : PairingCancel)
  deriving DecidableEq

def timestampOk (now ts : Int64) : Bool := Clock.within (5 * 60 * 1000) now ts

/-- The sender's address first, then the advertised ones, each once. -/
def preferSenderIp (ips : List String) (senderIp : String) : String :=
  let first := if senderIp ≠ "" then [senderIp] else []
  ",".intercalate (ips.foldl
    (fun all ip => if ip ≠ "" ∧ ip ≠ senderIp ∧ ip ∉ all then all ++ [ip] else all) first)

end PlainRs.Chat
