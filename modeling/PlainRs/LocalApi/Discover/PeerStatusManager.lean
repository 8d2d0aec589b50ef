import PlainRs.Base.Clock
import PlainRs.Chat.Db
import PlainRs.Crypto.Symmetric
import PlainRs.Utils.Url

/-! `local_api/discover/peer_status_manager.rs`: the connection a device opens to a peer. -/
namespace PlainRs.LocalApi

open Clock PlainRs.Chat PlainRs.Crypto PlainRs.Utils

structure AppIdentity where
  clientId : String
  deviceName : String
  ed25519Keypair : String

/-- What `open_socket` connects to and the first frame it sends there. -/
structure StatusRequest where
  url : String
  payload : Bytes

/-- `open_socket` with the clock reading and the random nonce given; `none` when it only
schedules a reconnect. -/
def openSocket (d : Dalek) (chacha : Aead) (identity : AppIdentity) (peer : DPeer) (key : Bytes)
    (now : UnixMillis) (nonce : Nonce 12) : Option StatusRequest :=
  let localClientId := identity.clientId
  let timestamp := toString now.toInt64
  let signature := ed25519Sign d (base64Decode identity.ed25519Keypair)
    (Text.bytes s!"{timestamp}{localClientId}")
  if signature = "" then none
  else
    (chacha20Encrypt chacha nonce key
        (Text.bytes s!"{signature}|{timestamp}|{localClientId}")).map fun payload =>
      ⟨buildUrl "wss" peer.bestIp peer.port s!"/status?cid={localClientId}", payload⟩

end PlainRs.LocalApi
