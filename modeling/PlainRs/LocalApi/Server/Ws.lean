import PlainRs.Base.Clock
import PlainRs.Chat.Db
import PlainRs.Crypto.Symmetric
import PlainRs.Utils.Url

/-! `local_api/server/ws.rs`: the receiving end of a peer's status connection. -/
namespace PlainRs.LocalApi

open Clock PlainRs.Chat PlainRs.Crypto PlainRs.Utils

def queryParam (path key : String) : Option String := queryGet path key

/-- Expects `{sig}|{timestamp_ms}|{cid}`, with a signature over `{timestamp_ms}{cid}`; whatever is
amiss, the answer is no. -/
def authenticatePeer (d : Dalek) (xchacha : Aead) (db : ChatDb) (now : Int64) (peerId : String)
    (payload : Bytes) : Bool :=
  Option.isSome do
    let peer ← db.getPeerById peerId
    guard (peer.isPaired ∧ peer.key ≠ "" ∧ peer.publicKey ≠ "")
    let key := base64Decode peer.key
    guard (key.length = 32)
    let plaintext ← xchachaDecryptRaw xchacha key payload
    let text ← Text.ofBytes? plaintext
    let parts := Text.splitn 3 '|' text.toList
    let signature := String.ofList (Text.piece parts 0)
    let timestamp := Text.piece parts 1
    let clientId := String.ofList (Text.piece parts 2)
    guard (clientId = peerId)
    let timestampMs ← Text.parseI64 timestamp
    guard (within (5 * 60 * 1000) now (Int64.ofInt timestampMs))
    guard (ed25519Verify d peer.publicKey (Text.bytes (String.ofList timestamp ++ clientId)) signature)

/-- The peer that `status_socket` sets online on its first binary frame, if it does. -/
def statusSocket (d : Dalek) (xchacha : Aead) (db : ChatDb) (now : Int64) (path : String)
    (payload : Bytes) : Option String :=
  match (queryParam path "cid").filter fun v => v ≠ "" with
  | none => none
  | some peerId => if authenticatePeer d xchacha db now peerId payload then some peerId else none

end PlainRs.LocalApi
