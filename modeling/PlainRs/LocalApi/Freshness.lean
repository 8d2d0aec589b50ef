import PlainRs.Base.Windows
import PlainRs.Chat.Pairing.Manager
import PlainRs.Chat.PeerAuth
import PlainRs.LocalApi.Server.Ws

/-! The three checks of a sender's timestamp: pairing messages, peer requests and status sockets. -/
namespace PlainRs.LocalApi

open Clock Text PlainRs.Chat PlainRs.Crypto PlainRs.Utils

/-- At most five minutes apart. -/
def Recent (now ts : Int64) : Prop := |now.toInt - ts.toInt| ≤ 300000

instance (now ts : Int64) : Decidable (Recent now ts) := inferInstanceAs (Decidable (_ ≤ _))

/-- The timestamp of a message that has one. -/
def sentAt : NearbyMessage → Option Int64
  | .request r => some r.timestamp
  | .response r => some r.timestamp
  | .cancel _ => none

section

variable (d : Dalek) (e : Ecdh) (c : Aead) (now ts : Int64)

/-- A pairing message is taken as at the moment it was sent, if that is recent, or else not at all. -/
def PairingExact : Prop :=
  ∀ (mgr : PairingManager) (env : Surroundings) (senderIp : String) (m : NearbyMessage),
    sentAt m = some ts →
      mgr.handleNearbyPost d e { env with nowMs := now } senderIp m =
        if Recent now ts then mgr.handleNearbyPost d e { env with nowMs := ts } senderIp m
        else mgr.unchanged

/-- A peer request that gets as far as the check is taken as at the moment it was sent, if that is
recent, or else it has expired. -/
def RequestExact : Prop :=
  ∀ (svc : ChatService) (clientId channelId : String) (body key : Bytes) (peer : DPeer)
    (plaintext : String), svc.db.getPeerById clientId = some peer →
      requestKey svc peer channelId = .ok key →
      xchachaDecryptRaw c key body = some (bytes plaintext) →
      (payloadParts plaintext).signatureB64 ≠ "" → (payloadParts plaintext).graphqlJson ≠ "" →
      (payloadParts plaintext).timestamp = ts →
        authenticate c d svc clientId channelId body now =
          if Recent now ts then authenticate c d svc clientId channelId body ts
          else .error .timestampExpired

/-- A status socket is let in as at the moment of its stamp, if that is recent. -/
def SocketExact : Prop :=
  ∀ (db : ChatDb) (peerId : String) (payload : Bytes) (peer : DPeer) (plaintext : String),
    db.getPeerById peerId = some peer →
      xchachaDecryptRaw c (base64Decode peer.key) payload = some (bytes plaintext) →
      parseI64 (piece (splitn 3 '|' plaintext.toList) 1) = some ts.toInt →
        (authenticatePeer d c db now peerId payload = true ↔
          Recent now ts ∧ authenticatePeer d c db ts peerId payload = true)

end

variable {d : Dalek} {e : Ecdh} {c : Aead} {now ts : Int64}

theorem window_toInt : (5 * 60 * 1000 : Int64).toInt = 300000 := by decide

/-- The check answers right just when its arithmetic does not wrap around into the window. -/
theorem within_recent_iff : (within (5 * 60 * 1000) now ts = true ↔ Recent now ts) ↔
    |now.toInt - ts.toInt| ≠ 2 ^ 63 ∧ |now.toInt - ts.toInt| < 2 ^ 64 - 300000 := by
  have h := within_iff_distance (a := now) (b := ts) (w := 5 * 60 * 1000) (by decide)
  rw [window_toInt] at h
  rw [Recent, h]
  omega

theorem within_self (ts : Int64) : within (5 * 60 * 1000) ts ts = true := by
  have h := within_iff (a := ts) (b := ts) (w := 5 * 60 * 1000) (by omega) (by omega)
  rw [h, window_toInt]
  simp

theorem pairingExact_of_within (h : within (5 * 60 * 1000) now ts = true ↔ Recent now ts) :
    PairingExact d e now ts := by
  intro mgr env senderIp m hm
  have hself := within_self ts
  cases m with
  | cancel cancel => cases hm
  | request r =>
    obtain rfl := Option.some.inj hm
    show mgr.onPairRequest d { env with nowMs := now } r senderIp =
      if Recent now r.timestamp then mgr.onPairRequest d { env with nowMs := r.timestamp } r senderIp
      else mgr.unchanged
    by_cases hr : Recent now r.timestamp
    · have hw := h.mpr hr
      rw [if_pos hr, PairingManager.onPairRequest, PairingManager.onPairRequest, timestampOk,
        timestampOk, hw, hself]
    · have hw := Bool.eq_false_of_not_eq_true (mt h.mp hr)
      rw [if_neg hr, PairingManager.onPairRequest, timestampOk, hw]
      rfl
  | response r =>
    obtain rfl := Option.some.inj hm
    show mgr.onPairResponse d e { env with nowMs := now } r senderIp =
      if Recent now r.timestamp then
        mgr.onPairResponse d e { env with nowMs := r.timestamp } r senderIp
      else mgr.unchanged
    by_cases hr : Recent now r.timestamp
    · have hw := h.mpr hr
      rw [if_pos hr, PairingManager.onPairResponse, PairingManager.onPairResponse, timestampOk,
        timestampOk, hw, hself]
      rfl
    · have hw := Bool.eq_false_of_not_eq_true (mt h.mp hr)
      rw [if_neg hr, PairingManager.onPairResponse, timestampOk, hw]
      rfl

theorem requestExact_of_within (h : within (5 * 60 * 1000) now ts = true ↔ Recent now ts) :
    RequestExact d c now ts := by
  intro svc clientId channelId body key peer plaintext hpeer hkey hopen hsig hjson hts
  have hcheck : ∀ at_ : Int64, authenticate c d svc clientId channelId body at_ =
      checkPayload d at_ peer key plaintext := by
    intro at_
    simp only [authenticate, hpeer, hkey, hopen, ofBytes?_bytes]
  have hfields : ¬ ((payloadParts plaintext).signatureB64 = "" ∨
      (payloadParts plaintext).graphqlJson = "") := by
    push Not
    exact ⟨hsig, hjson⟩
  rw [hcheck, hcheck, checkPayload, checkPayload]
  simp only [if_neg hfields, hts]
  by_cases hr : Recent now ts
  · rw [if_pos hr, h.mpr hr, within_self]
  · rw [if_neg hr, Bool.eq_false_of_not_eq_true (mt h.mp hr), if_pos rfl]

theorem socketExact_of_within (h : within (5 * 60 * 1000) now ts = true ↔ Recent now ts) :
    SocketExact d c now ts := by
  intro db peerId payload peer plaintext hpeer hopen hts
  have hself := within_self ts
  by_cases hr : Recent now ts
  · have hw := h.mpr hr
    simp only [authenticatePeer, hpeer, hopen, Option.bind_eq_bind, Option.bind_some, ofBytes?_bytes,
      hts, Int64.ofInt_toInt, hw, hself, hr, true_and]
  · have hw := Bool.eq_false_of_not_eq_true (mt h.mp hr)
    simp [authenticatePeer, hpeer, hopen, ofBytes?_bytes, hts, hw, hr, -Int64.reduceMul]

/-- The checks are exact, and nothing overflows, just when the distance fits an `i64`. Where an
overflow wraps around, the checks answer wrong just at the one distance that has no absolute value
and at those that come out within five minutes. -/
theorem freshness_exact_iff (d : Dalek) (e : Ecdh) (c : Aead) (now ts : Int64) :
    ((¬ Overflows now ts ∧ PairingExact d e now ts ∧ RequestExact d c now ts ∧
        SocketExact d c now ts) ↔ |now.toInt - ts.toInt| < 2 ^ 63) ∧
    ((timestampOk now ts = true ↔ Recent now ts) ↔
        |now.toInt - ts.toInt| ≠ 2 ^ 63 ∧ |now.toInt - ts.toInt| < 2 ^ 64 - 300000) := by
  refine ⟨⟨fun h => not_overflows_iff.mp h.1, fun h => ?_⟩, within_recent_iff⟩
  have hexact := within_recent_iff.mpr ⟨ne_of_lt h, by omega⟩
  exact ⟨not_overflows_iff.mpr h, pairingExact_of_within hexact, requestExact_of_within hexact,
    socketExact_of_within hexact⟩

/-- A stamp 2^63 ms before the clock overflows, and passes where overflow wraps around. -/
theorem freshness_overflows : ¬ ∀ now ts : Int64, ¬ Overflows now ts ∧
    (timestampOk now ts = true ↔ Recent now ts) := by
  intro h
  obtain ⟨hfits, -⟩ := h 1790000000000 (-9223370246854775808)
  exact absurd (not_overflows_iff.mp hfits) (by decide +kernel)

end PlainRs.LocalApi
