import PlainRs.Base.Clock
import PlainRs.Base.Separators
import PlainRs.Chat.Channel.Messages
import PlainRs.Chat.Pairing.Protocol

/-! What the joined texts under the signatures leave open about the fields they are made of. -/
namespace PlainRs.Chat

/-- The fields that the signature of a request covers. -/
def PairingRequest.signedFields (r : PairingRequest) : PairingRequest :=
  { r with signature := "", awareSupported := false, fromIp := "" }

def PairingResponse.signedFields (r : PairingResponse) : PairingResponse :=
  { r with signature := "", awareSupported := false }

def PairingRequest.signedTexts (r : PairingRequest) : List String :=
  [r.fromId, r.fromName, toString r.port, deviceTypeSignatureValue r.deviceType, r.ecdhPublicKey,
    r.signaturePublicKey, toString r.timestamp, ",".intercalate r.ips]

def PairingResponse.signedTexts (r : PairingResponse) : List String :=
  [r.fromId, r.toId, toString r.port, deviceTypeSignatureValue r.deviceType, r.ecdhPublicKey,
    r.signaturePublicKey, toString r.accepted, toString r.timestamp, ",".intercalate r.ips]

def channelMessageTexts (channelId : String) (version : Int) (action : ChannelSystemMessageAction)
    (target : String) : List String :=
  [channelId, toString version, action.asStr, target]

variable {version version' : Int} {action action' : ChannelSystemMessageAction}
  {channelId channelId' target target' : String}

theorem pipe_toList : "|".toList = ['|'] := rfl

theorem comma_toList : ",".toList = [','] := rfl

theorem repr_inj {n k : ℕ} (h : n.repr = k.repr) : n = k := by
  have hread := Text.natOfDigits_repr n
  rw [h, Text.natOfDigits_repr] at hread
  exact (Option.some.inj hread).symm

theorem port_inj {p q : UInt16} (h : toString p = toString q) : p = q :=
  UInt16.toNat_inj.mp (repr_inj h)

theorem timestamp_inj {t u : Int64} (h : toString t = toString u) : t = u := by
  have hread := Text.parseI64_toString t
  rw [h, Text.parseI64_toString] at hread
  exact Int64.toInt_inj.mp (Option.some.inj hread).symm

theorem accepted_inj {a b : Bool} (h : toString a = toString b) : a = b := by
  cases a <;> cases b <;> simp_all [toString]

theorem dash_notMem_repr (n : ℕ) : '-' ∉ n.repr.toList := by
  intro h
  rw [Nat.toList_repr] at h
  exact absurd (Nat.isDigit_of_mem_toDigits (by omega) (by omega) h) (by decide)

theorem version_inj (h : toString version = toString version') : version = version' := by
  rw [Int.toString_eq_repr, Int.toString_eq_repr] at h
  have hneg : ∀ n k : ℕ, n.repr ≠ "-" ++ k.repr := by
    intro n k h
    refine dash_notMem_repr n ?_
    rw [h, String.toList_append]
    simp
  cases version with
  | ofNat n =>
    cases version' with
    | ofNat k => exact congrArg Int.ofNat (repr_inj h)
    | negSucc k => exact absurd h (hneg n (k + 1))
  | negSucc n =>
    cases version' with
    | ofNat k => exact absurd h.symm (hneg k (n + 1))
    | negSucc k =>
      have hrepr : "-" ++ (n + 1).repr = "-" ++ (k + 1).repr := h
      have hsucc := repr_inj ((String.append_right_inj _).mp hrepr)
      exact congrArg Int.negSucc (Nat.succ.inj hsucc)

theorem action_inj (h : action.asStr = action'.asStr) : action = action' := by
  cases action <;> cases action' <;> simp_all [ChannelSystemMessageAction.asStr]

/-- Two requests with one signed text have the same signed fields, if the separators are told apart
from the texts. -/
theorem PairingRequest.signedFields_inj {r r' : PairingRequest}
    (hapart : Text.Apart '|' r.signedTexts r'.signedTexts) (hips : Text.Listed ',' r.ips)
    (hips' : Text.Listed ',' r'.ips) (h : r.signatureData = r'.signatureData) :
    r.signedFields = r'.signedFields := by
  have hlen : r.signedTexts.length = r'.signedTexts.length := rfl
  have htexts := Text.eq_of_intercalate_eq pipe_toList hlen hapart h
  simp only [signedTexts, deviceTypeSignatureValue, List.cons.injEq, and_true] at htexts
  obtain ⟨hid, hname, hport, htype, hecdh, hkey, htime, hjoined⟩ := htexts
  have hlist := Text.listed_inj comma_toList hips hips' hjoined
  simp only [signedFields, hid, hname, port_inj hport, htype, hecdh, hkey, timestamp_inj htime,
    hlist]

theorem PairingResponse.signedFields_inj {r r' : PairingResponse}
    (hapart : Text.Apart '|' r.signedTexts r'.signedTexts) (hips : Text.Listed ',' r.ips)
    (hips' : Text.Listed ',' r'.ips) (h : r.signatureData = r'.signatureData) :
    r.signedFields = r'.signedFields := by
  have hlen : r.signedTexts.length = r'.signedTexts.length := rfl
  have htexts := Text.eq_of_intercalate_eq pipe_toList hlen hapart h
  simp only [signedTexts, deviceTypeSignatureValue, List.cons.injEq, and_true] at htexts
  obtain ⟨hid, hto, hport, htype, hecdh, hkey, haccepted, htime, hjoined⟩ := htexts
  have hlist := Text.listed_inj comma_toList hips hips' hjoined
  simp only [signedFields, hid, hto, port_inj hport, htype, hecdh, hkey, accepted_inj haccepted,
    timestamp_inj htime, hlist]

theorem channelMessagePayload_unambiguous
    (hapart : Text.Apart '|' (channelMessageTexts channelId version action target)
      (channelMessageTexts channelId' version' action' target'))
    (h : channelMessagePayload channelId version action target =
      channelMessagePayload channelId' version' action' target') :
    channelId = channelId' ∧ version = version' ∧ action = action' ∧ target = target' := by
  have hlen : (channelMessageTexts channelId version action target).length =
      (channelMessageTexts channelId' version' action' target').length := rfl
  have htexts := Text.eq_of_intercalate_eq pipe_toList hlen hapart h
  simp only [channelMessageTexts, List.cons.injEq, and_true] at htexts
  obtain ⟨hid, hversion, haction, htarget⟩ := htexts
  exact ⟨hid, version_inj hversion, action_inj haction, htarget⟩

/-- Whoever signs one of the three formats signs no other fields, as long as the separators are told
apart from the texts. -/
theorem signedTexts_unambiguous :
    (∀ r r' : PairingRequest, Text.Apart '|' r.signedTexts r'.signedTexts →
      Text.Listed ',' r.ips → Text.Listed ',' r'.ips → r.signatureData = r'.signatureData →
        r.signedFields = r'.signedFields) ∧
    (∀ r r' : PairingResponse, Text.Apart '|' r.signedTexts r'.signedTexts →
      Text.Listed ',' r.ips → Text.Listed ',' r'.ips → r.signatureData = r'.signatureData →
        r.signedFields = r'.signedFields) ∧
    ∀ (channelId channelId' : String) (version version' : Int)
      (action action' : ChannelSystemMessageAction) (target target' : String),
      Text.Apart '|' (channelMessageTexts channelId version action target)
          (channelMessageTexts channelId' version' action' target') →
        channelMessagePayload channelId version action target =
            channelMessagePayload channelId' version' action' target' →
          channelId = channelId' ∧ version = version' ∧ action = action' ∧ target = target' :=
  ⟨fun _ _ => PairingRequest.signedFields_inj, fun _ _ => PairingResponse.signedFields_inj,
    fun _ _ _ _ _ _ _ _ => channelMessagePayload_unambiguous⟩

/-- A request as a phone sends it. -/
def phoneRequest (port : UInt16) (fromId fromName : String) : PairingRequest where
  fromId := fromId
  fromName := fromName
  port := port
  deviceType := "PHONE"
  ecdhPublicKey := "ZWNkaA=="
  signaturePublicKey := "c2lnbg=="
  timestamp := 1790000000000
  ips := ["10.0.0.2"]
  signature := ""
  awareSupported := false
  fromIp := ""

/-- Requests that differ in their ports alone are told apart. -/
theorem signedTexts_unambiguous_ports :
    (phoneRequest 1 "a" "b").signatureData ≠ (phoneRequest 2 "a" "b").signatureData := by
  intro h
  have hfree : ∀ s ∈ (phoneRequest 1 "a" "b").signedTexts, '|' ∉ s.toList := by decide
  have hips : Text.Listed ',' ["10.0.0.2"] := ⟨by decide, by decide⟩
  have hfields := signedTexts_unambiguous.1 _ _ (.inr (.inl hfree)) hips hips h
  exact absurd (congrArg PairingRequest.port hfields) (by decide)

/-- In each of the three formats one signed text stands for different fields, where an id or a name
has a separator in it. -/
theorem signedTexts_ambiguous :
    (∃ r r' : PairingRequest, r.signatureData = r'.signatureData ∧
      r.signedFields ≠ r'.signedFields) ∧
    (∃ r r' : PairingResponse, r.signatureData = r'.signatureData ∧
      r.signedFields ≠ r'.signedFields) ∧
    ∃ (channelId channelId' : String) (version version' : Int)
      (action action' : ChannelSystemMessageAction) (target target' : String),
      channelMessagePayload channelId version action target =
          channelMessagePayload channelId' version' action' target' ∧ target ≠ target' := by
  refine ⟨⟨phoneRequest 80 "a" "b|c", phoneRequest 80 "a|b" "c", by decide, by decide⟩,
    ⟨⟨"a", "b|c", 80, "PHONE", "", "", true, 0, [], "", false⟩,
      ⟨"a|b", "c", 80, "PHONE", "", "", true, 0, [], "", false⟩, by decide, by decide⟩,
    ⟨"a", "a|1|KICK", 1, 2, .kick, .invite, "2|INVITE|b", "b", by decide, by decide⟩⟩

end PlainRs.Chat
