import PlainRs.LocalApi.Discover.PeerStatusManager
import PlainRs.LocalApi.Server.Ws
import PlainRs.Chat.Service

/-! The status handshake: what `open_socket` sends against what `status_socket` accepts. -/
namespace PlainRs.LocalApi

open Clock Text PlainRs.Chat PlainRs.Crypto PlainRs.Utils

/-- A device: its identity and its peers. -/
structure Device where
  identity : AppIdentity
  db : ChatDb

def Device.keypair (a : Device) : Bytes := base64Decode a.identity.ed25519Keypair

/-- `peer` is the PAIRED row one device holds for another, with the key they share. -/
structure HoldsPeer (d : Dalek) (a b : Device) (key : Bytes) (peer : DPeer) : Prop where
  row : a.db.getPeerById b.identity.clientId = some peer
  paired : peer.isPaired = true
  key_eq : base64Decode peer.key = key
  keypair : d.Keypair b.keypair
  publicKey_eq : peer.publicKey = base64Encode (b.keypair.drop 32)

/-- Within the window that `status_socket` grants. -/
def Fresh (t now : UnixMillis) : Prop := |(now.ms : Int) - t.ms| ≤ 300000

/-- The socket `a` opens to a peer is accepted at `b` as `a`'s; `target` is the request target
that the HTTP client takes from the URL. -/
def HandshakeAccepted (d : Dalek) (chacha xchacha : Aead) (target : String → String)
    (a b : Device) (peer : DPeer) (t now : UnixMillis) (nonce : Nonce 12) : Prop :=
  ∃ req, openSocket d chacha a.identity peer (base64Decode peer.key) t nonce = some req ∧
    statusSocket d xchacha b.db now.toInt64 (target req.url) req.payload = some a.identity.clientId

variable {d : Dalek} {chacha xchacha : Aead} {identity : AppIdentity} {peer : DPeer}
  {key payload : Bytes} {t now : UnixMillis} {nonce : Nonce 12} {req : StatusRequest} {db : ChatDb}
  {id path : String}

/-- The frame sent is `{sig}|{timestamp}|{cid}` under the 12-byte cipher. -/
theorem openSocket_eq_some (hd : d.Sound)
    (h : openSocket d chacha identity peer key t nonce = some req) :
    ∃ signature : String, (bytes signature).length = 88 ∧
      encryptFramed chacha key nonce
        (bytes s!"{signature}|{toString t.toInt64}|{identity.clientId}") = some req.payload := by
  simp only [openSocket] at h
  split at h
  · cases h
  · next hne =>
    obtain ⟨payload, hp, rfl⟩ := Option.map_eq_some_iff.mp h
    exact ⟨_, length_ed25519Sign hd hne, hp⟩

/-- What is accepted is a text with a 64-byte signature and a fresh timestamp. -/
theorem authenticatePeer_inv {now : Int64} (hid : id ≠ "")
    (h : authenticatePeer d xchacha db now id payload = true) :
    ∃ key plaintext, ∃ signature timestamp : String, ∃ n : Int,
      decryptFramed xchacha 24 key payload = some plaintext ∧
      plaintext = bytes s!"{signature}|{timestamp}|{id}" ∧
      parseI64 timestamp.toList = some n ∧ within (5 * 60 * 1000) now (Int64.ofInt n) = true ∧
      (base64Decode signature).length = 64 := by
  obtain ⟨_, h⟩ := Option.isSome_iff_exists.mp h
  simp only [Option.bind_eq_bind, Option.bind_eq_some_iff, Option.guard_eq_some'] at h
  obtain ⟨peer, -, _, -, _, -, plaintext, hplain, text, htext, _, hcid, n, hn, _, hw, hverify⟩ := h
  have hthird : piece (splitn 3 '|' text.toList) 2 = id.toList := by
    rw [← hcid, String.toList_ofList]
  have hne : piece (splitn 3 '|' text.toList) 2 ≠ [] := by
    rw [hthird]
    exact fun he => hid (String.toList_eq_nil_iff.mp he)
  have hcut := eq_of_splitn_three hne
  refine ⟨_, _, String.ofList (piece (splitn 3 '|' text.toList) 0),
    String.ofList (piece (splitn 3 '|' text.toList) 1), n, hplain, ?_,
    by rwa [String.toList_ofList], hw, length_of_verify hverify⟩
  rw [← bytes_of_ofBytes? htext]
  congr 1
  apply String.toList_inj.mp
  refine hcut.trans ?_
  show _ = (String.ofList _ ++ "|" ++ String.ofList _ ++ "|" ++ id).toList
  simp [String.toList_append, hthird]

theorem length_statusText (signature timestamp id : String) :
    (bytes s!"{signature}|{timestamp}|{id}").length =
      (bytes signature).length + (bytes timestamp).length + (bytes id).length + 2 := by
  have hbar : (bytes "|").length = 1 := by decide
  show (bytes (signature ++ "|" ++ timestamp ++ "|" ++ id)).length = _
  simp only [bytes_append, List.length_append, hbar]
  omega

/-- A timestamp nine characters shorter than the clock's is long out of the window. -/
theorem not_within_of_short {timestamp : String} {n : Int} (hf : Fresh t now)
    (hn : parseI64 timestamp.toList = some n)
    (hlen : timestamp.toList.length + 9 ≤ (toString (t.ms : Int)).length) :
    within (5 * 60 * 1000) now.toInt64 (Int64.ofInt n) = false := by
  obtain ⟨hne, habs, hlo, hhi⟩ := parseI64_bounds hn
  have hpos := List.length_pos_iff.mpr hne
  obtain ⟨j, hj⟩ : ∃ j, timestamp.toList.length = j + 1 := ⟨timestamp.toList.length - 1, by omega⟩
  -- the clock has at least nine digits more than the timestamp has characters
  have ht : 10 ^ (j + 9) ≤ t.ms := le_of_lt_length_toString (by omega) (by omega)
  have hfresh := abs_le.mp hf
  have hnow := now.lt
  have hclock := t.lt
  have hbound : |n| < 10 ^ (j + 1) := hj ▸ habs
  have hpow : (10 : Int) ^ (j + 9) = 10 ^ 8 * 10 ^ (j + 1) := by ring
  have hten : (10 : Int) ≤ 10 ^ (j + 1) := by
    calc (10 : Int) = 10 ^ 1 := by norm_num
      _ ≤ 10 ^ (j + 1) := pow_le_pow_right₀ (by norm_num) (by omega)
  have ht : (10 : Int) ^ (j + 9) ≤ t.ms := by exact_mod_cast ht
  have hn := abs_lt.mp hbound
  have hms : now.toInt64.toInt = now.ms := UnixMillis.toInt_toInt64
  have hts : (Int64.ofInt n).toInt = n := Int64.toInt_ofInt_of_le hlo hhi
  have hdiff : 600000 < (now.ms : Int) - n := by omega
  have hfits : (now.ms : Int) - n < 2 ^ 63 := by omega
  rw [← Bool.not_eq_true, within_iff (by rw [hms, hts]; omega) (by rw [hms, hts]; exact hfits), hms,
    hts, abs_of_pos (by omega)]
  have hwindow : (5 * 60 * 1000 : Int64).toInt = 300000 := by decide
  omega

/-- What one device sends, no peer takes for it: read with a 24-byte nonce, the frame is twelve bytes
short, which leaves no room for a signature and a fresh timestamp. -/
theorem authenticatePeer_openSocket (hd : d.Sound) (hc : chacha.Sound) (hx : xchacha.Sound)
    (hf : Fresh t now) (hid : identity.clientId ≠ "")
    (h : openSocket d chacha identity peer key t nonce = some req) :
    authenticatePeer d xchacha db now.toInt64 identity.clientId req.payload = false := by
  rw [← Bool.not_eq_true]
  intro hauth
  obtain ⟨signature, hsig, hframe⟩ := openSocket_eq_some hd h
  obtain ⟨key', plaintext, signature', timestamp, n, hplain, rfl, hn, hw, h64⟩ :=
    authenticatePeer_inv hid hauth
  have hlen := length_of_crossed hx hc hframe hplain
  rw [length_statusText, length_statusText, UnixMillis.toString_toInt64, length_bytes_toString] at hlen
  have hle := length_le_bytes timestamp.toList
  have hdec := length_base64Decode signature'
  rw [String.ofList_toList] at hle
  rw [not_within_of_short hf hn (by omega)] at hw
  cases hw

/-- Devices that hold PAIRED rows for each other, with one key of 32 bytes, and a moment within the
window of the one the socket is opened at. -/
structure Handshake (d : Dalek) where
  a : Device
  b : Device
  key : Bytes
  length_key : key.length = 32
  atA : DPeer
  atB : DPeer
  holdsA : HoldsPeer d a b key atA
  holdsB : HoldsPeer d b a key atB
  opened : UnixMillis
  now : UnixMillis
  fresh : Fresh opened now
  nonce : Nonce 12

def Handshake.Accepted (chacha xchacha : Aead) (target : String → String) (h : Handshake d) : Prop :=
  HandshakeAccepted d chacha xchacha target h.a h.b h.atA h.opened h.now h.nonce

/-- Every handshake is accepted. -/
def HandshakesAccepted (d : Dalek) (chacha xchacha : Aead) (target : String → String) : Prop :=
  ∀ h : Handshake d, h.Accepted chacha xchacha target

/-- A paired device does send its frame. -/
theorem Handshake.opens (hd : d.Sound) (h : Handshake d) :
    ∃ req, openSocket d chacha h.a.identity h.atA (base64Decode h.atA.key) h.opened h.nonce =
      some req := by
  have hkey : (base64Decode h.atA.key).length = 32 := h.holdsA.key_eq ▸ h.length_key
  have hsig : ed25519Sign d (base64Decode h.a.identity.ed25519Keypair)
      (bytes s!"{toString h.opened.toInt64}{h.a.identity.clientId}") ≠ "" :=
    ed25519Sign_ne_empty hd h.holdsB.keypair
  rw [openSocket, if_neg hsig, chacha20Encrypt, encryptFramed_eq hkey, Option.map_some]
  exact ⟨_, rfl⟩

theorem Handshake.refused (hd : d.Sound) (hc : chacha.Sound) (hx : xchacha.Sound)
    (target : String → String) (h : Handshake d) : ¬ h.Accepted chacha xchacha target := by
  rintro ⟨req, hopen, hstatus⟩
  unfold statusSocket at hstatus
  split at hstatus
  · cases hstatus
  · next peerId hpath =>
    split at hstatus
    · next hauth =>
      obtain rfl := Option.some.inj hstatus
      have hne : h.a.identity.clientId ≠ "" := by
        simpa using (Option.filter_eq_some_iff.mp hpath).2
      rw [authenticatePeer_openSocket hd hc hx h.fresh hne hopen] at hauth
      cases hauth
    · cases hstatus

/-- The request target of a `wss` URL, as an HTTP client sends it. -/
def requestTarget (url : String) : String :=
  String.ofList ((url.toList.drop 6).dropWhile (· ≠ '/'))

def demoDevice (svc : ChatService) : Device :=
  ⟨⟨svc.identity.clientId, svc.identity.deviceName, svc.identity.ed25519Keypair⟩, svc.db⟩

theorem demoDevice_holds {svc : ChatService} {clientId : String} {n key : UInt8} {peers : List DPeer}
    (h : svc.db.getPeerById clientId = some (demoPeer clientId n key)) :
    HoldsPeer checksumDalek (demoDevice svc) (demoDevice (demoService clientId n peers))
      (List.replicate 32 key) (demoPeer clientId n key) where
  row := h
  paired := rfl
  key_eq := base64Decode_encode _
  keypair := @keypair_demoService clientId n peers
  publicKey_eq := by
    show _ = base64Encode ((base64Decode (base64Encode (demoKeypair n))).drop 32)
    rw [base64Decode_encode]
    rfl

/-- Alice opens a status socket to Bob, who gets the frame a second later. -/
def aliceToBob : Handshake checksumDalek where
  a := demoDevice demoAlice
  b := demoDevice demoBob
  key := List.replicate 32 9
  length_key := List.length_replicate
  atA := demoPeer "bob" 2 9
  atB := demoPeer "alice" 1 9
  holdsA := demoDevice_holds getPeerById_demoService
  holdsB := demoDevice_holds getPeerById_demoService
  opened := ⟨1760000000000, by decide⟩
  now := ⟨1760000001000, by decide⟩
  fresh := by norm_num [Fresh]
  nonce := ⟨List.replicate 12 5, List.length_replicate⟩

end PlainRs.LocalApi
