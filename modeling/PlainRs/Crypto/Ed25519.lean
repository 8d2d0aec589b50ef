import PlainRs.Utils.Base64

/-! Ed25519 signatures over a signature scheme on raw bytes, carried as Base64 text. -/
namespace PlainRs.Crypto

open PlainRs.Utils

abbrev Bytes := List UInt8

/-- What `ed25519_dalek` computes, on raw bytes. -/
structure Dalek where
  keypairOk : Bytes → Bool
  publicOk : Bytes → Bool
  sign : Bytes → Bytes → Bytes
  verify : Bytes → Bytes → Bytes → Bool

/-- A 64-byte keypair that `SigningKey::from_keypair_bytes` takes. -/
def Dalek.Keypair (d : Dalek) (kp : Bytes) : Prop := kp.length = 64 ∧ d.keypairOk kp = true

/-- The public half of a keypair verifies exactly the signatures the keypair makes. -/
structure Dalek.Sound (d : Dalek) : Prop where
  length_sign : ∀ {kp m}, d.Keypair kp → (d.sign kp m).length = 64
  publicOk : ∀ {kp}, d.Keypair kp → d.publicOk (kp.drop 32) = true
  verify_iff : ∀ {kp m sig}, d.Keypair kp → sig.length = 64 →
    (d.verify (kp.drop 32) m sig = true ↔ sig = d.sign kp m)

section

variable (d : Dalek)

/-- The Base64 signature, or the empty string when the keypair is refused. -/
def ed25519Sign (keypairBytes message : Bytes) : String :=
  if keypairBytes.length ≠ 64 then ""
  else if d.keypairOk keypairBytes then base64Encode (d.sign keypairBytes message)
  else ""

def ed25519Verify (publicKeyB64 : String) (message : Bytes) (signatureB64 : String) : Bool :=
  let pkBytes := base64Decode publicKeyB64
  let sigBytes := base64Decode signatureB64
  if pkBytes.length ≠ 32 ∨ sigBytes.length ≠ 64 then false
  else if d.publicOk pkBytes then d.verify pkBytes message sigBytes
  else false

end

variable {d : Dalek} {kp m n : Bytes}

theorem Dalek.Keypair.length_public (h : d.Keypair kp) : (kp.drop 32).length = 32 := by
  rw [List.length_drop, h.1]

theorem ed25519Sign_of_keypair (h : d.Keypair kp) :
    ed25519Sign d kp m = base64Encode (d.sign kp m) := by
  simp [ed25519Sign, h.1, h.2]

theorem ed25519Sign_ne_empty (hd : d.Sound) (h : d.Keypair kp) : ed25519Sign d kp m ≠ "" := by
  rw [ed25519Sign_of_keypair h, ne_eq, base64Encode_eq_empty]
  intro he
  have := hd.length_sign (m := m) h
  simp [he] at this

theorem publicKey_ne_empty (h : d.Keypair kp) : base64Encode (kp.drop 32) ≠ "" := by
  rw [ne_eq, base64Encode_eq_empty]
  intro he
  have := h.length_public
  simp [he] at this

/-- A signature verifies over a message exactly when signing that message gives it. -/
theorem ed25519Verify_sign (hd : d.Sound) (h : d.Keypair kp) :
    ed25519Verify d (base64Encode (kp.drop 32)) n (ed25519Sign d kp m) = true ↔
      d.sign kp m = d.sign kp n := by
  have hpk : (base64Decode (base64Encode (kp.drop 32))).length = 32 := by
    rw [base64Decode_encode, h.length_public]
  have hsig : (base64Decode (base64Encode (d.sign kp m))).length = 64 := by
    rw [base64Decode_encode, hd.length_sign h]
  rw [ed25519Sign_of_keypair h]
  simp only [ed25519Verify, hpk, hsig, ne_eq, not_true_eq_false, or_self, if_false]
  simp only [base64Decode_encode, hd.publicOk h, if_true]
  exact hd.verify_iff h (hd.length_sign h)

theorem ed25519Verify_self (hd : d.Sound) (h : d.Keypair kp) :
    ed25519Verify d (base64Encode (kp.drop 32)) m (ed25519Sign d kp m) = true :=
  (ed25519Verify_sign hd h).mpr rfl

/-- Only a 64-byte signature verifies. -/
theorem length_of_verify {publicKey signature : String}
    (h : ed25519Verify d publicKey m signature = true) : (base64Decode signature).length = 64 := by
  by_contra hne
  rw [ed25519Verify, if_pos (.inr hne)] at h
  cases h

/-- Where it is not empty, a signature is the Base64 of 64 bytes. -/
theorem length_ed25519Sign (hd : d.Sound) (h : ed25519Sign d kp m ≠ "") :
    (Text.bytes (ed25519Sign d kp m)).length = 88 := by
  have hk : d.Keypair kp := by
    by_contra hk
    apply h
    rw [ed25519Sign]
    split
    · rfl
    · next hlen => exact if_neg fun hok => hk ⟨not_not.mp hlen, hok⟩
  rw [ed25519Sign_of_keypair hk, length_bytes_base64Encode, hd.length_sign hk]

/-- The 64 base-256 digits of a number read off the bytes. -/
def checksum (b : Bytes) : Bytes :=
  (List.range 64).map fun i =>
    (b.foldl (fun (h : Nat) x => (h * 257 + x.toNat + 1) % 256 ^ 64) 0 / 256 ^ i).toUInt8

/-- A scheme to run examples on: the signature is a checksum of the public half and the
message. -/
def checksumDalek : Dalek where
  keypairOk _ := true
  publicOk _ := true
  sign kp m := checksum (kp.drop 32 ++ m)
  verify pk m sig := sig == checksum (pk ++ m)

theorem checksumDalek_sound : checksumDalek.Sound where
  length_sign _ := by simp [checksumDalek, checksum]
  publicOk _ := rfl
  verify_iff _ _ := by simp [checksumDalek]

end PlainRs.Crypto
