import PlainRs.Crypto.Ed25519

/-! The two AEAD framings: a random nonce in front of the ciphertext. -/
namespace PlainRs.Crypto

/-- An AEAD on raw bytes, with a 32-byte key and the nonce given. -/
structure Aead where
  encrypt : Bytes → Bytes → Bytes → Bytes
  decrypt : Bytes → Bytes → Bytes → Option Bytes

/-- Decryption takes exactly what encryption under the same key and nonce made. -/
structure Aead.Sound (c : Aead) : Prop where
  decrypt_iff : ∀ {key nonce ct pt},
    c.decrypt key nonce ct = some pt ↔ ct = c.encrypt key nonce pt
  length_encrypt : ∀ {key nonce pt}, (c.encrypt key nonce pt).length = pt.length + 16

section

variable (c : Aead)

/-- `new_from_slice` takes 32-byte keys only. -/
def encryptFramed (key nonceBytes plaintext : Bytes) : Option Bytes :=
  if key.length ≠ 32 then none else some (nonceBytes ++ c.encrypt key nonceBytes plaintext)

def decryptFramed (nonceLen : Nat) (key data : Bytes) : Option Bytes :=
  if data.length < nonceLen then none
  else if key.length ≠ 32 then none
  else c.decrypt key (data.take nonceLen) (data.drop nonceLen)

/-- A nonce of the length its cipher draws. -/
abbrev Nonce (n : Nat) := { b : Bytes // b.length = n }

/-- XChaCha20-Poly1305 with the 24 random bytes given. -/
def xchachaEncryptRaw (nonceBytes : Nonce 24) (key plaintext : Bytes) : Option Bytes :=
  encryptFramed c key nonceBytes plaintext

def xchachaDecryptRaw (key data : Bytes) : Option Bytes := decryptFramed c 24 key data

/-- ChaCha20-Poly1305 with the 12 random bytes given. -/
def chacha20Encrypt (nonceBytes : Nonce 12) (key plaintext : Bytes) : Option Bytes :=
  encryptFramed c key nonceBytes plaintext

def chacha20Decrypt (key data : Bytes) : Option Bytes := decryptFramed c 12 key data

end

variable {c e : Aead} {key pt qt : Bytes} {n k : Nat}

theorem encryptFramed_eq {nonce : Bytes} (h : key.length = 32) :
    encryptFramed c key nonce pt = some (nonce ++ c.encrypt key nonce pt) := by
  simp [encryptFramed, h]

theorem decryptFramed_encryptFramed (hc : c.Sound) {nonce : Nonce n} (h : key.length = 32) :
    (encryptFramed c key nonce pt).bind (decryptFramed c n key) = some pt := by
  rw [encryptFramed_eq h, Option.bind_some]
  simp [decryptFramed, nonce.2, h, hc.decrypt_iff]

theorem xchacha_roundtrip (hc : c.Sound) {nonce : Nonce 24} (h : key.length = 32) :
    (xchachaEncryptRaw c nonce key pt).bind (xchachaDecryptRaw c key) = some pt :=
  decryptFramed_encryptFramed hc h

theorem chacha20_roundtrip (hc : c.Sound) {nonce : Nonce 12} (h : key.length = 32) :
    (chacha20Encrypt c nonce key pt).bind (chacha20Decrypt c key) = some pt :=
  decryptFramed_encryptFramed hc h

/-- Exactly what was sealed under the key is unsealed. -/
theorem xchachaDecryptRaw_iff (hc : c.Sound) {data : Bytes} : xchachaDecryptRaw c key data = some pt ↔
    ∃ nonce : Nonce 24, xchachaEncryptRaw c nonce key pt = some data := by
  constructor
  · intro h
    rw [xchachaDecryptRaw, decryptFramed] at h
    split at h
    · cases h
    · next hlen =>
      split at h
      · cases h
      · next hkey =>
        refine ⟨⟨data.take 24, by rw [List.length_take]; omega⟩, ?_⟩
        rw [xchachaEncryptRaw, encryptFramed_eq (not_not.mp hkey), ← hc.decrypt_iff.mp h,
          List.take_append_drop]
  · rintro ⟨nonce, h⟩
    have hkey : key.length = 32 := by
      by_contra hne
      rw [xchachaEncryptRaw, encryptFramed, if_pos hne] at h
      cases h
    have hround := @xchacha_roundtrip c key pt hc nonce hkey
    rwa [h] at hround

/-- What a frame decrypts to is as long as the frame less the nonce and the tag. -/
theorem length_of_decryptFramed (hc : c.Sound) {data : Bytes}
    (h : decryptFramed c n key data = some pt) : data.length = n + pt.length + 16 := by
  unfold decryptFramed at h
  split at h
  · cases h
  · split at h
    · cases h
    · have hct := hc.decrypt_iff.mp h
      have hl := congrArg List.length hct
      rw [List.length_drop, hc.length_encrypt] at hl
      omega

/-- Read with another nonce length, under whatever key, a frame can only decrypt to a text shifted
by the difference. -/
theorem length_of_crossed (hc : c.Sound) (he : e.Sound) {nonce : Nonce k} {data key' : Bytes}
    (hs : encryptFramed e key nonce pt = some data) (h : decryptFramed c n key' data = some qt) :
    n + qt.length = k + pt.length := by
  have hl := length_of_decryptFramed hc h
  unfold encryptFramed at hs
  split at hs
  · cases hs
  · cases hs
    rw [List.length_append, he.length_encrypt, nonce.2] at hl
    omega

/-- A cipher to run examples on: the text in the clear under a 16-byte checksum. -/
def checksumAead : Aead where
  encrypt key nonce pt := pt ++ (checksum (key ++ nonce ++ pt)).take 16
  decrypt key nonce ct :=
    let pt := ct.take (ct.length - 16)
    if ct = pt ++ (checksum (key ++ nonce ++ pt)).take 16 then some pt else none

theorem checksumAead_sound : checksumAead.Sound where
  decrypt_iff {key nonce ct pt} := by
    have hl : ∀ b : Bytes, ((checksum b).take 16).length = 16 := by simp [checksum]
    simp only [checksumAead]
    constructor
    · intro h
      split at h
      · next hct =>
        cases h
        exact hct
      · cases h
    · rintro rfl
      simp [hl]
  length_encrypt := by simp [checksumAead, checksum]

end PlainRs.Crypto
