import PlainRs.Crypto.Ed25519

/-! The ephemeral key exchange over a Diffie-Hellman scheme on raw bytes. -/
namespace PlainRs.Crypto

/-- The `[u8; 32]` a key exchange gives. -/
abbrev SharedKey := { b : Bytes // b.length = 32 }

/-- What `p256` and SHA-256 compute of an ephemeral secret: the public key to send, and the key
shared with the holder of another one, unless that does not parse. -/
structure Ecdh where
  publicKey : Bytes → Bytes
  computeSharedKey : Bytes → Bytes → Option SharedKey

/-- Two secrets give one key, each with the public key of the other. -/
structure Ecdh.Sound (e : Ecdh) : Prop where
  agrees : ∀ s t, ∃ k, e.computeSharedKey s (e.publicKey t) = some k ∧
    e.computeSharedKey t (e.publicKey s) = some k

/-- A scheme to run examples on: the secrets multiplied byte by byte. -/
def productEcdh : Ecdh where
  publicKey s := s
  computeSharedKey s p :=
    some ⟨(List.range 32).map fun i => s.getD i 0 * p.getD i 0, by simp⟩

theorem productEcdh_sound : productEcdh.Sound where
  agrees s t := by
    refine ⟨_, rfl, ?_⟩
    simp only [productEcdh, UInt8.mul_comm]

end PlainRs.Crypto
