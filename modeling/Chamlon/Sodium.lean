import Mathlib
import Chamlon.Lib.Memory
import Chamlon.Config

/-!
The cryptographic layer. libsodium is a record of functions; what a result needs
of them (that X25519 commutes, that signatures verify, that they cannot be
forged) is a hypothesis of that result. `vpn_crypto.c`, the same text in both
programs, is modelled on top of it.
-/

namespace Chamlon

open Config Memory

/-- The libsodium functions the programs call. A function that can fail returns
an option. -/
structure Sodium where
  /-- The public key that `crypto_kx_keypair` returns with a secret key. -/
  kxPublic : Octets privkeyLen → Octets pubkeyLen
  /-- `crypto_scalarmult`. -/
  scalarmult : Octets privkeyLen → Octets pubkeyLen → Option (Octets dhLen)
  /-- `crypto_generichash` without key, of the given output length. -/
  generichash : (outlen : Nat) → Bytes → Octets outlen
  /-- `crypto_sign_detached`. -/
  signDetached : Octets 64 → Bytes → Option (Octets sigLen)
  /-- `crypto_sign_verify_detached`, `true` for a valid signature. -/
  verifyDetached : Octets sigLen → Bytes → Octets pubkeyLen → Bool
  /-- `crypto_sign_ed25519_pk_to_curve25519`. -/
  pkToCurve25519 : Octets pubkeyLen → Option (Octets pubkeyLen)
  /-- `crypto_aead_chacha20poly1305_ietf_decrypt`. -/
  aeadDecrypt : Octets aeadKeyLen → Octets 12 → Bytes → Bytes → Option Bytes

namespace Sodium

variable (na : Sodium)

/-- `derive_two_keys`. The second hash runs over the first half of the first. -/
def deriveTwoKeys (shared context : Bytes) : Octets aeadKeyLen × Octets aeadKeyLen :=
  let tmp := na.generichash 64 (shared ++ [1] ++ context)
  let out1 := field aeadKeyLen tmp.val 0
  let tmp := na.generichash 64 (out1.val ++ [2] ++ context)
  let out2 := field aeadKeyLen tmp.val 0
  (out1, out2)

/-- The eight bytes `(seq >> (56 - 8*i)) & 0xFF`. -/
def seqBytes (seq : BitVec 64) : Octets 8 :=
  Endian.big.encode 8 seq.toNat

/-- `build_nonce`: the start of the key and the sequence number. -/
def buildNonce (key : Octets aeadKeyLen) (seq : BitVec 64) : Octets 12 :=
  ⟨key.val.take 4 ++ (seqBytes seq).val, by
    rw [List.length_append, List.length_take, key.length_val, Octets.length_val]
    rfl⟩

/-- `aead_decrypt`, with session id and sequence number as associated data. -/
def decrypt (key : Octets aeadKeyLen) (sessionId : Octets sessionIdLen)
    (seq : BitVec 64) (ct : Bytes) : Option Bytes :=
  na.aeadDecrypt key (buildNonce key seq) (sessionId.val ++ (seqBytes seq).val) ct

/-- What a handshake gives both sides: the two keys in derivation order and the
session id. -/
structure SessionSecrets where
  k1 : Octets aeadKeyLen
  k2 : Octets aeadKeyLen
  sessionId : Octets sessionIdLen
deriving DecidableEq

/-- The key schedule after the two scalar multiplications. `handle_msg1`,
`handle_rehandshake_msg1` and `client_handshake` contain the same copies. -/
def secrets (dh1 dh2 : Octets dhLen) (cNonce sNonce : Octets 8)
    (cPub sPub : Octets pubkeyLen) : SessionSecrets :=
  let shared := layout (Octets.zero (dhLen * 2)).val [(0, dh1.val), (dhLen, dh2.val)]
  let context := layout (Octets.zero 16).val [(0, cNonce.val), (8, sNonce.val)]
  let keys := na.deriveTwoKeys shared context
  let sidInput := layout (Octets.zero (dhLen * 2 + 8 + 8 + pubkeyLen + pubkeyLen)).val
    [(0, shared), (dhLen * 2, cNonce.val), (dhLen * 2 + 8, sNonce.val),
      (dhLen * 2 + 8 + 8, cPub.val), (dhLen * 2 + 8 + 8 + pubkeyLen, sPub.val)]
  ⟨keys.1, keys.2, na.generichash sessionIdLen sidInput⟩

/-- The server's two scalar multiplications and the key schedule. -/
def serverSecrets (sPriv serverSk : Octets privkeyLen) (cPub : Octets pubkeyLen)
    (cNonce sNonce : Octets 8) : Option SessionSecrets := do
  let dh1 ← na.scalarmult sPriv cPub
  let dh2 ← na.scalarmult serverSk cPub
  return na.secrets dh1 dh2 cNonce sNonce cPub (na.kxPublic sPriv)

/-- The client's two scalar multiplications and the key schedule. -/
def clientSecrets (cPriv : Octets privkeyLen) (sPub serverKxPk : Octets pubkeyLen)
    (cNonce sNonce : Octets 8) : Option SessionSecrets := do
  let dh1 ← na.scalarmult cPriv sPub
  let dh2 ← na.scalarmult cPriv serverKxPk
  return na.secrets dh1 dh2 cNonce sNonce (na.kxPublic cPriv) sPub

/-- X25519 commutes, failures included. -/
def Commutes : Prop :=
  ∀ a b : Octets privkeyLen, na.scalarmult a (na.kxPublic b) =
    na.scalarmult b (na.kxPublic a)

/-- Both sides of an exchange derive the same secrets. -/
theorem clientSecrets_eq_serverSecrets (hcomm : na.Commutes)
    (cPriv sPriv serverSk : Octets privkeyLen) (cNonce sNonce : Octets 8) :
    na.clientSecrets cPriv (na.kxPublic sPriv) (na.kxPublic serverSk) cNonce sNonce =
      na.serverSecrets sPriv serverSk (na.kxPublic cPriv) cNonce sNonce := by
  simp only [clientSecrets, serverSecrets, hcomm cPriv sPriv, hcomm cPriv serverSk]

/-- A stand-in for libsodium that the model can be run with. It is no
cryptography: keys are their own public keys, the exchange is the bitwise
exclusive or, hashes and signatures are byte sums, and nothing is encrypted. -/
def xorSodium : Sodium where
  kxPublic := id
  scalarmult a b := some ⟨a.val.zipWith (· ^^^ ·) b.val, by
    simp [Octets.length_val, pubkeyLen, privkeyLen]⟩
  generichash outlen bytes := Octets.fill outlen bytes.sum
  signDetached _ bytes := some (Octets.fill sigLen bytes.sum)
  verifyDetached sig bytes _ := sig == Octets.fill sigLen bytes.sum
  pkToCurve25519 := some
  aeadDecrypt _ _ _ ct := some ct

end Sodium

end Chamlon
