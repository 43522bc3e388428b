import Mathlib.Tactic
import Chamlon.Queue.Basic
import Chamlon.Sodium
import Chamlon.Wire

/-!
Datagrams of type data as both programs send them: protocol header, session id,
sequence number and ciphertext. Of the encryption only one thing matters here, the
length of its output, and the record carries it.
-/

namespace Chamlon

open Config Memory

/-- `crypto_aead_chacha20poly1305_ietf_encrypt`. A ciphertext is `MAC_LEN` bytes longer
than its plaintext. -/
structure Aead where
  encrypt : Octets aeadKeyLen → Octets 12 → Bytes → Bytes → Option Bytes
  length : ∀ key nonce ad plain ct, encrypt key nonce ad plain = some ct →
    ct.length = plain.length + macLen

namespace Aead

/-- A stand-in that the model can be run with: the plaintext and an empty tag. -/
def plainText : Aead where
  encrypt _ _ _ plain := some (plain ++ (Octets.zero macLen).val)
  length _ _ _ plain ct h := by
    rw [← Option.some.inj h, List.length_append, Octets.length_val]

variable (aead : Aead)

/-- `aead_encrypt`, with session id and sequence number as associated data. -/
def aeadEncrypt (key : Octets aeadKeyLen) (sessionId : Octets sessionIdLen)
    (seq : BitVec 64) (plain : Bytes) : Option Bytes :=
  aead.encrypt key (Sodium.buildNonce key seq)
    (sessionId.val ++ (Sodium.seqBytes seq).val) plain

/-- The datagram of type data for a plaintext, with nothing when the encryption fails. -/
def datagram (order : Endian) (key : Octets aeadKeyLen) (sessionId : Octets sessionIdLen)
    (seq : BitVec 64) (plain : Bytes) : Option Bytes :=
  (aead.aeadEncrypt key sessionId seq plain).map fun out =>
    (protoHeader order pktTypeData).val ++
      (sessionId.val ++ ((Sodium.seqBytes seq).val ++ out))

end Aead

/-- The length on the wire of a plaintext of `len` bytes. -/
def wireLength (len : Nat) : Nat := protoHeaderLen + sessionIdLen + 8 + len + macLen

theorem Aead.length_datagram {aead : Aead} {order : Endian} {key : Octets aeadKeyLen}
    {sessionId : Octets sessionIdLen} {seq : BitVec 64} {plain pkt : Bytes}
    (h : aead.datagram order key sessionId seq plain = some pkt) :
    pkt.length = wireLength plain.length := by
  obtain ⟨out, hout, rfl⟩ := Option.map_eq_some_iff.mp h
  have hlength := aead.length _ _ _ _ _ hout
  simp only [List.length_append, Octets.length_val, hlength, wireLength]
  omega

theorem wireLength_inj {len len' : Nat} : wireLength len = wireLength len' ↔ len = len' := by
  unfold wireLength
  omega

/-- Every queued packet carries `len` bytes. -/
def QueueUniform (len : Nat) (q : Queue.OutQueue) : Prop :=
  Queue.AllQueued (fun pkt => pkt.length = wireLength len) q

end Chamlon
