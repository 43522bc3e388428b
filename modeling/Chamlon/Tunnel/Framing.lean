import Mathlib.Tactic
import Chamlon.Client.Inbound
import Chamlon.Datagram
import Chamlon.Server.Cases

/-!
The datagram of type data as bytes: what the sender lays down at fixed offsets, each
receiver finds there. The two receivers do not read alike. The server tests magic and
version and takes the session id as a key into its table; the client never looks at the
magic and compares the session id with its own.
-/

namespace Chamlon

open Config Memory

/-- A datagram of type data with this session id, number and ciphertext. -/
structure Framed (order : Endian) (sessionId : Octets sessionIdLen) (seq : BitVec 64)
    (ct pkt : Bytes) : Prop where
  length : pkt.length = dataHeaderLen + ct.length
  magic : field 4 pkt 0 = order.encode 4 pktMagic
  version : pkt[4]? = some pktVersion
  type : pkt[5]? = some pktTypeData
  id : field sessionIdLen pkt protoHeaderLen = sessionId
  number : field 8 pkt (protoHeaderLen + sessionIdLen) = Sodium.seqBytes seq
  text : slice pkt dataHeaderLen ct.length = ct

theorem Aead.datagram_framed {aead : Aead} {order : Endian} {key : Octets aeadKeyLen}
    {sessionId : Octets sessionIdLen} {seq : BitVec 64} {plain pkt : Bytes}
    (h : aead.datagram order key sessionId seq plain = some pkt) :
    ∃ ct, aead.aeadEncrypt key sessionId seq plain = some ct ∧
      Framed order sessionId seq ct pkt := by
  obtain ⟨ct, hct, rfl⟩ := Option.map_eq_some_iff.mp h
  have hheader : (protoHeader order pktTypeData).val =
      (order.encode 4 pktMagic).val ++ [pktVersion, pktTypeData] := rfl
  refine ⟨ct, hct, ?_, ?_, ?_, getElem?_protoHeader_append _ _ _, ?_, ?_, ?_⟩
  · simp only [List.length_append, Octets.length_val, dataHeaderLen, Nat.add_assoc]
  · rw [hheader, List.append_assoc]
    exact field_append 4 [] (order.encode 4 pktMagic) _ 0 rfl
  · rw [hheader, List.append_assoc,
      List.getElem?_append_right (by rw [Octets.length_val]), Octets.length_val]
    rfl
  · exact field_append sessionIdLen _ sessionId _ protoHeaderLen (Octets.length_val _)
  · rw [← List.append_assoc]
    refine field_append 8 _ (Sodium.seqBytes seq) ct _ ?_
    rw [List.length_append, Octets.length_val, Octets.length_val]
  · rw [← List.append_assoc, ← List.append_assoc, slice]
    rw [List.drop_left' (by simp only [List.length_append, Octets.length_val]),
      List.take_length]

/-- Decryption undoes encryption. -/
def Inverts (aead : Aead) (na : Sodium) : Prop :=
  ∀ key nonce ad plain ct, aead.encrypt key nonce ad plain = some ct →
    na.aeadDecrypt key nonce ad ct = some plain

theorem Inverts.decrypt {aead : Aead} {na : Sodium} (h : Inverts aead na)
    {key : Octets aeadKeyLen} {sessionId : Octets sessionIdLen} {seq : BitVec 64}
    {plain ct : Bytes} (hct : aead.aeadEncrypt key sessionId seq plain = some ct) :
    na.decrypt key sessionId seq ct = some plain :=
  h _ _ _ _ _ hct

/-- A byte of the header, whatever lies behind the datagram. -/
theorem peek_of_getElem? {pkt : Bytes} (past : Nat → UInt8) {i : Nat} {byte : UInt8}
    (hbyte : pkt[i]? = some byte) : peek pkt past i = byte := by
  rw [peek, List.getD_eq_getElem?_getD, hbyte, Option.getD_some]

namespace Framed

variable {order : Endian} {sessionId : Octets sessionIdLen} {seq : BitVec 64}
  {ct pkt : Bytes} (h : Framed order sessionId seq ct pkt)

include h

theorem decode_number :
    BitVec.ofNat 64 (Endian.big.decode
      (field 8 pkt (protoHeaderLen + sessionIdLen)).val) = seq := by
  rw [h.number, Sodium.seqBytes, Endian.decode_encode _ _ _ seq.isLt, BitVec.ofNat_toNat,
    BitVec.setWidth_eq]

/-! ### The client -/

theorem addressed {session : Client.ClientSession} (hid : session.sessionId = sessionId)
    (hct : 0 < ct.length) : Client.Addressed session pkt := by
  refine ⟨?_, peek_of_getElem? _ h.version, peek_of_getElem? _ h.type, ?_⟩
  · rw [h.length]
    omega
  · rw [hid]
    exact h.id

theorem udpSeq : Client.udpSeq pkt = seq := h.decode_number

theorem openPacket (na : Sodium) {session : Client.ClientSession}
    (hid : session.sessionId = sessionId) (hct : 0 < ct.length) :
    Client.openPacket na session pkt = na.decrypt session.kRecv sessionId seq ct := by
  rw [Client.openPacket_of_addressed (h.addressed hid hct), h.udpSeq, h.length,
    Nat.add_sub_cancel_left, h.text, hid]

/-! ### The server -/

open Server

theorem reachesLookup {env : Env} (hshort : pkt.length ≤ bufferSize)
    (hverdict : env.packetVerdict = .ok) : ReachesLookup order env pkt := by
  have htype : packetType pkt = pktTypeData := peek_of_getElem? _ h.type
  refine ⟨?_, hshort, ?_, ?_, fun _ => hverdict⟩
  · rw [h.length]
    exact Nat.le_add_right_of_le (by decide)
  · rw [headerAccepted, h.magic, peek_of_getElem? _ h.version,
      order.decode_encode 4 pktMagic (by decide)]
    decide
  · rw [htype]
    decide

/-- A field that lies inside the datagram, read with whatever lies behind. -/
theorem read_field (past : Nat → UInt8) {n off : Nat} (hin : off + n ≤ dataHeaderLen) :
    Octets.read n (peek pkt past) off = field n pkt off := by
  have hlong : off + n ≤ pkt.length := by
    rw [h.length]
    omega
  apply Octets.ext
  rw [Octets.read_peek_val n pkt past off hlong, val_field n pkt off hlong]

theorem lookup (env : Env) (sessions : Sessions) :
    Server.lookup env pkt sessions = sessionById sessionId sessions := by
  rw [Server.lookup, h.read_field env.past (by decide), h.id]

theorem pktSeq (env : Env) : Server.pktSeq env pkt = seq := by
  rw [Server.pktSeq, h.read_field env.past (by decide)]
  exact h.decode_number

theorem decrypted (na : Sodium) (env : Env) {s : Session} (hshort : pkt.length ≤ bufferSize)
    (hnew : s.rw.checkReplay seq = false) :
    Server.decrypted na env pkt s = na.decrypt s.kRecv s.sessionId seq ct := by
  have hsize : ct.length ≤ bufferSize - dataHeaderLen :=
    Nat.le_sub_of_add_le' (h.length ▸ hshort)
  have hcipher : (pkt.length + 2 ^ 64 - dataHeaderLen) % 2 ^ 64 = ct.length := by
    rw [h.length, Nat.add_assoc, Nat.add_sub_cancel_left, Nat.add_mod_right]
    exact Nat.mod_eq_of_lt (Nat.lt_of_le_of_lt hsize (by decide))
  unfold Server.decrypted
  dsimp only
  rw [h.pktSeq, hcipher, h.text, if_neg (by rw [hnew]; exact Bool.false_ne_true),
    if_neg (Nat.not_lt_of_le hsize)]

end Framed

end Chamlon
