import Mathlib.Tactic
import Chamlon.Datagram
import Chamlon.Lib.Machine
import Chamlon.Reassembly.Fragmenter

/-!
The datagrams of type data that the client sends. The event loop encrypts the fragments
of `handle_tun_packet` and leaves them in the queue, and sends keepalives and the notice
of `send_disconnect` itself. The sender thread sends what is queued and, with constant
bit rate, dummies.

Only two of the four plaintexts have `argv_FRAG` bytes whatever the options are. A
fragment is padded by `packet_padding`, which looks at `argv_PAD` and not at `argv_CBR`,
and the notice has a size of its own.
-/

namespace Chamlon.Client

open Config Memory Machine Reassembly Queue

/-- What the client encrypts. The session id in the header of some of them is not
initialised. -/
inductive Payload where
  | fragment (uninit : Octets sessionIdLen) (id : UInt16) (buf : Bytes) (offset : Nat)
  | dummy
  | keepalive (uninit : Octets sessionIdLen)
  | disconnect (uninit : Octets sessionIdLen)

/-- `sizeof(buf2)` in `send_disconnect`. -/
abbrev disconnectLen : Nat := 1400

/-- The plaintext that goes to `aead_encrypt`. -/
def Payload.plain (order : Endian) (argv : Params) : Payload → Bytes
  | .fragment uninit id buf offset => clientFragment order argv uninit id buf offset
  | .dummy =>
      (encodeHeader order ⟨1, 1, 1, UInt16.ofNat pktDummy⟩ (Octets.zero sessionIdLen)).val ++
        List.replicate (argv.frag.toNat - tunnelHeaderLen) 0x99
  | .keepalive uninit =>
      (encodeHeader order ⟨1, 1, 1, UInt16.ofNat pktCtrlKeepalive⟩ uninit).val ++
        List.replicate (argv.frag.toNat - tunnelHeaderLen) 0x88
  | .disconnect uninit =>
      (encodeHeader order ⟨1, 1, 1, UInt16.ofNat pktCtrlDisconnect⟩ uninit).val ++
        List.replicate (disconnectLen - tunnelHeaderLen) 0x11

/-- The plaintext has `argv_FRAG` bytes: a fragment when it is padded or its chunk fills
it, the notice never. -/
def Payload.Full (argv : Params) : Payload → Prop
  | .fragment _ _ buf offset => argv.pad ≠ 'N'.toUInt8 ∨
      realDataLen argv.frag.toNat buf offset = argv.frag.toNat
  | .dummy => True
  | .keepalive _ => True
  | .disconnect _ => False

theorem Payload.length_plain_iff {order : Endian} {argv : Params}
    (hfrag : 300 ≤ argv.frag ∧ argv.frag ≤ 1200) (payload : Payload) :
    (payload.plain order argv).length = argv.frag.toNat ↔ payload.Full argv := by
  have hlow : tunnelHeaderLen ≤ argv.frag.toNat := by
    unfold tunnelHeaderLen
    omega
  cases payload with
  | fragment uninit id buf offset =>
      unfold Payload.plain Payload.Full
      dsimp only
      rw [length_clientFragment uninit hlow]
      by_cases hpad : argv.pad = 'N'.toUInt8
      · rw [if_pos hpad]
        exact (or_iff_right fun hno => hno hpad).symm
      · rw [if_neg hpad]
        exact iff_of_true rfl (Or.inl hpad)
  | dummy => exact iff_of_true (length_header_fill _ _ _ _ hlow) trivial
  | keepalive uninit => exact iff_of_true (length_header_fill _ _ _ _ hlow) trivial
  | disconnect uninit =>
      refine iff_of_false (fun hlength => ?_) id
      have hown := length_header_fill order ⟨1, 1, 1, UInt16.ofNat pktCtrlDisconnect⟩ uninit
        0x11 (show tunnelHeaderLen ≤ disconnectLen by decide)
      have hsame : argv.frag.toNat = disconnectLen := hlength.symm.trans hown
      unfold disconnectLen at hsame
      omega

/-- Keys and session id of one of the two threads. -/
structure Channel where
  kSend : Octets aeadKeyLen
  sessionId : Octets sessionIdLen

/-- `servers[0]`, the sender's copy of it, `g_session_id` and the queue. -/
structure Traffic where
  loop : Channel
  sender : Channel
  gSessionId : Octets sessionIdLen
  sendSeq : BitVec 64
  outq : OutQueue

/-- After the first handshake. -/
def Traffic.start (channel : Channel) : Traffic where
  loop := channel
  sender := channel
  gSessionId := channel.sessionId
  sendSeq := 0
  outq := outQueueInit

inductive TrafficAct where
  /-- `handle_tun_packet`, with the results of its allocations. -/
  | tun (uninit : Nat → Octets sessionIdLen) (id : UInt16) (buf : Bytes)
      (allocated nodeAllocated : Nat → Bool)
  | keepalive (uninit : Octets sessionIdLen)
  | disconnect (uninit : Octets sessionIdLen)
  /-- The stores of `rehandshake_client_with_state`. -/
  | rekey (channel : Channel)
  /-- The key swap of the sender thread. -/
  | swap
  /-- One `out_queue_pop` of the sender thread and its `sendto`. -/
  | sendQueued
  | sendDummy

section Machine

variable (aead : Aead) (order : Endian) (argv : Params)

/-- The loop of `handle_tun_packet` on its plaintexts, the `k`-th of them first. A failed
encryption ends it, a failed allocation loses one fragment. -/
def queueFragments (channel : Channel) (ip : Bytes) (allocated nodeAllocated : Nat → Bool) :
    List Bytes → Nat → BitVec 64 → OutQueue → BitVec 64 × OutQueue
  | [], _, seq, q => (seq, q)
  | plain :: rest, k, seq, q =>
      match aead.datagram order channel.kSend channel.sessionId seq plain with
      | none => (seq + 1, q)
      | some pkt =>
          queueFragments channel ip allocated nodeAllocated rest (k + 1) (seq + 1)
            (if allocated k then (packetQueuePush (nodeAllocated k) pkt seq ip q).1 else q)

def trafficStep (s : Traffic) : TrafficAct → Traffic × List Bytes
  | .tun uninit id buf allocated nodeAllocated =>
      let queued := queueFragments aead order s.loop buf allocated nodeAllocated
        (handleTunPacket order argv uninit id buf) 0 s.sendSeq s.outq
      ({ s with sendSeq := queued.1, outq := queued.2 }, [])
  | .keepalive uninit =>
      ({ s with sendSeq := s.sendSeq + 1 },
        (aead.datagram order s.loop.kSend s.loop.sessionId s.sendSeq
          (Payload.plain order argv (.keepalive uninit))).toList)
  | .disconnect uninit =>
      -- The notice is sent three times.
      ({ s with sendSeq := s.sendSeq + 1 },
        (aead.datagram order s.loop.kSend s.gSessionId s.sendSeq
          (Payload.plain order argv (.disconnect uninit))).toList.flatMap
            (List.replicate 3))
  | .rekey channel => ({ s with loop := channel, sendSeq := 0 }, [])
  | .swap => ({ s with sender := s.loop, gSessionId := s.loop.sessionId }, [])
  | .sendQueued =>
      ({ s with outq := (outQueuePop s.outq).1 },
        (poppedNodes (outQueuePop s.outq).2).map OutNode.pkt)
  | .sendDummy =>
      if argv.cbr = 'Y'.toUInt8 then
        ({ s with sendSeq := s.sendSeq + 1 },
          (aead.datagram order s.sender.kSend s.sender.sessionId s.sendSeq
            (Payload.plain order argv .dummy)).toList)
      else (s, [])

end Machine

/-- Every datagram of the call carries `argv_FRAG` bytes: the IP packet is padded or cut
without a rest, and it is not the notice. -/
def TrafficAct.Fills (argv : Params) : TrafficAct → Prop
  | .tun _ _ buf _ _ => argv.pad ≠ 'N'.toUInt8 ∨
      argv.frag.toNat - tunnelHeaderLen ∣ buf.length
  | .disconnect _ => False
  | _ => True

instance (argv : Params) : (act : TrafficAct) → Decidable (act.Fills argv)
  | .tun _ _ _ _ _ => inferInstanceAs (Decidable (_ ∨ _))
  | .disconnect _ => inferInstanceAs (Decidable False)
  | .keepalive _ | .rekey _ | .swap | .sendQueued | .sendDummy =>
      inferInstanceAs (Decidable True)

section Lengths

variable {aead : Aead} {order : Endian} {argv : Params}

theorem realDataLen_of_dvd {frag : Nat} (h : tunnelHeaderLen < frag) {buf : Bytes}
    (hdvd : frag - tunnelHeaderLen ∣ buf.length) {k : Nat}
    (hk : k * (frag - tunnelHeaderLen) < buf.length) :
    realDataLen frag buf (k * (frag - tunnelHeaderLen)) = frag := by
  obtain ⟨count, hcount⟩ := hdvd
  have hfull : (k + 1) * (frag - tunnelHeaderLen) ≤ buf.length := by
    rw [hcount, Nat.mul_comm] at hk ⊢
    exact Nat.mul_le_mul_left _ (Nat.lt_of_mul_lt_mul_left hk)
  rw [Nat.add_mul, Nat.one_mul] at hfull
  unfold realDataLen chunkLen
  split <;> omega

theorem length_handleTunPacket (hlow : tunnelHeaderLen < argv.frag.toNat)
    {uninit : Nat → Octets sessionIdLen} {id : UInt16} {buf : Bytes}
    (hfills : argv.pad ≠ 'N'.toUInt8 ∨ argv.frag.toNat - tunnelHeaderLen ∣ buf.length)
    {plain : Bytes} (h : plain ∈ handleTunPacket order argv uninit id buf) :
    plain.length = argv.frag.toNat := by
  unfold handleTunPacket at h
  split at h
  · cases h
  rw [fragmentLoop_eq (by omega) _ _ 0 (Nat.sub_le _ _)] at h
  obtain ⟨k, hk, rfl⟩ := List.mem_map.mp h
  rw [Nat.zero_add, length_clientFragment _ hlow.le]
  split
  next hpad =>
    have hdvd := hfills.resolve_left fun hno => hno hpad
    refine realDataLen_of_dvd hlow hdvd ?_
    rw [List.mem_range, Nat.sub_zero, fragmentCount] at hk
    have hpos : 0 < argv.frag.toNat - tunnelHeaderLen := by omega
    have hlast := Nat.mul_le_of_le_div _ _ _ (Nat.succ_le_of_lt hk)
    rw [Nat.succ_mul] at hlast
    omega
  next => rfl

/-- What the loop of `handle_tun_packet` leaves in the queue. -/
theorem queueFragments_uniform {len : Nat} (channel : Channel) (ip : Bytes)
    (allocated nodeAllocated : Nat → Bool) (plains : List Bytes)
    (hplains : ∀ plain ∈ plains, plain.length = len) (k : Nat) (seq : BitVec 64)
    (q : OutQueue) (hq : QueueUniform len q) :
    QueueUniform len
      (queueFragments aead order channel ip allocated nodeAllocated plains k seq q).2 := by
  induction plains generalizing k seq q with
  | nil => exact hq
  | cons plain rest ih =>
      unfold queueFragments
      split
      next => exact hq
      next pkt hpkt =>
        have hlength := Aead.length_datagram hpkt
        rw [hplains plain List.mem_cons_self] at hlength
        apply ih fun p hp => hplains p (List.mem_cons_of_mem plain hp)
        split
        · exact AllQueued.push hq hlength _ seq ip
        · exact hq

theorem length_payload_datagram (hfrag : 300 ≤ argv.frag ∧ argv.frag ≤ 1200)
    (payload : Payload) {key : Octets aeadKeyLen} {sessionId : Octets sessionIdLen}
    {seq : BitVec 64} {pkt : Bytes}
    (h : aead.datagram order key sessionId seq (payload.plain order argv) = some pkt) :
    pkt.length = wireLength argv.frag.toNat ↔ payload.Full argv := by
  rw [Aead.length_datagram h, wireLength_inj]
  exact payload.length_plain_iff hfrag

theorem trafficStep_uniform (hfrag : 300 ≤ argv.frag ∧ argv.frag ≤ 1200) {s : Traffic}
    (hq : QueueUniform argv.frag.toNat s.outq) {act : TrafficAct} (hact : act.Fills argv) :
    QueueUniform argv.frag.toNat (trafficStep aead order argv s act).1.outq ∧
      ∀ pkt ∈ (trafficStep aead order argv s act).2,
        pkt.length = wireLength argv.frag.toNat := by
  cases act with
  | tun uninit id buf allocated nodeAllocated =>
      have hlow : tunnelHeaderLen < argv.frag.toNat := by
        unfold tunnelHeaderLen
        omega
      have hplains : ∀ plain ∈ handleTunPacket order argv uninit id buf,
          plain.length = argv.frag.toNat := fun _ h => length_handleTunPacket hlow hact h
      exact ⟨queueFragments_uniform s.loop buf allocated nodeAllocated _ hplains 0 _ _ hq,
        fun _ h => absurd h List.not_mem_nil⟩
  | keepalive uninit =>
      refine ⟨hq, fun pkt h => ?_⟩
      have hsent := Option.mem_toList.mp h
      exact (length_payload_datagram hfrag (.keepalive uninit) hsent).mpr trivial
  | disconnect uninit => exact absurd hact id
  | rekey channel => exact ⟨hq, fun _ h => absurd h List.not_mem_nil⟩
  | swap => exact ⟨hq, fun _ h => absurd h List.not_mem_nil⟩
  | sendQueued =>
      obtain ⟨hleft, hpopped⟩ := AllQueued.pop hq
      refine ⟨hleft, fun pkt h => ?_⟩
      obtain ⟨node, hnode, rfl⟩ := List.mem_map.mp h
      exact hpopped node hnode
  | sendDummy =>
      unfold trafficStep
      dsimp only
      split
      · refine ⟨hq, fun pkt h => ?_⟩
        exact (length_payload_datagram hfrag .dummy (Option.mem_toList.mp h)).mpr trivial
      · exact ⟨hq, fun _ h => absurd h List.not_mem_nil⟩

end Lengths

/-- With any options, a run of the client whose packets from the tunnel are padded or cut
without a rest, and that sends no notice, sends datagrams of type data of one length only.
And of the four kinds a datagram has that length exactly when it is a dummy, a keepalive,
or a fragment that is padded or full. -/
theorem client_cbr_lengths_uniform (aead : Aead) (order : Endian) (argv : Params)
    (hfrag : 300 ≤ argv.frag ∧ argv.frag ≤ 1200) :
    (∀ channel acts, (∀ act ∈ acts, TrafficAct.Fills argv act) →
      ∀ pkt ∈ (run (trafficStep aead order argv) (Traffic.start channel) acts).2,
        pkt.length = 6 + 16 + 8 + argv.frag.toNat + 16) ∧
    ∀ payload key sessionId seq pkt,
      aead.datagram order key sessionId seq (Payload.plain order argv payload) = some pkt →
        (pkt.length = 6 + 16 + 8 + argv.frag.toNat + 16 ↔ payload.Full argv) := by
  constructor
  · intro channel acts hacts
    exact run_forall_events (trafficStep aead order argv) (fun _ act => act.Fills argv)
      (fun s => QueueUniform argv.frag.toNat s.outq) _
      (fun _ _ hq hact => (trafficStep_uniform hfrag hq hact).1)
      (fun _ _ hq hact => (trafficStep_uniform hfrag hq hact).2) (Traffic.start channel)
      acts (allQueued_init _) (Along.of_forall _ _ _ acts hacts)
  · intro payload key sessionId seq pkt h
    exact length_payload_datagram hfrag payload h

/-- Padded traffic: a packet of 100 bytes, a keepalive and a dummy. -/
theorem client_cbr_lengths_uniform_padded :
    let argv : Params := ⟨5, 300, 'Y'.toUInt8, 'Y'.toUInt8⟩
    let uninit := Octets.zero sessionIdLen
    let acts : List TrafficAct :=
      [.tun (fun _ => uninit) 1 (List.replicate 100 0) (fun _ => true) (fun _ => true),
        .sendQueued, .keepalive uninit, .sendDummy]
    let sent := (run (trafficStep .plainText .little argv)
      (Traffic.start ⟨Octets.zero aeadKeyLen, uninit⟩) acts).2
    sent.length = 3 ∧ ∀ pkt ∈ sent, pkt.length = 6 + 16 + 8 + argv.frag.toNat + 16 := by
  intro argv uninit acts sent
  exact ⟨by decide +kernel, (client_cbr_lengths_uniform .plainText .little argv
    (by decide)).1 _ acts (by decide)⟩

/-- Constant bit rate without padding: a packet of 20 bytes goes out with 90 bytes and a
dummy with 346. The notice has 1446 with any options. -/
theorem client_cbr_lengths_differ :
    let argv : Params := ⟨5, 300, 'Y'.toUInt8, 'N'.toUInt8⟩
    let uninit := Octets.zero sessionIdLen
    let acts : List TrafficAct :=
      [.tun (fun _ => uninit) 1 (List.replicate 20 0) (fun _ => true) (fun _ => true),
        .sendQueued, .sendDummy, .disconnect uninit]
    let sent := (run (trafficStep .plainText .little argv)
      (Traffic.start ⟨Octets.zero aeadKeyLen, uninit⟩) acts).2
    sent.map List.length = [90, 346, 1446, 1446, 1446] ∧
      ¬ ∀ pkt ∈ sent, pkt.length = 6 + 16 + 8 + argv.frag.toNat + 16 := by
  decide +kernel

end Chamlon.Client
