import Mathlib.Tactic
import Chamlon.Client.Inbound
import Chamlon.Tunnel.ServerLog

/-!
From the server's TUN device to the client's. Between two handshakes the client keeps a
journal of its own, and it ends early when a notice makes it exit. The packets it writes
are packets that reached the server for its address.
-/

namespace Chamlon.Tunnel

open Config Memory Machine Reassembly Client

/-- What the client writes to its TUN device. -/
def clientWrites (events : List InboundEvent) : List (Bytes × Nat) :=
  writesOf (events.filterMap fun | .reassembly event => some event | _ => none)

@[simp] theorem clientWrites_append (first second : List InboundEvent) :
    clientWrites (first ++ second) = clientWrites first ++ clientWrites second := by
  rw [clientWrites, List.filterMap_append, writesOf_append]
  rfl

@[simp] theorem clientWrites_accepted (sessionId : Octets sessionIdLen) (seq : BitVec 64)
    (plain : Bytes) (events : List InboundEvent) :
    clientWrites (.accepted sessionId seq plain :: events) = clientWrites events := rfl

theorem clientWrites_reassembly (events : List ReassemblyEvent) :
    clientWrites (events.map .reassembly) = writesOf events := by
  unfold clientWrites
  rw [List.filterMap_map]
  exact congrArg writesOf List.filterMap_some

/-- Everything but a rehandshake. -/
def InSession : InboundAct → Prop
  | .rehandshake _ _ => False
  | _ => True

instance : DecidablePred InSession
  | .udp _ _ => inferInstanceAs (Decidable True)
  | .sweep _ => inferInstanceAs (Decidable True)
  | .rehandshake _ _ => inferInstanceAs (Decidable False)

section Journal

variable {na : Sodium} {order : Endian}

/-- What the code after `update_window` does to the table is a step of the reassembly. -/
theorem udpAccepted_reassembly (order : Endian) (env : UdpEnv) (plain : Bytes)
    (s : Receiver) :
    let stepped := reassemblyStep .client order env.stack s.table (.plain env.now plain)
    clientWrites (udpAccepted order env plain s).2 = writesOf stepped.2 ∧
      (udpAccepted order env plain s).1.table = stepped.1 := by
  dsimp only [reassemblyStep, handlePlain]
  unfold udpAccepted
  cases udpPlain order env.stack env.now plain s.table with
  | tooShort => exact ⟨rfl, rfl⟩
  | dummy => exact ⟨rfl, rfl⟩
  | keepalive => exact ⟨rfl, rfl⟩
  | disconnect => exact ⟨rfl, rfl⟩
  | fragment outcome => exact ⟨clientWrites_reassembly outcome.events, rfl⟩

theorem openPacket_eq_some {session : ClientSession} {packet plain : Bytes}
    (h : openPacket na session packet = some plain) :
    ∃ ct, na.decrypt session.kRecv session.sessionId (udpSeq packet) ct = some plain := by
  by_cases haddressed : Addressed session packet
  · rw [openPacket_of_addressed haddressed] at h
    exact ⟨_, h⟩
  · rw [openPacket_of_not_addressed haddressed] at h
    cases h

/-- A run without rehandshake, from the window and the table it starts with. -/
theorem inSession_journal {s : Receiver} {acts : List InboundAct}
    (h : ∀ act ∈ acts, InSession act) :
    ∃ journal, Journaled na .client order s.srv.session.kRecv s.srv.session.sessionId
      s.srv.rw s.table (clientWrites (run (inboundStep na order) s acts).2) journal := by
  induction acts generalizing s with
  | nil => exact ⟨[], journaled_nil⟩
  | cons act rest ih =>
      have hrest : ∀ act ∈ rest, InSession act := fun a ha =>
        h a (List.mem_cons_of_mem act ha)
      rw [Machine.run, clientWrites_append]
      by_cases htaken : Taken na s act
      · unfold inboundStep
        split
        · exact ih hrest
        cases act with
        | udp env packet =>
            obtain ⟨plain, hplain⟩ := Option.isSome_iff_exists.mp htaken.1
            obtain ⟨ct, hct⟩ := openPacket_eq_some hplain
            have hstep : handleUdpPacket na order env packet s =
                let result := udpAccepted order env plain
                  (s.record (udpSeq (packet.take bufferSize)))
                (result.1, .accepted s.srv.session.sessionId
                  (udpSeq (packet.take bufferSize)) plain :: result.2) := by
              rw [handleUdpPacket_eq, hplain]
              dsimp only
              rw [if_neg (by rw [htaken.2]; exact Bool.false_ne_true)]
            obtain ⟨hsession, hrw⟩ := udpAccepted_srv order env plain
              (s.record (udpSeq (packet.take bufferSize)))
            obtain ⟨hwrites, htable⟩ := udpAccepted_reassembly order env plain
              (s.record (udpSeq (packet.take bufferSize)))
            rw [Receiver.record_table] at hwrites htable
            rw [Receiver.record_session] at hsession
            rw [Receiver.record_rw] at hrw
            dsimp only
            rw [hstep]
            dsimp only
            rw [clientWrites_accepted, hwrites]
            obtain ⟨journal, hjournal⟩ := @ih (udpAccepted order env plain
              (s.record (udpSeq (packet.take bufferSize)))).1 hrest
            rw [hsession, hrw, htable] at hjournal
            exact ⟨_, hjournal.plain env.stack env.now htaken.2 hct⟩
        | sweep now =>
            obtain ⟨journal, hjournal⟩ :=
              @ih { s with table := sweepReassemblyTable now s.table } hrest
            exact ⟨_, hjournal.sweep now⟩
        | rehandshake new now => exact absurd (h _ List.mem_cons_self) id
      · rw [inboundStep_of_not_taken htaken]
        exact ih hrest

end Journal

/-- A server sends what reaches it for the address of a session, with keepalives, dummies
and notices in between, while it serves others; the 16-bit ids of these packets do not
repeat, and the counter of the session does not wrap. The client of the session listens,
does not shake hands again, and starts with no active entry in its reassembly table.
Whatever the network delivers to the client, in any order, changed, repeated, invented or
not at all: if nothing opens that the server has not sealed for the session, the packets
that the client writes are, one for one and byte for byte, packets that the server has
read and whose destination is the address of the session. -/
theorem downstream_integrity (aead : Aead) (na : Sodium) (keys : Server.ServerKeys)
    (order : Endian) (sender : Sender) (hside : sender.side = .server) (s : Server.Traffic)
    (i : Server.Slot) (ip : Octets 4) (sent : List (Server.SendEnv × Server.TrafficAct))
    (client : Receiver) (received : List InboundAct)
    (hsending : Along (serverLogStep aead na keys order sender i)
      (Sending na keys order sender i client.srv.session.kRecv client.srv.session.sessionId
        ip) s sent)
    (hids : ((sent.filterMap (packetFor ip)).map Packet.id).Nodup)
    (hroom : (s.sessions i).sendSeq.toNat + 1600 * sent.length < 2 ^ 64)
    (hclean : ∀ k, (client.table k).isActive = false)
    (hreceived : ∀ act ∈ received, InSession act)
    (hauth : Authentic na sender order client.srv.session.kRecv
      client.srv.session.sessionId
      (run (serverLogStep aead na keys order sender i) s sent).2) :
    (clientWrites (run (inboundStep na order) client received).2).Subperm
      ((sent.filterMap (packetFor ip)).map fun p => (p.bytes, p.bytes.length)) := by
  obtain ⟨journal, hjournal⟩ := inSession_journal (s := client) hreceived
  have hpeer : sender.side.peer = .client := by
    rw [hside]
    rfl
  rw [← hpeer] at hjournal
  exact hjournal.integrity hclean (serverLog_runLog aead hside s sent hsending hroom) hids
    hauth

section Example

/-- A session without padding in the first slot, a packet of 20 bytes for its address and
the client of the session. -/
def plainServer : Sender :=
  ⟨.server, ⟨5, 400, 'N'.toUInt8, 'N'.toUInt8⟩, fun _ _ => Octets.zero sessionIdLen,
    by decide, by decide⟩

def servedPacket : Packet :=
  ⟨1, List.replicate 16 7 ++ [10, 10, 0, 2], by decide, by decide⟩

def listener : Receiver :=
  .start ⟨Octets.fill sessionIdLen 9, Octets.zero aeadKeyLen, Octets.zero aeadKeyLen,
    Server.vpnIpOf 0⟩ 0

def servedTraffic : Server.Traffic where
  sessions := Function.update Server.noSessions 0
    { Server.Session.zero with
      active := true
      sessionId := listener.srv.session.sessionId
      vpnIp := Server.vpnIpOf 0
      argv := plainServer.argv }
  queues _ := Queue.outQueueInit

/-- A keepalive takes the number 0, the packet goes out under the number 1; a packet for
another address goes nowhere. -/
def servedActs : List (Server.SendEnv × Server.TrafficAct) :=
  let world : Server.SendEnv := ⟨Octets.zero sessionIdLen, fun _ => true, fun _ => true⟩
  [(world, .table (.server (.maintenance 10))), (world, .outbound 1 servedPacket.bytes),
    (world, .outbound 2 (List.replicate 20 7))]

def servedPlain : Bytes := (Cargo.fragment servedPacket 0).plain plainServer .little

def servedDatagram : Bytes :=
  (Aead.plainText.datagram .little listener.srv.session.kRecv
    listener.srv.session.sessionId 1 servedPlain).getD []

/-- A forged datagram, the real one and a copy of it. -/
def servedDeliveries : List InboundAct :=
  let env : UdpEnv := ⟨0, fun _ => 0, fun _ => 0⟩
  [.udp env (servedDatagram ++ [1]), .udp env servedDatagram, .udp env servedDatagram]

/-- The packet is written once. -/
theorem downstream_integrity_small :
    let na := onlyOpens listener.srv.session.sessionId 1
      (servedPlain ++ List.replicate 16 0) servedPlain
    let writes := clientWrites (run (inboundStep na .little) listener servedDeliveries).2
    writes = [(servedPacket.bytes, 20)] ∧
      writes.Subperm ((servedActs.filterMap (packetFor (Server.vpnIpOf 0))).map fun p =>
        (p.bytes, p.bytes.length)) := by
  intro na writes
  let keys : Server.ServerKeys := ⟨Octets.zero 64, true, Octets.zero privkeyLen⟩
  refine ⟨by decide +kernel, ?_⟩
  have hlog : (1, .fragment servedPacket 0) ∈
      (run (serverLogStep .plainText na keys .little plainServer 0) servedTraffic
        servedActs).2 := by
    decide +kernel
  exact downstream_integrity .plainText na keys .little plainServer rfl servedTraffic 0
    (Server.vpnIpOf 0) servedActs listener servedDeliveries (by decide +kernel)
    (by decide +kernel) (by decide +kernel) (by decide +kernel) (by decide +kernel)
    (onlyOpens_authentic _ _ hlog)

end Example

end Chamlon.Tunnel
