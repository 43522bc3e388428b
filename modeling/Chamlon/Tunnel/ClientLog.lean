import Mathlib.Tactic
import Chamlon.Client.Traffic
import Chamlon.Tunnel.Journal

/-!
What the client hands to `aead_encrypt` in one session, with the numbers it takes from
`send_seq`. The machine is that of the client's traffic; beside the datagrams it sends,
each step has its entries in the log. A fragment that is lost in the queue is in the log
all the same.
-/

namespace Chamlon.Tunnel

open Config Memory Machine Reassembly Queue Client

/-- What the client does between two handshakes. IP packets with less than 20 bytes are
dropped by `handle_tun_packet` and `read` returns at most 1600. -/
inductive ClientAct where
  | tun (packet : Packet) (allocated nodeAllocated : Nat → Bool)
  | keepalive (uninit : Octets sessionIdLen)
  | disconnect (uninit : Octets sessionIdLen)
  | sendQueued
  | sendDummy

def ClientAct.traffic (sender : Sender) : ClientAct → TrafficAct
  | .tun p allocated nodeAllocated =>
      .tun (sender.uninit p.id) p.id p.bytes allocated nodeAllocated
  | .keepalive uninit => .keepalive uninit
  | .disconnect uninit => .disconnect uninit
  | .sendQueued => .sendQueued
  | .sendDummy => .sendDummy

/-- The packet that was read from the TUN device. -/
def ClientAct.packet? : ClientAct → Option Packet
  | .tun p _ _ => some p
  | _ => none

section Machine

variable (aead : Aead) (order : Endian)

/-- How many of these plaintexts the loop of `handle_tun_packet` hands to `aead_encrypt`:
one that fails ends it. -/
def handed (channel : Channel) : List Bytes → BitVec 64 → Nat
  | [], _ => 0
  | plain :: rest, seq =>
      match aead.datagram order channel.kSend channel.sessionId seq plain with
      | none => 1
      | some _ => handed channel rest (seq + 1) + 1

/-- The entries of one step in the log. -/
def clientEntries (sender : Sender) (s : Client.Traffic) : ClientAct → Log
  | .tun p _ _ =>
      fragmentLog p s.sendSeq (handed aead order s.loop (sender.fragments order p) s.sendSeq)
  | .keepalive uninit =>
      [(s.sendSeq, .control (Payload.plain order sender.argv (.keepalive uninit)))]
  | .disconnect uninit =>
      [(s.sendSeq, .control (Payload.plain order sender.argv (.disconnect uninit)))]
  | .sendQueued => []
  | .sendDummy =>
      if sender.argv.cbr = 'Y'.toUInt8 then
        [(s.sendSeq, .control (Payload.plain order sender.argv .dummy))]
      else []

def clientLogStep (sender : Sender) (s : Client.Traffic) (act : ClientAct) :
    Client.Traffic × Log :=
  ((Client.trafficStep aead order sender.argv s (act.traffic sender)).1,
    clientEntries aead order sender s act)

/-- What the client has handed to `aead_encrypt` after a handshake. -/
def clientLog (sender : Sender) (channel : Channel) (acts : List ClientAct) : Log :=
  (run (clientLogStep aead order sender) (Client.Traffic.start channel) acts).2

end Machine

section Entries

variable {aead : Aead} {order : Endian}

theorem handed_le (channel : Channel) (plains : List Bytes) (seq : BitVec 64) :
    handed aead order channel plains seq ≤ plains.length := by
  induction plains generalizing seq with
  | nil => exact le_rfl
  | cons plain rest ih =>
      unfold handed
      split
      · exact Nat.succ_le_succ (Nat.zero_le _)
      · exact Nat.succ_le_succ (ih _)

/-- The counter moves by what was handed over. -/
theorem queueFragments_seq (channel : Channel) (ip : Bytes)
    (allocated nodeAllocated : Nat → Bool) (plains : List Bytes) (k : Nat) (seq : BitVec 64)
    (q : OutQueue) :
    (queueFragments aead order channel ip allocated nodeAllocated plains k seq q).1 =
      seq + BitVec.ofNat 64 (handed aead order channel plains seq) := by
  induction plains generalizing k seq q with
  | nil => exact (BitVec.add_zero seq).symm
  | cons plain rest ih =>
      unfold queueFragments handed
      cases aead.datagram order channel.kSend channel.sessionId seq plain with
      | none => rfl
      | some pkt =>
          dsimp only
          rw [ih, BitVec.add_assoc, BitVec.ofNat_add, BitVec.add_comm 1]
          rfl

end Entries

section Client

variable {aead : Aead} {order : Endian} {sender : Sender} (hside : sender.side = .client)

include hside

theorem clientLogStep_stepLog {s : Client.Traffic} (h : s.sendSeq.toNat + 1600 < 2 ^ 64)
    (act : ClientAct) :
    StepLog sender order s.sendSeq.toNat
      (clientLogStep aead order sender s act).1.sendSeq.toNat act.packet?
      (clientLogStep aead order sender s act).2 := by
  obtain ⟨hlow, hhigh⟩ := sender.frag_toNat
  have hfrag : sender.argv.frag.toNat ≤ 1400 := hhigh.trans (by decide)
  have hheader : tunnelHeaderLen ≤ sender.argv.frag.toNat := by
    unfold tunnelHeaderLen
    omega
  cases act with
  | tun p allocated nodeAllocated =>
      have hplains : sender.fragments order p =
          handleTunPacket order sender.argv (sender.uninit p.id) p.id p.bytes := by
        unfold Sender.fragments
        rw [hside]
      unfold clientLogStep clientEntries ClientAct.traffic Client.trafficStep
      dsimp only
      rw [← hplains, queueFragments_seq]
      exact stepLog_fragments h (handed_le _ _ _)
  | keepalive uninit =>
      exact stepLog_control h (control_valid sender _ uninit 0x88 hheader hfrag (by decide))
  | disconnect uninit =>
      exact stepLog_control h (control_valid sender _ uninit 0x11 (by decide) (by decide)
        (by decide))
  | sendQueued => exact stepLog_nil sender _ _
  | sendDummy =>
      unfold clientLogStep clientEntries ClientAct.traffic Client.trafficStep
      dsimp only
      split
      · exact stepLog_control h (control_valid sender _ _ 0x99 hheader hfrag (by decide))
      · exact stepLog_nil sender _ _

/-- The log of a session. -/
theorem clientLog_runLog (aead : Aead) (order : Endian) (channel : Channel)
    (acts : List ClientAct) (hlength : acts.length < 2 ^ 53) :
    RunLog sender order 0 (acts.filterMap ClientAct.packet?)
      (clientLog aead order sender channel acts) := by
  have hroom : 0 + 1600 * acts.length < 2 ^ 64 := by omega
  exact run_runLog (clientLogStep aead order sender) (fun s => s.sendSeq.toNat)
    ClientAct.packet? (fun _ _ => True)
    (fun s act _ hnow => ⟨_, clientLogStep_stepLog hside hnow act, fun _ _ => rfl⟩)
    (Client.Traffic.start channel) acts
    (Along.of_forall _ (fun _ => True) _ acts fun _ _ => trivial) hroom

end Client

end Chamlon.Tunnel
