import Mathlib.Tactic
import Chamlon.Datagram
import Chamlon.Queue.Basic
import Chamlon.Server.IdleExpiry
import Chamlon.Server.SessionTable

/-!
The datagrams of type data that the server sends, from every place that sends one:
`send_outbound_packet` for the fragments of an IP packet, `execute_send` for what is
queued and for dummies, `send_control_packet`, and the keepalives of
`perform_maintenance`. The table moves as before; beside it each slot has the contents
of its queue.

A session with constant bit rate is to see datagrams of one length. All senders pad to
`argv_FRAG` but one: `send_keepalive_to_client` encrypts a bare tunnel header.
-/

namespace Chamlon.Server

open Config Memory Machine Reassembly Queue

/-- A datagram of type data, with the slot and the options of the session it went to. -/
structure Sent where
  slot : Slot
  argv : Params
  pkt : Bytes
deriving DecidableEq

/-- What the calls find on the stack and get from `malloc`. -/
structure SendEnv where
  uninit : Octets sessionIdLen
  allocated : Nat → Bool
  nodeAllocated : Nat → Bool

/-- The table and the queues behind `outq`. -/
structure Traffic where
  sessions : Sessions
  queues : Slot → OutQueue

def Traffic.start : Traffic := ⟨noSessions, fun _ => outQueueInit⟩

section Senders

variable (aead : Aead) (order : Endian) (env : SendEnv)

/-- `send_control_packet`, with nothing when it returns early. The header's session id is
not initialised. -/
def sendControlPacket (ctrlType : Nat) (s : Session) : Option Bytes :=
  let frag := s.argv.frag.toNat
  let header : TunnelHeader := ⟨1, 1, 1, UInt16.ofNat ctrlType⟩
  if !s.active then none
  else if (maxFrag : Int) < s.argv.frag ∨ s.argv.frag < 64 then none
  else
    (aead.datagram order s.kSend s.sessionId s.sendSeq
      ((encodeHeader order header env.uninit).val ++
        List.replicate (frag - tunnelHeaderLen) 0x77)).filter fun pkt =>
          decide (pkt.length ≤ bufferSize)

/-- The first `argv_FRAG` bytes of `dummy_payload` as `prepare_dummy_static_parts` left
it. -/
def dummyPlain (argv : Params) : Bytes :=
  let fragLen := if (maxFrag : Int) < argv.frag ∨ argv.frag < 64 then 1024
    else argv.frag.toNat
  let header : TunnelHeader := ⟨1, 1, 1, UInt16.ofNat pktDummy⟩
  ((encodeHeader order header (Octets.zero sessionIdLen)).val ++
    List.replicate (fragLen - tunnelHeaderLen) 0x99).take argv.frag.toNat

/-- What `send_keepalive_to_client` encrypts, the bare header. -/
def keepalivePlain : Bytes :=
  let header : TunnelHeader := ⟨0, 0, 0, UInt16.ofNat pktCtrlKeepalive⟩
  (encodeHeader order header (Octets.zero sessionIdLen)).val

/-- `send_keepalive_to_client`. -/
def sendKeepaliveToClient (allocated : Bool) (s : Session) : Option Bytes :=
  (aead.datagram order s.kSend s.sessionId s.sendSeq (keepalivePlain order)).filter
    fun _ => allocated

/-- `send_outbound_packet`: a fragment is queued or sent at once. -/
def sendOutboundPacket (s : Session) (ip plain : Bytes) (seq : BitVec 64) (k : Nat)
    (q : OutQueue) : OutQueue × List Bytes :=
  match aead.datagram order s.kSend s.sessionId seq plain with
  | none => (q, [])
  | some pkt =>
      if !env.allocated k then (q, [])
      else if s.argv.cbr = 'Y'.toUInt8 then
        (if s.outq then (packetQueuePush (env.nodeAllocated k) pkt seq ip q).1 else q, [])
      else (q, [pkt])

/-- The fragments of one IP packet, the `k`-th of them first. -/
def sendOutboundPackets (s : Session) (ip : Bytes) :
    List Bytes → BitVec 64 → Nat → OutQueue → OutQueue × List Bytes
  | [], _, _, q => (q, [])
  | plain :: rest, seq, k, q =>
      let first := sendOutboundPacket aead order env s ip plain seq k q
      let others := sendOutboundPackets s ip rest (seq + 1) (k + 1) first.1
      (others.1, first.2 ++ others.2)

/-- `handle_outbound_tun_buf`. -/
def outboundTraffic (id : UInt16) (buf : Bytes) (s : Traffic) : Traffic × List Sent :=
  if buf.length < 20 then (s, [])
  else
    match sessionByVpnip (field 4 buf 16) s.sessions with
    | none => (s, [])
    | some i =>
        let session := s.sessions i
        let result := sendOutboundPackets aead order env session buf
          (handleOutboundTunBuf order session.argv id buf) session.sendSeq 0 (s.queues i)
        (⟨sendOutbound order id buf s.sessions, Function.update s.queues i result.1⟩,
          result.2.map fun pkt => ⟨i, session.argv, pkt⟩)

/-- `while ((node = out_queue_pop(s->outq)) != NULL)`. -/
def popAll : Nat → OutQueue → List OutNode
  | 0, _ => []
  | fuel + 1, q =>
      match poppedNodes (outQueuePop q).2 with
      | [] => []
      | node :: _ => node :: popAll fuel (outQueuePop q).1

/-- The session takes one sequence number. A control packet takes it behind the check of
the fragment size, which the options of a session always pass. -/
def Session.drawSeq (s : Session) : Session := { s with sendSeq := s.sendSeq + 1 }

/-- `execute_send` of a session with constant bit rate: one queued packet or a dummy. -/
def executeSendCbr (i : Slot) (s : Traffic) : Traffic × List Sent :=
  let session := s.sessions i
  let popped := outQueuePop (s.queues i)
  match poppedNodes popped.2 with
  | node :: _ =>
      ({ s with queues := Function.update s.queues i popped.1 },
        [⟨i, session.argv, node.pkt⟩])
  | [] =>
      ({ s with sessions := Function.update s.sessions i session.drawSeq },
        ((aead.datagram order session.kSend session.sessionId session.sendSeq
          (dummyPlain order session.argv)).map (⟨i, session.argv, ·⟩)).toList)

/-- `execute_send` of another session: all that is queued, or a keepalive after a time of
silence. -/
def executeSendDirect (now : Int) (i : Slot) (s : Traffic) : Traffic × List Sent :=
  let session := s.sessions i
  let q := s.queues i
  let nodes := popAll ((q .high).length + (q .normal).length) q
  let queues := Function.update s.queues i outQueueInit
  let kept := { session.drawSeq with lastActivityKeepalive := now }
  if nodes.isEmpty ∧ keepaliveIntervalSec ≤ now - session.lastActivity ∧
      keepaliveIntervalSec ≤ now - session.lastActivityKeepalive then
    (⟨Function.update s.sessions i kept, queues⟩,
      ((sendControlPacket aead order env pktCtrlKeepalive session).map
        (⟨i, session.argv, ·⟩)).toList)
  else (⟨s.sessions, queues⟩, nodes.map fun node => ⟨i, session.argv, node.pkt⟩)

/-- `execute_send`. Without a queue it would read through `NULL`. -/
def executeSend (now : Int) (sessionId : Octets sessionIdLen) (s : Traffic) :
    Traffic × List Sent :=
  match sessionById sessionId s.sessions with
  | none => (s, [])
  | some i =>
      if !(s.sessions i).outq then (s, [])
      else if (s.sessions i).argv.cbr = 'Y'.toUInt8 then executeSendCbr aead order i s
      else executeSendDirect aead order env now i s

/-- The control packets of a loop over the slots. -/
def controlPackets (ctrlType : Nat) (chosen : Session → Bool) (sessions : Sessions) :
    List Sent :=
  (List.finRange maxClients).filterMap fun i =>
    if chosen (sessions i) then
      (sendControlPacket aead order env ctrlType (sessions i)).map
        (⟨i, (sessions i).argv, ·⟩)
    else none

/-- The keepalives of `perform_maintenance`. -/
def keepalivePackets (now : Int) (sessions : Sessions) : List Sent :=
  (List.finRange maxClients).filterMap fun i =>
    if (sessions i).keepaliveDue now then
      (sendKeepaliveToClient aead order (env.allocated i) (sessions i)).map
        (⟨i, (sessions i).argv, ·⟩)
    else none

/-- The datagrams of type data that an operation on the table sends. -/
def tableSent (sessions : Sessions) : TableOp → List Sent
  | .server (.maintenance now) =>
      controlPackets aead order env pktCtrlDisconnect (·.expired now) sessions ++
        keepalivePackets aead order env now (cleanupExpiredSessions now sessions).1
  | _ => []

end Senders

/-- What sending does to a slot: it takes numbers, and with constant bit rate nothing
else. -/
def Sends (before after : Session) : Prop :=
  ∃ sendSeq beat, after =
      { before with sendSeq := sendSeq, lastActivityKeepalive := beat } ∧
    (before.argv.cbr = 'Y'.toUInt8 → beat = before.lastActivityKeepalive)

theorem Sends.refl (s : Session) : Sends s s := ⟨_, _, rfl, fun _ => rfl⟩

theorem Sends.update {sessions : Sessions} {i : Slot} {after : Session}
    (h : Sends (sessions i) after) (j : Slot) :
    Sends (sessions j) (Function.update sessions i after j) := by
  by_cases hj : j = i
  · rw [hj, Function.update_self]
    exact h
  · rw [Function.update_of_ne hj]
    exact .refl (sessions j)

section Senders

variable (aead : Aead) (order : Endian) (env : SendEnv) (t : Traffic) (j : Slot)

theorem outboundTraffic_sends (id : UInt16) (buf : Bytes) :
    Sends (t.sessions j) ((outboundTraffic aead order env id buf t).1.sessions j) := by
  unfold outboundTraffic sendOutbound
  by_cases hshort : buf.length < 20
  · rw [if_pos hshort]
    exact .refl (t.sessions j)
  rw [if_neg hshort, if_neg hshort]
  cases sessionByVpnip (field 4 buf 16) t.sessions with
  | none => exact .refl (t.sessions j)
  | some i => exact Sends.update ⟨_, _, rfl, fun _ => rfl⟩ j

theorem executeSend_sends (now : Int) (sessionId : Octets sessionIdLen) :
    Sends (t.sessions j) ((executeSend aead order env now sessionId t).1.sessions j) := by
  unfold executeSend
  cases sessionById sessionId t.sessions with
  | none => exact .refl (t.sessions j)
  | some i =>
      dsimp only
      split
      · exact .refl (t.sessions j)
      split
      · unfold executeSendCbr
        dsimp only
        split
        · exact .refl (t.sessions j)
        · exact Sends.update ⟨_, _, rfl, fun _ => rfl⟩ j
      next hcbr =>
        unfold executeSendDirect
        dsimp only
        split
        · exact Sends.update ⟨_, now, rfl, fun h => absurd h hcbr⟩ j
        · exact .refl (t.sessions j)

end Senders

theorem Sends.sameSession {before after : Session} (h : Sends before after) :
    SameSession before after := by
  obtain ⟨sendSeq, beat, rfl, _⟩ := h
  exact ⟨rfl, rfl, rfl, rfl, rfl, rfl, rfl, rfl⟩

theorem Sends.lastActivity {before after : Session} (h : Sends before after) :
    after.lastActivity = before.lastActivity := by
  obtain ⟨sendSeq, beat, rfl, _⟩ := h
  rfl

/-- With constant bit rate sending does not count as a keepalive. -/
theorem Sends.beat {before after : Session} (h : Sends before after)
    (hcbr : before.argv.cbr = 'Y'.toUInt8) :
    after.lastActivityKeepalive = before.lastActivityKeepalive := by
  obtain ⟨sendSeq, beat, rfl, hbeat⟩ := h
  exact hbeat hcbr

/-- A handshake makes a new queue, and a session without queue has nothing in it. -/
def renewQueues (result : Sessions × List Event) (queues : Slot → OutQueue) :
    Slot → OutQueue := fun i =>
  if i ∈ installedSlots result.2 ∨ (result.1 i).outq = false then outQueueInit else queues i

inductive TrafficAct where
  | table (op : TableOp)
  | outbound (id : UInt16) (buf : Bytes)
  | executeSend (now : Int) (sessionId : Octets sessionIdLen)
  /-- `graceful_shutdown_drain_sessions`. -/
  | drain

def trafficStep (aead : Aead) (na : Sodium) (keys : ServerKeys) (order : Endian)
    (s : Traffic) (act : SendEnv × TrafficAct) : Traffic × List Sent :=
  match act.2 with
  | .table op =>
      let result := tableStep na keys order s.sessions op
      (⟨result.1, renewQueues result s.queues⟩, tableSent aead order act.1 s.sessions op)
  | .outbound id buf => outboundTraffic aead order act.1 id buf s
  | .executeSend now sessionId => executeSend aead order act.1 now sessionId s
  | .drain =>
      ({ s with sessions := fun i =>
          if (s.sessions i).active then (s.sessions i).drawSeq else s.sessions i },
        controlPackets aead order act.1 pktCtrlDisconnect (·.active) s.sessions)

section Lengths

variable {aead : Aead} {order : Endian} {env : SendEnv} {argv : Params} {pkt : Bytes}

theorem Params.Valid.header_le (h : Params.Valid argv) :
    tunnelHeaderLen ≤ argv.frag.toNat := by
  have hfrag := h.frag
  unfold minFragParam maxFragParam at hfrag
  unfold tunnelHeaderLen
  omega

theorem length_sendControlPacket {ctrlType : Nat} {s : Session}
    (hvalid : Params.Valid s.argv)
    (h : sendControlPacket aead order env ctrlType s = some pkt) :
    pkt.length = wireLength s.argv.frag.toNat := by
  unfold sendControlPacket at h
  dsimp only at h
  split at h
  · cases h
  split at h
  · cases h
  have hsealed := Aead.length_datagram (Option.filter_eq_some_iff.mp h).1
  rw [length_header_fill _ _ _ _ hvalid.header_le] at hsealed
  exact hsealed

theorem length_dummyPlain (hvalid : Params.Valid argv) :
    (dummyPlain order argv).length = argv.frag.toNat := by
  have hrange : ¬((maxFrag : Int) < argv.frag ∨ argv.frag < 64) := by
    have hfrag := hvalid.frag
    unfold minFragParam maxFragParam at hfrag
    unfold maxFrag
    omega
  unfold dummyPlain
  dsimp only
  rw [if_neg hrange, List.length_take, length_header_fill _ _ _ _ hvalid.header_le, min_self]

theorem sendKeepaliveToClient_eq_none_iff {allocated : Bool} {s : Session} :
    sendKeepaliveToClient aead order allocated s = none ↔ allocated = false ∨
      aead.aeadEncrypt s.kSend s.sessionId s.sendSeq (keepalivePlain order) = none := by
  unfold sendKeepaliveToClient Aead.datagram
  rw [Option.filter_eq_none_iff]
  cases aead.aeadEncrypt s.kSend s.sessionId s.sendSeq (keepalivePlain order) with
  | none => simp
  | some out => simp

theorem length_sendKeepaliveToClient {allocated : Bool} {s : Session}
    (h : sendKeepaliveToClient aead order allocated s = some pkt) :
    pkt.length = wireLength tunnelHeaderLen := by
  have hsealed := Aead.length_datagram (Option.filter_eq_some_iff.mp h).1
  rw [keepalivePlain, Octets.length_val] at hsealed
  exact hsealed

/-- With constant bit rate the fragments go into the queue, all of one length. -/
theorem sendOutboundPackets_cbr {s : Session} (hcbr : s.argv.cbr = 'Y'.toUInt8)
    (ip : Bytes) (plains : List Bytes)
    (hplains : ∀ plain ∈ plains, plain.length = s.argv.frag.toNat) (seq : BitVec 64)
    (k : Nat) (q : OutQueue) (hq : QueueUniform s.argv.frag.toNat q) :
    QueueUniform s.argv.frag.toNat
        (sendOutboundPackets aead order env s ip plains seq k q).1 ∧
      (sendOutboundPackets aead order env s ip plains seq k q).2 = [] := by
  induction plains generalizing seq k q with
  | nil => exact ⟨hq, rfl⟩
  | cons plain rest ih =>
      have hfirst : QueueUniform s.argv.frag.toNat
            (sendOutboundPacket aead order env s ip plain seq k q).1 ∧
          (sendOutboundPacket aead order env s ip plain seq k q).2 = [] := by
        unfold sendOutboundPacket
        split
        · exact ⟨hq, rfl⟩
        next pkt hpkt =>
          have hlength := Aead.length_datagram hpkt
          rw [hplains plain List.mem_cons_self] at hlength
          split
          · exact ⟨hq, rfl⟩
          refine ⟨?_, rfl⟩
          dsimp only
          split
          · exact Queue.AllQueued.push hq hlength _ seq ip
          · exact hq
      obtain ⟨hothers, hnone⟩ := ih (fun p hp => hplains p (List.mem_cons_of_mem plain hp))
        (seq + 1) (k + 1) _ hfirst.1
      unfold sendOutboundPackets
      dsimp only
      rw [hfirst.2, hnone]
      exact ⟨hothers, rfl⟩

theorem length_handleOutboundTunBuf (hvalid : Params.Valid argv)
    (hcbr : argv.cbr = 'Y'.toUInt8) (id : UInt16) (buf plain : Bytes)
    (h : plain ∈ handleOutboundTunBuf order argv id buf) :
    plain.length = argv.frag.toNat := by
  unfold handleOutboundTunBuf at h
  split at h
  · cases h
  · obtain ⟨offset, _, hplain⟩ := mem_fragmentLoop h
    rw [hplain]
    exact length_serverFragment hvalid.header_le hcbr

end Lengths

/-- The options of the sessions are in range, and the queue of a session with constant bit
rate holds packets of its length. -/
structure TrafficOk (s : Traffic) : Prop where
  table : TableOk false s.sessions
  queue : ∀ i, (s.sessions i).active = true → (s.sessions i).argv.cbr = 'Y'.toUInt8 →
    QueueUniform (s.sessions i).argv.frag.toNat (s.queues i)

theorem trafficOk_start : TrafficOk .start where
  table := noSessions_tableOk false
  queue _ h := Bool.noConfusion h

/-- A datagram of the length that constant bit rate asks for. -/
def Sent.Uniform (e : Sent) : Prop :=
  e.argv.cbr = 'Y'.toUInt8 → e.pkt.length = 6 + 16 + 8 + e.argv.frag.toNat + 16

instance (e : Sent) : Decidable e.Uniform :=
  inferInstanceAs (Decidable (_ → _))

theorem Sent.uniform_of_length {e : Sent} (h : e.pkt.length = wireLength e.argv.frag.toNat) :
    e.Uniform :=
  fun _ => h

section Steps

variable {aead : Aead} {order : Endian} {env : SendEnv} {s : Traffic} {i : Slot}

/-- Sessions that stay as they were, with their queues. -/
theorem TrafficOk.same {after : Traffic} (h : TrafficOk s)
    (hslots : ∀ j, SameSession (s.sessions j) (after.sessions j))
    (hqueues : ∀ j, (after.sessions j).active = true →
      (after.sessions j).argv.cbr = 'Y'.toUInt8 →
      QueueUniform (after.sessions j).argv.frag.toNat (after.queues j)) : TrafficOk after :=
  ⟨h.table.settled fun j => Or.inl (hslots j), hqueues⟩

theorem TrafficOk.queue_of_same {sessions : Sessions} (h : TrafficOk s)
    (hslots : ∀ j, SameSession (s.sessions j) (sessions j)) (j : Slot)
    (hactive : (sessions j).active = true) (hcbr : (sessions j).argv.cbr = 'Y'.toUInt8) :
    QueueUniform (sessions j).argv.frag.toNat (s.queues j) := by
  have hsame := hslots j
  rw [hsame.active] at hactive
  rw [hsame.argv] at hcbr ⊢
  exact h.queue j hactive hcbr

theorem sameSession_update {sessions : Sessions} {new : Session}
    (h : SameSession (sessions i) new) (j : Slot) :
    SameSession (sessions j) (Function.update sessions i new j) := by
  by_cases hj : j = i
  · rw [hj, Function.update_self]
    exact h
  · rw [Function.update_of_ne hj]
    exact .refl (sessions j)

/-- A new queue in one slot. -/
theorem TrafficOk.update_queue {sessions : Sessions} {q : OutQueue} (h : TrafficOk s)
    (hslots : ∀ j, SameSession (s.sessions j) (sessions j))
    (hq : (s.sessions i).active = true → (s.sessions i).argv.cbr = 'Y'.toUInt8 →
      QueueUniform (s.sessions i).argv.frag.toNat q) :
    TrafficOk ⟨sessions, Function.update s.queues i q⟩ := by
  refine h.same hslots fun j hactive hcbr => ?_
  dsimp only at hactive hcbr ⊢
  by_cases hj : j = i
  · have hsame := hslots i
    rw [hj] at hactive hcbr ⊢
    rw [hsame.active] at hactive
    rw [hsame.argv] at hcbr ⊢
    rw [Function.update_self]
    exact hq hactive hcbr
  · rw [Function.update_of_ne hj]
    exact h.queue_of_same hslots j hactive hcbr

theorem sendOutbound_same (order : Endian) (id : UInt16) (buf : Bytes) (sessions : Sessions)
    (j : Slot) : SameSession (sessions j) (sendOutbound order id buf sessions j) := by
  unfold sendOutbound
  split
  · exact .refl (sessions j)
  cases sessionByVpnip (field 4 buf 16) sessions with
  | none => exact .refl (sessions j)
  | some i => exact sameSession_update (sameSession_traffic _ _ _ _ _ _) j

theorem sessionByVpnip_eq_some {ip : Octets 4} {sessions : Sessions}
    (h : sessionByVpnip ip sessions = some i) : (sessions i).active = true := by
  have hmatch := (Fin.find?_eq_some_iff.mp h).1
  rw [Bool.and_eq_true] at hmatch
  exact hmatch.1

theorem outboundTraffic_ok (h : TrafficOk s) (id : UInt16) (buf : Bytes) :
    TrafficOk (outboundTraffic aead order env id buf s).1 ∧
      ∀ e ∈ (outboundTraffic aead order env id buf s).2, e.Uniform := by
  unfold outboundTraffic
  split
  · exact ⟨h, fun _ he => absurd he List.not_mem_nil⟩
  split
  · exact ⟨h, fun _ he => absurd he List.not_mem_nil⟩
  next i hfound =>
    have hactive := sessionByVpnip_eq_some hfound
    have hvalid := (h.table.slot i).options hactive
    dsimp only
    constructor
    · refine h.update_queue (sendOutbound_same order id buf s.sessions) fun _ hcbr => ?_
      exact (sendOutboundPackets_cbr hcbr buf _
        (length_handleOutboundTunBuf hvalid hcbr id buf) _ 0 _ (h.queue i hactive hcbr)).1
    · intro e he hcbr
      obtain ⟨pkt, hpkt, rfl⟩ := List.mem_map.mp he
      rw [(sendOutboundPackets_cbr hcbr buf _
        (length_handleOutboundTunBuf hvalid hcbr id buf) _ 0 _
        (h.queue i hactive hcbr)).2] at hpkt
      exact absurd hpkt List.not_mem_nil

theorem executeSendCbr_ok (h : TrafficOk s) (hactive : (s.sessions i).active = true)
    (hcbr : (s.sessions i).argv.cbr = 'Y'.toUInt8) :
    TrafficOk (executeSendCbr aead order i s).1 ∧
      ∀ e ∈ (executeSendCbr aead order i s).2, e.Uniform := by
  have hpop := AllQueued.pop (h.queue i hactive hcbr)
  have hvalid := (h.table.slot i).options hactive
  unfold executeSendCbr
  dsimp only
  split
  next node rest hnodes =>
    rw [hnodes] at hpop
    refine ⟨h.update_queue (fun j => .refl (s.sessions j)) fun _ _ => hpop.1, ?_⟩
    intro e he
    rw [List.mem_singleton.mp he]
    exact Sent.uniform_of_length (hpop.2 node List.mem_cons_self)
  next hnone =>
    have hslots : ∀ j, SameSession (s.sessions j)
        (Function.update s.sessions i (s.sessions i).drawSeq j) :=
      sameSession_update (sameSession_traffic _ _ _ _ _ _)
    refine ⟨h.same hslots (h.queue_of_same hslots), ?_⟩
    intro e he
    obtain ⟨pkt, hpkt, rfl⟩ := Option.map_eq_some_iff.mp (Option.mem_toList.mp he)
    have hlength := Aead.length_datagram hpkt
    rw [length_dummyPlain hvalid] at hlength
    exact Sent.uniform_of_length hlength

theorem executeSendDirect_ok (h : TrafficOk s) (now : Int)
    (hcbr : (s.sessions i).argv.cbr ≠ 'Y'.toUInt8) :
    TrafficOk (executeSendDirect aead order env now i s).1 ∧
      ∀ e ∈ (executeSendDirect aead order env now i s).2, e.Uniform := by
  unfold executeSendDirect
  dsimp only
  split
  · refine ⟨h.update_queue (sameSession_update (sameSession_traffic _ _ _ _ _ _))
      fun _ hyes => absurd hyes hcbr, ?_⟩
    intro e he hyes
    obtain ⟨pkt, _, rfl⟩ := Option.map_eq_some_iff.mp (Option.mem_toList.mp he)
    exact absurd hyes hcbr
  · refine ⟨h.update_queue (fun j => .refl (s.sessions j))
      fun _ hyes => absurd hyes hcbr, ?_⟩
    intro e he hyes
    obtain ⟨node, _, rfl⟩ := List.mem_map.mp he
    exact absurd hyes hcbr

theorem executeSend_ok (h : TrafficOk s) (now : Int) (sessionId : Octets sessionIdLen) :
    TrafficOk (executeSend aead order env now sessionId s).1 ∧
      ∀ e ∈ (executeSend aead order env now sessionId s).2, e.Uniform := by
  unfold executeSend
  split
  · exact ⟨h, fun _ he => absurd he List.not_mem_nil⟩
  next i hfound =>
    split
    · exact ⟨h, fun _ he => absurd he List.not_mem_nil⟩
    split
    next hcbr => exact executeSendCbr_ok h (sessionById_eq_some hfound).1 hcbr
    next hcbr => exact executeSendDirect_ok h now hcbr

theorem controlPackets_uniform {sessions : Sessions} (h : TableOk false sessions)
    (ctrlType : Nat) (chosen : Session → Bool)
    (hchosen : ∀ s, chosen s = true → s.active = true) :
    ∀ e ∈ controlPackets aead order env ctrlType chosen sessions, e.Uniform := by
  intro e he
  obtain ⟨i, _, hsent⟩ := List.mem_filterMap.mp he
  split at hsent
  next hyes =>
    obtain ⟨pkt, hpkt, rfl⟩ := Option.map_eq_some_iff.mp hsent
    have hvalid := (h.slot i).options (hchosen _ hyes)
    exact Sent.uniform_of_length (length_sendControlPacket hvalid hpkt)
  next => cases hsent

/-- The queues after an operation on the table. -/
theorem renewQueues_ok (na : Sodium) (keys : ServerKeys) (order : Endian)
    (h : TrafficOk s) (op : TableOp) :
    TrafficOk ⟨(tableStep na keys order s.sessions op).1,
      renewQueues (tableStep na keys order s.sessions op) s.queues⟩ := by
  refine ⟨tableStep_tableOk na keys order h.table op fun hno => Bool.noConfusion hno, ?_⟩
  intro i hactive hcbr
  dsimp only at hactive hcbr ⊢
  unfold renewQueues
  split
  · exact allQueued_init _
  next hkept =>
    rw [not_or] at hkept
    have hnone : NotInstalled i (tableStep na keys order s.sessions op).2 :=
      fun sessionId hmem => hkept.1 (mem_installedSlots hmem)
    have hsame := (tableStep_settled na keys order (fun j => (h.table.slot j).wiped) op i
      hnone).was hactive
    rw [hsame.active] at hactive
    rw [hsame.argv] at hcbr ⊢
    exact h.queue i hactive hcbr

theorem drain_same (sessions : Sessions) (j : Slot) :
    SameSession (sessions j)
      (if (sessions j).active then (sessions j).drawSeq else sessions j) := by
  split
  · exact sameSession_traffic _ _ _ _ _ _
  · exact .refl (sessions j)

end Steps

section Uniformity

variable (aead : Aead) (na : Sodium) (keys : ServerKeys) (order : Endian)

theorem trafficStep_ok {s : Traffic} (h : TrafficOk s) (act : SendEnv × TrafficAct) :
    TrafficOk (trafficStep aead na keys order s act).1 := by
  unfold trafficStep
  cases act.2 with
  | table op => exact renewQueues_ok na keys order h op
  | outbound id buf => exact (outboundTraffic_ok h id buf).1
  | executeSend now sessionId => exact (executeSend_ok h now sessionId).1
  | drain => exact h.same (drain_same s.sessions) (h.queue_of_same (drain_same s.sessions))

/-- For every session with constant bit rate that survives the sweep of
`perform_maintenance` and is due for a keepalive, the allocation or the encryption of the
keepalive fails. -/
def KeepalivesSpared (s : Traffic) (act : SendEnv × TrafficAct) : Prop :=
  match act.2 with
  | .table (.server (.maintenance now)) => ∀ i, (s.sessions i).expired now = false →
      (s.sessions i).keepaliveDue now = true → (s.sessions i).argv.cbr = 'Y'.toUInt8 →
      act.1.allocated i = false ∨
        aead.aeadEncrypt (s.sessions i).kSend (s.sessions i).sessionId
          (s.sessions i).sendSeq (keepalivePlain order) = none
  | _ => True

/-- What the sweep leaves due for a keepalive is what was due and has not expired. -/
theorem cleanupExpiredSessions_due_iff (now : Int) (sessions : Sessions) (i : Slot)
    (p : Session → Prop) :
    (((cleanupExpiredSessions now sessions).1 i).keepaliveDue now = true →
        p ((cleanupExpiredSessions now sessions).1 i)) ↔
      ((sessions i).expired now = false → (sessions i).keepaliveDue now = true →
        p (sessions i)) := by
  unfold cleanupExpiredSessions
  dsimp only
  cases (sessions i).expired now with
  | true =>
      refine iff_of_true (fun hdue => ?_) fun hexpired => by cases hexpired
      rw [if_pos rfl, Session.keepaliveDue] at hdue
      cases hdue
  | false =>
      rw [if_neg Bool.false_ne_true]
      exact ⟨fun hp _ => hp, fun hp => hp rfl⟩

/-- A keepalive is shorter than every fragment size. -/
theorem keepalivePackets_uniform_iff {sessions : Sessions} (h : TableOk false sessions)
    (env : SendEnv) (now : Int) :
    (∀ e ∈ keepalivePackets aead order env now sessions, e.Uniform) ↔
      ∀ i, (sessions i).keepaliveDue now = true → (sessions i).argv.cbr = 'Y'.toUInt8 →
        sendKeepaliveToClient aead order (env.allocated i) (sessions i) = none := by
  constructor
  · intro huniform i hdue hcbr
    cases hsent : sendKeepaliveToClient aead order (env.allocated i) (sessions i) with
    | none => rfl
    | some pkt =>
        have hmem : (⟨i, (sessions i).argv, pkt⟩ : Sent) ∈
            keepalivePackets aead order env now sessions := by
          refine List.mem_filterMap.mpr ⟨i, List.mem_finRange i, ?_⟩
          rw [if_pos hdue, hsent]
          rfl
        have hactive : (sessions i).active = true := by
          rw [Session.keepaliveDue, Bool.and_eq_true] at hdue
          exact hdue.1
        have hfrag := ((h.slot i).options hactive).frag
        have hwant := huniform _ hmem hcbr
        have hlength := length_sendKeepaliveToClient hsent
        unfold minFragParam at hfrag
        unfold wireLength tunnelHeaderLen protoHeaderLen sessionIdLen macLen at hlength
        dsimp only at hwant
        omega
  · intro hspared e he hcbr
    obtain ⟨i, _, hsent⟩ := List.mem_filterMap.mp he
    split at hsent
    next hdue =>
      obtain ⟨pkt, hpkt, rfl⟩ := Option.map_eq_some_iff.mp hsent
      rw [hspared i hdue hcbr] at hpkt
      cases hpkt
    next => cases hsent

theorem tableSent_uniform_iff {s : Traffic} (h : TrafficOk s) (env : SendEnv)
    (op : TableOp) :
    (∀ e ∈ tableSent aead order env s.sessions op, e.Uniform) ↔
      KeepalivesSpared aead order s (env, .table op) := by
  cases op with
  | shutdown => exact ⟨fun _ => trivial, fun _ _ he => absurd he List.not_mem_nil⟩
  | server op =>
      cases op with
      | datagram e src buf => exact ⟨fun _ => trivial, fun _ _ he => absurd he List.not_mem_nil⟩
      | free i => exact ⟨fun _ => trivial, fun _ _ he => absurd he List.not_mem_nil⟩
      | maintenance now =>
          have hcleaned : TableOk false (cleanupExpiredSessions now s.sessions).1 := by
            refine h.table.settled fun j => ?_
            unfold cleanupExpiredSessions
            dsimp only
            split
            · exact Or.inr ⟨rfl, rfl, rfl, rfl⟩
            · exact .refl (s.sessions j)
          have hcontrol : ∀ e ∈ controlPackets aead order env pktCtrlDisconnect
              (·.expired now) s.sessions, e.Uniform := by
            refine controlPackets_uniform h.table _ _ fun session hexpired => ?_
            rw [Session.expired, Bool.and_eq_true] at hexpired
            exact hexpired.1
          have hsplit : (∀ e ∈ tableSent aead order env s.sessions (.server (.maintenance now)),
              e.Uniform) ↔ ∀ e ∈ keepalivePackets aead order env now
                (cleanupExpiredSessions now s.sessions).1, e.Uniform := by
            unfold tableSent
            simp only [List.mem_append, or_imp, forall_and]
            exact and_iff_right hcontrol
          rw [hsplit, keepalivePackets_uniform_iff aead order hcleaned env now]
          refine forall_congr' fun i => ?_
          simp only [sendKeepaliveToClient_eq_none_iff]
          exact cleanupExpiredSessions_due_iff now s.sessions i fun session =>
            session.argv.cbr = 'Y'.toUInt8 → env.allocated i = false ∨
              aead.aeadEncrypt session.kSend session.sessionId session.sendSeq
                (keepalivePlain order) = none

theorem trafficStep_uniform_iff {s : Traffic} (h : TrafficOk s)
    (act : SendEnv × TrafficAct) :
    (∀ e ∈ (trafficStep aead na keys order s act).2, e.Uniform) ↔
      KeepalivesSpared aead order s act := by
  obtain ⟨env, act⟩ := act
  unfold trafficStep
  cases act with
  | table op => exact tableSent_uniform_iff aead order h env op
  | outbound id buf => exact ⟨fun _ => trivial, fun _ => (outboundTraffic_ok h id buf).2⟩
  | executeSend now sessionId =>
      exact ⟨fun _ => trivial, fun _ => (executeSend_ok h now sessionId).2⟩
  | drain =>
      exact ⟨fun _ => trivial, fun _ => controlPackets_uniform h.table pktCtrlDisconnect
        (·.active) fun _ hactive => hactive⟩

/-- Over every run of the server: all datagrams of type data to sessions with constant bit
rate, from every sender, have the one length `6 + 16 + 8 + argv_FRAG + 16`, exactly when
every keepalive that a `perform_maintenance` of the run owes such a session fails. -/
theorem server_cbr_lengths_uniform_iff (acts : List (SendEnv × TrafficAct)) :
    (∀ e ∈ (run (trafficStep aead na keys order) Traffic.start acts).2,
        e.argv.cbr = 'Y'.toUInt8 →
          e.pkt.length = 6 + 16 + 8 + e.argv.frag.toNat + 16) ↔
      Along (trafficStep aead na keys order) (KeepalivesSpared aead order) Traffic.start
        acts :=
  run_forall_events_iff (trafficStep aead na keys order) (KeepalivesSpared aead order)
    TrafficOk Sent.Uniform (fun _ act h => trafficStep_ok aead na keys order h act)
    (fun _ act h => trafficStep_uniform_iff aead na keys order h act) Traffic.start acts
    trafficOk_start

end Uniformity

/-- A client with constant bit rate and fragments of 300 bytes shakes hands; ten seconds
later it gets a keepalive of 70 bytes. -/
theorem server_cbr_keepalive_short :
    let keys : ServerKeys := ⟨Octets.zero 64, true, Octets.zero privkeyLen⟩
    let env : Env := ⟨0, .ok, .ok, ⟨Octets.zero privkeyLen, Octets.zero 8⟩,
      ⟨Octets.zero privkeyLen, Octets.zero 8⟩, true, true, fun _ => 0, fun _ => 0⟩
    let msg1 := buildMsg1 .little (Octets.zero pubkeyLen) (Octets.zero 8)
      ⟨5, 300, 'Y'.toUInt8, 'Y'.toUInt8⟩
    let world : SendEnv := ⟨Octets.zero 16, fun _ => true, fun _ => true⟩
    let sent := (run (trafficStep .plainText Sodium.xorSodium keys .little) Traffic.start
      [(world, .table (.server (.datagram env ⟨1, 2⟩ msg1))),
        (world, .table (.server (.maintenance 10)))]).2
    sent.map (fun e => (e.argv.cbr, e.argv.frag, e.pkt.length)) = [('Y'.toUInt8, 300, 70)] ∧
      ¬ ∀ e ∈ sent, e.argv.cbr = 'Y'.toUInt8 →
        e.pkt.length = 6 + 16 + 8 + e.argv.frag.toNat + 16 := by
  decide +kernel

end Chamlon.Server
