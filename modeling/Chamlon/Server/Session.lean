import Mathlib.Tactic
import Chamlon.Reassembly.Basic
import Chamlon.ReplayWindow
import Chamlon.Wire

/-!
The server's session table, from `session.c`. A slot keeps the fields that the
inbound path, the handshakes and the maintenance read. Which fields a path
clears matters: each of the four ways to deactivate a slot clears its own
subset, and none of them touches the replay window or the reassembly table.

A function returns the table and what it does to the world around it, a list of
events in order: metrics, rate limiter checks, messages and writes.
-/

namespace Chamlon.Server

open Config Memory Reassembly

/-- `sin_addr` and `sin_port` of a `sockaddr_in`. -/
structure SockAddr where
  addr : UInt32
  port : UInt16
deriving DecidableEq, Repr

/-- `session_t`. -/
structure Session where
  active : Bool
  sessionId : Octets sessionIdLen
  kRecv : Octets aeadKeyLen
  kSend : Octets aeadKeyLen
  sendSeq : BitVec 64
  clientAddr : SockAddr
  vpnIp : Octets 4
  reassemblyTable : ReassemblyTable
  lastActivity : Int
  lastActivityKeepalive : Int
  argv : Params
  rw : ReplayWindow bitmapWords
  /-- `outq` is not `NULL`. -/
  outq : Bool

/-- A slot of the zero-initialised table. -/
def Session.zero : Session where
  active := false
  sessionId := Octets.zero sessionIdLen
  kRecv := Octets.zero aeadKeyLen
  kSend := Octets.zero aeadKeyLen
  sendSeq := 0
  clientAddr := ⟨0, 0⟩
  vpnIp := Octets.zero 4
  reassemblyTable := emptyTable
  lastActivity := 0
  lastActivityKeepalive := 0
  argv := ⟨0, 0, 0, 0⟩
  rw := .zero
  outq := false

instance : NeZero maxClients := ⟨by decide⟩

abbrev Slot := Fin maxClients
abbrev Sessions := Slot → Session

def noSessions : Sessions := fun _ => .zero

inductive RateVerdict where
  | ok
  | exceeded
  | blacklisted
deriving DecidableEq, Repr

inductive Event where
  | handshakeInitiated
  | handshakeFailed
  | handshakeCompleted
  | connectionEstablished
  | connectionClosed
  | blacklistEvent
  | packetDropped
  | rateLimitDrop
  | packetReceived (r : Nat)
  | validationError
  /-- `check_handshake_rate_limit` and `check_packet_rate_limit`. -/
  | handshakeRateCheck (addr : UInt32) (verdict : RateVerdict)
  | packetRateCheck (addr : UInt32) (verdict : RateVerdict)
  /-- The slot got the keys and the session id of a handshake. -/
  | installed (i : Slot) (sessionId : Octets sessionIdLen)
  | schedulerAdd (sessionId : Octets sessionIdLen)
  | sendMsg2 (dst : SockAddr) (msg2 : Bytes)
  /-- A datagram passed `check_replay`, was decrypted and reached
  `update_window`. -/
  | accepted (sessionId : Octets sessionIdLen) (seq : BitVec 64)
  | tunWrite (i : Slot) (bytes : Bytes) (length : Nat)
  | badCopy (i : Slot)
  | keepaliveSent (i : Slot)
deriving DecidableEq

/-- A call's result with events that came before it. -/
def emit (events : List Event) (result : Sessions × List Event) :
    Sessions × List Event :=
  (result.1, events ++ result.2)

@[simp] theorem emit_fst (events : List Event) (result : Sessions × List Event) :
    (emit events result).1 = result.1 := rfl

@[simp] theorem emit_snd (events : List Event) (result : Sessions × List Event) :
    (emit events result).2 = events ++ result.2 := rfl

/-- `allocate_session`: the first inactive slot, with a zeroed window. -/
def allocateSession (sessions : Sessions) : Option (Slot × Sessions) :=
  match Fin.find? (fun i => !(sessions i).active) with
  | some i => some (i, Function.update sessions i { sessions i with rw := .zero })
  | none => none

/-- `session_by_id`. -/
def sessionById (sessionId : Octets sessionIdLen) (sessions : Sessions) : Option Slot :=
  Fin.find? (fun i => (sessions i).active && (sessions i).sessionId == sessionId)

/-- The scan for a session of the same address and port, in
`handle_inbound_udp` and again in `handle_rehandshake_msg1`. -/
def sessionByAddr (src : SockAddr) (sessions : Sessions) : Option Slot :=
  Fin.find? (fun i => (sessions i).active && (sessions i).clientAddr == src)

/-- `assign_vpn_ip_to_session`: `10.10.0.(2 + idx)`. -/
def vpnIpOf (i : Slot) : Octets 4 :=
  ⟨[10, 10, 0, UInt8.ofNat (2 + i.val)], rfl⟩

/-- What `free_session` and `cleanup_expired_sessions` reset. Only the first one also
releases the queue. -/
def Session.clear (s : Session) : Session :=
  { s with
    kRecv := Octets.zero aeadKeyLen
    kSend := Octets.zero aeadKeyLen
    sessionId := Octets.zero sessionIdLen
    active := false
    sendSeq := 0
    vpnIp := Octets.zero 4
    lastActivity := 0 }

/-- What `handle_msg1` resets of an older session of the same client. -/
def Session.supersede (s : Session) : Session :=
  { s with
    kRecv := Octets.zero aeadKeyLen
    kSend := Octets.zero aeadKeyLen
    sessionId := Octets.zero sessionIdLen
    outq := false
    active := false }

def freeSession (i : Slot) (sessions : Sessions) : Sessions × List Event :=
  if (sessions i).active then
    (Function.update sessions i { (sessions i).clear with outq := false },
      [.connectionClosed])
  else (sessions, [])

def Session.expired (now : Int) (s : Session) : Bool :=
  s.active && decide (sessionTimeoutSec < now - s.lastActivity)

def cleanupExpiredSessions (now : Int) (sessions : Sessions) : Sessions × List Event :=
  (fun i => if (sessions i).expired now then (sessions i).clear else sessions i,
    (List.finRange maxClients).flatMap fun i =>
      if (sessions i).expired now then [.connectionClosed] else [])

/-- `sweep_reassembly_table` over all slots, active or not. -/
def sweepSessions (now : Int) (sessions : Sessions) : Sessions :=
  fun i => { sessions i with
    reassemblyTable := sweepReassemblyTable now (sessions i).reassemblyTable }

def Session.keepaliveDue (now : Int) (s : Session) : Bool :=
  s.active && decide (keepaliveIntervalSec ≤ now - s.lastActivityKeepalive)

/-- The keepalive loop of `perform_maintenance`. -/
def sendKeepalives (now : Int) (sessions : Sessions) : Sessions × List Event :=
  (fun i =>
    if (sessions i).keepaliveDue now then
      { sessions i with
        sendSeq := (sessions i).sendSeq + 1
        lastActivityKeepalive := now
        lastActivity := now }
    else sessions i,
    (List.finRange maxClients).flatMap fun i =>
      if (sessions i).keepaliveDue now then [.keepaliveSent i] else [])

def performMaintenance (now : Int) (sessions : Sessions) : Sessions × List Event :=
  let cleaned := cleanupExpiredSessions now sessions
  emit cleaned.2 (sendKeepalives now (sweepSessions now cleaned.1))

theorem allocateSession_eq_some {sessions next : Sessions} {i : Slot}
    (h : allocateSession sessions = some (i, next)) :
    (sessions i).active = false ∧
      next = Function.update sessions i { sessions i with rw := .zero } := by
  unfold allocateSession at h
  split at h
  next j hfree =>
    have hinactive := (Fin.find?_eq_some_iff.mp hfree).1
    simp only [Option.some.injEq, Prod.mk.injEq] at h
    obtain ⟨rfl, rfl⟩ := h
    exact ⟨by simpa using hinactive, rfl⟩
  next => cases h

theorem sessionById_eq_some {sessionId : Octets sessionIdLen} {sessions : Sessions}
    {i : Slot} (h : sessionById sessionId sessions = some i) :
    (sessions i).active = true ∧ (sessions i).sessionId = sessionId := by
  have hmatch := (Fin.find?_eq_some_iff.mp h).1
  simpa using hmatch

theorem sessionByAddr_eq_some {src : SockAddr} {sessions : Sessions} {i : Slot}
    (h : sessionByAddr src sessions = some i) :
    (sessions i).active = true ∧ (sessions i).clientAddr = src := by
  have hmatch := (Fin.find?_eq_some_iff.mp h).1
  simpa using hmatch

end Chamlon.Server
