import Mathlib.Tactic
import Chamlon.Lib.Machine
import Chamlon.Server.Handshake

/-!
The server's inbound path, `handle_inbound_udp` from `packet_processor.c`, and
the server as a machine: datagrams handled one at a time, freed sessions and
maintenance.
-/

namespace Chamlon.Server

open Config Memory Reassembly

/-- `pkt_seq`, read big-endian from the eight bytes behind the session id. -/
def pktSeq (env : Env) (buf : Bytes) : BitVec 64 :=
  BitVec.ofNat 64 (Endian.big.decode
    (Octets.read 8 (peek buf env.past) (protoHeaderLen + sessionIdLen)).val)

/-- The code after `update_window`, on the plaintext of slot `i`. -/
def inboundAccepted (order : Endian) (env : Env) (i : Slot) (plain : Bytes)
    (sessions : Sessions) : Sessions × List Event :=
  match inboundPlain order env.stack env.now plain (sessions i).reassemblyTable with
  | .dummy => (sessions, [])
  | .tooShort => (sessions, [])
  | .keepalive =>
      (Function.update sessions i { sessions i with lastActivity := env.now }, [])
  | .disconnect => freeSession i sessions
  | .fragment .tableFull => (sessions, [])
  | .fragment (.oversize table _) =>
      (Function.update sessions i { sessions i with reassemblyTable := table }, [])
  | .fragment (.stored table _) =>
      (Function.update sessions i { sessions i with reassemblyTable := table }, [])
  | .fragment (.written table _ buffer length) =>
      (Function.update sessions i { sessions i with reassemblyTable := table },
        [.tunWrite i (buffer.val.take length) length])
  | .fragment (.badCopy _) => (sessions, [.badCopy i])

/-- `handle_inbound_udp` from the session lookup on. -/
def inboundData (na : Sodium) (order : Endian) (env : Env) (buf : Bytes)
    (sessions : Sessions) : Sessions × List Event :=
  let sessionId := Octets.read sessionIdLen (peek buf env.past) protoHeaderLen
  match sessionById sessionId sessions with
  | none => (sessions, [])
  | some i =>
      let sessions := Function.update sessions i
        { sessions i with lastActivity := env.now }
      let s := sessions i
      let seq := pktSeq env buf
      if s.rw.checkReplay seq then (sessions, [.validationError])
      else
        let cipherLen := (buf.length + 2 ^ 64 - dataHeaderLen) % 2 ^ 64
        if bufferSize - dataHeaderLen < cipherLen then (sessions, [])
        else
          match na.decrypt s.kRecv s.sessionId seq
              (slice buf dataHeaderLen cipherLen) with
          | none => (sessions, [])
          | some plain =>
              if bufferSize < plain.length then (sessions, [])
              else
                emit [.accepted s.sessionId seq] <|
                  inboundAccepted order env i plain
                    (Function.update sessions i { s with rw := s.rw.updateWindow seq })

/-- The type byte of `proto_header_t`. -/
def packetType (buf : Bytes) : UInt8 := peek buf (fun _ => 0) 5

/-- Magic and version are the expected ones. -/
def headerAccepted (order : Endian) (buf : Bytes) : Bool :=
  order.decode (field 4 buf 0).val == pktMagic && peek buf (fun _ => 0) 4 == pktVersion

def handleInboundUdp (na : Sodium) (keys : ServerKeys) (order : Endian) (env : Env)
    (src : SockAddr) (buf : Bytes) (sessions : Sessions) : Sessions × List Event :=
  if buf.length < protoHeaderLen then (sessions, [])
  else if bufferSize < buf.length then (sessions, [])
  else if !headerAccepted order buf then (sessions, [])
  else if packetType buf = pktTypeData ∧ env.packetVerdict ≠ .ok then
    (sessions, [.packetRateCheck src.addr env.packetVerdict, .packetDropped,
      .rateLimitDrop])
  else
    emit (if packetType buf = pktTypeData then
        [.packetRateCheck src.addr env.packetVerdict] else []) <|
      if packetType buf = pktTypeHandshake then
        if buf.length = protoHeaderLen + msg1Len + params then
          match sessionByAddr src sessions with
          | some _ => handleRehandshakeMsg1 na keys order env buf src sessions
          | none => handleMsg1 na keys order env env.random buf src sessions
        else (sessions, [])
      else
        emit [.packetReceived buf.length] (inboundData na order env buf sessions)

/-- A complete operation of the server. -/
inductive Op where
  | datagram (env : Env) (src : SockAddr) (buf : Bytes)
  | free (i : Slot)
  | maintenance (now : Int)

def serverStep (na : Sodium) (keys : ServerKeys) (order : Endian)
    (sessions : Sessions) : Op → Sessions × List Event
  | .datagram env src buf => handleInboundUdp na keys order env src buf sessions
  | .free i => freeSession i sessions
  | .maintenance now => performMaintenance now sessions

end Chamlon.Server
