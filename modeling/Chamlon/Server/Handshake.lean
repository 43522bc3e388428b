import Mathlib.Tactic
import Chamlon.Server.Session

/-!
The server's side of the handshake, from `handshake.c`. `handle_msg1` opens a
session in a free slot, `handle_rehandshake_msg1` replaces the keys of the slot
that already serves the sender's address and falls back to `handle_msg1` when
its cryptography fails.

What a call draws from the world is an argument: the time, the verdict of the
rate limiter, the ephemeral key and nonce, and whether an allocation and a
`sendto` succeed.
-/

namespace Chamlon.Server

open Config Memory Reassembly

/-- The result of `crypto_kx_keypair` and `randombytes_buf`. -/
structure Ephemeral where
  sPriv : Octets privkeyLen
  sNonce : Octets 8
deriving DecidableEq

/-- The server's long-term keys. -/
structure ServerKeys where
  signSk : Octets 64
  signSkLoaded : Bool
  serverSk : Octets privkeyLen

/-- What one call sees of the world around it. -/
structure Env where
  now : Int
  handshakeVerdict : RateVerdict
  packetVerdict : RateVerdict
  random : Ephemeral
  /-- A second draw, when a rehandshake falls back to `handle_msg1`. -/
  fallback : Ephemeral
  outqAllocated : Bool
  msg2Sent : Bool
  /-- The bytes behind the datagram and behind the decrypted plaintext. -/
  past : Nat → UInt8
  stack : Nat → UInt8

/-- `assign_vpn_ip_to_session` and the options taken from MSG1. -/
def Session.reserve (s : Session) (i : Slot) (argv : Params) : Session :=
  { s with vpnIp := vpnIpOf i, argv := validateParams argv }

/-- The writes of `handle_msg1` up to `s->active = 1`. -/
def Session.activate (s : Session) (secrets : Sodium.SessionSecrets) : Session :=
  { s with
    kRecv := secrets.k1
    kSend := secrets.k2
    sessionId := secrets.sessionId
    sendSeq := 0
    active := true }

/-- The locked writes of `handle_rehandshake_msg1`. The queue is replaced by a new one,
if that can be allocated. -/
def Session.rekey (s : Session) (secrets : Sodium.SessionSecrets) (now : Int)
    (outqAllocated : Bool) : Session :=
  { s with
    kRecv := secrets.k1
    kSend := secrets.k2
    sessionId := secrets.sessionId
    sendSeq := 0
    rw := .zero
    lastActivity := now
    outq := outqAllocated }

/-- The first other active session of the same client is dropped. -/
def supersedeOld (i : Slot) (src : SockAddr) (sessions : Sessions) :
    Sessions × List Event :=
  match Fin.find? (fun j =>
      j != i && (sessions j).active && (sessions j).clientAddr == src) with
  | some j => (Function.update sessions j (sessions j).supersede, [.connectionClosed])
  | none => (sessions, [])

/-- `handle_msg1` from the key derivation on. -/
def activateSlot (env : Env) (src : SockAddr) (i : Slot)
    (secrets : Sodium.SessionSecrets) (msg2 : Bytes) (sessions : Sessions) :
    Sessions × List Event :=
  let sessions := Function.update sessions i ((sessions i).activate secrets)
  let superseded := supersedeOld i src sessions
  let sessions := Function.update superseded.1 i
    { superseded.1 i with
      clientAddr := src
      lastActivity := env.now
      outq := env.outqAllocated }
  emit (.installed i secrets.sessionId :: superseded.2) <|
    if !env.outqAllocated then freeSession i sessions
    else
      emit [.schedulerAdd secrets.sessionId] <|
        if !env.msg2Sent then freeSession i sessions
        else
          (Function.update sessions i
            { sessions i with lastActivityKeepalive := env.now },
            [.sendMsg2 src msg2, .handshakeCompleted, .connectionEstablished])

/-- `handle_msg1` once a slot is allocated. -/
def msg1InSlot (na : Sodium) (keys : ServerKeys) (order : Endian) (env : Env)
    (random : Ephemeral) (msg1 : Bytes) (src : SockAddr) (i : Slot)
    (sessions : Sessions) : Sessions × List Event :=
  let cPub := msg1Pub msg1
  let cNonce := msg1Nonce msg1
  let sPub := na.kxPublic random.sPriv
  let sessions := Function.update sessions i
    ((sessions i).reserve i (msg1Params order msg1))
  match na.signDetached keys.signSk (signedBlob sPub random.sNonce cPub cNonce) with
  | none => freeSession i sessions
  | some sig =>
      let msg2 := buildMsg2 order sPub random.sNonce (sessions i).vpnIp sig
      match na.serverSecrets random.sPriv keys.serverSk cPub cNonce random.sNonce with
      | none => freeSession i sessions
      | some secrets => activateSlot env src i secrets msg2 sessions

def handleMsg1 (na : Sodium) (keys : ServerKeys) (order : Endian) (env : Env)
    (random : Ephemeral) (msg1 : Bytes) (src : SockAddr) (sessions : Sessions) :
    Sessions × List Event :=
  if !keys.signSkLoaded then (sessions, [])
  else
    emit [.handshakeInitiated, .handshakeRateCheck src.addr env.handshakeVerdict] <|
      match env.handshakeVerdict with
      | .blacklisted => (sessions, [.handshakeFailed, .blacklistEvent])
      | .exceeded => (sessions, [.handshakeFailed])
      | .ok =>
          if msg1.length ≠ protoHeaderLen + msg1Len + params then (sessions, [])
          else
            match allocateSession sessions with
            | none => (sessions, [.handshakeFailed])
            | some (i, sessions) =>
                msg1InSlot na keys order env random msg1 src i sessions

def handleRehandshakeMsg1 (na : Sodium) (keys : ServerKeys) (order : Endian)
    (env : Env) (msg1 : Bytes) (src : SockAddr) (sessions : Sessions) :
    Sessions × List Event :=
  if msg1.length ≠ protoHeaderLen + msg1Len + params then (sessions, [])
  else
    match sessionByAddr src sessions with
    | none => handleMsg1 na keys order env env.random msg1 src sessions
    | some i =>
        let cPub := msg1Pub msg1
        let cNonce := msg1Nonce msg1
        let sPub := na.kxPublic env.random.sPriv
        let sNonce := env.random.sNonce
        match na.serverSecrets env.random.sPriv keys.serverSk cPub cNonce sNonce with
        | none => handleMsg1 na keys order env env.fallback msg1 src sessions
        | some secrets =>
            match na.signDetached keys.signSk (signedBlob sPub sNonce cPub cNonce) with
            | none => handleMsg1 na keys order env env.fallback msg1 src sessions
            | some sig =>
                let msg2 := buildMsg2 order sPub sNonce (sessions i).vpnIp sig
                (Function.update sessions i
                  ((sessions i).rekey secrets env.now env.outqAllocated),
                  [.installed i secrets.sessionId, .schedulerAdd secrets.sessionId] ++
                    if env.msg2Sent then [.sendMsg2 src msg2] else [])

end Chamlon.Server
