import Mathlib.Tactic
import Chamlon.Client.Handshake
import Chamlon.ReplayWindow

/-!
The client's rehandshake state machine, `should_attempt_rehandshake` and
`rehandshake_client_with_state` from `vpn_handshake.c`. The second function
blocks inside `client_handshake`; its stores before and after that call are
modelled apart.
-/

namespace Chamlon.Client

open Config Memory

/-- `rehandshake_state_t`. -/
inductive RehandshakeState where
  | ready
  | inProgress
  | backoff
  | failed
deriving DecidableEq, Repr

/-- What a rehandshake reads and writes: fields of `server_t` and of the sender's
arguments, the replay window and the keepalive time of the event loop. -/
structure Connection where
  session : ClientSession
  sendSeq : BitVec 64
  sessionStartTime : Int
  bytesSent : Nat
  rehandshakeState : RehandshakeState
  rehandshakeAttempts : Nat
  rehandshakeLastAttempt : Int
  rehandshakeBackoffSec : Nat
  pendingKSend : Octets aeadKeyLen
  pendingSessionId : Octets sessionIdLen
  pendingRekey : Bool
  rw : ReplayWindow bitmapWords
  lastServerKeepaliveTime : Int

/-- After `setup_and_handshake`, at the start of the event loop. -/
def Connection.opened (session : ClientSession) (now : Int) : Connection where
  session := session
  sendSeq := 0
  sessionStartTime := 0
  bytesSent := 0
  rehandshakeState := .ready
  rehandshakeAttempts := 0
  rehandshakeLastAttempt := 0
  rehandshakeBackoffSec := 0
  pendingKSend := Octets.zero aeadKeyLen
  pendingSessionId := Octets.zero sessionIdLen
  pendingRekey := false
  rw := .zero
  lastServerKeepaliveTime := now

/-- The results 1, 0 and -1 of `should_attempt_rehandshake`. -/
inductive Attempt where
  | now
  | wait
  | disconnect
deriving DecidableEq, Repr

def shouldAttemptRehandshake (now : Int) (srv : Connection) : Connection × Attempt :=
  if 5 ≤ srv.rehandshakeAttempts then
    ({ srv with rehandshakeState := .failed }, .disconnect)
  else
    match srv.rehandshakeState with
    | .ready => (srv, .now)
    | .inProgress => (srv, .wait)
    | .backoff =>
        if srv.rehandshakeBackoffSec ≤ now - srv.rehandshakeLastAttempt then
          ({ srv with rehandshakeState := .ready }, .now)
        else (srv, .wait)
    | .failed => (srv, .disconnect)

/-- `rehandshake_client_with_state` up to the call of `client_handshake`. -/
def Connection.beginRehandshake (srv : Connection) (now : Int) : Connection :=
  { srv with rehandshakeState := .inProgress, rehandshakeLastAttempt := now }

/-- The failure branch of `rehandshake_client_with_state`. -/
def Connection.rehandshakeFailed (srv : Connection) : Connection :=
  let attempts := srv.rehandshakeAttempts + 1
  let backoff : Nat := 1 <<< (attempts - 1)
  { srv with
    rehandshakeAttempts := attempts
    rehandshakeBackoffSec := if 60 < backoff then 60 else backoff
    rehandshakeState := .backoff }

/-- The success branch. The address in MSG2 is not taken over. -/
def Connection.rehandshakeSucceeded (srv : Connection) (new : ClientSession)
    (now : Int) : Connection :=
  { srv with
    session := { new with assignedIp := srv.session.assignedIp }
    sendSeq := 0
    sessionStartTime := now
    bytesSent := 0
    pendingKSend := new.kSend
    pendingSessionId := new.sessionId
    pendingRekey := true
    rw := .zero
    lastServerKeepaliveTime := now
    rehandshakeAttempts := 0
    rehandshakeBackoffSec := 1
    rehandshakeState := .ready }

theorem shouldAttemptRehandshake_session (now : Int) (srv : Connection) :
    (shouldAttemptRehandshake now srv).1.session = srv.session := by
  unfold shouldAttemptRehandshake
  split
  · rfl
  split
  · rfl
  · rfl
  · split <;> rfl
  · rfl

end Chamlon.Client
