import Mathlib.Tactic
import Chamlon.Agreement.Honest

/-!
What a successful handshake says about the server when the network may change
every message. The server is an arbitrary run on datagrams the adversary chooses,
the client reads packets the adversary chooses, and the only thing the adversary
cannot do is present a signature over values the server never signed.

The signature covers the two public keys and the two nonces, and these are bound.
The address in MSG2 and the options in MSG1 lie outside it.
-/

namespace Chamlon.Agreement

open Config Memory Machine Server Client

/-- One step of a server run: in the state `before` a datagram arrives, and the
server sends MSG2 and is left in the state `after`. -/
structure Exchange where
  before : Sessions
  src : SockAddr
  msg1 : Bytes
  msg2 : Bytes
  after : Sessions

def Exchange.In (x : Exchange) (na : Sodium) (keys : ServerKeys) (order : Endian)
    (ops : List Op) : Prop :=
  ∃ earlier env later, ops = earlier ++ .datagram env x.src x.msg1 :: later ∧
    x.before = (run (serverStep na keys order) noSessions earlier).1 ∧
    .sendMsg2 x.src x.msg2 ∈
      (handleInboundUdp na keys order env x.src x.msg1 x.before).2 ∧
    x.after = (handleInboundUdp na keys order env x.src x.msg1 x.before).1

/-- The blob the server signs in the exchange. -/
def Exchange.blob (x : Exchange) : Bytes :=
  signedBlob (parseMsg2 x.msg2).sPub (parseMsg2 x.msg2).sNonce (msg1Pub x.msg1)
    (msg1Nonce x.msg1)

/-- The blob the client checks the signature of MSG2 against. -/
def clientBlob (na : Sodium) (eph : Client.Ephemeral) (msg2 : Bytes) : Bytes :=
  signedBlob (parseMsg2 msg2).sPub (parseMsg2 msg2).sNonce (na.kxPublic eph.cPriv)
    eph.cNonce

/-- The signature in this MSG2 is no forgery: if it verifies, the server has
signed and sent what it verifies for. -/
def NotForged (na : Sodium) (keys : ServerKeys) (serverPk : Octets pubkeyLen)
    (order : Endian) (ops : List Op) (eph : Client.Ephemeral) (msg2 : Bytes) : Prop :=
  na.verifyDetached (parseMsg2 msg2).sig (clientBlob na eph msg2) serverPk = true →
    ∃ x : Exchange, x.In na keys order ops ∧ x.blob = clientBlob na eph msg2

theorem finishHandshake_eq_some {na : Sodium} {serverPk serverKxPk : Octets pubkeyLen}
    {eph : Client.Ephemeral} {msg2 : Bytes} {session : ClientSession}
    (h : finishHandshake na serverPk serverKxPk eph msg2 = some session) :
    na.verifyDetached (parseMsg2 msg2).sig (clientBlob na eph msg2) serverPk = true ∧
      ∃ secrets, na.clientSecrets eph.cPriv (parseMsg2 msg2).sPub serverKxPk eph.cNonce
        (parseMsg2 msg2).sNonce = some secrets ∧
      session = ⟨secrets.sessionId, secrets.k1, secrets.k2, (parseMsg2 msg2).assignedIp⟩ := by
  unfold finishHandshake at h
  dsimp only at h
  split at h
  · cases h
  next hverify =>
    split at h
    · cases h
    next secrets hsecrets =>
      exact ⟨by simpa [clientBlob] using hverify, secrets, hsecrets,
        (Option.some.inj h).symm⟩

/-- Two parties with the same four values have the same session: the slot that
answers an exchange matches a client that verified the same blob. -/
theorem matches_of_blob {na : Sodium} {keys : ServerKeys} {serverPk : Octets pubkeyLen}
    (hkeys : TrustedKeys na keys serverPk) {order : Endian} {random : Server.Ephemeral}
    {x : Exchange} {s : Session}
    (hanswers : Answers na keys order random x.msg1 x.src x.msg2 s)
    {eph : Client.Ephemeral} {msg2 : Bytes} {session : ClientSession}
    (hblob : x.blob = clientBlob na eph msg2)
    (hfinish : finishHandshake na serverPk (na.kxPublic keys.serverSk) eph msg2 =
      some session) : Matches s session := by
  obtain ⟨hactive, _, sig, secrets, _, hsecrets, hid, hrecv, hsend, hsent⟩ := hanswers
  obtain ⟨_, derived, hderived, hsession⟩ := finishHandshake_eq_some hfinish
  rw [Exchange.blob, clientBlob, hsent, parseMsg2_buildMsg2] at hblob
  obtain ⟨hsPub, hsNonce, hcPub, hcNonce⟩ := signedBlob_inj hblob
  rw [← hsPub, ← hsNonce, na.clientSecrets_eq_serverSecrets hkeys.commutes, ← hcPub,
    ← hcNonce, hsecrets] at hderived
  have hsame := Option.some.inj hderived
  rw [hsession, ← hsame]
  exact ⟨hactive, hid, hrecv, hsend⟩

/-- Whenever `client_handshake` returns 0 without a forged signature, the server
has answered an exchange of the same two keys and nonces, and on sending that
answer it held a session with the client's session id and keys. The address of
that session is the one in MSG2 as it was sent, and the options of a first
handshake are those in MSG1 as it was received; the client has the address in
MSG2 as it arrived. -/
theorem transcript_bound (na : Sodium) (keys : ServerKeys) (serverPk : Octets pubkeyLen)
    (hkeys : TrustedKeys na keys serverPk) (order : Endian) (ops : List Op)
    (eph : Client.Ephemeral) (msg1Sent : Bool) (start : Int) (uninit : Octets msg2Total)
    (buffer : Option (List Bytes)) (polls : List Poll) (session : ClientSession)
    (hforged : ∀ msg2, (receiveMsg2 (start + msg2TimeoutSec) polls 0 uninit buffer).1 =
      .received msg2 → NotForged na keys serverPk order ops eph msg2.val)
    (h : (clientHandshake na serverPk eph msg1Sent start uninit buffer polls).1 =
      .established session) :
    ∃ (x : Exchange) (i : Slot) (msg2 : Octets msg2Total),
      x.In na keys order ops ∧ Matches (x.after i) session ∧
      (receiveMsg2 (start + msg2TimeoutSec) polls 0 uninit buffer).1 = .received msg2 ∧
      msg1Pub x.msg1 = na.kxPublic eph.cPriv ∧ msg1Nonce x.msg1 = eph.cNonce ∧
      (parseMsg2 x.msg2).sPub = (parseMsg2 msg2.val).sPub ∧
      (parseMsg2 x.msg2).sNonce = (parseMsg2 msg2.val).sNonce ∧
      (x.after i).vpnIp = (parseMsg2 x.msg2).assignedIp ∧
      session.assignedIp = (parseMsg2 msg2.val).assignedIp ∧
      (sessionByAddr x.src x.before = none →
        (x.after i).argv = validateParams (msg1Params order x.msg1)) := by
  obtain ⟨serverKxPk, msg2, hconvert, hloop, hfinish⟩ := clientHandshake_established h
  rw [hkeys.converts] at hconvert
  rw [← Option.some.inj hconvert] at hfinish
  obtain ⟨hverify, secrets, _, hsession⟩ := finishHandshake_eq_some hfinish
  obtain ⟨x, hexchange, hblob⟩ := hforged msg2 hloop hverify
  obtain ⟨hsPub, hsNonce, hcPub, hcNonce⟩ := signedBlob_inj hblob
  have hstep := hexchange
  obtain ⟨earlier, env, later, _, _, hsent, hafter⟩ := hstep
  obtain ⟨_, i, random, _, hanswers, hargv⟩ := handleInboundUdp_sent hsent
  rw [← hafter] at hanswers hargv
  have haddress : (x.after i).vpnIp = (parseMsg2 x.msg2).assignedIp := by
    obtain ⟨_, _, sig, _, _, _, _, _, _, hmsg2⟩ := hanswers
    rw [hmsg2, parseMsg2_buildMsg2]
  exact ⟨x, i, msg2, hexchange, matches_of_blob hkeys hanswers hblob hfinish, hloop,
    hcPub, hcNonce, hsPub, hsNonce, haddress, by rw [hsession], hargv⟩

/-- The adversary raises the client's rate in MSG1 and changes the address in
MSG2. -/
def alteredMsg1 : Bytes :=
  clientMsg1 Sodium.xorSodium .little ⟨15, 1024, 'N'.toUInt8, 'N'.toUInt8⟩ (bytewise 5)

def alteredMsg2 : Bytes := bytewiseMsg2 5 3 ⟨[6, 6, 6, 6], rfl⟩

def alteredOps : List Op := [.datagram (calmEnv 0 3) ⟨1, 2⟩ alteredMsg1]

def alteredServer : Sessions :=
  (run (serverStep Sodium.xorSodium zeroKeys .little) noSessions alteredOps).1

def alteredExchange : Exchange where
  before := noSessions
  src := ⟨1, 2⟩
  msg1 := alteredMsg1
  msg2 := bytewiseMsg2 5 3 (vpnIpOf 0)
  after := (handleInboundUdp Sodium.xorSodium zeroKeys .little (calmEnv 0 3) ⟨1, 2⟩
    alteredMsg1 noSessions).1

/-- The signature in the altered MSG2 is the server's own. -/
theorem alteredMsg2_not_forged :
    NotForged Sodium.xorSodium zeroKeys (Octets.zero pubkeyLen) .little alteredOps
      (bytewise 5) alteredMsg2 := by
  intro _
  have hsent : .sendMsg2 alteredExchange.src alteredExchange.msg2 ∈
      (handleInboundUdp Sodium.xorSodium zeroKeys .little (calmEnv 0 3)
        alteredExchange.src alteredExchange.msg1 alteredExchange.before).2 := by
    decide +kernel
  have hblob : alteredExchange.blob =
      clientBlob Sodium.xorSodium (bytewise 5) alteredMsg2 := by
    decide +kernel
  exact ⟨alteredExchange, ⟨[], calmEnv 0 3, [], rfl, rfl, hsent, by
    simp only [alteredExchange]⟩, hblob⟩

/-- The client accepts the altered handshake, and the server holds its session
with another address and another rate than the client. -/
theorem transcript_unbound :
    let na := Sodium.xorSodium
    let options : Params := ⟨5, 1024, 'N'.toUInt8, 'N'.toUInt8⟩
    let polls : List Poll := [⟨1, .datagram alteredMsg2, true⟩]
    alteredMsg1 = clientMsg1 na .little { options with mbps := 15 } (bytewise 5) ∧
    NotForged na zeroKeys (Octets.zero pubkeyLen) .little alteredOps (bytewise 5)
      alteredMsg2 ∧
    ∃ session,
      (clientHandshake na (Octets.zero pubkeyLen) (bytewise 5) true 0
        (Octets.zero msg2Total) none polls).1 = .established session ∧
      (∃ i, Matches (alteredServer i) session) ∧
      ∀ i, (alteredServer i).active = true →
        (alteredServer i).sessionId = session.sessionId →
        (alteredServer i).vpnIp ≠ session.assignedIp ∧
          (alteredServer i).argv.mbps ≠ options.mbps := by
  intro na options polls
  let session : ClientSession :=
    ⟨Octets.fill 16 160, (alteredServer 0).kRecv, (alteredServer 0).kSend,
      ⟨[6, 6, 6, 6], rfl⟩⟩
  refine ⟨rfl, alteredMsg2_not_forged, session, ?_, ⟨0, ?_⟩, ?_⟩
  · decide +kernel
  · decide +kernel
  · decide +kernel

/-- The same altered handshake satisfies what is bound. -/
theorem transcript_bound_altered :
    let na := Sodium.xorSodium
    let polls : List Poll := [⟨1, .datagram alteredMsg2, true⟩]
    let session : ClientSession :=
      ⟨Octets.fill 16 160, (alteredServer 0).kRecv, (alteredServer 0).kSend,
        ⟨[6, 6, 6, 6], rfl⟩⟩
    ∃ (x : Exchange) (i : Slot) (msg2 : Octets msg2Total),
      x.In na zeroKeys .little alteredOps ∧ Matches (x.after i) session ∧
      (receiveMsg2 (0 + msg2TimeoutSec) polls 0 (Octets.zero msg2Total) none).1 =
        .received msg2 ∧
      msg1Pub x.msg1 = na.kxPublic (bytewise 5).cPriv ∧
      msg1Nonce x.msg1 = (bytewise 5).cNonce ∧
      (parseMsg2 x.msg2).sPub = (parseMsg2 msg2.val).sPub ∧
      (parseMsg2 x.msg2).sNonce = (parseMsg2 msg2.val).sNonce ∧
      (x.after i).vpnIp = (parseMsg2 x.msg2).assignedIp ∧
      session.assignedIp = (parseMsg2 msg2.val).assignedIp ∧
      (sessionByAddr x.src x.before = none →
        (x.after i).argv = validateParams (msg1Params .little x.msg1)) := by
  intro na polls session
  have hloop : (receiveMsg2 (0 + msg2TimeoutSec) polls 0 (Octets.zero msg2Total) none).1 =
      .received ⟨alteredMsg2, by decide +kernel⟩ := by
    decide +kernel
  have hestablished : (clientHandshake na (Octets.zero pubkeyLen) (bytewise 5) true 0
      (Octets.zero msg2Total) none polls).1 = .established session := by
    decide +kernel
  refine transcript_bound na zeroKeys (Octets.zero pubkeyLen) xorSodium_trusted .little
    alteredOps (bytewise 5) true 0 (Octets.zero msg2Total) none polls session
    (fun msg2 hmsg2 => ?_) hestablished
  rw [hloop] at hmsg2
  rw [← Receive.received.inj hmsg2]
  exact alteredMsg2_not_forged

end Chamlon.Agreement
