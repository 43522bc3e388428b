import Mathlib.Tactic
import Chamlon.Client.Handshake
import Chamlon.Client.Options
import Chamlon.Server.Reply

/-!
The handshake between the two programs when the network leaves it alone. MSG1 as
the client builds it passes the checks of the server's inbound path, and the
MSG2 that comes back gives the client the keys, the session id and the address
of the slot that answered.
-/

namespace Chamlon.Agreement

open Config Memory Server Client

/-- What the programs rely on in libsodium, for the server's key pair: X25519
commutes, signatures made with the secret key verify under the public key, and
the converted public key belongs to the converted secret key. -/
structure TrustedKeys (na : Sodium) (keys : ServerKeys) (serverPk : Octets pubkeyLen) :
    Prop where
  commutes : na.Commutes
  verifies : ∀ msg sig, na.signDetached keys.signSk msg = some sig →
    na.verifyDetached sig msg serverPk = true
  converts : na.pkToCurve25519 serverPk = some (na.kxPublic keys.serverSk)

def zeroKeys : ServerKeys := ⟨Octets.zero 64, true, Octets.zero privkeyLen⟩

/-- A world in which every call succeeds, with ephemeral values of one byte. -/
def calmEnv (now : Int) (byte : UInt8) : Env :=
  ⟨now, .ok, .ok, ⟨Octets.fill privkeyLen byte, Octets.fill 8 byte⟩,
    ⟨Octets.fill privkeyLen byte, Octets.fill 8 byte⟩, true, true, fun _ => 0, fun _ => 0⟩

def bytewise (byte : UInt8) : Client.Ephemeral :=
  ⟨Octets.fill privkeyLen byte, Octets.fill 8 byte⟩

/-- An MSG2 with one byte for each side's values, signed as `xorSodium` does. -/
def bytewiseMsg2 (client server : UInt8) (vpnIp : Octets 4) : Bytes :=
  let sPub := Octets.fill pubkeyLen server
  let sNonce := Octets.fill 8 server
  let blob := signedBlob sPub sNonce (Octets.fill pubkeyLen client) (Octets.fill 8 client)
  buildMsg2 .little sPub sNonce vpnIp (Octets.fill sigLen blob.sum)

/-- The server after a first handshake of the client `1:2`. -/
def greeted : Sessions × List Event :=
  handleInboundUdp Sodium.xorSodium zeroKeys .little (calmEnv 0 3) ⟨1, 2⟩
    (clientMsg1 Sodium.xorSodium .little ⟨5, 1024, 0, 0⟩ (bytewise 5)) noSessions

theorem xorSodium_trusted :
    TrustedKeys Sodium.xorSodium zeroKeys (Octets.zero pubkeyLen) where
  commutes a b := by
    simp only [Sodium.xorSodium, id_eq, List.zipWith_comm_of_comm UInt8.xor_comm]
  verifies msg sig h := by
    simp only [Sodium.xorSodium, Option.some.injEq] at h
    simp [Sodium.xorSodium, h]
  converts := rfl

/-- The client's view of a slot: keys of the opposite direction, same id and
address. -/
def clientView (s : Session) : ClientSession :=
  ⟨s.sessionId, s.kRecv, s.kSend, s.vpnIp⟩

/-- The slot is in use with the counterpart of the client's session. -/
def Matches (s : Session) (session : ClientSession) : Prop :=
  s.active = true ∧ s.sessionId = session.sessionId ∧ s.kRecv = session.kSend ∧
    s.kSend = session.kRecv

instance (s : Session) (session : ClientSession) : Decidable (Matches s session) :=
  inferInstanceAs (Decidable (_ ∧ _))

theorem headerAccepted_buildMsg1 (order : Endian) (cPub : Octets pubkeyLen)
    (cNonce : Octets 8) (argv : Params) :
    headerAccepted order (buildMsg1 order cPub cNonce argv) = true := by
  have hmagic : field 4 (buildMsg1 order cPub cNonce argv) 0 =
      order.encode 4 pktMagic := by
    rw [buildMsg1_eq, protoHeader, List.append_assoc]
    exact field_append 4 [] (order.encode 4 pktMagic) _ 0 rfl
  have hversion : peek (buildMsg1 order cPub cNonce argv) (fun _ => 0) 4 =
      pktVersion := by
    simp [peek, buildMsg1_eq, protoHeader, Octets.length_val]
  rw [headerAccepted, hmagic, hversion, order.decode_encode 4 pktMagic (by decide)]
  decide

theorem packetType_buildMsg1 (order : Endian) (cPub : Octets pubkeyLen)
    (cNonce : Octets 8) (argv : Params) :
    packetType (buildMsg1 order cPub cNonce argv) = pktTypeHandshake := by
  rw [packetType, peek, buildMsg1_eq, List.getD_eq_getElem?_getD,
    getElem?_protoHeader_append, Option.getD_some]

/-- A client's MSG1 passes every check of `handle_inbound_udp` and is handled
according to whether its address is already served. -/
theorem handleInboundUdp_clientMsg1 (na : Sodium) (keys : ServerKeys) (order : Endian)
    (env : Env) (src : SockAddr) (argv : Params) (eph : Client.Ephemeral)
    (sessions : Sessions) :
    handleInboundUdp na keys order env src (clientMsg1 na order argv eph) sessions =
      if (sessionByAddr src sessions).isSome then
        handleRehandshakeMsg1 na keys order env (clientMsg1 na order argv eph) src sessions
      else
        handleMsg1 na keys order env env.random (clientMsg1 na order argv eph) src
          sessions := by
  have hlength := length_buildMsg1 order (na.kxPublic eph.cPriv) eph.cNonce argv
  have htype := packetType_buildMsg1 order (na.kxPublic eph.cPriv) eph.cNonce argv
  have hheader := headerAccepted_buildMsg1 order (na.kxPublic eph.cPriv) eph.cNonce argv
  rw [← clientMsg1] at hlength htype hheader
  generalize clientMsg1 na order argv eph = msg1 at hlength htype hheader ⊢
  have hne : pktTypeHandshake ≠ pktTypeData := by decide
  unfold handleInboundUdp
  rw [hlength, hheader, htype, if_neg (by decide), if_neg (by decide),
    if_neg (by decide), if_neg (fun h => hne h.1), if_neg hne, if_pos rfl, if_pos rfl]
  cases sessionByAddr src sessions with
  | none => rfl
  | some i => rfl

/-- The client accepts the MSG2 that answers its MSG1, and ends with the view of
the slot that answered. -/
theorem finishHandshake_of_answers {na : Sodium} {keys : ServerKeys}
    {serverPk : Octets pubkeyLen} (hkeys : TrustedKeys na keys serverPk)
    {order : Endian} {argv : Params} {eph : Client.Ephemeral}
    {random : Server.Ephemeral} {src : SockAddr} {msg2 : Bytes} {s : Session}
    (h : Answers na keys order random (clientMsg1 na order argv eph) src msg2 s) :
    finishHandshake na serverPk (na.kxPublic keys.serverSk) eph msg2 =
      some (clientView s) := by
  obtain ⟨_, _, sig, secrets, hsig, hsecrets, hid, hrecv, hsend, hmsg2⟩ := h
  rw [clientMsg1, msg1Pub_buildMsg1, msg1Nonce_buildMsg1] at hsig hsecrets
  have hverify := hkeys.verifies _ sig hsig
  have hclient := na.clientSecrets_eq_serverSecrets hkeys.commutes eph.cPriv
    random.sPriv keys.serverSk eph.cNonce random.sNonce
  rw [hsecrets] at hclient
  unfold finishHandshake
  rw [hmsg2, parseMsg2_buildMsg2]
  simp only [hverify, hclient, Bool.not_true, Bool.false_eq_true, if_false, clientView,
    hid, hrecv, hsend]

/-- An undisturbed handshake ends in agreement, for a first session as well as
for a rehandshake and whatever else the client reads before MSG2. -/
theorem honest_handshake_agrees (na : Sodium) (keys : ServerKeys)
    (serverPk : Octets pubkeyLen) (hkeys : TrustedKeys na keys serverPk)
    (isServerKey isAddress : Bytes → Bool) (args : List Bytes) (options : Options)
    (hoptions : parseArguments isServerKey isAddress args = some options)
    (order : Endian) (eph : Client.Ephemeral) (env : Env) (src : SockAddr)
    (sessions : Sessions) (msg2 : Bytes)
    (hsent : .sendMsg2 src msg2 ∈ (handleInboundUdp na keys order env src
      (clientMsg1 na order options.argv eph) sessions).2)
    (start : Int) (uninit : Octets msg2Total) (buffer : Option (List Bytes))
    (noise : List Poll) (last : Poll)
    (hnoise : ∀ poll ∈ noise, poll.Discarded (start + msg2TimeoutSec))
    (hcount : noise.length < maxDiscardAttempts)
    (hlast : last.result = .datagram msg2) (htime : last.now < start + msg2TimeoutSec) :
    ∃ c i,
      (clientHandshake na serverPk eph true start uninit buffer (noise ++ [last])).1 =
        .established c ∧
      let s := (handleInboundUdp na keys order env src
        (clientMsg1 na order options.argv eph) sessions).1 i
      s.active = true ∧ s.clientAddr = src ∧ c.sessionId = s.sessionId ∧
        c.kSend = s.kRecv ∧ c.kRecv = s.kSend ∧ c.assignedIp = s.vpnIp ∧
        (sessionByAddr src sessions = none → s.argv = options.argv) := by
  have hrange := parseArguments_inRange hoptions
  obtain ⟨_, i, random, _, hanswers, hargv⟩ := handleInboundUdp_sent hsent
  generalize (handleInboundUdp na keys order env src
    (clientMsg1 na order options.argv eph) sessions).1 = after at hanswers hargv ⊢
  obtain ⟨htype, hlength⟩ := Answers.msg2_shape hanswers
  obtain ⟨received, hreceived, hloop⟩ := receiveMsg2_of_discarded
    (start + msg2TimeoutSec) noise last 0 uninit buffer msg2 hnoise (by omega) hlast
    htime htype hlength
  have hfinish := finishHandshake_of_answers hkeys hanswers
  rw [← hreceived] at hfinish
  refine ⟨clientView (after i), i, ?_, hanswers.1, hanswers.2.1, rfl, rfl, rfl, rfl, ?_⟩
  · exact clientHandshake_of_received hkeys.converts hloop hfinish
  · intro hnone
    have hmbps : -2 ^ 31 ≤ options.argv.mbps ∧ options.argv.mbps < 2 ^ 31 := by
      have := hrange.mbps
      omega
    have hfrag : -2 ^ 31 ≤ options.argv.frag ∧ options.argv.frag < 2 ^ 31 := by
      have := hrange.frag
      omega
    rw [hargv hnone, clientMsg1, msg1Params_buildMsg1 order _ _ _ hmbps hfrag]
    exact hrange.validateParams_eq

/-- A first handshake of a client that asked for seven megabits. -/
theorem honest_handshake_agrees_first :
    let na := Sodium.xorSodium
    let args := [[], [], [], [], chars ['M', 'B', 'P', 'S', ':', '7']]
    let options : Options := { Options.default with argv.mbps := 7 }
    let eph : Client.Ephemeral := ⟨Octets.fill privkeyLen 5, Octets.fill 8 5⟩
    let blob := signedBlob (Octets.fill pubkeyLen 3) (Octets.fill 8 3)
      (Octets.fill pubkeyLen 5) (Octets.fill 8 5)
    let msg2 := buildMsg2 .little (Octets.fill pubkeyLen 3) (Octets.fill 8 3) (vpnIpOf 0)
      (Octets.fill sigLen blob.sum)
    parseArguments (fun _ => true) (fun _ => true) args = some options ∧ ∃ c i,
      (clientHandshake na (Octets.zero pubkeyLen) eph true 0 (Octets.zero msg2Total) none
        [⟨1, .again, true⟩, ⟨2, .datagram msg2, true⟩]).1 = .established c ∧
      let s := (handleInboundUdp na zeroKeys .little (calmEnv 0 3) ⟨1, 2⟩
        (clientMsg1 na .little options.argv eph) noSessions).1 i
      s.active = true ∧ s.clientAddr = ⟨1, 2⟩ ∧ c.sessionId = s.sessionId ∧
        c.kSend = s.kRecv ∧ c.kRecv = s.kSend ∧ c.assignedIp = s.vpnIp ∧
        (sessionByAddr ⟨1, 2⟩ noSessions = none → s.argv = options.argv) := by
  intro na args options eph blob msg2
  have hoptions : parseArguments (fun _ => true) (fun _ => true) args = some options := by
    decide +kernel
  have hsent : .sendMsg2 ⟨1, 2⟩ msg2 ∈ (handleInboundUdp na zeroKeys .little (calmEnv 0 3)
      ⟨1, 2⟩ (clientMsg1 na .little options.argv eph) noSessions).2 := by
    decide +kernel
  have hnoise : ∀ poll ∈ [(⟨1, .again, true⟩ : Poll)],
      poll.Discarded (0 + msg2TimeoutSec) := by
    intro poll hpoll
    rw [List.mem_singleton.mp hpoll]
    exact ⟨by decide, Or.inl rfl⟩
  exact ⟨hoptions, honest_handshake_agrees na zeroKeys (Octets.zero pubkeyLen)
    xorSodium_trusted (fun _ => true) (fun _ => true) args options hoptions .little eph
    (calmEnv 0 3) ⟨1, 2⟩ noSessions msg2 hsent 0 (Octets.zero msg2Total) none [⟨1, .again, true⟩]
    ⟨2, .datagram msg2, true⟩ hnoise (by decide) rfl (by decide)⟩

end Chamlon.Agreement
