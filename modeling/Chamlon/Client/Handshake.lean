import Mathlib.Tactic
import Chamlon.Wire

/-!
The client's side of the handshake, `client_handshake` from `vpn_handshake.c`.
The receive loop is driven by a list of polls: what each turn of the loop finds
at the socket and at which time. Packets of other types are buffered or dropped,
at most a hundred turns long and fifteen seconds; the first handshake packet
decides.
-/

namespace Chamlon.Client

open Config Memory

/-- What `select` and `recvfrom` report in one turn of the receive loop. -/
inductive PollResult where
  | selectFailed
  | selectTimeout
  | again
  | recvFailed
  | datagram (bytes : Bytes)
deriving DecidableEq

structure Poll where
  now : Int
  result : PollResult
  /-- Whether the buffer for a DATA packet could be allocated. -/
  allocated : Bool

abbrev msg2Total : Nat := protoHeaderLen + msg2Len
abbrev maxDiscardAttempts : Nat := 100
abbrev rehandshakeBufferSize : Nat := 128
abbrev msg2TimeoutSec : Int := 15

/-- `msg2` after `recvfrom`: a longer datagram is cut off, a shorter one leaves
the rest of the array as it was. -/
def receiveInto (msg2 : Octets msg2Total) (bytes : Bytes) : Octets msg2Total :=
  msg2.copy 0 (bytes.take msg2Total) (by
    simp only [List.length_take]
    omega)

/-- `rehandshake_buffer_t`, absent in the first handshake. A DATA packet is kept
while there is room. -/
def bufferPacket (buffer : Option (List Bytes)) (type : UInt8) (allocated : Bool)
    (packet : Bytes) : Option (List Bytes) :=
  buffer.map fun packets =>
    if type = pktTypeData ∧ packets.length < rehandshakeBufferSize ∧ allocated = true
    then packets ++ [packet] else packets

inductive Receive where
  /-- Still in the loop after all polls. -/
  | waiting
  | failed
  | received (msg2 : Octets msg2Total)
deriving DecidableEq

/-- The receive loop, `attempts` turns of which are over. -/
def receiveMsg2 (deadline : Int) :
    List Poll → Nat → Octets msg2Total → Option (List Bytes) →
      Receive × Option (List Bytes)
  | polls, attempts, msg2, buffer =>
      if maxDiscardAttempts < attempts + 1 then (.failed, buffer)
      else
        match polls with
        | [] => (.waiting, buffer)
        | poll :: rest =>
            if deadline ≤ poll.now then (.failed, buffer)
            else
              match poll.result with
              | .selectFailed => (.failed, buffer)
              | .selectTimeout => (.failed, buffer)
              | .again => receiveMsg2 deadline rest (attempts + 1) msg2 buffer
              | .recvFailed => (.failed, buffer)
              | .datagram bytes =>
                  if bytes = [] then (.failed, buffer)
                  else
                    let msg2 := receiveInto msg2 bytes
                    let r := min bytes.length msg2Total
                    let type := peek msg2.val (fun _ => 0) 5
                    if type ≠ pktTypeHandshake then
                      receiveMsg2 deadline rest (attempts + 1) msg2
                        (bufferPacket buffer type poll.allocated (msg2.val.take r))
                    else if r ≠ msg2Total then (.failed, buffer)
                    else (.received msg2, buffer)

/-- What a successful handshake leaves in the client. -/
structure ClientSession where
  sessionId : Octets sessionIdLen
  kSend : Octets aeadKeyLen
  kRecv : Octets aeadKeyLen
  assignedIp : Octets 4
deriving DecidableEq

/-- The client's ephemeral key and nonce. -/
structure Ephemeral where
  cPriv : Octets privkeyLen
  cNonce : Octets 8
deriving DecidableEq

def clientMsg1 (na : Sodium) (order : Endian) (argv : Params) (eph : Ephemeral) : Bytes :=
  buildMsg1 order (na.kxPublic eph.cPriv) eph.cNonce argv

/-- `client_handshake` from the parsing of MSG2 on. -/
def finishHandshake (na : Sodium) (serverPk serverKxPk : Octets pubkeyLen)
    (eph : Ephemeral) (msg2 : Bytes) : Option ClientSession :=
  let parsed := parseMsg2 msg2
  let toVerify := signedBlob parsed.sPub parsed.sNonce (na.kxPublic eph.cPriv) eph.cNonce
  if !na.verifyDetached parsed.sig toVerify serverPk then none
  else
    match na.clientSecrets eph.cPriv parsed.sPub serverKxPk eph.cNonce parsed.sNonce with
    | none => none
    | some secrets => some ⟨secrets.sessionId, secrets.k1, secrets.k2, parsed.assignedIp⟩

inductive HandshakeResult where
  | waiting
  | failed
  | established (session : ClientSession)
deriving DecidableEq

/-- `client_handshake` from a start at time `start`, with `uninit` in its `msg2`
array. -/
def clientHandshake (na : Sodium) (serverPk : Octets pubkeyLen) (eph : Ephemeral)
    (msg1Sent : Bool) (start : Int) (uninit : Octets msg2Total)
    (buffer : Option (List Bytes)) (polls : List Poll) :
    HandshakeResult × Option (List Bytes) :=
  match na.pkToCurve25519 serverPk with
  | none => (.failed, buffer)
  | some serverKxPk =>
      if !msg1Sent then (.failed, buffer)
      else
        match receiveMsg2 (start + msg2TimeoutSec) polls 0 uninit buffer with
        | (.waiting, buffer) => (.waiting, buffer)
        | (.failed, buffer) => (.failed, buffer)
        | (.received msg2, buffer) =>
            match finishHandshake na serverPk serverKxPk eph msg2.val with
            | none => (.failed, buffer)
            | some session => (.established session, buffer)

/-- A poll that keeps the client waiting: nothing there, or a packet of another
type, before the deadline. -/
def Poll.Discarded (deadline : Int) (poll : Poll) : Prop :=
  poll.now < deadline ∧
    (poll.result = .again ∨ ∃ bytes, poll.result = .datagram bytes ∧
      5 < bytes.length ∧ bytes[5]? ≠ some pktTypeHandshake)

theorem receiveInto_type (msg2 : Octets msg2Total) (bytes : Bytes)
    (h : 5 < bytes.length) :
    peek (receiveInto msg2 bytes).val (fun _ => 0) 5 = bytes.getD 5 0 := by
  have hfive : (bytes.take msg2Total)[5]? = bytes[5]? := by
    rw [List.getElem?_take_of_lt (by decide)]
  have hlen : 5 < (bytes.take msg2Total).length := by
    rw [List.length_take]
    exact lt_min (by decide) h
  simp only [peek, receiveInto, Octets.copy, List.getD_eq_getElem?_getD]
  rw [getElem?_memcpy _ _ _ _ (Nat.zero_le _), if_pos ⟨Nat.zero_le _, by omega⟩,
    Nat.sub_zero, hfive]

/-- A datagram of the full length replaces the whole array. -/
theorem receiveInto_of_length (msg2 : Octets msg2Total) (bytes : Bytes)
    (h : bytes.length = msg2Total) : (receiveInto msg2 bytes).val = bytes := by
  have htake : bytes.take msg2Total = bytes := List.take_of_length_le h.le
  simp only [receiveInto, Octets.copy, htake]
  exact memcpy_zero_of_length _ _ (by rw [msg2.length_val, h])

/-- After fewer than a hundred discarded polls the loop takes the next
datagram of the right type and length. -/
theorem receiveMsg2_of_discarded (deadline : Int) (noise : List Poll) (last : Poll)
    (attempts : Nat) (uninit : Octets msg2Total) (buffer : Option (List Bytes))
    (bytes : Bytes) (hnoise : ∀ poll ∈ noise, poll.Discarded deadline)
    (hcount : attempts + noise.length < maxDiscardAttempts)
    (hlast : last.result = .datagram bytes) (htime : last.now < deadline)
    (htype : bytes[5]? = some pktTypeHandshake) (hlength : bytes.length = msg2Total) :
    ∃ msg2 : Octets msg2Total, msg2.val = bytes ∧
      (receiveMsg2 deadline (noise ++ [last]) attempts uninit buffer).1 =
        .received msg2 := by
  induction noise generalizing attempts uninit buffer with
  | nil =>
      have htype' := receiveInto_type uninit bytes (by rw [hlength]; decide)
      rw [List.getD_eq_getElem?_getD, htype, Option.getD_some] at htype'
      have hnonempty : bytes ≠ [] := by
        intro hempty
        rw [hempty] at hlength
        cases hlength
      refine ⟨receiveInto uninit bytes, receiveInto_of_length uninit bytes hlength, ?_⟩
      unfold receiveMsg2
      simp only [List.length_nil, Nat.add_zero] at hcount
      simp only [List.nil_append]
      rw [if_neg (by omega), if_neg (not_le.mpr htime), hlast]
      simp only [if_neg hnonempty, htype', hlength, min_self, ne_eq, not_true_eq_false,
        if_false]
  | cons poll rest ih =>
      obtain ⟨hbefore, hwait⟩ := hnoise poll List.mem_cons_self
      have hrest : ∀ p ∈ rest, p.Discarded deadline := fun p hp =>
        hnoise p (List.mem_cons_of_mem _ hp)
      simp only [List.length_cons] at hcount
      unfold receiveMsg2
      simp only [List.cons_append]
      rw [if_neg (by omega), if_neg (not_le.mpr hbefore)]
      rcases hwait with hagain | ⟨other, hother, hlen, hne⟩
      · rw [hagain]
        exact ih (attempts + 1) uninit buffer hrest (by omega)
      · have hotherType := receiveInto_type uninit other hlen
        have htype' : peek (receiveInto uninit other).val (fun _ => 0) 5 ≠
            pktTypeHandshake := by
          rw [hotherType, List.getD_eq_getElem?_getD]
          rw [List.getElem?_eq_getElem hlen] at hne ⊢
          exact fun heq => hne (congrArg some heq)
        have hnonempty : other ≠ [] := by
          intro hempty
          rw [hempty] at hlen
          cases hlen
        rw [hother]
        simp only [if_neg hnonempty, ne_eq, htype', not_false_eq_true, if_true]
        exact ih (attempts + 1) _ _ hrest (by omega)

/-- `client_handshake` succeeds on the MSG2 its receive loop ends with. -/
theorem clientHandshake_of_received {na : Sodium}
    {serverPk serverKxPk : Octets pubkeyLen} {eph : Ephemeral} {start : Int}
    {uninit msg2 : Octets msg2Total} {buffer : Option (List Bytes)} {polls : List Poll}
    {session : ClientSession} (hconvert : na.pkToCurve25519 serverPk = some serverKxPk)
    (hloop : (receiveMsg2 (start + msg2TimeoutSec) polls 0 uninit buffer).1 =
      .received msg2)
    (hfinish : finishHandshake na serverPk serverKxPk eph msg2.val = some session) :
    (clientHandshake na serverPk eph true start uninit buffer polls).1 =
      .established session := by
  unfold clientHandshake
  rw [hconvert]
  generalize receiveMsg2 (start + msg2TimeoutSec) polls 0 uninit buffer = outcome at hloop
  obtain ⟨result, rest⟩ := outcome
  dsimp only at hloop
  simp only [hloop, hfinish, Bool.not_true, Bool.false_eq_true, if_false]

/-- Every success of `client_handshake` comes from the MSG2 of its receive
loop. -/
theorem clientHandshake_established {na : Sodium} {serverPk : Octets pubkeyLen}
    {eph : Ephemeral} {msg1Sent : Bool} {start : Int} {uninit : Octets msg2Total}
    {buffer : Option (List Bytes)} {polls : List Poll} {session : ClientSession}
    (h : (clientHandshake na serverPk eph msg1Sent start uninit buffer polls).1 =
      .established session) :
    ∃ serverKxPk msg2, na.pkToCurve25519 serverPk = some serverKxPk ∧
      (receiveMsg2 (start + msg2TimeoutSec) polls 0 uninit buffer).1 = .received msg2 ∧
      finishHandshake na serverPk serverKxPk eph msg2.val = some session := by
  unfold clientHandshake at h
  split at h
  · cases h
  next serverKxPk hconvert =>
    split at h
    · cases h
    split at h
    · cases h
    · cases h
    next msg2 rest hloop =>
      split at h
      · cases h
      next established hfinish =>
        refine ⟨serverKxPk, msg2, hconvert, by rw [hloop], ?_⟩
        rw [hfinish, HandshakeResult.established.inj h]

end Chamlon.Client
