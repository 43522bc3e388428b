import Mathlib.Tactic
import Chamlon.Client.Rehandshake

/-!
The packets of type DATA that arrive while `client_handshake` waits for MSG2 in a
rehandshake. They are received into the array for MSG2 and copied from there to the
buffer, so a longer one is cut off. When the handshake has succeeded
`rehandshake_client_with_state` frees the buffer. Nothing calls
`process_rehandshake_buffer`, which would only count the packets.
-/

namespace Chamlon.Client

open Config Memory

/-- What becomes of a packet of the buffer. -/
inductive BufferEvent where
  /-- It is decrypted with the old key and its plaintext given to the reassembly. -/
  | reassembled (packet plain : Bytes)
  | freed (packet : Bytes)
deriving DecidableEq

def rehandshakeBufferFree (packets : List Bytes) : List BufferEvent := packets.map .freed

/-- `rehandshake_client_with_state`: it starts and ends at these times, waits for MSG2
from the second one on and finds its buffer empty. What `flush_socket_buffer` drains from
the socket before the handshake is not among the polls. -/
def rehandshakeClientWithState (na : Sodium) (serverPk : Octets pubkeyLen)
    (eph : Ephemeral) (msg1Sent : Bool) (started waits ended : Int)
    (uninit : Octets msg2Total) (polls : List Poll) (srv : Connection) :
    Connection × HandshakeResult × List BufferEvent :=
  let begun := srv.beginRehandshake started
  match clientHandshake na serverPk eph msg1Sent waits uninit (some []) polls with
  | (.waiting, _) => (begun, .waiting, [])
  | (.failed, buffer) =>
      (begun.rehandshakeFailed, .failed, rehandshakeBufferFree (buffer.getD []))
  | (.established new, buffer) =>
      (begun.rehandshakeSucceeded new ended, .established new,
        rehandshakeBufferFree (buffer.getD []))

/-- `handle_udp_packet` on a packet up to `aead_decrypt`, without the replay window. -/
def openPacket (na : Sodium) (session : ClientSession) (packet : Bytes) : Option Bytes :=
  if peek packet (fun _ => 0) 4 ≠ pktVersion ∨ peek packet (fun _ => 0) 5 ≠ pktTypeData then
    none
  else if packet.length ≤ dataHeaderLen then none
  else if field sessionIdLen packet protoHeaderLen ≠ session.sessionId then none
  else
    na.decrypt session.kRecv session.sessionId
      (BitVec.ofNat 64 (Endian.big.decode
        (field 8 packet (protoHeaderLen + sessionIdLen)).val))
      (slice packet dataHeaderLen (packet.length - dataHeaderLen))

/-- The datagram has the type byte of a DATA packet. -/
def IsData (bytes : Bytes) : Prop := bytes[5]? = some pktTypeData

instance (bytes : Bytes) : Decidable (IsData bytes) :=
  inferInstanceAs (Decidable (_ = _))

def Poll.isData (poll : Poll) : Bool :=
  match poll.result with
  | .datagram bytes => decide (IsData bytes)
  | _ => false

/-- The array for MSG2 after a turn of the receive loop. -/
def Poll.array (poll : Poll) (msg2 : Octets msg2Total) : Octets msg2Total :=
  match poll.result with
  | .datagram bytes => receiveInto msg2 bytes
  | _ => msg2

/-- The buffer after a turn of the receive loop that does not end it. -/
def Poll.keep (poll : Poll) (msg2 : Octets msg2Total) (packets : List Bytes) : List Bytes :=
  match poll.result with
  | .datagram bytes =>
      let msg2 := receiveInto msg2 bytes
      if peek msg2.val (fun _ => 0) 5 = pktTypeData ∧
          packets.length < rehandshakeBufferSize ∧ poll.allocated = true then
        packets ++ [msg2.val.take (min bytes.length msg2Total)]
      else packets
  | _ => packets

/-- The receive loop goes on after this poll. -/
def Poll.Stays (deadline : Int) (msg2 : Octets msg2Total) (poll : Poll) : Prop :=
  poll.now < deadline ∧
    (poll.result = .again ∨ ∃ bytes, poll.result = .datagram bytes ∧ bytes ≠ [] ∧
      peek (receiveInto msg2 bytes).val (fun _ => 0) 5 ≠ pktTypeHandshake)

section Loop

variable {deadline : Int} {attempts : Nat} {msg2 : Octets msg2Total} {packets : List Bytes}
  {poll : Poll}

theorem receiveMsg2_turn (rest : List Poll) (hcount : attempts < maxDiscardAttempts)
    (h : poll.Stays deadline msg2) :
    receiveMsg2 deadline (poll :: rest) attempts msg2 (some packets) =
      receiveMsg2 deadline rest (attempts + 1) (poll.array msg2)
        (some (poll.keep msg2 packets)) := by
  obtain ⟨htime, hagain | ⟨bytes, hbytes, hne, htype⟩⟩ := h
  · rw [receiveMsg2, if_neg (by omega), if_neg (not_le.mpr htime)]
    simp only [Poll.array, Poll.keep, hagain]
  · rw [receiveMsg2, if_neg (by omega), if_neg (not_le.mpr htime)]
    simp only [Poll.array, Poll.keep, hbytes, if_neg hne, ne_eq, htype, not_false_eq_true,
      if_true, bufferPacket, Option.map_some]

/-- A loop that is still waiting has not been ended by its first poll. -/
theorem receiveMsg2_waiting {rest : List Poll}
    (h : (receiveMsg2 deadline (poll :: rest) attempts msg2 (some packets)).1 = .waiting) :
    attempts < maxDiscardAttempts ∧ poll.Stays deadline msg2 := by
  rw [receiveMsg2] at h
  split at h
  · cases h
  next hcount =>
  dsimp only at h
  split at h
  · cases h
  next htime =>
  refine ⟨by omega, not_le.mp htime, ?_⟩
  cases hresult : poll.result with
  | selectFailed | selectTimeout | recvFailed =>
      simp only [hresult] at h
      cases h
  | again => exact Or.inl rfl
  | datagram bytes =>
      simp only [hresult] at h
      split at h
      · cases h
      next hne =>
      split at h
      next htype => exact Or.inr ⟨bytes, rfl, hne, htype⟩
      next => split at h <;> cases h

def arrayAfter (msg2 : Octets msg2Total) : List Poll → Octets msg2Total
  | [] => msg2
  | poll :: rest => arrayAfter (poll.array msg2) rest

def bufferAfter (msg2 : Octets msg2Total) (packets : List Bytes) : List Poll → List Bytes
  | [] => packets
  | poll :: rest => bufferAfter (poll.array msg2) (poll.keep msg2 packets) rest

/-- A loop that is still waiting after some polls goes on from there. -/
theorem receiveMsg2_append (noise rest : List Poll)
    (h : (receiveMsg2 deadline noise attempts msg2 (some packets)).1 = .waiting) :
    attempts + noise.length < maxDiscardAttempts ∧
      receiveMsg2 deadline (noise ++ rest) attempts msg2 (some packets) =
        receiveMsg2 deadline rest (attempts + noise.length) (arrayAfter msg2 noise)
          (some (bufferAfter msg2 packets noise)) := by
  induction noise generalizing attempts msg2 packets with
  | nil =>
      rw [receiveMsg2] at h
      split at h
      · cases h
      next hcount => exact ⟨by simp only [List.length_nil]; omega, rfl⟩
  | cons poll noise ih =>
      obtain ⟨hcount, hstays⟩ := receiveMsg2_waiting h
      rw [receiveMsg2_turn noise hcount hstays] at h
      obtain ⟨hlater, hrest⟩ := ih h
      rw [List.cons_append, receiveMsg2_turn _ hcount hstays, hrest, List.length_cons]
      exact ⟨by omega, by rw [Nat.add_right_comm, ← Nat.add_assoc]; rfl⟩

theorem receiveMsg2_buffer (noise : List Poll)
    (h : (receiveMsg2 deadline noise attempts msg2 (some packets)).1 = .waiting) :
    (receiveMsg2 deadline noise attempts msg2 (some packets)).2 =
      some (bufferAfter msg2 packets noise) := by
  obtain ⟨hcount, hresult⟩ := receiveMsg2_append noise [] h
  rw [List.append_nil] at hresult
  rw [hresult, receiveMsg2, if_neg (by omega)]

theorem bufferAfter_append (msg2 : Octets msg2Total) (packets : List Bytes)
    (first second : List Poll) :
    bufferAfter msg2 packets (first ++ second) =
      bufferAfter (arrayAfter msg2 first) (bufferAfter msg2 packets first) second := by
  induction first generalizing msg2 packets with
  | nil => rfl
  | cons poll first ih => exact ih _ _

theorem receiveInto_take (msg2 : Octets msg2Total) (bytes : Bytes) :
    (receiveInto msg2 bytes).val.take (min bytes.length msg2Total) =
      bytes.take msg2Total := by
  have hlength : (bytes.take msg2Total).length = min bytes.length msg2Total := by
    rw [List.length_take, Nat.min_comm]
  simp only [receiveInto, Octets.copy, memcpy, List.take_zero, List.nil_append]
  rw [← hlength, List.take_left]

/-- The type byte of a datagram that is too short for one is an older byte. -/
theorem isData_of_type {bytes : Bytes}
    (h : peek (receiveInto msg2 bytes).val (fun _ => 0) 5 = pktTypeData) :
    IsData bytes ∨ bytes.length ≤ 5 := by
  by_cases hshort : bytes.length ≤ 5
  · exact Or.inr hshort
  · have hlong := Nat.lt_of_not_le hshort
    rw [receiveInto_type msg2 bytes hlong, List.getD_eq_getElem _ _ hlong] at h
    left
    unfold IsData
    rw [List.getElem?_eq_getElem hlong, h]

theorem type_of_isData {bytes : Bytes} (h : IsData bytes) :
    peek (receiveInto msg2 bytes).val (fun _ => 0) 5 = pktTypeData := by
  obtain ⟨hlong, hbyte⟩ := List.getElem?_eq_some_iff.mp h
  rw [receiveInto_type msg2 bytes hlong, List.getD_eq_getElem _ _ hlong, hbyte]

/-- A turn adds a packet at most, behind those that are there. -/
theorem Poll.keep_cases (poll : Poll) (msg2 : Octets msg2Total) (packets : List Bytes) :
    poll.keep msg2 packets = packets ∨
      ∃ bytes, poll.result = .datagram bytes ∧ poll.allocated = true ∧
        (IsData bytes ∨ bytes.length ≤ 5) ∧
        poll.keep msg2 packets = packets ++ [bytes.take msg2Total] := by
  unfold Poll.keep
  split
  next bytes hbytes =>
    dsimp only
    split
    next hkept =>
      rw [receiveInto_take]
      exact Or.inr ⟨bytes, hbytes, hkept.2.2, isData_of_type hkept.1, rfl⟩
    next => exact Or.inl rfl
  next => exact Or.inl rfl

/-- A DATA packet is kept, as far as the array holds it, if memory can be had. -/
theorem Poll.keep_of_isData {bytes : Bytes} (hbytes : poll.result = .datagram bytes)
    (hdata : IsData bytes) (hroom : packets.length < rehandshakeBufferSize) :
    poll.keep msg2 packets =
      if poll.allocated then packets ++ [bytes.take msg2Total] else packets := by
  unfold Poll.keep
  rw [hbytes]
  dsimp only
  rw [type_of_isData hdata, receiveInto_take]
  cases poll.allocated with
  | true => rw [if_pos ⟨rfl, hroom, rfl⟩, if_pos rfl]
  | false => rw [if_neg (by simp), if_neg Bool.false_ne_true]

theorem length_bufferAfter (msg2 : Octets msg2Total) (packets : List Bytes)
    (noise : List Poll) :
    (bufferAfter msg2 packets noise).length ≤ packets.length + noise.length := by
  induction noise generalizing msg2 packets with
  | nil => exact le_rfl
  | cons poll noise ih =>
      refine (ih (poll.array msg2) (poll.keep msg2 packets)).trans ?_
      rcases poll.keep_cases msg2 packets with hkeep | ⟨bytes, _, _, _, hkeep⟩
      · rw [hkeep, List.length_cons]
        omega
      · rw [hkeep, List.length_append, List.length_singleton, List.length_cons]
        omega

theorem bufferAfter_starts (msg2 : Octets msg2Total) (packets : List Bytes)
    (noise : List Poll) : packets <+: bufferAfter msg2 packets noise := by
  induction noise generalizing msg2 packets with
  | nil => exact List.prefix_rfl
  | cons poll noise ih =>
      refine List.IsPrefix.trans ?_ (ih (poll.array msg2) (poll.keep msg2 packets))
      rcases poll.keep_cases msg2 packets with hkeep | ⟨bytes, _, _, _, hkeep⟩
      · rw [hkeep]
      · rw [hkeep]
        exact List.prefix_append _ _

/-- Where a packet of the buffer comes from. -/
theorem mem_bufferAfter {packet : Bytes} {noise : List Poll}
    (h : packet ∈ bufferAfter msg2 packets noise) :
    packet ∈ packets ∨ ∃ poll ∈ noise, ∃ bytes, poll.result = .datagram bytes ∧
      poll.allocated = true ∧ (IsData bytes ∨ bytes.length ≤ 5) ∧
      packet = bytes.take msg2Total := by
  induction noise generalizing msg2 packets with
  | nil => exact Or.inl h
  | cons poll noise ih =>
      rcases ih h with hkept | ⟨later, hlater, hfrom⟩
      · rcases poll.keep_cases msg2 packets with hkeep | ⟨bytes, hbytes, hmem, hdata, hkeep⟩
        · rw [hkeep] at hkept
          exact Or.inl hkept
        · rw [hkeep, List.mem_append, List.mem_singleton] at hkept
          rcases hkept with hold | hnew
          · exact Or.inl hold
          · exact Or.inr ⟨poll, List.mem_cons_self, bytes, hbytes, hmem, hdata, hnew⟩
      · exact Or.inr ⟨later, List.mem_cons_of_mem poll hlater, hfrom⟩

theorem receiveMsg2_waiting_of_append {first second : List Poll}
    (h : (receiveMsg2 deadline (first ++ second) attempts msg2 (some packets)).1 =
      .waiting) :
    (receiveMsg2 deadline first attempts msg2 (some packets)).1 = .waiting := by
  induction first generalizing attempts msg2 packets with
  | nil =>
      have hcount : attempts < maxDiscardAttempts := by
        cases second with
        | nil => exact (receiveMsg2_append [] [] h).1
        | cons poll rest => exact (receiveMsg2_waiting h).1
      rw [receiveMsg2, if_neg (by omega)]
  | cons poll first ih =>
      obtain ⟨hcount, hstays⟩ := receiveMsg2_waiting h
      rw [List.cons_append, receiveMsg2_turn _ hcount hstays] at h
      rw [receiveMsg2_turn _ hcount hstays]
      exact ih h

/-- A turn that ends the loop leaves the buffer as it is. -/
theorem receiveMsg2_ended (rest : List Poll)
    (h : ¬(attempts < maxDiscardAttempts ∧ poll.Stays deadline msg2)) :
    (receiveMsg2 deadline (poll :: rest) attempts msg2 (some packets)).2 = some packets := by
  rw [receiveMsg2]
  split
  · rfl
  next hcount =>
  dsimp only
  split
  · rfl
  next htime =>
  have hends : ¬(poll.result = .again ∨ ∃ bytes, poll.result = .datagram bytes ∧ bytes ≠ [] ∧
      peek (receiveInto msg2 bytes).val (fun _ => 0) 5 ≠ pktTypeHandshake) := fun hstays =>
    h ⟨by omega, not_le.mp htime, hstays⟩
  cases hresult : poll.result with
  | selectFailed | selectTimeout | recvFailed => rfl
  | again => exact absurd (Or.inl hresult) hends
  | datagram bytes =>
      dsimp only
      split
      · rfl
      next hne =>
      split
      next htype => exact absurd (Or.inr ⟨bytes, hresult, hne, htype⟩) hends
      next => split <;> rfl

/-- The turn that receives MSG2 is one of them. -/
theorem receiveMsg2_received {received : Octets msg2Total}
    (h : (receiveMsg2 deadline [poll] attempts msg2 (some packets)).1 = .received received) :
    (receiveMsg2 deadline [poll] attempts msg2 (some packets)).2 = some packets := by
  apply receiveMsg2_ended
  rintro ⟨hcount, hstays⟩
  rw [receiveMsg2_turn [] hcount hstays, receiveMsg2] at h
  split at h <;> cases h

end Loop

/-- The buffer after these polls. -/
def bufferOf (waits : Int) (uninit : Octets msg2Total) (polls : List Poll) : List Bytes :=
  (receiveMsg2 (waits + msg2TimeoutSec) polls 0 uninit (some [])).2.getD []

theorem clientHandshake_buffer {na : Sodium} {serverPk : Octets pubkeyLen}
    {eph : Ephemeral} {msg1Sent : Bool} {start : Int} {uninit : Octets msg2Total}
    {buffer : Option (List Bytes)} {polls : List Poll} {session : ClientSession}
    (h : (clientHandshake na serverPk eph msg1Sent start uninit buffer polls).1 =
      .established session) :
    (clientHandshake na serverPk eph msg1Sent start uninit buffer polls).2 =
      (receiveMsg2 (start + msg2TimeoutSec) polls 0 uninit buffer).2 := by
  unfold clientHandshake at h ⊢
  split at h
  · cases h
  split at h
  · cases h
  next hsent =>
    rw [if_neg hsent]
    split at h
    · cases h
    · cases h
    next msg2 rest hloop =>
      rw [hloop]
      dsimp only at h ⊢
      split at h
      · cases h
      · rfl

/-- A rehandshake that succeeds frees what it has buffered. -/
theorem rehandshakeClientWithState_events {na : Sodium} {serverPk : Octets pubkeyLen}
    {eph : Ephemeral} {msg1Sent : Bool} {started waits ended : Int}
    {uninit : Octets msg2Total} {polls : List Poll} {srv : Connection}
    {new : ClientSession}
    (h : (rehandshakeClientWithState na serverPk eph msg1Sent started waits ended uninit
      polls srv).2.1 = .established new) :
    (rehandshakeClientWithState na serverPk eph msg1Sent started waits ended uninit
        polls srv).2.2 = rehandshakeBufferFree (bufferOf waits uninit polls) ∧
      ∃ msg2, (receiveMsg2 (waits + msg2TimeoutSec) polls 0 uninit (some [])).1 =
        .received msg2 := by
  unfold rehandshakeClientWithState at h ⊢
  dsimp only at h ⊢
  split at h
  · cases h
  · cases h
  next session buffer hhandshake =>
    have hestablished : (clientHandshake na serverPk eph msg1Sent waits uninit (some [])
        polls).1 = .established session := by rw [hhandshake]
    have hbuffer := clientHandshake_buffer hestablished
    obtain ⟨_, msg2, _, hreceived, _⟩ := clientHandshake_established hestablished
    rw [hhandshake] at hbuffer
    dsimp only at hbuffer ⊢
    rw [hbuffer]
    exact ⟨rfl, msg2, hreceived⟩

theorem openPacket_short {na : Sodium} {session : ClientSession} {packet : Bytes}
    (h : packet.length ≤ dataHeaderLen) : openPacket na session packet = none := by
  unfold openPacket
  rw [if_pos h, ite_self]

section Kept

variable {waits : Int} {uninit : Octets msg2Total} {noise : List Poll}

theorem bufferOf_waiting
    (h : (receiveMsg2 (waits + msg2TimeoutSec) noise 0 uninit (some [])).1 = .waiting) :
    bufferOf waits uninit noise = bufferAfter uninit [] noise := by
  unfold bufferOf
  rw [receiveMsg2_buffer noise h, Option.getD_some]

theorem bufferOf_received {last : Poll} {msg2 : Octets msg2Total}
    (h : (receiveMsg2 (waits + msg2TimeoutSec) noise 0 uninit (some [])).1 = .waiting)
    (hreceived : (receiveMsg2 (waits + msg2TimeoutSec) (noise ++ [last]) 0 uninit
      (some [])).1 = .received msg2) :
    bufferOf waits uninit (noise ++ [last]) = bufferAfter uninit [] noise := by
  have hlast := (receiveMsg2_append noise [last] h).2
  rw [hlast] at hreceived
  unfold bufferOf
  rw [hlast, receiveMsg2_received hreceived, Option.getD_some]

/-- The turn of a DATA packet that arrives while the loop waits. -/
theorem bufferOf_turn
    (h : (receiveMsg2 (waits + msg2TimeoutSec) noise 0 uninit (some [])).1 = .waiting)
    {before after : List Poll} {poll : Poll} (hnoise : noise = before ++ poll :: after)
    {bytes : Bytes} (hbytes : poll.result = .datagram bytes) (hdata : IsData bytes) :
    before.length < maxDiscardAttempts ∧
      bufferOf waits uninit (before ++ [poll]) =
        (if poll.allocated then bufferOf waits uninit before ++ [bytes.take msg2Total]
          else bufferOf waits uninit before) ∧
      bufferOf waits uninit (before ++ [poll]) <+: bufferAfter uninit [] noise := by
  have hsplit : noise = (before ++ [poll]) ++ after := by
    rw [hnoise, List.append_assoc, List.singleton_append]
  rw [hsplit] at h
  have hturn := receiveMsg2_waiting_of_append h
  have hbefore := receiveMsg2_waiting_of_append hturn
  obtain ⟨hcount, _⟩ := receiveMsg2_append before [] hbefore
  rw [Nat.zero_add] at hcount
  have hlength := length_bufferAfter uninit [] before
  have hroom : (bufferAfter uninit [] before).length < rehandshakeBufferSize := by
    simp only [List.length_nil] at hlength
    unfold maxDiscardAttempts at hcount
    unfold rehandshakeBufferSize
    omega
  refine ⟨hcount, ?_, ?_⟩
  · rw [bufferOf_waiting hturn, bufferOf_waiting hbefore, bufferAfter_append]
    exact Poll.keep_of_isData hbytes hdata hroom
  · rw [bufferOf_waiting hturn, hsplit, bufferAfter_append _ _ _ after]
    exact bufferAfter_starts _ _ _

/-- Every DATA packet is appended whole in its turn exactly if each fits into the array and
gets memory. There is always room: the loop gives up before the buffer is full. -/
theorem kept_whole_iff
    (h : (receiveMsg2 (waits + msg2TimeoutSec) noise 0 uninit (some [])).1 = .waiting) :
    (∀ before poll after bytes, noise = before ++ poll :: after →
        poll.result = .datagram bytes → IsData bytes → bytes.length ≤ bufferSize →
        (before.filter Poll.isData).length < rehandshakeBufferSize →
        bufferOf waits uninit (before ++ [poll]) = bufferOf waits uninit before ++ [bytes] ∧
          bufferOf waits uninit (before ++ [poll]) <+: bufferAfter uninit [] noise) ↔
      ∀ poll ∈ noise, ∀ bytes, poll.result = .datagram bytes → IsData bytes →
        bytes.length ≤ bufferSize → bytes.length ≤ msg2Total ∧ poll.allocated = true := by
  constructor
  · intro hcomplete poll hpoll bytes hbytes hdata hsize
    obtain ⟨before, after, hnoise⟩ := List.append_of_mem hpoll
    obtain ⟨hcount, hturn, _⟩ := bufferOf_turn h hnoise hbytes hdata
    have hfew : (before.filter Poll.isData).length < rehandshakeBufferSize :=
      (List.length_filter_le _ _).trans_lt (hcount.trans (by decide))
    have hwhole := (hcomplete before poll after bytes hnoise hbytes hdata hsize hfew).1
    rw [hturn] at hwhole
    cases hmem : poll.allocated with
    | false =>
        rw [hmem, if_neg Bool.false_ne_true] at hwhole
        exact absurd hwhole.symm (by simp)
    | true =>
        rw [hmem, if_pos rfl] at hwhole
        have hsame := List.append_cancel_left hwhole
        rw [List.singleton_inj, List.take_eq_self_iff] at hsame
        exact ⟨hsame, rfl⟩
  · intro hfits before poll after bytes hnoise hbytes hdata hsize _
    have hpoll : poll ∈ noise := by
      rw [hnoise]
      exact List.mem_append_right _ List.mem_cons_self
    obtain ⟨hshort, hmem⟩ := hfits poll hpoll bytes hbytes hdata hsize
    obtain ⟨_, hturn, hstarts⟩ := bufferOf_turn h hnoise hbytes hdata
    refine ⟨?_, hstarts⟩
    rw [hturn, hmem, if_pos rfl, List.take_of_length_le hshort]

/-- The buffer holds no valid packet exactly if no DATA packet is valid as it was cut. What
else is buffered is too short to be valid. -/
theorem buffered_invalid_iff
    (h : (receiveMsg2 (waits + msg2TimeoutSec) noise 0 uninit (some [])).1 = .waiting)
    (na : Sodium) (session : ClientSession) :
    (∀ packet ∈ bufferAfter uninit [] noise, openPacket na session packet = none) ↔
      ∀ poll ∈ noise, ∀ bytes, poll.result = .datagram bytes → IsData bytes →
        poll.allocated = true → openPacket na session (bytes.take msg2Total) = none := by
  constructor
  · intro hinvalid poll hpoll bytes hbytes hdata hmem
    obtain ⟨before, after, hnoise⟩ := List.append_of_mem hpoll
    obtain ⟨_, hturn, hstarts⟩ := bufferOf_turn h hnoise hbytes hdata
    refine hinvalid _ (hstarts.subset ?_)
    rw [hturn, hmem, if_pos rfl]
    exact List.mem_append_right _ (List.mem_singleton_self _)
  · intro hinvalid packet hpacket
    rcases mem_bufferAfter hpacket with hnone | ⟨poll, hpoll, bytes, hbytes, hmem, hkind, hcut⟩
    · cases hnone
    rcases hkind with hdata | hshort
    · rw [hcut]
      exact hinvalid poll hpoll bytes hbytes hdata hmem
    · have hlength : packet.length ≤ dataHeaderLen := by
        rw [hcut, List.length_take]
        exact (min_le_right _ _).trans (hshort.trans (by decide))
      exact openPacket_short hlength

end Kept

/-- A rehandshake that succeeds after the polls `noise`. The DATA packets among them,
`BUFFER_SIZE` bytes long or less, are appended to the buffer whole, each in its turn, and
every packet of the buffer that is valid under the old key is given to the reassembly
once, exactly if the DATA packets fit into the array for MSG2 and get memory, and no
packet of the buffer is valid under the old key. -/
theorem rehandshake_data_kept_iff (na : Sodium) (serverPk : Octets pubkeyLen)
    (eph : Ephemeral) (msg1Sent : Bool) (started waits ended : Int)
    (uninit : Octets msg2Total) (srv : Connection) (noise : List Poll) (last : Poll)
    (new : ClientSession)
    (hwaiting : (receiveMsg2 (waits + msg2TimeoutSec) noise 0 uninit (some [])).1 =
      .waiting)
    (hsucceeds : (rehandshakeClientWithState na serverPk eph msg1Sent started waits ended
      uninit (noise ++ [last]) srv).2.1 = .established new) :
    let buffered := bufferOf waits uninit (noise ++ [last])
    let events := (rehandshakeClientWithState na serverPk eph msg1Sent started waits ended
      uninit (noise ++ [last]) srv).2.2
    ((∀ before poll after bytes, noise = before ++ poll :: after →
        poll.result = .datagram bytes → IsData bytes → bytes.length ≤ bufferSize →
        (before.filter Poll.isData).length < rehandshakeBufferSize →
        bufferOf waits uninit (before ++ [poll]) = bufferOf waits uninit before ++ [bytes] ∧
          bufferOf waits uninit (before ++ [poll]) <+: buffered) ∧
      ∀ packet ∈ buffered, ∀ plain, openPacket na srv.session packet = some plain →
        events.count (.reassembled packet plain) = buffered.count packet) ↔
    (∀ poll ∈ noise, ∀ bytes, poll.result = .datagram bytes → IsData bytes →
        bytes.length ≤ bufferSize → bytes.length ≤ msg2Total ∧ poll.allocated = true) ∧
      ∀ poll ∈ noise, ∀ bytes, poll.result = .datagram bytes → IsData bytes →
        poll.allocated = true →
        openPacket na srv.session (bytes.take msg2Total) = none := by
  intro buffered events
  obtain ⟨hevents, msg2, hreceived⟩ := rehandshakeClientWithState_events hsucceeds
  have hbuffered : buffered = bufferAfter uninit [] noise :=
    bufferOf_received hwaiting hreceived
  have hnever (packet plain : Bytes) : events.count (.reassembled packet plain) = 0 := by
    refine List.count_eq_zero_of_not_mem ?_
    change _ ∉ (rehandshakeClientWithState na serverPk eph msg1Sent started waits ended
      uninit (noise ++ [last]) srv).2.2
    rw [hevents]
    simp [rehandshakeBufferFree]
  -- Nothing is ever reassembled, so a valid packet in the buffer is a lost one.
  have hlost : (∀ packet ∈ buffered, ∀ plain, openPacket na srv.session packet = some plain →
      events.count (.reassembled packet plain) = buffered.count packet) ↔
      ∀ packet ∈ buffered, openPacket na srv.session packet = none := by
    constructor
    · intro hpassed packet hpacket
      refine Option.eq_none_iff_forall_ne_some.mpr fun plain hopen => ?_
      have hcount := hpassed packet hpacket plain hopen
      rw [hnever] at hcount
      exact absurd hcount.symm (List.count_pos_iff.mpr hpacket).ne'
    · intro hinvalid packet hpacket plain hopen
      rw [hinvalid packet hpacket] at hopen
      cases hopen
  rw [hlost, hbuffered]
  exact and_congr (kept_whole_iff hwaiting) (buffered_invalid_iff hwaiting na srv.session)

/-- A DATA packet of the old session, whose id and key are zero, with `n` zero bytes
behind its type. -/
def zeroPacket (n : Nat) : Poll :=
  ⟨0, .datagram ([0, 0, 0, 0, pktVersion, pktTypeData] ++ List.replicate n 0), true⟩

/-- An MSG2 for zero keys. -/
def zeroMsg2 : Poll :=
  ⟨1, .datagram (buildMsg2 .little (Octets.zero pubkeyLen) (Octets.zero 8) (Octets.zero 4)
    (Octets.zero sigLen)), true⟩

def zeroSession : ClientSession :=
  ⟨Octets.zero sessionIdLen, Octets.zero aeadKeyLen, Octets.zero aeadKeyLen, Octets.zero 4⟩

/-- What the handshake with zero keys computes from them. -/
def toySession : ClientSession :=
  ⟨Octets.zero sessionIdLen, Octets.fill aeadKeyLen 1, Octets.fill aeadKeyLen 34,
    Octets.zero 4⟩

/-- A packet that is too short to be valid is kept as it is. -/
theorem rehandshake_data_kept_iff_short :
    let srv := Connection.opened zeroSession 0
    let buffered := bufferOf 0 (Octets.zero msg2Total) ([zeroPacket 20] ++ [zeroMsg2])
    let events := (rehandshakeClientWithState Sodium.xorSodium (Octets.zero pubkeyLen)
      ⟨Octets.zero privkeyLen, Octets.zero 8⟩ true 0 0 1 (Octets.zero msg2Total)
      ([zeroPacket 20] ++ [zeroMsg2]) srv).2.2
    buffered.map List.length = [26] ∧
    (∀ before poll after bytes, [zeroPacket 20] = before ++ poll :: after →
      poll.result = .datagram bytes → IsData bytes → bytes.length ≤ bufferSize →
      (before.filter Poll.isData).length < rehandshakeBufferSize →
      bufferOf 0 (Octets.zero msg2Total) (before ++ [poll]) =
          bufferOf 0 (Octets.zero msg2Total) before ++ [bytes] ∧
        bufferOf 0 (Octets.zero msg2Total) (before ++ [poll]) <+: buffered) ∧
    ∀ packet ∈ buffered, ∀ plain, openPacket Sodium.xorSodium srv.session packet = some plain →
      events.count (.reassembled packet plain) = buffered.count packet := by
  have hsucceeds : (rehandshakeClientWithState Sodium.xorSodium (Octets.zero pubkeyLen)
      ⟨Octets.zero privkeyLen, Octets.zero 8⟩ true 0 0 1 (Octets.zero msg2Total)
      ([zeroPacket 20] ++ [zeroMsg2]) (Connection.opened zeroSession 0)).2.1 =
        .established toySession := by decide +kernel
  have hwaiting : (receiveMsg2 (0 + msg2TimeoutSec) [zeroPacket 20] 0
      (Octets.zero msg2Total) (some [])).1 = .waiting := by decide +kernel
  have hiff := rehandshake_data_kept_iff Sodium.xorSodium (Octets.zero pubkeyLen)
    ⟨Octets.zero privkeyLen, Octets.zero 8⟩ true 0 0 1 (Octets.zero msg2Total)
    (Connection.opened zeroSession 0) [zeroPacket 20] zeroMsg2 toySession hwaiting hsucceeds
  refine ⟨by decide +kernel, hiff.mpr ⟨?_, ?_⟩⟩
  · intro poll hpoll bytes hbytes _ _
    rw [List.mem_singleton.mp hpoll] at hbytes ⊢
    cases hbytes
    exact ⟨by decide, rfl⟩
  · intro poll hpoll bytes hbytes _ _
    rw [List.mem_singleton.mp hpoll] at hbytes
    cases hbytes
    exact openPacket_short (by decide)

/-- Of a packet of 156 bytes only 114 are kept. One of 66 bytes is kept whole, but although
it is valid under the old key it is freed and never reassembled. -/
theorem rehandshake_data_lost :
    let srv := Connection.opened zeroSession 0
    let polls := [zeroPacket 150, zeroPacket 60, zeroMsg2]
    let buffered := bufferOf 0 (Octets.zero msg2Total) polls
    let outcome := rehandshakeClientWithState Sodium.xorSodium (Octets.zero pubkeyLen)
      ⟨Octets.zero privkeyLen, Octets.zero 8⟩ true 0 0 1 (Octets.zero msg2Total) polls srv
    outcome.2.1 = .established toySession ∧ buffered.map List.length = [114, 66] ∧
      (∀ packet ∈ buffered,
        (openPacket Sodium.xorSodium srv.session packet).isSome = true) ∧
      outcome.2.2 = buffered.map .freed := by
  decide +kernel

end Chamlon.Client
