import Mathlib.Tactic
import Chamlon.Client.RekeyBuffer
import Chamlon.Lib.Gate
import Chamlon.Lib.Machine
import Chamlon.Reassembly.Run
import Chamlon.ReplayHistory

/-!
The client's inbound path, `handle_udp_packet` from `vpn_packet_handler.c`, and the
receiving side of the client as a machine: datagrams, the sweeps of the event loop and
rehandshakes that succeed.

The function does more before it decrypts than it needs to, and in another order than
the server: version and type are read before the length is known, the magic never. All
of this ends in one test, whether the datagram opens under the session of the moment. A
datagram that does not open leaves no trace, so a run is the run of the datagrams that
open, and of these none is taken twice.
-/

namespace Chamlon.Client

open Config Memory Machine Reassembly

/-- What the receiving side of the client reads and writes. -/
structure Receiver where
  srv : Connection
  table : ReassemblyTable
  /-- `exit(0)` was called. -/
  exited : Bool

/-- What one call sees of the world: the time, the bytes of `buf` behind the datagram and
those of `plain` behind the plaintext. -/
structure UdpEnv where
  now : Int
  past : Nat → UInt8
  stack : Nat → UInt8

inductive InboundEvent where
  /-- A datagram reached `update_window`. -/
  | accepted (sessionId : Octets sessionIdLen) (seq : BitVec 64) (plain : Bytes)
  | reassembly (event : ReassemblyEvent)
  /-- A rehandshake put a new session into `servers[0]`. -/
  | installed (sessionId : Octets sessionIdLen)
  /-- `exit(0)` after a DISCONNECT. -/
  | exit
deriving DecidableEq

/-- `pkt_seq`, read big-endian from the eight bytes behind the session id. -/
def udpSeq (buf : Bytes) : BitVec 64 :=
  BitVec.ofNat 64 (Endian.big.decode (field 8 buf (protoHeaderLen + sessionIdLen)).val)

/-- The code after `update_window`. -/
def udpAccepted (order : Endian) (env : UdpEnv) (plain : Bytes) (s : Receiver) :
    Receiver × List InboundEvent :=
  match udpPlain order env.stack env.now plain s.table with
  | .tooShort => (s, [])
  | .dummy => (s, [])
  | .keepalive => ({ s with srv := { s.srv with lastServerKeepaliveTime := env.now } }, [])
  | .disconnect => ({ s with exited := true }, [.exit])
  | .fragment outcome =>
      ({ s with table := outcome.tableAfter s.table }, outcome.events.map .reassembly)

/-- The window after `update_window`. -/
def Receiver.record (s : Receiver) (seq : BitVec 64) : Receiver :=
  { s with srv := { s.srv with rw := s.srv.rw.updateWindow seq } }

@[simp] theorem Receiver.record_session (s : Receiver) (seq : BitVec 64) :
    (s.record seq).srv.session = s.srv.session := rfl

@[simp] theorem Receiver.record_rw (s : Receiver) (seq : BitVec 64) :
    (s.record seq).srv.rw = s.srv.rw.updateWindow seq := rfl

@[simp] theorem Receiver.record_table (s : Receiver) (seq : BitVec 64) :
    (s.record seq).table = s.table := rfl

/-- `handle_udp_packet` on the datagram that `recvfrom` takes from the socket. What does
not fit into `buf` is cut off. -/
def handleUdpPacket (na : Sodium) (order : Endian) (env : UdpEnv) (packet : Bytes)
    (s : Receiver) : Receiver × List InboundEvent :=
  let buf := packet.take bufferSize
  if buf.length = 0 then (s, [])
  else if peek buf env.past 4 ≠ pktVersion then (s, [])
  else if peek buf env.past 5 ≠ pktTypeData then (s, [])
  else if buf.length ≤ dataHeaderLen then (s, [])
  else if field sessionIdLen buf protoHeaderLen ≠ s.srv.session.sessionId then (s, [])
  else if s.srv.rw.checkReplay (udpSeq buf) then (s, [])
  else
    match na.decrypt s.srv.session.kRecv s.srv.session.sessionId (udpSeq buf)
        (slice buf dataHeaderLen (buf.length - dataHeaderLen)) with
    | none => (s, [])
    | some plain =>
        let result := udpAccepted order env plain (s.record (udpSeq buf))
        (result.1, .accepted s.srv.session.sessionId (udpSeq buf) plain :: result.2)

inductive InboundAct where
  | udp (env : UdpEnv) (packet : Bytes)
  /-- `sweep_reassembly_table` from the event loop. -/
  | sweep (now : Int)
  /-- `rehandshake_client_with_state` succeeded. -/
  | rehandshake (new : ClientSession) (now : Int)

def inboundStep (na : Sodium) (order : Endian) (s : Receiver) (act : InboundAct) :
    Receiver × List InboundEvent :=
  if s.exited then (s, [])
  else
    match act with
    | .udp env packet => handleUdpPacket na order env packet s
    | .sweep now => ({ s with table := sweepReassemblyTable now s.table }, [])
    | .rehandshake new now =>
        ({ s with srv := s.srv.rehandshakeSucceeded new now }, [.installed new.sessionId])

/-- At the start of the event loop. -/
def Receiver.start (session : ClientSession) (now : Int) : Receiver :=
  ⟨.opened session now, emptyTable, false⟩

section Spec

variable {na : Sodium} {order : Endian} {env : UdpEnv} {s : Receiver}

theorem peek_of_long {buf : Bytes} (past past' : Nat → UInt8) {i : Nat}
    (h : i < buf.length) : peek buf past i = peek buf past' i := by
  unfold peek
  rw [List.getD_eq_getElem _ _ h, List.getD_eq_getElem _ _ h]

/-- The datagram passes every test before the replay window. -/
def Addressed (session : ClientSession) (buf : Bytes) : Prop :=
  dataHeaderLen < buf.length ∧ peek buf (fun _ => 0) 4 = pktVersion ∧
    peek buf (fun _ => 0) 5 = pktTypeData ∧
    field sessionIdLen buf protoHeaderLen = session.sessionId

theorem openPacket_of_addressed {session : ClientSession} {buf : Bytes}
    (h : Addressed session buf) :
    openPacket na session buf = na.decrypt session.kRecv session.sessionId (udpSeq buf)
      (slice buf dataHeaderLen (buf.length - dataHeaderLen)) := by
  obtain ⟨hlong, hversion, htype, hid⟩ := h
  unfold openPacket
  rw [if_neg (by simp [hversion, htype]), if_neg (not_le.mpr hlong), if_neg (not_not.mpr hid)]
  rfl

theorem openPacket_of_not_addressed {session : ClientSession} {buf : Bytes}
    (h : ¬Addressed session buf) : openPacket na session buf = none := by
  unfold openPacket
  split
  · rfl
  next hheader =>
  split
  · rfl
  next hlong =>
  split
  · rfl
  next hid =>
    rw [not_or, not_not, not_not] at hheader
    exact absurd ⟨not_le.mp hlong, hheader.1, hheader.2, not_not.mp hid⟩ h

/-- A datagram is taken when it opens under the session of the moment and its number is
new to the window. -/
theorem handleUdpPacket_eq (packet : Bytes) :
    handleUdpPacket na order env packet s =
      match openPacket na s.srv.session (packet.take bufferSize) with
      | none => (s, [])
      | some plain =>
          let seq := udpSeq (packet.take bufferSize)
          if s.srv.rw.checkReplay seq then (s, [])
          else
            let result := udpAccepted order env plain (s.record seq)
            (result.1, .accepted s.srv.session.sessionId seq plain :: result.2) := by
  unfold handleUdpPacket
  dsimp only
  generalize packet.take bufferSize = buf
  by_cases hopen : Addressed s.srv.session buf
  · rw [openPacket_of_addressed hopen]
    obtain ⟨hlong, hversion, htype, hid⟩ := hopen
    rw [if_neg (by omega), peek_of_long env.past (fun _ => 0) (lt_trans (by decide) hlong),
      if_neg (not_not.mpr hversion),
      peek_of_long env.past (fun _ => 0) (lt_trans (by decide) hlong),
      if_neg (not_not.mpr htype), if_neg (not_le.mpr hlong), if_neg (not_not.mpr hid)]
    cases na.decrypt s.srv.session.kRecv s.srv.session.sessionId (udpSeq buf)
        (slice buf dataHeaderLen (buf.length - dataHeaderLen)) with
    | none => split <;> rfl
    | some plain => rfl
  · rw [openPacket_of_not_addressed hopen]
    split
    · rfl
    split
    · rfl
    next hversion =>
    split
    · rfl
    next htype =>
    split
    · rfl
    next hlong =>
    split
    · rfl
    next hid =>
      have hlength := not_le.mp hlong
      rw [peek_of_long env.past (fun _ => 0) (lt_trans (by decide) hlength), not_not]
        at hversion htype
      exact absurd ⟨hlength, hversion, htype, not_not.mp hid⟩ hopen

/-- The header is read from the plaintext alone, whatever lies behind it. -/
theorem udpPlain_congr (stack stack' : Nat → UInt8) (now : Int) (plain : Bytes)
    (table : ReassemblyTable) :
    udpPlain order stack now plain table = udpPlain order stack' now plain table := by
  unfold udpPlain
  split
  · rfl
  next hlong =>
    have hheader : readHeader order (peek plain stack) = readHeader order (peek plain stack') :=
      readHeader_peek_congr order plain stack stack'
        ((show 8 ≤ tunnelHeaderLen by decide).trans (Nat.le_of_not_lt hlong))
    unfold dispatchPlain
    rw [hheader]

theorem udpAccepted_congr (env env' : UdpEnv) (hnow : env.now = env'.now) (plain : Bytes)
    (s : Receiver) : udpAccepted order env plain s = udpAccepted order env' plain s := by
  unfold udpAccepted
  rw [udpPlain_congr env.stack env'.stack, hnow]

/-- After `update_window` the session, the counter and the window stay as they are. -/
theorem udpAccepted_srv (order : Endian) (env : UdpEnv) (plain : Bytes) (s : Receiver) :
    (udpAccepted order env plain s).1.srv.session = s.srv.session ∧
      (udpAccepted order env plain s).1.srv.rw = s.srv.rw := by
  unfold udpAccepted
  split <;> exact ⟨rfl, rfl⟩

end Spec

/-! ## Stale memory -/

/-- The act as it would be with zeros behind the datagram and behind the plaintext. -/
def InboundAct.blank : InboundAct → InboundAct
  | .udp env packet => .udp ⟨env.now, fun _ => 0, fun _ => 0⟩ packet
  | act => act

theorem inboundStep_blank (na : Sodium) (order : Endian) (s : Receiver) (act : InboundAct) :
    inboundStep na order s act = inboundStep na order s act.blank := by
  cases act with
  | udp env packet =>
      unfold inboundStep InboundAct.blank
      dsimp only
      rw [handleUdpPacket_eq, handleUdpPacket_eq]
      dsimp only
      split
      · rfl
      split
      · rfl
      next plain _ =>
        rw [udpAccepted_congr env ⟨env.now, fun _ => 0, fun _ => 0⟩ rfl]
  | sweep now => rfl
  | rehandshake new now => rfl

/-- `handle_udp_packet` looks at the version and the type of a datagram before it knows
that there are any, and at the tunnel header in an array that is not initialised. Over
every run the bytes it may find there do not matter. -/
theorem client_ignores_stale_memory (na : Sodium) (order : Endian) (s : Receiver)
    (acts : List InboundAct) :
    run (inboundStep na order) s acts =
      run (inboundStep na order) s (acts.map InboundAct.blank) := by
  induction acts generalizing s with
  | nil => rfl
  | cons act rest ih =>
      simp only [List.map_cons, run, ← inboundStep_blank, ih]

/-! ## Datagrams that are refused -/

/-- Everything but a datagram that does not open or whose number the window refuses. -/
def Taken (na : Sodium) (s : Receiver) : InboundAct → Prop
  | .udp _ packet =>
      (openPacket na s.srv.session (packet.take bufferSize)).isSome ∧
        s.srv.rw.checkReplay (udpSeq (packet.take bufferSize)) = false
  | _ => True

instance (na : Sodium) (s : Receiver) : (act : InboundAct) → Decidable (Taken na s act)
  | .udp _ _ => inferInstanceAs (Decidable (_ ∧ _))
  | .sweep _ => inferInstanceAs (Decidable True)
  | .rehandshake _ _ => inferInstanceAs (Decidable True)

theorem inboundStep_of_not_taken {na : Sodium} {order : Endian} {s : Receiver}
    {act : InboundAct} (h : ¬Taken na s act) : inboundStep na order s act = (s, []) := by
  unfold inboundStep
  split
  · rfl
  cases act with
  | udp env packet =>
      dsimp only
      rw [handleUdpPacket_eq]
      cases hopen : openPacket na s.srv.session (packet.take bufferSize) with
      | none => rfl
      | some plain =>
          have hold : s.srv.rw.checkReplay (udpSeq (packet.take bufferSize)) = true := by
            by_contra hnew
            exact h ⟨by rw [hopen]; rfl, by simpa using hnew⟩
          dsimp only
          rw [if_pos hold]
  | sweep now => exact absurd trivial h
  | rehandshake new now => exact absurd trivial h

/-- Over every run, whatever anybody sends to `handle_udp_packet`: the client ends in the
same state and does the same as in the run of those datagrams alone that open under its
session of the moment and whose number is new. Forged, misdirected and repeated datagrams
leave no trace, not even in the time of the last keepalive. What `client_handshake` reads
while it waits for MSG2 is not among these datagrams. -/
theorem refused_datagrams_leave_no_trace (na : Sodium) (order : Endian) (s : Receiver)
    (acts : List InboundAct) :
    ∃ kept, kept.Sublist acts ∧ Along (inboundStep na order) (Taken na) s kept ∧
      run (inboundStep na order) s kept = run (inboundStep na order) s acts := by
  induction acts generalizing s with
  | nil => exact ⟨[], .slnil, trivial, rfl⟩
  | cons act rest ih =>
      obtain ⟨kept, hsub, halong, hrun⟩ := ih (inboundStep na order s act).1
      by_cases htaken : Taken na s act
      · refine ⟨act :: kept, hsub.cons_cons act, ⟨htaken, halong⟩, ?_⟩
        simp only [run, hrun]
      · rw [inboundStep_of_not_taken htaken] at halong hrun
        refine ⟨kept, hsub.cons act, halong, ?_⟩
        simp only [run, inboundStep_of_not_taken htaken, List.nil_append]
        exact hrun

/-! ## At most once -/

/-- The session ids that rehandshakes put into `servers[0]`. -/
def renewedIds (events : List InboundEvent) : List (Octets sessionIdLen) :=
  events.filterMap fun | .installed sessionId => some sessionId | _ => none

/-- The session ids and numbers of the datagrams that reached `update_window`. -/
def takenPairs (events : List InboundEvent) : List (Octets sessionIdLen × BitVec 64) :=
  events.filterMap fun | .accepted sessionId seq _ => some (sessionId, seq) | _ => none

@[simp] theorem renewedIds_append (first second : List InboundEvent) :
    renewedIds (first ++ second) = renewedIds first ++ renewedIds second :=
  List.filterMap_append

@[simp] theorem takenPairs_append (first second : List InboundEvent) :
    takenPairs (first ++ second) = takenPairs first ++ takenPairs second :=
  List.filterMap_append

section Accepted

variable (sessionId : Octets sessionIdLen) (seq : BitVec 64) (plain : Bytes)
  (events : List InboundEvent)

@[simp] theorem renewedIds_accepted :
    renewedIds (.accepted sessionId seq plain :: events) = renewedIds events := rfl

@[simp] theorem takenPairs_accepted :
    takenPairs (.accepted sessionId seq plain :: events) =
      (sessionId, seq) :: takenPairs events := rfl

end Accepted

/-- Neither of the two. -/
theorem udpAccepted_silent (order : Endian) (env : UdpEnv) (plain : Bytes) (s : Receiver) :
    renewedIds (udpAccepted order env plain s).2 = [] ∧
      takenPairs (udpAccepted order env plain s).2 = [] := by
  unfold udpAccepted
  split
  · exact ⟨rfl, rfl⟩
  · exact ⟨rfl, rfl⟩
  · exact ⟨rfl, rfl⟩
  · exact ⟨rfl, rfl⟩
  · exact ⟨by simp [renewedIds, List.filterMap_map],
      by simp [takenPairs, List.filterMap_map]⟩

/-- What a step does to the session and its window: nothing, it passes a number, or it
puts a new session there. -/
inductive WindowEffect (s : Receiver) : Receiver × List InboundEvent → Prop where
  | quiet {after : Receiver} {events : List InboundEvent}
      (hsession : after.srv.session = s.srv.session) (hrw : after.srv.rw = s.srv.rw)
      (hrenewed : renewedIds events = []) (haccepted : takenPairs events = []) :
      WindowEffect s (after, events)
  | accept {after : Receiver} {events : List InboundEvent} (seq : BitVec 64)
      (hnew : s.srv.rw.checkReplay seq = false)
      (hsession : after.srv.session = s.srv.session)
      (hrw : after.srv.rw = s.srv.rw.updateWindow seq)
      (hrenewed : renewedIds events = [])
      (haccepted : takenPairs events = [(s.srv.session.sessionId, seq)]) :
      WindowEffect s (after, events)
  | renew {after : Receiver} {events : List InboundEvent}
      (hrenewed : renewedIds events = [after.srv.session.sessionId])
      (haccepted : takenPairs events = []) : WindowEffect s (after, events)

theorem inboundStep_windowEffect (na : Sodium) (order : Endian) (s : Receiver)
    (act : InboundAct) : WindowEffect s (inboundStep na order s act) := by
  by_cases htaken : Taken na s act
  · unfold inboundStep
    split
    · exact .quiet rfl rfl rfl rfl
    cases act with
    | udp env packet =>
        dsimp only
        rw [handleUdpPacket_eq]
        obtain ⟨plain, hplain⟩ := Option.isSome_iff_exists.mp htaken.1
        rw [hplain]
        dsimp only
        rw [if_neg (by rw [htaken.2]; exact Bool.false_ne_true)]
        obtain ⟨hsession, hrw⟩ := udpAccepted_srv order env plain
          (s.record (udpSeq (packet.take bufferSize)))
        obtain ⟨hrenewed, haccepted⟩ := udpAccepted_silent order env plain
          (s.record (udpSeq (packet.take bufferSize)))
        rw [Receiver.record_session] at hsession
        rw [Receiver.record_rw] at hrw
        refine .accept (udpSeq (packet.take bufferSize)) htaken.2 hsession hrw ?_ ?_
        · rw [renewedIds_accepted]
          exact hrenewed
        · rw [takenPairs_accepted, haccepted]
    | sweep now =>
        dsimp only
        exact .quiet rfl rfl rfl rfl
    | rehandshake new now =>
        dsimp only
        exact .renew rfl rfl
  · rw [inboundStep_of_not_taken htaken]
    exact .quiet rfl rfl rfl rfl

section AtMostOnce

open ReplayWindow

theorem WindowEffect.passed {s : Receiver} {result : Receiver × List InboundEvent}
    (h : WindowEffect s result) {names : List (Octets sessionIdLen)}
    {past : List (Octets sessionIdLen × BitVec 64)}
    (hpast : windowGate.Passed names s.srv.session.sessionId s.srv.rw past)
    (hnew : ∀ id ∈ renewedIds result.2, id ∉ names) :
    windowGate.Passed (names ++ renewedIds result.2) result.1.srv.session.sessionId
      result.1.srv.rw (past ++ takenPairs result.2) := by
  cases h with
  | quiet hsession hrw hrenewed haccepted =>
      dsimp only
      rw [hrenewed, haccepted, hsession, hrw, List.append_nil, List.append_nil]
      exact hpast
  | accept seq hfresh hsession hrw hrenewed haccepted =>
      dsimp only
      rw [hrenewed, haccepted, hsession, hrw, List.append_nil]
      exact hpast.pass hfresh
  | renew hrenewed haccepted =>
      dsimp only at hnew ⊢
      rw [hrenewed] at hnew
      rw [hrenewed, haccepted, List.append_nil]
      exact hpast.renew (hnew _ (List.mem_singleton_self _)) _

/-- Over every run of the client, through any number of rehandshakes: if no two sessions
have the same id, each pair of session id and number reaches `update_window` at most
once. -/
theorem client_accepts_at_most_once (na : Sodium) (order : Endian) (session : ClientSession)
    (now : Int) (acts : List InboundAct)
    (hids : (session.sessionId :: renewedIds
      (run (inboundStep na order) (.start session now) acts).2).Nodup) :
    (takenPairs (run (inboundStep na order) (.start session now) acts).2).Nodup := by
  have hpassed := run_history (inboundStep na order) (fun _ _ => True)
    (fun past s => (session.sessionId :: renewedIds past).Nodup →
      windowGate.Passed (session.sessionId :: renewedIds past) s.srv.session.sessionId
        s.srv.rw (takenPairs past))
    (fun past s act h _ hnodup => by
      rw [renewedIds_append, ← List.cons_append] at hnodup ⊢
      rw [takenPairs_append]
      obtain ⟨hpast, _, hdisjoint⟩ := List.nodup_append.mp hnodup
      exact (inboundStep_windowEffect na order s act).passed (h hpast) fun id hid hold =>
        hdisjoint id hold id hid rfl)
    [] (.start session now) acts (fun _ => Gate.passed_start windowGate session.sessionId _)
    (Along.of_forall _ (fun _ => True) _ acts fun _ _ => trivial)
  exact (hpassed hids).once

/-- A dummy of this session with this number. -/
def dummyPacket (sessionId : Octets sessionIdLen) (seq : BitVec 64) : Bytes :=
  (protoHeader .little pktTypeData).val ++ sessionId.val ++ (Sodium.seqBytes seq).val ++
    [0, 0, 0, 0, 0, 0, 255, 0] ++ List.replicate 16 0

/-- A dummy comes twice and, after a rehandshake, its number comes once more. -/
theorem client_accepts_at_most_once_rekeyed :
    let zero := Octets.zero aeadKeyLen
    let first : ClientSession := ⟨Octets.zero sessionIdLen, zero, zero, Octets.zero 4⟩
    let second : ClientSession := ⟨Octets.fill sessionIdLen 1, zero, zero, Octets.zero 4⟩
    let env : UdpEnv := ⟨0, fun _ => 0, fun _ => 0⟩
    let acts : List InboundAct := [.udp env (dummyPacket first.sessionId 1),
      .udp env (dummyPacket first.sessionId 1), .rehandshake second 5,
      .udp env (dummyPacket second.sessionId 1)]
    let events := (run (inboundStep Sodium.xorSodium .little) (.start first 0) acts).2
    takenPairs events = [(first.sessionId, 1), (second.sessionId, 1)] ∧
      (takenPairs events).Nodup := by
  intro zero first second env acts events
  have hids : renewedIds events = [second.sessionId] := by decide +kernel
  refine ⟨by decide +kernel, client_accepts_at_most_once Sodium.xorSodium .little first 0
    acts ?_⟩
  change (first.sessionId :: renewedIds events).Nodup
  rw [hids]
  decide +kernel

end AtMostOnce

end Chamlon.Client
