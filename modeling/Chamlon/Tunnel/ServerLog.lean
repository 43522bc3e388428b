import Mathlib.Tactic
import Chamlon.Server.Traffic
import Chamlon.Tunnel.Journal

/-!
What the server hands to `aead_encrypt` for one slot while it serves a session there. The
machine is that of the server's traffic, with all its slots; beside the datagrams it
sends, each step has its entries in the log of the slot.

Other than the client the server goes on after a fragment that failed, so a packet is in
the log with all its fragments. A session may end with a notice: the step that expires it
takes a last number from a counter that is gone afterwards.
-/

namespace Chamlon.Tunnel

open Config Memory Machine Reassembly Queue Server

/-- The IP packet of the step, if it has this destination. -/
def packetFor (ip : Octets 4) (act : SendEnv × Server.TrafficAct) : Option Packet :=
  match act.2 with
  | .outbound id buf =>
      if h : 20 ≤ buf.length ∧ buf.length ≤ 1600 then
        if field 4 buf 16 = ip then some ⟨id, buf, h.1, h.2⟩ else none
      else none
  | _ => none

section Machine

variable (order : Endian) (env : SendEnv)

/-- What `send_control_packet` encrypts. -/
def controlPlain (ctrlType : Nat) (argv : Params) : Bytes :=
  (encodeHeader order ⟨1, 1, 1, UInt16.ofNat ctrlType⟩ env.uninit).val ++
    List.replicate (argv.frag.toNat - tunnelHeaderLen) 0x77

/-- The entries of `perform_maintenance`: a notice when the session expires, otherwise a
keepalive when it is due. -/
def maintenanceEntries (now : Int) (session : Session) : Log :=
  if session.expired now then
    [(session.sendSeq, .control (controlPlain order env pktCtrlDisconnect session.argv))]
  else if session.keepaliveDue now then
    [(session.sendSeq, .control (keepalivePlain order))]
  else []

/-- The entries of `execute_send`: a dummy or a keepalive, when nothing is queued. -/
def sendEntries (now : Int) (q : OutQueue) (session : Session) : Log :=
  if !session.outq then []
  else if session.argv.cbr = 'Y'.toUInt8 then
    if poppedNodes (outQueuePop q).2 = [] then
      [(session.sendSeq, .control (dummyPlain order session.argv))]
    else []
  else if (popAll ((q .high).length + (q .normal).length) q).isEmpty ∧
      keepaliveIntervalSec ≤ now - session.lastActivity ∧
      keepaliveIntervalSec ≤ now - session.lastActivityKeepalive then
    [(session.sendSeq, .control (controlPlain order env pktCtrlKeepalive session.argv))]
  else []

/-- The entries of one step in the log of a slot. -/
def serverEntries (sender : Sender) (i : Slot) (s : Server.Traffic)
    (act : SendEnv × Server.TrafficAct) : Log :=
  let session := s.sessions i
  match act.2 with
  | .table (.server (.maintenance now)) => maintenanceEntries order act.1 now session
  | .table _ => []
  | .outbound _ buf =>
      if sessionByVpnip (field 4 buf 16) s.sessions = some i then
        match packetFor session.vpnIp act with
        | none => []
        | some p => fragmentLog p session.sendSeq (sender.fragments order p).length
      else []
  | .executeSend now sessionId =>
      if sessionById sessionId s.sessions = some i then
        sendEntries order act.1 now (s.queues i) session
      else []
  | .drain =>
      if session.active then
        [(session.sendSeq,
          .control (controlPlain order act.1 pktCtrlDisconnect session.argv))]
      else []

end Machine

def serverLogStep (aead : Aead) (na : Sodium) (keys : ServerKeys) (order : Endian)
    (sender : Sender) (i : Slot) (s : Server.Traffic) (act : SendEnv × Server.TrafficAct) :
    Server.Traffic × Log :=
  ((Server.trafficStep aead na keys order s act).1, serverEntries order sender i s act)

/-- The slot has this session, with the options of the sender. -/
structure Carries (sender : Sender) (i : Slot) (key : Octets aeadKeyLen)
    (sessionId : Octets sessionIdLen) (ip : Octets 4) (sessions : Sessions) : Prop where
  active : (sessions i).active = true
  key : (sessions i).kSend = key
  id : (sessions i).sessionId = sessionId
  address : (sessions i).vpnIp = ip
  argv : (sessions i).argv = sender.argv

instance (sender : Sender) (i : Slot) (key : Octets aeadKeyLen)
    (sessionId : Octets sessionIdLen) (ip : Octets 4) (sessions : Sessions) :
    Decidable (Carries sender i key sessionId ip sessions) :=
  decidable_of_iff ((sessions i).active = true ∧ (sessions i).kSend = key ∧
      (sessions i).sessionId = sessionId ∧ (sessions i).vpnIp = ip ∧
      (sessions i).argv = sender.argv)
    ⟨fun h => ⟨h.1, h.2.1, h.2.2.1, h.2.2.2.1, h.2.2.2.2⟩,
      fun h => ⟨h.active, h.key, h.id, h.address, h.argv⟩⟩

/-- The step puts no session into the slot, and `read` returned at most 1600 bytes. -/
def Undisturbed (na : Sodium) (keys : ServerKeys) (order : Endian) (i : Slot)
    (sessions : Sessions) : Server.TrafficAct → Prop
  | .table op => i ∉ installedSlots (tableStep na keys order sessions op).2
  | .outbound _ buf => buf.length ≤ 1600
  | _ => True

instance (na : Sodium) (keys : ServerKeys) (order : Endian) (i : Slot)
    (sessions : Sessions) : DecidablePred (Undisturbed na keys order i sessions)
  | .table _ => inferInstanceAs (Decidable (_ ∉ _))
  | .outbound _ _ => inferInstanceAs (Decidable (_ ≤ _))
  | .executeSend _ _ => inferInstanceAs (Decidable True)
  | .drain => inferInstanceAs (Decidable True)

/-- The server sends in the session. -/
def Sending (na : Sodium) (keys : ServerKeys) (order : Endian) (sender : Sender) (i : Slot)
    (key : Octets aeadKeyLen) (sessionId : Octets sessionIdLen) (ip : Octets 4)
    (s : Server.Traffic) (act : SendEnv × Server.TrafficAct) : Prop :=
  Carries sender i key sessionId ip s.sessions ∧
    Undisturbed na keys order i s.sessions act.2

instance (na : Sodium) (keys : ServerKeys) (order : Endian) (sender : Sender) (i : Slot)
    (key : Octets aeadKeyLen) (sessionId : Octets sessionIdLen) (ip : Octets 4)
    (s : Server.Traffic) (act : SendEnv × Server.TrafficAct) :
    Decidable (Sending na keys order sender i key sessionId ip s act) :=
  inferInstanceAs (Decidable (_ ∧ _))

section Plains

variable {order : Endian}

theorem controlPlain_valid (sender : Sender) (env : SendEnv) {ctrlType : Nat}
    (hcontrol : (⟨1, 1, 1, UInt16.ofNat ctrlType⟩ : TunnelHeader).isControl = true) :
    (Cargo.control (controlPlain order env ctrlType sender.argv)).Valid sender order := by
  obtain ⟨hlow, hhigh⟩ := sender.frag_toNat
  refine control_valid sender _ _ 0x77 ?_ (hhigh.trans (by decide)) hcontrol
  unfold tunnelHeaderLen
  omega

theorem keepalivePlain_valid (sender : Sender) :
    (Cargo.control (keepalivePlain order)).Valid sender order := by
  have hfill : keepalivePlain order =
      (encodeHeader order ⟨0, 0, 0, UInt16.ofNat pktCtrlKeepalive⟩
        (Octets.zero sessionIdLen)).val ++
          List.replicate (tunnelHeaderLen - tunnelHeaderLen) 0 := by
    rw [Nat.sub_self, List.replicate_zero, List.append_nil, keepalivePlain]
  rw [hfill]
  exact control_valid sender _ _ 0 le_rfl (by decide) (by decide)

/-- The dummy of a session with options in range is its header and filling. -/
theorem dummyPlain_eq (sender : Sender) :
    dummyPlain order sender.argv =
      (encodeHeader order ⟨1, 1, 1, UInt16.ofNat pktDummy⟩ (Octets.zero sessionIdLen)).val ++
        List.replicate (sender.argv.frag.toNat - tunnelHeaderLen) 0x99 := by
  obtain ⟨hlow, hhigh⟩ := sender.frag_toNat
  have hrange : ¬((maxFrag : Int) < sender.argv.frag ∨ sender.argv.frag < 64) := by
    unfold maxFrag
    omega
  have hheader : tunnelHeaderLen ≤ sender.argv.frag.toNat := by
    unfold tunnelHeaderLen
    omega
  unfold dummyPlain
  dsimp only
  rw [if_neg hrange]
  exact List.take_of_length_le (length_header_fill order _ _ _ hheader).le

theorem dummyPlain_valid (sender : Sender) :
    (Cargo.control (dummyPlain order sender.argv)).Valid sender order := by
  obtain ⟨hlow, hhigh⟩ := sender.frag_toNat
  rw [dummyPlain_eq]
  refine control_valid sender _ _ 0x99 ?_ (hhigh.trans (by decide)) (by decide)
  unfold tunnelHeaderLen
  omega

end Plains

section Counter

variable {na : Sodium} {keys : ServerKeys} {order : Endian} {i : Slot}

/-- Forced closing frees a slot or leaves it alone. -/
theorem gracefulShutdownCleanup_slot (sessions : Sessions) (j : Slot) :
    ((gracefulShutdownCleanup sessions).1 j).active = false ∨
      (gracefulShutdownCleanup sessions).1 j = sessions j := by
  refine run_invariant forceClose (fun _ _ => True)
    (fun after => (after j).active = false ∨ after j = sessions j) ?_ sessions _ (Or.inr rfl)
    (Along.of_forall _ (fun _ => True) _ _ fun _ _ => trivial)
  intro after k h _
  unfold forceClose
  split
  · by_cases hj : j = k
    · subst hj
      exact Or.inl (by rw [freeSession_self])
    · rw [freeSession_of_ne after hj]
      exact h
  · exact h

/-- The counter of a session that an operation leaves in place. Only maintenance moves
it. -/
theorem tableStep_seq {sessions : Sessions} (op : TableOp)
    (hnone : NotInstalled i (tableStep na keys order sessions op).2)
    (hactive : ((tableStep na keys order sessions op).1 i).active = true)
    (hop : ∀ now, op ≠ .server (.maintenance now)) :
    ((tableStep na keys order sessions op).1 i).sendSeq = (sessions i).sendSeq := by
  cases op with
  | shutdown =>
      rw [tableStep_shutdown] at hactive ⊢
      rcases gracefulShutdownCleanup_slot sessions i with hfree | hsame
      · rw [hfree] at hactive
        cases hactive
      · rw [hsame]
  | server op =>
      rw [tableStep] at hactive hnone ⊢
      cases op with
      | maintenance now => exact absurd rfl (hop now)
      | free j =>
          rw [serverStep] at hactive ⊢
          by_cases hj : i = j
          · subst hj
            rw [freeSession_self] at hactive
            cases hactive
          · rw [freeSession_of_ne sessions hj]
      | datagram env src buf =>
          rw [serverStep] at hactive hnone ⊢
          cases handleInboundUdp_leaves na keys order env src buf sessions i with
          | free hfree =>
              rw [hfree] at hactive
              cases hactive
          | untouched _ hsame => rw [hsame]
          | installed sessionId hmem => exact absurd hmem (hnone sessionId)
          | heard _ _ hseq _ => exact hseq

end Counter

/-- The entries of a step, and the counter of the session if it is still there. -/
def StepCounts (sender : Sender) (order : Endian) (before after : Session)
    (packet : Option Packet) (log : Log) : Prop :=
  ∃ high, StepLog sender order before.sendSeq.toNat high packet log ∧
    (after.active = true → after.sendSeq.toNat = high)

section Steps

variable {order : Endian} {sender : Sender} {i : Slot}

/-- A step without entries. -/
theorem stepCounts_nil {before after : Session} (packet : Option Packet)
    (hseq : after.active = true → after.sendSeq = before.sendSeq) :
    StepCounts sender order before after packet [] :=
  ⟨_, stepLog_nil sender _ packet, fun hactive => by rw [hseq hactive]⟩

/-- A step that takes one number for a plaintext without payload. -/
theorem stepCounts_control {before after : Session} {plain : Bytes}
    (hroom : before.sendSeq.toNat + 1600 < 2 ^ 64)
    (hvalid : (Cargo.control plain).Valid sender order)
    (hseq : after.active = true → after.sendSeq = before.sendSeq + 1) :
    StepCounts sender order before after none [(before.sendSeq, .control plain)] :=
  ⟨_, stepLog_control hroom hvalid, fun hactive => by rw [hseq hactive]⟩

theorem maintenance_stepCounts {sessions : Sessions} (env : SendEnv) (now : Int)
    (hroom : (sessions i).sendSeq.toNat + 1600 < 2 ^ 64)
    (hargv : (sessions i).argv = sender.argv) :
    StepCounts sender order (sessions i) ((performMaintenance now sessions).1 i) none
      (maintenanceEntries order env now (sessions i)) := by
  rw [performMaintenance_slot]
  unfold maintenanceEntries
  by_cases hexpired : (sessions i).expired now = true
  · rw [if_pos hexpired, if_pos hexpired, hargv]
    exact stepCounts_control hroom (controlPlain_valid sender env (by decide)) nofun
  · rw [if_neg hexpired, if_neg hexpired]
    dsimp only
    rw [keepaliveDue_table]
    split
    · exact stepCounts_control hroom (keepalivePlain_valid sender) fun _ => rfl
    · exact stepCounts_nil none fun _ => rfl

theorem sessionByVpnip_address {ip : Octets 4} {sessions : Sessions}
    (h : sessionByVpnip ip sessions = some i) : (sessions i).vpnIp = ip := by
  have hmatch := (Fin.find?_eq_some_iff.mp h).1
  rw [Bool.and_eq_true] at hmatch
  exact eq_of_beq hmatch.2

theorem outboundTraffic_sessions (aead : Aead) (env : SendEnv) (id : UInt16) (buf : Bytes)
    (s : Server.Traffic) :
    (outboundTraffic aead order env id buf s).1.sessions =
      sendOutbound order id buf s.sessions := by
  unfold outboundTraffic sendOutbound
  split
  · rfl
  cases sessionByVpnip (field 4 buf 16) s.sessions with
  | none => rfl
  | some j => rfl

theorem sendOutbound_other {id : UInt16} {buf : Bytes} {sessions : Sessions}
    (h : sessionByVpnip (field 4 buf 16) sessions ≠ some i) :
    sendOutbound order id buf sessions i = sessions i := by
  unfold sendOutbound
  split
  · rfl
  cases hfound : sessionByVpnip (field 4 buf 16) sessions with
  | none => rfl
  | some j =>
      refine Function.update_of_ne (fun hj => ?_) _ _
      rw [hj] at h
      exact h hfound

theorem outbound_stepCounts (hside : sender.side = .server) {s : Server.Traffic}
    (env : SendEnv) (id : UInt16) {buf : Bytes}
    (hroom : (s.sessions i).sendSeq.toNat + 1600 < 2 ^ 64)
    (hargv : (s.sessions i).argv = sender.argv) (hbuf : buf.length ≤ 1600) :
    StepCounts sender order (s.sessions i) (sendOutbound order id buf s.sessions i)
      (packetFor (s.sessions i).vpnIp (env, .outbound id buf))
      (serverEntries order sender i s (env, .outbound id buf)) := by
  unfold serverEntries
  dsimp only
  by_cases hfound : sessionByVpnip (field 4 buf 16) s.sessions = some i
  · rw [if_pos hfound]
    by_cases hlong : 20 ≤ buf.length
    · have hpacket : packetFor (s.sessions i).vpnIp (env, .outbound id buf) =
          some ⟨id, buf, hlong, hbuf⟩ := by
        unfold packetFor
        dsimp only
        rw [dif_pos ⟨hlong, hbuf⟩, if_pos (sessionByVpnip_address hfound).symm]
      have hplains : sender.fragments order ⟨id, buf, hlong, hbuf⟩ =
          handleOutboundTunBuf order (s.sessions i).argv id buf := by
        unfold Sender.fragments
        rw [hside, hargv]
      have hsent : (sendOutbound order id buf s.sessions i).sendSeq =
          (s.sessions i).sendSeq + BitVec.ofNat 64
            (sender.fragments order ⟨id, buf, hlong, hbuf⟩).length := by
        unfold sendOutbound
        rw [if_neg (not_lt.mpr hlong), hfound]
        dsimp only
        rw [Function.update_self, hplains]
      rw [hpacket]
      exact ⟨_, stepLog_fragments hroom le_rfl, fun _ => by rw [hsent]⟩
    · have hpacket : packetFor (s.sessions i).vpnIp (env, .outbound id buf) = none :=
        dif_neg fun h => hlong h.1
      rw [hpacket]
      refine stepCounts_nil none fun _ => ?_
      unfold sendOutbound
      rw [if_pos (not_le.mp hlong)]
  · rw [if_neg hfound]
    exact stepCounts_nil _ fun _ => by rw [sendOutbound_other hfound]

theorem executeSend_stepCounts (aead : Aead) {s : Server.Traffic} (env : SendEnv)
    (now : Int) (sessionId : Octets sessionIdLen)
    (hroom : (s.sessions i).sendSeq.toNat + 1600 < 2 ^ 64)
    (hargv : (s.sessions i).argv = sender.argv) :
    StepCounts sender order (s.sessions i)
      ((executeSend aead order env now sessionId s).1.sessions i) none
      (serverEntries order sender i s (env, .executeSend now sessionId)) := by
  unfold serverEntries executeSend
  dsimp only
  cases sessionById sessionId s.sessions with
  | none => exact stepCounts_nil none fun _ => rfl
  | some j =>
      by_cases hj : j = i
      · subst hj
        rw [if_pos rfl]
        unfold sendEntries
        dsimp only
        split
        · exact stepCounts_nil none fun _ => rfl
        split
        · unfold executeSendCbr
          dsimp only
          cases poppedNodes (outQueuePop (s.queues j)).2 with
          | nil =>
              rw [if_pos rfl, hargv]
              refine stepCounts_control hroom (dummyPlain_valid sender) fun _ => ?_
              dsimp only
              rw [Function.update_self]
              rfl
          | cons node rest =>
              rw [if_neg (List.cons_ne_nil node rest)]
              exact stepCounts_nil none fun _ => rfl
        · unfold executeSendDirect
          dsimp only
          split
          · rw [hargv]
            refine stepCounts_control hroom
              (controlPlain_valid sender env (by decide)) fun _ => ?_
            dsimp only
            rw [Function.update_self]
            rfl
          · exact stepCounts_nil none fun _ => rfl
      · rw [if_neg fun h => hj (Option.some.inj h)]
        refine stepCounts_nil none fun _ => ?_
        dsimp only
        split
        · rfl
        split
        · unfold executeSendCbr
          dsimp only
          split
          · rfl
          · dsimp only
            rw [Function.update_of_ne (Ne.symm hj)]
        · unfold executeSendDirect
          dsimp only
          split
          · dsimp only
            rw [Function.update_of_ne (Ne.symm hj)]
          · rfl

end Steps

section Server

variable (aead : Aead) {na : Sodium} {keys : ServerKeys} {order : Endian} {sender : Sender}
  {i : Slot} {key : Octets aeadKeyLen} {sessionId : Octets sessionIdLen} {ip : Octets 4}
  (hside : sender.side = .server)

include hside

theorem serverLogStep_stepCounts {s : Server.Traffic} {act : SendEnv × Server.TrafficAct}
    (h : Sending na keys order sender i key sessionId ip s act)
    (hroom : (s.sessions i).sendSeq.toNat + 1600 < 2 ^ 64) :
    StepCounts sender order (s.sessions i)
      ((serverLogStep aead na keys order sender i s act).1.sessions i) (packetFor ip act)
      (serverLogStep aead na keys order sender i s act).2 := by
  obtain ⟨env, act⟩ := act
  obtain ⟨hcarries, hkept⟩ := h
  unfold serverLogStep Server.trafficStep
  cases act with
  | table op =>
      by_cases hop : ∃ now, op = .server (.maintenance now)
      · obtain ⟨now, rfl⟩ := hop
        dsimp only
        rw [tableStep, serverStep]
        exact maintenance_stepCounts env now hroom hcarries.argv
      · have hsilent : NotInstalled i (tableStep na keys order s.sessions op).2 := by
          intro sessionId hmem
          rw [Undisturbed] at hkept
          exact hkept (mem_installedSlots hmem)
        have hnone : serverEntries order sender i s (env, .table op) = [] := by
          cases op with
          | shutdown => rfl
          | server op =>
              cases op with
              | maintenance now => exact absurd ⟨now, rfl⟩ hop
              | datagram _ _ _ => rfl
              | free _ => rfl
        dsimp only
        rw [hnone]
        exact stepCounts_nil _ fun hactive =>
          tableStep_seq op hsilent hactive fun now hnow => hop ⟨now, hnow⟩
  | outbound id buf =>
      dsimp only
      rw [outboundTraffic_sessions, ← hcarries.address]
      exact outbound_stepCounts hside env id hroom hcarries.argv hkept
  | executeSend now id =>
      have hpacket : packetFor ip (env, .executeSend now id) = none := rfl
      dsimp only
      rw [hpacket]
      exact executeSend_stepCounts aead env now id hroom hcarries.argv
  | drain =>
      unfold serverEntries
      dsimp only
      rw [if_pos hcarries.active, if_pos hcarries.active, hcarries.argv]
      exact stepCounts_control hroom (controlPlain_valid sender env (by decide)) fun _ => rfl

/-- The log of a slot while it keeps its session. -/
theorem serverLog_runLog (s : Server.Traffic) (acts : List (SendEnv × Server.TrafficAct))
    (hsending : Along (serverLogStep aead na keys order sender i)
      (Sending na keys order sender i key sessionId ip) s acts)
    (hroom : (s.sessions i).sendSeq.toNat + 1600 * acts.length < 2 ^ 64) :
    RunLog sender order (s.sessions i).sendSeq.toNat (acts.filterMap (packetFor ip))
      (run (serverLogStep aead na keys order sender i) s acts).2 := by
  refine run_runLog (serverLogStep aead na keys order sender i)
    (fun s => (s.sessions i).sendSeq.toNat) (packetFor ip)
    (Sending na keys order sender i key sessionId ip) ?_ s acts hsending hroom
  intro s act hok hnow
  obtain ⟨high, hlog, hnext⟩ := serverLogStep_stepCounts aead hside hok hnow
  exact ⟨high, hlog, fun _ hlater => hnext hlater.1.active⟩

end Server

end Chamlon.Tunnel
