import Mathlib.Tactic
import Chamlon.Tunnel.Downstream
import Chamlon.Tunnel.Upstream

/-!
What is on the wire is what is in the logs. Between the encryption and the socket there
are queues, and on the server 250 of them: a datagram may wait, be dropped or be
overtaken, but it leaves for the client it was sealed for, under the key and the session
id of its session.
-/

namespace Chamlon.Tunnel

open Config Memory Machine Reassembly Queue

/-- The datagram is an entry of the log, sealed for this session. -/
def Sealed (aead : Aead) (order : Endian) (sender : Sender) (key : Octets aeadKeyLen)
    (sessionId : Octets sessionIdLen) (log : Log) (pkt : Bytes) : Prop :=
  ∃ entry ∈ log, aead.datagram order key sessionId entry.1
    (entry.2.plain sender order) = some pkt

section Sealed

variable {aead : Aead} {order : Endian} {sender : Sender} {key : Octets aeadKeyLen}
  {sessionId : Octets sessionIdLen} {log : Log}

theorem Sealed.mono {more : Log} {pkt : Bytes}
    (h : Sealed aead order sender key sessionId log pkt) (hmore : log ⊆ more) :
    Sealed aead order sender key sessionId more pkt := by
  obtain ⟨entry, hentry, hpkt⟩ := h
  exact ⟨entry, hmore hentry, hpkt⟩

/-- The one entry of a step, sealed. -/
theorem sealed_control {seq : BitVec 64} {plain pkt : Bytes}
    (h : aead.datagram order key sessionId seq plain = some pkt) :
    Sealed aead order sender key sessionId (log ++ [(seq, .control plain)]) pkt :=
  ⟨_, List.mem_append_right _ (List.mem_singleton_self _), h⟩

/-- A fragment of a packet, sealed under its number. -/
theorem sealed_fragment {p : Packet} {seq : BitVec 64} {count k : Nat} {plain pkt : Bytes}
    (hk : k < count) (hplain : (sender.fragments order p).getD k [] = plain)
    (h : aead.datagram order key sessionId (seq + BitVec.ofNat 64 k) plain = some pkt) :
    Sealed aead order sender key sessionId (log ++ fragmentLog p seq count) pkt := by
  subst hplain
  exact ⟨_, List.mem_append_right _ (List.mem_map_of_mem (List.mem_range.mpr hk)), h⟩

theorem allQueued_more {q : OutQueue} {more : Log}
    (h : AllQueued (Sealed aead order sender key sessionId log) q) :
    AllQueued (Sealed aead order sender key sessionId (log ++ more)) q :=
  fun p node hnode => (h p node hnode).mono (List.subset_append_left _ _)

end Sealed

/-! ## The client -/

section Client

open Client

variable {aead : Aead} {order : Endian}

/-- Every fragment that the loop of `handle_tun_packet` leaves in the queue was handed to
`aead_encrypt`. -/
theorem queueFragments_all {channel : Channel} {good : Bytes → Prop} (ip : Bytes)
    (allocated nodeAllocated : Nat → Bool) (plains : List Bytes) (k : Nat)
    (seq : BitVec 64) {q : OutQueue}
    (hgood : ∀ j < handed aead order channel plains seq, ∀ pkt,
      aead.datagram order channel.kSend channel.sessionId (seq + BitVec.ofNat 64 j)
        (plains.getD j []) = some pkt → good pkt)
    (hq : AllQueued good q) :
    AllQueued good
      (queueFragments aead order channel ip allocated nodeAllocated plains k seq q).2 := by
  induction plains generalizing k seq q with
  | nil => exact hq
  | cons plain rest ih =>
      unfold queueFragments
      unfold handed at hgood
      cases hpkt : aead.datagram order channel.kSend channel.sessionId seq plain with
      | none => exact hq
      | some pkt =>
          rw [hpkt] at hgood
          dsimp only at hgood ⊢
          have hfirst : good pkt := by
            refine hgood 0 (Nat.succ_pos _) pkt ?_
            rw [BitVec.add_zero]
            exact hpkt
          refine ih (k + 1) (seq + 1) (fun j hj later hlater => ?_) ?_
          · refine hgood (j + 1) (Nat.succ_lt_succ hj) later ?_
            rw [BitVec.ofNat_add, BitVec.add_comm (BitVec.ofNat 64 j), ← BitVec.add_assoc]
            exact hlater
          · split
            · exact hq.push hfirst _ seq ip
            · exact hq

/-- Keys and session ids of both threads are those of the channel, and the queue holds
what is in the log. -/
structure ClientSealed (aead : Aead) (order : Endian) (sender : Sender) (channel : Channel)
    (past : Log) (s : Client.Traffic) : Prop where
  loop : s.loop = channel
  thread : s.sender = channel
  id : s.gSessionId = channel.sessionId
  queue : AllQueued (Sealed aead order sender channel.kSend channel.sessionId past) s.outq

variable {sender : Sender} {channel : Channel}

theorem clientSealed_start :
    ClientSealed aead order sender channel [] (Client.Traffic.start channel) :=
  ⟨rfl, rfl, rfl, allQueued_init _⟩

/-- One step, with the datagrams it sends. -/
theorem clientStep_sealed (hside : sender.side = .client) {past : Log} {s : Client.Traffic}
    (h : ClientSealed aead order sender channel past s) (act : ClientAct) :
    ClientSealed aead order sender channel
        (past ++ (clientLogStep aead order sender s act).2)
        (clientLogStep aead order sender s act).1 ∧
      ∀ pkt ∈ (Client.trafficStep aead order sender.argv s (act.traffic sender)).2,
        Sealed aead order sender channel.kSend channel.sessionId
          (past ++ (clientLogStep aead order sender s act).2) pkt := by
  obtain ⟨hloop, hthread, hid, hqueue⟩ := h
  unfold clientLogStep clientEntries ClientAct.traffic Client.trafficStep
  cases act with
  | tun p allocated nodeAllocated =>
      refine ⟨⟨hloop, hthread, hid, ?_⟩, nofun⟩
      have hplains : sender.fragments order p =
          handleTunPacket order sender.argv (sender.uninit p.id) p.id p.bytes := by
        unfold Sender.fragments
        rw [hside]
      dsimp only
      rw [← hplains, hloop]
      exact queueFragments_all p.bytes allocated nodeAllocated _ 0 s.sendSeq
        (fun k hk pkt hpkt => sealed_fragment hk rfl hpkt) (allQueued_more hqueue)
  | keepalive uninit =>
      refine ⟨⟨hloop, hthread, hid, allQueued_more hqueue⟩, fun pkt hpkt => ?_⟩
      dsimp only at hpkt
      rw [hloop] at hpkt
      exact sealed_control (Option.mem_toList.mp hpkt)
  | disconnect uninit =>
      refine ⟨⟨hloop, hthread, hid, allQueued_more hqueue⟩, fun pkt hpkt => ?_⟩
      dsimp only at hpkt
      rw [hloop, hid] at hpkt
      obtain ⟨sent, hsent, hcopy⟩ := List.mem_flatMap.mp hpkt
      rw [List.eq_of_mem_replicate hcopy]
      exact sealed_control (Option.mem_toList.mp hsent)
  | sendQueued =>
      have hpop := hqueue.pop
      dsimp only
      rw [List.append_nil]
      refine ⟨⟨hloop, hthread, hid, hpop.1⟩, fun pkt hpkt => ?_⟩
      obtain ⟨node, hnode, rfl⟩ := List.mem_map.mp hpkt
      exact hpop.2 node hnode
  | sendDummy =>
      dsimp only
      split
      · refine ⟨⟨hloop, hthread, hid, allQueued_more hqueue⟩, fun pkt hpkt => ?_⟩
        dsimp only at hpkt
        rw [hthread] at hpkt
        exact sealed_control (Option.mem_toList.mp hpkt)
      · rw [List.append_nil]
        exact ⟨⟨hloop, hthread, hid, hqueue⟩, nofun⟩

/-- Every datagram of the client in a session is an entry of its log, sealed. -/
theorem client_run_sealed (hside : sender.side = .client) (acts : List ClientAct)
    (past : Log) (s : Client.Traffic) (h : ClientSealed aead order sender channel past s) :
    ∀ pkt ∈ (run (Client.trafficStep aead order sender.argv) s
        (acts.map (ClientAct.traffic sender))).2,
      Sealed aead order sender channel.kSend channel.sessionId
        (past ++ (run (clientLogStep aead order sender) s acts).2) pkt := by
  induction acts generalizing past s with
  | nil => exact nofun
  | cons act rest ih =>
      obtain ⟨hnext, hsent⟩ := clientStep_sealed hside h act
      intro pkt hpkt
      rw [List.map_cons, Machine.run] at hpkt
      rw [Machine.run, ← List.append_assoc]
      rcases List.mem_append.mp hpkt with hnow | hlater
      · exact (hsent pkt hnow).mono (List.subset_append_left _ _)
      · exact ih _ _ hnext pkt hlater

/-- Over the first session of the client, from its handshake to its first rekey, each send
being one step and these fewer than `2 ^ 53`: the numbers it seals under are different, the
packets among what it seals are packets it has read, and every datagram it sends, from
either of its threads and from its queue, is an entry of its log, sealed under the key and
the id of the session. -/
theorem client_sends_its_log (aead : Aead) (order : Endian) (sender : Sender)
    (hside : sender.side = .client) (channel : Channel) (acts : List ClientAct)
    (hlength : acts.length < 2 ^ 53) :
    ((clientLog aead order sender channel acts).map Prod.fst).Nodup ∧
      (∀ p k, .fragment p k ∈ (clientLog aead order sender channel acts).map Prod.snd →
        p ∈ acts.filterMap ClientAct.packet?) ∧
      ∀ pkt ∈ (run (Client.trafficStep aead order sender.argv)
          (Client.Traffic.start channel) (acts.map (ClientAct.traffic sender))).2,
        Sealed aead order sender channel.kSend channel.sessionId
          (clientLog aead order sender channel acts) pkt := by
  have hlog := clientLog_runLog hside aead order channel acts hlength
  obtain ⟨high, hascending⟩ := hlog.ascending
  exact ⟨hascending.nodup, hlog.packets,
    client_run_sealed hside acts [] _ clientSealed_start⟩

/-- A keepalive and a packet. -/
theorem client_sends_its_log_small :
    let log := clientLog .plainText .little plainSender smallChannel smallSession
    let sent := (run (Client.trafficStep .plainText .little plainSender.argv)
      (Client.Traffic.start smallChannel) (smallSession.map (ClientAct.traffic plainSender))).2
    sent.map List.length = [346, 90] ∧ (log.map Prod.fst).Nodup ∧
      ∀ pkt ∈ sent, Sealed .plainText .little plainSender smallChannel.kSend
        smallChannel.sessionId log pkt := by
  intro log sent
  obtain ⟨hnumbers, _, hsealed⟩ := client_sends_its_log .plainText .little plainSender rfl
    smallChannel smallSession (by decide +kernel)
  exact ⟨by decide +kernel, hnumbers, hsealed⟩

end Client

/-! ## The server -/

section Server

open Server

variable {aead : Aead} {order : Endian} {env : SendEnv}

/-- Every fragment that `send_outbound_packet` queues or sends is one of those that
`handle_outbound_tun_buf` cut, under its number. -/
theorem sendOutboundPackets_all (env : SendEnv) {session : Session}
    {good : Bytes → Prop} (ip : Bytes) (plains : List Bytes) (seq : BitVec 64) (k : Nat)
    {q : OutQueue}
    (hgood : ∀ j < plains.length, ∀ pkt,
      aead.datagram order session.kSend session.sessionId (seq + BitVec.ofNat 64 j)
        (plains.getD j []) = some pkt → good pkt)
    (hq : AllQueued good q) :
    AllQueued good (sendOutboundPackets aead order env session ip plains seq k q).1 ∧
      ∀ pkt ∈ (sendOutboundPackets aead order env session ip plains seq k q).2,
        good pkt := by
  induction plains generalizing seq k q with
  | nil => exact ⟨hq, nofun⟩
  | cons plain rest ih =>
      have hfirst : AllQueued good
            (sendOutboundPacket aead order env session ip plain seq k q).1 ∧
          ∀ pkt ∈ (sendOutboundPacket aead order env session ip plain seq k q).2,
            good pkt := by
        unfold sendOutboundPacket
        cases hpkt : aead.datagram order session.kSend session.sessionId seq plain with
        | none => exact ⟨hq, nofun⟩
        | some pkt =>
            have hpkt' : good pkt := by
              refine hgood 0 (Nat.succ_pos _) pkt ?_
              rw [BitVec.add_zero]
              exact hpkt
            dsimp only
            split
            · exact ⟨hq, nofun⟩
            split
            · refine ⟨?_, nofun⟩
              dsimp only
              split
              · exact hq.push hpkt' _ seq ip
              · exact hq
            · exact ⟨hq, fun other hother => by rwa [List.mem_singleton.mp hother]⟩
      obtain ⟨hqueue, hsent⟩ := ih (seq + 1) (k + 1) (fun j hj pkt hpkt => by
        refine hgood (j + 1) (Nat.succ_lt_succ hj) pkt ?_
        rw [BitVec.ofNat_add, BitVec.add_comm (BitVec.ofNat 64 j), ← BitVec.add_assoc]
        exact hpkt) hfirst.1
      unfold sendOutboundPackets
      refine ⟨hqueue, fun pkt hpkt => ?_⟩
      rcases List.mem_append.mp hpkt with hnow | hlater
      · exact hfirst.2 pkt hnow
      · exact hsent pkt hlater

theorem popAll_all {good : Bytes → Prop} (fuel : Nat) {q : OutQueue}
    (hq : AllQueued good q) : ∀ node ∈ popAll fuel q, good node.pkt := by
  induction fuel generalizing q with
  | zero => exact nofun
  | succ fuel ih =>
      obtain ⟨hrest, hpopped⟩ := hq.pop
      intro node hnode
      unfold popAll at hnode
      cases hnodes : poppedNodes (outQueuePop q).2 with
      | nil =>
          rw [hnodes] at hnode
          cases hnode
      | cons first others =>
          rw [hnodes] at hnode
          rcases List.mem_cons.mp hnode with rfl | hlater
          · exact hpopped node (hnodes ▸ List.mem_cons_self)
          · exact ih hrest node hlater

variable {na : Sodium} {keys : ServerKeys} {sender : Sender} {i : Slot}
  {key : Octets aeadKeyLen} {sessionId : Octets sessionIdLen} {ip : Octets 4} {past : Log}

/-- What a step leaves in the queue of the slot and sends to it are entries of the log. -/
structure StepSealed (aead : Aead) (order : Endian) (sender : Sender)
    (key : Octets aeadKeyLen) (sessionId : Octets sessionIdLen) (i : Slot) (log : Log)
    (result : Server.Traffic × List Sent) : Prop where
  queue : AllQueued (Sealed aead order sender key sessionId log) (result.1.queues i)
  sent : ∀ e ∈ result.2, e.slot = i → Sealed aead order sender key sessionId log e.pkt

theorem sendControlPacket_eq_some {ctrlType : Nat} {session : Session} {pkt : Bytes}
    (h : sendControlPacket aead order env ctrlType session = some pkt) :
    aead.datagram order session.kSend session.sessionId session.sendSeq
      (controlPlain order env ctrlType session.argv) = some pkt := by
  unfold sendControlPacket at h
  dsimp only at h
  split at h
  · cases h
  split at h
  · cases h
  exact (Option.filter_eq_some_iff.mp h).1

theorem mem_controlPackets {ctrlType : Nat} {chosen : Session → Bool} {sessions : Sessions}
    {e : Sent} (h : e ∈ controlPackets aead order env ctrlType chosen sessions) :
    chosen (sessions e.slot) = true ∧
      aead.datagram order (sessions e.slot).kSend (sessions e.slot).sessionId
        (sessions e.slot).sendSeq (controlPlain order env ctrlType (sessions e.slot).argv) =
          some e.pkt := by
  obtain ⟨j, _, hsent⟩ := List.mem_filterMap.mp h
  split at hsent
  next hchosen =>
    obtain ⟨pkt, hpkt, rfl⟩ := Option.map_eq_some_iff.mp hsent
    exact ⟨hchosen, sendControlPacket_eq_some hpkt⟩
  next => cases hsent

theorem mem_keepalivePackets {now : Int} {sessions : Sessions} {e : Sent}
    (h : e ∈ keepalivePackets aead order env now sessions) :
    (sessions e.slot).keepaliveDue now = true ∧
      aead.datagram order (sessions e.slot).kSend (sessions e.slot).sessionId
        (sessions e.slot).sendSeq (keepalivePlain order) = some e.pkt := by
  obtain ⟨j, _, hsent⟩ := List.mem_filterMap.mp h
  split at hsent
  next hdue =>
    obtain ⟨pkt, hpkt, rfl⟩ := Option.map_eq_some_iff.mp hsent
    exact ⟨hdue, (Option.filter_eq_some_iff.mp hpkt).1⟩
  next => cases hsent

section Steps

variable {s : Server.Traffic} (hcarries : Carries sender i key sessionId ip s.sessions)
  (hqueue : AllQueued (Sealed aead order sender key sessionId past) (s.queues i))

include hqueue

theorem renewQueues_sealed (result : Sessions × List Event) (more : Log) :
    AllQueued (Sealed aead order sender key sessionId (past ++ more))
      (renewQueues result s.queues i) := by
  unfold renewQueues
  split
  · exact allQueued_init _
  · exact allQueued_more hqueue

/-- A step that sends nothing to the slot and leaves its queue alone. -/
theorem stepSealed_other {result : Server.Traffic × List Sent} (more : Log)
    (hsame : result.1.queues i = s.queues i) (hnone : ∀ e ∈ result.2, e.slot ≠ i) :
    StepSealed aead order sender key sessionId i (past ++ more) result where
  queue := by
    rw [hsame]
    exact allQueued_more hqueue
  sent e he hslot := absurd hslot (hnone e he)

include hcarries

theorem maintenance_sealed (now : Int) (result : Sessions × List Event) :
    StepSealed aead order sender key sessionId i
      (past ++ maintenanceEntries order env now (s.sessions i))
      (⟨result.1, renewQueues result s.queues⟩,
        tableSent aead order env s.sessions (.server (.maintenance now))) where
  queue := renewQueues_sealed hqueue result _
  sent e he hslot := by
    unfold maintenanceEntries
    rcases List.mem_append.mp he with hnotice | hkeepalive
    · obtain ⟨hexpired, hpkt⟩ := mem_controlPackets hnotice
      rw [hslot] at hexpired hpkt
      rw [if_pos hexpired]
      rw [hcarries.key, hcarries.id] at hpkt
      exact sealed_control hpkt
    · obtain ⟨hdue, hpkt⟩ := mem_keepalivePackets hkeepalive
      rw [hslot, cleanupExpiredSessions] at hdue hpkt
      dsimp only at hdue hpkt
      by_cases hexpired : (s.sessions i).expired now = true
      · rw [if_pos hexpired] at hdue
        cases hdue
      · rw [if_neg hexpired] at hdue hpkt
        rw [if_neg hexpired, if_pos hdue]
        rw [hcarries.key, hcarries.id] at hpkt
        exact sealed_control hpkt

theorem outbound_sealed (hside : sender.side = .server) (id : UInt16) {buf : Bytes}
    (hbuf : buf.length ≤ 1600) :
    StepSealed aead order sender key sessionId i
      (past ++ serverEntries order sender i s (env, .outbound id buf))
      (outboundTraffic aead order env id buf s) := by
  unfold outboundTraffic
  by_cases hlong : 20 ≤ buf.length
  · rw [if_neg (not_lt.mpr hlong)]
    cases hfound : sessionByVpnip (field 4 buf 16) s.sessions with
    | none => exact stepSealed_other hqueue _ rfl nofun
    | some j =>
        dsimp only
        by_cases hj : j = i
        · subst hj
          have hpacket : packetFor (s.sessions j).vpnIp (env, .outbound id buf) =
              some ⟨id, buf, hlong, hbuf⟩ := by
            unfold packetFor
            dsimp only
            rw [dif_pos ⟨hlong, hbuf⟩, if_pos (sessionByVpnip_address hfound).symm]
          have hplains : sender.fragments order ⟨id, buf, hlong, hbuf⟩ =
              handleOutboundTunBuf order (s.sessions j).argv id buf := by
            unfold Sender.fragments
            rw [hside, hcarries.argv]
          have hentries : serverEntries order sender j s (env, .outbound id buf) =
              fragmentLog ⟨id, buf, hlong, hbuf⟩ (s.sessions j).sendSeq
                (sender.fragments order ⟨id, buf, hlong, hbuf⟩).length := by
            unfold serverEntries
            dsimp only
            rw [if_pos hfound, hpacket]
          have hgood : ∀ k < (handleOutboundTunBuf order (s.sessions j).argv id buf).length,
              ∀ pkt, aead.datagram order (s.sessions j).kSend (s.sessions j).sessionId
                ((s.sessions j).sendSeq + BitVec.ofNat 64 k)
                ((handleOutboundTunBuf order (s.sessions j).argv id buf).getD k []) =
                  some pkt →
              Sealed aead order sender key sessionId
                (past ++ serverEntries order sender j s (env, .outbound id buf)) pkt := by
            intro k hk pkt hpkt
            rw [hcarries.key, hcarries.id, ← hplains] at hpkt
            rw [← hplains] at hk
            rw [hentries]
            exact sealed_fragment hk rfl hpkt
          obtain ⟨hnext, hsent⟩ := sendOutboundPackets_all env buf _ _ 0 hgood
            (allQueued_more hqueue)
          refine ⟨?_, fun e he _ => ?_⟩
          · dsimp only
            rw [Function.update_self]
            exact hnext
          · obtain ⟨pkt, hpkt, rfl⟩ := List.mem_map.mp he
            exact hsent pkt hpkt
        · refine stepSealed_other hqueue _ (Function.update_of_ne (Ne.symm hj) _ _) ?_
          intro e he
          obtain ⟨pkt, _, rfl⟩ := List.mem_map.mp he
          exact hj
  · rw [if_pos (not_le.mp hlong)]
    exact stepSealed_other hqueue _ rfl nofun

theorem executeSend_sealed (now : Int) (id : Octets sessionIdLen) :
    StepSealed aead order sender key sessionId i
      (past ++ serverEntries order sender i s (env, .executeSend now id))
      (executeSend aead order env now id s) := by
  unfold executeSend serverEntries
  dsimp only
  cases sessionById id s.sessions with
  | none => exact stepSealed_other hqueue _ rfl nofun
  | some j =>
      dsimp only
      by_cases hj : j = i
      · subst hj
        rw [if_pos rfl]
        unfold sendEntries
        split
        · exact stepSealed_other hqueue _ rfl nofun
        split
        · obtain ⟨hrest, hpopped⟩ := hqueue.pop
          unfold executeSendCbr
          dsimp only
          cases hnodes : poppedNodes (outQueuePop (s.queues j)).2 with
          | nil =>
              rw [if_pos rfl]
              refine ⟨allQueued_more hqueue, fun e he _ => ?_⟩
              obtain ⟨pkt, hpkt, rfl⟩ := Option.map_eq_some_iff.mp (Option.mem_toList.mp he)
              rw [hcarries.key, hcarries.id] at hpkt
              exact sealed_control hpkt
          | cons node others =>
              rw [hnodes] at hpopped
              rw [if_neg (List.cons_ne_nil node others), List.append_nil]
              refine ⟨?_, fun e he _ => ?_⟩
              · dsimp only
                rw [Function.update_self]
                exact hrest
              · rw [List.mem_singleton.mp he]
                exact hpopped node List.mem_cons_self
        · unfold executeSendDirect
          dsimp only
          split
          · refine ⟨?_, fun e he _ => ?_⟩
            · dsimp only
              rw [Function.update_self]
              exact allQueued_init _
            · obtain ⟨pkt, hpkt, rfl⟩ := Option.map_eq_some_iff.mp (Option.mem_toList.mp he)
              have hsealed := sendControlPacket_eq_some hpkt
              rw [hcarries.key, hcarries.id] at hsealed
              exact sealed_control hsealed
          · rw [List.append_nil]
            refine ⟨?_, fun e he _ => ?_⟩
            · dsimp only
              rw [Function.update_self]
              exact allQueued_init _
            · obtain ⟨node, hnode, rfl⟩ := List.mem_map.mp he
              exact popAll_all _ hqueue node hnode
      · rw [if_neg fun h => hj (Option.some.inj h)]
        split
        · exact stepSealed_other hqueue _ rfl nofun
        split
        · unfold executeSendCbr
          dsimp only
          split
          · refine stepSealed_other hqueue _ (Function.update_of_ne (Ne.symm hj) _ _) ?_
            intro e he
            rw [List.mem_singleton.mp he]
            exact hj
          · refine stepSealed_other hqueue _ rfl fun e he => ?_
            obtain ⟨pkt, _, rfl⟩ := Option.map_eq_some_iff.mp (Option.mem_toList.mp he)
            exact hj
        · unfold executeSendDirect
          dsimp only
          split
          · refine stepSealed_other hqueue _ (Function.update_of_ne (Ne.symm hj) _ _) ?_
            intro e he
            obtain ⟨pkt, _, rfl⟩ := Option.map_eq_some_iff.mp (Option.mem_toList.mp he)
            exact hj
          · refine stepSealed_other hqueue _ (Function.update_of_ne (Ne.symm hj) _ _) ?_
            intro e he
            obtain ⟨node, _, rfl⟩ := List.mem_map.mp he
            exact hj

end Steps

theorem serverStep_sealed (hside : sender.side = .server) {s : Server.Traffic}
    {act : SendEnv × Server.TrafficAct}
    (hqueue : AllQueued (Sealed aead order sender key sessionId past) (s.queues i))
    (h : Sending na keys order sender i key sessionId ip s act) :
    StepSealed aead order sender key sessionId i (past ++ serverEntries order sender i s act)
      (Server.trafficStep aead na keys order s act) := by
  obtain ⟨env, act⟩ := act
  obtain ⟨hcarries, hkept⟩ := h
  unfold Server.trafficStep
  cases act with
  | table op =>
      cases op with
      | shutdown => exact ⟨renewQueues_sealed hqueue _ _, nofun⟩
      | server op =>
          cases op with
          | maintenance now => exact maintenance_sealed hcarries hqueue now _
          | datagram _ _ _ => exact ⟨renewQueues_sealed hqueue _ _, nofun⟩
          | free _ => exact ⟨renewQueues_sealed hqueue _ _, nofun⟩
  | outbound id buf => exact outbound_sealed hcarries hqueue hside id hkept
  | executeSend now id => exact executeSend_sealed hcarries hqueue now id
  | drain =>
      refine ⟨allQueued_more hqueue, fun e he hslot => ?_⟩
      obtain ⟨hactive, hpkt⟩ := mem_controlPackets he
      rw [hslot] at hpkt
      unfold serverEntries
      dsimp only
      rw [if_pos hcarries.active]
      rw [hcarries.key, hcarries.id] at hpkt
      exact sealed_control hpkt

/-- Over a run in which the slot keeps its session. -/
theorem server_run_sealed (hside : sender.side = .server)
    (acts : List (SendEnv × Server.TrafficAct)) (past : Log) (s : Server.Traffic)
    (hqueue : AllQueued (Sealed aead order sender key sessionId past) (s.queues i))
    (hsending : Along (serverLogStep aead na keys order sender i)
      (Sending na keys order sender i key sessionId ip) s acts) :
    ∀ e ∈ (run (Server.trafficStep aead na keys order) s acts).2, e.slot = i →
      Sealed aead order sender key sessionId
        (past ++ (run (serverLogStep aead na keys order sender i) s acts).2) e.pkt := by
  induction acts generalizing past s with
  | nil => exact nofun
  | cons act rest ih =>
      have hstep := serverStep_sealed hside hqueue hsending.1
      intro e he hslot
      rw [Machine.run] at he
      rw [Machine.run, ← List.append_assoc]
      rcases List.mem_append.mp he with hnow | hlater
      · exact (hstep.sent e hnow hslot).mono (List.subset_append_left _ _)
      · exact ih _ _ hstep.queue hsending.2 e hlater hslot

/-- Over every run of the server in which a slot keeps its session, from an empty queue,
with whatever else happens in the other slots. Each send is one step here, so no thread
has a number in hand that it drew before the session or that another step overtakes, and
the counter does not wrap. Then the numbers sealed for the session are different, the
packets sealed for it are among those with its address as destination, and every datagram
that leaves for the slot, at once or after waiting in its queue, is one of these, under
the key and the id of the session. -/
theorem server_sends_each_its_own (aead : Aead) (na : Sodium) (keys : ServerKeys)
    (order : Endian) (sender : Sender) (hside : sender.side = .server) (s : Server.Traffic)
    (i : Slot) (key : Octets aeadKeyLen) (sessionId : Octets sessionIdLen) (ip : Octets 4)
    (acts : List (SendEnv × Server.TrafficAct)) (hqueue : s.queues i = outQueueInit)
    (hsending : Along (serverLogStep aead na keys order sender i)
      (Sending na keys order sender i key sessionId ip) s acts)
    (hroom : (s.sessions i).sendSeq.toNat + 1600 * acts.length < 2 ^ 64) :
    let log := (run (serverLogStep aead na keys order sender i) s acts).2
    (log.map Prod.fst).Nodup ∧
      (∀ p k, .fragment p k ∈ log.map Prod.snd → p ∈ acts.filterMap (packetFor ip)) ∧
      ∀ e ∈ (run (Server.trafficStep aead na keys order) s acts).2, e.slot = i →
        Sealed aead order sender key sessionId log e.pkt := by
  have hlog := serverLog_runLog aead hside s acts hsending hroom
  obtain ⟨high, hascending⟩ := hlog.ascending
  refine ⟨hascending.nodup, hlog.packets, fun e he hslot => ?_⟩
  have hempty : AllQueued (Sealed aead order sender key sessionId []) (s.queues i) := by
    rw [hqueue]
    exact allQueued_init _
  exact server_run_sealed hside acts [] s hempty hsending e he hslot

/-- A keepalive and a packet for the first slot. -/
theorem server_sends_each_its_own_served :
    let keys : ServerKeys := ⟨Octets.zero 64, true, Octets.zero privkeyLen⟩
    let session := listener.srv.session
    let log := (run (serverLogStep .plainText Sodium.xorSodium keys .little plainServer 0)
      servedTraffic servedActs).2
    let sent := (run (Server.trafficStep .plainText Sodium.xorSodium keys .little)
      servedTraffic servedActs).2
    (sent.map fun e => (e.slot, e.pkt.length)) = [(0, 70), (0, 90)] ∧
      (log.map Prod.fst).Nodup ∧ ∀ e ∈ sent, e.slot = 0 →
        Sealed .plainText .little plainServer session.kRecv session.sessionId log e.pkt := by
  intro keys session log sent
  obtain ⟨hnumbers, _, hsealed⟩ := server_sends_each_its_own .plainText Sodium.xorSodium keys
    .little plainServer rfl servedTraffic 0 session.kRecv session.sessionId
    (Server.vpnIpOf 0) servedActs rfl (by decide +kernel) (by decide +kernel)
  exact ⟨by decide +kernel, hnumbers, hsealed⟩

end Server

end Chamlon.Tunnel
