import Mathlib.Tactic
import Chamlon.Server.AtMostOnce
import Chamlon.Tunnel.Downstream
import Chamlon.Tunnel.Framing
import Chamlon.Tunnel.Transit
import Chamlon.Tunnel.Upstream

/-!
Delivery in both directions. Among everything that happens to a receiving side are
datagrams that its peer has sealed. These open, because decryption undoes encryption and
both programs agree on the layout of a datagram, and each of them is a step of the inbox.
Everything else may be there as well as long as it leaves the inbox alone: copies, forged
and late datagrams, other sessions, handshakes of others, sweeps that find nothing too old.
-/

namespace Chamlon.Tunnel

open Config Memory Machine Reassembly

/-- A datagram of the peer reaches a side, in some state of the world, or something else
happens there. -/
inductive Arrival (ω α : Type) where
  | sealed (world : ω) (seq : BitVec 64) (cargo : Cargo)
  | other (act : α)

section Sweep

variable {table : ReassemblyTable}

/-- A sweep at this time finds nothing too old. -/
def Fresh (now : Int) (table : ReassemblyTable) : Prop :=
  ∀ k, (table k).isActive = true → (table k).timedOut now = false

instance (now : Int) (table : ReassemblyTable) : Decidable (Fresh now table) :=
  inferInstanceAs (Decidable (∀ _, _ → _))

theorem Fresh.sweep {now : Int} (h : Fresh now table) :
    sweepReassemblyTable now table = table := by
  funext k
  cases hactive : (table k).isActive with
  | true => exact sweep_of_not_timedOut (h k hactive)
  | false =>
      unfold sweepReassemblyTable
      rw [hactive, Bool.false_and, if_neg Bool.false_ne_true]

end Sweep

section Sealed

variable {aead : Aead} {order : Endian} {sender : Sender} {key : Octets aeadKeyLen}
  {sessionId : Octets sessionIdLen} {seq : BitVec 64}

theorem length_plain_le {cargo : Cargo} (h : cargo.Valid sender order) :
    (cargo.plain sender order).length ≤ 1400 := by
  cases cargo with
  | control plain => exact h.2.1
  | fragment p k =>
      have hspec := sender.fragments_spec order p
      have hfits := (hspec.2 k (hspec.1 ▸ h)).fits
      have hhigh := sender.frag_toNat.2
      rw [plainPayload, List.length_drop] at hfits
      unfold Sender.maxPayload tunnelHeaderLen at hfits
      rw [Cargo.plain]
      omega

/-- What the peer seals reaches the other side as a datagram that fits into its buffer. -/
theorem sealed_framed {cargo : Cargo} {pkt : Bytes} (hvalid : cargo.Valid sender order)
    (h : aead.datagram order key sessionId seq (cargo.plain sender order) = some pkt) :
    ∃ ct, aead.aeadEncrypt key sessionId seq (cargo.plain sender order) = some ct ∧
      Framed order sessionId seq ct pkt ∧ 0 < ct.length ∧ pkt.length ≤ bufferSize := by
  obtain ⟨ct, hct, hframed⟩ := Aead.datagram_framed h
  have hplain := length_plain_le hvalid
  have hcipher : ct.length = (cargo.plain sender order).length + 16 :=
    aead.length _ _ _ _ _ hct
  have hlength : pkt.length = 30 + ct.length := hframed.length
  refine ⟨ct, hct, hframed, ?_, ?_⟩
  · omega
  · rw [hlength, hcipher]
    exact Nat.add_le_add_left (Nat.add_le_add_right hplain 16) 30 |>.trans (by decide)

end Sealed

/-! ## To the server -/

section Server

open Server

variable {aead : Aead} {na : Sodium} {keys : ServerKeys} {order : Endian} {sender : Sender}
  {i : Slot} {key : Octets aeadKeyLen} {sessionId : Octets sessionIdLen}
  {sessions : Sessions}

/-- The operation of the server that an arrival is. -/
def serverOp (aead : Aead) (order : Endian) (sender : Sender) (key : Octets aeadKeyLen)
    (sessionId : Octets sessionIdLen) : Arrival (Env × SockAddr) Op → Op
  | .sealed world seq cargo => .datagram world.1 world.2
      ((aead.datagram order key sessionId seq (cargo.plain sender order)).getD [])
  | .other op => op

def serverOpened : Arrival (Env × SockAddr) Op → Option Opened
  | .sealed world seq cargo => some ⟨world.1.stack, world.1.now, seq, cargo⟩
  | .other _ => none

def slotInbox (i : Slot) (sessions : Sessions) : Inbox :=
  ⟨(sessions i).rw, (sessions i).reassemblyTable⟩

/-- What leaves the inbox of the session alone. -/
def SlotQuiet (na : Sodium) (keys : ServerKeys) (order : Endian) (i : Slot)
    (sessionId : Octets sessionIdLen) (sessions : Sessions) : Op → Prop
  | .datagram env src buf => ∀ pair ∈ acceptedPairs
      (handleInboundUdp na keys order env src buf sessions).2, pair.1 ≠ sessionId
  | .free _ => True
  | .maintenance now => Fresh now (sessions i).reassemblyTable

instance (sessions : Sessions) : (op : Op) →
    Decidable (SlotQuiet na keys order i sessionId sessions op)
  | .datagram _ _ _ => inferInstanceAs (Decidable (∀ pair ∈ _, _))
  | .free _ => inferInstanceAs (Decidable True)
  | .maintenance _ => inferInstanceAs (Decidable (Fresh _ _))

/-- The server serves the session. A datagram of the client is one that the client could
seal and the rate limiter lets pass; anything else leaves the inbox alone. -/
def ReachesSlot (aead : Aead) (na : Sodium) (keys : ServerKeys) (order : Endian)
    (sender : Sender) (i : Slot) (key : Octets aeadKeyLen) (sessionId : Octets sessionIdLen)
    (sessions : Sessions) (arrival : Arrival (Env × SockAddr) Op) : Prop :=
  Serving na keys order i key sessionId sessions
      (serverOp aead order sender key sessionId arrival) ∧
    match arrival with
    | .sealed world seq cargo => world.1.packetVerdict = .ok ∧
        (aead.datagram order key sessionId seq (cargo.plain sender order)).isSome
    | .other op => SlotQuiet na keys order i sessionId sessions op

instance (sessions : Sessions) : (arrival : Arrival (Env × SockAddr) Op) →
    Decidable (ReachesSlot aead na keys order sender i key sessionId sessions arrival)
  | .sealed _ _ _ => inferInstanceAs (Decidable (_ ∧ _ ∧ _))
  | .other _ => inferInstanceAs (Decidable (_ ∧ SlotQuiet _ _ _ _ _ _ _))

/-- What leaves the inbox alone does so, and writes nothing. -/
theorem SlotQuiet.untouched {op : Op} (h : SlotQuiet na keys order i sessionId sessions op)
    (hserving : Serving na keys order i key sessionId sessions op) :
    Untouched i (sessions i) (serverStep na keys order sessions op) := by
  cases op with
  | datagram env src buf =>
      rcases handleInboundUdp_receives hserving.1 env src buf hserving.notInstalled with
        hsame | ⟨plain, ct, _, _, hmem, _⟩
      · exact hsame
      · exact absurd rfl (h _ (List.mem_filterMap.mpr ⟨_, hmem, rfl⟩))
  | free j => exact freeSession_untouched i j sessions
  | maintenance now =>
      obtain ⟨hswept, hsilent⟩ := performMaintenance_sweeps now i sessions
      rw [Fresh.sweep h] at hswept
      exact ⟨hswept, hsilent⟩

/-- A datagram that reaches the lookup of its session and opens is taken. -/
theorem inboundData_of_opens {env : Env} {buf plain : Bytes}
    (hfound : lookup env buf sessions = some i)
    (hplain : decrypted na env buf (sessions i) = some plain)
    (hshort : plain.length ≤ bufferSize) (order : Endian) :
    Takes order i (sessions i) env (pktSeq env buf) plain
      (inboundData na order env buf sessions) := by
  have hid : sessionById (Octets.read sessionIdLen (peek buf env.past) protoHeaderLen)
      sessions = some i := hfound
  unfold decrypted at hplain
  dsimp only at hplain
  split at hplain
  · cases hplain
  next hnew =>
    split at hplain
    · cases hplain
    next hfits =>
      unfold inboundData
      dsimp only
      rw [hid]
      dsimp only
      rw [Function.update_self, Function.update_idem]
      dsimp only
      rw [if_neg hnew, if_neg hfits, hplain]
      dsimp only
      rw [if_neg (Nat.not_lt_of_le hshort)]
      exact (inboundAccepted_takes ..).emit rfl

theorem takes_sealed (keys : ServerKeys) (hinverts : Inverts aead na)
    (hserves : Serves i key sessionId sessions) {env : Env} (src : SockAddr)
    {seq : BitVec 64} {cargo : Cargo} {pkt : Bytes} (hvalid : cargo.Valid sender order)
    (hpkt : aead.datagram order key sessionId seq (cargo.plain sender order) = some pkt)
    (hverdict : env.packetVerdict = .ok) (hnew : (sessions i).rw.checkReplay seq = false) :
    Takes order i (sessions i) env seq (cargo.plain sender order)
      (handleInboundUdp na keys order env src pkt sessions) := by
  obtain ⟨ct, hct, hframed, _, hshort⟩ := sealed_framed hvalid hpkt
  have hreaches := hframed.reachesLookup hshort hverdict
  have hfound : lookup env pkt sessions = some i := by
    rw [hframed.lookup]
    exact hserves.found
  have hplain : decrypted na env pkt (sessions i) = some (cargo.plain sender order) := by
    rw [hframed.decrypted na env hshort hnew, hserves.key, hserves.id]
    exact hinverts.decrypt hct
  have htakes := inboundData_of_opens hfound hplain
    ((length_plain_le hvalid).trans (by decide)) order
  rw [hframed.pktSeq] at htakes
  rcases handleInboundUdp_cases na keys order env src pkt sessions with
    ⟨hnot, _⟩ | ⟨hmsg1, _⟩ | ⟨_, hdata⟩
  · exact absurd hreaches hnot
  · exact absurd hmsg1.2.1 hreaches.2.2.2.1
  · rw [hdata]
    exact htakes.emit (slotWrites_bookkeeping (lookupEvents_bookkeeping env src pkt))

def serverArrive (aead : Aead) (na : Sodium) (keys : ServerKeys) (order : Endian)
    (sender : Sender) (key : Octets aeadKeyLen) (sessionId : Octets sessionIdLen)
    (sessions : Sessions) (arrival : Arrival (Env × SockAddr) Op) :
    Sessions × List Event :=
  serverStep na keys order sessions (serverOp aead order sender key sessionId arrival)

/-- Every arrival is a step of the inbox, or none. -/
theorem serverArrive_inbox (hinverts : Inverts aead na) (hside : sender.side.peer = .server)
    {arrival : Arrival (Env × SockAddr) Op}
    (h : ReachesSlot aead na keys order sender i key sessionId sessions arrival)
    (hnew : ∀ o ∈ serverOpened arrival, o.cargo.Valid sender order ∧
      (slotInbox i sessions).window.checkReplay o.seq = false) :
    let result := serverArrive aead na keys order sender key sessionId sessions arrival
    let stepped := run (inboxStep sender order) (slotInbox i sessions)
      (serverOpened arrival).toList
    slotWrites i result.2 = writesOf stepped.2 ∧
      ((result.1 i).active = true → slotInbox i result.1 = stepped.1) := by
  obtain ⟨hserving, hreaches⟩ := h
  dsimp only [serverArrive]
  cases arrival with
  | other op =>
      have hsame := hreaches.untouched hserving
      refine ⟨hsame.silent, fun hactive => ?_⟩
      obtain ⟨hrw, htable⟩ := hsame.same hactive
      exact congrArg₂ Inbox.mk hrw htable
  | sealed world seq cargo =>
      obtain ⟨hverdict, hsome⟩ := hreaches
      obtain ⟨hvalid, hpass⟩ := hnew _ rfl
      obtain ⟨pkt, hpkt⟩ := Option.isSome_iff_exists.mp hsome
      have htakes := takes_sealed keys hinverts hserving.1 world.2 hvalid hpkt hverdict hpass
      have hop : serverOp aead order sender key sessionId (.sealed world seq cargo) =
          .datagram world.1 world.2 pkt := by
        rw [serverOp, hpkt, Option.getD_some]
      rw [hop, serverStep]
      dsimp only [serverOpened, Option.toList, Machine.run, inboxStep, receiptStep]
      rw [List.append_nil, hside]
      refine ⟨htakes.writes, fun hactive => ?_⟩
      obtain ⟨hrw, htable⟩ := htakes.after hactive
      exact congrArg₂ Inbox.mk hrw htable

end Server

/-- A client in its first session, in fewer than `2 ^ 53` steps, sends packets whose 16-bit
ids do not repeat, and the server serves its session, from a window that is new and a table
with no active entry. Of the datagrams that the client seals, the network delivers any that
it likes but the one with number 0 and those less than a window below `2 ^ 64`, each once,
less than a window late, for each packet in order and with room in the table for the
packets it leaves unfinished; the rate limiter lets these pass. The rest is lost or comes
too late. Meanwhile anything may happen at the server that does not end the session: copies
and forged datagrams that are refused, other sessions and handshakes of others, maintenance
that finds nothing too old. Then the server writes exactly the packets all of whose
fragments arrived, each once. -/
theorem upstream_delivery (aead : Aead) (na : Sodium) (hinverts : Inverts aead na)
    (keys : Server.ServerKeys) (order : Endian) (sender : Sender)
    (hside : sender.side = .client) (channel : Client.Channel) (sent : List ClientAct)
    (sessions : Server.Sessions) (i : Server.Slot)
    (arrivals : List (Arrival (Server.Env × Server.SockAddr) Server.Op))
    (hids : ((sent.filterMap ClientAct.packet?).map Packet.id).Nodup)
    (hlength : sent.length < 2 ^ 53)
    (hclean : ∀ k, ((sessions i).reassemblyTable k).isActive = false)
    (hwindow : (sessions i).rw = .zero)
    (htimely : Timely (clientLog aead order sender channel sent)
      (arrivals.filterMap serverOpened))
    (horderly : Orderly sender order (sent.filterMap ClientAct.packet?)
      (deliveries (arrivals.filterMap serverOpened)))
    (hreaches : Along (serverArrive aead na keys order sender channel.kSend channel.sessionId)
      (ReachesSlot aead na keys order sender i channel.kSend channel.sessionId) sessions
      arrivals) :
    (slotWrites i (run
      (serverArrive aead na keys order sender channel.kSend channel.sessionId) sessions
      arrivals).2).Perm
      (((sent.filterMap ClientAct.packet?).filter
        (Complete sender order (deliveries (arrivals.filterMap serverOpened)))).map
        fun p => (p.bytes, p.bytes.length)) := by
  have hpeer : sender.side.peer = .server := by
    rw [hside]
    rfl
  have hadmits := htimely.admits
  rw [← hwindow] at hadmits
  have hlog := clientLog_runLog hside aead order channel sent hlength
  rw [run_inbox sender order _ _ (slotWrites i) (slotInbox i) serverOpened rfl
    (slotWrites_append i) ?_ sessions arrivals hreaches
    (fun o ho => hlog.valid _ (htimely.sent o ho)) hadmits]
  · exact inbox_writes hclean htimely hlog hids horderly
  · intro s a ha hnew
    obtain ⟨hwrites, hinbox⟩ := serverArrive_inbox hinverts hpeer ha hnew
    exact ⟨hwrites, fun b hb => hinbox hb.1.1.active⟩

section Example

/-- The tag is cut off and not looked at. -/
def untagged : Sodium :=
  { Sodium.xorSodium with aeadDecrypt := fun _ _ _ ct => some (ct.take (ct.length - macLen)) }

theorem untagged_inverts : Inverts .plainText untagged := by
  intro key nonce ad plain ct h
  have hct : plain ++ (Octets.zero macLen).val = ct := Option.some.inj h
  dsimp only [untagged]
  rw [← hct, List.length_append, Octets.length_val, Nat.add_sub_cancel, List.take_left]

/-- Two packets of two fragments each. -/
def firstOfTwo : Packet := ⟨1, List.replicate 300 6, by decide +kernel, by decide +kernel⟩

def secondOfTwo : Packet := ⟨2, List.replicate 301 9, by decide +kernel, by decide +kernel⟩

/-- A keepalive takes the number 0, the fragments the numbers 1 to 4. -/
def twoPackets : List ClientAct :=
  [.keepalive (Octets.zero sessionIdLen),
    .tun firstOfTwo (fun _ => true) (fun _ => true),
    .tun secondOfTwo (fun _ => true) (fun _ => true)]

/-- The fragments come out of order, one of them twice, and the last one is lost. -/
def lossyArrivals : List (Arrival (Server.Env × Server.SockAddr) Server.Op) :=
  let world : Server.Env × Server.SockAddr := (Agreement.calmEnv 0 3, ⟨1, 2⟩)
  let copy : Arrival (Server.Env × Server.SockAddr) Server.Op :=
    .sealed world 1 (.fragment firstOfTwo 0)
  [copy, .sealed world 3 (.fragment secondOfTwo 0),
    .other (serverOp .plainText .little plainSender smallChannel.kSend
      smallChannel.sessionId copy),
    .sealed world 2 (.fragment firstOfTwo 1), .other (.maintenance 5)]

/-- The first packet is written. -/
theorem upstream_delivery_lossy :
    slotWrites 0 (run (serverArrive .plainText untagged Agreement.zeroKeys .little plainSender
      smallChannel.kSend smallChannel.sessionId) servedSlot lossyArrivals).2 =
      [(firstOfTwo.bytes, firstOfTwo.bytes.length)] := by
  have htimely : Timely (clientLog .plainText .little plainSender smallChannel twoPackets)
      (lossyArrivals.filterMap serverOpened) :=
    ⟨by decide +kernel, by decide +kernel, by decide +kernel⟩
  have horderly : Orderly plainSender .little (twoPackets.filterMap ClientAct.packet?)
      (deliveries (lossyArrivals.filterMap serverOpened)) :=
    ⟨by decide +kernel, fun _ _ _ _ => (List.length_filter_le _ _).trans (by decide)⟩
  have hperm := upstream_delivery .plainText untagged untagged_inverts Agreement.zeroKeys
    .little plainSender rfl smallChannel twoPackets servedSlot 0 lossyArrivals
    (by decide +kernel) (by decide +kernel) (by decide +kernel) rfl htimely horderly
    (by decide +kernel)
  have hcomplete : (twoPackets.filterMap ClientAct.packet?).filter
      (Complete plainSender .little (deliveries (lossyArrivals.filterMap serverOpened))) =
      [firstOfTwo] := by
    decide +kernel
  rw [hcomplete] at hperm
  exact List.perm_singleton.mp hperm

end Example

/-! ## To the client -/

section Client

open Client

variable {aead : Aead} {na : Sodium} {order : Endian} {sender : Sender}
  {session : ClientSession} {s : Receiver}

/-- What happens to the client when something arrives. -/
def clientAct (aead : Aead) (order : Endian) (sender : Sender) (session : ClientSession) :
    Arrival UdpEnv InboundAct → InboundAct
  | .sealed env seq cargo => .udp env ((aead.datagram order session.kRecv session.sessionId
      seq (cargo.plain sender order)).getD [])
  | .other act => act

def clientOpened : Arrival UdpEnv InboundAct → Option Opened
  | .sealed env seq cargo => some ⟨env.stack, env.now, seq, cargo⟩
  | .other _ => none

def clientInbox (s : Receiver) : Inbox := ⟨s.srv.rw, s.table⟩

/-- What leaves the inbox of the client alone. -/
def ClientQuiet (na : Sodium) (s : Receiver) : InboundAct → Prop
  | .udp env packet => ¬Taken na s (.udp env packet)
  | .sweep now => Fresh now s.table
  | .rehandshake _ _ => False

instance : (act : InboundAct) → Decidable (ClientQuiet na s act)
  | .udp _ _ => inferInstanceAs (Decidable ¬_)
  | .sweep _ => inferInstanceAs (Decidable (Fresh _ _))
  | .rehandshake _ _ => inferInstanceAs (Decidable False)

/-- The client is in its session. A datagram of the server is one that the server could
seal; anything else leaves the inbox alone. -/
def ReachesClient (aead : Aead) (na : Sodium) (order : Endian) (sender : Sender)
    (session : ClientSession) (s : Receiver) (arrival : Arrival UdpEnv InboundAct) : Prop :=
  (s.exited = false ∧ s.srv.session = session) ∧
    match arrival with
    | .sealed _ seq cargo => (aead.datagram order session.kRecv session.sessionId seq
        (cargo.plain sender order)).isSome
    | .other act => ClientQuiet na s act

instance : (arrival : Arrival UdpEnv InboundAct) →
    Decidable (ReachesClient aead na order sender session s arrival)
  | .sealed _ _ _ => inferInstanceAs (Decidable (_ ∧ _))
  | .other _ => inferInstanceAs (Decidable (_ ∧ ClientQuiet _ _ _))

def clientArrive (aead : Aead) (na : Sodium) (order : Endian) (sender : Sender)
    (session : ClientSession) (s : Receiver) (arrival : Arrival UdpEnv InboundAct) :
    Receiver × List InboundEvent :=
  inboundStep na order s (clientAct aead order sender session arrival)

theorem ClientQuiet.same {act : InboundAct} (h : ClientQuiet na s act) :
    inboundStep na order s act = (s, []) := by
  cases act with
  | udp env packet => exact inboundStep_of_not_taken h
  | sweep now =>
      unfold inboundStep
      dsimp only
      rw [Fresh.sweep h, ite_self]
  | rehandshake new now => exact h.elim

/-- A datagram of the server is taken as what it carries. -/
theorem handleUdpPacket_sealed (hinverts : Inverts aead na) (env : UdpEnv)
    {seq : BitVec 64} {cargo : Cargo} {pkt : Bytes} (hvalid : cargo.Valid sender order)
    (hpkt : aead.datagram order s.srv.session.kRecv s.srv.session.sessionId seq
      (cargo.plain sender order) = some pkt)
    (hnew : s.srv.rw.checkReplay seq = false) :
    handleUdpPacket na order env pkt s =
      let result := udpAccepted order env (cargo.plain sender order) (s.record seq)
      (result.1, .accepted s.srv.session.sessionId seq (cargo.plain sender order) ::
        result.2) := by
  obtain ⟨ct, hct, hframed, hpos, hshort⟩ := sealed_framed hvalid hpkt
  have hopens : openPacket na s.srv.session pkt = some (cargo.plain sender order) := by
    rw [hframed.openPacket na rfl hpos]
    exact hinverts.decrypt hct
  rw [handleUdpPacket_eq, List.take_of_length_le hshort, hopens]
  dsimp only
  rw [hframed.udpSeq, if_neg (by rw [hnew]; exact Bool.false_ne_true)]

theorem clientArrive_inbox (hinverts : Inverts aead na) (hside : sender.side.peer = .client)
    {arrival : Arrival UdpEnv InboundAct}
    (h : ReachesClient aead na order sender session s arrival)
    (hnew : ∀ o ∈ clientOpened arrival, o.cargo.Valid sender order ∧
      (clientInbox s).window.checkReplay o.seq = false) :
    let result := clientArrive aead na order sender session s arrival
    let stepped := run (inboxStep sender order) (clientInbox s) (clientOpened arrival).toList
    clientWrites result.2 = writesOf stepped.2 ∧ clientInbox result.1 = stepped.1 := by
  obtain ⟨⟨hruns, rfl⟩, hreaches⟩ := h
  dsimp only [clientArrive]
  cases arrival with
  | other act =>
      rw [clientAct, ClientQuiet.same hreaches]
      exact ⟨rfl, rfl⟩
  | sealed env seq cargo =>
      obtain ⟨pkt, hpkt⟩ := Option.isSome_iff_exists.mp hreaches
      obtain ⟨hvalid, hpass⟩ := hnew _ rfl
      have hact : clientAct aead order sender s.srv.session (.sealed env seq cargo) =
          .udp env pkt := by
        rw [clientAct, hpkt, Option.getD_some]
      rw [hact, inboundStep, if_neg (by rw [hruns]; exact Bool.false_ne_true),
        handleUdpPacket_sealed hinverts env hvalid hpkt hpass]
      obtain ⟨hwrites, htable⟩ := udpAccepted_reassembly order env (cargo.plain sender order)
        (s.record seq)
      obtain ⟨_, hrw⟩ := udpAccepted_srv order env (cargo.plain sender order) (s.record seq)
      rw [Receiver.record_table] at hwrites htable
      dsimp only [clientOpened, Option.toList, Machine.run, inboxStep, receiptStep]
      rw [List.append_nil, clientWrites_accepted, hside]
      exact ⟨hwrites, congrArg₂ Inbox.mk hrw htable⟩

end Client

/-- A server sends to the client of a slot what reaches it for the address of the session,
packets whose 16-bit ids do not repeat, with a counter that does not wrap. The client
listens, from a window that is new and a table with no active entry. Of the datagrams that
the server seals for the session, the network delivers any that it likes but the one with
number 0 and those less than a window below `2 ^ 64`, each once, less than a window late,
for each packet in order and with room in the table for the packets it leaves unfinished.
Copies, forged and misdirected datagrams and sweeps that find nothing too old may come in
between, a rehandshake may not. Then the client writes exactly the packets all of whose
fragments arrived, each once. -/
theorem downstream_delivery (aead : Aead) (na : Sodium) (hinverts : Inverts aead na)
    (keys : Server.ServerKeys) (order : Endian) (sender : Sender)
    (hside : sender.side = .server) (t : Server.Traffic) (i : Server.Slot) (ip : Octets 4)
    (sent : List (Server.SendEnv × Server.TrafficAct)) (client : Client.Receiver)
    (arrivals : List (Arrival Client.UdpEnv Client.InboundAct))
    (hsending : Along (serverLogStep aead na keys order sender i)
      (Sending na keys order sender i client.srv.session.kRecv client.srv.session.sessionId
        ip) t sent)
    (hids : ((sent.filterMap (packetFor ip)).map Packet.id).Nodup)
    (hroom : (t.sessions i).sendSeq.toNat + 1600 * sent.length < 2 ^ 64)
    (hclean : ∀ k, (client.table k).isActive = false)
    (hwindow : client.srv.rw = .zero)
    (htimely : Timely (run (serverLogStep aead na keys order sender i) t sent).2
      (arrivals.filterMap clientOpened))
    (horderly : Orderly sender order (sent.filterMap (packetFor ip))
      (deliveries (arrivals.filterMap clientOpened)))
    (hreaches : Along (clientArrive aead na order sender client.srv.session)
      (ReachesClient aead na order sender client.srv.session) client arrivals) :
    (clientWrites (run (clientArrive aead na order sender client.srv.session) client
      arrivals).2).Perm
      (((sent.filterMap (packetFor ip)).filter
        (Complete sender order (deliveries (arrivals.filterMap clientOpened)))).map
        fun p => (p.bytes, p.bytes.length)) := by
  have hpeer : sender.side.peer = .client := by
    rw [hside]
    rfl
  have hadmits := htimely.admits
  rw [← hwindow] at hadmits
  have hlog := serverLog_runLog aead hside t sent hsending hroom
  rw [run_inbox sender order _ _ clientWrites clientInbox clientOpened rfl
    clientWrites_append ?_ client arrivals hreaches
    (fun o ho => hlog.valid _ (htimely.sent o ho)) hadmits]
  · exact inbox_writes hclean htimely hlog hids horderly
  · intro s a ha hnew
    obtain ⟨hwrites, hinbox⟩ := clientArrive_inbox hinverts hpeer ha hnew
    exact ⟨hwrites, fun _ _ => hinbox⟩

section Example

/-- The packet arrives, then a copy of it and a sweep. -/
def servedArrivals : List (Arrival Client.UdpEnv Client.InboundAct) :=
  let env : Client.UdpEnv := ⟨0, fun _ => 0, fun _ => 0⟩
  [.sealed env 1 (.fragment servedPacket 0), .other (.udp env servedDatagram),
    .other (.sweep 3)]

theorem downstream_delivery_served :
    clientWrites (run (clientArrive .plainText untagged .little plainServer
      listener.srv.session) listener servedArrivals).2 = [(servedPacket.bytes, 20)] := by
  have htimely : Timely (run (serverLogStep .plainText untagged Agreement.zeroKeys .little
      plainServer 0) servedTraffic servedActs).2 (servedArrivals.filterMap clientOpened) :=
    ⟨by decide +kernel, by decide +kernel, by decide +kernel⟩
  have horderly : Orderly plainServer .little
      (servedActs.filterMap (packetFor (Server.vpnIpOf 0)))
      (deliveries (servedArrivals.filterMap clientOpened)) :=
    ⟨by decide +kernel, fun _ _ _ _ => (List.length_filter_le _ _).trans (by decide +kernel)⟩
  have hperm := downstream_delivery .plainText untagged untagged_inverts Agreement.zeroKeys
    .little plainServer rfl servedTraffic 0 (Server.vpnIpOf 0) servedActs listener
    servedArrivals (by decide +kernel) (by decide +kernel) (by decide +kernel)
    (by decide +kernel) rfl htimely horderly (by decide +kernel)
  have hcomplete : (servedActs.filterMap (packetFor (Server.vpnIpOf 0))).filter
      (Complete plainServer .little (deliveries (servedArrivals.filterMap clientOpened))) =
      [servedPacket] := by
    decide +kernel
  rw [hcomplete] at hperm
  exact List.perm_singleton.mp hperm

end Example

end Chamlon.Tunnel
