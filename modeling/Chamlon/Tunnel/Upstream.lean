import Mathlib.Tactic
import Chamlon.Server.Isolation
import Chamlon.Tunnel.ClientLog

/-!
From the client's TUN device to the server's. The server serves the session in one slot
among others; whatever reaches it in the meantime, from this client or from anybody else,
what it writes on behalf of the slot is the doing of a journal.
-/

namespace Chamlon.Tunnel

open Config Memory Machine Reassembly Server

/-- What the server writes to its TUN device for a slot. -/
def slotWrites (i : Slot) (events : List Event) : List (Bytes × Nat) :=
  events.filterMap fun
    | .tunWrite j bytes length => if j = i then some (bytes, length) else none
    | _ => none

@[simp] theorem slotWrites_append (i : Slot) (first second : List Event) :
    slotWrites i (first ++ second) = slotWrites i first ++ slotWrites i second :=
  List.filterMap_append

/-- The session is found in this slot, under this key. -/
structure Serves (i : Slot) (key : Octets aeadKeyLen) (sessionId : Octets sessionIdLen)
    (sessions : Sessions) : Prop where
  found : sessionById sessionId sessions = some i
  key : (sessions i).kRecv = key

instance (i : Slot) (key : Octets aeadKeyLen) (sessionId : Octets sessionIdLen)
    (sessions : Sessions) : Decidable (Serves i key sessionId sessions) :=
  decidable_of_iff (sessionById sessionId sessions = some i ∧ (sessions i).kRecv = key)
    ⟨fun h => ⟨h.1, h.2⟩, fun h => ⟨h.1, h.2⟩⟩

/-- The server serves the session, and the operation puts no other session into the slot. -/
def Serving (na : Sodium) (keys : ServerKeys) (order : Endian) (i : Slot)
    (key : Octets aeadKeyLen) (sessionId : Octets sessionIdLen) (sessions : Sessions)
    (op : Op) : Prop :=
  Serves i key sessionId sessions ∧
    i ∉ installedSlots (serverStep na keys order sessions op).2

instance (na : Sodium) (keys : ServerKeys) (order : Endian) (i : Slot)
    (key : Octets aeadKeyLen) (sessionId : Octets sessionIdLen) (sessions : Sessions)
    (op : Op) : Decidable (Serving na keys order i key sessionId sessions op) :=
  inferInstanceAs (Decidable (_ ∧ _))

section Writes

variable {i : Slot}

theorem slotWrites_eq_nil {events : List Event}
    (h : ∀ bytes length, .tunWrite i bytes length ∉ events) : slotWrites i events = [] := by
  rw [slotWrites, List.filterMap_eq_nil_iff]
  intro e he
  cases e with
  | tunWrite j bytes length =>
      by_cases hj : j = i
      · exact absurd (hj ▸ he) (h bytes length)
      · exact if_neg hj
  | _ => rfl

theorem slotWrites_bookkeeping {events : List Event} (h : Bookkeeping events) :
    slotWrites i events = [] :=
  slotWrites_eq_nil fun _ _ => h.not_mem rfl

/-- A handshake writes nothing to the TUN device. -/
theorem slotWrites_handshaking {events : List Event} (h : Handshaking events) :
    slotWrites i events = [] :=
  slotWrites_eq_nil fun _ _ hmem => Bool.noConfusion (h _ hmem)

end Writes

/-- What the code after `update_window` does to its slot is a step of the reassembly. -/
theorem inboundAccepted_reassembly (order : Endian) (env : Env) (i : Slot) (plain : Bytes)
    (sessions : Sessions) :
    let stepped := reassemblyStep .server order env.stack (sessions i).reassemblyTable
      (.plain env.now plain)
    slotWrites i (inboundAccepted order env i plain sessions).2 = writesOf stepped.2 ∧
      (((inboundAccepted order env i plain sessions).1 i).active = true →
        ((inboundAccepted order env i plain sessions).1 i).rw = (sessions i).rw ∧
        ((inboundAccepted order env i plain sessions).1 i).reassemblyTable = stepped.1) := by
  dsimp only [reassemblyStep, handlePlain]
  unfold inboundAccepted
  cases inboundPlain order env.stack env.now plain (sessions i).reassemblyTable with
  | dummy => exact ⟨rfl, fun _ => ⟨rfl, rfl⟩⟩
  | tooShort => exact ⟨rfl, fun _ => ⟨rfl, rfl⟩⟩
  | keepalive =>
      dsimp only
      rw [Function.update_self]
      exact ⟨rfl, fun _ => ⟨rfl, rfl⟩⟩
  | disconnect =>
      refine ⟨slotWrites_bookkeeping (freeSession_bookkeeping i sessions), fun hactive => ?_⟩
      rw [freeSession_self] at hactive
      cases hactive
  | fragment outcome =>
      cases outcome with
      | tableFull => exact ⟨rfl, fun _ => ⟨rfl, rfl⟩⟩
      | badCopy k => exact ⟨rfl, fun _ => ⟨rfl, rfl⟩⟩
      | oversize table k =>
          dsimp only
          rw [Function.update_self]
          exact ⟨rfl, fun _ => ⟨rfl, rfl⟩⟩
      | stored table k =>
          dsimp only
          rw [Function.update_self]
          exact ⟨rfl, fun _ => ⟨rfl, rfl⟩⟩
      | written table k buffer length =>
          dsimp only
          rw [Function.update_self]
          refine ⟨?_, fun _ => ⟨rfl, rfl⟩⟩
          simp only [slotWrites, writesOf, FragmentOutcome.events, List.filterMap_cons,
            if_true, List.filterMap_nil]

/-- For another slot it does nothing. -/
theorem inboundAccepted_other (order : Endian) (env : Env) {i j : Slot} (hne : i ≠ j)
    (plain : Bytes) (sessions : Sessions) :
    (inboundAccepted order env j plain sessions).1 i = sessions i ∧
      slotWrites i (inboundAccepted order env j plain sessions).2 = [] := by
  rcases inboundAccepted_cases order env j plain sessions with
    hfreed | ⟨now, table, events, _, hresult, hevents⟩
  · rw [hfreed]
    exact ⟨freeSession_of_ne sessions hne,
      slotWrites_bookkeeping (freeSession_bookkeeping j sessions)⟩
  · rw [hresult]
    refine ⟨Function.update_of_ne hne _ _, slotWrites_eq_nil fun bytes length hmem => ?_⟩
    rcases hevents _ hmem with ⟨_, _, hwrite⟩ | hbad
    · exact hne (Event.tunWrite.inj hwrite).1
    · cases hbad

theorem decrypted_eq_some {na : Sodium} {env : Env} {buf plain : Bytes} {s : Session}
    (h : decrypted na env buf s = some plain) :
    ∃ ct, na.decrypt s.kRecv s.sessionId (pktSeq env buf) ct = some plain := by
  unfold decrypted at h
  dsimp only at h
  split at h
  · cases h
  split at h
  · cases h
  · exact ⟨_, h⟩

section Serving

variable {na : Sodium} {keys : ServerKeys} {order : Endian} {i : Slot}
  {key : Octets aeadKeyLen} {sessionId : Octets sessionIdLen} {sessions : Sessions}

theorem Serves.active (h : Serves i key sessionId sessions) : (sessions i).active = true :=
  (sessionById_eq_some h.found).1

theorem Serves.id (h : Serves i key sessionId sessions) :
    (sessions i).sessionId = sessionId :=
  (sessionById_eq_some h.found).2

/-- While the session lives its window and its table stay as they are, and nothing is
written for it. -/
structure Untouched (i : Slot) (before : Session) (result : Sessions × List Event) :
    Prop where
  same : (result.1 i).active = true → (result.1 i).rw = before.rw ∧
    (result.1 i).reassemblyTable = before.reassemblyTable
  silent : slotWrites i result.2 = []

/-- A plaintext was taken for the session: its number is in the window, and the rest is a
step of the reassembly. -/
structure Takes (order : Endian) (i : Slot) (before : Session) (env : Env) (seq : BitVec 64)
    (plain : Bytes) (result : Sessions × List Event) : Prop where
  after : (result.1 i).active = true → (result.1 i).rw = before.rw.updateWindow seq ∧
    (result.1 i).reassemblyTable = (reassemblyStep .server order env.stack
      before.reassemblyTable (.plain env.now plain)).1
  writes : slotWrites i result.2 = writesOf (reassemblyStep .server order env.stack
    before.reassemblyTable (.plain env.now plain)).2

theorem untouched_of_leaves {now : Int} {result : Sessions × List Event}
    (h : Leaves now i False (sessions i) result.2 (result.1 i))
    (hnone : NotInstalled i result.2) (hwrites : slotWrites i result.2 = []) :
    Untouched i (sessions i) result := by
  refine ⟨fun hactive => ?_, hwrites⟩
  cases h with
  | free hfree =>
      rw [hfree] at hactive
      cases hactive
  | untouched _ hsame =>
      rw [hsame]
      exact ⟨rfl, rfl⟩
  | installed sessionId hmem => exact absurd hmem (hnone sessionId)
  | heard _ haddressed => exact haddressed.elim

section Emit

variable {before : Session} {result : Sessions × List Event} {events : List Event}

theorem Untouched.emit (h : Untouched i before result) (hevents : slotWrites i events = []) :
    Untouched i before (emit events result) := by
  refine ⟨h.same, ?_⟩
  rw [emit_snd, slotWrites_append, hevents]
  exact h.silent

theorem Takes.emit {env : Env} {seq : BitVec 64} {plain : Bytes}
    (h : Takes order i before env seq plain result) (hevents : slotWrites i events = []) :
    Takes order i before env seq plain (Server.emit events result) := by
  refine ⟨h.after, ?_⟩
  rw [emit_snd, slotWrites_append, hevents]
  exact h.writes

end Emit

theorem inboundAccepted_takes (order : Endian) (env : Env) (i : Slot) (seq : BitVec 64)
    (plain : Bytes) (sessions : Sessions) :
    Takes order i (sessions i) env seq plain
      (inboundAccepted order env i plain (Function.update sessions i
        { sessions i with
          lastActivity := env.now
          rw := (sessions i).rw.updateWindow seq })) := by
  generalize hmoved : Function.update sessions i
    { sessions i with
      lastActivity := env.now
      rw := (sessions i).rw.updateWindow seq } = moved
  have hrw : (moved i).rw = (sessions i).rw.updateWindow seq := by
    rw [← hmoved, Function.update_self]
  have htable : (moved i).reassemblyTable = (sessions i).reassemblyTable := by
    rw [← hmoved, Function.update_self]
  obtain ⟨hwrites, hafter⟩ := inboundAccepted_reassembly order env i plain moved
  rw [hrw, htable] at hafter
  rw [htable] at hwrites
  exact ⟨hafter, hwrites⟩

/-- What a datagram does to the session of a slot: nothing, or it opens under a new number
and is taken. -/
def Receives (na : Sodium) (order : Endian) (i : Slot) (key : Octets aeadKeyLen)
    (sessionId : Octets sessionIdLen) (before : Session) (env : Env) (buf : Bytes)
    (result : Sessions × List Event) : Prop :=
  Untouched i before result ∨ ∃ plain ct,
    before.rw.checkReplay (pktSeq env buf) = false ∧
    na.decrypt key sessionId (pktSeq env buf) ct = some plain ∧
    .accepted sessionId (pktSeq env buf) ∈ result.2 ∧
    Takes order i before env (pktSeq env buf) plain result

theorem inboundData_receives (h : Serves i key sessionId sessions) (env : Env)
    (buf : Bytes) :
    Receives na order i key sessionId (sessions i) env buf
      (inboundData na order env buf sessions) := by
  rcases inboundData_cases na order env buf sessions with
    ⟨_, hnone⟩ | ⟨j, hfound, ⟨events, hevents, hrefused⟩ | ⟨plain, hplain, hnew, hresult⟩⟩
  · rw [hnone]
    exact .inl ⟨fun _ => ⟨rfl, rfl⟩, rfl⟩
  · rw [hrefused]
    refine .inl ⟨fun _ => ?_, slotWrites_bookkeeping hevents⟩
    by_cases hj : i = j
    · subst hj
      dsimp only
      rw [Function.update_self]
      exact ⟨rfl, rfl⟩
    · dsimp only
      rw [Function.update_of_ne hj]
      exact ⟨rfl, rfl⟩
  · rw [hresult]
    by_cases hj : i = j
    · subst hj
      obtain ⟨ct, hct⟩ := decrypted_eq_some hplain
      rw [h.key, h.id] at hct
      refine .inr ⟨plain, ct, hnew, hct, ?_, (inboundAccepted_takes ..).emit rfl⟩
      rw [emit_snd, h.id]
      exact List.mem_append_left _ (List.mem_singleton_self _)
    · obtain ⟨hsame, hwrites⟩ := inboundAccepted_other order env hj plain
        (Function.update sessions j
          { sessions j with
            lastActivity := env.now
            rw := (sessions j).rw.updateWindow (pktSeq env buf) })
      refine .inl (Untouched.emit ⟨fun _ => ?_, hwrites⟩ rfl)
      rw [hsame, Function.update_of_ne hj]
      exact ⟨rfl, rfl⟩

theorem handleInboundUdp_receives (h : Serves i key sessionId sessions) (env : Env)
    (src : SockAddr) (buf : Bytes)
    (hnone : NotInstalled i (handleInboundUdp na keys order env src buf sessions).2) :
    Receives na order i key sessionId (sessions i) env buf
      (handleInboundUdp na keys order env src buf sessions) := by
  rcases handleInboundUdp_cases na keys order env src buf sessions with
    ⟨_, events, hevents, hdropped⟩ | ⟨_, ⟨_, hagain⟩ | ⟨_, hfirst⟩⟩ | ⟨_, hdata⟩
  · rw [hdropped]
    exact .inl ⟨fun _ => ⟨rfl, rfl⟩, slotWrites_bookkeeping hevents⟩
  · rw [hagain] at hnone ⊢
    exact .inl (untouched_of_leaves
      (handleRehandshakeMsg1_leaves na keys order env buf src sessions i) hnone
      (slotWrites_handshaking
        (handleRehandshakeMsg1_handshaking na keys order env buf src sessions)))
  · rw [hfirst] at hnone ⊢
    exact .inl (untouched_of_leaves
      (handleMsg1_leaves na keys order env env.random buf src sessions i) hnone
      (slotWrites_handshaking
        (handleMsg1_handshaking na keys order env env.random buf src sessions)))
  · rw [hdata]
    have hsilent : slotWrites i (lookupEvents env src buf) = [] :=
      slotWrites_bookkeeping (lookupEvents_bookkeeping env src buf)
    rcases inboundData_receives h env buf with hsame | ⟨plain, ct, hnew, hct, hmem, htakes⟩
    · exact .inl (hsame.emit hsilent)
    · exact .inr ⟨plain, ct, hnew, hct, List.mem_append_right _ hmem, htakes.emit hsilent⟩

theorem freeSession_untouched (i j : Slot) (sessions : Sessions) :
    Untouched i (sessions i) (freeSession j sessions) := by
  refine ⟨fun hactive => ?_, slotWrites_bookkeeping (freeSession_bookkeeping j sessions)⟩
  by_cases hj : i = j
  · subst hj
    rw [freeSession_self] at hactive
    cases hactive
  · rw [freeSession_of_ne sessions hj]
    exact ⟨rfl, rfl⟩

/-- Maintenance sweeps the table of the slot, if it does not free it, and writes nothing. -/
theorem performMaintenance_sweeps (now : Int) (i : Slot) (sessions : Sessions) :
    (((performMaintenance now sessions).1 i).active = true →
      ((performMaintenance now sessions).1 i).rw = (sessions i).rw ∧
      ((performMaintenance now sessions).1 i).reassemblyTable =
        sweepReassemblyTable now (sessions i).reassemblyTable) ∧
      slotWrites i (performMaintenance now sessions).2 = [] := by
  constructor
  · intro hactive
    rw [performMaintenance_slot] at hactive ⊢
    by_cases hexpired : (sessions i).expired now = true
    · rw [if_pos hexpired] at hactive
      cases hactive
    · rw [if_neg hexpired]
      dsimp only
      split <;> exact ⟨rfl, rfl⟩
  · apply slotWrites_eq_nil
    intro bytes length hmem
    rcases performMaintenance_mem hmem with hclosed | ⟨_, hsent⟩
    · cases hclosed
    · cases hsent

theorem Serving.notInstalled {env : Env} {src : SockAddr} {buf : Bytes}
    (h : Serving na keys order i key sessionId sessions (.datagram env src buf)) :
    NotInstalled i (handleInboundUdp na keys order env src buf sessions).2 :=
  fun _ hmem => h.2 (mem_installedSlots hmem)

/-- One operation goes before a journal: it adds at most one entry. -/
theorem serverStep_journal {op : Op}
    (h : Serving na keys order i key sessionId sessions op) :
    ∃ rw table,
      (Serves i key sessionId (serverStep na keys order sessions op).1 →
        ((serverStep na keys order sessions op).1 i).rw = rw ∧
        ((serverStep na keys order sessions op).1 i).reassemblyTable = table) ∧
      ∀ writes journal, Journaled na .server order key sessionId rw table writes journal →
        ∃ journal, Journaled na .server order key sessionId (sessions i).rw
          (sessions i).reassemblyTable
          (slotWrites i (serverStep na keys order sessions op).2 ++ writes) journal := by
  cases op with
  | datagram env src buf =>
      rcases handleInboundUdp_receives h.1 env src buf h.notInstalled with
        hsame | ⟨plain, ct, hnew, hct, _, htakes⟩
      · refine ⟨_, _, fun hserves => hsame.same hserves.active, fun writes journal hj => ?_⟩
        rw [serverStep, hsame.silent]
        exact ⟨journal, hj⟩
      · refine ⟨_, _, fun hserves => htakes.after hserves.active, fun writes journal hj => ?_⟩
        rw [serverStep, htakes.writes]
        exact ⟨_, hj.plain env.stack env.now hnew hct⟩
  | free j =>
      have hsame := freeSession_untouched i j sessions
      refine ⟨_, _, fun hserves => hsame.same hserves.active, fun writes journal hj => ?_⟩
      rw [serverStep, hsame.silent]
      exact ⟨journal, hj⟩
  | maintenance now =>
      obtain ⟨hswept, hsilent⟩ := performMaintenance_sweeps now i sessions
      refine ⟨_, _, fun hserves => hswept hserves.active, fun writes journal hj => ?_⟩
      rw [serverStep, hsilent]
      exact ⟨_, hj.sweep now⟩

theorem serving_journal {ops : List Op}
    (h : Along (serverStep na keys order) (Serving na keys order i key sessionId) sessions
      ops) :
    ∃ journal, Journaled na .server order key sessionId (sessions i).rw
      (sessions i).reassemblyTable
      (slotWrites i (run (serverStep na keys order) sessions ops).2) journal := by
  induction ops generalizing sessions with
  | nil => exact ⟨[], journaled_nil⟩
  | cons op rest ih =>
      obtain ⟨rw', table', hnext, hgo⟩ := serverStep_journal h.1
      rw [Machine.run, slotWrites_append]
      cases rest with
      | nil => exact hgo [] [] journaled_nil
      | cons op' rest' =>
          obtain ⟨hrw, htable⟩ := hnext h.2.1.1
          obtain ⟨journal, hjournal⟩ := ih h.2
          rw [hrw, htable] at hjournal
          exact hgo _ journal hjournal

end Serving

/-- A client in its first session, in fewer than `2 ^ 53` steps, sends what it reads from
its TUN device, with keepalives, dummies and notices in between; the 16-bit ids of its
packets do not repeat. A server serves the session in a slot whose reassembly table starts
with no active entry. Whatever the network delivers to the server, in any order, changed,
repeated, invented or not at all, and whatever else the server does meanwhile: if nothing
opens that the client has not sealed, the packets that the server writes for the session
are, one for one and byte for byte, packets that the client has read. -/
theorem upstream_integrity (aead : Aead) (na : Sodium) (keys : ServerKeys) (order : Endian)
    (sender : Sender) (hside : sender.side = .client) (channel : Client.Channel)
    (sent : List ClientAct) (sessions : Sessions) (i : Slot) (ops : List Op)
    (hids : ((sent.filterMap ClientAct.packet?).map Packet.id).Nodup)
    (hlength : sent.length < 2 ^ 53)
    (hclean : ∀ k, ((sessions i).reassemblyTable k).isActive = false)
    (hserving : Along (serverStep na keys order)
      (Serving na keys order i channel.kSend channel.sessionId) sessions ops)
    (hauth : Authentic na sender order channel.kSend channel.sessionId
      (clientLog aead order sender channel sent)) :
    (slotWrites i (run (serverStep na keys order) sessions ops).2).Subperm
      ((sent.filterMap ClientAct.packet?).map fun p => (p.bytes, p.bytes.length)) := by
  obtain ⟨journal, hjournal⟩ := serving_journal hserving
  have hpeer : sender.side.peer = .server := by
    rw [hside]
    rfl
  rw [← hpeer] at hjournal
  exact hjournal.integrity hclean (clientLog_runLog hside aead order channel sent hlength)
    hids hauth

section Example

/-- A client that does not pad, a packet of 20 bytes and the slot that serves it. -/
def plainSender : Sender :=
  ⟨.client, ⟨5, 300, 'N'.toUInt8, 'N'.toUInt8⟩, fun _ _ => Octets.zero sessionIdLen,
    by decide, by decide⟩

def smallPacket : Packet := ⟨1, List.replicate 20 7, by decide, by decide⟩

def smallChannel : Client.Channel := ⟨Octets.zero aeadKeyLen, Octets.fill sessionIdLen 9⟩

def servedSlot : Sessions := Function.update noSessions 0
  { Session.zero with active := true, sessionId := smallChannel.sessionId }

/-- A keepalive takes the number 0, the packet goes out under the number 1. -/
def smallSession : List ClientAct :=
  [.keepalive (Octets.zero sessionIdLen), .tun smallPacket (fun _ => true) (fun _ => true),
    .sendQueued]

/-- The one fragment of the packet. -/
def smallPlain : Bytes := (Cargo.fragment smallPacket 0).plain plainSender .little

def smallDatagram : Bytes :=
  (Aead.plainText.datagram .little smallChannel.kSend smallChannel.sessionId 1
    smallPlain).getD []

/-- A forged datagram, the real one and a copy of it. -/
def smallDeliveries : List Op :=
  let env : Env := ⟨0, .ok, .ok, ⟨Octets.zero privkeyLen, Octets.zero 8⟩,
    ⟨Octets.zero privkeyLen, Octets.zero 8⟩, true, true, fun _ => 0, fun _ => 0⟩
  [.datagram env ⟨6, 6⟩ (smallDatagram ++ [1]), .datagram env ⟨1, 2⟩ smallDatagram,
    .datagram env ⟨1, 2⟩ smallDatagram]

/-- The packet is written once. -/
theorem upstream_integrity_small :
    let na := onlyOpens smallChannel.sessionId 1 (smallPlain ++ List.replicate 16 0)
      smallPlain
    let keys : ServerKeys := ⟨Octets.zero 64, true, Octets.zero privkeyLen⟩
    let writes := slotWrites 0 (run (serverStep na keys .little) servedSlot smallDeliveries).2
    writes = [(smallPacket.bytes, 20)] ∧
      writes.Subperm ((smallSession.filterMap ClientAct.packet?).map fun p =>
        (p.bytes, p.bytes.length)) := by
  intro na keys writes
  refine ⟨by decide +kernel, ?_⟩
  have hlog : (1, .fragment smallPacket 0) ∈
      clientLog .plainText .little plainSender smallChannel smallSession := by
    decide +kernel
  exact upstream_integrity .plainText na keys .little plainSender rfl smallChannel
    smallSession servedSlot 0 smallDeliveries (by decide +kernel) (by decide +kernel)
    (by decide +kernel) (by decide +kernel) (onlyOpens_authentic _ _ hlog)

end Example

end Chamlon.Tunnel
