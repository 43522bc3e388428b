import Mathlib.Tactic
import Chamlon.Agreement.Honest
import Chamlon.Reassembly.Isolation

/-!
A slot that is used again. None of the ways to give a slot up clears its
reassembly table, and `handle_msg1` does not clear it either, so a new session
starts with the fragments of the client before it. What the new session's
plaintexts write to the TUN device depends on that table, the two activity
times and nothing else of the old slot.

The session is taken from `update_window` on: its inputs are the plaintexts that
passed authentication and the maintenance calls between them.
-/

namespace Chamlon.Server

open Config Memory Reassembly Machine Agreement Client

/-- What slot `i` wrote to the TUN device. -/
def tunWrites (i : Slot) (events : List Event) : List (Bytes × Nat) :=
  events.filterMap fun
    | .tunWrite j bytes length => if j = i then some (bytes, length) else none
    | _ => none

/-- What a session receives. -/
inductive SessionInput where
  | plain (env : Env) (bytes : Bytes)
  | maintenance (now : Int)

/-- The plaintext holds a tunnel header, fits the receive buffer and declares no
more than an entry holds. Anything else may leave the arrays it is copied
between. -/
def SessionInput.WellFormed (order : Endian) : SessionInput → Prop
  | .plain _ bytes =>
      tunnelHeaderLen ≤ bytes.length ∧ bytes.length ≤ bufferSize ∧
        (plainHeader order bytes).totalIpLen.toNat ≤ maxPacketSize
  | .maintenance _ => True

/-- An input of the session in slot `i`, while it lasts, and what it writes. -/
def sessionStep (order : Endian) (i : Slot) (sessions : Sessions) :
    SessionInput → Sessions × List (Bytes × Nat)
  | .plain env bytes =>
      if (sessions i).active then
        let result := inboundAccepted order env i bytes
          (Function.update sessions i { sessions i with lastActivity := env.now })
        (result.1, tunWrites i result.2)
      else (sessions, [])
  | .maintenance now =>
      ((performMaintenance now sessions).1, tunWrites i (performMaintenance now sessions).2)

/-- Slots that differ in no field the session's writes depend on. -/
structure Alike (first second : Session) : Prop where
  active : first.active = second.active
  lastActivity : first.lastActivity = second.lastActivity
  lastActivityKeepalive : first.lastActivityKeepalive = second.lastActivityKeepalive
  table : SameActive first.reassemblyTable second.reassemblyTable

/-- A fragment changes the table of its slot and writes what the table code
writes. -/
theorem inboundAccepted_fragment {order : Endian} {env : Env} {i : Slot} {plain : Bytes}
    {sessions : Sessions} {outcome : FragmentOutcome}
    (h : inboundPlain order env.stack env.now plain (sessions i).reassemblyTable =
      .fragment outcome) :
    (inboundAccepted order env i plain sessions).1 i =
        { sessions i with
          reassemblyTable := outcome.tableAfter (sessions i).reassemblyTable } ∧
      tunWrites i (inboundAccepted order env i plain sessions).2 =
        writesOf outcome.events := by
  unfold inboundAccepted
  rw [h]
  cases outcome with
  | tableFull => exact ⟨rfl, rfl⟩
  | oversize table j => exact ⟨Function.update_self .., rfl⟩
  | stored table j => exact ⟨Function.update_self .., rfl⟩
  | written table j buffer length =>
      refine ⟨Function.update_self .., ?_⟩
      simp [tunWrites, writesOf, FragmentOutcome.events]
  | badCopy j => exact ⟨rfl, rfl⟩

theorem freeSession_alike {i : Slot} {first second : Sessions}
    (h : Alike (first i) (second i)) :
    Alike ((freeSession i first).1 i) ((freeSession i second).1 i) ∧
      tunWrites i (freeSession i first).2 = tunWrites i (freeSession i second).2 := by
  unfold freeSession
  rw [← h.active]
  split
  · dsimp only
    rw [Function.update_self, Function.update_self]
    exact ⟨⟨rfl, rfl, h.lastActivityKeepalive, h.table⟩, rfl⟩
  · exact ⟨h, rfl⟩

/-- The control packets do not look at the table. -/
theorem inboundPlain_alike (order : Endian) (stack : Nat → UInt8) (now : Int)
    (plain : Bytes) (first second : ReassemblyTable) :
    (∃ header payload payloadLen,
      inboundPlain order stack now plain first =
        .fragment (storeFragment now header payload payloadLen first) ∧
      inboundPlain order stack now plain second =
        .fragment (storeFragment now header payload payloadLen second)) ∨
    (inboundPlain order stack now plain first = inboundPlain order stack now plain second ∧
      ∀ outcome, inboundPlain order stack now plain first ≠ .fragment outcome) := by
  unfold inboundPlain
  cases hctrl : (readHeader order (peek plain stack)).isControl with
  | false =>
      exact Or.inl ⟨_, _, _,
        dispatchPlain_of_not_control order stack now plain first hctrl,
        dispatchPlain_of_not_control order stack now plain second hctrl⟩
  | true =>
      refine Or.inr ⟨?_, dispatchPlain_of_control order stack now plain first hctrl⟩
      simp only [TunnelHeader.isControl, Bool.or_eq_true, beq_iff_eq] at hctrl
      unfold dispatchPlain
      grind

theorem inboundAccepted_alike (order : Endian) (env : Env) {i : Slot} (plain : Bytes)
    {first second : Sessions} (h : Alike (first i) (second i)) :
    Alike ((inboundAccepted order env i plain first).1 i)
        ((inboundAccepted order env i plain second).1 i) ∧
      tunWrites i (inboundAccepted order env i plain first).2 =
        tunWrites i (inboundAccepted order env i plain second).2 := by
  rcases inboundPlain_alike order env.stack env.now plain (first i).reassemblyTable
      (second i).reassemblyTable with
    ⟨header, payload, payloadLen, hfirst, hsecond⟩ | ⟨hsame, hcontrol⟩
  · have hfiled := h.table.storeFragment env.now header payload payloadLen
    dsimp only at hfiled
    generalize storeFragment env.now header payload payloadLen
      (first i).reassemblyTable = outcome at hfiled hfirst
    generalize storeFragment env.now header payload payloadLen
      (second i).reassemblyTable = outcome' at hfiled hsecond
    obtain ⟨hevents, htable⟩ := hfiled
    obtain ⟨hslot, hwrites⟩ := inboundAccepted_fragment hfirst
    obtain ⟨hslot', hwrites'⟩ := inboundAccepted_fragment hsecond
    rw [hslot, hslot', hwrites, hwrites', hevents]
    exact ⟨⟨h.active, h.lastActivity, h.lastActivityKeepalive, htable⟩, rfl⟩
  · unfold inboundAccepted
    rw [← hsame]
    cases hplain : inboundPlain order env.stack env.now plain
        (first i).reassemblyTable with
    | dummy => exact ⟨h, rfl⟩
    | tooShort => exact ⟨h, rfl⟩
    | keepalive =>
        dsimp only
        rw [Function.update_self, Function.update_self]
        exact ⟨⟨h.active, rfl, h.lastActivityKeepalive, h.table⟩, rfl⟩
    | disconnect => exact freeSession_alike h
    | fragment outcome => exact absurd hplain (hcontrol outcome)

theorem performMaintenance_silent (i : Slot) (now : Int) (sessions : Sessions) :
    tunWrites i (performMaintenance now sessions).2 = [] := by
  rw [tunWrites, List.filterMap_eq_nil_iff]
  intro event hmem
  rcases performMaintenance_mem hmem with rfl | ⟨j, rfl⟩
  · rfl
  · rfl

theorem performMaintenance_alike (now : Int) {i : Slot} {first second : Sessions}
    (h : Alike (first i) (second i)) :
    Alike ((performMaintenance now first).1 i) ((performMaintenance now second).1 i) := by
  have hcleaned : Alike ((cleanupExpiredSessions now first).1 i)
      ((cleanupExpiredSessions now second).1 i) := by
    unfold cleanupExpiredSessions Session.expired
    dsimp only
    rw [← h.active, ← h.lastActivity]
    split
    · exact ⟨rfl, rfl, h.lastActivityKeepalive, h.table⟩
    · exact h
  unfold performMaintenance
  dsimp only [emit, sendKeepalives]
  generalize (cleanupExpiredSessions now first).1 = first at hcleaned ⊢
  generalize (cleanupExpiredSessions now second).1 = second at hcleaned ⊢
  have hswept : Alike (sweepSessions now first i) (sweepSessions now second i) :=
    ⟨hcleaned.active, hcleaned.lastActivity, hcleaned.lastActivityKeepalive,
      hcleaned.table.sweep now⟩
  unfold Session.keepaliveDue
  rw [← hswept.active, ← hswept.lastActivityKeepalive]
  split
  · exact ⟨rfl, rfl, rfl, hswept.table⟩
  · exact hswept

/-- One input does the same to slots that are alike. -/
theorem sessionStep_alike (order : Endian) {i : Slot} {first second : Sessions}
    (h : Alike (first i) (second i)) (input : SessionInput) :
    Alike ((sessionStep order i first input).1 i) ((sessionStep order i second input).1 i) ∧
      (sessionStep order i first input).2 = (sessionStep order i second input).2 := by
  cases input with
  | plain env bytes =>
      unfold sessionStep
      dsimp only
      rw [← h.active]
      split
      · apply inboundAccepted_alike order env bytes
        rw [Function.update_self, Function.update_self]
        exact ⟨rfl, rfl, h.lastActivityKeepalive, h.table⟩
      · exact ⟨h, rfl⟩
  | maintenance now =>
      refine ⟨performMaintenance_alike now h, ?_⟩
      unfold sessionStep
      dsimp only
      rw [performMaintenance_silent, performMaintenance_silent]

/-- A datagram that reaches `update_window` is a plaintext of its session. -/
theorem inboundData_session {na : Sodium} {order : Endian} {env : Env} {buf plain : Bytes}
    {sessions : Sessions} {i : Slot}
    (hslot : sessionById (Octets.read sessionIdLen (peek buf env.past) protoHeaderLen)
      sessions = some i)
    (hnew : (sessions i).rw.checkReplay (pktSeq env buf) = false)
    (hlength : (buf.length + 2 ^ 64 - dataHeaderLen) % 2 ^ 64 ≤
      bufferSize - dataHeaderLen)
    (hplain : na.decrypt (sessions i).kRecv (sessions i).sessionId (pktSeq env buf)
      (slice buf dataHeaderLen ((buf.length + 2 ^ 64 - dataHeaderLen) % 2 ^ 64)) =
        some plain)
    (hfits : plain.length ≤ bufferSize) :
    Alike ((inboundData na order env buf sessions).1 i)
        ((sessionStep order i sessions (.plain env plain)).1 i) ∧
      tunWrites i (inboundData na order env buf sessions).2 =
        (sessionStep order i sessions (.plain env plain)).2 := by
  have hactive := (sessionById_eq_some hslot).1
  unfold inboundData sessionStep
  dsimp only
  rw [hslot]
  dsimp only
  rw [Function.update_self, hnew, if_neg Bool.false_ne_true,
    if_neg (Nat.not_lt.mpr hlength)]
  dsimp only
  rw [hplain, if_pos hactive]
  dsimp only
  rw [if_neg (Nat.not_lt.mpr hfits)]
  apply inboundAccepted_alike order env plain
  rw [Function.update_self, Function.update_self]
  exact ⟨rfl, rfl, rfl, fun _ => ⟨rfl, fun _ => rfl⟩⟩

/-- What `handle_msg1` leaves of a slot it took: the table stays. -/
structure Taken (now : Int) (before after : Session) : Prop where
  active : after.active = true
  lastActivity : after.lastActivity = now
  lastActivityKeepalive : after.lastActivityKeepalive = now
  table : after.reassemblyTable = before.reassemblyTable

theorem msg1InSlot_taken {na : Sodium} {keys : ServerKeys} {order : Endian} {env : Env}
    {random : Ephemeral} {msg1 msg2 : Bytes} {src dst : SockAddr} {i : Slot}
    {sessions : Sessions}
    (h : .sendMsg2 dst msg2 ∈
      (msg1InSlot na keys order env random msg1 src i sessions).2) :
    Taken env.now (sessions i)
      ((msg1InSlot na keys order env random msg1 src i sessions).1 i) := by
  rcases msg1InSlot_cases na keys order env random msg1 src i sessions with
    hfreed | ⟨sig, secrets, _, _, hresult⟩
  · rw [hfreed] at h
    exact absurd h ((freeSession_bookkeeping i _).not_mem rfl)
  · rw [hresult] at h ⊢
    rw [(activateSlot_sent h).2.2, Function.update_self]
    exact ⟨rfl, rfl, rfl, rfl⟩

theorem handleMsg1_taken {na : Sodium} {keys : ServerKeys} {order : Endian} {env : Env}
    {random : Ephemeral} {msg1 msg2 : Bytes} {src dst : SockAddr}
    {sessions : Sessions} {i : Slot}
    (hfree : (allocateSession sessions).map Prod.fst = some i)
    (hsent : .sendMsg2 dst msg2 ∈
      (handleMsg1 na keys order env random msg1 src sessions).2) :
    Taken env.now (sessions i)
      ((handleMsg1 na keys order env random msg1 src sessions).1 i) := by
  obtain ⟨j, next, hallocated, hsent', hslots⟩ := handleMsg1_answered hsent
  rw [hallocated] at hfree
  obtain rfl : j = i := Option.some.inj hfree
  have htaken := msg1InSlot_taken hsent'
  rw [(allocateSession_eq_some hallocated).2, Function.update_self] at htaken
  rw [hslots, (allocateSession_eq_some hallocated).2]
  exact ⟨htaken.active, htaken.lastActivity, htaken.lastActivityKeepalive, htaken.table⟩

theorem Taken.alike {now : Int} {before before' after after' : Session}
    (h : Taken now before after) (h' : Taken now before' after')
    (htable : SameActive before.reassemblyTable before'.reassemblyTable) :
    Alike after after' where
  active := h.active.trans h'.active.symm
  lastActivity := h.lastActivity.trans h'.lastActivity.symm
  lastActivityKeepalive := h.lastActivityKeepalive.trans h'.lastActivityKeepalive.symm
  table := by
    rw [h.table, h'.table]
    exact htable

/-- The fragment with this header and a payload of one byte. -/
def oneByte (order : Endian) (env : Env) (header : TunnelHeader) : SessionInput :=
  .plain env ((encodeHeader order header (Octets.zero sessionIdLen)).val ++ [1])

theorem oneByte_wellFormed (order : Endian) (env : Env) {header : TunnelHeader}
    (h : header.totalIpLen.toNat ≤ maxPacketSize) :
    (oneByte order env header).WellFormed order := by
  unfold oneByte SessionInput.WellFormed
  dsimp only
  rw [plainHeader_encode, List.length_append, Octets.length_val]
  exact ⟨by decide, by decide, h⟩

/-- A session in use files such a fragment in its table. -/
theorem sessionStep_oneByte (order : Endian) (env : Env) {header : TunnelHeader}
    {i : Slot} {sessions : Sessions} (hactive : (sessions i).active = true)
    (hdata : header.isControl = false) :
    let next := sessionStep order i sessions (oneByte order env header)
    let outcome := storeFragment env.now header [1] 1 (sessions i).reassemblyTable
    (next.1 i).active = true ∧
      (next.1 i).reassemblyTable = outcome.tableAfter (sessions i).reassemblyTable ∧
      next.2 = writesOf outcome.events := by
  dsimp only
  unfold oneByte sessionStep
  generalize hplain : (encodeHeader order header (Octets.zero sessionIdLen)).val ++ [1] =
    plain
  have hheader : plainHeader order plain = header := by
    rw [← hplain, plainHeader_encode]
  have hpayload : plainPayload plain = [1] := by
    rw [← hplain, plainPayload_encode]
  have hlength : plain.length = tunnelHeaderLen + 1 := by
    rw [← hplain, List.length_append, Octets.length_val]
    rfl
  dsimp only
  rw [if_pos hactive]
  dsimp only
  have hstored : handlePlain .server order env.stack env.now plain
      (sessions i).reassemblyTable =
        .fragment (storeFragment env.now header [1] 1 (sessions i).reassemblyTable) := by
    rcases handlePlain_cases .server order env.stack env.now plain
        (sessions i).reassemblyTable ⟨by rw [hlength]; decide, by rw [hlength]; decide⟩
      with ⟨hcontrol, _⟩ | ⟨_, hfragment⟩
    · rw [hheader, hdata] at hcontrol
      cases hcontrol
    · rw [hfragment, hheader, hpayload]
      rfl
  generalize storeFragment env.now header [1] 1 (sessions i).reassemblyTable = outcome
    at hstored ⊢
  generalize hstart : Function.update sessions i
    { sessions i with lastActivity := env.now } = start
  have hself : start i = { sessions i with lastActivity := env.now } := by
    rw [← hstart, Function.update_self]
  have hinbound : inboundPlain order env.stack env.now plain (start i).reassemblyTable =
      .fragment outcome := by
    rw [hself]
    exact hstored
  obtain ⟨hslot, hwrites⟩ := inboundAccepted_fragment hinbound
  rw [hslot, hwrites, hself]
  exact ⟨hactive, rfl, rfl⟩

theorem openingHeader_isControl (id : UInt16) : (openingHeader id).isControl = false := by
  rw [openingHeader, TunnelHeader.isControl]
  dsimp only
  decide

theorem closingHeader_isControl (id : UInt16) : (closingHeader id).isControl = false := by
  rw [closingHeader, TunnelHeader.isControl]
  dsimp only
  decide

/-- The first fragments of these packets, and the last fragment of one. -/
def probe (order : Endian) (env : Env) (ids : List UInt16) (id : UInt16) :
    List SessionInput :=
  ids.map (fun id => oneByte order env (openingHeader id)) ++
    [oneByte order env (closingHeader id)]

theorem probe_wellFormed (order : Endian) (env : Env) (ids : List UInt16) (id : UInt16) :
    ∀ input ∈ probe order env ids id, input.WellFormed order := by
  have htwo : (2 : UInt16).toNat ≤ maxPacketSize := by decide
  intro input hmem
  rcases List.mem_append.mp hmem with hmem | hmem
  · obtain ⟨other, _, rfl⟩ := List.mem_map.mp hmem
    exact oneByte_wellFormed order env htwo
  · rw [List.mem_singleton.mp hmem]
    exact oneByte_wellFormed order env htwo

theorem run_openings (order : Endian) (env : Env) {i : Slot} {sessions : Sessions}
    (hactive : (sessions i).active = true) (ids : List UInt16) :
    let result := run (sessionStep order i) sessions
      (ids.map fun id => oneByte order env (openingHeader id))
    (result.1 i).active = true ∧
      (result.1 i).reassemblyTable = openAll env.now (sessions i).reassemblyTable ids ∧
      result.2 = [] := by
  induction ids generalizing sessions with
  | nil => exact ⟨hactive, rfl, rfl⟩
  | cons id rest ih =>
      obtain ⟨hstill, htable, hwrites⟩ :=
        sessionStep_oneByte order env hactive (openingHeader_isControl id)
      obtain ⟨hfinal, hopened, hsilent⟩ := ih hstill
      rw [htable] at hopened
      refine ⟨hfinal, ?_, ?_⟩
      · rw [openAll_cons]
        exact hopened
      · simp only [List.map_cons, run]
        rw [hsilent, hwrites, opening_silent, List.append_nil]

/-- What a session writes for a probe is what its table writes for the last
fragment. -/
theorem run_probe (order : Endian) (env : Env) {i : Slot} {sessions : Sessions}
    (hactive : (sessions i).active = true) (ids : List UInt16) (id : UInt16) :
    (run (sessionStep order i) sessions (probe order env ids id)).2 =
      writesOf (storeFragment env.now (closingHeader id) [1] 1
        (openAll env.now (sessions i).reassemblyTable ids)).events := by
  obtain ⟨hstill, hopened, hsilent⟩ := run_openings order env hactive ids
  obtain ⟨_, _, hwrites⟩ :=
    sessionStep_oneByte order env hstill (closingHeader_isControl id)
  rw [probe, run_append, hsilent, ← hopened, ← hwrites]
  simp [run]

/-- An active entry in the slot's table takes the room of a packet that a clean
table would complete. -/
theorem probe_distinguishes (order : Endian) (env : Env) {i : Slot}
    {stale fresh : Sessions} (hstale : (stale i).active = true)
    (hfresh : (fresh i).active = true)
    (hclean : ∀ e, ((fresh i).reassemblyTable e).isActive = false)
    {e : Fin maxReassemblyEntries} (hleft : ((stale i).reassemblyTable e).isActive = true) :
    ∃ ids id, (run (sessionStep order i) stale (probe order env ids id)).2 ≠
      (run (sessionStep order i) fresh (probe order env ids id)).2 := by
  have hlength : (otherIds ((stale i).reassemblyTable e).packetId).length =
      maxReassemblyEntries := by
    rw [otherIds, List.length_map, List.length_range]
  have hnodup := otherIds_nodup ((stale i).reassemblyTable e).packetId
  have hother := not_mem_otherIds ((stale i).reassemblyTable e).packetId
  generalize otherIds ((stale i).reassemblyTable e).packetId = ids at hlength hnodup hother
  obtain ⟨id, hmem, hrefused⟩ := openAll_refused env.now hleft hother hnodup hlength
  refine ⟨ids, id, ?_⟩
  have hopened := (opened_of_inactive hclean).openAll env.now ids hnodup (le_of_eq hlength)
  obtain ⟨bytes, hwritten⟩ := hopened.closing env.now hmem
  rw [run_probe order env hstale, run_probe order env hfresh, hwritten,
    writesOf_eq_nil (closing_refused hrefused)]
  simp [writesOf]

/-- For a slot taken by `handle_msg1` with the same inputs in two states of the
server, in one of which its table has no active entry: the new session writes
the same packets for all inputs exactly when the table has no active entry in
the other state either. -/
theorem slot_reuse_isolated_iff (na : Sodium) (keys : ServerKeys) (order : Endian)
    (env : Env) (random : Ephemeral) (msg1 : Bytes) (src : SockAddr) (i : Slot)
    (stale fresh : Sessions)
    (hstale : (allocateSession stale).map Prod.fst = some i)
    (hfresh : (allocateSession fresh).map Prod.fst = some i)
    (hsent : ∃ msg2, .sendMsg2 src msg2 ∈
      (handleMsg1 na keys order env random msg1 src stale).2)
    (hsent' : ∃ msg2, .sendMsg2 src msg2 ∈
      (handleMsg1 na keys order env random msg1 src fresh).2)
    (hclean : ∀ e, ((fresh i).reassemblyTable e).isActive = false) :
    (∀ inputs : List SessionInput, (∀ input ∈ inputs, input.WellFormed order) →
      (run (sessionStep order i)
        (handleMsg1 na keys order env random msg1 src stale).1 inputs).2 =
      (run (sessionStep order i)
        (handleMsg1 na keys order env random msg1 src fresh).1 inputs).2) ↔
    ∀ e, ((stale i).reassemblyTable e).isActive = false := by
  obtain ⟨_, hsent⟩ := hsent
  obtain ⟨_, hsent'⟩ := hsent'
  have htaken := handleMsg1_taken hstale hsent
  have htaken' := handleMsg1_taken hfresh hsent'
  constructor
  · intro hsame e
    by_contra hleft
    rw [Bool.not_eq_false, ← htaken.table] at hleft
    rw [← htaken'.table] at hclean
    obtain ⟨ids, id, hdiffer⟩ := probe_distinguishes order env htaken.active
      htaken'.active hclean hleft
    exact hdiffer (hsame _ (probe_wellFormed order env ids id))
  · intro hempty inputs hinputs
    exact (run_related (sessionStep order i) (sessionStep order i)
      (fun first second => Alike (first i) (second i)) (SessionInput.WellFormed order)
      (fun first second input h _ => sessionStep_alike order h input) _ _ inputs
      (htaken.alike htaken' (sameActive_of_inactive hempty hclean)) hinputs).2

/-- A client shook hands and disconnected without leaving a fragment: whatever
the next client sends, it gets what it would get from a new server. -/
theorem slot_reuse_isolated_first :
    let msg1 := clientMsg1 Sodium.xorSodium .little ⟨5, 1024, 78, 78⟩ (bytewise 5)
    let ops : List Op := [.datagram (calmEnv 0 0) ⟨1, 2⟩ msg1, .free 0]
    let stale := (run (serverStep Sodium.xorSodium zeroKeys .little) noSessions ops).1
    let takeOver := handleMsg1 Sodium.xorSodium zeroKeys .little (calmEnv 1 3)
      (calmEnv 1 3).random msg1 ⟨3, 4⟩
    ∀ inputs : List SessionInput, (∀ input ∈ inputs, input.WellFormed .little) →
      (run (sessionStep .little 0) (takeOver stale).1 inputs).2 =
        (run (sessionStep .little 0) (takeOver noSessions).1 inputs).2 := by
  intro msg1 ops stale takeOver
  have hslot : (allocateSession stale).map Prod.fst = some 0 := by decide +kernel
  have hsent : .sendMsg2 ⟨3, 4⟩ (bytewiseMsg2 5 3 (vpnIpOf 0)) ∈ (takeOver stale).2 := by
    decide +kernel
  have hsent' : .sendMsg2 ⟨3, 4⟩ (bytewiseMsg2 5 3 (vpnIpOf 0)) ∈
      (takeOver noSessions).2 := by decide +kernel
  exact (slot_reuse_isolated_iff Sodium.xorSodium zeroKeys .little (calmEnv 1 3)
    (calmEnv 1 3).random msg1 ⟨3, 4⟩ 0 stale noSessions hslot (by decide +kernel)
    ⟨_, hsent⟩ ⟨_, hsent'⟩ fun _ => rfl).mpr (by decide +kernel)

/-- A client sends the first fragment of a packet of two bytes and disconnects.
The next client in the slot sends a second fragment under the same packet id and
gets the old byte written in front of its own. Without the first client's
fragment nothing is written. -/
theorem slot_reuse_leaks :
    let header := fun header => (encodeHeader .little header (Octets.zero 16)).val
    let data := fun (seq : UInt8) plain => (protoHeader .little pktTypeData).val ++
      List.replicate 16 160 ++ [0, 0, 0, 0, 0, 0, 0, seq] ++ plain
    let msg1 := clientMsg1 Sodium.xorSodium .little ⟨5, 1024, 78, 78⟩ (bytewise 5)
    let history := fun plains : List Bytes => (run
      (serverStep Sodium.xorSodium zeroKeys .little) noSessions
      (.datagram (calmEnv 0 3) ⟨1, 2⟩ msg1 ::
        plains.zipIdx.map fun (plain, k) =>
          .datagram (calmEnv 0 3) ⟨1, 2⟩ (data (UInt8.ofNat k + 1) plain))).1
    let disconnect := header ⟨0, 0, 0, UInt16.ofNat pktCtrlDisconnect⟩
    let stale := history [header ⟨1, 0, 2, 0x8000⟩ ++ [7], disconnect]
    let fresh := history [disconnect]
    let takeOver := handleMsg1 Sodium.xorSodium zeroKeys .little (calmEnv 1 9)
      (calmEnv 1 9).random msg1 ⟨3, 4⟩
    let inputs := [SessionInput.plain (calmEnv 2 0) (header ⟨1, 1, 2, 0⟩ ++ [8])]
    (stale 0).active = false ∧ (fresh 0).active = false ∧
      ((takeOver stale).1 0).active = true ∧ ((takeOver fresh).1 0).active = true ∧
      (run (sessionStep .little 0) (takeOver stale).1 inputs).2 = [([7, 8], 2)] ∧
      (run (sessionStep .little 0) (takeOver fresh).1 inputs).2 = [] := by
  decide +kernel

end Chamlon.Server
