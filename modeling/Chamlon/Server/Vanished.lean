import Mathlib.Tactic
import Chamlon.Server.MainLoop
import Chamlon.Server.AtMostOnce

/-!
Clients that have gone without a word. Their sessions are what `cleanup_expired_sessions`
is there for, and with constant bit rate it never gets to them: the keepalives that the
server itself sends keep the sessions young. A slot is given up when a notice is accepted
for its session or when its address shakes hands again. Until then a table that is full
stays full, and everybody else is turned away.
-/

namespace Chamlon.Server

open Config Memory Machine Reassembly

/-- The events without their times. -/
def untimed (events : List (Int × Event)) : List Event := events.map Prod.snd

@[simp] theorem untimed_append (first second : List (Int × Event)) :
    untimed (first ++ second) = untimed first ++ untimed second :=
  List.map_append

@[simp] theorem untimed_timed (now : Int) (events : List Event) :
    untimed (events.map fun e => (now, e)) = events := by
  rw [untimed, List.map_map]
  exact List.map_id events

/-- Nothing was accepted under the session id. -/
def Unheard (sessionId : Octets sessionIdLen) (events : List (Int × Event)) : Prop :=
  ∀ pair ∈ acceptedPairs (untimed events), pair.1 ≠ sessionId

instance (sessionId : Octets sessionIdLen) (events : List (Int × Event)) :
    Decidable (Unheard sessionId events) :=
  inferInstanceAs
    (Decidable (∀ pair ∈ acceptedPairs (untimed events), pair.1 ≠ sessionId))

theorem unheard_append {sessionId : Octets sessionIdLen}
    {first second : List (Int × Event)} :
    Unheard sessionId (first ++ second) ↔
      Unheard sessionId first ∧ Unheard sessionId second := by
  unfold Unheard
  rw [untimed_append, acceptedPairs_append]
  exact List.forall_mem_append

section Gone

variable {aead : Aead} {na : Sodium} {keys : ServerKeys} {order : Endian} {gap : Int}
  {s : Service}

/-- Only a datagram that is accepted for the session ends it, or a handshake from its
address. -/
theorem handleInboundUdp_stays {env : Env} {src : SockAddr} {buf : Bytes}
    {sessions : Sessions} {j : Slot} (hactive : (sessions j).active = true)
    (haddr : packetType buf = pktTypeHandshake → (sessions j).clientAddr ≠ src)
    (hunheard : ∀ pair ∈ acceptedPairs
      (handleInboundUdp na keys order env src buf sessions).2,
      pair.1 ≠ (sessions j).sessionId) :
    ((handleInboundUdp na keys order env src buf sessions).1 j).active = true := by
  rcases handleInboundUdp_cases na keys order env src buf sessions with
    ⟨_, events, _, hdropped⟩ | ⟨hmsg1, ⟨_, hagain⟩ | ⟨_, hfirst⟩⟩ | ⟨_, hdata⟩
  · rw [hdropped]
    exact hactive
  · rw [hagain, handleRehandshakeMsg1_frame hactive (.inl (haddr hmsg1.2.1))]
    exact hactive
  · rw [hfirst, handleMsg1_frame hactive (.inl (haddr hmsg1.2.1))]
    exact hactive
  rw [hdata, emit_snd, acceptedPairs_append] at hunheard
  rw [hdata, emit_fst]
  rcases inboundData_cases na order env buf sessions with
    ⟨_, hnone⟩ | ⟨i, _, ⟨events, _, hrefused⟩ | ⟨plain, _, _, haccepted⟩⟩
  · rw [hnone]
    exact hactive
  · rw [hrefused]
    dsimp only
    by_cases hj : j = i
    · rw [hj] at hactive ⊢
      rw [Function.update_self]
      exact hactive
    · rw [Function.update_of_ne hj]
      exact hactive
  · have hj : j ≠ i := by
      rintro rfl
      refine hunheard ((sessions j).sessionId, pktSeq env buf)
        (List.mem_append_right _ ?_) rfl
      rw [haccepted]
      exact List.mem_cons_self
    rw [haccepted, emit_fst]
    rcases inboundAccepted_cases order env i plain (Function.update sessions i
        { sessions i with
          lastActivity := env.now
          rw := (sessions i).rw.updateWindow (pktSeq env buf) }) with
      hfreed | ⟨now, table, events, _, hresult, _⟩
    · rw [hfreed, freeSession_of_ne _ hj, Function.update_of_ne hj]
      exact hactive
    · rw [hresult]
      dsimp only
      rw [Function.update_of_ne hj, Function.update_of_ne hj]
      exact hactive

theorem SameSession.sameKeys {before after : Session} (h : SameSession before after) :
    SameKeys before after :=
  ⟨h.active, h.clientAddr, h.sessionId, h.kRecv, h.kSend, h.vpnIp⟩

/-- One step keeps a session with constant bit rate whose client is gone. -/
theorem serviceStep_stays (hgap : gap ≤ 47) (h : KeptAlive s) {act : ServiceAct} {i : Slot}
    (hsteady : Steady gap s act) (hactive : (s.slot i).active = true)
    (hcbr : (s.slot i).argv.cbr = 'Y'.toUInt8)
    (hgone : act.isHandshakeFrom (s.slot i).clientAddr = false)
    (hunheard : Unheard (s.slot i).sessionId (serviceStep aead na keys order s act).2) :
    SameKeys (s.slot i) ((serviceStep aead na keys order s act).1.slot i) ∧
      ((serviceStep aead na keys order s act).1.slot i).argv = (s.slot i).argv := by
  cases act with
  | pass now clock =>
      obtain ⟨_, _, hclock⟩ := hsteady
      dsimp only [serviceStep]
      split
      · have hsame := performMaintenance_same (h.not_expired hgap hclock hactive hcbr)
        exact ⟨hsame.sameKeys, hsame.argv⟩
      · exact ⟨.refl _, rfl⟩
  | inbound env src buf =>
      have haddr : packetType buf = pktTypeHandshake → (s.slot i).clientAddr ≠ src := by
        rintro htype rfl
        simp [ServiceAct.isHandshakeFrom, Op.isHandshakeFrom, htype] at hgone
      unfold Unheard serviceStep at hunheard
      dsimp only at hunheard
      rw [untimed_timed] at hunheard
      have hstays := handleInboundUdp_stays hactive haddr hunheard
      have hkeeps := @handleInboundUdp_keeps na keys order env src buf _ i hactive haddr
      have hbeat := handleInboundUdp_beat na keys order env src s.traffic.sessions i buf
      dsimp only [serviceStep, Service.slot] at hactive ⊢
      generalize (handleInboundUdp na keys order env src buf s.traffic.sessions).1 i = after
        at hstays hkeeps hbeat ⊢
      refine ⟨hkeeps.resolve_right (by simp [hstays]), ?_⟩
      cases hbeat with
      | free hfree =>
          rw [hfree] at hstays
          cases hstays
      | fresh hbefore =>
          rw [hbefore] at hactive
          cases hactive
      | kept _ hargv => exact hargv
  | outbound env id buf =>
      have hsame := (outboundTraffic_sends aead order env s.traffic i id buf).sameSession
      exact ⟨hsame.sameKeys, hsame.argv⟩
  | executeSend env now sessionId =>
      have hsame := (executeSend_sends aead order env s.traffic i now sessionId).sameSession
      dsimp only [serviceStep, Service.slot]
      exact ⟨hsame.sameKeys, hsame.argv⟩

theorem run_stays (hgap : gap ≤ 47) {acts : List ServiceAct} {i : Slot} (h : KeptAlive s)
    (hsteady : Along (serviceStep aead na keys order) (Steady gap) s acts)
    (hactive : (s.slot i).active = true) (hcbr : (s.slot i).argv.cbr = 'Y'.toUInt8)
    (hgone : ∀ act ∈ acts, act.isHandshakeFrom (s.slot i).clientAddr = false)
    (hunheard : Unheard (s.slot i).sessionId (run (serviceStep aead na keys order) s acts).2) :
    SameKeys (s.slot i) ((run (serviceStep aead na keys order) s acts).1.slot i) := by
  induction acts generalizing s with
  | nil => exact .refl _
  | cons act rest ih =>
      obtain ⟨hfirst, hrest⟩ := unheard_append.mp hunheard
      obtain ⟨hsame, hargv⟩ := serviceStep_stays hgap h hsteady.1 hactive hcbr
        (hgone act List.mem_cons_self) hfirst
      refine hsame.trans (ih (serviceStep_keptAlive hgap s act h hsteady.1) hsteady.2
        (hsame.1.trans hactive) (by rw [hargv]; exact hcbr) (fun other hother => ?_) ?_)
      · rw [hsame.2.1]
        exact hgone other (List.mem_cons_of_mem act hother)
      · rw [hsame.2.2.1]
        exact hrest

theorem Bookkeeping.uncommitted {events : List Event} (h : Bookkeeping events) :
    Uncommitted events := by
  intro e he
  have hbookkeeping := h e he
  cases e <;> first | rfl | cases hbookkeeping

/-- A full table turns strangers away. -/
theorem handleInboundUdp_full {env : Env} {src : SockAddr} {buf : Bytes}
    {sessions : Sessions} (hfull : ∀ i, (sessions i).active = true)
    (haddr : packetType buf = pktTypeHandshake → ∀ i, (sessions i).clientAddr ≠ src) :
    Uncommitted (handleInboundUdp na keys order env src buf sessions).2 := by
  rcases handleInboundUdp_cases na keys order env src buf sessions with
    ⟨_, events, hevents, hdropped⟩ | ⟨hmsg1, ⟨⟨i, hfound⟩, _⟩ | ⟨_, hfirst⟩⟩ | ⟨_, hdata⟩
  · rw [hdropped]
    exact hevents.uncommitted
  · exact absurd (sessionByAddr_eq_some hfound).2 (haddr hmsg1.2.1 i)
  · rw [hfirst]
    rcases handleMsg1_cases na keys order env env.random buf src sessions with
      ⟨events, hevents, hrefused⟩ | ⟨_, i, next, _, hallocated, _⟩
    · rw [hrefused]
      exact hevents.uncommitted
    · have hfree := (allocateSession_eq_some hallocated).1
      rw [hfull i] at hfree
      cases hfree
  · rw [hdata, emit_snd]
    refine uncommitted_append.mpr ⟨(lookupEvents_bookkeeping env src buf).uncommitted, ?_⟩
    intro e he
    rcases inboundData_mem he with hbookkeeping | ⟨_, _, rfl⟩ | ⟨_, _, _, rfl⟩ | ⟨_, rfl⟩
    · exact Bookkeeping.uncommitted (List.forall_mem_singleton.mpr hbookkeeping) e
        List.mem_cons_self
    · rfl
    · rfl
    · rfl

theorem serviceStep_full (hfull : ∀ i, (s.slot i).active = true) {act : ServiceAct}
    (hgone : ∀ i, act.isHandshakeFrom (s.slot i).clientAddr = false) :
    Uncommitted (untimed (serviceStep aead na keys order s act).2) := by
  cases act with
  | pass now clock =>
      dsimp only [serviceStep]
      split
      · rw [untimed_timed]
        intro e he
        rcases performMaintenance_mem he with rfl | ⟨_, rfl⟩ <;> rfl
      · exact fun e he => absurd he List.not_mem_nil
  | inbound env src buf =>
      dsimp only [serviceStep]
      rw [untimed_timed]
      refine handleInboundUdp_full hfull fun htype i => ?_
      rintro rfl
      have hfrom := hgone i
      simp [ServiceAct.isHandshakeFrom, Op.isHandshakeFrom, htype] at hfrom
  | outbound env id buf => exact fun e he => absurd he List.not_mem_nil
  | executeSend env now sessionId => exact fun e he => absurd he List.not_mem_nil

end Gone

/-- Over every run of the server in which the clock does not go back and no pass of the
main loop is held up for more than 47 seconds: once a session with constant bit rate is in
a slot, it stays there with its keys and addresses for as long as the server accepts
nothing under its id and its address sends no handshake. The timeout of sixty seconds,
forged and repeated datagrams, other clients and the scheduler do not end it. -/
theorem vanished_clients_keep_their_slots (aead : Aead) (na : Sodium) (keys : ServerKeys)
    (order : Endian) (now : Int) (past later : List ServiceAct) (i : Slot)
    (hsteady : Along (serviceStep aead na keys order) (Steady 47) (.start now)
      (past ++ later)) :
    let before := (run (serviceStep aead na keys order) (.start now) past).1
    let after := run (serviceStep aead na keys order) before later
    (before.slot i).active = true → (before.slot i).argv.cbr = 'Y'.toUInt8 →
    (∀ act ∈ later, act.isHandshakeFrom (before.slot i).clientAddr = false) →
    Unheard (before.slot i).sessionId after.2 →
    SameKeys (before.slot i) (after.1.slot i) := by
  intro before after hactive hcbr hgone hunheard
  obtain ⟨hpast, hlater⟩ := (along_append _ _ _ _ _).mp hsteady
  exact run_stays le_rfl (run_keptAlive le_rfl (keptAlive_start now) hpast) hlater hactive
    hcbr hgone hunheard

/-- The client says nothing for two minutes, and another one comes. -/
theorem vanished_clients_keep_their_slots_silent :
    let step := serviceStep .plainText Sodium.xorSodium Agreement.zeroKeys .little
    let before := (run step (.start 0) [steadyGreeting]).1
    let stranger : ServiceAct := .inbound (Agreement.calmEnv 60 4) ⟨3, 4⟩
      (Client.clientMsg1 Sodium.xorSodium .little ⟨5, 1024, 0, 0⟩ (Agreement.bytewise 6))
    let after := run step before [.pass 40 40, stranger, .pass 80 80, .pass 120 120]
    (after.1.slot 0).active = true ∧ SameKeys (before.slot 0) (after.1.slot 0) := by
  intro step before stranger after
  refine ⟨by decide +kernel, ?_⟩
  exact vanished_clients_keep_their_slots .plainText Sodium.xorSodium Agreement.zeroKeys
    .little 0 [steadyGreeting] [.pass 40 40, stranger, .pass 80 80, .pass 120 120] 0
    (by decide +kernel) (by decide +kernel) (by decide +kernel) (by decide +kernel)
    (by decide +kernel)

theorem Handshaking.unheard {events : List Event} (h : Handshaking events) :
    acceptedPairs events = [] := by
  refine List.filterMap_eq_nil_iff.mpr fun e he => ?_
  have hhandshake := h e he
  cases e <;> first | rfl | cases hhandshake

theorem handleInboundUdp_handshake_unheard {na : Sodium} {keys : ServerKeys}
    {order : Endian} {env : Env} {src : SockAddr} {buf : Bytes} {sessions : Sessions}
    (htype : packetType buf = pktTypeHandshake) :
    acceptedPairs (handleInboundUdp na keys order env src buf sessions).2 = [] := by
  apply Handshaking.unheard
  rcases handleInboundUdp_cases na keys order env src buf sessions with
    ⟨_, events, hevents, hdropped⟩ | ⟨_, ⟨_, hagain⟩ | ⟨_, hfirst⟩⟩ | ⟨hreaches, _⟩
  · rw [hdropped]
    exact hevents.handshaking
  · rw [hagain]
    exact handleRehandshakeMsg1_handshaking na keys order env buf src sessions
  · rw [hfirst]
    exact handleMsg1_handshaking na keys order env env.random buf src sessions
  · exact absurd htype hreaches.2.2.2.1

/-- A pass of the loop, or a packet of type handshake. -/
def ServiceAct.isHandshakeOrPass : ServiceAct → Bool
  | .pass _ _ => true
  | .inbound _ _ buf => packetType buf == pktTypeHandshake
  | _ => false

section Handshakes

variable {aead : Aead} {na : Sodium} {keys : ServerKeys} {order : Endian} {s : Service}

theorem serviceStep_handshake_unheard {act : ServiceAct} (h : act.isHandshakeOrPass = true) :
    acceptedPairs (untimed (serviceStep aead na keys order s act).2) = [] := by
  cases act with
  | pass now clock =>
      dsimp only [serviceStep]
      split
      · rw [untimed_timed]
        refine List.filterMap_eq_nil_iff.mpr fun e he => ?_
        rcases performMaintenance_mem he with rfl | ⟨_, rfl⟩ <;> rfl
      · rfl
  | inbound env src buf =>
      dsimp only [serviceStep]
      rw [untimed_timed]
      exact handleInboundUdp_handshake_unheard (beq_iff_eq.mp h)
  | outbound | executeSend => cases h

theorem run_handshakes_unheard {acts : List ServiceAct}
    (h : ∀ act ∈ acts, act.isHandshakeOrPass = true) :
    acceptedPairs (untimed (run (serviceStep aead na keys order) s acts).2) = [] := by
  induction acts generalizing s with
  | nil => rfl
  | cons act rest ih =>
      obtain ⟨hact, hrest⟩ := List.forall_mem_cons.mp h
      rw [Machine.run, untimed_append, acceptedPairs_append,
        serviceStep_handshake_unheard hact, ih hrest]
      rfl

end Handshakes

/-- From a state with the invariant of the steady runs in which all slots hold sessions
with constant bit rate. -/
theorem run_full {aead : Aead} {na : Sodium} {keys : ServerKeys} {order : Endian}
    {s : Service} {acts : List ServiceAct} (h : KeptAlive s)
    (hsteady : Along (serviceStep aead na keys order) (Steady 47) s acts)
    (hfull : ∀ i, (s.slot i).active = true ∧ (s.slot i).argv.cbr = 'Y'.toUInt8)
    (hgone : ∀ act ∈ acts, ∀ i, act.isHandshakeFrom (s.slot i).clientAddr = false)
    (hunheard : ∀ i, Unheard (s.slot i).sessionId
      (run (serviceStep aead na keys order) s acts).2) :
    Uncommitted (untimed (run (serviceStep aead na keys order) s acts).2) := by
  induction acts generalizing s with
  | nil => exact fun e he => absurd he List.not_mem_nil
  | cons act rest ih =>
      have hsame i := serviceStep_stays le_rfl h hsteady.1 (hfull i).1 (hfull i).2
        (hgone act List.mem_cons_self i) (unheard_append.mp (hunheard i)).1
      rw [Machine.run, untimed_append]
      refine uncommitted_append.mpr ⟨serviceStep_full (fun i => (hfull i).1)
        (hgone act List.mem_cons_self), ?_⟩
      refine ih (serviceStep_keptAlive le_rfl s act h hsteady.1) hsteady.2 (fun i => ?_)
        (fun other hother i => ?_) fun i => ?_
      · rw [(hsame i).1.1, (hsame i).2]
        exact hfull i
      · rw [(hsame i).1.2.1]
        exact hgone other (List.mem_cons_of_mem act hother) i
      · rw [(hsame i).1.2.2.1]
        exact (unheard_append.mp (hunheard i)).2

/-- A full table of such sessions stays full. In every run of the server from its start in
which the clock does not go back and no pass of the main loop is held up for more than 47
seconds, from a moment on at which all slots hold sessions with constant bit rate, and
while the server accepts nothing for them and their addresses send no handshake: every
slot keeps its session, and no handshake of anybody else is answered, however long the
run. -/
theorem full_table_turns_everyone_away (aead : Aead) (na : Sodium) (keys : ServerKeys)
    (order : Endian) (now : Int) (past later : List ServiceAct)
    (hsteady : Along (serviceStep aead na keys order) (Steady 47) (.start now)
      (past ++ later)) :
    let before := (run (serviceStep aead na keys order) (.start now) past).1
    let after := run (serviceStep aead na keys order) before later
    (∀ i, (before.slot i).active = true ∧ (before.slot i).argv.cbr = 'Y'.toUInt8) →
    (∀ act ∈ later, ∀ i, act.isHandshakeFrom (before.slot i).clientAddr = false) →
    (∀ i, Unheard (before.slot i).sessionId after.2) →
    (∀ i, SameKeys (before.slot i) (after.1.slot i)) ∧ Uncommitted (untimed after.2) := by
  intro before after hfull hgone hunheard
  obtain ⟨hpast, hlater⟩ := (along_append _ _ _ _ _).mp hsteady
  have halive : KeptAlive before := run_keptAlive le_rfl (keptAlive_start now) hpast
  refine ⟨fun i => ?_, run_full halive hlater hfull hgone hunheard⟩
  exact run_stays le_rfl halive hlater (hfull i).1 (hfull i).2
    (fun act hact => hgone act hact i) (hunheard i)

/-! ## How a table fills up -/

/-- Nothing that `handle_msg1` calls for this MSG1 fails. -/
structure Welcome (na : Sodium) (keys : ServerKeys) (env : Env) (msg1 : Bytes) : Prop where
  loaded : keys.signSkLoaded = true
  verdict : env.handshakeVerdict = .ok
  signed : ∃ sig, na.signDetached keys.signSk (signedBlob (na.kxPublic env.random.sPriv)
    env.random.sNonce (msg1Pub msg1) (msg1Nonce msg1)) = some sig
  derived : ∃ secrets, na.serverSecrets env.random.sPriv keys.serverSk (msg1Pub msg1)
    (msg1Nonce msg1) env.random.sNonce = some secrets
  queue : env.outqAllocated = true
  sent : env.msg2Sent = true

section Filling

variable {na : Sodium} {keys : ServerKeys} {order : Endian} {env : Env} {src : SockAddr}
  {msg1 : Bytes} {sessions : Sessions} {i : Slot}

theorem allocateSession_first (hfree : (sessions i).active = false)
    (hbelow : ∀ j < i, (sessions j).active = true) :
    allocateSession sessions =
      some (i, Function.update sessions i { sessions i with rw := .zero }) := by
  have hfound : Fin.find? (fun j : Slot => !(sessions j).active) = some i :=
    Fin.find?_eq_some_iff.mpr ⟨by rw [hfree, Bool.not_false],
      fun j hj => by rw [hbelow j hj, Bool.not_true]⟩
  unfold allocateSession
  rw [hfound]

theorem activateSlot_sends {secrets : Sodium.SessionSecrets} {msg2 : Bytes}
    (hqueue : env.outqAllocated = true) (hsent : env.msg2Sent = true) :
    (activateSlot env src i secrets msg2 sessions).1 =
      Function.update (boundSlots env src i secrets sessions) i
        { boundSlots env src i secrets sessions i with lastActivityKeepalive := env.now } := by
  unfold activateSlot boundSlots
  dsimp only
  rw [hqueue, hsent]
  rfl

/-- What a first handshake that succeeds makes of the table. -/
structure Admitted (src : SockAddr) (argv : Params) (i : Slot) (before after : Sessions) :
    Prop where
  active : (after i).active = true
  address : (after i).clientAddr = src
  options : (after i).argv = validateParams argv
  others : ∀ j, j ≠ i → (before j).active = true → (before j).clientAddr ≠ src →
    after j = before j
  free : ∀ j, j ≠ i → (before j).active = false → (after j).active = false

/-- A stranger gets the first free slot. -/
theorem handleMsg1_admits (hcalls : Welcome na keys env msg1)
    (hlength : msg1.length = protoHeaderLen + msg1Len + params)
    (hfree : (sessions i).active = false) (hbelow : ∀ j < i, (sessions j).active = true) :
    Admitted src (msg1Params order msg1) i sessions
      (handleMsg1 na keys order env env.random msg1 src sessions).1 := by
  obtain ⟨sig, hsig⟩ := hcalls.signed
  obtain ⟨secrets, hsecrets⟩ := hcalls.derived
  have hresult : (handleMsg1 na keys order env env.random msg1 src sessions).1 =
      (msg1InSlot na keys order env env.random msg1 src i
        (Function.update sessions i { sessions i with rw := .zero })).1 := by
    unfold handleMsg1
    rw [hcalls.loaded, hcalls.verdict, if_neg (by decide), emit_fst]
    dsimp only
    rw [if_neg (not_not.mpr hlength), allocateSession_first hfree hbelow]
  rw [hresult]
  unfold msg1InSlot
  dsimp only
  rw [hsig, hsecrets]
  dsimp only
  rw [activateSlot_sends hcalls.queue hcalls.sent]
  generalize hreserved : Function.update (Function.update sessions i
    { sessions i with rw := .zero }) i ((Function.update sessions i
      { sessions i with rw := .zero } i).reserve i (msg1Params order msg1)) = reserved
  have hself : (reserved i).argv = validateParams (msg1Params order msg1) := by
    rw [← hreserved, Function.update_self]
    rfl
  have hother (j : Slot) (hj : j ≠ i) : reserved j = sessions j := by
    rw [← hreserved, Function.update_of_ne hj, Function.update_of_ne hj]
  refine ⟨?_, ?_, ?_, fun j hj hactive haddr => ?_, fun j hj hinactive => ?_⟩
  · rw [Function.update_self, boundSlots_self]
    rfl
  · rw [Function.update_self, boundSlots_self]
  · rw [Function.update_self, boundSlots_self]
    exact hself
  · rw [Function.update_of_ne hj]
    rcases boundSlots_of_ne env src secrets reserved hj with hsame | ⟨hsrc, _⟩
    · rw [hsame, hother j hj]
    · rw [hother j hj] at hsrc
      exact absurd hsrc haddr
  · rw [Function.update_of_ne hj]
    rcases boundSlots_of_ne env src secrets reserved hj with hsame | ⟨_, hdropped⟩
    · rw [hsame, hother j hj]
      exact hinactive
    · rw [hdropped]
      rfl

theorem handleInboundUdp_admits {argv : Params} {eph : Client.Ephemeral}
    (hmbps : -2 ^ 31 ≤ argv.mbps ∧ argv.mbps < 2 ^ 31)
    (hfrag : -2 ^ 31 ≤ argv.frag ∧ argv.frag < 2 ^ 31)
    (hcalls : Welcome na keys env (Client.clientMsg1 na order argv eph))
    (hfree : (sessions i).active = false) (hbelow : ∀ j < i, (sessions j).active = true)
    (hstranger : ∀ j, (sessions j).active = true → (sessions j).clientAddr ≠ src) :
    Admitted src argv i sessions (handleInboundUdp na keys order env src
      (Client.clientMsg1 na order argv eph) sessions).1 := by
  have hunknown : (sessionByAddr src sessions).isSome = false := by
    refine Bool.eq_false_iff.mpr fun hsome => ?_
    obtain ⟨j, hj⟩ := Option.isSome_iff_exists.mp hsome
    obtain ⟨hactive, haddr⟩ := sessionByAddr_eq_some hj
    exact hstranger j hactive haddr
  have hadmits := @handleMsg1_admits na keys order env src
    (Client.clientMsg1 na order argv eph) sessions i hcalls
    (length_buildMsg1 order _ eph.cNonce argv) hfree hbelow
  have hargv : msg1Params order (Client.clientMsg1 na order argv eph) = argv :=
    msg1Params_buildMsg1 order _ eph.cNonce argv hmbps hfrag
  rw [hargv] at hadmits
  rw [Agreement.handleInboundUdp_clientMsg1, hunknown, if_neg Bool.false_ne_true]
  exact hadmits

end Filling

section Example

/-- A handshake at time 0 from port `k` of one address, with constant bit rate and with
nonces of its own. -/
def newcomer (k : Nat) : ServiceAct :=
  let nonce : Octets 8 := ⟨UInt8.ofNat k :: List.replicate 7 0, rfl⟩
  .inbound { Agreement.calmEnv 0 3 with random := ⟨Octets.fill privkeyLen 3, nonce⟩ }
    ⟨9, UInt16.ofNat k⟩ (Client.clientMsg1 Sodium.xorSodium .little
      ⟨5, 1024, 'Y'.toUInt8, 'N'.toUInt8⟩ ⟨Octets.fill privkeyLen 5, nonce⟩)

/-- The first `k` slots are taken by the clients of the first `k` ports. -/
structure Filled (k : Nat) (sessions : Sessions) : Prop where
  taken : ∀ i : Slot, i.val < k → (sessions i).active = true ∧
    (sessions i).argv.cbr = 'Y'.toUInt8 ∧ (sessions i).clientAddr = ⟨9, UInt16.ofNat i⟩
  free : ∀ i : Slot, k ≤ i.val → (sessions i).active = false

theorem Filled.newcomer {k : Nat} (hk : k < maxClients) {s : Service}
    (h : Filled k s.traffic.sessions) :
    Filled (k + 1) (serviceStep .plainText Sodium.xorSodium Agreement.zeroKeys .little s
      (newcomer k)).1.traffic.sessions := by
  have hports {i : Slot} (hi : i.val < k) : (⟨9, UInt16.ofNat i⟩ : SockAddr) ≠
      ⟨9, UInt16.ofNat k⟩ := by
    intro hsame
    have hnat := congrArg (fun addr : SockAddr => addr.port.toNat) hsame
    simp only [UInt16.toNat_ofNat'] at hnat
    unfold maxClients at hk
    omega
  have hstranger (j : Slot) (hactive : (s.traffic.sessions j).active = true) :
      (s.traffic.sessions j).clientAddr ≠ ⟨9, UInt16.ofNat k⟩ := by
    rcases Nat.lt_or_ge j.val k with hj | hj
    · rw [(h.taken j hj).2.2]
      exact hports hj
    · rw [h.free j hj] at hactive
      cases hactive
  have hadmits := @handleInboundUdp_admits Sodium.xorSodium Agreement.zeroKeys .little
    { Agreement.calmEnv 0 3 with random := ⟨Octets.fill privkeyLen 3,
      ⟨UInt8.ofNat k :: List.replicate 7 0, rfl⟩⟩ } ⟨9, UInt16.ofNat k⟩ s.traffic.sessions
    ⟨k, hk⟩ ⟨5, 1024, 'Y'.toUInt8, 'N'.toUInt8⟩
    ⟨Octets.fill privkeyLen 5, ⟨UInt8.ofNat k :: List.replicate 7 0, rfl⟩⟩
    (by decide) (by decide) ⟨rfl, rfl, ⟨_, rfl⟩, ⟨_, rfl⟩, rfl, rfl⟩
    (h.free ⟨k, hk⟩ le_rfl) (fun j hj => (h.taken j hj).1) hstranger
  dsimp only [serviceStep, Server.newcomer]
  generalize (handleInboundUdp Sodium.xorSodium Agreement.zeroKeys .little _ _ _
    s.traffic.sessions).1 = after at hadmits ⊢
  refine ⟨fun i hi => ?_, fun i hi => ?_⟩
  · rcases Nat.lt_succ_iff_lt_or_eq.mp hi with hold | hnew
    · have hne : i ≠ ⟨k, hk⟩ := fun heq => hold.ne (congrArg Fin.val heq)
      obtain ⟨hactive, hcbr, haddr⟩ := h.taken i hold
      rw [hadmits.others i hne hactive (hstranger i hactive)]
      exact ⟨hactive, hcbr, haddr⟩
    · obtain rfl : i = ⟨k, hk⟩ := Fin.ext hnew
      exact ⟨hadmits.active, by rw [hadmits.options]; rfl, hadmits.address⟩
  · have hne : i ≠ ⟨k, hk⟩ := fun heq => by
      have hval := congrArg Fin.val heq
      dsimp only at hval
      omega
    exact hadmits.free i hne (h.free i (by omega))

/-- The handshakes of the first `k` clients. -/
def newcomers (k : Nat) : List ServiceAct := (List.range k).map newcomer

theorem run_newcomers {k : Nat} (hk : k ≤ maxClients) :
    Filled k (run (serviceStep .plainText Sodium.xorSodium Agreement.zeroKeys .little)
      (.start 0) (newcomers k)).1.traffic.sessions := by
  induction k with
  | zero => exact ⟨fun i hi => absurd hi (Nat.not_lt_zero _), fun i _ => rfl⟩
  | succ k ih =>
      have hsplit : newcomers (k + 1) = newcomers k ++ [newcomer k] := by
        rw [newcomers, List.range_succ, List.map_append]
        rfl
      rw [hsplit, run_append]
      exact (ih (Nat.le_of_succ_le hk)).newcomer hk

/-- A stranger before and after a maintenance that is late. -/
def strangers : List ServiceAct :=
  let stranger (now : Int) : ServiceAct := .inbound (Agreement.calmEnv now 4) ⟨3, 4⟩
    (Client.clientMsg1 Sodium.xorSodium .little ⟨5, 1024, 0, 0⟩ (Agreement.bytewise 6))
  [stranger 1, .pass 47 47, stranger 90]

theorem strangers_elsewhere : ∀ act ∈ strangers, ∀ port : UInt16,
    act.isHandshakeFrom ⟨9, port⟩ = false := by
  have haddr (port : UInt16) : (⟨3, 4⟩ : SockAddr) ≠ ⟨9, port⟩ := fun heq =>
    absurd (congrArg SockAddr.addr heq) (by decide : (3 : UInt32) ≠ 9)
  intro act hact port
  simp only [strangers, List.mem_cons, List.not_mem_nil, or_false] at hact
  rcases hact with rfl | rfl | rfl
  · simp [ServiceAct.isHandshakeFrom, Op.isHandshakeFrom, haddr]
  · rfl
  · simp [ServiceAct.isHandshakeFrom, Op.isHandshakeFrom, haddr]

theorem newcomers_steady :
    Along (serviceStep .plainText Sodium.xorSodium Agreement.zeroKeys .little) (Steady 47)
      (.start 0) (newcomers maxClients ++ strangers) := by
  decide +kernel

/-- 250 clients shake hands and are gone; another one comes twice. -/
theorem full_table_turns_everyone_away_twice :
    let step := serviceStep .plainText Sodium.xorSodium Agreement.zeroKeys .little
    let before := (run step (.start 0) (newcomers maxClients)).1
    let after := run step before strangers
    (∀ i, (before.slot i).active = true) ∧
      (∀ i, SameKeys (before.slot i) (after.1.slot i)) ∧
      Uncommitted (untimed after.2) := by
  -- Of both lists only these facts matter.
  have hany (past later : List ServiceAct)
      (hsteady : Along (serviceStep .plainText Sodium.xorSodium Agreement.zeroKeys .little)
        (Steady 47) (.start 0) (past ++ later))
      (hfilled : Filled maxClients (run (serviceStep .plainText Sodium.xorSodium
        Agreement.zeroKeys .little) (.start 0) past).1.traffic.sessions)
      (hquiet : ∀ act ∈ later, act.isHandshakeOrPass = true)
      (helsewhere : ∀ act ∈ later, ∀ port, act.isHandshakeFrom ⟨9, port⟩ = false) :
      let step := serviceStep .plainText Sodium.xorSodium Agreement.zeroKeys .little
      let before := (run step (.start 0) past).1
      let after := run step before later
      (∀ i, (before.slot i).active = true) ∧
        (∀ i, SameKeys (before.slot i) (after.1.slot i)) ∧
        Uncommitted (untimed after.2) := by
    refine ⟨fun i => (hfilled.taken i i.isLt).1, full_table_turns_everyone_away .plainText
      Sodium.xorSodium Agreement.zeroKeys .little 0 past later hsteady
      (fun i => ⟨(hfilled.taken i i.isLt).1, (hfilled.taken i i.isLt).2.1⟩)
      (fun act hact i => ?_) (fun i pair hpair => ?_)⟩
    · rw [(hfilled.taken i i.isLt).2.2]
      exact helsewhere act hact (UInt16.ofNat i)
    · rw [run_handshakes_unheard hquiet] at hpair
      cases hpair
  exact hany (newcomers maxClients) strangers newcomers_steady
    (@run_newcomers maxClients (Nat.le_refl maxClients)) (by decide +kernel)
    strangers_elsewhere

end Example

end Chamlon.Server
