import Mathlib.Tactic
import Chamlon.Server.Inbound

/-!
What the server's functions can do, said once. Each of them has many early
returns and few outcomes: most returns leave the slots as they are and only
count something. The statements about runs of the server start from these lists
of outcomes and not from the code.
-/

namespace Chamlon.Server

open Config Memory Reassembly

/-- Counters, rate limiter checks and the queue of the scheduler. -/
def Event.isBookkeeping : Event → Bool
  | .installed _ _ => false
  | .sendMsg2 _ _ => false
  | .accepted _ _ => false
  | .tunWrite _ _ _ => false
  | .badCopy _ => false
  | .keepaliveSent _ => false
  | _ => true

def Bookkeeping (events : List Event) : Prop := ∀ e ∈ events, e.isBookkeeping = true

instance (events : List Event) : Decidable (Bookkeeping events) :=
  inferInstanceAs (Decidable (∀ e ∈ events, e.isBookkeeping = true))

theorem Bookkeeping.not_mem {events : List Event} (h : Bookkeeping events) {e : Event}
    (he : e.isBookkeeping = false) : e ∉ events := by
  intro hmem
  rw [h e hmem] at he
  cases he

@[simp] theorem bookkeeping_nil : Bookkeeping [] := List.forall_mem_nil _

@[simp] theorem bookkeeping_cons {e : Event} {events : List Event} :
    Bookkeeping (e :: events) ↔ e.isBookkeeping = true ∧ Bookkeeping events :=
  List.forall_mem_cons

@[simp] theorem bookkeeping_append {first second : List Event} :
    Bookkeeping (first ++ second) ↔ Bookkeeping first ∧ Bookkeeping second := by
  simp only [Bookkeeping, List.mem_append, or_imp, forall_and]

theorem freeSession_bookkeeping (i : Slot) (sessions : Sessions) :
    Bookkeeping (freeSession i sessions).2 := by
  unfold freeSession
  split
  · exact bookkeeping_cons.mpr ⟨rfl, bookkeeping_nil⟩
  · exact bookkeeping_nil

theorem freeSession_of_ne {i j : Slot} (sessions : Sessions) (h : j ≠ i) :
    (freeSession i sessions).1 j = sessions j := by
  unfold freeSession
  split
  · exact Function.update_of_ne h _ _
  · rfl

theorem freeSession_self (i : Slot) (sessions : Sessions) :
    ((freeSession i sessions).1 i).active = false := by
  unfold freeSession
  split
  · dsimp only
    rw [Function.update_self]
    rfl
  next hinactive => exact Bool.eq_false_iff.mpr hinactive

theorem supersedeOld_bookkeeping (i : Slot) (src : SockAddr) (sessions : Sessions) :
    Bookkeeping (supersedeOld i src sessions).2 := by
  unfold supersedeOld
  split
  · exact bookkeeping_cons.mpr ⟨rfl, bookkeeping_nil⟩
  · exact bookkeeping_nil

/-- The slot that is being taken is not an old one of its client. -/
theorem supersedeOld_self (i : Slot) (src : SockAddr) (sessions : Sessions) :
    (supersedeOld i src sessions).1 i = sessions i := by
  unfold supersedeOld
  split
  next j hfound =>
    have hj := (Fin.find?_eq_some_iff.mp hfound).1
    simp only [Bool.and_eq_true, bne_iff_ne] at hj
    exact Function.update_of_ne (Ne.symm hj.1.1) _ _
  next => rfl

theorem supersedeOld_cases (i : Slot) (src : SockAddr) (sessions : Sessions) (j : Slot) :
    (supersedeOld i src sessions).1 j = sessions j ∨
      (sessions j).clientAddr = src ∧
        (supersedeOld i src sessions).1 j = (sessions j).supersede := by
  unfold supersedeOld
  split
  next k hfound =>
    have hk := (Fin.find?_eq_some_iff.mp hfound).1
    simp only [Bool.and_eq_true, beq_iff_eq] at hk
    by_cases hj : j = k
    · rw [hj]
      exact Or.inr ⟨hk.2, Function.update_self ..⟩
    · exact Or.inl (Function.update_of_ne hj _ _)
  next => exact Or.inl rfl

/-- The slots once `handle_msg1` has bound its slot to the client. -/
def boundSlots (env : Env) (src : SockAddr) (i : Slot) (secrets : Sodium.SessionSecrets)
    (sessions : Sessions) : Sessions :=
  let activated := Function.update sessions i ((sessions i).activate secrets)
  let superseded := (supersedeOld i src activated).1
  Function.update superseded i
    { superseded i with
      clientAddr := src
      lastActivity := env.now
      outq := env.outqAllocated }

theorem boundSlots_self (env : Env) (src : SockAddr) (i : Slot)
    (secrets : Sodium.SessionSecrets) (sessions : Sessions) :
    boundSlots env src i secrets sessions i =
      { (sessions i).activate secrets with
        clientAddr := src
        lastActivity := env.now
        outq := env.outqAllocated } := by
  unfold boundSlots
  dsimp only
  rw [Function.update_self, supersedeOld_self, Function.update_self]

theorem boundSlots_of_ne (env : Env) (src : SockAddr) {i j : Slot}
    (secrets : Sodium.SessionSecrets) (sessions : Sessions) (h : j ≠ i) :
    boundSlots env src i secrets sessions j = sessions j ∨
      (sessions j).clientAddr = src ∧
        boundSlots env src i secrets sessions j = (sessions j).supersede := by
  unfold boundSlots
  dsimp only
  rw [Function.update_of_ne h]
  have hold := supersedeOld_cases i src
    (Function.update sessions i ((sessions i).activate secrets)) j
  rw [Function.update_of_ne h] at hold
  exact hold

/-- From the key derivation on the slot is installed; then it is freed again or
MSG2 is sent. -/
theorem activateSlot_cases (env : Env) (src : SockAddr) (i : Slot)
    (secrets : Sodium.SessionSecrets) (msg2 : Bytes) (sessions : Sessions) :
    ∃ events, Bookkeeping events ∧
      (activateSlot env src i secrets msg2 sessions =
          emit (.installed i secrets.sessionId :: events)
            (freeSession i (boundSlots env src i secrets sessions)) ∨
        activateSlot env src i secrets msg2 sessions =
          emit (.installed i secrets.sessionId :: events)
            (Function.update (boundSlots env src i secrets sessions) i
              { boundSlots env src i secrets sessions i with
                lastActivityKeepalive := env.now },
              [.sendMsg2 src msg2, .handshakeCompleted, .connectionEstablished])) := by
  have hclosed := supersedeOld_bookkeeping i src
    (Function.update sessions i ((sessions i).activate secrets))
  have hqueued : Bookkeeping [.schedulerAdd secrets.sessionId] :=
    bookkeeping_cons.mpr ⟨rfl, bookkeeping_nil⟩
  unfold activateSlot boundSlots
  dsimp only
  generalize supersedeOld i src
    (Function.update sessions i ((sessions i).activate secrets)) = superseded at hclosed ⊢
  split
  · exact ⟨superseded.2, hclosed, Or.inl rfl⟩
  refine ⟨superseded.2 ++ [.schedulerAdd secrets.sessionId],
    bookkeeping_append.mpr ⟨hclosed, hqueued⟩, ?_⟩
  unfold emit
  split
  · left
    simp
  · right
    simp

/-- In its slot `handle_msg1` fails and frees it, or signs, derives and goes
on. -/
theorem msg1InSlot_cases (na : Sodium) (keys : ServerKeys) (order : Endian) (env : Env)
    (random : Ephemeral) (msg1 : Bytes) (src : SockAddr) (i : Slot)
    (sessions : Sessions) :
    let reserved := Function.update sessions i
      ((sessions i).reserve i (msg1Params order msg1))
    msg1InSlot na keys order env random msg1 src i sessions = freeSession i reserved ∨
    ∃ sig secrets,
      na.signDetached keys.signSk (signedBlob (na.kxPublic random.sPriv) random.sNonce
        (msg1Pub msg1) (msg1Nonce msg1)) = some sig ∧
      na.serverSecrets random.sPriv keys.serverSk (msg1Pub msg1) (msg1Nonce msg1)
        random.sNonce = some secrets ∧
      msg1InSlot na keys order env random msg1 src i sessions =
        activateSlot env src i secrets (buildMsg2 order (na.kxPublic random.sPriv)
          random.sNonce (reserved i).vpnIp sig) reserved := by
  unfold msg1InSlot
  dsimp only
  cases hsig : na.signDetached keys.signSk (signedBlob (na.kxPublic random.sPriv)
      random.sNonce (msg1Pub msg1) (msg1Nonce msg1)) with
  | none => exact Or.inl rfl
  | some sig =>
      cases hsecrets : na.serverSecrets random.sPriv keys.serverSk (msg1Pub msg1)
          (msg1Nonce msg1) random.sNonce with
      | none => exact Or.inl rfl
      | some secrets => exact Or.inr ⟨sig, secrets, rfl, rfl, rfl⟩

/-- `handle_msg1` gives up before it has a slot, or works in the one it
allocated. -/
theorem handleMsg1_cases (na : Sodium) (keys : ServerKeys) (order : Endian) (env : Env)
    (random : Ephemeral) (msg1 : Bytes) (src : SockAddr) (sessions : Sessions) :
    (∃ events, Bookkeeping events ∧
      handleMsg1 na keys order env random msg1 src sessions = (sessions, events)) ∨
    ∃ events i next, Bookkeeping events ∧ allocateSession sessions = some (i, next) ∧
      handleMsg1 na keys order env random msg1 src sessions =
        emit events (msg1InSlot na keys order env random msg1 src i next) := by
  unfold handleMsg1
  split
  · exact Or.inl ⟨[], bookkeeping_nil, rfl⟩
  cases env.handshakeVerdict with
  | blacklisted => exact Or.inl ⟨_, by simp [Event.isBookkeeping], rfl⟩
  | exceeded => exact Or.inl ⟨_, by simp [Event.isBookkeeping], rfl⟩
  | ok =>
      dsimp only
      split
      · exact Or.inl ⟨_, by simp [Event.isBookkeeping], rfl⟩
      cases hallocated : allocateSession sessions with
      | none => exact Or.inl ⟨_, by simp [Event.isBookkeeping], rfl⟩
      | some found =>
          exact Or.inr ⟨_, found.1, found.2,
            by simp [Event.isBookkeeping], rfl, rfl⟩

/-- `handle_rehandshake_msg1` ignores the packet, leaves it to `handle_msg1`, or
replaces the keys of the slot that serves the sender. -/
theorem handleRehandshakeMsg1_cases (na : Sodium) (keys : ServerKeys) (order : Endian)
    (env : Env) (msg1 : Bytes) (src : SockAddr) (sessions : Sessions) :
    handleRehandshakeMsg1 na keys order env msg1 src sessions = (sessions, []) ∨
    (∃ random, handleRehandshakeMsg1 na keys order env msg1 src sessions =
      handleMsg1 na keys order env random msg1 src sessions) ∨
    ∃ i sig secrets, sessionByAddr src sessions = some i ∧
      na.signDetached keys.signSk (signedBlob (na.kxPublic env.random.sPriv)
        env.random.sNonce (msg1Pub msg1) (msg1Nonce msg1)) = some sig ∧
      na.serverSecrets env.random.sPriv keys.serverSk (msg1Pub msg1) (msg1Nonce msg1)
        env.random.sNonce = some secrets ∧
      handleRehandshakeMsg1 na keys order env msg1 src sessions =
        (Function.update sessions i
          ((sessions i).rekey secrets env.now env.outqAllocated),
          [.installed i secrets.sessionId, .schedulerAdd secrets.sessionId] ++
            if env.msg2Sent then [.sendMsg2 src (buildMsg2 order
              (na.kxPublic env.random.sPriv) env.random.sNonce (sessions i).vpnIp sig)]
            else []) := by
  unfold handleRehandshakeMsg1
  split
  · exact Or.inl rfl
  right
  cases hfound : sessionByAddr src sessions with
  | none => exact Or.inl ⟨env.random, rfl⟩
  | some i =>
      dsimp only
      cases hsecrets : na.serverSecrets env.random.sPriv keys.serverSk (msg1Pub msg1)
          (msg1Nonce msg1) env.random.sNonce with
      | none => exact Or.inl ⟨env.fallback, rfl⟩
      | some secrets =>
          dsimp only
          cases hsig : na.signDetached keys.signSk (signedBlob
              (na.kxPublic env.random.sPriv) env.random.sNonce (msg1Pub msg1)
              (msg1Nonce msg1)) with
          | none => exact Or.inl ⟨env.fallback, rfl⟩
          | some sig => exact Or.inr ⟨i, sig, secrets, rfl, rfl, rfl, rfl⟩

/-- After `update_window` a plaintext ends its session, or touches the activity
time and the table of its slot and perhaps writes. -/
theorem inboundAccepted_cases (order : Endian) (env : Env) (i : Slot) (plain : Bytes)
    (sessions : Sessions) :
    inboundAccepted order env i plain sessions = freeSession i sessions ∨
    ∃ now table events, (now = (sessions i).lastActivity ∨ now = env.now) ∧
      inboundAccepted order env i plain sessions =
        (Function.update sessions i
          { sessions i with lastActivity := now, reassemblyTable := table }, events) ∧
      ∀ e ∈ events, (∃ bytes length, e = .tunWrite i bytes length) ∨ e = .badCopy i := by
  have hsame : ∀ events : List Event, (sessions, events) =
      (Function.update sessions i { sessions i with
        lastActivity := (sessions i).lastActivity
        reassemblyTable := (sessions i).reassemblyTable }, events) :=
    fun events => congrArg (·, events) (Function.update_eq_self i sessions).symm
  unfold inboundAccepted
  split
  · exact Or.inr ⟨_, _, [], Or.inl rfl, hsame [], by simp⟩
  · exact Or.inr ⟨_, _, [], Or.inl rfl, hsame [], by simp⟩
  · exact Or.inr ⟨env.now, _, [], Or.inr rfl, rfl, by simp⟩
  · exact Or.inl rfl
  · exact Or.inr ⟨_, _, [], Or.inl rfl, hsame [], by simp⟩
  · exact Or.inr ⟨_, _, [], Or.inl rfl, rfl, by simp⟩
  · exact Or.inr ⟨_, _, [], Or.inl rfl, rfl, by simp⟩
  · exact Or.inr ⟨_, _, _, Or.inl rfl, rfl, by simp⟩
  · exact Or.inr ⟨_, _, [.badCopy i], Or.inl rfl, hsame _, by simp⟩

/-- The slot that the session lookup of `handle_inbound_udp` finds. -/
def lookup (env : Env) (buf : Bytes) (sessions : Sessions) : Option Slot :=
  sessionById (Octets.read sessionIdLen (peek buf env.past) protoHeaderLen) sessions

/-- The result of `aead_decrypt` for a datagram of this session, with nothing when
`check_replay` or the length test ends the call before it. -/
def decrypted (na : Sodium) (env : Env) (buf : Bytes) (s : Session) : Option Bytes :=
  let cipherLen := (buf.length + 2 ^ 64 - dataHeaderLen) % 2 ^ 64
  if s.rw.checkReplay (pktSeq env buf) then none
  else if bufferSize - dataHeaderLen < cipherLen then none
  else na.decrypt s.kRecv s.sessionId (pktSeq env buf) (slice buf dataHeaderLen cipherLen)

/-- A datagram of no session does nothing. One of a session is refused, or its
number is new and it is accepted. -/
theorem inboundData_cases (na : Sodium) (order : Endian) (env : Env) (buf : Bytes)
    (sessions : Sessions) :
    (lookup env buf sessions = none ∧
      inboundData na order env buf sessions = (sessions, [])) ∨
    ∃ i, lookup env buf sessions = some i ∧
      ((∃ events, Bookkeeping events ∧ inboundData na order env buf sessions =
          (Function.update sessions i { sessions i with lastActivity := env.now },
            events)) ∨
        ∃ plain, decrypted na env buf (sessions i) = some plain ∧
          (sessions i).rw.checkReplay (pktSeq env buf) = false ∧
          inboundData na order env buf sessions =
            emit [.accepted (sessions i).sessionId (pktSeq env buf)]
              (inboundAccepted order env i plain (Function.update sessions i
                { sessions i with
                  lastActivity := env.now
                  rw := (sessions i).rw.updateWindow (pktSeq env buf) }))) := by
  unfold inboundData lookup decrypted
  dsimp only
  cases hfound : sessionById (Octets.read sessionIdLen (peek buf env.past)
      protoHeaderLen) sessions with
  | none => exact Or.inl ⟨rfl, rfl⟩
  | some i =>
      refine Or.inr ⟨i, rfl, ?_⟩
      dsimp only
      rw [Function.update_self, Function.update_idem]
      dsimp only
      split
      · exact Or.inl ⟨_, bookkeeping_cons.mpr ⟨rfl, bookkeeping_nil⟩, rfl⟩
      next hnew =>
        split
        · exact Or.inl ⟨_, bookkeeping_nil, rfl⟩
        split
        · exact Or.inl ⟨_, bookkeeping_nil, rfl⟩
        next plain hplain =>
          split
          · exact Or.inl ⟨_, bookkeeping_nil, rfl⟩
          · exact Or.inr ⟨plain, hplain, by simpa using hnew, rfl⟩

/-- The events of the data path. -/
theorem inboundData_mem {na : Sodium} {order : Endian} {env : Env} {buf : Bytes}
    {sessions : Sessions} {e : Event} (h : e ∈ (inboundData na order env buf sessions).2) :
    e.isBookkeeping = true ∨ (∃ sessionId seq, e = .accepted sessionId seq) ∨
      (∃ i bytes length, e = .tunWrite i bytes length) ∨ ∃ i, e = .badCopy i := by
  rcases inboundData_cases na order env buf sessions with
    ⟨_, hnone⟩ | ⟨i, _, ⟨events, hevents, hrefused⟩ | ⟨plain, _, _, hresult⟩⟩
  · rw [hnone] at h
    cases h
  · rw [hrefused] at h
    exact Or.inl (hevents e h)
  · rw [hresult, emit_snd] at h
    rcases List.mem_cons.mp h with haccepted | hlater
    · exact Or.inr (Or.inl ⟨_, _, haccepted⟩)
    rcases inboundAccepted_cases order env i plain (Function.update sessions i
        { sessions i with
          lastActivity := env.now
          rw := (sessions i).rw.updateWindow (pktSeq env buf) }) with
      hfreed | ⟨_, _, events, _, hwritten, hevents⟩
    · rw [hfreed] at hlater
      exact Or.inl (freeSession_bookkeeping i _ e hlater)
    · rw [hwritten] at hlater
      rcases hevents e hlater with ⟨bytes, length, hwrite⟩ | hbad
      · exact Or.inr (Or.inr (Or.inl ⟨i, bytes, length, hwrite⟩))
      · exact Or.inr (Or.inr (Or.inr ⟨i, hbad⟩))

/-- `handle_inbound_udp` gets as far as the session lookup. -/
def ReachesLookup (order : Endian) (env : Env) (buf : Bytes) : Prop :=
  protoHeaderLen ≤ buf.length ∧ buf.length ≤ bufferSize ∧
    headerAccepted order buf = true ∧ packetType buf ≠ pktTypeHandshake ∧
    (packetType buf = pktTypeData → env.packetVerdict = .ok)

instance (order : Endian) (env : Env) (buf : Bytes) :
    Decidable (ReachesLookup order env buf) := by
  unfold ReachesLookup
  infer_instance

/-- What is emitted on the way to the session lookup. -/
def lookupEvents (env : Env) (src : SockAddr) (buf : Bytes) : List Event :=
  (if packetType buf = pktTypeData then [.packetRateCheck src.addr env.packetVerdict]
    else []) ++ [.packetReceived buf.length]

theorem lookupEvents_bookkeeping (env : Env) (src : SockAddr) (buf : Bytes) :
    Bookkeeping (lookupEvents env src buf) := by
  unfold lookupEvents
  split <;> simp [Event.isBookkeeping]

/-- The datagram is an MSG1 to `handle_inbound_udp`. -/
def IsMsg1 (order : Endian) (buf : Bytes) : Prop :=
  headerAccepted order buf = true ∧ packetType buf = pktTypeHandshake ∧
    buf.length = protoHeaderLen + msg1Len + params

instance (order : Endian) (buf : Bytes) : Decidable (IsMsg1 order buf) :=
  inferInstanceAs (Decidable (_ ∧ _ ∧ _))

/-- A datagram is dropped, or is a handshake from a known or an unknown address,
or goes to its session. -/
theorem handleInboundUdp_cases (na : Sodium) (keys : ServerKeys) (order : Endian)
    (env : Env) (src : SockAddr) (buf : Bytes) (sessions : Sessions) :
    (¬ReachesLookup order env buf ∧ ∃ events, Bookkeeping events ∧
      handleInboundUdp na keys order env src buf sessions = (sessions, events)) ∨
    (IsMsg1 order buf ∧
      ((∃ i, sessionByAddr src sessions = some i) ∧
          handleInboundUdp na keys order env src buf sessions =
            handleRehandshakeMsg1 na keys order env buf src sessions ∨
        sessionByAddr src sessions = none ∧
          handleInboundUdp na keys order env src buf sessions =
            handleMsg1 na keys order env env.random buf src sessions)) ∨
    (ReachesLookup order env buf ∧
      handleInboundUdp na keys order env src buf sessions =
        emit (lookupEvents env src buf) (inboundData na order env buf sessions)) := by
  unfold handleInboundUdp
  split
  next hshort =>
    exact Or.inl ⟨fun h => absurd h.1 (Nat.not_le.mpr hshort), [], bookkeeping_nil, rfl⟩
  next hlong =>
  split
  next hlarge =>
    exact Or.inl ⟨fun h => absurd h.2.1 (Nat.not_le.mpr hlarge), [], bookkeeping_nil, rfl⟩
  next hfits =>
  split
  next hheader =>
    refine Or.inl ⟨fun h => ?_, [], bookkeeping_nil, rfl⟩
    rw [h.2.2.1] at hheader
    cases hheader
  next hheader =>
  split
  next hlimited =>
    exact Or.inl ⟨fun h => hlimited.2 (h.2.2.2.2 hlimited.1), _,
      by simp [Event.isBookkeeping], rfl⟩
  next hlimited =>
  by_cases htype : packetType buf = pktTypeHandshake
  · have hdata : ¬packetType buf = pktTypeData := by
      rw [htype]
      decide
    rw [if_neg hdata, if_pos htype]
    split
    next hlength =>
      refine Or.inr (Or.inl ⟨⟨by simpa using hheader, htype, hlength⟩, ?_⟩)
      cases hfound : sessionByAddr src sessions with
      | none => exact Or.inr ⟨rfl, rfl⟩
      | some i => exact Or.inl ⟨⟨i, rfl⟩, rfl⟩
    · exact Or.inl ⟨fun h => h.2.2.2.1 htype, [], bookkeeping_nil, rfl⟩
  · rw [if_neg htype]
    refine Or.inr (Or.inr ⟨⟨Nat.le_of_not_lt hlong, Nat.le_of_not_lt hfits,
      by simpa using hheader, htype, fun hdata => ?_⟩, ?_⟩)
    · by_contra hverdict
      exact hlimited ⟨hdata, hverdict⟩
    · unfold emit lookupEvents
      simp

theorem performMaintenance_mem {now : Int} {sessions : Sessions} {e : Event}
    (h : e ∈ (performMaintenance now sessions).2) :
    e = .connectionClosed ∨ ∃ i, e = .keepaliveSent i := by
  rcases List.mem_append.mp h with hclosed | hsent
  · obtain ⟨i, _, hi⟩ := List.mem_flatMap.mp hclosed
    split at hi
    · exact Or.inl (List.mem_singleton.mp hi)
    · cases hi
  · obtain ⟨i, _, hi⟩ := List.mem_flatMap.mp hsent
    generalize sweepSessions now (cleanupExpiredSessions now sessions).1 = swept at hi
    split at hi
    · exact Or.inr ⟨i, List.mem_singleton.mp hi⟩
    · cases hi

end Chamlon.Server
