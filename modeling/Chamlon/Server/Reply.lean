import Mathlib.Tactic
import Chamlon.Server.AtMostOnce

/-!
What the server holds when it sends MSG2. Both handshake functions send it last:
by then one slot carries the keys and the session id derived from the MSG1 it
answers, and MSG2 names the address of that slot under a signature of the four
exchanged values.
-/

namespace Chamlon.Server

open Config Memory Reassembly

/-- The slot serves the exchange of this MSG1 with the given ephemeral values,
and MSG2 is its answer. -/
def Answers (na : Sodium) (keys : ServerKeys) (order : Endian) (random : Ephemeral)
    (msg1 : Bytes) (src : SockAddr) (msg2 : Bytes) (s : Session) : Prop :=
  s.active = true ∧ s.clientAddr = src ∧
    ∃ sig secrets,
      na.signDetached keys.signSk (signedBlob (na.kxPublic random.sPriv) random.sNonce
        (msg1Pub msg1) (msg1Nonce msg1)) = some sig ∧
      na.serverSecrets random.sPriv keys.serverSk (msg1Pub msg1) (msg1Nonce msg1)
        random.sNonce = some secrets ∧
      s.sessionId = secrets.sessionId ∧ s.kRecv = secrets.k1 ∧ s.kSend = secrets.k2 ∧
      msg2 = buildMsg2 order (na.kxPublic random.sPriv) random.sNonce s.vpnIp sig

/-- The slots that a handshake of this address can end in: the one that serves the address
already, or the first free one. -/
def Picks (src : SockAddr) (sessions : Sessions) (i : Slot) : Prop :=
  sessionByAddr src sessions = some i ∨ (allocateSession sessions).map Prod.fst = some i

theorem Answers.msg2_shape {na : Sodium} {keys : ServerKeys} {order : Endian}
    {random : Ephemeral} {msg1 msg2 : Bytes} {src : SockAddr} {s : Session}
    (h : Answers na keys order random msg1 src msg2 s) :
    msg2[5]? = some pktTypeHandshake ∧ msg2.length = protoHeaderLen + msg2Len := by
  obtain ⟨_, _, sig, _, _, _, _, _, _, hmsg2⟩ := h
  rw [hmsg2]
  exact ⟨type_buildMsg2 order _ _ _ sig, length_buildMsg2 order _ _ _ sig⟩

theorem sendMsg2_mem_emit {events : List Event} {result : Sessions × List Event}
    {dst : SockAddr} {msg2 : Bytes} (hevents : ∀ d m, .sendMsg2 d m ∉ events) :
    .sendMsg2 dst msg2 ∈ (emit events result).2 ↔ .sendMsg2 dst msg2 ∈ result.2 := by
  rw [emit_snd, List.mem_append]
  exact or_iff_right (hevents dst msg2)

/-- MSG2 leaves `handle_msg1` only at its end, with the slot complete. -/
theorem activateSlot_sent {env : Env} {src dst : SockAddr} {i : Slot}
    {secrets : Sodium.SessionSecrets} {msg2 sent : Bytes} {sessions : Sessions}
    (h : .sendMsg2 dst sent ∈ (activateSlot env src i secrets msg2 sessions).2) :
    dst = src ∧ sent = msg2 ∧
      (activateSlot env src i secrets msg2 sessions).1 i =
        { (sessions i).activate secrets with
          clientAddr := src
          lastActivity := env.now
          lastActivityKeepalive := env.now
          outq := env.outqAllocated } := by
  obtain ⟨events, hevents, hresult⟩ := activateSlot_cases env src i secrets msg2 sessions
  have hinstalled : ∀ d m, .sendMsg2 d m ∉
      (.installed i secrets.sessionId :: events : List Event) := by
    intro d m hmem
    rcases List.mem_cons.mp hmem with hfirst | hrest
    · cases hfirst
    · exact hevents.not_mem rfl hrest
  have hself := boundSlots_self env src i secrets sessions
  generalize boundSlots env src i secrets sessions = bound at hself hresult
  rcases hresult with hfreed | hsent
  · rw [hfreed, sendMsg2_mem_emit hinstalled] at h
    exact absurd h ((freeSession_bookkeeping i bound).not_mem rfl)
  · rw [hsent, sendMsg2_mem_emit hinstalled] at h
    simp only [List.mem_cons, Event.sendMsg2.injEq, reduceCtorEq, List.not_mem_nil,
      or_false] at h
    refine ⟨h.1, h.2, ?_⟩
    rw [hsent, emit_fst]
    dsimp only
    rw [Function.update_self, hself]

theorem msg1InSlot_sent {na : Sodium} {keys : ServerKeys} {order : Endian} {env : Env}
    {random : Ephemeral} {msg1 : Bytes} {src dst : SockAddr} {i : Slot}
    {sessions : Sessions} {msg2 : Bytes}
    (h : .sendMsg2 dst msg2 ∈
      (msg1InSlot na keys order env random msg1 src i sessions).2) :
    dst = src ∧
      Answers na keys order random msg1 src msg2
        ((msg1InSlot na keys order env random msg1 src i sessions).1 i) ∧
      ((msg1InSlot na keys order env random msg1 src i sessions).1 i).argv =
        validateParams (msg1Params order msg1) := by
  rcases msg1InSlot_cases na keys order env random msg1 src i sessions with
    hfreed | ⟨sig, secrets, hsig, hsecrets, hresult⟩
  · rw [hfreed] at h
    exact absurd h ((freeSession_bookkeeping i _).not_mem rfl)
  · rw [hresult] at h ⊢
    obtain ⟨hdst, hmsg2, hslot⟩ := activateSlot_sent h
    rw [hslot, hmsg2, Function.update_self]
    exact ⟨hdst, ⟨rfl, rfl, sig, secrets, hsig, hsecrets, rfl, rfl, rfl, rfl⟩, rfl⟩

/-- When `handle_msg1` sends MSG2, it ended in the slot it allocated. -/
theorem handleMsg1_answered {na : Sodium} {keys : ServerKeys} {order : Endian} {env : Env}
    {random : Ephemeral} {msg1 : Bytes} {src dst : SockAddr} {sessions : Sessions}
    {msg2 : Bytes}
    (h : .sendMsg2 dst msg2 ∈
      (handleMsg1 na keys order env random msg1 src sessions).2) :
    ∃ i next, allocateSession sessions = some (i, next) ∧
      .sendMsg2 dst msg2 ∈ (msg1InSlot na keys order env random msg1 src i next).2 ∧
      (handleMsg1 na keys order env random msg1 src sessions).1 =
        (msg1InSlot na keys order env random msg1 src i next).1 := by
  rcases handleMsg1_cases na keys order env random msg1 src sessions with
    ⟨events, hevents, hrefused⟩ | ⟨events, i, next, hevents, hallocated, hresult⟩
  · rw [hrefused] at h
    exact absurd h (hevents.not_mem rfl)
  · rw [hresult, sendMsg2_mem_emit fun _ _ => hevents.not_mem rfl] at h
    rw [hresult]
    exact ⟨i, next, hallocated, h, rfl⟩

/-- When `handle_msg1` sends MSG2, the first free slot serves the exchange, with the
address it announces and the options of MSG1 as validated. -/
theorem handleMsg1_sent {na : Sodium} {keys : ServerKeys} {order : Endian} {env : Env}
    {random : Ephemeral} {msg1 : Bytes} {src dst : SockAddr} {sessions : Sessions}
    {msg2 : Bytes}
    (h : .sendMsg2 dst msg2 ∈
      (handleMsg1 na keys order env random msg1 src sessions).2) :
    dst = src ∧ ∃ i, Picks src sessions i ∧
      Answers na keys order random msg1 src msg2
        ((handleMsg1 na keys order env random msg1 src sessions).1 i) ∧
      ((handleMsg1 na keys order env random msg1 src sessions).1 i).argv =
        validateParams (msg1Params order msg1) := by
  obtain ⟨i, next, hallocated, hsent, hslots⟩ := handleMsg1_answered h
  obtain ⟨hdst, hslot⟩ := msg1InSlot_sent hsent
  rw [hslots]
  refine ⟨hdst, i, .inr ?_, hslot⟩
  rw [hallocated]
  rfl

/-- When `handle_rehandshake_msg1` sends MSG2, one slot serves the exchange with
one of the two draws of the call. -/
theorem handleRehandshakeMsg1_sent {na : Sodium} {keys : ServerKeys} {order : Endian}
    {env : Env} {msg1 : Bytes} {src dst : SockAddr} {sessions : Sessions}
    {msg2 : Bytes}
    (h : .sendMsg2 dst msg2 ∈
      (handleRehandshakeMsg1 na keys order env msg1 src sessions).2) :
    dst = src ∧ ∃ i random, Picks src sessions i ∧
      Answers na keys order random msg1 src msg2
        ((handleRehandshakeMsg1 na keys order env msg1 src sessions).1 i) := by
  rcases handleRehandshakeMsg1_cases na keys order env msg1 src sessions with
    hignored | ⟨random, hfirst⟩ | ⟨i, sig, secrets, hfound, hsig, hsecrets, hrekeyed⟩
  · rw [hignored] at h
    cases h
  · rw [hfirst] at h ⊢
    obtain ⟨hdst, i, hpicked, hslot, _⟩ := handleMsg1_sent h
    exact ⟨hdst, i, random, hpicked, hslot⟩
  · obtain ⟨hactive, haddr⟩ := sessionByAddr_eq_some hfound
    rw [hrekeyed] at h ⊢
    dsimp only at h ⊢
    have hmsg : dst = src ∧ msg2 = buildMsg2 order (na.kxPublic env.random.sPriv)
        env.random.sNonce (sessions i).vpnIp sig := by
      cases hsent : env.msg2Sent <;> simp [hsent] at h
      exact h
    refine ⟨hmsg.1, i, env.random, .inl hfound, ?_⟩
    rw [Function.update_self]
    exact ⟨hactive, haddr, sig, secrets, hsig, hsecrets, rfl, rfl, rfl, hmsg.2⟩

theorem inboundData_not_sent (na : Sodium) (order : Endian) (env : Env) (buf : Bytes)
    (sessions : Sessions) (dst : SockAddr) (msg2 : Bytes) :
    .sendMsg2 dst msg2 ∉ (inboundData na order env buf sessions).2 := by
  intro h
  rcases inboundData_mem h with hcounted | ⟨_, _, haccepted⟩ | ⟨_, _, _, hwrite⟩ | ⟨_, hbad⟩
  · cases hcounted
  · cases haccepted
  · cases hwrite
  · cases hbad

/-- Every MSG2 the server sends answers the datagram it is handling, and the slot
it picked serves that exchange. Without an earlier session of the sender the
options are those of MSG1. -/
theorem handleInboundUdp_sent {na : Sodium} {keys : ServerKeys} {order : Endian}
    {env : Env} {src dst : SockAddr} {buf : Bytes} {sessions : Sessions} {msg2 : Bytes}
    (h : .sendMsg2 dst msg2 ∈ (handleInboundUdp na keys order env src buf sessions).2) :
    dst = src ∧ ∃ i random, Picks src sessions i ∧
      Answers na keys order random buf src msg2
        ((handleInboundUdp na keys order env src buf sessions).1 i) ∧
      (sessionByAddr src sessions = none →
        ((handleInboundUdp na keys order env src buf sessions).1 i).argv =
          validateParams (msg1Params order buf)) := by
  rcases handleInboundUdp_cases na keys order env src buf sessions with
    ⟨_, events, hevents, hdropped⟩ | ⟨_, ⟨⟨j, hfound⟩, hagain⟩ | ⟨_, hfirst⟩⟩ | ⟨_, hdata⟩
  · rw [hdropped] at h
    exact absurd h (hevents.not_mem rfl)
  · rw [hagain] at h ⊢
    obtain ⟨hdst, i, random, hpicked, hslot⟩ := handleRehandshakeMsg1_sent h
    refine ⟨hdst, i, random, hpicked, hslot, fun hnone => ?_⟩
    rw [hfound] at hnone
    cases hnone
  · rw [hfirst] at h ⊢
    obtain ⟨hdst, i, hpicked, hslot, hargv⟩ := handleMsg1_sent h
    exact ⟨hdst, i, env.random, hpicked, hslot, fun _ => hargv⟩
  · have hquiet := lookupEvents_bookkeeping env src buf
    rw [hdata, sendMsg2_mem_emit fun _ _ => hquiet.not_mem rfl] at h
    exact absurd h (inboundData_not_sent na order env buf sessions dst msg2)

end Chamlon.Server
