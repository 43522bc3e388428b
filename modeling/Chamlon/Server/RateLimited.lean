import Mathlib.Tactic
import Chamlon.Server.Cases
import Chamlon.Server.RateLimiter
import Chamlon.Server.Sharding
import Chamlon.Agreement.Honest

/-!
The server together with its rate limiter. Handling a datagram asks the limiter at most
once: `handle_inbound_udp` calls `check_packet_rate_limit` for packets of type DATA, and
`handle_msg1` calls `check_handshake_rate_limit`. A call therefore takes both answers from
the limiter as it finds it, and then the limiter is charged for the check that was made.
-/

namespace Chamlon.Server

open Config Memory

/-- What one call sees, with the answers of the limiter. -/
def askLimiter (limiter : RateLimiter) (src : SockAddr) (env : Env) : Env :=
  { env with
    handshakeVerdict := (checkHandshakeRateLimit env.now src.addr limiter).2
    packetVerdict := (checkPacketRateLimit env.now src.addr limiter).2 }

/-- What a check leaves behind in the limiter. -/
def charge (now : Int) (limiter : RateLimiter) : Event → RateLimiter
  | .handshakeRateCheck addr _ => (checkHandshakeRateLimit now addr limiter).1
  | .packetRateCheck addr _ => (checkPacketRateLimit now addr limiter).1
  | _ => limiter

def chargeAll (now : Int) (limiter : RateLimiter) (events : List Event) : RateLimiter :=
  events.foldl (charge now) limiter

/-- The checks of the limiter and the replies to handshakes. -/
def Event.isLimiterEvent : Event → Bool
  | .handshakeRateCheck _ _ => true
  | .packetRateCheck _ _ => true
  | .sendMsg2 _ _ => true
  | _ => false

def limiterEvents (events : List Event) : List Event :=
  events.filter Event.isLimiterEvent

theorem emit_nil (result : Sessions × List Event) : emit [] result = result := rfl

theorem limiterEvents_append (first second : List Event) :
    limiterEvents (first ++ second) = limiterEvents first ++ limiterEvents second :=
  List.filter_append first second

theorem mem_limiterEvents {e : Event} (he : e.isLimiterEvent = true)
    {events : List Event} : e ∈ limiterEvents events ↔ e ∈ events := by
  rw [limiterEvents, List.mem_filter, and_iff_left he]

theorem chargeAll_limiterEvents (now : Int) (limiter : RateLimiter) (events : List Event) :
    chargeAll now limiter (limiterEvents events) = chargeAll now limiter events := by
  induction events generalizing limiter with
  | nil => rfl
  | cons e rest ih =>
      cases he : e.isLimiterEvent with
      | true =>
          rw [limiterEvents, List.filter_cons_of_pos he]
          exact ih (charge now limiter e)
      | false =>
          have hsame : charge now limiter e = limiter := by
            cases e <;> first | rfl | cases he
          rw [limiterEvents, List.filter_cons_of_neg (by rw [he]; exact Bool.false_ne_true)]
          unfold chargeAll
          rw [List.foldl_cons, hsame]
          exact ih limiter

theorem freeSession_limiterEvents (i : Slot) (sessions : Sessions) :
    limiterEvents (freeSession i sessions).2 = [] := by
  unfold freeSession
  split
  · rfl
  · rfl

theorem activateSlot_limiterEvents (env : Env) (src : SockAddr) (i : Slot)
    (secrets : Sodium.SessionSecrets) (msg2 : Bytes) (sessions : Sessions) :
    limiterEvents (activateSlot env src i secrets msg2 sessions).2 = [] ∨
      limiterEvents (activateSlot env src i secrets msg2 sessions).2 =
        [.sendMsg2 src msg2] := by
  have hold : ∀ s, limiterEvents (supersedeOld i src s).2 = [] := by
    intro s
    unfold supersedeOld
    split
    · rfl
    · rfl
  have hinstalled : ∀ events, limiterEvents (.installed i secrets.sessionId :: events) =
      limiterEvents events := fun _ => rfl
  have hadded : limiterEvents [.schedulerAdd secrets.sessionId] = [] := rfl
  unfold activateSlot
  dsimp only
  rw [emit_snd, limiterEvents_append, hinstalled, hold, List.nil_append]
  split
  · exact Or.inl (freeSession_limiterEvents _ _)
  rw [emit_snd, limiterEvents_append, hadded, List.nil_append]
  split
  · exact Or.inl (freeSession_limiterEvents _ _)
  · exact Or.inr rfl

theorem msg1InSlot_limiterEvents (na : Sodium) (keys : ServerKeys) (order : Endian)
    (env : Env) (random : Ephemeral) (msg1 : Bytes) (src : SockAddr) (i : Slot)
    (sessions : Sessions) :
    let events := (msg1InSlot na keys order env random msg1 src i sessions).2
    limiterEvents events = [] ∨ ∃ msg2, limiterEvents events = [.sendMsg2 src msg2] := by
  dsimp only
  rcases msg1InSlot_cases na keys order env random msg1 src i sessions with
    hfreed | ⟨sig, secrets, _, _, hactivated⟩
  · rw [hfreed]
    exact Or.inl (freeSession_limiterEvents _ _)
  · rw [hactivated]
    exact (activateSlot_limiterEvents env src i secrets _ _).imp_right fun h => ⟨_, h⟩

/-- `handle_msg1` asks the limiter first and replies only after a yes. -/
theorem handleMsg1_limiterEvents (na : Sodium) (keys : ServerKeys) (order : Endian)
    (env : Env) (random : Ephemeral) (msg1 : Bytes) (src : SockAddr)
    (sessions : Sessions) :
    let events := (handleMsg1 na keys order env random msg1 src sessions).2
    (keys.signSkLoaded = false ∧ limiterEvents events = []) ∨
    keys.signSkLoaded = true ∧
      (limiterEvents events = [.handshakeRateCheck src.addr env.handshakeVerdict] ∨
        env.handshakeVerdict = .ok ∧ ∃ msg2, limiterEvents events =
          [.handshakeRateCheck src.addr .ok, .sendMsg2 src msg2]) := by
  unfold handleMsg1
  dsimp only
  cases hloaded : keys.signSkLoaded with
  | false => exact Or.inl ⟨rfl, rfl⟩
  | true =>
      refine Or.inr ⟨rfl, ?_⟩
      rw [Bool.not_true, if_neg Bool.false_ne_true, emit_snd, limiterEvents_append]
      cases hverdict : env.handshakeVerdict with
      | blacklisted => exact Or.inl rfl
      | exceeded => exact Or.inl rfl
      | ok =>
          dsimp only
          split
          · exact Or.inl rfl
          cases allocateSession sessions with
          | none => exact Or.inl rfl
          | some found =>
              obtain ⟨i, next⟩ := found
              dsimp only
              rcases msg1InSlot_limiterEvents na keys order env random msg1 src i next with
                hnone | ⟨msg2, hreply⟩
              · rw [hnone]
                exact Or.inl rfl
              · rw [hreply]
                exact Or.inr ⟨rfl, msg2, rfl⟩

theorem inboundAccepted_limiterEvents (order : Endian) (env : Env) (i : Slot)
    (plain : Bytes) (sessions : Sessions) :
    limiterEvents (inboundAccepted order env i plain sessions).2 = [] := by
  rcases inboundAccepted_cases order env i plain sessions with
    hfreed | ⟨_, _, events, _, hwritten, hevents⟩
  · rw [hfreed]
    exact freeSession_limiterEvents _ _
  · rw [hwritten]
    refine List.filter_eq_nil_iff.mpr fun e he => ?_
    rcases hevents e he with ⟨bytes, length, rfl⟩ | rfl
    · exact Bool.false_ne_true
    · exact Bool.false_ne_true

theorem inboundData_limiterEvents (na : Sodium) (order : Endian) (env : Env)
    (buf : Bytes) (sessions : Sessions) :
    limiterEvents (inboundData na order env buf sessions).2 = [] := by
  unfold inboundData
  dsimp only
  split
  · rfl
  split
  · rfl
  split
  · rfl
  split
  · rfl
  split
  · rfl
  · rw [emit_snd, limiterEvents_append, inboundAccepted_limiterEvents]
    rfl

/-- The tests of `handle_inbound_udp` that an MSG1 passes. -/
theorem IsMsg1.passes {order : Endian} {buf : Bytes} (h : IsMsg1 order buf) :
    ¬buf.length < protoHeaderLen ∧ ¬bufferSize < buf.length ∧
      ¬(!headerAccepted order buf) = true ∧ ¬packetType buf = pktTypeData := by
  obtain ⟨hheader, htype, hlength⟩ := h
  rw [hlength, hheader, htype]
  decide

theorem handleInboundUdp_of_isMsg1 (na : Sodium) (keys : ServerKeys) (order : Endian)
    (env : Env) (src : SockAddr) (buf : Bytes) (sessions : Sessions)
    (h : IsMsg1 order buf) :
    handleInboundUdp na keys order env src buf sessions =
      if (sessionByAddr src sessions).isSome then
        handleRehandshakeMsg1 na keys order env buf src sessions
      else handleMsg1 na keys order env env.random buf src sessions := by
  obtain ⟨hlong, hfits, hheader, hdata⟩ := h.passes
  unfold handleInboundUdp
  rw [if_neg hlong, if_neg hfits, if_neg hheader, if_neg fun hlimited => hdata hlimited.1,
    if_neg hdata, if_pos h.2.1, if_pos h.2.2, emit_nil]
  cases sessionByAddr src sessions with
  | none => rfl
  | some i => rfl

/-- A datagram that is no MSG1 asks for the packet limit or for nothing. -/
theorem handleInboundUdp_of_not_isMsg1 (na : Sodium) (keys : ServerKeys) (order : Endian)
    (env : Env) (src : SockAddr) (buf : Bytes) (sessions : Sessions)
    (h : ¬IsMsg1 order buf) :
    let events := (handleInboundUdp na keys order env src buf sessions).2
    limiterEvents events = [] ∨
      limiterEvents events = [.packetRateCheck src.addr env.packetVerdict] := by
  unfold handleInboundUdp
  dsimp only
  split
  · exact Or.inl rfl
  split
  · exact Or.inl rfl
  split
  · exact Or.inl rfl
  next hheader =>
  split
  · exact Or.inr rfl
  rw [emit_snd, limiterEvents_append]
  by_cases htype : packetType buf = pktTypeHandshake
  · have hdata : ¬packetType buf = pktTypeData := by
      rw [htype]
      decide
    have hlength : ¬buf.length = protoHeaderLen + msg1Len + params := fun hlength =>
      h ⟨by simpa using hheader, htype, hlength⟩
    rw [if_neg hdata, if_pos htype, if_neg hlength]
    exact Or.inl rfl
  · rw [if_neg htype, emit_snd, limiterEvents_append, inboundData_limiterEvents]
    split
    · exact Or.inr rfl
    · exact Or.inl rfl

/-- What a datagram has to do with the limiter. -/
inductive LimiterTrace (env : Env) (src : SockAddr) : List Event → Prop where
  | silent : LimiterTrace env src []
  | packet : LimiterTrace env src [.packetRateCheck src.addr env.packetVerdict]
  | handshake : LimiterTrace env src [.handshakeRateCheck src.addr env.handshakeVerdict]
  | replied (hok : env.handshakeVerdict = .ok) (msg2 : Bytes) :
      LimiterTrace env src [.handshakeRateCheck src.addr .ok, .sendMsg2 src msg2]
  /-- A reply without a check. -/
  | unasked (msg2 : Bytes) : LimiterTrace env src [.sendMsg2 src msg2]

theorem handleMsg1_trace (na : Sodium) (keys : ServerKeys) (order : Endian) (env : Env)
    (random : Ephemeral) (msg1 : Bytes) (src : SockAddr) (sessions : Sessions) :
    LimiterTrace env src
      (limiterEvents (handleMsg1 na keys order env random msg1 src sessions).2) := by
  rcases handleMsg1_limiterEvents na keys order env random msg1 src sessions with
    ⟨_, hnone⟩ | ⟨_, hcheck | ⟨hok, msg2, hreply⟩⟩
  · rw [hnone]
    exact .silent
  · rw [hcheck]
    exact .handshake
  · rw [hreply]
    exact .replied hok msg2

/-- Handling a datagram asks the limiter at most once and sends at most one reply, to the
sender. -/
theorem handleInboundUdp_trace (na : Sodium) (keys : ServerKeys) (order : Endian)
    (env : Env) (src : SockAddr) (buf : Bytes) (sessions : Sessions) :
    LimiterTrace env src
      (limiterEvents (handleInboundUdp na keys order env src buf sessions).2) := by
  by_cases h : IsMsg1 order buf
  · rw [handleInboundUdp_of_isMsg1 na keys order env src buf sessions h]
    split
    · rcases handleRehandshakeMsg1_cases na keys order env buf src sessions with
        hnothing | ⟨random, hfallback⟩ | ⟨i, sig, secrets, _, _, _, hrekeyed⟩
      · rw [hnothing]
        exact .silent
      · rw [hfallback]
        exact handleMsg1_trace na keys order env random buf src sessions
      · rw [hrekeyed]
        dsimp only
        split
        · exact .unasked _
        · exact .silent
    · exact handleMsg1_trace na keys order env env.random buf src sessions
  · rcases handleInboundUdp_of_not_isMsg1 na keys order env src buf sessions h with
      hnone | hpacket
    · rw [hnone]
      exact .silent
    · rw [hpacket]
      exact .packet

/-- The server and its limiter. -/
structure Limited where
  limiter : RateLimiter
  sessions : Sessions

def Limited.start (now : Int) : Limited := ⟨rateLimiterInit now, noSessions⟩

inductive LimitedAct where
  | datagram (env : Env) (src : SockAddr) (buf : Bytes)
  | free (now : Int) (i : Slot)
  | maintenance (now : Int)
  | rateLimiterCleanup (now : Int)
  | blacklistIp (now : Int) (ipAddr : UInt32)

def LimitedAct.time : LimitedAct → Int
  | .datagram env _ _ => env.now
  | .free now _ => now
  | .maintenance now => now
  | .rateLimiterCleanup now => now
  | .blacklistIp now _ => now

def limitedStep (na : Sodium) (keys : ServerKeys) (order : Endian) (s : Limited) :
    LimitedAct → Limited × List Event
  | .datagram env src buf =>
      let result := handleInboundUdp na keys order (askLimiter s.limiter src env) src buf
        s.sessions
      (⟨chargeAll env.now s.limiter result.2, result.1⟩, result.2)
  | .free _ i =>
      let result := freeSession i s.sessions
      ({ s with sessions := result.1 }, result.2)
  | .maintenance now =>
      let result := performMaintenance now s.sessions
      ({ s with sessions := result.1 }, result.2)
  | .rateLimiterCleanup now => ({ s with limiter := rateLimiterCleanup now s.limiter }, [])
  | .blacklistIp now ipAddr => ({ s with limiter := blacklistIp now ipAddr s.limiter }, [])

/-- Whatever a datagram has to do with the limiter leaves it sound. -/
theorem LimiterTrace.sound {env : Env} {src : SockAddr} {trace : List Event}
    (h : LimiterTrace env src trace) {clock now : Int} (hclock : clock ≤ now)
    {limiter : RateLimiter} (hlimiter : limiter.Sound clock) :
    (chargeAll now limiter trace).Sound now := by
  cases h with
  | silent => exact hlimiter.later hclock
  | packet => exact checkRateLimit_sound hlimiter hclock .packet src.addr
  | handshake => exact checkRateLimit_sound hlimiter hclock .handshake src.addr
  | replied _ _ => exact checkRateLimit_sound hlimiter hclock .handshake src.addr
  | unasked _ => exact hlimiter.later hclock

theorem limitedStep_sound (na : Sodium) (keys : ServerKeys) (order : Endian)
    {clock : Int} (s : Limited) (act : LimitedAct) (h : s.limiter.Sound clock)
    (hclock : clock ≤ act.time) :
    (limitedStep na keys order s act).1.limiter.Sound act.time := by
  cases act with
  | datagram env src buf =>
      have htrace := handleInboundUdp_trace na keys order (askLimiter s.limiter src env)
        src buf s.sessions
      have hsound := htrace.sound hclock h
      rw [chargeAll_limiterEvents] at hsound
      exact hsound
  | free now i => exact h.later hclock
  | maintenance now => exact h.later hclock
  | rateLimiterCleanup now => exact rateLimiterCleanup_sound h hclock
  | blacklistIp now ipAddr => exact blacklistIp_sound h hclock ipAddr

/-- The packet is long enough and has the header of the protocol. -/
def Framed (order : Endian) (buf : Bytes) : Prop :=
  protoHeaderLen ≤ buf.length ∧ buf.length ≤ bufferSize ∧ headerAccepted order buf = true

instance (order : Endian) (buf : Bytes) : Decidable (Framed order buf) :=
  inferInstanceAs (Decidable (_ ∧ _ ∧ _))

/-- Of the datagrams that reach the session lookup those of type DATA were checked. -/
theorem packetRateCheck_mem_iff (na : Sodium) (keys : ServerKeys) {order : Endian}
    {env : Env} (src : SockAddr) {buf : Bytes} (sessions : Sessions)
    (hreaches : ReachesLookup order env buf) :
    .packetRateCheck src.addr .ok ∈
        (handleInboundUdp na keys order env src buf sessions).2 ↔
      packetType buf = pktTypeData := by
  rcases handleInboundUdp_cases na keys order env src buf sessions with
    ⟨hstays, _⟩ | ⟨hhandshake, _⟩ | ⟨_, hdata⟩
  · exact absurd hreaches hstays
  · exact absurd hhandshake.2.1 hreaches.2.2.2.1
  rw [← mem_limiterEvents rfl, hdata, emit_snd, limiterEvents_append,
    inboundData_limiterEvents, List.append_nil]
  unfold lookupEvents
  rw [limiterEvents_append]
  constructor
  · intro hcheck
    by_contra htype
    rw [if_neg htype] at hcheck
    cases hcheck
  · intro htype
    rw [if_pos htype, hreaches.2.2.2.2 htype]
    exact List.mem_cons_self

/-- A datagram that reaches the session lookup was charged to its source and let through,
and one of a blacklisted source does not reach it, exactly when its type is one of the two
that clients send. -/
theorem data_path_limited_iff (na : Sodium) (keys : ServerKeys) (order : Endian)
    (limiter : RateLimiter) (sessions : Sessions) (env : Env) (src : SockAddr)
    (buf : Bytes) :
    let asked := askLimiter limiter src env
    let known := Framed order buf →
      packetType buf = pktTypeData ∨ packetType buf = pktTypeHandshake
    ((ReachesLookup order asked buf → .packetRateCheck src.addr .ok ∈
        (handleInboundUdp na keys order asked src buf sessions).2) ↔ known) ∧
      (limiter.Blacklisted env.now src.addr →
        (¬ReachesLookup order asked buf ↔ known)) := by
  intro asked known
  constructor
  · constructor
    · intro hcharged hframed
      by_contra hunknown
      rw [not_or] at hunknown
      have hreaches : ReachesLookup order asked buf :=
        ⟨hframed.1, hframed.2.1, hframed.2.2, hunknown.2, fun h => absurd h hunknown.1⟩
      exact hunknown.1
        ((packetRateCheck_mem_iff na keys src sessions hreaches).mp (hcharged hreaches))
    · intro hknown hreaches
      have htype := hknown ⟨hreaches.1, hreaches.2.1, hreaches.2.2.1⟩
      exact (packetRateCheck_mem_iff na keys src sessions hreaches).mpr
        (htype.resolve_right hreaches.2.2.2.1)
  · intro hblacklisted
    have hverdict : asked.packetVerdict = .blacklisted :=
      checkRateLimit_blacklisted hblacklisted .packet
    constructor
    · intro hstays hframed
      by_contra hunknown
      rw [not_or] at hunknown
      exact hstays
        ⟨hframed.1, hframed.2.1, hframed.2.2, hunknown.2, fun h => absurd h hunknown.1⟩
    · intro hknown hreaches
      rcases hknown ⟨hreaches.1, hreaches.2.1, hreaches.2.2.1⟩ with hdata | hhandshake
      · have hok := hreaches.2.2.2.2 hdata
        rw [hverdict] at hok
        cases hok
      · exact hreaches.2.2.2.1 hhandshake

/-- The limiter once the address 1 is blacklisted. -/
def blacklistedOne : RateLimiter := blacklistIp 0 1 (rateLimiterInit 0)

theorem data_path_limited_iff_blacklisted :
    let asked := askLimiter blacklistedOne ⟨1, 2⟩ (Agreement.calmEnv 1 3)
    let buf := greetedDatagram pktTypeData
    blacklistedOne.Blacklisted 1 1 ∧
      (¬ReachesLookup .little asked buf ↔ (Framed .little buf →
        packetType buf = pktTypeData ∨ packetType buf = pktTypeHandshake)) := by
  intro asked buf
  have hblacklisted : blacklistedOne.Blacklisted 1 1 := by decide +kernel
  exact ⟨hblacklisted, (data_path_limited_iff Sodium.xorSodium Agreement.zeroKeys .little
    blacklistedOne Agreement.greeted.1 (Agreement.calmEnv 1 3) ⟨1, 2⟩ buf).2 hblacklisted⟩

/-- A blacklisted client sends a datagram of its session with another type byte: it is
never checked, and it is decrypted and accepted. -/
theorem blacklisted_datagram_accepted :
    let asked := askLimiter blacklistedOne ⟨1, 2⟩ (Agreement.calmEnv 1 3)
    let events := (handleInboundUdp Sodium.xorSodium Agreement.zeroKeys .little asked
      ⟨1, 2⟩ (greetedDatagram 0) Agreement.greeted.1).2
    blacklistedOne.Blacklisted 1 1 ∧ ReachesLookup .little asked (greetedDatagram 0) ∧
      .packetRateCheck 1 .ok ∉ events ∧
      .accepted (Agreement.greeted.1 0).sessionId 1 ∈ events := by
  decide +kernel

end Chamlon.Server
