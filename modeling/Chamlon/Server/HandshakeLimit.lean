import Mathlib.Tactic
import Chamlon.Server.RateLimited

/-!
How many handshakes the limiter lets through. `handle_msg1` asks it before it does any
work. `handle_rehandshake_msg1`, which serves every address that has a session, works and
replies without asking; only when its cryptography fails it falls back to `handle_msg1`.

The work of a call is a second reading of the same code: the calls of
`crypto_kx_keypair`, `crypto_scalarmult` and `crypto_sign_detached` in their order.
-/

namespace Chamlon.Server

open Config Memory Machine TokenBucket

inductive Work where
  | keypair
  | scalarmult
  | sign
deriving DecidableEq, Repr

/-- The second multiplication is made only when the first one succeeds. -/
def scalarmultWork (na : Sodium) (sPriv : Octets privkeyLen) (cPub : Octets pubkeyLen) :
    List Work :=
  match na.scalarmult sPriv cPub with
  | none => [.scalarmult]
  | some _ => [.scalarmult, .scalarmult]

/-- The work of `handle_msg1`. -/
def msg1Work (na : Sodium) (keys : ServerKeys) (env : Env) (random : Ephemeral)
    (msg1 : Bytes) (sessions : Sessions) : List Work :=
  if !keys.signSkLoaded then []
  else if env.handshakeVerdict ≠ .ok then []
  else if msg1.length ≠ protoHeaderLen + msg1Len + params then []
  else
    .keypair ::
      if (allocateSession sessions).isNone then []
      else
        .sign ::
          if (na.signDetached keys.signSk (signedBlob (na.kxPublic random.sPriv)
              random.sNonce (msg1Pub msg1) (msg1Nonce msg1))).isNone then []
          else scalarmultWork na random.sPriv (msg1Pub msg1)

/-- The derivation of the keys or the signature of a rehandshake fails. -/
def RekeyFails (na : Sodium) (keys : ServerKeys) (env : Env) (msg1 : Bytes) : Prop :=
  na.serverSecrets env.random.sPriv keys.serverSk (msg1Pub msg1) (msg1Nonce msg1)
      env.random.sNonce = none ∨
    na.signDetached keys.signSk (signedBlob (na.kxPublic env.random.sPriv)
      env.random.sNonce (msg1Pub msg1) (msg1Nonce msg1)) = none

/-- The work of `handle_rehandshake_msg1`, with that of `handle_msg1` where it falls back
to it. -/
def rehandshakeWork (na : Sodium) (keys : ServerKeys) (env : Env) (msg1 : Bytes)
    (src : SockAddr) (sessions : Sessions) : List Work :=
  if msg1.length ≠ protoHeaderLen + msg1Len + params then []
  else if (sessionByAddr src sessions).isNone then
    msg1Work na keys env env.random msg1 sessions
  else
    .keypair :: scalarmultWork na env.random.sPriv (msg1Pub msg1) ++
      if (na.serverSecrets env.random.sPriv keys.serverSk (msg1Pub msg1) (msg1Nonce msg1)
          env.random.sNonce).isNone then
        msg1Work na keys env env.fallback msg1 sessions
      else
        .sign ::
          if (na.signDetached keys.signSk (signedBlob (na.kxPublic env.random.sPriv)
              env.random.sNonce (msg1Pub msg1) (msg1Nonce msg1))).isNone then
            msg1Work na keys env env.fallback msg1 sessions
          else []

/-- The work of `handle_inbound_udp`. -/
def inboundWork (na : Sodium) (keys : ServerKeys) (order : Endian) (env : Env)
    (src : SockAddr) (buf : Bytes) (sessions : Sessions) : List Work :=
  if buf.length < protoHeaderLen then []
  else if bufferSize < buf.length then []
  else if !headerAccepted order buf then []
  else if packetType buf = pktTypeData ∧ env.packetVerdict ≠ .ok then []
  else if packetType buf = pktTypeHandshake then
    if buf.length = protoHeaderLen + msg1Len + params then
      if (sessionByAddr src sessions).isSome then
        rehandshakeWork na keys env buf src sessions
      else msg1Work na keys env env.random buf sessions
    else []
  else []

theorem inboundWork_of_isMsg1 (na : Sodium) (keys : ServerKeys) (order : Endian)
    (env : Env) (src : SockAddr) (buf : Bytes) (sessions : Sessions)
    (h : IsMsg1 order buf) :
    inboundWork na keys order env src buf sessions =
      if (sessionByAddr src sessions).isSome then
        rehandshakeWork na keys env buf src sessions
      else msg1Work na keys env env.random buf sessions := by
  obtain ⟨hlong, hfits, hheader, hdata⟩ := h.passes
  unfold inboundWork
  rw [if_neg hlong, if_neg hfits, if_neg hheader, if_neg fun hlimited => hdata hlimited.1,
    if_pos h.2.1, if_pos h.2.2]

theorem inboundWork_of_not_isMsg1 (na : Sodium) (keys : ServerKeys) (order : Endian)
    (env : Env) (src : SockAddr) (buf : Bytes) (sessions : Sessions)
    (h : ¬IsMsg1 order buf) : inboundWork na keys order env src buf sessions = [] := by
  unfold inboundWork
  split
  · rfl
  split
  · rfl
  split
  · rfl
  next hheader =>
  split
  · rfl
  split
  next htype =>
    rw [if_neg fun hlength => h ⟨by simpa using hheader, htype, hlength⟩]
  · rfl

theorem scalarmultWork_of_secrets {na : Sodium} {sPriv serverSk : Octets privkeyLen}
    {cPub : Octets pubkeyLen} {cNonce sNonce : Octets 8} {secrets : Sodium.SessionSecrets}
    (h : na.serverSecrets sPriv serverSk cPub cNonce sNonce = some secrets) :
    scalarmultWork na sPriv cPub = [.scalarmult, .scalarmult] := by
  unfold Sodium.serverSecrets at h
  unfold scalarmultWork
  cases hdh : na.scalarmult sPriv cPub with
  | none =>
      rw [hdh] at h
      cases h
  | some dh => rfl

theorem handleMsg1_worked {na : Sodium} {keys : ServerKeys} {order : Endian} {env : Env}
    {random : Ephemeral} {msg1 : Bytes} {src : SockAddr} {sessions : Sessions} {i : Slot}
    {sessionId : Octets sessionIdLen}
    (h : .installed i sessionId ∈
      (handleMsg1 na keys order env random msg1 src sessions).2) :
    msg1Work na keys env random msg1 sessions =
      [.keypair, .sign, .scalarmult, .scalarmult] := by
  unfold handleMsg1 at h
  unfold msg1Work
  split at h
  · cases h
  next hloaded =>
  rw [if_neg hloaded]
  cases hverdict : env.handshakeVerdict with
  | blacklisted => simp [hverdict] at h
  | exceeded => simp [hverdict] at h
  | ok =>
      rw [hverdict] at h
      dsimp only at h
      split at h
      · simp at h
      next hlength =>
      cases hallocated : allocateSession sessions with
      | none => simp [hallocated] at h
      | some found =>
          obtain ⟨j, next⟩ := found
          rw [hallocated] at h
          dsimp only at h
          rw [emit_snd, List.mem_append] at h
          rcases msg1InSlot_cases na keys order env random msg1 src j next with
            hfreed | ⟨sig, secrets, hsig, hsecrets, _⟩
          · rw [hfreed] at h
            rcases h with hearlier | hlater
            · simp at hearlier
            · exact absurd hlater ((freeSession_bookkeeping _ _).not_mem rfl)
          · rw [if_neg (not_not.mpr rfl), if_neg hlength, hsig,
              scalarmultWork_of_secrets hsecrets]
            rfl

/-- A rehandshake of a known address draws a key pair in any case. -/
theorem rehandshakeWork_ne_nil (na : Sodium) (keys : ServerKeys) (env : Env)
    (msg1 : Bytes) (src : SockAddr) (sessions : Sessions)
    (hlength : msg1.length = protoHeaderLen + msg1Len + params)
    (hknown : (sessionByAddr src sessions).isSome = true) :
    rehandshakeWork na keys env msg1 src sessions ≠ [] := by
  have hsome : ¬(sessionByAddr src sessions).isNone = true := by
    rw [Option.isNone_iff_eq_none]
    exact Option.isSome_iff_ne_none.mp hknown
  unfold rehandshakeWork
  rw [if_neg (not_not.mpr hlength), if_neg hsome, List.cons_append]
  exact List.cons_ne_nil _ _

/-- The work of a whole handshake. -/
def Completes (work : List Work) : Prop :=
  .sign ∈ work ∧ [.scalarmult, .scalarmult].Sublist work

theorem Completes.after {work : List Work} (h : Completes work) (earlier : List Work) :
    Completes (earlier ++ work) :=
  ⟨List.mem_append_right _ h.1, h.2.trans (List.sublist_append_right _ _)⟩

theorem handleMsg1_completes {na : Sodium} {keys : ServerKeys} {order : Endian} {env : Env}
    {random : Ephemeral} {msg1 : Bytes} {src : SockAddr} {sessions : Sessions} {i : Slot}
    {sessionId : Octets sessionIdLen}
    (h : .installed i sessionId ∈
      (handleMsg1 na keys order env random msg1 src sessions).2) :
    Completes (msg1Work na keys env random msg1 sessions) := by
  rw [handleMsg1_worked h]
  exact ⟨by decide, by decide⟩

theorem handleRehandshakeMsg1_completes {na : Sodium} {keys : ServerKeys} {order : Endian}
    {env : Env} {msg1 : Bytes} {src : SockAddr} {sessions : Sessions} {i j : Slot}
    {sessionId : Octets sessionIdLen} (hknown : sessionByAddr src sessions = some j)
    (h : .installed i sessionId ∈
      (handleRehandshakeMsg1 na keys order env msg1 src sessions).2) :
    Completes (rehandshakeWork na keys env msg1 src sessions) := by
  unfold handleRehandshakeMsg1 at h
  unfold rehandshakeWork
  split at h
  · cases h
  next hlength =>
  rw [hknown] at h ⊢
  rw [if_neg hlength, if_neg (by simp)]
  dsimp only at h
  cases hsecrets : na.serverSecrets env.random.sPriv keys.serverSk (msg1Pub msg1)
      (msg1Nonce msg1) env.random.sNonce with
  | none =>
      rw [hsecrets] at h
      rw [if_pos Option.isNone_none]
      exact (handleMsg1_completes h).after _
  | some secrets =>
      rw [hsecrets] at h
      dsimp only at h
      rw [if_neg (by simp), scalarmultWork_of_secrets hsecrets]
      cases hsig : na.signDetached keys.signSk (signedBlob
          (na.kxPublic env.random.sPriv) env.random.sNonce (msg1Pub msg1)
          (msg1Nonce msg1)) with
      | none =>
          rw [hsig] at h
          rw [if_pos Option.isNone_none]
          exact (handleMsg1_completes h).after [.keypair, .scalarmult, .scalarmult, .sign]
      | some sig =>
          rw [if_neg (by simp)]
          exact ⟨by decide, by decide⟩

/-- The work belongs to the modelled code: no slot gets keys without a signature and two
multiplications. -/
theorem installed_completes {na : Sodium} {keys : ServerKeys} {order : Endian} {env : Env}
    {src : SockAddr} {buf : Bytes} {sessions : Sessions} {i : Slot}
    {sessionId : Octets sessionIdLen}
    (h : .installed i sessionId ∈
      (handleInboundUdp na keys order env src buf sessions).2) :
    Completes (inboundWork na keys order env src buf sessions) := by
  rcases handleInboundUdp_cases na keys order env src buf sessions with
    ⟨_, events, hevents, hdropped⟩ |
      ⟨hmsg1, ⟨⟨j, hknown⟩, hagain⟩ | ⟨hunknown, hfirst⟩⟩ | ⟨_, hdata⟩
  · rw [hdropped] at h
    exact absurd h (hevents.not_mem rfl)
  · rw [hagain] at h
    rw [inboundWork_of_isMsg1 na keys order env src buf sessions hmsg1, hknown,
      Option.isSome_some, if_pos rfl]
    exact handleRehandshakeMsg1_completes hknown h
  · rw [hfirst] at h
    rw [inboundWork_of_isMsg1 na keys order env src buf sessions hmsg1, hunknown,
      Option.isSome_none, if_neg Bool.false_ne_true]
    exact handleMsg1_completes h
  · rw [hdata, emit_snd, List.mem_append] at h
    rcases h with hearlier | hlater
    · exact absurd hearlier ((lookupEvents_bookkeeping env src buf).not_mem rfl)
    · rcases inboundData_mem hlater with
        hcounted | ⟨_, _, haccepted⟩ | ⟨_, _, _, hwrite⟩ | ⟨_, hbad⟩
      · cases hcounted
      · cases haccepted
      · cases hwrite
      · cases hbad

theorem msg1Work_asked {na : Sodium} {keys : ServerKeys} {env : Env} {random : Ephemeral}
    {msg1 : Bytes} {sessions : Sessions}
    (h : msg1Work na keys env random msg1 sessions ≠ []) :
    keys.signSkLoaded = true ∧ env.handshakeVerdict = .ok := by
  unfold msg1Work at h
  split at h
  · exact absurd rfl h
  next hloaded =>
  split at h
  · exact absurd rfl h
  next hverdict => exact ⟨by simpa using hloaded, not_not.mp hverdict⟩

theorem handleMsg1_checked_iff (na : Sodium) (keys : ServerKeys) (order : Endian)
    (env : Env) (random : Ephemeral) (msg1 : Bytes) (src : SockAddr)
    (sessions : Sessions) :
    .handshakeRateCheck src.addr .ok ∈
        (handleMsg1 na keys order env random msg1 src sessions).2 ↔
      keys.signSkLoaded = true ∧ env.handshakeVerdict = .ok := by
  rw [← mem_limiterEvents rfl]
  rcases handleMsg1_limiterEvents na keys order env random msg1 src sessions with
    ⟨hloaded, hnone⟩ | ⟨hloaded, hcheck | ⟨hok, msg2, hreply⟩⟩
  · rw [hnone, hloaded]
    simp
  · rw [hcheck, hloaded]
    simp [eq_comm]
  · rw [hreply, hloaded, hok]
    simp

theorem handleMsg1_replied {na : Sodium} {keys : ServerKeys} {order : Endian} {env : Env}
    {random : Ephemeral} {msg1 : Bytes} {src dst : SockAddr} {sessions : Sessions}
    {msg2 : Bytes}
    (h : .sendMsg2 dst msg2 ∈ (handleMsg1 na keys order env random msg1 src sessions).2) :
    keys.signSkLoaded = true ∧ env.handshakeVerdict = .ok := by
  rw [← mem_limiterEvents rfl] at h
  rcases handleMsg1_limiterEvents na keys order env random msg1 src sessions with
    ⟨_, hnone⟩ | ⟨hloaded, hcheck | ⟨hok, _, _⟩⟩
  · rw [hnone] at h
    cases h
  · rw [hcheck] at h
    cases List.mem_singleton.mp h
  · exact ⟨hloaded, hok⟩

/-- A rehandshake asks the limiter only when it fails. -/
theorem handleRehandshakeMsg1_checked_iff (na : Sodium) (keys : ServerKeys)
    (order : Endian) (env : Env) (msg1 : Bytes) (src : SockAddr) (sessions : Sessions)
    (hlength : msg1.length = protoHeaderLen + msg1Len + params)
    (hknown : (sessionByAddr src sessions).isSome = true) :
    .handshakeRateCheck src.addr .ok ∈
        (handleRehandshakeMsg1 na keys order env msg1 src sessions).2 ↔
      RekeyFails na keys env msg1 ∧ keys.signSkLoaded = true ∧
        env.handshakeVerdict = .ok := by
  obtain ⟨i, hi⟩ := Option.isSome_iff_exists.mp hknown
  unfold handleRehandshakeMsg1 RekeyFails
  rw [if_neg (not_not.mpr hlength), hi]
  dsimp only
  cases na.serverSecrets env.random.sPriv keys.serverSk (msg1Pub msg1) (msg1Nonce msg1)
      env.random.sNonce with
  | none =>
      dsimp only
      rw [handleMsg1_checked_iff]
      simp
  | some secrets =>
      dsimp only
      cases na.signDetached keys.signSk (signedBlob (na.kxPublic env.random.sPriv)
          env.random.sNonce (msg1Pub msg1) (msg1Nonce msg1)) with
      | none =>
          dsimp only
          rw [handleMsg1_checked_iff]
          simp
      | some sig => cases env.msg2Sent <;> simp

/-- A handshake of a known address pays for itself: its rehandshake fails and the limiter
lets the handshake through to which it falls back. -/
def PaysForHandshake (na : Sodium) (keys : ServerKeys) (order : Endian) (env : Env)
    (src : SockAddr) (buf : Bytes) (sessions : Sessions) : Prop :=
  IsMsg1 order buf → (sessionByAddr src sessions).isSome = true →
    RekeyFails na keys env buf ∧ keys.signSkLoaded = true ∧ env.handshakeVerdict = .ok

/-- Work or a reply was charged to the source, exactly under this condition. -/
theorem charged_iff_paysForHandshake (na : Sodium) (keys : ServerKeys) (order : Endian)
    (env : Env) (src : SockAddr) (buf : Bytes) (sessions : Sessions) :
    (inboundWork na keys order env src buf sessions ≠ [] ∨ (∃ dst msg2, .sendMsg2 dst msg2 ∈
        (handleInboundUdp na keys order env src buf sessions).2) →
      .handshakeRateCheck src.addr .ok ∈
        (handleInboundUdp na keys order env src buf sessions).2) ↔
      PaysForHandshake na keys order env src buf sessions := by
  by_cases hmsg1 : IsMsg1 order buf
  · rw [handleInboundUdp_of_isMsg1 na keys order env src buf sessions hmsg1,
      inboundWork_of_isMsg1 na keys order env src buf sessions hmsg1]
    by_cases hknown : (sessionByAddr src sessions).isSome = true
    · have hwork := rehandshakeWork_ne_nil na keys env buf src sessions hmsg1.2.2 hknown
      rw [if_pos hknown, if_pos hknown, handleRehandshakeMsg1_checked_iff na keys order env
        buf src sessions hmsg1.2.2 hknown]
      exact ⟨fun h _ _ => h (Or.inl hwork), fun h _ => h hmsg1 hknown⟩
    · rw [if_neg hknown, if_neg hknown, handleMsg1_checked_iff]
      refine ⟨fun _ _ hsome => absurd hsome hknown, fun _ h => ?_⟩
      rcases h with hwork | ⟨dst, msg2, hsent⟩
      · exact msg1Work_asked hwork
      · exact handleMsg1_replied hsent
  · rw [inboundWork_of_not_isMsg1 na keys order env src buf sessions hmsg1]
    refine ⟨fun _ h => absurd h hmsg1, fun _ h => ?_⟩
    rcases h with hwork | ⟨dst, msg2, hsent⟩
    · exact absurd rfl hwork
    · rw [← mem_limiterEvents rfl] at hsent
      rcases handleInboundUdp_of_not_isMsg1 na keys order env src buf sessions hmsg1 with
        hnone | hpacket
      · rw [hnone] at hsent
        cases hsent
      · rw [hpacket] at hsent
        cases List.mem_singleton.mp hsent

def Event.isReplyTo (ipAddr : UInt32) : Event → Bool
  | .sendMsg2 dst _ => dst.addr == ipAddr
  | _ => false

/-- How many of the events are an MSG2 to this address. -/
def repliesTo (ipAddr : UInt32) (events : List Event) : Nat :=
  events.countP (Event.isReplyTo ipAddr)

theorem repliesTo_limiterEvents (ipAddr : UInt32) (events : List Event) :
    repliesTo ipAddr (limiterEvents events) = repliesTo ipAddr events := by
  unfold repliesTo limiterEvents
  rw [List.countP_filter]
  refine List.countP_congr fun e _ => ?_
  rw [Bool.and_eq_true, and_iff_left_iff_imp]
  intro hreply
  cases e <;> first | rfl | cases hreply

theorem repliesTo_eq_zero {ipAddr : UInt32} {events : List Event}
    (h : ∀ e ∈ events, ∀ dst msg2, e ≠ .sendMsg2 dst msg2) :
    repliesTo ipAddr events = 0 := by
  refine List.countP_eq_zero.mpr fun e he hreply => ?_
  cases e with
  | sendMsg2 dst msg2 => exact h _ he dst msg2 rfl
  | _ => cases hreply

/-- If no reply is sent without a check, then every reply takes a token. -/
theorem LimiterTrace.pays {env : Env} {src : SockAddr} {limiter : RateLimiter}
    {trace : List Event} (h : LimiterTrace (askLimiter limiter src env) src trace)
    {clock : Int} (hclock : clock ≤ env.now) (hlimiter : limiter.Sound clock)
    (hasked : ∀ dst msg2, .sendMsg2 dst msg2 ∈ trace →
      .handshakeRateCheck src.addr .ok ∈ trace) (ipAddr : UInt32) :
    (chargeAll env.now limiter trace).level .handshake ipAddr env.now +
        repliesTo ipAddr trace ≤
      limiter.level .handshake ipAddr env.now := by
  have hpays := fun kind =>
    checkRateLimit_pays hlimiter hclock kind .handshake src.addr ipAddr
  cases h with
  | silent => exact le_refl _
  | packet => exact (Nat.le_add_right _ _).trans (hpays .packet)
  | handshake => exact (Nat.le_add_right _ _).trans (hpays .handshake)
  | replied hok msg2 =>
      have hverdict : (checkRateLimit .handshake env.now src.addr limiter).2 = .ok := hok
      refine le_trans (Nat.add_le_add_left ?_ _) (hpays .handshake)
      rw [hverdict]
      unfold repliesTo tokenOf
      by_cases hip : ipAddr = src.addr
      · simp [Event.isReplyTo, hip]
      · simp [Event.isReplyTo, Ne.symm hip]
  | unasked msg2 => cases List.mem_singleton.mp (hasked src msg2 List.mem_cons_self)

/-- The condition on an operation of the server. -/
def PaysAct (na : Sodium) (keys : ServerKeys) (order : Endian) (s : Limited) :
    LimitedAct → Prop
  | .datagram env src buf =>
      PaysForHandshake na keys order (askLimiter s.limiter src env) src buf s.sessions
  | _ => True

theorem limitedStep_pays (na : Sodium) (keys : ServerKeys) (order : Endian) {clock : Int}
    (s : Limited) (act : LimitedAct) (h : s.limiter.Sound clock)
    (hclock : clock ≤ act.time) (hpays : PaysAct na keys order s act) (ipAddr : UInt32) :
    (limitedStep na keys order s act).1.limiter.level .handshake ipAddr act.time +
        repliesTo ipAddr (limitedStep na keys order s act).2 ≤
      s.limiter.level .handshake ipAddr act.time := by
  cases act with
  | datagram env src buf =>
      have hcharged := (charged_iff_paysForHandshake na keys order
        (askLimiter s.limiter src env) src buf s.sessions).mpr hpays
      have htrace := handleInboundUdp_trace na keys order (askLimiter s.limiter src env)
        src buf s.sessions
      have hlevel := htrace.pays hclock h (fun dst msg2 hsent => by
        rw [mem_limiterEvents rfl] at hsent ⊢
        exact hcharged (Or.inr ⟨dst, msg2, hsent⟩)) ipAddr
      rw [chargeAll_limiterEvents, repliesTo_limiterEvents] at hlevel
      exact hlevel
  | free now i =>
      have hnone : repliesTo ipAddr (freeSession i s.sessions).2 = 0 := by
        rw [← repliesTo_limiterEvents, freeSession_limiterEvents]
        rfl
      exact (congrArg _ hnone).le
  | maintenance now =>
      have hnone : repliesTo ipAddr (performMaintenance now s.sessions).2 = 0 := by
        refine repliesTo_eq_zero fun e he dst msg2 hsent => ?_
        rcases performMaintenance_mem he with hclosed | ⟨i, hkeepalive⟩
        · rw [hclosed] at hsent
          cases hsent
        · rw [hkeepalive] at hsent
          cases hsent
      exact (congrArg _ hnone).le
  | rateLimiterCleanup now => exact (rateLimiterCleanup_level h .handshake ipAddr).le
  | blacklistIp now other =>
      exact (blacklistIp_level h hclock other ipAddr .handshake now).le

/-- Under the condition the handshake bucket of an address pays for its replies. -/
theorem limitedStep_budget (na : Sodium) (keys : ServerKeys) (order : Endian)
    (ipAddr : UInt32) :
    Pays (limitedStep na keys order) LimitedAct.time (repliesTo ipAddr)
      (PaysAct na keys order) LimitKind.handshake.limit
      (fun clock s => s.limiter.Sound clock)
      (fun s t => s.limiter.level .handshake ipAddr t) where
  bounded _ t := RateLimiter.level_le t
  later _ _ _ hle := RateLimiter.level_later hle
  wait _ _ _ h hle := h.later hle
  keeps _ s act h hclock _ := limitedStep_sound na keys order s act h hclock
  pays _ s act h hclock hok := limitedStep_pays na keys order s act h hclock hok ipAddr

/-- A call that works or replies was charged to its source, exactly when its handshake pays
for itself. In a run in which every one does, the replies to an address in an interval stay
within the burst and the rate. -/
theorem handshakes_limited_iff (na : Sodium) (keys : ServerKeys) (order : Endian) :
    (∀ (limiter : RateLimiter) (sessions : Sessions) (env : Env) (src : SockAddr)
        (buf : Bytes),
      let asked := askLimiter limiter src env
      let events := (handleInboundUdp na keys order asked src buf sessions).2
      (inboundWork na keys order asked src buf sessions ≠ [] ∨
          (∃ dst msg2, .sendMsg2 dst msg2 ∈ events) →
        .handshakeRateCheck src.addr .ok ∈ events) ↔
        PaysForHandshake na keys order asked src buf sessions) ∧
    ∀ (clock : Int) (acts : List LimitedAct),
      (clock :: acts.map LimitedAct.time).Pairwise (· ≤ ·) →
      Along (limitedStep na keys order) (PaysAct na keys order) (.start clock) acts →
      ∀ (ipAddr : UInt32) (t₁ t₂ : Int), t₁ ≤ t₂ →
        (spent (limitedStep na keys order) LimitedAct.time (repliesTo ipAddr) t₁ t₂
            (.start clock) acts : Int) ≤
          handshakeBurstCapacity + handshakeMaxPerSecond * (t₂ - t₁) := by
  constructor
  · intro limiter sessions env src buf
    exact charged_iff_paysForHandshake na keys order (askLimiter limiter src env) src buf
      sessions
  · intro clock acts hclock hpays ipAddr t₁ t₂ ht
    rw [List.pairwise_cons] at hclock
    have hfrom : ∀ act ∈ acts, clock ≤ act.time := fun act hact =>
      hclock.1 act.time (List.mem_map_of_mem hact)
    exact (limitedStep_budget na keys order ipAddr).spent_le ht acts clock (.start clock)
      (rateLimiterInit_sound clock) hfrom hclock.2 hpays

/-- The handshake of a client at port `port` of the address 1, at time 0. -/
def firstMsg1 (port : UInt16) : LimitedAct :=
  .datagram (Agreement.calmEnv 0 3) ⟨1, port⟩ (Client.clientMsg1 Sodium.xorSodium .little
    ⟨5, 1024, 0, 0⟩ (Agreement.bytewise 5))

theorem handshakes_limited_iff_ports :
    let na := Sodium.xorSodium
    let keys := Agreement.zeroKeys
    let acts := [firstMsg1 2, firstMsg1 3]
    Along (limitedStep na keys .little) (PaysAct na keys .little) (.start 0) acts ∧
      (spent (limitedStep na keys .little) LimitedAct.time (repliesTo 1) 0 3 (.start 0)
        acts : Int) ≤ handshakeBurstCapacity + handshakeMaxPerSecond * (3 - 0) := by
  intro na keys acts
  have hpays : Along (limitedStep na keys .little) (PaysAct na keys .little) (.start 0)
      acts := by
    refine ⟨fun _ hknown => ?_, fun _ hknown => ?_, trivial⟩
    · exact absurd hknown (by decide +kernel)
    · exact absurd hknown (by decide +kernel)
  exact ⟨hpays, (handshakes_limited_iff na keys .little).2 0 acts (by decide) hpays 1 0 3
    (by decide)⟩

/-- A client shakes hands eleven times within one second. From the second time on the
server works and replies without asking the limiter. -/
theorem rehandshakes_not_limited :
    let na := Sodium.xorSodium
    let keys := Agreement.zeroKeys
    let msg1 := Client.clientMsg1 na .little ⟨5, 1024, 0, 0⟩ (Agreement.bytewise 5)
    let asked := askLimiter (rateLimiterInit 0) ⟨1, 2⟩ (Agreement.calmEnv 0 3)
    let events := (handleInboundUdp na keys .little asked ⟨1, 2⟩ msg1
      Agreement.greeted.1).2
    inboundWork na keys .little asked ⟨1, 2⟩ msg1 Agreement.greeted.1 =
        [.keypair, .scalarmult, .scalarmult, .sign] ∧
      repliesTo 1 events = 1 ∧ .handshakeRateCheck 1 .ok ∉ events ∧
      spent (limitedStep na keys .little) LimitedAct.time (repliesTo 1) 0 0 (.start 0)
        (List.replicate 11 (firstMsg1 2)) = 11 := by
  decide +kernel

end Chamlon.Server
