import Mathlib.Tactic
import Chamlon.Server.Isolation
import Chamlon.Server.Traffic

/-!
The loop of the server's `main`, with the workers and the scheduler's threads beside it. A
pass of the loop calls `perform_maintenance` when the last call is five seconds old. That
frees a session whose `last_activity` is more than sixty seconds old, and writes the field
of every session that gets a keepalive, ten seconds after the last one.

`execute_send` may be the one that sends the keepalive, and it does not write the field,
but it does so only for sessions without constant bit rate. For the others the sixty
seconds never pass: what follows holds of them over every run in which no pass is held up
for long.
-/

namespace Chamlon.Server

open Config Memory Machine Reassembly

abbrev cleanupIntervalSec : Int := 5

/-- The table and the queues, `last_cleanup`, the time of the last pass and the last time
that any thread has read. -/
structure Service where
  traffic : Traffic
  lastCleanup : Int
  reading : Int
  clock : Int

def Service.start (now : Int) : Service := ⟨.start, now, now, now⟩

abbrev Service.slot (s : Service) (i : Slot) : Session := s.traffic.sessions i

inductive ServiceAct where
  /-- A pass of the loop, with the time that it reads and the one that
  `perform_maintenance` reads. A wait that is interrupted is no pass. -/
  | pass (now clock : Int)
  /-- A worker takes a datagram. -/
  | inbound (env : Env) (src : SockAddr) (buf : Bytes)
  /-- A worker takes a packet of the TUN device. -/
  | outbound (env : SendEnv) (id : UInt16) (buf : Bytes)
  /-- A thread of the scheduler runs a task. -/
  | executeSend (env : SendEnv) (now : Int) (sessionId : Octets sessionIdLen)

/-- A handshake packet from this address. -/
def ServiceAct.isHandshakeFrom (src : SockAddr) : ServiceAct → Bool
  | .inbound env sender buf => Op.isHandshakeFrom src (.datagram env sender buf)
  | _ => false

/-- Events on the table, with their time. -/
def serviceStep (aead : Aead) (na : Sodium) (keys : ServerKeys) (order : Endian)
    (s : Service) : ServiceAct → Service × List (Int × Event)
  | .pass now clock =>
      if cleanupIntervalSec ≤ now - s.lastCleanup then
        let result := performMaintenance clock s.traffic.sessions
        (⟨⟨result.1, renewQueues result s.traffic.queues⟩, now, now, clock⟩,
          result.2.map fun e => (clock, e))
      else ({ s with reading := now, clock := now }, [])
  | .inbound env src buf =>
      let result := handleInboundUdp na keys order env src buf s.traffic.sessions
      ({ s with
          traffic := ⟨result.1, renewQueues result s.traffic.queues⟩
          clock := env.now },
        result.2.map fun e => (env.now, e))
  | .outbound env id buf =>
      ({ s with traffic := (outboundTraffic aead order env id buf s.traffic).1 }, [])
  | .executeSend env now sessionId =>
      ({ s with
          traffic := (executeSend aead order env now sessionId s.traffic).1
          clock := now }, [])

/-- The clock does not go back, and from the reading of one pass to the maintenance of the
next it moves by `gap` at most. -/
def Steady (gap : Int) (s : Service) : ServiceAct → Prop
  | .pass now clock => s.clock ≤ now ∧ now ≤ clock ∧ clock ≤ s.reading + gap
  | .inbound env _ _ => s.clock ≤ env.now
  | .outbound _ _ _ => True
  | .executeSend _ now _ => s.clock ≤ now

instance (gap : Int) (s : Service) : DecidablePred (Steady gap s)
  | .pass _ _ => inferInstanceAs (Decidable (_ ∧ _ ∧ _))
  | .inbound _ _ _ => inferInstanceAs (Decidable (_ ≤ _))
  | .outbound _ _ _ => inferInstanceAs (Decidable True)
  | .executeSend _ _ _ => inferInstanceAs (Decidable (_ ≤ _))

/-! ## The two times of a slot -/

/-- What a datagram at time `now` does to the two times of a slot: the slot is free, a
handshake has put a session into it, or its session stays with the time of its last
keepalive. -/
inductive Beat (now : Int) (before after : Session) : Prop where
  | free (hfree : after.active = false)
  | fresh (hbefore : before.active = false) (hbeat : after.lastActivityKeepalive = now)
      (hheard : after.lastActivity = now)
  | kept (hactive : after.active = before.active) (hargv : after.argv = before.argv)
      (hbeat : after.lastActivityKeepalive = before.lastActivityKeepalive)
      (hheard : after.lastActivity = before.lastActivity ∨ after.lastActivity = now)

theorem Beat.refl (now : Int) (s : Session) : Beat now s s := .kept rfl rfl rfl (.inl rfl)

section Datagrams

variable (na : Sodium) (keys : ServerKeys) (order : Endian) (env : Env) (src : SockAddr)
  (sessions : Sessions) (j : Slot)

/-- The slot of a first handshake is free in the end or has both times set. -/
theorem msg1InSlot_self (random : Ephemeral) (msg1 : Bytes) (i : Slot) :
    let after := (msg1InSlot na keys order env random msg1 src i sessions).1 i
    after.active = false ∨
      after.lastActivityKeepalive = env.now ∧ after.lastActivity = env.now := by
  rcases msg1InSlot_cases na keys order env random msg1 src i sessions with
    hfreed | ⟨sig, secrets, _, _, hactivated⟩
  · rw [hfreed]
    exact .inl (freeSession_self i _)
  rw [hactivated]
  obtain ⟨events, _, hresult | hresult⟩ := activateSlot_cases env src i secrets _ _
  · rw [hresult]
    exact .inl (freeSession_self i _)
  · rw [hresult, emit_fst]
    dsimp only
    rw [Function.update_self, boundSlots_self]
    exact .inr ⟨rfl, rfl⟩

/-- Every other slot is as before, or loses a session of the same client. -/
theorem msg1InSlot_of_ne (random : Ephemeral) (msg1 : Bytes) {i : Slot} (hj : j ≠ i) :
    let after := (msg1InSlot na keys order env random msg1 src i sessions).1 j
    after = sessions j ∨ after.active = false := by
  have hreserved : Function.update sessions i
      ((sessions i).reserve i (msg1Params order msg1)) j = sessions j :=
    Function.update_of_ne hj _ _
  rcases msg1InSlot_cases na keys order env random msg1 src i sessions with
    hfreed | ⟨sig, secrets, _, _, hactivated⟩
  · rw [hfreed, freeSession_of_ne _ hj]
    exact .inl hreserved
  rw [hactivated]
  generalize Function.update sessions i ((sessions i).reserve i (msg1Params order msg1)) =
    reserved at hreserved
  have hbound : boundSlots env src i secrets reserved j = sessions j ∨
      (boundSlots env src i secrets reserved j).active = false := by
    rcases boundSlots_of_ne env src secrets reserved hj with hsame | ⟨_, hold⟩
    · exact .inl (hsame.trans hreserved)
    · exact .inr (by rw [hold]; rfl)
  obtain ⟨events, _, hresult | hresult⟩ := activateSlot_cases env src i secrets
    (buildMsg2 order (na.kxPublic random.sPriv) random.sNonce (reserved i).vpnIp sig) reserved
  · rw [hresult, emit_fst, freeSession_of_ne _ hj]
    exact hbound
  · rw [hresult, emit_fst]
    dsimp only
    rw [Function.update_of_ne hj]
    exact hbound

theorem handleMsg1_beat (random : Ephemeral) (msg1 : Bytes) :
    Beat env.now (sessions j)
      ((handleMsg1 na keys order env random msg1 src sessions).1 j) := by
  rcases handleMsg1_cases na keys order env random msg1 src sessions with
    ⟨events, _, hrefused⟩ | ⟨events, i, next, _, hallocated, hresult⟩
  · rw [hrefused]
    exact .refl env.now (sessions j)
  obtain ⟨hinactive, hnext⟩ := allocateSession_eq_some hallocated
  rw [hresult, emit_fst]
  by_cases hj : j = i
  · rw [hj]
    rcases msg1InSlot_self na keys order env src next random msg1 i with
      hfree | ⟨hbeat, hheard⟩
    · exact .free hfree
    · exact .fresh hinactive hbeat hheard
  · rcases msg1InSlot_of_ne na keys order env src next j random msg1 hj with hsame | hfree
    · rw [hsame, hnext, Function.update_of_ne hj]
      exact .refl env.now (sessions j)
    · exact .free hfree

theorem handleRehandshakeMsg1_beat (msg1 : Bytes) :
    Beat env.now (sessions j)
      ((handleRehandshakeMsg1 na keys order env msg1 src sessions).1 j) := by
  rcases handleRehandshakeMsg1_cases na keys order env msg1 src sessions with
    hignored | ⟨random, hfirst⟩ | ⟨i, sig, secrets, _, _, _, hrekeyed⟩
  · rw [hignored]
    exact .refl env.now (sessions j)
  · rw [hfirst]
    exact handleMsg1_beat na keys order env src sessions j random msg1
  · rw [hrekeyed]
    dsimp only
    by_cases hj : j = i
    · rw [hj, Function.update_self]
      exact .kept rfl rfl rfl (.inr rfl)
    · rw [Function.update_of_ne hj]
      exact .refl env.now (sessions j)

theorem inboundData_beat (buf : Bytes) :
    Beat env.now (sessions j) ((inboundData na order env buf sessions).1 j) := by
  rcases inboundData_cases na order env buf sessions with
    ⟨_, hnone⟩ | ⟨i, _, ⟨events, _, hrefused⟩ | ⟨plain, _, _, haccepted⟩⟩
  · rw [hnone]
    exact .refl env.now (sessions j)
  · rw [hrefused]
    dsimp only
    by_cases hj : j = i
    · rw [hj, Function.update_self]
      exact .kept rfl rfl rfl (.inr rfl)
    · rw [Function.update_of_ne hj]
      exact .refl env.now (sessions j)
  rw [haccepted, emit_fst]
  rcases inboundAccepted_cases order env i plain (Function.update sessions i
      { sessions i with
        lastActivity := env.now
        rw := (sessions i).rw.updateWindow (pktSeq env buf) }) with
    hfreed | ⟨now, table, events, hnow, hresult, _⟩
  · rw [hfreed]
    by_cases hj : j = i
    · rw [hj]
      exact .free (freeSession_self i _)
    · rw [freeSession_of_ne _ hj, Function.update_of_ne hj]
      exact .refl env.now (sessions j)
  · rw [hresult]
    dsimp only
    by_cases hj : j = i
    · rw [Function.update_self] at hnow
      rw [hj, Function.update_self, Function.update_self]
      exact .kept rfl rfl rfl (.inr (hnow.elim id id))
    · rw [Function.update_of_ne hj, Function.update_of_ne hj]
      exact .refl env.now (sessions j)

theorem handleInboundUdp_beat (buf : Bytes) :
    Beat env.now (sessions j)
      ((handleInboundUdp na keys order env src buf sessions).1 j) := by
  rcases handleInboundUdp_cases na keys order env src buf sessions with
    ⟨_, events, _, hdropped⟩ | ⟨_, ⟨_, hknown⟩ | ⟨_, hunknown⟩⟩ | ⟨_, hdata⟩
  · rw [hdropped]
    exact .refl env.now (sessions j)
  · rw [hknown]
    exact handleRehandshakeMsg1_beat na keys order env src sessions j buf
  · rw [hunknown]
    exact handleMsg1_beat na keys order env src sessions j env.random buf
  · rw [hdata, emit_fst]
    exact inboundData_beat na order env sessions j buf

end Datagrams

/-! ## Sessions are kept alive -/

/-- A session that gets its keepalives: the last one was less than ten seconds before the
last maintenance or later, and `last_activity` is no older. -/
structure Alive (cleanup clock : Int) (s : Session) : Prop where
  past : s.lastActivityKeepalive ≤ clock
  heard : s.lastActivityKeepalive ≤ s.lastActivity
  recent : cleanup < s.lastActivityKeepalive + keepaliveIntervalSec

structure KeptAlive (s : Service) : Prop where
  cleaned : s.lastCleanup ≤ s.clock
  soon : s.reading < s.lastCleanup + cleanupIntervalSec
  alive : ∀ j, (s.slot j).active = true → (s.slot j).argv.cbr = 'Y'.toUInt8 →
    Alive s.lastCleanup s.clock (s.slot j)

theorem keptAlive_start (now : Int) : KeptAlive (.start now) where
  cleaned := le_refl now
  soon := lt_add_of_pos_right now (by decide)
  alive _ hactive := by cases hactive

/-- The sixty seconds are longer than what a keepalive, a period of the maintenance and a
late pass can add up to. -/
theorem Alive.not_expired {cleanup clock now : Int} {s : Session}
    (h : Alive cleanup clock s) (hnow : now < cleanup + cleanupIntervalSec + 47) :
    s.expired now = false := by
  have hheard := h.heard
  have hrecent := h.recent
  have hyoung : ¬sessionTimeoutSec < now - s.lastActivity := by
    unfold keepaliveIntervalSec at hrecent
    unfold cleanupIntervalSec at hnow
    unfold sessionTimeoutSec
    omega
  rw [Session.expired, decide_eq_false hyoung, Bool.and_false]

section Steps

variable {aead : Aead} {na : Sodium} {keys : ServerKeys} {order : Endian} {gap : Int}
  {s : Service}

theorem KeptAlive.in_time (h : KeptAlive s) {clock : Int} (hgap : gap ≤ 47)
    (hclock : clock ≤ s.reading + gap) :
    clock < s.lastCleanup + cleanupIntervalSec + 47 :=
  calc clock ≤ s.reading + gap := hclock
    _ ≤ s.reading + 47 := Int.add_le_add_left hgap _
    _ < s.lastCleanup + cleanupIntervalSec + 47 := Int.add_lt_add_right h.soon _

/-- Maintenance in time frees no session with constant bit rate. -/
theorem KeptAlive.not_expired (h : KeptAlive s) {clock : Int} (hgap : gap ≤ 47)
    (hclock : clock ≤ s.reading + gap) {j : Slot} (hactive : (s.slot j).active = true)
    (hcbr : (s.slot j).argv.cbr = 'Y'.toUInt8) : (s.slot j).expired clock = false :=
  (h.alive j hactive hcbr).not_expired (h.in_time hgap hclock)

theorem KeptAlive.maintained (h : KeptAlive s) {now clock : Int} (hgap : gap ≤ 47)
    (hforward : s.clock ≤ now) (hnow : now ≤ clock) (hclock : clock ≤ s.reading + gap)
    {j : Slot} (hactive : ((performMaintenance clock s.traffic.sessions).1 j).active = true)
    (hcbr : ((performMaintenance clock s.traffic.sessions).1 j).argv.cbr = 'Y'.toUInt8) :
    Alive now clock ((performMaintenance clock s.traffic.sessions).1 j) := by
  have hbefore : (s.slot j).active = true := by
    rcases performMaintenance_cases clock s.traffic.sessions j with hfree | ⟨hbefore, _⟩
    · rw [hfree] at hactive
      cases hactive
    · exact hbefore
  have hargv : (s.slot j).argv.cbr = 'Y'.toUInt8 := by
    cases hexpired : (s.slot j).expired clock with
    | true =>
        rw [(performMaintenance_freed hexpired).active] at hactive
        cases hactive
    | false => exact (congrArg Params.cbr (performMaintenance_same hexpired).argv) ▸ hcbr
  have halive := h.alive j hbefore hargv
  rcases performMaintenance_times (h.not_expired hgap hclock hbefore hargv) with
    ⟨_, hbeat, hheard⟩ | ⟨hdue, hbeat, hheard⟩
  · constructor
    · exact hbeat.le
    · rw [hbeat, hheard]
    · rw [hbeat]
      exact hnow.trans_lt (lt_add_of_pos_right clock (by decide))
  · have hyoung : clock - (s.slot j).lastActivityKeepalive < keepaliveIntervalSec := by
      simpa [Session.keepaliveDue, hbefore] using hdue
    constructor
    · rw [hbeat]
      exact (halive.past.trans hforward).trans hnow
    · rw [hbeat, hheard]
      exact halive.heard
    · rw [hbeat]
      exact hnow.trans_lt (sub_lt_iff_lt_add'.mp hyoung)

theorem KeptAlive.sends (h : KeptAlive s) {t : Traffic} {clock : Int}
    (hclock : s.clock ≤ clock) (hsends : ∀ j, Sends (s.slot j) (t.sessions j)) :
    KeptAlive { s with traffic := t, clock := clock } := by
  refine ⟨h.cleaned.trans hclock, h.soon, fun j hactive hcbr => ?_⟩
  obtain ⟨sendSeq, beat, hafter, hbeat⟩ := hsends j
  dsimp only [Service.slot] at hactive hcbr ⊢
  rw [hafter] at hactive hcbr ⊢
  have halive := h.alive j hactive hcbr
  rw [hbeat hcbr]
  exact ⟨halive.past.trans hclock, halive.heard, halive.recent⟩

theorem serviceStep_keptAlive (hgap : gap ≤ 47) (s : Service) (act : ServiceAct)
    (h : KeptAlive s) (hsteady : Steady gap s act) :
    KeptAlive (serviceStep aead na keys order s act).1 := by
  cases act with
  | pass now clock =>
      obtain ⟨hforward, hnow, hclock⟩ := hsteady
      dsimp only [serviceStep]
      split
      · refine ⟨hnow, lt_add_of_pos_right now (by decide), fun j hactive hcbr => ?_⟩
        exact h.maintained hgap hforward hnow hclock hactive hcbr
      next hearly =>
        refine ⟨h.cleaned.trans hforward, ?_, fun j hactive hcbr => ?_⟩
        · exact sub_lt_iff_lt_add'.mp (not_le.mp hearly)
        · have halive := h.alive j hactive hcbr
          exact ⟨halive.past.trans hforward, halive.heard, halive.recent⟩
  | inbound env src buf =>
      refine ⟨h.cleaned.trans hsteady, h.soon, fun j hactive hcbr => ?_⟩
      have hbeat := handleInboundUdp_beat na keys order env src s.traffic.sessions j buf
      unfold serviceStep Service.slot at hactive hcbr ⊢
      dsimp only at hactive hcbr ⊢
      generalize (handleInboundUdp na keys order env src buf s.traffic.sessions).1 j = after
        at hbeat hactive hcbr ⊢
      cases hbeat with
      | free hfree =>
          rw [hfree] at hactive
          cases hactive
      | fresh _ hbeat hheard =>
          refine ⟨hbeat.le, by rw [hbeat, hheard], ?_⟩
          rw [hbeat]
          exact (h.cleaned.trans hsteady).trans_lt (lt_add_of_pos_right _ (by decide))
      | kept hsame hargv hbeat hheard =>
          rw [hsame] at hactive
          rw [hargv] at hcbr
          have halive := h.alive j hactive hcbr
          refine ⟨?_, ?_, ?_⟩
          · rw [hbeat]
            exact halive.past.trans hsteady
          · rw [hbeat]
            rcases hheard with hheard | hheard
            · exact hheard ▸ halive.heard
            · exact hheard ▸ halive.past.trans hsteady
          · rw [hbeat]
            exact halive.recent
  | outbound env id buf =>
      exact h.sends le_rfl fun j => outboundTraffic_sends aead order env s.traffic j id buf
  | executeSend env now sessionId =>
      exact h.sends hsteady fun j =>
        executeSend_sends aead order env s.traffic j now sessionId

/-- Every state of a steady run. -/
theorem run_keptAlive (hgap : gap ≤ 47) {acts : List ServiceAct} (h : KeptAlive s)
    (hsteady : Along (serviceStep aead na keys order) (Steady gap) s acts) :
    KeptAlive (run (serviceStep aead na keys order) s acts).1 :=
  run_invariant _ _ _ (serviceStep_keptAlive hgap) s acts h hsteady

end Steps

/-! ## The keepalives of a slot -/

/-- When `send_keepalive_to_client` was called for the slot. -/
def beats (i : Slot) (events : List (Int × Event)) : List Int :=
  events.filterMap fun e => if e.2 = .keepaliveSent i then some e.1 else none

@[simp] theorem beats_append (i : Slot) (first second : List (Int × Event)) :
    beats i (first ++ second) = beats i first ++ beats i second :=
  List.filterMap_append

/-- The slot is in use before the step and behind it. -/
def Stays (aead : Aead) (na : Sodium) (keys : ServerKeys) (order : Endian) (i : Slot)
    (s : Service) (act : ServiceAct) : Prop :=
  (s.slot i).active = true ∧ ((serviceStep aead na keys order s act).1.slot i).active = true

instance (aead : Aead) (na : Sodium) (keys : ServerKeys) (order : Endian) (i : Slot)
    (s : Service) (act : ServiceAct) : Decidable (Stays aead na keys order i s act) :=
  inferInstanceAs (Decidable (_ ∧ _))

section Beats

variable {i : Slot}

theorem beats_eq_nil {now : Int} {events : List Event} (h : .keepaliveSent i ∉ events) :
    beats i (events.map fun e => (now, e)) = [] := by
  refine List.filterMap_eq_nil_iff.mpr fun e he => ?_
  obtain ⟨event, hevent, rfl⟩ := List.mem_map.mp he
  exact if_neg fun (hsent : event = .keepaliveSent i) => h (hsent ▸ hevent)

/-- One entry of a list without repetition. -/
theorem flatMap_of_nodup {α β : Type*} {l : List α} {a : α} {f : α → List β}
    (hnodup : l.Nodup) (ha : a ∈ l) (hother : ∀ b, b ≠ a → f b = []) :
    l.flatMap f = f a := by
  induction l with
  | nil => cases ha
  | cons b rest ih =>
      obtain ⟨hfresh, hrest⟩ := List.nodup_cons.mp hnodup
      rw [List.flatMap_cons]
      by_cases hb : b = a
      · subst hb
        have hnone : rest.flatMap f = [] :=
          List.flatMap_eq_nil_iff.mpr fun c hc => hother c (ne_of_mem_of_not_mem hc hfresh)
        rw [hnone, List.append_nil]
      · rw [hother b hb, List.nil_append]
        exact ih hrest ((List.mem_cons.mp ha).resolve_left (Ne.symm hb))

theorem beats_maintenance {now : Int} {sessions : Sessions}
    (h : (sessions i).expired now = false) :
    beats i ((performMaintenance now sessions).2.map fun e => (now, e)) =
      if (sessions i).keepaliveDue now then [now] else [] := by
  have hswept : (sweepSessions now (cleanupExpiredSessions now sessions).1 i).keepaliveDue
      now = (sessions i).keepaliveDue now := by
    simp only [sweepSessions, cleanupExpiredSessions, h, Bool.false_eq_true, if_false]
    rfl
  have hclosed : .keepaliveSent i ∉ (cleanupExpiredSessions now sessions).2 := by
    intro hmem
    obtain ⟨j, _, hj⟩ := List.mem_flatMap.mp hmem
    split at hj
    · cases List.mem_singleton.mp hj
    · cases hj
  unfold performMaintenance
  dsimp only
  rw [emit_snd, List.map_append, beats_append, beats_eq_nil hclosed, List.nil_append]
  unfold sendKeepalives beats
  dsimp only
  rw [List.map_flatMap, List.filterMap_flatMap,
    flatMap_of_nodup (List.nodup_finRange _) (List.mem_finRange i), hswept]
  · split
    · simp
    · rfl
  · intro j hj
    split
    · simp [hj]
    · rfl

theorem keepaliveSent_not_mem (na : Sodium) (keys : ServerKeys) (order : Endian) (env : Env)
    (src : SockAddr) (buf : Bytes) (sessions : Sessions) :
    .keepaliveSent i ∉ (handleInboundUdp na keys order env src buf sessions).2 := by
  have hshakes {events : List Event} (h : Handshaking events) : .keepaliveSent i ∉ events :=
    fun hmem => by cases h _ hmem
  rcases handleInboundUdp_cases na keys order env src buf sessions with
    ⟨_, events, hevents, hdropped⟩ | ⟨_, ⟨_, hagain⟩ | ⟨_, hfirst⟩⟩ | ⟨_, hdata⟩
  · rw [hdropped]
    exact hevents.not_mem rfl
  · rw [hagain]
    exact hshakes (handleRehandshakeMsg1_handshaking na keys order env buf src sessions)
  · rw [hfirst]
    exact hshakes (handleMsg1_handshaking na keys order env env.random buf src sessions)
  · rw [hdata, emit_snd]
    intro hmem
    rcases List.mem_append.mp hmem with hmem | hmem
    · exact (lookupEvents_bookkeeping env src buf).not_mem rfl hmem
    · rcases inboundData_mem hmem with h | ⟨_, _, h⟩ | ⟨_, _, _, h⟩ | ⟨_, h⟩ <;> cases h

variable {aead : Aead} {na : Sodium} {keys : ServerKeys} {order : Endian} {gap : Int}
  {s : Service}

/-- One step of a slot that stays in use: no keepalive, or one that is due and not late. -/
theorem serviceStep_beat (hgap : gap ≤ 47) (h : KeptAlive s) {act : ServiceAct}
    (hsteady : Steady gap s act) (hstays : Stays aead na keys order i s act)
    (hcbr : (s.slot i).argv.cbr = 'Y'.toUInt8) :
    let after := serviceStep aead na keys order s act
    let last := (s.slot i).lastActivityKeepalive
    (after.1.slot i).argv = (s.slot i).argv ∧
      (beats i after.2 = [] ∧ (after.1.slot i).lastActivityKeepalive = last ∨
        ∃ t, beats i after.2 = [t] ∧ (after.1.slot i).lastActivityKeepalive = t ∧
          last + keepaliveIntervalSec ≤ t ∧
          t < last + keepaliveIntervalSec + cleanupIntervalSec + gap) := by
  obtain ⟨hactive, hafter⟩ := hstays
  cases act with
  | pass now clock =>
      obtain ⟨_, _, hclock⟩ := hsteady
      dsimp only [serviceStep]
      split
      · have hexpired := h.not_expired hgap hclock hactive hcbr
        refine ⟨(performMaintenance_same hexpired).argv, ?_⟩
        dsimp only
        rw [beats_maintenance hexpired]
        rcases performMaintenance_times hexpired with ⟨hdue, hbeat, _⟩ | ⟨hdue, hbeat, _⟩
        · rw [hdue, if_pos rfl]
          refine .inr ⟨clock, rfl, hbeat, ?_, ?_⟩
          · have hwaited : keepaliveIntervalSec ≤
                clock - (s.slot i).lastActivityKeepalive := by
              simpa [Session.keepaliveDue, hactive] using hdue
            exact add_le_of_le_sub_left hwaited
          · have hrecent := (h.alive i hactive hcbr).recent
            calc clock ≤ s.reading + gap := hclock
              _ < s.lastCleanup + cleanupIntervalSec + gap := Int.add_lt_add_right h.soon _
              _ < _ := Int.add_lt_add_right (Int.add_lt_add_right hrecent _) _
        · rw [hdue, if_neg Bool.false_ne_true]
          exact .inl ⟨rfl, hbeat⟩
      · exact ⟨rfl, .inl ⟨rfl, rfl⟩⟩
  | inbound env src buf =>
      have hnone : beats i ((handleInboundUdp na keys order env src buf
          s.traffic.sessions).2.map fun e => (env.now, e)) = [] :=
        beats_eq_nil (keepaliveSent_not_mem na keys order env src buf s.traffic.sessions)
      have hbeat := handleInboundUdp_beat na keys order env src s.traffic.sessions i buf
      dsimp only [serviceStep, Service.slot] at hactive hafter ⊢
      generalize (handleInboundUdp na keys order env src buf s.traffic.sessions).1 i = after
        at hafter hbeat ⊢
      cases hbeat with
      | free hfree =>
          rw [hfree] at hafter
          cases hafter
      | fresh hbefore =>
          rw [hbefore] at hactive
          cases hactive
      | kept _ hargv hbeat => exact ⟨hargv, .inl ⟨hnone, hbeat⟩⟩
  | outbound env id buf =>
      have hsends := outboundTraffic_sends aead order env s.traffic i id buf
      exact ⟨hsends.sameSession.argv, .inl ⟨rfl, hsends.beat hcbr⟩⟩
  | executeSend env now sessionId =>
      have hsends := executeSend_sends aead order env s.traffic i now sessionId
      dsimp only [serviceStep, Service.slot] at hcbr ⊢
      exact ⟨hsends.sameSession.argv, .inl ⟨rfl, hsends.beat hcbr⟩⟩

/-- From a state that a steady run can reach. -/
theorem beats_chain (hgap : gap ≤ 47) {acts : List ServiceAct} (h : KeptAlive s)
    (hsteady : Along (serviceStep aead na keys order) (Steady gap) s acts)
    (hstays : Along (serviceStep aead na keys order) (Stays aead na keys order i) s acts)
    (hactive : (s.slot i).active = true) (hcbr : (s.slot i).argv.cbr = 'Y'.toUInt8) :
    let after := run (serviceStep aead na keys order) s acts
    let times := (s.slot i).lastActivityKeepalive :: beats i after.2
    List.IsChain (fun a b => a + keepaliveIntervalSec ≤ b ∧
        b < a + keepaliveIntervalSec + cleanupIntervalSec + gap) times ∧
      after.1.reading < times.getLast (List.cons_ne_nil _ _) + keepaliveIntervalSec +
        cleanupIntervalSec := by
  induction acts generalizing s with
  | nil =>
      exact ⟨.singleton _, h.soon.trans
        (Int.add_lt_add_right (h.alive i hactive hcbr).recent _)⟩
  | cons act rest ih =>
      obtain ⟨hargv, hbeat⟩ := serviceStep_beat hgap h hsteady.1 hstays.1 hcbr
      have hrest := ih (serviceStep_keptAlive hgap s act h hsteady.1) hsteady.2 hstays.2
        hstays.1.2 (by rw [hargv]; exact hcbr)
      intro after times
      rcases hbeat with ⟨hnone, hlast⟩ | ⟨t, hsent, hlast, hdue, hlate⟩
      · have htimes : times = ((serviceStep aead na keys order s act).1.slot
            i).lastActivityKeepalive :: beats i (run (serviceStep aead na keys order)
              (serviceStep aead na keys order s act).1 rest).2 := by
          simp only [times, after, Machine.run, beats_append, hnone, hlast, List.nil_append]
        simp only [htimes]
        exact hrest
      · have htimes : times = (s.slot i).lastActivityKeepalive :: t ::
            beats i (run (serviceStep aead na keys order)
              (serviceStep aead na keys order s act).1 rest).2 := by
          simp only [times, after, Machine.run, beats_append, hsent, List.singleton_append]
        simp only [hlast] at hrest
        simp only [htimes]
        exact ⟨.cons_cons ⟨hdue, hlate⟩ hrest.1, hrest.2⟩

end Beats

/-- Over every run of the server in which the clock does not go back and no pass of the
main loop is held up for more than `gap` seconds, with `gap` at most 47: while a slot holds
a session with constant bit rate, whatever is sent and received, from its handshake or one
keepalive to the next there are at least 10 seconds and less than `15 + gap`, and the last
one is less than 15 seconds older than the last pass. -/
theorem server_keepalive_cadence (aead : Aead) (na : Sodium) (keys : ServerKeys)
    (order : Endian) (now gap : Int) (hgap : gap ≤ 47) (past later : List ServiceAct) (i : Slot)
    (hsteady : Along (serviceStep aead na keys order) (Steady gap) (.start now)
      (past ++ later)) :
    let before := (run (serviceStep aead na keys order) (.start now) past).1
    let after := run (serviceStep aead na keys order) before later
    let times := (before.slot i).lastActivityKeepalive :: beats i after.2
    (before.slot i).active = true → (before.slot i).argv.cbr = 'Y'.toUInt8 →
    Along (serviceStep aead na keys order) (Stays aead na keys order i) before later →
    List.IsChain (fun a b => a + keepaliveIntervalSec ≤ b ∧
        b < a + keepaliveIntervalSec + cleanupIntervalSec + gap) times ∧
      after.1.reading < times.getLast (List.cons_ne_nil _ _) + keepaliveIntervalSec +
        cleanupIntervalSec := by
  intro before after times hactive hcbr hstays
  obtain ⟨hpast, hlater⟩ := (along_append _ _ _ _ _).mp hsteady
  exact beats_chain hgap (run_keptAlive hgap (keptAlive_start now) hpast) hlater hstays
    hactive hcbr

/-- A first handshake of the client `1:2` at time 0, with constant bit rate. -/
def steadyGreeting : ServiceAct :=
  .inbound (Agreement.calmEnv 0 3) ⟨1, 2⟩ (Client.clientMsg1 Sodium.xorSodium .little
    ⟨5, 1024, 'Y'.toUInt8, 'Y'.toUInt8⟩ (Agreement.bytewise 5))

/-- The pass at 6 finds nothing due, the one at 12 does, and the next one is late. -/
theorem server_keepalive_cadence_late :
    let step := serviceStep .plainText Sodium.xorSodium Agreement.zeroKeys .little
    let before := (run step (.start 0) [steadyGreeting]).1
    let after := run step before [.pass 6 6, .pass 12 12, .pass 26 27]
    let times := (before.slot 0).lastActivityKeepalive :: beats 0 after.2
    times = [0, 12, 27] ∧
      List.IsChain (fun a b => a + keepaliveIntervalSec ≤ b ∧
        b < a + keepaliveIntervalSec + cleanupIntervalSec + 20) times ∧
      after.1.reading < times.getLast (List.cons_ne_nil _ _) + keepaliveIntervalSec +
        cleanupIntervalSec := by
  intro step before after times
  refine ⟨by decide +kernel, ?_⟩
  exact server_keepalive_cadence .plainText Sodium.xorSodium Agreement.zeroKeys .little 0 20
    (by decide) [steadyGreeting] [.pass 6 6, .pass 12 12, .pass 26 27] 0 (by decide +kernel)
    (by decide +kernel) (by decide +kernel) (by decide +kernel)

end Chamlon.Server
