import Mathlib.Tactic
import Chamlon.Server.Leaves
import Chamlon.Reassembly.Fragmenter
import Chamlon.Agreement.Honest

/-!
When a silent client loses its slot. `cleanup_expired_sessions` frees a slot whose
`last_activity` is more than sixty seconds old. A handshake and a datagram for the
session write that field, but so does the keepalive loop that follows in the same
`perform_maintenance`, every ten seconds and whether or not the client answers.

Beside the table a run keeps the time at which each slot was last heard of. The field
`last_activity` is no later than that, until a keepalive moves it. After that the slot is
judged by its keepalives, which are ten seconds apart: what they put off is harmless as
long as each goes to a session that was heard of in the fifty seconds before.
-/

namespace Chamlon.Server

open Config Memory Machine Reassembly

/-- `session_by_vpnip`. -/
def sessionByVpnip (ip : Octets 4) (sessions : Sessions) : Option Slot :=
  Fin.find? (fun i => (sessions i).active && (sessions i).vpnIp == ip)

/-- `handle_outbound_tun_buf` as far as the table goes: each fragment takes a number. -/
def sendOutbound (order : Endian) (id : UInt16) (buf : Bytes) (sessions : Sessions) :
    Sessions :=
  if buf.length < 20 then sessions
  else
    match sessionByVpnip (field 4 buf 16) sessions with
    | none => sessions
    | some i =>
        let sent := handleOutboundTunBuf order (sessions i).argv id buf
        Function.update sessions i
          { sessions i with sendSeq := (sessions i).sendSeq + BitVec.ofNat 64 sent.length }

/-- An operation of the server or an outbound packet. -/
inductive Activity where
  | op (op : Op)
  | outbound (id : UInt16) (buf : Bytes)

/-- The table, when each slot was last heard of, and the time. -/
structure Watch where
  sessions : Sessions
  heard : Slot → Option Int
  clock : Int

def Watch.start (clock : Int) : Watch := ⟨noSessions, fun _ => none, clock⟩

section Machine

variable (na : Sodium) (keys : ServerKeys) (order : Endian)

/-- The datagram completes a handshake in the slot or is for the session in it. -/
def HeardOf (env : Env) (src : SockAddr) (buf : Bytes) (sessions : Sessions) (j : Slot) :
    Prop :=
  j ∈ installedSlots (handleInboundUdp na keys order env src buf sessions).2 ∨
    ReachesLookup order env buf ∧ lookup env buf sessions = some j

instance (env : Env) (src : SockAddr) (buf : Bytes) (sessions : Sessions) (j : Slot) :
    Decidable (HeardOf na keys order env src buf sessions j) :=
  inferInstanceAs (Decidable (_ ∨ _))

def watchStep (s : Watch) : Activity → Watch × List Event
  | .op (.datagram env src buf) =>
      (⟨(serverStep na keys order s.sessions (.datagram env src buf)).1,
        fun j => if HeardOf na keys order env src buf s.sessions j then some env.now
          else s.heard j, env.now⟩,
        (serverStep na keys order s.sessions (.datagram env src buf)).2)
  | .op (.maintenance now) =>
      (⟨(serverStep na keys order s.sessions (.maintenance now)).1, s.heard, now⟩,
        (serverStep na keys order s.sessions (.maintenance now)).2)
  | .op (.free i) =>
      (⟨(serverStep na keys order s.sessions (.free i)).1, s.heard, s.clock⟩,
        (serverStep na keys order s.sessions (.free i)).2)
  | .outbound id buf => (⟨sendOutbound order id buf s.sessions, s.heard, s.clock⟩, [])

end Machine

/-- The clock does not go back. -/
def Forward (s : Watch) : Activity → Prop
  | .op (.datagram env _ _) => s.clock ≤ env.now
  | .op (.maintenance now) => s.clock ≤ now
  | _ => True

instance (s : Watch) : DecidablePred (Forward s)
  | .op (.datagram _ _ _) => inferInstanceAs (Decidable (_ ≤ _))
  | .op (.maintenance _) => inferInstanceAs (Decidable (_ ≤ _))
  | .op (.free _) => inferInstanceAs (Decidable True)
  | .outbound _ _ => inferInstanceAs (Decidable True)

/-- The slot was heard of within the timeout less one interval of keepalives. -/
def Watch.HeardLately (s : Watch) (now : Int) (j : Slot) : Prop :=
  ∀ t ∈ s.heard j, now - t ≤ sessionTimeoutSec - keepaliveIntervalSec

instance (s : Watch) (now : Int) (j : Slot) : Decidable (s.HeardLately now j) :=
  inferInstanceAs (Decidable (∀ _ ∈ _, _))

/-- A keepalive has moved `last_activity` past the time the slot was heard of. -/
def Watch.Prolonged (s : Watch) (j : Slot) : Prop :=
  ∃ t ∈ s.heard j, t < (s.sessions j).lastActivity

instance (s : Watch) (j : Slot) : Decidable (s.Prolonged j) :=
  inferInstanceAs (Decidable (∃ _ ∈ _, _))

/-- The slot survives the sweep of `perform_maintenance` and is sent a keepalive. -/
def Watch.SentKeepalive (s : Watch) (now : Int) (j : Slot) : Prop :=
  (s.sessions j).expired now = false ∧ (s.sessions j).keepaliveDue now = true

instance (s : Watch) (now : Int) (j : Slot) : Decidable (s.SentKeepalive now j) :=
  inferInstanceAs (Decidable (_ ∧ _))

/-- Keepalives go only to sessions that were heard of lately. -/
def Attended (s : Watch) : Activity → Prop
  | .op (.maintenance now) => ∀ j, s.SentKeepalive now j → s.HeardLately now j
  | _ => True

instance (s : Watch) : DecidablePred (Attended s)
  | .op (.maintenance _) => inferInstanceAs (Decidable (∀ _, _ → _))
  | .op (.datagram _ _ _) => inferInstanceAs (Decidable True)
  | .op (.free _) => inferInstanceAs (Decidable True)
  | .outbound _ _ => inferInstanceAs (Decidable True)

/-- A slot in use was heard of when its `last_activity` says, or later, or else not long
before its last keepalive. -/
structure Heard (s : Watch) : Prop where
  since : ∀ j, (s.sessions j).active = true →
    ∃ t, s.heard j = some t ∧ ((s.sessions j).lastActivity ≤ t ∨
      (s.sessions j).lastActivityKeepalive - t ≤ sessionTimeoutSec - keepaliveIntervalSec)
  past : ∀ j t, s.heard j = some t → t ≤ s.clock

theorem heard_start (clock : Int) : Heard (.start clock) where
  since _ hactive := by cases hactive
  past _ _ ht := by cases ht

theorem sendOutbound_slot (order : Endian) (id : UInt16) (buf : Bytes) (sessions : Sessions)
    (j : Slot) :
    (sendOutbound order id buf sessions j).active = (sessions j).active ∧
      (sendOutbound order id buf sessions j).lastActivity = (sessions j).lastActivity ∧
      (sendOutbound order id buf sessions j).lastActivityKeepalive =
        (sessions j).lastActivityKeepalive := by
  unfold sendOutbound
  split
  · exact ⟨rfl, rfl, rfl⟩
  cases sessionByVpnip (field 4 buf 16) sessions with
  | none => exact ⟨rfl, rfl, rfl⟩
  | some i =>
      dsimp only
      by_cases hj : j = i
      · rw [hj, Function.update_self]
        exact ⟨rfl, rfl, rfl⟩
      · rw [Function.update_of_ne hj]
        exact ⟨rfl, rfl, rfl⟩

section Steps

variable (na : Sodium) (keys : ServerKeys) (order : Endian) {s : Watch}

theorem Heard.datagram (h : Heard s) (env : Env) (src : SockAddr) (buf : Bytes)
    (hforward : s.clock ≤ env.now) :
    Heard (watchStep na keys order s (.op (.datagram env src buf))).1 := by
  constructor
  · intro j hactive
    unfold watchStep serverStep at hactive ⊢
    dsimp only at hactive ⊢
    have hleaves := handleInboundUdp_leaves na keys order env src buf s.sessions j
    have hnow' : HeardOf na keys order env src buf s.sessions j →
        (if HeardOf na keys order env src buf s.sessions j then some env.now
          else s.heard j) = some env.now := fun hheard => if_pos hheard
    generalize (handleInboundUdp na keys order env src buf s.sessions).1 = after
      at hactive hleaves ⊢
    cases hleaves with
    | free hfree =>
        rw [hfree] at hactive
        cases hactive
    | untouched _ hsame =>
        rw [hsame] at hactive ⊢
        obtain ⟨t, ht, hle⟩ := h.since j hactive
        have hpast := h.past j t ht
        split
        · exact ⟨env.now, rfl, by omega⟩
        · exact ⟨t, ht, hle⟩
    | installed sessionId hmem _ _ hnow =>
        exact ⟨env.now, hnow' (Or.inl (mem_installedSlots hmem)), .inl hnow.le⟩
    | heard _ haddressed _ hnow =>
        exact ⟨env.now, hnow' (Or.inr haddressed), .inl hnow.le⟩
  · intro j t ht
    unfold watchStep at ht ⊢
    dsimp only at ht ⊢
    split at ht
    · rw [Option.some.injEq] at ht
      exact ht.ge
    · exact (h.past j t ht).trans hforward

theorem Heard.maintenance (h : Heard s) (now : Int) (hforward : s.clock ≤ now)
    (hattended : Attended s (.op (.maintenance now))) :
    Heard (watchStep na keys order s (.op (.maintenance now))).1 := by
  refine ⟨fun j hactive => ?_, fun j t ht => (h.past j t ht).trans hforward⟩
  unfold watchStep serverStep at hactive ⊢
  dsimp only at hactive ⊢
  rcases performMaintenance_cases now s.sessions j with hfree | ⟨hbefore, hexpired, _⟩
  · rw [hfree] at hactive
    cases hactive
  obtain ⟨t, ht, hle⟩ := h.since j hbefore
  refine ⟨t, ht, ?_⟩
  obtain ⟨hdue, hkeepalive, _⟩ | ⟨_, hkeepalive, hactivity⟩ :=
    performMaintenance_times hexpired
  · rw [hkeepalive]
    exact .inr (hattended j ⟨hexpired, hdue⟩ t ht)
  · rw [hkeepalive, hactivity]
    exact hle

theorem watchStep_heard (s : Watch) (a : Activity) (h : Heard s)
    (hok : Forward s a ∧ Attended s a) : Heard (watchStep na keys order s a).1 := by
  obtain ⟨hforward, hattended⟩ := hok
  cases a with
  | op op =>
      cases op with
      | datagram env src buf => exact h.datagram na keys order env src buf hforward
      | maintenance now => exact h.maintenance na keys order now hforward hattended
      | free i =>
          refine ⟨fun j hactive => ?_, h.past⟩
          unfold watchStep serverStep at hactive ⊢
          dsimp only at hactive ⊢
          by_cases hj : j = i
          · rw [hj, freeSession_self] at hactive
            cases hactive
          · rw [freeSession_of_ne _ hj] at hactive ⊢
            exact h.since j hactive
  | outbound id buf =>
      refine ⟨fun j hactive => ?_, h.past⟩
      obtain ⟨hsame, hactivity, hkeepalive⟩ := sendOutbound_slot order id buf s.sessions j
      unfold watchStep at hactive ⊢
      dsimp only at hactive ⊢
      rw [hsame] at hactive
      rw [hactivity, hkeepalive]
      exact h.since j hactive

/-- What survives `perform_maintenance` was heard of within the last sixty seconds. -/
theorem Heard.survives (h : Heard s) {now : Int} {j : Slot}
    (hactive : ((performMaintenance now s.sessions).1 j).active = true)
    (hlast : s.SentKeepalive now j → s.Prolonged j → s.HeardLately now j) :
    ∃ t, s.heard j = some t ∧ now - sessionTimeoutSec ≤ t := by
  rcases performMaintenance_cases now s.sessions j with hfree | ⟨hbefore, hexpired, _⟩
  · rw [hfree] at hactive
    cases hactive
  obtain ⟨t, ht, hle⟩ := h.since j hbefore
  refine ⟨t, ht, ?_⟩
  have hrecent : now - (s.sessions j).lastActivity ≤ sessionTimeoutSec := by
    simpa [Session.expired, hbefore] using hexpired
  by_cases hmoved : (s.sessions j).lastActivity ≤ t
  · omega
  have hlately := hle.resolve_left hmoved
  -- The last keepalive is less than ten seconds old, or another one is due.
  cases hdue : (s.sessions j).keepaliveDue now with
  | true =>
      have hheard := hlast ⟨hexpired, hdue⟩ ⟨t, ht, not_le.mp hmoved⟩ t ht
      unfold sessionTimeoutSec keepaliveIntervalSec at *
      omega
  | false =>
      have hsoon : now - (s.sessions j).lastActivityKeepalive < keepaliveIntervalSec := by
        simpa [Session.keepaliveDue, hbefore] using hdue
      omega

/-- After `perform_maintenance` at time `now` every slot in use was heard of within the
last sixty seconds, if no keepalive before went to a session that had not been heard of for
more than fifty. At `now` itself this is asked only of the sessions whose `last_activity` a
keepalive has moved already. -/
theorem idle_sessions_expire (clock : Int) (acts : List Activity) (now : Int)
    (hforward : Along (watchStep na keys order) Forward (.start clock)
      (acts ++ [.op (.maintenance now)]))
    (hattended : Along (watchStep na keys order) Attended (.start clock) acts)
    (hlast : let before := (run (watchStep na keys order) (.start clock) acts).1
      ∀ j, before.SentKeepalive now j → before.Prolonged j → before.HeardLately now j) :
    let final := (run (watchStep na keys order) (.start clock)
      (acts ++ [.op (.maintenance now)])).1
    ∀ i, (final.sessions i).active = true →
      ∃ t, final.heard i = some t ∧ now - sessionTimeoutSec ≤ t := by
  intro final i hactive
  have hearlier := ((along_append _ _ _ _ _).mp hforward).1
  have hheard := run_invariant (watchStep na keys order) _ Heard
    (watchStep_heard na keys order) (.start clock) acts (heard_start clock)
    (Along.and _ hearlier hattended)
  generalize hbefore : (run (watchStep na keys order) (.start clock) acts).1 = before
    at hheard hlast
  have hfinal : final = (watchStep na keys order before (.op (.maintenance now))).1 := by
    simp only [final, run_append, hbefore, run]
  rw [hfinal] at hactive ⊢
  exact hheard.survives hactive (hlast i)

end Steps

/-- A first handshake of the client `1:2` at time 0. -/
def greeting : Activity :=
  .op (.datagram (Agreement.calmEnv 0 3) ⟨1, 2⟩ (Client.clientMsg1 Sodium.xorSodium .little
    ⟨5, 1024, 0, 0⟩ (Agreement.bytewise 5)))

/-- The client greets at time 0 and again at 25; maintenance sends it a keepalive every ten
seconds. -/
def attendedRun : List Activity :=
  [greeting, .op (.maintenance 10), .op (.maintenance 20),
    .op (.datagram (Agreement.calmEnv 25 4) ⟨1, 2⟩ (Client.clientMsg1 Sodium.xorSodium .little
      ⟨5, 1024, 0, 0⟩ (Agreement.bytewise 6))), .op (.maintenance 35)]

/-- A client that is heard of every twenty-five seconds, and its keepalives. -/
theorem idle_sessions_expire_attended :
    let step := watchStep Sodium.xorSodium Agreement.zeroKeys .little
    let before := (run step (.start 0) attendedRun).1
    let final := (run step (.start 0) (attendedRun ++ [.op (.maintenance 45)])).1
    (Along step Forward (.start 0) (attendedRun ++ [.op (.maintenance 45)]) ∧
      Along step Attended (.start 0) attendedRun ∧
      before.Prolonged 0 ∧ before.SentKeepalive 45 0 ∧ (final.sessions 0).active = true) ∧
    ∀ i, (final.sessions i).active = true →
      ∃ t, final.heard i = some t ∧ 45 - sessionTimeoutSec ≤ t := by
  intro step before final
  have hforward : Along step Forward (.start 0) (attendedRun ++ [.op (.maintenance 45)]) := by
    decide +kernel
  have hattended : Along step Attended (.start 0) attendedRun := by decide +kernel
  have hlast : ∀ j, before.SentKeepalive 45 j → before.Prolonged j → before.HeardLately 45 j := by
    decide +kernel
  have hserved : before.Prolonged 0 ∧ before.SentKeepalive 45 0 ∧
      (final.sessions 0).active = true := by decide +kernel
  exact ⟨⟨hforward, hattended, hserved⟩, idle_sessions_expire Sodium.xorSodium
    Agreement.zeroKeys .little 0 attendedRun 45 hforward hattended hlast⟩

/-- Maintenance every ten seconds: the client has been silent for seventy, and its
session is still there. -/
theorem silent_session_stays :
    let acts := greeting :: [10, 20, 30, 40, 50, 60, 70].map fun now =>
      .op (.maintenance now)
    let final := (run (watchStep Sodium.xorSodium Agreement.zeroKeys .little) (.start 0)
      acts).1
    Along (watchStep Sodium.xorSodium Agreement.zeroKeys .little) Forward (.start 0) acts ∧
      (final.sessions 0).active = true ∧ final.heard 0 = some 0 := by
  decide +kernel

end Chamlon.Server
