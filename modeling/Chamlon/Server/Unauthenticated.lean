import Mathlib.Tactic
import Chamlon.Server.Cases
import Chamlon.Agreement.Honest

/-!
What a datagram does that nobody authenticated. `handle_inbound_udp` writes
`last_activity` as soon as the session lookup has found a slot, before `check_replay` and
`aead_decrypt`. It is the only field that a datagram changes without being decrypted.
-/

namespace Chamlon.Server

open Config Memory

/-- `handle_inbound_udp` obtains a successful `aead_decrypt`. -/
def Authenticates (na : Sodium) (order : Endian) (env : Env) (buf : Bytes)
    (sessions : Sessions) : Prop :=
  ReachesLookup order env buf ∧
    ∃ i ∈ lookup env buf sessions, (decrypted na env buf (sessions i)).isSome

instance (na : Sodium) (order : Endian) (env : Env) (buf : Bytes) (sessions : Sessions) :
    Decidable (Authenticates na order env buf sessions) :=
  inferInstanceAs (Decidable (_ ∧ ∃ _ ∈ _, _))

theorem update_lastActivity_eq_self_iff (sessions : Sessions) (i : Slot) (now : Int) :
    Function.update sessions i { sessions i with lastActivity := now } = sessions ↔
      (sessions i).lastActivity = now := by
  constructor
  · intro hsame
    have hslot := congrFun hsame i
    rw [Function.update_self] at hslot
    exact (congrArg Session.lastActivity hslot).symm
  · intro hnow
    rw [← hnow]
    exact Function.update_eq_self i sessions

/-- A datagram that is neither a handshake nor authenticated only counts something, and
it leaves all slots as they are exactly when it finds no session or one whose activity
time is the present. -/
theorem unauthenticated_unchanged_iff (na : Sodium) (keys : ServerKeys) (order : Endian)
    (env : Env) (src : SockAddr) (buf : Bytes) (sessions : Sessions)
    (htype : packetType buf ≠ pktTypeHandshake)
    (hunauth : ¬Authenticates na order env buf sessions) :
    Bookkeeping (handleInboundUdp na keys order env src buf sessions).2 ∧
      ((handleInboundUdp na keys order env src buf sessions).1 = sessions ↔
        (ReachesLookup order env buf → ∀ i ∈ lookup env buf sessions,
          (sessions i).lastActivity = env.now)) := by
  rcases handleInboundUdp_cases na keys order env src buf sessions with
    ⟨hstays, events, hevents, hdropped⟩ | ⟨hhandshake, _⟩ | ⟨hreaches, hdata⟩
  · rw [hdropped]
    exact ⟨hevents, fun _ hreaches => absurd hreaches hstays, fun _ => rfl⟩
  · exact absurd hhandshake.2.1 htype
  rw [hdata, emit_fst, emit_snd, bookkeeping_append]
  rcases inboundData_cases na order env buf sessions with
    ⟨hnone, hnothing⟩ | ⟨i, hfound, ⟨events, hevents, hrefused⟩ | ⟨plain, hplain, _⟩⟩
  · rw [hnothing, hnone]
    refine ⟨⟨lookupEvents_bookkeeping env src buf, bookkeeping_nil⟩, ?_, fun _ => rfl⟩
    intro _ _ i hi
    cases hi
  · rw [hrefused, hfound]
    refine ⟨⟨lookupEvents_bookkeeping env src buf, hevents⟩, ?_⟩
    rw [update_lastActivity_eq_self_iff]
    constructor
    · intro hnow _ j hj
      rw [← Option.mem_some_iff.mp hj]
      exact hnow
    · exact fun h => h hreaches i rfl
  · refine absurd ⟨hreaches, i, hfound, ?_⟩ hunauth
    rw [hplain]
    rfl

/-- Somebody else's datagram with the session id of `Agreement.greeted` and number 0. -/
def sniffedDatagram : Bytes :=
  (protoHeader .little pktTypeData).val ++ (Agreement.greeted.1 0).sessionId.val ++
    (Sodium.seqBytes 0).val ++ [0]

theorem unauthenticated_unchanged_iff_sniffed :
    let na := Sodium.xorSodium
    let env := Agreement.calmEnv 0 3
    let sessions := Agreement.greeted.1
    packetType sniffedDatagram ≠ pktTypeHandshake ∧
      ¬Authenticates na .little env sniffedDatagram sessions ∧
      Bookkeeping (handleInboundUdp na Agreement.zeroKeys .little env ⟨7, 7⟩
        sniffedDatagram sessions).2 ∧
      ((handleInboundUdp na Agreement.zeroKeys .little env ⟨7, 7⟩ sniffedDatagram
          sessions).1 = sessions ↔
        (ReachesLookup .little env sniffedDatagram →
          ∀ i ∈ lookup env sniffedDatagram sessions,
            (sessions i).lastActivity = env.now)) := by
  intro na env sessions
  have htype : packetType sniffedDatagram ≠ pktTypeHandshake := by decide +kernel
  have hunauth : ¬Authenticates na .little env sniffedDatagram sessions := by
    decide +kernel
  exact ⟨htype, hunauth, unauthenticated_unchanged_iff na Agreement.zeroKeys .little env
    ⟨7, 7⟩ sniffedDatagram sessions htype hunauth⟩

/-- Fifty seconds later the datagram is refused, and the session's activity time is the
present. -/
theorem sniffed_datagram_refreshes_session :
    let na := Sodium.xorSodium
    let env := Agreement.calmEnv 50 3
    let sessions := Agreement.greeted.1
    let after := handleInboundUdp na Agreement.zeroKeys .little env ⟨7, 7⟩ sniffedDatagram
      sessions
    packetType sniffedDatagram ≠ pktTypeHandshake ∧
      ¬Authenticates na .little env sniffedDatagram sessions ∧
      (sessions 0).lastActivity = 0 ∧ (after.1 0).lastActivity = 50 := by
  decide +kernel

end Chamlon.Server
