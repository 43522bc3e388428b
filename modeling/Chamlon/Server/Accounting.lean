import Mathlib
import Chamlon.Lib.Machine
import Chamlon.Server.RateLimited
import Chamlon.Server.SessionTable

/-!
The books of the server: the sessions it has counted as established, less those it has
counted as closed, against the slots in use. Every operation changes both by the same
amount, with one exception. A handshake that has set `active` and then gets no queue, or
cannot send MSG2, frees its slot through `free_session`, which counts a closed connection
that was never counted as established. Nothing makes up for it later.
-/

namespace Chamlon.Server

open Config Memory Machine

/-- `total_connections - total_disconnections` after these events. -/
def connectionBalance (events : List Event) : Int :=
  events.count .connectionEstablished - events.count .connectionClosed

def activeSlots (sessions : Sessions) : Nat :=
  (Finset.univ.filter fun i => (sessions i).active = true).card

@[simp] theorem connectionBalance_append (first second : List Event) :
    connectionBalance (first ++ second) =
      connectionBalance first + connectionBalance second := by
  unfold connectionBalance
  rw [List.count_append, List.count_append]
  omega

theorem connectionBalance_cons (e : Event) (events : List Event) :
    connectionBalance (e :: events) = connectionBalance [e] + connectionBalance events :=
  connectionBalance_append [e] events

theorem connectionBalance_eq_zero {events : List Event}
    (h : .connectionEstablished ∉ events) (h' : .connectionClosed ∉ events) :
    connectionBalance events = 0 := by
  unfold connectionBalance
  rw [List.count_eq_zero_of_not_mem h, List.count_eq_zero_of_not_mem h', sub_self]

/-- The events of a loop over all slots, slot by slot. -/
theorem connectionBalance_flatMap (f : Slot → List Event) :
    connectionBalance ((List.finRange maxClients).flatMap f) =
      ∑ i, connectionBalance (f i) := by
  rw [Fin.sum_univ_def]
  induction List.finRange maxClients with
  | nil => rfl
  | cons i slots ih =>
      rw [List.flatMap_cons, connectionBalance_append, ih, List.map_cons, List.sum_cons]

theorem activeSlots_sum (sessions : Sessions) :
    (activeSlots sessions : Int) = ∑ i, ((sessions i).active.toNat : Int) := by
  unfold activeSlots
  rw [Finset.card_filter, Nat.cast_sum]
  refine Finset.sum_congr rfl fun i _ => ?_
  cases (sessions i).active <;> rfl

/-- The slots in use, when at most one slot changes. -/
theorem activeSlots_change {before after : Sessions} (i : Slot)
    (h : ∀ j, j ≠ i → (after j).active = (before j).active) :
    (activeSlots after : Int) - activeSlots before =
      (after i).active.toNat - (before i).active.toNat := by
  rw [activeSlots_sum, activeSlots_sum, ← Finset.sum_sub_distrib]
  refine Fintype.sum_eq_single i fun j hj => ?_
  rw [h j hj, sub_self]

theorem activeSlots_update (sessions : Sessions) (i : Slot) (s : Session) :
    (activeSlots (Function.update sessions i s) : Int) - activeSlots sessions =
      s.active.toNat - (sessions i).active.toNat := by
  rw [activeSlots_change i fun j hj => by rw [Function.update_of_ne hj],
    Function.update_self]

theorem activeSlots_update_same {sessions : Sessions} {i : Slot} {s : Session}
    (h : s.active = (sessions i).active) :
    activeSlots (Function.update sessions i s) = activeSlots sessions := by
  have hchange := activeSlots_update sessions i s
  rw [h] at hchange
  omega

/-- The events of a call account for its change of the table, up to `slips` sessions that
it has closed and never counted as established. -/
def Accounted (before : Sessions) (slips : Nat) (result : Sessions × List Event) : Prop :=
  connectionBalance result.2 + slips = activeSlots result.1 - (activeSlots before : Int)

theorem Accounted.unchanged {before after : Sessions} {events : List Event}
    (hactive : activeSlots after = activeSlots before)
    (hevents : connectionBalance events = 0) : Accounted before 0 (after, events) := by
  unfold Accounted
  rw [hevents, hactive]
  omega

theorem Accounted.emit {before : Sessions} {slips : Nat} {result : Sessions × List Event}
    (h : Accounted before slips result) {events : List Event}
    (hevents : connectionBalance events = 0) :
    Accounted before slips (emit events result) := by
  unfold Accounted at h ⊢
  rw [emit_fst, emit_snd, connectionBalance_append, hevents, zero_add]
  exact h

theorem Accounted.of_eq {before middle : Sessions} {slips : Nat}
    {result : Sessions × List Event} (h : Accounted middle slips result)
    (hactive : activeSlots middle = activeSlots before) : Accounted before slips result := by
  unfold Accounted at h ⊢
  rwa [← hactive]

theorem freeSession_accounted (i : Slot) (sessions : Sessions) :
    Accounted sessions 0 (freeSession i sessions) := by
  unfold freeSession
  split
  next hactive =>
    have hchange := activeSlots_update sessions i
      { (sessions i).clear with outq := false }
    rw [hactive] at hchange
    exact hchange.symm
  next => exact .unchanged rfl rfl

theorem supersedeOld_accounted (i : Slot) (src : SockAddr) (sessions : Sessions) :
    Accounted sessions 0 (supersedeOld i src sessions) := by
  unfold supersedeOld
  split
  next j hfound =>
    have hj := (Fin.find?_eq_some_iff.mp hfound).1
    simp only [Bool.and_eq_true, bne_iff_ne, beq_iff_eq] at hj
    have hchange := activeSlots_update sessions j (sessions j).supersede
    rw [hj.1.2] at hchange
    exact hchange.symm
  next => exact .unchanged rfl rfl

/-- The queue is allocated and MSG2 goes out. -/
def Env.completes (env : Env) : Bool := env.outqAllocated && env.msg2Sent

/-- The step that `free_session` does not take back: `active` is set in a free slot. -/
theorem activateSlot_accounted (env : Env) (src : SockAddr) {i : Slot}
    (secrets : Sodium.SessionSecrets) (msg2 : Bytes) {sessions : Sessions}
    (hfree : (sessions i).active = false) :
    Accounted sessions (!env.completes).toNat
      (activateSlot env src i secrets msg2 sessions) := by
  have hactivated := activeSlots_update sessions i ((sessions i).activate secrets)
  have hold := supersedeOld_accounted i src
    (Function.update sessions i ((sessions i).activate secrets))
  rw [hfree] at hactivated
  unfold activateSlot Env.completes
  dsimp only
  generalize supersedeOld i src
    (Function.update sessions i ((sessions i).activate secrets)) = superseded at hold ⊢
  have hbound : activeSlots (Function.update superseded.1 i { superseded.1 i with
      clientAddr := src
      lastActivity := env.now
      outq := env.outqAllocated }) = activeSlots superseded.1 :=
    activeSlots_update_same rfl
  generalize Function.update superseded.1 i { superseded.1 i with
    clientAddr := src
    lastActivity := env.now
    outq := env.outqAllocated } = bound at hbound ⊢
  have hfreed := freeSession_accounted i bound
  have hinstalled : connectionBalance [.installed i secrets.sessionId] = 0 := rfl
  have hadded : connectionBalance [.schedulerAdd secrets.sessionId] = 0 := rfl
  have hopened : connectionBalance
      [.sendMsg2 src msg2, .handshakeCompleted, .connectionEstablished] = 1 := rfl
  have hkept : activeSlots (Function.update bound i
      { bound i with lastActivityKeepalive := env.now }) = activeSlots bound :=
    activeSlots_update_same rfl
  dsimp only at hkept
  unfold Accounted at hold hfreed ⊢
  have hset : ((sessions i).activate secrets).active = true := rfl
  rw [hset] at hactivated
  cases env.outqAllocated with
  | false =>
      simp only [Bool.not_false, if_true, emit_fst, emit_snd, connectionBalance_append,
        connectionBalance_cons _ superseded.2, hinstalled, Bool.false_and, Bool.toNat_true,
        Bool.toNat_false] at hactivated ⊢
      omega
  | true =>
      cases env.msg2Sent with
      | false =>
          simp only [Bool.not_false, Bool.not_true, if_true, emit_fst, emit_snd,
            connectionBalance_append, connectionBalance_cons _ superseded.2, hinstalled,
            hadded, Bool.and_false, Bool.toNat_true, Bool.toNat_false,
            Bool.false_eq_true, if_false] at hactivated ⊢
          omega
      | true =>
          simp only [Bool.not_true, emit_fst, emit_snd, connectionBalance_append,
            connectionBalance_cons _ superseded.2, hinstalled, hadded, hopened, Bool.and_self,
            Bool.toNat_true, Bool.toNat_false, Bool.false_eq_true, if_false] at hactivated ⊢
          omega

section Handshakes

variable (na : Sodium) (keys : ServerKeys) (order : Endian) (env : Env) (random : Ephemeral)
  (msg1 : Bytes) (src : SockAddr) (sessions : Sessions)

/-- MSG2 can be signed and the secrets of the session computed. -/
def exchanges : Bool :=
  (na.signDetached keys.signSk (signedBlob (na.kxPublic random.sPriv) random.sNonce
      (msg1Pub msg1) (msg1Nonce msg1))).isSome &&
    (na.serverSecrets random.sPriv keys.serverSk (msg1Pub msg1) (msg1Nonce msg1)
      random.sNonce).isSome

/-- `handle_msg1` gets as far as `s->active = 1`. -/
def activates : Bool :=
  keys.signSkLoaded && decide (env.handshakeVerdict = .ok) &&
    decide (msg1.length = protoHeaderLen + msg1Len + params) &&
    (allocateSession sessions).isSome && exchanges na keys random msg1

/-- The datagram makes `handle_msg1` set up a session and free it again, in place of a
rehandshake too that has failed. -/
def cutShort : Bool :=
  decide (IsMsg1 order msg1) && !env.completes &&
    match sessionByAddr src sessions with
    | none => activates na keys env env.random msg1 sessions
    | some _ => !exchanges na keys env.random msg1 &&
        activates na keys env env.fallback msg1 sessions

variable {sessions} in
theorem msg1InSlot_accounted {i : Slot} (hfree : (sessions i).active = false) :
    Accounted sessions (exchanges na keys random msg1 && !env.completes).toNat
      (msg1InSlot na keys order env random msg1 src i sessions) := by
  have hreserved : activeSlots (Function.update sessions i
      ((sessions i).reserve i (msg1Params order msg1))) = activeSlots sessions :=
    activeSlots_update_same rfl
  have hstill : (Function.update sessions i
      ((sessions i).reserve i (msg1Params order msg1)) i).active = false := by
    rw [Function.update_self]
    exact hfree
  unfold msg1InSlot exchanges
  dsimp only
  generalize Function.update sessions i
    ((sessions i).reserve i (msg1Params order msg1)) = reserved at hreserved hstill ⊢
  cases na.signDetached keys.signSk (signedBlob (na.kxPublic random.sPriv) random.sNonce
      (msg1Pub msg1) (msg1Nonce msg1)) with
  | none => exact (freeSession_accounted i reserved).of_eq hreserved
  | some sig =>
      cases na.serverSecrets random.sPriv keys.serverSk (msg1Pub msg1) (msg1Nonce msg1)
          random.sNonce with
      | none => exact (freeSession_accounted i reserved).of_eq hreserved
      | some secrets =>
          exact (activateSlot_accounted env src secrets _ hstill).of_eq hreserved

theorem handleMsg1_accounted :
    Accounted sessions (activates na keys env random msg1 sessions && !env.completes).toNat
      (handleMsg1 na keys order env random msg1 src sessions) := by
  unfold handleMsg1 activates
  cases keys.signSkLoaded with
  | false => exact .unchanged rfl rfl
  | true =>
      refine Accounted.emit ?_ rfl
      cases env.handshakeVerdict with
      | blacklisted | exceeded => exact .unchanged rfl rfl
      | ok =>
          by_cases hlength : msg1.length = protoHeaderLen + msg1Len + params
          · rw [if_neg (not_not.mpr hlength), decide_eq_true hlength]
            cases hallocated : allocateSession sessions with
            | none => exact .unchanged rfl rfl
            | some allocated =>
                obtain ⟨i, next⟩ := allocated
                obtain ⟨hinactive, hnext⟩ := allocateSession_eq_some hallocated
                have hfree : (next i).active = false := by
                  rw [hnext, Function.update_self]
                  exact hinactive
                have hsame : activeSlots next = activeSlots sessions := by
                  rw [hnext]
                  exact activeSlots_update_same rfl
                exact (msg1InSlot_accounted na keys order env random msg1 src hfree).of_eq
                  hsame
          · rw [if_pos hlength, decide_eq_false hlength]
            exact .unchanged rfl rfl

variable {src sessions} in
theorem handleRehandshakeMsg1_accounted {i : Slot}
    (hknown : sessionByAddr src sessions = some i) :
    Accounted sessions
      (!exchanges na keys env.random msg1 &&
        activates na keys env env.fallback msg1 sessions && !env.completes).toNat
      (handleRehandshakeMsg1 na keys order env msg1 src sessions) := by
  have hfallback := handleMsg1_accounted na keys order env env.fallback msg1 src sessions
  unfold handleRehandshakeMsg1
  split
  next hlength =>
    have hnever : activates na keys env env.fallback msg1 sessions = false := by
      simp [activates, hlength]
    rw [hnever, Bool.and_false]
    exact .unchanged rfl rfl
  next =>
    rw [hknown]
    unfold exchanges
    dsimp only
    cases na.serverSecrets env.random.sPriv keys.serverSk (msg1Pub msg1) (msg1Nonce msg1)
        env.random.sNonce with
    | none =>
        rw [Option.isSome_none, Bool.and_false]
        exact hfallback
    | some secrets =>
        cases na.signDetached keys.signSk (signedBlob (na.kxPublic env.random.sPriv)
            env.random.sNonce (msg1Pub msg1) (msg1Nonce msg1)) with
        | none => exact hfallback
        | some sig =>
            refine .unchanged (activeSlots_update_same rfl) ?_
            split <;> rfl

end Handshakes

theorem inboundAccepted_accounted (order : Endian) (env : Env) (i : Slot) (plain : Bytes)
    (sessions : Sessions) :
    Accounted sessions 0 (inboundAccepted order env i plain sessions) := by
  rcases inboundAccepted_cases order env i plain sessions with
    hfreed | ⟨now, table, events, _, hwritten, hevents⟩
  · rw [hfreed]
    exact freeSession_accounted i sessions
  · rw [hwritten]
    refine .unchanged (activeSlots_update_same rfl) (connectionBalance_eq_zero ?_ ?_)
    · intro hmem
      rcases hevents _ hmem with ⟨_, _, h⟩ | h <;> cases h
    · intro hmem
      rcases hevents _ hmem with ⟨_, _, h⟩ | h <;> cases h

theorem inboundData_accounted (na : Sodium) (order : Endian) (env : Env) (buf : Bytes)
    (sessions : Sessions) : Accounted sessions 0 (inboundData na order env buf sessions) := by
  unfold inboundData
  dsimp only
  split
  next => exact .unchanged rfl rfl
  next i _ =>
    have hmoved : activeSlots (Function.update sessions i
        { sessions i with lastActivity := env.now }) = activeSlots sessions :=
      activeSlots_update_same rfl
    generalize Function.update sessions i
      { sessions i with lastActivity := env.now } = moved at hmoved ⊢
    generalize (buf.length + 2 ^ 64 - dataHeaderLen) % 2 ^ 64 = cipherLen
    split
    next => exact .unchanged hmoved rfl
    next =>
    split
    next => exact .unchanged hmoved rfl
    next =>
    split
    next => exact .unchanged hmoved rfl
    next plain _ =>
    split
    next => exact .unchanged hmoved rfl
    next =>
      have hslid : activeSlots (Function.update moved i
          { moved i with rw := (moved i).rw.updateWindow (pktSeq env buf) }) =
            activeSlots moved :=
        activeSlots_update_same rfl
      have hresult := inboundAccepted_accounted order env i plain (Function.update moved i
        { moved i with rw := (moved i).rw.updateWindow (pktSeq env buf) })
      exact (hresult.of_eq (hslid.trans hmoved)).emit rfl

theorem handleInboundUdp_accounted_of_not (na : Sodium) (keys : ServerKeys) (order : Endian)
    (env : Env) (src : SockAddr) (buf : Bytes) (sessions : Sessions)
    (h : ¬IsMsg1 order buf) :
    Accounted sessions 0 (handleInboundUdp na keys order env src buf sessions) := by
  unfold handleInboundUdp
  split
  · exact .unchanged rfl rfl
  split
  · exact .unchanged rfl rfl
  split
  · exact .unchanged rfl rfl
  next hheader =>
  split
  · exact .unchanged rfl rfl
  refine Accounted.emit ?_ (by split <;> rfl)
  split
  next htype =>
    rw [if_neg fun hlength => h ⟨by simpa using hheader, htype, hlength⟩]
    exact .unchanged rfl rfl
  next =>
    exact (inboundData_accounted na order env buf sessions).emit
      (connectionBalance_eq_zero (by simp) (by simp))

theorem handleInboundUdp_accounted (na : Sodium) (keys : ServerKeys) (order : Endian)
    (env : Env) (src : SockAddr) (buf : Bytes) (sessions : Sessions) :
    Accounted sessions (cutShort na keys order env buf src sessions).toNat
      (handleInboundUdp na keys order env src buf sessions) := by
  unfold cutShort
  by_cases hmsg1 : IsMsg1 order buf
  · rw [decide_eq_true hmsg1, Bool.true_and, Bool.and_comm,
      handleInboundUdp_of_isMsg1 na keys order env src buf sessions hmsg1]
    cases hknown : sessionByAddr src sessions with
    | none => exact handleMsg1_accounted na keys order env env.random buf src sessions
    | some i =>
        rw [if_pos Option.isSome_some]
        exact handleRehandshakeMsg1_accounted na keys order env buf hknown
  · rw [decide_eq_false hmsg1]
    exact handleInboundUdp_accounted_of_not na keys order env src buf sessions hmsg1

theorem performMaintenance_accounted (now : Int) (sessions : Sessions) :
    Accounted sessions 0 (performMaintenance now sessions) := by
  have hsent : connectionBalance (sendKeepalives now (sweepSessions now
      (cleanupExpiredSessions now sessions).1)).2 = 0 := by
    refine connectionBalance_eq_zero ?_ ?_
    · intro hmem
      obtain ⟨i, _, hi⟩ := List.mem_flatMap.mp hmem
      split at hi <;> simp at hi
    · intro hmem
      obtain ⟨i, _, hi⟩ := List.mem_flatMap.mp hmem
      split at hi <;> simp at hi
  have hclosed : connectionBalance (cleanupExpiredSessions now sessions).2 =
      ∑ i, -(((sessions i).expired now).toNat : Int) := by
    unfold cleanupExpiredSessions
    rw [connectionBalance_flatMap]
    refine Finset.sum_congr rfl fun i _ => ?_
    cases (sessions i).expired now <;> rfl
  have hevents : connectionBalance (performMaintenance now sessions).2 =
      ∑ i, -(((sessions i).expired now).toNat : Int) := by
    unfold performMaintenance
    dsimp only
    rw [emit_snd, connectionBalance_append, hsent, hclosed, add_zero]
  unfold Accounted
  rw [activeSlots_sum, activeSlots_sum, ← Finset.sum_sub_distrib, hevents, Nat.cast_zero,
    add_zero]
  refine Finset.sum_congr rfl fun i _ => ?_
  cases hexpired : (sessions i).expired now with
  | true =>
      have hactive : (sessions i).active = true := by
        unfold Session.expired at hexpired
        rw [Bool.and_eq_true] at hexpired
        exact hexpired.1
      rw [(performMaintenance_freed hexpired).active, hactive]
      rfl
  | false =>
      rw [(performMaintenance_same hexpired).active, sub_self]
      rfl

theorem forceClose_accounted (sessions : Sessions) (slots : List Slot) :
    Accounted sessions 0 (run forceClose sessions slots) := by
  induction slots generalizing sessions with
  | nil => exact .unchanged rfl rfl
  | cons i slots ih =>
      have hone : Accounted sessions 0 (forceClose sessions i) := by
        unfold forceClose
        split
        · exact freeSession_accounted i sessions
        · exact .unchanged rfl rfl
      have hrest := ih (forceClose sessions i).1
      unfold Accounted at hone hrest ⊢
      dsimp only [run]
      rw [connectionBalance_append]
      omega

/-- The operation is a handshake that is cut short. -/
def TableOp.cutShort (na : Sodium) (keys : ServerKeys) (order : Endian)
    (sessions : Sessions) : TableOp → Bool
  | .server (.datagram env src buf) => Server.cutShort na keys order env buf src sessions
  | _ => false

theorem tableStep_accounted (na : Sodium) (keys : ServerKeys) (order : Endian)
    (sessions : Sessions) (op : TableOp) :
    Accounted sessions (op.cutShort na keys order sessions).toNat
      (tableStep na keys order sessions op) := by
  cases op with
  | shutdown =>
      rw [tableStep_shutdown]
      exact forceClose_accounted sessions (List.finRange maxClients)
  | server op =>
      cases op with
      | datagram env src buf =>
          exact handleInboundUdp_accounted na keys order env src buf sessions
      | free i => exact freeSession_accounted i sessions
      | maintenance now => exact performMaintenance_accounted now sessions

/-- The slips of a run add up, and there are none exactly if no handshake is cut short. -/
theorem tableRun_accounted (na : Sodium) (keys : ServerKeys) (order : Endian)
    (sessions : Sessions) (ops : List TableOp) :
    ∃ slips, Accounted sessions slips (run (tableStep na keys order) sessions ops) ∧
      (slips = 0 ↔ Along (tableStep na keys order)
        (fun sessions op => op.cutShort na keys order sessions = false) sessions ops) := by
  induction ops generalizing sessions with
  | nil => exact ⟨0, .unchanged rfl rfl, by simp [Along]⟩
  | cons op ops ih =>
      obtain ⟨later, hlater, hnone⟩ := ih (tableStep na keys order sessions op).1
      have hone := tableStep_accounted na keys order sessions op
      refine ⟨(op.cutShort na keys order sessions).toNat + later, ?_, ?_⟩
      · unfold Accounted at hone hlater ⊢
        dsimp only [run]
        rw [connectionBalance_append]
        omega
      · rw [Nat.add_eq_zero_iff, hnone, Along]
        cases op.cutShort na keys order sessions <;> simp

/-- `total_connections - total_disconnections` is the number of slots in use exactly if
no handshake of the run was cut short after it had set `active`. -/
theorem connections_balance (na : Sodium) (keys : ServerKeys) (order : Endian)
    (ops : List TableOp) :
    let final := run (tableStep na keys order) noSessions ops
    connectionBalance final.2 = activeSlots final.1 ↔
      Along (tableStep na keys order)
        (fun sessions op => op.cutShort na keys order sessions = false) noSessions ops := by
  intro final
  obtain ⟨slips, haccounted, hnone⟩ := tableRun_accounted na keys order noSessions ops
  change Accounted noSessions slips final at haccounted
  have hempty : activeSlots noSessions = 0 := by
    unfold activeSlots
    rw [Finset.card_eq_zero]
    exact Finset.filter_eq_empty_iff.mpr fun i _ h => Bool.noConfusion h
  unfold Accounted at haccounted
  rw [hempty] at haccounted
  rw [← hnone]
  constructor
  · intro hbalance
    rw [hbalance] at haccounted
    omega
  · intro hzero
    rw [hzero] at haccounted
    omega

/-- MSG2 cannot be sent: a connection is closed that was never established. -/
theorem closed_never_established :
    let keys : ServerKeys := ⟨Octets.zero 64, true, Octets.zero privkeyLen⟩
    let env : Env := ⟨0, .ok, .ok, ⟨Octets.zero privkeyLen, Octets.zero 8⟩,
      ⟨Octets.zero privkeyLen, Octets.zero 8⟩, true, false, fun _ => 0, fun _ => 0⟩
    let msg1 := buildMsg1 .little (Octets.zero pubkeyLen) (Octets.zero 8) ⟨5, 1024, 78, 78⟩
    let final := run (tableStep Sodium.xorSodium keys .little) noSessions
      [.server (.datagram env ⟨1, 2⟩ msg1)]
    final.2.count .connectionEstablished = 0 ∧ final.2.count .connectionClosed = 1 ∧
      activeSlots final.1 = 0 := by
  decide +kernel

end Chamlon.Server
