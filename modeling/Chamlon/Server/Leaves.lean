import Mathlib.Tactic
import Chamlon.Server.Cases

/-!
What a datagram leaves in one slot. Every handler of the server ends in one of four
ways there: the slot is free, it is as before, a handshake has just put a session
into it, or the datagram was for the session in it.
-/

namespace Chamlon.Server

open Config Memory Reassembly

/-- The slots that a handshake installs keys in. -/
def installedSlots (events : List Event) : List Slot :=
  events.filterMap fun | .installed i _ => some i | _ => none

theorem mem_installedSlots {events : List Event} {i : Slot}
    {sessionId : Octets sessionIdLen} (h : .installed i sessionId ∈ events) :
    i ∈ installedSlots events :=
  List.mem_filterMap.mpr ⟨_, h, rfl⟩

/-- No handshake put a session into the slot. -/
def NotInstalled (j : Slot) (events : List Event) : Prop :=
  ∀ sessionId, .installed j sessionId ∉ events

theorem Bookkeeping.notInstalled {events : List Event} (h : Bookkeeping events)
    (j : Slot) : NotInstalled j events :=
  fun _ => h.not_mem rfl

theorem NotInstalled.append {j : Slot} {first second : List Event}
    (h : NotInstalled j first) (h' : NotInstalled j second) :
    NotInstalled j (first ++ second) :=
  fun sessionId hmem => (List.mem_append.mp hmem).elim (h sessionId) (h' sessionId)

/-- Slot `j` after a call at time `now` that emitted these events; `addressed` says
that the session lookup found the slot. -/
inductive Leaves (now : Int) (j : Slot) (addressed : Prop) (before : Session)
    (events : List Event) (after : Session) : Prop where
  | free (hfree : after.active = false)
  | untouched (hnone : NotInstalled j events) (hsame : after = before)
  | installed (sessionId : Octets sessionIdLen) (hmem : .installed j sessionId ∈ events)
      (hseq : after.sendSeq = 0) (hwindow : after.rw = .zero)
      (hnow : after.lastActivity = now)
  | heard (hnone : NotInstalled j events) (haddressed : addressed)
      (hseq : after.sendSeq = before.sendSeq) (hnow : after.lastActivity = now)

/-- Counting something first, or a wider notion of being addressed. -/
theorem Leaves.emit {now : Int} {j : Slot} {addressed addressed' : Prop}
    {before after : Session} {events first : List Event}
    (h : Leaves now j addressed before events after) (haddressed : addressed → addressed')
    (hfirst : Bookkeeping first) : Leaves now j addressed' before (first ++ events) after := by
  cases h with
  | free hfree => exact .free hfree
  | untouched hnone hsame => exact .untouched ((hfirst.notInstalled j).append hnone) hsame
  | installed sessionId hmem hseq hwindow hnow =>
      exact .installed sessionId (List.mem_append_right first hmem) hseq hwindow hnow
  | heard hnone haddr hseq hnow =>
      exact .heard ((hfirst.notInstalled j).append hnone) (haddressed haddr) hseq hnow

theorem activateSlot_leaves (env : Env) (src : SockAddr) (i : Slot)
    (secrets : Sodium.SessionSecrets) (msg2 : Bytes) (sessions : Sessions)
    (hwindow : (sessions i).rw = .zero) (j : Slot) :
    Leaves env.now j False (sessions j) (activateSlot env src i secrets msg2 sessions).2
      ((activateSlot env src i secrets msg2 sessions).1 j) := by
  obtain ⟨events, hevents, hresult⟩ := activateSlot_cases env src i secrets msg2 sessions
  have hself := boundSlots_self env src i secrets sessions
  have hothers : ∀ j, j ≠ i → boundSlots env src i secrets sessions j = sessions j ∨
      (boundSlots env src i secrets sessions j).active = false := by
    intro j hj
    rcases boundSlots_of_ne env src secrets sessions hj with hsame | ⟨_, hold⟩
    · exact Or.inl hsame
    · exact Or.inr (by rw [hold]; rfl)
  generalize boundSlots env src i secrets sessions = bound at hself hothers hresult
  by_cases hj : j = i
  · rw [hj]
    rcases hresult with hfreed | hsent
    · rw [hfreed]
      exact .free (freeSession_self i bound)
    · have hslot : (activateSlot env src i secrets msg2 sessions).1 i =
          { bound i with lastActivityKeepalive := env.now } := by
        rw [hsent, emit_fst]
        exact Function.update_self ..
      rw [hslot, hself]
      refine .installed secrets.sessionId ?_ rfl hwindow rfl
      rw [hsent]
      exact List.mem_cons_self
  · have hhead : NotInstalled j (.installed i secrets.sessionId :: events) := by
      intro sessionId hmem
      rcases List.mem_cons.mp hmem with hsame | hrest
      · rw [Event.installed.injEq] at hsame
        exact hj hsame.1
      · exact hevents.notInstalled j sessionId hrest
    have hnone : NotInstalled j (activateSlot env src i secrets msg2 sessions).2 := by
      rcases hresult with hfreed | hsent
      · rw [hfreed]
        exact hhead.append ((freeSession_bookkeeping i bound).notInstalled j)
      · rw [hsent]
        exact hhead.append fun sessionId => by simp
    have hslot : (activateSlot env src i secrets msg2 sessions).1 j = bound j := by
      rcases hresult with hfreed | hsent
      · rw [hfreed, emit_fst, freeSession_of_ne bound hj]
      · rw [hsent, emit_fst]
        exact Function.update_of_ne hj _ _
    rw [hslot]
    rcases hothers j hj with hsame | hfree
    · exact .untouched hnone hsame
    · exact .free hfree

theorem handleMsg1_leaves (na : Sodium) (keys : ServerKeys) (order : Endian) (env : Env)
    (random : Ephemeral) (msg1 : Bytes) (src : SockAddr) (sessions : Sessions) (j : Slot) :
    Leaves env.now j False (sessions j)
      (handleMsg1 na keys order env random msg1 src sessions).2
      ((handleMsg1 na keys order env random msg1 src sessions).1 j) := by
  rcases handleMsg1_cases na keys order env random msg1 src sessions with
    ⟨events, hevents, hrefused⟩ | ⟨events, i, next, hevents, hallocated, hresult⟩
  · rw [hrefused]
    exact .untouched (hevents.notInstalled j) rfl
  obtain ⟨hinactive, hnext⟩ := allocateSession_eq_some hallocated
  have hreserved : ∀ j, j ≠ i → Function.update next i
      ((next i).reserve i (msg1Params order msg1)) j = sessions j := by
    intro j hj
    rw [Function.update_of_ne hj, hnext, Function.update_of_ne hj]
  have hslot : Function.update next i ((next i).reserve i (msg1Params order msg1)) i =
      { sessions i with rw := .zero }.reserve i (msg1Params order msg1) := by
    rw [Function.update_self, hnext, Function.update_self]
  rw [hresult, emit_fst, emit_snd]
  refine Leaves.emit ?_ (id : False → False) hevents
  have hcases := msg1InSlot_cases na keys order env random msg1 src i next
  generalize Function.update next i ((next i).reserve i (msg1Params order msg1)) =
    reserved at hcases hreserved hslot
  rcases hcases with hfreed | ⟨sig, secrets, _, _, hactivated⟩
  · rw [hfreed]
    by_cases hj : j = i
    · rw [hj]
      exact .free (freeSession_self i reserved)
    · exact .untouched ((freeSession_bookkeeping i reserved).notInstalled j)
        ((freeSession_of_ne reserved hj).trans (hreserved j hj))
  · have hleaves := activateSlot_leaves env src i secrets (buildMsg2 order
      (na.kxPublic random.sPriv) random.sNonce (reserved i).vpnIp sig) reserved
      (by rw [hslot]; rfl) j
    rw [← hactivated] at hleaves
    by_cases hj : j = i
    · -- The slot was inactive, so "as before" means free.
      cases hleaves with
      | free hfree => exact .free hfree
      | untouched _ hsame =>
          refine .free ?_
          rw [hsame, hj, hslot]
          exact hinactive
      | installed sessionId hmem hseq hzero hnow =>
          exact .installed sessionId hmem hseq hzero hnow
      | heard _ haddressed => exact haddressed.elim
    · rw [hreserved j hj] at hleaves
      exact hleaves

theorem handleRehandshakeMsg1_leaves (na : Sodium) (keys : ServerKeys) (order : Endian)
    (env : Env) (msg1 : Bytes) (src : SockAddr) (sessions : Sessions) (j : Slot) :
    Leaves env.now j False (sessions j)
      (handleRehandshakeMsg1 na keys order env msg1 src sessions).2
      ((handleRehandshakeMsg1 na keys order env msg1 src sessions).1 j) := by
  rcases handleRehandshakeMsg1_cases na keys order env msg1 src sessions with
    hignored | ⟨random, hfirst⟩ | ⟨i, sig, secrets, _, _, _, hrekeyed⟩
  · rw [hignored]
    exact .untouched (fun _ => List.not_mem_nil) rfl
  · rw [hfirst]
    exact handleMsg1_leaves na keys order env random msg1 src sessions j
  · rw [hrekeyed]
    by_cases hj : j = i
    · rw [hj]
      dsimp only
      rw [Function.update_self]
      exact .installed secrets.sessionId List.mem_cons_self rfl rfl rfl
    · refine .untouched (fun sessionId hmem => ?_) (Function.update_of_ne hj _ _)
      have hother : ¬(j = i ∧ sessionId = secrets.sessionId) := fun hsame => hj hsame.1
      split at hmem <;> simp [hother] at hmem

theorem inboundAccepted_leaves (order : Endian) (env : Env) (i : Slot) (plain : Bytes)
    (before sessions : Sessions) (hothers : ∀ j, j ≠ i → sessions j = before j)
    (hseq : (sessions i).sendSeq = (before i).sendSeq)
    (hnow : (sessions i).lastActivity = env.now) (j : Slot) :
    Leaves env.now j (j = i) (before j) (inboundAccepted order env i plain sessions).2
      ((inboundAccepted order env i plain sessions).1 j) := by
  rcases inboundAccepted_cases order env i plain sessions with
    hfreed | ⟨now, table, events, hnow', hresult, hevents⟩
  · rw [hfreed]
    by_cases hj : j = i
    · rw [hj]
      exact .free (freeSession_self i sessions)
    · exact .untouched ((freeSession_bookkeeping i sessions).notInstalled j)
        ((freeSession_of_ne sessions hj).trans (hothers j hj))
  · have hnone : NotInstalled j events := by
      intro sessionId hmem
      rcases hevents _ hmem with ⟨bytes, length, hwrite⟩ | hcopy
      · cases hwrite
      · cases hcopy
    rw [hresult]
    dsimp only
    by_cases hj : j = i
    · rw [hj, Function.update_self]
      refine .heard (hj ▸ hnone) rfl hseq ?_
      rcases hnow' with hsame | hnow'
      · exact hsame.trans hnow
      · exact hnow'
    · rw [Function.update_of_ne hj]
      exact .untouched hnone (hothers j hj)

theorem inboundData_leaves (na : Sodium) (order : Endian) (env : Env) (buf : Bytes)
    (sessions : Sessions) (j : Slot) :
    Leaves env.now j (lookup env buf sessions = some j) (sessions j)
      (inboundData na order env buf sessions).2
      ((inboundData na order env buf sessions).1 j) := by
  rcases inboundData_cases na order env buf sessions with
    ⟨_, hnothing⟩ | ⟨i, hfound, hresult⟩
  · rw [hnothing]
    exact .untouched (bookkeeping_nil.notInstalled j) rfl
  rw [hfound]
  rcases hresult with ⟨events, hevents, hrefused⟩ | ⟨plain, _, _, haccepted⟩
  · rw [hrefused]
    dsimp only
    by_cases hj : j = i
    · rw [hj, Function.update_self]
      exact .heard (hevents.notInstalled i) rfl rfl rfl
    · rw [Function.update_of_ne hj]
      exact .untouched (hevents.notInstalled j) rfl
  · have hleaves := inboundAccepted_leaves order env i plain sessions
      (Function.update sessions i { sessions i with
        lastActivity := env.now
        rw := (sessions i).rw.updateWindow (pktSeq env buf) })
      (fun j hj => Function.update_of_ne hj _ _) (by rw [Function.update_self])
      (by rw [Function.update_self]) j
    rw [haccepted, emit_fst, emit_snd]
    generalize inboundAccepted order env i plain _ = result at hleaves ⊢
    cases hleaves with
    | free hfree => exact .free hfree
    | untouched hnone hsame => exact .untouched (fun sessionId => by simp [hnone sessionId]) hsame
    | installed sessionId hmem hseq hwindow hnow =>
        exact .installed sessionId (List.mem_cons_of_mem _ hmem) hseq hwindow hnow
    | heard hnone haddressed hseq hnow =>
        exact .heard (fun sessionId => by simp [hnone sessionId]) (by rw [haddressed]) hseq hnow

/-- A datagram leaves a slot free or as it was, puts a session into it, or was for
the session in it. -/
theorem handleInboundUdp_leaves (na : Sodium) (keys : ServerKeys) (order : Endian)
    (env : Env) (src : SockAddr) (buf : Bytes) (sessions : Sessions) (j : Slot) :
    Leaves env.now j (ReachesLookup order env buf ∧ lookup env buf sessions = some j)
      (sessions j) (handleInboundUdp na keys order env src buf sessions).2
      ((handleInboundUdp na keys order env src buf sessions).1 j) := by
  rcases handleInboundUdp_cases na keys order env src buf sessions with
    ⟨_, events, hevents, hdropped⟩ | ⟨_, ⟨_, hknown⟩ | ⟨_, hunknown⟩⟩ | ⟨hreaches, hdata⟩
  · rw [hdropped]
    exact .untouched (hevents.notInstalled j) rfl
  · rw [hknown]
    exact (handleRehandshakeMsg1_leaves na keys order env buf src sessions j).emit
      False.elim bookkeeping_nil
  · rw [hunknown]
    exact (handleMsg1_leaves na keys order env env.random buf src sessions j).emit
      False.elim bookkeeping_nil
  · rw [hdata, emit_fst, emit_snd]
    exact (inboundData_leaves na order env buf sessions j).emit
      (fun hfound => ⟨hreaches, hfound⟩) (lookupEvents_bookkeeping env src buf)

/-- The session a handshake has just put into a slot sends from number zero and has
received nothing. -/
theorem handleInboundUdp_installed {na : Sodium} {keys : ServerKeys} {order : Endian}
    {env : Env} {src : SockAddr} {buf : Bytes} {sessions : Sessions} {i : Slot}
    {sessionId : Octets sessionIdLen}
    (hmem : .installed i sessionId ∈
      (handleInboundUdp na keys order env src buf sessions).2)
    (hactive : ((handleInboundUdp na keys order env src buf sessions).1 i).active = true) :
    ((handleInboundUdp na keys order env src buf sessions).1 i).sendSeq = 0 ∧
      ((handleInboundUdp na keys order env src buf sessions).1 i).rw = .zero := by
  cases handleInboundUdp_leaves na keys order env src buf sessions i with
  | free hfree =>
      rw [hfree] at hactive
      cases hactive
  | untouched hnone => exact absurd hmem (hnone sessionId)
  | installed _ _ hseq hwindow => exact ⟨hseq, hwindow⟩
  | heard hnone => exact absurd hmem (hnone sessionId)

/-- `perform_maintenance` on one slot: expiry, sweep and keepalive. -/
theorem performMaintenance_slot (now : Int) (sessions : Sessions) (j : Slot) :
    (performMaintenance now sessions).1 j =
      let cleaned :=
        if (sessions j).expired now then (sessions j).clear else sessions j
      let swept := { cleaned with
        reassemblyTable := sweepReassemblyTable now cleaned.reassemblyTable }
      if swept.keepaliveDue now then
        { swept with
          sendSeq := swept.sendSeq + 1
          lastActivityKeepalive := now
          lastActivity := now }
      else swept :=
  rfl

theorem keepaliveDue_table (now : Int) (s : Session) (table : ReassemblyTable) :
    Session.keepaliveDue now { s with reassemblyTable := table } = s.keepaliveDue now :=
  rfl

/-- The times of a slot that maintenance does not free. -/
theorem performMaintenance_times {now : Int} {sessions : Sessions} {j : Slot}
    (h : (sessions j).expired now = false) :
    let after := (performMaintenance now sessions).1 j
    ((sessions j).keepaliveDue now = true ∧ after.lastActivityKeepalive = now ∧
        after.lastActivity = now) ∨
      ((sessions j).keepaliveDue now = false ∧
        after.lastActivityKeepalive = (sessions j).lastActivityKeepalive ∧
        after.lastActivity = (sessions j).lastActivity) := by
  have hslot := performMaintenance_slot now sessions j
  rw [if_neg (Bool.eq_false_iff.mp h)] at hslot
  dsimp only at hslot
  rw [keepaliveDue_table] at hslot
  cases hdue : (sessions j).keepaliveDue now with
  | true =>
      rw [hdue, if_pos rfl] at hslot
      rw [hslot]
      exact .inl ⟨rfl, rfl, rfl⟩
  | false =>
      rw [hdue, if_neg Bool.false_ne_true] at hslot
      rw [hslot]
      exact .inr ⟨rfl, rfl, rfl⟩

/-- Maintenance leaves a slot free, or it was in use and not expired and keeps its key and
its window. -/
theorem performMaintenance_cases (now : Int) (sessions : Sessions) (j : Slot) :
    ((performMaintenance now sessions).1 j).active = false ∨
    (sessions j).active = true ∧ (sessions j).expired now = false ∧
      ((performMaintenance now sessions).1 j).kRecv = (sessions j).kRecv ∧
      ((performMaintenance now sessions).1 j).rw = (sessions j).rw := by
  rw [performMaintenance_slot]
  cases hexpired : (sessions j).expired now with
  | true => exact Or.inl rfl
  | false =>
      rw [if_neg Bool.false_ne_true]
      dsimp only
      rw [keepaliveDue_table]
      cases hactive : (sessions j).active with
      | false =>
          have hnever : (sessions j).keepaliveDue now = false := by
            simp [Session.keepaliveDue, hactive]
          rw [hnever]
          exact Or.inl rfl
      | true =>
          refine Or.inr ⟨rfl, rfl, ?_⟩
          split
          · exact ⟨rfl, rfl⟩
          · exact ⟨rfl, rfl⟩

end Chamlon.Server
