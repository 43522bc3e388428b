import Mathlib.Tactic
import Chamlon.Server.AtMostOnce
import Chamlon.Server.Leaves

/-!
The invariant of the session table over complete operations of the server, the forced
closing at shutdown among them. An operation leaves most slots with the session they had
or without one. A handshake puts a session into one slot, of an address that no other
slot serves: `handle_inbound_udp` asks for such a slot first, and the fallback from a
failed rehandshake drops the older session, which the invariant says is the only one.
-/

namespace Chamlon.Server

open Config Memory Reassembly Machine

/-- The loop of `graceful_shutdown_cleanup` on one slot. -/
def forceClose (sessions : Sessions) (i : Slot) : Sessions × List Event :=
  if (sessions i).active then freeSession i sessions else (sessions, [])

def gracefulShutdownCleanup (sessions : Sessions) : Sessions × List Event :=
  run forceClose sessions (List.finRange maxClients)

/-- The operations on the table. -/
inductive TableOp where
  | server (op : Op)
  | shutdown

def tableStep (na : Sodium) (keys : ServerKeys) (order : Endian) (sessions : Sessions) :
    TableOp → Sessions × List Event
  | .server op => serverStep na keys order sessions op
  | .shutdown => gracefulShutdownCleanup sessions

/-- The allocations of the operation succeed. -/
def TableOp.Allocates : TableOp → Prop
  | .server (.datagram env _ _) => env.outqAllocated = true
  | _ => True

/-- Options as `handle_msg1` lets them pass. -/
structure Params.Valid (argv : Params) : Prop where
  mbps : minMbps ≤ argv.mbps ∧ argv.mbps ≤ maxMbps
  frag : minFragParam ≤ argv.frag ∧ argv.frag ≤ maxFragParam
  cbr : argv.cbr = 'Y'.toUInt8 ∨ argv.cbr = 'N'.toUInt8
  pad : argv.pad = 'Y'.toUInt8 ∨ argv.pad = 'N'.toUInt8

/-- A value that fails its range is replaced by the default, which is in it. -/
theorem range_or_default {low high default value : Int}
    (hdefault : low ≤ default ∧ default ≤ high) :
    low ≤ (if value < low ∨ high < value then default else value) ∧
      (if value < low ∨ high < value then default else value) ≤ high := by
  split
  · exact hdefault
  next hin =>
    rw [not_or] at hin
    omega

theorem flag_or_default (value : UInt8) :
    (if value ≠ 'Y'.toUInt8 ∧ value ≠ 'N'.toUInt8 then 'N'.toUInt8 else value) =
        'Y'.toUInt8 ∨
      (if value ≠ 'Y'.toUInt8 ∧ value ≠ 'N'.toUInt8 then 'N'.toUInt8 else value) =
        'N'.toUInt8 := by
  split
  · exact Or.inr rfl
  next hflag => exact or_iff_not_and_not.mpr hflag

theorem validateParams_valid (argv : Params) : Params.Valid (validateParams argv) where
  mbps := range_or_default (by decide)
  frag := range_or_default (by decide)
  cbr := flag_or_default argv.cbr
  pad := flag_or_default argv.pad

/-- The fields by which the table knows a session. -/
structure SameSession (before after : Session) : Prop where
  active : after.active = before.active
  sessionId : after.sessionId = before.sessionId
  kRecv : after.kRecv = before.kRecv
  kSend : after.kSend = before.kSend
  clientAddr : after.clientAddr = before.clientAddr
  vpnIp : after.vpnIp = before.vpnIp
  argv : after.argv = before.argv
  outq : after.outq = before.outq

/-- A slot without session keeps no secret. -/
structure Wiped (s : Session) : Prop where
  active : s.active = false
  kRecv : s.kRecv = Octets.zero aeadKeyLen
  kSend : s.kSend = Octets.zero aeadKeyLen
  sessionId : s.sessionId = Octets.zero sessionIdLen

/-- A slot in use has the address of its index, options in range and, if allocations
succeed, a queue. A slot not in use is wiped. -/
structure SlotOk (allocated : Bool) (i : Slot) (s : Session) : Prop where
  address : s.active = true → s.vpnIp = vpnIpOf i
  options : s.active = true → Params.Valid s.argv
  queue : allocated = true → s.active = true → s.outq = true
  wiped : s.active = false → Wiped s

structure TableOk (allocated : Bool) (sessions : Sessions) : Prop where
  slot : ∀ i, SlotOk allocated i (sessions i)
  client : ∀ i j, (sessions i).active = true → (sessions j).active = true →
    (sessions i).clientAddr = (sessions j).clientAddr → i = j

theorem SameSession.refl (s : Session) : SameSession s s :=
  ⟨rfl, rfl, rfl, rfl, rfl, rfl, rfl, rfl⟩

theorem SameSession.trans {first second third : Session} (h : SameSession first second)
    (h' : SameSession second third) : SameSession first third :=
  ⟨h'.active.trans h.active, h'.sessionId.trans h.sessionId, h'.kRecv.trans h.kRecv,
    h'.kSend.trans h.kSend, h'.clientAddr.trans h.clientAddr, h'.vpnIp.trans h.vpnIp,
    h'.argv.trans h.argv, h'.outq.trans h.outq⟩

theorem Wiped.slotOk {s : Session} (h : Wiped s) (allocated : Bool) (i : Slot) :
    SlotOk allocated i s where
  address hactive := by rw [h.active] at hactive; cases hactive
  options hactive := by rw [h.active] at hactive; cases hactive
  queue _ hactive := by rw [h.active] at hactive; cases hactive
  wiped _ := h

theorem noSessions_tableOk (allocated : Bool) : TableOk allocated noSessions where
  slot i := Wiped.slotOk ⟨rfl, rfl, rfl, rfl⟩ allocated i
  client _ _ h := Bool.noConfusion h

theorem SlotOk.same {allocated : Bool} {i : Slot} {before after : Session}
    (h : SlotOk allocated i before) (hsame : SameSession before after) :
    SlotOk allocated i after where
  address hactive := by
    rw [hsame.active] at hactive
    exact hsame.vpnIp.trans (h.address hactive)
  options hactive := by
    rw [hsame.active] at hactive
    rw [hsame.argv]
    exact h.options hactive
  queue hallocated hactive := by
    rw [hsame.active] at hactive
    exact hsame.outq.trans (h.queue hallocated hactive)
  wiped hinactive := by
    rw [hsame.active] at hinactive
    have hwiped := h.wiped hinactive
    exact ⟨hsame.active.trans hwiped.active, hsame.kRecv.trans hwiped.kRecv,
      hsame.kSend.trans hwiped.kSend, hsame.sessionId.trans hwiped.sessionId⟩

/-- The slot has the session it had, or none. -/
def Settled (before after : Session) : Prop := SameSession before after ∨ Wiped after

theorem Settled.refl (s : Session) : Settled s s := Or.inl (.refl s)

theorem Settled.trans {first second third : Session} (h : Settled first second)
    (h' : Settled second third) : Settled first third := by
  rcases h' with hsame' | hwiped
  · rcases h with hsame | hwiped
    · exact Or.inl (hsame.trans hsame')
    · exact Or.inr ⟨hsame'.active.trans hwiped.active, hsame'.kRecv.trans hwiped.kRecv,
        hsame'.kSend.trans hwiped.kSend, hsame'.sessionId.trans hwiped.sessionId⟩
  · exact Or.inr hwiped

theorem settled_update {before sessions : Sessions} {i : Slot} {s : Session}
    (hslots : ∀ j, Settled (before j) (sessions j)) (hs : Settled (before i) s)
    (j : Slot) : Settled (before j) (Function.update sessions i s j) := by
  by_cases hj : j = i
  · subst hj
    rwa [Function.update_self]
  · rw [Function.update_of_ne hj]
    exact hslots j

/-- A session that is there afterwards was there before. -/
theorem Settled.was {before after : Session} (h : Settled before after)
    (hactive : after.active = true) : SameSession before after := by
  rcases h with hsame | hwiped
  · exact hsame
  · rw [hwiped.active] at hactive
    cases hactive

theorem TableOk.settled {allocated : Bool} {sessions after : Sessions}
    (h : TableOk allocated sessions) (hslots : ∀ j, Settled (sessions j) (after j)) :
    TableOk allocated after where
  slot i := by
    rcases hslots i with hsame | hwiped
    · exact (h.slot i).same hsame
    · exact hwiped.slotOk allocated i
  client i j hi hj haddr := by
    have hwasi := (hslots i).was hi
    have hwasj := (hslots j).was hj
    exact h.client i j (hwasi.active.symm.trans hi) (hwasj.active.symm.trans hj)
      (by rw [← hwasi.clientAddr, haddr, hwasj.clientAddr])

/-- One slot takes a session of an address that no other slot serves. -/
theorem TableOk.install {allocated : Bool} {sessions after : Sessions}
    (h : TableOk allocated sessions) (i : Slot) (hslot : SlotOk allocated i (after i))
    (hothers : ∀ j, j ≠ i → Settled (sessions j) (after j))
    (halone : ∀ j, j ≠ i → (after j).active = true →
      (after j).clientAddr ≠ (after i).clientAddr) : TableOk allocated after where
  slot j := by
    by_cases hj : j = i
    · rw [hj]
      exact hslot
    rcases hothers j hj with hsame | hwiped
    · exact (h.slot j).same hsame
    · exact hwiped.slotOk allocated j
  client j k hj hk haddr := by
    by_cases hji : j = i
    · by_cases hki : k = i
      · rw [hji, hki]
      · rw [hji] at haddr
        exact absurd haddr.symm (halone k hki hk)
    · by_cases hki : k = i
      · rw [hki] at haddr
        exact absurd haddr (halone j hji hj)
      · have hwasj := (hothers j hji).was hj
        have hwask := (hothers k hki).was hk
        exact h.client j k (hwasj.active.symm.trans hj) (hwask.active.symm.trans hk)
          (by rw [← hwasj.clientAddr, haddr, hwask.clientAddr])

theorem freeSession_settled {before sessions : Sessions} (i : Slot)
    (hslots : ∀ j, Settled (before j) (sessions j)) (j : Slot) :
    Settled (before j) ((freeSession i sessions).1 j) := by
  unfold freeSession
  split
  · exact settled_update hslots (Or.inr ⟨rfl, rfl, rfl, rfl⟩) j
  · exact hslots j

/-- The fields outside of the session's identity. -/
theorem sameSession_traffic (s : Session) (sendSeq : BitVec 64) (table : ReassemblyTable)
    (lastActivity lastActivityKeepalive : Int) (rw : ReplayWindow bitmapWords) :
    SameSession s { s with
      sendSeq := sendSeq
      reassemblyTable := table
      lastActivity := lastActivity
      lastActivityKeepalive := lastActivityKeepalive
      rw := rw } :=
  ⟨rfl, rfl, rfl, rfl, rfl, rfl, rfl, rfl⟩

theorem performMaintenance_freed {now : Int} {sessions : Sessions} {j : Slot}
    (h : (sessions j).expired now = true) :
    Wiped ((performMaintenance now sessions).1 j) := by
  rw [performMaintenance_slot, if_pos h]
  exact ⟨rfl, rfl, rfl, rfl⟩

theorem performMaintenance_same {now : Int} {sessions : Sessions} {j : Slot}
    (h : (sessions j).expired now = false) :
    SameSession (sessions j) ((performMaintenance now sessions).1 j) := by
  rw [performMaintenance_slot, if_neg (Bool.eq_false_iff.mp h)]
  dsimp only
  split
  · exact sameSession_traffic _ _ _ _ _ _
  · exact sameSession_traffic _ _ _ _ _ _

theorem performMaintenance_settled (now : Int) (sessions : Sessions) (j : Slot) :
    Settled (sessions j) ((performMaintenance now sessions).1 j) := by
  cases hexpired : (sessions j).expired now with
  | true => exact Or.inr (performMaintenance_freed hexpired)
  | false => exact Or.inl (performMaintenance_same hexpired)

theorem inboundData_settled (na : Sodium) (order : Endian) (env : Env) (buf : Bytes)
    (sessions : Sessions) (j : Slot) :
    Settled (sessions j) ((inboundData na order env buf sessions).1 j) := by
  have htraffic : ∀ i s, SameSession (sessions i) s →
      ∀ j, Settled (sessions j) (Function.update sessions i s j) := fun i s hs =>
    settled_update (fun j => .refl (sessions j)) (Or.inl hs)
  rcases inboundData_cases na order env buf sessions with
    ⟨_, hnone⟩ | ⟨i, _, ⟨events, _, hrefused⟩ | ⟨plain, _, _, hresult⟩⟩
  · rw [hnone]
    exact .refl (sessions j)
  · rw [hrefused]
    exact htraffic i _ (sameSession_traffic _ _ _ _ _ _) j
  · rw [hresult, emit_fst]
    generalize hmoved : Function.update sessions i { sessions i with
      lastActivity := env.now
      rw := (sessions i).rw.updateWindow (pktSeq env buf) } = moved
    have hslots : ∀ j, Settled (sessions j) (moved j) := by
      rw [← hmoved]
      exact htraffic i _ (sameSession_traffic _ _ _ _ _ _)
    rcases inboundAccepted_cases order env i plain moved with
      hfreed | ⟨now, table, events, _, hwritten, _⟩
    · rw [hfreed]
      exact freeSession_settled i hslots j
    · rw [hwritten]
      exact settled_update hslots
        ((hslots i).trans (Or.inl (sameSession_traffic _ _ _ _ _ _))) j

section Handshakes

variable {sessions : Sessions} {env : Env} {src : SockAddr} {i : Slot}

/-- `handle_msg1` leaves every slot with the session it had or without one, or it gets as
far as the key derivation, in a slot that was free and now has the address of its index
and the options of MSG1. -/
theorem handleMsg1_opens (na : Sodium) (keys : ServerKeys) (order : Endian) (env : Env)
    (random : Ephemeral) (msg1 : Bytes) (src : SockAddr) {sessions : Sessions}
    (hwiped : ∀ j, (sessions j).active = false → Wiped (sessions j)) :
    (∀ j, Settled (sessions j)
        ((handleMsg1 na keys order env random msg1 src sessions).1 j)) ∨
      ∃ events i secrets msg2 reserved, Bookkeeping events ∧
        handleMsg1 na keys order env random msg1 src sessions =
          emit events (activateSlot env src i secrets msg2 reserved) ∧
        (∀ j, j ≠ i → reserved j = sessions j) ∧
        reserved i = { sessions i with rw := .zero }.reserve i (msg1Params order msg1) := by
  rcases handleMsg1_cases na keys order env random msg1 src sessions with
    ⟨_, _, hrefused⟩ | ⟨events, i, next, hevents, hallocated, hresult⟩
  · rw [hrefused]
    exact Or.inl fun j => .refl (sessions j)
  obtain ⟨hinactive, hnext⟩ := allocateSession_eq_some hallocated
  have hothers : ∀ j, j ≠ i → Function.update next i
      ((next i).reserve i (msg1Params order msg1)) j = sessions j := by
    intro j hj
    rw [Function.update_of_ne hj, hnext, Function.update_of_ne hj]
  have hslot : Function.update next i ((next i).reserve i (msg1Params order msg1)) i =
      { sessions i with rw := .zero }.reserve i (msg1Params order msg1) := by
    rw [Function.update_self, hnext, Function.update_self]
  rw [hresult]
  rcases msg1InSlot_cases na keys order env random msg1 src i next with
    hfreed | ⟨sig, secrets, _, _, hactivated⟩
  · have hkept : ∀ j, Settled (sessions j) (Function.update next i
        ((next i).reserve i (msg1Params order msg1)) j) := by
      intro j
      by_cases hj : j = i
      · have hfree := hwiped i hinactive
        rw [hj, hslot]
        exact Or.inr ⟨hfree.active, hfree.kRecv, hfree.kSend, hfree.sessionId⟩
      · rw [hothers j hj]
        exact .refl (sessions j)
    rw [hfreed]
    exact Or.inl (freeSession_settled i hkept)
  · rw [hactivated]
    exact Or.inr ⟨events, i, secrets, _, _, hevents, rfl, hothers, hslot⟩

/-- When one slot at most serves the client, none other than `i` does after the scan of
`handle_msg1`. -/
theorem supersedeOld_alone (hone : ∀ j k, j ≠ i → k ≠ i → (sessions j).active = true →
      (sessions k).active = true → (sessions j).clientAddr = src →
      (sessions k).clientAddr = src → j = k)
    (j : Slot) (hj : j ≠ i)
    (hactive : ((supersedeOld i src sessions).1 j).active = true) :
    ((supersedeOld i src sessions).1 j).clientAddr ≠ src := by
  unfold supersedeOld at hactive ⊢
  split
  next k hfound =>
    rw [hfound] at hactive
    have hk := (Fin.find?_eq_some_iff.mp hfound).1
    simp only [Bool.and_eq_true, bne_iff_ne, beq_iff_eq] at hk
    dsimp only at hactive ⊢
    by_cases hjk : j = k
    · rw [hjk, Function.update_self] at hactive
      cases hactive
    · rw [Function.update_of_ne hjk] at hactive ⊢
      exact fun haddr => hjk (hone j k hj hk.1.1 hactive hk.1.2 haddr hk.2)
  next hnone =>
    rw [hnone] at hactive
    have hscan := Fin.find?_eq_none_iff.mp hnone j
    dsimp only at hactive ⊢
    intro haddr
    simp [hj, hactive, haddr] at hscan

theorem boundSlots_settled (secrets : Sodium.SessionSecrets) (j : Slot) (hj : j ≠ i) :
    Settled (sessions j) (boundSlots env src i secrets sessions j) := by
  rcases boundSlots_of_ne env src secrets sessions hj with hsame | ⟨_, hold⟩
  · rw [hsame]
    exact .refl (sessions j)
  · rw [hold]
    exact Or.inr ⟨rfl, rfl, rfl, rfl⟩

theorem boundSlots_alone (secrets : Sodium.SessionSecrets)
    (hclient : ∀ j k, j ≠ i → k ≠ i → (sessions j).active = true →
      (sessions k).active = true → (sessions j).clientAddr = (sessions k).clientAddr →
      j = k) (j : Slot) (hj : j ≠ i)
    (hactive : (boundSlots env src i secrets sessions j).active = true) :
    (boundSlots env src i secrets sessions j).clientAddr ≠ src := by
  unfold boundSlots at hactive ⊢
  dsimp only at hactive ⊢
  rw [Function.update_of_ne hj] at hactive ⊢
  refine supersedeOld_alone ?_ j hj hactive
  intro k l hk hl hactivek hactivel haddrk haddrl
  rw [Function.update_of_ne hk] at hactivek haddrk
  rw [Function.update_of_ne hl] at hactivel haddrl
  exact hclient k l hk hl hactivek hactivel (haddrk.trans haddrl.symm)

/-- The other slots after the key derivation. -/
theorem activateSlot_settled (env : Env) (src : SockAddr) (secrets : Sodium.SessionSecrets)
    (msg2 : Bytes) (sessions : Sessions) (j : Slot) (hj : j ≠ i) :
    Settled (sessions j) ((activateSlot env src i secrets msg2 sessions).1 j) := by
  obtain ⟨events, _, hfreed | hsent⟩ := activateSlot_cases env src i secrets msg2 sessions
  · rw [hfreed, emit_fst, freeSession_of_ne _ hj]
    exact boundSlots_settled secrets j hj
  · rw [hsent, emit_fst]
    dsimp only
    rw [Function.update_of_ne hj]
    exact boundSlots_settled secrets j hj

/-- From the key derivation on, in a slot that was reserved. -/
theorem activateSlot_tableOk {allocated : Bool} {before : Sessions}
    (secrets : Sodium.SessionSecrets) (msg2 : Bytes)
    (hmalloc : allocated = true → env.outqAllocated = true) (h : TableOk allocated before)
    (hothers : ∀ j, j ≠ i → sessions j = before j)
    (haddress : (sessions i).vpnIp = vpnIpOf i) (hoptions : Params.Valid (sessions i).argv) :
    TableOk allocated (activateSlot env src i secrets msg2 sessions).1 := by
  obtain ⟨events, _, hresult⟩ := activateSlot_cases env src i secrets msg2 sessions
  have hself := boundSlots_self env src i secrets sessions
  have hsettled : ∀ j, j ≠ i →
      Settled (before j) (boundSlots env src i secrets sessions j) := by
    intro j hj
    rw [← hothers j hj]
    exact boundSlots_settled secrets j hj
  have halone : ∀ j, j ≠ i → (boundSlots env src i secrets sessions j).active = true →
      (boundSlots env src i secrets sessions j).clientAddr ≠ src := by
    refine boundSlots_alone secrets fun j k hj hk => ?_
    rw [hothers j hj, hothers k hk]
    exact h.client j k
  generalize boundSlots env src i secrets sessions = bound at hself hsettled halone hresult
  have hbound : TableOk allocated bound := by
    refine h.install i ?_ hsettled (fun j hj hactive => ?_)
    · rw [hself]
      exact ⟨fun _ => haddress, fun _ => hoptions, fun hallocated _ => hmalloc hallocated,
        fun hinactive => Bool.noConfusion hinactive⟩
    · rw [hself]
      exact halone j hj hactive
  rcases hresult with hfreed | hsent
  · rw [hfreed, emit_fst]
    exact hbound.settled (freeSession_settled i fun j => .refl (bound j))
  · rw [hsent, emit_fst]
    exact hbound.settled (settled_update (fun j => .refl (bound j))
      (Or.inl (sameSession_traffic _ _ _ _ _ _)))

theorem handleMsg1_tableOk {allocated : Bool} (na : Sodium) (keys : ServerKeys)
    (order : Endian) (random : Ephemeral) (msg1 : Bytes)
    (hmalloc : allocated = true → env.outqAllocated = true)
    (h : TableOk allocated sessions) :
    TableOk allocated (handleMsg1 na keys order env random msg1 src sessions).1 := by
  rcases handleMsg1_opens na keys order env random msg1 src
      (fun j => (h.slot j).wiped) with
    hsettled | ⟨_, i, secrets, msg2, reserved, _, hresult, hothers, hslot⟩
  · exact h.settled hsettled
  · rw [hresult, emit_fst]
    refine activateSlot_tableOk secrets msg2 hmalloc h hothers ?_ ?_
    · rw [hslot]
      rfl
    · rw [hslot]
      exact validateParams_valid _

theorem handleRehandshakeMsg1_tableOk {allocated : Bool} (na : Sodium) (keys : ServerKeys)
    (order : Endian) (msg1 : Bytes)
    (hmalloc : allocated = true → env.outqAllocated = true)
    (h : TableOk allocated sessions) :
    TableOk allocated (handleRehandshakeMsg1 na keys order env msg1 src sessions).1 := by
  rcases handleRehandshakeMsg1_cases na keys order env msg1 src sessions with
    hignored | ⟨random, hfirst⟩ | ⟨i, sig, secrets, hfound, _, _, hrekeyed⟩
  · rw [hignored]
    exact h
  · rw [hfirst]
    exact handleMsg1_tableOk na keys order random msg1 hmalloc h
  · have hactive := (sessionByAddr_eq_some hfound).1
    have hslot := h.slot i
    rw [hrekeyed]
    refine h.install i ?_ (fun j hj => ?_) (fun j hj hactivej => ?_)
    · dsimp only
      rw [Function.update_self]
      refine ⟨fun _ => hslot.address hactive, fun _ => hslot.options hactive,
        fun hallocated _ => hmalloc hallocated, fun hinactive => ?_⟩
      rw [Session.rekey, hactive] at hinactive
      cases hinactive
    · dsimp only
      rw [Function.update_of_ne hj]
      exact .refl (sessions j)
    · dsimp only at hactivej ⊢
      rw [Function.update_of_ne hj] at hactivej ⊢
      rw [Function.update_self]
      exact fun haddr => hj (h.client j i hactivej hactive haddr)

end Handshakes

theorem forceClose_run (sessions : Sessions) (slots : List Slot) :
    (∀ j, Settled (sessions j) ((run forceClose sessions slots).1 j)) ∧
      (∀ j, QuietAt (sessions j) ((run forceClose sessions slots).1 j)) ∧
      Silent (run forceClose sessions slots).2 := by
  refine run_history forceClose (fun _ _ => True)
    (fun past after => (∀ j, Settled (sessions j) (after j)) ∧
      (∀ j, QuietAt (sessions j) (after j)) ∧ Silent past)
    (fun past after i h _ => ?_) [] sessions slots
    ⟨fun j => .refl (sessions j), fun j => .refl (sessions j), rfl, rfl⟩
    (Along.of_forall _ (fun _ => True) _ _ fun _ _ => trivial)
  obtain ⟨hslots, hquiet, hinstalled, haccepted⟩ := h
  unfold forceClose
  split
  · obtain ⟨hnone, hnone'⟩ := (freeSession_bookkeeping i after).silent
    exact ⟨freeSession_settled i hslots,
      fun j => (hquiet j).trans (freeSession_quietAt i after j),
      by rw [installedIds_append, hinstalled, hnone]; rfl,
      by rw [acceptedPairs_append, haccepted, hnone']; rfl⟩
  · rw [List.append_nil]
    exact ⟨hslots, hquiet, hinstalled, haccepted⟩

theorem gracefulShutdownCleanup_settled (sessions : Sessions) :
    (∀ j, Settled (sessions j) ((gracefulShutdownCleanup sessions).1 j)) ∧
      (∀ j, QuietAt (sessions j) ((gracefulShutdownCleanup sessions).1 j)) ∧
      Silent (gracefulShutdownCleanup sessions).2 :=
  forceClose_run sessions (List.finRange maxClients)

theorem tableStep_shutdown (na : Sodium) (keys : ServerKeys) (order : Endian)
    (sessions : Sessions) :
    tableStep na keys order sessions .shutdown = gracefulShutdownCleanup sessions := by
  rw [tableStep]

theorem tableStep_effect (na : Sodium) (keys : ServerKeys) (order : Endian)
    (sessions : Sessions) (op : TableOp) :
    Effect sessions (tableStep na keys order sessions op) := by
  cases op with
  | server op => exact serverStep_effect na keys order sessions op
  | shutdown =>
      obtain ⟨_, hquiet, hsilent⟩ := gracefulShutdownCleanup_settled sessions
      rw [tableStep_shutdown]
      exact .of_quiet _ hquiet hsilent

theorem tableStep_tableOk {allocated : Bool} (na : Sodium) (keys : ServerKeys)
    (order : Endian) {sessions : Sessions} (h : TableOk allocated sessions) (op : TableOp)
    (hmalloc : allocated = true → op.Allocates) :
    TableOk allocated (tableStep na keys order sessions op).1 := by
  cases op with
  | server op =>
      cases op with
      | datagram env src buf =>
          dsimp only [tableStep, serverStep]
          rcases handleInboundUdp_cases na keys order env src buf sessions with
            ⟨_, events, _, hdropped⟩ | ⟨_, ⟨_, hknown⟩ | ⟨_, hunknown⟩⟩ | ⟨_, hdata⟩
          · rw [hdropped]
            exact h
          · rw [hknown]
            exact handleRehandshakeMsg1_tableOk na keys order buf hmalloc h
          · rw [hunknown]
            exact handleMsg1_tableOk na keys order env.random buf hmalloc h
          · rw [hdata, emit_fst]
            exact h.settled (inboundData_settled na order env buf sessions)
      | free i => exact h.settled (freeSession_settled i fun j => .refl (sessions j))
      | maintenance now => exact h.settled (performMaintenance_settled now sessions)
  | shutdown =>
      rw [tableStep_shutdown]
      exact h.settled (gracefulShutdownCleanup_settled sessions).1

theorem activateSlot_installed (env : Env) (src : SockAddr) (i : Slot)
    (secrets : Sodium.SessionSecrets) (msg2 : Bytes) (sessions : Sessions) :
    .installed i secrets.sessionId ∈ (activateSlot env src i secrets msg2 sessions).2 := by
  obtain ⟨events, _, hfreed | hsent⟩ := activateSlot_cases env src i secrets msg2 sessions
  · rw [hfreed]
    exact List.mem_cons_self
  · rw [hsent]
    exact List.mem_cons_self

theorem handleMsg1_settled (na : Sodium) (keys : ServerKeys) (order : Endian) (env : Env)
    (random : Ephemeral) (msg1 : Bytes) (src : SockAddr) {sessions : Sessions}
    (hwiped : ∀ j, (sessions j).active = false → Wiped (sessions j)) (j : Slot)
    (hnone : NotInstalled j (handleMsg1 na keys order env random msg1 src sessions).2) :
    Settled (sessions j) ((handleMsg1 na keys order env random msg1 src sessions).1 j) := by
  rcases handleMsg1_opens na keys order env random msg1 src hwiped with
    hsettled | ⟨events, i, secrets, msg2, reserved, _, hresult, hothers, _⟩
  · exact hsettled j
  · rw [hresult] at hnone ⊢
    have hj : j ≠ i := by
      intro hj
      rw [hj] at hnone
      exact hnone _ (List.mem_append_right events
        (activateSlot_installed env src i secrets msg2 reserved))
    rw [emit_fst, ← hothers j hj]
    exact activateSlot_settled env src secrets msg2 reserved j hj

/-- A slot that no handshake installed keys in has the session it had, or none. -/
theorem tableStep_settled (na : Sodium) (keys : ServerKeys) (order : Endian)
    {sessions : Sessions} (hwiped : ∀ j, (sessions j).active = false → Wiped (sessions j))
    (op : TableOp) (j : Slot)
    (hnone : NotInstalled j (tableStep na keys order sessions op).2) :
    Settled (sessions j) ((tableStep na keys order sessions op).1 j) := by
  cases op with
  | server op =>
      cases op with
      | datagram env src buf =>
          dsimp only [tableStep, serverStep] at hnone ⊢
          rcases handleInboundUdp_cases na keys order env src buf sessions with
            ⟨_, events, _, hdropped⟩ | ⟨_, ⟨_, hknown⟩ | ⟨_, hunknown⟩⟩ | ⟨_, hdata⟩
          · rw [hdropped]
            exact .refl (sessions j)
          · rw [hknown] at hnone ⊢
            rcases handleRehandshakeMsg1_cases na keys order env buf src sessions with
              hignored | ⟨random, hfirst⟩ | ⟨i, sig, secrets, _, _, _, hrekeyed⟩
            · rw [hignored]
              exact .refl (sessions j)
            · rw [hfirst] at hnone ⊢
              exact handleMsg1_settled na keys order env random buf src hwiped j hnone
            · rw [hrekeyed] at hnone ⊢
              have hj : j ≠ i := by
                intro hj
                rw [hj] at hnone
                exact hnone _ List.mem_cons_self
              dsimp only
              rw [Function.update_of_ne hj]
              exact .refl (sessions j)
          · rw [hunknown] at hnone ⊢
            exact handleMsg1_settled na keys order env env.random buf src hwiped j hnone
          · rw [hdata, emit_fst]
            exact inboundData_settled na order env buf sessions j
      | free i => exact freeSession_settled i (fun j => .refl (sessions j)) j
      | maintenance now => exact performMaintenance_settled now sessions j
  | shutdown =>
      rw [tableStep_shutdown]
      exact (gracefulShutdownCleanup_settled sessions).1 j

theorem vpnIpOf_injective {i j : Slot} (h : vpnIpOf i = vpnIpOf j) : i = j := by
  have hbytes := congrArg Subtype.val h
  simp only [vpnIpOf, List.cons.injEq, true_and, and_true] at hbytes
  have hnat := congrArg UInt8.toNat hbytes
  rw [UInt8.toNat_ofNat', UInt8.toNat_ofNat'] at hnat
  have hi := i.isLt
  have hj := j.isLt
  unfold maxClients at hi hj
  exact Fin.ext (by omega)

/-- In every state that the server reaches from the zeroed table by complete operations,
with allocations that succeed and session ids that differ: a slot in use has the address
`10.10.0.(2 + i)`, options in their ranges and a queue; two slots in use differ in client,
session id and address; and a slot not in use holds no keys and no session id. -/
theorem session_table_invariant (na : Sodium) (keys : ServerKeys) (order : Endian)
    (ops : List TableOp) (hmalloc : ∀ op ∈ ops, op.Allocates)
    (hids : (installedIds (run (tableStep na keys order) noSessions ops).2).Nodup)
    (sessions : Sessions)
    (hreached : sessions = (run (tableStep na keys order) noSessions ops).1) :
    (∀ i, (sessions i).active = true →
      (sessions i).vpnIp.val = [10, 10, 0, UInt8.ofNat (2 + i.val)] ∧
        (64 ≤ (sessions i).argv.frag ∧ (sessions i).argv.frag ≤ 1200) ∧
        (1 ≤ (sessions i).argv.mbps ∧ (sessions i).argv.mbps ≤ 15) ∧
        ((sessions i).argv.cbr = 'Y'.toUInt8 ∨ (sessions i).argv.cbr = 'N'.toUInt8) ∧
        ((sessions i).argv.pad = 'Y'.toUInt8 ∨ (sessions i).argv.pad = 'N'.toUInt8) ∧
        (sessions i).outq = true) ∧
    (∀ i j, i ≠ j → (sessions i).active = true → (sessions j).active = true →
      (sessions i).clientAddr ≠ (sessions j).clientAddr ∧
        (sessions i).sessionId ≠ (sessions j).sessionId ∧
        (sessions i).vpnIp ≠ (sessions j).vpnIp) ∧
    ∀ i, (sessions i).active = false →
      (sessions i).kRecv = Octets.zero aeadKeyLen ∧
        (sessions i).kSend = Octets.zero aeadKeyLen ∧
        (sessions i).sessionId = Octets.zero sessionIdLen := by
  have hok : TableOk true sessions := by
    rw [hreached]
    exact run_invariant (tableStep na keys order) (fun _ op => op.Allocates) (TableOk true)
      (fun _ op h hmalloc => tableStep_tableOk na keys order h op fun _ => hmalloc)
      noSessions ops (noSessions_tableOk true)
      (Along.of_forall _ TableOp.Allocates noSessions ops hmalloc)
  have hguarded := guarded_run (tableStep na keys order)
    (tableStep_effect na keys order) ops hids
  rw [← hreached] at hguarded
  refine ⟨fun i hactive => ?_, fun i j hij hi hj => ⟨fun haddr => ?_, fun hid => ?_,
    fun hip => ?_⟩, fun i hinactive => ?_⟩
  · have hoptions := (hok.slot i).options hactive
    refine ⟨?_, hoptions.frag, hoptions.mbps, hoptions.cbr, hoptions.pad,
      (hok.slot i).queue rfl hactive⟩
    rw [(hok.slot i).address hactive]
    rfl
  · exact hij (hok.client i j hi hj haddr)
  · exact hij (hguarded.distinct i j hi hj hid)
  · rw [(hok.slot i).address hi, (hok.slot j).address hj] at hip
    exact hij (vpnIpOf_injective hip)
  · have hwiped := (hok.slot i).wiped hinactive
    exact ⟨hwiped.kRecv, hwiped.kSend, hwiped.sessionId⟩

/-- Two clients shake hands, the first one again later, with other ephemeral values. -/
def twoClients : List TableOp :=
  let env (now : Int) (byte : UInt8) : Env :=
    ⟨now, .ok, .ok, ⟨Octets.fill privkeyLen byte, Octets.fill 8 byte⟩,
      ⟨Octets.fill privkeyLen byte, Octets.fill 8 byte⟩, true, true, fun _ => 0, fun _ => 0⟩
  let msg1 (byte : UInt8) :=
    buildMsg1 .little (Octets.fill pubkeyLen byte) (Octets.fill 8 byte) ⟨5, 1024, 78, 78⟩
  [.server (.datagram (env 0 1) ⟨1, 2⟩ (msg1 1)), .server (.datagram (env 1 2) ⟨3, 4⟩ (msg1 2)),
    .server (.datagram (env 15 3) ⟨1, 2⟩ (msg1 3)), .server (.maintenance 20)]

theorem session_table_invariant_two_clients :
    let keys : ServerKeys := ⟨Octets.zero 64, true, Octets.zero privkeyLen⟩
    let final := run (tableStep Sodium.xorSodium keys .little) noSessions twoClients
    (final.1 0).active = true ∧ (final.1 1).active = true ∧
      (installedIds final.2).length = 3 ∧
      (final.1 0).clientAddr ≠ (final.1 1).clientAddr ∧
      (final.1 0).sessionId ≠ (final.1 1).sessionId ∧
      (final.1 0).vpnIp ≠ (final.1 1).vpnIp := by
  intro keys final
  have hfirst : (final.1 0).active = true := by decide +kernel
  have hsecond : (final.1 1).active = true := by decide +kernel
  have hids : (installedIds final.2).Nodup := by decide +kernel
  have hinv := session_table_invariant Sodium.xorSodium keys .little twoClients
    (by simp [twoClients, TableOp.Allocates]) hids final.1 rfl
  exact ⟨hfirst, hsecond, by decide +kernel, hinv.2.1 0 1 (by decide) hfirst hsecond⟩

end Chamlon.Server
