import Mathlib.Tactic
import Chamlon.Server.Cases

/-!
No datagram is accepted twice. Every operation of the server does one of three
things to the slots: it leaves the identity and the window of every slot that
stays active, it installs a new session id with a zeroed window in one slot, or
it moves the window of one slot past a number it had not seen. An invariant over
whole runs follows: a number accepted for a session id is refused by the window
of the slot that carries the id.
-/

namespace Chamlon.Server

open Config Memory Reassembly Machine

/-- The session ids a list of events installs. -/
def installedIds (events : List Event) : List (Octets sessionIdLen) :=
  events.filterMap fun | .installed _ sessionId => some sessionId | _ => none

/-- The session ids and sequence numbers of the accepted datagrams. -/
def acceptedPairs (events : List Event) : List (Octets sessionIdLen × BitVec 64) :=
  events.filterMap fun | .accepted sessionId seq => some (sessionId, seq) | _ => none

@[simp] theorem installedIds_append (first second : List Event) :
    installedIds (first ++ second) = installedIds first ++ installedIds second :=
  List.filterMap_append

@[simp] theorem acceptedPairs_append (first second : List Event) :
    acceptedPairs (first ++ second) = acceptedPairs first ++ acceptedPairs second :=
  List.filterMap_append

/-- If the slot is active afterwards, it was active before and kept session id
and window. -/
def QuietAt (before after : Session) : Prop :=
  after.active = true →
    before.active = true ∧ after.sessionId = before.sessionId ∧ after.rw = before.rw

theorem QuietAt.refl (s : Session) : QuietAt s s := fun h => ⟨h, rfl, rfl⟩

theorem QuietAt.trans {first second third : Session} (h : QuietAt first second)
    (h' : QuietAt second third) : QuietAt first third := by
  intro hactive
  obtain ⟨hsecond, hid, hrw⟩ := h' hactive
  obtain ⟨hfirst, hid', hrw'⟩ := h hsecond
  exact ⟨hfirst, hid.trans hid', hrw.trans hrw'⟩

theorem quietAt_of_inactive (before : Session) {after : Session}
    (h : after.active = false) : QuietAt before after := by
  intro hactive
  rw [h] at hactive
  cases hactive

/-- Events that neither install nor accept. -/
def Silent (events : List Event) : Prop :=
  installedIds events = [] ∧ acceptedPairs events = []

/-- The three things an operation can do to the slots. -/
inductive Effect (before : Sessions) : Sessions × List Event → Prop where
  | quiet {after : Sessions} {events : List Event}
      (hslots : ∀ j, QuietAt (before j) (after j)) (hevents : Silent events) :
      Effect before (after, events)
  | install {after : Sessions} {events : List Event} (i : Slot)
      (sessionId : Octets sessionIdLen)
      (hothers : ∀ j, j ≠ i → QuietAt (before j) (after j))
      (hslot : (after i).active = true →
        (after i).sessionId = sessionId ∧ (after i).rw = .zero)
      (hinstalled : installedIds events = [sessionId])
      (haccepted : acceptedPairs events = []) : Effect before (after, events)
  | accept {after : Sessions} {events : List Event} (i : Slot) (seq : BitVec 64)
      (hactive : (before i).active = true)
      (hnew : (before i).rw.checkReplay seq = false)
      (hothers : ∀ j, j ≠ i → QuietAt (before j) (after j))
      (hslot : (after i).active = true →
        (after i).sessionId = (before i).sessionId ∧
          (after i).rw = (before i).rw.updateWindow seq)
      (hinstalled : installedIds events = [])
      (haccepted : acceptedPairs events = [((before i).sessionId, seq)]) :
      Effect before (after, events)

theorem Effect.emit {before : Sessions} {result : Sessions × List Event}
    (h : Effect before result) {events : List Event} (hsilent : Silent events) :
    Effect before (emit events result) := by
  obtain ⟨hinst, hacc⟩ := hsilent
  cases h with
  | quiet hslots hevents =>
      exact .quiet hslots ⟨by simp [hinst, hevents.1], by simp [hacc, hevents.2]⟩
  | install i sessionId hothers hslot hinstalled haccepted =>
      exact .install i sessionId hothers hslot (by simp [hinst, hinstalled])
        (by simp [hacc, haccepted])
  | accept i seq hactive hnew hothers hslot hinstalled haccepted =>
      exact .accept i seq hactive hnew hothers hslot (by simp [hinst, hinstalled])
        (by simp [hacc, haccepted])

theorem Effect.of_quiet {before : Sessions} (result : Sessions × List Event)
    (hslots : ∀ j, QuietAt (before j) (result.1 j)) (hevents : Silent result.2) :
    Effect before result := by
  obtain ⟨after, events⟩ := result
  exact .quiet hslots hevents

/-- A slot whose session id was not installed just now had it before. -/
theorem Effect.was {before : Sessions} {result : Sessions × List Event}
    (h : Effect before result) {j : Slot} (hactive : (result.1 j).active = true)
    (hold : (result.1 j).sessionId ∉ installedIds result.2) :
    (before j).active = true ∧ (result.1 j).sessionId = (before j).sessionId := by
  cases h with
  | quiet hslots hevents => exact ⟨(hslots j hactive).1, (hslots j hactive).2.1⟩
  | install i sessionId hothers hslot hinstalled haccepted =>
      have hj : j ≠ i := by
        intro hj
        rw [hj] at hactive hold
        rw [(hslot hactive).1, hinstalled] at hold
        exact hold (List.mem_singleton_self _)
      exact ⟨(hothers j hj hactive).1, (hothers j hj hactive).2.1⟩
  | accept i seq hwas hnew hothers hslot hinstalled haccepted =>
      by_cases hj : j = i
      · rw [hj] at hactive ⊢
        exact ⟨hwas, (hslot hactive).1⟩
      · exact ⟨(hothers j hj hactive).1, (hothers j hj hactive).2.1⟩

theorem effect_refl (before : Sessions) : Effect before (before, []) :=
  .quiet (fun j => .refl (before j)) ⟨rfl, rfl⟩

theorem quietAt_update {before sessions : Sessions} {i : Slot} {s : Session}
    (hslots : ∀ j, QuietAt (before j) (sessions j)) (hs : QuietAt (before i) s)
    (j : Slot) : QuietAt (before j) (Function.update sessions i s j) := by
  by_cases hj : j = i
  · subst hj
    rwa [Function.update_self]
  · rw [Function.update_of_ne hj]
    exact hslots j

theorem Bookkeeping.silent {events : List Event} (h : Bookkeeping events) :
    Silent events := by
  constructor
  · rw [installedIds, List.filterMap_eq_nil_iff]
    intro e he
    cases e with
    | installed i sessionId => cases h _ he
    | _ => rfl
  · rw [acceptedPairs, List.filterMap_eq_nil_iff]
    intro e he
    cases e with
    | accepted sessionId seq => cases h _ he
    | _ => rfl

theorem freeSession_quietAt (i : Slot) (sessions : Sessions) (j : Slot) :
    QuietAt (sessions j) ((freeSession i sessions).1 j) := by
  unfold freeSession
  split
  · exact quietAt_update (fun j => .refl (sessions j))
      (quietAt_of_inactive _ rfl) j
  · exact .refl (sessions j)

theorem freeSession_effect {before : Sessions} (i : Slot) (sessions : Sessions)
    (hslots : ∀ j, QuietAt (before j) (sessions j)) :
    Effect before (freeSession i sessions) :=
  .quiet (fun j => (hslots j).trans (freeSession_quietAt i sessions j))
    (freeSession_bookkeeping i sessions).silent

theorem boundSlots_quietAt (env : Env) (src : SockAddr) {i j : Slot}
    (secrets : Sodium.SessionSecrets) (sessions : Sessions) (h : j ≠ i) :
    QuietAt (sessions j) (boundSlots env src i secrets sessions j) := by
  rcases boundSlots_of_ne env src secrets sessions h with hsame | ⟨_, hdropped⟩
  · rw [hsame]
    exact .refl (sessions j)
  · rw [hdropped]
    exact quietAt_of_inactive _ rfl

/-- A slot that carries a new session id and a zeroed window was installed, and
quiet changes afterwards do not matter. -/
theorem installed_effect {before bound : Sessions} (i : Slot)
    (sessionId : Octets sessionIdLen) (closed : List Event)
    (result : Sessions × List Event)
    (hothers : ∀ j, j ≠ i → QuietAt (before j) (bound j))
    (hid : (bound i).sessionId = sessionId) (hrw : (bound i).rw = .zero)
    (hclosed : Silent closed) (hquiet : ∀ j, QuietAt (bound j) (result.1 j))
    (hsilent : Silent result.2) :
    Effect before (emit (.installed i sessionId :: closed) result) := by
  have hinstalled : installedIds (.installed i sessionId :: closed) =
      sessionId :: installedIds closed := rfl
  have haccepted : acceptedPairs (.installed i sessionId :: closed) =
      acceptedPairs closed := rfl
  refine .install i sessionId (fun j hj => (hothers j hj).trans (hquiet j)) ?_ ?_ ?_
  · intro hactive
    obtain ⟨_, hid', hrw'⟩ := hquiet i hactive
    exact ⟨hid'.trans hid, hrw'.trans hrw⟩
  · rw [installedIds_append, hinstalled, hclosed.1, hsilent.1, List.append_nil]
  · rw [acceptedPairs_append, haccepted, hclosed.2, hsilent.2, List.append_nil]

/-- From the key derivation on, `handle_msg1` installs the session id in its
slot, whether or not it then has to free the slot again. -/
theorem activateSlot_effect {before : Sessions} (env : Env) (src : SockAddr)
    (i : Slot) (secrets : Sodium.SessionSecrets) (msg2 : Bytes) (sessions : Sessions)
    (hothers : ∀ j, j ≠ i → QuietAt (before j) (sessions j))
    (hwindow : (sessions i).rw = .zero) :
    Effect before (activateSlot env src i secrets msg2 sessions) := by
  obtain ⟨events, hevents, hresult⟩ := activateSlot_cases env src i secrets msg2 sessions
  have hself := boundSlots_self env src i secrets sessions
  have hbound : ∀ j, j ≠ i → QuietAt (before j) (boundSlots env src i secrets sessions j) :=
    fun j hj => (hothers j hj).trans (boundSlots_quietAt env src secrets sessions hj)
  generalize boundSlots env src i secrets sessions = bound at hself hbound hresult
  have hid : (bound i).sessionId = secrets.sessionId := by
    rw [hself]
    rfl
  have hrw : (bound i).rw = .zero := by
    rw [hself]
    exact hwindow
  rcases hresult with hfreed | hsent
  · rw [hfreed]
    exact installed_effect i secrets.sessionId events _ hbound hid hrw hevents.silent
      (freeSession_quietAt i bound) (freeSession_bookkeeping i bound).silent
  · rw [hsent]
    exact installed_effect i secrets.sessionId events _ hbound hid hrw hevents.silent
      (quietAt_update (fun j => .refl (bound j)) (.refl (bound i))) ⟨rfl, rfl⟩

theorem msg1InSlot_effect {before : Sessions} (na : Sodium) (keys : ServerKeys)
    (order : Endian) (env : Env) (random : Ephemeral) (msg1 : Bytes) (src : SockAddr)
    (i : Slot) (sessions : Sessions)
    (hslots : ∀ j, QuietAt (before j) (sessions j))
    (hinactive : (sessions i).active = false) (hwindow : (sessions i).rw = .zero) :
    Effect before (msg1InSlot na keys order env random msg1 src i sessions) := by
  have hquiet : ∀ j, QuietAt (before j) (Function.update sessions i
      ((sessions i).reserve i (msg1Params order msg1)) j) :=
    quietAt_update hslots (quietAt_of_inactive _ hinactive)
  rcases msg1InSlot_cases na keys order env random msg1 src i sessions with
    hfreed | ⟨sig, secrets, _, _, hresult⟩
  · rw [hfreed]
    exact freeSession_effect i _ hquiet
  · rw [hresult]
    refine activateSlot_effect env src i secrets _ _ (fun j _ => hquiet j) ?_
    rw [Function.update_self]
    exact hwindow

theorem handleMsg1_effect (na : Sodium) (keys : ServerKeys) (order : Endian)
    (env : Env) (random : Ephemeral) (msg1 : Bytes) (src : SockAddr)
    (sessions : Sessions) :
    Effect sessions (handleMsg1 na keys order env random msg1 src sessions) := by
  rcases handleMsg1_cases na keys order env random msg1 src sessions with
    ⟨events, hevents, hresult⟩ | ⟨events, i, next, hevents, hallocated, hresult⟩
  · rw [hresult]
    exact .quiet (fun j => .refl (sessions j)) hevents.silent
  · obtain ⟨hinactive, hnext⟩ := allocateSession_eq_some hallocated
    have hself : next i = { sessions i with rw := .zero } := by
      rw [hnext, Function.update_self]
    have hquiet : ∀ j, QuietAt (sessions j) (next j) := by
      rw [hnext]
      exact quietAt_update (fun j => .refl (sessions j)) (quietAt_of_inactive _ hinactive)
    rw [hresult]
    refine Effect.emit ?_ hevents.silent
    refine msg1InSlot_effect na keys order env random msg1 src i next hquiet ?_ ?_
    · rw [hself]
      exact hinactive
    · rw [hself]

theorem handleRehandshakeMsg1_effect (na : Sodium) (keys : ServerKeys)
    (order : Endian) (env : Env) (msg1 : Bytes) (src : SockAddr)
    (sessions : Sessions) :
    Effect sessions (handleRehandshakeMsg1 na keys order env msg1 src sessions) := by
  rcases handleRehandshakeMsg1_cases na keys order env msg1 src sessions with
    hignored | ⟨random, hfirst⟩ | ⟨i, sig, secrets, _, _, _, hrekeyed⟩
  · rw [hignored]
    exact effect_refl sessions
  · rw [hfirst]
    exact handleMsg1_effect na keys order env random msg1 src sessions
  · rw [hrekeyed]
    refine .install i secrets.sessionId ?_ ?_ ?_ ?_
    · intro j hj
      rw [Function.update_of_ne hj]
      exact .refl (sessions j)
    · intro _
      rw [Function.update_self]
      exact ⟨rfl, rfl⟩
    · split <;> rfl
    · split <;> rfl

/-- After `update_window` nothing touches identities or windows any more. -/
theorem inboundAccepted_quiet (order : Endian) (env : Env) (i : Slot) (plain : Bytes)
    (sessions : Sessions) :
    (∀ j, QuietAt (sessions j)
      ((inboundAccepted order env i plain sessions).1 j)) ∧
      Silent (inboundAccepted order env i plain sessions).2 := by
  rcases inboundAccepted_cases order env i plain sessions with
    hfreed | ⟨now, table, events, _, hresult, hevents⟩
  · rw [hfreed]
    exact ⟨freeSession_quietAt i sessions, (freeSession_bookkeeping i sessions).silent⟩
  · rw [hresult]
    refine ⟨quietAt_update (fun j => .refl (sessions j)) (.refl (sessions i)), ?_, ?_⟩
    · rw [installedIds, List.filterMap_eq_nil_iff]
      intro e he
      rcases hevents e he with ⟨bytes, length, rfl⟩ | rfl
      · rfl
      · rfl
    · rw [acceptedPairs, List.filterMap_eq_nil_iff]
      intro e he
      rcases hevents e he with ⟨bytes, length, rfl⟩ | rfl
      · rfl
      · rfl

theorem inboundData_effect (na : Sodium) (order : Endian) (env : Env) (buf : Bytes)
    (sessions : Sessions) :
    Effect sessions (inboundData na order env buf sessions) := by
  rcases inboundData_cases na order env buf sessions with
    ⟨_, hnone⟩ | ⟨i, hfound, ⟨events, hevents, hrefused⟩ | ⟨plain, _, hnew, hresult⟩⟩
  · rw [hnone]
    exact effect_refl sessions
  · rw [hrefused]
    exact .quiet (quietAt_update (fun j => .refl (sessions j)) (.refl (sessions i)))
      hevents.silent
  · generalize pktSeq env buf = seq at hnew hresult
    rw [hresult]
    generalize hmoved : Function.update sessions i
      { sessions i with
        lastActivity := env.now
        rw := (sessions i).rw.updateWindow seq } = moved
    obtain ⟨hafter, hsilent⟩ := inboundAccepted_quiet order env i plain moved
    refine .accept i seq (sessionById_eq_some hfound).1 hnew ?_ ?_ ?_ ?_
    · intro j hj
      refine QuietAt.trans ?_ (hafter j)
      rw [← hmoved, Function.update_of_ne hj]
      exact .refl (sessions j)
    · intro hstill
      obtain ⟨_, hid, hrw⟩ := hafter i hstill
      rw [hid, hrw, ← hmoved, Function.update_self]
      exact ⟨rfl, rfl⟩
    · rw [installedIds_append, hsilent.1]
      rfl
    · rw [acceptedPairs_append, hsilent.2]
      rfl

theorem handleInboundUdp_effect (na : Sodium) (keys : ServerKeys) (order : Endian)
    (env : Env) (src : SockAddr) (buf : Bytes) (sessions : Sessions) :
    Effect sessions (handleInboundUdp na keys order env src buf sessions) := by
  rcases handleInboundUdp_cases na keys order env src buf sessions with
    ⟨_, events, hevents, hdropped⟩ | ⟨_, ⟨_, hagain⟩ | ⟨_, hfirst⟩⟩ | ⟨_, hdata⟩
  · rw [hdropped]
    exact .quiet (fun j => .refl (sessions j)) hevents.silent
  · rw [hagain]
    exact handleRehandshakeMsg1_effect na keys order env buf src sessions
  · rw [hfirst]
    exact handleMsg1_effect na keys order env env.random buf src sessions
  · rw [hdata]
    exact Effect.emit (inboundData_effect na order env buf sessions)
      (lookupEvents_bookkeeping env src buf).silent

theorem silent_flatMap {ι : Type*} (list : List ι) (events : ι → List Event)
    (h : ∀ i, Silent (events i)) : Silent (list.flatMap events) := by
  induction list with
  | nil => exact ⟨rfl, rfl⟩
  | cons i rest ih =>
      rw [List.flatMap_cons]
      exact ⟨by rw [installedIds_append, (h i).1, ih.1]; rfl,
        by rw [acceptedPairs_append, (h i).2, ih.2]; rfl⟩

theorem cleanupExpiredSessions_quietAt (now : Int) (sessions : Sessions) (j : Slot) :
    QuietAt (sessions j) ((cleanupExpiredSessions now sessions).1 j) := by
  unfold cleanupExpiredSessions
  dsimp only
  split
  · exact quietAt_of_inactive _ rfl
  · exact .refl (sessions j)

theorem sendKeepalives_quietAt (now : Int) (sessions : Sessions) (j : Slot) :
    QuietAt (sessions j) ((sendKeepalives now sessions).1 j) := by
  unfold sendKeepalives
  dsimp only
  split
  · exact fun hactive => ⟨hactive, rfl, rfl⟩
  · exact .refl (sessions j)

theorem performMaintenance_effect (now : Int) (sessions : Sessions) :
    Effect sessions (performMaintenance now sessions) := by
  have hsweep : ∀ table : Sessions, ∀ j, QuietAt (table j) (sweepSessions now table j) :=
    fun table j hactive => ⟨hactive, rfl, rfl⟩
  refine Effect.emit (.quiet (fun j => ?_) ?_) ?_
  · exact ((cleanupExpiredSessions_quietAt now sessions j).trans (hsweep _ j)).trans
      (sendKeepalives_quietAt now _ j)
  · exact silent_flatMap _ _ fun i => by split <;> exact ⟨rfl, rfl⟩
  · exact silent_flatMap _ _ fun i => by split <;> exact ⟨rfl, rfl⟩

/-- Every complete operation has one of the three effects. -/
theorem serverStep_effect (na : Sodium) (keys : ServerKeys) (order : Endian)
    (sessions : Sessions) (op : Op) :
    Effect sessions (serverStep na keys order sessions op) := by
  cases op with
  | datagram env src buf => exact handleInboundUdp_effect na keys order env src buf sessions
  | free i => exact freeSession_effect i sessions fun j => .refl (sessions j)
  | maintenance now => exact performMaintenance_effect now sessions

/-- What holds between the events so far and the table, as long as no session
id was installed twice. -/
structure Guarded (past : List Event) (sessions : Sessions) : Prop where
  distinct : ∀ i j, (sessions i).active = true → (sessions j).active = true →
    (sessions i).sessionId = (sessions j).sessionId → i = j
  known : ∀ i, (sessions i).active = true →
    (sessions i).sessionId ∈ installedIds past
  acceptedKnown : ∀ pair ∈ acceptedPairs past, pair.1 ∈ installedIds past
  refused : ∀ pair ∈ acceptedPairs past, ∀ i, (sessions i).active = true →
    (sessions i).sessionId = pair.1 → (sessions i).rw.checkReplay pair.2 = true
  once : (acceptedPairs past).Nodup

theorem guarded_start : Guarded [] noSessions where
  distinct := nofun
  known := nofun
  acceptedKnown := nofun
  refused := nofun
  once := List.nodup_nil

/-- The windows of this build: one word, well below the counter's range. -/
theorem window_small : wordSize * bitmapWords < 2 ^ 64 := by decide

theorem Guarded.quiet {past events : List Event} {sessions after : Sessions}
    (h : Guarded past sessions) (hslots : ∀ j, QuietAt (sessions j) (after j))
    (hevents : Silent events) : Guarded (past ++ events) after where
  distinct i j hi hj hid := by
    obtain ⟨hi', hidi, _⟩ := hslots i hi
    obtain ⟨hj', hidj, _⟩ := hslots j hj
    exact h.distinct i j hi' hj' (by rw [← hidi, hid, hidj])
  known i hi := by
    obtain ⟨hi', hid, _⟩ := hslots i hi
    rw [installedIds_append, hid]
    exact List.mem_append_left _ (h.known i hi')
  acceptedKnown pair hpair := by
    rw [acceptedPairs_append, hevents.2, List.append_nil] at hpair
    rw [installedIds_append]
    exact List.mem_append_left _ (h.acceptedKnown pair hpair)
  refused pair hpair i hi hid := by
    rw [acceptedPairs_append, hevents.2, List.append_nil] at hpair
    obtain ⟨hi', hid', hrw⟩ := hslots i hi
    rw [hrw]
    exact h.refused pair hpair i hi' (by rw [← hid', hid])
  once := by
    rw [acceptedPairs_append, hevents.2, List.append_nil]
    exact h.once

theorem Guarded.install {past events : List Event} {sessions after : Sessions}
    (h : Guarded past sessions) (i : Slot) (sessionId : Octets sessionIdLen)
    (hothers : ∀ j, j ≠ i → QuietAt (sessions j) (after j))
    (hslot : (after i).active = true →
      (after i).sessionId = sessionId ∧ (after i).rw = .zero)
    (hinstalled : installedIds events = [sessionId])
    (haccepted : acceptedPairs events = [])
    (hnew : sessionId ∉ installedIds past) : Guarded (past ++ events) after := by
  -- A slot other than `i` still carries an id installed earlier.
  have hold : ∀ j, j ≠ i → (after j).active = true →
      (after j).sessionId ∈ installedIds past := by
    intro j hj hactive
    obtain ⟨hj', hid, _⟩ := hothers j hj hactive
    rw [hid]
    exact h.known j hj'
  have hpairs : acceptedPairs (past ++ events) = acceptedPairs past := by
    rw [acceptedPairs_append, haccepted, List.append_nil]
  have hids : installedIds (past ++ events) = installedIds past ++ [sessionId] := by
    rw [installedIds_append, hinstalled]
  refine ⟨?_, ?_, ?_, ?_, by rw [hpairs]; exact h.once⟩
  · intro j k hj hk hid
    by_cases hji : j = i
    · by_cases hki : k = i
      · rw [hji, hki]
      · subst hji
        rw [(hslot hj).1] at hid
        exact absurd (hid ▸ hold k hki hk) hnew
    · by_cases hki : k = i
      · subst hki
        rw [(hslot hk).1] at hid
        exact absurd (hid ▸ hold j hji hj) hnew
      · obtain ⟨hj', hidj, _⟩ := hothers j hji hj
        obtain ⟨hk', hidk, _⟩ := hothers k hki hk
        exact h.distinct j k hj' hk' (by rw [← hidj, hid, hidk])
  · intro j hj
    rw [hids]
    by_cases hji : j = i
    · subst hji
      rw [(hslot hj).1]
      exact List.mem_append_right _ (List.mem_singleton_self _)
    · exact List.mem_append_left _ (hold j hji hj)
  · intro pair hpair
    rw [hids]
    rw [hpairs] at hpair
    exact List.mem_append_left _ (h.acceptedKnown pair hpair)
  · intro pair hpair j hj hid
    rw [hpairs] at hpair
    by_cases hji : j = i
    · subst hji
      rw [(hslot hj).1] at hid
      exact absurd (hid ▸ h.acceptedKnown pair hpair) hnew
    · obtain ⟨hj', hid', hrw⟩ := hothers j hji hj
      rw [hrw]
      exact h.refused pair hpair j hj' (by rw [← hid', hid])

theorem Guarded.accept {past events : List Event} {sessions after : Sessions}
    (h : Guarded past sessions) (i : Slot) (seq : BitVec 64)
    (hactive : (sessions i).active = true)
    (hnew : (sessions i).rw.checkReplay seq = false)
    (hothers : ∀ j, j ≠ i → QuietAt (sessions j) (after j))
    (hslot : (after i).active = true →
      (after i).sessionId = (sessions i).sessionId ∧
        (after i).rw = (sessions i).rw.updateWindow seq)
    (hinstalled : installedIds events = [])
    (haccepted : acceptedPairs events = [((sessions i).sessionId, seq)]) :
    Guarded (past ++ events) after := by
  have hids : installedIds (past ++ events) = installedIds past := by
    rw [installedIds_append, hinstalled, List.append_nil]
  have hpairs : acceptedPairs (past ++ events) =
      acceptedPairs past ++ [((sessions i).sessionId, seq)] := by
    rw [acceptedPairs_append, haccepted]
  -- Identities are those of before, also in the slot that accepted.
  have hsame : ∀ j, (after j).active = true →
      (sessions j).active = true ∧ (after j).sessionId = (sessions j).sessionId := by
    intro j hj
    by_cases hji : j = i
    · subst hji
      exact ⟨hactive, (hslot hj).1⟩
    · exact ⟨(hothers j hji hj).1, (hothers j hji hj).2.1⟩
  refine ⟨?_, ?_, ?_, ?_, ?_⟩
  · intro j k hj hk hid
    rw [(hsame j hj).2, (hsame k hk).2] at hid
    exact h.distinct j k (hsame j hj).1 (hsame k hk).1 hid
  · intro j hj
    rw [hids, (hsame j hj).2]
    exact h.known j (hsame j hj).1
  · intro pair hpair
    rw [hpairs] at hpair
    rw [hids]
    rcases List.mem_append.mp hpair with hold | hlast
    · exact h.acceptedKnown pair hold
    · rw [List.mem_singleton.mp hlast]
      exact h.known i hactive
  · intro pair hpair j hj hid
    rw [(hsame j hj).2] at hid
    rw [hpairs] at hpair
    by_cases hji : j = i
    · subst hji
      rw [(hslot hj).2]
      rcases List.mem_append.mp hpair with hold | hlast
      · exact ReplayWindow.checkReplay_updateWindow_of_rejected seq pair.2 _ window_small
          (h.refused pair hold j hactive hid)
      · rw [List.mem_singleton.mp hlast]
        exact ReplayWindow.checkReplay_updateWindow_self seq _ (by decide) window_small hnew
    · rw [(hothers j hji hj).2.2]
      rcases List.mem_append.mp hpair with hold | hlast
      · exact h.refused pair hold j (hsame j hj).1 hid
      · rw [List.mem_singleton.mp hlast] at hid
        exact absurd (h.distinct j i (hsame j hj).1 hactive hid) hji
  · rw [hpairs]
    refine List.Nodup.append h.once (List.nodup_singleton _) ?_
    intro pair hold hlast
    rw [List.mem_singleton.mp hlast] at hold
    have hrefused := h.refused _ hold i hactive rfl
    rw [hnew] at hrefused
    cases hrefused

theorem Guarded.step {past : List Event} {sessions : Sessions}
    {result : Sessions × List Event} (h : Guarded past sessions)
    (heffect : Effect sessions result)
    (hnew : ∀ id ∈ installedIds result.2, id ∉ installedIds past) :
    Guarded (past ++ result.2) result.1 := by
  cases heffect with
  | quiet hslots hevents => exact h.quiet hslots hevents
  | install i sessionId hothers hslot hinstalled haccepted =>
      refine h.install i sessionId hothers hslot hinstalled haccepted ?_
      exact hnew sessionId (by rw [hinstalled]; exact List.mem_singleton_self _)
  | accept i seq hactive hfresh hothers hslot hinstalled haccepted =>
      exact h.accept i seq hactive hfresh hothers hslot hinstalled haccepted

/-- A machine all of whose steps have one of the three effects keeps the invariant as
long as no session id is installed twice. -/
theorem guarded_run {α : Type*} (step : Sessions → α → Sessions × List Event)
    (heffect : ∀ sessions a, Effect sessions (step sessions a)) (acts : List α)
    (hids : (installedIds (run step noSessions acts).2).Nodup) :
    Guarded (run step noSessions acts).2 (run step noSessions acts).1 := by
  have hguarded := run_history step (fun _ _ => True)
    (fun past sessions => (installedIds past).Nodup → Guarded past sessions)
    (fun past sessions a h _ hnodup => by
      rw [installedIds_append] at hnodup
      obtain ⟨hpast, _, hdisjoint⟩ := List.nodup_append.mp hnodup
      exact (h hpast).step (heffect sessions a) fun id hid hold =>
        hdisjoint id hold id hid rfl)
    [] noSessions acts (fun _ => guarded_start)
    (Along.of_forall _ (fun _ => True) noSessions acts fun _ _ => trivial)
  exact hguarded hids

/-- Over every run of the server from the zeroed table, whatever datagrams,
handshakes, rehandshakes, frees and maintenance it is made of: if no session id
is installed twice, each pair of session id and sequence number passes
`check_replay`, decrypts and reaches `update_window` at most once. -/
theorem accepted_at_most_once (na : Sodium) (keys : ServerKeys) (order : Endian)
    (ops : List Op)
    (hids : (installedIds (run (serverStep na keys order) noSessions ops).2).Nodup) :
    (acceptedPairs (run (serverStep na keys order) noSessions ops).2).Nodup := by
  have hguarded := guarded_run (serverStep na keys order) (serverStep_effect na keys order)
    ops hids
  exact hguarded.once

/-- A client shakes hands and sends one datagram twice: the second copy is
refused. -/
theorem accepted_at_most_once_repeated :
    let keys : ServerKeys := ⟨Octets.zero 64, true, Octets.zero privkeyLen⟩
    let env : Env := ⟨0, .ok, .ok, ⟨Octets.zero privkeyLen, Octets.zero 8⟩,
      ⟨Octets.zero privkeyLen, Octets.zero 8⟩, true, true, fun _ => 0, fun _ => 0⟩
    let msg1 := buildMsg1 .little (Octets.zero pubkeyLen) (Octets.zero 8) ⟨5, 1024, 78, 78⟩
    let data := (protoHeader .little pktTypeData).val ++ List.replicate 16 0 ++
      [0, 0, 0, 0, 0, 0, 0, 1] ++ List.replicate 6 0 ++ [255, 0] ++ List.replicate 16 0
    let ops : List Op := [.datagram env ⟨1, 2⟩ msg1, .datagram env ⟨1, 2⟩ data,
      .datagram env ⟨1, 2⟩ data]
    let events := (run (serverStep Sodium.xorSodium keys .little) noSessions ops).2
    (installedIds events).Nodup ∧ acceptedPairs events = [(Octets.zero 16, 1)] ∧
      (acceptedPairs events).Nodup := by
  intro keys env msg1 data ops events
  have hids : installedIds events = [Octets.zero 16] := by decide +kernel
  have hpairs : acceptedPairs events = [(Octets.zero 16, 1)] := by decide +kernel
  exact ⟨by rw [hids]; exact List.nodup_singleton _, hpairs,
    accepted_at_most_once Sodium.xorSodium keys .little ops
      (by rw [hids]; exact List.nodup_singleton _)⟩

end Chamlon.Server
