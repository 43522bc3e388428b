import Mathlib.Tactic
import Chamlon.Agreement.Honest
import Chamlon.Client.Inbound
import Chamlon.Lib.Machine
import Chamlon.Server.Frame
import Chamlon.Server.Leaves

/-!
What the sessions of a server have to do with one another: nothing. The slots share one
table, one lookup and one maintenance loop, but what becomes of a session and what it
makes the server do is decided by its own datagrams and by maintenance. All the rest,
first handshakes and traffic of other clients, forged and broken datagrams, can be left
out of a run without the session noticing.
-/

namespace Chamlon.Server

open Config Memory Machine Reassembly

/-- What a handshake emits. -/
def Event.isHandshake (e : Event) : Bool := e.isBookkeeping || e.isCommit

def Handshaking (events : List Event) : Prop := ∀ e ∈ events, e.isHandshake = true

section Handshaking

variable {first second events : List Event}

theorem Bookkeeping.handshaking (h : Bookkeeping events) : Handshaking events := by
  intro e he
  rw [Event.isHandshake, h e he, Bool.true_or]

theorem handshaking_nil : Handshaking [] := nofun

theorem Handshaking.append (h : Handshaking first) (h' : Handshaking second) :
    Handshaking (first ++ second) :=
  fun e he => (List.mem_append.mp he).elim (h e) (h' e)

theorem Handshaking.cons {e : Event} (he : e.isHandshake = true) (h : Handshaking events) :
    Handshaking (e :: events) :=
  List.forall_mem_cons.mpr ⟨he, h⟩

theorem activateSlot_handshaking (env : Env) (src : SockAddr) (i : Slot)
    (secrets : Sodium.SessionSecrets) (msg2 : Bytes) (sessions : Sessions) :
    Handshaking (activateSlot env src i secrets msg2 sessions).2 := by
  obtain ⟨events, hevents, hfreed | hsent⟩ :=
    activateSlot_cases env src i secrets msg2 sessions
  · rw [hfreed, emit_snd]
    exact (hevents.handshaking.cons rfl).append (freeSession_bookkeeping i _).handshaking
  · rw [hsent, emit_snd]
    exact (hevents.handshaking.cons rfl).append
      (((handshaking_nil.cons rfl).cons rfl).cons rfl)

theorem handleMsg1_handshaking (na : Sodium) (keys : ServerKeys) (order : Endian)
    (env : Env) (random : Ephemeral) (msg1 : Bytes) (src : SockAddr) (sessions : Sessions) :
    Handshaking (handleMsg1 na keys order env random msg1 src sessions).2 := by
  rcases handleMsg1_cases na keys order env random msg1 src sessions with
    ⟨events, hevents, hresult⟩ | ⟨events, i, next, hevents, _, hresult⟩
  · rw [hresult]
    exact hevents.handshaking
  · rw [hresult, emit_snd]
    apply hevents.handshaking.append
    rcases msg1InSlot_cases na keys order env random msg1 src i next with
      hfreed | ⟨sig, secrets, _, _, hactivated⟩
    · rw [hfreed]
      exact (freeSession_bookkeeping i _).handshaking
    · rw [hactivated]
      exact activateSlot_handshaking env src i secrets _ _

theorem handleRehandshakeMsg1_handshaking (na : Sodium) (keys : ServerKeys)
    (order : Endian) (env : Env) (msg1 : Bytes) (src : SockAddr) (sessions : Sessions) :
    Handshaking (handleRehandshakeMsg1 na keys order env msg1 src sessions).2 := by
  rcases handleRehandshakeMsg1_cases na keys order env msg1 src sessions with
    hignored | ⟨random, hfirst⟩ | ⟨i, sig, secrets, _, _, _, hrekeyed⟩
  · rw [hignored]
    exact handshaking_nil
  · rw [hfirst]
    exact handleMsg1_handshaking na keys order env random msg1 src sessions
  · rw [hrekeyed]
    refine ((handshaking_nil.cons rfl).cons rfl).append ?_
    split
    · exact handshaking_nil.cons rfl
    · exact handshaking_nil

end Handshaking

section Isolation

variable (i : Slot) (sessionId : Octets sessionIdLen)

/-- What a session makes the server do: accept, write, copy out of bounds, and send
keepalives. -/
def Event.isAbout : Event → Bool
  | .accepted id _ => decide (id = sessionId)
  | .tunWrite j _ _ => decide (j = i)
  | .badCopy j => decide (j = i)
  | .keepaliveSent j => decide (j = i)
  | _ => false

/-- A datagram with the session's id that is no handshake, maintenance, or the release of
the slot. -/
def Op.concerns : Op → Bool
  | .datagram env _ buf => decide (packetType buf ≠ pktTypeHandshake ∧
      Octets.read sessionIdLen (peek buf env.past) protoHeaderLen = sessionId)
  | .free j => decide (j = i)
  | .maintenance _ => true

/-- The session is found in its slot, and its client does not shake hands. -/
def Settles (sessions : Sessions) (op : Op) : Prop :=
  sessionById sessionId sessions = some i ∧
    op.isHandshakeFrom (sessions i).clientAddr = false

instance (sessions : Sessions) (op : Op) : Decidable (Settles i sessionId sessions op) :=
  inferInstanceAs (Decidable (_ ∧ _))

/-- The slot is the same in both tables, and in the second one no slot before it has the
session's id. -/
structure SlotAlike (s t : Sessions) : Prop where
  slot : s i = t i
  first : ∀ j < i, ¬((t j).active = true ∧ (t j).sessionId = sessionId)

end Isolation

section Unseen

variable {i : Slot} {sessionId : Octets sessionIdLen} {events : List Event}

theorem filter_handshaking (h : Handshaking events) :
    events.filter (Event.isAbout i sessionId) = [] := by
  refine List.filter_eq_nil_iff.mpr fun e he habout => ?_
  have hhandshake := h e he
  cases e <;> first | cases habout | cases hhandshake

theorem sessionById_iff {sessions : Sessions} :
    sessionById sessionId sessions = some i ↔
      ((sessions i).active = true ∧ (sessions i).sessionId = sessionId) ∧
        ∀ j < i, ¬((sessions j).active = true ∧ (sessions j).sessionId = sessionId) := by
  unfold sessionById
  rw [Fin.find?_eq_some_iff]
  simp

theorem SlotAlike.found {s t : Sessions} (h : SlotAlike i sessionId s t)
    (hfound : sessionById sessionId s = some i) : sessionById sessionId t = some i := by
  rw [sessionById_iff] at hfound ⊢
  rw [← h.slot]
  exact ⟨hfound.1, h.first⟩

theorem slotAlike_refl {s : Sessions} (h : sessionById sessionId s = some i) :
    SlotAlike i sessionId s s :=
  ⟨rfl, (sessionById_iff.mp h).2⟩

/-- No slot gets the session's id when all of them keep theirs. -/
theorem SlotAlike.keeps {s t s' t' : Sessions} (h : SlotAlike i sessionId s t)
    (hslot : s' i = t' i) (hkeeps : ∀ j, Keeps (t j) (t' j)) :
    SlotAlike i sessionId s' t' where
  slot := hslot
  first j hj hmatch := by
    rcases hkeeps j with hsame | hdropped
    · refine h.first j hj ⟨?_, ?_⟩
      · rw [← hsame.1]
        exact hmatch.1
      · rw [← hsame.2.2.1]
        exact hmatch.2
    · rw [hdropped] at hmatch
      cases hmatch.1

theorem SlotAlike.of_slot {s t s' : Sessions} (h : SlotAlike i sessionId s t)
    (hsame : s' i = s i) :
    SlotAlike i sessionId s' t :=
  ⟨hsame.trans h.slot, h.first⟩

end Unseen

section Kept

variable {i : Slot} {s t : Sessions}

theorem freeSession_congr (h : s i = t i) :
    (freeSession i s).1 i = (freeSession i t).1 i ∧
      (freeSession i s).2 = (freeSession i t).2 := by
  unfold freeSession
  rw [h]
  split
  · dsimp only
    rw [Function.update_self, Function.update_self]
    exact ⟨rfl, rfl⟩
  · exact ⟨h, rfl⟩

/-- The code after `update_window` reads and writes its slot only. -/
theorem inboundAccepted_congr (order : Endian) (env : Env) (plain : Bytes)
    (h : s i = t i) :
    (inboundAccepted order env i plain s).1 i = (inboundAccepted order env i plain t).1 i ∧
      (inboundAccepted order env i plain s).2 = (inboundAccepted order env i plain t).2 := by
  have hupdate (session : Session) :
      Function.update s i session i = Function.update t i session i := by
    rw [Function.update_self, Function.update_self]
  unfold inboundAccepted
  rw [h]
  split
  · exact ⟨h, rfl⟩
  · exact ⟨h, rfl⟩
  · exact ⟨hupdate _, rfl⟩
  · exact freeSession_congr h
  · exact ⟨h, rfl⟩
  · exact ⟨hupdate _, rfl⟩
  · exact ⟨hupdate _, rfl⟩
  · exact ⟨hupdate _, rfl⟩
  · exact ⟨h, rfl⟩

/-- So does the data path, from the lookup on. -/
theorem inboundData_congr (na : Sodium) (order : Endian) (env : Env) (buf : Bytes)
    (hs : lookup env buf s = some i) (ht : lookup env buf t = some i) (h : s i = t i) :
    (inboundData na order env buf s).1 i = (inboundData na order env buf t).1 i ∧
      (inboundData na order env buf s).2 = (inboundData na order env buf t).2 := by
  have hupdate (session : Session) :
      Function.update s i session i = Function.update t i session i := by
    rw [Function.update_self, Function.update_self]
  unfold lookup at hs ht
  unfold inboundData
  dsimp only
  rw [hs, ht]
  dsimp only
  rw [Function.update_self, Function.update_self, h]
  generalize ({ t i with lastActivity := env.now } : Session) = heard
  split
  · exact ⟨hupdate heard, rfl⟩
  split
  · exact ⟨hupdate heard, rfl⟩
  split
  · exact ⟨hupdate heard, rfl⟩
  split
  · exact ⟨hupdate heard, rfl⟩
  next plain _ _ =>
    generalize ({ heard with rw := heard.rw.updateWindow (pktSeq env buf) } : Session) = moved
    have hmoved : Function.update (Function.update s i heard) i moved i =
        Function.update (Function.update t i heard) i moved i := by
      rw [Function.update_self, Function.update_self]
    obtain ⟨hslot, hevents⟩ := inboundAccepted_congr order env plain hmoved
    exact ⟨hslot, by rw [emit_snd, emit_snd, hevents]⟩

/-- Maintenance treats every slot by itself. -/
theorem performMaintenance_congr (sessionId : Octets sessionIdLen) (now : Int)
    (h : s i = t i) :
    (performMaintenance now s).1 i = (performMaintenance now t).1 i ∧
      (performMaintenance now s).2.filter (Event.isAbout i sessionId) =
        (performMaintenance now t).2.filter (Event.isAbout i sessionId) := by
  constructor
  · rw [performMaintenance_slot, performMaintenance_slot, h]
  · have hclosed (sessions : Sessions) :
        (cleanupExpiredSessions now sessions).2.filter (Event.isAbout i sessionId) = [] := by
      refine List.filter_eq_nil_iff.mpr fun e he => ?_
      obtain ⟨j, _, hj⟩ := List.mem_flatMap.mp he
      split at hj
      · rw [List.mem_singleton.mp hj]
        exact Bool.false_ne_true
      · cases hj
    unfold performMaintenance sendKeepalives
    dsimp only
    rw [emit_snd, emit_snd, List.filter_append, List.filter_append, hclosed, hclosed,
      List.nil_append, List.nil_append]
    dsimp only
    rw [List.filter_flatMap, List.filter_flatMap]
    refine List.flatMap_congr fun j _ => ?_
    by_cases hj : j = i
    · subst hj
      have hswept : sweepSessions now (cleanupExpiredSessions now s).1 j =
          sweepSessions now (cleanupExpiredSessions now t).1 j := by
        simp only [sweepSessions, cleanupExpiredSessions, h]
      rw [hswept]
    · have hother : Event.isAbout i sessionId (.keepaliveSent j) = false := by
        simp [Event.isAbout, hj]
      split <;> split <;> simp [hother]

end Kept

section Steps

variable (na : Sodium) (keys : ServerKeys) (order : Endian) {i : Slot}
  {sessionId : Octets sessionIdLen} {s t : Sessions}

/-- What concerns the session does the same to both tables. -/
theorem serverStep_kept {op : Op} (h : SlotAlike i sessionId s t)
    (hok : Settles i sessionId s op) (hop : op.concerns i sessionId = true) :
    SlotAlike i sessionId (serverStep na keys order s op).1 (serverStep na keys order t op).1 ∧
      (serverStep na keys order s op).2.filter (Event.isAbout i sessionId) =
        (serverStep na keys order t op).2.filter (Event.isAbout i sessionId) := by
  cases op with
  | datagram env src buf =>
      obtain ⟨htype, hid⟩ := of_decide_eq_true hop
      have hs : lookup env buf s = some i := by
        rw [lookup, hid]
        exact hok.1
      have ht : lookup env buf t = some i := by
        rw [lookup, hid]
        exact h.found hok.1
      rw [serverStep, serverStep]
      rcases handleInboundUdp_cases na keys order env src buf s with
        ⟨hshort, events, hevents, hdropped⟩ | ⟨hmsg1, _⟩ | ⟨hreaches, hdata⟩
      · rcases handleInboundUdp_cases na keys order env src buf t with
          ⟨_, events', hevents', hdropped'⟩ | ⟨hmsg1, _⟩ | ⟨hreaches, _⟩
        · rw [hdropped, hdropped']
          refine ⟨h, ?_⟩
          rw [filter_handshaking hevents.handshaking, filter_handshaking hevents'.handshaking]
        · exact absurd hmsg1.2.1 htype
        · exact absurd hreaches hshort
      · exact absurd hmsg1.2.1 htype
      · rcases handleInboundUdp_cases na keys order env src buf t with
          ⟨hshort, _⟩ | ⟨hmsg1, _⟩ | ⟨_, hdata'⟩
        · exact absurd hreaches hshort
        · exact absurd hmsg1.2.1 htype
        · obtain ⟨hslot, hevents⟩ := inboundData_congr na order env buf hs ht h.slot
          rw [hdata, hdata', emit_fst, emit_fst, emit_snd, emit_snd, hevents]
          exact ⟨h.keeps hslot (inboundData_keeps na order env buf t), rfl⟩
  | free j =>
      obtain rfl : j = i := of_decide_eq_true hop
      obtain ⟨hslot, hevents⟩ := freeSession_congr h.slot
      rw [serverStep, serverStep, hevents]
      exact ⟨h.keeps hslot (freeSession_keeps j t), rfl⟩
  | maintenance now =>
      obtain ⟨hslot, hevents⟩ := performMaintenance_congr sessionId now h.slot
      rw [serverStep, serverStep]
      exact ⟨h.keeps hslot (performMaintenance_keeps now t), hevents⟩

/-- The data path of another session. -/
theorem inboundData_skipped {env : Env} {buf : Bytes}
    (hfound : sessionById sessionId s = some i)
    (hid : Octets.read sessionIdLen (peek buf env.past) protoHeaderLen ≠ sessionId) :
    (inboundData na order env buf s).1 i = s i ∧
      (inboundData na order env buf s).2.filter (Event.isAbout i sessionId) = [] := by
  have hother {j : Slot} (hj : lookup env buf s = some j) :
      i ≠ j ∧ (s j).sessionId ≠ sessionId := by
    have hown := (sessionById_eq_some hj).2
    refine ⟨fun heq => hid ?_, fun heq => hid (hown.symm.trans heq)⟩
    rw [← hown, ← heq]
    exact (sessionById_eq_some hfound).2
  rcases inboundData_cases na order env buf s with
    ⟨_, hnone⟩ | ⟨j, hlookup, ⟨events, hevents, hrefused⟩ | ⟨plain, _, _, hresult⟩⟩
  · rw [hnone]
    exact ⟨rfl, rfl⟩
  · rw [hrefused]
    exact ⟨Function.update_of_ne (hother hlookup).1 _ _,
      filter_handshaking hevents.handshaking⟩
  · obtain ⟨hne, hdifferent⟩ := hother hlookup
    have haccepted (seq : BitVec 64) :
        Event.isAbout i sessionId (.accepted (s j).sessionId seq) = false := by
      simp [Event.isAbout, hdifferent]
    rw [hresult, emit_fst, emit_snd, List.singleton_append,
      List.filter_cons_of_neg (by rw [haccepted]; exact Bool.false_ne_true)]
    rcases inboundAccepted_cases order env j plain (Function.update s j
        { s j with
          lastActivity := env.now
          rw := (s j).rw.updateWindow (pktSeq env buf) }) with
      hfreed | ⟨now, table, events, _, hupdated, hevents⟩
    · rw [hfreed, freeSession_of_ne _ hne, Function.update_of_ne hne]
      exact ⟨rfl, filter_handshaking (freeSession_bookkeeping j _).handshaking⟩
    · rw [hupdated]
      dsimp only
      rw [Function.update_of_ne hne, Function.update_of_ne hne]
      refine ⟨rfl, List.filter_eq_nil_iff.mpr fun e he => ?_⟩
      rcases hevents e he with ⟨bytes, length, rfl⟩ | rfl
      · simp [Event.isAbout, Ne.symm hne]
      · simp [Event.isAbout, Ne.symm hne]

/-- What does not concern the session leaves its slot alone. -/
theorem serverStep_skipped {op : Op} (hok : Settles i sessionId s op)
    (hop : op.concerns i sessionId = false) :
    (serverStep na keys order s op).1 i = s i ∧
      (serverStep na keys order s op).2.filter (Event.isAbout i sessionId) = [] := by
  obtain ⟨hfound, hhandshake⟩ := hok
  have hactive := (sessionById_eq_some hfound).1
  cases op with
  | datagram env src buf =>
      rw [serverStep]
      rcases handleInboundUdp_cases na keys order env src buf s with
        ⟨_, events, hevents, hdropped⟩ | ⟨hmsg1, hshaken⟩ | ⟨hreaches, hdata⟩
      · rw [hdropped]
        exact ⟨rfl, filter_handshaking hevents.handshaking⟩
      · have hsrc : (s i).clientAddr ≠ src := by
          rintro rfl
          simp [Op.isHandshakeFrom, hmsg1.2.1] at hhandshake
        rcases hshaken with ⟨_, hagain⟩ | ⟨_, hfirst⟩
        · rw [hagain]
          exact ⟨handleRehandshakeMsg1_frame hactive (.inl hsrc), filter_handshaking
            (handleRehandshakeMsg1_handshaking na keys order env buf src s)⟩
        · rw [hfirst]
          exact ⟨handleMsg1_frame hactive (.inl hsrc), filter_handshaking
            (handleMsg1_handshaking na keys order env env.random buf src s)⟩
      · have hid : Octets.read sessionIdLen (peek buf env.past) protoHeaderLen ≠
            sessionId := fun hid =>
          of_decide_eq_false hop ⟨hreaches.2.2.2.1, hid⟩
        obtain ⟨hslot, hevents⟩ := inboundData_skipped na order hfound hid
        rw [hdata, emit_fst, emit_snd, List.filter_append, hevents,
          filter_handshaking (lookupEvents_bookkeeping env src buf).handshaking]
        exact ⟨hslot, rfl⟩
  | free j =>
      have hj : i ≠ j := fun heq => of_decide_eq_false hop heq.symm
      rw [serverStep, freeSession_of_ne s hj]
      exact ⟨rfl, filter_handshaking (freeSession_bookkeeping j s).handshaking⟩
  | maintenance now => cases hop

end Steps

/-- Over every run of the server in which a session is found in its slot and its address
sends no handshake, with the same answers of the rate limiter to each datagram: the slot
ends as in the run of those operations alone that concern the session, which are the
datagrams with its id that are no handshake (forged ones too, as they write
`last_activity`), maintenance and its release. There the server accepts the same datagrams
for it, writes the same packets and sends the same keepalives. Datagrams of other sessions
and handshakes of other addresses, however many, are not noticed. -/
theorem sessions_do_not_interfere (na : Sodium) (keys : ServerKeys) (order : Endian)
    (i : Slot) (sessionId : Octets sessionIdLen) (sessions : Sessions) (ops : List Op)
    (hfound : sessionById sessionId sessions = some i)
    (hsettles : Along (serverStep na keys order) (Settles i sessionId) sessions ops) :
    let all := run (serverStep na keys order) sessions ops
    let alone := run (serverStep na keys order) sessions (ops.filter (·.concerns i sessionId))
    all.1 i = alone.1 i ∧
      all.2.filter (Event.isAbout i sessionId) =
        alone.2.filter (Event.isAbout i sessionId) := by
  obtain ⟨halike, hevents⟩ := run_unwinding (serverStep na keys order) (Settles i sessionId)
    (·.concerns i sessionId) (SlotAlike i sessionId) (List.filter (Event.isAbout i sessionId))
    (fun _ _ => List.filter_append _ _)
    (fun s t op h hok hop => serverStep_kept na keys order h hok hop)
    (fun s t op h hok hop => by
      obtain ⟨hslot, hunseen⟩ := serverStep_skipped na keys order hok hop
      exact ⟨h.of_slot hslot, hunseen⟩)
    sessions sessions ops (slotAlike_refl hfound) hsettles
  exact ⟨halike.slot, hevents⟩

section Example

/-- Two clients, with the session ids `9 9 …` and `8 8 …`. -/
def twoSessions : Sessions :=
  Function.update (Function.update noSessions 0
    { Session.zero with
      active := true, sessionId := Octets.fill sessionIdLen 8, clientAddr := ⟨1, 1⟩ }) 1
    { Session.zero with
      active := true, sessionId := Octets.fill sessionIdLen 9, clientAddr := ⟨2, 2⟩ }

/-- A datagram of each of them, a third client and maintenance. -/
def mixedOps : List Op :=
  [.datagram (Agreement.calmEnv 1 3) ⟨1, 1⟩
      (Client.dummyPacket (Octets.fill sessionIdLen 8) 1),
    .datagram (Agreement.calmEnv 2 3) ⟨3, 3⟩ (Client.clientMsg1 Sodium.xorSodium .little
      ⟨5, 1024, 0, 0⟩ (Agreement.bytewise 5)),
    .datagram (Agreement.calmEnv 3 3) ⟨2, 2⟩
      (Client.dummyPacket (Octets.fill sessionIdLen 9) 4),
    .maintenance 12]

/-- The second session is left with its own datagram and a keepalive. -/
theorem sessions_do_not_interfere_mixed :
    let id := Octets.fill sessionIdLen 9
    let step := serverStep Sodium.xorSodium Agreement.zeroKeys .little
    let alone := run step twoSessions (mixedOps.filter (·.concerns 1 id))
    (run step twoSessions mixedOps).2.filter (Event.isAbout 1 id) =
        [.accepted id 4, .keepaliveSent 1] ∧
      (run step twoSessions mixedOps).1 1 = alone.1 1 ∧
      (run step twoSessions mixedOps).2.filter (Event.isAbout 1 id) =
        alone.2.filter (Event.isAbout 1 id) := by
  intro id step alone
  exact ⟨by decide +kernel, sessions_do_not_interfere Sodium.xorSodium Agreement.zeroKeys
    .little 1 id twoSessions mixedOps (by decide +kernel) (by decide +kernel)⟩

end Example

end Chamlon.Server
