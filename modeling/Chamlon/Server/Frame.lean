import Mathlib.Tactic
import Chamlon.Server.Reply

/-!
What the server's operations leave alone. A slot in use keeps its keys, its
session id and its addresses unless it is dropped or its own client shakes hands
again; and a handshake function that installs nothing changes no slot in use.
-/

namespace Chamlon.Server

open Config Memory Reassembly

/-- The part of a slot that a handshake establishes. -/
def SameKeys (before after : Session) : Prop :=
  after.active = before.active ∧ after.clientAddr = before.clientAddr ∧
    after.sessionId = before.sessionId ∧ after.kRecv = before.kRecv ∧
    after.kSend = before.kSend ∧ after.vpnIp = before.vpnIp

theorem SameKeys.refl (s : Session) : SameKeys s s := ⟨rfl, rfl, rfl, rfl, rfl, rfl⟩

theorem SameKeys.trans {first second third : Session} (h : SameKeys first second)
    (h' : SameKeys second third) : SameKeys first third := by
  obtain ⟨hactive, haddr, hid, hrecv, hsend, hip⟩ := h
  obtain ⟨hactive', haddr', hid', hrecv', hsend', hip'⟩ := h'
  exact ⟨hactive'.trans hactive, haddr'.trans haddr, hid'.trans hid,
    hrecv'.trans hrecv, hsend'.trans hsend, hip'.trans hip⟩

theorem Answers.of_sameKeys {na : Sodium} {keys : ServerKeys} {order : Endian}
    {random : Ephemeral} {msg1 msg2 : Bytes} {src : SockAddr} {s t : Session}
    (h : Answers na keys order random msg1 src msg2 s) (hsame : SameKeys s t) :
    Answers na keys order random msg1 src msg2 t := by
  obtain ⟨hactive, haddr, sig, secrets, hsig, hsecrets, hid, hrecv, hsend, hmsg2⟩ := h
  obtain ⟨hactive', haddr', hid', hrecv', hsend', hip'⟩ := hsame
  exact ⟨hactive'.trans hactive, haddr'.trans haddr, sig, secrets, hsig, hsecrets,
    hid'.trans hid, hrecv'.trans hrecv, hsend'.trans hsend, by rw [hip']; exact hmsg2⟩

/-- The slot keeps what its handshake established, or is dropped. -/
def Keeps (before after : Session) : Prop :=
  SameKeys before after ∨ after.active = false

theorem Keeps.refl (s : Session) : Keeps s s := .inl (.refl s)

theorem Keeps.trans {first second third : Session} (h : Keeps first second)
    (h' : Keeps second third) : Keeps first third := by
  rcases h' with hsame | hdropped
  · rcases h with hfirst | hinactive
    · exact .inl (hfirst.trans hsame)
    · exact .inr (hsame.1.trans hinactive)
  · exact .inr hdropped

theorem keeps_update {sessions : Sessions} {i : Slot} {s : Session}
    (h : SameKeys (sessions i) s) (j : Slot) :
    Keeps (sessions j) (Function.update sessions i s j) := by
  by_cases hj : j = i
  · subst hj
    rw [Function.update_self]
    exact .inl h
  · rw [Function.update_of_ne hj]
    exact .refl _

theorem keeps_of_eq {before after : Session} (h : after = before) :
    Keeps before after := h ▸ .refl before

/-- Installing keys and sending MSG2 are the two events by which a handshake
takes effect. -/
def Event.isCommit : Event → Bool
  | .installed _ _ => true
  | .sendMsg2 _ _ => true
  | _ => false

def Uncommitted (events : List Event) : Prop := ∀ e ∈ events, e.isCommit = false

instance (events : List Event) : Decidable (Uncommitted events) :=
  inferInstanceAs (Decidable (∀ e ∈ events, e.isCommit = false))

theorem uncommitted_append {first second : List Event} :
    Uncommitted (first ++ second) ↔ Uncommitted first ∧ Uncommitted second := by
  simp only [Uncommitted, List.mem_append, or_imp, forall_and]

theorem freeSession_keeps (i : Slot) (sessions : Sessions) (j : Slot) :
    Keeps (sessions j) ((freeSession i sessions).1 j) := by
  by_cases hj : j = i
  · subst hj
    unfold freeSession
    split
    next =>
      right
      dsimp only
      rw [Function.update_self]
      rfl
    next => exact .refl _
  · exact keeps_of_eq (freeSession_of_ne sessions hj)

/-- Beside its own slot, `handle_msg1` touches only a slot of the same client,
and not even that before it has installed keys. -/
theorem activateSlot_frame {env : Env} {src : SockAddr} {i j : Slot}
    {secrets : Sodium.SessionSecrets} {msg2 : Bytes} {sessions : Sessions} (hne : j ≠ i)
    (h : (sessions j).clientAddr ≠ src ∨
      Uncommitted (activateSlot env src i secrets msg2 sessions).2) :
    (activateSlot env src i secrets msg2 sessions).1 j = sessions j := by
  obtain ⟨events, _, hresult⟩ := activateSlot_cases env src i secrets msg2 sessions
  have hinstalled : .installed i secrets.sessionId ∈
      (activateSlot env src i secrets msg2 sessions).2 := by
    rcases hresult with hfreed | hsent
    · rw [hfreed]
      exact List.mem_cons_self
    · rw [hsent]
      exact List.mem_cons_self
  have haddr : (sessions j).clientAddr ≠ src :=
    h.resolve_right fun huncommitted => nomatch huncommitted _ hinstalled
  have hbound : boundSlots env src i secrets sessions j = sessions j :=
    (boundSlots_of_ne env src secrets sessions hne).resolve_right fun hold => haddr hold.1
  generalize boundSlots env src i secrets sessions = bound at hresult hbound
  rcases hresult with hfreed | hsent
  · rw [hfreed, emit_fst, freeSession_of_ne bound hne, hbound]
  · rw [hsent, emit_fst]
    exact (Function.update_of_ne hne _ _).trans hbound

theorem msg1InSlot_frame {na : Sodium} {keys : ServerKeys} {order : Endian} {env : Env}
    {random : Ephemeral} {msg1 : Bytes} {src : SockAddr} {i j : Slot}
    {sessions : Sessions} (hne : j ≠ i)
    (h : (sessions j).clientAddr ≠ src ∨
      Uncommitted (msg1InSlot na keys order env random msg1 src i sessions).2) :
    (msg1InSlot na keys order env random msg1 src i sessions).1 j = sessions j := by
  have hreserved : Function.update sessions i
      ((sessions i).reserve i (msg1Params order msg1)) j = sessions j :=
    Function.update_of_ne hne _ _
  rcases msg1InSlot_cases na keys order env random msg1 src i sessions with
    hfreed | ⟨sig, secrets, _, _, hresult⟩
  · rw [hfreed, freeSession_of_ne _ hne, hreserved]
  · rw [hresult, ← hreserved] at h
    rw [hresult, activateSlot_frame hne h, hreserved]

theorem handleMsg1_frame {na : Sodium} {keys : ServerKeys} {order : Endian} {env : Env}
    {random : Ephemeral} {msg1 : Bytes} {src : SockAddr} {sessions : Sessions} {j : Slot}
    (hactive : (sessions j).active = true)
    (h : (sessions j).clientAddr ≠ src ∨
      Uncommitted (handleMsg1 na keys order env random msg1 src sessions).2) :
    (handleMsg1 na keys order env random msg1 src sessions).1 j = sessions j := by
  rcases handleMsg1_cases na keys order env random msg1 src sessions with
    ⟨events, _, hrefused⟩ | ⟨events, i, next, _, hallocated, hresult⟩
  · rw [hrefused]
  · obtain ⟨hfree, hnext⟩ := allocateSession_eq_some hallocated
    have hne : j ≠ i := by
      rintro rfl
      rw [hactive] at hfree
      cases hfree
    have hj : next j = sessions j := by
      rw [hnext, Function.update_of_ne hne]
    rw [hresult, emit_snd, uncommitted_append, ← hj] at h
    rw [hresult, emit_fst, msg1InSlot_frame hne (h.imp_right And.right), hj]

theorem handleRehandshakeMsg1_frame {na : Sodium} {keys : ServerKeys} {order : Endian}
    {env : Env} {msg1 : Bytes} {src : SockAddr} {sessions : Sessions} {j : Slot}
    (hactive : (sessions j).active = true)
    (h : (sessions j).clientAddr ≠ src ∨
      Uncommitted (handleRehandshakeMsg1 na keys order env msg1 src sessions).2) :
    (handleRehandshakeMsg1 na keys order env msg1 src sessions).1 j = sessions j := by
  rcases handleRehandshakeMsg1_cases na keys order env msg1 src sessions with
    hignored | ⟨random, hfirst⟩ | ⟨i, sig, secrets, hfound, _, _, hrekeyed⟩
  · rw [hignored]
  · rw [hfirst] at h ⊢
    exact handleMsg1_frame hactive h
  · obtain ⟨_, haddr⟩ := sessionByAddr_eq_some hfound
    rw [hrekeyed] at h ⊢
    apply Function.update_of_ne
    rintro rfl
    rcases h with hother | huncommitted
    · exact hother haddr
    · cases huncommitted (.installed j secrets.sessionId) (by simp)

theorem inboundAccepted_keeps (order : Endian) (env : Env) (i : Slot) (plain : Bytes)
    (sessions : Sessions) (j : Slot) :
    Keeps (sessions j) ((inboundAccepted order env i plain sessions).1 j) := by
  rcases inboundAccepted_cases order env i plain sessions with
    hfreed | ⟨now, table, events, _, hresult, _⟩
  · rw [hfreed]
    exact freeSession_keeps i sessions j
  · rw [hresult]
    apply keeps_update
    exact ⟨rfl, rfl, rfl, rfl, rfl, rfl⟩

theorem inboundData_keeps (na : Sodium) (order : Endian) (env : Env) (buf : Bytes)
    (sessions : Sessions) (j : Slot) :
    Keeps (sessions j) ((inboundData na order env buf sessions).1 j) := by
  rcases inboundData_cases na order env buf sessions with
    ⟨_, hnone⟩ | ⟨i, _, ⟨events, _, hrefused⟩ | ⟨plain, _, _, hresult⟩⟩
  · rw [hnone]
    exact .refl _
  · rw [hrefused]
    apply keeps_update
    exact ⟨rfl, rfl, rfl, rfl, rfl, rfl⟩
  · rw [hresult]
    refine Keeps.trans ?_ (inboundAccepted_keeps order env i plain _ j)
    apply keeps_update
    exact ⟨rfl, rfl, rfl, rfl, rfl, rfl⟩

/-- A datagram leaves a slot in use alone or drops it, unless it is a handshake
packet from the address of that slot. -/
theorem handleInboundUdp_keeps {na : Sodium} {keys : ServerKeys} {order : Endian}
    {env : Env} {src : SockAddr} {buf : Bytes} {sessions : Sessions} {j : Slot}
    (hactive : (sessions j).active = true)
    (h : packetType buf = pktTypeHandshake → (sessions j).clientAddr ≠ src) :
    Keeps (sessions j) ((handleInboundUdp na keys order env src buf sessions).1 j) := by
  rcases handleInboundUdp_cases na keys order env src buf sessions with
    ⟨_, events, _, hdropped⟩ | ⟨hmsg1, ⟨_, hagain⟩ | ⟨_, hfirst⟩⟩ | ⟨_, hdata⟩
  · rw [hdropped]
    exact .refl _
  · rw [hagain]
    exact keeps_of_eq (handleRehandshakeMsg1_frame hactive (.inl (h hmsg1.2.1)))
  · rw [hfirst]
    exact keeps_of_eq (handleMsg1_frame hactive (.inl (h hmsg1.2.1)))
  · rw [hdata, emit_fst]
    exact inboundData_keeps na order env buf sessions j

theorem cleanupExpiredSessions_keeps (now : Int) (sessions : Sessions) (j : Slot) :
    Keeps (sessions j) ((cleanupExpiredSessions now sessions).1 j) := by
  unfold cleanupExpiredSessions
  dsimp only
  split
  · exact .inr rfl
  · exact .refl _

theorem sendKeepalives_keeps (now : Int) (sessions : Sessions) (j : Slot) :
    Keeps (sessions j) ((sendKeepalives now sessions).1 j) := by
  unfold sendKeepalives
  dsimp only
  split
  · exact .inl ⟨rfl, rfl, rfl, rfl, rfl, rfl⟩
  · exact .refl _

theorem performMaintenance_keeps (now : Int) (sessions : Sessions) (j : Slot) :
    Keeps (sessions j) ((performMaintenance now sessions).1 j) := by
  have hswept : Keeps ((cleanupExpiredSessions now sessions).1 j)
      (sweepSessions now (cleanupExpiredSessions now sessions).1 j) :=
    .inl ⟨rfl, rfl, rfl, rfl, rfl, rfl⟩
  exact ((cleanupExpiredSessions_keeps now sessions j).trans hswept).trans
    (sendKeepalives_keeps now _ j)

/-- A handshake packet from this address. -/
def Op.isHandshakeFrom (src : SockAddr) : Op → Bool
  | .datagram _ sender buf => sender == src && packetType buf == pktTypeHandshake
  | _ => false

theorem serverStep_keeps {na : Sodium} {keys : ServerKeys} {order : Endian}
    {sessions : Sessions} {op : Op} {src : SockAddr} {j : Slot}
    (hactive : (sessions j).active = true) (haddr : (sessions j).clientAddr = src)
    (hop : op.isHandshakeFrom src = false) :
    Keeps (sessions j) ((serverStep na keys order sessions op).1 j) := by
  cases op with
  | datagram env sender buf =>
      rw [serverStep]
      apply handleInboundUdp_keeps hactive
      intro htype hsender
      simp [Op.isHandshakeFrom, htype, ← hsender, haddr] at hop
  | free i => exact freeSession_keeps i sessions j
  | maintenance now => exact performMaintenance_keeps now sessions j

end Chamlon.Server
