import Mathlib.Tactic
import Chamlon.Agreement.Binding
import Chamlon.Agreement.Rekey
import Chamlon.Server.IdleExpiry
import Chamlon.Server.SessionTable

/-!
The address of the client's tunnel against the address of its slot, over runs in which
the server sees the client under changing addresses and ports, is restarted, frees
sessions and serves others.

The server picks a slot from its own table: the one it has for the address MSG1 comes
from, or the first free one. MSG2 carries the address of that slot. The client takes it
over in its first handshake only, so after a rehandshake the two agree exactly when the
server picked the slot whose address the client has already.
-/

namespace Chamlon.Agreement

open Config Memory Machine Server Client

/-- Client, server and network, with two histories that nothing reads: the exchanges in
which the server answered the client, and the address in the MSG2 accepted last. -/
structure Roaming where
  system : System
  exchanges : List Exchange
  offered : Option (Octets 4)

def Roaming.start : Roaming := ⟨.start, [], none⟩

inductive RoamingAct where
  /-- A step while the server sees the client at this address. -/
  | act (src : SockAddr) (a : Act)
  /-- The server starts again, with the same keys and an empty table. -/
  | restart

namespace World

variable (w : World)

/-- The exchanges of a step. -/
def answered (s : System) : Act → List Exchange
  | .serve env msg1 =>
      let result := w.serveMsg1 s env msg1
      result.2.filterMap fun
        | .sendMsg2 _ msg2 => some ⟨s.server, w.src, msg1, msg2, result.1.server⟩
        | _ => none
  | _ => []

/-- The session with which `client_handshake` returns 0 in a step. -/
def accepted (s : System) : Act → Option ClientSession
  | .leave start uninit polls _ =>
      match s.client with
      | .waiting eph msg1Sent previous =>
          if polls.all (Genuine s.msg2s) then
            match w.handshakeResult eph msg1Sent previous start uninit polls with
            | .established session => some session
            | _ => none
          else none
      | _ => none
  | _ => none

def roam (s : Roaming) : RoamingAct → Roaming × List Event
  | .act src a =>
      let here : World := { w with src }
      let result := here.step s.system a
      (⟨result.1, s.exchanges ++ here.answered s.system a,
        (here.accepted s.system a).elim s.offered fun session => some session.assignedIp⟩,
        result.2)
  | .restart => ({ s with system := { s.system with server := noSessions } }, [])

end World

/-- If the signature in the MSG2 that the client reads verifies, the server has sent this
MSG2 and made the signature over the values the client checks. -/
def honest (w : World) (s : Roaming) : RoamingAct → Bool
  | .act _ (.leave start uninit polls _) =>
      match s.system.client with
      | .waiting eph _ previous =>
          match (receiveMsg2 (start + msg2TimeoutSec) polls 0 uninit
              (previous.map fun _ => [])).1 with
          | .received msg2 =>
              !w.na.verifyDetached (parseMsg2 msg2.val).sig (clientBlob w.na eph msg2.val)
                w.serverPk ||
              s.exchanges.any fun x =>
                x.msg2 == msg2.val && x.blob == clientBlob w.na eph msg2.val
          | _ => true
      | _ => true
  | _ => true

/-- The slot that holds the client's session has the address of the client's tunnel. -/
def AddressAgrees (s : Roaming) : Prop :=
  ∀ srv, s.system.client = .connected srv →
    ∀ i, (s.system.server i).active = true →
      (s.system.server i).sessionId = srv.session.sessionId →
      (s.system.server i).vpnIp = srv.session.assignedIp

/-- The connection the client has, also while it is in a rehandshake. -/
def Phase.current : Phase → Option Connection
  | .connected srv => some srv
  | .waiting _ _ previous => previous
  | _ => none

/-- The session id of `slot` was installed, and whatever slot has it now has the address
of `slot`. -/
structure Owner (past : List Event) (sessions : Sessions) (slot : Session) : Prop where
  known : slot.sessionId ∈ installedIds past
  address : ∀ j, (sessions j).active = true → (sessions j).sessionId = slot.sessionId →
    (sessions j).vpnIp = slot.vpnIp

theorem Owner.step {past : List Event} {sessions : Sessions} {slot : Session}
    {result : Sessions × List Event} (h : Owner past sessions slot)
    (heffect : Effect sessions result) (hbefore : TableOk false sessions)
    (hafter : TableOk false result.1)
    (hnew : ∀ id ∈ installedIds result.2, id ∉ installedIds past) :
    Owner (past ++ result.2) result.1 slot where
  known := by
    rw [installedIds_append]
    exact List.mem_append_left _ h.known
  address j hactive hid := by
    have hold : slot.sessionId ∉ installedIds result.2 := fun hmem => hnew _ hmem h.known
    rw [← hid] at hold
    obtain ⟨hactive', hid'⟩ := heffect.was hactive hold
    rw [(hafter.slot j).address hactive, ← (hbefore.slot j).address hactive']
    exact h.address j hactive' (hid'.symm.trans hid)

/-- A slot of the table owns its session id as long as no two slots share one. -/
theorem owner_self {past : List Event} {sessions : Sessions} (h : Guarded past sessions)
    {i : Slot} (hactive : (sessions i).active = true) :
    Owner past sessions (sessions i) where
  known := h.known i hactive
  address j hj hid := by rw [h.distinct j i hj hactive hid]

section Steps

variable {w : World} {s : System}

theorem enterHandshake_server (now : Int) (eph : Client.Ephemeral) (msg1Sent : Bool) :
    (w.enterHandshake s now eph msg1Sent).server = s.server := by
  unfold World.enterHandshake
  dsimp only
  cases s.client with
  | started => rfl
  | connected srv =>
      dsimp only
      split <;> rfl
  | waiting eph msg1Sent previous => rfl
  | closed => rfl

theorem leaveHandshake_server (start : Int) (uninit : Octets msg2Total)
    (polls : List Poll) (now : Int) :
    (w.leaveHandshake s start uninit polls now).server = s.server := by
  unfold World.leaveHandshake
  cases s.client with
  | waiting eph msg1Sent previous =>
      dsimp only
      split
      · split <;> rfl
      · rfl
  | started => rfl
  | connected srv => rfl
  | closed => rfl

/-- The server moves by one of its operations or not at all. -/
theorem step_server (w : World) (s : System) (a : Act) :
    Effect s.server ((w.step s a).1.server, (w.step s a).2) ∧
      (TableOk false s.server → TableOk false (w.step s a).1.server) := by
  have hserver (op : Op) : Effect s.server (serverStep w.na w.keys w.order s.server op) ∧
      (TableOk false s.server →
        TableOk false (serverStep w.na w.keys w.order s.server op).1) :=
    ⟨serverStep_effect w.na w.keys w.order s.server op, fun h =>
      tableStep_tableOk w.na w.keys w.order h (.server op) fun hno => Bool.noConfusion hno⟩
  cases a with
  | enter now eph msg1Sent =>
      dsimp only [World.step]
      rw [enterHandshake_server]
      exact ⟨effect_refl s.server, id⟩
  | serve env msg1 =>
      dsimp only [World.step, World.serveMsg1]
      split
      · exact hserver (.datagram env w.src msg1)
      · exact ⟨effect_refl s.server, id⟩
  | leave start uninit polls now =>
      dsimp only [World.step]
      rw [leaveHandshake_server]
      exact ⟨effect_refl s.server, id⟩
  | operate op =>
      dsimp only [World.step, World.operateServer]
      split
      · exact ⟨effect_refl s.server, id⟩
      · exact hserver op
  | quit => exact ⟨effect_refl s.server, id⟩

/-- Entering an attempt changes no session of the client. -/
theorem enterHandshake_current {now : Int} {eph : Client.Ephemeral} {msg1Sent : Bool}
    {srv : Connection}
    (h : (w.enterHandshake s now eph msg1Sent).client.current = some srv) :
    ∃ old, s.client.current = some old ∧ srv.session = old.session := by
  unfold World.enterHandshake at h
  dsimp only at h
  cases hclient : s.client with
  | started =>
      rw [hclient] at h
      cases h
  | connected old =>
      rw [hclient] at h
      dsimp only at h
      have hsession := shouldAttemptRehandshake_session now old
      generalize shouldAttemptRehandshake now old = attempt at hsession h
      obtain ⟨next, decision⟩ := attempt
      refine ⟨old, rfl, ?_⟩
      cases decision with
      | now =>
          rw [← Option.some.inj h]
          exact hsession
      | wait =>
          rw [← Option.some.inj h]
          exact hsession
      | disconnect => cases h
  | waiting eph msg1Sent previous =>
      rw [hclient] at h
      dsimp only at h
      rw [hclient] at h
      exact ⟨srv, h, rfl⟩
  | closed =>
      rw [hclient] at h
      dsimp only at h
      rw [hclient] at h
      cases h

/-- Leaving an attempt the client keeps the session it had or has the accepted one, with
an address of its own. -/
theorem leaveHandshake_current (start : Int) (uninit : Octets msg2Total)
    (polls : List Poll) (now : Int) {srv : Connection}
    (h : (w.leaveHandshake s start uninit polls now).client.current = some srv) :
    (w.accepted s (.leave start uninit polls now) = none ∧
      ∃ old, s.client.current = some old ∧ srv.session = old.session) ∨
    ∃ session, w.accepted s (.leave start uninit polls now) = some session ∧
      srv.session = { session with assignedIp := srv.session.assignedIp } := by
  unfold World.leaveHandshake at h
  unfold World.accepted
  dsimp only
  cases hclient : s.client with
  | waiting eph msg1Sent previous =>
      rw [hclient] at h
      dsimp only at h ⊢
      split at h
      next hgenuine =>
        rw [if_pos hgenuine]
        cases hresult : w.handshakeResult eph msg1Sent previous start uninit polls with
        | waiting =>
            rw [hresult] at h
            dsimp only [World.afterHandshake] at h
            rw [hclient] at h
            exact Or.inl ⟨rfl, srv, h, rfl⟩
        | failed =>
            rw [hresult] at h
            cases previous with
            | none => cases h
            | some old =>
                refine Or.inl ⟨rfl, old, rfl, ?_⟩
                rw [← Option.some.inj h]
                rfl
        | established session =>
            rw [hresult] at h
            refine Or.inr ⟨session, rfl, ?_⟩
            cases previous with
            | none =>
                rw [← Option.some.inj h]
                rfl
            | some old =>
                rw [← Option.some.inj h]
                rfl
      next hforeign =>
        rw [if_neg hforeign]
        rw [hclient] at h
        exact Or.inl ⟨rfl, srv, h, rfl⟩
  | started =>
      rw [hclient] at h
      dsimp only at h
      rw [hclient] at h
      cases h
  | connected old =>
      rw [hclient] at h
      dsimp only at h
      rw [hclient] at h
      exact Or.inl ⟨rfl, srv, h, rfl⟩
  | closed =>
      rw [hclient] at h
      dsimp only at h
      rw [hclient] at h
      cases h

/-- What the client has after a step. -/
theorem step_current (w : World) (s : System) (a : Act) {srv : Connection}
    (h : (w.step s a).1.client.current = some srv) :
    (w.accepted s a = none ∧
      ∃ old, s.client.current = some old ∧ srv.session = old.session) ∨
    ∃ session, w.accepted s a = some session ∧
      srv.session = { session with assignedIp := srv.session.assignedIp } := by
  cases a with
  | enter now eph msg1Sent => exact Or.inl ⟨rfl, enterHandshake_current h⟩
  | serve env msg1 =>
      refine Or.inl ⟨rfl, srv, ?_, rfl⟩
      dsimp only [World.step, World.serveMsg1] at h
      split at h <;> exact h
  | leave start uninit polls now => exact leaveHandshake_current start uninit polls now h
  | operate op =>
      refine Or.inl ⟨rfl, srv, ?_, rfl⟩
      dsimp only [World.step, World.operateServer] at h
      split at h <;> exact h
  | quit => cases h

end Steps

/-- The server picked this slot for the exchange, and the slot has the address of its
index. -/
structure Exchange.EndsIn (x : Exchange) (i : Slot) : Prop where
  picked : Picks x.src x.before i
  address : (x.after i).vpnIp = vpnIpOf i

/-- What holds between the steps while no session id was installed twice. -/
structure Addressed (w : World) (past : List Event) (s : Roaming) : Prop where
  table : TableOk false s.system.server
  guarded : Guarded past s.system.server
  exchange : ∀ x ∈ s.exchanges, ∃ i random, x.EndsIn i ∧
    Answers w.na w.keys w.order random x.msg1 x.src x.msg2 (x.after i) ∧
      Owner past s.system.server (x.after i)
  current : ∀ srv, s.system.client.current = some srv →
    ∃ x ∈ s.exchanges, ∃ i, x.EndsIn i ∧ Matches (x.after i) srv.session ∧
      s.offered = some (x.after i).vpnIp ∧ Owner past s.system.server (x.after i)

theorem addressed_start (w : World) : Addressed w [] .start where
  table := noSessions_tableOk false
  guarded := guarded_start
  exchange _ hx := absurd hx List.not_mem_nil
  current _ h := Option.noConfusion rfl (heq_of_eq h)

theorem Addressed.restart {w : World} {past : List Event} {s : Roaming}
    (h : Addressed w past s) :
    Addressed w (past ++ (w.roam s .restart).2) (w.roam s .restart).1 := by
  have howner {slot : Session} (howner : Owner past s.system.server slot) :
      Owner (past ++ []) noSessions slot := by
    rw [List.append_nil]
    exact ⟨howner.known, fun _ hactive => Bool.noConfusion hactive⟩
  refine ⟨noSessions_tableOk false, ?_, fun x hx => ?_, fun srv hsrv => ?_⟩
  · exact h.guarded.quiet (fun j => quietAt_of_inactive _ rfl) ⟨rfl, rfl⟩
  · obtain ⟨i, random, hends, hanswers, hold⟩ := h.exchange x hx
    exact ⟨i, random, hends, hanswers, howner hold⟩
  · obtain ⟨x, hx, i, hends, hmatches, hoffered, hold⟩ := h.current srv hsrv
    exact ⟨x, hx, i, hends, hmatches, hoffered, howner hold⟩

/-- An accepted MSG2 is that of an exchange of the server, and the client checked it
against the values of the exchange. -/
theorem accepted_exchange {w : World} (hkeys : TrustedKeys w.na w.keys w.serverPk)
    {s : Roaming} {src : SockAddr} {a : Act} {session : ClientSession}
    (haccepted : w.accepted s.system a = some session)
    (hok : honest w s (.act src a) = true) :
    ∃ x ∈ s.exchanges, ∃ eph, x.blob = clientBlob w.na eph x.msg2 ∧
      finishHandshake w.na w.serverPk (w.na.kxPublic w.keys.serverSk) eph x.msg2 =
        some session := by
  cases a with
  | leave start uninit polls now =>
      unfold World.accepted at haccepted
      unfold honest at hok
      dsimp only at haccepted hok
      split at haccepted
      next eph msg1Sent previous hclient =>
        rw [hclient] at hok
        dsimp only at hok
        split at haccepted
        · split at haccepted
          next established hresult =>
            obtain ⟨serverKxPk, msg2, hconvert, hreceived, hfinish⟩ :=
              clientHandshake_established hresult
            rw [hkeys.converts] at hconvert
            rw [← Option.some.inj hconvert, Option.some.inj haccepted] at hfinish
            rw [hreceived] at hok
            dsimp only at hok
            rw [(finishHandshake_eq_some hfinish).1, Bool.not_true, Bool.false_or,
              List.any_eq_true] at hok
            obtain ⟨x, hx, hsame⟩ := hok
            rw [Bool.and_eq_true, beq_iff_eq, beq_iff_eq] at hsame
            obtain ⟨hmsg2, hblob⟩ := hsame
            rw [← hmsg2] at hfinish hblob
            exact ⟨x, hx, eph, hblob, hfinish⟩
          next => cases haccepted
        · cases haccepted
      next => cases haccepted
  | enter now eph msg1Sent => cases haccepted
  | serve env msg1 => cases haccepted
  | operate op => cases haccepted
  | quit => cases haccepted

/-- Every exchange of a step is answered by a slot of the table after it, picked in the
table before it. -/
theorem answered_slot {w : World} {s : System} {a : Act} {x : Exchange}
    (h : x ∈ w.answered s a) :
    x.after = (w.step s a).1.server ∧ ∃ i random, Picks x.src x.before i ∧
      Answers w.na w.keys w.order random x.msg1 x.src x.msg2 (x.after i) := by
  cases a with
  | serve env msg1 =>
      obtain ⟨e, he, hx⟩ := List.mem_filterMap.mp h
      cases e with
      | sendMsg2 dst msg2 =>
          rw [← Option.some.inj hx]
          refine ⟨rfl, ?_⟩
          dsimp only
          unfold World.serveMsg1 at he ⊢
          split at he
          next hsent =>
            rw [if_pos hsent]
            obtain ⟨_, i, random, hpicked, hanswers, _⟩ := handleInboundUdp_sent he
            exact ⟨i, random, hpicked, hanswers⟩
          next => cases he
      | _ => cases hx
  | enter now eph msg1Sent => cases h
  | leave start uninit polls now => cases h
  | operate op => cases h
  | quit => cases h

theorem Addressed.act {w : World} (hkeys : TrustedKeys w.na w.keys w.serverPk)
    {past : List Event} {s : Roaming} (h : Addressed w past s) (a : Act)
    (hok : honest w s (.act w.src a) = true)
    (hnew : ∀ id ∈ installedIds (w.step s.system a).2, id ∉ installedIds past) :
    Addressed w (past ++ (w.roam s (.act w.src a)).2) (w.roam s (.act w.src a)).1 := by
  obtain ⟨heffect, htable⟩ := step_server w s.system a
  have hbefore := h.table
  have hafter := htable hbefore
  have hguarded := h.guarded.step heffect hnew
  have hkept {slot : Session} (howner : Owner past s.system.server slot) :
      Owner (past ++ (w.step s.system a).2) (w.step s.system a).1.server slot :=
    howner.step heffect hbefore hafter hnew
  refine ⟨hafter, hguarded, fun x hx => ?_, fun srv hsrv => ?_⟩
  · rcases List.mem_append.mp hx with hold | hlast
    · obtain ⟨i, random, hends, hanswers, howner⟩ := h.exchange x hold
      exact ⟨i, random, hends, hanswers, hkept howner⟩
    · obtain ⟨hserver, i, random, hpicked, hanswers⟩ := answered_slot hlast
      have hactive := hanswers.1
      rw [hserver] at hactive
      refine ⟨i, random, ⟨hpicked, ?_⟩, hanswers, ?_⟩
      · rw [hserver]
        exact (hafter.slot i).address hactive
      · rw [hserver]
        exact owner_self hguarded hactive
  · rcases step_current w s.system a hsrv with
      ⟨hnone, old, hold, hsession⟩ | ⟨session, haccepted, hsession⟩
    · obtain ⟨x, hx, i, hends, hmatches, hoffered, howner⟩ := h.current old hold
      rw [← hsession] at hmatches
      refine ⟨x, List.mem_append_left _ hx, i, hends, hmatches, ?_, hkept howner⟩
      dsimp only [World.roam]
      rw [hnone]
      exact hoffered
    · obtain ⟨x, hx, eph, hblob, hfinish⟩ := accepted_exchange hkeys haccepted hok
      obtain ⟨i, random, hends, hanswers, howner⟩ := h.exchange x hx
      have hmatches := matches_of_blob hkeys hanswers hblob hfinish
      have haddress : session.assignedIp = (x.after i).vpnIp := by
        obtain ⟨_, secrets, _, hsecrets⟩ := finishHandshake_eq_some hfinish
        obtain ⟨_, _, sig, _, _, _, _, _, _, hmsg2⟩ := hanswers
        rw [hsecrets, hmsg2, parseMsg2_buildMsg2]
      refine ⟨x, List.mem_append_left _ hx, i, hends, ?_, ?_, hkept howner⟩
      · rw [hsession]
        exact hmatches
      · dsimp only [World.roam]
        rw [haccepted, Option.elim_some, haddress]

theorem sessionByVpnip_iff {sessions : Sessions} (h : TableOk false sessions) {i : Slot}
    (hactive : (sessions i).active = true) (ip : Octets 4) :
    sessionByVpnip ip sessions = some i ↔ (sessions i).vpnIp = ip := by
  unfold sessionByVpnip
  rw [Fin.find?_eq_some_iff]
  simp only [Bool.and_eq_true, beq_iff_eq, Bool.and_eq_false_iff, beq_eq_false_iff_ne]
  constructor
  · exact fun hfound => hfound.1.2
  · intro hip
    refine ⟨⟨hactive, hip⟩, fun j hj => ?_⟩
    cases hother : (sessions j).active with
    | false => exact Or.inl rfl
    | true =>
        refine Or.inr fun hsame => ne_of_lt hj (vpnIpOf_injective ?_)
        rw [← (h.slot j).address hother, ← (h.slot i).address hactive, hsame, hip]

/-- In every run of the client and the server, with restarts, changing addresses, freed
sessions and other clients: the session the client has is that of an exchange for which
the server picked a slot in its table, the one it had for the address MSG1 came from or
the first free one, and MSG2 carried the address of that slot. The slot that holds the
session has the address of the client's tunnel, and packets to that address go to it,
exactly when the slot picked is the one with the address the client has. -/
theorem vpn_address_agrees_iff (w : World) (hkeys : TrustedKeys w.na w.keys w.serverPk)
    (acts : List RoamingAct)
    (hhonest : Along w.roam (fun s a => honest w s a = true) .start acts)
    (hids : (installedIds (run w.roam .start acts).2).Nodup) (s : Roaming)
    (hreached : s = (run w.roam .start acts).1) (srv : Connection)
    (hclient : s.system.client = .connected srv) :
    ∃ x ∈ s.exchanges, ∃ k, Picks x.src x.before k ∧
      Matches (x.after k) srv.session ∧ (x.after k).vpnIp = vpnIpOf k ∧
      s.offered = some (vpnIpOf k) ∧
      ∀ i, (s.system.server i).active = true →
        (s.system.server i).sessionId = srv.session.sessionId →
        ((s.system.server i).vpnIp = srv.session.assignedIp ↔
          vpnIpOf k = srv.session.assignedIp) ∧
        (sessionByVpnip srv.session.assignedIp s.system.server = some i ↔
          vpnIpOf k = srv.session.assignedIp) := by
  have hrun := run_history w.roam (fun s a => honest w s a = true)
    (fun past s => (installedIds past).Nodup → Addressed w past s)
    (fun past s a h hok hnodup => by
      rw [installedIds_append] at hnodup
      obtain ⟨hpast, _, hdisjoint⟩ := List.nodup_append.mp hnodup
      cases a with
      | act src a =>
          -- The step of the world in which the client has the address `src`.
          let here : World := { w with src }
          have hinv : Addressed here past s :=
            ⟨(h hpast).table, (h hpast).guarded, (h hpast).exchange, (h hpast).current⟩
          have hstep := Addressed.act (w := here) hkeys hinv a hok
            fun id hid hold => hdisjoint id hold id hid rfl
          exact ⟨hstep.table, hstep.guarded, hstep.exchange, hstep.current⟩
      | restart => exact (h hpast).restart)
    [] .start acts (fun _ => addressed_start w) hhonest
  have hinv := hrun hids
  rw [List.nil_append, ← hreached] at hinv
  have hcurrent : s.system.client.current = some srv := by rw [hclient]; rfl
  obtain ⟨x, hx, k, hends, hmatches, hoffered, howner⟩ := hinv.current srv hcurrent
  rw [hends.address] at hoffered
  refine ⟨x, hx, k, hends.picked, hmatches, hends.address, hoffered,
    fun i hactive hid => ?_⟩
  have haddress : (s.system.server i).vpnIp = vpnIpOf k := by
    rw [howner.address i hactive (hid.trans hmatches.2.1.symm), hends.address]
  rw [sessionByVpnip_iff hinv.table hactive, haddress]
  exact ⟨Iff.rfl, Iff.rfl⟩

/-- The acts of one attempt at time `now`, with the address the server sees and the slot
it takes. -/
def roamingAttempt (src : SockAddr) (now : Int) (client server : UInt8) (slot : Slot) :
    List RoamingAct :=
  [.act src (.enter now (bytewise client) true),
    .act src (.serve (calmEnv now server) (zeroWorld.msg1 (bytewise client))),
    .act src (.leave now (Octets.zero msg2Total)
      [⟨now + 1, .datagram (bytewiseMsg2 client server (vpnIpOf slot)), true⟩] (now + 1))]

/-- A handshake, a restart of the server and a rehandshake. -/
def restartedActs : List RoamingAct :=
  roamingAttempt ⟨1, 2⟩ 0 5 3 0 ++ [.restart] ++ roamingAttempt ⟨1, 2⟩ 20 6 4 0

/-- After the restart the client gets the first slot again. -/
theorem vpn_address_agrees_iff_restarted :
    ∃ s srv i, s = (run zeroWorld.roam .start restartedActs).1 ∧
      s.system.client = .connected srv ∧ Matches (s.system.server i) srv.session ∧
      sessionByVpnip srv.session.assignedIp s.system.server = some i := by
  have hhonest : Along zeroWorld.roam (fun s a => honest zeroWorld s a = true) .start
      restartedActs := by decide +kernel
  have hids : (installedIds (run zeroWorld.roam .start restartedActs).2).Nodup := by
    decide +kernel
  have hstate : (fun s : Roaming => s.system.client.connection.any fun srv =>
      decide (Matches (s.system.server 0) srv.session ∧
        s.offered = some srv.session.assignedIp))
      (run zeroWorld.roam .start restartedActs).1 = true := by decide +kernel
  have hagrees := vpn_address_agrees_iff zeroWorld xorSodium_trusted restartedActs hhonest
    hids
  generalize (run zeroWorld.roam .start restartedActs).1 = s at hstate hagrees ⊢
  obtain ⟨srv, hsrv, hboth⟩ := (Option.any_eq_true _ _).mp hstate
  obtain ⟨hmatches, hoffered⟩ := of_decide_eq_true hboth
  have hclient := Phase.connection_eq_some hsrv
  obtain ⟨x, _, k, _, _, _, hcarried, hslots⟩ := hagrees s rfl srv hclient
  have hsame : vpnIpOf k = srv.session.assignedIp :=
    Option.some.inj (hcarried.symm.trans hoffered)
  have hslot := hslots 0 hmatches.1 hmatches.2.1
  exact ⟨s, srv, 0, rfl, hclient, hmatches, hslot.2.mpr hsame⟩

/-- The slot holds the client's session, and packets to the client's tunnel go to another
slot. -/
def Misrouted (s : Roaming) (i other : Slot) : Bool :=
  s.system.client.connection.any fun srv =>
    decide (Matches (s.system.server i) srv.session ∧
      (s.system.server i).vpnIp ≠ srv.session.assignedIp ∧
      sessionByVpnip srv.session.assignedIp s.system.server = some other)

theorem Misrouted.not_agrees {s : Roaming} {i other : Slot}
    (h : Misrouted s i other = true) : ¬AddressAgrees s := by
  obtain ⟨srv, hsrv, hslots⟩ := (Option.any_eq_true _ _).mp h
  obtain ⟨hmatches, hdiffers, _⟩ := of_decide_eq_true hslots
  intro hagrees
  exact hdiffers (hagrees srv (Phase.connection_eq_some hsrv) i hmatches.1 hmatches.2.1)

/-- A handshake, and a rehandshake after the port of the client has changed. -/
def portChangedActs : List RoamingAct :=
  roamingAttempt ⟨1, 2⟩ 0 5 3 0 ++ roamingAttempt ⟨1, 3⟩ 20 6 4 1

/-- The server takes the second slot for the new port, and the client keeps the address of
the first. -/
theorem vpn_address_disagrees :
    Misrouted (run zeroWorld.roam .start portChangedActs).1 1 0 = true ∧
      ¬AddressAgrees (run zeroWorld.roam .start portChangedActs).1 := by
  have hmisrouted : Misrouted (run zeroWorld.roam .start portChangedActs).1 1 0 = true := by
    decide +kernel
  exact ⟨hmisrouted, Misrouted.not_agrees hmisrouted⟩

end Chamlon.Agreement
