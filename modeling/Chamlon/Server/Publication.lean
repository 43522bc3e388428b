import Mathlib.Tactic
import Chamlon.Lib.Machine
import Chamlon.Server.Opening
import Chamlon.Server.Traffic

/-!
What other threads see of a slot that `handle_msg1` is filling. The steps of the call
are interleaved with whole calls of `cleanup_expired_sessions`, `perform_maintenance`,
`execute_send` and `session_by_vpnip` and with disconnects. Handshakes run one after
another, on one worker.

Beside the table stand, for every slot, the handshakes that set `active`, `client_addr`,
`last_activity` and `outq` last, and the values that the handshake which set `active`
publishes there. Wherever another thread looks the four handshakes are one and the slot's
own fields are the published values, except between the store to `active` and the one to
`outq`: there the slot is visible with what its previous user left behind, and a timeout
is measured from the wrong time.
-/

namespace Chamlon.Server

open Config Memory Machine Queue

/-- The numbers of the handshakes that set these fields of a slot last. -/
structure Marks where
  active : Nat
  clientAddr : Nat
  lastActivity : Nat
  outq : Nat
deriving DecidableEq, Repr

/-- All four were set by one handshake. -/
def Marks.Complete (m : Marks) : Prop :=
  m.clientAddr = m.active ∧ m.lastActivity = m.active ∧ m.outq = m.active

instance (m : Marks) : Decidable m.Complete := inferInstanceAs (Decidable (_ ∧ _))

/-- What a handshake publishes in its slot: the address of the client, the time of its
last activity and whether it has a queue. -/
structure Published where
  clientAddr : SockAddr
  lastActivity : Int
  outq : Bool

def Opening.published (o : Opening) : Published := ⟨o.src, o.env.now, o.env.outqAllocated⟩

/-- The slot's own fields are the published ones. -/
def Session.Shows (slot : Session) (p : Published) : Prop :=
  slot.clientAddr = p.clientAddr ∧ slot.lastActivity = p.lastActivity ∧ slot.outq = p.outq

instance (slot : Session) (p : Published) : Decidable (slot.Shows p) :=
  inferInstanceAs (Decidable (_ ∧ _))

/-- Why a slot was freed: at `now` its `last_activity` was too old, or a disconnect. -/
inductive Loss where
  | timeout (now lastActivity : Int)
  | disconnect
deriving DecidableEq, Repr

/-- A timeout comes after more than sixty seconds without activity, counted from the time
that is published. -/
def Loss.Due (p : Published) : Loss → Prop
  | .timeout now lastActivity =>
      lastActivity = p.lastActivity ∧ sessionTimeoutSec < now - lastActivity
  | .disconnect => True

instance (p : Published) : DecidablePred (Loss.Due p)
  | .timeout _ _ => inferInstanceAs (Decidable (_ ∧ _))
  | .disconnect => inferInstanceAs (Decidable True)

/-- A step of another thread. -/
inductive OtherAct where
  | cleanup (now : Int)
  | maintenance (now : Int)
  | executeSend (env : SendEnv) (queues : Slot → OutQueue) (now : Int)
      (sessionId : Octets sessionIdLen)
  | sessionByVpnip (ip : Octets 4)
  | disconnect (i : Slot)

/-- The scan comes as far as slot `i` and finds it active. -/
def scanSees (found : Session → Bool) (sessions : Sessions) (i : Slot) : Bool :=
  (sessions i).active &&
    decide (∀ j < i, ((sessions j).active && found (sessions j)) = false)

namespace OtherAct

/-- The slots that the step observes with `active = 1`. -/
def observes (sessions : Sessions) (i : Slot) : OtherAct → Bool
  | .cleanup _ => (sessions i).active
  | .maintenance _ => (sessions i).active
  | .executeSend _ _ _ sessionId => scanSees (·.sessionId == sessionId) sessions i
  | .sessionByVpnip ip => scanSees (·.vpnIp == ip) sessions i
  | .disconnect j => j == i && (sessions i).active

/-- The table behind the step. -/
def table (aead : Aead) (order : Endian) (sessions : Sessions) : OtherAct → Sessions
  | .cleanup now => (cleanupExpiredSessions now sessions).1
  | .maintenance now => (performMaintenance now sessions).1
  | .executeSend env queues now sessionId =>
      (Server.executeSend aead order env now sessionId ⟨sessions, queues⟩).1.sessions
  | .sessionByVpnip _ => sessions
  | .disconnect i => (freeSession i sessions).1

/-- The cause, when the step frees a slot with this `last_activity`. -/
def loss (lastActivity : Int) : OtherAct → Option Loss
  | .cleanup now => some (.timeout now lastActivity)
  | .maintenance now => some (.timeout now lastActivity)
  | .disconnect _ => some .disconnect
  | _ => none

/-- A keepalive of `perform_maintenance` counts as activity, so it moves the time that is
published. -/
def renew (slot : Session) (p : Published) : OtherAct → Published
  | .maintenance now =>
      if slot.keepaliveDue now && !slot.expired now then { p with lastActivity := now } else p
  | _ => p

end OtherAct

/-- The slot of the call. -/
def Msg1At.slot : Msg1At → Option Slot
  | .allocated _ _ _ _ i => some i
  | .reserved _ _ _ _ i => some i
  | .writing o _ => some o.slot
  | _ => none

def Msg1At.returnedZero : Msg1At → Bool
  | .returned zero => zero
  | _ => false

/-- The slot is active and not yet initialised. -/
def Stage.between : Stage → Bool
  | .active | .scanned | .bound | .timed => true
  | _ => false

/-- The slot of a call that stands between the stores to `active` and `outq`. -/
def Msg1At.between : Msg1At → Option Slot
  | .writing o stage => if stage.between then some o.slot else none
  | _ => none

structure Publishing where
  sessions : Sessions
  /-- The call of `handle_msg1` and its number. -/
  place : Msg1At
  number : Nat
  marks : Slot → Marks
  /-- What the handshake that activated the slot publishes there. -/
  published : Slot → Published
  /-- How the slot of the call was freed since the call has activated it. -/
  loss : Option Loss

def Publishing.start : Publishing :=
  ⟨noSessions, .returned false, 0, fun _ => ⟨0, 0, 0, 0⟩, fun _ => ⟨⟨0, 0⟩, 0, false⟩, none⟩

inductive PublishAct where
  /-- The worker enters `handle_msg1`. -/
  | call (env : Env) (random : Ephemeral) (msg1 : Bytes) (src : SockAddr)
  /-- The next step of `handle_msg1`. -/
  | next
  | other (act : OtherAct)

inductive PublishEvent where
  /-- Another thread has seen the slot active. -/
  | observed (marks : Marks) (slot : Session) (p : Published)
  /-- The call has returned 0 and left its slot so. -/
  | returned (secrets : Sodium.SessionSecrets) (slot : Session) (p : Published)
      (loss : Option Loss)

/-- The slot has the keys and the session id of a handshake. -/
def Session.Holds (slot : Session) (secrets : Sodium.SessionSecrets) : Prop :=
  slot.kRecv = secrets.k1 ∧ slot.kSend = secrets.k2 ∧ slot.sessionId = secrets.sessionId

/-- The slot is active with its keys, unless it was freed after sixty seconds without
activity or by a disconnect. -/
def Session.Survives (slot : Session) (secrets : Sodium.SessionSecrets) (p : Published)
    (loss : Option Loss) : Prop :=
  (slot.active = true ∧ slot.Holds secrets) ∨
    (slot.active = false ∧ ∃ cause ∈ loss, cause.Due p)

/-- An active slot has the fields of the handshake that activated it, set by that
handshake, and a call that returns 0 leaves a slot that survives. -/
def PublishEvent.Good : PublishEvent → Prop
  | .observed marks slot p => marks.Complete ∧ slot.Shows p
  | .returned secrets slot p loss => slot.Survives secrets p loss

instance (slot : Session) (secrets : Sodium.SessionSecrets) : Decidable (slot.Holds secrets) :=
  inferInstanceAs (Decidable (_ ∧ _))

instance : (e : PublishEvent) → Decidable e.Good
  | .observed _ _ _ => inferInstanceAs (Decidable (_ ∧ _))
  | .returned _ _ _ _ => inferInstanceAs (Decidable (_ ∨ _))

/-- The mark a step of the call leaves. -/
def Stage.mark (number : Nat) (m : Marks) : Stage → Marks
  | .numbered => { m with active := number }
  | .scanned => { m with clientAddr := number }
  | .bound => { m with lastActivity := number }
  | .timed => { m with outq := number }
  | _ => m

section Machine

variable (aead : Aead) (na : Sodium) (keys : ServerKeys) (order : Endian)

/-- A step of `handle_msg1`. -/
def publishNext (s : Publishing) : Publishing × List PublishEvent :=
  let result := msg1Next na keys order (s.place, s.sessions)
  let after := { s with place := result.1.1, sessions := result.1.2 }
  match s.place with
  | .writing o stage =>
      ({ after with
          marks := Function.update s.marks o.slot (stage.mark s.number (s.marks o.slot))
          published := if stage = .numbered then
            Function.update s.published o.slot o.published else s.published
          loss := if stage = .numbered then none else s.loss },
        if stage = .sent then
          [.returned o.secrets (after.sessions o.slot) (s.published o.slot) s.loss]
        else [])
  | _ => (after, [])

def publishStep (s : Publishing) : PublishAct → Publishing × List PublishEvent
  | .call env random msg1 src =>
      match s.place with
      | .returned _ =>
          ({ s with place := .entered env random msg1 src, number := s.number + 1 }, [])
      | _ => (s, [])
  | .next => publishNext na keys order s
  | .other act =>
      let after := act.table aead order s.sessions
      let freed (i : Slot) : Bool := (s.sessions i).active && !(after i).active
      ({ s with
          sessions := after
          published := fun i => act.renew (s.sessions i) (s.published i)
          loss := match s.place.slot with
            | some i => if freed i then act.loss (s.sessions i).lastActivity else s.loss
            | none => s.loss },
        (List.finRange maxClients).filterMap fun i =>
          if act.observes s.sessions i then
            some (.observed (s.marks i) (s.sessions i) (s.published i))
          else none)

end Machine

/-- No other thread looks at a slot that a call has activated and not yet initialised. -/
def NotBetween (s : Publishing) : PublishAct → Prop
  | .other act => ∀ i, act.observes s.sessions i = true → s.place.between ≠ some i
  | _ => True

theorem OtherAct.active_of_observes {sessions : Sessions} {act : OtherAct} {i : Slot}
    (h : act.observes sessions i = true) : (sessions i).active = true := by
  cases act with
  | cleanup now => exact h
  | maintenance now => exact h
  | executeSend env queues now sessionId => exact ((Bool.and_eq_true _ _).mp h).1
  | sessionByVpnip ip => exact ((Bool.and_eq_true _ _).mp h).1
  | disconnect j => exact ((Bool.and_eq_true _ _).mp h).2

theorem OtherAct.renew_of_unobserved {sessions : Sessions} {act : OtherAct} {i : Slot}
    (h : act.observes sessions i = false) (p : Published) :
    act.renew (sessions i) p = p := by
  cases act with
  | maintenance now =>
      have hinactive : (sessions i).active = false := h
      dsimp only [OtherAct.renew]
      rw [Session.keepaliveDue, hinactive, Bool.false_and, Bool.false_and,
        if_neg Bool.false_ne_true]
  | cleanup | executeSend | sessionByVpnip | disconnect => rfl

theorem OtherAct.renew_of_inactive {sessions : Sessions} {act : OtherAct} {i : Slot}
    (h : (sessions i).active = false) (p : Published) : act.renew (sessions i) p = p :=
  renew_of_unobserved (Bool.eq_false_iff.mpr fun hobserved =>
    Bool.eq_false_iff.mp h (active_of_observes hobserved)) p

theorem OtherAct.renew_fields (slot : Session) (p : Published) (act : OtherAct) :
    (act.renew slot p).clientAddr = p.clientAddr ∧ (act.renew slot p).outq = p.outq := by
  cases act with
  | maintenance now =>
      dsimp only [OtherAct.renew]
      split
      · exact ⟨rfl, rfl⟩
      · exact ⟨rfl, rfl⟩
  | cleanup | executeSend | sessionByVpnip | disconnect => exact ⟨rfl, rfl⟩

section OtherActs

variable (aead : Aead) (order : Endian) (sessions : Sessions) (act : OtherAct) (i : Slot)

/-- A step of another thread leaves a slot with its session, or frees one that it has
observed and whose time has come. -/
theorem otherAct_slot :
    SameSession (sessions i) (act.table aead order sessions i) ∨
      (act.observes sessions i = true ∧ (sessions i).active = true ∧
        (act.table aead order sessions i).active = false ∧
        ∀ p : Published, (sessions i).lastActivity = p.lastActivity →
          act.renew (sessions i) p = p ∧
            ∃ cause ∈ act.loss (sessions i).lastActivity, cause.Due p) := by
  have hexpires {now : Int} (h : (sessions i).expired now = true) :
      (sessions i).active = true ∧ sessionTimeoutSec < now - (sessions i).lastActivity := by
    rw [Session.expired, Bool.and_eq_true] at h
    exact ⟨h.1, of_decide_eq_true h.2⟩
  cases act with
  | cleanup now =>
      unfold OtherAct.table cleanupExpiredSessions
      dsimp only
      split
      next hexpired =>
        obtain ⟨hactive, hold⟩ := hexpires hexpired
        exact Or.inr ⟨hactive, hactive, rfl, fun p hp => ⟨rfl, _, rfl, hp, hold⟩⟩
      next => exact Or.inl (.refl (sessions i))
  | maintenance now =>
      cases hexpired : (sessions i).expired now with
      | true =>
          obtain ⟨hactive, hold⟩ := hexpires hexpired
          refine Or.inr ⟨hactive, hactive, (performMaintenance_freed hexpired).active,
            fun p hp => ⟨?_, _, rfl, hp, hold⟩⟩
          dsimp only [OtherAct.renew]
          rw [hexpired, Bool.not_true, Bool.and_false, if_neg Bool.false_ne_true]
      | false => exact Or.inl (performMaintenance_same hexpired)
  | executeSend env queues now sessionId =>
      exact Or.inl
        (executeSend_sends aead order env ⟨sessions, queues⟩ i now sessionId).sameSession
  | sessionByVpnip ip => exact Or.inl (.refl (sessions i))
  | disconnect j =>
      by_cases hi : i = j
      · rw [hi]
        cases hactive : (sessions j).active with
        | true =>
            refine Or.inr ⟨?_, rfl, freeSession_self j sessions,
              fun p _ => ⟨rfl, .disconnect, rfl, trivial⟩⟩
            rw [OtherAct.observes, hactive, beq_self_eq_true, Bool.and_true]
        | false =>
            unfold OtherAct.table freeSession
            dsimp only
            rw [if_neg (Bool.eq_false_iff.mp hactive)]
            exact Or.inl (.refl (sessions j))
      · refine Or.inl ?_
        rw [OtherAct.table, freeSession_of_ne sessions hi]
        exact .refl (sessions i)

variable {aead order sessions act i}

theorem otherAct_active (h : (act.table aead order sessions i).active = true) :
    (sessions i).active = true := by
  rcases otherAct_slot aead order sessions act i with hsame | ⟨_, hactive, _⟩
  · exact hsame.active.symm.trans h
  · exact hactive

theorem otherAct_lastActivity {p : Published} (hp : (sessions i).lastActivity = p.lastActivity)
    (hafter : (act.table aead order sessions i).active = true) :
    (act.table aead order sessions i).lastActivity =
      (act.renew (sessions i) p).lastActivity := by
  cases act with
  | cleanup now =>
      unfold OtherAct.table cleanupExpiredSessions at hafter ⊢
      dsimp only at hafter ⊢
      split
      next hexpired =>
        rw [if_pos hexpired] at hafter
        cases hafter
      next => exact hp
  | maintenance now =>
      have hrecent : (sessions i).expired now = false := by
        refine Bool.eq_false_iff.mpr fun hexpired => ?_
        have hfreed : (OtherAct.table aead order sessions (.maintenance now) i).active =
          false := (performMaintenance_freed hexpired).active
        rw [hfreed] at hafter
        cases hafter
      dsimp only [OtherAct.renew]
      rw [hrecent, Bool.not_false, Bool.and_true]
      rcases performMaintenance_times hrecent with ⟨hdue, _, htime⟩ | ⟨hdue, _, htime⟩
      · rw [if_pos hdue]
        exact htime
      · rw [if_neg (Bool.eq_false_iff.mp hdue)]
        exact htime.trans hp
  | executeSend env queues now sessionId =>
      have hsends : Sends (sessions i) (OtherAct.table aead order sessions
          (.executeSend env queues now sessionId) i) :=
        executeSend_sends aead order env ⟨sessions, queues⟩ i now sessionId
      rw [hsends.lastActivity]
      exact hp
  | sessionByVpnip ip => exact hp
  | disconnect j =>
      by_cases hi : i = j
      · rw [hi] at hafter
        have hfreed := freeSession_self j sessions
        dsimp only [OtherAct.table] at hafter
        rw [hfreed] at hafter
        cases hafter
      · rw [OtherAct.table, freeSession_of_ne sessions hi]
        exact hp

/-- A slot that stays in use shows what is published, before and after. -/
theorem Session.Shows.other {p : Published} (h : (sessions i).Shows p)
    (hafter : (act.table aead order sessions i).active = true) :
    (act.table aead order sessions i).Shows (act.renew (sessions i) p) := by
  rcases otherAct_slot aead order sessions act i with hsame | ⟨_, _, hfreed, _⟩
  · obtain ⟨hclient, hqueue⟩ := OtherAct.renew_fields (sessions i) p act
    exact ⟨(hsame.clientAddr.trans h.1).trans hclient.symm,
      otherAct_lastActivity h.2.1 hafter, (hsame.outq.trans h.2.2).trans hqueue.symm⟩
  · rw [hfreed] at hafter
    cases hafter

end OtherActs

/-- What the marks of the call's slot are at a stage. -/
def Stage.Marked (number : Nat) (s : Session) (m : Marks) : Stage → Prop
  | .derived | .keyed | .named | .numbered => s.active = false ∧ m.outq < number
  | .active | .scanned => m.active = number ∧ m.outq < number
  | .bound => m.active = number ∧ m.clientAddr = number ∧ m.outq < number
  | .timed => m.active = number ∧ m.clientAddr = number ∧ m.lastActivity = number ∧
      m.outq < number
  | .queued | .scheduled | .sent => m.active = number

def Msg1At.Marked (number : Nat) (sessions : Sessions) (marks : Slot → Marks) :
    Msg1At → Prop
  | .entered _ _ _ _ => ∀ i, (marks i).outq < number
  | .allocated _ _ _ _ i => (sessions i).active = false ∧ (marks i).outq < number
  | .reserved _ _ _ _ i => (sessions i).active = false ∧ (marks i).outq < number
  | .writing o stage => stage.Marked number (sessions o.slot) (marks o.slot)
  | .returned _ => True

/-- What holds in every run: a slot in use is complete, apart from that of a call between
its stores to `active` and `outq`. -/
structure Marked (s : Publishing) : Prop where
  complete : ∀ i, (s.sessions i).active = true → s.place.between ≠ some i →
    (s.marks i).Complete
  bounded : ∀ i, (s.marks i).outq ≤ s.number
  place : s.place.Marked s.number s.sessions s.marks

theorem marked_start : Marked .start where
  complete _ h := Bool.noConfusion h
  bounded _ := Nat.le_refl 0
  place := trivial

section MarkedSteps

variable {sessions after : Sessions} {marks : Slot → Marks} {number : Nat} {o : Opening}

theorem store_active {write : Session → Session}
    (hwrite : ∀ s : Session, (write s).active = s.active) (i : Slot) :
    (o.store write sessions i).active = (sessions i).active := by
  unfold Opening.store
  by_cases hi : i = o.slot
  · rw [hi, Function.update_self, hwrite]
  · rw [Function.update_of_ne hi]

theorem freeSession_active {i j : Slot} (h : ((freeSession i sessions).1 j).active = true) :
    (sessions j).active = true :=
  (freeSession_quietAt i sessions j h).1

theorem supersedeOld_active {i j : Slot} {src : SockAddr}
    (h : ((supersedeOld i src sessions).1 j).active = true) :
    (sessions j).active = true := by
  rcases supersedeOld_cases i src sessions j with hsame | ⟨_, hdropped⟩
  · rw [← hsame]
    exact h
  · rw [hdropped] at h
    cases h

/-- A step of the call: it touches the marks of its own slot only, and activates no
other. -/
theorem marked_step {place : Msg1At} {m : Marks} {pub : Slot → Published}
    {loss : Option Loss}
    (hothers : ∀ i, i ≠ o.slot → (sessions i).active = true → (marks i).Complete)
    (hactive : ∀ i, i ≠ o.slot → (after i).active = true → (sessions i).active = true)
    (hslot : (after o.slot).active = true → place.between ≠ some o.slot → m.Complete)
    (hbounded : ∀ i, (marks i).outq ≤ number) (hm : m.outq ≤ number)
    (hplace : ∀ marks', marks' o.slot = m → place.Marked number after marks') :
    Marked ⟨after, place, number, Function.update marks o.slot m, pub, loss⟩ where
  complete i hi hbetween := by
    dsimp only at hi hbetween ⊢
    by_cases hslots : i = o.slot
    · rw [hslots] at hi hbetween ⊢
      rw [Function.update_self]
      exact hslot hi hbetween
    · rw [Function.update_of_ne hslots]
      exact hothers i hslots (hactive i hslots hi)
  bounded i := by
    dsimp only
    by_cases hslots : i = o.slot
    · rw [hslots, Function.update_self]
      exact hm
    · rw [Function.update_of_ne hslots]
      exact hbounded i
  place := hplace _ (Function.update_self ..)

/-- Only the store to `active` activates a slot. -/
theorem next_active {stage : Stage} {i : Slot}
    (h : ((o.next sessions stage).1.2 i).active = true) :
    (sessions i).active = true ∨ i = o.slot ∧ stage = .numbered := by
  cases stage with
  | numbered =>
      by_cases hi : i = o.slot
      · exact Or.inr ⟨hi, rfl⟩
      · dsimp only [Opening.next, Opening.store] at h
        rw [Function.update_of_ne hi] at h
        exact Or.inl h
  | active =>
      dsimp only [Opening.next] at h
      exact Or.inl (supersedeOld_active h)
  | queued =>
      unfold Opening.next at h
      dsimp only at h
      split at h
      · exact Or.inl (freeSession_active h)
      · exact Or.inl h
  | scheduled =>
      unfold Opening.next at h
      dsimp only at h
      split at h
      · exact Or.inl (freeSession_active h)
      · exact Or.inl h
  | _ =>
      -- A store to some other field.
      dsimp only [Opening.next] at h
      rw [store_active] at h
      · exact Or.inl h
      · exact fun _ => rfl

/-- The slot after a store, if the call goes on. -/
theorem next_slot_active {stage : Stage} (hstage : stage ≠ .numbered)
    (h : ((o.next sessions stage).1.2 o.slot).active = true) :
    (sessions o.slot).active = true :=
  (next_active h).resolve_right fun hboth => hstage hboth.2

theorem between_writing {stage : Stage} {i : Slot}
    (h : (Msg1At.writing o stage).between = some i) : i = o.slot := by
  dsimp only [Msg1At.between] at h
  split at h
  · exact (Option.some.inj h).symm
  · cases h

theorem mark_outq_le (stage : Stage) {m : Marks} (h : m.outq ≤ number) :
    (stage.mark number m).outq ≤ number := by
  cases stage with
  | timed => exact le_rfl
  | _ => exact h

/-- The marks of the call's slot, from one stage to the next. -/
theorem next_place_marked {stage : Stage} {marks' : Slot → Marks}
    (h : stage.Marked number (sessions o.slot) (marks o.slot))
    (hmarks : marks' o.slot = stage.mark number (marks o.slot)) :
    (o.next sessions stage).1.1.Marked number (o.next sessions stage).1.2 marks' := by
  have hinactive (hnumbered : stage ≠ .numbered) (hbefore : (sessions o.slot).active = false) :
      ((o.next sessions stage).1.2 o.slot).active = false :=
    Bool.eq_false_iff.mpr fun hafter =>
      Bool.eq_false_iff.mp hbefore (next_slot_active hnumbered hafter)
  cases stage with
  | derived | keyed | named =>
      refine ⟨hinactive (by decide) h.1, ?_⟩
      rw [hmarks]
      exact h.2
  | numbered =>
      dsimp only [Opening.next, Msg1At.Marked, Stage.Marked]
      rw [hmarks]
      exact ⟨rfl, h.2⟩
  | active =>
      dsimp only [Opening.next, Msg1At.Marked, Stage.Marked]
      rw [hmarks]
      exact h
  | scanned =>
      dsimp only [Opening.next, Msg1At.Marked, Stage.Marked]
      rw [hmarks]
      exact ⟨h.1, rfl, h.2⟩
  | bound =>
      dsimp only [Opening.next, Msg1At.Marked, Stage.Marked]
      rw [hmarks]
      exact ⟨h.1, h.2.1, rfl, h.2.2⟩
  | timed =>
      dsimp only [Opening.next, Msg1At.Marked, Stage.Marked]
      rw [hmarks]
      exact h.1
  | queued | scheduled =>
      dsimp only [Opening.next]
      split
      · trivial
      · exact (congrArg Marks.active hmarks).trans h
  | sent => trivial

/-- Before `active` is set and after `outq` is set the slot is as complete as it was, and
the store to `outq` completes it. -/
theorem next_slot_complete {stage : Stage} {pub : Slot → Published} {loss : Option Loss}
    (h : Marked ⟨sessions, .writing o stage, number, marks, pub, loss⟩)
    (hafter : ((o.next sessions stage).1.2 o.slot).active = true)
    (hbetween : (o.next sessions stage).1.1.between ≠ some o.slot) :
    (stage.mark number (marks o.slot)).Complete := by
  cases stage with
  | derived | keyed | named | queued | scheduled | sent =>
      exact h.complete o.slot (next_slot_active (by decide) hafter)
        (Option.some_ne_none o.slot).symm
  | numbered | active | scanned | bound => exact absurd rfl hbetween
  | timed =>
      obtain ⟨hwho, haddr, htime, _⟩ := h.place
      exact ⟨haddr.trans hwho.symm, htime.trans hwho.symm, hwho.symm⟩

theorem writing_marked {stage : Stage} {pub pub' : Slot → Published}
    {loss loss' : Option Loss}
    (h : Marked ⟨sessions, .writing o stage, number, marks, pub, loss⟩) :
    Marked ⟨(o.next sessions stage).1.2, (o.next sessions stage).1.1, number,
      Function.update marks o.slot (stage.mark number (marks o.slot)), pub', loss'⟩ := by
  have hothers (i : Slot) (hi : i ≠ o.slot) (hactive : (sessions i).active = true) :
      (marks i).Complete :=
    h.complete i hactive fun hbetween => hi (between_writing hbetween)
  have hactive (i : Slot) (hi : i ≠ o.slot)
      (hafter : ((o.next sessions stage).1.2 i).active = true) : (sessions i).active = true :=
    (next_active hafter).resolve_right fun hboth => hi hboth.1
  exact marked_step hothers hactive (next_slot_complete h) h.bounded
    (mark_outq_le stage (h.bounded o.slot)) fun _ hmarks => next_place_marked h.place hmarks

/-- The steps before the key derivation. -/
theorem msg1Allocate_marked (keys : ServerKeys) {env : Env} {random : Ephemeral}
    {msg1 : Bytes} {src : SockAddr} {pub pub' : Slot → Published}
    {loss loss' : Option Loss}
    (h : Marked ⟨sessions, .entered env random msg1 src, number, marks, pub, loss⟩) :
    Marked ⟨(msg1Allocate keys env random msg1 src sessions).1.2,
      (msg1Allocate keys env random msg1 src sessions).1.1, number, marks, pub', loss'⟩ := by
  have hreturned : Marked ⟨sessions, .returned false, number, marks, pub', loss'⟩ :=
    ⟨fun i hi _ => h.complete i hi (Option.some_ne_none i).symm, h.bounded, trivial⟩
  unfold msg1Allocate
  split
  · exact hreturned
  dsimp only
  split
  · exact hreturned
  · exact hreturned
  split
  · exact hreturned
  split
  · exact hreturned
  next i next hfree =>
    obtain ⟨hinactive, hnext⟩ := allocateSession_eq_some hfree
    have hactive (j : Slot) : (next j).active = (sessions j).active := by
      rw [hnext]
      by_cases hj : j = i
      · rw [hj, Function.update_self]
      · rw [Function.update_of_ne hj]
    refine ⟨fun j hj _ => ?_, h.bounded, (hactive i).trans hinactive, h.place i⟩
    exact h.complete j ((hactive j).symm.trans hj) (Option.some_ne_none j).symm

theorem msg1Derive_marked (na : Sodium) (keys : ServerKeys) (order : Endian) {env : Env}
    {random : Ephemeral} {msg1 : Bytes} {src : SockAddr} {i : Slot} {pub pub' : Slot → Published}
    {loss loss' : Option Loss}
    (h : Marked ⟨sessions, .reserved env random msg1 src i, number, marks, pub, loss⟩) :
    Marked ⟨(msg1Derive na keys order env random msg1 src i sessions).1.2,
      (msg1Derive na keys order env random msg1 src i sessions).1.1, number, marks,
      pub', loss'⟩ := by
  have hfreed : Marked ⟨(freeSession i sessions).1, .returned false, number, marks, pub', loss'⟩ :=
    ⟨fun j hj _ => h.complete j (freeSession_active hj) (Option.some_ne_none j).symm,
      h.bounded, trivial⟩
  unfold msg1Derive
  dsimp only
  split
  · exact hfreed
  split
  · exact hfreed
  · exact ⟨fun j hj _ => h.complete j hj (Option.some_ne_none j).symm, h.bounded, h.place⟩

end MarkedSteps

section Machine

variable (aead : Aead) (na : Sodium) (keys : ServerKeys) (order : Endian)

theorem publishNext_marked {s : Publishing} (h : Marked s) :
    Marked (publishNext na keys order s).1 := by
  obtain ⟨sessions, place, number, marks, pub, loss⟩ := s
  unfold publishNext msg1Next
  dsimp only
  cases place with
  | entered env random msg1 src => exact msg1Allocate_marked keys h
  | allocated env random msg1 src i =>
      have hactive (j : Slot) : (Function.update sessions i
          ((sessions i).reserve i (msg1Params order msg1)) j).active =
          (sessions j).active := by
        by_cases hj : j = i
        · rw [hj, Function.update_self]
          rfl
        · rw [Function.update_of_ne hj]
      refine ⟨fun j hj _ => ?_, h.bounded, (hactive i).trans h.place.1, h.place.2⟩
      exact h.complete j ((hactive j).symm.trans hj) (Option.some_ne_none j).symm
  | reserved env random msg1 src i => exact msg1Derive_marked na keys order h
  | writing o stage => exact writing_marked h
  | returned zero => exact h

/-- The marks fit a table in which no slot was activated. -/
theorem Msg1At.Marked.mono {number : Nat} {sessions after : Sessions}
    {marks : Slot → Marks} {place : Msg1At} (h : place.Marked number sessions marks)
    (hactive : ∀ i, (after i).active = true → (sessions i).active = true) :
    place.Marked number after marks := by
  have hinactive {i : Slot} (hbefore : (sessions i).active = false) :
      (after i).active = false :=
    Bool.eq_false_iff.mpr fun hafter => Bool.eq_false_iff.mp hbefore (hactive i hafter)
  cases place with
  | entered env random msg1 src => exact h
  | allocated env random msg1 src i => exact ⟨hinactive h.1, h.2⟩
  | reserved env random msg1 src i => exact ⟨hinactive h.1, h.2⟩
  | writing o stage =>
      cases stage with
      | derived | keyed | named | numbered => exact ⟨hinactive h.1, h.2⟩
      | active | scanned | bound | timed | queued | scheduled | sent => exact h
  | returned zero => exact h

theorem publishStep_marked {s : Publishing} (h : Marked s) (act : PublishAct) :
    Marked (publishStep aead na keys order s act).1 := by
  cases act with
  | call env random msg1 src =>
      unfold publishStep
      dsimp only
      split
      next zero hplace =>
        refine ⟨fun i hi _ => h.complete i hi ?_, fun i => (h.bounded i).trans (Nat.le_succ _),
          fun i => Nat.lt_succ_of_le (h.bounded i)⟩
        rw [hplace]
        exact (Option.some_ne_none i).symm
      next => exact h
  | next => exact publishNext_marked na keys order h
  | other act =>
      exact ⟨fun i hi => h.complete i (otherAct_active hi), h.bounded,
        h.place.mono fun _ => otherAct_active⟩

/-- In a state of a run, a step of another thread sees complete slots exactly when it sees
none between the stores to `active` and `outq`. -/
theorem observed_iff {s : Publishing} (h : Marked s) (act : OtherAct) :
    (∀ i, act.observes s.sessions i = true → (s.marks i).Complete) ↔
      NotBetween s (.other act) := by
  constructor
  · intro hcomplete i hobserved hbetween
    obtain ⟨_, _, houtq⟩ := hcomplete i hobserved
    have hplace := h.place
    cases hs : s.place with
    | writing o stage =>
        rw [hs] at hbetween hplace
        dsimp only [Msg1At.between] at hbetween
        split at hbetween
        next hstage =>
          rw [← Option.some.inj hbetween] at houtq
          cases stage with
          | active | scanned =>
              obtain ⟨hactive, hlow⟩ := hplace
              omega
          | bound =>
              obtain ⟨hactive, _, hlow⟩ := hplace
              omega
          | timed =>
              obtain ⟨hactive, _, _, hlow⟩ := hplace
              omega
          | derived | keyed | named | numbered | queued | scheduled | sent => cases hstage
        next => cases hbetween
    | _ =>
        rw [hs] at hbetween
        cases hbetween
  · intro hnot i hobserved
    exact h.complete i (OtherAct.active_of_observes hobserved) (hnot i hobserved)

/-- What the slot of the call has at a stage, if no other thread has looked too early: its
keys, and as much of what is published as is stored. -/
def Stage.Kept (o : Opening) (slot : Session) (p : Published) (loss : Option Loss) :
    Stage → Prop
  | .derived => True
  | .keyed => slot.kRecv = o.secrets.k1 ∧ slot.kSend = o.secrets.k2
  | .named | .numbered => slot.Holds o.secrets
  | .active | .scanned => (slot.active = true ∧ slot.Holds o.secrets) ∧ p = o.published
  | .bound => (slot.active = true ∧ slot.Holds o.secrets) ∧ p = o.published ∧
      slot.clientAddr = o.src
  | .timed => (slot.active = true ∧ slot.Holds o.secrets) ∧ p = o.published ∧
      slot.clientAddr = o.src ∧ slot.lastActivity = o.env.now
  | .queued | .scheduled | .sent => slot.Survives o.secrets p loss

def Msg1At.Kept (sessions : Sessions) (published : Slot → Published) (loss : Option Loss) :
    Msg1At → Prop
  | .writing o stage => stage.Kept o (sessions o.slot) (published o.slot) loss
  | _ => True

/-- What holds as long as no other thread looks too early. -/
structure Publishing.Kept (s : Publishing) : Prop where
  shown : ∀ i, (s.sessions i).active = true → s.place.between ≠ some i →
    (s.sessions i).Shows (s.published i)
  place : s.place.Kept s.sessions s.published s.loss

theorem kept_start : Publishing.start.Kept where
  shown _ h := Bool.noConfusion h
  place := trivial

theorem Session.Holds.same {before after : Session} {secrets : Sodium.SessionSecrets}
    (h : before.Holds secrets) (hsame : SameSession before after) : after.Holds secrets :=
  ⟨hsame.kRecv.trans h.1, hsame.kSend.trans h.2.1, hsame.sessionId.trans h.2.2⟩

/-- A step of the call stores to its own slot and can only free others. -/
theorem next_others {o : Opening} {sessions : Sessions} {stage : Stage} {i : Slot}
    (hi : i ≠ o.slot) (h : ((o.next sessions stage).1.2 i).active = true) :
    (o.next sessions stage).1.2 i = sessions i := by
  cases stage with
  | active =>
      dsimp only [Opening.next] at h ⊢
      rcases supersedeOld_cases o.slot o.src sessions i with hsame | ⟨_, hdropped⟩
      · exact hsame
      · rw [hdropped] at h
        cases h
  | queued | scheduled =>
      dsimp only [Opening.next]
      split
      · exact freeSession_of_ne sessions hi
      · rfl
  | derived | keyed | named | numbered | scanned | bound | timed | sent =>
      exact Function.update_of_ne hi ..

/-- The steps of the call itself, for its own slot. -/
theorem writing_place_kept {o : Opening} {sessions : Sessions} {stage : Stage}
    {published : Slot → Published} {loss : Option Loss}
    (h : stage.Kept o (sessions o.slot) (published o.slot) loss) :
    (o.next sessions stage).1.1.Kept (o.next sessions stage).1.2
      (if stage = .numbered then Function.update published o.slot o.published else published)
      (if stage = .numbered then none else loss) := by
  have hstore (write : Session → Session) :
      o.store write sessions o.slot = write (sessions o.slot) := Function.update_self ..
  cases stage with
  | derived =>
      dsimp only [Opening.next, Msg1At.Kept]
      rw [hstore]
      exact ⟨rfl, rfl⟩
  | keyed =>
      dsimp only [Opening.next, Msg1At.Kept]
      rw [hstore]
      exact ⟨h.1, h.2, rfl⟩
  | named =>
      dsimp only [Opening.next, Msg1At.Kept]
      rw [hstore]
      exact h
  | numbered =>
      dsimp only [Opening.next, Msg1At.Kept]
      rw [hstore, if_pos rfl, Function.update_self]
      exact ⟨⟨rfl, h⟩, rfl⟩
  | active =>
      dsimp only [Opening.next, Msg1At.Kept]
      rw [supersedeOld_self]
      exact h
  | scanned =>
      dsimp only [Opening.next, Msg1At.Kept]
      rw [hstore]
      exact ⟨h.1, h.2, rfl⟩
  | bound =>
      dsimp only [Opening.next, Msg1At.Kept]
      rw [hstore]
      exact ⟨h.1, h.2.1, h.2.2, rfl⟩
  | timed =>
      dsimp only [Opening.next, Msg1At.Kept]
      rw [hstore]
      exact Or.inl h.1
  | queued | scheduled =>
      dsimp only [Opening.next]
      split
      · trivial
      · exact h
  | sent => trivial

/-- The slot of the call shows what is published from the store to `outq` on. -/
theorem next_own_shows {o : Opening} {sessions : Sessions} {stage : Stage} {number : Nat}
    {marks : Slot → Marks} {pub : Slot → Published} {loss : Option Loss}
    (hmarked : Marked ⟨sessions, .writing o stage, number, marks, pub, loss⟩)
    (h : Publishing.Kept ⟨sessions, .writing o stage, number, marks, pub, loss⟩)
    (hafter : ((o.next sessions stage).1.2 o.slot).active = true)
    (hbetween : (o.next sessions stage).1.1.between ≠ some o.slot) :
    ((o.next sessions stage).1.2 o.slot).Shows
      ((if stage = .numbered then Function.update pub o.slot o.published else pub)
        o.slot) := by
  obtain ⟨hshown, hplace⟩ := h
  cases stage with
  | derived | keyed | named =>
      exact absurd (next_slot_active (by decide) hafter)
        (Bool.eq_false_iff.mp hmarked.place.1)
  | numbered | active | scanned | bound => exact absurd rfl hbetween
  | timed =>
      obtain ⟨_, hpub, hclient, htime⟩ := hplace
      dsimp only at hpub
      rw [if_neg (by decide), hpub]
      dsimp only [Opening.next, Opening.store]
      rw [Function.update_self]
      exact ⟨hclient, htime, rfl⟩
  | queued | scheduled =>
      have hbefore := hshown o.slot (next_slot_active (by decide) hafter)
        (Option.some_ne_none o.slot).symm
      rw [if_neg (by decide)]
      dsimp only [Opening.next] at hafter ⊢
      split
      next hfailed =>
        rw [if_pos hfailed] at hafter
        exact absurd hafter (Bool.eq_false_iff.mp (freeSession_self o.slot sessions))
      next => exact hbefore
  | sent =>
      have hbefore := hshown o.slot (next_slot_active (by decide) hafter)
        (Option.some_ne_none o.slot).symm
      rw [if_neg (by decide)]
      dsimp only [Opening.next, Opening.store]
      rw [Function.update_self]
      exact hbefore

/-- The steps of the call itself, for all slots. -/
theorem writing_kept {o : Opening} {sessions : Sessions} {stage : Stage} {number : Nat}
    {marks : Slot → Marks} {pub : Slot → Published} {loss : Option Loss}
    (hmarked : Marked ⟨sessions, .writing o stage, number, marks, pub, loss⟩)
    (h : Publishing.Kept ⟨sessions, .writing o stage, number, marks, pub, loss⟩) (i : Slot)
    (hafter : ((o.next sessions stage).1.2 i).active = true)
    (hbetween : (o.next sessions stage).1.1.between ≠ some i) :
    ((o.next sessions stage).1.2 i).Shows
      ((if stage = .numbered then Function.update pub o.slot o.published else pub) i) := by
  by_cases hi : i = o.slot
  · rw [hi] at hafter hbetween ⊢
    exact next_own_shows hmarked h hafter hbetween
  · have hsame := next_others hi hafter
    have hkept : (if stage = .numbered then Function.update pub o.slot o.published else pub) i =
        pub i := by
      split
      · exact Function.update_of_ne hi ..
      · rfl
    rw [hsame] at hafter ⊢
    rw [hkept]
    exact h.shown i hafter fun hsome => hi (between_writing hsome)

/-- The steps before the key derivation touch slots not in use only. -/
theorem Publishing.Kept.early {s : Publishing} (h : s.Kept) (hplace : s.place.between = none)
    {place : Msg1At} {after : Sessions} (hnone : place.Kept after s.published s.loss)
    (hactive : ∀ i, (after i).active = true → after i = s.sessions i) :
    Publishing.Kept { s with sessions := after, place := place } where
  shown i hi _ := by
    dsimp only at hi ⊢
    have hsame := hactive i hi
    rw [hsame] at hi ⊢
    refine h.shown i hi ?_
    rw [hplace]
    exact (Option.some_ne_none i).symm
  place := hnone

theorem msg1Allocate_slots {env : Env} {random : Ephemeral} {msg1 : Bytes} {src : SockAddr}
    {sessions : Sessions} (i : Slot) :
    ((msg1Allocate keys env random msg1 src sessions).1.2 i).active = true →
      (msg1Allocate keys env random msg1 src sessions).1.2 i = sessions i := by
  unfold msg1Allocate
  split
  · exact fun _ => rfl
  dsimp only
  split
  · exact fun _ => rfl
  · exact fun _ => rfl
  split
  · exact fun _ => rfl
  split
  · exact fun _ => rfl
  next j next hfree =>
    obtain ⟨hinactive, rfl⟩ := allocateSession_eq_some hfree
    dsimp only
    by_cases hi : i = j
    · rw [hi, Function.update_self]
      intro hactive
      exact absurd hactive (Bool.eq_false_iff.mp hinactive)
    · rw [Function.update_of_ne hi]
      exact fun _ => rfl

theorem msg1Derive_slots {env : Env} {random : Ephemeral} {msg1 : Bytes} {src : SockAddr}
    {j : Slot} {sessions : Sessions} (i : Slot) :
    ((msg1Derive na keys order env random msg1 src j sessions).1.2 i).active = true →
      (msg1Derive na keys order env random msg1 src j sessions).1.2 i = sessions i := by
  have hfreed (hactive : ((freeSession j sessions).1 i).active = true) :
      (freeSession j sessions).1 i = sessions i := by
    by_cases hi : i = j
    · rw [hi, freeSession_self] at hactive
      cases hactive
    · exact freeSession_of_ne sessions hi
  unfold msg1Derive
  dsimp only
  split
  · exact hfreed
  split
  · exact hfreed
  · exact fun _ => rfl

theorem publishNext_kept {s : Publishing} (hmarked : Marked s) (h : s.Kept) :
    (publishNext na keys order s).1.Kept := by
  obtain ⟨sessions, place, number, marks, pub, loss⟩ := s
  unfold publishNext msg1Next
  cases place with
  | entered env random msg1 src =>
      refine h.early rfl ?_ (msg1Allocate_slots keys)
      dsimp only
      unfold msg1Allocate
      dsimp only
      repeat' split
      all_goals trivial
  | allocated env random msg1 src i =>
      refine h.early rfl trivial fun j hj => ?_
      have hinactive := hmarked.place.1
      dsimp only at hj hinactive ⊢
      by_cases hi : j = i
      · rw [hi, Function.update_self] at hj
        exact absurd hj (Bool.eq_false_iff.mp hinactive)
      · exact Function.update_of_ne hi ..
  | reserved env random msg1 src i =>
      refine h.early rfl ?_ (msg1Derive_slots na keys order)
      dsimp only
      unfold msg1Derive
      dsimp only
      repeat' split
      all_goals trivial
  | writing o stage => exact ⟨writing_kept hmarked h, writing_place_kept h.place⟩
  | returned zero => exact h

/-- A step of another thread that leaves the slot of the call its session. -/
theorem Stage.Kept.other {o : Opening} {sessions : Sessions} {stage : Stage}
    {act : OtherAct} {p : Published} {loss : Option Loss}
    (h : stage.Kept o (sessions o.slot) p loss)
    (hsame : SameSession (sessions o.slot) (act.table aead order sessions o.slot))
    (hok : stage.between = true → act.observes sessions o.slot = false) :
    stage.Kept o (act.table aead order sessions o.slot) (act.renew (sessions o.slot) p)
      loss := by
  have hstays (hactive : (sessions o.slot).active = true ∧ (sessions o.slot).Holds o.secrets) :
      (act.table aead order sessions o.slot).active = true ∧
        (act.table aead order sessions o.slot).Holds o.secrets :=
    ⟨hsame.active.trans hactive.1, hactive.2.same hsame⟩
  cases stage with
  | derived => trivial
  | keyed => exact ⟨hsame.kRecv.trans h.1, hsame.kSend.trans h.2⟩
  | named | numbered => exact Session.Holds.same h hsame
  | active | scanned =>
      rw [OtherAct.renew_of_unobserved (hok rfl)]
      exact ⟨hstays h.1, h.2⟩
  | bound =>
      rw [OtherAct.renew_of_unobserved (hok rfl)]
      exact ⟨hstays h.1, h.2.1, hsame.clientAddr.trans h.2.2⟩
  | timed =>
      obtain ⟨hactive, rfl, hclient, htime⟩ := h
      have hkeeps := otherAct_lastActivity (p := o.published) htime (hstays hactive).1
      rw [OtherAct.renew_of_unobserved (hok rfl)] at hkeeps ⊢
      exact ⟨hstays hactive, rfl, hsame.clientAddr.trans hclient, hkeeps⟩
  | queued | scheduled | sent =>
      rcases h with hactive | ⟨hinactive, hlost⟩
      · exact Or.inl (hstays hactive)
      · rw [OtherAct.renew_of_inactive hinactive]
        exact Or.inr ⟨hsame.active.trans hinactive, hlost⟩

/-- A step of another thread that does not look too early. -/
theorem other_kept {s : Publishing} (hmarked : Marked s) (h : s.Kept) {act : OtherAct}
    (hok : NotBetween s (.other act)) :
    (publishStep aead na keys order s (.other act)).1.Kept := by
  obtain ⟨sessions, place, number, marks, pub, loss⟩ := s
  refine ⟨fun i hi hbetween => (h.shown i (otherAct_active hi) hbetween).other hi, ?_⟩
  cases place with
  | writing o stage =>
      have hkept := h.place
      have hshown := h.shown o.slot
      dsimp only [publishStep, Msg1At.slot, Msg1At.Kept] at hkept hshown ⊢
      rcases otherAct_slot aead order sessions act o.slot with
        hsame | ⟨hobserved, hactive, hgone, hdue⟩
      · have hstill : ¬((sessions o.slot).active &&
            !(act.table aead order sessions o.slot).active) = true := by
          rw [hsame.active, Bool.and_not_self]
          exact Bool.false_ne_true
        rw [if_neg hstill]
        refine hkept.other aead order hsame fun hstage => Bool.eq_false_iff.mpr ?_
        intro hobserved
        have hnot := hok o.slot hobserved
        dsimp only [Msg1At.between] at hnot
        rw [if_pos hstage] at hnot
        exact hnot rfl
      · have hnot := hok o.slot hobserved
        have hplace := hmarked.place
        have hfreed : ((sessions o.slot).active &&
            !(act.table aead order sessions o.slot).active) = true := by
          rw [hactive, hgone]
          rfl
        obtain ⟨hrenewed, hcause⟩ := hdue (pub o.slot) (hshown hactive hnot).2.1
        dsimp only [Msg1At.Marked, Msg1At.between] at hplace hnot
        rw [if_pos hfreed, hrenewed]
        cases stage with
        | derived | keyed | named | numbered =>
            rw [hplace.1] at hactive
            cases hactive
        | active | scanned | bound | timed => exact absurd rfl hnot
        | queued | scheduled | sent => exact Or.inr ⟨hgone, hcause⟩
  | entered | allocated | reserved | returned => trivial

theorem publishStep_kept {s : Publishing} (hmarked : Marked s) (h : s.Kept)
    {act : PublishAct} (hok : NotBetween s act) :
    (publishStep aead na keys order s act).1.Kept := by
  cases act with
  | call env random msg1 src =>
      unfold publishStep
      dsimp only
      split
      next zero hplace =>
        refine ⟨fun i hi _ => h.shown i hi ?_, trivial⟩
        rw [hplace]
        exact (Option.some_ne_none i).symm
      next => exact h
  | next => exact publishNext_kept na keys order hmarked h
  | other act => exact other_kept aead na keys order hmarked h hok

theorem mem_observed {s : Publishing} {act : OtherAct} {e : PublishEvent} :
    e ∈ (publishStep aead na keys order s (.other act)).2 ↔
      ∃ i, act.observes s.sessions i = true ∧
        e = .observed (s.marks i) (s.sessions i) (s.published i) := by
  dsimp only [publishStep]
  rw [List.mem_filterMap]
  constructor
  · rintro ⟨i, _, hi⟩
    split at hi
    next hobserved => exact ⟨i, hobserved, (Option.some.inj hi).symm⟩
    next => cases hi
  · rintro ⟨i, hobserved, rfl⟩
    exact ⟨i, List.mem_finRange i, if_pos hobserved⟩

/-- The only event of `handle_msg1` is that it returns 0. -/
theorem mem_publishNext {s : Publishing} {e : PublishEvent}
    (he : e ∈ (publishNext na keys order s).2) :
    ∃ o, s.place = .writing o .sent ∧
      e = .returned o.secrets
        { s.sessions o.slot with lastActivityKeepalive := o.env.now } (s.published o.slot)
        s.loss := by
  obtain ⟨sessions, place, number, marks, pub, loss⟩ := s
  unfold publishNext at he
  cases place with
  | writing o stage =>
      dsimp only at he
      split at he
      next hstage =>
        rw [hstage, List.mem_singleton] at he
        refine ⟨o, by rw [hstage], he.trans ?_⟩
        dsimp only [msg1Next, Opening.next, Opening.store]
        rw [Function.update_self]
      next => cases he
  | entered env random msg1 src => cases he
  | allocated env random msg1 src i => cases he
  | reserved env random msg1 src i => cases he
  | returned zero => cases he

theorem publishStep_good {s : Publishing} (hmarked : Marked s) (h : s.Kept)
    {act : PublishAct} (hok : NotBetween s act) :
    ∀ e ∈ (publishStep aead na keys order s act).2, e.Good := by
  intro e he
  cases act with
  | call env random msg1 src =>
      unfold publishStep at he
      dsimp only at he
      split at he <;> cases he
  | next =>
      obtain ⟨o, hplace, rfl⟩ := mem_publishNext na keys order he
      have hkept := h.place
      rw [hplace] at hkept
      exact hkept
  | other act =>
      obtain ⟨i, hobserved, rfl⟩ := (mem_observed aead na keys order).mp he
      exact ⟨(observed_iff hmarked act).mpr hok i hobserved,
        h.shown i (OtherAct.active_of_observes hobserved) (hok i hobserved)⟩

/-- What another thread has seen was set by one handshake. -/
def PublishEvent.SeenGood : PublishEvent → Prop
  | .observed marks _ _ => marks.Complete
  | .returned _ _ _ _ => True

theorem publishStep_seen_iff {s : Publishing} (hmarked : Marked s) (act : PublishAct) :
    (∀ e ∈ (publishStep aead na keys order s act).2, e.SeenGood) ↔ NotBetween s act := by
  cases act with
  | call env random msg1 src =>
      refine iff_of_true (fun e he => ?_) trivial
      unfold publishStep at he
      dsimp only at he
      split at he <;> cases he
  | next =>
      refine iff_of_true (fun e he => ?_) trivial
      obtain ⟨o, _, rfl⟩ := mem_publishNext na keys order he
      trivial
  | other act =>
      rw [← observed_iff hmarked act]
      constructor
      · intro hgood i hobserved
        exact hgood _ ((mem_observed aead na keys order).mpr ⟨i, hobserved, rfl⟩)
      · intro hcomplete e he
        obtain ⟨i, hobserved, rfl⟩ := (mem_observed aead na keys order).mp he
        exact hcomplete i hobserved

/-- In every run of one handshake after another and other threads in between: every slot
that another thread observes with `active = 1` has `client_addr`, `last_activity` and
`outq` set by the handshake that activated it, to its source address, its time (or that of
a later keepalive) and its queue; and every `handle_msg1` that returns 0 leaves its slot
active with its keys, unless the slot was freed by a disconnect or more than sixty seconds
after that time. This is so exactly when no other thread observes a slot between the
stores to `active` and `outq`. -/
theorem published_initialised_iff (acts : List PublishAct) :
    (∀ e ∈ (run (publishStep aead na keys order) .start acts).2, e.Good) ↔
      Along (publishStep aead na keys order) NotBetween .start acts := by
  constructor
  · intro hgood
    refine (run_forall_events_iff (publishStep aead na keys order) NotBetween Marked
      PublishEvent.SeenGood (fun _ act h => publishStep_marked aead na keys order h act)
      (fun _ act h => publishStep_seen_iff aead na keys order h act) .start acts
      marked_start).mp fun e he => ?_
    cases e with
    | observed marks slot p => exact (hgood _ he).1
    | returned secrets slot p loss => trivial
  · intro hok
    exact run_forall_events (publishStep aead na keys order) NotBetween
      (fun s => Marked s ∧ s.Kept) PublishEvent.Good
      (fun _ act h hok => ⟨publishStep_marked aead na keys order h.1 act,
        publishStep_kept aead na keys order h.1 h.2 hok⟩)
      (fun _ _ h hok => publishStep_good aead na keys order h.1 h.2 hok) .start acts
      ⟨marked_start, kept_start⟩ hok

end Machine

/-- A handshake at time 100 in an unused slot. The expiry sweep runs behind the store to
`active` and before that to `last_activity`. -/
def sweptActs : List PublishAct :=
  let env : Env := ⟨100, .ok, .ok, ⟨Octets.zero privkeyLen, Octets.zero 8⟩,
    ⟨Octets.zero privkeyLen, Octets.zero 8⟩, true, true, fun _ => 0, fun _ => 0⟩
  let msg1 := buildMsg1 .little (Octets.zero pubkeyLen) (Octets.zero 8) ⟨5, 1024, 78, 78⟩
  [.call env env.random msg1 ⟨1, 2⟩] ++ List.replicate 7 .next ++
    [.other (.cleanup 100)] ++ List.replicate 7 .next

/-- The sweep sees the slot active with the time 0, that of no handshake, and frees it.
`handle_msg1` returns 0 with an inactive slot. -/
theorem published_too_early :
    let keys : ServerKeys := ⟨Octets.zero 64, true, Octets.zero privkeyLen⟩
    let final := run (publishStep .plainText Sodium.xorSodium keys .little) .start sweptActs
    final.1.place.returnedZero = true ∧ (final.1.sessions 0).active = false ∧
      (final.1.published 0).lastActivity = 100 ∧ final.1.loss = some (.timeout 100 0) ∧
      ¬ ∀ e ∈ final.2, e.Good := by
  decide +kernel

end Chamlon.Server
