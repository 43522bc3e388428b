import Mathlib.Tactic
import Chamlon.Server.Inbound
import Chamlon.Server.Cases

/-!
`handle_msg1` one store at a time. It takes no lock except for the scan for an older
session, so another thread can run between any two of the steps. They follow the source:
the slot is allocated and gets its address and options, then keys, session id and
sequence number, then `active`, and only behind that the address of the client, the time
of its last activity and its queue.

Run without interruption the steps are `handleMsg1`.
-/

namespace Chamlon.Server

open Config Memory Machine

/-- What `handle_msg1` has at hand once keys and MSG2 are computed. -/
structure Opening where
  env : Env
  src : SockAddr
  slot : Slot
  secrets : Sodium.SessionSecrets
  msg2 : Bytes

/-- The step of `handle_msg1` that was done last, from the key derivation on. -/
inductive Stage where
  | derived
  | keyed
  | named
  | numbered
  | active
  | scanned
  | bound
  | timed
  | queued
  | scheduled
  | sent
deriving DecidableEq, Repr

/-- Where a call of `handle_msg1` is. -/
inductive Msg1At where
  | entered (env : Env) (random : Ephemeral) (msg1 : Bytes) (src : SockAddr)
  | allocated (env : Env) (random : Ephemeral) (msg1 : Bytes) (src : SockAddr) (i : Slot)
  | reserved (env : Env) (random : Ephemeral) (msg1 : Bytes) (src : SockAddr) (i : Slot)
  | writing (o : Opening) (stage : Stage)
  /-- The call has returned, with 0 or -1. -/
  | returned (zero : Bool)

/-- A store to the slot of the call. -/
def Opening.store (o : Opening) (write : Session → Session) (sessions : Sessions) :
    Sessions :=
  Function.update sessions o.slot (write (sessions o.slot))

/-- The step behind a stage. -/
def Opening.next (o : Opening) (sessions : Sessions) :
    Stage → (Msg1At × Sessions) × List Event
  | .derived => ((.writing o .keyed, o.store (fun s =>
      { s with kRecv := o.secrets.k1, kSend := o.secrets.k2 }) sessions), [])
  | .keyed => ((.writing o .named, o.store (fun s =>
      { s with sessionId := o.secrets.sessionId }) sessions),
      [.installed o.slot o.secrets.sessionId])
  | .named => ((.writing o .numbered, o.store (fun s =>
      { s with sendSeq := 0 }) sessions), [])
  | .numbered => ((.writing o .active, o.store (fun s =>
      { s with active := true }) sessions), [])
  | .active =>
      let superseded := supersedeOld o.slot o.src sessions
      ((.writing o .scanned, superseded.1), superseded.2)
  | .scanned => ((.writing o .bound, o.store (fun s =>
      { s with clientAddr := o.src }) sessions), [])
  | .bound => ((.writing o .timed, o.store (fun s =>
      { s with lastActivity := o.env.now }) sessions), [])
  | .timed => ((.writing o .queued, o.store (fun s =>
      { s with outq := o.env.outqAllocated }) sessions), [])
  | .queued =>
      if !o.env.outqAllocated then
        ((.returned false, (freeSession o.slot sessions).1), (freeSession o.slot sessions).2)
      else ((.writing o .scheduled, sessions), [.schedulerAdd (sessions o.slot).sessionId])
  | .scheduled =>
      if !o.env.msg2Sent then
        ((.returned false, (freeSession o.slot sessions).1), (freeSession o.slot sessions).2)
      else ((.writing o .sent, sessions),
        [.sendMsg2 o.src o.msg2, .handshakeCompleted, .connectionEstablished])
  | .sent => ((.returned true, o.store (fun s =>
      { s with lastActivityKeepalive := o.env.now }) sessions), [])

section Steps

variable (na : Sodium) (keys : ServerKeys) (order : Endian)

/-- `handle_msg1` up to the call of `allocate_session`. -/
def msg1Allocate (env : Env) (random : Ephemeral) (msg1 : Bytes) (src : SockAddr)
    (sessions : Sessions) : (Msg1At × Sessions) × List Event :=
  if !keys.signSkLoaded then ((.returned false, sessions), [])
  else
    let checked : List Event :=
      [.handshakeInitiated, .handshakeRateCheck src.addr env.handshakeVerdict]
    match env.handshakeVerdict with
    | .blacklisted =>
        ((.returned false, sessions), checked ++ [.handshakeFailed, .blacklistEvent])
    | .exceeded => ((.returned false, sessions), checked ++ [.handshakeFailed])
    | .ok =>
        if msg1.length ≠ protoHeaderLen + msg1Len + params then
          ((.returned false, sessions), checked)
        else
          match allocateSession sessions with
          | none => ((.returned false, sessions), checked ++ [.handshakeFailed])
          | some (i, sessions) => ((.allocated env random msg1 src i, sessions), checked)

/-- Signature, MSG2 and key derivation. -/
def msg1Derive (env : Env) (random : Ephemeral) (msg1 : Bytes) (src : SockAddr) (i : Slot)
    (sessions : Sessions) : (Msg1At × Sessions) × List Event :=
  let cPub := msg1Pub msg1
  let cNonce := msg1Nonce msg1
  let sPub := na.kxPublic random.sPriv
  let failed : (Msg1At × Sessions) × List Event :=
    ((.returned false, (freeSession i sessions).1), (freeSession i sessions).2)
  match na.signDetached keys.signSk (signedBlob sPub random.sNonce cPub cNonce) with
  | none => failed
  | some sig =>
      match na.serverSecrets random.sPriv keys.serverSk cPub cNonce random.sNonce with
      | none => failed
      | some secrets =>
          ((.writing ⟨env, src, i, secrets,
            buildMsg2 order sPub random.sNonce (sessions i).vpnIp sig⟩ .derived, sessions), [])

/-- The next step of a call. -/
def msg1Next (call : Msg1At × Sessions) : (Msg1At × Sessions) × List Event :=
  match call.1 with
  | .entered env random msg1 src => msg1Allocate keys env random msg1 src call.2
  | .allocated env random msg1 src i =>
      ((.reserved env random msg1 src i, Function.update call.2 i
        ((call.2 i).reserve i (msg1Params order msg1))), [])
  | .reserved env random msg1 src i => msg1Derive na keys order env random msg1 src i call.2
  | .writing o stage => o.next call.2 stage
  | .returned _ => (call, [])

/-- `count` steps of a call. -/
def msg1Run (count : Nat) (call : Msg1At × Sessions) : (Msg1At × Sessions) × List Event :=
  run (fun call (_ : Unit) => msg1Next na keys order call) call (List.replicate count ())

/-- The call has returned, with the table and the events of `result`. -/
def Returned (call : (Msg1At × Sessions) × List Event) (result : Sessions × List Event) :
    Prop :=
  (∃ zero, call.1.1 = .returned zero) ∧ call.1.2 = result.1 ∧ call.2 = result.2

theorem msg1Run_succ (count : Nat) (call : Msg1At × Sessions) :
    msg1Run na keys order (count + 1) call =
      ((msg1Run na keys order count (msg1Next na keys order call).1).1,
        (msg1Next na keys order call).2 ++
          (msg1Run na keys order count (msg1Next na keys order call).1).2) := rfl

theorem msg1Run_returned (count : Nat) (zero : Bool) (sessions : Sessions) :
    msg1Run na keys order count (.returned zero, sessions) =
      ((.returned zero, sessions), []) := by
  induction count with
  | zero => rfl
  | succ count ih =>
      rw [msg1Run_succ]
      exact ih

variable {na keys order}

theorem Returned.of_next {count : Nat} {call next : Msg1At × Sessions}
    {events : List Event} {result : Sessions × List Event}
    (hnext : msg1Next na keys order call = (next, events))
    (h : Returned (msg1Run na keys order count next) result) :
    Returned (msg1Run na keys order (count + 1) call) (emit events result) := by
  obtain ⟨hplace, hsessions, hevents⟩ := h
  rw [msg1Run_succ, hnext]
  exact ⟨hplace, hsessions, congrArg (events ++ ·) hevents⟩

/-- A step without events. -/
theorem Returned.of_store {count : Nat} {call next : Msg1At × Sessions}
    {result : Sessions × List Event} (hnext : msg1Next na keys order call = (next, []))
    (h : Returned (msg1Run na keys order count next) result) :
    Returned (msg1Run na keys order (count + 1) call) result :=
  Returned.of_next hnext h

theorem Returned.of_last {call : Msg1At × Sessions} {result : Sessions × List Event}
    (count : Nat) (zero : Bool)
    (hnext : msg1Next na keys order call = ((.returned zero, result.1), result.2)) :
    Returned (msg1Run na keys order (count + 1) call) result := by
  rw [msg1Run_succ, hnext, msg1Run_returned]
  exact ⟨⟨zero, rfl⟩, rfl, List.append_nil _⟩

/-- Two stores in a row are one. -/
theorem Opening.store_store (o : Opening) (first second : Session → Session)
    (sessions : Sessions) :
    o.store second (o.store first sessions) = o.store (second ∘ first) sessions := by
  unfold Opening.store
  rw [Function.update_self, Function.update_idem]
  rfl

/-- `handle_msg1` behind `s->outq = malloc(..)`. -/
def Opening.finish (o : Opening) (sessions : Sessions) : Sessions × List Event :=
  if !o.env.outqAllocated then freeSession o.slot sessions
  else emit [.schedulerAdd o.secrets.sessionId] <|
    if !o.env.msg2Sent then freeSession o.slot sessions
    else (Function.update sessions o.slot
      { sessions o.slot with lastActivityKeepalive := o.env.now },
      [.sendMsg2 o.src o.msg2, .handshakeCompleted, .connectionEstablished])

variable (na keys order)

theorem queued_returns (o : Opening) (sessions : Sessions)
    (hid : (sessions o.slot).sessionId = o.secrets.sessionId) :
    Returned (msg1Run na keys order 3 (.writing o .queued, sessions))
      (o.finish sessions) := by
  unfold Opening.finish
  by_cases houtq : (!o.env.outqAllocated) = true
  · rw [if_pos houtq]
    exact Returned.of_last 2 false (if_pos houtq)
  rw [if_neg houtq, ← hid]
  refine Returned.of_next (if_neg houtq) ?_
  by_cases hsent : (!o.env.msg2Sent) = true
  · rw [if_pos hsent]
    exact Returned.of_last 1 false (if_pos hsent)
  · rw [if_neg hsent]
    have hlast : Returned (msg1Run na keys order 1 (.writing o .sent, sessions))
        (Function.update sessions o.slot
          { sessions o.slot with lastActivityKeepalive := o.env.now }, []) :=
      Returned.of_last 0 true rfl
    have hscheduled : Returned (msg1Run na keys order 2 (.writing o .scheduled, sessions))
        (emit [.sendMsg2 o.src o.msg2, .handshakeCompleted, .connectionEstablished]
          (Function.update sessions o.slot
            { sessions o.slot with lastActivityKeepalive := o.env.now }, [])) :=
      Returned.of_next (if_neg hsent) hlast
    exact hscheduled

/-- The three stores behind the scan. -/
def Opening.bind (o : Opening) : Sessions → Sessions :=
  o.store fun s =>
    { s with clientAddr := o.src, lastActivity := o.env.now, outq := o.env.outqAllocated }

theorem scanned_returns (o : Opening) (sessions : Sessions)
    (hid : (sessions o.slot).sessionId = o.secrets.sessionId) :
    Returned (msg1Run na keys order 6 (.writing o .scanned, sessions))
      (o.finish (o.bind sessions)) := by
  have hbound : o.store (fun s => { s with outq := o.env.outqAllocated })
      (o.store (fun s => { s with lastActivity := o.env.now })
        (o.store (fun s => { s with clientAddr := o.src }) sessions)) =
      o.bind sessions := by
    rw [Opening.store_store, Opening.store_store]
    rfl
  have hqueued : ((o.bind sessions) o.slot).sessionId = o.secrets.sessionId := by
    unfold Opening.bind Opening.store
    rw [Function.update_self]
    exact hid
  have hfinish := queued_returns na keys order o (o.bind sessions) hqueued
  rw [← hbound] at hfinish ⊢
  exact .of_store rfl (.of_store rfl (.of_store rfl hfinish))

/-- From the key derivation on. -/
theorem derived_returns (o : Opening) (sessions : Sessions) :
    Returned (msg1Run na keys order 11 (.writing o .derived, sessions))
      (activateSlot o.env o.src o.slot o.secrets o.msg2 sessions) := by
  have hactive : o.store (fun s => { s with active := true })
      (o.store (fun s => { s with sendSeq := 0 })
        (o.store (fun s => { s with sessionId := o.secrets.sessionId })
          (o.store (fun s => { s with kRecv := o.secrets.k1, kSend := o.secrets.k2 })
            sessions))) =
      o.store (fun s => s.activate o.secrets) sessions := by
    rw [Opening.store_store, Opening.store_store, Opening.store_store]
    rfl
  have hsplit : activateSlot o.env o.src o.slot o.secrets o.msg2 sessions =
      emit [.installed o.slot o.secrets.sessionId]
        (emit (supersedeOld o.slot o.src (o.store (fun s => s.activate o.secrets) sessions)).2
          (o.finish (o.bind (supersedeOld o.slot o.src
            (o.store (fun s => s.activate o.secrets) sessions)).1))) := by
    unfold activateSlot Opening.finish Opening.bind Opening.store
    dsimp only
    generalize supersedeOld o.slot o.src (Function.update sessions o.slot
      ((sessions o.slot).activate o.secrets)) = superseded
    rfl
  rw [hsplit, ← hactive]
  refine .of_store rfl (.of_next rfl (.of_store rfl (.of_store rfl ?_)))
  refine .of_next rfl (scanned_returns na keys order o _ ?_)
  rw [supersedeOld_self, hactive]
  dsimp only [Opening.store]
  rw [Function.update_self]
  rfl

/-- Uninterrupted, the steps of a call are `handleMsg1`. -/
theorem msg1_uninterrupted (env : Env) (random : Ephemeral) (msg1 : Bytes) (src : SockAddr)
    (sessions : Sessions) :
    Returned (msg1Run na keys order 14 (.entered env random msg1 src, sessions))
      (handleMsg1 na keys order env random msg1 src sessions) := by
  have hallocate : msg1Next na keys order (.entered env random msg1 src, sessions) =
      msg1Allocate keys env random msg1 src sessions := rfl
  unfold handleMsg1
  unfold msg1Allocate at hallocate
  split
  next hunloaded =>
    rw [if_pos hunloaded] at hallocate
    exact .of_last 13 false hallocate
  next hloaded =>
    rw [if_neg hloaded] at hallocate
    dsimp only at hallocate
    cases hverdict : env.handshakeVerdict with
    | blacklisted =>
        rw [hverdict] at hallocate
        exact .of_last 13 false hallocate
    | exceeded =>
        rw [hverdict] at hallocate
        exact .of_last 13 false hallocate
    | ok =>
        rw [hverdict] at hallocate
        dsimp only at hallocate ⊢
        split
        next hlength =>
          rw [if_pos hlength] at hallocate
          exact .of_last 13 false hallocate
        next hlength =>
          rw [if_neg hlength] at hallocate
          cases hfree : allocateSession sessions with
          | none =>
              rw [hfree] at hallocate
              exact .of_last 13 false hallocate
          | some found =>
              rw [hfree] at hallocate
              obtain ⟨i, next⟩ := found
              refine .of_next hallocate (.of_store rfl ?_)
              unfold msg1InSlot
              dsimp only
              generalize Function.update next i
                ((next i).reserve i (msg1Params order msg1)) = reserved
              have hderive : msg1Next na keys order
                  (.reserved env random msg1 src i, reserved) =
                  msg1Derive na keys order env random msg1 src i reserved := rfl
              unfold msg1Derive at hderive
              dsimp only at hderive
              split
              next hsign =>
                rw [hsign] at hderive
                exact .of_last 11 false hderive
              next sig hsign =>
                rw [hsign] at hderive
                dsimp only at hderive
                split
                next hsecrets =>
                  rw [hsecrets] at hderive
                  exact .of_last 11 false hderive
                next secrets hsecrets =>
                  rw [hsecrets] at hderive
                  exact .of_store hderive (derived_returns na keys order _ reserved)

end Steps

end Chamlon.Server
