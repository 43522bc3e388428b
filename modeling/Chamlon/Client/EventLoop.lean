import Mathlib.Tactic
import Chamlon.Client.Inbound
import Chamlon.Client.RekeyBuffer
import Chamlon.Client.RekeyLoop

/-!
`event_loop_run`, pass after pass. What a pass does is a list of acts in the order of the
source, and a run of the loop is a run of these acts; once the process has ended, none of
them does anything. What the loop sends goes through the machine of the client's traffic
and is an event here; the counter, which the sender thread moves as well, is read from the
world.

The loop is a composition of two machines that were looked at by themselves: it receives
like the receiver of the inbound path and renews its keys like the rekey step. And it is
the authenticated signs of life of the server, and nothing else, that keep it running.
-/

namespace Chamlon.Client

open Config Memory Machine Reassembly

abbrev loopKeepaliveSec : Int := 25
abbrev serverKeepaliveTimeout : Int := 125
abbrev sweepIntervalSec : Int := 5
abbrev maxBurst : Nat := 64

/-- How the loop ends. `g_stop` is never set. -/
inductive Ending where
  /-- `_exit(0)` in `handle_disconnect_request`. -/
  | requested
  /-- `epoll_wait` failed. -/
  | waitFailed
  /-- No keepalive of the server for too long: the loop returns -1. -/
  | silence
  /-- `exit(0)` in `handle_udp_packet`, after a DISCONNECT of the server. -/
  | notice
deriving DecidableEq, Repr

structure EventLoop where
  receiver : Receiver
  lastRehandshake : Int
  lastKeepalive : Int
  lastSweep : Int
  disconnectRequested : Bool
  ended : Option Ending

/-- At the first test of `g_stop`. -/
def EventLoop.start (session : ClientSession) (now : Int) : EventLoop :=
  ⟨.start session now, now, now, now, false, none⟩

inductive LoopEvent where
  /-- `send_keepalive` was called. -/
  | keepaliveSent (now : Int)
  /-- `send_disconnect` was called. -/
  | disconnectSent
  /-- `handle_tun_packet` was called. -/
  | tunRead
  | rekey (event : RekeyEvent)
  | inbound (now : Int) (event : InboundEvent)
  | swept (now : Int)
  | ended (how : Ending)
deriving DecidableEq

/-- One thing that the loop does in a pass. -/
inductive LoopAct where
  /-- `handle_disconnect_request`; a signal may have come before. -/
  | request (signalled : Bool)
  | waitFailed
  | keepalive (now : Int)
  | silence (now : Int)
  | rekey (sendSeq : BitVec 64) (p : RekeyPass)
  | tun
  /-- The calls of `handle_udp_packet` for one event and the test of
  `disconnect_requested` behind them. -/
  | drain (datagrams : List (UdpEnv × Bytes)) (signalled : Bool) (drained : Int)
  /-- The time of the pass and the one that `sweep_reassembly_table` reads. -/
  | sweep (now clock : Int)

/-- What `epoll_wait` reports of a descriptor. -/
inductive Ready where
  | tun
  | udp (datagrams : List (UdpEnv × Bytes)) (signalled : Bool) (drained : Int)

inductive Wait where
  | interrupted
  | failed
  | ready (events : List Ready)

/-- What one pass sees of the world. The time is that of its rekey step. -/
structure LoopPass where
  signalled : Bool
  wait : Wait
  sendSeq : BitVec 64
  rekey : RekeyPass
  swept : Int

abbrev LoopPass.now (p : LoopPass) : Int := p.rekey.now

def Ready.act : Ready → LoopAct
  | .tun => .tun
  | .udp datagrams signalled drained => .drain datagrams signalled drained

/-- One pass in the order of the source. After EINTR the loop starts again. -/
def LoopPass.acts (p : LoopPass) : List LoopAct :=
  .request p.signalled ::
    match p.wait with
    | .interrupted => []
    | .failed => [.waitFailed]
    | .ready events =>
        [.keepalive p.now, .silence p.now, .rekey p.sendSeq p.rekey] ++
          (events.map Ready.act ++ [.sweep p.now p.swept])

/-- `trigger_graceful_disconnect` was called. -/
def gaveUp (events : List RekeyEvent) : Bool :=
  events.any fun | .checked _ _ .disconnect => true | _ => false

/-- The session that a rekey step has put into `servers[0]`. -/
def renewedBy (p : RekeyPass) (events : List RekeyEvent) : Option ClientSession :=
  if events.any fun | .succeeded _ _ _ _ => true | _ => false then p.outcome else none

section Step

variable (na : Sodium) (order : Endian) (interval : Int)

def drainStep (r : Receiver) (d : UdpEnv × Bytes) : Receiver × List LoopEvent :=
  let result := inboundStep na order r (.udp d.1 d.2)
  (result.1, result.2.map (.inbound d.1.now))

def EventLoop.stop (s : EventLoop) (how : Ending) : EventLoop := { s with ended := some how }

def loopAct (s : EventLoop) : LoopAct → EventLoop × List LoopEvent
  | .request signalled =>
      if s.disconnectRequested || signalled then
        ({ s with disconnectRequested := true }.stop .requested,
          [.disconnectSent, .ended .requested])
      else (s, [])
  | .waitFailed => (s.stop .waitFailed, [.ended .waitFailed])
  | .keepalive now =>
      if loopKeepaliveSec ≤ now - s.lastKeepalive then
        ({ s with lastKeepalive := now }, [.keepaliveSent now])
      else (s, [])
  | .silence now =>
      if serverKeepaliveTimeout ≤ now - s.receiver.srv.lastServerKeepaliveTime then
        (s.stop .silence, [.ended .silence])
      else (s, [])
  | .rekey sendSeq p =>
      let result := rekeyPass interval p
        ⟨{ s.receiver.srv with sendSeq := sendSeq }, s.lastRehandshake⟩
      ({ s with
          receiver := { s.receiver with srv := result.1.srv }
          lastRehandshake := result.1.lastRehandshake
          disconnectRequested := s.disconnectRequested || gaveUp result.2 },
        result.2.map .rekey ++
          (renewedBy p result.2).toList.map fun new =>
            .inbound p.ended (.installed new.sessionId))
  | .tun => (s, [.tunRead])
  | .drain datagrams signalled drained =>
      let result := run (drainStep na order) s.receiver (datagrams.take maxBurst)
      let s := { s with receiver := result.1 }
      if s.receiver.exited then (s.stop .notice, result.2 ++ [.ended .notice])
      else if s.disconnectRequested || signalled then
        ({ s with
            disconnectRequested := true
            receiver := { s.receiver with
              srv := { s.receiver.srv with lastServerKeepaliveTime := drained } } },
          result.2)
      else (s, result.2)
  | .sweep now clock =>
      if sweepIntervalSec ≤ now - s.lastSweep then
        ({ s with
            receiver := { s.receiver with
              table := sweepReassemblyTable clock s.receiver.table }
            lastSweep := now }, [.swept now])
      else (s, [])

def loopStep (s : EventLoop) (act : LoopAct) : EventLoop × List LoopEvent :=
  if s.ended.isSome then (s, []) else loopAct na order interval s act

/-- The loop over some passes. -/
def eventLoopRun (s : EventLoop) (passes : List LoopPass) : EventLoop × List LoopEvent :=
  run (loopStep na order interval) s (passes.flatMap LoopPass.acts)

end Step

theorem eventLoopRun_snoc (na : Sodium) (order : Endian) (interval : Int) (s : EventLoop)
    (passes : List LoopPass) (p : LoopPass) :
    eventLoopRun na order interval s (passes ++ [p]) =
      let before := eventLoopRun na order interval s passes
      let after := run (loopStep na order interval) before.1 p.acts
      (after.1, before.2 ++ after.2) := by
  simp only [eventLoopRun, List.flatMap_append, List.flatMap_cons, List.flatMap_nil,
    List.append_nil, run_append]

theorem eventLoopRun_cons (na : Sodium) (order : Endian) (interval : Int) (s : EventLoop)
    (p : LoopPass) (passes : List LoopPass) :
    eventLoopRun na order interval s (p :: passes) =
      let before := run (loopStep na order interval) s p.acts
      let after := eventLoopRun na order interval before.1 passes
      (after.1, before.2 ++ after.2) := by
  simp only [eventLoopRun, List.flatMap_cons, run_append]

theorem loopStep_of_running {na : Sodium} {order : Endian} {interval : Int} {s : EventLoop}
    (h : s.ended = none) (act : LoopAct) :
    loopStep na order interval s act = loopAct na order interval s act := by
  unfold loopStep
  rw [h]
  rfl

theorem loopStep_of_ended {na : Sodium} {order : Endian} {interval : Int} {s : EventLoop}
    {how : Ending} (h : s.ended = some how) (act : LoopAct) :
    loopStep na order interval s act = (s, []) := by
  unfold loopStep
  rw [h]
  rfl

/-- Once the process has ended nothing happens any more. -/
theorem run_of_ended {na : Sodium} {order : Endian} {interval : Int} {s : EventLoop}
    {how : Ending} (h : s.ended = some how) (acts : List LoopAct) :
    run (loopStep na order interval) s acts = (s, []) := by
  induction acts with
  | nil => rfl
  | cons act rest ih => simp only [Machine.run, loopStep_of_ended h, ih, List.append_nil]

/-- An invariant of the acts is one of the loop: it only has to be kept while the process
runs. -/
theorem loop_history {na : Sodium} {order : Endian} {interval : Int}
    (ok : EventLoop → LoopAct → Prop) (inv : List LoopEvent → EventLoop → Prop)
    (hact : ∀ past s act, inv past s → s.ended = none → ok s act →
      inv (past ++ (loopAct na order interval s act).2) (loopAct na order interval s act).1)
    {past : List LoopEvent} {s : EventLoop} (hinit : inv past s) {acts : List LoopAct}
    (hok : Along (loopStep na order interval) ok s acts) :
    inv (past ++ (run (loopStep na order interval) s acts).2)
      (run (loopStep na order interval) s acts).1 := by
  refine run_history _ ok inv (fun past s act h hs => ?_) past s acts hinit hok
  cases hended : s.ended with
  | none =>
      rw [loopStep_of_running hended]
      exact hact past s act h hended hs
  | some how =>
      rw [loopStep_of_ended hended, List.append_nil]
      exact h

section Pass

variable {na : Sodium} {order : Endian} {interval : Int} {s : EventLoop}

/-- The loop is asked to disconnect. -/
theorem run_acts_requested {p : LoopPass} (hnone : s.ended = none)
    (hrequested : (s.disconnectRequested || p.signalled) = true) :
    run (loopStep na order interval) s p.acts =
      ({ s with disconnectRequested := true }.stop .requested,
        [.disconnectSent, .ended .requested]) := by
  have hended : ({ s with disconnectRequested := true }.stop .requested).ended =
      some .requested := rfl
  rw [LoopPass.acts, Machine.run, loopStep_of_running hnone, loopAct, if_pos hrequested]
  dsimp only
  rw [run_of_ended hended]
  rfl

/-- It is not, and the pass goes on with what `epoll_wait` reports. -/
theorem run_acts_unrequested {p : LoopPass} (hnone : s.ended = none)
    (hrequested : (s.disconnectRequested || p.signalled) = false) :
    run (loopStep na order interval) s p.acts =
      run (loopStep na order interval) s p.acts.tail := by
  rw [LoopPass.acts, Machine.run, loopStep_of_running hnone, loopAct,
    if_neg (by rw [hrequested]; exact Bool.false_ne_true)]
  rfl

end Pass

/-! ## The machines that it is made of -/

/-- What the loop receives. -/
def received (events : List LoopEvent) : List InboundEvent :=
  events.filterMap fun | .inbound _ event => some event | _ => none

/-- What happens in its rekey steps. -/
def rekeyed (events : List LoopEvent) : List RekeyEvent :=
  events.filterMap fun | .rekey event => some event | _ => none

@[simp] theorem received_append (first second : List LoopEvent) :
    received (first ++ second) = received first ++ received second :=
  List.filterMap_append

@[simp] theorem rekeyed_append (first second : List LoopEvent) :
    rekeyed (first ++ second) = rekeyed first ++ rekeyed second :=
  List.filterMap_append

@[simp] theorem received_map_inbound (now : Int) (events : List InboundEvent) :
    received (events.map (.inbound now)) = events := by
  rw [received, List.filterMap_map]
  exact List.filterMap_some

@[simp] theorem received_map_rekey (events : List RekeyEvent) :
    received (events.map .rekey) = [] := by
  rw [received, List.filterMap_map]
  exact List.filterMap_eq_nil_iff.mpr fun _ _ => rfl

@[simp] theorem rekeyed_map_rekey (events : List RekeyEvent) :
    rekeyed (events.map .rekey) = events := by
  rw [rekeyed, List.filterMap_map]
  exact List.filterMap_some

/-- The two differ in nothing that the inbound path looks at. -/
structure Receiver.Matches (r r' : Receiver) : Prop where
  session : r.srv.session = r'.srv.session
  rw : r.srv.rw = r'.srv.rw
  table : r.table = r'.table
  exited : r.exited = r'.exited

section Matches

variable {na : Sodium} {order : Endian} {r r' : Receiver}

theorem udpAccepted_matches (order : Endian) (h : r.Matches r') (env : UdpEnv) (plain : Bytes) :
    (udpAccepted order env plain r).1.Matches (udpAccepted order env plain r').1 ∧
      (udpAccepted order env plain r).2 = (udpAccepted order env plain r').2 := by
  obtain ⟨hsession, hrw, htable, hexited⟩ := h
  unfold udpAccepted
  rw [htable]
  cases udpPlain order env.stack env.now plain r'.table with
  | tooShort => exact ⟨⟨hsession, hrw, htable, hexited⟩, rfl⟩
  | dummy => exact ⟨⟨hsession, hrw, htable, hexited⟩, rfl⟩
  | keepalive => exact ⟨⟨hsession, hrw, rfl, hexited⟩, rfl⟩
  | disconnect => exact ⟨⟨hsession, hrw, rfl, rfl⟩, rfl⟩
  | fragment outcome => exact ⟨⟨hsession, hrw, rfl, hexited⟩, rfl⟩

theorem Receiver.Matches.record (h : r.Matches r') (seq : BitVec 64) :
    (r.record seq).Matches (r'.record seq) :=
  ⟨h.session, congrArg (·.updateWindow seq) h.rw, h.table, h.exited⟩

theorem Receiver.Matches.step (h : r.Matches r') (na : Sodium) (order : Endian)
    (act : InboundAct) :
    (inboundStep na order r act).1.Matches (inboundStep na order r' act).1 ∧
      (inboundStep na order r act).2 = (inboundStep na order r' act).2 := by
  unfold inboundStep
  rw [h.exited]
  split
  · exact ⟨h, rfl⟩
  cases act with
  | udp env packet =>
      dsimp only
      rw [handleUdpPacket_eq, handleUdpPacket_eq, h.session]
      cases openPacket na r'.srv.session (packet.take bufferSize) with
      | none => exact ⟨h, rfl⟩
      | some plain =>
          dsimp only
          rw [h.rw]
          split
          · exact ⟨h, rfl⟩
          · obtain ⟨hnext, hevents⟩ := udpAccepted_matches order
              (h.record (udpSeq (packet.take bufferSize))) env plain
            exact ⟨hnext, congrArg (List.cons _) hevents⟩
  | sweep now =>
      exact ⟨⟨h.session, h.rw, congrArg (sweepReassemblyTable now) h.table, rfl⟩, rfl⟩
  | rehandshake new now =>
      refine ⟨⟨?_, rfl, h.table, rfl⟩, rfl⟩
      dsimp only [Connection.rehandshakeSucceeded]
      rw [h.session]

/-- A burst of datagrams does the same to both. -/
theorem drain_matches (h : r.Matches r') (datagrams : List (UdpEnv × Bytes)) :
    let drained := run (drainStep na order) r datagrams
    let stepped := run (inboundStep na order) r' (datagrams.map fun d => .udp d.1 d.2)
    drained.1.Matches stepped.1 ∧ received drained.2 = stepped.2 :=
  run_simulates (drainStep na order) (fun _ _ => True) (inboundStep na order)
    (fun d => .udp d.1 d.2) Receiver.Matches received rfl received_append
    (fun s t d hrel _ => by
      obtain ⟨hnext, hevents⟩ := hrel.step na order (.udp d.1 d.2)
      refine ⟨hnext, ?_⟩
      rw [← hevents]
      exact received_map_inbound d.1.now _)
    r r' datagrams h (Along.of_forall _ (fun _ => True) r datagrams fun _ _ => trivial)

end Matches

/-- Of `servers[0]` only the window and the keepalive time were touched. -/
def OnlyHeard (srv srv' : Connection) : Prop :=
  ∃ rw time, srv' = { srv with rw := rw, lastServerKeepaliveTime := time }

theorem OnlyHeard.trans {srv srv' srv'' : Connection} (h : OnlyHeard srv srv')
    (h' : OnlyHeard srv' srv'') : OnlyHeard srv srv'' := by
  obtain ⟨rw, time, rfl⟩ := h
  obtain ⟨rw', time', rfl⟩ := h'
  exact ⟨rw', time', rfl⟩

theorem onlyHeard_refl (srv : Connection) : OnlyHeard srv srv :=
  ⟨srv.rw, srv.lastServerKeepaliveTime, rfl⟩

theorem udpAccepted_onlyHeard (order : Endian) (env : UdpEnv) (plain : Bytes)
    (r : Receiver) : OnlyHeard r.srv (udpAccepted order env plain r).1.srv := by
  unfold udpAccepted
  cases udpPlain order env.stack env.now plain r.table with
  | tooShort => exact onlyHeard_refl r.srv
  | dummy => exact onlyHeard_refl r.srv
  | keepalive => exact ⟨r.srv.rw, env.now, rfl⟩
  | disconnect => exact onlyHeard_refl r.srv
  | fragment outcome => exact onlyHeard_refl r.srv

theorem drainStep_onlyHeard (na : Sodium) (order : Endian) (r : Receiver)
    (d : UdpEnv × Bytes) : OnlyHeard r.srv (drainStep na order r d).1.srv := by
  unfold drainStep inboundStep
  dsimp only
  split
  · exact onlyHeard_refl r.srv
  rw [handleUdpPacket_eq]
  split
  · exact onlyHeard_refl r.srv
  next plain _ =>
    dsimp only
    split
    · exact onlyHeard_refl r.srv
    · have hrecord : OnlyHeard r.srv (r.record (udpSeq (d.2.take bufferSize))).srv :=
        ⟨_, r.srv.lastServerKeepaliveTime, rfl⟩
      exact hrecord.trans (udpAccepted_onlyHeard order d.1 plain _)

theorem drain_onlyHeard (na : Sodium) (order : Endian) (r : Receiver)
    (datagrams : List (UdpEnv × Bytes)) :
    OnlyHeard r.srv (run (drainStep na order) r datagrams).1.srv :=
  run_invariant _ (fun _ _ => True) (fun r' => OnlyHeard r.srv r'.srv)
    (fun s d h _ => h.trans (drainStep_onlyHeard na order s d)) r datagrams
    (onlyHeard_refl r.srv) (Along.of_forall _ (fun _ => True) r datagrams fun _ _ => trivial)

theorem drain_inbound (na : Sodium) (order : Endian) (r : Receiver)
    (datagrams : List (UdpEnv × Bytes)) :
    ∀ e ∈ (run (drainStep na order) r datagrams).2, ∃ now event, e = .inbound now event := by
  refine run_forall_events (drainStep na order) (fun _ _ => True) (fun _ => True) _
    (fun _ _ _ _ => trivial) (fun s d _ _ e he => ?_) r datagrams trivial
    (Along.of_forall _ (fun _ => True) r datagrams fun _ _ => trivial)
  obtain ⟨event, _, rfl⟩ := List.mem_map.mp he
  exact ⟨d.1.now, event, rfl⟩

theorem rekeyed_drain (na : Sodium) (order : Endian) (r : Receiver)
    (datagrams : List (UdpEnv × Bytes)) :
    rekeyed (run (drainStep na order) r datagrams).2 = [] := by
  apply List.filterMap_eq_nil_iff.mpr
  intro e he
  obtain ⟨now, event, rfl⟩ := drain_inbound na order r datagrams e he
  rfl

theorem shouldAttemptRehandshake_heard (now : Int) (srv : Connection) :
    let after := (shouldAttemptRehandshake now srv).1
    after.session = srv.session ∧ after.rw = srv.rw ∧
      after.lastServerKeepaliveTime = srv.lastServerKeepaliveTime := by
  unfold shouldAttemptRehandshake
  split
  · exact ⟨rfl, rfl, rfl⟩
  split
  · exact ⟨rfl, rfl, rfl⟩
  · exact ⟨rfl, rfl, rfl⟩
  · split <;> exact ⟨rfl, rfl, rfl⟩
  · exact ⟨rfl, rfl, rfl⟩

/-- What a rekey step does to the session: it leaves it, the window and the keepalive time
alone, or it puts a new one there and resets the two. -/
theorem rekeyPass_renews (interval : Int) (p : RekeyPass) (s : RekeyLoop) :
    let result := rekeyPass interval p s
    (renewedBy p result.2 = none ∧ result.1.srv.session = s.srv.session ∧
        result.1.srv.rw = s.srv.rw ∧
        result.1.srv.lastServerKeepaliveTime = s.srv.lastServerKeepaliveTime) ∨
      ∃ new, renewedBy p result.2 = some new ∧
        result.1.srv.session = { new with assignedIp := s.srv.session.assignedIp } ∧
        result.1.srv.rw = .zero ∧ result.1.srv.lastServerKeepaliveTime = p.ended := by
  dsimp only
  unfold rekeyPass
  by_cases hdue : (!rekeyDue interval p.now s) = true
  · rw [if_pos hdue]
    exact .inl ⟨rfl, rfl, rfl, rfl⟩
  rw [if_neg hdue]
  obtain ⟨hsession, hrw, htime⟩ := shouldAttemptRehandshake_heard p.checked s.srv
  dsimp only
  by_cases hcall : (shouldAttemptRehandshake p.checked s.srv).2 = .now ∧ p.senderArgs = true
  · rw [if_pos hcall]
    unfold callRehandshake
    cases houtcome : p.outcome with
    | none => exact .inl ⟨rfl, hsession, hrw, htime⟩
    | some new =>
        refine .inr ⟨new, houtcome, ?_, rfl, rfl⟩
        rw [← hsession]
        rfl
  · rw [if_neg hcall]
    exact .inl ⟨rfl, hsession, hrw, htime⟩

section Refinement

variable {na : Sodium} {order : Endian} {interval : Int} {session : ClientSession}
  {opened : Int} {past : List LoopEvent} {s : EventLoop}

/-- Up to here the loop has received like the inbound machine and renewed its keys like the
rekey machine. -/
structure Refined (na : Sodium) (order : Endian) (interval : Int) (session : ClientSession)
    (opened : Int) (past : List LoopEvent) (s : EventLoop) : Prop where
  running : s.ended = none → s.receiver.exited = false
  receives : ∃ acts,
    received past = (run (inboundStep na order) (.start session opened) acts).2 ∧
      s.receiver.Matches (run (inboundStep na order) (.start session opened) acts).1
  rekeys : ∃ acts,
    rekeyed past = (run (rekeyStep interval) (.opened session opened) acts).2 ∧
      ⟨s.receiver.srv, s.lastRehandshake⟩ =
        (run (rekeyStep interval) (.opened session opened) acts).1

theorem refined_start (na : Sodium) (order : Endian) (interval : Int)
    (session : ClientSession) (opened : Int) :
    Refined na order interval session opened [] (.start session opened) :=
  ⟨fun _ => rfl, ⟨[], rfl, rfl, rfl, rfl, rfl⟩, ⟨[], rfl, rfl⟩⟩

/-- One more act of the loop: acts of the two machines that do the same. -/
theorem Refined.extend (h : Refined na order interval session opened past s)
    {events : List LoopEvent} {s' : EventLoop}
    (hrunning : s'.ended = none → s'.receiver.exited = false)
    (inbound : List InboundAct)
    (hinbound : ∀ r, s.receiver.Matches r →
      s'.receiver.Matches (run (inboundStep na order) r inbound).1 ∧
        received events = (run (inboundStep na order) r inbound).2)
    (rekey : List RekeyAct)
    (hrekey : run (rekeyStep interval) ⟨s.receiver.srv, s.lastRehandshake⟩ rekey =
      (⟨s'.receiver.srv, s'.lastRehandshake⟩, rekeyed events)) :
    Refined na order interval session opened (past ++ events) s' := by
  refine ⟨hrunning, ?_, ?_⟩
  · obtain ⟨acts, hpast, hmatches⟩ := h.receives
    obtain ⟨hnext, hevents⟩ := hinbound _ hmatches
    refine ⟨acts ++ inbound, ?_, ?_⟩
    · rw [received_append, run_append, hpast, hevents]
    · rw [run_append]
      exact hnext
  · obtain ⟨acts, hpast, hsame⟩ := h.rekeys
    refine ⟨acts ++ rekey, ?_, ?_⟩
    · rw [rekeyed_append, run_append, ← hsame, hrekey, hpast]
    · rw [run_append, ← hsame, hrekey]

/-- An act that the two machines do not see. -/
theorem Refined.unseen (h : Refined na order interval session opened past s)
    {events : List LoopEvent} {s' : EventLoop} (hreceiver : s'.receiver = s.receiver)
    (hlast : s'.lastRehandshake = s.lastRehandshake)
    (hrunning : s'.ended = none → s.ended = none) (hreceived : received events = [])
    (hrekeyed : rekeyed events = []) :
    Refined na order interval session opened (past ++ events) s' := by
  refine h.extend (fun hnone => ?_) [] (fun r hmatches => ?_) [] ?_
  · rw [hreceiver]
    exact h.running (hrunning hnone)
  · rw [hreceiver, hreceived]
    exact ⟨hmatches, rfl⟩
  · rw [hreceiver, hlast, hrekeyed]
    rfl

theorem rekey_refined (h : Refined na order interval session opened past s)
    (hnone : s.ended = none) (sendSeq : BitVec 64) (p : RekeyPass) :
    Refined na order interval session opened
      (past ++ (loopAct na order interval s (.rekey sendSeq p)).2)
      (loopAct na order interval s (.rekey sendSeq p)).1 := by
  have hruns := h.running hnone
  have hrenews := rekeyPass_renews interval p
    ⟨{ s.receiver.srv with sendSeq := sendSeq }, s.lastRehandshake⟩
  refine h.extend (fun _ => hruns)
    ((renewedBy p (rekeyPass interval p
      ⟨{ s.receiver.srv with sendSeq := sendSeq }, s.lastRehandshake⟩).2).toList.map
        fun new => .rehandshake new p.ended) (fun r hmatches => ?_)
    [.traffic sendSeq s.receiver.srv.rw s.receiver.srv.lastServerKeepaliveTime, .pass p] ?_
  · dsimp only [loopAct] at hrenews ⊢
    generalize rekeyPass interval p
      ⟨{ s.receiver.srv with sendSeq := sendSeq }, s.lastRehandshake⟩ = result at hrenews ⊢
    rw [received_append, received_map_rekey, List.nil_append]
    rcases hrenews with ⟨hkept, hsession, hrw, _⟩ | ⟨new, hnew, hsession, hrw, _⟩
    · rw [hkept]
      exact ⟨⟨hsession.trans hmatches.session, hrw.trans hmatches.rw, hmatches.table,
        hmatches.exited⟩, rfl⟩
    · have hexited : r.exited = false := hmatches.exited.symm.trans hruns
      rw [hnew]
      simp only [Option.toList, List.map_cons, List.map_nil, Machine.run, inboundStep, hexited,
        Bool.false_eq_true, if_false]
      refine ⟨⟨?_, hrw, hmatches.table, hruns⟩, rfl⟩
      rw [hsession, hmatches.session]
      rfl
  · dsimp only [loopAct, Machine.run, rekeyStep]
    rw [rekeyed_append, rekeyed_map_rekey, List.nil_append, List.append_nil]
    generalize rekeyPass interval p
      ⟨{ s.receiver.srv with sendSeq := sendSeq }, s.lastRehandshake⟩ = result
    cases renewedBy p result.2 with
    | none =>
        rw [Option.toList_none, List.map_nil, rekeyed, List.filterMap_nil, List.append_nil]
    | some new =>
        have hother : rekeyed ((some new).toList.map fun new =>
            LoopEvent.inbound p.ended (.installed new.sessionId)) = [] := rfl
        rw [hother, List.append_nil]

theorem drain_refined (h : Refined na order interval session opened past s)
    (datagrams : List (UdpEnv × Bytes)) (signalled : Bool) (drained : Int) :
    Refined na order interval session opened
      (past ++ (loopAct na order interval s (.drain datagrams signalled drained)).2)
      (loopAct na order interval s (.drain datagrams signalled drained)).1 := by
  obtain ⟨rw', time, hheard⟩ := drain_onlyHeard na order s.receiver (datagrams.take maxBurst)
  have hrekeyed := rekeyed_drain na order s.receiver (datagrams.take maxBurst)
  have hmatch := fun r hmatches =>
    @drain_matches na order s.receiver r hmatches (datagrams.take maxBurst)
  dsimp only [loopAct] at hmatch ⊢
  generalize run (drainStep na order) s.receiver (datagrams.take maxBurst) = result at *
  generalize (datagrams.take maxBurst).map (fun d => InboundAct.udp d.1 d.2) = acts at hmatch
  by_cases hexited : result.1.exited = true
  · rw [if_pos hexited]
    refine h.extend nofun acts (fun r hmatches => ?_)
      [.traffic s.receiver.srv.sendSeq rw' time] ?_
    · rw [received_append]
      exact ⟨(hmatch r hmatches).1, (List.append_nil _).trans (hmatch r hmatches).2⟩
    · rw [rekeyed_append, hrekeyed]
      dsimp only [EventLoop.stop]
      rw [hheard]
      rfl
  rw [if_neg hexited]
  have hruns : result.1.exited = false := Bool.eq_false_iff.mpr hexited
  by_cases hrequested : (s.disconnectRequested || signalled) = true
  · rw [if_pos hrequested]
    refine h.extend (fun _ => hruns) acts (fun r hmatches => ?_)
      [.traffic s.receiver.srv.sendSeq rw' drained] ?_
    · obtain ⟨hnext, hevents⟩ := hmatch r hmatches
      exact ⟨⟨hnext.session, hnext.rw, hnext.table, hnext.exited⟩, hevents⟩
    · rw [hrekeyed]
      dsimp only
      rw [hheard]
      rfl
  · rw [if_neg hrequested]
    refine h.extend (fun _ => hruns) acts hmatch [.traffic s.receiver.srv.sendSeq rw' time] ?_
    rw [hrekeyed]
    dsimp only
    rw [hheard]
    rfl

/-- Every act is one of the two machines, or of none. -/
theorem loopAct_refined (h : Refined na order interval session opened past s)
    (hnone : s.ended = none) (act : LoopAct) :
    Refined na order interval session opened
      (past ++ (loopAct na order interval s act).2) (loopAct na order interval s act).1 := by
  cases act with
  | request signalled =>
      dsimp only [loopAct]
      split
      · exact h.unseen rfl rfl nofun rfl rfl
      · exact h.unseen rfl rfl id rfl rfl
  | waitFailed => exact h.unseen rfl rfl nofun rfl rfl
  | keepalive now =>
      dsimp only [loopAct]
      split
      · exact h.unseen rfl rfl id rfl rfl
      · exact h.unseen rfl rfl id rfl rfl
  | silence now =>
      dsimp only [loopAct]
      split
      · exact h.unseen rfl rfl nofun rfl rfl
      · exact h.unseen rfl rfl id rfl rfl
  | rekey sendSeq p => exact rekey_refined h hnone sendSeq p
  | tun => exact h.unseen rfl rfl id rfl rfl
  | drain datagrams signalled drained => exact drain_refined h datagrams signalled drained
  | sweep now clock =>
      have hruns := h.running hnone
      dsimp only [loopAct]
      split
      · refine h.extend (fun _ => hruns) [.sweep clock] (fun r hmatches => ?_) [] rfl
        have hexited : r.exited = false := hmatches.exited.symm.trans hruns
        simp only [Machine.run, inboundStep, hexited, Bool.false_eq_true, if_false]
        exact ⟨⟨hmatches.session, hmatches.rw,
          congrArg (sweepReassemblyTable clock) hmatches.table, hruns⟩, rfl⟩
      · exact h.unseen rfl rfl id rfl rfl

end Refinement

/-- Every run of the event loop, whatever the clock, the network, the signals and the
handshakes do, is made of a run of the inbound machine and a run of the rekey machine: what
the loop accepts, writes and installs are the events of the one, what its rekey steps do
are the events of the other, and the loop ends with the session, the window and the table
of the one and with the state of the other. -/
theorem event_loop_refines (na : Sodium) (order : Endian) (interval : Int)
    (session : ClientSession) (opened : Int) (passes : List LoopPass) :
    let final := eventLoopRun na order interval (.start session opened) passes
    (∃ acts, received final.2 =
        (run (inboundStep na order) (.start session opened) acts).2 ∧
      final.1.receiver.Matches
        (run (inboundStep na order) (.start session opened) acts).1) ∧
    ∃ acts, rekeyed final.2 = (run (rekeyStep interval) (.opened session opened) acts).2 ∧
      ⟨final.1.receiver.srv, final.1.lastRehandshake⟩ =
        (run (rekeyStep interval) (.opened session opened) acts).1 := by
  have hrefined := loop_history (fun _ _ => True) (Refined na order interval session opened)
    (fun past s act h hnone _ => loopAct_refined h hnone act)
    (refined_start na order interval session opened)
    (Along.of_forall _ (fun _ => True) _ (passes.flatMap LoopPass.acts) fun _ _ => trivial)
  exact ⟨hrefined.receives, hrefined.rekeys⟩

/-! ## Signs of life -/

/-- The plaintext is a keepalive. -/
def carriesKeepalive (order : Endian) (plain : Bytes) : Bool :=
  decide (tunnelHeaderLen ≤ plain.length) &&
    decide ((plainHeader order plain).flags.toNat = pktCtrlKeepalive)

/-- When the server was last heard of: a keepalive that was accepted, or a handshake. -/
def sign (order : Endian) (last : Int) : LoopEvent → Int
  | .inbound now (.accepted _ _ plain) => if carriesKeepalive order plain then now else last
  | .inbound now (.installed _) => now
  | _ => last

def lastSign (order : Endian) (opened : Int) (events : List LoopEvent) : Int :=
  events.foldl (sign order) opened

theorem lastSign_append (order : Endian) (opened : Int) (first second : List LoopEvent) :
    lastSign order opened (first ++ second) =
      lastSign order (lastSign order opened first) second :=
  List.foldl_append

theorem lastSign_rekey (order : Endian) (opened : Int) (events : List RekeyEvent) :
    lastSign order opened (events.map .rekey) = opened := by
  induction events with
  | nil => rfl
  | cons event rest ih => exact ih

theorem lastSign_reassembly (order : Endian) (opened now : Int)
    (events : List ReassemblyEvent) :
    lastSign order opened ((events.map InboundEvent.reassembly).map (.inbound now)) =
      opened := by
  induction events with
  | nil => rfl
  | cons event rest ih => exact ih

theorem udpPlain_keepalive_iff (order : Endian) (stack : Nat → UInt8) (now : Int)
    (plain : Bytes) (table : ReassemblyTable) :
    udpPlain order stack now plain table = .keepalive ↔
      carriesKeepalive order plain = true := by
  unfold udpPlain carriesKeepalive
  by_cases hshort : plain.length < tunnelHeaderLen
  · rw [if_pos hshort, decide_eq_false (Nat.not_le_of_lt hshort), Bool.false_and]
    exact ⟨nofun, nofun⟩
  have hlong := Nat.le_of_not_lt hshort
  have hheader : readHeader order (peek plain stack) = plainHeader order plain :=
    readHeader_peek_congr order plain stack (fun _ => 0)
      ((show 8 ≤ tunnelHeaderLen by decide).trans hlong)
  rw [if_neg hshort, decide_eq_true hlong, Bool.true_and, decide_eq_true_eq]
  unfold dispatchPlain
  rw [hheader]
  dsimp only
  by_cases hdummy : (plainHeader order plain).flags.toNat = pktDummy
  · rw [if_pos hdummy, hdummy]
    exact ⟨nofun, nofun⟩
  rw [if_neg hdummy]
  by_cases hkeepalive : (plainHeader order plain).flags.toNat = pktCtrlKeepalive
  · rw [if_pos hkeepalive]
    exact ⟨fun _ => hkeepalive, fun _ => rfl⟩
  rw [if_neg hkeepalive]
  refine ⟨fun h => ?_, fun h => absurd h hkeepalive⟩
  split at h <;> cases h

/-- A keepalive moves the time, and nothing else does. -/
theorem udpAccepted_sign (order : Endian) (env : UdpEnv) (plain : Bytes) (r : Receiver)
    (sessionId : Octets sessionIdLen) (seq : BitVec 64) :
    (udpAccepted order env plain r).1.srv.lastServerKeepaliveTime =
      lastSign order r.srv.lastServerKeepaliveTime
        ((.accepted sessionId seq plain :: (udpAccepted order env plain r).2).map
          (.inbound env.now)) := by
  have hiff := udpPlain_keepalive_iff order env.stack env.now plain r.table
  rw [List.map_cons, lastSign, List.foldl_cons, ← lastSign, sign]
  unfold udpAccepted
  cases houtcome : udpPlain order env.stack env.now plain r.table with
  | keepalive =>
      rw [if_pos (hiff.mp houtcome)]
      rfl
  | fragment outcome =>
      rw [if_neg fun hcarries => by rw [hiff.mpr hcarries] at houtcome; cases houtcome]
      exact (lastSign_reassembly order _ env.now outcome.events).symm
  | _ =>
      rw [if_neg fun hcarries => by rw [hiff.mpr hcarries] at houtcome; cases houtcome]
      rfl

@[simp] theorem Receiver.record_lastServerKeepaliveTime (r : Receiver) (seq : BitVec 64) :
    (r.record seq).srv.lastServerKeepaliveTime = r.srv.lastServerKeepaliveTime := rfl

theorem drainStep_sign (na : Sodium) (order : Endian) (r : Receiver) (d : UdpEnv × Bytes) :
    (drainStep na order r d).1.srv.lastServerKeepaliveTime =
      lastSign order r.srv.lastServerKeepaliveTime (drainStep na order r d).2 := by
  unfold drainStep inboundStep
  dsimp only
  split
  · rfl
  rw [handleUdpPacket_eq]
  split
  · rfl
  next plain _ =>
    dsimp only
    split
    · rfl
    · have hsign := udpAccepted_sign order d.1 plain
        (r.record (udpSeq (d.2.take bufferSize))) r.srv.session.sessionId
        (udpSeq (d.2.take bufferSize))
      rw [Receiver.record_lastServerKeepaliveTime] at hsign
      exact hsign

theorem drain_sign (na : Sodium) (order : Endian) (r : Receiver)
    (datagrams : List (UdpEnv × Bytes)) :
    (run (drainStep na order) r datagrams).1.srv.lastServerKeepaliveTime =
      lastSign order r.srv.lastServerKeepaliveTime
        (run (drainStep na order) r datagrams).2 := by
  induction datagrams generalizing r with
  | nil => rfl
  | cons d rest ih =>
      rw [Machine.run, lastSign_append, ← drainStep_sign]
      exact ih _

/-- As long as nobody wants to disconnect, the loop knows when it last heard of the
server. -/
def Heard (order : Endian) (opened : Int) (past : List LoopEvent) (s : EventLoop) : Prop :=
  s.disconnectRequested = false →
    s.receiver.srv.lastServerKeepaliveTime = lastSign order opened past

theorem Heard.silent {order : Endian} {opened : Int} {past events : List LoopEvent}
    {s s' : EventLoop} (h : Heard order opened past s)
    (hrequested : s'.disconnectRequested = false → s.disconnectRequested = false)
    (htime : s'.receiver.srv.lastServerKeepaliveTime =
      s.receiver.srv.lastServerKeepaliveTime)
    (hevents : ∀ last, lastSign order last events = last) :
    Heard order opened (past ++ events) s' := by
  intro hfalse
  rw [lastSign_append, hevents, htime]
  exact h (hrequested hfalse)

theorem loopAct_heard {na : Sodium} {order : Endian} {interval opened : Int}
    {past : List LoopEvent} {s : EventLoop} (h : Heard order opened past s) (act : LoopAct) :
    Heard order opened (past ++ (loopAct na order interval s act).2)
      (loopAct na order interval s act).1 := by
  cases act with
  | request signalled =>
      dsimp only [loopAct]
      split
      · exact fun hfalse => Bool.noConfusion hfalse
      · exact h.silent id rfl fun _ => rfl
  | waitFailed => exact h.silent id rfl fun _ => rfl
  | keepalive now =>
      dsimp only [loopAct]
      split <;> exact h.silent id rfl fun _ => rfl
  | silence now =>
      dsimp only [loopAct]
      split <;> exact h.silent id rfl fun _ => rfl
  | rekey sendSeq p =>
      intro hfalse
      have hbefore := h (Bool.or_eq_false_iff.mp hfalse).1
      have hrenews := rekeyPass_renews interval p
        ⟨{ s.receiver.srv with sendSeq := sendSeq }, s.lastRehandshake⟩
      dsimp only [loopAct] at hrenews ⊢
      rw [lastSign_append, lastSign_append, lastSign_rekey, ← hbefore]
      rcases hrenews with ⟨hkept, _, _, htime⟩ | ⟨new, hnew, _, _, htime⟩
      · rw [hkept, htime]
        rfl
      · rw [hnew, htime]
        rfl
  | tun => exact h.silent id rfl fun _ => rfl
  | drain datagrams signalled drained =>
      have hsign := drain_sign na order s.receiver (datagrams.take maxBurst)
      dsimp only [loopAct]
      split
      · intro hfalse
        rw [lastSign_append, lastSign_append, ← h hfalse, ← hsign]
        rfl
      split
      · exact fun hfalse => Bool.noConfusion hfalse
      · intro hfalse
        rw [lastSign_append, ← h hfalse]
        exact hsign
  | sweep now clock =>
      dsimp only [loopAct]
      split <;> exact h.silent id rfl fun _ => rfl

theorem eventLoop_heard (na : Sodium) (order : Endian) (interval : Int)
    (session : ClientSession) (opened : Int) (passes : List LoopPass) :
    Heard order opened (eventLoopRun na order interval (.start session opened) passes).2
      (eventLoopRun na order interval (.start session opened) passes).1 := by
  have hstart : Heard order opened [] (.start session opened) := fun _ => rfl
  exact loop_history (fun _ _ => True) (Heard order opened)
    (fun past s act h _ _ => loopAct_heard h act) hstart
    (Along.of_forall _ (fun _ => True) _ (passes.flatMap LoopPass.acts) fun _ _ => trivial)

def LoopAct.isSilence : LoopAct → Bool
  | .silence _ => true
  | _ => false

section Silence

variable {na : Sodium} {order : Endian} {interval : Int} {s : EventLoop}

theorem loopAct_not_silence {act : LoopAct} (hact : act.isSilence = false)
    (hnone : s.ended = none) :
    (loopAct na order interval s act).1.ended ≠ some .silence := by
  have hstays : s.ended ≠ some .silence := by
    rw [hnone]
    nofun
  cases act with
  | request signalled =>
      dsimp only [loopAct]
      split
      · nofun
      · exact hstays
  | waitFailed => nofun
  | keepalive now =>
      dsimp only [loopAct]
      split <;> exact hstays
  | silence now => cases hact
  | rekey sendSeq p => exact hstays
  | tun => exact hstays
  | drain datagrams signalled drained =>
      dsimp only [loopAct]
      split
      · nofun
      split <;> exact hstays
  | sweep now clock =>
      dsimp only [loopAct]
      split <;> exact hstays

theorem run_not_silence (hstart : s.ended ≠ some .silence) (acts : List LoopAct)
    (hacts : ∀ act ∈ acts, act.isSilence = false) :
    (run (loopStep na order interval) s acts).1.ended ≠ some .silence := by
  refine run_invariant (loopStep na order interval) (fun _ act => act.isSilence = false)
    (fun s => s.ended ≠ some .silence) (fun s act hs hact => ?_) s acts hstart
    (Along.of_forall _ (fun act => act.isSilence = false) s acts hacts)
  cases hended : s.ended with
  | none =>
      rw [loopStep_of_running hended]
      exact loopAct_not_silence hact hended
  | some how =>
      rw [loopStep_of_ended hended]
      exact hs

/-- A pass that is not asked to disconnect and whose wait succeeds, up to the silence
test. -/
theorem run_acts_ready {p : LoopPass} (hnone : s.ended = none)
    (hrequested : (s.disconnectRequested || p.signalled) = false) {events : List Ready}
    (hwait : p.wait = .ready events) :
    (run (loopStep na order interval) s p.acts).1.ended = some .silence ↔
      serverKeepaliveTimeout ≤ p.now - s.receiver.srv.lastServerKeepaliveTime := by
  obtain ⟨t, hkeepalive, hnone', htime⟩ : ∃ t,
      (loopStep na order interval s (.keepalive p.now)).1 = t ∧ t.ended = none ∧
        t.receiver.srv.lastServerKeepaliveTime =
          s.receiver.srv.lastServerKeepaliveTime := by
    refine ⟨_, rfl, ?_⟩
    rw [loopStep_of_running hnone, loopAct]
    split <;> exact ⟨hnone, rfl⟩
  obtain ⟨rest, hacts, hrest⟩ : ∃ rest, p.acts.tail =
      .keepalive p.now :: .silence p.now :: rest ∧
        ∀ act ∈ rest, act.isSilence = false := by
    refine ⟨.rekey p.sendSeq p.rekey :: (events.map Ready.act ++ [.sweep p.now p.swept]),
      ?_, ?_⟩
    · unfold LoopPass.acts
      rw [hwait]
      rfl
    · intro act hact
      simp only [List.mem_cons, List.mem_append, List.mem_map, List.not_mem_nil,
        or_false] at hact
      rcases hact with rfl | ⟨event, _, rfl⟩ | rfl
      · rfl
      · cases event <;> rfl
      · rfl
  rw [run_acts_unrequested hnone hrequested, hacts]
  simp only [Machine.run, hkeepalive]
  rw [← htime]
  by_cases hdue : serverKeepaliveTimeout ≤ p.now - t.receiver.srv.lastServerKeepaliveTime
  · have hstop : loopStep na order interval t (.silence p.now) =
        (t.stop .silence, [.ended .silence]) := by
      rw [loopStep_of_running hnone', loopAct, if_pos hdue]
    have hended : (t.stop .silence).ended = some .silence := rfl
    rw [hstop, run_of_ended hended]
    exact ⟨fun _ => hdue, fun _ => rfl⟩
  · have hgo : loopStep na order interval t (.silence p.now) = (t, []) := by
      rw [loopStep_of_running hnone', loopAct, if_neg hdue]
    have hstays : t.ended ≠ some .silence := by
      rw [hnone']
      exact (Option.some_ne_none _).symm
    rw [hgo]
    exact ⟨fun h => absurd h (run_not_silence hstays rest hrest), fun h => absurd h hdue⟩

end Silence

/-- In every run of the event loop and for the pass that comes next: the loop gives up
because of silence exactly when nobody has asked it to disconnect, its wait succeeds and
the last sign of life is 125 seconds old. Signs of life are a keepalive of the server that
opened under the session of its time, with a number that was new, and a handshake that
succeeded. Nothing else that arrives, from the server or from anybody, puts the end off or
brings it on. -/
theorem gives_up_on_silence_iff (na : Sodium) (order : Endian) (interval : Int)
    (session : ClientSession) (opened : Int) (passes : List LoopPass) (p : LoopPass) :
    let before := eventLoopRun na order interval (.start session opened) passes
    let after := eventLoopRun na order interval (.start session opened) (passes ++ [p])
    before.1.ended = none →
    (after.1.ended = some .silence ↔
      (before.1.disconnectRequested || p.signalled) = false ∧
        (∃ events, p.wait = .ready events) ∧
        serverKeepaliveTimeout ≤ p.now - lastSign order opened before.2) := by
  intro before after hnone
  have hheard : Heard order opened before.2 before.1 :=
    eventLoop_heard na order interval session opened passes
  have hafter : after.1 = (run (loopStep na order interval) before.1 p.acts).1 := by
    dsimp only [after]
    rw [eventLoopRun_snoc]
  rw [hafter]
  cases hrequested : before.1.disconnectRequested || p.signalled with
  | true =>
      refine ⟨fun hsilence => ?_, fun h => Bool.noConfusion h.1⟩
      rw [run_acts_requested hnone hrequested] at hsilence
      cases hsilence
  | false =>
      rw [← hheard (Bool.or_eq_false_iff.mp hrequested).1]
      cases hwait : p.wait with
      | ready events =>
          rw [run_acts_ready hnone hrequested hwait]
          exact ⟨fun h => ⟨rfl, ⟨events, rfl⟩, h⟩, fun h => h.2.2⟩
      | interrupted =>
          refine ⟨fun hsilence => absurd hsilence (run_not_silence ?_ _ ?_),
            fun h => absurd h.2.1 nofun⟩
          · rw [hnone]
            nofun
          · rw [LoopPass.acts, hwait]
            simp [LoopAct.isSilence]
      | failed =>
          refine ⟨fun hsilence => absurd hsilence (run_not_silence ?_ _ ?_),
            fun h => absurd h.2.1 nofun⟩
          · rw [hnone]
            nofun
          · rw [LoopPass.acts, hwait]
            simp [LoopAct.isSilence]

section Example

/-- A pass in which nothing arrives. -/
def quietPass (now : Int) : LoopPass :=
  ⟨false, .ready [], 0, ⟨now, now, now, now, false, none⟩, now⟩

/-- A keepalive of the server, and the same with a session id that is not the client's. -/
def keepalivePacket (sessionId : Octets sessionIdLen) : Bytes :=
  (protoHeader .little pktTypeData).val ++ sessionId.val ++ (Sodium.seqBytes 1).val ++
    [0, 0, 0, 0, 0, 0, 2, 0] ++ List.replicate 16 0

def heardPass (now : Int) (packet : Bytes) : LoopPass :=
  { quietPass now with
    wait := .ready [.udp [(⟨now, fun _ => 0, fun _ => 0⟩, packet)] false now] }

/-- A keepalive comes after 100 seconds and a misdirected one after 200. -/
def heardPasses : List LoopPass :=
  [quietPass 10, heardPass 100 (keepalivePacket zeroSession.sessionId),
    heardPass 200 (keepalivePacket (Octets.fill sessionIdLen 1))]

/-- After 225 seconds the loop gives up. -/
theorem gives_up_on_silence_iff_misdirected :
    let run := eventLoopRun Sodium.xorSodium .little 1000 (.start zeroSession 0)
    (run heardPasses).1.ended = none ∧ lastSign .little 0 (run heardPasses).2 = 100 ∧
      (run (heardPasses ++ [quietPass 225])).1.ended = some .silence := by
  intro run
  have hrunning : (run heardPasses).1.ended = none := by decide +kernel
  have hlast : lastSign .little 0 (run heardPasses).2 = 100 := by decide +kernel
  refine ⟨hrunning, hlast, ?_⟩
  refine (gives_up_on_silence_iff Sodium.xorSodium .little 1000 zeroSession 0 heardPasses
    (quietPass 225) hrunning).mpr ⟨by decide +kernel, ⟨[], rfl⟩, ?_⟩
  rw [hlast]
  decide

end Example

end Chamlon.Client
