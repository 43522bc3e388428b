import Mathlib.Tactic
import Chamlon.Lib.Machine
import Chamlon.Client.Rehandshake

/-!
The rekey step of `event_loop_run`, pass after pass. A pass reads the clock up to four
times: for the loop, in `should_attempt_rehandshake`, when
`rehandshake_client_with_state` starts and when the handshake has ended. Between two
passes the rest of the client sends and receives.

The machine neither wedges nor runs away. Its backoff, however, is counted from the start
of the attempt that failed, so a handshake that waited for MSG2 in vain is repeated as
soon as that wait is longer than the backoff.
-/

namespace Chamlon.Client

open Config Memory Machine

abbrev rehandshakeBytesLimit : Nat := 2 ^ 30
abbrev rehandshakeSeqLimit : Nat := 2 ^ 32

/-- `servers[0]` with what belongs to it, and `last_rehandshake`. -/
structure RekeyLoop where
  srv : Connection
  lastRehandshake : Int

def RekeyLoop.opened (session : ClientSession) (now : Int) : RekeyLoop :=
  ⟨.opened session now, now⟩

/-- One pass through the rekey step: the times it reads, whether `g_sender_args` is set
and what `client_handshake` returns. -/
structure RekeyPass where
  now : Int
  checked : Int
  started : Int
  ended : Int
  senderArgs : Bool
  outcome : Option ClientSession

inductive RekeyAct where
  | pass (p : RekeyPass)
  /-- The rest of the client moves the counter, the window and the keepalive time. -/
  | traffic (sendSeq : BitVec 64) (rw : ReplayWindow bitmapWords) (keepalive : Int)

inductive RekeyEvent where
  /-- `should_attempt_rehandshake` has seen this state and count and returned. -/
  | checked (state : RehandshakeState) (attempts : Nat) (result : Attempt)
  /-- `rehandshake_client_with_state` has returned -1, with this exponent in
  `1 << (attempts - 1)`. -/
  | failed (started ended exponent : Int)
  /-- It has returned 0 and left this state and count. -/
  | succeeded (started ended : Int) (state : RehandshakeState) (attempts : Nat)
deriving DecidableEq

/-- The condition of the rekey branch. -/
def rekeyCondition (interval elapsed : Int) (bytesSent : Nat) (sendSeq : BitVec 64) : Bool :=
  decide (interval ≤ elapsed) || decide (rehandshakeBytesLimit ≤ bytesSent) ||
    decide (rehandshakeSeqLimit ≤ sendSeq.toNat)

def rekeyDue (interval now : Int) (s : RekeyLoop) : Bool :=
  rekeyCondition interval (now - s.lastRehandshake) s.srv.bytesSent s.srv.sendSeq

/-- The call of `rehandshake_client_with_state`. -/
def callRehandshake (p : RekeyPass) (s : RekeyLoop) : RekeyLoop × List RekeyEvent :=
  let begun := s.srv.beginRehandshake p.started
  match p.outcome with
  | none =>
      let srv := begun.rehandshakeFailed
      ({ s with srv := srv },
        [.failed p.started p.ended ((srv.rehandshakeAttempts : Int) - 1)])
  | some new =>
      let srv := begun.rehandshakeSucceeded new p.ended
      (⟨srv, p.now⟩,
        [.succeeded p.started p.ended srv.rehandshakeState srv.rehandshakeAttempts])

def rekeyPass (interval : Int) (p : RekeyPass) (s : RekeyLoop) :
    RekeyLoop × List RekeyEvent :=
  if !rekeyDue interval p.now s then (s, [])
  else
    let answer := shouldAttemptRehandshake p.checked s.srv
    let check := RekeyEvent.checked s.srv.rehandshakeState s.srv.rehandshakeAttempts answer.2
    let s := { s with srv := answer.1 }
    if answer.2 = .now ∧ p.senderArgs = true then
      let called := callRehandshake p s
      (called.1, check :: called.2)
    else (s, [check])

def rekeyStep (interval : Int) (s : RekeyLoop) : RekeyAct → RekeyLoop × List RekeyEvent
  | .pass p => rekeyPass interval p s
  | .traffic sendSeq rw keepalive =>
      ({ s with srv := { s.srv with
          sendSeq := sendSeq, rw := rw, lastServerKeepaliveTime := keepalive } }, [])

def RekeyEvent.tally (failures : Nat) : RekeyEvent → Nat
  | .failed _ _ _ => failures + 1
  | .succeeded _ _ _ _ => 0
  | .checked _ _ _ => failures

/-- The failures since the last success. -/
def consecutiveFailures (events : List RekeyEvent) : Nat := events.foldl RekeyEvent.tally 0

/-- All that `should_attempt_rehandshake` can do. -/
theorem shouldAttemptRehandshake_cases (now : Int) (srv : Connection) :
    (5 ≤ srv.rehandshakeAttempts ∧ shouldAttemptRehandshake now srv =
      ({ srv with rehandshakeState := .failed }, .disconnect)) ∨
    srv.rehandshakeAttempts < 5 ∧
      ((srv.rehandshakeState = .ready ∧ shouldAttemptRehandshake now srv = (srv, .now)) ∨
      (srv.rehandshakeState = .backoff ∧
        srv.rehandshakeBackoffSec ≤ now - srv.rehandshakeLastAttempt ∧
        shouldAttemptRehandshake now srv = ({ srv with rehandshakeState := .ready }, .now)) ∨
      (srv.rehandshakeState = .backoff ∧ shouldAttemptRehandshake now srv = (srv, .wait)) ∨
      (srv.rehandshakeState = .inProgress ∧ shouldAttemptRehandshake now srv = (srv, .wait)) ∨
      (srv.rehandshakeState = .failed ∧
        shouldAttemptRehandshake now srv = (srv, .disconnect))) := by
  unfold shouldAttemptRehandshake
  split
  next hmax => exact Or.inl ⟨hmax, rfl⟩
  next hmax =>
    refine Or.inr ⟨Nat.lt_of_not_le hmax, ?_⟩
    cases hstate : srv.rehandshakeState with
    | ready => exact Or.inl ⟨rfl, rfl⟩
    | inProgress => exact Or.inr (Or.inr (Or.inr (Or.inl ⟨rfl, rfl⟩)))
    | failed => exact Or.inr (Or.inr (Or.inr (Or.inr ⟨rfl, rfl⟩)))
    | backoff =>
        dsimp only
        split
        next hover => exact Or.inr (Or.inl ⟨rfl, hover, rfl⟩)
        next => exact Or.inr (Or.inr (Or.inl ⟨rfl, rfl⟩))

/-- What holds of the machine between two passes. -/
structure RekeyOk (srv : Connection) : Prop where
  idle : srv.rehandshakeState ≠ .inProgress
  bounded : srv.rehandshakeAttempts ≤ 5
  failed : srv.rehandshakeState = .failed → srv.rehandshakeAttempts = 5

/-- An attempt may be made: the machine is ready or its backoff is over. -/
def MayAttempt (now : Int) (srv : Connection) : Prop :=
  srv.rehandshakeAttempts < 5 ∧
    (srv.rehandshakeState = .ready ∨ srv.rehandshakeState = .backoff ∧
      srv.rehandshakeBackoffSec ≤ now - srv.rehandshakeLastAttempt)

/-- All that a pass can do between two passes that leave the machine in order. -/
inductive PassEffect (interval : Int) (p : RekeyPass) (s : RekeyLoop) :
    RekeyLoop × List RekeyEvent → Prop where
  | skipped : PassEffect interval p s (s, [])
  | refused (hmax : s.srv.rehandshakeAttempts = 5) :
      PassEffect interval p s ({ s with srv := { s.srv with rehandshakeState := .failed } },
        [.checked s.srv.rehandshakeState s.srv.rehandshakeAttempts .disconnect])
  | waits (hmax : s.srv.rehandshakeAttempts < 5)
      (hstate : s.srv.rehandshakeState = .backoff) :
      PassEffect interval p s
        (s, [.checked s.srv.rehandshakeState s.srv.rehandshakeAttempts .wait])
  /-- Without `g_sender_args` no attempt is made. -/
  | readied (hmay : MayAttempt p.checked s.srv) :
      PassEffect interval p s ({ s with srv := { s.srv with rehandshakeState := .ready } },
        [.checked s.srv.rehandshakeState s.srv.rehandshakeAttempts .now])
  | called (hdue : rekeyDue interval p.now s = true) (hmay : MayAttempt p.checked s.srv) :
      PassEffect interval p s
        ((callRehandshake p { s with srv := { s.srv with rehandshakeState := .ready } }).1,
          .checked s.srv.rehandshakeState s.srv.rehandshakeAttempts .now ::
            (callRehandshake p
              { s with srv := { s.srv with rehandshakeState := .ready } }).2)

theorem rekeyPass_effect (interval : Int) (p : RekeyPass) {s : RekeyLoop}
    (h : RekeyOk s.srv) : PassEffect interval p s (rekeyPass interval p s) := by
  have hattempt : ∀ hmay : MayAttempt p.checked s.srv,
      rekeyDue interval p.now s = true →
      PassEffect interval p s
        (if Attempt.now = .now ∧ p.senderArgs = true then
          ((callRehandshake p { s with srv := { s.srv with rehandshakeState := .ready } }).1,
            .checked s.srv.rehandshakeState s.srv.rehandshakeAttempts .now ::
              (callRehandshake p
                { s with srv := { s.srv with rehandshakeState := .ready } }).2)
        else ({ s with srv := { s.srv with rehandshakeState := .ready } },
          [.checked s.srv.rehandshakeState s.srv.rehandshakeAttempts .now])) := by
    intro hmay hdue
    split
    · exact .called hdue hmay
    · exact .readied hmay
  unfold rekeyPass
  cases hdue : rekeyDue interval p.now s with
  | false => exact .skipped
  | true =>
      dsimp only
      rcases shouldAttemptRehandshake_cases p.checked s.srv with
        ⟨hmax, hanswer⟩ | ⟨hmax, ⟨hstate, hanswer⟩ | ⟨hstate, hover, hanswer⟩ |
          ⟨hstate, hanswer⟩ | ⟨hstate, _⟩ | ⟨hstate, _⟩⟩
      · rw [hanswer]
        exact .refused (Nat.le_antisymm h.bounded hmax)
      · have hready : { s.srv with rehandshakeState := .ready } = s.srv := by
          rw [← hstate]
        rw [hanswer]
        have hresult := hattempt ⟨hmax, Or.inl hstate⟩ hdue
        rw [hready] at hresult
        exact hresult
      · rw [hanswer]
        exact hattempt ⟨hmax, Or.inr ⟨hstate, hover⟩⟩ hdue
      · rw [hanswer]
        exact .waits hmax hstate
      · exact absurd hstate h.idle
      · rw [h.failed hstate] at hmax
        exact absurd hmax (Nat.lt_irrefl 5)

/-- What is said of a single event. -/
def RekeyEvent.Sound : RekeyEvent → Prop
  | .checked state attempts _ => state ≠ .inProgress ∧ attempts ≤ 5
  | .failed _ _ exponent => 0 ≤ exponent ∧ exponent ≤ 4
  | .succeeded _ _ state attempts => state = .ready ∧ attempts = 0

theorem consecutiveFailures_append (past events : List RekeyEvent) :
    consecutiveFailures (past ++ events) =
      events.foldl RekeyEvent.tally (consecutiveFailures past) :=
  List.foldl_append

/-- The machine in order, its count the number of consecutive failures of the past. -/
structure RekeyTold (past : List RekeyEvent) (s : RekeyLoop) : Prop where
  ok : RekeyOk s.srv
  count : s.srv.rehandshakeAttempts = consecutiveFailures past
  sound : ∀ e ∈ past, e.Sound

theorem rekeyTold_opened (session : ClientSession) (now : Int) :
    RekeyTold [] (.opened session now) where
  ok := by constructor <;> simp [RekeyLoop.opened, Connection.opened]
  count := rfl
  sound := by simp

theorem RekeyTold.pass {interval : Int} {p : RekeyPass} {past : List RekeyEvent}
    {s : RekeyLoop} (h : RekeyTold past s) {result : RekeyLoop × List RekeyEvent}
    (heffect : PassEffect interval p s result) :
    RekeyTold (past ++ result.2) result.1 := by
  have hcheck : ∀ answer, RekeyEvent.Sound
      (.checked s.srv.rehandshakeState s.srv.rehandshakeAttempts answer) := fun _ =>
    ⟨h.ok.idle, h.ok.bounded⟩
  have hsound : ∀ events, (∀ e ∈ events, RekeyEvent.Sound e) →
      ∀ e ∈ past ++ events, RekeyEvent.Sound e := fun events hevents =>
    List.forall_mem_append.mpr ⟨h.sound, hevents⟩
  cases heffect with
  | skipped =>
      rw [List.append_nil]
      exact h
  | refused hmax =>
      refine ⟨⟨by simp, h.ok.bounded, fun _ => hmax⟩, ?_, hsound _ (by simp [hcheck])⟩
      rw [consecutiveFailures_append]
      exact h.count
  | waits hmax hstate =>
      refine ⟨h.ok, ?_, hsound _ (by simp [hcheck])⟩
      rw [consecutiveFailures_append]
      exact h.count
  | readied hmay =>
      refine ⟨⟨by simp, h.ok.bounded, by simp⟩, ?_, hsound _ (by simp [hcheck])⟩
      rw [consecutiveFailures_append]
      exact h.count
  | called hdue hmay =>
      have hmax := hmay.1
      unfold callRehandshake
      cases p.outcome with
      | none =>
          refine ⟨⟨by simp [Connection.rehandshakeFailed], hmax,
            by simp [Connection.rehandshakeFailed]⟩, ?_, hsound _ ?_⟩
          · rw [consecutiveFailures_append, ← h.count]
            rfl
          · refine List.forall_mem_cons.mpr ⟨hcheck _, List.forall_mem_singleton.mpr ?_⟩
            change 0 ≤ ((s.srv.rehandshakeAttempts + 1 : Nat) : Int) - 1 ∧
              ((s.srv.rehandshakeAttempts + 1 : Nat) : Int) - 1 ≤ 4
            omega
      | some new =>
          refine ⟨⟨by simp [Connection.rehandshakeSucceeded], Nat.zero_le 5,
            by simp [Connection.rehandshakeSucceeded]⟩, ?_, hsound _ ?_⟩
          · rw [consecutiveFailures_append]
            rfl
          · exact List.forall_mem_cons.mpr
              ⟨hcheck _, List.forall_mem_singleton.mpr ⟨rfl, rfl⟩⟩

theorem rekeyStep_told (interval : Int) (past : List RekeyEvent) (s : RekeyLoop)
    (act : RekeyAct) (h : RekeyTold past s) :
    RekeyTold (past ++ (rekeyStep interval s act).2) (rekeyStep interval s act).1 := by
  cases act with
  | pass p => exact h.pass (rekeyPass_effect interval p h.ok)
  | traffic sendSeq rw keepalive =>
      dsimp only [rekeyStep]
      rw [List.append_nil]
      exact ⟨⟨h.ok.idle, h.ok.bounded, h.ok.failed⟩, h.count, h.sound⟩

theorem rekeyRun_told (interval : Int) (session : ClientSession) (now : Int)
    (acts : List RekeyAct) :
    RekeyTold (run (rekeyStep interval) (.opened session now) acts).2
      (run (rekeyStep interval) (.opened session now) acts).1 :=
  run_history (rekeyStep interval) (fun _ _ => True) RekeyTold
    (fun past s act h _ => rekeyStep_told interval past s act h) [] _ acts
    (rekeyTold_opened session now)
    (Along.of_forall _ (fun _ => True) _ acts fun _ _ => trivial)

/-- `should_attempt_rehandshake` has said that the client should disconnect. -/
def RekeyEvent.IsRefusal : RekeyEvent → Prop
  | .checked _ _ result => result = .disconnect
  | _ => False

/-- After five failures in a row every pass that is due is told to disconnect. -/
theorem refused_for_good (interval : Int) {s : RekeyLoop} (hok : RekeyOk s.srv)
    (hmax : s.srv.rehandshakeAttempts = 5) (later : List RekeyAct) :
    ∀ e ∈ (run (rekeyStep interval) s later).2, e.IsRefusal := by
  have hstep : ∀ t act, (RekeyOk t.srv ∧ t.srv.rehandshakeAttempts = 5) →
      (RekeyOk (rekeyStep interval t act).1.srv ∧
        (rekeyStep interval t act).1.srv.rehandshakeAttempts = 5) ∧
      ∀ e ∈ (rekeyStep interval t act).2, e.IsRefusal := by
    rintro t act ⟨ht, hfive⟩
    have hnot : ∀ now, ¬MayAttempt now t.srv := fun now hmay => by
      have hlt := hmay.1
      omega
    cases act with
    | traffic sendSeq rw keepalive =>
        exact ⟨⟨⟨ht.idle, ht.bounded, ht.failed⟩, hfive⟩, by simp [rekeyStep]⟩
    | pass p =>
        have heffect := rekeyPass_effect interval p ht
        dsimp only [rekeyStep]
        generalize rekeyPass interval p t = result at heffect ⊢
        cases heffect with
        | skipped => exact ⟨⟨ht, hfive⟩, by simp⟩
        | refused _ =>
            exact ⟨⟨⟨by simp, ht.bounded, fun _ => hfive⟩, hfive⟩,
              by simp [RekeyEvent.IsRefusal]⟩
        | waits hlt _ => omega
        | readied hmay => exact absurd hmay (hnot _)
        | called _ hmay => exact absurd hmay (hnot _)
  exact run_forall_events (rekeyStep interval) (fun _ _ => True)
    (fun t => RekeyOk t.srv ∧ t.srv.rehandshakeAttempts = 5) RekeyEvent.IsRefusal
    (fun t act ht _ => (hstep t act ht).1) (fun t act ht _ => (hstep t act ht).2) s later
    ⟨hok, hmax⟩ (Along.of_forall _ (fun _ => True) _ later fun _ _ => trivial)

/-- In every run of the rekey step, whatever the clock says and the handshakes return:
`should_attempt_rehandshake` never sees an attempt in progress, the count stays within 0
and 5 and is the number of consecutive failures, the exponent of the backoff is within 0
and 4, a success leaves the machine ready with a count of 0, and after the fifth failure
in a row every later check is told to disconnect and nothing is attempted. -/
theorem rekey_machine_sound (interval : Int) (session : ClientSession) (now : Int)
    (acts : List RekeyAct) :
    let final := run (rekeyStep interval) (.opened session now) acts
    (∀ e ∈ final.2, e.Sound) ∧
      final.1.srv.rehandshakeState ≠ .inProgress ∧
      final.1.srv.rehandshakeAttempts ≤ 5 ∧
      final.1.srv.rehandshakeAttempts = consecutiveFailures final.2 ∧
      (consecutiveFailures final.2 = 5 → ∀ later,
        ∀ e ∈ (run (rekeyStep interval) final.1 later).2, e.IsRefusal) := by
  intro final
  have htold := rekeyRun_told interval session now acts
  refine ⟨htold.sound, htold.ok.idle, htold.ok.bounded, htold.count, fun hfive later => ?_⟩
  exact refused_for_good interval htold.ok (htold.count.trans hfive) later

/-- The times a pass reads, in the order in which it reads them. -/
def RekeyAct.readings : RekeyAct → List Int
  | .pass p => [p.now, p.checked, p.started, p.ended]
  | .traffic _ _ _ => []

/-- The clock does not go back. -/
def Clocked (acts : List RekeyAct) : Prop :=
  (acts.flatMap RekeyAct.readings).Pairwise (· ≤ ·)

instance (acts : List RekeyAct) : Decidable (Clocked acts) :=
  inferInstanceAs (Decidable (List.Pairwise _ _))

/-- When `rehandshake_client_with_state` was called. -/
def RekeyEvent.calledAt : RekeyEvent → Option Int
  | .failed started _ _ | .succeeded started _ _ _ => some started
  | .checked _ _ _ => none

def calls (events : List RekeyEvent) : List Int := events.filterMap RekeyEvent.calledAt

/-- No call before `bound`, when the clock has come to `reached`: the backoff lasts until
then, or it is over and so is `bound`. -/
def Waiting (bound reached : Int) (srv : Connection) : Prop :=
  srv.rehandshakeAttempts < 5 ∧
    (srv.rehandshakeState = .backoff ∧
        srv.rehandshakeLastAttempt + srv.rehandshakeBackoffSec = bound ∨
      srv.rehandshakeState = .ready ∧ bound ≤ reached)

theorem Waiting.ok {bound reached : Int} {srv : Connection} (h : Waiting bound reached srv) :
    RekeyOk srv := by
  obtain ⟨hmax, ⟨hstate, _⟩ | ⟨hstate, _⟩⟩ := h
  · exact ⟨by simp [hstate], hmax.le, by simp [hstate]⟩
  · exact ⟨by simp [hstate], hmax.le, by simp [hstate]⟩

theorem Waiting.over {bound reached now : Int} {srv : Connection}
    (h : Waiting bound reached srv) (hmay : MayAttempt now srv) (hnow : reached ≤ now) :
    bound ≤ now := by
  obtain ⟨_, ⟨hstate, hbound⟩ | ⟨_, hover⟩⟩ := h
  · obtain ⟨_, hready | ⟨_, hexpired⟩⟩ := hmay
    · rw [hstate] at hready
      cases hready
    · omega
  · omega

theorem Waiting.mayAttempt {bound reached now : Int} {srv : Connection}
    (h : Waiting bound reached srv) (hnow : bound ≤ now) : MayAttempt now srv := by
  obtain ⟨hmax, ⟨hstate, hbound⟩ | ⟨hstate, _⟩⟩ := h
  · exact ⟨hmax, Or.inr ⟨hstate, by omega⟩⟩
  · exact ⟨hmax, Or.inl hstate⟩

theorem calls_callRehandshake (p : RekeyPass) (s : RekeyLoop) :
    calls (callRehandshake p s).2 = [p.started] := by
  unfold callRehandshake
  cases p.outcome with
  | none => rfl
  | some new => rfl

/-- A pass from a waiting machine calls at `bound` or later, or it calls nothing and the
machine waits on. -/
theorem Waiting.pass {interval bound reached : Int} {p : RekeyPass} {s : RekeyLoop}
    (h : Waiting bound reached s.srv) (hnow : reached ≤ p.checked)
    (hstarted : p.checked ≤ p.started) {result : RekeyLoop × List RekeyEvent}
    (heffect : PassEffect interval p s result) :
    calls result.2 = [p.started] ∧ bound ≤ p.started ∨
      calls result.2 = [] ∧ Waiting bound p.checked result.1.srv := by
  have hlater : Waiting bound p.checked s.srv := by
    obtain ⟨hmax, hbackoff | ⟨hready, hover⟩⟩ := h
    · exact ⟨hmax, Or.inl hbackoff⟩
    · exact ⟨hmax, Or.inr ⟨hready, hover.trans hnow⟩⟩
  cases heffect with
  | skipped => exact Or.inr ⟨rfl, hlater⟩
  | refused hmax =>
      have hlt := h.1
      omega
  | waits hmax hstate => exact Or.inr ⟨rfl, hlater⟩
  | readied hmay => exact Or.inr ⟨rfl, hmay.1, Or.inr ⟨rfl, h.over hmay hnow⟩⟩
  | called hdue hmay =>
      left
      have hcalls := calls_callRehandshake p
        { s with srv := { s.srv with rehandshakeState := .ready } }
      exact ⟨hcalls, (h.over hmay hnow).trans hstarted⟩

/-- The next call after a run without calls. -/
theorem Waiting.next_call {interval bound reached : Int} {s : RekeyLoop}
    (h : Waiting bound reached s.srv) (later : List RekeyAct) (next : RekeyAct)
    (hclock : (reached :: (later ++ [next]).flatMap RekeyAct.readings).Pairwise (· ≤ ·))
    (hnone : calls (run (rekeyStep interval) s later).2 = []) {time : Int}
    (hcall : time ∈ calls
      (rekeyStep interval (run (rekeyStep interval) s later).1 next).2) :
    bound ≤ time := by
  induction later generalizing s reached with
  | nil =>
      cases next with
      | traffic sendSeq rw keepalive => cases hcall
      | pass p =>
          have htimes : reached ≤ p.checked ∧ p.checked ≤ p.started := by
            simp only [List.nil_append, List.flatMap_cons, List.flatMap_nil,
              RekeyAct.readings, List.append_nil, List.pairwise_cons, List.mem_cons] at hclock
            exact ⟨hclock.1 _ (by simp), hclock.2.2.1 _ (by simp)⟩
          rcases h.pass htimes.1 htimes.2 (rekeyPass_effect interval p h.ok) with
            ⟨hcalls, hbound⟩ | ⟨hcalls, _⟩
          · change time ∈ calls (rekeyPass interval p s).2 at hcall
            rw [hcalls, List.mem_singleton] at hcall
            rwa [hcall]
          · change time ∈ calls (rekeyPass interval p s).2 at hcall
            rw [hcalls] at hcall
            cases hcall
  | cons act later ih =>
      have hparts : calls (rekeyStep interval s act).2 = [] ∧
          calls (run (rekeyStep interval) (rekeyStep interval s act).1 later).2 = [] := by
        rw [run, calls, List.filterMap_append] at hnone
        exact List.append_eq_nil_iff.mp hnone
      cases act with
      | traffic sendSeq rw keepalive =>
          exact ih (s := (rekeyStep interval s (.traffic sendSeq rw keepalive)).1) h hclock
            hparts.2 hcall
      | pass p =>
          simp only [List.cons_append, List.flatMap_cons, RekeyAct.readings,
            List.nil_append] at hclock
          have hrest : (p.checked ::
              (later ++ [next]).flatMap RekeyAct.readings).Pairwise (· ≤ ·) := by
            have htail : ((later ++ [next]).flatMap RekeyAct.readings).Sublist
                (p.started :: p.ended :: (later ++ [next]).flatMap RekeyAct.readings) :=
              ((List.Sublist.refl _).cons p.ended).cons p.started
            exact hclock.sublist (((htail.cons_cons p.checked).cons p.now).cons reached)
          have htimes : reached ≤ p.checked ∧ p.checked ≤ p.started := by
            simp only [List.pairwise_cons, List.mem_cons] at hclock
            exact ⟨hclock.1 _ (by simp), hclock.2.2.1 _ (by simp)⟩
          rcases h.pass htimes.1 htimes.2 (rekeyPass_effect interval p h.ok) with
            ⟨hcalls, _⟩ | ⟨_, hwaits⟩
          · have hnot := hparts.1
            change calls (rekeyPass interval p s).2 = [] at hnot
            rw [hcalls] at hnot
            cases hnot
          · exact ih hwaits hrest hparts.2 hcall

/-- The backoff after the `k`-th failure, below the cap of 60 seconds. -/
theorem rehandshakeFailed_backoff (srv : Connection) (h : srv.rehandshakeAttempts < 5) :
    (srv.rehandshakeFailed.rehandshakeBackoffSec : Int) = 2 ^ srv.rehandshakeAttempts := by
  unfold Connection.rehandshakeFailed
  dsimp only
  generalize srv.rehandshakeAttempts = attempts at h
  interval_cases attempts <;> rfl

/-- A failed attempt leaves the machine waiting, with the backoff counted from the start
of the attempt. -/
theorem callRehandshake_waiting {p : RekeyPass} {s : RekeyLoop} (hnone : p.outcome = none)
    (hmax : s.srv.rehandshakeAttempts + 1 < 5) (reached : Int) :
    Waiting (p.started + 2 ^ s.srv.rehandshakeAttempts) reached
      (callRehandshake p s).1.srv := by
  have hbackoff := rehandshakeFailed_backoff (s.srv.beginRehandshake p.started)
    (Nat.lt_of_succ_lt hmax)
  unfold callRehandshake
  rw [hnone]
  exact ⟨hmax, Or.inl ⟨rfl, congrArg (p.started + ·) hbackoff⟩⟩

/-- A pass that fails was due, was allowed and got no session. -/
theorem rekeyPass_failed {interval : Int} {p : RekeyPass} {s : RekeyLoop}
    (hok : RekeyOk s.srv) {started ended exponent : Int}
    (h : .failed started ended exponent ∈ (rekeyPass interval p s).2) :
    rekeyDue interval p.now s = true ∧ MayAttempt p.checked s.srv ∧ p.outcome = none ∧
      (rekeyPass interval p s).1 =
        (callRehandshake p { s with srv := { s.srv with rehandshakeState := .ready } }).1 := by
  have heffect := rekeyPass_effect interval p hok
  generalize rekeyPass interval p s = result at heffect h ⊢
  cases heffect with
  | skipped => simp at h
  | refused _ => simp at h
  | waits _ _ => simp at h
  | readied _ => simp at h
  | called hdue hmay =>
      refine ⟨hdue, hmay, ?_, rfl⟩
      cases houtcome : p.outcome with
      | none => rfl
      | some new => simp [callRehandshake, houtcome] at h

theorem rekeyPass_calls {interval : Int} {p : RekeyPass} {s : RekeyLoop}
    (hdue : rekeyDue interval p.now s = true) (hmay : MayAttempt p.checked s.srv)
    (hargs : p.senderArgs = true) : calls (rekeyPass interval p s).2 = [p.started] := by
  have hanswer : (shouldAttemptRehandshake p.checked s.srv).2 = .now := by
    obtain ⟨hmax, hstate | ⟨hstate, hover⟩⟩ := hmay
    · simp [shouldAttemptRehandshake, Nat.not_le_of_lt hmax, hstate]
    · simp [shouldAttemptRehandshake, Nat.not_le_of_lt hmax, hstate, hover]
  unfold rekeyPass
  rw [hdue]
  dsimp only
  rw [Bool.not_true, if_neg Bool.false_ne_true, if_pos ⟨hanswer, hargs⟩]
  exact calls_callRehandshake p _

/-- A branch that is due stays due after an attempt that has failed. -/
theorem rekeyDue_of_failed {interval later : Int} {p : RekeyPass} {s : RekeyLoop}
    (hdue : rekeyDue interval p.now s = true) (hnone : p.outcome = none)
    (hlater : p.now ≤ later) :
    rekeyDue interval later (callRehandshake p
      { s with srv := { s.srv with rehandshakeState := .ready } }).1 = true := by
  unfold rekeyDue rekeyCondition callRehandshake at *
  rw [hnone]
  simp only [Bool.or_eq_true, decide_eq_true_eq] at hdue ⊢
  rcases hdue with (htime | hbytes) | hseq
  · exact Or.inl (Or.inl (by omega))
  · exact Or.inl (Or.inr hbytes)
  · exact Or.inr hseq

/-- The end of the last pass is the last reading. -/
theorem Clocked.le_ended {acts : List RekeyAct} {p : RekeyPass}
    (h : Clocked (acts ++ [.pass p])) :
    ∀ time ∈ (acts ++ [RekeyAct.pass p]).flatMap RekeyAct.readings, time ≤ p.ended := by
  unfold Clocked at h
  rw [List.flatMap_append] at h ⊢
  obtain ⟨_, hown, hcross⟩ := List.pairwise_append.mp h
  intro time htime
  rcases List.mem_append.mp htime with hpast | hlast
  · exact hcross time hpast p.ended (by simp [RekeyAct.readings])
  · simp only [List.flatMap_cons, List.flatMap_nil, RekeyAct.readings, List.append_nil,
      List.pairwise_cons, List.mem_cons, List.not_mem_nil, or_false] at hown hlast
    rcases hlast with rfl | rfl | rfl | rfl
    · exact hown.1 _ (by simp)
    · exact hown.2.1 _ (by simp)
    · exact hown.2.2.1 _ (by simp)
    · exact le_rfl

/-- A pass that reads one time only, after all the others. -/
theorem Clocked.extend {acts : List RekeyAct} {p : RekeyPass}
    (h : Clocked (acts ++ [.pass p])) {time : Int} (htime : p.ended ≤ time)
    (senderArgs : Bool) (outcome : Option ClientSession) :
    Clocked (acts ++ [.pass p] ++ [.pass ⟨time, time, time, time, senderArgs, outcome⟩]) := by
  have hlast := h.le_ended
  unfold Clocked at h ⊢
  rw [List.flatMap_append, List.pairwise_append]
  refine ⟨h, by simp [RekeyAct.readings], fun earlier hearlier reading hreading => ?_⟩
  have hsame : reading = time := by
    simpa [RekeyAct.readings] using hreading
  rw [hsame]
  exact (hlast earlier hearlier).trans htime

theorem Clocked.later {acts later : List RekeyAct} {p : RekeyPass}
    (h : Clocked (acts ++ [.pass p] ++ later)) :
    (p.ended :: later.flatMap RekeyAct.readings).Pairwise (· ≤ ·) := by
  unfold Clocked at h
  rw [List.append_assoc, List.flatMap_append, List.pairwise_append] at h
  have hown : (p.now :: p.checked :: p.started :: p.ended ::
    later.flatMap RekeyAct.readings).Pairwise (· ≤ ·) := h.2.1
  exact hown.of_cons.of_cons.of_cons

/-- In every run, for the pass `p` in which `rehandshake_client_with_state` fails as the
`k`-th consecutive failure, `k < 5`: whatever follows, the next call comes
`2 ^ (k - 1)` seconds after the return or later exactly if the call returned at the time
it started. -/
theorem backoff_honoured_iff (interval : Int) (session : ClientSession) (opened : Int)
    (acts : List RekeyAct) (p : RekeyPass) (hclock : Clocked (acts ++ [.pass p])) :
    let before := run (rekeyStep interval) (.opened session opened) acts
    let after := rekeyStep interval before.1 (.pass p)
    let k := consecutiveFailures (before.2 ++ after.2)
    (∃ exponent, .failed p.started p.ended exponent ∈ after.2) → k < 5 →
    ((∀ later next, Clocked (acts ++ [.pass p] ++ (later ++ [next])) →
        calls (run (rekeyStep interval) after.1 later).2 = [] →
        ∀ time ∈ calls
            (rekeyStep interval (run (rekeyStep interval) after.1 later).1 next).2,
          p.ended + 2 ^ (k - 1) ≤ time) ↔
      p.started = p.ended) := by
  intro before after k hfailed hk
  obtain ⟨exponent, hfailed⟩ := hfailed
  have htold : RekeyTold before.2 before.1 := rekeyRun_told interval session opened acts
  have hafter : RekeyTold (before.2 ++ after.2) after.1 :=
    rekeyStep_told interval before.2 before.1 (.pass p) htold
  obtain ⟨hdue, hmay, hnone, hresult⟩ := rekeyPass_failed htold.ok hfailed
  change after.1 = _ at hresult
  have hattempts : after.1.srv.rehandshakeAttempts =
      before.1.srv.rehandshakeAttempts + 1 := by
    rw [hresult]
    unfold callRehandshake
    rw [hnone]
    rfl
  have hcount : k = before.1.srv.rehandshakeAttempts + 1 :=
    hafter.count.symm.trans hattempts
  have hwaits : ∀ reached, Waiting
      (p.started + 2 ^ before.1.srv.rehandshakeAttempts) reached after.1.srv := by
    intro reached
    rw [hresult]
    exact callRehandshake_waiting
      (s := { before.1 with srv := { before.1.srv with rehandshakeState := .ready } })
      hnone (by rwa [hcount] at hk) reached
  have hnow : p.now ≤ p.ended := hclock.le_ended _ (by simp [RekeyAct.readings])
  have hstarted : p.started ≤ p.ended := hclock.le_ended _ (by simp [RekeyAct.readings])
  rw [hcount, Nat.add_sub_cancel]
  constructor
  · intro hhonoured
    by_contra hlasts
    -- The backoff ends, or has ended when the attempt returns.
    have hpos : (0 : Int) < 2 ^ before.1.srv.rehandshakeAttempts := by positivity
    generalize htime : max p.ended (p.started + 2 ^ before.1.srv.rehandshakeAttempts) = time
    have htoo : time < p.ended + 2 ^ before.1.srv.rehandshakeAttempts := by omega
    have hover : MayAttempt time after.1.srv := (hwaits p.ended).mayAttempt (by omega)
    have hstill : rekeyDue interval time after.1 = true := by
      rw [hresult]
      exact rekeyDue_of_failed hdue hnone (by omega)
    have hcalls : calls (rekeyPass interval ⟨time, time, time, time, true, none⟩ after.1).2 =
        [time] := rekeyPass_calls hstill hover rfl
    have hbound := hhonoured [] (.pass ⟨time, time, time, time, true, none⟩)
      (hclock.extend (by omega) true none) rfl time (hcalls ▸ List.mem_singleton_self time)
    omega
  · intro hsame later next hlater hquiet time hcall
    rw [← hsame]
    exact (hwaits p.ended).next_call later next hlater.later hquiet hcall

theorem backoff_honoured_iff_at_once :
    let session : ClientSession :=
      ⟨Octets.zero sessionIdLen, Octets.zero aeadKeyLen, Octets.zero aeadKeyLen, Octets.zero 4⟩
    let p : RekeyPass := ⟨60, 60, 60, 60, true, none⟩
    let after := rekeyStep 60 (.opened session 0) (.pass p)
    Clocked [.pass p] ∧ .failed 60 60 0 ∈ after.2 ∧
      ∀ later next, Clocked ([.pass p] ++ (later ++ [next])) →
        calls (run (rekeyStep 60) after.1 later).2 = [] →
        ∀ time ∈ calls (rekeyStep 60 (run (rekeyStep 60) after.1 later).1 next).2,
          60 + 2 ^ 0 ≤ time := by
  intro session p after
  have hclock : Clocked [.pass p] := by decide
  have hfailed : .failed 60 60 0 ∈ after.2 := by decide
  exact ⟨hclock, hfailed, (backoff_honoured_iff 60 session 0 [] p hclock ⟨0, hfailed⟩
    (by decide)).mpr rfl⟩

/-- The first attempt starts at 60, waits for MSG2 until 75 and fails. The next one is
made at 75 and not at 76. -/
theorem backoff_over_at_return :
    let session : ClientSession :=
      ⟨Octets.zero sessionIdLen, Octets.zero aeadKeyLen, Octets.zero aeadKeyLen, Octets.zero 4⟩
    let acts : List RekeyAct :=
      [.pass ⟨60, 60, 60, 75, true, none⟩, .pass ⟨75, 75, 75, 90, true, none⟩]
    Clocked acts ∧
      (run (rekeyStep 60) (.opened session 0) acts).2 =
        [.checked .ready 0 .now, .failed 60 75 0, .checked .backoff 1 .now,
          .failed 75 90 1] := by
  decide +kernel

end Chamlon.Client
