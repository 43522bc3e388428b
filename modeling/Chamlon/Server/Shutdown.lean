import Mathlib.Tactic
import Chamlon.Agreement.Honest
import Chamlon.Server.Accounting
import Chamlon.Server.Traffic

/-!
The end of the server: `graceful_shutdown.c` and the part of `main` from the event loop to
the end of the drain loop. The drain loop waits until no session is active or
`graceful_shutdown_timeout_exceeded` says so, and that function counts from
`shutdown_started`. Only `graceful_shutdown_initiate` sets it, and no function of the server
calls `graceful_shutdown_initiate`; the other way out of the event loop, an error of
`epoll_wait`, leaves it at zero.

Times are unbounded integers. The signal handler ends the process at once.
-/

namespace Chamlon.Server

open Config Memory Machine

/-- `shutdown_state_t`. -/
inductive ShutdownState where
  | idle
  | initiated
  | draining
  | forceTimeout
  | complete
deriving DecidableEq, Repr

/-- `graceful_shutdown_t`. Its `session_closed_count` is never used. -/
structure GracefulShutdown where
  state : ShutdownState
  shutdownStarted : Int
  shutdownTimeoutSec : Int
  sessionDisconnectCount : Nat
deriving DecidableEq, Repr

/-- `CONFIG_GRACEFUL_SHUTDOWN_TIMEOUT_SEC`. -/
abbrev gracefulShutdownTimeoutSec : Int := 10

def gracefulShutdownInit (timeoutSec : Int) : GracefulShutdown where
  state := .idle
  shutdownStarted := 0
  shutdownTimeoutSec := if 0 < timeoutSec then timeoutSec else gracefulShutdownTimeoutSec
  sessionDisconnectCount := 0

def gracefulShutdownInitiate (now : Int) (g : GracefulShutdown) : GracefulShutdown :=
  if g.state = .idle then { g with state := .initiated, shutdownStarted := now } else g

/-- `graceful_shutdown_drain_sessions` as far as `g_shutdown` is concerned. -/
def gracefulShutdownDrainSessions (sessions : Sessions) (g : GracefulShutdown) :
    GracefulShutdown :=
  { g with
    state := if g.state ≠ .draining ∧ g.state ≠ .initiated then .draining else g.state
    sessionDisconnectCount := activeSlots sessions }

/-- A session behind `send_control_packet`, which draws a number unless it returns early. -/
def Session.afterControl (s : Session) : Session :=
  if s.active ∧ 64 ≤ s.argv.frag ∧ s.argv.frag ≤ maxFrag then s.drawSeq else s

def gracefulShutdownTimeoutExceeded (now : Int) (g : GracefulShutdown) :
    Bool × GracefulShutdown :=
  if g.shutdownStarted = 0 then (false, g)
  else if g.shutdownTimeoutSec < now - g.shutdownStarted then
    (true, { g with state := .forceTimeout })
  else (false, g)

/-- Where `main` is. -/
inductive MainAt where
  /-- At the head of the event loop. -/
  | serving
  /-- The event loop was left and the active sessions counted. -/
  | notifying (activeSessions : Nat)
  /-- At the head of the drain loop. -/
  | draining (drainStart : Int) (outstanding : Nat)
  /-- In the body of the drain loop. -/
  | polling (drainStart : Int)
  /-- Before `thread_pool_destroy`. -/
  | stopping
  /-- The signal handler has called `exit`. -/
  | exited
deriving DecidableEq, Repr

structure Main where
  place : MainAt
  shutdown : GracefulShutdown
  sessions : Sessions

def Main.start : Main := ⟨.serving, gracefulShutdownInit gracefulShutdownTimeoutSec, noSessions⟩

/-- What `epoll_wait` returns: descriptors or none, `EINTR`, or another error. -/
inductive EpollWait where
  | returned
  | interrupted
  | failed
deriving DecidableEq, Repr

inductive MainAct where
  /-- The next step of `main`, with the clock and the result of `epoll_wait` it gets. -/
  | main (now : Int) (wait : EpollWait) (env : SendEnv)
  /-- A call of `graceful_shutdown_initiate`. -/
  | initiate (now : Int)
  | signal
  /-- A datagram that a worker handles, or the maintenance. -/
  | server (op : Op)

inductive MainEvent where
  /-- `graceful_shutdown_initiate` found the server idle. -/
  | initiated (now : Int)
  | epollFailed
  /-- The control packets of `graceful_shutdown_drain_sessions`. -/
  | notified (packets : List Sent)
  | server (event : Event)

section Machine

variable (aead : Aead) (na : Sodium) (keys : ServerKeys) (order : Endian)

/-- The next step of `main`. -/
def mainNext (now : Int) (wait : EpollWait) (env : SendEnv) (s : Main) :
    Main × List MainEvent :=
  match s.place with
  | .serving =>
      if s.shutdown.state ≠ .idle then
        ({ s with place := .notifying (activeSlots s.sessions) }, [])
      else
        match wait with
        | .failed => ({ s with place := .notifying (activeSlots s.sessions) }, [.epollFailed])
        | .returned | .interrupted => (s, [])
  | .notifying activeSessions =>
      if 0 < activeSessions then
        (⟨.draining now activeSessions, gracefulShutdownDrainSessions s.sessions s.shutdown,
            fun i => (s.sessions i).afterControl⟩,
          [.notified (controlPackets aead order env pktCtrlDisconnect (·.active) s.sessions)])
      else ({ s with place := .stopping }, [])
  | .draining drainStart outstanding =>
      if 0 < outstanding then
        let exceeded := gracefulShutdownTimeoutExceeded now s.shutdown
        ({ s with
            place := if exceeded.1 then .stopping else .polling drainStart
            shutdown := exceeded.2 }, [])
      else ({ s with place := .stopping }, [])
  | .polling drainStart =>
      ({ s with place := .draining drainStart (activeSlots s.sessions) }, [])
  | .stopping => (s, [])
  | .exited => (s, [])

def mainStep (s : Main) (act : MainAct) : Main × List MainEvent :=
  if s.place = .exited then (s, [])
  else
    match act with
    | .main now wait env => mainNext aead order now wait env s
    | .initiate now =>
        ({ s with shutdown := gracefulShutdownInitiate now s.shutdown },
          if s.shutdown.state = .idle then [.initiated now] else [])
    | .signal => ({ s with place := .exited }, [])
    | .server op =>
        let result := serverStep na keys order s.sessions op
        ({ s with sessions := result.1 }, result.2.map .server)

end Machine

/-- The times at which the shutdown was initiated. -/
def initiations (events : List MainEvent) : List Int :=
  events.filterMap fun | .initiated now => some now | _ => none

theorem initiations_append (first second : List MainEvent) :
    initiations (first ++ second) = initiations first ++ initiations second :=
  List.filterMap_append

theorem initiations_server (events : List Event) :
    initiations (events.map .server) = [] := by
  induction events with
  | nil => rfl
  | cons event rest ih => exact ih

/-- The clock of the timeout is as it was, and the server is not idle again. -/
structure SameClock (before after : GracefulShutdown) : Prop where
  started : after.shutdownStarted = before.shutdownStarted
  timeout : after.shutdownTimeoutSec = before.shutdownTimeoutSec
  busy : before.state ≠ .idle → after.state ≠ .idle

theorem SameClock.refl (g : GracefulShutdown) : SameClock g g := ⟨rfl, rfl, id⟩

theorem drainSessions_not_idle (sessions : Sessions) (g : GracefulShutdown) :
    (gracefulShutdownDrainSessions sessions g).state ≠ .idle := by
  unfold gracefulShutdownDrainSessions
  cases hstate : g.state <;> simp

theorem timeoutExceeded_sameClock (now : Int) (g : GracefulShutdown) :
    SameClock g (gracefulShutdownTimeoutExceeded now g).2 := by
  unfold gracefulShutdownTimeoutExceeded
  split
  · exact .refl g
  · split
    · exact ⟨rfl, rfl, fun _ => nofun⟩
    · exact .refl g

theorem timeoutExceeded_iff (now : Int) (g : GracefulShutdown) :
    (gracefulShutdownTimeoutExceeded now g).1 = true ↔
      g.shutdownStarted ≠ 0 ∧ g.shutdownStarted + g.shutdownTimeoutSec < now := by
  unfold gracefulShutdownTimeoutExceeded
  split
  next hzero => simp [hzero]
  next hstarted =>
    split
    next hlate => exact ⟨fun _ => ⟨hstarted, by omega⟩, fun _ => rfl⟩
    next hearly => exact ⟨nofun, fun h => absurd h.2 (by omega)⟩

/-- In the drain loop. -/
def MainAt.drains : MainAt → Bool
  | .draining _ _ | .polling _ => true
  | _ => false

section Run

variable (aead : Aead) (na : Sodium) (keys : ServerKeys) (order : Endian)

/-- The next step of `main` leaves the clock of the timeout alone, initiates nothing, and
enters the drain loop with a server that is not idle. -/
theorem mainNext_effect (now : Int) (wait : EpollWait) (env : SendEnv) (s : Main) :
    let next := mainNext aead order now wait env s
    SameClock s.shutdown next.1.shutdown ∧ initiations next.2 = [] ∧
      (next.1.place.drains = true → s.place.drains = true ∨ next.1.shutdown.state ≠ .idle) := by
  unfold mainNext
  cases hplace : s.place with
  | serving =>
      dsimp only
      split
      · exact ⟨.refl _, rfl, nofun⟩
      · cases wait with
        | failed => exact ⟨.refl _, rfl, nofun⟩
        | returned => exact ⟨.refl _, rfl, fun h => absurd h (by rw [hplace]; nofun)⟩
        | interrupted => exact ⟨.refl _, rfl, fun h => absurd h (by rw [hplace]; nofun)⟩
  | notifying activeSessions =>
      dsimp only
      split
      · have hbusy := drainSessions_not_idle s.sessions s.shutdown
        exact ⟨⟨rfl, rfl, fun _ => hbusy⟩, rfl, fun _ => Or.inr hbusy⟩
      · exact ⟨.refl _, rfl, nofun⟩
  | draining drainStart outstanding =>
      dsimp only
      split
      · exact ⟨timeoutExceeded_sameClock now s.shutdown, rfl, fun _ => Or.inl rfl⟩
      · exact ⟨.refl _, rfl, nofun⟩
  | polling drainStart => exact ⟨.refl _, rfl, fun _ => Or.inl rfl⟩
  | stopping => exact ⟨.refl _, rfl, fun h => absurd h (by rw [hplace]; nofun)⟩
  | exited => exact ⟨.refl _, rfl, fun h => absurd h (by rw [hplace]; nofun)⟩

/-- What the clock of the timeout has to do with the events. -/
structure MainOk (past : List MainEvent) (s : Main) : Prop where
  clock : initiations past = [] ∧ s.shutdown.shutdownStarted = 0 ∨
    initiations past = [s.shutdown.shutdownStarted] ∧ s.shutdown.state ≠ .idle
  busy : s.place.drains = true → s.shutdown.state ≠ .idle

theorem MainOk.sameClock {past events : List MainEvent} {s next : Main} (h : MainOk past s)
    (hclock : SameClock s.shutdown next.shutdown) (hevents : initiations events = [])
    (hbusy : next.place.drains = true →
      s.place.drains = true ∨ next.shutdown.state ≠ .idle) :
    MainOk (past ++ events) next where
  clock := by
    rw [initiations_append, hevents, List.append_nil, hclock.started]
    exact h.clock.imp_right fun hdone => ⟨hdone.1, hclock.busy hdone.2⟩
  busy := fun hdrains => (hbusy hdrains).elim (fun hbefore => hclock.busy (h.busy hbefore)) id

theorem MainOk.initiate {past : List MainEvent} {s : Main} (h : MainOk past s) (now : Int) :
    MainOk (past ++ if s.shutdown.state = .idle then [.initiated now] else [])
      { s with shutdown := gracefulShutdownInitiate now s.shutdown } := by
  unfold gracefulShutdownInitiate
  by_cases hidle : s.shutdown.state = .idle
  · rw [if_pos hidle, if_pos hidle]
    obtain ⟨hnone, -⟩ := h.clock.resolve_right fun hdone => hdone.2 hidle
    refine ⟨Or.inr ⟨?_, nofun⟩, fun _ => nofun⟩
    rw [initiations_append, hnone]
    rfl
  · rw [if_neg hidle, if_neg hidle, List.append_nil]
    exact h

theorem MainOk.step {past : List MainEvent} {s : Main} (h : MainOk past s) (act : MainAct) :
    MainOk (past ++ (mainStep aead na keys order s act).2)
      (mainStep aead na keys order s act).1 := by
  unfold mainStep
  split
  · rwa [List.append_nil]
  cases act with
  | main now wait env =>
      obtain ⟨hclock, hevents, hbusy⟩ := mainNext_effect aead order now wait env s
      exact h.sameClock hclock hevents hbusy
  | initiate now => exact h.initiate now
  | signal => exact h.sameClock (.refl _) rfl nofun
  | server op =>
      exact h.sameClock (.refl _) (initiations_server _) fun hdrains => Or.inl hdrains

theorem mainRun_ok (acts : List MainAct) :
    MainOk (run (mainStep aead na keys order) .start acts).2
      (run (mainStep aead na keys order) .start acts).1 :=
  run_history (mainStep aead na keys order) (fun _ _ => True) MainOk
    (fun _ _ act h _ => h.step aead na keys order act) [] .start acts
    ⟨Or.inl ⟨rfl, rfl⟩, nofun⟩ (Along.of_forall _ (fun _ => True) _ acts fun _ _ => trivial)

/-- Once the server is not idle, nothing sets the clock of the timeout. -/
theorem mainStep_sameClock {s : Main} (hbusy : s.shutdown.state ≠ .idle) (act : MainAct) :
    SameClock s.shutdown (mainStep aead na keys order s act).1.shutdown := by
  unfold mainStep
  split
  · exact .refl _
  cases act with
  | main now wait env => exact (mainNext_effect aead order now wait env s).1
  | initiate now =>
      dsimp only
      rw [gracefulShutdownInitiate, if_neg hbusy]
      exact .refl _
  | signal => exact .refl _
  | server op => exact .refl _

theorem mainRun_sameClock {s : Main} (hbusy : s.shutdown.state ≠ .idle)
    (later : List MainAct) :
    SameClock s.shutdown (run (mainStep aead na keys order) s later).1.shutdown := by
  apply run_invariant (mainStep aead na keys order) (fun _ _ => True)
    (fun next => SameClock s.shutdown next.shutdown)
  · intro next act hnext _
    have hstep := mainStep_sameClock aead na keys order (hnext.busy hbusy) act
    exact ⟨hstep.started.trans hnext.started, hstep.timeout.trans hnext.timeout,
      fun h => hstep.busy (hnext.busy h)⟩
  · exact .refl _
  · exact Along.of_forall _ (fun _ => True) _ later fun _ _ => trivial

/-- The loop condition fails. -/
theorem drain_left {s : Main} {now start : Int} {remaining : Nat} {wait : EpollWait}
    {env : SendEnv} (hplace : s.place = .draining start remaining)
    (hexceeded : (gracefulShutdownTimeoutExceeded now s.shutdown).1 = true) :
    (mainStep aead na keys order s (.main now wait env)).1.place = .stopping := by
  have hrunning : s.place ≠ .exited := by
    rw [hplace]
    nofun
  rw [mainStep, if_neg hrunning]
  dsimp only [mainNext]
  rw [hplace]
  dsimp only
  by_cases hleft : 0 < remaining
  · rw [if_pos hleft]
    exact if_pos hexceeded
  · rw [if_neg hleft]

/-- A pass of the drain loop with the clock of the timeout not started. -/
theorem drain_pass {s : Main} {start : Int} {remaining : Nat}
    (hplace : s.place = .draining start remaining) (hleft : 0 < remaining)
    (hzero : s.shutdown.shutdownStarted = 0) (now : Int) (wait : EpollWait) (env : SendEnv) :
    (run (mainStep aead na keys order) s [.main now wait env, .main now wait env]).1.place =
      .draining start (activeSlots s.sessions) := by
  have hrunning : s.place ≠ .exited := by
    rw [hplace]
    nofun
  have hexceeded : gracefulShutdownTimeoutExceeded now s.shutdown = (false, s.shutdown) :=
    if_pos hzero
  have hhead : (mainStep aead na keys order s (.main now wait env)).1 =
      { s with place := .polling start } := by
    rw [mainStep, if_neg hrunning]
    dsimp only [mainNext]
    rw [hplace]
    dsimp only
    rw [if_pos hleft, hexceeded]
    rfl
  simp only [run]
  rw [hhead]
  rfl

/-- In a drain loop that began at `drainStart`, the loop is left at every pass more than
`shutdown_timeout_sec` later, whatever the clients do, exactly if the shutdown was initiated
at a time that is not zero and not after `drainStart`. Without an initiation the timeout
never expires. -/
theorem drain_bounded_iff (acts : List MainAct) (drainStart : Int) (outstanding : Nat)
    (hplace : (run (mainStep aead na keys order) .start acts).1.place =
      .draining drainStart outstanding) :
    let s := (run (mainStep aead na keys order) .start acts).1
    let times := initiations (run (mainStep aead na keys order) .start acts).2
    ((∀ later now wait env start remaining,
        let next := (run (mainStep aead na keys order) s later).1
        next.place = .draining start remaining →
        drainStart + s.shutdown.shutdownTimeoutSec < now →
        (gracefulShutdownTimeoutExceeded now next.shutdown).1 = true ∧
          (mainStep aead na keys order next (.main now wait env)).1.place = .stopping) ↔
      ∃ t ∈ times, t ≠ 0 ∧ t ≤ drainStart) ∧
    (times = [] → ∀ later now,
      (gracefulShutdownTimeoutExceeded now
        (run (mainStep aead na keys order) s later).1.shutdown).1 = false) := by
  intro s times
  have hok : MainOk _ s := mainRun_ok aead na keys order acts
  have hbusy : s.shutdown.state ≠ .idle := hok.busy (by rw [hplace]; rfl)
  have hclock := mainRun_sameClock aead na keys order hbusy
  have htimes : times = [] ∧ s.shutdown.shutdownStarted = 0 ∨
      times = [s.shutdown.shutdownStarted] ∧ s.shutdown.state ≠ .idle := hok.clock
  refine ⟨⟨?_, ?_⟩, ?_⟩
  · intro hbounded
    -- the first second behind the timeout
    obtain ⟨hexceeded, -⟩ := hbounded [] (drainStart + s.shutdown.shutdownTimeoutSec + 1)
      .returned ⟨Octets.zero sessionIdLen, fun _ => true, fun _ => true⟩ drainStart
      outstanding hplace (by omega)
    obtain ⟨hstarted, hlate⟩ := (timeoutExceeded_iff _ _).mp hexceeded
    rcases htimes with ⟨-, hzero⟩ | ⟨hone, -⟩
    · exact absurd hzero hstarted
    · refine ⟨s.shutdown.shutdownStarted, ?_, hstarted, ?_⟩
      · rw [hone]
        exact List.mem_singleton_self _
      · change s.shutdown.shutdownStarted + s.shutdown.shutdownTimeoutSec < _ at hlate
        omega
  · rintro ⟨t, ht, hzero, hle⟩ later now wait env start remaining next hnext hnow
    have hstarted : t = s.shutdown.shutdownStarted := by
      rcases htimes with ⟨hnone, -⟩ | ⟨hone, -⟩
      · rw [hnone] at ht
        cases ht
      · rw [hone] at ht
        exact List.mem_singleton.mp ht
    subst hstarted
    have hexceeded : (gracefulShutdownTimeoutExceeded now next.shutdown).1 = true := by
      rw [timeoutExceeded_iff, (hclock later).started, (hclock later).timeout]
      exact ⟨hzero, by omega⟩
    exact ⟨hexceeded, drain_left aead na keys order hnext hexceeded⟩
  · intro hnone later now
    have hzero : s.shutdown.shutdownStarted = 0 := by
      rcases htimes with ⟨-, hzero⟩ | ⟨hone, -⟩
      · exact hzero
      · exact absurd (hnone.symm.trans hone) nofun
    apply Bool.eq_false_iff.mpr
    intro hexceeded
    apply ((timeoutExceeded_iff _ _).mp hexceeded).1
    rw [(hclock later).started, hzero]

end Run

section Silent

/-- A handshake; its client will not answer the DISCONNECT. -/
def silentClient : MainAct :=
  .server (.datagram (Agreement.calmEnv 0 3) ⟨1, 2⟩
    (buildMsg1 .little (Octets.zero pubkeyLen) (Octets.zero 8) ⟨5, 1024, 78, 78⟩))

def sendEnv : SendEnv := ⟨Octets.zero sessionIdLen, fun _ => true, fun _ => true⟩

/-- The shutdown is initiated, and the drain loop entered. -/
def initiatedActs : List MainAct :=
  [silentClient, .initiate 100, .main 100 .returned sendEnv, .main 101 .returned sendEnv]

/-- The loop ends without the client. -/
theorem drain_bounded_silent_client :
    let s := (run (mainStep .plainText Sodium.xorSodium Agreement.zeroKeys .little) .start
      initiatedActs).1
    s.place = .draining 101 1 ∧
    ∀ later now wait env start remaining,
      let next := (run (mainStep .plainText Sodium.xorSodium Agreement.zeroKeys .little) s
        later).1
      next.place = .draining start remaining →
      101 + s.shutdown.shutdownTimeoutSec < now →
      (gracefulShutdownTimeoutExceeded now next.shutdown).1 = true ∧
        (mainStep .plainText Sodium.xorSodium Agreement.zeroKeys .little next
          (.main now wait env)).1.place = .stopping := by
  have hplace : (run (mainStep .plainText Sodium.xorSodium Agreement.zeroKeys .little) .start
      initiatedActs).1.place = .draining 101 1 := by decide +kernel
  have htime : 100 ∈ initiations (run (mainStep .plainText Sodium.xorSodium
      Agreement.zeroKeys .little) .start initiatedActs).2 := by decide +kernel
  have hbounded := drain_bounded_iff .plainText Sodium.xorSodium Agreement.zeroKeys .little
    initiatedActs 101 1 hplace
  exact ⟨hplace, hbounded.1.mpr ⟨100, htime, by decide, by decide⟩⟩

/-- `epoll_wait` fails: the clock of the timeout was never started, and the loop goes on
at every time. -/
theorem drain_endless_after_epoll_error :
    let step := mainStep .plainText Sodium.xorSodium Agreement.zeroKeys .little
    let s := (run step .start [silentClient, .main 100 .failed sendEnv,
      .main 100 .returned sendEnv]).1
    s.place = .draining 100 1 ∧
    ∀ now, (gracefulShutdownTimeoutExceeded now s.shutdown).1 = false ∧
      (run step s [.main now .returned sendEnv, .main now .returned sendEnv]).1.place =
        .draining 100 1 := by
  intro step s
  have hplace : s.place = .draining 100 1 := by decide +kernel
  have hzero : s.shutdown.shutdownStarted = 0 := by decide +kernel
  have hactive : activeSlots s.sessions = 1 := by decide +kernel
  refine ⟨hplace, fun now => ⟨?_, ?_⟩⟩
  · rw [gracefulShutdownTimeoutExceeded, if_pos hzero]
  · rw [drain_pass _ _ _ _ hplace Nat.one_pos hzero, hactive]

end Silent

end Chamlon.Server
