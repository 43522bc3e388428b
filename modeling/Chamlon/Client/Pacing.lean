import Mathlib.Tactic
import Chamlon.Queue.Basic
import Chamlon.Server.Scheduler

/-!
The pacing of `sender_thread_fn`. With a constant bit rate every datagram moves the time
`next` on by the interval, also those of a burst, and the thread sleeps until `next` before
it looks at its queue again. A thread that is late starts afresh from the present, which
gives the lost time away. So what was sent never runs ahead of the clock.

The key swap and the report at the loop head do not touch the pacing and are left out; the
event loop may add to the queue between any two steps. Times are unbounded integers.
-/

namespace Chamlon.Client.Pacing

open Config Memory Machine Queue
open Server (Timespec timespecCompare)

/-- The time in nanoseconds. -/
def ns (ts : Timespec) : Int := ts.sec * 1000000000 + ts.nsec

/-- `tv_nsec` is below a second. -/
def Normal (ts : Timespec) : Prop := 0 ≤ ts.nsec ∧ ts.nsec < 1000000000

instance (ts : Timespec) : Decidable (Normal ts) := inferInstanceAs (Decidable (_ ∧ _))

/-- `timespec_add`. -/
def timespecAdd (ts delta : Timespec) : Timespec :=
  let sec := ts.sec + delta.sec
  let nsec := ts.nsec + delta.nsec
  if 1000000000 ≤ nsec then ⟨sec + 1, nsec - 1000000000⟩ else ⟨sec, nsec⟩

/-- `timespec_cmp`, the same text as the server's `timespec_compare`. -/
abbrev timespecCmp (a b : Timespec) : Int := timespecCompare a b

theorem ns_timespecAdd (ts delta : Timespec) :
    ns (timespecAdd ts delta) = ns ts + ns delta := by
  unfold timespecAdd ns
  dsimp only
  split_ifs <;> dsimp only <;> omega

theorem Normal.timespecAdd {ts delta : Timespec} (h : Normal ts) (hdelta : Normal delta) :
    Normal (timespecAdd ts delta) := by
  obtain ⟨hlow, hhigh⟩ := h
  obtain ⟨hlow', hhigh'⟩ := hdelta
  unfold Pacing.timespecAdd Normal
  dsimp only
  split_ifs <;> dsimp only <;> omega

/-- On normalised times the comparison is that of the nanoseconds. -/
theorem timespecCmp_pos_iff {a b : Timespec} (ha : Normal a) (hb : Normal b) :
    0 < timespecCmp a b ↔ ns b < ns a := by
  obtain ⟨hlow, hhigh⟩ := ha
  obtain ⟨hlow', hhigh'⟩ := hb
  unfold timespecCmp timespecCompare ns
  split_ifs <;> omega

/-- Where `sender_thread_fn` is. -/
inductive PacerAt where
  | head
  /-- Before `out_queue_pop`. -/
  | draining
  /-- Before `send_one_dummy`. -/
  | dummy
  /-- Before the clock is compared with `next`. -/
  | comparing
  /-- In `clock_nanosleep`. -/
  | sleeping
  /-- In the `nanosleep` of a client without constant bit rate. -/
  | idling
  | exited
deriving DecidableEq, Repr

structure Pacer where
  place : PacerAt
  next : Timespec
  outq : OutQueue
  /-- The clock at the last step of the thread. -/
  clock : Timespec
  /-- The datagrams that were passed to `sendto`. -/
  sent : Nat

/-- The thread has read the clock into `next`. -/
def Pacer.start (clock : Timespec) : Pacer := ⟨.head, clock, outQueueInit, clock, 0⟩

inductive PacerAct where
  /-- The event loop calls `packet_queue_push`. -/
  | push (allocated : Bool) (pkt : Bytes) (seq : BitVec 64) (ip : Bytes)
  /-- The next step of the thread, with the clock at that step, `g_stop`, and whether
  `aead_encrypt` returns 0. -/
  | step (clock : Timespec) (stop encrypts : Bool)

section Steps

variable (cbr : Bool) (interval : Timespec)

/-- A datagram was sent: `timespec_add(&next, &arg->interval)`. -/
def Pacer.count (s : Pacer) : Pacer :=
  { s with next := if cbr then timespecAdd s.next interval else s.next, sent := s.sent + 1 }

/-- The next step of the thread. -/
def Pacer.advance (clock : Timespec) (stop encrypts : Bool) (s : Pacer) : Pacer :=
  match s.place with
  | .head => { s with place := if stop then .exited else .draining }
  | .draining =>
      match outQueuePop s.outq with
      | (outq, .popped _ :: _) => { s.count cbr interval with outq }
      | _ => { s with place := if cbr then .dummy else .idling }
  | .dummy =>
      if !encrypts then { s with place := .exited }
      else { s.count cbr interval with place := .comparing }
  | .comparing =>
      { s with
        next := if 0 < timespecCmp clock s.next then timespecAdd clock interval else s.next
        place := .sleeping }
  | .sleeping => { s with place := .head }
  | .idling => { s with place := .head }
  | .exited => s

def pacerStep (s : Pacer) : PacerAct → Pacer × List Unit
  | .push allocated pkt seq ip =>
      ({ s with outq := (packetQueuePush allocated pkt seq ip s.outq).1 }, [])
  | .step clock stop encrypts =>
      ({ s.advance cbr interval clock stop encrypts with clock }, [])

end Steps

/-- The clock does not go back, and `clock_nanosleep` returns at its deadline or later. -/
def Timely (s : Pacer) : PacerAct → Prop
  | .push _ _ _ _ => True
  | .step clock _ _ =>
      Normal clock ∧ ns s.clock ≤ ns clock ∧ (s.place = .sleeping → ns s.next ≤ ns clock)

instance (s : Pacer) : ∀ act, Decidable (Timely s act)
  | .push _ _ _ _ => inferInstanceAs (Decidable True)
  | .step _ _ _ => inferInstanceAs (Decidable (_ ∧ _ ∧ _))

/-- `next` is at least an interval per datagram behind the start, and at the loop head it
has been reached. -/
structure Paced (start interval : Timespec) (s : Pacer) : Prop where
  normal : Normal s.next
  ahead : ns start + s.sent * ns interval ≤ ns s.next
  reached : s.place = .head → ns s.next ≤ ns s.clock
  busy : s.place ≠ .idling

variable {start interval : Timespec} {s : Pacer}

theorem Paced.count (hinterval : Normal interval) (h : Paced start interval s) :
    Normal (s.count true interval).next ∧
      ns start + (s.count true interval).sent * ns interval ≤
        ns (s.count true interval).next := by
  refine ⟨h.normal.timespecAdd hinterval, ?_⟩
  have hahead := h.ahead
  have hnext : ns (s.count true interval).next = ns s.next + ns interval :=
    ns_timespecAdd s.next interval
  have hsent : ((s.count true interval).sent : Int) * ns interval =
      s.sent * ns interval + ns interval := by
    change ((s.sent + 1 : Nat) : Int) * ns interval = _
    rw [Nat.cast_succ, Int.add_mul, Int.one_mul]
  omega

/-- A step of the thread with a constant bit rate. -/
theorem Paced.advance (hinterval : Normal interval) (hpos : 0 < ns interval)
    (h : Paced start interval s) {clock : Timespec} {stop encrypts : Bool}
    (htimely : Timely s (.step clock stop encrypts)) :
    Paced start interval { s.advance true interval clock stop encrypts with clock } := by
  obtain ⟨hclock, hforward, hawake⟩ := htimely
  obtain ⟨hnormal, hcounted⟩ := h.count hinterval
  unfold Pacer.advance
  cases hplace : s.place with
  | head =>
      refine ⟨h.normal, h.ahead, fun _ => (h.reached hplace).trans hforward, ?_⟩
      dsimp only
      split <;> nofun
  | draining =>
      dsimp only
      split
      · refine ⟨hnormal, hcounted, fun hhead => ?_, h.busy⟩
        cases hplace.symm.trans hhead
      · exact ⟨h.normal, h.ahead, nofun, nofun⟩
  | dummy =>
      dsimp only
      split
      · exact ⟨h.normal, h.ahead, nofun, nofun⟩
      · exact ⟨hnormal, hcounted, nofun, nofun⟩
  | comparing =>
      dsimp only
      by_cases hlate : 0 < timespecCmp clock s.next
      · -- the new `next` is an interval behind the clock, which is behind the old one
        have hbehind := (timespecCmp_pos_iff hclock h.normal).mp hlate
        have hahead := h.ahead
        rw [if_pos hlate]
        refine ⟨hclock.timespecAdd hinterval, ?_, nofun, nofun⟩
        dsimp only
        rw [ns_timespecAdd]
        omega
      · rw [if_neg hlate]
        exact ⟨h.normal, h.ahead, nofun, nofun⟩
  | sleeping => exact ⟨h.normal, h.ahead, fun _ => hawake hplace, nofun⟩
  | idling => exact absurd hplace h.busy
  | exited =>
      refine ⟨h.normal, h.ahead, fun hhead => ?_, h.busy⟩
      cases hplace.symm.trans hhead

theorem Paced.step (hinterval : Normal interval) (hpos : 0 < ns interval)
    (h : Paced start interval s) {act : PacerAct} (htimely : Timely s act) :
    Paced start interval (pacerStep true interval s act).1 := by
  cases act with
  | push allocated pkt seq ip => exact ⟨h.normal, h.ahead, h.reached, h.busy⟩
  | step clock stop encrypts => exact h.advance hinterval hpos htimely

/-- With a constant bit rate, whatever arrives and whenever the thread runs: at every loop
head the number of datagrams sent, times the interval, is at most the time since the thread
began, and `next` is a normalised time at every step. -/
theorem cbr_rate_bounded (interval start : Timespec) (acts : List PacerAct)
    (hinterval : Normal interval) (hpos : 0 < ns interval) (hstart : Normal start)
    (htimely : Along (pacerStep true interval) Timely (.start start) acts) :
    let s := (run (pacerStep true interval) (.start start) acts).1
    Normal s.next ∧
      (s.place = .head → s.sent * ns interval ≤ ns s.clock - ns start) := by
  intro s
  have hpaced : Paced start interval s := by
    apply run_invariant (pacerStep true interval) Timely (Paced start interval)
    · intro s act h hact
      exact h.step hinterval hpos hact
    · exact ⟨hstart, by simp [Pacer.start], fun _ => le_rfl, nofun⟩
    · exact htimely
  refine ⟨hpaced.normal, fun hhead => ?_⟩
  have hahead := hpaced.ahead
  have hreached := hpaced.reached hhead
  omega

/-- Two arrivals in the first pass, and a thread that wakes late. -/
def burstActs : List PacerAct :=
  [.push true [1] 0 [], .push true [2] 1 [], .step ⟨5, 0⟩ false true,
    .step ⟨5, 0⟩ false true, .step ⟨5, 100⟩ false true, .step ⟨5, 200⟩ false true,
    .step ⟨5, 300⟩ false true, .step ⟨5, 400⟩ false true, .step ⟨8, 500⟩ false true]

theorem cbr_rate_bounded_burst :
    let s := (run (pacerStep true ⟨0, 600000000⟩) (.start ⟨5, 0⟩) burstActs).1
    s.place = .head ∧ s.sent = 3 ∧ s.sent * ns ⟨0, 600000000⟩ ≤ ns s.clock - ns ⟨5, 0⟩ := by
  intro s
  have hhead : s.place = .head := by decide +kernel
  have hsent : s.sent = 3 := by decide +kernel
  exact ⟨hhead, hsent, (cbr_rate_bounded ⟨0, 600000000⟩ ⟨5, 0⟩ burstActs (by decide)
    (by decide) (by decide) (by decide +kernel)).2 hhead⟩

end Chamlon.Client.Pacing
