import Mathlib.Tactic
import Chamlon.Client.EventLoop
import Chamlon.Reassembly.Store

/-!
The timers of the event loop. None of them is a timer of the system: a pass compares the
time it has read with the time of the last pass that acted, so how late a timer can be
depends on how far apart the passes are. A pass is long when a rehandshake waits for its
answer inside it.
-/

namespace Chamlon.Client

open Config Memory Machine Reassembly

/-- When `send_keepalive` was called. -/
def keepaliveTimes (events : List LoopEvent) : List Int :=
  events.filterMap fun | .keepaliveSent now => some now | _ => none

@[simp] theorem keepaliveTimes_append (first second : List LoopEvent) :
    keepaliveTimes (first ++ second) = keepaliveTimes first ++ keepaliveTimes second :=
  List.filterMap_append

/-- The time that a pass reads, if its wait succeeds. -/
def LoopPass.reading (p : LoopPass) : Option Int :=
  match p.wait with
  | .ready _ => some p.now
  | _ => none

/-- The clock does not go back, and two readings are at most `gap` apart. -/
def Steady (gap opened : Int) (passes : List LoopPass) : Prop :=
  List.IsChain (fun a b => a ≤ b ∧ b ≤ a + gap) (opened :: passes.filterMap LoopPass.reading)

instance (gap opened : Int) (passes : List LoopPass) :
    Decidable (Steady gap opened passes) :=
  inferInstanceAs (Decidable (List.IsChain _ _))

/-- The last time that was read. -/
def lastReading (opened : Int) (passes : List LoopPass) : Int :=
  (passes.filterMap LoopPass.reading).getLastD opened

section Steady

variable {gap last : Int} {p : LoopPass} {rest : List LoopPass}

theorem Steady.cons (h : Steady gap last (p :: rest)) :
    (∀ now ∈ p.reading, last ≤ now ∧ now ≤ last + gap) ∧
      Steady gap (p.reading.getD last) rest := by
  unfold Steady at h ⊢
  rw [List.filterMap_cons] at h
  cases hreading : p.reading with
  | none =>
      rw [hreading] at h
      exact ⟨nofun, h⟩
  | some now =>
      rw [hreading] at h
      obtain ⟨hnow, hrest⟩ := List.isChain_cons_cons.mp h
      exact ⟨fun other hother => Option.some.inj hother ▸ hnow, hrest⟩

theorem lastReading_cons :
    lastReading last (p :: rest) = lastReading (p.reading.getD last) rest := by
  unfold lastReading
  rw [List.filterMap_cons]
  cases p.reading with
  | none => rfl
  | some now => exact List.getLastD_cons

end Steady

/-! ## Keepalives -/

def LoopAct.isKeepalive : LoopAct → Bool
  | .keepalive _ => true
  | _ => false

section Keepalive

variable {na : Sodium} {order : Endian} {interval : Int} {s : EventLoop}

theorem loopAct_keepalive_kept {act : LoopAct} (h : act.isKeepalive = false) :
    (loopAct na order interval s act).1.lastKeepalive = s.lastKeepalive ∧
      keepaliveTimes (loopAct na order interval s act).2 = [] := by
  cases act with
  | request signalled =>
      dsimp only [loopAct]
      split <;> exact ⟨rfl, rfl⟩
  | waitFailed => exact ⟨rfl, rfl⟩
  | keepalive now => cases h
  | silence now =>
      dsimp only [loopAct]
      split <;> exact ⟨rfl, rfl⟩
  | rekey sendSeq p =>
      refine ⟨rfl, List.filterMap_eq_nil_iff.mpr fun e he => ?_⟩
      rcases List.mem_append.mp he with he | he
      · obtain ⟨event, _, rfl⟩ := List.mem_map.mp he
        rfl
      · obtain ⟨new, _, rfl⟩ := List.mem_map.mp he
        rfl
  | tun => exact ⟨rfl, rfl⟩
  | drain datagrams signalled drained =>
      have hnone : keepaliveTimes
          (run (drainStep na order) s.receiver (datagrams.take maxBurst)).2 = [] := by
        refine List.filterMap_eq_nil_iff.mpr fun e he => ?_
        obtain ⟨now, event, rfl⟩ := drain_inbound na order s.receiver _ e he
        rfl
      dsimp only [loopAct]
      split
      · rw [keepaliveTimes_append, hnone]
        exact ⟨rfl, rfl⟩
      split <;> exact ⟨rfl, hnone⟩
  | sweep now clock =>
      dsimp only [loopAct]
      split <;> exact ⟨rfl, rfl⟩

theorem run_keepalive_kept (acts : List LoopAct)
    (hacts : ∀ act ∈ acts, act.isKeepalive = false) :
    (run (loopStep na order interval) s acts).1.lastKeepalive = s.lastKeepalive ∧
      keepaliveTimes (run (loopStep na order interval) s acts).2 = [] := by
  induction acts generalizing s with
  | nil => exact ⟨rfl, rfl⟩
  | cons act rest ih =>
      obtain ⟨hlast, hnone⟩ := @ih (loopStep na order interval s act).1 fun other hother =>
        hacts other (List.mem_cons_of_mem act hother)
      rw [Machine.run]
      dsimp only
      rw [keepaliveTimes_append, hlast, hnone, List.append_nil]
      cases hended : s.ended with
      | none =>
          rw [loopStep_of_running hended]
          exact loopAct_keepalive_kept (hacts act List.mem_cons_self)
      | some how =>
          rw [loopStep_of_ended hended]
          exact ⟨rfl, rfl⟩

/-- One pass: it sends a keepalive, 25 seconds or more after the last one, or none, and
then less than 25 seconds have gone by. -/
theorem pass_keepalive (hnone : s.ended = none) (p : LoopPass) :
    let after := run (loopStep na order interval) s p.acts
    (keepaliveTimes after.2 = [] ∧ after.1.lastKeepalive = s.lastKeepalive ∧
        (after.1.ended = none → ∀ now ∈ p.reading, now < s.lastKeepalive + loopKeepaliveSec)) ∨
      (p.reading = some p.now ∧ keepaliveTimes after.2 = [p.now] ∧
        after.1.lastKeepalive = p.now ∧
        s.lastKeepalive + loopKeepaliveSec ≤ p.now) := by
  cases hrequested : s.disconnectRequested || p.signalled with
  | true =>
      rw [run_acts_requested hnone hrequested]
      exact .inl ⟨rfl, rfl, nofun⟩
  | false =>
      rw [run_acts_unrequested hnone hrequested]
      unfold LoopPass.acts LoopPass.reading
      cases p.wait with
      | interrupted => exact .inl ⟨rfl, rfl, nofun⟩
      | failed =>
          obtain ⟨hlast, htimes⟩ := @run_keepalive_kept na order interval s [.waitFailed]
            (by simp [LoopAct.isKeepalive])
          exact .inl ⟨htimes, hlast, nofun⟩
      | ready events =>
          have hrest : ∀ act ∈ LoopAct.silence p.now :: .rekey p.sendSeq p.rekey ::
              (events.map Ready.act ++ [.sweep p.now p.swept]), act.isKeepalive = false := by
            intro act hact
            simp only [List.mem_cons, List.mem_append, List.mem_map, List.not_mem_nil,
              or_false] at hact
            rcases hact with rfl | rfl | ⟨event, _, rfl⟩ | rfl
            · rfl
            · rfl
            · cases event <;> rfl
            · rfl
          obtain ⟨hlast, htimes⟩ := @run_keepalive_kept na order interval
            (loopStep na order interval s (.keepalive p.now)).1 _ hrest
          dsimp only [List.tail_cons, List.cons_append, List.nil_append]
          rw [Machine.run]
          dsimp only
          rw [keepaliveTimes_append, hlast, htimes, List.append_nil,
            loopStep_of_running hnone, loopAct]
          by_cases hdue : loopKeepaliveSec ≤ p.now - s.lastKeepalive
          · rw [if_pos hdue]
            exact .inr ⟨rfl, rfl, rfl, by omega⟩
          · rw [if_neg hdue]
            refine .inl ⟨rfl, rfl, fun _ now hnow => ?_⟩
            cases hnow
            omega

/-- From a state whose last keepalive is not too old at the last reading. -/
theorem keepalive_chain {gap last : Int} (passes : List LoopPass)
    (hlast : last < s.lastKeepalive + loopKeepaliveSec) (hsteady : Steady gap last passes) :
    let final := eventLoopRun na order interval s passes
    List.IsChain (fun a b => a + loopKeepaliveSec ≤ b ∧ b < a + loopKeepaliveSec + gap)
        (s.lastKeepalive :: keepaliveTimes final.2) ∧
      (final.1.ended = none →
        lastReading last passes < final.1.lastKeepalive + loopKeepaliveSec) := by
  induction passes generalizing s last with
  | nil => exact ⟨.singleton _, fun _ => hlast⟩
  | cons p rest ih =>
      obtain ⟨hreading, hrest⟩ := hsteady.cons
      rw [eventLoopRun_cons, lastReading_cons]
      dsimp only
      rw [keepaliveTimes_append]
      cases hended : s.ended with
      | some how =>
          rw [run_of_ended hended, eventLoopRun, run_of_ended hended]
          exact ⟨.singleton _, fun hnone => by rw [hended] at hnone; cases hnone⟩
      | none =>
          rcases @pass_keepalive na order interval s hended p with
            ⟨htimes, hkept, hopen⟩ | ⟨hnow, htimes, hkept, hdue⟩
          · rw [htimes, List.nil_append, ← hkept]
            cases hafter : (run (loopStep na order interval) s p.acts).1.ended with
            | some how =>
                rw [eventLoopRun, run_of_ended hafter]
                exact ⟨.singleton _, fun hnone => by rw [hafter] at hnone; cases hnone⟩
            | none =>
                refine ih ?_ hrest
                rw [hkept]
                cases hnow : p.reading with
                | none => exact hlast
                | some now => exact hopen hafter now hnow
          · have hlate := (hreading p.now hnow).2
            rw [hnow, Option.getD_some] at hrest ⊢
            rw [htimes]
            have hsent : p.now < (run (loopStep na order interval) s p.acts).1.lastKeepalive +
                loopKeepaliveSec := by
              rw [hkept]
              exact lt_add_of_pos_right _ (by decide)
            have hchain := ih hsent hrest
            rw [hkept] at hchain
            refine ⟨.cons_cons ⟨hdue, ?_⟩ hchain.1, hchain.2⟩
            exact hlate.trans_lt (add_lt_add_left hlast gap)

end Keepalive

/-- Over every run whose readings of the clock do not go back and are at most `gap` apart:
from the start of the loop or one keepalive to the next there are at least 25 seconds and
less than `25 + gap`, and while the loop runs the last keepalive is less than 25 seconds
older than the last reading. -/
theorem keepalive_cadence (na : Sodium) (order : Endian) (interval gap : Int)
    (session : ClientSession) (opened : Int) (passes : List LoopPass)
    (hsteady : Steady gap opened passes) :
    let final := eventLoopRun na order interval (.start session opened) passes
    List.IsChain (fun a b => a + loopKeepaliveSec ≤ b ∧ b < a + loopKeepaliveSec + gap)
        (opened :: keepaliveTimes final.2) ∧
      (final.1.ended = none →
        lastReading opened passes < final.1.lastKeepalive + loopKeepaliveSec) := by
  have hstart : opened < (EventLoop.start session opened).lastKeepalive + loopKeepaliveSec :=
    lt_add_of_pos_right _ (by decide)
  exact keepalive_chain passes hstart hsteady

/-- Passes that are at most 16 seconds apart. -/
def slowPasses : List LoopPass := [10, 24, 26, 42, 52].map quietPass

/-- Keepalives are sent after 26 and after 52 seconds. -/
theorem keepalive_cadence_slow :
    let final := eventLoopRun Sodium.xorSodium .little 1000 (.start zeroSession 0) slowPasses
    keepaliveTimes final.2 = [26, 52] ∧
      List.IsChain (fun a b => a + loopKeepaliveSec ≤ b ∧ b < a + loopKeepaliveSec + 16)
        (0 :: keepaliveTimes final.2) ∧
      (final.1.ended = none →
        lastReading 0 slowPasses < final.1.lastKeepalive + loopKeepaliveSec) :=
  ⟨by decide +kernel, keepalive_cadence Sodium.xorSodium .little 1000 16 zeroSession 0
    slowPasses (by decide)⟩

/-! ## Sweeps -/

/-- A sweep at this time would drop nothing. -/
def Younger (bound : Int) (table : ReassemblyTable) : Prop :=
  ∀ k, (table k).isActive = true → bound ≤ (table k).lastActivity + reassemblyTimeout

section Younger

variable {bound : Int} {table : ReassemblyTable}

theorem Younger.update (h : Younger bound table) {k : Fin maxReassemblyEntries}
    {entry : ReassemblyEntry}
    (hentry : entry.isActive = true → bound ≤ entry.lastActivity + reassemblyTimeout) :
    Younger bound (Function.update table k entry) := by
  intro j hactive
  by_cases hj : j = k
  · subst hj
    rw [Function.update_self] at hactive ⊢
    exact hentry hactive
  · rw [Function.update_of_ne hj] at hactive ⊢
    exact h j hactive

/-- Filing a fragment touches one entry, and that entry is as young as the fragment. -/
theorem Younger.stored (h : Younger bound table) {now : Int} (hnow : bound ≤ now)
    (header : TunnelHeader) (payload : Bytes) (payloadLen : Nat) :
    Younger bound ((storeFragment now header payload payloadLen table).tableAfter table) := by
  have hyoung : bound ≤ now + reassemblyTimeout :=
    hnow.trans (le_add_of_nonneg_right (by decide))
  rcases storeFragment_cases now header payload payloadLen table with
    ⟨_, hfull⟩ | ⟨i, next, hfind, hfiled⟩
  · rw [hfull]
    exact h
  have hself : (next i).lastActivity = now := by
    rw [findOrCreateEntry_self hfind]
    split <;> rfl
  have hnext : Younger bound next := by
    intro j hactive
    by_cases hj : j = i
    · rw [hj, hself]
      exact hyoung
    · rw [findOrCreateEntry_other hfind hj] at hactive ⊢
      exact h j hactive
  generalize storeFragment now header payload payloadLen table = outcome at hfiled ⊢
  cases hfiled with
  | oversize hlarge => exact hnext.update nofun
  | written hlen hfits hlast hfull => exact hnext.update nofun
  | stored hlen hfits hpart =>
      refine hnext.update fun _ => ?_
      exact hself.symm ▸ hyoung
  | badCopy hsmall hbad => exact h

theorem Younger.sweep {now clock : Int} (hclock : now ≤ clock) :
    Younger now (sweepReassemblyTable clock table) := by
  intro k hactive
  obtain ⟨hsame, hyoung⟩ := sweep_of_active hactive
  rw [ReassemblyEntry.timedOut, decide_eq_false_iff_not] at hyoung
  rw [hsame]
  omega

end Younger

section Sweep

variable {na : Sodium} {order : Endian} {interval : Int} {s : EventLoop} {bound : Int}

/-- A fragment is filed whatever its header says. -/
theorem udpPlain_fragment {stack : Nat → UInt8} {now : Int} {plain : Bytes}
    {table : ReassemblyTable} {outcome : FragmentOutcome}
    (h : udpPlain order stack now plain table = .fragment outcome) :
    ∃ header payload payloadLen,
      storeFragment now header payload payloadLen table = outcome := by
  unfold udpPlain at h
  split at h
  · cases h
  unfold dispatchPlain at h
  generalize fragmentPayloadLen plain = payloadLen at h
  dsimp only at h
  split at h
  · cases h
  split at h
  · cases h
  split at h
  · cases h
  · exact ⟨_, _, payloadLen, PlainOutcome.fragment.inj h⟩

theorem udpAccepted_younger {env : UdpEnv} {r : Receiver} (h : Younger bound r.table)
    (hnow : bound ≤ env.now) (plain : Bytes) :
    Younger bound (udpAccepted order env plain r).1.table := by
  unfold udpAccepted
  cases houtcome : udpPlain order env.stack env.now plain r.table with
  | fragment outcome =>
      obtain ⟨header, payload, payloadLen, hstored⟩ := udpPlain_fragment houtcome
      have hyoung := h.stored hnow header payload payloadLen
      rw [hstored] at hyoung
      exact hyoung
  | _ => exact h

theorem drainStep_younger {r : Receiver} (h : Younger bound r.table) {d : UdpEnv × Bytes}
    (hnow : bound ≤ d.1.now) : Younger bound (drainStep na order r d).1.table := by
  unfold drainStep inboundStep
  dsimp only
  split
  · exact h
  rw [handleUdpPacket_eq]
  split
  · exact h
  next plain _ =>
    dsimp only
    split
    · exact h
    · exact udpAccepted_younger (by rw [Receiver.record_table]; exact h) hnow plain

theorem drain_younger {r : Receiver} (h : Younger bound r.table)
    (datagrams : List (UdpEnv × Bytes)) (hnow : ∀ d ∈ datagrams, bound ≤ d.1.now) :
    Younger bound (run (drainStep na order) r datagrams).1.table :=
  run_invariant _ (fun _ d => bound ≤ d.1.now) (fun r => Younger bound r.table)
    (fun _ _ hr hd => drainStep_younger hr hd) r datagrams h
    (Along.of_forall _ (fun d => bound ≤ d.1.now) r datagrams hnow)

/-- It is no sweep, and the datagrams that it reads come after this time. -/
def LoopAct.Reads (bound : Int) : LoopAct → Prop
  | .drain datagrams _ _ => ∀ d ∈ datagrams, bound ≤ d.1.now
  | .sweep _ _ => False
  | _ => True

theorem loopAct_younger (h : Younger s.lastSweep s.receiver.table) {act : LoopAct}
    (hact : act.Reads s.lastSweep) :
    (loopAct na order interval s act).1.lastSweep = s.lastSweep ∧
      Younger s.lastSweep (loopAct na order interval s act).1.receiver.table := by
  cases act with
  | request signalled =>
      dsimp only [loopAct]
      split <;> exact ⟨rfl, h⟩
  | waitFailed => exact ⟨rfl, h⟩
  | keepalive now =>
      dsimp only [loopAct]
      split <;> exact ⟨rfl, h⟩
  | silence now =>
      dsimp only [loopAct]
      split <;> exact ⟨rfl, h⟩
  | rekey sendSeq p => exact ⟨rfl, h⟩
  | tun => exact ⟨rfl, h⟩
  | drain datagrams signalled drained =>
      have hdrained := @drain_younger na order s.lastSweep s.receiver h
        (datagrams.take maxBurst) fun d hd => hact d (List.mem_of_mem_take hd)
      dsimp only [loopAct]
      split
      · exact ⟨rfl, hdrained⟩
      split <;> exact ⟨rfl, hdrained⟩
  | sweep now clock => exact hact.elim

theorem run_younger (h : Younger s.lastSweep s.receiver.table) (acts : List LoopAct)
    (hacts : ∀ act ∈ acts, act.Reads s.lastSweep) :
    (run (loopStep na order interval) s acts).1.lastSweep = s.lastSweep ∧
      Younger s.lastSweep (run (loopStep na order interval) s acts).1.receiver.table := by
  refine run_invariant (loopStep na order interval) (fun _ act => act.Reads s.lastSweep)
    (fun t => t.lastSweep = s.lastSweep ∧ Younger s.lastSweep t.receiver.table)
    (fun t act ht hact => ?_) s acts ⟨rfl, h⟩
    (Along.of_forall _ (fun act => act.Reads s.lastSweep) s acts hacts)
  cases hended : t.ended with
  | none =>
      rw [loopStep_of_running hended, ← ht.1]
      exact loopAct_younger (ht.1.symm ▸ ht.2) (ht.1.symm ▸ hact)
  | some how =>
      rw [loopStep_of_ended hended]
      exact ht

/-- The times at which the datagrams of a pass are handled. -/
def LoopPass.arrivals (p : LoopPass) : List Int :=
  match p.wait with
  | .ready events => events.flatMap fun
      | .tun => []
      | .udp datagrams _ _ => datagrams.map fun d => d.1.now
  | _ => []

/-- What a pass reads later is later. -/
def LoopPass.Timed (p : LoopPass) : Prop :=
  p.now ≤ p.swept ∧ ∀ time ∈ p.arrivals, p.now ≤ time

instance (p : LoopPass) : Decidable p.Timed := inferInstanceAs (Decidable (_ ∧ _))

/-- At the last reading the table has been swept not long ago, and it has been kept since
then. -/
structure Swept (last : Int) (s : EventLoop) : Prop where
  past : s.lastSweep ≤ last
  recent : s.ended = none → last < s.lastSweep + sweepIntervalSec
  young : Younger s.lastSweep s.receiver.table

theorem Swept.kept {last : Int} (h : Swept last s) (acts : List LoopAct)
    (hacts : ∀ act ∈ acts, act.Reads s.lastSweep) :
    Swept last (run (loopStep na order interval) s acts).1 := by
  obtain ⟨hkept, hyoung⟩ := @run_younger na order interval s h.young acts hacts
  refine ⟨?_, fun hnone => ?_, ?_⟩
  · rw [hkept]
    exact h.past
  · rw [hkept]
    refine h.recent ?_
    cases hended : s.ended with
    | none => rfl
    | some how =>
        rw [run_of_ended hended, hended] at hnone
        cases hnone
  · rw [hkept]
    exact hyoung

/-- The sweep at the end of a pass. -/
theorem Swept.sweep {last now clock : Int} (h : Swept last s) (hnow : last ≤ now)
    (hclock : now ≤ clock) :
    Swept now (loopStep na order interval s (.sweep now clock)).1 := by
  cases hended : s.ended with
  | some how =>
      have hstopped : ¬s.ended = none := by
        rw [hended]
        nofun
      rw [loopStep_of_ended hended]
      exact ⟨h.past.trans hnow, fun hnone => absurd hnone hstopped, h.young⟩
  | none =>
      rw [loopStep_of_running hended, loopAct]
      by_cases hdue : sweepIntervalSec ≤ now - s.lastSweep
      · rw [if_pos hdue]
        exact ⟨le_rfl, fun _ => lt_add_of_pos_right _ (by decide), .sweep hclock⟩
      · rw [if_neg hdue]
        exact ⟨h.past.trans hnow, fun _ => sub_lt_iff_lt_add'.mp (not_le.mp hdue), h.young⟩

theorem Swept.pass {last : Int} (h : Swept last s) {p : LoopPass} (htimed : p.Timed)
    (hreading : ∀ now ∈ p.reading, last ≤ now) :
    Swept (p.reading.getD last) (run (loopStep na order interval) s p.acts).1 := by
  unfold LoopPass.reading at hreading ⊢
  obtain ⟨hswept, harrivals⟩ := htimed
  unfold LoopPass.arrivals at harrivals
  unfold LoopPass.acts
  cases hwait : p.wait with
  | interrupted => exact h.kept _ (by simp [LoopAct.Reads])
  | failed => exact h.kept _ (by simp [LoopAct.Reads])
  | ready events =>
      rw [hwait] at hreading harrivals
      have hlast : last ≤ p.now := hreading p.now rfl
      have hbody : ∀ act ∈ LoopAct.request p.signalled :: .keepalive p.now ::
          .silence p.now :: .rekey p.sendSeq p.rekey :: events.map Ready.act,
          act.Reads s.lastSweep := by
        intro act hact
        simp only [List.mem_cons, List.mem_map] at hact
        rcases hact with rfl | rfl | rfl | rfl | ⟨event, hevent, rfl⟩
        · trivial
        · trivial
        · trivial
        · trivial
        cases event with
        | tun => trivial
        | udp datagrams signalled drained =>
            intro d hd
            refine (h.past.trans hlast).trans (harrivals _ ?_)
            exact List.mem_flatMap.mpr ⟨_, hevent, List.mem_map.mpr ⟨d, hd, rfl⟩⟩
      have hsplit : LoopAct.request p.signalled :: ([.keepalive p.now, .silence p.now,
          .rekey p.sendSeq p.rekey] ++ (events.map Ready.act ++ [.sweep p.now p.swept])) =
          (.request p.signalled :: .keepalive p.now :: .silence p.now ::
            .rekey p.sendSeq p.rekey :: events.map Ready.act) ++
              [.sweep p.now p.swept] := rfl
      dsimp only
      rw [hsplit, run_append]
      exact (h.kept _ hbody).sweep hlast hswept

/-- From a state that was swept not long ago. -/
theorem Swept.run {gap last : Int} (h : Swept last s) (passes : List LoopPass)
    (hsteady : Steady gap last passes) (htimed : ∀ p ∈ passes, p.Timed) :
    Swept (lastReading last passes) (eventLoopRun na order interval s passes).1 := by
  induction passes generalizing s last with
  | nil => exact h
  | cons p rest ih =>
      obtain ⟨hreading, hrest⟩ := hsteady.cons
      rw [eventLoopRun_cons, lastReading_cons]
      exact ih (h.pass (htimed p List.mem_cons_self) fun now hnow => (hreading now hnow).1)
        hrest fun q hq => htimed q (List.mem_cons_of_mem p hq)

end Sweep

/-- Over every run whose readings of the clock do not go back, while the loop runs: no
entry of the reassembly table has been without a fragment for 25 seconds at the last
reading. So the fragments of a packet that was lost, and its id, are kept for less than
that, however late a single pass is. -/
theorem stale_fragments_are_dropped (na : Sodium) (order : Endian) (interval gap : Int)
    (session : ClientSession) (opened : Int) (passes : List LoopPass)
    (hsteady : Steady gap opened passes) (htimed : ∀ p ∈ passes, p.Timed) :
    let final := eventLoopRun na order interval (.start session opened) passes
    final.1.ended = none → ∀ k, (final.1.receiver.table k).isActive = true →
      lastReading opened passes <
        (final.1.receiver.table k).lastActivity + reassemblyTimeout + sweepIntervalSec := by
  intro final hnone k hactive
  have hstart : Swept opened (.start session opened) :=
    ⟨le_rfl, fun _ => lt_add_of_pos_right _ (by decide), nofun⟩
  have hswept := @Swept.run na order interval _ gap opened hstart passes hsteady htimed
  exact (hswept.recent hnone).trans_le (add_le_add_left (hswept.young k hactive) _)

section Example

/-- The first fragment of a packet of 100 bytes. -/
def fragmentPacket : Bytes :=
  (protoHeader .little pktTypeData).val ++ zeroSession.sessionId.val ++
    (Sodium.seqBytes 1).val ++ [1, 0, 0, 0, 100, 0, 0, 128] ++ List.replicate 16 0 ++ [7]

/-- The fragment comes after 10 seconds, the others never. -/
def fragmentPasses : List LoopPass := [heardPass 10 fragmentPacket, quietPass 29]

/-- After 29 seconds it is still there, and a pass later it is gone. -/
theorem stale_fragments_are_dropped_late :
    let run := eventLoopRun Sodium.xorSodium .little 1000 (.start zeroSession 0)
    ((run fragmentPasses).1.receiver.table 0).isActive = true ∧
      lastReading 0 fragmentPasses < ((run fragmentPasses).1.receiver.table 0).lastActivity +
        reassemblyTimeout + sweepIntervalSec ∧
      ((run (fragmentPasses ++ [quietPass 35])).1.receiver.table 0).isActive = false := by
  intro run
  have hactive : ((run fragmentPasses).1.receiver.table 0).isActive = true := by
    decide +kernel
  exact ⟨hactive, stale_fragments_are_dropped Sodium.xorSodium .little 1000 19 zeroSession 0
    fragmentPasses (by decide) (by decide) (by decide +kernel) 0 hactive, by decide +kernel⟩

end Example

end Chamlon.Client
