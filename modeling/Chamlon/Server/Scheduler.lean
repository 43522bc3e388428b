import Mathlib.Tactic
import Chamlon.Lib.Heap
import Chamlon.Lib.Machine
import Chamlon.Server.Sharding
import Chamlon.Server.Traffic

/-!
The scheduler that sends what is queued for the sessions. A handshake adds a task with
the session id it has made. The worker of the shard takes the task when it is due, sends,
looks the session up again and puts the task back, or frees it if there is no such
session. It holds the lock of its heap only while it pushes and pops, so handshakes,
expiries and disconnects run between its steps.

Handshakes and the other operations on the table are complete ones.
-/

namespace Chamlon.Server

open Config Memory Machine Queue

structure Timespec where
  sec : Int
  nsec : Int
deriving DecidableEq, Repr

def timespecCompare (a b : Timespec) : Int :=
  if a.sec ≠ b.sec then (if b.sec < a.sec then 1 else -1)
  else if a.nsec ≠ b.nsec then (if b.nsec < a.nsec then 1 else -1)
  else 0

/-- `while (tv_nsec >= 1000000000L)`. -/
def Timespec.normalise (ts : Timespec) : Timespec :=
  if 1000000000 ≤ ts.nsec then ⟨ts.sec + ts.nsec / 1000000000, ts.nsec % 1000000000⟩ else ts

/-- `scheduler_task_t`. -/
structure Task where
  nextRun : Timespec
  sessionId : Octets sessionIdLen
deriving DecidableEq

def taskCompare (a b : Task) : Int := timespecCompare a.nextRun b.nextRun

/-- `priority_queue_t`, with the tasks that its pointers lead to. -/
structure PriorityQueue where
  nodes : List Task
  capacity : Nat

def pqCreate (capacity : Nat) : PriorityQueue := ⟨[], capacity⟩

/-- `pq_push`. Without memory the task is lost. -/
def pqPush (reallocated : Bool) (task : Task) (pq : PriorityQueue) : PriorityQueue :=
  if pq.nodes.length = pq.capacity then
    if !reallocated then pq else ⟨Heap.push taskCompare task pq.nodes, pq.capacity * 2⟩
  else { pq with nodes := Heap.push taskCompare task pq.nodes }

def pqPop (pq : PriorityQueue) : Option (Task × PriorityQueue) :=
  (Heap.pop taskCompare pq.nodes).map fun popped => (popped.1, { pq with nodes := popped.2 })

abbrev numShards : Nat := 4

def shardIndex (sessionId : Octets sessionIdLen) : Fin numShards :=
  Fin.ofNat numShards (firstByte sessionId).toNat

/-- What `scheduler_worker_fn` computes in floating point: the interval of a session in
nanoseconds, how many intervals it is behind and how long so many are. -/
structure Pacing where
  intervalNs : Params → Int
  skipped : Params → Int → Int
  skipNs : Params → Int → Int

/-- `add_mbps_interval_to_timespec`. -/
def addMbpsIntervalToTimespec (pacing : Pacing) (argv : Params) (ts : Timespec) : Timespec :=
  Timespec.normalise { ts with nsec := ts.nsec + pacing.intervalNs argv }

/-- The `next_run` of a task that is put back. -/
def nextRunAfter (pacing : Pacing) (argv : Params) (now last : Timespec) : Timespec :=
  if argv.cbr = 'Y'.toUInt8 then
    let next := addMbpsIntervalToTimespec pacing argv last
    let behindNs := (now.sec - next.sec) * 1000000000 + (now.nsec - next.nsec)
    let skipped := pacing.skipped argv behindNs
    if 0 < behindNs ∧ 0 < skipped then
      let skipNs := pacing.skipNs argv skipped
      Timespec.normalise
        ⟨next.sec + skipNs / 1000000000, next.nsec + skipNs % 1000000000⟩
    else next
  else { now with sec := now.sec + keepaliveIntervalSec }

/-- Where a worker is, behind the step of that name. -/
inductive SchedulerAt where
  | waiting
  | popped (task : Task)
  | sent (task : Task)
  /-- `session_by_id` has returned the slot. -/
  | found (task : Task) (i : Slot)
deriving DecidableEq

/-- The task in the hands of the worker. -/
def SchedulerAt.carries : SchedulerAt → List Task
  | .waiting => []
  | .popped task | .sent task | .found task _ => [task]

structure Scheduler where
  traffic : Traffic
  heaps : Fin numShards → PriorityQueue
  workers : Fin numShards → SchedulerAt

/-- `init_global_scheduler`. -/
def Scheduler.start (initialCapacity : Nat) : Scheduler where
  traffic := .start
  heaps _ := pqCreate
    (if initialCapacity < 128 ∨ 65536 < initialCapacity then 1024 else initialCapacity)
  workers _ := .waiting

/-- The session ids of the tasks of a shard, in its heap or with its worker. -/
def Scheduler.ids (s : Scheduler) (k : Fin numShards) : List (Octets sessionIdLen) :=
  ((s.heaps k).nodes ++ (s.workers k).carries).map (·.sessionId)

inductive SchedulerAct where
  /-- A complete operation on the table. -/
  | table (op : TableOp) (now : Timespec) (allocated reallocated : Bool)
  | outbound (env : SendEnv) (id : UInt16) (buf : Bytes)
  | drain (env : SendEnv)
  /-- `pq_pop` of a task that is due. -/
  | pop (k : Fin numShards) (now : Timespec)
  | executeSend (k : Fin numShards) (env : SendEnv) (now : Int)
  /-- `session_by_id`, and `free` without a session. -/
  | sessionById (k : Fin numShards)
  /-- `pq_push` with the next time. -/
  | push (k : Fin numShards) (now : Timespec) (reallocated : Bool)

inductive SchedulerEvent where
  | server (e : Event)
  | requeued (k : Fin numShards) (task : Task)
  | freed (k : Fin numShards) (task : Task)
deriving DecidableEq

/-- The ids that are passed to `scheduler_add_session`. -/
def scheduledIds (events : List Event) : List (Octets sessionIdLen) :=
  events.filterMap fun | .schedulerAdd sessionId => some sessionId | _ => none

def schedulerAddSession (now : Timespec) (allocated reallocated : Bool)
    (heaps : Fin numShards → PriorityQueue) (sessionId : Octets sessionIdLen) :
    Fin numShards → PriorityQueue :=
  if !allocated then heaps
  else Function.update heaps (shardIndex sessionId)
    (pqPush reallocated ⟨now, sessionId⟩ (heaps (shardIndex sessionId)))

section Machine

variable (aead : Aead) (na : Sodium) (keys : ServerKeys) (order : Endian) (pacing : Pacing)

/-- A step of the worker of shard `k`. -/
def Scheduler.move (s : Scheduler) (k : Fin numShards) (pq : PriorityQueue)
    (place : SchedulerAt) : Scheduler :=
  { s with
    heaps := Function.update s.heaps k pq
    workers := Function.update s.workers k place }

def schedulerStep (s : Scheduler) : SchedulerAct → Scheduler × List SchedulerEvent
  | .table op now allocated reallocated =>
      let result := tableStep na keys order s.traffic.sessions op
      ({ s with
          traffic := ⟨result.1, renewQueues result s.traffic.queues⟩
          heaps := (scheduledIds result.2).foldl
            (schedulerAddSession now allocated reallocated) s.heaps },
        result.2.map .server)
  | .outbound env id buf =>
      ({ s with traffic := (outboundTraffic aead order env id buf s.traffic).1 }, [])
  | .drain env =>
      ({ s with traffic := (trafficStep aead na keys order s.traffic (env, .drain)).1 }, [])
  | .pop k now =>
      match s.workers k, pqPop (s.heaps k) with
      | .waiting, some (task, rest) =>
          if timespecCompare now task.nextRun < 0 then (s, [])
          else (s.move k rest (.popped task), [])
      | _, _ => (s, [])
  | .executeSend k env now =>
      match s.workers k with
      | .popped task =>
          let moved := s.move k (s.heaps k) (.sent task)
          ({ moved with
            traffic := (executeSend aead order env now task.sessionId s.traffic).1 }, [])
      | _ => (s, [])
  | .sessionById k =>
      match s.workers k with
      | .sent task =>
          match sessionById task.sessionId s.traffic.sessions with
          | some i => (s.move k (s.heaps k) (.found task i), [])
          | none => (s.move k (s.heaps k) .waiting, [.freed k task])
      | _ => (s, [])
  | .push k now reallocated =>
      match s.workers k with
      | .found task i =>
          let next := nextRunAfter pacing (s.traffic.sessions i).argv now task.nextRun
          let task := { task with nextRun := next }
          (s.move k (pqPush reallocated task (s.heaps k)) .waiting, [.requeued k task])
      | _ => (s, [])

end Machine

/-- The allocations of the step succeed. -/
def SchedulerAct.Allocates : SchedulerAct → Prop
  | .table op _ allocated reallocated =>
      op.Allocates ∧ allocated = true ∧ reallocated = true
  | .push _ _ reallocated => reallocated = true
  | _ => True

/-! Every id that an operation installs it also passes to the scheduler. -/

section Paired

def Paired (events : List Event) : Prop := scheduledIds events = installedIds events

theorem Paired.append {first second : List Event} (h : Paired first) (h' : Paired second) :
    Paired (first ++ second) := by
  unfold Paired scheduledIds at *
  rw [List.filterMap_append, installedIds_append, h, h']

theorem Paired.emit {events : List Event} {result : Sessions × List Event}
    (h : Paired events) (h' : Paired result.2) : Paired (emit events result).2 :=
  h.append h'

/-- Events of other kinds. -/
theorem Paired.of_none {events : List Event}
    (h : ∀ e ∈ events, (∀ id, e ≠ .schedulerAdd id) ∧ ∀ i id, e ≠ .installed i id) :
    Paired events := by
  have hscheduled : scheduledIds events = [] := by
    refine List.filterMap_eq_nil_iff.mpr fun e he => ?_
    split
    next id => exact absurd rfl ((h _ he).1 id)
    next => rfl
  have hinstalled : installedIds events = [] := by
    refine List.filterMap_eq_nil_iff.mpr fun e he => ?_
    split
    next i id => exact absurd rfl ((h _ he).2 i id)
    next => rfl
  exact hscheduled.trans hinstalled.symm

theorem freeSession_paired (i : Slot) (sessions : Sessions) :
    Paired (freeSession i sessions).2 := by
  unfold freeSession
  split
  · rfl
  · rfl

theorem supersedeOld_events (i : Slot) (src : SockAddr) (sessions : Sessions) :
    (supersedeOld i src sessions).2 = [] ∨
      (supersedeOld i src sessions).2 = [.connectionClosed] := by
  unfold supersedeOld
  split
  · exact Or.inr rfl
  · exact Or.inl rfl

theorem activateSlot_paired (env : Env) (src : SockAddr) (i : Slot)
    (secrets : Sodium.SessionSecrets) (msg2 : Bytes) (sessions : Sessions)
    (houtq : env.outqAllocated = true) :
    Paired (activateSlot env src i secrets msg2 sessions).2 := by
  have hclosed := supersedeOld_events i src
    (Function.update sessions i ((sessions i).activate secrets))
  unfold activateSlot
  dsimp only
  generalize supersedeOld i src
    (Function.update sessions i ((sessions i).activate secrets)) = superseded at hclosed ⊢
  have hopened : Paired (.installed i secrets.sessionId :: superseded.2 ++
      [.schedulerAdd secrets.sessionId]) := by
    rcases hclosed with hclosed | hclosed
    · rw [hclosed]
      rfl
    · rw [hclosed]
      rfl
  rw [houtq, if_neg (by decide), emit_snd, emit_snd, ← List.append_assoc]
  refine hopened.append ?_
  split
  · exact freeSession_paired i _
  · rfl

theorem handleMsg1_paired (na : Sodium) (keys : ServerKeys) (order : Endian) (env : Env)
    (random : Ephemeral) (msg1 : Bytes) (src : SockAddr) (sessions : Sessions)
    (houtq : env.outqAllocated = true) :
    Paired (handleMsg1 na keys order env random msg1 src sessions).2 := by
  unfold handleMsg1
  split
  · rfl
  refine Paired.emit rfl ?_
  cases env.handshakeVerdict with
  | blacklisted => rfl
  | exceeded => rfl
  | ok =>
      dsimp only
      split
      · rfl
      cases allocateSession sessions with
      | none => rfl
      | some found =>
          rcases msg1InSlot_cases na keys order env random msg1 src found.1 found.2 with
            hfailed | ⟨sig, secrets, _, _, hopened⟩
          · dsimp only
            rw [hfailed]
            exact freeSession_paired found.1 _
          · dsimp only
            rw [hopened]
            exact activateSlot_paired env src found.1 secrets _ _ houtq

theorem handleRehandshakeMsg1_paired (na : Sodium) (keys : ServerKeys) (order : Endian)
    (env : Env) (msg1 : Bytes) (src : SockAddr) (sessions : Sessions)
    (houtq : env.outqAllocated = true) :
    Paired (handleRehandshakeMsg1 na keys order env msg1 src sessions).2 := by
  rcases handleRehandshakeMsg1_cases na keys order env msg1 src sessions with
    hignored | ⟨random, hfirst⟩ | ⟨i, sig, secrets, _, _, _, hrekeyed⟩
  · rw [hignored]
    rfl
  · rw [hfirst]
    exact handleMsg1_paired na keys order env random msg1 src sessions houtq
  · rw [hrekeyed]
    refine Paired.append rfl ?_
    split
    · rfl
    · rfl

theorem inboundAccepted_paired (order : Endian) (env : Env) (i : Slot) (plain : Bytes)
    (sessions : Sessions) : Paired (inboundAccepted order env i plain sessions).2 := by
  rcases inboundAccepted_cases order env i plain sessions with
    hfreed | ⟨_, _, events, _, hwritten, hevents⟩
  · rw [hfreed]
    exact freeSession_paired i sessions
  · rw [hwritten]
    refine Paired.of_none fun e he => ?_
    rcases hevents e he with ⟨bytes, length, hwrite⟩ | hbad
    · rw [hwrite]
      exact ⟨fun _ h => (by cases h), fun _ _ h => (by cases h)⟩
    · rw [hbad]
      exact ⟨fun _ h => (by cases h), fun _ _ h => (by cases h)⟩

theorem inboundData_paired (na : Sodium) (order : Endian) (env : Env) (buf : Bytes)
    (sessions : Sessions) : Paired (inboundData na order env buf sessions).2 := by
  unfold inboundData
  dsimp only
  generalize (buf.length + 2 ^ 64 - dataHeaderLen) % 2 ^ 64 = cipherLen
  split
  · rfl
  next i _ =>
  split
  · rfl
  split
  · rfl
  split
  · rfl
  next plain _ =>
  split
  · rfl
  · exact Paired.emit rfl (inboundAccepted_paired order env i plain _)

theorem handleInboundUdp_paired (na : Sodium) (keys : ServerKeys) (order : Endian)
    (env : Env) (src : SockAddr) (buf : Bytes) (sessions : Sessions)
    (houtq : env.outqAllocated = true) :
    Paired (handleInboundUdp na keys order env src buf sessions).2 := by
  unfold handleInboundUdp
  split
  · rfl
  split
  · rfl
  split
  · rfl
  split
  · rfl
  refine Paired.emit ?_ ?_
  · split
    · rfl
    · rfl
  split
  · split
    · split
      · exact handleRehandshakeMsg1_paired na keys order env buf src sessions houtq
      · exact handleMsg1_paired na keys order env env.random buf src sessions houtq
    · rfl
  · exact Paired.emit rfl (inboundData_paired na order env buf sessions)

theorem performMaintenance_paired (now : Int) (sessions : Sessions) :
    Paired (performMaintenance now sessions).2 := by
  refine Paired.of_none fun e he => ?_
  rcases performMaintenance_mem he with hclosed | ⟨i, hsent⟩
  · rw [hclosed]
    exact ⟨fun _ h => (by cases h), fun _ _ h => (by cases h)⟩
  · rw [hsent]
    exact ⟨fun _ h => (by cases h), fun _ _ h => (by cases h)⟩

theorem forceClose_run_paired (sessions : Sessions) (slots : List Slot) :
    Paired (run forceClose sessions slots).2 := by
  refine run_history forceClose (fun _ _ => True) (fun past _ => Paired past)
    (fun past after i h _ => h.append ?_) [] sessions slots rfl
    (Along.of_forall _ (fun _ => True) _ _ fun _ _ => trivial)
  unfold forceClose
  split
  · exact freeSession_paired i after
  · rfl

/-- When allocations succeed, an operation installs and schedules the same ids. -/
theorem tableStep_paired (na : Sodium) (keys : ServerKeys) (order : Endian)
    (sessions : Sessions) (op : TableOp) (hmalloc : op.Allocates) :
    Paired (tableStep na keys order sessions op).2 := by
  cases op with
  | server op =>
      cases op with
      | datagram env src buf =>
          exact handleInboundUdp_paired na keys order env src buf sessions hmalloc
      | free i => exact freeSession_paired i sessions
      | maintenance now => exact performMaintenance_paired now sessions
  | shutdown =>
      rw [tableStep_shutdown]
      exact forceClose_run_paired sessions (List.finRange maxClients)

end Paired

section Heaps

theorem pqPush_nodes (task : Task) (pq : PriorityQueue) :
    (pqPush true task pq).nodes.Perm (task :: pq.nodes) := by
  unfold pqPush
  split
  · exact Heap.push_perm task pq.nodes
  · exact Heap.push_perm task pq.nodes

theorem pqPop_nodes {pq rest : PriorityQueue} {task : Task}
    (h : pqPop pq = some (task, rest)) : pq.nodes.Perm (task :: rest.nodes) := by
  obtain ⟨popped, hpopped, hrest⟩ := Option.map_eq_some_iff.mp h
  cases hrest
  exact Heap.pop_perm hpopped

/-- The ids in a heap. -/
def PriorityQueue.ids (pq : PriorityQueue) : List (Octets sessionIdLen) :=
  pq.nodes.map (·.sessionId)

theorem schedulerAddSession_ids (now : Timespec) (heaps : Fin numShards → PriorityQueue)
    (id : Octets sessionIdLen) (k : Fin numShards) :
    (schedulerAddSession now true true heaps id k).ids.Perm
      ([id].filter (shardIndex · = k) ++ (heaps k).ids) := by
  unfold schedulerAddSession PriorityQueue.ids
  rw [if_neg (by decide)]
  by_cases hk : shardIndex id = k
  · rw [← hk, Function.update_self, List.filter_cons_of_pos (by simp), List.filter_nil]
    exact (pqPush_nodes ⟨now, id⟩ (heaps (shardIndex id))).map (·.sessionId)
  · rw [Function.update_of_ne (Ne.symm hk), List.filter_cons_of_neg (by simpa using hk),
      List.filter_nil]
    exact .refl _

/-- Each id gets its task in its own shard. -/
theorem schedulerAddSessions_ids (now : Timespec) (ids : List (Octets sessionIdLen))
    (heaps : Fin numShards → PriorityQueue) (k : Fin numShards) :
    (ids.foldl (schedulerAddSession now true true) heaps k).ids.Perm
      (ids.filter (shardIndex · = k) ++ (heaps k).ids) := by
  induction ids generalizing heaps with
  | nil => exact .refl _
  | cons id rest ih =>
      have hfirst := schedulerAddSession_ids now heaps id k
      have hsplit : (id :: rest).filter (shardIndex · = k) =
          [id].filter (shardIndex · = k) ++ rest.filter (shardIndex · = k) := by
        rw [← List.filter_append]
        rfl
      rw [List.foldl_cons, hsplit]
      refine (ih (schedulerAddSession now true true heaps id)).trans ?_
      refine (hfirst.append_left _).trans ?_
      rw [← List.append_assoc]
      exact List.perm_append_comm.append_right _

end Heaps

/-- No session has the id. -/
def Inactive (sessions : Sessions) (id : Octets sessionIdLen) : Prop :=
  ∀ i, (sessions i).active = true → (sessions i).sessionId ≠ id

instance (sessions : Sessions) (id : Octets sessionIdLen) :
    Decidable (Inactive sessions id) :=
  inferInstanceAs (Decidable (∀ _, _ → _))

theorem sessionById_eq_none_iff {id : Octets sessionIdLen} {sessions : Sessions} :
    sessionById id sessions = none ↔ Inactive sessions id := by
  unfold sessionById Inactive
  rw [Fin.find?_eq_none_iff]
  refine forall_congr' fun i => ?_
  rw [Bool.and_eq_false_imp, beq_eq_false_iff_ne]

/-- The id of a task whose session `session_by_id` has found. -/
def SchedulerAt.looked : SchedulerAt → Option (Octets sessionIdLen)
  | .found task _ => some task.sessionId
  | _ => none

/-- What a step does to the sessions and to the tasks. -/
inductive SchedulerEffect (s : Scheduler) : Scheduler × List SchedulerEvent → Prop where
  | table {after : Scheduler} (result : Sessions × List Event)
      (heffect : Effect s.traffic.sessions result)
      (hsessions : after.traffic.sessions = result.1)
      (hworkers : after.workers = s.workers)
      (hids : ∀ k, (after.ids k).Perm
        ((installedIds result.2).filter (shardIndex · = k) ++ s.ids k)) :
      SchedulerEffect s (after, result.2.map .server)
  | quiet {after : Scheduler}
      (hsame : ∀ j, SameSession (s.traffic.sessions j) (after.traffic.sessions j))
      (hids : ∀ k, (after.ids k).Perm (s.ids k))
      (hlooked : ∀ k id, (after.workers k).looked = some id →
        (s.workers k).looked = some id ∨ ¬Inactive s.traffic.sessions id) :
      SchedulerEffect s (after, [])
  | requeue {after : Scheduler} (k : Fin numShards) (task : Task) (i : Slot)
      (next : Timespec) (hplace : s.workers k = .found task i)
      (htraffic : after.traffic = s.traffic)
      (hworkers : after.workers = Function.update s.workers k .waiting)
      (hids : ∀ k, (after.ids k).Perm (s.ids k)) :
      SchedulerEffect s (after, [.requeued k { task with nextRun := next }])
  | free (k : Fin numShards) (task : Task) (hplace : s.workers k = .sent task)
      (hinactive : Inactive s.traffic.sessions task.sessionId) :
      SchedulerEffect s (s.move k (s.heaps k) .waiting, [.freed k task])

section Effects

variable {s : Scheduler} {k : Fin numShards}

theorem Scheduler.ids_eq (s : Scheduler) (k : Fin numShards) :
    s.ids k = (s.heaps k).ids ++ (s.workers k).carries.map (·.sessionId) :=
  List.map_append

theorem Scheduler.move_ids_self (s : Scheduler) (k : Fin numShards) (pq : PriorityQueue)
    (place : SchedulerAt) :
    (s.move k pq place).ids k = pq.ids ++ place.carries.map (·.sessionId) := by
  rw [Scheduler.ids_eq]
  dsimp only [Scheduler.move]
  rw [Function.update_self, Function.update_self]

theorem Scheduler.move_ids_of_ne (s : Scheduler) {j k : Fin numShards} (h : j ≠ k)
    (pq : PriorityQueue) (place : SchedulerAt) : (s.move k pq place).ids j = s.ids j := by
  rw [Scheduler.ids_eq, Scheduler.ids_eq]
  dsimp only [Scheduler.move]
  rw [Function.update_of_ne h, Function.update_of_ne h]

/-- A worker moves its tasks about. -/
theorem Scheduler.move_ids_perm {pq : PriorityQueue} {place : SchedulerAt}
    (h : (pq.ids ++ place.carries.map (·.sessionId)).Perm (s.ids k)) (j : Fin numShards) :
    ((s.move k pq place).ids j).Perm (s.ids j) := by
  by_cases hj : j = k
  · rw [hj, Scheduler.move_ids_self]
    exact h
  · rw [Scheduler.move_ids_of_ne s hj]

theorem Scheduler.move_looked (pq : PriorityQueue) {place : SchedulerAt}
    (h : ∀ id, place.looked = some id → ¬Inactive s.traffic.sessions id) (j : Fin numShards)
    (id : Octets sessionIdLen) (hlooked : ((s.move k pq place).workers j).looked = some id) :
    (s.workers j).looked = some id ∨ ¬Inactive s.traffic.sessions id := by
  dsimp only [Scheduler.move] at hlooked
  by_cases hj : j = k
  · rw [hj, Function.update_self] at hlooked
    exact Or.inr (h id hlooked)
  · rw [Function.update_of_ne hj] at hlooked
    exact Or.inl hlooked

theorem SchedulerEffect.none (s : Scheduler) : SchedulerEffect s (s, []) :=
  .quiet (fun _ => .refl _) (fun _ => .refl _) fun _ _ h => Or.inl h

variable (aead : Aead) (na : Sodium) (keys : ServerKeys) (order : Endian) (pacing : Pacing)

theorem schedulerStep_effect (s : Scheduler) (act : SchedulerAct)
    (hmalloc : act.Allocates) :
    SchedulerEffect s (schedulerStep aead na keys order pacing s act) := by
  cases act with
  | table op now allocated reallocated =>
      obtain ⟨hop, rfl, rfl⟩ := hmalloc
      have hpaired := tableStep_paired na keys order s.traffic.sessions op hop
      have heffect := tableStep_effect na keys order s.traffic.sessions op
      unfold schedulerStep
      dsimp only
      generalize tableStep na keys order s.traffic.sessions op = result at hpaired heffect ⊢
      refine .table result heffect rfl rfl fun k => ?_
      rw [Scheduler.ids_eq, Scheduler.ids_eq, ← List.append_assoc, ← hpaired]
      exact (schedulerAddSessions_ids now (scheduledIds result.2) s.heaps k).append_right _
  | outbound env id buf =>
      exact .quiet
        (fun j => (outboundTraffic_sends aead order env s.traffic j id buf).sameSession)
        (fun _ => .refl _) fun _ _ h => Or.inl h
  | drain env =>
      exact .quiet (drain_same s.traffic.sessions) (fun _ => .refl _) fun _ _ h => Or.inl h
  | pop k now =>
      unfold schedulerStep
      dsimp only
      split
      next task rest hwaiting hpopped =>
        split
        · exact .none s
        refine .quiet (fun _ => .refl _) (Scheduler.move_ids_perm ?_)
          (Scheduler.move_looked rest fun id h => by cases h)
        rw [Scheduler.ids_eq, hwaiting]
        have hnodes : (s.heaps k).ids.Perm (task.sessionId :: rest.ids) :=
          (pqPop_nodes hpopped).map Task.sessionId
        refine (List.perm_append_singleton task.sessionId rest.ids).trans ?_
        rw [SchedulerAt.carries, List.map_nil, List.append_nil]
        exact hnodes.symm
      next => exact .none s
  | executeSend k env now =>
      unfold schedulerStep
      dsimp only
      split
      next task hpopped =>
        have hsame (j : Slot) :=
          (executeSend_sends aead order env s.traffic j now task.sessionId).sameSession
        generalize (executeSend aead order env now task.sessionId s.traffic).1 = traffic
          at hsame ⊢
        have hids : ∀ j, ((s.move k (s.heaps k) (.sent task)).ids j).Perm (s.ids j) := by
          refine Scheduler.move_ids_perm ?_
          rw [Scheduler.ids_eq, hpopped]
          exact .refl _
        exact .quiet hsame hids (Scheduler.move_looked (s.heaps k) fun id h => by cases h)
      next => exact .none s
  | sessionById k =>
      unfold schedulerStep
      dsimp only
      split
      next task hsent =>
        split
        next i hfound =>
          refine .quiet (fun _ => .refl _) (Scheduler.move_ids_perm ?_)
            (Scheduler.move_looked (s.heaps k) fun id h hinactive => ?_)
          · rw [Scheduler.ids_eq, hsent]
            exact .refl _
          · cases h
            rw [sessionById_eq_none_iff.mpr hinactive] at hfound
            cases hfound
        next hnone => exact .free k task hsent (sessionById_eq_none_iff.mp hnone)
      next => exact .none s
  | push k now reallocated =>
      unfold schedulerStep
      dsimp only
      split
      next task i hfound =>
        have hrealloc : reallocated = true := hmalloc
        rw [hrealloc]
        refine .requeue k task i _ hfound rfl rfl (Scheduler.move_ids_perm ?_)
        rw [Scheduler.ids_eq, hfound, SchedulerAt.carries, List.map_nil, List.append_nil]
        refine ((pqPush_nodes _ (s.heaps k)).map (·.sessionId)).trans ?_
        exact (List.perm_append_singleton task.sessionId (s.heaps k).ids).symm
      next => exact .none s

end Effects

/-- The events of the operations on the table. -/
def serverEvents (events : List SchedulerEvent) : List Event :=
  events.filterMap fun | .server e => some e | _ => none

@[simp] theorem serverEvents_append (first second : List SchedulerEvent) :
    serverEvents (first ++ second) = serverEvents first ++ serverEvents second :=
  List.filterMap_append

@[simp] theorem serverEvents_map (events : List Event) :
    serverEvents (events.map .server) = events := by
  unfold serverEvents
  rw [List.filterMap_map]
  exact List.filterMap_some

/-- The session ids that the handshakes of a run have made. -/
def madeIds (events : List SchedulerEvent) : List (Octets sessionIdLen) :=
  installedIds (serverEvents events)

@[simp] theorem madeIds_append (first second : List SchedulerEvent) :
    madeIds (first ++ second) = madeIds first ++ madeIds second := by
  unfold madeIds
  rw [serverEvents_append, installedIds_append]

/-- No shard has two tasks of one id, every task is in the shard of its id, and every
session has its task. -/
structure Scheduled (past : List SchedulerEvent) (s : Scheduler) : Prop where
  nodup : ∀ k, (s.ids k).Nodup
  placed : ∀ k, ∀ id ∈ s.ids k, shardIndex id = k
  known : ∀ k, ∀ id ∈ s.ids k, id ∈ madeIds past
  issued : ∀ i, (s.traffic.sessions i).active = true →
    (s.traffic.sessions i).sessionId ∈ madeIds past
  present : ∀ i, (s.traffic.sessions i).active = true →
    (s.traffic.sessions i).sessionId ∈ s.ids (shardIndex (s.traffic.sessions i).sessionId)

theorem scheduled_start (initialCapacity : Nat) :
    Scheduled [] (Scheduler.start initialCapacity) where
  nodup _ := List.nodup_nil
  placed _ _ h := absurd h List.not_mem_nil
  known _ _ h := absurd h List.not_mem_nil
  issued _ h := Bool.noConfusion h
  present _ h := Bool.noConfusion h

section Invariant

variable {past events : List SchedulerEvent} {s after : Scheduler}

/-- Tasks only move. -/
theorem Scheduled.keep (h : Scheduled past s)
    (hsame : ∀ j, SameSession (s.traffic.sessions j) (after.traffic.sessions j))
    (hids : ∀ k, (after.ids k).Perm (s.ids k)) (hevents : madeIds events = []) :
    Scheduled (past ++ events) after := by
  have hmade : madeIds (past ++ events) = madeIds past := by
    rw [madeIds_append, hevents, List.append_nil]
  refine ⟨fun k => (hids k).nodup_iff.mpr (h.nodup k), fun k id hid => ?_, fun k id hid => ?_,
    fun i hactive => ?_, fun i hactive => ?_⟩
  · exact h.placed k id ((hids k).mem_iff.mp hid)
  · rw [hmade]
    exact h.known k id ((hids k).mem_iff.mp hid)
  · rw [(hsame i).active] at hactive
    rw [(hsame i).sessionId, hmade]
    exact h.issued i hactive
  · rw [(hsame i).active] at hactive
    rw [(hsame i).sessionId, (hids _).mem_iff]
    exact h.present i hactive

/-- A handshake with a new id adds its task. -/
theorem Scheduled.add (h : Scheduled past s) {result : Sessions × List Event}
    (heffect : Effect s.traffic.sessions result)
    (hsessions : after.traffic.sessions = result.1)
    (hids : ∀ k, (after.ids k).Perm
      ((installedIds result.2).filter (shardIndex · = k) ++ s.ids k))
    (hnew : (madeIds past ++ installedIds result.2).Nodup) :
    Scheduled (past ++ result.2.map .server) after := by
  obtain ⟨_, hadded, hdisjoint⟩ := List.nodup_append.mp hnew
  have hmade : madeIds (past ++ result.2.map .server) =
      madeIds past ++ installedIds result.2 := by
    rw [madeIds_append, madeIds, madeIds, serverEvents_map]
  have hmem : ∀ k id, id ∈ after.ids k ↔
      (id ∈ installedIds result.2 ∧ shardIndex id = k) ∨ id ∈ s.ids k := by
    intro k id
    rw [(hids k).mem_iff, List.mem_append, List.mem_filter, decide_eq_true_eq]
  have hsession : ∀ i, (after.traffic.sessions i).active = true →
      (after.traffic.sessions i).sessionId ∈ installedIds result.2 ∨
        (s.traffic.sessions i).active = true ∧
          (after.traffic.sessions i).sessionId = (s.traffic.sessions i).sessionId := by
    intro i hactive
    rw [hsessions] at hactive ⊢
    by_cases hold : (result.1 i).sessionId ∈ installedIds result.2
    · exact Or.inl hold
    · exact Or.inr (heffect.was hactive hold)
  refine ⟨fun k => ?_, fun k id hid => ?_, fun k id hid => ?_, fun i hactive => ?_,
    fun i hactive => ?_⟩
  · rw [(hids k).nodup_iff, List.nodup_append]
    refine ⟨hadded.filter _, h.nodup k, fun id hid old hold heq => ?_⟩
    exact hdisjoint old (h.known k old hold) id (List.mem_of_mem_filter hid) heq.symm
  · rcases (hmem k id).mp hid with hfresh | hold
    · exact hfresh.2
    · exact h.placed k id hold
  · rw [hmade, List.mem_append]
    rcases (hmem k id).mp hid with hfresh | hold
    · exact Or.inr hfresh.1
    · exact Or.inl (h.known k id hold)
  · rw [hmade, List.mem_append]
    rcases hsession i hactive with hfresh | ⟨hwas, hid⟩
    · exact Or.inr hfresh
    · rw [hid]
      exact Or.inl (h.issued i hwas)
  · rw [hmem]
    rcases hsession i hactive with hfresh | ⟨hwas, hid⟩
    · exact Or.inl ⟨hfresh, rfl⟩
    · rw [hid]
      exact Or.inr (h.present i hwas)

/-- A task without session is freed. -/
theorem Scheduled.drop (h : Scheduled past s) {k : Fin numShards} {task : Task}
    (hplace : s.workers k = .sent task)
    (hinactive : Inactive s.traffic.sessions task.sessionId) :
    Scheduled (past ++ [.freed k task]) (s.move k (s.heaps k) .waiting) := by
  have hmade : madeIds (past ++ [.freed k task]) = madeIds past := by
    rw [madeIds_append]
    exact List.append_nil _
  have hids : s.ids k = (s.move k (s.heaps k) .waiting).ids k ++ [task.sessionId] := by
    rw [Scheduler.move_ids_self, Scheduler.ids_eq, hplace, List.append_assoc]
    rfl
  have hsub : ∀ j, ((s.move k (s.heaps k) .waiting).ids j).Sublist (s.ids j) := by
    intro j
    by_cases hj : j = k
    · rw [hj, hids]
      exact List.sublist_append_left _ _
    · rw [Scheduler.move_ids_of_ne s hj]
  refine ⟨fun j => (h.nodup j).sublist (hsub j), fun j id hid => ?_, fun j id hid => ?_,
    fun i hactive => ?_, fun i hactive => ?_⟩
  · exact h.placed j id ((hsub j).subset hid)
  · rw [hmade]
    exact h.known j id ((hsub j).subset hid)
  · rw [hmade]
    exact h.issued i hactive
  · have hpresent := h.present i hactive
    have hother : (s.traffic.sessions i).sessionId ≠ task.sessionId := hinactive i hactive
    have hstays : ∀ j, (s.traffic.sessions i).sessionId ∈ s.ids j →
        (s.traffic.sessions i).sessionId ∈ (s.move k (s.heaps k) .waiting).ids j := by
      intro j hmem
      by_cases hj : j = k
      · rw [hj, hids, List.mem_append, List.mem_singleton] at hmem
        rw [hj]
        exact hmem.resolve_right hother
      · rw [Scheduler.move_ids_of_ne s hj]
        exact hmem
    exact hstays _ hpresent

theorem Scheduled.step (h : Scheduled past s) {result : Scheduler × List SchedulerEvent}
    (heffect : SchedulerEffect s result) (hnew : (madeIds (past ++ result.2)).Nodup) :
    Scheduled (past ++ result.2) result.1 := by
  cases heffect with
  | table result heffect hsessions hworkers hids =>
      rw [madeIds_append, madeIds, madeIds, serverEvents_map] at hnew
      exact h.add heffect hsessions hids hnew
  | quiet hsame hids hlooked => exact h.keep hsame hids rfl
  | requeue k task i next hplace htraffic hworkers hids =>
      refine h.keep (fun j => ?_) hids rfl
      rw [htraffic]
      exact .refl _
  | free k task hplace hinactive => exact h.drop hplace hinactive

end Invariant

/-- An id whose session has ended does not come back. -/
theorem Inactive.step {past : List SchedulerEvent} {s : Scheduler}
    {id : Octets sessionIdLen} (h : Inactive s.traffic.sessions id)
    (hknown : id ∈ madeIds past) {result : Scheduler × List SchedulerEvent}
    (heffect : SchedulerEffect s result) (hnew : (madeIds (past ++ result.2)).Nodup) :
    Inactive result.1.traffic.sessions id := by
  intro i hactive hid
  cases heffect with
  | table result heffect hsessions hworkers hids =>
      rw [madeIds_append, madeIds, madeIds, serverEvents_map] at hnew
      dsimp only at hactive hid
      rw [hsessions] at hactive hid
      have hold : (result.1 i).sessionId ∉ installedIds result.2 := by
        rw [hid]
        exact fun hmem => (List.nodup_append.mp hnew).2.2 id hknown id hmem rfl
      obtain ⟨hwas, hsame⟩ := heffect.was hactive hold
      exact h i hwas (hsame.symm.trans hid)
  | quiet hsame hids hlooked =>
      dsimp only at hactive hid
      rw [(hsame i).active] at hactive
      rw [(hsame i).sessionId] at hid
      exact h i hactive hid
  | requeue k task j next hplace htraffic hworkers hids =>
      dsimp only at hactive hid
      rw [htraffic] at hactive hid
      exact h i hactive hid
  | free k task hplace hinactive => exact h i hactive hid

/-- A worker has found the session of the id and has not put the task back yet. -/
def Scheduler.LookedUp (s : Scheduler) (id : Octets sessionIdLen) : Prop :=
  (s.workers (shardIndex id)).looked = some id

instance (s : Scheduler) (id : Octets sessionIdLen) : Decidable (s.LookedUp id) :=
  inferInstanceAs (Decidable (_ = _))

def requeuedIds (events : List SchedulerEvent) : List (Octets sessionIdLen) :=
  events.filterMap fun | .requeued _ task => some task.sessionId | _ => none

theorem requeuedIds_map (events : List Event) : requeuedIds (events.map .server) = [] := by
  unfold requeuedIds
  rw [List.filterMap_map]
  exact List.filterMap_eq_nil_iff.mpr fun _ _ => rfl

section Stale

variable {past : List SchedulerEvent} {s after : Scheduler} {id : Octets sessionIdLen}

/-- A worker that waits has nothing in its hands. -/
theorem Scheduler.LookedUp.of_waiting {k : Fin numShards}
    (hworkers : after.workers = Function.update s.workers k .waiting)
    (h : after.LookedUp id) : shardIndex id ≠ k ∧ s.LookedUp id := by
  unfold Scheduler.LookedUp at h ⊢
  rw [hworkers] at h
  by_cases hk : shardIndex id = k
  · rw [hk, Function.update_self] at h
    cases h
  · rw [Function.update_of_ne hk] at h
    exact ⟨hk, h⟩

/-- Of an id without session, a step puts back only what a worker had looked up. -/
theorem SchedulerEffect.requeued_le (h : Scheduled past s)
    (hinactive : Inactive s.traffic.sessions id) {result : Scheduler × List SchedulerEvent}
    (heffect : SchedulerEffect s result) :
    (requeuedIds result.2).count id + (if result.1.LookedUp id then 1 else 0) ≤
      if s.LookedUp id then 1 else 0 := by
  have hmono : ∀ {after : Scheduler}, (after.LookedUp id → s.LookedUp id) →
      0 + (if after.LookedUp id then 1 else 0) ≤ if s.LookedUp id then 1 else 0 := by
    intro after hback
    by_cases hafter : after.LookedUp id
    · rw [if_pos hafter, if_pos (hback hafter)]
    · rw [if_neg hafter]
      exact Nat.zero_le _
  cases heffect with
  | table result heffect hsessions hworkers hids =>
      rw [requeuedIds_map]
      refine hmono fun hlooked => ?_
      unfold Scheduler.LookedUp at hlooked ⊢
      rwa [← hworkers]
  | quiet hsame hids hlooked =>
      exact hmono fun hafter => (hlooked _ id hafter).resolve_right (not_not.mpr hinactive)
  | requeue k task i next hplace htraffic hworkers hids =>
      by_cases hid : task.sessionId = id
      · have hmem : id ∈ s.ids k := by
          rw [Scheduler.ids_eq, hplace, ← hid]
          exact List.mem_append_right _ (List.mem_singleton_self _)
        have hshard : shardIndex id = k := h.placed k id hmem
        have hbefore : s.LookedUp id := by
          unfold Scheduler.LookedUp
          rw [hshard, hplace, ← hid]
          rfl
        rw [if_pos hbefore, if_neg fun hafter => (hafter.of_waiting hworkers).1 hshard]
        exact List.count_le_length
      · have hnone : (requeuedIds [.requeued k { task with nextRun := next }]).count id = 0 :=
          List.count_eq_zero_of_not_mem fun hmem => hid (List.mem_singleton.mp hmem).symm
        rw [hnone]
        exact hmono fun hafter => (hafter.of_waiting hworkers).2
  | free k task hplace hgone =>
      exact hmono fun hafter => (Scheduler.LookedUp.of_waiting rfl hafter).2

variable (aead : Aead) (na : Sodium) (keys : ServerKeys) (order : Endian) (pacing : Pacing)

theorem scheduled_run (initialCapacity : Nat) (acts : List SchedulerAct)
    (hmalloc : ∀ act ∈ acts, act.Allocates)
    (hids : (madeIds (run (schedulerStep aead na keys order pacing)
      (Scheduler.start initialCapacity) acts).2).Nodup) :
    Scheduled (run (schedulerStep aead na keys order pacing)
        (Scheduler.start initialCapacity) acts).2
      (run (schedulerStep aead na keys order pacing)
        (Scheduler.start initialCapacity) acts).1 := by
  refine run_history (schedulerStep aead na keys order pacing) (fun _ act => act.Allocates)
    (fun past s => (madeIds past).Nodup → Scheduled past s)
    (fun past s act h hact hnodup => ?_) [] _ acts
    (fun _ => scheduled_start initialCapacity) (Along.of_forall _ _ _ acts hmalloc) hids
  have hpast : (madeIds past).Nodup := by
    rw [madeIds_append] at hnodup
    exact hnodup.of_append_left
  exact (h hpast).step (schedulerStep_effect aead na keys order pacing s act hact) hnodup

/-- From a state in which the session of an id has ended, no run brings it back or puts
its task back into the heap, unless a worker had already looked it up. -/
theorem stale_run (h : Scheduled past s) (hknown : id ∈ madeIds past)
    (hinactive : Inactive s.traffic.sessions id) (acts : List SchedulerAct)
    (hmalloc : ∀ act ∈ acts, act.Allocates)
    (hids : (madeIds (past ++
      (run (schedulerStep aead na keys order pacing) s acts).2)).Nodup) :
    Inactive (run (schedulerStep aead na keys order pacing) s acts).1.traffic.sessions id ∧
      (requeuedIds (run (schedulerStep aead na keys order pacing) s acts).2).count id ≤
        if s.LookedUp id then 1 else 0 := by
  have hrun := run_history (schedulerStep aead na keys order pacing)
    (fun _ act => act.Allocates)
    (fun events s' => (madeIds (past ++ events)).Nodup →
      Scheduled (past ++ events) s' ∧ Inactive s'.traffic.sessions id ∧
        (requeuedIds events).count id + (if s'.LookedUp id then 1 else 0) ≤
          if s.LookedUp id then 1 else 0)
    (fun events s' act hinv hact hnodup => ?_) [] s acts
    (fun _ => ⟨by rwa [List.append_nil], hinactive, (Nat.zero_add _).le⟩)
    (Along.of_forall _ _ _ acts hmalloc)
  · obtain ⟨_, hgone, hcount⟩ := hrun hids
    rw [List.nil_append] at hcount
    exact ⟨hgone, (Nat.le_add_right _ _).trans hcount⟩
  · have heffect := schedulerStep_effect aead na keys order pacing s' act hact
    rw [← List.append_assoc] at hnodup ⊢
    have hbefore : (madeIds (past ++ events)).Nodup := by
      rw [madeIds_append] at hnodup
      exact hnodup.of_append_left
    obtain ⟨hscheduled, hgone, hcount⟩ := hinv hbefore
    have hmade : id ∈ madeIds (past ++ events) := by
      rw [madeIds_append]
      exact List.mem_append_left _ hknown
    have hstep := heffect.requeued_le hscheduled hgone
    refine ⟨hscheduled.step heffect hnodup, hgone.step hmade heffect hnodup, ?_⟩
    rw [requeuedIds, List.filterMap_append, List.count_append, Nat.add_assoc]
    exact (Nat.add_le_add_left hstep _).trans hcount

end Stale

/-- In every run with allocations that succeed and session ids that differ, after every
part `before` of it: each session has exactly one task with its id, in a heap or in the
hands of a worker, and each task is in the shard of its id. A task whose session has
ended is put back at most once, and only by a worker that had found the session before;
whenever a worker comes to look such an id up it frees the task. -/
theorem one_task_per_session (aead : Aead) (na : Sodium) (keys : ServerKeys)
    (order : Endian) (pacing : Pacing) (initialCapacity : Nat)
    (before later : List SchedulerAct) (hmalloc : ∀ act ∈ before ++ later, act.Allocates)
    (hids : (madeIds (run (schedulerStep aead na keys order pacing)
      (Scheduler.start initialCapacity) (before ++ later)).2).Nodup) :
    let step := schedulerStep aead na keys order pacing
    let s := (run step (Scheduler.start initialCapacity) before).1
    let final := run step s later
    (∀ i, (s.traffic.sessions i).active = true →
      ∑ k, (s.ids k).count (s.traffic.sessions i).sessionId = 1) ∧
    (∀ k, ∀ id ∈ s.ids k, k.val = (firstByte id).toNat % 4) ∧
    ∀ k, ∀ id ∈ s.ids k, Inactive s.traffic.sessions id →
      (requeuedIds final.2).count id ≤ (if s.LookedUp id then 1 else 0) ∧
      ∀ j task, final.1.workers j = .sent task → task.sessionId = id →
        step final.1 (.sessionById j) =
          (final.1.move j (final.1.heaps j) .waiting, [.freed j task]) := by
  intro step s final
  rw [run_append, madeIds_append] at hids
  have hscheduled : Scheduled (run step (Scheduler.start initialCapacity) before).2 s :=
    scheduled_run aead na keys order pacing initialCapacity before
      (fun act hact => hmalloc act (List.mem_append_left later hact)) hids.of_append_left
  refine ⟨fun i hactive => ?_, fun k id hid => ?_, fun k id hid hinactive => ?_⟩
  · have hpresent := hscheduled.present i hactive
    generalize (s.traffic.sessions i).sessionId = id at hpresent
    rw [Finset.sum_eq_single (shardIndex id) (fun k _ hk => ?_)
      (fun h => absurd (Finset.mem_univ _) h)]
    · exact List.count_eq_one_of_mem (hscheduled.nodup _) hpresent
    · exact List.count_eq_zero_of_not_mem fun hmem => hk (hscheduled.placed k id hmem).symm
  · rw [← hscheduled.placed k id hid]
    rfl
  · rw [← madeIds_append] at hids
    obtain ⟨hgone, hcount⟩ := stale_run aead na keys order pacing hscheduled
      (hscheduled.known k id hid) hinactive later
      (fun act hact => hmalloc act (List.mem_append_right before hact)) hids
    refine ⟨hcount, fun j task hsent htask => ?_⟩
    have hnone : sessionById task.sessionId final.1.traffic.sessions = none := by
      rw [htask]
      exact sessionById_eq_none_iff.mpr hgone
    dsimp only [step, schedulerStep]
    rw [hsent]
    dsimp only
    rw [hnone]

/-- A client shakes hands, and the worker of shard 0 takes the task, sends and finds the
session. -/
def foundActs : List SchedulerAct :=
  let env : Env := ⟨0, .ok, .ok, ⟨Octets.zero privkeyLen, Octets.zero 8⟩,
    ⟨Octets.zero privkeyLen, Octets.zero 8⟩, true, true, fun _ => 0, fun _ => 0⟩
  let msg1 := buildMsg1 .little (Octets.zero pubkeyLen) (Octets.zero 8) ⟨5, 1024, 78, 78⟩
  [.table (.server (.datagram env ⟨1, 2⟩ msg1)) ⟨0, 0⟩ true true, .pop 0 ⟨1, 0⟩,
    .executeSend 0 ⟨Octets.zero 16, fun _ => true, fun _ => true⟩ 0, .sessionById 0]

/-- Then the session ends, and the worker goes on. -/
def endedActs : List SchedulerAct :=
  [.table (.server (.free 0)) ⟨1, 0⟩ true true, .push 0 ⟨1, 0⟩ true, .pop 0 ⟨11, 0⟩]

theorem foundActs_allocate : ∀ act ∈ foundActs ++ endedActs, act.Allocates := by
  simp [foundActs, endedActs, SchedulerAct.Allocates, TableOp.Allocates]

theorem one_task_per_session_found :
    let keys : ServerKeys := ⟨Octets.zero 64, true, Octets.zero privkeyLen⟩
    let pacing : Pacing := ⟨fun _ => 1000, fun _ _ => 0, fun _ _ => 0⟩
    let s := (run (schedulerStep .plainText Sodium.xorSodium keys .little pacing)
      (Scheduler.start 1024) foundActs).1
    (s.traffic.sessions 0).active = true ∧
      ∑ k, (s.ids k).count (s.traffic.sessions 0).sessionId = 1 := by
  have hactive : ((run (schedulerStep .plainText Sodium.xorSodium
      ⟨Octets.zero 64, true, Octets.zero privkeyLen⟩ .little
      ⟨fun _ => 1000, fun _ _ => 0, fun _ _ => 0⟩)
      (Scheduler.start 1024) foundActs).1.traffic.sessions 0).active = true := by
    decide +kernel
  exact ⟨hactive, (one_task_per_session .plainText Sodium.xorSodium
    ⟨Octets.zero 64, true, Octets.zero privkeyLen⟩ .little
    ⟨fun _ => 1000, fun _ _ => 0, fun _ _ => 0⟩ 1024 foundActs endedActs foundActs_allocate
    (by decide +kernel)).1 0 hactive⟩

/-- The session ends behind the lookup: the worker puts the task back although its id is
no longer active. -/
theorem ended_task_requeued :
    let keys : ServerKeys := ⟨Octets.zero 64, true, Octets.zero privkeyLen⟩
    let pacing : Pacing := ⟨fun _ => 1000, fun _ _ => 0, fun _ _ => 0⟩
    let step := schedulerStep .plainText Sodium.xorSodium keys .little pacing
    let s := (run step (Scheduler.start 1024) (foundActs ++ endedActs.take 1)).1
    Inactive s.traffic.sessions (Octets.zero 16) ∧
      Octets.zero 16 ∈ requeuedIds (step s (.push 0 ⟨1, 0⟩ true)).2 ∧
      Octets.zero 16 ∈ ((step s (.push 0 ⟨1, 0⟩ true)).1.heaps 0).ids := by
  decide +kernel

end Chamlon.Server
