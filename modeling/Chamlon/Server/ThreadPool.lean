import Mathlib.Tactic
import Chamlon.Lib.LinkedList
import Chamlon.Lib.Machine

/-!
`thread_pool.c`: the queue of each shard with its lock and condition, the loop of its
worker, `thread_pool_destroy`, and the two ways to submit a job.

A worker holds the lock of its shard from one place of its loop to another, every other
thread only within one step, so the lock is held exactly at the places that
`WorkerAt.holdsLock` names. The flag `shutdown` is not under the lock: it is stored and
the conditions are broadcast while a worker may stand between its test of the flag and
its wait. A wait may also end without a signal.

The nodes of a shard are in a heap of their own; no queue follows a link into another
one. A step that would follow a null or dangling pointer reports `badAccess`.
-/

namespace Chamlon.ThreadPool

open LinkedList Machine

abbrev Addr := Nat

/-- `job_type_t`. -/
inductive JobType where
  | inboundCrypto
  | outboundCrypto
  | shutdown
deriving DecidableEq, Repr

/-- `job_t`: its type and everything else. -/
structure Job (β : Type) where
  type : JobType
  body : β
deriving DecidableEq, Repr

/-- Where a worker is in `worker_thread`. -/
inductive WorkerAt (β : Type) where
  /-- Before `pthread_mutex_lock`. -/
  | entry
  /-- Before the test `q->size == 0 && !pool->shutdown`. -/
  | testing
  /-- The test held; before `pthread_cond_wait`. -/
  | sleepy
  /-- In `pthread_cond_wait`, without the lock. -/
  | waiting
  /-- Woken, and about to take the lock again. -/
  | woken
  /-- Behind the inner loop. -/
  | leaving
  /-- In `do_inbound_crypto` or `do_outbound_crypto`. -/
  | running (job : Job β)
  | exited
deriving DecidableEq, Repr

def WorkerAt.holdsLock {β : Type} : WorkerAt β → Bool
  | .testing | .sleepy | .leaving => true
  | _ => false

/-- What a signal or a broadcast does to the worker, the only thread that waits. -/
def WorkerAt.wake {β : Type} : WorkerAt β → WorkerAt β
  | .waiting => .woken
  | place => place

/-- `shard_queue_t` with its nodes, and the worker of the shard. -/
structure Shard (β : Type) where
  heap : Heap Addr (Job β)
  head : Option Addr
  tail : Option Addr
  size : Int
  worker : WorkerAt β

/-- `max_size`. -/
def maxSize : Int := 4096

inductive ShardEvent (β : Type) where
  /-- A submission returned, with 0 if the job was accepted and with -1 otherwise. -/
  | submitted (job : Job β) (accepted : Bool)
  | started (job : Job β)
  | finished (job : Job β)
  /-- `thread_pool_destroy` freed a job that was left over. -/
  | discarded (job : Job β)
  | badAccess
deriving DecidableEq, Repr

variable {β : Type}

namespace Shard

def create : Shard β := ⟨fun _ => none, none, none, 0, .entry⟩

/-- The new node goes behind the last one. -/
def link (q : Shard β) (node : Addr) (job : Job β) : Option (Shard β) :=
  let heap := Function.update q.heap node (some ⟨none, job⟩)
  match q.tail with
  | none => some { q with heap, head := some node, tail := some node, size := q.size + 1 }
  | some last =>
      match heap last with
      | none => none
      | some cell => some
          { q with
            heap := Function.update heap last (some { cell with next := some node })
            tail := some node
            size := q.size + 1 }

/-- The first node leaves the queue and is freed. -/
def unlink (q : Shard β) : Option (Job β × Shard β) :=
  match q.head with
  | none => none
  | some node =>
      match q.heap node with
      | none => none
      | some cell => some (cell.value,
          { q with
            heap := Function.update q.heap node none
            head := cell.next
            tail := if cell.next.isNone then none else q.tail
            size := q.size - 1 })

/-- `enqueue_to_shard`, which waits while the worker has the lock. `malloc` returns no
node that is in use. -/
def enqueueToShard (malloc : Option Addr) (job : Job β) (q : Shard β) :
    Shard β × List (ShardEvent β) :=
  if q.worker.holdsLock then (q, [])
  else if maxSize ≤ q.size then (q, [.submitted job false])
  else
    match malloc with
    | none => (q, [.submitted job false])
    | some node =>
        if (q.heap node).isSome then (q, [])
        else
          match q.link node job with
          | none => (q, [.badAccess])
          | some next => ({ next with worker := next.worker.wake }, [.submitted job true])

/-- The worker takes the first job. One of type `JOB_TYPE_SHUTDOWN` ends the thread. -/
def take (q : Shard β) : Shard β × List (ShardEvent β) :=
  match q.unlink with
  | none => (q, [.badAccess])
  | some (job, next) =>
      match job.type with
      | .shutdown => ({ next with worker := .exited }, [])
      | .inboundCrypto | .outboundCrypto =>
          ({ next with worker := .running job }, [.started job])

/-- The next step of `worker_thread`. -/
def workerStep (shutdown : Bool) (q : Shard β) : Shard β × List (ShardEvent β) :=
  match q.worker with
  | .entry => ({ q with worker := .testing }, [])
  | .testing =>
      if q.size = 0 ∧ shutdown = false then ({ q with worker := .sleepy }, [])
      else ({ q with worker := .leaving }, [])
  | .sleepy => ({ q with worker := .waiting }, [])
  | .waiting => (q, [])
  | .woken => ({ q with worker := .testing }, [])
  | .leaving =>
      if shutdown = true ∧ q.size = 0 then ({ q with worker := .exited }, [])
      else if q.size = 0 then ({ q with worker := .entry }, [])
      else q.take
  | .running job => ({ q with worker := .entry }, [.finished job])
  | .exited => (q, [])

/-- `pthread_cond_broadcast`, and the end of a wait without a signal. -/
def wakeUp (q : Shard β) : Shard β := { q with worker := q.worker.wake }

end Shard

/-- Where the caller is in `thread_pool_destroy`. -/
inductive DestroyAt (n : Nat) where
  | notCalled
  /-- The shards below `i` have been broadcast. -/
  | broadcasting (i : Nat)
  /-- The threads below `i` have been joined and their queues drained. -/
  | joining (i : Nat)
  /-- Thread `i` has been joined; `node` is next to be freed. -/
  | draining (i : Fin n) (node : Option Addr)
  | returned
deriving DecidableEq, Repr

/-- `thread_pool_t`, its threads and the call of `thread_pool_destroy`. -/
structure Pool (β : Type) (n : Nat) where
  shards : Fin n → Shard β
  shutdown : Bool
  destroyer : DestroyAt n

inductive PoolAct (β : Type) (n : Nat) where
  /-- `thread_pool_submit_sharded`. -/
  | submit (shardKey : UInt8) (job : Option (Job β)) (malloc : Option Addr)
  /-- The next step of a worker. -/
  | work (i : Fin n)
  /-- A wait ends without a signal. -/
  | spurious (i : Fin n)
  /-- The next step of `thread_pool_destroy`. -/
  | destroy

inductive PoolEvent (β : Type) (n : Nat) where
  | shard (i : Fin n) (event : ShardEvent β)
  /-- A submission without a job returned -1. -/
  | refused
  /-- `thread_pool_destroy` returned. -/
  | destroyed
deriving DecidableEq, Repr

variable {n : Nat}

namespace Pool

/-- `thread_pool_create` with all threads started. -/
def create (β : Type) (n : Nat) : Pool β n := ⟨fun _ => .create, false, .notCalled⟩

/-- A step that concerns one shard. -/
def onShard (p : Pool β n) (i : Fin n) (next : Shard β × List (ShardEvent β)) :
    Pool β n × List (PoolEvent β n) :=
  ({ p with shards := Function.update p.shards i next.1 }, next.2.map (.shard i))

/-- `thread_pool_destroy`. -/
def destroyStep (p : Pool β n) : Pool β n × List (PoolEvent β n) :=
  match p.destroyer with
  | .notCalled => ({ p with shutdown := true, destroyer := .broadcasting 0 }, [])
  | .broadcasting i =>
      if h : i < n then
        ({ p with
            shards := Function.update p.shards ⟨i, h⟩ (p.shards ⟨i, h⟩).wakeUp
            destroyer := .broadcasting (i + 1) }, [])
      else ({ p with destroyer := .joining 0 }, [])
  | .joining i =>
      if h : i < n then
        match (p.shards ⟨i, h⟩).worker with
        | .exited =>
            ({ p with destroyer := .draining ⟨i, h⟩ (p.shards ⟨i, h⟩).head }, [])
        | _ => (p, [])
      else ({ p with destroyer := .returned }, [.destroyed])
  | .draining i none => ({ p with destroyer := .joining (i.val + 1) }, [])
  | .draining i (some node) =>
      match (p.shards i).heap node with
      | none => (p, [.shard i .badAccess])
      | some cell =>
          let q := p.shards i
          ({ p with
              shards := Function.update p.shards i
                { q with heap := Function.update q.heap node none }
              destroyer := .draining i cell.next },
            [.shard i (.discarded cell.value)])
  | .returned => (p, [])

/-- `shard_key % pool->num_threads`. -/
def keyShard (n : Nat) [NeZero n] (shardKey : UInt8) : Fin n := Fin.ofNat n shardKey.toNat

def step [NeZero n] (p : Pool β n) : PoolAct β n → Pool β n × List (PoolEvent β n)
  | .submit _ none _ => (p, [.refused])
  | .submit shardKey (some job) malloc =>
      p.onShard (keyShard n shardKey)
        ((p.shards (keyShard n shardKey)).enqueueToShard malloc job)
  | .work i => p.onShard i ((p.shards i).workerStep p.shutdown)
  | .spurious i => p.onShard i ((p.shards i).wakeUp, [])
  | .destroy => p.destroyStep

end Pool

section RoundRobin

/-- `(rr++) % pool->num_threads`, where `rr` is an `_Atomic int` that wraps and the
remainder has the sign of `rr`. -/
def submitShard (n : Nat) (rr : BitVec 32) : Int := rr.toInt.tmod n

/-- `thread_pool_submit` up to the call of `enqueue_to_shard`: the counter, and the shard
it passes on. -/
def submitStep (n : Nat) (rr : BitVec 32) : Option (Job β) → BitVec 32 × List Int
  | none => (rr, [])
  | some _ => (rr + 1, [submitShard n rr])

/-- The calls that take a ticket, which are those with a job. -/
def counted (calls : List (Option (Job β))) : Nat := calls.countP Option.isSome

theorem submitRun_counter (n : Nat) (rr : BitVec 32) (calls : List (Option (Job β))) :
    (run (submitStep n) rr calls).1 = rr + BitVec.ofNat 32 (counted calls) := by
  induction calls generalizing rr with
  | nil => simp [run, counted]
  | cons call rest ih =>
      cases call with
      | none => exact ih rr
      | some job =>
          have hcount : counted (some job :: rest) = counted rest + 1 :=
            List.countP_cons_of_pos rfl
          simp only [run, submitStep]
          rw [ih, hcount, BitVec.ofNat_add, BitVec.add_assoc, BitVec.add_comm (1 : BitVec 32)]
          rfl

/-- The shard of a counter in the upper half is a negative remainder. -/
theorem submitShard_ofNat (n k : Nat) :
    submitShard n (BitVec.ofNat 32 k) =
      if k % 2 ^ 32 < 2 ^ 31 then ((k % 2 ^ 32 % n : Nat) : Int)
      else -(((2 ^ 32 - k % 2 ^ 32) % n : Nat) : Int) := by
  have hlt : k % 2 ^ 32 < 2 ^ 32 := Nat.mod_lt _ (by decide)
  unfold submitShard
  rw [BitVec.toInt_eq_toNat_cond, BitVec.toNat_ofNat]
  by_cases hlow : k % 2 ^ 32 < 2 ^ 31
  · rw [if_pos (by omega), if_pos hlow]
    exact Int.ofNat_tmod _ _
  · have hneg : ((k % 2 ^ 32 : Nat) : Int) - ((2 ^ 32 : Nat) : Int) =
        -((2 ^ 32 - k % 2 ^ 32 : Nat) : Int) := by omega
    rw [if_neg (by omega), if_neg hlow, hneg, Int.neg_tmod]
    exact congrArg Neg.neg (Int.ofNat_tmod _ _)

/-- Behind any calls, the shard that `thread_pool_submit` computes is one of the pool's
exactly if the counter has not become negative or is a multiple of the number of threads. -/
theorem submitShard_in_range_iff (n : Nat) (hn : 1 ≤ n) (calls : List (Option (Job β))) :
    let rr := (run (submitStep n) 0 calls).1
    0 ≤ submitShard n rr ∧ submitShard n rr < n ↔
      counted calls % 2 ^ 32 < 2 ^ 31 ∨ n ∣ 2 ^ 32 - counted calls % 2 ^ 32 := by
  intro rr
  have hrr : rr = BitVec.ofNat 32 (counted calls) :=
    (submitRun_counter n 0 calls).trans (BitVec.zero_add _)
  rw [hrr, submitShard_ofNat]
  by_cases hlow : counted calls % 2 ^ 32 < 2 ^ 31
  · have hmod := Nat.mod_lt (counted calls % 2 ^ 32) hn
    rw [if_pos hlow]
    exact ⟨fun _ => Or.inl hlow, fun _ => ⟨Int.natCast_nonneg _, Int.ofNat_lt.mpr hmod⟩⟩
  · rw [if_neg hlow, Nat.dvd_iff_mod_eq_zero]
    constructor
    · rintro ⟨hnonneg, _⟩
      exact Or.inr (by omega)
    · rintro (h | h)
      · exact absurd h hlow
      · rw [h]
        exact ⟨le_rfl, Int.ofNat_lt.mpr hn⟩

/-- Four threads and `2 ^ 31 + 4` calls: the counter is negative and divisible. -/
theorem submitShard_in_range_divisible :
    let rr := (run (submitStep 4) 0
      (List.replicate (2 ^ 31 + 4) (some (⟨.inboundCrypto, ()⟩ : Job Unit)))).1
    0 ≤ submitShard 4 rr ∧ submitShard 4 rr < 4 := by
  apply (submitShard_in_range_iff 4 (by decide) _).mpr
  right
  rw [counted, List.countP_replicate]
  decide

/-- Three threads: behind `2 ^ 31` calls the next one computes the shard -2. -/
theorem submitShard_negative :
    submitShard 3 (run (submitStep 3) 0
      (List.replicate (2 ^ 31) (some (⟨.inboundCrypto, ()⟩ : Job Unit)))).1 = -2 := by
  rw [submitRun_counter, counted, List.countP_replicate]
  decide

end RoundRobin

end Chamlon.ThreadPool
