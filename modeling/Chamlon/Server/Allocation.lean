import Mathlib
import Chamlon.Server.IdleExpiry
import Chamlon.Server.Publication
import Chamlon.Server.Workers

/-!
The thread pool with its job queues, and the question who may be inside `handle_msg1`.
That function calls `allocate_session` without the lock its comment asks for: the slot it
gets stays inactive, and so free for the next caller, until the store to `active`.

What protects it is the routing. The receive loop of `main` takes a shard key only from
datagrams of type data, so every handshake goes to shard 0, and a shard has one worker
that takes its jobs one after another.
-/

namespace Chamlon.Server

open Config Memory Machine

/-- `job_t`. -/
inductive Job where
  | inbound (src : SockAddr) (buf : Bytes)
  | outbound (buf : Bytes)

/-- Where a worker is in `worker_thread`. -/
inductive ThreadAt where
  /-- Between two jobs. -/
  | waiting
  /-- At the start of `handle_inbound_udp`. -/
  | inbound (env : Env) (src : SockAddr) (buf : Bytes)
  /-- At the start of `handle_rehandshake_msg1`. -/
  | rekeying (env : Env) (src : SockAddr) (msg1 : Bytes)
  /-- Before the write lock of `handle_rehandshake_msg1`. -/
  | rotating (env : Env) (i : Slot) (secrets : Sodium.SessionSecrets)
  /-- In `handle_msg1`. -/
  | opening (place : Msg1At)
  /-- In the data path of `handle_inbound_udp`. -/
  | data (place : WorkerAt)
  /-- At the start of `handle_outbound_tun_buf`. -/
  | outbound (id : UInt16) (buf : Bytes)

structure Threads (n : Nat) where
  sessions : Sessions
  queues : Fin n → List Job
  workers : Fin n → ThreadAt

def Threads.start (n : Nat) : Threads n := ⟨noSessions, fun _ => [], fun _ => .waiting⟩

/-- `max_size` of a shard's queue. -/
abbrev shardQueueMax : Nat := 4096

inductive ThreadAct (n : Nat) where
  /-- A turn of the receive loop in `main`, or of the same loop during shutdown. -/
  | receive (src : SockAddr) (tmp : Bytes) (allocated : Bool)
  /-- `handle_outbound_tun`. -/
  | readTun (tmp : Bytes) (allocated : Bool)
  /-- The worker takes the first job of its queue. -/
  | take (w : Fin n) (env : Env) (id : UInt16)
  /-- The next step of the worker. -/
  | next (w : Fin n)
  /-- A step of the scheduler or of the maintenance. -/
  | other (act : OtherAct)
  /-- `graceful_shutdown_cleanup`. -/
  | shutdown

section Machine

variable (aead : Aead) (na : Sodium) (keys : ServerKeys) (order : Endian) {n : Nat}

/-- `enqueue_to_shard`. -/
def enqueueToShard (allocated : Bool) (job : Job) (shard : Fin n) (s : Threads n) :
    Threads n :=
  if shardQueueMax ≤ (s.queues shard).length then s
  else if !allocated then s
  else { s with queues := Function.update s.queues shard (s.queues shard ++ [job]) }

/-- `handle_inbound_udp` up to the session lookup or the call of a handshake function. -/
def enterInbound (env : Env) (src : SockAddr) (buf : Bytes) (sessions : Sessions) :
    ThreadAt × Sessions :=
  if buf.length < protoHeaderLen then (.waiting, sessions)
  else if bufferSize < buf.length then (.waiting, sessions)
  else if !headerAccepted order buf then (.waiting, sessions)
  else if packetType buf = pktTypeData ∧ env.packetVerdict ≠ .ok then (.waiting, sessions)
  else if packetType buf = pktTypeHandshake then
    if buf.length = protoHeaderLen + msg1Len + params then
      match sessionByAddr src sessions with
      | some _ => (.rekeying env src buf, sessions)
      | none => (.opening (.entered env env.random buf src), sessions)
    else (.waiting, sessions)
  else
    match lookup env buf sessions with
    | none => (.waiting, sessions)
    | some i => (.data (.found env buf i),
        Function.update sessions i { sessions i with lastActivity := env.now })

/-- `handle_rehandshake_msg1` up to its write lock, or up to the call of `handle_msg1`. -/
def enterRekeying (env : Env) (src : SockAddr) (msg1 : Bytes) (sessions : Sessions) :
    ThreadAt :=
  if msg1.length ≠ protoHeaderLen + msg1Len + params then .waiting
  else
    match sessionByAddr src sessions with
    | none => .opening (.entered env env.random msg1 src)
    | some i =>
        let cPub := msg1Pub msg1
        let cNonce := msg1Nonce msg1
        let sPub := na.kxPublic env.random.sPriv
        let sNonce := env.random.sNonce
        match na.serverSecrets env.random.sPriv keys.serverSk cPub cNonce sNonce with
        | none => .opening (.entered env env.fallback msg1 src)
        | some secrets =>
            match na.signDetached keys.signSk (signedBlob sPub sNonce cPub cNonce) with
            | none => .opening (.entered env env.fallback msg1 src)
            | some _ => .rotating env i secrets

/-- A call of `handle_msg1` goes on, or its worker is done with the job. -/
def openingAt : Msg1At → ThreadAt
  | .returned _ => .waiting
  | place => .opening place

def dataAt : WorkerAt → ThreadAt
  | .idle => .waiting
  | place => .data place

/-- The next step of a worker. -/
def threadNext (sessions : Sessions) : ThreadAt → ThreadAt × Sessions
  | .waiting => (.waiting, sessions)
  | .inbound env src buf => enterInbound order env src buf sessions
  | .rekeying env src msg1 => (enterRekeying na keys env src msg1 sessions, sessions)
  | .rotating env i secrets => (.waiting, Function.update sessions i
      ((sessions i).rekey secrets env.now env.outqAllocated))
  | .opening place =>
      let result := (msg1Next na keys order (place, sessions)).1
      (openingAt result.1, result.2)
  | .data place =>
      -- The data path is that of a pool of one worker.
      let pool := (workerNext na order (0 : Fin 1) ⟨sessions, fun _ => place⟩).1
      (dataAt (pool.workers 0), pool.sessions)
  | .outbound id buf => (.waiting, sendOutbound order id buf sessions)

/-- The slot that `allocate_session` has just returned to the worker. -/
def ThreadAt.gets : ThreadAt → List Slot
  | .opening (.allocated _ _ _ _ i) => [i]
  | _ => []

def Job.begin (env : Env) (id : UInt16) : Job → ThreadAt
  | .inbound src buf => .inbound env src buf
  | .outbound buf => .outbound id buf

/-- The events are the slots that `allocate_session` returns, and to which worker. -/
def threadStep [NeZero n] (s : Threads n) :
    ThreadAct n → Threads n × List (Fin n × Slot)
  | .receive src tmp allocated =>
      (if mainAccepts order tmp then
        enqueueToShard allocated (.inbound src tmp) (shardOf n tmp) s else s, [])
  | .readTun tmp allocated =>
      (if tmp.length < 20 ∨ (sessionByVpnip (field 4 tmp 16) s.sessions).isNone then s
      else enqueueToShard allocated (.outbound tmp)
        (Fin.ofNat n (peek tmp (fun _ => 0) 19).toNat) s, [])
  | .take w env id =>
      (match s.workers w, s.queues w with
      | .waiting, job :: rest =>
          { s with
            queues := Function.update s.queues w rest
            workers := Function.update s.workers w (job.begin env id) }
      | _, _ => s, [])
  | .next w =>
      let result := threadNext na keys order s.sessions (s.workers w)
      ({ s with
          sessions := result.2
          workers := Function.update s.workers w result.1 },
        result.1.gets.map fun i => (w, i))
  | .other act => ({ s with sessions := act.table aead order s.sessions }, [])
  | .shutdown => ({ s with sessions := (gracefulShutdownCleanup s.sessions).1 }, [])

end Machine

/-- The worker is in `handle_msg1` or `handle_rehandshake_msg1`. -/
def ThreadAt.inHandshake : ThreadAt → Bool
  | .rekeying _ _ _ | .rotating _ _ _ | .opening _ => true
  | _ => false

/-- The slot that the worker's call of `handle_msg1` has got from `allocate_session`. -/
def ThreadAt.holds : ThreadAt → Option Slot
  | .opening place => place.slot
  | _ => none

/-- The slot is not yet active. -/
def Stage.reserving : Stage → Bool
  | .derived | .keyed | .named | .numbered => true
  | _ => false

/-- The slot of a call between `allocate_session` and the store to `active`. -/
def Msg1At.reserving : Msg1At → Option Slot
  | .allocated _ _ _ _ i => some i
  | .reserved _ _ _ _ i => some i
  | .writing o stage => if stage.reserving then some o.slot else none
  | _ => none

def ThreadAt.reserving : ThreadAt → Option Slot
  | .opening place => place.reserving
  | _ => none

theorem ThreadAt.inHandshake_of_reserving {place : ThreadAt} {i : Slot}
    (h : place.reserving = some i) : place.inHandshake = true := by
  cases place with
  | opening _ => rfl
  | waiting | inbound | rekeying | rotating | data | outbound => cases h

theorem ThreadAt.inHandshake_of_holds {place : ThreadAt} {i : Slot}
    (h : place.holds = some i) : place.inHandshake = true := by
  cases place with
  | opening _ => rfl
  | waiting | inbound | rekeying | rotating | data | outbound => cases h

section Routing

variable {n : Nat} [NeZero n]

/-- Every handshake goes to shard 0. -/
theorem shardOf_handshake {buf : Bytes} (h : packetType buf = pktTypeHandshake) :
    shardOf n buf = 0 := by
  have hkeyed : ¬KeyedById buf := by
    intro hkeyed
    rw [hkeyed.1] at h
    exact absurd h (by decide)
  unfold shardOf shardKey
  rw [if_neg hkeyed]
  rfl

/-- The worker was given what it works on. -/
def Placed (w : Fin n) (place : ThreadAt) : Prop :=
  (∀ env src buf, place = .inbound env src buf → shardOf n buf = w) ∧
    (place.inHandshake = true → w = 0)

/-- Every job is in the queue, or with the worker, of its shard. -/
structure Routed (s : Threads n) : Prop where
  queued : ∀ w src buf, Job.inbound src buf ∈ s.queues w → shardOf n buf = w
  placed : ∀ w, Placed w (s.workers w)

theorem routed_start : Routed (Threads.start n) where
  queued _ _ _ h := absurd h List.not_mem_nil
  placed _ := ⟨fun _ _ _ h => (by cases h), fun h => (by cases h)⟩

variable (aead : Aead) (na : Sodium) (keys : ServerKeys) (order : Endian)

/-- What the first step of a job does, beside what the whole call does. -/
theorem enterInbound_cases (env : Env) (src : SockAddr) (buf : Bytes)
    (sessions : Sessions) :
    (enterInbound order env src buf sessions = (.waiting, sessions) ∧
      (handleInboundUdp na keys order env src buf sessions).1 = sessions) ∨
    (packetType buf = pktTypeHandshake ∧
      ((enterInbound order env src buf sessions = (.rekeying env src buf, sessions) ∧
        (handleInboundUdp na keys order env src buf sessions).1 =
          (handleRehandshakeMsg1 na keys order env buf src sessions).1) ∨
      (enterInbound order env src buf sessions =
          (.opening (.entered env env.random buf src), sessions) ∧
        (handleInboundUdp na keys order env src buf sessions).1 =
          (handleMsg1 na keys order env env.random buf src sessions).1))) ∨
    (ReachesLookup order env buf ∧ ∃ i, lookup env buf sessions = some i ∧
      enterInbound order env src buf sessions = (.data (.found env buf i),
        Function.update sessions i { sessions i with lastActivity := env.now })) := by
  unfold enterInbound handleInboundUdp
  by_cases hshort : buf.length < protoHeaderLen
  · rw [if_pos hshort, if_pos hshort]
    exact Or.inl ⟨rfl, rfl⟩
  rw [if_neg hshort, if_neg hshort]
  by_cases hlarge : bufferSize < buf.length
  · rw [if_pos hlarge, if_pos hlarge]
    exact Or.inl ⟨rfl, rfl⟩
  rw [if_neg hlarge, if_neg hlarge]
  by_cases hheader : (!headerAccepted order buf) = true
  · rw [if_pos hheader, if_pos hheader]
    exact Or.inl ⟨rfl, rfl⟩
  rw [if_neg hheader, if_neg hheader]
  by_cases hlimited : packetType buf = pktTypeData ∧ env.packetVerdict ≠ .ok
  · rw [if_pos hlimited, if_pos hlimited]
    exact Or.inl ⟨rfl, rfl⟩
  rw [if_neg hlimited, if_neg hlimited, emit_fst]
  by_cases htype : packetType buf = pktTypeHandshake
  · rw [if_pos htype, if_pos htype]
    by_cases hlength : buf.length = protoHeaderLen + msg1Len + params
    · rw [if_pos hlength, if_pos hlength]
      cases sessionByAddr src sessions with
      | some i => exact Or.inr (Or.inl ⟨htype, Or.inl ⟨rfl, rfl⟩⟩)
      | none => exact Or.inr (Or.inl ⟨htype, Or.inr ⟨rfl, rfl⟩⟩)
    · rw [if_neg hlength, if_neg hlength]
      exact Or.inl ⟨rfl, rfl⟩
  · have hverdict : packetType buf = pktTypeData → env.packetVerdict = .ok := by
      intro hdata
      by_contra hbad
      exact hlimited ⟨hdata, hbad⟩
    rw [if_neg htype, if_neg htype, emit_fst]
    cases hfound : lookup env buf sessions with
    | none =>
        refine Or.inl ⟨rfl, ?_⟩
        unfold inboundData
        dsimp only
        unfold lookup at hfound
        rw [hfound]
    | some i =>
        refine Or.inr (Or.inr ⟨⟨?_, ?_, ?_, htype, hverdict⟩, i, rfl, rfl⟩)
        · exact Nat.le_of_not_lt hshort
        · exact Nat.le_of_not_lt hlarge
        · simpa using hheader

/-- What `handle_rehandshake_msg1` does before its write lock, beside what the whole call
does. -/
theorem enterRekeying_cases (env : Env) (src : SockAddr) (msg1 : Bytes)
    (sessions : Sessions) :
    (enterRekeying na keys env src msg1 sessions = .waiting ∧
      (handleRehandshakeMsg1 na keys order env msg1 src sessions).1 = sessions) ∨
    (∃ random, enterRekeying na keys env src msg1 sessions =
        .opening (.entered env random msg1 src) ∧
      (handleRehandshakeMsg1 na keys order env msg1 src sessions).1 =
        (handleMsg1 na keys order env random msg1 src sessions).1) ∨
    (∃ i secrets, enterRekeying na keys env src msg1 sessions = .rotating env i secrets ∧
      (handleRehandshakeMsg1 na keys order env msg1 src sessions).1 =
        Function.update sessions i
          ((sessions i).rekey secrets env.now env.outqAllocated)) := by
  unfold enterRekeying handleRehandshakeMsg1
  by_cases hlength : msg1.length ≠ protoHeaderLen + msg1Len + params
  · rw [if_pos hlength, if_pos hlength]
    exact Or.inl ⟨rfl, rfl⟩
  rw [if_neg hlength, if_neg hlength]
  cases sessionByAddr src sessions with
  | none => exact Or.inr (Or.inl ⟨env.random, rfl, rfl⟩)
  | some i =>
      dsimp only
      cases na.serverSecrets env.random.sPriv keys.serverSk (msg1Pub msg1)
          (msg1Nonce msg1) env.random.sNonce with
      | none => exact Or.inr (Or.inl ⟨env.fallback, rfl, rfl⟩)
      | some secrets =>
          dsimp only
          cases na.signDetached keys.signSk (signedBlob (na.kxPublic env.random.sPriv)
              env.random.sNonce (msg1Pub msg1) (msg1Nonce msg1)) with
          | none => exact Or.inr (Or.inl ⟨env.fallback, rfl, rfl⟩)
          | some _ => exact Or.inr (Or.inr ⟨i, secrets, rfl, rfl⟩)

theorem placed_waiting (w : Fin n) : Placed w .waiting :=
  ⟨fun _ _ _ h => (by cases h), fun h => (by cases h)⟩

/-- Worker 0 may be in a handshake. -/
theorem placed_handshake {w : Fin n} {place : ThreadAt} (hw : w = 0)
    (hplace : place.inHandshake = true) : Placed w place := by
  refine ⟨fun env src buf h => ?_, fun _ => hw⟩
  rw [h] at hplace
  cases hplace

theorem placed_data (w : Fin n) (place : WorkerAt) : Placed w (dataAt place) := by
  cases place with
  | idle => exact placed_waiting w
  | found | checked | decrypted | recorded =>
      exact ⟨fun _ _ _ h => (by cases h), fun h => (by cases h)⟩

theorem placed_opening {w : Fin n} (hw : w = 0) (place : Msg1At) :
    Placed w (openingAt place) := by
  cases place with
  | returned zero => exact placed_waiting w
  | entered | allocated | reserved | writing => exact placed_handshake hw rfl

/-- A worker that was given its job by the shard key stays in its place. -/
theorem threadNext_placed (sessions : Sessions) {w : Fin n} {place : ThreadAt}
    (h : Placed w place) : Placed w (threadNext na keys order sessions place).1 := by
  cases place with
  | waiting => exact h
  | inbound env src buf =>
      have hshard : shardOf n buf = w := h.1 env src buf rfl
      have hzero : packetType buf = pktTypeHandshake → w = 0 := fun htype =>
        hshard.symm.trans (shardOf_handshake htype)
      dsimp only [threadNext]
      rcases enterInbound_cases na keys order env src buf sessions with
        ⟨hstep, _⟩ | ⟨htype, ⟨hstep, _⟩ | ⟨hstep, _⟩⟩ | ⟨_, i, _, hstep⟩
      · rw [hstep]
        exact placed_waiting w
      · rw [hstep]
        exact placed_handshake (hzero htype) rfl
      · rw [hstep]
        exact placed_handshake (hzero htype) rfl
      · rw [hstep]
        exact placed_data w (.found env buf i)
  | rekeying env src msg1 =>
      have hw : w = 0 := h.2 rfl
      dsimp only [threadNext]
      rcases enterRekeying_cases na keys order env src msg1 sessions with
        ⟨hstep, _⟩ | ⟨random, hstep, _⟩ | ⟨i, secrets, hstep, _⟩
      · rw [hstep]
        exact placed_waiting w
      · rw [hstep]
        exact placed_handshake hw rfl
      · rw [hstep]
        exact placed_handshake hw rfl
  | rotating env i secrets => exact placed_waiting w
  | opening place => exact placed_opening (h.2 rfl) _
  | data place => exact placed_data w _
  | outbound id buf => exact placed_waiting w

theorem enqueueToShard_routed (allocated : Bool) {job : Job} {shard : Fin n}
    {s : Threads n} (h : Routed s)
    (hjob : ∀ src buf, job = .inbound src buf → shardOf n buf = shard) :
    Routed (enqueueToShard allocated job shard s) := by
  unfold enqueueToShard
  split
  · exact h
  split
  · exact h
  refine ⟨fun w src buf hmem => ?_, h.placed⟩
  dsimp only at hmem
  by_cases hw : w = shard
  · rw [hw, Function.update_self, List.mem_append, List.mem_singleton] at hmem
    rcases hmem with hold | hnew
    · exact hw.symm ▸ h.queued shard src buf hold
    · exact hw.symm ▸ hjob src buf hnew.symm
  · rw [Function.update_of_ne hw] at hmem
    exact h.queued w src buf hmem

/-- A step keeps every job on its shard. -/
theorem threadStep_routed {s : Threads n} (h : Routed s) (act : ThreadAct n) :
    Routed (threadStep aead na keys order s act).1 := by
  cases act with
  | receive src tmp allocated =>
      unfold threadStep
      dsimp only
      split
      · refine enqueueToShard_routed allocated h fun src' buf hjob => ?_
        cases hjob
        rfl
      · exact h
  | readTun tmp allocated =>
      unfold threadStep
      dsimp only
      split
      · exact h
      · exact enqueueToShard_routed allocated h fun _ _ hjob => (by cases hjob)
  | take w env id =>
      unfold threadStep
      dsimp only
      split
      next job rest hwaiting hqueue =>
        constructor
        · intro w' src buf hmem
          dsimp only at hmem
          by_cases hw : w' = w
          · rw [hw, Function.update_self] at hmem
            refine hw.symm ▸ h.queued w src buf ?_
            rw [hqueue]
            exact List.mem_cons_of_mem job hmem
          · rw [Function.update_of_ne hw] at hmem
            exact h.queued w' src buf hmem
        · intro w'
          dsimp only
          by_cases hw : w' = w
          · rw [hw, Function.update_self]
            cases job with
            | inbound src buf =>
                refine ⟨fun _ _ _ hplace => ?_, fun hplace => (by cases hplace)⟩
                cases hplace
                refine h.queued w src buf ?_
                rw [hqueue]
                exact List.mem_cons_self
            | outbound buf =>
                exact ⟨fun _ _ _ h => (by cases h), fun h => (by cases h)⟩
          · rw [Function.update_of_ne hw]
            exact h.placed w'
      next => exact h
  | next w =>
      refine ⟨h.queued, fun w' => ?_⟩
      unfold threadStep
      dsimp only
      by_cases hw : w' = w
      · rw [hw, Function.update_self]
        exact threadNext_placed na keys order s.sessions (h.placed w)
      · rw [Function.update_of_ne hw]
        exact h.placed w'
  | other act => exact ⟨h.queued, h.placed⟩
  | shutdown => exact ⟨h.queued, h.placed⟩

theorem run_routed (acts : List (ThreadAct n)) :
    Routed (run (threadStep aead na keys order) (Threads.start n) acts).1 :=
  run_invariant _ (fun _ _ => True) Routed
    (fun _ act h _ => threadStep_routed aead na keys order h act) _ acts routed_start
    (Along.of_forall _ (fun _ => True) _ acts fun _ _ => trivial)

theorem Opening.next_gets (o : Opening) (sessions : Sessions) (stage : Stage) :
    (openingAt (o.next sessions stage).1.1).gets = [] := by
  cases stage with
  | queued | scheduled =>
      dsimp only [Opening.next]
      split
      · rfl
      · rfl
  | derived | keyed | named | numbered | active | scanned | bound | timed | sent => rfl

theorem msg1Derive_gets (env : Env) (random : Ephemeral) (msg1 : Bytes) (src : SockAddr)
    (i : Slot) (sessions : Sessions) :
    (openingAt (msg1Derive na keys order env random msg1 src i sessions).1.1).gets = [] := by
  unfold msg1Derive
  dsimp only
  cases na.signDetached keys.signSk (signedBlob (na.kxPublic random.sPriv) random.sNonce
      (msg1Pub msg1) (msg1Nonce msg1)) with
  | none => rfl
  | some sig =>
      dsimp only
      cases na.serverSecrets random.sPriv keys.serverSk (msg1Pub msg1) (msg1Nonce msg1)
          random.sNonce with
      | none => rfl
      | some secrets => rfl

/-- Only the first step of `handle_msg1` gets a slot. -/
theorem threadNext_gets (sessions : Sessions) {place : ThreadAt} {i : Slot}
    (h : i ∈ (threadNext na keys order sessions place).1.gets) :
    ∃ env random msg1 src, place = .opening (.entered env random msg1 src) := by
  cases place with
  | inbound env src buf =>
      dsimp only [threadNext] at h
      rcases enterInbound_cases na keys order env src buf sessions with
        ⟨hstep, _⟩ | ⟨_, ⟨hstep, _⟩ | ⟨hstep, _⟩⟩ | ⟨_, _, _, hstep⟩
      all_goals
        rw [hstep] at h
        cases h
  | rekeying env src msg1 =>
      dsimp only [threadNext] at h
      rcases enterRekeying_cases na keys order env src msg1 sessions with
        ⟨hstep, _⟩ | ⟨_, hstep, _⟩ | ⟨_, _, hstep, _⟩
      all_goals
        rw [hstep] at h
        cases h
  | data place =>
      dsimp only [threadNext] at h
      generalize (workerNext na order (0 : Fin 1) ⟨sessions, fun _ => place⟩).1.workers 0 =
        next at h
      cases next with
      | idle | found | checked | decrypted | recorded => cases h
  | opening place =>
      cases place with
      | entered env random msg1 src => exact ⟨env, random, msg1, src, rfl⟩
      | reserved env random msg1 src i =>
          dsimp only [threadNext, msg1Next] at h
          rw [msg1Derive_gets] at h
          cases h
      | writing o stage =>
          dsimp only [threadNext, msg1Next] at h
          rw [Opening.next_gets] at h
          cases h
      | allocated | returned => cases h
  | waiting | rotating | outbound => cases h

/-- The worker that a slot is handed to was at the start of `handle_msg1`. -/
theorem threadStep_hands {s : Threads n} {act : ThreadAct n} {w : Fin n} {i : Slot}
    (h : (w, i) ∈ (threadStep aead na keys order s act).2) :
    ∃ env random msg1 src, s.workers w = .opening (.entered env random msg1 src) := by
  cases act with
  | next w' =>
      obtain ⟨j, hj, hpair⟩ := List.mem_map.mp h
      cases hpair
      exact threadNext_gets na keys order s.sessions hj
  | receive | readTun | take | other | shutdown => cases h

end Routing

/-! A job that no other thread interrupts is the whole call. -/

section Uninterrupted

variable (aead : Aead) (na : Sodium) (keys : ServerKeys) (order : Endian) {n : Nat}
  [NeZero n]

/-- One step of a worker, with the table it finds. -/
def threadTurn (call : ThreadAt × Sessions) : ThreadAt × Sessions :=
  threadNext na keys order call.2 call.1

theorem run_next (w : Fin n) (count : Nat) (s : Threads n) :
    (run (threadStep aead na keys order) s (List.replicate count (.next w))).1 =
      let call := (threadTurn na keys order)^[count] (s.workers w, s.sessions)
      { s with sessions := call.2, workers := Function.update s.workers w call.1 } := by
  induction count generalizing s with
  | zero =>
      dsimp only [Function.iterate_zero, id_eq]
      rw [Function.update_eq_self]
      rfl
  | succ count ih =>
      rw [List.replicate_succ, run]
      dsimp only
      rw [ih, Function.iterate_succ_apply]
      dsimp only [threadStep]
      rw [Function.update_self, Function.update_idem]
      rfl

theorem turns_waiting (count : Nat) (sessions : Sessions) :
    (threadTurn na keys order)^[count] (.waiting, sessions) = (.waiting, sessions) :=
  Function.iterate_fixed rfl count

/-- In `handle_msg1` a worker does the steps of the call. -/
theorem turns_opening (count : Nat) (place : Msg1At) (sessions : Sessions) :
    (threadTurn na keys order)^[count] (openingAt place, sessions) =
      let call := (msg1Run na keys order count (place, sessions)).1
      (openingAt call.1, call.2) := by
  induction count generalizing place sessions with
  | zero => rfl
  | succ count ih =>
      have hturn : threadTurn na keys order (openingAt place, sessions) =
          let call := (msg1Next na keys order (place, sessions)).1
          (openingAt call.1, call.2) := by
        cases place with
        | entered | allocated | reserved | writing | returned => rfl
      rw [Function.iterate_succ_apply, hturn]
      exact ih _ _

theorem turns_entered (env : Env) (random : Ephemeral) (msg1 : Bytes) (src : SockAddr)
    (sessions : Sessions) :
    (threadTurn na keys order)^[14] (.opening (.entered env random msg1 src), sessions) =
      (.waiting, (handleMsg1 na keys order env random msg1 src sessions).1) := by
  have hopening := turns_opening na keys order 14 (.entered env random msg1 src) sessions
  obtain ⟨⟨zero, hplace⟩, hsessions, _⟩ :=
    msg1_uninterrupted na keys order env random msg1 src sessions
  dsimp only at hopening
  rw [hplace, hsessions] at hopening
  exact hopening

theorem dataAt_of_ne {place : WorkerAt} (h : place ≠ .idle) : dataAt place = .data place := by
  cases place with
  | idle => exact absurd rfl h
  | found | checked | decrypted | recorded => rfl

theorem Pool.mk_one (pool : Pool 1) :
    Pool.mk pool.sessions (fun _ => pool.workers 0) = pool := by
  obtain ⟨sessions, workers⟩ := pool
  refine congrArg (Pool.mk sessions) (funext fun w => ?_)
  rw [Subsingleton.elim w 0]

/-- In the data path a worker does the steps of a pool of one. -/
theorem turns_data (count : Nat) (place : WorkerAt) (sessions : Sessions) :
    (threadTurn na keys order)^[count] (dataAt place, sessions) =
      let pool := (run (poolStep na keys order) (⟨sessions, fun _ => place⟩ : Pool 1)
        (List.replicate count (.next 0))).1
      (dataAt (pool.workers 0), pool.sessions) := by
  induction count generalizing place sessions with
  | zero => rfl
  | succ count ih =>
      have hturn : threadTurn na keys order (dataAt place, sessions) =
          let pool := (workerNext na order (0 : Fin 1) ⟨sessions, fun _ => place⟩).1
          (dataAt (pool.workers 0), pool.sessions) := by
        by_cases hidle : place = .idle
        · rw [hidle]
          rfl
        · rw [dataAt_of_ne hidle]
          rfl
      rw [Function.iterate_succ_apply, hturn]
      dsimp only
      rw [ih, Pool.mk_one, run_next_succ]

theorem workerReceive_found (env : Env) (src : SockAddr) (buf : Bytes) (i : Slot)
    (sessions : Sessions) (hmain : mainAccepts order buf = true)
    (hreaches : ReachesLookup order env buf) (hfound : lookup env buf sessions = some i) :
    workerReceive na keys order env src buf (⟨sessions, fun _ => .idle⟩ : Pool 1) =
      ⟨Function.update sessions i { sessions i with lastActivity := env.now },
        fun _ => .found env buf i⟩ := by
  unfold workerReceive
  dsimp only
  rw [hmain, if_neg (by decide), if_neg hreaches.2.2.2.1, if_pos hreaches, hfound]
  refine congrArg (Pool.mk _) (funext fun w => ?_)
  rw [Subsingleton.elim w (shardOf 1 buf)]
  exact Function.update_self ..

/-- The data path without interruption. -/
theorem turns_found (env : Env) (src : SockAddr) (buf : Bytes) (i : Slot)
    (sessions : Sessions) (hmain : mainAccepts order buf = true)
    (hreaches : ReachesLookup order env buf) (hfound : lookup env buf sessions = some i) :
    (threadTurn na keys order)^[4] (.data (.found env buf i),
        Function.update sessions i { sessions i with lastActivity := env.now }) =
      (.waiting, (handleInboundUdp na keys order env src buf sessions).1) := by
  have hdata := turns_data na keys order 4 (.found env buf i)
    (Function.update sessions i { sessions i with lastActivity := env.now })
  have hpool := run_uninterrupted na keys order env src buf
    (⟨sessions, fun _ => .idle⟩ : Pool 1) hmain rfl
  unfold uninterrupted at hpool
  rw [run, poolStep, workerReceive_found na keys order env src buf i sessions hmain hreaches
    hfound, Subsingleton.elim (shardOf 1 buf) 0] at hpool
  dsimp only at hpool hdata
  rw [hpool] at hdata
  exact hdata

/-- The steps of a worker with a datagram that `main` accepted, without interruption, are
`handle_inbound_udp`. -/
theorem turns_inbound (env : Env) (src : SockAddr) (buf : Bytes) (sessions : Sessions)
    (hmain : mainAccepts order buf = true) :
    (threadTurn na keys order)^[16] (.inbound env src buf, sessions) =
      (.waiting, (handleInboundUdp na keys order env src buf sessions).1) := by
  have hfirst : threadTurn na keys order (.inbound env src buf, sessions) =
      enterInbound order env src buf sessions := rfl
  rw [Function.iterate_succ_apply, hfirst]
  rcases enterInbound_cases na keys order env src buf sessions with
    ⟨henter, hcall⟩ | ⟨_, ⟨henter, hcall⟩ | ⟨henter, hcall⟩⟩ | ⟨hreaches, i, hfound, henter⟩
  · rw [henter, hcall]
    exact turns_waiting na keys order 15 sessions
  · have hsecond : threadTurn na keys order (.rekeying env src buf, sessions) =
        (enterRekeying na keys env src buf sessions, sessions) := rfl
    rw [henter, hcall, Function.iterate_succ_apply, hsecond]
    rcases enterRekeying_cases na keys order env src buf sessions with
      ⟨henter', hcall'⟩ | ⟨random, henter', hcall'⟩ | ⟨i, secrets, henter', hcall'⟩
    · rw [henter', hcall']
      exact turns_waiting na keys order 14 sessions
    · rw [henter', hcall']
      exact turns_entered na keys order env random buf src sessions
    · rw [henter', hcall', Function.iterate_succ_apply]
      exact turns_waiting na keys order 13 _
  · rw [henter, hcall, Function.iterate_succ_apply', turns_entered]
    rfl
  · rw [henter, show 15 = 11 + 4 from rfl, Function.iterate_add_apply,
      turns_found na keys order env src buf i sessions hmain hreaches hfound]
    exact turns_waiting na keys order 11 _

/-- A job that no other thread interrupts. -/
theorem job_uninterrupted (env : Env) (src : SockAddr) (buf : Bytes) (w : Fin n)
    (s : Threads n) (hmain : mainAccepts order buf = true)
    (hplace : s.workers w = .inbound env src buf) :
    (run (threadStep aead na keys order) s (List.replicate 16 (.next w))).1 =
      { s with
        sessions := (handleInboundUdp na keys order env src buf s.sessions).1
        workers := Function.update s.workers w .waiting } := by
  rw [run_next, hplace]
  dsimp only
  rw [turns_inbound na keys order env src buf s.sessions hmain]

end Uninterrupted

/-- In every run of the thread pool no two workers are at the same time between
`allocate_session` and the store to `active` or the failure return. And when
`allocate_session` hands out a slot, no call of `handle_msg1` that has not returned
holds one. -/
theorem allocation_exclusive (aead : Aead) (na : Sodium) (keys : ServerKeys)
    (order : Endian) (n : Nat) [NeZero n] (acts : List (ThreadAct n)) :
    let s := (run (threadStep aead na keys order) (Threads.start n) acts).1
    (∀ w w' i i', (s.workers w).reserving = some i → (s.workers w').reserving = some i' →
      w = w') ∧
    (∀ act w i, (w, i) ∈ (threadStep aead na keys order s act).2 →
      ∀ w', (s.workers w').holds = none) := by
  intro s
  have hrouted : Routed s := run_routed aead na keys order acts
  have honly : ∀ w, (s.workers w).inHandshake = true → w = 0 := fun w =>
    (hrouted.placed w).2
  constructor
  · intro w w' i i' hw hw'
    rw [honly w (ThreadAt.inHandshake_of_reserving hw),
      honly w' (ThreadAt.inHandshake_of_reserving hw')]
  · intro act w i hhands w'
    obtain ⟨env, random, msg1, src, hw⟩ := threadStep_hands aead na keys order hhands
    by_contra hholds
    obtain ⟨j, hj⟩ := Option.ne_none_iff_exists'.mp hholds
    have hentered : (s.workers w).inHandshake = true := by
      rw [hw]
      rfl
    have hsame : w' = w := by
      rw [honly w' (ThreadAt.inHandshake_of_holds hj), honly w hentered]
    rw [hsame, hw] at hj
    cases hj

/-- Two clients say MSG1 to a server with three workers. The first call has its slot, the
second is still to be taken up. -/
def twoHandshakes : List (ThreadAct 3) :=
  let env : Env := ⟨100, .ok, .ok, ⟨Octets.zero privkeyLen, Octets.zero 8⟩,
    ⟨Octets.zero privkeyLen, Octets.zero 8⟩, true, true, fun _ => 0, fun _ => 0⟩
  let msg1 := buildMsg1 .little (Octets.zero pubkeyLen) (Octets.zero 8) ⟨5, 1024, 78, 78⟩
  -- the workers 0, 1 and 2
  let first : Fin 3 := (Fin.last 0).castSucc.castSucc
  let second : Fin 3 := (Fin.last 1).castSucc
  let third : Fin 3 := Fin.last 2
  [.receive ⟨1, 2⟩ msg1 true, .receive ⟨3, 4⟩ msg1 true, .take first env 0, .next first,
    .next first, .take second env 0, .take third env 0]

theorem allocation_exclusive_three :
    let keys : ServerKeys := ⟨Octets.zero 64, true, Octets.zero privkeyLen⟩
    let s := (run (threadStep .plainText Sodium.xorSodium keys .little) (Threads.start 3)
      twoHandshakes).1
    ((s.workers 0).reserving = some 0 ∧ (s.queues 0).length = 1) ∧
      (∀ w w' i i', (s.workers w).reserving = some i →
        (s.workers w').reserving = some i' → w = w') ∧
      (∀ act w i, (w, i) ∈ (threadStep .plainText Sodium.xorSodium keys .little s act).2 →
        ∀ w', (s.workers w').holds = none) :=
  ⟨by decide +kernel, allocation_exclusive .plainText Sodium.xorSodium
    ⟨Octets.zero 64, true, Octets.zero privkeyLen⟩ .little 3 twoHandshakes⟩

end Chamlon.Server
