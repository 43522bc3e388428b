import Mathlib.Tactic
import Chamlon.ReplayHistory
import Chamlon.Server.Leaves
import Chamlon.Server.Sharding

/-!
The workers of the thread pool. A worker handles a data datagram in steps, and other
workers run between them: session lookup, `check_replay`, `aead_decrypt` with the key
that is then in the slot, `update_window`, and what follows. It holds no lock between
the steps. A handshake is one step of the worker of shard 0.

The events are the keys and sequence numbers that `aead_decrypt` authenticates, and the
stores of `update_window` past the end of the bitmap. The latter need two workers on one
slot: one has passed `check_replay` when the other moves the window so far ahead that
the number is a whole window behind.

A window that shows only numbers of the current key stays so, as long as no handshake
installs a key while a worker stands between `aead_decrypt` and `update_window` for the
slot, and the number that a worker records is not that far behind.
-/

namespace Chamlon.Server

open Config Memory Machine ReplayWindow

/-- Where a worker stands in `handle_inbound_udp`, behind the step of that name. -/
inductive WorkerAt where
  | idle
  | found (env : Env) (buf : Bytes) (i : Slot)
  | checked (env : Env) (buf : Bytes) (i : Slot)
  | decrypted (env : Env) (i : Slot) (seq : BitVec 64) (plain : Bytes)
  | recorded (env : Env) (i : Slot) (plain : Bytes)

/-- The slot whose window the worker is about to write. -/
def WorkerAt.recording : WorkerAt → Option Slot
  | .decrypted _ i _ _ => some i
  | _ => none

/-- A number that the worker is about to record is above `recv_max` or less than
`WINDOW_SIZE` behind it. -/
def WorkerAt.Near (sessions : Sessions) : WorkerAt → Prop
  | .decrypted _ i seq _ => (sessions i).rw.recvMax < seq ∨
      (sessions i).rw.recvMax.toNat < seq.toNat + windowSize
  | _ => True

instance (sessions : Sessions) : DecidablePred (WorkerAt.Near sessions)
  | .decrypted _ _ _ _ => inferInstanceAs (Decidable (_ ∨ _))
  | .idle | .found _ _ _ | .checked _ _ _ | .recorded _ _ _ =>
      inferInstanceAs (Decidable True)

structure Pool (n : Nat) where
  sessions : Sessions
  workers : Fin n → WorkerAt

def Pool.start (n : Nat) : Pool n := ⟨noSessions, fun _ => .idle⟩

def Pool.store {n : Nat} (s : Pool n) (sessions : Sessions) : Pool n :=
  { s with sessions := sessions }

def Pool.move {n : Nat} (s : Pool n) (w : Fin n) (at' : WorkerAt) : Pool n :=
  { s with workers := Function.update s.workers w at' }

inductive PoolAct (n : Nat) where
  /-- The worker of its shard takes up a datagram and does the session lookup, or the
  whole handshake. -/
  | receive (env : Env) (src : SockAddr) (buf : Bytes)
  /-- The next step of a worker. -/
  | next (w : Fin n)
  /-- What other threads do to the table. -/
  | free (i : Slot)
  | maintenance (now : Int)

inductive WindowEvent where
  /-- A key and a sequence number that `aead_decrypt` authenticates under it. -/
  | authenticated (key : Octets aeadKeyLen) (seq : BitVec 64)
  /-- `update_window` writes past the bitmap of the slot. What the code does from there
  on is undefined. -/
  | outOfBounds (i : Slot) (seq : BitVec 64)
deriving DecidableEq

section Machine

variable (na : Sodium) (keys : ServerKeys) (order : Endian) {n : Nat}

def workerReceive [NeZero n] (env : Env) (src : SockAddr) (buf : Bytes) (s : Pool n) :
    Pool n :=
  match s.workers (shardOf n buf) with
  | .idle =>
      if !mainAccepts order buf then s
      else if packetType buf = pktTypeHandshake then
        s.store (handleInboundUdp na keys order env src buf s.sessions).1
      else if ReachesLookup order env buf then
        match lookup env buf s.sessions with
        | none => s
        | some i =>
            (s.store (Function.update s.sessions i
              { s.sessions i with lastActivity := env.now })).move
              (shardOf n buf) (.found env buf i)
      else s
  | _ => s

def workerNext (w : Fin n) (s : Pool n) : Pool n × List WindowEvent :=
  match s.workers w with
  | .idle => (s, [])
  | .found env buf i =>
      if (s.sessions i).rw.checkReplay (pktSeq env buf) then (s.move w .idle, [])
      else (s.move w (.checked env buf i), [])
  | .checked env buf i =>
      let seq := pktSeq env buf
      let cipherLen := (buf.length + 2 ^ 64 - dataHeaderLen) % 2 ^ 64
      if bufferSize - dataHeaderLen < cipherLen then (s.move w .idle, [])
      else
        match na.decrypt (s.sessions i).kRecv (s.sessions i).sessionId seq
            (slice buf dataHeaderLen cipherLen) with
        | none => (s.move w .idle, [])
        | some plain =>
            if bufferSize < plain.length then
              (s.move w .idle, [.authenticated (s.sessions i).kRecv seq])
            else (s.move w (.decrypted env i seq plain),
              [.authenticated (s.sessions i).kRecv seq])
  | .decrypted env i seq plain =>
      ((s.store (Function.update s.sessions i
          { s.sessions i with rw := (s.sessions i).rw.updateWindow seq })).move
        w (.recorded env i plain),
        if (s.sessions i).rw.marksInside seq then [] else [.outOfBounds i seq])
  | .recorded env i plain =>
      ((s.store (inboundAccepted order env i plain s.sessions).1).move w .idle, [])

def poolStep [NeZero n] (s : Pool n) : PoolAct n → Pool n × List WindowEvent
  | .receive env src buf => (workerReceive na keys order env src buf s, [])
  | .next w => workerNext na order w s
  | .free i => (s.store (freeSession i s.sessions).1, [])
  | .maintenance now => (s.store (performMaintenance now s.sessions).1, [])

/-- A handshake installs keys only in slots for which no worker stands between
`aead_decrypt` and `update_window`, and the number that a worker records is above
`recv_max` or less than a window behind it. -/
def WindowSafe (s : Pool n) : PoolAct n → Prop
  | .receive env src buf =>
      ∀ i ∈ installedSlots (handleInboundUdp na keys order env src buf s.sessions).2,
        ∀ w, (s.workers w).recording ≠ some i
  | .next w => (s.workers w).Near s.sessions
  | _ => True

instance (s : Pool n) : DecidablePred (WindowSafe na keys order s)
  | .receive _ _ _ => inferInstanceAs (Decidable (∀ _ ∈ _, ∀ _, _))
  | .next w => inferInstanceAs (Decidable ((s.workers w).Near s.sessions))
  | .free _ => inferInstanceAs (Decidable True)
  | .maintenance _ => inferInstanceAs (Decidable True)

end Machine

/-- The numbers authenticated under the key that is in the slot. -/
def ownNumbers (past : List WindowEvent) (s : Session) : Set (BitVec 64) :=
  { seq | .authenticated s.kRecv seq ∈ past }

/-- What a worker carries is good for the slot it works on. -/
def Carries (past : List WindowEvent) (sessions : Sessions) : WorkerAt → Prop
  | .checked env buf _ => pktSeq env buf ≠ 0
  | .decrypted _ i seq _ =>
      seq ≠ 0 ∧ ((sessions i).active = true → seq ∈ ownNumbers past (sessions i))
  | _ => True

structure Owned {n : Nat} (past : List WindowEvent) (s : Pool n) : Prop where
  windows : ∀ i, (s.sessions i).active = true →
    StandsFor (s.sessions i).rw (ownNumbers past (s.sessions i))
  workers : ∀ w, Carries past s.sessions (s.workers w)
  inside : ∀ i seq, .outOfBounds i seq ∉ past

theorem owned_start (n : Nat) : Owned [] (Pool.start n) where
  windows _ hactive := by cases hactive
  workers _ := trivial
  inside _ _ := List.not_mem_nil

section Uninterrupted

variable {n : Nat}

@[simp] theorem Pool.move_workers (s : Pool n) (w : Fin n) (at' : WorkerAt) :
    (s.move w at').workers w = at' :=
  Function.update_self ..

@[simp] theorem Pool.move_sessions (s : Pool n) (w : Fin n) (at' : WorkerAt) :
    (s.move w at').sessions = s.sessions := rfl

@[simp] theorem Pool.store_sessions (s : Pool n) (sessions : Sessions) :
    (s.store sessions).sessions = sessions := rfl

@[simp] theorem Pool.move_move (s : Pool n) (w : Fin n) (first second : WorkerAt) :
    (s.move w first).move w second = s.move w second := by
  simp [Pool.move]

@[simp] theorem Pool.store_move (s : Pool n) (w : Fin n) (at' : WorkerAt)
    (sessions : Sessions) : (s.move w at').store sessions = (s.store sessions).move w at' :=
  rfl

@[simp] theorem Pool.store_store (s : Pool n) (first second : Sessions) :
    (s.store first).store second = s.store second := rfl

theorem Pool.move_self {s : Pool n} {w : Fin n} {at' : WorkerAt} (h : s.workers w = at') :
    s.move w at' = s := by
  simp [Pool.move, ← h]

variable (na : Sodium) (keys : ServerKeys) (order : Endian) [NeZero n]

theorem run_next_idle (w : Fin n) (s : Pool n) (h : s.workers w = .idle) (count : Nat) :
    (run (poolStep na keys order) s (List.replicate count (.next w))).1 = s := by
  induction count with
  | zero => rfl
  | succ count ih =>
      have hstep : poolStep na keys order s (.next w) = (s, []) := by
        rw [poolStep, workerNext, h]
      rw [List.replicate_succ, run, hstep]
      exact ih

theorem run_next_succ (w : Fin n) (s : Pool n) (count : Nat) :
    (run (poolStep na keys order) s (List.replicate (count + 1) (.next w))).1 =
      (run (poolStep na keys order) (workerNext na order w s).1
        (List.replicate count (.next w))).1 := rfl

theorem run_stopped (w : Fin n) (s : Pool n) (hidle : s.workers w = .idle) (count : Nat) :
    (run (poolStep na keys order) (s.move w .idle) (List.replicate count (.next w))).1 =
      s := by
  rw [Pool.move_self hidle]
  exact run_next_idle na keys order w s hidle count

/-! What is left of `handle_inbound_udp` at each place, from the last to the first. -/

theorem run_recorded (env : Env) (i : Slot) (plain : Bytes) (w : Fin n) (s : Pool n)
    (hidle : s.workers w = .idle) :
    (run (poolStep na keys order) (s.move w (.recorded env i plain)) [.next w]).1 =
      s.store (inboundAccepted order env i plain s.sessions).1 := by
  have hnext : (workerNext na order w (s.move w (.recorded env i plain))).1 =
      (s.store (inboundAccepted order env i plain s.sessions).1).move w .idle := by
    unfold workerNext
    rw [Pool.move_workers]
    dsimp only
    rw [Pool.move_sessions, Pool.store_move, Pool.move_move]
  refine (run_next_succ na keys order w _ 0).trans ?_
  rw [hnext]
  exact run_stopped na keys order w
    (s.store (inboundAccepted order env i plain s.sessions).1) hidle 0

theorem run_decrypted (env : Env) (i : Slot) (seq : BitVec 64) (plain : Bytes) (w : Fin n)
    (s : Pool n) (hidle : s.workers w = .idle) :
    (run (poolStep na keys order) (s.move w (.decrypted env i seq plain))
        (List.replicate 2 (.next w))).1 =
      s.store (inboundAccepted order env i plain (Function.update s.sessions i
        { s.sessions i with rw := (s.sessions i).rw.updateWindow seq })).1 := by
  have hnext : (workerNext na order w (s.move w (.decrypted env i seq plain))).1 =
      (s.store (Function.update s.sessions i
        { s.sessions i with rw := (s.sessions i).rw.updateWindow seq })).move w
          (.recorded env i plain) := by
    unfold workerNext
    rw [Pool.move_workers]
    dsimp only
    rw [Pool.move_sessions, Pool.store_move, Pool.move_move]
  rw [run_next_succ, hnext]
  exact run_recorded na keys order env i plain w (s.store _) hidle

theorem run_checked (env : Env) (buf : Bytes) (i : Slot) (w : Fin n) (s : Pool n)
    (hidle : s.workers w = .idle) :
    (run (poolStep na keys order) (s.move w (.checked env buf i))
        (List.replicate 3 (.next w))).1 =
      s.store
        (let cipherLen := (buf.length + 2 ^ 64 - dataHeaderLen) % 2 ^ 64
        if bufferSize - dataHeaderLen < cipherLen then s.sessions
        else
          match na.decrypt (s.sessions i).kRecv (s.sessions i).sessionId (pktSeq env buf)
              (slice buf dataHeaderLen cipherLen) with
          | none => s.sessions
          | some plain =>
              if bufferSize < plain.length then s.sessions
              else (inboundAccepted order env i plain (Function.update s.sessions i
                { s.sessions i with
                  rw := (s.sessions i).rw.updateWindow (pktSeq env buf) })).1) := by
  have hstop := run_stopped na keys order w s hidle 2
  rw [run_next_succ]
  generalize hcipher : (buf.length + 2 ^ 64 - dataHeaderLen) % 2 ^ 64 = cipherLen
  unfold workerNext
  rw [Pool.move_workers]
  dsimp only
  rw [Pool.move_sessions, hcipher]
  by_cases hlong : bufferSize - dataHeaderLen < cipherLen
  · rw [if_pos hlong, if_pos hlong, Pool.move_move]
    exact hstop
  rw [if_neg hlong, if_neg hlong]
  cases na.decrypt (s.sessions i).kRecv (s.sessions i).sessionId (pktSeq env buf)
      (slice buf dataHeaderLen cipherLen) with
  | none =>
      dsimp only
      rw [Pool.move_move]
      exact hstop
  | some plain =>
      dsimp only
      by_cases hfits : bufferSize < plain.length
      · rw [if_pos hfits, if_pos hfits, Pool.move_move]
        exact hstop
      · rw [if_neg hfits, if_neg hfits, Pool.move_move]
        exact run_decrypted na keys order env i (pktSeq env buf) plain w s hidle

theorem run_found (env : Env) (buf : Bytes) (i : Slot) (w : Fin n) (s : Pool n)
    (hidle : s.workers w = .idle) :
    (run (poolStep na keys order) (s.move w (.found env buf i))
        (List.replicate 4 (.next w))).1 =
      s.store
        (let cipherLen := (buf.length + 2 ^ 64 - dataHeaderLen) % 2 ^ 64
        if (s.sessions i).rw.checkReplay (pktSeq env buf) then s.sessions
        else if bufferSize - dataHeaderLen < cipherLen then s.sessions
        else
          match na.decrypt (s.sessions i).kRecv (s.sessions i).sessionId (pktSeq env buf)
              (slice buf dataHeaderLen cipherLen) with
          | none => s.sessions
          | some plain =>
              if bufferSize < plain.length then s.sessions
              else (inboundAccepted order env i plain (Function.update s.sessions i
                { s.sessions i with
                  rw := (s.sessions i).rw.updateWindow (pktSeq env buf) })).1) := by
  have hchecked := run_checked na keys order env buf i w s hidle
  rw [run_next_succ]
  unfold workerNext
  rw [Pool.move_workers]
  generalize (buf.length + 2 ^ 64 - dataHeaderLen) % 2 ^ 64 = cipherLen at hchecked ⊢
  dsimp only at hchecked ⊢
  rw [Pool.move_sessions]
  by_cases hreplay : (s.sessions i).rw.checkReplay (pktSeq env buf) = true
  · rw [if_pos hreplay, if_pos hreplay, Pool.move_move]
    exact run_stopped na keys order w s hidle 3
  · rw [if_neg hreplay, if_neg hreplay, Pool.move_move]
    exact hchecked

/-- A datagram that no other thread interrupts. -/
def uninterrupted (env : Env) (src : SockAddr) (buf : Bytes) : List (PoolAct n) :=
  .receive env src buf :: List.replicate 4 (.next (shardOf n buf))

/-- Its steps together are `handle_inbound_udp`. -/
theorem run_uninterrupted (env : Env) (src : SockAddr) (buf : Bytes) (s : Pool n)
    (hmain : mainAccepts order buf = true) (hidle : s.workers (shardOf n buf) = .idle) :
    (run (poolStep na keys order) s (uninterrupted env src buf)).1 =
      s.store (handleInboundUdp na keys order env src buf s.sessions).1 := by
  have hstop := fun sessions => run_next_idle na keys order (shardOf n buf)
    (s.store sessions) hidle 4
  have hrun : (run (poolStep na keys order) s (uninterrupted env src buf)).1 =
      (run (poolStep na keys order) (workerReceive na keys order env src buf s)
        (List.replicate 4 (.next (shardOf n buf)))).1 := rfl
  rw [hrun]
  unfold workerReceive
  rw [hidle, hmain]
  dsimp only
  by_cases htype : packetType buf = pktTypeHandshake
  · rw [if_neg (by decide), if_pos htype]
    exact hstop _
  rw [if_neg (by decide), if_neg htype]
  rcases handleInboundUdp_cases na keys order env src buf s.sessions with
    ⟨hstays, events, _, hdropped⟩ | ⟨hhandshake, _⟩ | ⟨hreaches, hdata⟩
  · rw [if_neg hstays, hdropped]
    exact hstop s.sessions
  · exact absurd hhandshake.2.1 htype
  rw [if_pos hreaches, hdata, emit_fst]
  have hlookup : lookup env buf s.sessions = sessionById (Octets.read sessionIdLen
    (peek buf env.past) protoHeaderLen) s.sessions := rfl
  unfold inboundData
  dsimp only
  rw [← hlookup]
  cases hfound : lookup env buf s.sessions with
  | none => exact hstop s.sessions
  | some i =>
      dsimp only
      generalize Function.update s.sessions i
        { s.sessions i with lastActivity := env.now } = sessions
      rw [run_found na keys order env buf i _ (s.store sessions) hidle, Pool.store_store,
        Pool.store_sessions]
      refine congrArg s.store ?_
      generalize (buf.length + 2 ^ 64 - dataHeaderLen) % 2 ^ 64 = cipherLen
      dsimp only
      split
      · rfl
      split
      · rfl
      cases na.decrypt (sessions i).kRecv (sessions i).sessionId (pktSeq env buf)
          (slice buf dataHeaderLen cipherLen) with
      | none => rfl
      | some plain =>
          dsimp only
          split
          · rfl
          · rfl

/-- The number that the worker carries has passed `check_replay` of the window that is in
the slot now. -/
inductive WorkerAt.Passed (sessions : Sessions) : WorkerAt → Prop
  | idle : Passed sessions .idle
  | found (env : Env) (buf : Bytes) (i : Slot) : Passed sessions (.found env buf i)
  | checked {env : Env} {buf : Bytes} {i : Slot}
      (h : (sessions i).rw.checkReplay (pktSeq env buf) = false) :
      Passed sessions (.checked env buf i)
  | decrypted {env : Env} {i : Slot} {seq : BitVec 64} {plain : Bytes}
      (h : (sessions i).rw.checkReplay seq = false) :
      Passed sessions (.decrypted env i seq plain)
  | recorded (env : Env) (i : Slot) (plain : Bytes) : Passed sessions (.recorded env i plain)

omit [NeZero n] in
/-- A worker stops at `aead_decrypt`, or goes on with what it has decrypted. -/
theorem workerNext_checked (w : Fin n) (s : Pool n) {env : Env} {buf : Bytes} {i : Slot}
    (hat : s.workers w = .checked env buf i) :
    (workerNext na order w s).1 = s.move w .idle ∨
      ∃ plain, (workerNext na order w s).1 =
        s.move w (.decrypted env i (pktSeq env buf) plain) := by
  unfold workerNext
  rw [hat]
  dsimp only
  generalize (buf.length + 2 ^ 64 - dataHeaderLen) % 2 ^ 64 = cipherLen
  by_cases hlong : bufferSize - dataHeaderLen < cipherLen
  · rw [if_pos hlong]
    exact .inl rfl
  rw [if_neg hlong]
  cases na.decrypt (s.sessions i).kRecv (s.sessions i).sessionId (pktSeq env buf)
      (slice buf dataHeaderLen cipherLen) with
  | none => exact .inl rfl
  | some plain =>
      dsimp only
      by_cases hfits : bufferSize < plain.length
      · rw [if_pos hfits]
        exact .inl rfl
      · rw [if_neg hfits]
        exact .inr ⟨plain, rfl⟩

omit [NeZero n] in
theorem workerNext_passed (w : Fin n) (s : Pool n) (h : (s.workers w).Passed s.sessions) :
    ((workerNext na order w s).1.workers w).Passed (workerNext na order w s).1.sessions := by
  cases hat : s.workers w with
  | idle =>
      unfold workerNext
      rw [hat]
      dsimp only
      rw [hat]
      exact .idle
  | found env buf i =>
      unfold workerNext
      rw [hat]
      dsimp only
      split
      · rw [Pool.move_workers]
        exact .idle
      next hnew =>
        rw [Pool.move_workers]
        exact .checked (Bool.eq_false_iff.mpr hnew)
  | checked env buf i =>
      rw [hat] at h
      rcases workerNext_checked na order w s hat with hstep | ⟨plain, hstep⟩
      · rw [hstep, Pool.move_workers]
        exact .idle
      · rw [hstep, Pool.move_workers]
        cases h with
        | checked hpassed => exact .decrypted hpassed
  | decrypted env i seq plain =>
      unfold workerNext
      rw [hat]
      dsimp only
      rw [Pool.move_workers]
      exact .recorded env i plain
  | recorded env i plain =>
      unfold workerNext
      rw [hat]
      dsimp only
      rw [Pool.move_workers]
      exact .idle

theorem WorkerAt.Passed.near {sessions : Sessions} {place : WorkerAt}
    (h : place.Passed sessions) : place.Near sessions := by
  cases h with
  | decrypted hpassed => exact (accepted_near _ _ (by decide) hpassed).2
  | idle | found | checked | recorded => trivial

theorem along_next_safe (w : Fin n) (count : Nat) (s : Pool n)
    (h : (s.workers w).Passed s.sessions) :
    Along (poolStep na keys order) (WindowSafe na keys order) s
      (List.replicate count (.next w)) := by
  induction count generalizing s with
  | zero => trivial
  | succ count ih => exact ⟨h.near, ih _ (workerNext_passed na order w s h)⟩

/-- The number of a datagram that no other thread interrupts is never a window behind:
`update_window` runs on the window that `check_replay` has seen. -/
theorem uninterrupted_safe (env : Env) (src : SockAddr) (buf : Bytes) (s : Pool n)
    (hidle : s.workers (shardOf n buf) = .idle)
    (hreceive : WindowSafe na keys order s (.receive env src buf)) :
    Along (poolStep na keys order) (WindowSafe na keys order) s
      (uninterrupted env src buf) := by
  refine ⟨hreceive, along_next_safe na keys order _ 4 _ ?_⟩
  have hstays : ∀ sessions, ((s.store sessions).workers (shardOf n buf)).Passed sessions := by
    intro sessions
    have hworker : (s.store sessions).workers (shardOf n buf) = .idle := hidle
    rw [hworker]
    exact .idle
  dsimp only [poolStep]
  unfold workerReceive
  rw [hidle]
  dsimp only
  split
  · exact hstays s.sessions
  split
  · exact hstays _
  split
  · cases lookup env buf s.sessions with
    | none => exact hstays s.sessions
    | some i =>
        dsimp only
        rw [Pool.move_workers]
        exact .found env buf i
  · exact hstays s.sessions

end Uninterrupted

/-- If the slot is active afterwards, it was active before, with the same key and
window. -/
def KeepsWindow (before after : Session) : Prop :=
  after.active = true →
    before.active = true ∧ after.kRecv = before.kRecv ∧ after.rw = before.rw

theorem KeepsWindow.of_eq {before after : Session} (h : after = before) :
    KeepsWindow before after := by
  rw [h]
  exact fun hactive => ⟨hactive, rfl, rfl⟩

theorem KeepsWindow.of_free {before after : Session} (h : after.active = false) :
    KeepsWindow before after := by
  intro hactive
  rw [h] at hactive
  cases hactive

section Steps

variable {n : Nat} {past : List WindowEvent} {s : Pool n}

theorem Owned.more (h : Owned past s) (new : List WindowEvent)
    (hinside : ∀ i seq, .outOfBounds i seq ∉ new) : Owned (past ++ new) s := by
  have hmore : ∀ slot : Session, ownNumbers past slot ⊆ ownNumbers (past ++ new) slot :=
    fun _ _ hseq => List.mem_append_left new hseq
  refine ⟨fun i hactive => (h.windows i hactive).mono (hmore _), fun w => ?_,
    fun i seq hmem => (List.mem_append.mp hmem).elim (h.inside i seq) (hinside i seq)⟩
  have hcarries := h.workers w
  cases hat : s.workers w with
  | decrypted env i seq plain =>
      rw [hat] at hcarries
      exact ⟨hcarries.1, fun hactive => hmore _ (hcarries.2 hactive)⟩
  | checked env buf i =>
      rw [hat] at hcarries
      exact hcarries
  | idle => trivial
  | found env buf i => trivial
  | recorded env i plain => trivial

/-- A step without events. -/
theorem Owned.silent (h : Owned past s) : Owned (past ++ []) s :=
  h.more [] fun _ _ => List.not_mem_nil

/-- `aead_decrypt` authenticates. -/
theorem Owned.authenticated (h : Owned past s) (key : Octets aeadKeyLen)
    (seq : BitVec 64) : Owned (past ++ [.authenticated key seq]) s :=
  h.more _ fun i seq hmem => by cases List.mem_singleton.mp hmem

theorem Owned.move (h : Owned past s) (w : Fin n) (at' : WorkerAt)
    (hcarries : Carries past s.sessions at') : Owned past (s.move w at') := by
  refine ⟨h.windows, fun w' => ?_, h.inside⟩
  unfold Pool.move
  dsimp only
  by_cases hw : w' = w
  · rw [hw, Function.update_self]
    exact hcarries
  · rw [Function.update_of_ne hw]
    exact h.workers w'

/-- A change of the table under which the windows are still those of their keys, and
the keys of the slots that workers are about to write stay. -/
theorem Owned.store (h : Owned past s) (sessions : Sessions)
    (hwindows : ∀ j, (sessions j).active = true →
      StandsFor (sessions j).rw (ownNumbers past (sessions j)))
    (hkeys : ∀ j, ((sessions j).active = true → (s.sessions j).active = true ∧
        (sessions j).kRecv = (s.sessions j).kRecv) ∨
      ∀ w, (s.workers w).recording ≠ some j) :
    Owned past (s.store sessions) := by
  refine ⟨hwindows, fun w => ?_, h.inside⟩
  have hcarries := h.workers w
  unfold Pool.store
  dsimp only
  cases hat : s.workers w with
  | decrypted env i seq plain =>
      rw [hat] at hcarries
      refine ⟨hcarries.1, fun hactive => ?_⟩
      rcases hkeys i with hkeeps | hnone
      · obtain ⟨hbefore, hkey⟩ := hkeeps hactive
        have hown := hcarries.2 hbefore
        unfold ownNumbers at hown ⊢
        rw [hkey]
        exact hown
      · exact absurd (by rw [hat]; rfl) (hnone w)
  | checked env buf i =>
      rw [hat] at hcarries
      exact hcarries
  | idle => trivial
  | found env buf i => trivial
  | recorded env i plain => trivial

theorem Owned.window_of_keeps (h : Owned past s) {j : Slot} {after : Session}
    (hkeeps : KeepsWindow (s.sessions j) after) (hactive : after.active = true) :
    StandsFor after.rw (ownNumbers past after) := by
  obtain ⟨hbefore, hkey, hwindow⟩ := hkeeps hactive
  have hstands := h.windows j hbefore
  unfold ownNumbers at hstands ⊢
  rw [hkey, hwindow]
  exact hstands

/-- A change of the table that keeps windows and keys, or leaves an empty window in a
slot that no worker is about to write. -/
theorem Owned.table (h : Owned past s) (sessions : Sessions)
    (hslots : ∀ j, KeepsWindow (s.sessions j) (sessions j) ∨
      (sessions j).rw = .zero ∧ ∀ w, (s.workers w).recording ≠ some j) :
    Owned past (s.store sessions) := by
  refine h.store sessions (fun j hactive => ?_) (fun j => ?_)
  · rcases hslots j with hkeeps | ⟨hzero, _⟩
    · exact h.window_of_keeps hkeeps hactive
    · rw [hzero]
      exact standsFor_zero _
  · rcases hslots j with hkeeps | ⟨_, hnone⟩
    · exact Or.inl fun hactive => ⟨(hkeeps hactive).1, (hkeeps hactive).2.1⟩
    · exact Or.inr hnone

/-- `update_window` with a number of the current key. -/
theorem Owned.record (h : Owned past s) {w : Fin n} {env : Env} {i : Slot} {seq : BitVec 64}
    {plain : Bytes} (hat : s.workers w = .decrypted env i seq plain) :
    Owned past (s.store (Function.update s.sessions i
      { s.sessions i with rw := (s.sessions i).rw.updateWindow seq })) := by
  have hcarries := h.workers w
  rw [hat] at hcarries
  obtain ⟨hzero, hown⟩ := hcarries
  refine h.store _ (fun j => ?_) (fun j => Or.inl ?_)
  · by_cases hj : j = i
    · rw [hj, Function.update_self]
      intro hactive
      have hstands := (h.windows i hactive).update (by decide) hzero
      rw [Set.insert_eq_of_mem (hown hactive)] at hstands
      exact hstands
    · rw [Function.update_of_ne hj]
      exact h.windows j
  · by_cases hj : j = i
    · rw [hj, Function.update_self]
      exact fun hactive => ⟨hactive, rfl⟩
    · rw [Function.update_of_ne hj]
      exact fun hactive => ⟨hactive, rfl⟩

end Steps

section Run

variable (na : Sodium) (keys : ServerKeys) (order : Endian) {n : Nat}
  {past : List WindowEvent} {s : Pool n}

theorem workerReceive_owned [NeZero n] (env : Env) (src : SockAddr) (buf : Bytes)
    (h : Owned past s) (hnone : WindowSafe na keys order s (.receive env src buf)) :
    Owned past (workerReceive na keys order env src buf s) := by
  unfold workerReceive
  cases hat : s.workers (shardOf n buf) with
  | idle =>
      dsimp only
      split
      · exact h
      split
      next htype =>
        refine h.table _ fun j => ?_
        cases handleInboundUdp_leaves na keys order env src buf s.sessions j with
        | free hfree => exact Or.inl (.of_free hfree)
        | untouched _ hsame => exact Or.inl (.of_eq hsame)
        | installed sessionId hmem _ hwindow _ =>
            exact Or.inr ⟨hwindow, hnone j (mem_installedSlots hmem)⟩
        | heard _ haddressed _ _ => exact absurd htype haddressed.1.2.2.2.1
      split
      · cases hfound : lookup env buf s.sessions with
        | none => exact h
        | some i =>
            refine Owned.move (h.table _ fun j => Or.inl ?_) _ (.found env buf i) trivial
            by_cases hj : j = i
            · rw [hj, Function.update_self]
              exact fun hactive => ⟨hactive, rfl, rfl⟩
            · exact .of_eq (Function.update_of_ne hj _ _)
      · exact h
  | _ => exact h

theorem checkReplay_zero (w : ReplayWindow bitmapWords) : w.checkReplay 0 = true := by
  rw [checkReplay_iff 0 w (by decide)]
  exact Or.inl rfl

theorem workerNext_owned (w : Fin n) (h : Owned past s)
    (hnear : (s.workers w).Near s.sessions) :
    Owned (past ++ (workerNext na order w s).2) (workerNext na order w s).1 := by
  unfold workerNext
  cases hat : s.workers w with
  | idle => exact h.silent
  | found env buf i =>
      dsimp only
      split
      · exact (h.move w .idle trivial).silent
      next hnew =>
        refine Owned.silent (h.move w (.checked env buf i) fun hzero => hnew ?_)
        rw [hzero]
        exact checkReplay_zero _
  | checked env buf i =>
      have hcarries := h.workers w
      rw [hat] at hcarries
      dsimp only
      split
      · exact (h.move w .idle trivial).silent
      split
      · exact (h.move w .idle trivial).silent
      split
      · exact (h.move w .idle trivial).authenticated _ _
      · refine (h.authenticated _ _).move w (.decrypted env i _ _) ⟨hcarries, fun _ => ?_⟩
        exact List.mem_append_right past List.mem_cons_self
  | decrypted env i seq plain =>
      have hcarries := h.workers w
      rw [hat] at hcarries hnear
      have hinside : (s.sessions i).rw.marksInside seq = true :=
        (marksInside_iff seq _ (by decide) hcarries.1).mpr hnear
      dsimp only
      rw [if_pos hinside]
      exact ((h.record hat).move w (.recorded env i plain) trivial).silent
  | recorded env i plain =>
      refine Owned.silent (Owned.move (h.table _ fun j => Or.inl ?_) w .idle trivial)
      rcases inboundAccepted_cases order env i plain s.sessions with
        hfreed | ⟨now, table, events, _, hresult, _⟩
      · rw [hfreed]
        by_cases hj : j = i
        · rw [hj]
          exact .of_free (freeSession_self i s.sessions)
        · exact .of_eq (freeSession_of_ne s.sessions hj)
      · rw [hresult]
        dsimp only
        by_cases hj : j = i
        · rw [hj, Function.update_self]
          exact fun hactive => ⟨hactive, rfl, rfl⟩
        · exact .of_eq (Function.update_of_ne hj _ _)

theorem poolStep_owned [NeZero n] (past : List WindowEvent) (s : Pool n) (a : PoolAct n)
    (h : Owned past s) (hsafe : WindowSafe na keys order s a) :
    Owned (past ++ (poolStep na keys order s a).2) (poolStep na keys order s a).1 := by
  cases a with
  | receive env src buf =>
      exact (workerReceive_owned na keys order env src buf h hsafe).silent
  | next w => exact workerNext_owned na order w h hsafe
  | free i =>
      refine Owned.silent (h.table _ fun j => Or.inl ?_)
      by_cases hj : j = i
      · rw [hj]
        exact .of_free (freeSession_self i s.sessions)
      · exact .of_eq (freeSession_of_ne s.sessions hj)
  | maintenance now =>
      refine Owned.silent (h.table _ fun j => Or.inl ?_)
      rcases performMaintenance_cases now s.sessions j with
        hfree | ⟨hactive, _, hkey, hwindow⟩
      · exact .of_free hfree
      · exact fun _ => ⟨hactive, hkey, hwindow⟩

/-- The window of every session in use belongs to its current key and no store leaves its
bitmap, after every interleaving in which no handshake installs a key between
`aead_decrypt` and `update_window` for the slot and every number recorded is above
`recv_max` or less than a window behind it. -/
theorem window_belongs_to_key [NeZero n] (acts : List (PoolAct n))
    (hsafe : Along (poolStep na keys order) (WindowSafe na keys order) (.start n) acts) :
    let final := run (poolStep na keys order) (.start n) acts
    (∀ i seq, .outOfBounds i seq ∉ final.2) ∧
      ∀ i, (final.1.sessions i).active = true →
        StandsFor (final.1.sessions i).rw (ownNumbers final.2 (final.1.sessions i)) := by
  have howned := run_history (poolStep na keys order) _ Owned
    (poolStep_owned na keys order) [] (.start n) acts (owned_start n) hsafe
  exact ⟨howned.inside, howned.windows⟩

end Run

/-- The client `1:2` shakes hands and sends a datagram, which worker 1 of three takes up
and decrypts. -/
def upToDecrypt : List (PoolAct 3) :=
  [.receive (Agreement.calmEnv 0 3) ⟨1, 2⟩ (Client.clientMsg1 Sodium.xorSodium .little
      ⟨5, 1024, 0, 0⟩ (Agreement.bytewise 5)),
    .receive (Agreement.calmEnv 1 3) ⟨1, 2⟩ (greetedDatagram pktTypeData), .next 1, .next 1]

/-- The client shakes hands again. -/
def rekeyAct : PoolAct 3 :=
  .receive (Agreement.calmEnv 2 4) ⟨1, 2⟩ (Client.clientMsg1 Sodium.xorSodium .little
    ⟨5, 1024, 0, 0⟩ (Agreement.bytewise 6))

def rekeyedAfterwards : List (PoolAct 3) :=
  upToDecrypt ++ [.next 1, rekeyAct, .next 1, .maintenance 3]

theorem window_belongs_to_key_rekeyed :
    Along (poolStep Sodium.xorSodium Agreement.zeroKeys .little)
        (WindowSafe Sodium.xorSodium Agreement.zeroKeys .little) (.start 3)
        rekeyedAfterwards ∧
      let final := run (poolStep Sodium.xorSodium Agreement.zeroKeys .little) (.start 3)
        rekeyedAfterwards
      (∀ i seq, .outOfBounds i seq ∉ final.2) ∧
        ∀ i, (final.1.sessions i).active = true →
          StandsFor (final.1.sessions i).rw (ownNumbers final.2 (final.1.sessions i)) := by
  have hsafe : Along (poolStep Sodium.xorSodium Agreement.zeroKeys .little)
      (WindowSafe Sodium.xorSodium Agreement.zeroKeys .little) (.start 3)
      rekeyedAfterwards := by
    decide +kernel
  exact ⟨hsafe, window_belongs_to_key Sodium.xorSodium Agreement.zeroKeys .little
    rekeyedAfterwards hsafe⟩

/-- The handshake falls between `aead_decrypt` and `update_window`: the new session
starts with a window at number 1, which was authenticated under the old key only. -/
theorem window_of_previous_key :
    let step := poolStep (n := 3) Sodium.xorSodium Agreement.zeroKeys .little
    let old := (run step (.start 3) upToDecrypt).1.sessions 0
    let final := run step (.start 3) (upToDecrypt ++ [rekeyAct, .next 1])
    let slot := final.1.sessions 0
    slot.active = true ∧ slot.rw.recvMax = 1 ∧ slot.kRecv ≠ old.kRecv ∧
      final.2 = [.authenticated old.kRecv 1] := by
  decide +kernel

end Chamlon.Server
