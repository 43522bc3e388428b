import Mathlib.Tactic
import Chamlon.Server.PoolShard

/-!
What the thread pool delivers, for any interleaving of submissions, steps of the workers
and a final `thread_pool_destroy`.

Nothing here says that `thread_pool_destroy` returns, and it need not: a worker that
tested `shutdown` before the flag was set, and waits after the broadcast, is not woken
again. Its queue is empty then, so no job is lost with it.
-/

namespace Chamlon.ThreadPool

open LinkedList Machine

variable {β : Type} {n : Nat}

/-- The events of one shard. -/
def ofShard (i : Fin n) (events : List (PoolEvent β n)) : List (ShardEvent β) :=
  events.filterMap fun | .shard j event => if j = i then some event else none | _ => none

theorem ofShard_append (i : Fin n) (first second : List (PoolEvent β n)) :
    ofShard i (first ++ second) = ofShard i first ++ ofShard i second :=
  List.filterMap_append

theorem ofShard_self (i : Fin n) (events : List (ShardEvent β)) :
    ofShard i (events.map (.shard i)) = events := by
  induction events with
  | nil => rfl
  | cons event rest ih => simp [ofShard]

theorem ofShard_other {i j : Fin n} (h : j ≠ i) (events : List (ShardEvent β)) :
    ofShard i (events.map (.shard j)) = [] := by
  induction events with
  | nil => rfl
  | cons event rest ih => simp [ofShard, h]

/-- The number of threads that `thread_pool_destroy` has joined. -/
def DestroyAt.joined : DestroyAt n → Nat
  | .joining i => i
  | .draining i _ => i.val + 1
  | .returned => n
  | _ => 0

/-- The pool behind the events `past`. -/
structure Pool.Ok (past : List (PoolEvent β n)) (p : Pool β n) : Prop where
  shards : ∀ i, ∃ jobs, Shard.Ok p.shutdown (ofShard i past) (p.shards i) jobs
  called : p.destroyer = .notCalled → p.shutdown = false
  joined : ∀ i : Fin n, i.val < p.destroyer.joined → (p.shards i).worker = .exited
  drained : ∀ i node, p.destroyer = .draining i node → node = none
  returned : .destroyed ∈ past → p.destroyer = .returned

/-- Only jobs of the two crypto types are submitted, and none once
`thread_pool_destroy` has been called. -/
def Allowed (p : Pool β n) : PoolAct β n → Prop
  | .submit _ none _ => p.destroyer = .notCalled
  | .submit _ (some job) _ => p.destroyer = .notCalled ∧ job.type ≠ .shutdown
  | _ => True

instance (p : Pool β n) : ∀ act, Decidable (Allowed p act)
  | .submit _ none _ => inferInstanceAs (Decidable (_ = _))
  | .submit _ (some _) _ => inferInstanceAs (Decidable (_ ∧ _))
  | .work _ | .spurious _ | .destroy => inferInstanceAs (Decidable True)

namespace Pool.Ok

variable {past : List (PoolEvent β n)} {p : Pool β n}

/-- A step of one shard. -/
theorem onShard (h : Ok past p) (i : Fin n) (next : Shard β × List (ShardEvent β))
    (hnext : ∃ jobs, Shard.Ok p.shutdown (ofShard i past ++ next.2) next.1 jobs)
    (hexited : (p.shards i).worker = .exited → next.1.worker = .exited) :
    Ok (past ++ (p.onShard i next).2) (p.onShard i next).1 where
  shards := by
    intro j
    by_cases hj : j = i
    · subst hj
      simpa only [Pool.onShard, Function.update_self, ofShard_append, ofShard_self] using hnext
    · simpa only [Pool.onShard, Function.update_of_ne hj, ofShard_append,
        ofShard_other (Ne.symm hj), List.append_nil] using h.shards j
  called := h.called
  joined := by
    intro j hjoined
    have hj := h.joined j hjoined
    by_cases hji : j = i
    · subst hji
      simpa only [Pool.onShard, Function.update_self] using hexited hj
    · simpa only [Pool.onShard, Function.update_of_ne hji] using hj
  drained := h.drained
  returned := by
    intro hmem
    rcases List.mem_append.mp hmem with hpast | hnew
    · exact h.returned hpast
    · obtain ⟨event, -, heq⟩ := List.mem_map.mp hnew
      cases heq

/-- The caller of `thread_pool_destroy` goes on; what it has joined stays joined. -/
theorem goTo (h : Ok past p) {place : DestroyAt n} (hcalled : place ≠ .notCalled)
    (hopen : p.destroyer ≠ .returned)
    (hjoined : ∀ i : Fin n, i.val < place.joined → (p.shards i).worker = .exited)
    (hdrained : ∀ i node, place = .draining i node → node = none) :
    Ok past { p with destroyer := place } where
  shards := h.shards
  called := fun hplace => absurd hplace hcalled
  joined := hjoined
  drained := hdrained
  returned := fun hmem => absurd (h.returned hmem) hopen

/-- An event that is not one of a shard. -/
theorem note (h : Ok past p) {event : PoolEvent β n} (hshard : ∀ i, ofShard i [event] = [])
    (hreturned : event = .destroyed → p.destroyer = .returned) : Ok (past ++ [event]) p where
  shards := by
    intro i
    rw [ofShard_append, hshard, List.append_nil]
    exact h.shards i
  called := h.called
  joined := h.joined
  drained := h.drained
  returned := by
    intro hmem
    rcases List.mem_append.mp hmem with hpast | hnew
    · exact h.returned hpast
    · exact hreturned (List.mem_singleton.mp hnew).symm

theorem raise (h : Ok past p) (hplace : p.destroyer = .notCalled) :
    Ok past { p with shutdown := true, destroyer := .broadcasting 0 } where
  shards := by
    intro i
    obtain ⟨jobs, hjobs⟩ := h.shards i
    rw [h.called hplace] at hjobs
    exact ⟨jobs, hjobs.raise⟩
  called := nofun
  joined := fun i hi => absurd hi (Nat.not_lt_zero _)
  drained := nofun
  returned := by
    intro hmem
    have hback := h.returned hmem
    rw [hplace] at hback
    cases hback

theorem wakeShard (h : Ok past p) (i : Fin n) :
    Ok past { p with shards := Function.update p.shards i (p.shards i).wakeUp } := by
  have hnext : ∃ jobs, Shard.Ok p.shutdown (ofShard i past ++ []) (p.shards i).wakeUp jobs := by
    obtain ⟨jobs, hjobs⟩ := h.shards i
    rw [List.append_nil]
    exact ⟨jobs, hjobs.wakeUp⟩
  have hexited : (p.shards i).worker = .exited → (p.shards i).wakeUp.worker = .exited := by
    intro hplace
    unfold Shard.wakeUp
    rw [hplace]
    rfl
  have hstep : Ok (past ++ []) (p.onShard i ((p.shards i).wakeUp, [])).1 :=
    h.onShard i ((p.shards i).wakeUp, []) hnext hexited
  rwa [List.append_nil] at hstep

/-- A joined worker has left an empty queue behind. -/
theorem head_of_exited (h : Ok past p) {i : Fin n} (hexited : (p.shards i).worker = .exited) :
    (p.shards i).head = none := by
  obtain ⟨jobs, hjobs⟩ := h.shards i
  have hfits := hjobs.fits
  rw [hexited] at hfits
  obtain ⟨cells, hlinked, hcells⟩ := hjobs.holds.links
  rw [hfits.1, List.map_eq_nil_iff] at hcells
  rw [hlinked.head_eq, hcells]
  rfl

/-- The call of `pthread_join` returns, and the queue is read to be drained. -/
theorem join (h : Ok past p) {i : Nat} (hplace : p.destroyer = .joining i) (hi : i < n)
    (hexited : (p.shards ⟨i, hi⟩).worker = .exited) :
    Ok past { p with destroyer := .draining ⟨i, hi⟩ (p.shards ⟨i, hi⟩).head } := by
  have hjoined := h.joined
  rw [hplace] at hjoined
  refine h.goTo nofun (by rw [hplace]; nofun) ?_ ?_
  · intro j hj
    rcases Nat.lt_succ_iff_lt_or_eq.mp hj with hlt | heq
    · exact hjoined j hlt
    · rw [show j = ⟨i, hi⟩ from Fin.ext heq]
      exact hexited
  · intro j node hdrain
    injection hdrain with _ hnode
    rw [← hnode]
    exact h.head_of_exited hexited

theorem destroyStep (h : Ok past p) : Ok (past ++ p.destroyStep.2) p.destroyStep.1 := by
  unfold Pool.destroyStep
  cases hplace : p.destroyer with
  | notCalled =>
      rw [List.append_nil]
      exact h.raise hplace
  | broadcasting i =>
      dsimp only
      split
      next hi =>
        rw [List.append_nil]
        exact (h.wakeShard ⟨i, hi⟩).goTo nofun (by rw [hplace]; nofun)
          (fun j hj => absurd hj (Nat.not_lt_zero _)) nofun
      next hi =>
        rw [List.append_nil]
        exact h.goTo nofun (by rw [hplace]; nofun)
          (fun j hj => absurd hj (Nat.not_lt_zero _)) nofun
  | joining i =>
      have hjoined := h.joined
      rw [hplace] at hjoined
      dsimp only
      split
      next hi =>
        split
        next hexited =>
          rw [List.append_nil]
          exact h.join hplace hi hexited
        next => rwa [List.append_nil]
      next hi =>
        have hdone : Ok past { p with destroyer := .returned } :=
          h.goTo nofun (by rw [hplace]; nofun)
            (fun j _ => hjoined j (j.isLt.trans_le (Nat.not_lt.mp hi))) nofun
        exact hdone.note (fun _ => rfl) fun _ => rfl
  | draining i node =>
      have hnode := h.drained i node hplace
      have hjoined := h.joined
      rw [hplace] at hjoined
      subst hnode
      rw [List.append_nil]
      exact h.goTo nofun (by rw [hplace]; nofun) hjoined nofun
  | returned => rwa [List.append_nil]

theorem step [NeZero n] (h : Ok past p) {act : PoolAct β n} (hok : Allowed p act) :
    Ok (past ++ (p.step act).2) (p.step act).1 := by
  cases act with
  | submit shardKey job malloc =>
      cases job with
      | none => exact h.note (fun _ => rfl) nofun
      | some job =>
          obtain ⟨hplace, hjob⟩ := hok
          have hflag := h.called hplace
          apply h.onShard
          · obtain ⟨jobs, hjobs⟩ := h.shards (Pool.keyShard n shardKey)
            rw [hflag] at hjobs ⊢
            exact hjobs.enqueue malloc hjob
          · intro hexited
            obtain ⟨jobs, hjobs⟩ := h.shards (Pool.keyShard n shardKey)
            have hfits := hjobs.fits
            rw [hexited, hflag] at hfits
            cases hfits.2
  | work i =>
      apply h.onShard
      · obtain ⟨jobs, hjobs⟩ := h.shards i
        exact hjobs.workerStep.ok
      · intro hexited
        unfold Shard.workerStep
        rw [hexited]
        exact hexited
  | spurious i =>
      have hwake := h.wakeShard i
      rw [← List.append_nil past] at hwake
      exact hwake
  | destroy => exact h.destroyStep

theorem create (β : Type) (n : Nat) : Ok [] (Pool.create β n) where
  shards := fun _ => ⟨[], ⟨⟨⟨[], Linked.nil _, rfl⟩, rfl⟩, Nat.zero_le _, rfl, rfl, rfl,
    nofun, nofun, trivial⟩⟩
  called := fun _ => rfl
  joined := fun _ hi => absurd hi (Nat.not_lt_zero _)
  drained := nofun
  returned := nofun

theorem run [NeZero n] {acts : List (PoolAct β n)}
    (hok : Along Pool.step Allowed (Pool.create β n) acts) :
    Ok (Machine.run Pool.step (Pool.create β n) acts).2
      (Machine.run Pool.step (Pool.create β n) acts).1 :=
  run_history Pool.step Allowed Ok (fun _ _ _ h hact => h.step hact) [] _ acts
    (create β n) hok

end Pool.Ok

theorem Pool.step_of_rejected [NeZero n] {p : Pool β n} {shardKey : UInt8} {job : Job β}
    {malloc : Option Addr} {i : Fin n}
    (h : (p.step (.submit shardKey (some job) malloc)).2 =
      [.shard i (.submitted job false)]) :
    (p.step (.submit shardKey (some job) malloc)).1 = p := by
  have hsame : ((p.shards (keyShard n shardKey)).enqueueToShard malloc job).1 =
      p.shards (keyShard n shardKey) := by
    apply Shard.enqueueToShard_rejected
    intro hmem
    have hevent : PoolEvent.shard (keyShard n shardKey) (.submitted job true) ∈
        (p.step (.submit shardKey (some job) malloc)).2 := List.mem_map_of_mem hmem
    rw [h, List.mem_singleton] at hevent
    injection hevent with _ hsubmitted
    injection hsubmitted with _ haccepted
    cases haccepted
  simp only [Pool.step, Pool.onShard]
  rw [hsame, Function.update_eq_self]

section Progress

def PoolAct.isSubmit : PoolAct β n → Bool
  | .submit _ _ _ => true
  | _ => false

def PoolAct.isWorkOf (i : Fin n) : PoolAct β n → Bool
  | .work j => decide (j = i)
  | _ => false

theorem Allowed.of_not_submit {p : Pool β n} {act : PoolAct β n}
    (h : act.isSubmit = false) : Allowed p act := by
  cases act with
  | submit shardKey job malloc => cases h
  | _ => trivial

theorem pending_wakeShard (p : Pool β n) (i j : Fin n) :
    (Function.update p.shards j (p.shards j).wakeUp i).pending = (p.shards i).pending := by
  by_cases hj : i = j
  · subst hj
    rw [Function.update_self, pending_wakeUp]
  · rw [Function.update_of_ne hj]

variable {past : List (PoolEvent β n)} {p : Pool β n}

/-- `thread_pool_destroy` neither adds to a shard's work nor takes from it. -/
theorem Pool.Ok.destroyStep_pending (h : Pool.Ok past p) (i : Fin n) :
    (p.destroyStep.1.shards i).pending = (p.shards i).pending ∧
      acceptedJobs (ofShard i p.destroyStep.2) = [] := by
  unfold Pool.destroyStep
  cases hplace : p.destroyer with
  | notCalled => exact ⟨rfl, rfl⟩
  | broadcasting k =>
      dsimp only
      split
      next hk => exact ⟨pending_wakeShard p i ⟨k, hk⟩, rfl⟩
      next => exact ⟨rfl, rfl⟩
  | joining k =>
      dsimp only
      split
      · split
        · exact ⟨rfl, rfl⟩
        · exact ⟨rfl, rfl⟩
      · exact ⟨rfl, rfl⟩
  | draining k node =>
      have hnode := h.drained k node hplace
      subst hnode
      exact ⟨rfl, rfl⟩
  | returned => exact ⟨rfl, rfl⟩

/-- Without a submission, what a shard has to do shrinks with each step of its worker and
with no other step. -/
theorem Pool.Ok.step_pending [NeZero n] (h : Pool.Ok past p) {act : PoolAct β n}
    (hact : act.isSubmit = false) (i : Fin n) :
    ((p.step act).1.shards i).pending =
        (p.shards i).pending - (if act.isWorkOf i then 1 else 0) ∧
      acceptedJobs (ofShard i (p.step act).2) = [] := by
  cases act with
  | submit shardKey job malloc => cases hact
  | work j =>
      obtain ⟨jobs, hjobs⟩ := h.shards j
      obtain ⟨-, hpending, haccepted⟩ := hjobs.workerStep
      simp only [Pool.step, Pool.onShard]
      by_cases hj : j = i
      · subst hj
        have hwork : PoolAct.isWorkOf j (.work j : PoolAct β n) = true := decide_eq_true rfl
        rw [Function.update_self, ofShard_self, hpending, if_pos hwork]
        exact ⟨rfl, haccepted⟩
      · have hwork : PoolAct.isWorkOf i (.work j : PoolAct β n) ≠ true :=
          fun h => hj (of_decide_eq_true h)
        rw [Function.update_of_ne (Ne.symm hj), ofShard_other hj, if_neg hwork]
        exact ⟨rfl, rfl⟩
  | spurious j => exact ⟨pending_wakeShard p i j, rfl⟩
  | destroy => exact h.destroyStep_pending i

/-- As many steps of a worker as its shard has left finish all that was accepted, whatever
the other threads do meanwhile. -/
theorem Pool.Ok.run_finishes [NeZero n] (h : Pool.Ok past p) (i : Fin n)
    (later : List (PoolAct β n)) (hlater : ∀ act ∈ later, act.isSubmit = false)
    (henough : (p.shards i).pending ≤ later.countP (PoolAct.isWorkOf i)) :
    finishedJobs (ofShard i (past ++ (Machine.run Pool.step p later).2)) =
      acceptedJobs (ofShard i past) := by
  induction later generalizing past p with
  | nil =>
      obtain ⟨jobs, hjobs⟩ := h.shards i
      rw [Machine.run, List.append_nil]
      exact hjobs.all_finished (Nat.le_zero.mp henough)
  | cons act rest ih =>
      have hact := hlater act List.mem_cons_self
      obtain ⟨hpending, haccepted⟩ := h.step_pending hact i
      have hnext := h.step (Allowed.of_not_submit hact)
      have hrest := ih hnext (fun a ha => hlater a (List.mem_cons_of_mem _ ha)) (by
        rw [hpending]
        rw [List.countP_cons] at henough
        omega)
      have hsame : acceptedJobs (ofShard i (past ++ (p.step act).2)) =
          acceptedJobs (ofShard i past) := by
        rw [ofShard_append, acceptedJobs_append, haccepted, List.append_nil]
      rw [Machine.run, ← List.append_assoc, hrest, hsame]

end Progress

/-- The thread pool delivers. In every run in which only crypto jobs are submitted, and
none after the call of `thread_pool_destroy`:

* the jobs that a shard accepted are those it has started and those in its queue, in the
  order of submission, and the count and the pointers of the queue agree with that list;
* a job is started only when the one before it has ended;
* nothing is freed unexecuted, and no pointer is followed that leads nowhere;
* as many steps of its worker as the shard has left execute everything it accepted;
* when `thread_pool_destroy` has returned, everything accepted has been executed;
* a submission that returns -1 changes nothing. -/
theorem pool_delivers [NeZero n] (acts : List (PoolAct β n))
    (hok : Along Pool.step Allowed (Pool.create β n) acts) :
    let p := (run Pool.step (Pool.create β n) acts).1
    let events := (run Pool.step (Pool.create β n) acts).2
    (∀ i, ∃ queued,
      acceptedJobs (ofShard i events) = startedJobs (ofShard i events) ++ queued ∧
      (p.shards i).Holds queued ∧ (p.shards i).size = queued.length ∧
      (p.shards i).size ≤ 4096) ∧
    (∀ i, ∃ running, running.length ≤ 1 ∧
      startedJobs (ofShard i events) = finishedJobs (ofShard i events) ++ running ∧
      workEvents (ofShard i events) =
        oneByOne (finishedJobs (ofShard i events)) ++ running.map .started) ∧
    (∀ i, ∀ event ∈ ofShard i events, event ≠ .badAccess ∧ ∀ job, event ≠ .discarded job) ∧
    (∀ i later, (∀ act ∈ later, act.isSubmit = false) →
      (p.shards i).pending ≤ later.countP (PoolAct.isWorkOf i) →
      finishedJobs (ofShard i (run Pool.step (Pool.create β n) (acts ++ later)).2) =
        acceptedJobs (ofShard i events)) ∧
    (.destroyed ∈ events →
      ∀ i, finishedJobs (ofShard i events) = acceptedJobs (ofShard i events)) ∧
    (∀ shardKey malloc, p.step (.submit shardKey none malloc) = (p, [.refused])) ∧
    (∀ shardKey job malloc i,
      (p.step (.submit shardKey (some job) malloc)).2 = [.shard i (.submitted job false)] →
      (p.step (.submit shardKey (some job) malloc)).1 = p) := by
  intro p events
  have h : Pool.Ok events p := Pool.Ok.run hok
  refine ⟨?_, ?_, ?_, ?_, ?_, fun _ _ => rfl, ?_⟩
  · intro i
    obtain ⟨jobs, hjobs⟩ := h.shards i
    refine ⟨jobs, hjobs.accepted, hjobs.holds, hjobs.holds.size, ?_⟩
    rw [hjobs.holds.size]
    exact Int.ofNat_le.mpr hjobs.bound
  · intro i
    obtain ⟨jobs, hjobs⟩ := h.shards i
    refine ⟨(p.shards i).worker.current, ?_, hjobs.started, hjobs.alternate⟩
    cases (p.shards i).worker with
    | running job => exact le_rfl
    | _ => exact Nat.zero_le 1
  · intro i
    obtain ⟨jobs, hjobs⟩ := h.shards i
    exact hjobs.clean
  · intro i later hlater henough
    rw [run_append]
    exact h.run_finishes i later hlater henough
  · intro hreturned i
    have hjoined : i.val < p.destroyer.joined := by
      rw [h.returned hreturned]
      exact i.isLt
    obtain ⟨jobs, hjobs⟩ := h.shards i
    have hfits := hjobs.fits
    rw [h.joined i hjoined] at hfits
    apply hjobs.all_finished
    exact hjobs.pending_of_empty hfits.1 (by rw [h.joined i hjoined]; rfl)
  · intro shardKey job malloc i hrejected
    exact Pool.step_of_rejected hrejected

/-- Two shards, three jobs, and the end of the pool. -/
def threeJobs : List (PoolAct Nat 2) :=
  List.flatten
    [[.submit 0 (some ⟨.inboundCrypto, 1⟩) (some 7),
        .submit 2 (some ⟨.outboundCrypto, 2⟩) (some 8),
        .submit 5 (some ⟨.inboundCrypto, 3⟩) (some 7)],
      List.replicate 9 (.work 0), List.replicate 5 (.work 1), List.replicate 4 .destroy,
      List.replicate 2 (.work 0), List.replicate 2 (.work 1), List.replicate 5 .destroy]

theorem pool_delivers_threeJobs :
    .destroyed ∈ (run Pool.step (Pool.create Nat 2) threeJobs).2 ∧
    ∀ i, finishedJobs (ofShard i (run Pool.step (Pool.create Nat 2) threeJobs).2) =
      acceptedJobs (ofShard i (run Pool.step (Pool.create Nat 2) threeJobs).2) := by
  have hreturned : .destroyed ∈ (run Pool.step (Pool.create Nat 2) threeJobs).2 := by
    decide +kernel
  obtain ⟨-, -, -, -, hdone, -⟩ := pool_delivers threeJobs (by decide +kernel)
  exact ⟨hreturned, hdone hreturned⟩

/-- `thread_pool_destroy` is joining a worker that waits. -/
def Pool.Blocked (p : Pool β n) (i : Fin n) : Prop :=
  (p.shards i).worker = .waiting ∧ p.destroyer = .joining i.val

theorem Pool.Blocked.onShard {p : Pool β n} {i : Fin n} (h : p.Blocked i) (j : Fin n)
    (next : Shard β × List (ShardEvent β)) (hnext : j = i → next.1.worker = .waiting) :
    (p.onShard j next).1.Blocked i ∧ .destroyed ∉ (p.onShard j next).2 := by
  refine ⟨⟨?_, h.2⟩, ?_⟩
  · simp only [Pool.onShard]
    by_cases hj : j = i
    · rw [hj, Function.update_self]
      exact hnext hj
    · rw [Function.update_of_ne (Ne.symm hj)]
      exact h.1
  · intro hmem
    obtain ⟨event, -, heq⟩ := List.mem_map.mp hmem
    cases heq

theorem Pool.Blocked.step [NeZero n] {p : Pool β n} {i : Fin n} (h : p.Blocked i)
    {act : PoolAct β n} (hsubmit : act.isSubmit = false) (hwake : act ≠ .spurious i) :
    (p.step act).1.Blocked i ∧ .destroyed ∉ (p.step act).2 := by
  cases act with
  | submit shardKey job malloc => cases hsubmit
  | work j =>
      apply h.onShard
      rintro rfl
      unfold Shard.workerStep
      rw [h.1]
      exact h.1
  | spurious j =>
      apply h.onShard
      rintro rfl
      exact absurd rfl hwake
  | destroy =>
      have hstays : p.destroyStep = (p, []) := by
        unfold Pool.destroyStep
        rw [h.2]
        dsimp only
        rw [dif_pos i.isLt, h.1]
      simp only [Pool.step]
      rw [hstays]
      exact ⟨h, List.not_mem_nil⟩

/-- A worker that waits behind the broadcast is woken by nothing that follows, and
`thread_pool_destroy` waits for it. -/
theorem Pool.Blocked.run [NeZero n] {p : Pool β n} {i : Fin n} (h : p.Blocked i)
    (later : List (PoolAct β n))
    (hlater : ∀ act ∈ later, act.isSubmit = false ∧ act ≠ .spurious i) :
    .destroyed ∉ (Machine.run Pool.step p later).2 := by
  intro hmem
  have hnever := run_forall_events Pool.step
    (fun _ act => act.isSubmit = false ∧ act ≠ .spurious i) (fun p => p.Blocked i)
    (fun event => event ≠ .destroyed)
    (fun _ _ hblocked hact => (hblocked.step hact.1 hact.2).1)
    (fun _ _ hblocked hact event hevent heq =>
      (hblocked.step hact.1 hact.2).2 (heq ▸ hevent))
    p later h (Along.of_forall _ _ _ later hlater)
  exact hnever _ hmem rfl

/-- The flag is set and the condition broadcast between the test of the only worker and
its wait. -/
theorem destroy_may_not_return :
    ∃ acts : List (PoolAct Unit 1), Along Pool.step Allowed (Pool.create Unit 1) acts ∧
      ∀ later : List (PoolAct Unit 1),
        (∀ act ∈ later, act.isSubmit = false ∧ act ≠ .spurious 0) →
        .destroyed ∉ (run Pool.step (Pool.create Unit 1) (acts ++ later)).2 := by
  refine ⟨[.work 0, .work 0, .destroy, .destroy, .destroy, .work 0], by decide +kernel, ?_⟩
  intro later hlater
  rw [run_append]
  have hblocked : (run Pool.step (Pool.create Unit 1)
      [.work 0, .work 0, .destroy, .destroy, .destroy, .work 0]).1.Blocked 0 := ⟨rfl, rfl⟩
  exact hblocked.run later hlater

end Chamlon.ThreadPool
