import Mathlib.Tactic
import Chamlon.Server.ThreadPool

/-!
One shard of the thread pool. What it has done is a list of events, and the invariant
relates that list to the queue and the worker: the jobs accepted are those started
followed by those in the queue, and starts and ends of jobs alternate. A worker goes to
sleep on an empty queue only, and a submission wakes it, so while jobs are left its next
step brings the end nearer.
-/

namespace Chamlon.ThreadPool

open LinkedList

variable {β : Type}

def acceptedJobs (events : List (ShardEvent β)) : List (Job β) :=
  events.filterMap fun | .submitted job true => some job | _ => none

def startedJobs (events : List (ShardEvent β)) : List (Job β) :=
  events.filterMap fun | .started job => some job | _ => none

def finishedJobs (events : List (ShardEvent β)) : List (Job β) :=
  events.filterMap fun | .finished job => some job | _ => none

/-- The starts and ends of jobs. -/
def workEvents (events : List (ShardEvent β)) : List (ShardEvent β) :=
  events.filter fun | .started _ | .finished _ => true | _ => false

/-- Jobs that are started and finished one after the other. -/
def oneByOne (jobs : List (Job β)) : List (ShardEvent β) :=
  jobs.flatMap fun job => [.started job, .finished job]

theorem acceptedJobs_append (first second : List (ShardEvent β)) :
    acceptedJobs (first ++ second) = acceptedJobs first ++ acceptedJobs second :=
  List.filterMap_append

theorem startedJobs_append (first second : List (ShardEvent β)) :
    startedJobs (first ++ second) = startedJobs first ++ startedJobs second :=
  List.filterMap_append

theorem finishedJobs_append (first second : List (ShardEvent β)) :
    finishedJobs (first ++ second) = finishedJobs first ++ finishedJobs second :=
  List.filterMap_append

theorem workEvents_append (first second : List (ShardEvent β)) :
    workEvents (first ++ second) = workEvents first ++ workEvents second :=
  List.filter_append _ _

theorem oneByOne_append (first second : List (Job β)) :
    oneByOne (first ++ second) = oneByOne first ++ oneByOne second :=
  List.flatMap_append

theorem startedJobs_submitted (past : List (ShardEvent β)) (job : Job β) (accepted : Bool) :
    startedJobs (past ++ [.submitted job accepted]) = startedJobs past :=
  (startedJobs_append past _).trans (List.append_nil _)

theorem finishedJobs_submitted (past : List (ShardEvent β)) (job : Job β) (accepted : Bool) :
    finishedJobs (past ++ [.submitted job accepted]) = finishedJobs past :=
  (finishedJobs_append past _).trans (List.append_nil _)

theorem workEvents_submitted (past : List (ShardEvent β)) (job : Job β) (accepted : Bool) :
    workEvents (past ++ [.submitted job accepted]) = workEvents past :=
  (workEvents_append past _).trans (List.append_nil _)

/-- The job in the hands of the worker. -/
def WorkerAt.current : WorkerAt β → List (Job β)
  | .running job => [job]
  | _ => []

/-- What a place of the worker says about the queue. -/
def WorkerAt.Fits (shutdown : Bool) (jobs : List (Job β)) : WorkerAt β → Prop
  | .sleepy | .waiting => jobs = []
  | .leaving => jobs ≠ [] ∨ shutdown = true
  | .exited => jobs = [] ∧ shutdown = true
  | _ => True

/-- The pointers and the count stand for this list of jobs. -/
structure Shard.Holds (q : Shard β) (jobs : List (Job β)) : Prop where
  links : ∃ cells, Linked q.heap q.head q.tail cells ∧ cells.map Prod.snd = jobs
  size : q.size = jobs.length

namespace Shard.Holds

variable {q : Shard β} {jobs : List (Job β)}

theorem move (h : q.Holds jobs) (place : WorkerAt β) :
    Holds { q with worker := place } jobs :=
  ⟨h.links, h.size⟩

theorem size_eq_zero (h : q.Holds jobs) : q.size = 0 ↔ jobs = [] := by
  rw [h.size, Int.natCast_eq_zero, List.length_eq_zero_iff]

theorem link (h : q.Holds jobs) {node : Addr} (hfree : q.heap node = none) (job : Job β) :
    ∃ next, q.link node job = some next ∧ next.Holds (jobs ++ [job]) ∧
      next.worker = q.worker := by
  obtain ⟨cells, hlinked, hcells⟩ := h.links
  have hfresh : node ∉ cells.map Prod.fst := by
    intro hmem
    have hlive := hlinked.links.live hmem
    rw [hfree] at hlive
    cases hlive
  have hsize : q.size + 1 = ((jobs ++ [job]).length : Nat) := by
    rw [h.size, List.length_append, List.length_singleton, Int.natCast_add]
    rfl
  -- the stores into the new node come first and touch no node of the queue
  have hstored : Linked (Function.update q.heap node (some ⟨none, job⟩)) q.head q.tail
      cells := by
    apply hlinked.congr
    intro a ha
    have hne : a ≠ node := by
      rintro rfl
      exact hfresh ha
    exact Function.update_of_ne hne _ _
  have hnew : Function.update q.heap node (some ⟨none, job⟩) node = some ⟨none, job⟩ :=
    Function.update_self _ _ _
  unfold Shard.link
  cases htail : q.tail with
  | none =>
      have hempty : cells = [] := by
        have hlast := hlinked.last
        rw [htail] at hlast
        simpa using hlast.symm
      subst hempty
      refine ⟨_, rfl, ⟨⟨[(node, job)], Linked.link_nil hnew, ?_⟩, hsize⟩, rfl⟩
      rw [← hcells]
      rfl
  | some last =>
      obtain ⟨cell, hcell, -, hlink⟩ := hstored.link htail hnew hfresh
      dsimp only
      rw [hcell]
      refine ⟨_, rfl, ⟨⟨cells ++ [(node, job)], hlink, ?_⟩, hsize⟩, rfl⟩
      rw [List.map_append, hcells]
      rfl

theorem unlink {job : Job β} (h : q.Holds (job :: jobs)) :
    ∃ next, q.unlink = some (job, next) ∧ next.Holds jobs := by
  obtain ⟨cells, hlinked, hcells⟩ := h.links
  cases cells with
  | nil => cases hcells
  | cons cell rest =>
      obtain ⟨node, value⟩ := cell
      obtain ⟨hvalue, hrest⟩ := List.cons_eq_cons.mp hcells
      have hvalue : value = job := hvalue
      subst hvalue
      obtain ⟨next, hcell, hlink⟩ := hlinked.unlink
      have hhead : q.head = some node := hlinked.head_eq
      have hsize : q.size - 1 = (jobs.length : Int) := by
        rw [h.size, List.length_cons]
        omega
      unfold Shard.unlink
      rw [hhead]
      dsimp only
      rw [hcell]
      exact ⟨_, rfl, ⟨⟨rest, hlink, hrest⟩, hsize⟩⟩

end Shard.Holds

/-- A shard behind the events `past`, with `jobs` in its queue. -/
structure Shard.Ok (shutdown : Bool) (past : List (ShardEvent β)) (q : Shard β)
    (jobs : List (Job β)) : Prop where
  holds : q.Holds jobs
  bound : jobs.length ≤ 4096
  accepted : acceptedJobs past = startedJobs past ++ jobs
  started : startedJobs past = finishedJobs past ++ q.worker.current
  alternate : workEvents past =
    oneByOne (finishedJobs past) ++ q.worker.current.map .started
  clean : ∀ event ∈ past, event ≠ .badAccess ∧ ∀ job, event ≠ .discarded job
  crypto : ∀ job ∈ jobs, job.type ≠ .shutdown
  fits : q.worker.Fits shutdown jobs

/-- The steps that the worker still has to make until all jobs are done. -/
def Shard.pending (q : Shard β) : Nat :=
  match q.worker with
  | .running _ => 4 * q.size.toNat + 1
  | .testing => 4 * q.size.toNat - 1
  | .leaving => 4 * q.size.toNat - 2
  | _ => 4 * q.size.toNat

/-- A step keeps the shard in order, accepts nothing, and leaves one step less to make. -/
structure Shard.Advances (shutdown : Bool) (past : List (ShardEvent β)) (q : Shard β)
    (next : Shard β × List (ShardEvent β)) : Prop where
  ok : ∃ jobs, Ok shutdown (past ++ next.2) next.1 jobs
  pending : next.1.pending = q.pending - 1
  accepts : acceptedJobs next.2 = []

namespace Shard.Ok

variable {shutdown : Bool} {past : List (ShardEvent β)} {q : Shard β} {jobs : List (Job β)}

/-- A step between two places, without an event. -/
theorem move (h : Ok shutdown past q jobs) {place : WorkerAt β}
    (hcurrent : place.current = q.worker.current) (hfits : place.Fits shutdown jobs) :
    Ok shutdown past { q with worker := place } jobs where
  holds := h.holds.move place
  bound := h.bound
  accepted := h.accepted
  started := by rw [h.started, hcurrent]
  alternate := by rw [h.alternate, hcurrent]
  clean := h.clean
  crypto := h.crypto
  fits := hfits

theorem wakeUp (h : Ok shutdown past q jobs) : Ok shutdown past q.wakeUp jobs := by
  have hfits := h.fits
  apply h.move
  · cases q.worker <;> rfl
  · cases hplace : q.worker <;> rw [hplace] at hfits <;> first | exact hfits | trivial

theorem raise (h : Ok false past q jobs) : Ok true past q jobs := by
  have hfits := h.fits
  refine ⟨h.holds, h.bound, h.accepted, h.started, h.alternate, h.clean, h.crypto, ?_⟩
  cases hplace : q.worker with
  | leaving => exact Or.inr rfl
  | exited =>
      rw [hplace] at hfits
      cases hfits.2
  | sleepy =>
      rw [hplace] at hfits
      exact hfits
  | waiting =>
      rw [hplace] at hfits
      exact hfits
  | _ => trivial

/-- The worker takes the first job of its queue. -/
theorem take {job : Job β} (h : Ok shutdown past q (job :: jobs))
    (hcurrent : q.worker.current = []) :
    ∃ next : Shard β, q.take = ({ next with worker := .running job }, [.started job]) ∧
      Ok shutdown (past ++ [.started job]) { next with worker := .running job } jobs := by
  obtain ⟨next, hunlink, hholds⟩ := h.holds.unlink
  have htype := h.crypto job List.mem_cons_self
  have hstarted := h.started
  have halternate := h.alternate
  rw [hcurrent, List.append_nil] at hstarted
  rw [hcurrent, List.map_nil, List.append_nil] at halternate
  refine ⟨next, ?_, ?_⟩
  · unfold Shard.take
    rw [hunlink]
    dsimp only
    cases hjob : job.type with
    | shutdown => exact absurd hjob htype
    | inboundCrypto => rfl
    | outboundCrypto => rfl
  · refine ⟨hholds.move _, (Nat.le_succ _).trans h.bound, ?_, ?_, ?_, ?_, ?_, trivial⟩
    · rw [acceptedJobs_append, startedJobs_append, h.accepted, List.append_assoc,
        List.append_assoc]
      exact congrArg (startedJobs past ++ ·) (List.append_nil (job :: jobs))
    · rw [startedJobs_append, finishedJobs_append, hstarted]
      exact congrArg (· ++ [job]) (List.append_nil _).symm
    · rw [workEvents_append, finishedJobs_append, halternate]
      exact congrArg (fun done => oneByOne done ++ [.started job]) (List.append_nil _).symm
    · exact List.forall_mem_append.mpr
        ⟨h.clean, List.forall_mem_singleton.mpr ⟨nofun, nofun⟩⟩
    · exact fun other hother => h.crypto other (List.mem_cons_of_mem _ hother)

/-- The worker is done with its job. -/
theorem finish {job : Job β} (h : Ok shutdown past q jobs)
    (hrunning : q.worker = .running job) :
    Ok shutdown (past ++ [.finished job]) { q with worker := .entry } jobs := by
  have hstarted := h.started
  have halternate := h.alternate
  rw [hrunning] at hstarted halternate
  refine ⟨h.holds.move _, h.bound, ?_, ?_, ?_, ?_, h.crypto, trivial⟩
  · rw [acceptedJobs_append, startedJobs_append, h.accepted, List.append_assoc,
      List.append_assoc]
    exact congrArg (startedJobs past ++ ·) (List.append_nil jobs)
  · rw [startedJobs_append, finishedJobs_append, hstarted]
    rfl
  · rw [workEvents_append, finishedJobs_append, halternate, oneByOne_append,
      List.append_assoc]
    exact (List.append_nil _).symm
  · exact List.forall_mem_append.mpr
        ⟨h.clean, List.forall_mem_singleton.mpr ⟨nofun, nofun⟩⟩

theorem toNat_size (h : Ok shutdown past q jobs) : q.size.toNat = jobs.length := by
  rw [h.holds.size, Int.toNat_natCast]

theorem pending_of_empty (h : Ok shutdown past q jobs) (hjobs : jobs = [])
    (hcurrent : q.worker.current = []) : q.pending = 0 := by
  have hsize := h.toNat_size
  rw [hjobs] at hsize
  unfold Shard.pending
  cases hplace : q.worker with
  | running job =>
      rw [hplace] at hcurrent
      cases hcurrent
  | _ =>
      dsimp only
      rw [hsize]
      rfl

/-- A step between two places that brings the end nearer. -/
theorem go (h : Ok shutdown past q jobs) (place : WorkerAt β)
    (hcurrent : place.current = q.worker.current) (hfits : place.Fits shutdown jobs)
    (hpending : Shard.pending { q with worker := place } = q.pending - 1) :
    Advances shutdown past q ({ q with worker := place }, []) := by
  refine ⟨⟨jobs, ?_⟩, hpending, rfl⟩
  rw [List.append_nil]
  exact h.move hcurrent hfits

/-- With nothing left to do, every step between two places is as good as another. -/
theorem goIdle (h : Ok shutdown past q jobs) (hjobs : jobs = [])
    (hbefore : q.worker.current = []) {place : WorkerAt β} (hafter : place.current = [])
    (hfits : place.Fits shutdown jobs) :
    Advances shutdown past q ({ q with worker := place }, []) := by
  have hcurrent : place.current = q.worker.current := hafter.trans hbefore.symm
  apply h.go place hcurrent hfits
  rw [h.pending_of_empty hjobs hbefore]
  exact (h.move hcurrent hfits).pending_of_empty hjobs hafter

/-- The test of the inner loop. -/
theorem test (h : Ok shutdown past q jobs) (hplace : q.worker = .testing) :
    Advances shutdown past q
      (if q.size = 0 ∧ shutdown = false then ({ q with worker := .sleepy }, [])
        else ({ q with worker := .leaving }, [])) := by
  have hbefore : q.worker.current = [] := by
    rw [hplace]
    rfl
  split
  next hempty =>
    have hjobs : jobs = [] := h.holds.size_eq_zero.mp hempty.1
    exact h.goIdle hjobs hbefore rfl hjobs
  next hstays =>
    apply h.go .leaving hbefore.symm
    · by_cases hjobs : jobs = []
      · right
        apply Bool.eq_true_of_not_eq_false
        exact fun hflag => hstays ⟨h.holds.size_eq_zero.mpr hjobs, hflag⟩
      · exact Or.inl hjobs
    · rw [Shard.pending, Shard.pending, hplace]
      rfl

/-- The end of the inner loop: the thread exits, or takes a job. -/
theorem leave (h : Ok shutdown past q jobs) (hplace : q.worker = .leaving) :
    Advances shutdown past q
      (if shutdown = true ∧ q.size = 0 then ({ q with worker := .exited }, [])
        else if q.size = 0 then ({ q with worker := .entry }, []) else q.take) := by
  have hfits := h.fits
  have hsize := h.toNat_size
  have hbefore : q.worker.current = [] := by
    rw [hplace]
    rfl
  rw [hplace] at hfits
  by_cases hzero : q.size = 0
  · -- the loop was left with an empty queue, so for the flag
    have hjobs : jobs = [] := h.holds.size_eq_zero.mp hzero
    have hflag : shutdown = true := hfits.resolve_left fun hne => hne hjobs
    rw [if_pos ⟨hflag, hzero⟩]
    exact h.goIdle hjobs hbefore rfl ⟨hjobs, hflag⟩
  · rw [if_neg fun hexit => hzero hexit.2, if_neg hzero]
    cases jobs with
    | nil => exact absurd (h.holds.size_eq_zero.mpr rfl) hzero
    | cons job rest =>
        obtain ⟨next, htake, hnext⟩ := h.take hbefore
        have hleft := hnext.toNat_size
        rw [htake]
        refine ⟨⟨rest, hnext⟩, ?_, rfl⟩
        rw [Shard.pending, Shard.pending, hplace]
        dsimp only at hleft ⊢
        rw [hleft, hsize, List.length_cons]
        omega

theorem workerStep (h : Ok shutdown past q jobs) :
    Advances shutdown past q (q.workerStep shutdown) := by
  have hfits := h.fits
  unfold Shard.workerStep
  cases hplace : q.worker with
  | entry =>
      apply h.go .testing (by rw [hplace]; rfl) trivial
      rw [Shard.pending, Shard.pending, hplace]
  | testing => exact h.test hplace
  | sleepy =>
      rw [hplace] at hfits
      exact h.goIdle hfits (by rw [hplace]; rfl) rfl hfits
  | waiting =>
      have hjobs : jobs = [] := by
        rw [hplace] at hfits
        exact hfits
      have hcurrent : q.worker.current = [] := by
        rw [hplace]
        rfl
      exact h.goIdle hjobs hcurrent hcurrent hfits
  | woken =>
      apply h.go .testing (by rw [hplace]; rfl) trivial
      rw [Shard.pending, Shard.pending, hplace]
  | leaving => exact h.leave hplace
  | running job =>
      refine ⟨⟨jobs, h.finish hplace⟩, ?_, rfl⟩
      rw [Shard.pending, Shard.pending, hplace]
      rfl
  | exited =>
      have hjobs : jobs = [] := by
        rw [hplace] at hfits
        exact hfits.1
      have hcurrent : q.worker.current = [] := by
        rw [hplace]
        rfl
      exact h.goIdle hjobs hcurrent hcurrent hfits

/-- A submission that returned -1 leaves no trace in what the shard has done. -/
theorem reject (h : Ok shutdown past q jobs) (job : Job β) :
    Ok shutdown (past ++ [.submitted job false]) q jobs := by
  refine ⟨h.holds, h.bound, ?_, ?_, ?_, ?_, h.crypto, h.fits⟩
  · rw [acceptedJobs_append, startedJobs_submitted]
    exact (List.append_nil _).trans h.accepted
  · rw [startedJobs_submitted, finishedJobs_submitted]
    exact h.started
  · rw [workEvents_submitted, finishedJobs_submitted]
    exact h.alternate
  · exact List.forall_mem_append.mpr
      ⟨h.clean, List.forall_mem_singleton.mpr ⟨nofun, nofun⟩⟩

/-- A job is hung behind the others and the worker is signalled. -/
theorem accept (h : Ok false past q jobs) {next : Shard β} {job : Job β}
    (hlock : q.worker.holdsLock = false) (hroom : q.size < maxSize)
    (hholds : next.Holds (jobs ++ [job])) (hworker : next.worker = q.worker)
    (hjob : job.type ≠ .shutdown) :
    Ok false (past ++ [.submitted job true]) { next with worker := next.worker.wake }
      (jobs ++ [job]) := by
  have hfits := h.fits
  have hcurrent : next.worker.wake.current = q.worker.current := by
    rw [hworker]
    cases q.worker <;> rfl
  refine ⟨hholds.move _, ?_, ?_, ?_, ?_, ?_, ?_, ?_⟩
  · have hsize := h.holds.size
    rw [List.length_append, List.length_singleton]
    unfold maxSize at hroom
    omega
  · rw [acceptedJobs_append, startedJobs_submitted, h.accepted, List.append_assoc]
    rfl
  · rw [startedJobs_submitted, finishedJobs_submitted, hcurrent]
    exact h.started
  · rw [workEvents_submitted, finishedJobs_submitted, hcurrent]
    exact h.alternate
  · exact List.forall_mem_append.mpr
      ⟨h.clean, List.forall_mem_singleton.mpr ⟨nofun, nofun⟩⟩
  · exact List.forall_mem_append.mpr ⟨h.crypto, List.forall_mem_singleton.mpr hjob⟩
  · rw [hworker]
    cases hplace : q.worker with
    | testing | sleepy | leaving =>
        rw [hplace] at hlock
        cases hlock
    | exited =>
        rw [hplace] at hfits
        cases hfits.2
    | _ => trivial

theorem enqueue (h : Ok false past q jobs) (malloc : Option Addr) {job : Job β}
    (hjob : job.type ≠ .shutdown) :
    ∃ rest, Ok false (past ++ (q.enqueueToShard malloc job).2)
      (q.enqueueToShard malloc job).1 rest := by
  have hstay : Ok false (past ++ []) q jobs := by rwa [List.append_nil]
  unfold Shard.enqueueToShard
  split
  · exact ⟨jobs, hstay⟩
  next hlock =>
    split
    · exact ⟨jobs, h.reject job⟩
    next hroom =>
      cases malloc with
      | none => exact ⟨jobs, h.reject job⟩
      | some node =>
          dsimp only
          split
          · exact ⟨jobs, hstay⟩
          next hused =>
            have hfree : q.heap node = none := Option.not_isSome_iff_eq_none.mp hused
            obtain ⟨next, hlink, hholds, hworker⟩ := h.holds.link hfree job
            rw [hlink]
            exact ⟨jobs ++ [job], h.accept (Bool.eq_false_iff.mpr hlock)
              (Int.not_le.mp hroom) hholds hworker hjob⟩

/-- A shard with nothing left to do has finished what it accepted. -/
theorem all_finished (h : Ok shutdown past q jobs) (hpending : q.pending = 0) :
    finishedJobs past = acceptedJobs past := by
  have hsize := h.toNat_size
  have hidle : jobs = [] ∧ q.worker.current = [] := by
    unfold Shard.pending at hpending
    rw [← List.length_eq_zero_iff, ← hsize]
    cases hplace : q.worker with
    | running job =>
        rw [hplace] at hpending
        cases hpending
    | _ =>
        simp only [hplace] at hpending
        exact ⟨by omega, rfl⟩
  rw [h.accepted, h.started, hidle.1, hidle.2, List.append_nil, List.append_nil]

end Shard.Ok

theorem Shard.enqueueToShard_rejected {q : Shard β} {malloc : Option Addr} {job : Job β}
    (h : .submitted job true ∉ (q.enqueueToShard malloc job).2) :
    (q.enqueueToShard malloc job).1 = q := by
  unfold Shard.enqueueToShard at h ⊢
  split
  · rfl
  next hlock =>
    split
    · rfl
    next hroom =>
      rw [if_neg hlock, if_neg hroom] at h
      cases malloc with
      | none => rfl
      | some node =>
          dsimp only at h ⊢
          split
          · rfl
          next hused =>
            rw [if_neg hused] at h
            cases hlink : q.link node job with
            | none => rfl
            | some next =>
                rw [hlink] at h
                exact absurd List.mem_cons_self h

theorem pending_wakeUp (q : Shard β) : q.wakeUp.pending = q.pending := by
  unfold Shard.wakeUp Shard.pending
  cases q.worker <;> rfl

end Chamlon.ThreadPool
