import Mathlib.Tactic
import Chamlon.Lib.Heap
import Chamlon.Lib.Machine
import Chamlon.Server.Scheduler

/-!
The heap of a scheduler shard on its own: any sequence of pushes and pops on a queue that
`pq_create` has made with room for at least one task. What is stored is what was pushed
and not yet popped, and a pop takes a task that no stored one is due before.

When the array is full, `realloc` gives the doubled one.
-/

namespace Chamlon.Server

open Config Memory Machine

/-- `timespec_compare` is the comparison of a total preorder on tasks. -/
theorem taskCompare_isCompare : Heap.IsCompare taskCompare := by
  constructor
  · intro a b
    simp only [taskCompare, timespecCompare]
    split_ifs <;> omega
  · intro a b c hab hbc
    simp only [taskCompare, timespecCompare] at *
    split_ifs at * <;> omega

def pqPeek (pq : PriorityQueue) : Option Task := pq.nodes.head?

inductive PqAct where
  | push (task : Task)
  | pop
deriving DecidableEq

/-- One call on the heap; the event is the task that a pop returns. -/
def pqStep (pq : PriorityQueue) : PqAct → PriorityQueue × List Task
  | .push task => (pqPush true task pq, [])
  | .pop =>
      match pqPop pq with
      | none => (pq, [])
      | some (task, rest) => (rest, [task])

def PqAct.pushed? : PqAct → Option Task
  | .push task => some task
  | .pop => none

/-- The tasks that a sequence of calls pushes. -/
def pushedTasks (acts : List PqAct) : List Task := acts.filterMap PqAct.pushed?

/-- What holds of the queue between two calls. -/
structure PqValid (pq : PriorityQueue) : Prop where
  room : 0 < pq.capacity
  fits : pq.nodes.length ≤ pq.capacity
  ordered : Heap.Ordered taskCompare pq.nodes

theorem pqPush_valid (task : Task) {pq : PriorityQueue} (h : PqValid pq) :
    PqValid (pqPush true task pq) := by
  have hlength : (Heap.push taskCompare task pq.nodes).length = pq.nodes.length + 1 :=
    (Heap.push_perm task pq.nodes).length_eq
  have hordered := Heap.push_ordered taskCompare_isCompare task h.ordered
  have hroom := h.room
  have hfits := h.fits
  unfold pqPush
  split
  next hfull =>
    have hdoubled : pq.nodes.length + 1 ≤ pq.capacity * 2 := by omega
    exact ⟨by simpa using hroom, hlength.trans_le hdoubled, hordered⟩
  next hfree =>
    have hmore : pq.nodes.length + 1 ≤ pq.capacity := by omega
    exact ⟨hroom, hlength.trans_le hmore, hordered⟩

/-- What a pop does: it takes a least task and keeps the others. -/
theorem pqPop_some {pq rest : PriorityQueue} {task : Task}
    (h : pqPop pq = some (task, rest)) :
    Heap.pop taskCompare pq.nodes = some (task, rest.nodes) ∧
      rest.capacity = pq.capacity := by
  obtain ⟨⟨first, kept⟩, hpop, hout⟩ := Option.map_eq_some_iff.mp h
  cases hout
  exact ⟨hpop, rfl⟩

theorem pqPop_valid {pq rest : PriorityQueue} {task : Task} (hvalid : PqValid pq)
    (h : pqPop pq = some (task, rest)) : PqValid rest := by
  obtain ⟨hpop, hcapacity⟩ := pqPop_some h
  have hlength := (Heap.pop_perm hpop).length_eq
  rw [List.length_cons] at hlength
  have hfits := hvalid.fits
  constructor
  · rw [hcapacity]
    exact hvalid.room
  · omega
  · exact Heap.pop_ordered taskCompare_isCompare hvalid.ordered hpop

theorem pqStep_valid (pq : PriorityQueue) (act : PqAct) (h : PqValid pq) :
    PqValid (pqStep pq act).1 := by
  cases act with
  | push task => exact pqPush_valid task h
  | pop =>
      dsimp only [pqStep]
      split
      next => exact h
      next task rest hpop => exact pqPop_valid h hpop

/-- What a call stores and returns is what was stored and what it pushes. -/
theorem pqStep_perm (pq : PriorityQueue) (act : PqAct) :
    ((pqStep pq act).2 ++ (pqStep pq act).1.nodes).Perm
      (pq.nodes ++ act.pushed?.toList) := by
  cases act with
  | push task => exact (pqPush_nodes task pq).trans (List.perm_append_singleton task _).symm
  | pop =>
      dsimp only [pqStep]
      split
      next => simp [PqAct.pushed?]
      next task rest hpop => simpa [PqAct.pushed?] using (pqPop_nodes hpop).symm

theorem pqRun_perm (pq : PriorityQueue) (acts : List PqAct) :
    ((run pqStep pq acts).2 ++ (run pqStep pq acts).1.nodes).Perm
      (pq.nodes ++ pushedTasks acts) := by
  induction acts generalizing pq with
  | nil => simp [run, pushedTasks]
  | cons act acts ih =>
      have hpushed : pushedTasks (act :: acts) = act.pushed?.toList ++ pushedTasks acts := by
        unfold pushedTasks
        cases act <;> rfl
      have hrest := (ih (pqStep pq act).1).append_left (pqStep pq act).2
      rw [← List.append_assoc, ← List.append_assoc] at hrest
      refine hrest.trans ?_
      rw [hpushed, ← List.append_assoc]
      exact (pqStep_perm pq act).append_right _

/-- A queue that is not empty pops its root. -/
theorem pqPop_peek {pq : PriorityQueue} (h : pq.nodes ≠ []) :
    ∃ task rest, pqPop pq = some (task, rest) ∧ pqPeek pq = some task := by
  obtain ⟨task, others, hnodes⟩ := List.exists_cons_of_ne_nil h
  unfold pqPop pqPeek
  rw [hnodes]
  exact ⟨task, _, rfl, rfl⟩

/-- A queue made by `pq_create` stays ordered and within its capacity and stores what was
pushed and not popped; a pop or a peek gives a stored task with the least `next_run`. -/
theorem pq_correct (capacity : Nat) (hcapacity : 0 < capacity) (acts : List PqAct) :
    let final := (run pqStep (pqCreate capacity) acts).1
    let popped := (run pqStep (pqCreate capacity) acts).2
    Heap.Ordered taskCompare final.nodes ∧
      final.nodes.length ≤ final.capacity ∧
      (popped : Multiset Task) ≤ pushedTasks acts ∧
      (final.nodes : Multiset Task) = (pushedTasks acts : Multiset Task) - popped ∧
      (final.nodes ≠ [] → ∃ task rest, pqPop final = some (task, rest) ∧
        pqPeek final = some task ∧ task ∈ final.nodes ∧
        ∀ other ∈ final.nodes, timespecCompare task.nextRun other.nextRun ≤ 0) := by
  intro final popped
  have hinit : PqValid (pqCreate capacity) :=
    ⟨hcapacity, Nat.zero_le _, fun i _ p x hp => by cases hp⟩
  have hvalid : PqValid final :=
    run_invariant pqStep (fun _ _ => True) PqValid (fun pq act h _ => pqStep_valid pq act h)
      _ acts hinit (Along.of_forall _ (fun _ => True) _ acts fun _ _ => trivial)
  have hstored : (popped : Multiset Task) + final.nodes = pushedTasks acts := by
    rw [Multiset.coe_add]
    exact Multiset.coe_eq_coe.mpr (pqRun_perm (pqCreate capacity) acts)
  refine ⟨hvalid.ordered, hvalid.fits, ?_, ?_, fun hne => ?_⟩
  · rw [← hstored]
    exact Multiset.le_add_right _ _
  · rw [← hstored, add_tsub_cancel_left]
  · obtain ⟨task, rest, hpop, hpeek⟩ := pqPop_peek hne
    refine ⟨task, rest, hpop, hpeek, List.mem_of_head? hpeek, fun other hother => ?_⟩
    exact Heap.pop_least taskCompare_isCompare hvalid.ordered (pqPop_some hpop).1 hother

theorem pq_correct_two :
    let early : Task := ⟨⟨1, 5⟩, Octets.zero sessionIdLen⟩
    let late : Task := ⟨⟨2, 0⟩, Octets.zero sessionIdLen⟩
    let final := (run pqStep (pqCreate 1) [.push late, .push early]).1
    0 < 1 ∧ final.nodes = [early, late] ∧ Heap.Ordered taskCompare final.nodes := by
  refine ⟨Nat.one_pos, by decide +kernel, ?_⟩
  exact (pq_correct 1 Nat.one_pos _).1

end Chamlon.Server
