import Mathlib.Tactic
import Chamlon.Lib.Machine
import Chamlon.Queue.Basic

/-!
What the queue is for: two bounded first-in first-out lanes. `FifoStep` says what one
call may do to them, `FifoRun` what a sequence of calls may do. In every run the
packets that went into a lane are, in the order of the calls, those that left it and
then those that wait in it. So the position of a push in its lane tells its fate: the
event at this position, or that the packet still waits.
-/

namespace Chamlon.Queue

open Machine Memory

def QueueEvent.node : QueueEvent → OutNode
  | .dropped node | .popped node => node

/-- One call on two bounded lanes. -/
inductive FifoStep (q : OutQueue) : QueueAct → OutQueue → List QueueEvent → Prop where
  /-- No memory for a node, or no packet. -/
  | refused (pkt : Bytes) (seq : BitVec 64) (ip : Bytes) :
      FifoStep q (.push false pkt seq ip) q []
  | queued (pkt : Bytes) (seq : BitVec 64) (ip : Bytes) (p : PktPriority)
      (hlane : classifyPacket ip = p) (hroom : (q p).length < queueCap p) :
      FifoStep q (.push true pkt seq ip) (Function.update q p (q p ++ [⟨pkt, seq, p⟩])) []
  /-- A full lane gives up its oldest packet and no other. -/
  | replaced (pkt : Bytes) (seq : BitVec 64) (ip : Bytes) (p : PktPriority)
      (oldest : OutNode) (rest : List OutNode) (hlane : classifyPacket ip = p)
      (hfull : (q p).length = queueCap p) (holdest : q p = oldest :: rest) :
      FifoStep q (.push true pkt seq ip) (Function.update q p (rest ++ [⟨pkt, seq, p⟩]))
        [.dropped oldest]
  | poppedHigh (oldest : OutNode) (rest : List OutNode) (holdest : q .high = oldest :: rest) :
      FifoStep q .pop (Function.update q .high rest) [.popped oldest]
  | poppedNormal (oldest : OutNode) (rest : List OutNode) (hhigh : q .high = [])
      (holdest : q .normal = oldest :: rest) :
      FifoStep q .pop (Function.update q .normal rest) [.popped oldest]
  | empty (hhigh : q .high = []) (hnormal : q .normal = []) : FifoStep q .pop q []

/-- A sequence of calls. -/
inductive FifoRun : OutQueue → List QueueAct → OutQueue → List QueueEvent → Prop where
  | nil (q : OutQueue) : FifoRun q [] q []
  | cons {q next final : OutQueue} {act : QueueAct} {acts : List QueueAct}
      {events later : List QueueEvent} (hstep : FifoStep q act next events)
      (hrest : FifoRun next acts final later) :
      FifoRun q (act :: acts) final (events ++ later)

/-- No lane holds more than its cap, and every packet is in the lane of its class. -/
structure Laned (q : OutQueue) : Prop where
  bound : ∀ p, (q p).length ≤ queueCap p
  priority : ∀ p, ∀ node ∈ q p, node.priority = p

theorem laned_init : Laned outQueueInit :=
  ⟨fun _ => Nat.zero_le _, fun _ _ h => absurd h List.not_mem_nil⟩

theorem Laned.update {q : OutQueue} (h : Laned q) {p : PktPriority} {lane : List OutNode}
    (hbound : lane.length ≤ queueCap p) (hpriority : ∀ node ∈ lane, node.priority = p) :
    Laned (Function.update q p lane) := by
  constructor
  · intro p'
    by_cases hp : p' = p
    · rw [hp, Function.update_self]
      exact hbound
    · rw [Function.update_of_ne hp]
      exact h.bound p'
  · intro p' node hnode
    by_cases hp : p' = p
    · rw [hp, Function.update_self] at hnode
      rw [hp]
      exact hpriority node hnode
    · rw [Function.update_of_ne hp] at hnode
      exact h.priority p' node hnode

/-- The lane without its oldest packet. -/
theorem Laned.rest {q : OutQueue} (h : Laned q) {p : PktPriority} {oldest : OutNode}
    {rest : List OutNode} (holdest : q p = oldest :: rest) :
    rest.length < queueCap p ∧ ∀ node ∈ rest, node.priority = p := by
  have hbound := h.bound p
  have hpriority := h.priority p
  rw [holdest] at hbound hpriority
  exact ⟨hbound, fun node hnode => hpriority node (List.mem_cons_of_mem _ hnode)⟩

theorem FifoStep.laned {q next : OutQueue} {act : QueueAct} {events : List QueueEvent}
    (hstep : FifoStep q act next events) (h : Laned q) : Laned next := by
  have hadd {p : PktPriority} {lane : List OutNode} (hlane : ∀ node ∈ lane, node.priority = p)
      (pkt : Bytes) (seq : BitVec 64) :
      ∀ node ∈ lane ++ [(⟨pkt, seq, p⟩ : OutNode)], node.priority = p := by
    intro node hnode
    rcases List.mem_append.mp hnode with hold | hnew
    · exact hlane node hold
    · rw [List.mem_singleton.mp hnew]
  cases hstep with
  | refused | empty => exact h
  | queued pkt seq ip p hlane hroom =>
      refine h.update ?_ (hadd (h.priority p) pkt seq)
      rw [List.length_append, List.length_singleton]
      exact hroom
  | replaced pkt seq ip p oldest rest hlane hfull holdest =>
      obtain ⟨hroom, hpriority⟩ := h.rest holdest
      refine h.update ?_ (hadd hpriority pkt seq)
      rw [List.length_append, List.length_singleton]
      exact hroom
  | poppedHigh oldest rest holdest | poppedNormal oldest rest _ holdest =>
      obtain ⟨hroom, hpriority⟩ := h.rest holdest
      exact h.update hroom.le hpriority

theorem FifoRun.laned {q final : OutQueue} {acts : List QueueAct} {events : List QueueEvent}
    (hrun : FifoRun q acts final events) (h : Laned q) : Laned final := by
  induction hrun with
  | nil => exact h
  | cons hstep _ ih => exact ih (hstep.laned h)

/-- The queue of the code is one of two bounded lanes. -/
theorem queueStep_fifoStep {q : OutQueue} (h : Laned q) (act : QueueAct) :
    FifoStep q act (queueStep q act).1 (queueStep q act).2 := by
  cases act with
  | push allocated pkt seq ip =>
      dsimp only [queueStep, packetQueuePush]
      cases allocated with
      | false => exact .refused pkt seq ip
      | true =>
          rw [if_neg (by decide)]
          split
          next hfull =>
            have hlength := le_antisymm (h.bound _) hfull
            cases hlane : q (classifyPacket ip) with
            | nil =>
                rw [hlane] at hlength
                cases hprio : classifyPacket ip with
                | high | normal =>
                    rw [hprio] at hlength
                    cases hlength
            | cons oldest rest =>
                exact .replaced pkt seq ip _ oldest rest rfl hlength hlane
          next hroom => exact .queued pkt seq ip _ rfl (Nat.not_le.mp hroom)
  | pop =>
      rcases outQueuePop_cases q with
        ⟨hhigh, hnormal, hempty⟩ | ⟨p, oldest, rest, holdest, hhigh, hpopped⟩
      · rw [queueStep, hempty]
        exact .empty hhigh hnormal
      rw [queueStep, hpopped]
      cases p with
      | high => exact .poppedHigh oldest rest holdest
      | normal => exact .poppedNormal oldest rest (hhigh rfl) holdest

theorem queueRun_fifoRun {q : OutQueue} (h : Laned q) (acts : List QueueAct) :
    FifoRun q acts (run queueStep q acts).1 (run queueStep q acts).2 := by
  induction acts generalizing q with
  | nil => exact .nil q
  | cons act rest ih =>
      have hstep := queueStep_fifoStep h act
      exact .cons hstep (ih (hstep.laned h))

/-- The packets that went into a lane, each with the IP packet it is a fragment of. -/
def pushedIn (p : PktPriority) (acts : List QueueAct) : List (Bytes × OutNode) :=
  acts.filterMap fun
    | .push true pkt seq ip => if classifyPacket ip = p then some (ip, ⟨pkt, seq, p⟩) else none
    | .push false _ _ _ => none
    | .pop => none

/-- What left a lane, popped or dropped. -/
def leftOf (p : PktPriority) (events : List QueueEvent) : List QueueEvent :=
  events.filter fun e => e.node.priority = p

/-- In one call what waited and what is pushed become what leaves and what waits. -/
theorem FifoStep.accounted {q next : OutQueue} {act : QueueAct} {events : List QueueEvent}
    (hstep : FifoStep q act next events) (h : Laned q) (p : PktPriority) :
    q p ++ (pushedIn p [act]).map Prod.snd =
      (leftOf p events).map QueueEvent.node ++ next p := by
  have hleft {p' : PktPriority} {oldest : OutNode} {rest : List OutNode}
      (holdest : q p' = oldest :: rest) : oldest.priority = p' := by
    apply h.priority p' oldest
    rw [holdest]
    exact List.mem_cons_self
  cases hstep with
  | refused | empty => simp [pushedIn, leftOf]
  | queued pkt seq ip p' hlane hroom =>
      by_cases hp : p = p'
      · simp [pushedIn, leftOf, hlane, hp]
      · simp [pushedIn, leftOf, hlane, Function.update_of_ne hp, Ne.symm hp]
  | replaced pkt seq ip p' oldest rest hlane hfull holdest =>
      have holder := hleft holdest
      by_cases hp : p = p'
      · simp [pushedIn, leftOf, hlane, hp, holdest, QueueEvent.node, holder]
      · simp [pushedIn, leftOf, hlane, Function.update_of_ne hp, Ne.symm hp,
          QueueEvent.node, holder]
  | poppedHigh oldest rest holdest | poppedNormal oldest rest _ holdest =>
      have holder := hleft holdest
      cases p with
      | high | normal => simp [pushedIn, leftOf, holdest, QueueEvent.node, holder]

theorem FifoRun.accounted {q final : OutQueue} {acts : List QueueAct}
    {events : List QueueEvent} (hrun : FifoRun q acts final events) (h : Laned q)
    (p : PktPriority) :
    q p ++ (pushedIn p acts).map Prod.snd =
      (leftOf p events).map QueueEvent.node ++ final p := by
  induction hrun with
  | nil q => simp [pushedIn, leftOf]
  | @cons q next final act acts events later hstep hrest ih =>
      have hfirst := hstep.accounted h p
      have hlater := ih (hstep.laned h)
      have hpushed : pushedIn p ([act] ++ acts) = pushedIn p [act] ++ pushedIn p acts :=
        List.filterMap_append
      rw [List.singleton_append] at hpushed
      have hleft : leftOf p (events ++ later) = leftOf p events ++ leftOf p later :=
        List.filter_append _ _
      rw [hpushed, hleft, List.map_append, List.map_append, ← List.append_assoc, hfirst,
        List.append_assoc, hlater, List.append_assoc]

/-- The fragments of an IP packet, in the order of the pushes. -/
def fragmentsOf (ip : Bytes) (acts : List QueueAct) : List OutNode :=
  acts.filterMap fun
    | .push true pkt seq ip' => if ip' = ip then some ⟨pkt, seq, classifyPacket ip⟩ else none
    | .push false _ _ _ => none
    | .pop => none

/-- All fragments of an IP packet go into one lane. -/
theorem fragmentsOf_eq (ip : Bytes) (acts : List QueueAct) :
    fragmentsOf ip acts =
      ((pushedIn (classifyPacket ip) acts).filter fun push => push.1 = ip).map Prod.snd := by
  induction acts with
  | nil => rfl
  | cons act rest ih =>
      cases act with
      | pop => exact ih
      | push allocated pkt seq ip' =>
          cases allocated with
          | false => exact ih
          | true =>
              by_cases hip : ip' = ip
              · simpa [fragmentsOf, pushedIn, hip] using ih
              · by_cases hlane : classifyPacket ip' = classifyPacket ip
                · simpa [fragmentsOf, pushedIn, hip, hlane] using ih
                · simpa [fragmentsOf, pushedIn, hip, hlane] using ih

/-- The fragments of an IP packet that were popped. The push at a position of the lane has
the fate that the event at this position tells. -/
def fragmentsPopped (ip : Bytes) (acts : List QueueAct) (events : List QueueEvent) :
    List OutNode :=
  (((pushedIn (classifyPacket ip) acts).zip (leftOf (classifyPacket ip) events)).filter
    fun fate => fate.1.1 = ip ∧ fate.2 = .popped fate.1.2).map fun fate => fate.1.2

/-- Pushes and their fates, position by position. -/
theorem zip_popped_sublist (ip : Bytes) (pushes : List (Bytes × OutNode))
    (left : List QueueEvent) :
    let popped := ((pushes.zip left).filter fun fate =>
      fate.1.1 = ip ∧ fate.2 = .popped fate.1.2).map fun fate => fate.1.2
    popped.Sublist ((pushes.filter fun push => push.1 = ip).map Prod.snd) ∧
      popped.Sublist (poppedNodes left) := by
  induction pushes generalizing left with
  | nil => exact ⟨List.nil_sublist _, List.nil_sublist _⟩
  | cons push rest ih =>
      cases left with
      | nil => exact ⟨List.nil_sublist _, List.nil_sublist _⟩
      | cons e later =>
          obtain ⟨hpushed, hpopped⟩ := ih later
          dsimp only at hpushed hpopped ⊢
          rw [List.zip_cons_cons]
          by_cases hfate : push.1 = ip ∧ e = .popped push.2
          · have hnodes : poppedNodes (e :: later) = push.2 :: poppedNodes later := by
              rw [hfate.2]
              rfl
            rw [List.filter_cons_of_pos (by simpa using hfate),
              List.filter_cons_of_pos (by simpa using hfate.1), hnodes]
            exact ⟨hpushed.cons_cons _, hpopped.cons_cons _⟩
          · rw [List.filter_cons_of_neg (by simpa using hfate)]
            constructor
            · exact hpushed.trans
                (((List.sublist_cons_self push rest).filter _).map Prod.snd)
            · exact hpopped.trans ((List.sublist_cons_self e later).filterMap _)

/-- The fragments that survive are popped in the order in which they were pushed. -/
theorem fragmentsPopped_sublist (ip : Bytes) (acts : List QueueAct)
    (events : List QueueEvent) :
    (fragmentsPopped ip acts events).Sublist (fragmentsOf ip acts) ∧
      (fragmentsPopped ip acts events).Sublist (poppedNodes events) := by
  obtain ⟨hpushed, hpopped⟩ := zip_popped_sublist ip (pushedIn (classifyPacket ip) acts)
    (leftOf (classifyPacket ip) events)
  refine ⟨?_, hpopped.trans ?_⟩
  · rw [fragmentsOf_eq]
    exact hpushed
  · exact List.filter_sublist.filterMap _

end Chamlon.Queue
