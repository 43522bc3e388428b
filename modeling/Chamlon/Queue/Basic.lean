import Mathlib.Tactic
import Chamlon.Lib.Memory

/-!
The queue of encrypted packets that wait for the sender, `vpn_queue.c` of the client
and the first half of `scheduler.c` of the server. The two files contain the same
code, up to a counter for dropped packets on the server. A lane is the list of its
nodes from `head` to `tail`, and its `size` is the length of the list.
-/

namespace Chamlon.Queue

open Memory

/-- `pkt_priority_t`. -/
inductive PktPriority where
  | high
  | normal
deriving DecidableEq, Repr

/-- `QUEUE_CAP_HIGH` and `QUEUE_CAP_NORMAL`. -/
def queueCap : PktPriority → Nat
  | .high => 64
  | .normal => 256

/-- `out_node_t`; `pktlen` is the length of `pkt`. -/
structure OutNode where
  pkt : Bytes
  seq : BitVec 64
  priority : PktPriority
deriving DecidableEq

/-- `classify_packet` on the `len` bytes of an IP packet. Every byte it reads lies
inside them. -/
def classifyPacket (ip : Bytes) : PktPriority :=
  let octet (i : Nat) : Nat := (peek ip (fun _ => 0) i).toNat
  let word (i : Nat) : Nat := Endian.big.decode (field 2 ip i).val
  if ip.length < 20 then .normal
  else if octet 0 >>> 4 = 4 then
    let totalLen := word 2
    let protocol := octet 9
    let ihl := (octet 0 &&& 0x0F) * 4
    let tcpOff := (octet (ihl + 12) >>> 4) * 4
    let tcpFlags := octet (ihl + 13)
    let tcpPayload := (totalLen + 2 ^ 16 - ihl - tcpOff) % 2 ^ 16
    if totalLen ≤ 128 then .high
    else if protocol = 1 then .high
    else if protocol = 17 ∧ ihl + 4 ≤ ip.length ∧ (word ihl = 53 ∨ word (ihl + 2) = 53) then
      .high
    else if protocol = 6 ∧ ihl + 20 ≤ ip.length ∧ tcpFlags &&& 0x10 ≠ 0 ∧ tcpPayload = 0 then
      .high
    else .normal
  else if octet 0 >>> 4 = 6 then
    if 40 ≤ ip.length ∧ octet 6 = 58 then .high
    else if ip.length ≤ 128 then .high
    else .normal
  else .normal

abbrev OutQueue := PktPriority → List OutNode

/-- `out_queue_init`. -/
def outQueueInit : OutQueue := fun _ => []

inductive QueueEvent where
  /-- A full lane gave up its oldest packet. -/
  | dropped (node : OutNode)
  /-- `out_queue_pop` returned the packet. -/
  | popped (node : OutNode)
deriving DecidableEq

/-- `packet_queue_push`; without memory for a node the packet is freed. -/
def packetQueuePush (allocated : Bool) (pkt : Bytes) (seq : BitVec 64) (ip : Bytes)
    (q : OutQueue) : OutQueue × List QueueEvent :=
  let prio := classifyPacket ip
  let node : OutNode := ⟨pkt, seq, prio⟩
  if !allocated then (q, [])
  else if queueCap prio ≤ (q prio).length then
    (Function.update q prio ((q prio).tail ++ [node]),
      ((q prio).head?.map .dropped).toList)
  else (Function.update q prio (q prio ++ [node]), [])

/-- `out_queue_pop`: the oldest packet of the first lane that has one. -/
def outQueuePop (q : OutQueue) : OutQueue × List QueueEvent :=
  match q .high, q .normal with
  | node :: rest, _ => (Function.update q .high rest, [.popped node])
  | [], node :: rest => (Function.update q .normal rest, [.popped node])
  | [], [] => (q, [])

inductive QueueAct where
  | push (allocated : Bool) (pkt : Bytes) (seq : BitVec 64) (ip : Bytes)
  | pop
deriving DecidableEq

def queueStep (q : OutQueue) : QueueAct → OutQueue × List QueueEvent
  | .push allocated pkt seq ip => packetQueuePush allocated pkt seq ip q
  | .pop => outQueuePop q

/-- The packets that left through `out_queue_pop`, in order. -/
def poppedNodes (events : List QueueEvent) : List OutNode :=
  events.filterMap fun | .popped node => some node | .dropped _ => none

@[simp] theorem poppedNodes_append (first second : List QueueEvent) :
    poppedNodes (first ++ second) = poppedNodes first ++ poppedNodes second :=
  List.filterMap_append

/-- A push does nothing, or adds its node behind what the lane keeps. -/
theorem packetQueuePush_cases (allocated : Bool) (pkt : Bytes) (seq : BitVec 64)
    (ip : Bytes) (q : OutQueue) :
    poppedNodes (packetQueuePush allocated pkt seq ip q).2 = [] ∧
      ((packetQueuePush allocated pkt seq ip q).1 = q ∨
        ∃ kept, kept.Sublist (q (classifyPacket ip)) ∧
          (packetQueuePush allocated pkt seq ip q).1 =
            Function.update q (classifyPacket ip)
              (kept ++ [⟨pkt, seq, classifyPacket ip⟩])) := by
  unfold packetQueuePush
  generalize classifyPacket ip = prio
  dsimp only
  split
  · exact ⟨rfl, Or.inl rfl⟩
  split
  · refine ⟨?_, Or.inr ⟨_, List.tail_sublist _, rfl⟩⟩
    cases q prio with
    | nil => rfl
    | cons node rest => rfl
  · exact ⟨rfl, Or.inr ⟨_, List.Sublist.refl _, rfl⟩⟩

/-- A pop takes the head of a lane, of the normal one only when the other is empty, or
finds both empty. -/
theorem outQueuePop_cases (q : OutQueue) :
    (q .high = [] ∧ q .normal = [] ∧ outQueuePop q = (q, [])) ∨
    ∃ p node rest, q p = node :: rest ∧ (p = .normal → q .high = []) ∧
      outQueuePop q = (Function.update q p rest, [.popped node]) := by
  unfold outQueuePop
  cases hhigh : q .high with
  | cons node rest =>
      exact Or.inr ⟨.high, node, rest, hhigh, fun h => PktPriority.noConfusion h, rfl⟩
  | nil =>
      cases hnormal : q .normal with
      | cons node rest =>
          exact Or.inr ⟨.normal, node, rest, hnormal, fun _ => rfl, rfl⟩
      | nil => exact Or.inl ⟨rfl, rfl, rfl⟩

/-- Every packet that waits is good. -/
def AllQueued (good : Bytes → Prop) (q : OutQueue) : Prop :=
  ∀ p, ∀ node ∈ q p, good node.pkt

section AllQueued

variable {good : Bytes → Prop} {q : OutQueue}

theorem allQueued_init (good : Bytes → Prop) : AllQueued good outQueueInit :=
  fun _ _ h => absurd h List.not_mem_nil

theorem AllQueued.push (h : AllQueued good q) {pkt : Bytes} (hpkt : good pkt)
    (allocated : Bool) (seq : BitVec 64) (ip : Bytes) :
    AllQueued good (packetQueuePush allocated pkt seq ip q).1 := by
  obtain ⟨_, hsame | ⟨kept, hkept, hpushed⟩⟩ := packetQueuePush_cases allocated pkt seq ip q
  · rw [hsame]
    exact h
  rw [hpushed]
  intro p node hnode
  by_cases hp : p = classifyPacket ip
  · rw [hp, Function.update_self] at hnode
    rcases List.mem_append.mp hnode with hold | hnew
    · exact h _ node (hkept.subset hold)
    · rw [List.mem_singleton.mp hnew]
      exact hpkt
  · rw [Function.update_of_ne hp] at hnode
    exact h p node hnode

/-- A pop takes a good packet and leaves good ones. -/
theorem AllQueued.pop (h : AllQueued good q) :
    AllQueued good (outQueuePop q).1 ∧
      ∀ node ∈ poppedNodes (outQueuePop q).2, good node.pkt := by
  rcases outQueuePop_cases q with ⟨_, _, hempty⟩ | ⟨p, node, rest, hlane, _, hpopped⟩
  · rw [hempty]
    exact ⟨h, fun _ hnode => absurd hnode List.not_mem_nil⟩
  have hnode : good node.pkt := h p node (by rw [hlane]; exact List.mem_cons_self)
  rw [hpopped]
  refine ⟨fun p' node' hnode' => ?_, fun node' hnode' => ?_⟩
  · dsimp only at hnode'
    by_cases hp : p' = p
    · rw [hp, Function.update_self] at hnode'
      exact h p node' (by rw [hlane]; exact List.mem_cons_of_mem node hnode')
    · rw [Function.update_of_ne hp] at hnode'
      exact h p' node' hnode'
  · rw [List.mem_singleton.mp hnode']
    exact hnode

end AllQueued

end Chamlon.Queue
