import Mathlib
import Chamlon.Lib.LinkedList
import Chamlon.Queue.Fifo

/-!
The queue as the code keeps it: for each lane a pointer to the first node, one to the
last and a count, and the nodes linked by `next`. The server's `scheduler.c` counts in
an `int` and the client's `vpn_queue.c` in a `size_t`; the server records drops in its
metrics. A call that would follow a null or dangling pointer has no result.

The heap holds the nodes that the queue owns. A node that is popped belongs to the
caller, which frees it. `malloc` may return any address at which the queue has no node.
-/

namespace Chamlon.Queue

open LinkedList Machine Memory

abbrev Addr := Nat

inductive LinkedEvent where
  | packet (event : QueueEvent)
  /-- `metrics_record_queue_drop`. -/
  | queueDrop

/-- `head[p]`, `tail[p]` and `size[p]`, with a count of `w` bits. -/
structure Lane (w : Nat) where
  head : Option Addr
  tail : Option Addr
  size : BitVec w

/-- `out_queue_t` and the nodes. -/
structure LinkedQueue (w : Nat) where
  heap : Heap Addr OutNode
  lane : PktPriority → Lane w

/-- Where the two programs differ: how a count is read as a `size_t`, and what is recorded
when a packet is dropped. -/
structure QueueCode (w : Nat) where
  sizeT : BitVec w → BitVec 64
  onDrop : List LinkedEvent
  counts : ∀ n ≤ queueCap .normal, (sizeT (BitVec.ofNat w n)).toNat = n
  recorded : ∀ e ∈ onDrop, e = .queueDrop

def serverCode : QueueCode 32 where
  sizeT := BitVec.signExtend 64
  onDrop := [.queueDrop]
  counts := by decide +kernel
  recorded := by simp

def clientCode : QueueCode 64 where
  sizeT := id
  onDrop := []
  counts := by decide +kernel
  recorded := by simp

variable {w : Nat}

namespace LinkedQueue

/-- `out_queue_init`. -/
def init : LinkedQueue w := ⟨fun _ => none, fun _ => ⟨none, none, 0⟩⟩

/-- The first node leaves its lane, in a push to a full lane and in a pop alike. -/
def unlinkHead (q : LinkedQueue w) (p : PktPriority) : Option (OutNode × LinkedQueue w) :=
  match (q.lane p).head with
  | none => none
  | some old =>
      match q.heap old with
      | none => none
      | some cell =>
          some (cell.value,
            { heap := Function.update q.heap old none
              lane := Function.update q.lane p
                ⟨cell.next, if cell.next.isNone then none else (q.lane p).tail,
                  (q.lane p).size - 1⟩ })

/-- The new node goes behind the last one. -/
def linkTail (q : LinkedQueue w) (p : PktPriority) (n : Addr) : Option (LinkedQueue w) :=
  match (q.lane p).tail with
  | none =>
      some
        { heap := q.heap
          lane := Function.update q.lane p ⟨some n, some n, (q.lane p).size + 1⟩ }
  | some last =>
      match q.heap last with
      | none => none
      | some cell =>
          some
            { heap := Function.update q.heap last (some { cell with next := some n })
              lane := Function.update q.lane p
                ⟨(q.lane p).head, some n, (q.lane p).size + 1⟩ }

/-- `packet_queue_push`. Null pointers are `none`, also the result of `malloc`. -/
def packetQueuePush (code : QueueCode w) (malloc : Option Addr) (pkt : Option Bytes)
    (seq : BitVec 64) (ip : Option Bytes) (q : LinkedQueue w) :
    Option (LinkedQueue w × List LinkedEvent) :=
  match pkt, malloc with
  | none, _ => some (q, [])
  | some _, none => some (q, [])
  | some pkt, some n =>
      let prio := classifyPacket (ip.getD [])
      let q := { q with heap := Function.update q.heap n (some ⟨none, ⟨pkt, seq, prio⟩⟩) }
      if queueCap prio ≤ (code.sizeT (q.lane prio).size).toNat then
        match q.unlinkHead prio with
        | none => none
        | some (old, q) =>
            (q.linkTail prio n).map fun q => (q, code.onDrop ++ [.packet (.dropped old)])
      else (q.linkTail prio n).map fun q => (q, [])

/-- The loop of `out_queue_pop` over the lanes. -/
def popFrom (q : LinkedQueue w) :
    List PktPriority → Option (LinkedQueue w × List LinkedEvent)
  | [] => some (q, [])
  | p :: rest =>
      if (q.lane p).head.isSome then
        (q.unlinkHead p).map fun popped => (popped.2, [.packet (.popped popped.1)])
      else q.popFrom rest

/-- `out_queue_pop`. -/
def outQueuePop (q : LinkedQueue w) : Option (LinkedQueue w × List LinkedEvent) :=
  q.popFrom [.high, .normal]

/-- `out_queue_size` of the server: a sum of two `int`, cast at the end. -/
def serverOutQueueSize (q : LinkedQueue 32) : BitVec 64 :=
  ((q.lane .high).size + (q.lane .normal).size).signExtend 64

/-- `out_queue_size` of the client. -/
def clientOutQueueSize (q : LinkedQueue 64) : BitVec 64 :=
  [.high, .normal].foldl (fun total p => total + (q.lane p).size) 0

end LinkedQueue

inductive LinkedAct where
  | push (malloc : Option Addr) (pkt : Option Bytes) (seq : BitVec 64) (ip : Option Bytes)
  | pop

/-- The call without the address that `malloc` returns. A push without a packet does
nothing, as one without a node. -/
def LinkedAct.call : LinkedAct → QueueAct
  | .push _ none seq ip => .push false [] seq (ip.getD [])
  | .push malloc (some pkt) seq ip => .push malloc.isSome pkt seq (ip.getD [])
  | .pop => .pop

/-- The state behind a call, `none` behind a fault. -/
def settle : Option (LinkedQueue w × List LinkedEvent) →
    Option (LinkedQueue w) × List LinkedEvent
  | none => (none, [])
  | some (next, events) => (some next, events)

def linkedStep (code : QueueCode w) :
    Option (LinkedQueue w) → LinkedAct → Option (LinkedQueue w) × List LinkedEvent
  | none, _ => (none, [])
  | some q, .push malloc pkt seq ip => settle (q.packetQueuePush code malloc pkt seq ip)
  | some q, .pop => settle q.outQueuePop

/-- `malloc` returns no address of a node that the queue owns. -/
def Fresh (s : Option (LinkedQueue w)) : LinkedAct → Prop
  | .push (some n) _ _ _ => ∀ q ∈ s, (q.heap n).isNone = true
  | .push none _ _ _ => True
  | .pop => True

instance (s : Option (LinkedQueue w)) : DecidablePred (Fresh s)
  | .push (some _) _ _ _ => inferInstanceAs (Decidable (∀ _ ∈ s, _))
  | .push none _ _ _ => inferInstanceAs (Decidable True)
  | .pop => inferInstanceAs (Decidable True)

/-- The events both programs have. -/
def packetEvents (events : List LinkedEvent) : List QueueEvent :=
  events.filterMap fun | .packet e => some e | .queueDrop => none

/-- The pointers and counts represent two lists of nodes. Every live node is in one of
them, but for the one a push has allocated and not yet linked. -/
structure Represents (q : LinkedQueue w) (cells : PktPriority → List (Addr × OutNode))
    (loose : Option Addr) : Prop where
  linked : ∀ p, Linked q.heap (q.lane p).head (q.lane p).tail (cells p)
  size : ∀ p, (q.lane p).size = BitVec.ofNat w (cells p).length
  apart : ∀ p p', ∀ a ∈ (cells p).map Prod.fst, a ∈ (cells p').map Prod.fst → p = p'
  unlinked : ∀ a ∈ loose, ∀ p, a ∉ (cells p).map Prod.fst
  owned : ∀ a, (q.heap a).isSome = true →
    loose = some a ∨ ∃ p, a ∈ (cells p).map Prod.fst

/-- The packets of the two lists. -/
def lanesOf (cells : PktPriority → List (Addr × OutNode)) : OutQueue :=
  fun p => (cells p).map Prod.snd

theorem lanesOf_update (cells : PktPriority → List (Addr × OutNode)) (p : PktPriority)
    (lane : List (Addr × OutNode)) :
    lanesOf (Function.update cells p lane) =
      Function.update (lanesOf cells) p (lane.map Prod.snd) := by
  funext p'
  by_cases hp : p' = p
  · rw [hp, lanesOf, Function.update_self, Function.update_self]
  · rw [lanesOf, Function.update_of_ne hp, Function.update_of_ne hp]
    rfl

theorem represents_init : Represents (w := w) LinkedQueue.init (fun _ => []) none where
  linked _ := Linked.nil _
  size _ := rfl
  apart _ _ _ h := absurd h List.not_mem_nil
  unlinked _ h := absurd h (Option.not_mem_none _)
  owned _ h := absurd h Bool.false_ne_true

namespace Represents

variable {q : LinkedQueue w} {cells : PktPriority → List (Addr × OutNode)}

/-- `malloc` and the stores to the new node. -/
theorem allocate (h : Represents q cells none) {n : Addr} (hfresh : (q.heap n).isNone = true)
    (node : OutNode) :
    Represents { q with heap := Function.update q.heap n (some ⟨none, node⟩) } cells
      (some n) := by
  have houtside (p : PktPriority) : n ∉ (cells p).map Prod.fst := by
    intro hmem
    have hlive := (h.linked p).links.live hmem
    rw [Option.isNone_iff_eq_none.mp hfresh] at hlive
    cases hlive
  refine ⟨fun p => (h.linked p).congr fun a ha => ?_, h.size, h.apart, ?_, fun a ha => ?_⟩
  · have hne : a ≠ n := fun heq => houtside p (heq ▸ ha)
    exact Function.update_of_ne hne _ _
  · intro a ha p
    rw [← Option.mem_some.mp ha]
    exact houtside p
  · by_cases hne : a = n
    · exact Or.inl (congrArg some hne.symm)
    · dsimp only at ha
      rw [Function.update_of_ne hne] at ha
      exact Or.inr ((h.owned a ha).resolve_left (by simp))

variable {loose : Option Addr}

/-- One lane is replaced, the nodes of the other are left alone. -/
theorem replaceLane (h : Represents q cells loose) (p : PktPriority)
    {heap : Heap Addr OutNode} {lane : Lane w} {nodes : List (Addr × OutNode)}
    {loose' : Option Addr} (hlinked : Linked heap lane.head lane.tail nodes)
    (hsize : lane.size = BitVec.ofNat w nodes.length)
    (hothers : ∀ p' ≠ p, ∀ a ∈ (cells p').map Prod.fst,
      heap a = q.heap a ∧ a ∉ nodes.map Prod.fst)
    (hloose : ∀ a ∈ loose', a ∉ nodes.map Prod.fst ∧
      ∀ p' ≠ p, a ∉ (cells p').map Prod.fst)
    (howned : ∀ a, (heap a).isSome = true → loose' = some a ∨ a ∈ nodes.map Prod.fst ∨
      ∃ p' ≠ p, a ∈ (cells p').map Prod.fst) :
    Represents ⟨heap, Function.update q.lane p lane⟩ (Function.update cells p nodes)
      loose' := by
  constructor
  · intro p'
    dsimp only
    by_cases hp : p' = p
    · rw [hp, Function.update_self, Function.update_self]
      exact hlinked
    · rw [Function.update_of_ne hp, Function.update_of_ne hp]
      exact (h.linked p').congr fun a ha => (hothers p' hp a ha).1
  · intro p'
    dsimp only
    by_cases hp : p' = p
    · rw [hp, Function.update_self, Function.update_self]
      exact hsize
    · rw [Function.update_of_ne hp, Function.update_of_ne hp]
      exact h.size p'
  · intro p' p'' a ha ha'
    by_cases hp : p' = p
    · by_cases hp' : p'' = p
      · rw [hp, hp']
      rw [hp, Function.update_self] at ha
      rw [Function.update_of_ne hp'] at ha'
      exact absurd ha (hothers p'' hp' a ha').2
    rw [Function.update_of_ne hp] at ha
    by_cases hp' : p'' = p
    · rw [hp', Function.update_self] at ha'
      exact absurd ha' (hothers p' hp a ha).2
    · rw [Function.update_of_ne hp'] at ha'
      exact h.apart p' p'' a ha ha'
  · intro a ha p'
    by_cases hp : p' = p
    · rw [hp, Function.update_self]
      exact (hloose a ha).1
    · rw [Function.update_of_ne hp]
      exact (hloose a ha).2 p' hp
  · intro a ha
    refine (howned a ha).imp_right fun hlisted => ?_
    rcases hlisted with hnew | ⟨p', hp, hother⟩
    · refine ⟨p, ?_⟩
      rwa [Function.update_self]
    · refine ⟨p', ?_⟩
      rwa [Function.update_of_ne hp]

/-- The oldest node leaves its lane. -/
theorem unlink (h : Represents q cells loose) {p : PktPriority} {a : Addr} {x : OutNode}
    {rest : List (Addr × OutNode)} (hlane : cells p = (a, x) :: rest) :
    ∃ next, q.unlinkHead p = some (x, next) ∧
      Represents next (Function.update cells p rest) loose ∧
      ∀ n ∈ loose, next.heap n = q.heap n := by
  have hlinked := h.linked p
  rw [hlane] at hlinked
  have hhead : (q.lane p).head = some a := hlinked.head_eq
  obtain ⟨next, hcell, hrest⟩ := hlinked.unlink
  have hmem : a ∈ (cells p).map Prod.fst := by
    rw [hlane]
    exact List.mem_cons_self
  have hkept {b : Addr} (hb : b ∈ rest.map Prod.fst) : b ∈ (cells p).map Prod.fst := by
    rw [hlane]
    exact List.mem_cons_of_mem _ hb
  refine ⟨_, by rw [LinkedQueue.unlinkHead, hhead]; dsimp only; rw [hcell], ?_, ?_⟩
  · refine h.replaceLane p hrest ?_ (fun p' hp b hb => ⟨?_, fun hb' => ?_⟩)
      (fun n hn => ⟨fun hn' => h.unlinked n hn p (hkept hn'), fun p' _ => h.unlinked n hn p'⟩)
      fun b hb => ?_
    · rw [h.size p, hlane, List.length_cons, BitVec.ofNat_add]
      exact BitVec.add_sub_cancel _ _
    · have hba : b ≠ a := by
        rintro rfl
        exact hp (h.apart p' p b hb hmem)
      exact Function.update_of_ne hba _ _
    · exact hp (h.apart p' p b hb (hkept hb'))
    · have hba : b ≠ a := by
        rintro rfl
        rw [Function.update_self] at hb
        cases hb
      rw [Function.update_of_ne hba] at hb
      refine (h.owned b hb).imp_right fun ⟨p', hp'⟩ => ?_
      by_cases hp : p' = p
      · rw [hp, hlane] at hp'
        exact Or.inl ((List.mem_cons.mp hp').resolve_left hba)
      · exact Or.inr ⟨p', hp, hp'⟩
  · intro n hn
    have hna : n ≠ a := by
      rintro rfl
      exact h.unlinked n hn p hmem
    exact Function.update_of_ne hna _ _

/-- The new node is linked behind the last one. -/
theorem link {n : Addr} (h : Represents q cells (some n)) (p : PktPriority) {node : OutNode}
    (hnode : q.heap n = some ⟨none, node⟩) :
    ∃ next, q.linkTail p n = some next ∧
      Represents next (Function.update cells p (cells p ++ [(n, node)])) none := by
  have hfresh : n ∉ (cells p).map Prod.fst := h.unlinked n rfl p
  have hsize : (q.lane p).size + 1 = BitVec.ofNat w (cells p ++ [(n, node)]).length := by
    rw [h.size p, List.length_append, List.length_singleton, BitVec.ofNat_add]
    rfl
  have hoff {p' : PktPriority} (hp : p' ≠ p) {a : Addr} (ha : a ∈ (cells p').map Prod.fst) :
      a ∉ (cells p ++ [(n, node)]).map Prod.fst := by
    intro ha'
    rw [List.map_append] at ha'
    rcases List.mem_append.mp ha' with hold | hnew
    · exact hp (h.apart p' p a ha hold)
    · rw [List.mem_singleton.mp hnew] at ha
      exact h.unlinked n rfl p' ha
  have hlisted {a : Addr} (ha : (q.heap a).isSome = true) :
      a ∈ (cells p ++ [(n, node)]).map Prod.fst ∨
        ∃ p' ≠ p, a ∈ (cells p').map Prod.fst := by
    rw [List.map_append]
    rcases h.owned a ha with hnew | ⟨p', hp'⟩
    · rw [← Option.some.inj hnew]
      exact Or.inl (List.mem_append_right _ List.mem_cons_self)
    by_cases hp : p' = p
    · exact Or.inl (List.mem_append_left _ (hp ▸ hp'))
    · exact Or.inr ⟨p', hp, hp'⟩
  cases htail : (q.lane p).tail with
  | none =>
      have hempty : cells p = [] := by
        have hlast := (h.linked p).last.symm.trans htail
        simpa using hlast
      have hlinked := Linked.link_nil hnode
      rw [hempty, List.nil_append] at hsize hoff hlisted ⊢
      refine ⟨_, by rw [LinkedQueue.linkTail, htail], ?_⟩
      exact h.replaceLane p hlinked hsize (fun p' hp a ha => ⟨rfl, hoff hp ha⟩)
        (fun a ha => absurd ha (Option.not_mem_none a)) fun a ha => Or.inr (hlisted ha)
  | some last =>
      obtain ⟨cell, hcell, hmem, hlinked⟩ := (h.linked p).link htail hnode hfresh
      refine ⟨_, by rw [LinkedQueue.linkTail, htail]; dsimp only; rw [hcell], ?_⟩
      refine h.replaceLane p hlinked hsize (fun p' hp a ha => ⟨?_, hoff hp ha⟩)
        (fun a ha => absurd ha (Option.not_mem_none a)) fun a ha => Or.inr ?_
      · have hne : a ≠ last := by
          rintro rfl
          exact hp (h.apart p' p a ha hmem)
        exact Function.update_of_ne hne _ _
      · by_cases hne : a = last
        · rw [hne, List.map_append]
          exact Or.inl (List.mem_append_left _ hmem)
        · rw [Function.update_of_ne hne] at ha
          exact hlisted ha

end Represents

/-- The call has a result, and it is what the queue of lists does. -/
def Implements (result : Option (LinkedQueue w × List LinkedEvent))
    (spec : OutQueue × List QueueEvent) : Prop :=
  ∃ next cells events, result = some (next, events) ∧ Represents next cells none ∧
    lanesOf cells = spec.1 ∧ packetEvents events = spec.2

theorem queueCap_le_normal (p : PktPriority) : queueCap p ≤ queueCap .normal := by
  cases p with
  | high | normal => decide

theorem QueueCode.packetEvents_drop (code : QueueCode w) (old : OutNode) :
    packetEvents (code.onDrop ++ [.packet (.dropped old)]) = [.dropped old] := by
  have hnone : packetEvents code.onDrop = [] := by
    refine List.filterMap_eq_nil_iff.mpr fun e he => ?_
    rw [code.recorded e he]
  rw [packetEvents, List.filterMap_append]
  change packetEvents code.onDrop ++ _ = _
  rw [hnone]
  rfl

section Calls

variable (code : QueueCode w) {q : LinkedQueue w}
  {cells : PktPriority → List (Addr × OutNode)}

theorem push_implements (h : Represents q cells none) (hlaned : Laned (lanesOf cells))
    {n : Addr} (hfresh : (q.heap n).isNone = true) (pkt : Bytes) (seq : BitVec 64)
    (ip : Option Bytes) :
    Implements (q.packetQueuePush code (some n) (some pkt) seq ip)
      (packetQueuePush true pkt seq (ip.getD []) (lanesOf cells)) := by
  unfold LinkedQueue.packetQueuePush packetQueuePush
  generalize classifyPacket (ip.getD []) = prio
  dsimp only
  rw [Bool.not_true, if_neg Bool.false_ne_true]
  have hallocated := h.allocate hfresh ⟨pkt, seq, prio⟩
  have hlength : (lanesOf cells prio).length = (cells prio).length := List.length_map _
  have hbound : (cells prio).length ≤ queueCap prio := hlength ▸ hlaned.bound prio
  have hcount : (code.sizeT (q.lane prio).size).toNat = (lanesOf cells prio).length := by
    rw [h.size prio, hlength]
    exact code.counts _ (hbound.trans (queueCap_le_normal prio))
  rw [hcount]
  split
  next hfull =>
    cases hlane : cells prio with
    | nil =>
        rw [hlength, hlane] at hfull
        cases prio with
        | high | normal => exact absurd hfull (by decide)
    | cons first rest =>
        obtain ⟨a, old⟩ := first
        obtain ⟨unlinked, hunlink, hrest, hkeeps⟩ := hallocated.unlink hlane
        have hnode : unlinked.heap n = some ⟨none, ⟨pkt, seq, prio⟩⟩ := by
          rw [hkeeps n rfl]
          exact Function.update_self n _ q.heap
        obtain ⟨next, hlink, hnext⟩ := hrest.link prio hnode
        rw [Function.update_self, Function.update_idem] at hnext
        refine ⟨next, _, _, by rw [hunlink]; dsimp only; rw [hlink]; rfl, hnext, ?_, ?_⟩
        · rw [lanesOf_update, List.map_append, lanesOf, hlane]
          rfl
        · rw [code.packetEvents_drop, lanesOf, hlane]
          rfl
  next hroom =>
    obtain ⟨next, hlink, hnext⟩ := hallocated.link prio (Function.update_self n _ q.heap)
    refine ⟨next, _, _, by rw [hlink]; rfl, hnext, ?_, rfl⟩
    rw [lanesOf_update, List.map_append]
    rfl

theorem pop_implements (h : Represents q cells none) :
    Implements q.outQueuePop (outQueuePop (lanesOf cells)) := by
  have hhead (p : PktPriority) : (q.lane p).head = (cells p).head?.map Prod.fst :=
    (h.linked p).head_eq
  have hpop {p : PktPriority} {a : Addr} {x : OutNode} {rest : List (Addr × OutNode)}
      (hlane : cells p = (a, x) :: rest) :
      Implements ((q.unlinkHead p).map fun popped =>
          (popped.2, [.packet (.popped popped.1)]))
        (Function.update (lanesOf cells) p (rest.map Prod.snd), [.popped x]) := by
    obtain ⟨next, hunlink, hnext, _⟩ := h.unlink hlane
    exact ⟨next, _, _, by rw [hunlink]; rfl, hnext, lanesOf_update cells p rest, rfl⟩
  unfold LinkedQueue.outQueuePop outQueuePop
  rw [LinkedQueue.popFrom, LinkedQueue.popFrom, LinkedQueue.popFrom, hhead, hhead]
  cases hhigh : cells .high with
  | cons first rest =>
      have hlane : lanesOf cells .high = first.2 :: rest.map Prod.snd := by
        rw [lanesOf, hhigh]
        rfl
      rw [hlane]
      exact hpop hhigh
  | nil =>
      have hlane : lanesOf cells .high = [] := by
        rw [lanesOf, hhigh]
        rfl
      rw [hlane]
      cases hnormal : cells .normal with
      | cons first rest =>
          have hlane' : lanesOf cells .normal = first.2 :: rest.map Prod.snd := by
            rw [lanesOf, hnormal]
            rfl
          rw [hlane']
          exact hpop hnormal
      | nil =>
          have hlane' : lanesOf cells .normal = [] := by
            rw [lanesOf, hnormal]
            rfl
          rw [hlane']
          exact ⟨q, cells, [], rfl, h, rfl, rfl⟩

end Calls

/-- There was no fault, and the pointers represent these lanes. -/
def Models (s : Option (LinkedQueue w)) (lanes : OutQueue) : Prop :=
  ∃ q cells, s = some q ∧ Represents q cells none ∧ lanesOf cells = lanes

theorem Implements.settle {result : Option (LinkedQueue w × List LinkedEvent)}
    {spec : OutQueue × List QueueEvent} (h : Implements result spec) :
    Models (Queue.settle result).1 spec.1 ∧ packetEvents (Queue.settle result).2 = spec.2 := by
  obtain ⟨next, cells, events, rfl, hnext, hlanes, hevents⟩ := h
  exact ⟨⟨next, cells, rfl, hnext, hlanes⟩, hevents⟩

theorem linkedStep_models (code : QueueCode w) {s : Option (LinkedQueue w)}
    {lanes : OutQueue} (hlaned : Laned lanes) (hmodels : Models s lanes) {act : LinkedAct}
    (hfresh : Fresh s act) :
    Models (linkedStep code s act).1 (queueStep lanes act.call).1 ∧
      packetEvents (linkedStep code s act).2 = (queueStep lanes act.call).2 := by
  obtain ⟨q, cells, rfl, h, rfl⟩ := hmodels
  cases act with
  | pop => exact (pop_implements h).settle
  | push malloc pkt seq ip =>
      cases pkt with
      | none => exact ⟨⟨q, cells, rfl, h, rfl⟩, rfl⟩
      | some pkt =>
          cases malloc with
          | none => exact ⟨⟨q, cells, rfl, h, rfl⟩, rfl⟩
          | some n => exact (push_implements code h hlaned (hfresh q rfl) pkt seq ip).settle

/-- Without a fault, the linked queue does what the queue of lists does, call by call. -/
theorem linkedRun_models (code : QueueCode w) (acts : List LinkedAct)
    (hfresh : Along (linkedStep code) Fresh (some .init) acts) :
    Models (run (linkedStep code) (some .init) acts).1
        (run queueStep outQueueInit (acts.map LinkedAct.call)).1 ∧
      packetEvents (run (linkedStep code) (some .init) acts).2 =
        (run queueStep outQueueInit (acts.map LinkedAct.call)).2 := by
  have hrun := run_simulates (linkedStep code) Fresh queueStep LinkedAct.call
    (fun s lanes => Laned lanes ∧ Models s lanes) packetEvents rfl
    (fun _ _ => List.filterMap_append)
    (fun s lanes act hrel hact => by
      obtain ⟨hmodels, hevents⟩ := linkedStep_models code hrel.1 hrel.2 hact
      exact ⟨⟨(queueStep_fifoStep hrel.1 act.call).laned hrel.1, hmodels⟩, hevents⟩)
    (some .init) outQueueInit acts
    ⟨laned_init, .init, fun _ => [], rfl, represents_init, rfl⟩ hfresh
  exact ⟨hrun.1.2, hrun.2⟩

section Sizes

variable {lanes : OutQueue} {cells : PktPriority → List (Addr × OutNode)}

theorem total_le (hlaned : Laned lanes) :
    (lanes .high).length + (lanes .normal).length ≤ 320 :=
  Nat.add_le_add (hlaned.bound .high) (hlaned.bound .normal)

theorem size_eq {q : LinkedQueue w} (h : Represents q cells none)
    (hlanes : lanesOf cells = lanes) (p : PktPriority) :
    (q.lane p).size = BitVec.ofNat w (lanes p).length := by
  rw [h.size p, ← hlanes, lanesOf, List.length_map]

/-- The sum of the two `int` does not overflow. -/
theorem serverOutQueueSize_eq {q : LinkedQueue 32} (h : Represents q cells none)
    (hlanes : lanesOf cells = lanes) (hlaned : Laned lanes) :
    q.serverOutQueueSize =
      BitVec.ofNat 64 ((lanes .high).length + (lanes .normal).length) := by
  have hextend : ∀ n ≤ 320, (BitVec.ofNat 32 n).signExtend 64 = BitVec.ofNat 64 n := by
    decide +kernel
  rw [LinkedQueue.serverOutQueueSize, size_eq h hlanes, size_eq h hlanes,
    ← BitVec.ofNat_add, hextend _ (total_le hlaned)]

theorem clientOutQueueSize_eq {q : LinkedQueue 64} (h : Represents q cells none)
    (hlanes : lanesOf cells = lanes) :
    q.clientOutQueueSize =
      BitVec.ofNat 64 ((lanes .high).length + (lanes .normal).length) := by
  rw [LinkedQueue.clientOutQueueSize, List.foldl_cons, List.foldl_cons, List.foldl_nil,
    size_eq h hlanes, size_eq h hlanes, zero_add, ← BitVec.ofNat_add]

end Sizes

/-- For the same calls, whatever addresses `malloc` returns, the queues of both programs
represent the lanes of one run of two bounded first-in first-out queues and report its
events. Each packet that went into a lane has left it or waits in it, in the order of the
pushes, and the fragments of an IP packet that survive are popped in that order. -/
theorem out_queues_refine_fifos (serverActs clientActs : List LinkedAct)
    (hcalls : serverActs.map LinkedAct.call = clientActs.map LinkedAct.call)
    (hserver : Along (linkedStep serverCode) Fresh (some .init) serverActs)
    (hclient : Along (linkedStep clientCode) Fresh (some .init) clientActs) :
    let calls := serverActs.map LinkedAct.call
    let server := run (linkedStep serverCode) (some .init) serverActs
    let client := run (linkedStep clientCode) (some .init) clientActs
    ∃ lanes events, FifoRun outQueueInit calls lanes events ∧
      (∃ q cells, server.1 = some q ∧ Represents q cells none ∧ lanesOf cells = lanes ∧
        q.serverOutQueueSize =
          BitVec.ofNat 64 ((lanes .high).length + (lanes .normal).length)) ∧
      (∃ q cells, client.1 = some q ∧ Represents q cells none ∧ lanesOf cells = lanes ∧
        q.clientOutQueueSize =
          BitVec.ofNat 64 ((lanes .high).length + (lanes .normal).length)) ∧
      packetEvents server.2 = events ∧ packetEvents client.2 = events ∧
      (lanes .high).length ≤ 64 ∧ (lanes .normal).length ≤ 256 ∧
      (∀ p, (pushedIn p calls).map Prod.snd =
        (leftOf p events).map QueueEvent.node ++ lanes p) ∧
      ∀ ip, (fragmentsPopped ip calls events).Sublist (fragmentsOf ip calls) ∧
        (fragmentsPopped ip calls events).Sublist (poppedNodes events) := by
  intro calls server client
  obtain ⟨⟨sq, scells, hsq, hsrep, hslanes⟩, hsevents⟩ :=
    linkedRun_models serverCode serverActs hserver
  obtain ⟨⟨cq, ccells, hcq, hcrep, hclanes⟩, hcevents⟩ :=
    linkedRun_models clientCode clientActs hclient
  rw [← hcalls] at hclanes hcevents
  have hfifo := queueRun_fifoRun laned_init calls
  have hlaned := hfifo.laned laned_init
  refine ⟨_, _, hfifo, ⟨sq, scells, hsq, hsrep, hslanes, ?_⟩,
    ⟨cq, ccells, hcq, hcrep, hclanes, ?_⟩, hsevents, hcevents, hlaned.bound .high,
    hlaned.bound .normal, fun p => ?_, fun ip => fragmentsPopped_sublist ip calls _⟩
  · exact serverOutQueueSize_eq hsrep hslanes hlaned
  · exact clientOutQueueSize_eq hcrep hclanes
  · exact hfifo.accounted laned_init p

/-- Two bulk packets and a small one, and two pops, with other addresses on the client. -/
theorem out_queues_refine_fifos_overtaking :
    let small : Bytes := 0x45 :: 0 :: 0 :: 20 :: List.replicate 16 0
    let acts (a b c : Addr) : List LinkedAct :=
      [.push (some a) (some [1]) 1 none, .push (some b) (some [2]) 2 none,
        .push (some c) (some [3]) 3 (some small), .pop, .pop]
    let server := run (linkedStep serverCode) (some .init) (acts 10 20 30)
    let client := run (linkedStep clientCode) (some .init) (acts 7 8 9)
    packetEvents server.2 = [.popped ⟨[3], 3, .high⟩, .popped ⟨[1], 1, .normal⟩] ∧
      ∃ lanes events, FifoRun outQueueInit ((acts 10 20 30).map LinkedAct.call) lanes events ∧
        packetEvents server.2 = events ∧ packetEvents client.2 = events := by
  intro small acts server client
  obtain ⟨lanes, events, hfifo, _, _, hserver, hclient, _⟩ := out_queues_refine_fifos
    (acts 10 20 30) (acts 7 8 9) rfl (by decide +kernel) (by decide +kernel)
  exact ⟨by decide +kernel, lanes, events, hfifo, hserver, hclient⟩

end Chamlon.Queue
