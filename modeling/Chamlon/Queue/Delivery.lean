import Mathlib.Tactic
import Chamlon.Queue.Basic
import Chamlon.ReplayHistory

/-!
The order in which packets leave the queue, seen by the replay window at the other
end. Numbers are drawn before a packet is queued, and packets of the high lane
overtake those of the normal lane. A packet of the high lane is never late: whatever
left before it is older. A packet of the normal lane can be overtaken by any number of
others, and the window accepts it as long as none of them is `WINDOW_SIZE` ahead.
-/

namespace Chamlon.Queue

open Config Machine Memory ReplayWindow

/-- The numbers of the packets that are pushed. -/
def pushedSeqs (acts : List QueueAct) : List (BitVec 64) :=
  acts.filterMap fun | .push _ _ seq _ => some seq | .pop => none

/-- The queue with what has left it as history variable. -/
structure Delivery where
  queue : OutQueue
  popped : List OutNode

def Delivery.init : Delivery := ⟨outQueueInit, []⟩

def deliverStep (s : Delivery) (a : QueueAct) : Delivery × List QueueEvent :=
  (⟨(queueStep s.queue a).1, s.popped ++ poppedNodes (queueStep s.queue a).2⟩,
    (queueStep s.queue a).2)

/-- If the pop takes a packet of the normal lane, no packet of the high lane that has
left is `WINDOW_SIZE` ahead of it. The end of the window is taken modulo `2 ^ 64`. -/
def InReach (s : Delivery) : QueueAct → Prop
  | .push _ _ _ _ => True
  | .pop => s.queue .high = [] → ∀ node ∈ (s.queue .normal).head?, ∀ other ∈ s.popped,
      other.priority = .high → other.seq.toNat < node.seq.toNat ∨
        other.seq.toNat < (node.seq.toNat + windowSize) % 2 ^ 64

instance (s : Delivery) : DecidablePred (InReach s)
  | .push _ _ _ _ => inferInstanceAs (Decidable True)
  | .pop => inferInstanceAs (Decidable (_ → ∀ _ ∈ _, ∀ _ ∈ _, _ → _ ∨ _))

/-- What the lanes and the packets that have left know about each other's numbers. -/
structure Ordered (s : Delivery) : Prop where
  priority : ∀ p, ∀ node ∈ s.queue p, node.priority = p
  nonzero : ∀ p, ∀ node ∈ s.queue p, node.seq ≠ 0
  lanes : ∀ p, (s.queue p).Pairwise fun first second => first.seq < second.seq
  apart : ∀ node ∈ s.queue .high, ∀ other ∈ s.queue .normal, node.seq ≠ other.seq
  left : ∀ other ∈ s.popped, ∀ p, ∀ node ∈ s.queue p, other.seq ≠ node.seq
  late : ∀ other ∈ s.popped, ∀ p, ∀ node ∈ s.queue p, p = .high ∨ other.priority = p →
    other.seq < node.seq

theorem ordered_init : Ordered .init where
  priority _ _ h := absurd h List.not_mem_nil
  nonzero _ _ h := absurd h List.not_mem_nil
  lanes _ := List.Pairwise.nil
  apart _ h := absurd h List.not_mem_nil
  left _ h := absurd h List.not_mem_nil
  late _ h := absurd h List.not_mem_nil

section Lanes

variable {q : OutQueue} {node other : OutNode} {p : PktPriority}

/-- What stands in the lanes behind a push. -/
theorem mem_pushed (node : OutNode) {kept : List OutNode}
    (hkept : kept.Sublist (q node.priority))
    (h : other ∈ Function.update q node.priority (kept ++ [node]) p) :
    other ∈ q p ∨ other = node ∧ p = node.priority := by
  by_cases hp : p = node.priority
  · rw [hp, Function.update_self] at h
    rcases List.mem_append.mp h with hold | hnew
    · exact Or.inl (hp ▸ hkept.subset hold)
    · exact Or.inr ⟨List.mem_singleton.mp hnew, hp⟩
  · rw [Function.update_of_ne hp] at h
    exact Or.inl h

/-- What stands in the lanes behind a pop. -/
theorem mem_shortened {popped : PktPriority} {rest : List OutNode}
    (hlane : q popped = node :: rest) (h : other ∈ Function.update q popped rest p) :
    other ∈ q p := by
  by_cases hp : p = popped
  · rw [hp, Function.update_self] at h
    rw [hp, hlane]
    exact List.mem_cons_of_mem node h
  · rwa [Function.update_of_ne hp] at h

theorem mem_of_head {rest : List OutNode} (hlane : q p = node :: rest) : node ∈ q p := by
  rw [hlane]
  exact List.mem_cons_self

end Lanes

section Steps

variable {s : Delivery}

theorem Ordered.ne_of_lanes_ne (h : Ordered s) {p p' : PktPriority} (hp : p ≠ p')
    {node other : OutNode} (hnode : node ∈ s.queue p) (hother : other ∈ s.queue p') :
    node.seq ≠ other.seq := by
  cases p with
  | high =>
      cases p' with
      | high => exact absurd rfl hp
      | normal => exact h.apart node hnode other hother
  | normal =>
      cases p' with
      | high => exact (h.apart other hother node hnode).symm
      | normal => exact absurd rfl hp

/-- A new packet has a larger number than everything before it. -/
theorem Ordered.push (h : Ordered s) (node : OutNode) {kept : List OutNode}
    (hkept : kept.Sublist (s.queue node.priority)) (hzero : node.seq ≠ 0)
    (hqueued : ∀ p, ∀ other ∈ s.queue p, other.seq < node.seq)
    (hpopped : ∀ other ∈ s.popped, other.seq < node.seq) :
    Ordered ⟨Function.update s.queue node.priority (kept ++ [node]), s.popped⟩ := by
  constructor
  · intro p other hother
    rcases mem_pushed _ hkept hother with hold | ⟨rfl, rfl⟩
    · exact h.priority p other hold
    · rfl
  · intro p other hother
    rcases mem_pushed _ hkept hother with hold | ⟨rfl, _⟩
    · exact h.nonzero p other hold
    · exact hzero
  · intro p
    by_cases hp : p = node.priority
    · rw [hp]
      dsimp only
      rw [Function.update_self, List.pairwise_append]
      refine ⟨(h.lanes _).sublist hkept, List.pairwise_singleton _ _, ?_⟩
      intro other hother new hnew
      rw [List.mem_singleton.mp hnew]
      exact hqueued _ other (hkept.subset hother)
    · dsimp only
      rw [Function.update_of_ne hp]
      exact h.lanes p
  · intro first hfirst second hsecond
    rcases mem_pushed _ hkept hfirst with hold | ⟨rfl, hhigh⟩
    · rcases mem_pushed _ hkept hsecond with hold' | ⟨rfl, _⟩
      · exact h.apart first hold second hold'
      · exact BitVec.ne_of_lt (hqueued _ first hold)
    · rcases mem_pushed _ hkept hsecond with hold' | ⟨rfl, hnormal⟩
      · exact (BitVec.ne_of_lt (hqueued _ second hold')).symm
      · rw [← hhigh] at hnormal
        cases hnormal
  · intro other hother p first hfirst
    rcases mem_pushed _ hkept hfirst with hold | ⟨rfl, _⟩
    · exact h.left other hother p first hold
    · exact BitVec.ne_of_lt (hpopped other hother)
  · intro other hother p first hfirst hlane
    rcases mem_pushed _ hkept hfirst with hold | ⟨rfl, _⟩
    · exact h.late other hother p first hold hlane
    · exact hpopped other hother

/-- The head of a lane leaves; the high lane comes first. -/
theorem Ordered.pop (h : Ordered s) {p : PktPriority} {node : OutNode}
    {rest : List OutNode} (hlane : s.queue p = node :: rest)
    (hfirst : p = .normal → s.queue .high = []) :
    Ordered ⟨Function.update s.queue p rest, s.popped ++ [node]⟩ := by
  have hmem := mem_of_head hlane
  have hbehind := h.lanes p
  rw [hlane, List.pairwise_cons] at hbehind
  constructor
  · exact fun p' other hother => h.priority p' other (mem_shortened hlane hother)
  · exact fun p' other hother => h.nonzero p' other (mem_shortened hlane hother)
  · intro p'
    dsimp only
    by_cases hp : p' = p
    · rw [hp, Function.update_self]
      exact hbehind.2
    · rw [Function.update_of_ne hp]
      exact h.lanes p'
  · exact fun first hhigh second hnormal =>
      h.apart first (mem_shortened hlane hhigh) second (mem_shortened hlane hnormal)
  · intro other hother p' queued hqueued
    have hold := mem_shortened hlane hqueued
    rcases List.mem_append.mp hother with hearlier | hnew
    · exact h.left other hearlier p' queued hold
    rw [List.mem_singleton.mp hnew]
    by_cases hp : p' = p
    · rw [hp] at hqueued
      dsimp only at hqueued
      rw [Function.update_self] at hqueued
      exact BitVec.ne_of_lt (hbehind.1 queued hqueued)
    · exact h.ne_of_lanes_ne (Ne.symm hp) hmem hold
  · intro other hother p' queued hqueued hcase
    have hold := mem_shortened hlane hqueued
    rcases List.mem_append.mp hother with hearlier | hnew
    · exact h.late other hearlier p' queued hold hcase
    rw [List.mem_singleton.mp hnew] at hcase ⊢
    rw [h.priority p node hmem] at hcase
    by_cases hp : p' = p
    · rw [hp] at hqueued
      dsimp only at hqueued
      rw [Function.update_self] at hqueued
      exact hbehind.1 queued hqueued
    · -- Behind a packet of the normal lane the high lane is empty.
      have hhigh : p' = .high := hcase.resolve_right fun hsame => hp hsame.symm
      have hnormal : p = .normal := by
        cases p with
        | high => exact absurd hhigh hp
        | normal => rfl
      rw [hhigh, hfirst hnormal] at hold
      cases hold

/-- The verdict about a packet at the head of its lane. -/
theorem Ordered.accepts_iff (h : Ordered s) {w : ReplayWindow bitmapWords}
    (hw : Remembers w { seq | ∃ other ∈ s.popped, other.seq = seq }) {p : PktPriority}
    {node : OutNode} (hnode : node ∈ s.queue p) :
    w.checkReplay node.seq = false ↔
      (p = .normal → ∀ other ∈ s.popped, other.priority = .high →
        other.seq.toNat < node.seq.toNat ∨
          other.seq.toNat < (node.seq.toNat + windowSize) % 2 ^ 64) := by
  have hunseen : node.seq ∉ { seq | ∃ other ∈ s.popped, other.seq = seq } := by
    rintro ⟨other, hother, hsame⟩
    exact h.left other hother p node hnode hsame
  rw [hw.accepts_iff (by decide)]
  constructor
  · rintro ⟨_, haccepted⟩ _ other hother _
    have hle := hw.le_max other.seq ⟨other, hother, rfl⟩
    rcases haccepted with hnew | ⟨hage, _⟩
    · exact Or.inl (by omega)
    · exact Or.inr (lt_of_le_of_lt hle hage)
  · intro hreach
    refine ⟨h.nonzero p node hnode, ?_⟩
    rcases hw.max_mem with hzero | ⟨other, hother, hmax⟩
    · have hpos : node.seq.toNat ≠ 0 := fun hnat =>
        h.nonzero p node hnode (BitVec.eq_of_toNat_eq hnat)
      rw [hzero]
      exact Or.inl (Nat.pos_of_ne_zero hpos)
    rw [← hmax]
    by_cases hcase : p = .high ∨ other.priority = p
    · exact Or.inl (h.late other hother p node hnode hcase)
    · rw [not_or] at hcase
      have hnormal : p = .normal := by
        cases p with
        | high => exact absurd rfl hcase.1
        | normal => rfl
      have hhigh : other.priority = .high := by
        cases hother' : other.priority with
        | high => rfl
        | normal => exact absurd (hother'.trans hnormal.symm) hcase.2
      exact (hreach hnormal other hother hhigh).imp_right fun hage => ⟨hage, hunseen⟩

/-- The condition on a pop that takes a packet is the verdict about the packet. -/
theorem Ordered.inReach_pop_iff (h : Ordered s) {w : ReplayWindow bitmapWords}
    (hw : Remembers w { seq | ∃ other ∈ s.popped, other.seq = seq }) {p : PktPriority}
    {node : OutNode} {rest : List OutNode} (hlane : s.queue p = node :: rest)
    (hfirst : p = .normal → s.queue .high = []) :
    InReach s .pop ↔ w.checkReplay node.seq = false := by
  rw [h.accepts_iff hw (mem_of_head hlane)]
  cases p with
  | high =>
      refine ⟨fun _ hlow => PktPriority.noConfusion hlow, fun _ hhigh => ?_⟩
      rw [hlane] at hhigh
      cases hhigh
  | normal =>
      have hhead : (s.queue .normal).head? = some node := by
        rw [hlane]
        rfl
      constructor
      · intro hok _
        exact hok (hfirst rfl) node hhead
      · intro hok _ head hhead'
        rw [hhead, Option.mem_some_iff] at hhead'
        rw [← hhead']
        exact hok rfl

/-- The window after it has judged the packet that leaves. -/
theorem Ordered.remembers_popped (h : Ordered s) {w : ReplayWindow bitmapWords}
    (hw : Remembers w { seq | ∃ other ∈ s.popped, other.seq = seq }) {p : PktPriority}
    {node : OutNode} (hnode : node ∈ s.queue p) :
    Remembers (w.updateWindow node.seq)
      { seq | ∃ other ∈ s.popped ++ [node], other.seq = seq } := by
  have hinsert : { seq | ∃ other ∈ s.popped ++ [node], other.seq = seq } =
      insert node.seq { seq | ∃ other ∈ s.popped, other.seq = seq } := by
    ext seq
    simp only [List.mem_append, List.mem_singleton, Set.mem_ofPred_eq,
      Set.mem_insert_iff, or_and_right, exists_or, exists_eq_left]
    rw [or_comm, eq_comm]
  rw [hinsert]
  exact hw.update (by decide) (h.nonzero p node hnode)

end Steps

/-- The pushes to come have increasing numbers beyond everything pushed so far. -/
structure Upcoming (s : Delivery) (acts : List QueueAct) : Prop where
  increasing : (pushedSeqs acts).Pairwise (· < ·)
  nonzero : ∀ seq ∈ pushedSeqs acts, seq ≠ 0
  queued : ∀ seq ∈ pushedSeqs acts, ∀ p, ∀ node ∈ s.queue p, node.seq < seq
  popped : ∀ seq ∈ pushedSeqs acts, ∀ node ∈ s.popped, node.seq < seq

theorem Upcoming.tail {s : Delivery} {a : QueueAct} {rest : List QueueAct}
    (h : Upcoming s (a :: rest)) : Upcoming s rest := by
  have hsub : (pushedSeqs rest).Sublist (pushedSeqs (a :: rest)) :=
    (List.sublist_cons_self a rest).filterMap _
  exact ⟨h.increasing.sublist hsub, fun seq hseq => h.nonzero seq (hsub.subset hseq),
    fun seq hseq => h.queued seq (hsub.subset hseq),
    fun seq hseq => h.popped seq (hsub.subset hseq)⟩

theorem deliverStep_push {s : Delivery} {allocated : Bool} {pkt ip : Bytes}
    {seq : BitVec 64} {rest : List QueueAct} (h : Ordered s)
    (hnext : Upcoming s (.push allocated pkt seq ip :: rest)) :
    (deliverStep s (.push allocated pkt seq ip)).1.popped = s.popped ∧
      Ordered (deliverStep s (.push allocated pkt seq ip)).1 ∧
      Upcoming (deliverStep s (.push allocated pkt seq ip)).1 rest := by
  have hmem : seq ∈ pushedSeqs (.push allocated pkt seq ip :: rest) := List.mem_cons_self
  obtain ⟨hnone, hresult⟩ := packetQueuePush_cases allocated pkt seq ip s.queue
  have hstate : (deliverStep s (.push allocated pkt seq ip)).1 =
      ⟨(packetQueuePush allocated pkt seq ip s.queue).1, s.popped⟩ := by
    unfold deliverStep queueStep
    rw [hnone, List.append_nil]
  rw [hstate]
  refine ⟨rfl, ?_⟩
  rcases hresult with hsame | ⟨kept, hkept, hpushed⟩
  · rw [hsame]
    exact ⟨h, hnext.tail⟩
  rw [hpushed]
  refine ⟨h.push ⟨pkt, seq, classifyPacket ip⟩ hkept (hnext.nonzero seq hmem)
    (hnext.queued seq hmem) (hnext.popped seq hmem), hnext.tail.increasing,
    hnext.tail.nonzero, ?_, hnext.tail.popped⟩
  intro later hlater p node hnode
  rcases mem_pushed ⟨pkt, seq, classifyPacket ip⟩ hkept hnode with
    hold | ⟨rfl, _⟩
  · exact hnext.tail.queued later hlater p node hold
  · exact (List.pairwise_cons.mp hnext.increasing).1 later hlater

theorem Upcoming.pop {s : Delivery} {rest : List QueueAct} (h : Upcoming s (.pop :: rest))
    {p : PktPriority} {node : OutNode} {lane : List OutNode}
    (hlane : s.queue p = node :: lane) :
    Upcoming ⟨Function.update s.queue p lane, s.popped ++ [node]⟩ rest := by
  refine ⟨h.increasing, h.nonzero, ?_, ?_⟩
  · exact fun seq hseq p' other hother =>
      h.queued seq hseq p' other (mem_shortened hlane hother)
  · intro seq hseq other hother
    rcases List.mem_append.mp hother with hold | hnew
    · exact h.popped seq hseq other hold
    · rw [List.mem_singleton.mp hnew]
      exact h.queued seq hseq p node (mem_of_head hlane)

/-- One packet leaves and is judged by the window. -/
theorem windowStep_accepts (w : ReplayWindow bitmapWords) (seq : BitVec 64)
    (later : List (BitVec 64)) :
    (∀ verdict ∈ (run windowStep w (seq :: later)).2, verdict.2 = true) ↔
      w.checkReplay seq = false ∧
        ∀ verdict ∈ (run windowStep (w.updateWindow seq) later).2, verdict.2 = true := by
  rw [run]
  unfold windowStep
  cases hreplay : w.checkReplay seq with
  | false => simp
  | true => simp

/-- From any point on: the window accepts what still leaves the queue exactly when
every pop is in its reach. -/
theorem accepted_iff_inReach (acts : List QueueAct) (s : Delivery)
    (w : ReplayWindow bitmapWords) (h : Ordered s) (hnext : Upcoming s acts)
    (hw : Remembers w { seq | ∃ other ∈ s.popped, other.seq = seq }) :
    (∀ verdict ∈ (run windowStep w
        ((poppedNodes (run queueStep s.queue acts).2).map OutNode.seq)).2,
      verdict.2 = true) ↔ Along deliverStep InReach s acts := by
  induction acts generalizing s w with
  | nil => simp [run, poppedNodes, Along]
  | cons a rest ih =>
      rw [run, Along]
      dsimp only
      rw [poppedNodes_append, List.map_append]
      cases a with
      | push allocated pkt seq ip =>
          obtain ⟨hpopped, hordered, hupcoming⟩ := deliverStep_push h hnext
          have hnone := (packetQueuePush_cases allocated pkt seq ip s.queue).1
          have hrest := ih _ w hordered hupcoming (by rw [hpopped]; exact hw)
          rw [queueStep, hnone, List.map_nil, List.nil_append]
          exact hrest.trans ⟨fun h => ⟨trivial, h⟩, And.right⟩
      | pop =>
          rcases outQueuePop_cases s.queue with
            ⟨hhigh, hnormal, hempty⟩ | ⟨p, node, lane, hlane, hfirst, hpop⟩
          · have hstate : (deliverStep s .pop).1 = s := by
              unfold deliverStep queueStep
              rw [hempty]
              simp [poppedNodes]
            have hok : InReach s .pop := by
              intro _ node hnode
              rw [hnormal] at hnode
              cases hnode
            rw [queueStep, hempty, hstate]
            exact (ih s w h hnext.tail hw).trans ⟨fun hrest => ⟨hok, hrest⟩, And.right⟩
          · have hstate : (deliverStep s .pop).1 =
                ⟨Function.update s.queue p lane, s.popped ++ [node]⟩ := by
              unfold deliverStep queueStep
              rw [hpop]
              rfl
            have hreach := h.inReach_pop_iff hw hlane hfirst
            have hrest := ih _ (w.updateWindow node.seq) (h.pop hlane hfirst)
              (hnext.pop hlane) (h.remembers_popped hw (mem_of_head hlane))
            rw [queueStep, hpop, hstate, hreach, ← hrest]
            exact windowStep_accepts w node.seq _

/-- The numbers of the packets that leave the queue, as a fresh window judges them. -/
def verdicts (acts : List QueueAct) : List (BitVec 64 × Bool) :=
  (run windowStep (.zero : ReplayWindow bitmapWords)
    ((poppedNodes (run queueStep outQueueInit acts).2).map OutNode.seq)).2

/-- With increasing numbers every packet that leaves the queue is accepted exactly when
no pop takes a packet of the normal lane after one of the high lane that is
`WINDOW_SIZE` ahead. -/
theorem priority_order_accepted_iff (acts : List QueueAct)
    (hincreasing : (pushedSeqs acts).Pairwise (· < ·))
    (hstart : ∀ seq ∈ pushedSeqs acts, 1 ≤ seq.toNat) :
    (∀ verdict ∈ verdicts acts, verdict.2 = true) ↔
      Along deliverStep InReach .init acts := by
  have hnext : Upcoming .init acts := by
    refine ⟨hincreasing, fun seq hseq hzero => ?_, fun _ _ _ _ hnode => ?_,
      fun _ _ _ hnode => ?_⟩
    · have hpos := hstart seq hseq
      rw [hzero] at hpos
      exact absurd hpos (by decide)
    · cases hnode
    · cases hnode
  have hnothing : { seq : BitVec 64 | ∃ other ∈ Delivery.init.popped, other.seq = seq } =
      ∅ := by
    ext seq
    simp [Delivery.init]
  refine accepted_iff_inReach acts .init .zero ordered_init hnext ?_
  rw [hnothing]
  exact remembers_zero

/-- A small packet and a large one: 20 and 200 bytes of IPv4. -/
def interactive : Bytes := [0x45, 0, 0, 20] ++ List.replicate 16 0

def bulk : Bytes := [0x45, 0, 0, 200] ++ List.replicate 196 0

/-- A packet of the normal lane that is overtaken by `count` of the high lane. -/
def overtaken (count : Nat) : List QueueAct :=
  .push true [] 1 bulk ::
    (List.range count).flatMap (fun k => [.push true [] (BitVec.ofNat 64 (k + 2)) interactive,
      .pop]) ++ [.pop]

theorem positive_of_all {seqs : List (BitVec 64)}
    (h : seqs.all (fun seq => decide (1 ≤ seq.toNat)) = true) :
    ∀ seq ∈ seqs, 1 ≤ seq.toNat :=
  fun seq hseq => of_decide_eq_true (List.all_eq_true.mp h seq hseq)

theorem priority_order_accepted_iff_overtaken :
    (pushedSeqs (overtaken 5)).Pairwise (· < ·) ∧
      (∀ seq ∈ pushedSeqs (overtaken 5), 1 ≤ seq.toNat) ∧
      ((∀ verdict ∈ verdicts (overtaken 5), verdict.2 = true) ↔
        Along deliverStep InReach .init (overtaken 5)) := by
  have hincreasing : (pushedSeqs (overtaken 5)).Pairwise (· < ·) := by decide +kernel
  have hstart := positive_of_all (show (pushedSeqs (overtaken 5)).all _ = true by decide +kernel)
  exact ⟨hincreasing, hstart, priority_order_accepted_iff _ hincreasing hstart⟩

/-- Overtaken by 64 packets, packet 1 leaves last and is refused. -/
theorem overtaken_packet_refused :
    (pushedSeqs (overtaken 64)).Pairwise (· < ·) ∧
      (∀ seq ∈ pushedSeqs (overtaken 64), 1 ≤ seq.toNat) ∧
      (verdicts (overtaken 64)).getLast? = some (1, false) := by
  have hincreasing : (pushedSeqs (overtaken 64)).Pairwise (· < ·) := by decide +kernel
  have hrefused : (verdicts (overtaken 64)).getLast? = some (1, false) := by decide +kernel
  exact ⟨hincreasing, positive_of_all (by decide +kernel), hrefused⟩

end Chamlon.Queue
