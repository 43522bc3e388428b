import Mathlib.Tactic
import Chamlon.Reassembly.Reordering

/-!
One sender and its receiver over runs of any length. Packet ids have 16 bits and
come around again, while an entry that never got its last fragment stays active for
twenty seconds and more. Nothing ties the two together: a fragment that meets an
active entry of its id is filed there, whoever opened it.

The network delivers in order and loses what it likes, so all fragments of a packet
that arrive do so before those of the next one. What a run needs is then a condition
on single deliveries: when the fragments of a packet start to arrive, no entry of
its id is active.
-/

namespace Chamlon.Reassembly

open Config Memory Machine

/-- `fragment_next_packet_id`: the id and the counter afterwards. -/
def fragmentNextPacketId (counter : UInt16) : UInt16 × UInt16 :=
  if counter = 0 then (counter + 1, counter + 1 + 1) else (counter, counter + 1)

/-- The client's `g_next_packet_id++`, which skips 0 after the increment. -/
def clientNextPacketId (counter : UInt16) : UInt16 × UInt16 :=
  (counter, if counter + 1 = 0 then 1 else counter + 1)

def Side.nextPacketId : Side → UInt16 → UInt16 × UInt16
  | .server => fragmentNextPacketId
  | .client => clientNextPacketId

/-- An IP packet that `read` can return and the fragmenter does not drop. -/
structure IpPacket where
  bytes : Bytes
  long : 20 ≤ bytes.length
  short : bytes.length ≤ 1600

/-- A fragment on its way: the how manieth packet, the packet and the fragment. -/
structure Datagram where
  serial : Nat
  packet : Packet
  index : Nat
deriving DecidableEq

structure Link where
  counter : UInt16
  /-- The packets fragmented so far. -/
  sent : List Packet
  inFlight : List Datagram
  table : ReassemblyTable
  /-- The packet of the last fragment that arrived. -/
  current : Option Nat
  clock : Int
  lastSweep : Int

def Link.start (counter : UInt16) (now : Int) : Link where
  counter := counter
  sent := []
  inFlight := []
  table := emptyTable
  current := none
  clock := now
  lastSweep := now

inductive LinkOp where
  | send (ip : IpPacket)
  /-- A packet of another session draws an id from the server's counter. -/
  | elsewhere
  | lose
  | deliver
  | sweep

structure LinkAct where
  now : Int
  op : LinkOp

/-- The datagrams of a packet, in the order they are sent. -/
def Sender.datagrams (sender : Sender) (order : Endian) (serial : Nat) (p : Packet) :
    List Datagram :=
  (List.range (sender.fragments order p).length).map fun index => ⟨serial, p, index⟩

def linkOp (sender : Sender) (order : Endian) (stack : Nat → UInt8) (s : Link) (now : Int) :
    LinkOp → Link × List ReassemblyEvent
  | .send ip =>
      let drawn := sender.side.nextPacketId s.counter
      let p : Packet := ⟨drawn.1, ip.bytes, ip.long, ip.short⟩
      ({ s with
        counter := drawn.2
        sent := s.sent ++ [p]
        inFlight := s.inFlight ++ sender.datagrams order s.sent.length p }, [])
  | .elsewhere =>
      match sender.side with
      | .server => ({ s with counter := (fragmentNextPacketId s.counter).2 }, [])
      | .client => (s, [])
  | .lose => ({ s with inFlight := s.inFlight.tail }, [])
  | .deliver =>
      match s.inFlight with
      | [] => (s, [])
      | d :: rest =>
          let stepped := reassemblyStep sender.side.peer order stack s.table
            (.plain now ((sender.fragments order d.packet).getD d.index []))
          ({ s with inFlight := rest, table := stepped.1, current := some d.serial },
            stepped.2)
  | .sweep => ({ s with table := sweepReassemblyTable now s.table, lastSweep := now }, [])

def linkStep (sender : Sender) (order : Endian) (stack : Nat → UInt8) (s : Link)
    (a : LinkAct) : Link × List ReassemblyEvent :=
  let done := linkOp sender order stack s a.now a.op
  ({ done.1 with clock := a.now }, done.2)

/-- The clock does not go back and the last sweep is at most five seconds old. -/
def OnTime (s : Link) (a : LinkAct) : Prop :=
  s.clock ≤ a.now ∧ a.now - s.lastSweep ≤ 5

/-- A fragment that arrives as the first of its packet finds no entry of its id. -/
def NoStaleEntry (s : Link) (a : LinkAct) : Prop :=
  a.op = .deliver → ∀ d ∈ s.inFlight.head?,
    s.current = some d.serial ∨ Absent s.table d.packet

/-- The entry of the datagram's packet holds earlier fragments of it only. -/
def EarlierParts (sender : Sender) (table : ReassemblyTable) (d : Datagram) : Prop :=
  ∀ entry, storeOf table d.packet.id = some entry →
    ∃ seen ⊆ Finset.range d.index, PartOf sender.maxPayload d.packet.bytes seen entry

/-- Datagrams are in flight in the order of packets and, within one, of fragments. -/
def Datagram.Before (a b : Datagram) : Prop :=
  a.serial < b.serial ∨ a.packet = b.packet ∧ a.index < b.index

structure InOrder (sender : Sender) (s : Link) : Prop where
  unique : UniqueIds s.table
  sent : ∀ d ∈ s.inFlight, d.packet ∈ s.sent ∧
    d.index < fragmentCount sender.maxPayload d.packet.bytes.length
  known : ∀ d ∈ s.inFlight, d.serial < s.sent.length
  currentKnown : ∀ n ∈ s.current, n < s.sent.length
  ordered : s.inFlight.Pairwise Datagram.Before
  parts : ∀ d ∈ s.inFlight, s.current = some d.serial → EarlierParts sender s.table d

theorem inOrder_start (sender : Sender) (counter : UInt16) (now : Int) :
    InOrder sender (.start counter now) where
  unique := uniqueIds_of_inactive fun _ => rfl
  sent _ hd := absurd hd List.not_mem_nil
  known _ hd := absurd hd List.not_mem_nil
  currentKnown _ hn := by cases hn
  ordered := List.Pairwise.nil
  parts _ hd := absurd hd List.not_mem_nil

theorem EarlierParts.sweep {sender : Sender} {table : ReassemblyTable} {d : Datagram}
    (h : EarlierParts sender table d) (huniq : UniqueIds table) (now : Int) :
    EarlierParts sender (sweepReassemblyTable now table) d := by
  intro entry hentry
  rw [storeOf_sweep (huniq.at _), Option.filter_eq_some_iff] at hentry
  exact h entry hentry.1

section Steps

variable {sender : Sender} {s : Link}

theorem InOrder.sweep (h : InOrder sender s) (now : Int) :
    InOrder sender { s with
      table := sweepReassemblyTable now s.table
      lastSweep := now } where
  unique := h.unique.sweep now
  sent := h.sent
  known := h.known
  currentKnown := h.currentKnown
  ordered := h.ordered
  parts d hd hcurrent := (h.parts d hd hcurrent).sweep h.unique now

theorem InOrder.lose (h : InOrder sender s) :
    InOrder sender { s with inFlight := s.inFlight.tail } where
  unique := h.unique
  sent d hd := h.sent d (List.mem_of_mem_tail hd)
  known d hd := h.known d (List.mem_of_mem_tail hd)
  currentKnown := h.currentKnown
  ordered := h.ordered.tail
  parts d hd := h.parts d (List.mem_of_mem_tail hd)

theorem mem_datagrams {order : Endian} {serial : Nat} {p : Packet} {d : Datagram} :
    d ∈ sender.datagrams order serial p ↔
      d.serial = serial ∧ d.packet = p ∧
        d.index < fragmentCount sender.maxPayload p.bytes.length := by
  rw [Sender.datagrams, List.mem_map, (sender.fragments_spec order p).1]
  constructor
  · rintro ⟨k, hk, rfl⟩
    exact ⟨rfl, rfl, List.mem_range.mp hk⟩
  · rintro ⟨rfl, rfl, hk⟩
    exact ⟨d.index, List.mem_range.mpr hk, rfl⟩

/-- A new packet goes behind everything in flight and is not the current one. -/
theorem InOrder.send (h : InOrder sender s) (order : Endian) (counter : UInt16)
    (p : Packet) :
    InOrder sender { s with
      counter := counter
      sent := s.sent ++ [p]
      inFlight := s.inFlight ++ sender.datagrams order s.sent.length p } where
  unique := h.unique
  sent d hd := by
    rcases List.mem_append.mp hd with hold | hnew
    · exact ⟨List.mem_append_left _ (h.sent d hold).1, (h.sent d hold).2⟩
    · obtain ⟨_, hpacket, hindex⟩ := mem_datagrams.mp hnew
      rw [hpacket]
      exact ⟨List.mem_append_right _ (List.mem_singleton.mpr rfl), hindex⟩
  known d hd := by
    rw [List.length_append, List.length_singleton]
    rcases List.mem_append.mp hd with hold | hnew
    · exact (h.known d hold).trans (Nat.lt_succ_self _)
    · rw [(mem_datagrams.mp hnew).1]
      exact Nat.lt_succ_self _
  currentKnown n hn := by
    rw [List.length_append, List.length_singleton]
    exact (h.currentKnown n hn).trans (Nat.lt_succ_self _)
  ordered := by
    refine List.pairwise_append.mpr ⟨h.ordered, ?_, fun a ha b hb => Or.inl ?_⟩
    · rw [Sender.datagrams, List.pairwise_map]
      exact List.pairwise_lt_range.imp fun hlt => Or.inr ⟨rfl, hlt⟩
    · rw [(mem_datagrams.mp hb).1]
      exact h.known a ha
  parts d hd hcurrent := by
    rcases List.mem_append.mp hd with hold | hnew
    · exact h.parts d hold hcurrent
    · have hlt := h.currentKnown d.serial hcurrent
      rw [(mem_datagrams.mp hnew).1] at hlt
      exact absurd hlt (lt_irrefl _)

/-- The entry a fragment meets holds earlier fragments of its packet, or none. -/
theorem InOrder.entry (h : InOrder sender s) {d : Datagram} (hd : d ∈ s.inFlight)
    (hfresh : s.current = some d.serial ∨ Absent s.table d.packet) (now : Int) :
    ∃ seen ⊆ Finset.range d.index, PartOf sender.maxPayload d.packet.bytes seen
      ((storeOf s.table).entry now d.packet.id) := by
  unfold Store.entry
  cases hstore : storeOf s.table d.packet.id with
  | none =>
      exact ⟨∅, Finset.empty_subset _,
        partOf_create sender.maxPayload d.packet.bytes now d.packet.id⟩
  | some entry =>
      rcases hfresh with hcurrent | habsent
      · obtain ⟨seen, hseen, hpart⟩ := h.parts d hd hcurrent entry hstore
        exact ⟨seen, hseen, hpart.touch now⟩
      · rw [(storeOf_eq_none_iff s.table d.packet.id).mpr habsent] at hstore
        cases hstore

/-- A table without room drops the fragment. -/
theorem reassemblyStep_of_full (sender : Sender) (order : Endian) (side : Side)
    (stack : Nat → UInt8) {p : Packet} {table : ReassemblyTable} {now : Int} {k : Nat}
    (hk : k < fragmentCount sender.maxPayload p.bytes.length)
    (hfull : findOrCreateEntry now p.id table = none) :
    reassemblyStep side order stack table
        (.plain now ((sender.fragments order p).getD k [])) = (table, [.tableFull]) := by
  have hnone : findOrCreateEntry now (chunkHeader p.id p.bytes.length
      sender.maxPayload (k * sender.maxPayload)).packetId table = none := hfull
  rw [reassemblyStep_fragment ((sender.fragments_spec order p).2 _ hk)]
  dsimp only
  rw [storeFragment_of_full hnone]
  rfl

/-- A delivery keeps earlier fragments earlier, and what it writes is the packet
of the datagram. -/
theorem InOrder.deliver_table (h : InOrder sender s) (order : Endian) (side : Side)
    (stack : Nat → UInt8) {d : Datagram} (hd : d ∈ s.inFlight)
    (hfresh : s.current = some d.serial ∨ Absent s.table d.packet) (now : Int) :
    let stepped := reassemblyStep side order stack s.table
      (.plain now ((sender.fragments order d.packet).getD d.index []))
    UniqueIds stepped.1 ∧
      (∀ later : Datagram, later.packet = d.packet → d.index < later.index →
        EarlierParts sender stepped.1 later) ∧
      ∀ e ∈ stepped.2, e = .tableFull ∨ e = d.packet.write := by
  obtain ⟨_, hindex⟩ := h.sent d hd
  cases hfind : findOrCreateEntry now d.packet.id s.table with
  | none =>
      have hfull := reassemblyStep_of_full sender order side stack hindex hfind
      have hnone : storeOf s.table d.packet.id = none :=
        (storeOf_eq_none_iff _ _).mpr fun i _ =>
          ((findOrCreateEntry_eq_none_iff now d.packet.id s.table).mp hfind i).2
      rw [hfull]
      refine ⟨h.unique, fun later hpacket _ entry hentry => ?_, by simp⟩
      rw [hpacket, hnone] at hentry
      cases hentry
  | some found =>
      obtain ⟨i, next⟩ := found
      obtain ⟨seen, hseen, hpart⟩ := h.entry hd hfresh now
      have hnew : d.index ∉ seen :=
        fun hmem => Finset.notMem_range_self (hseen hmem)
      have hinside : seen ⊆
          Finset.range (fragmentCount sender.maxPayload d.packet.bytes.length) :=
        hseen.trans (Finset.range_subset_range.mpr hindex.le)
      obtain ⟨⟨_, hunique⟩, hcases⟩ := sender.reassemblyStep_cases order side stack
        (h.unique.at d.packet.id) hfind hpart hindex hnew hinside
      dsimp only
      generalize reassemblyStep side order stack s.table
        (.plain now ((sender.fragments order d.packet).getD d.index [])) = stepped at *
      refine ⟨hunique h.unique, fun later hpacket hlater entry hentry => ?_, ?_⟩
      · rw [hpacket] at hentry ⊢
        rcases hcases with ⟨_, _, hstore, _⟩ | ⟨_, _, filled, hstore, _, hfilled⟩
        · rw [hstore, Function.update_self] at hentry
          cases hentry
        · rw [hstore, Function.update_self, Option.some.injEq] at hentry
          rw [← hentry]
          refine ⟨insert d.index seen, Finset.insert_subset (Finset.mem_range.mpr hlater) ?_,
            hfilled⟩
          exact hseen.trans (Finset.range_subset_range.mpr hlater.le)
      · rcases hcases with ⟨_, _, _, hevents⟩ | ⟨_, hevents, _⟩
        · rw [hevents]
          simp
        · rw [hevents]
          simp

theorem InOrder.deliver (h : InOrder sender s) (order : Endian) (stack : Nat → UInt8)
    {d : Datagram} {rest : List Datagram} (hflight : s.inFlight = d :: rest)
    (hfresh : s.current = some d.serial ∨ Absent s.table d.packet) (now : Int) :
    let stepped := reassemblyStep sender.side.peer order stack s.table
      (.plain now ((sender.fragments order d.packet).getD d.index []))
    InOrder sender { s with
      inFlight := rest, table := stepped.1, current := some d.serial } := by
  have hd : d ∈ s.inFlight := by
    rw [hflight]
    exact List.mem_cons_self
  have hmem : ∀ later ∈ rest, later ∈ s.inFlight := by
    intro later hlater
    rw [hflight]
    exact List.mem_cons_of_mem d hlater
  have hordered := h.ordered
  rw [hflight, List.pairwise_cons] at hordered
  obtain ⟨hunique, hparts, _⟩ := h.deliver_table order sender.side.peer stack hd hfresh now
  refine ⟨hunique, fun later hlater => h.sent later (hmem later hlater),
    fun later hlater => h.known later (hmem later hlater), ?_, hordered.2, ?_⟩
  · intro n hn
    rw [Option.mem_some_iff] at hn
    rw [← hn]
    exact h.known d hd
  · intro later hlater hcurrent
    rw [Option.some.injEq] at hcurrent
    rcases hordered.1 later hlater with hserial | ⟨hpacket, hindex⟩
    · exact absurd hcurrent hserial.ne
    · exact hparts later hpacket.symm hindex

/-- What one step of the link preserves, and that it writes packets that were
fragmented. -/
theorem linkStep_inOrder (order : Endian) (stack : Nat → UInt8) (h : InOrder sender s)
    (a : LinkAct) (hfresh : NoStaleEntry s a) :
    InOrder sender (linkStep sender order stack s a).1 ∧
      s.sent ⊆ (linkStep sender order stack s a).1.sent ∧
      ∀ e ∈ (linkStep sender order stack s a).2,
        e = .tableFull ∨ ∃ p ∈ s.sent, e = p.write := by
  obtain ⟨now, op⟩ := a
  have hclock : ∀ s' : Link, InOrder sender s' → InOrder sender { s' with clock := now } :=
    fun s' h' => ⟨h'.unique, h'.sent, h'.known, h'.currentKnown, h'.ordered, h'.parts⟩
  unfold linkStep
  cases op with
  | send ip =>
      exact ⟨hclock _ (h.send order _ _), List.subset_append_left _ _, by simp [linkOp]⟩
  | elsewhere =>
      unfold linkOp
      cases sender.side with
      | server =>
          exact ⟨⟨h.unique, h.sent, h.known, h.currentKnown, h.ordered, h.parts⟩,
            List.Subset.refl _, by simp⟩
      | client => exact ⟨hclock s h, List.Subset.refl _, by simp⟩
  | lose => exact ⟨hclock _ h.lose, List.Subset.refl _, by simp [linkOp]⟩
  | sweep => exact ⟨hclock _ (h.sweep now), List.Subset.refl _, by simp [linkOp]⟩
  | deliver =>
      cases hflight : s.inFlight with
      | nil =>
          have hnothing : linkOp sender order stack s now .deliver = (s, []) := by
            simp only [linkOp, hflight]
          rw [hnothing]
          exact ⟨hclock s h, List.Subset.refl _, by simp⟩
      | cons d rest =>
          have hd : d ∈ s.inFlight := by
            rw [hflight]
            exact List.mem_cons_self
          have hfirst := hfresh rfl d (by rw [hflight]; rfl)
          obtain ⟨_, _, hevents⟩ :=
            h.deliver_table order sender.side.peer stack hd hfirst now
          have hnext := h.deliver order stack hflight hfirst now
          simp only [linkOp, hflight]
          refine ⟨hclock _ hnext, List.Subset.refl _, fun e he => ?_⟩
          exact (hevents e he).imp_right fun hwrite => ⟨d.packet, (h.sent d hd).1, hwrite⟩

end Steps

/-- In every run, with whatever loss and timing, in which the fragments of a packet
only ever start to arrive while no entry of its id is active: every packet the
receiver writes is one that the sender fragmented, byte for byte. -/
theorem reassembly_integrity (sender : Sender) (order : Endian) (stack : Nat → UInt8)
    (counter : UInt16) (start : Int) (acts : List LinkAct)
    (h : Along (linkStep sender order stack) NoStaleEntry (.start counter start) acts) :
    let result := run (linkStep sender order stack) (.start counter start) acts
    ∀ bytes length, .tunWrite bytes length ∈ result.2 →
      ∃ p ∈ result.1.sent, p.bytes = bytes ∧ length = bytes.length := by
  have hrun := run_history (linkStep sender order stack) NoStaleEntry
    (fun past s => InOrder sender s ∧
      ∀ e ∈ past, e = .tableFull ∨ ∃ p ∈ s.sent, e = p.write)
    (fun past s a hinv hok => by
      obtain ⟨hnext, hsent, hevents⟩ := linkStep_inOrder order stack hinv.1 a hok
      refine ⟨hnext, fun e he => ?_⟩
      have hsource := (List.mem_append.mp he).elim (hinv.2 e) (hevents e)
      exact hsource.imp_right fun ⟨p, hp, hwrite⟩ => ⟨p, hsent hp, hwrite⟩)
    [] (.start counter start) acts ⟨inOrder_start sender counter start, by simp⟩ h
  intro result bytes length hwritten
  rcases hrun.2 _ hwritten with hfull | ⟨p, hp, hwrite⟩
  · cases hfull
  · rw [Packet.write, ReassemblyEvent.tunWrite.injEq] at hwrite
    exact ⟨p, hp, hwrite.1.symm, by rw [hwrite.2, hwrite.1]⟩

/-- FRAG 64 leaves 40 bytes of payload. -/
def smallSender : Sender :=
  ⟨.server, ⟨5, 64, 'N'.toUInt8, 'N'.toUInt8⟩, fun _ _ => Octets.zero sessionIdLen,
    by decide, by decide⟩

/-- A packet of sixty equal bytes. -/
def uniform (byte : UInt8) : IpPacket where
  bytes := List.replicate 60 byte
  long := by rw [List.length_replicate]; decide
  short := by rw [List.length_replicate]; decide

def sevens : IpPacket := uniform 7
def nines : IpPacket := uniform 9

/-- Both fragments of one packet arrive, and it is written. -/
theorem reassembly_integrity_one_packet :
    let acts : List LinkAct := [⟨0, .send sevens⟩, ⟨0, .deliver⟩, ⟨1, .deliver⟩]
    let result := run (linkStep smallSender .little fun _ => 0) (.start 1 0) acts
    Along (linkStep smallSender .little fun _ => 0) NoStaleEntry (.start 1 0) acts ∧
      .tunWrite sevens.bytes 60 ∈ result.2 ∧
      ∃ p ∈ result.1.sent, p.bytes = sevens.bytes ∧ 60 = sevens.bytes.length := by
  intro acts result
  have hclean : Along (linkStep smallSender .little fun _ => 0) NoStaleEntry (.start 1 0)
      acts := by
    refine ⟨LinkOp.noConfusion, fun _ d _ => Or.inr (absent_emptyTable d.packet),
      fun _ d hd => Or.inl ?_, trivial⟩
    have hhead : (run (linkStep smallSender .little fun _ => 0) (.start 1 0)
        [⟨0, .send sevens⟩, ⟨0, .deliver⟩]).1.inFlight.head? =
        some ⟨0, ⟨1, sevens.bytes, sevens.long, sevens.short⟩, 1⟩ := by decide +kernel
    have hsame := Option.mem_unique hd hhead
    rw [hsame]
    rfl
  have hwritten : .tunWrite sevens.bytes 60 ∈ result.2 := by decide +kernel
  exact ⟨hclean, hwritten, reassembly_integrity smallSender .little (fun _ => 0) 1 0 acts
    hclean sevens.bytes 60 hwritten⟩

section Wrap

/-- Drawing ids up to the last one leaves the counter at 0. -/
theorem iterate_fragmentNextPacketId (counter : UInt16) (n : Nat)
    (hpos : 0 < counter.toNat) (hn : counter.toNat + n ≤ 2 ^ 16) :
    (fun c => (fragmentNextPacketId c).2)^[n] counter =
      UInt16.ofNat (counter.toNat + n) := by
  induction n with
  | zero => simp
  | succ n ih =>
      rw [Function.iterate_succ_apply', ih (by omega), fragmentNextPacketId, if_neg]
      · rw [← Nat.add_assoc, UInt16.ofNat_add (counter.toNat + n) 1]
        rfl
      · intro hzero
        have hnat := congrArg UInt16.toNat hzero
        rw [UInt16.toNat_ofNat_of_lt' (by simp only [UInt16.size]; omega)] at hnat
        have hbase : (0 : UInt16).toNat = 0 := rfl
        omega

variable (sender : Sender) (hside : sender.side = .server) (order : Endian)
  (stack : Nat → UInt8)

include hside

theorem run_elsewhere (n : Nat) (s : Link) :
    run (linkStep sender order stack) s (List.replicate n ⟨s.clock, .elsewhere⟩) =
      ({ s with counter := (fun c => (fragmentNextPacketId c).2)^[n] s.counter }, []) := by
  induction n generalizing s with
  | zero => rfl
  | succ n ih =>
      have hstep : linkStep sender order stack s ⟨s.clock, .elsewhere⟩ =
          ({ s with counter := (fragmentNextPacketId s.counter).2 }, []) := by
        simp only [linkStep, linkOp, hside]
      rw [List.replicate_succ, run, hstep]
      have hrest := ih { s with counter := (fragmentNextPacketId s.counter).2 }
      dsimp only at hrest ⊢
      rw [hrest, Function.iterate_succ_apply]
      rfl

theorem along_elsewhere (n : Nat) (s : Link) (h : s.clock - s.lastSweep ≤ 5) :
    Along (linkStep sender order stack) OnTime s
      (List.replicate n ⟨s.clock, .elsewhere⟩) := by
  induction n generalizing s with
  | zero => trivial
  | succ n ih =>
      have hstep : linkStep sender order stack s ⟨s.clock, .elsewhere⟩ =
          ({ s with counter := (fragmentNextPacketId s.counter).2 }, []) := by
        simp only [linkStep, linkOp, hside]
      refine ⟨⟨le_refl _, h⟩, ?_⟩
      rw [hstep]
      exact ih { s with counter := (fragmentNextPacketId s.counter).2 } h

/-- A run in which other sessions draw ids for a while. -/
theorem run_across (opening closing : List LinkAct) (n : Nat) (s : Link) :
    let opened := (run (linkStep sender order stack) s opening).1
    let resumed := { opened with
      counter := (fun c => (fragmentNextPacketId c).2)^[n] opened.counter }
    run (linkStep sender order stack) s
        (opening ++ (List.replicate n ⟨opened.clock, .elsewhere⟩ ++ closing)) =
      ((run (linkStep sender order stack) resumed closing).1,
        (run (linkStep sender order stack) s opening).2 ++
          (run (linkStep sender order stack) resumed closing).2) := by
  intro opened resumed
  rw [run_append, run_append, run_elsewhere sender hside]
  rfl

theorem along_across (opening closing : List LinkAct) (n : Nat) (s : Link) :
    let opened := (run (linkStep sender order stack) s opening).1
    let resumed := { opened with
      counter := (fun c => (fragmentNextPacketId c).2)^[n] opened.counter }
    Along (linkStep sender order stack) OnTime s opening →
      opened.clock - opened.lastSweep ≤ 5 →
      Along (linkStep sender order stack) OnTime resumed closing →
      Along (linkStep sender order stack) OnTime s
        (opening ++ (List.replicate n ⟨opened.clock, .elsewhere⟩ ++ closing)) := by
  intro opened resumed hopening hgap hclosing
  rw [along_append, along_append, run_elsewhere sender hside]
  exact ⟨hopening, along_elsewhere sender hside order stack n opened hgap, hclosing⟩

end Wrap

instance (s : Link) (a : LinkAct) : Decidable (OnTime s a) :=
  inferInstanceAs (Decidable (s.clock ≤ a.now ∧ a.now - s.lastSweep ≤ 5))

/-- The first fragment of the first packet arrives, the second is lost. -/
def mixedOpening : List LinkAct :=
  [⟨0, .send sevens⟩, ⟨0, .deliver⟩, ⟨0, .lose⟩, ⟨5, .sweep⟩, ⟨10, .sweep⟩]

/-- The first fragment of the second packet is lost, the second arrives. -/
def mixedClosing : List LinkAct :=
  [⟨15, .sweep⟩, ⟨20, .sweep⟩, ⟨20, .send nines⟩, ⟨20, .lose⟩, ⟨20, .deliver⟩]

/-- A server with FRAG 64 sends 60 bytes of 7 under the id 1. The first fragment
arrives, the second is lost. Then 65534 packets of other sessions draw the ids from
2 to 65535, and 20 seconds after the start 60 bytes of 9 get the id 1 again. The first
fragment is lost, the second arrives: 40 bytes of 7 and 20 bytes of 9 are written as
one packet. -/
theorem reused_id_mixes_packets :
    let acts := mixedOpening ++ (List.replicate 65534 ⟨10, .elsewhere⟩ ++ mixedClosing)
    let result := run (linkStep smallSender .little fun _ => 0) (.start 1 0) acts
    let mixed := List.replicate 40 7 ++ List.replicate 20 9
    Along (linkStep smallSender .little fun _ => 0) OnTime (.start 1 0) acts ∧
      .tunWrite mixed 60 ∈ result.2 ∧ ∀ p ∈ result.1.sent, p.bytes ≠ mixed := by
  have hdrawn : (fun c => (fragmentNextPacketId c).2)^[65534] 2 = 0 :=
    iterate_fragmentNextPacketId 2 65534 (by decide) (by decide)
  have hrun := run_across smallSender rfl .little (fun _ => 0) mixedOpening
    mixedClosing 65534 (.start 1 0)
  have halong := along_across smallSender rfl .little (fun _ => 0) mixedOpening
    mixedClosing 65534 (.start 1 0)
  have hopened : (run (linkStep smallSender .little fun _ => 0) (.start 1 0)
        mixedOpening).1.counter = 2 ∧
      (run (linkStep smallSender .little fun _ => 0) (.start 1 0)
        mixedOpening).1.clock = 10 := by decide +kernel
  dsimp only at hrun halong ⊢
  rw [hopened.1, hopened.2, hdrawn] at hrun halong
  rw [hrun]
  refine ⟨halong (by decide +kernel) (by decide +kernel) (by decide +kernel), ?_, ?_⟩
  · decide +kernel
  · decide +kernel

end Chamlon.Reassembly
